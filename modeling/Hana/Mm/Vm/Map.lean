import Hana.Mm.Vm.Walk

/-!
# Mapping pages

`MapPage` is the effect of mapping one page: its leaf entry is written, the frame is
counted, and new empty tables may appear. `mappages` is a sequence of these steps, one for
each page of the range.
-/

namespace Hana.Vm

open Option

variable {A : Type}

/-! ## The entry that `mappages` writes -/

variable {f pte p nrMapped n vpn' u j : Nat}

lemma mapsFrame_entry {pa flags : Nat} (hpa : pa < 2 ^ 64) (h : flags < 2 ^ 10) :
    mapsFrame f (pa2pte pa ||| flags ||| pteV) = decide (frameOf pa = f) := by
  rw [mapsFrame, has_or_pteV, pte2pa_entry hpa h, Bool.true_and]

lemma userWritable_entry (pa flags : Nat) :
    userWritable (pa2pte pa ||| flags ||| pteV) = userWritable (flags ||| pteV) := by
  have hv : has (pa2pte pa ||| flags ||| pteV) pteV = has (flags ||| pteV) pteV :=
    has_entry (i := 0) (by decide)
  have hu : has (pa2pte pa ||| flags ||| pteV) pteU = has (flags ||| pteV) pteU :=
    has_entry (i := 4) (by decide)
  have hw : has (pa2pte pa ||| flags ||| pteV) pteW = has (flags ||| pteV) pteW :=
    has_entry (i := 2) (by decide)
  rw [userWritable, hv, hu, hw, userWritable]

lemma mapsFrame_of_valid (hv : has pte pteV = true) :
    mapsFrame f pte = decide (pte2pa pte = f) := by
  rw [mapsFrame, hv, Bool.true_and]

lemma mapsFrame_zero (f : Nat) : mapsFrame f 0 = false := rfl

/-! ## Effects -/

/-- `m'` is `m` with the page `vpn` of the table `r` mapped to the frame of `pa`. -/
structure MapPage (E : Env A) (Held : A → Nat → Nat → Prop) (r vpn pa flags : Nat) (m : Mem A)
    (tab : Nat → Option Place) (m' : Mem A) (tab' : Nat → Option Place) : Prop
    extends Extends Held r m tab m' tab' where
  leaf : ∀ {r'}, tab r' = some (rootPlace r') → ∀ vpn', leaf m' r' vpn' =
    if r' = r ∧ vpn' % 2 ^ 27 = vpn % 2 ^ 27 then pa2pte pa ||| flags ||| pteV
    else leaf m r' vpn'
  cnt : m'.cnt = (pageRefInc E pa m).cnt

/-- `n` pages from `vpn` on are mapped one after the other. -/
inductive MapPages (E : Env A) (Inv : A → Prop) (Held : A → Nat → Nat → Prop) (r flags : Nat) :
    (n vpn pa : Nat) → Mem A → (Nat → Option Place) → Mem A → (Nat → Option Place) → Prop
  | nil {vpn pa : Nat} {m m' : Mem A} {tab tab' : Nat → Option Place}
      (hg : Grow Held r m tab m' tab') : MapPages E Inv Held r flags 0 vpn pa m tab m' tab'
  | cons {n vpn pa : Nat} {m m₁ m' : Mem A} {tab tab₁ tab' : Nat → Option Place}
      (hp : MapPage E Held r vpn pa flags m tab m₁ tab₁) (hs : Shaped Inv Held m₁ tab₁)
      (hr : MapPages E Inv Held r flags n (vpn + 1) (pa + 4096) m₁ tab₁ m' tab') :
      MapPages E Inv Held r flags (n + 1) vpn pa m tab m' tab'

variable {q : Option Nat} {pl : Place}

section

variable {Inv : A → Prop} {Held : A → Nat → Nat → Prop} {lo hi : Nat} {E : Env A}
variable {m m₁ m' : Mem A} {tab tab₁ tab' : Nat → Option Place} {r vpn pa flags : Nat}

lemma MapPage.tablesOnly (h : MapPage E Held r vpn pa flags m tab m' tab') :
    TablesOnly Held r m tab m' tab' := by
  refine ⟨h.toExtends, fun hr' hne vpn' => ?_⟩
  rw [h.leaf hr', if_neg fun hand => hne hand.1]

lemma MapPage.grow (h : MapPage E Held r vpn pa flags m tab m₁ tab₁)
    (hg : Grow Held r m₁ tab₁ m' tab') : MapPage E Held r vpn pa flags m tab m' tab' := by
  refine ⟨h.toExtends.trans hg.toExtends, fun hr' vpn' => ?_, hg.cnt.trans h.cnt⟩
  rw [hg.leaf (h.le hr'), h.leaf hr']

lemma Grow.mapPage (hg : Grow Held r m tab m₁ tab₁)
    (h : MapPage E Held r vpn pa flags m₁ tab₁ m' tab') :
    MapPage E Held r vpn pa flags m tab m' tab' := by
  refine ⟨hg.toExtends.trans h.toExtends, fun hr' vpn' => ?_, ?_⟩
  · rw [h.leaf (hg.le hr'), hg.leaf hr']
  · rw [h.cnt]
    unfold pageRefInc
    split_ifs
    · simp only [hg.cnt]
    · exact hg.cnt

/-- Taking a reference changes the counters only. -/
lemma pageRefInc_same (E : Env A) (pa : Nat) (m : Mem A) :
    pageRefInc E pa m = { m with cnt := (pageRefInc E pa m).cnt } := by
  unfold pageRefInc
  split_ifs <;> rfl

/-- The body of the loop of `mappages`, up to the next entry. -/
lemma setPte_mapPage (E : Env A) (pa flags : Nat) (h : Shaped Inv Held m tab)
    (hr : tab r = some (rootPlace r)) (he : entryAddr m.pte r vpn = some p) :
    Shaped Inv Held (pageRefInc E pa (m.setPte p (pa2pte pa ||| flags ||| pteV))) tab ∧
      MapPage E Held r vpn pa flags m tab
        (pageRefInc E pa (m.setPte p (pa2pte pa ||| flags ||| pteV))) tab ∧
      (pageRefInc E pa (m.setPte p (pa2pte pa ||| flags ||| pteV))).pte =
        (m.setPte p (pa2pte pa ||| flags ||| pteV)).pte := by
  obtain ⟨t, ht, hp⟩ := (h.tables.entryAddr_eq_some_iff hr).mp he
  have htables : Tables (m.setPte p (pa2pte pa ||| flags ||| pteV)) tab := by
    rw [hp]
    exact h.tables.setLeaf ht (Nat.mod_lt _ (by decide))
  have hsame := pageRefInc_same E pa (m.setPte p (pa2pte pa ||| flags ||| pteV))
  have hpte : (pageRefInc E pa (m.setPte p (pa2pte pa ||| flags ||| pteV))).pte =
      (m.setPte p (pa2pte pa ||| flags ||| pteV)).pte := by rw [hsame]
  have halloc : (pageRefInc E pa (m.setPte p (pa2pte pa ||| flags ||| pteV))).alloc = m.alloc := by
    rw [hsame]
    rfl
  refine ⟨⟨?_, ?_, ?_⟩, ⟨⟨fun ht => ht, fun ht => ht, fun ht _ => ht, fun ht => .inl ht, ?_, ?_,
    ?_, ?_, ?_⟩, ?_, ?_⟩, hpte⟩
  · exact htables.congr fun _ _ => by rw [hpte]
  · rw [halloc]
    exact h.alloc
  · rw [halloc]
    exact h.held
  · rw [hsame]
    rfl
  · rw [hsame]
    rfl
  · rw [halloc]
    exact fun hq => hq
  · rw [halloc]
    exact fun hq => .inl hq
  · intro hc t' l i k ht' hk
    rw [hpte, hp]
    exact h.tables.setLeaf_clean ht (Nat.mod_lt _ (by decide)) hc t' l i k ht' hk
  · intro r' hr' vpn'
    rw [← h.tables.leaf_setPte hr he hr']
    unfold Vm.leaf
    rw [hpte]
  · unfold pageRefInc
    split_ifs <;> rfl

variable {va sz : Nat}

/-- The address that the loop looks up after `nrMapped` pages, below the range of an `int`. -/
lemma offsetVa_shiftRight (hn : nrMapped < 2 ^ 19)
    (hva : va / 4096 + nrMapped < 2 ^ 52) : offsetVa va nrMapped >>> 12 = va >>> 12 + nrMapped := by
  have hint : toInt32 (nrMapped * pgSize) = (nrMapped * 4096 : Nat) := by
    unfold toInt32 pgSize
    norm_cast
    omega
  unfold offsetVa
  omega

/-- The entry of the next page follows, unless the leaf table ends. -/
lemma next_entry (h : Shaped Inv Held m tab) (hr : tab r = some (rootPlace r))
    (he : entryAddr m.pte r vpn = some p) (hp : isPgAligned (p + 8) = false) :
    entryAddr m.pte r (vpn + 1) = some (p + 8) := by
  obtain ⟨t, ht, rfl⟩ := (h.tables.entryAddr_eq_some_iff hr).mp he
  have hdvd := h.tables.dvd ht
  have hno : ¬ 4096 ∣ t + 8 * (vpn % 512) + 8 := by
    rw [← isPgAligned_iff, hp]
    decide
  rw [h.tables.entryAddr_eq_some_iff hr]
  refine ⟨t, ?_, by omega⟩
  have hplace : leafPlace r (vpn + 1) = leafPlace r vpn := by
    simp only [leafPlace, Place.mk.injEq, true_and]
    omega
  rw [hplace]
  exact ht

/-- One turn of the loop of `mappages`: the page is mapped, and the pointer is where a walk for
the page of the next turn ends. -/
lemma mappagesLoop_turn (hE : E.Ok lo hi Inv Held) (hs : Shaped Inv Held m tab)
    (hr : tab r = some (rootPlace r)) (he : entryAddr m.pte r vpn = some pte)
    (hl : mappagesLoop E r va flags (n + 1) nrMapped pte pa m = some m') :
    ∃ vpn1 pte1 m₁ tab₁, Shaped Inv Held m₁ tab₁ ∧ MapPage E Held r vpn pa flags m tab m₁ tab₁ ∧
      vpn1 = (if 512 ∣ vpn + 1 then offsetVa va (nrMapped + 1) >>> 12 else vpn + 1) ∧
      entryAddr m₁.pte r vpn1 = some pte1 ∧
      (∀ a, (a >>> 12) % 2 ^ 27 = vpn1 % 2 ^ 27 → walk E r a true
        (pageRefInc E pa (m.setPte pte (pa2pte pa ||| flags ||| pteV))) = some (some pte1, m₁)) ∧
      mappagesLoop E r va flags n (nrMapped + 1) pte1 (wrap64 (pa + pgSize)) m₁ = some m' := by
  obtain ⟨hs1, hp1, _⟩ := setPte_mapPage E pa flags hs hr he
  have hend : isPgAligned (pte + 8) = true ↔ 512 ∣ vpn + 1 := by
    obtain ⟨t, ht, rfl⟩ := (hs.tables.entryAddr_eq_some_iff hr).mp he
    have hdvd := hs.tables.dvd ht
    rw [isPgAligned_iff]
    omega
  simp only [mappagesLoop] at hl
  cases hal : isPgAligned (pte + 8) with
  | true =>
    rw [if_pos hal] at hl
    obtain ⟨⟨q, m2⟩, hw, hl⟩ := bind_eq_some_iff.mp hl
    obtain ⟨p2, tab2, rfl, hs2, hg2, he2⟩ := walk_alloc hE hs1 hr hw
    refine ⟨_, p2, m2, tab2, hs2, hp1.grow hg2, (if_pos (hend.mp hal)).symm, he2, ?_, hl⟩
    intro a ha
    rw [walk_mod ha]
    exact hw
  | false =>
    have hno : ¬ 512 ∣ vpn + 1 := by
      rw [← hend, hal]
      decide
    rw [if_neg (by rw [hal]; decide)] at hl
    rw [← hs.tables.entryAddr_congr hs1.tables hr] at he
    have hnext := next_entry hs1 hr he hal
    refine ⟨_, pte + 8, _, tab, hs1, hp1, (if_neg hno).symm, hnext, ?_, hl⟩
    intro a ha
    rw [← entryAddr_mod ha] at hnext
    exact walk_of_entry true hnext

lemma mappagesLoop_spec (hE : E.Ok lo hi Inv Held) (nrMapped : Nat) (hint : nrMapped + n < 2 ^ 19)
    (hva : va / 4096 + nrMapped + n < 2 ^ 52) (hpa : pa + n * 4096 ≤ 2 ^ 64)
    (hs : Shaped Inv Held m tab) (hr : tab r = some (rootPlace r))
    (he : entryAddr m.pte r (va >>> 12 + nrMapped) = some pte)
    (hl : mappagesLoop E r va flags n nrMapped pte pa m = some m') :
    ∃ tab', Shaped Inv Held m' tab' ∧
      MapPages E Inv Held r flags n (va >>> 12 + nrMapped) pa m tab m' tab' := by
  induction n generalizing nrMapped pte pa m tab with
  | zero =>
    cases hl
    exact ⟨tab, hs, MapPages.nil Grow.refl⟩
  | succ n ih =>
    obtain ⟨vpn1, pte1, m₁, tab₁, hs1, hp1, hvpn1, he1, _, hl⟩ := mappagesLoop_turn hE hs hr he hl
    by_cases hn : n = 0
    · subst hn
      cases hl
      exact ⟨tab₁, hs1, MapPages.cons hp1 hs1 (MapPages.nil Grow.refl)⟩
    · have hwrap : wrap64 (pa + pgSize) = pa + 4096 := wrap64_of_lt (by unfold pgSize; omega)
      have hnext : vpn1 = va >>> 12 + (nrMapped + 1) := by
        rw [hvpn1, offsetVa_shiftRight (by omega) (by omega)]
        split_ifs <;> rfl
      rw [hwrap] at hl
      rw [hnext] at he1
      obtain ⟨tab', hs', hm'⟩ := ih (nrMapped + 1) (by omega) (by omega) (by omega) hs1 (hp1.le hr) he1 hl
      exact ⟨tab', hs', MapPages.cons hp1 hs1 hm'⟩

/-- `mappages` walks to its first page and maps from there. -/
lemma mappages_cases (hE : E.Ok lo hi Inv Held) (hs : Shaped Inv Held m tab)
    (hr : tab r = some (rootPlace r)) (hm : mappages E r va pa sz flags m = some m') :
    ∃ p m₁ tab₁, walk E r va true m = some (some p, m₁) ∧ Shaped Inv Held m₁ tab₁ ∧
      Grow Held r m tab m₁ tab₁ ∧ entryAddr m₁.pte r (va >>> 12) = some p ∧
      mappagesLoop E r va flags (mapCount va sz) 0 p pa m₁ = some m' := by
  simp only [mappages, bind_eq_bind, bind_eq_some_iff, Prod.exists] at hm
  obtain ⟨q, m₁, hw, p, rfl, hl⟩ := hm
  obtain ⟨_, tab₁, hq, hs1, hg1, he⟩ := walk_alloc hE hs hr hw
  cases hq
  exact ⟨p, m₁, tab₁, hw, hs1, hg1, he, hl⟩

/-- `mappages` maps the pages of the range in order. -/
lemma mappages_spec (hE : E.Ok lo hi Inv Held) (hs : Shaped Inv Held m tab)
    (hr : tab r = some (rootPlace r)) (hint : mapCount va sz < 2 ^ 19)
    (hva : va / 4096 + mapCount va sz < 2 ^ 52) (hpa : pa + mapCount va sz * 4096 ≤ 2 ^ 64)
    (hm : mappages E r va pa sz flags m = some m') :
    ∃ m₁ tab₁ tab', Grow Held r m tab m₁ tab₁ ∧ Shaped Inv Held m₁ tab₁ ∧ Shaped Inv Held m' tab' ∧
      MapPages E Inv Held r flags (mapCount va sz) (va >>> 12) pa m₁ tab₁ m' tab' := by
  obtain ⟨p, m₁, tab₁, -, hs1, hg1, he, hl⟩ := mappages_cases hE hs hr hm
  generalize mapCount va sz = n at *
  obtain ⟨tab', hs', hm'⟩ := mappagesLoop_spec hE 0 (by omega) (by omega) hpa hs1 (hg1.le hr)
    he hl
  exact ⟨m₁, tab₁, tab', hg1, hs1, hs', hm'⟩

/-- Pages outside of the range keep their entries. -/
lemma MapPages.leaf_outside (h : MapPages E Inv Held r flags n vpn pa m tab m' tab')
    (hr : tab r = some (rootPlace r)) (hout : ∀ i < n, vpn' % 2 ^ 27 ≠ (vpn + i) % 2 ^ 27) :
    leaf m' r vpn' = leaf m r vpn' := by
  induction h with
  | nil hg => exact hg.leaf hr vpn'
  | cons hp _ _ ih =>
    rw [ih (hp.le hr) fun i hi => ?_, hp.leaf hr, if_neg fun hand => hout 0 (Nat.succ_pos _) hand.2]
    have := hout (i + 1) (Nat.succ_lt_succ hi)
    rwa [← add_assoc, add_right_comm] at this

lemma mappages_leaf_outside (hE : E.Ok lo hi Inv Held) (hs : Shaped Inv Held m tab)
    (hr : tab r = some (rootPlace r)) {vpn' : Nat} (hint : mapCount va sz < 2 ^ 19)
    (hva : va / 4096 + mapCount va sz < 2 ^ 52) (hpa : pa + mapCount va sz * 4096 ≤ 2 ^ 64)
    (hout : ∀ i < mapCount va sz, vpn' % 2 ^ 27 ≠ (va >>> 12 + i) % 2 ^ 27)
    (hm : mappages E r va pa sz flags m = some m') : leaf m' r vpn' = leaf m r vpn' := by
  obtain ⟨m₁, tab₁, tab', hg, _, _, hp⟩ := mappages_spec hE hs hr hint hva hpa hm
  rw [hp.leaf_outside (hg.le hr) hout, hg.leaf hr]

lemma mapCount_page (hdvd : 4096 ∣ va) (hva : va + 8192 ≤ 2 ^ 64) :
    mapCount va pgSize = 1 := by
  have hdown : pgRoundDown va = va := by
    rw [pgRoundDown_eq (by omega)]
    omega
  have hlast : wrap64 (va + pgSize + (2 ^ 64 - 1)) = va + 4095 := by
    unfold wrap64 pgSize
    omega
  have hup : pgRoundUp (va + 4095) = va + 4096 := by
    rw [pgRoundUp_eq (by omega)]
    omega
  have hdiff : wrap64 (va + 4096 + (2 ^ 64 - va)) >>> pgShift = 1 := by
    have hw : wrap64 (va + 4096 + (2 ^ 64 - va)) = 4096 := by
      unfold wrap64
      omega
    rw [hw, pgShift, Nat.shiftRight_eq_div_pow]
  simp only [mapCount, hdown, hlast, hup, hdiff]
  exact toInt32_toNat_of_lt (by decide)

/-- Mapping a single page. -/
lemma mappages_page (hE : E.Ok lo hi Inv Held) (hs : Shaped Inv Held m tab)
    (hr : tab r = some (rootPlace r)) (hdvd : 4096 ∣ va) (hva : va + 8192 ≤ 2 ^ 64)
    (hpa : pa + 4096 ≤ 2 ^ 64) (hm : mappages E r va pa pgSize flags m = some m') :
    ∃ tab', Shaped Inv Held m' tab' ∧
      MapPage E Held r (va >>> 12) pa flags m tab m' tab' := by
  have hcount := mapCount_page hdvd hva
  obtain ⟨m₁, tab₁, tab', hg1, hs1, hs', hm'⟩ := mappages_spec hE hs hr (by rw [hcount]; decide)
    (by rw [hcount]; omega) (by rw [hcount]; omega) hm
  rw [hcount] at hm'
  cases hm' with
  | cons hp _ hrest =>
    cases hrest with
    | nil hg => exact ⟨tab', hs', hg1.mapPage (hp.grow hg)⟩

/-! ## Other tables

However many pages are mapped and whatever their addresses, the other tables keep their
entries. -/

/-- The leaf entries of `r` in `m'` are those in `m` or new ones with the flags `flags`. -/
def Entries (r flags : Nat) (m m' : Mem A) : Prop :=
  ∀ vpn, leaf m' r vpn = leaf m r vpn ∨ ∃ pa, leaf m' r vpn = pa2pte pa ||| flags ||| pteV

lemma Entries.trans (h : Entries r flags m m₁) (h' : Entries r flags m₁ m') :
    Entries r flags m m' := by
  intro vpn
  rcases h' vpn with heq | hnew
  · rw [heq]
    exact h vpn
  · exact .inr hnew

lemma MapPage.entries (h : MapPage E Held r vpn pa flags m tab m' tab')
    (hr : tab r = some (rootPlace r)) : Entries r flags m m' := by
  intro vpn'
  rw [h.leaf hr]
  split_ifs
  · exact .inr ⟨pa, rfl⟩
  · exact .inl rfl

section

variable (hE : E.Ok lo hi Inv Held)
include hE

lemma mappagesLoop_tablesOnly (hs : Shaped Inv Held m tab) (hr : tab r = some (rootPlace r))
    (he : entryAddr m.pte r vpn = some pte)
    (hl : mappagesLoop E r va flags n nrMapped pte pa m = some m') :
    ∃ tab', Shaped Inv Held m' tab' ∧ TablesOnly Held r m tab m' tab' ∧ Entries r flags m m' := by
  induction n generalizing nrMapped pte pa vpn m tab with
  | zero =>
    cases hl
    exact ⟨tab, hs, TablesOnly.refl, fun _ => .inl rfl⟩
  | succ n ih =>
    obtain ⟨vpn1, pte1, m₁, tab₁, hs1, hp1, _, he1, _, hl⟩ := mappagesLoop_turn hE hs hr he hl
    obtain ⟨tab', hs', hb', he'⟩ := ih hs1 (hp1.le hr) he1 hl
    exact ⟨tab', hs', hp1.tablesOnly.trans hb', (hp1.entries hr).trans he'⟩

lemma mappages_entries (hs : Shaped Inv Held m tab)
    (hr : tab r = some (rootPlace r)) (hm : mappages E r va pa sz flags m = some m') :
    ∃ tab', Shaped Inv Held m' tab' ∧ TablesOnly Held r m tab m' tab' ∧ Entries r flags m m' := by
  obtain ⟨p, m₁, tab₁, -, hs1, hg1, he, hl⟩ := mappages_cases hE hs hr hm
  obtain ⟨tab', hs', hb', he'⟩ :=
    mappagesLoop_tablesOnly hE hs1 (hg1.le hr) he hl
  have hgrow : Entries r flags m m₁ := fun vpn => .inl (hg1.leaf hr vpn)
  exact ⟨tab', hs', hg1.tablesOnly.trans hb', hgrow.trans he'⟩

lemma mappages_tablesOnly (hs : Shaped Inv Held m tab)
    (hr : tab r = some (rootPlace r)) (hm : mappages E r va pa sz flags m = some m') :
    ∃ tab', Shaped Inv Held m' tab' ∧ TablesOnly Held r m tab m' tab' := by
  obtain ⟨tab', hs', ht, _⟩ := mappages_entries hE hs hr hm
  exact ⟨tab', hs', ht⟩

lemma mappages_beside (hs : Shaped Inv Held m tab)
    (hr : tab r = some (rootPlace r)) (hm : mappages E r va pa sz flags m = some m') :
    ∃ tab', Shaped Inv Held m' tab' ∧ Beside r m tab m' tab' := by
  obtain ⟨tab', hs', ht⟩ := mappages_tablesOnly hE hs hr hm
  exact ⟨tab', hs', ht.beside⟩

/-! ## Words of the other roots -/

lemma walkStep_words (h : Shaped Inv Held m tab) {t l i k : Nat} (ht : tab t = some ⟨r, l + 1, i⟩)
    (hw : walkStep E true (t + 8 * k) m = some (q, m')) (hk : k < 512) (hu : tab u = some pl)
    (hne : pl.root ≠ r) (hj : j < 512) :
    m'.pte (u + 8 * j) = m.pte (u + 8 * j) := by
  have hdvdt := h.tables.dvd ht
  have hdvdu := h.tables.dvd hu
  have hplace : u ≠ t := by
    rintro rfl
    rw [ht] at hu
    cases hu
    exact hne rfl
  have hentry : u + 8 * j ≠ t + 8 * k := by omega
  unfold walkStep at hw
  by_cases hv : has (m.pte (t + 8 * k)) pteV = true
  · rw [if_pos hv] at hw
    cases hw
    rfl
  · rw [if_neg hv, if_pos rfl] at hw
    obtain ⟨⟨t', m2⟩, halloc, hw⟩ := bind_eq_some_iff.mp hw
    obtain ⟨⟨t'', m₁⟩, hkalloc, heq⟩ := bind_eq_some_iff.mp halloc
    cases heq
    obtain ⟨hnew, hdvd, _, _, _, _, hm1, _⟩ := kalloc_page hE h hkalloc
    have hclear : (clearTable t' m₁).pte (u + 8 * j) = m.pte (u + 8 * j) := by
      rw [clearTable_of_ne hdvdu hdvd (ne_of_new hnew hu) hj, hm1]
    dsimp only at hw
    split_ifs at hw
    · cases hw
      simp only [Mem.setPte, Function.update_of_ne hentry]
      exact hclear
    · cases hw
      simp only [Mem.setPte, Function.update_of_ne hentry]
      exact hclear

lemma walk_words (h : Shaped Inv Held m tab)
    (hr : tab r = some (rootPlace r)) (hw : walk E r va true m = some (q, m'))
    (hu : tab u = some pl) (hne : pl.root ≠ r) (hj : j < 512) :
    m'.pte (u + 8 * j) = m.pte (u + 8 * j) := by
  have hr2 : tab r = some ⟨r, 1 + 1, 0⟩ := hr
  simp only [walk, walkLoop, and_511] at hw
  obtain ⟨⟨q1, m₁⟩, hw1, hw⟩ := bind_eq_some_iff.mp hw
  have hi1 := Nat.mod_lt ((va >>> 12) >>> 18) (show 512 > 0 by decide)
  obtain ⟨u1, tab₁, rfl, h1, hg1, hu1⟩ := walkStep_alloc hE h hr2 hi1 hw1
  obtain ⟨⟨q0, m0⟩, hw0, hw⟩ := bind_eq_some_iff.mp hw
  have hi0 := Nat.mod_lt ((va >>> 12) >>> 9) (show 512 > 0 by decide)
  have hfirst := walkStep_words hE h hr2 hw1 hi1 hu hne hj
  have hsecond := walkStep_words hE h1 hu1 hw0 hi0 (hg1.le hu) hne hj
  obtain ⟨u0, tab0, rfl, _⟩ := walkStep_alloc hE h1 hu1 hi0 hw0
  cases hw
  rw [hsecond, hfirst]

lemma mappagesLoop_words (hs : Shaped Inv Held m tab) (hr : tab r = some (rootPlace r))
    (he : entryAddr m.pte r vpn = some pte)
    (hl : mappagesLoop E r va flags n nrMapped pte pa m = some m') (hu : tab u = some pl)
    (hne : pl.root ≠ r) (hj : j < 512) : m'.pte (u + 8 * j) = m.pte (u + 8 * j) := by
  induction n generalizing nrMapped pte pa vpn m tab with
  | zero =>
    cases hl
    rfl
  | succ n ih =>
    obtain ⟨hs0, _, hpte0⟩ := setPte_mapPage E pa flags hs hr he
    obtain ⟨t, ht, hp⟩ := (hs.tables.entryAddr_eq_some_iff hr).mp he
    obtain ⟨vpn1, pte1, m₁, tab₁, hs1, hp1, _, he1, hwalk, hl⟩ := mappagesLoop_turn hE hs hr he hl
    have hpage : (vpn1 * 4096) >>> 12 = vpn1 := by
      omega
    have hw := hwalk (vpn1 * 4096) (by rw [hpage])
    have hentry : u + 8 * j ≠ pte := by
      have hdvdt := hs.tables.dvd ht
      have hdvdu := hs.tables.dvd hu
      have hplace : u ≠ t := by
        rintro rfl
        rw [ht] at hu
        cases hu
        exact hne rfl
      omega
    rw [ih hs1 (hp1.le hr) he1 hl (hp1.le hu),
      walk_words hE hs0 hr hw hu hne hj, hpte0]
    exact Function.update_of_ne hentry _ _

/-- A mapping below one root does not write to the tables of the others. -/
lemma mappages_words (hs : Shaped Inv Held m tab)
    (hr : tab r = some (rootPlace r)) (hm : mappages E r va pa sz flags m = some m')
    (hu : tab u = some pl) (hne : pl.root ≠ r) (hj : j < 512) :
    m'.pte (u + 8 * j) = m.pte (u + 8 * j) := by
  obtain ⟨p, m₁, tab₁, hw, hs1, hg1, he, hl⟩ := mappages_cases hE hs hr hm
  rw [mappagesLoop_words hE hs1 (hg1.le hr) he hl (hg1.le hu) hne hj,
    walk_words hE hs hr hw hu hne hj]

end

end

end Hana.Vm
