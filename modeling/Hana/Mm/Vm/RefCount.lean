import Hana.Lib.Run
import Hana.Mm.Vm.Boot
import Hana.Mm.Vm.Copy
import Hana.Mm.Vm.Unmap

/-!
# Frame counters over whole runs

The state is the memory together with the list of page tables that were made; a step is one
of the operations that write leaf entries, or an allocation. The counter of a frame should
be the number of leaf entries that map it, and a frame should be freed by the step that
removes the last of them. `CountCond` is what a step has to meet for that: it does not
overwrite an entry that maps a managed frame, the counters have room for the new mappings,
`copyout` meets no shared page (it does not count the frame it maps) and stores to allocated
pages that are no tables, and a frame that is given up for the last time is a page of its own.
When a frame is freed, no allocated page may look like a free block.
-/

namespace Hana.Vm

open Lib List Option

variable {A : Type}

/-- The memory and the roots of the page tables. -/
structure VmSys (A : Type) where
  mem : Mem A
  roots : List Nat

inductive VmOp
  | newTable
  | kalloc (sz : Nat)
  | mappages (r va pa sz flags : Nat)
  | uvmcopy (c p sz : Nat)
  | copyout (r dstva : Nat) (src : List Nat)
  | storeFault (r badv : Nat)
  | uvmunmap (r va npages : Nat)

/-- One operation on the tables of `s.roots`. -/
def vmStep (E : Env A) (s : VmSys A) (op : VmOp) (s' : VmSys A) : Prop :=
  match op with
  | .newTable => ∃ t, allocPagetable E s.mem = some (t, s'.mem) ∧ s'.roots = t :: s.roots
  | .kalloc sz => 0 < sz ∧ sz ≤ 4 * 2 ^ 20 ∧ ∃ p, kalloc E sz s.mem = some (p, s'.mem) ∧
      s'.roots = s.roots
  | .mappages r va pa sz flags => r ∈ s.roots ∧
      mappages E r va pa sz flags s.mem = some s'.mem ∧ s'.roots = s.roots
  | .uvmcopy c p sz => c ∈ s.roots ∧ p ∈ s.roots ∧ uvmcopy E c p sz s.mem = some s'.mem ∧
      s'.roots = s.roots
  | .copyout r dstva src => r ∈ s.roots ∧ dstva < 2 ^ 64 ∧
      (∃ res, copyout E r dstva src s.mem = some (res, s'.mem)) ∧ s'.roots = s.roots
  | .storeFault r badv => r ∈ s.roots ∧ storePageFault E r badv s.mem = some s'.mem ∧
      s'.roots = s.roots
  | .uvmunmap r va npages => r ∈ s.roots ∧ uvmunmap E r va npages true s.mem = some s'.mem ∧
      s'.roots = s.roots

/-- The page of a table: a root, or a table that a valid entry above it names. -/
def IsTable (m : Mem A) (roots : List Nat) (t : Nat) : Prop :=
  ∃ r ∈ roots, t = r ∨ ∃ i < 512, has (m.pte (r + 8 * i)) pteV = true ∧
    (t = pte2pa (m.pte (r + 8 * i)) ∨
      ∃ j < 512, has (m.pte (pte2pa (m.pte (r + 8 * i)) + 8 * j)) pteV = true ∧
        t = pte2pa (m.pte (pte2pa (m.pte (r + 8 * i)) + 8 * j)))

/-- The page maps no managed frame. -/
def Vacant (lo hi : Nat) (m : Mem A) (r vpn : Nat) : Prop :=
  ∀ f, Managed lo hi f → mapsFrame f (leaf m r vpn) = false

/-- What a step has to meet for its counters to stay exact. -/
def CountCond (E : Env A) (lo hi : Nat) (Held : A → Nat → Nat → Prop) (s : VmSys A) (op : VmOp) :
    Prop :=
  match op with
  | .mappages r va pa sz flags =>
    mapCount va sz < 2 ^ 19 ∧ va / 4096 + mapCount va sz < 2 ^ 52 ∧
      pa + mapCount va sz * 4096 ≤ 2 ^ 64 ∧ flags < 2 ^ 10 ∧
      (∀ i < mapCount va sz, Vacant lo hi s.mem r (va >>> 12 + i)) ∧
      ∀ i < mapCount va sz, Managed lo hi (frameOf (pa + 4096 * i)) →
        refs s.mem s.roots (frameOf (pa + 4096 * i)) < 255
  | .uvmcopy c p sz =>
    p ≠ c ∧ sz ≤ 2 ^ 39 ∧ (∀ vpn < copyCount sz, Vacant lo hi s.mem c vpn) ∧
      ∀ f, Managed lo hi f → refs s.mem s.roots f + copiesOf s.mem p 0 (copyCount sz) f < 256
  | .copyout r dstva src =>
    ∀ i < src.length, has (leaf s.mem r (wrap64 (dstva + i) >>> 12)) pteCow = false ∧
      (has (leaf s.mem r (wrap64 (dstva + i) >>> 12)) pteV = true →
        Owned Held s.mem.alloc (pte2pa (leaf s.mem r (wrap64 (dstva + i) >>> 12))) ∧
          ¬ IsTable s.mem s.roots (pte2pa (leaf s.mem r (wrap64 (dstva + i) >>> 12))))
  | .storeFault r badv =>
    Unforged Held s.mem ∧ (lastRef E s.mem (pte2pa (leaf s.mem r (pgRoundDown badv >>> 12))) = true →
      Held s.mem.alloc (pte2pa (leaf s.mem r (pgRoundDown badv >>> 12))) 1 ∧
        ¬ IsTable s.mem s.roots (pte2pa (leaf s.mem r (pgRoundDown badv >>> 12)))) ∧
      ∀ f, Managed lo hi f → ¬ Owned Held s.mem.alloc f → refs s.mem s.roots f < 255
  | _ => True

/-- The counters of the managed frames are the numbers of their mappings, which fit in a byte. -/
def Counts (E : Env A) (lo hi : Nat) (s : VmSys A) : Prop :=
  ∀ f, Managed lo hi f →
    s.mem.cnt (pageIndex E f) = refs s.mem s.roots f ∧ refs s.mem s.roots f < 256

/-- The step frees exactly the frames that lose their last mapping, each of them once. -/
def FreesLast (lo hi : Nat) (s s' : VmSys A) : Prop :=
  ∃ freed, s'.mem.kfreed = s.mem.kfreed ++ freed ∧ freed.Nodup ∧
    ∀ f, f ∈ freed ↔ Managed lo hi f ∧ refs s.mem s.roots f = 1 ∧ refs s'.mem s'.roots f = 0

/-- The tables are well formed and the counters are exact. -/
def CountInv (E : Env A) (lo hi : Nat) (Inv : A → Prop) (Held : A → Nat → Nat → Prop)
    (s : VmSys A) : Prop :=
  ∃ tab, Shaped Inv Held s.mem tab ∧ (∀ r, r ∈ s.roots ↔ tab r = some (rootPlace r)) ∧
    s.roots.Nodup ∧ Counts E lo hi s

/-! ## One mapping -/

section

variable {Inv : A → Prop} {Held : A → Nat → Nat → Prop} {lo hi : Nat} {E : Env A}
variable {m m' : Mem A} {tab tab' : Nat → Option Place} {roots : List Nat}
variable {r c p vpn pa flags : Nat} {s s' : VmSys A}

/-- Mapping pages one after the other, in vacant pages and below the limit of the counters. -/
lemma MapPages.counts (hE : E.Ok lo hi Inv Held) {n : Nat} (hflags : flags < 2 ^ 10)
    (hnd : roots.Nodup) (hr : r ∈ roots) (h : MapPages E Inv Held r flags n vpn pa m tab m' tab') :
    (∀ r' ∈ roots, tab r' = some (rootPlace r')) → n ≤ 2 ^ 27 → pa + n * 4096 ≤ 2 ^ 64 →
    (∀ i < n, Vacant lo hi m r (vpn + i)) →
    (∀ i < n, Managed lo hi (frameOf (pa + 4096 * i)) → refs m roots (frameOf (pa + 4096 * i)) < 255) →
    Counts E lo hi ⟨m, roots⟩ →
    Counts E lo hi ⟨m', roots⟩ ∧ m'.kfreed = m.kfreed ∧
      (∀ f, Managed lo hi f → refs m roots f ≤ refs m' roots f) ∧
      (∀ {t pl}, tab t = some pl → tab' t = some pl) ∧
      ∀ {r'}, tab' r' = some (rootPlace r') → tab r' = some (rootPlace r') := by
  induction h with
  | nil hg =>
    intro hroots _ _ _ _ hcounts
    have hsame := fun f => refs_congr (fun r' hr' => hg.leaf (hroots r' hr')) f
    refine ⟨?_, hg.kfreed, ?_, hg.le, hg.root⟩
    · intro f hf
      rw [hsame f, hg.cnt]
      exact hcounts f hf
    · intro f _
      rw [hsame f]
  | @cons n vpn pa m m1 m' tab tab1 tab' hp hs hrest ih =>
    intro hroots hn hpa hvacant hsmall hcounts
    have hpalt : pa < 2 ^ 64 := by omega
    have hrefs : ∀ f, Managed lo hi f →
        refs m1 roots f = refs m roots f + if frameOf pa = f then 1 else 0 :=
      fun f hf => hp.refs_eq hroots hnd hr hpalt hflags (hvacant 0 (by omega) f hf)
    have hcounts1 : Counts E lo hi ⟨m1, roots⟩ := by
      intro f hf
      have hcnt := hp.cnt_managed hE hf hpalt
      obtain ⟨hold, hbound⟩ : m.cnt (pageIndex E f) = refs m roots f ∧ refs m roots f < 256 :=
        hcounts f hf
      rw [hcnt, hrefs f hf, hold]
      by_cases heq : frameOf pa = f
      · have hlt := hsmall 0 (by omega)
        simp only [Nat.mul_zero, add_zero, heq] at hlt
        have hlt := hlt hf
        rw [if_pos heq, if_pos heq, Nat.mod_eq_of_lt (by omega)]
        exact ⟨rfl, by omega⟩
      · rw [if_neg heq, if_neg heq, add_zero]
        exact ⟨rfl, hbound⟩
    obtain ⟨hcounts', hkfreed, hmono, hle, hroot⟩ := ih (fun r' hr' => hp.le (hroots r' hr'))
      (by omega) (by omega) (by
        intro i hi f hf
        have hv := hvacant (i + 1) (by omega) f hf
        rw [hp.leaf (hroots r hr), if_neg (by omega)]
        have hidx : vpn + 1 + i = vpn + (i + 1) := by omega
        rw [hidx]
        exact hv) (by
        intro i hi hm
        have hidx : pa + 4096 + 4096 * i = pa + 4096 * (i + 1) := by omega
        rw [hidx] at hm ⊢
        have hne : frameOf pa ≠ frameOf (pa + 4096 * (i + 1)) := by
          unfold frameOf
          omega
        rw [hrefs _ hm, if_neg hne, add_zero]
        exact hsmall (i + 1) (by omega) hm) hcounts1
    refine ⟨hcounts', ?_, ?_, fun ht => hle (hp.le ht), fun ht => hp.root (hroot ht)⟩
    · rw [hkfreed, hp.kfreed]
    · intro f hf
      have h1 := hrefs f hf
      have h2 := hmono f hf
      omega

/-! ## One step -/

/-- A step that frees nothing and takes no mapping away. -/
lemma FreesLast.of_le (hkfreed : s'.mem.kfreed = s.mem.kfreed)
    (h : ∀ f, Managed lo hi f → refs s.mem s.roots f ≤ refs s'.mem s'.roots f) :
    FreesLast lo hi s s' := by
  refine ⟨[], by rw [hkfreed, append_nil], nodup_nil, ?_⟩
  intro f
  constructor
  · intro hf
    cases hf
  · rintro ⟨hf, hone, hzero⟩
    have hle := h f hf
    omega

/-- A step that leaves the tables and the counters alone. -/
lemma CountInv.same (hinv : CountInv E lo hi Inv Held s) (hroots' : s'.roots = s.roots)
    (hshaped : ∀ tab, Shaped Inv Held s.mem tab → Shaped Inv Held s'.mem tab ∧
      s'.mem = { s.mem with alloc := s'.mem.alloc, byte := s'.mem.byte }) :
    CountInv E lo hi Inv Held s' ∧ FreesLast lo hi s s' := by
  obtain ⟨tab, hs, hroots, hnd, hcounts⟩ := hinv
  obtain ⟨hs', hsame⟩ := hshaped tab hs
  have hrefs : ∀ f, refs s'.mem s'.roots f = refs s.mem s.roots f := by
    intro f
    rw [hroots', hsame]
    exact refs_congr (fun _ _ _ => rfl) f
  refine ⟨⟨tab, hs', by rwa [hroots'], by rwa [hroots'], fun f hf => ?_⟩,
    FreesLast.of_le (by rw [hsame]) fun f _ => (hrefs f).ge⟩
  rw [hrefs, hsame]
  exact hcounts f hf

lemma newTable_count (hE : E.Ok lo hi Inv Held) (hinv : CountInv E lo hi Inv Held s)
    (h : vmStep E s .newTable s') : CountInv E lo hi Inv Held s' ∧ FreesLast lo hi s s' := by
  obtain ⟨tab, hs, hroots, hnd, hcounts⟩ := hinv
  obtain ⟨t, hk, hroots'⟩ := h
  obtain ⟨tab', hs', hnew, hroot, hle, hzero, hold, hback, hsame, _⟩ := allocPagetable_spec hE hs hk
  have hrefs : ∀ f, refs s'.mem s'.roots f = refs s.mem s.roots f := by
    intro f
    have hnone : slotCount (2 ^ 27) (leaf s'.mem t) (mapsFrame f) = 0 :=
      slotCount_eq_zero fun vpn _ => by rw [hzero]; rfl
    have hothers : refs s'.mem s.roots f = refs s.mem s.roots f :=
      refs_congr (fun r hr => hold ((hroots r).mp hr)) f
    rw [hroots']
    unfold refs at hothers ⊢
    rw [map_cons, sum_cons, hnone, zero_add, hothers]
  refine ⟨⟨tab', hs', ?_, ?_, ?_⟩, FreesLast.of_le ?_ fun f _ => ?_⟩
  · intro r
    rw [hroots', mem_cons]
    constructor
    · rintro (rfl | hr)
      · exact hroot
      · exact hle ((hroots r).mp hr)
    · intro hr
      rcases hback hr with rfl | hr
      · exact .inl rfl
      · exact .inr ((hroots r).mpr hr)
  · rw [hroots', nodup_cons]
    refine ⟨fun ht => ?_, hnd⟩
    have hsome := (hroots t).mp ht
    rw [hnew] at hsome
    cases hsome
  · intro f hf
    rw [hrefs, hsame]
    exact hcounts f hf
  · rw [hsame]
  · rw [hrefs]

lemma kalloc_count (hE : E.Ok lo hi Inv Held) {sz : Nat} (hinv : CountInv E lo hi Inv Held s)
    (h : vmStep E s (.kalloc sz) s') : CountInv E lo hi Inv Held s' ∧ FreesLast lo hi s s' := by
  obtain ⟨hpos, hsz, q, hk, hroots'⟩ := h
  refine hinv.same hroots' fun tab hs => ?_
  obtain ⟨hs', hsame⟩ := kalloc_shaped hE hs hpos hsz hk
  exact ⟨hs', by rw [hsame]⟩

lemma mappages_count (hE : E.Ok lo hi Inv Held) {r va pa sz flags : Nat}
    (hinv : CountInv E lo hi Inv Held s) (hc : CountCond E lo hi Held s (.mappages r va pa sz flags))
    (h : vmStep E s (.mappages r va pa sz flags) s') :
    CountInv E lo hi Inv Held s' ∧ FreesLast lo hi s s' := by
  obtain ⟨tab, hs, hroots, hnd, hcounts⟩ := hinv
  obtain ⟨hint, hva, hpa, hflags, hvacant, hsmall⟩ := hc
  obtain ⟨hr, hm, hroots'⟩ := h
  obtain ⟨m1, tab1, tab', hg, hs1, hs', hpages⟩ :=
    mappages_spec hE hs ((hroots r).mp hr) hint hva hpa hm
  have hsame : ∀ f, refs m1 s.roots f = refs s.mem s.roots f :=
    refs_congr fun r' hr' => hg.leaf ((hroots r').mp hr')
  have hcounts1 : Counts E lo hi ⟨m1, s.roots⟩ := by
    intro f hf
    rw [hsame, hg.cnt]
    exact hcounts f hf
  obtain ⟨hcounts', hkfreed, hmono, hle, hroot⟩ := hpages.counts hE hflags hnd hr
    (fun r' hr' => hg.le ((hroots r').mp hr')) (by omega) hpa
    (fun i hi f hf => by rw [hg.leaf ((hroots r).mp hr)]; exact hvacant i hi f hf)
    (fun i hi hm => by rw [hsame]; exact hsmall i hi hm) hcounts1
  have hs'eq : s' = ⟨s'.mem, s.roots⟩ := by
    rw [← hroots']
  refine ⟨⟨tab', hs', ?_, ?_, ?_⟩, FreesLast.of_le ?_ ?_⟩
  · intro r'
    rw [hroots', hroots r']
    exact ⟨fun ht => hle (hg.le ht), fun ht => hg.root (hroot ht)⟩
  · rw [hroots']
    exact hnd
  · rw [hs'eq]
    exact hcounts'
  · rw [hkfreed, hg.kfreed]
  · intro f hf
    rw [hroots', ← hsame f]
    exact hmono f hf

lemma uvmcopy_count (hE : E.Ok lo hi Inv Held) {sz : Nat} (hinv : CountInv E lo hi Inv Held s)
    (hcond : CountCond E lo hi Held s (.uvmcopy c p sz)) (h : vmStep E s (.uvmcopy c p sz) s') :
    CountInv E lo hi Inv Held s' ∧ FreesLast lo hi s s' := by
  obtain ⟨tab, hs, hroots, hnd, hcounts⟩ := hinv
  obtain ⟨hne, hsz, hvacant, hsmall⟩ := hcond
  obtain ⟨hc, hp, hcopy, hroots'⟩ := h
  rw [uvmcopy_eq (by omega)] at hcopy
  have hn : copyCount sz ≤ 2 ^ 27 := by
    unfold copyCount pgSize
    omega
  obtain ⟨tab', hs', hpages⟩ := uvmcopyLoop_spec hE 0 (by omega) hs ((hroots c).mp hc) hcopy
  have honly := hpages.tablesOnly
  have hrefs : ∀ f, Managed lo hi f → refs s'.mem s.roots f =
      refs s.mem s.roots f + copiesOf s.mem p 0 (copyCount sz) f := by
    intro f hf
    exact hpages.refs_eq hE.lo_pos hne hnd hc hf (fun r hr => (hroots r).mp hr)
      ((hroots p).mp hp) (by omega) fun k _ hk => hvacant k (by omega) f hf
  refine ⟨⟨tab', hs', ?_, ?_, ?_⟩, FreesLast.of_le honly.kfreed ?_⟩
  · intro r
    rw [hroots', hroots r]
    exact ⟨honly.le, honly.root⟩
  · rw [hroots']
    exact hnd
  · intro f hf
    obtain ⟨hold, _⟩ := hcounts f hf
    have hlt := hsmall f hf
    rw [hroots', hrefs f hf, ← hold]
    rw [← hold] at hlt
    exact ⟨hpages.cnt hE hne hf ((hroots p).mp hp) hlt, hlt⟩
  · intro f hf
    rw [hroots', hrefs f hf]
    omega

lemma uvmunmap_count {r va npages : Nat} (hinv : CountInv E lo hi Inv Held s)
    (h : vmStep E s (.uvmunmap r va npages) s') :
    CountInv E lo hi Inv Held s' ∧ FreesLast lo hi s s' := by
  obtain ⟨_, hunmap, hroots'⟩ := h
  have hmem : s'.mem = s.mem := uvmunmap_same hunmap
  exact hinv.same hroots' fun tab hs => by rw [hmem]; exact ⟨hs, rfl⟩

/-- One turn of the loop of `copyout` on a page that is not shared. -/
lemma copyoutLoop_turn {fuel dstva : Nat} {src : List Nat} {res : Int}
    (hsrc : src ≠ []) (hcow : has (leaf m r (pgRoundDown dstva >>> 12)) pteCow = false)
    (h : copyoutLoop E r (fuel + 1) dstva src m = some (res, m')) :
    (m' = m ∧ res = -1) ∨ ∃ n, n = min (pgSize - (dstva - pgRoundDown dstva)) src.length ∧
      copyoutLoop E r fuel (wrap64 (pgRoundDown dstva + pgSize)) (src.drop n)
        (writeBytes (pte2pa (leaf m r (pgRoundDown dstva >>> 12)) + dstva - pgRoundDown dstva)
          (src.take n) m) = some (res, m') := by
  rw [copyoutLoop, if_neg hsrc] at h
  simp only [walk_noalloc, bind_eq_bind, bind_some] at h
  obtain ⟨e, he, h⟩ := bind_eq_some_iff.mp h
  have hleaf : m.pte e = leaf m r (pgRoundDown dstva >>> 12) := by
    simp only [leaf, he]
  rw [hleaf] at h
  split_ifs at h with _ _ hshared
  · cases h
    exact .inl ⟨rfl, rfl⟩
  · rw [hcow] at hshared
    cases hshared
  · exact .inr ⟨_, rfl, h⟩

/-- `copyout` to pages that are not shared changes the contents of memory only. -/
lemma copyoutLoop_same {fuel dstva : Nat} {src : List Nat} {res : Int} (hlt : dstva < 2 ^ 64)
    (hcow : ∀ i < src.length, has (leaf m r (wrap64 (dstva + i) >>> 12)) pteCow = false)
    (h : copyoutLoop E r fuel dstva src m = some (res, m')) : m' = { m with byte := m'.byte } := by
  induction fuel generalizing dstva src m with
  | zero =>
    cases h
    rfl
  | succ fuel ih =>
    by_cases hsrc : src = []
    · rw [copyoutLoop, if_pos hsrc] at h
      cases h
      rfl
    · have hlen : 0 < src.length := length_pos_iff.mpr hsrc
      have hdown : pgRoundDown dstva = dstva / 4096 * 4096 := pgRoundDown_eq hlt
      have hpage : pgRoundDown dstva >>> 12 = wrap64 (dstva + 0) >>> 12 := by
        rw [pgRoundDown_shiftRight hlt, add_zero, wrap64_of_lt hlt]
      have hfirst := hcow 0 hlen
      rw [← hpage] at hfirst
      rcases copyoutLoop_turn hsrc hfirst h with ⟨rfl, _⟩ | ⟨n, hn, h⟩
      · rfl
      · have hrest := ih (m := writeBytes _ (src.take n) m) (wrap64_lt _) (by
            intro i hi
            rw [length_drop] at hi
            have hnext : wrap64 (wrap64 (pgRoundDown dstva + pgSize) + i) =
                wrap64 (dstva + (n + i)) := by
              unfold wrap64 pgSize at *
              omega
            rw [hnext]
            exact hcow (n + i) (by omega)) h
        rw [hrest]
        rfl

lemma copyout_count {dstva : Nat} {src : List Nat} (hinv : CountInv E lo hi Inv Held s)
    (hcond : CountCond E lo hi Held s (.copyout r dstva src))
    (h : vmStep E s (.copyout r dstva src) s') :
    CountInv E lo hi Inv Held s' ∧ FreesLast lo hi s s' := by
  obtain ⟨_, hlt, ⟨res, hcopy⟩, hroots'⟩ := h
  have hsame := copyoutLoop_same hlt (fun i hi => (hcond i hi).1) hcopy
  refine hinv.same hroots' fun tab hs => ⟨?_, by rw [hsame]⟩
  rw [hsame]
  exact ⟨{ hs.tables with }, hs.alloc, hs.held⟩

lemma isTable_of_tab (ht : Tables m tab) (hroots : ∀ r, r ∈ roots ↔ tab r = some (rootPlace r))
    {t : Nat} {pl : Place} (h : tab t = some pl) : IsTable m roots t := by
  have hroot := (hroots pl.root).mpr (ht.root_isSome h)
  obtain ⟨r, l, i⟩ := pl
  have hlevel : l ≤ 2 := ht.level h
  have hk : ∀ j, j % 512 < 512 := fun j => Nat.mod_lt _ (by decide)
  have hcases : l = 0 ∨ l = 1 ∨ l = 2 := by omega
  rcases hcases with rfl | rfl | rfl
  · obtain ⟨t1, ht1, hv1, heq1⟩ := ht.named h (by decide)
    obtain ⟨t2, ht2, hv2, heq2⟩ := ht.named ht1 (by decide)
    obtain ⟨rfl, _⟩ := ht.root ht2
    rw [heq2] at hv1 heq1
    exact ⟨t2, hroot, .inr ⟨_, hk _, hv2, .inr ⟨_, hk _, hv1, heq1⟩⟩⟩
  · obtain ⟨t2, ht2, hv2, heq2⟩ := ht.named h (by decide)
    obtain ⟨rfl, _⟩ := ht.root ht2
    exact ⟨t2, hroot, .inr ⟨_, hk _, hv2, .inl heq2⟩⟩
  · obtain ⟨rfl, _⟩ := ht.root h
    exact ⟨t, hroot, .inl rfl⟩

lemma storeFault_count (hE : E.Ok lo hi Inv Held) {r badv : Nat}
    (hinv : CountInv E lo hi Inv Held s) (hcond : CountCond E lo hi Held s (.storeFault r badv))
    (h : vmStep E s (.storeFault r badv) s') :
    CountInv E lo hi Inv Held s' ∧ FreesLast lo hi s s' := by
  obtain ⟨tab, hs, hroots, hnd, hcounts⟩ := hinv
  obtain ⟨-, hlast, hsmall⟩ := hcond
  obtain ⟨hr, hfault, hroots'⟩ := h
  obtain ⟨e, mem, he, hv, _, hbreak⟩ := storePageFault_cases hfault
  generalize hvpn : pgRoundDown badv >>> 12 = vpn at *
  generalize hold : pte2pa (leaf s.mem r vpn) = old at *
  have holdLt : old < 2 ^ 64 := by
    rw [← hold]
    exact wrap64_lt _
  have holdDvd : 4096 ∣ old := by
    rw [← hold]
    exact pte2pa_dvd _
  have hmaps : ∀ f, mapsFrame f (leaf s.mem r vpn) = decide (old = f) := by
    intro f
    rw [mapsFrame_of_valid hv, hold]
  have htop := hE.hi_lt
  -- the new frame is not allocated, so it is not the old one if that one is dropped
  have hne : NextPage E s.mem mem →
      lastRef E (countNew E true mem s.mem) old = true → old ≠ mem := by
    rintro hnext hl rfl
    obtain ⟨_, hmem, _, _⟩ := hnext.spec hE hs
    rw [lastRef_managed hE hmem, cnt_countNew hE hmem holdLt holdDvd, if_pos rfl] at hl
    have hcnt : s.mem.cnt (pageIndex E old) = refs s.mem s.roots old := (hcounts old hmem).1
    have hpos : 0 < refs s.mem s.roots old := refs_pos hr (by rw [hmaps]; exact decide_eq_true rfl)
    have hlt : refs s.mem s.roots old < 255 := hsmall old hmem (hnext.spec hE hs).2.2.2
    omega
  have hlast' : NextPage E s.mem mem → lastRef E (countNew E true mem s.mem) old = true →
      Held s.mem.alloc old 1 ∧ tab old = none := by
    intro hnext hl
    obtain ⟨_, hmem, _, _⟩ := hnext.spec hE hs
    rw [lastRef_countNew hE hmem holdLt holdDvd (hne hnext hl)] at hl
    obtain ⟨hheld, hno⟩ := hlast hl
    refine ⟨hheld, ?_⟩
    cases htab : tab old with
    | none => rfl
    | some pl => exact absurd (isTable_of_tab hs.tables hroots htab) hno
  obtain ⟨hs', hb, hnext⟩ := breakCow_spec hE hs ((hroots r).mp hr) he
    (by rw [hold]; exact hlast') hbreak
  obtain ⟨_, hmem, hmemhi, hfresh⟩ := hnext.spec hE hs
  have hmemLt : mem < 2 ^ 64 := by omega
  have hrefs : ∀ f, refs s'.mem s.roots f + (if old = f then 1 else 0) =
      refs s.mem s.roots f + if mem = f then 1 else 0 := by
    intro f
    have hupdate := refs_update hnd hr (fun r' hr' => hb.leaf ((hroots r').mp hr')) f
    rw [hmaps, mapsFrame_own hmemLt hmem.1 hv] at hupdate
    simpa using hupdate
  have hcounts' : Counts E lo hi s' := by
    intro f hf
    have hcnt : s'.mem.cnt (pageIndex E f) = if old = f then
        ((countNew E true mem s.mem).cnt (pageIndex E f) + 255) % 256
        else (countNew E true mem s.mem).cnt (pageIndex E f) := by
      have hframe : frameOf old = old := frameOf_of_dvd holdDvd
      rw [hb.cnt, hold, cnt_pageRefDec hE hf holdLt, hframe]
    obtain ⟨hold', hbound⟩ := hcounts f hf
    have hfrefs := hrefs f
    rw [hroots', hcnt, cnt_countNew hE hf hmemLt hmem.1, hold']
    by_cases hmf : mem = f
    · have hlt : refs s.mem s.roots mem < 255 := hsmall mem hmem hfresh
      rw [hmf] at hlt
      rw [if_pos hmf] at hfrefs ⊢
      by_cases hof : old = f
      · rw [if_pos hof] at hfrefs ⊢
        omega
      · rw [if_neg hof] at hfrefs ⊢
        omega
    · rw [if_neg hmf] at hfrefs ⊢
      by_cases hof : old = f
      · rw [if_pos hof] at hfrefs ⊢
        omega
      · rw [if_neg hof] at hfrefs ⊢
        omega
  refine ⟨⟨tab, hs', ?_, ?_, hcounts'⟩, ?_⟩
  · intro r'
    rw [hroots']
    exact hroots r'
  · rw [hroots']
    exact hnd
  · refine ⟨_, by rw [hb.kfreed, hold], by split_ifs <;> simp, fun f => ?_⟩
    rw [hroots']
    have hfrefs := hrefs f
    constructor
    · intro hmemf
      split_ifs at hmemf with hl
      · obtain rfl := mem_singleton.mp hmemf
        have hom := hne hnext hl
        obtain ⟨hheld, _⟩ := hlast' hnext hl
        obtain ⟨_, _, hlo, hhi⟩ := hE.lawful.range hs.alloc hheld
        have hmanaged : Managed lo hi f := ⟨holdDvd, hlo, by omega⟩
        rw [lastRef_countNew hE hmem holdLt holdDvd hom, lastRef_managed hE hmanaged,
          (hcounts f hmanaged).1] at hl
        rw [if_pos rfl, if_neg (Ne.symm hom)] at hfrefs
        exact ⟨hmanaged, hl, by omega⟩
      · cases hmemf
    · rintro ⟨hf, hone, hzero⟩
      have hof : old = f := by
        by_contra hof
        rw [if_neg hof] at hfrefs
        omega
      have hom : old ≠ mem := by
        rintro rfl
        omega
      rw [hof] at hom ⊢
      have hl : lastRef E (countNew E true mem s.mem) f = true := by
        rw [lastRef_countNew hE hmem (by omega) hf.1 hom, lastRef_managed hE hf,
          (hcounts f hf).1]
        exact hone
      rw [if_pos hl]
      exact mem_singleton.mpr rfl

/-! ## Runs -/

lemma vmStep_count (hE : E.Ok lo hi Inv Held) {op : VmOp} (hinv : CountInv E lo hi Inv Held s)
    (hcond : CountCond E lo hi Held s op) (h : vmStep E s op s') :
    CountInv E lo hi Inv Held s' ∧ FreesLast lo hi s s' := by
  cases op with
  | newTable => exact newTable_count hE hinv h
  | kalloc sz => exact kalloc_count hE hinv h
  | mappages r va pa sz flags => exact mappages_count hE hinv hcond h
  | uvmcopy c p sz => exact uvmcopy_count hE hinv hcond h
  | copyout r dstva src => exact copyout_count hinv hcond h
  | storeFault r badv => exact storeFault_count hE hinv hcond h
  | uvmunmap r va npages => exact uvmunmap_count hinv h

end

section

variable {zone kernelPagetable vaStart vaEnd : Nat} {st : Buddy.Kmem} {pte byte cnt : Nat → Nat}
variable {E : Env Buddy.Pool} {m : Mem Buddy.Pool}

lemma kmemInit_countInv (hpos : 0 < pgRoundUp vaStart)
    (hle : pgRoundUp vaStart ≤ pgRoundDown vaEnd) (hend : vaEnd ≤ physTop)
    (hzone : zone + 40 * Buddy.maxOrder ≤ bootLo vaStart vaEnd ∨ pgRoundDown vaEnd ≤ zone)
    (hmagic : ∀ x, 4096 ∣ x → st.magic x ≠ Buddy.buddyMagic)
    (h : kmemInit zone kernelPagetable vaStart vaEnd st pte byte cnt = some (E, m)) :
    CountInv E (bootLo vaStart vaEnd) (pgRoundDown vaEnd) (bootInv zone vaStart vaEnd) Buddy.held
      ⟨m, []⟩ := by
  obtain ⟨_, hs⟩ := kmemInit_ok hpos hle hend hzone hmagic h
  refine ⟨fun _ => none, hs, ?_, nodup_nil, ?_⟩
  · intro r
    constructor
    · intro hr
      cases hr
    · intro hr
      cases hr
  · intro f hf
    exact ⟨kmemInit_cnt hle hend h hf, Nat.succ_pos _⟩

/-- From `kmem_init` on, the counters are exact and frames are freed with their last mapping, in
every run whose steps meet the condition. -/
theorem frame_counts_exact (hpos : 0 < pgRoundUp vaStart)
    (hle : pgRoundUp vaStart ≤ pgRoundDown vaEnd) (hend : vaEnd ≤ physTop)
    (hzone : zone + 40 * Buddy.maxOrder ≤ bootLo vaStart vaEnd ∨ pgRoundDown vaEnd ≤ zone)
    (hmagic : ∀ x, 4096 ∣ x → st.magic x ≠ Buddy.buddyMagic)
    (h : kmemInit zone kernelPagetable vaStart vaEnd st pte byte cnt = some (E, m))
    {ts : List (Transition (VmSys Buddy.Pool) VmOp)}
    {s : VmSys Buddy.Pool} (hr : Run (vmStep E) ⟨m, []⟩ ts s)
    (hcond : ∀ t ∈ ts, CountCond E (bootLo vaStart vaEnd) (pgRoundDown vaEnd) Buddy.held t.source
      t.label) :
    Counts E (bootLo vaStart vaEnd) (pgRoundDown vaEnd) s ∧
      ∀ t ∈ ts, FreesLast (bootLo vaStart vaEnd) (pgRoundDown vaEnd) t.source t.target := by
  obtain ⟨hE, _⟩ := kmemInit_ok hpos hle hend hzone hmagic h
  have hstart := kmemInit_countInv hpos hle hend hzone hmagic h
  obtain ⟨_, _, _, _, hcounts⟩ := hr.invariant_of_forall hstart hcond
    fun s a s' hinv hc hstep => (vmStep_count hE hinv hc hstep).1
  exact ⟨hcounts, hr.forall_of_forall hstart hcond
    fun s a s' hinv hc hstep => vmStep_count hE hinv hc hstep⟩

end

/-- One page is mapped in a new table, and its frame is counted once. -/
theorem frame_counts_exact_one_page :
    ∃ E m ts s r f, bootSmall = some (E, m) ∧ Run (vmStep E) ⟨m, []⟩ ts s ∧
      ts.length = 3 ∧ leaf s.mem r 1 = pa2pte f ||| (pteU ||| pteRw) ||| pteV ∧
      Counts E (bootLo 0x80300000 0x80310000) (pgRoundDown 0x80310000) s ∧
      ∀ t ∈ ts, FreesLast (bootLo 0x80300000 0x80310000) (pgRoundDown 0x80310000) t.source
        t.target := by
  have hrun : (bootSmall.bind fun x => (allocPagetable x.1 x.2).bind fun y =>
      (kalloc x.1 pgSize y.2).bind fun z =>
        (mappages x.1 y.1 0x1000 z.1 pgSize (pteU ||| pteRw) z.2).map fun m =>
          decide (leaf m y.1 1 = pa2pte z.1 ||| (pteU ||| pteRw) ||| pteV)) = some true := by
    decide +kernel
  simp only [bind_eq_some_iff, map_eq_some_iff, Prod.exists] at hrun
  obtain ⟨E, m, hboot, r, m1, htable, f, m2, hpage, m3, hmap, hleaf⟩ := hrun
  have hmagic : 0 ≠ Buddy.buddyMagic := by decide
  have hcount : mapCount 0x1000 pgSize = 1 := by decide
  obtain ⟨hE, hs⟩ := bootSmall_ok hboot
  obtain ⟨tab1, hs1, _, _, _, hzero, _⟩ := allocPagetable_spec hE hs htable
  obtain ⟨_, hsame⟩ := kalloc_shaped hE hs1 (by decide) (by decide) hpage
  have hempty : ∀ r' ∈ [r], ∀ vpn, leaf m2 r' vpn = 0 := by
    intro r' hr' vpn
    rw [mem_singleton.mp hr', hsame]
    exact hzero vpn
  have hstart : Run (vmStep E) ⟨m, []⟩ [] ⟨m, []⟩ := Run.nil
  have hstep1 : vmStep E ⟨m, []⟩ .newTable ⟨m1, [r]⟩ := ⟨r, htable, rfl⟩
  have hstep2 : vmStep E ⟨m1, [r]⟩ (.kalloc pgSize) ⟨m2, [r]⟩ :=
    ⟨by decide, by decide, f, hpage, rfl⟩
  have hstep3 : vmStep E ⟨m2, [r]⟩ (.mappages r 0x1000 f pgSize (pteU ||| pteRw)) ⟨m3, [r]⟩ :=
    ⟨mem_singleton.mpr rfl, hmap, rfl⟩
  have hrun3 := ((hstart.snoc hstep1).snoc hstep2).snoc hstep3
  have hflt : f + 4096 ≤ 2 ^ 64 := by
    have hrange := kalloc_range hE hs1 (by decide) (by decide) hpage
    have htop := hE.hi_lt
    omega
  refine ⟨E, m, _, _, r, f, hboot, hrun3, rfl, of_decide_eq_true hleaf, ?_⟩
  refine frame_counts_exact (by decide) (by decide) (by decide) (.inl (by decide))
    (fun _ _ => hmagic) hboot hrun3 ?_
  intro t ht
  simp only [nil_append, cons_append, mem_cons, not_mem_nil, or_false] at ht
  rcases ht with rfl | rfl | rfl
  · trivial
  · trivial
  · refine ⟨by rw [hcount]; decide, by rw [hcount]; decide, by rw [hcount]; omega, by decide, ?_, ?_⟩
    · intro i _ g _
      rw [hempty r (mem_singleton.mpr rfl)]
      rfl
    · intro i _ _
      rw [refs_eq_zero fun r' hr' vpn => by rw [hempty r' hr']; rfl]
      decide

/-- `copyout` to a page that `uvmcopy` has shared maps a frame that it does not count. -/
theorem copyout_frame_not_counted :
    ∃ E m ts s, bootSmall = some (E, m) ∧ Run (vmStep E) ⟨m, []⟩ ts s ∧
      ¬ Counts E (bootLo 0x80300000 0x80310000) (pgRoundDown 0x80310000) s := by
  have hrun : (bootSmall.bind fun x => (allocPagetable x.1 x.2).bind fun p =>
      (allocPagetable x.1 p.2).bind fun c => (kalloc x.1 pgSize c.2).bind fun f =>
        (mappages x.1 p.1 0x1000 f.1 pgSize (pteU ||| pteRw) f.2).bind fun m =>
          (uvmcopy x.1 c.1 p.1 0x2000 m).bind fun m =>
            (copyout x.1 c.1 0x1000 [7] m).map fun y =>
              (mapsFrame 0x8030f000 (leaf y.2 c.1 1), y.2.cnt (pageIndex x.1 0x8030f000))) =
      some (true, 0) := by
    decide +kernel
  simp only [bind_eq_some_iff, map_eq_some_iff, Prod.exists] at hrun
  obtain ⟨E, m, hboot, p, m1, hp, c, m2, hc, f, m3, hf, m4, hmap, m5, hcopy, res, m6, hout, heq⟩ := hrun
  simp only [Prod.mk.injEq] at heq
  have hstart : Run (vmStep E) ⟨m, []⟩ [] ⟨m, []⟩ := Run.nil
  have hstep1 : vmStep E ⟨m, []⟩ .newTable ⟨m1, [p]⟩ := ⟨p, hp, rfl⟩
  have hstep2 : vmStep E ⟨m1, [p]⟩ .newTable ⟨m2, [c, p]⟩ := ⟨c, hc, rfl⟩
  have hstep3 : vmStep E ⟨m2, [c, p]⟩ (.kalloc pgSize) ⟨m3, [c, p]⟩ :=
    ⟨by decide, by decide, f, hf, rfl⟩
  have hstep4 : vmStep E ⟨m3, [c, p]⟩ (.mappages p 0x1000 f pgSize (pteU ||| pteRw))
      ⟨m4, [c, p]⟩ := ⟨mem_cons_of_mem _ mem_cons_self, hmap, rfl⟩
  have hstep5 : vmStep E ⟨m4, [c, p]⟩ (.uvmcopy c p 0x2000) ⟨m5, [c, p]⟩ :=
    ⟨mem_cons_self, mem_cons_of_mem _ mem_cons_self, hcopy, rfl⟩
  have hstep6 : vmStep E ⟨m5, [c, p]⟩ (.copyout c 0x1000 [7]) ⟨m6, [c, p]⟩ :=
    ⟨mem_cons_self, by decide, ⟨res, hout⟩, rfl⟩
  refine ⟨E, m, _, _, hboot, (((((hstart.snoc hstep1).snoc hstep2).snoc hstep3).snoc hstep4).snoc
    hstep5).snoc hstep6, fun hcounts => ?_⟩
  have hmanaged : Managed (bootLo 0x80300000 0x80310000) (pgRoundDown 0x80310000) 0x8030f000 :=
    ⟨by decide, by decide, by decide⟩
  have hcnt := (hcounts 0x8030f000 hmanaged).1
  have hpos : 0 < refs m6 [c, p] 0x8030f000 := refs_pos mem_cons_self heq.1
  simp only [heq.2] at hcnt
  omega

end Hana.Vm
