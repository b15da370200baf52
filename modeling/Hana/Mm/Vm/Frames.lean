import Hana.Lib.Slots
import Hana.Mm.Vm.Map

/-!
# Frames and their counters

The frames in the allocator's memory have one counter each. The lemmas say what taking and
dropping a reference does to the counter of a given frame, and what remains of a page
when it is given a frame of its own.
-/

namespace Hana.Vm

open Function Option Lib

variable {A : Type}

/-! ## Counting mappings -/

/-- The number of leaf entries in the tables of `roots` that map the frame. -/
def refs (m : Mem A) (roots : List Nat) (f : Nat) : Nat :=
  (roots.map fun r => slotCount (2 ^ 27) (leaf m r) (mapsFrame f)).sum

section

variable {m m' : Mem A} {roots : List Nat} {r vpn v f : Nat}

lemma refs_congr (h : ∀ r ∈ roots, ∀ vpn, leaf m' r vpn = leaf m r vpn) (f : Nat) :
    refs m' roots f = refs m roots f := by
  unfold refs
  rw [List.map_congr_left fun r hr => slotCount_congr fun vpn _ => by rw [h r hr]]

/-- Writing one leaf entry. -/
lemma refs_update (hnd : roots.Nodup) (hr : r ∈ roots)
    (h : ∀ r' ∈ roots, ∀ vpn', leaf m' r' vpn' =
      if r' = r ∧ vpn' % 2 ^ 27 = vpn % 2 ^ 27 then v else leaf m r' vpn')
    (f : Nat) :
    refs m' roots f + (if mapsFrame f (leaf m r vpn) then 1 else 0) =
      refs m roots f + if mapsFrame f v then 1 else 0 := by
  have hother : ∀ r' ∈ roots, r' ≠ r → slotCount (2 ^ 27) (leaf m' r') (mapsFrame f) =
      slotCount (2 ^ 27) (leaf m r') (mapsFrame f) := by
    intro r' hr' hne
    refine slotCount_congr fun vpn' _ => ?_
    rw [h r' hr', if_neg fun hand => hne hand.1]
  have htable : slotCount (2 ^ 27) (leaf m' r) (mapsFrame f) =
      slotCount (2 ^ 27) (update (leaf m r) (vpn % 2 ^ 27) v) (mapsFrame f) := by
    refine slotCount_congr fun vpn' hvpn' => ?_
    rw [h r hr]
    by_cases heq : vpn' = vpn % 2 ^ 27
    · rw [heq, update_self, Nat.mod_mod, if_pos ⟨rfl, rfl⟩]
    · rw [update_of_ne heq, if_neg]
      rintro ⟨_, hmod⟩
      rw [Nat.mod_eq_of_lt hvpn'] at hmod
      exact heq hmod
  have hsum := sum_map_update hnd hr hother
  have hupdate := slotCount_update (leaf m r) (mapsFrame f) v (Nat.mod_lt vpn (Nat.two_pow_pos 27))
  rw [leaf_mod, ← htable] at hupdate
  unfold refs
  omega

lemma refs_pos (hr : r ∈ roots) (h : mapsFrame f (leaf m r vpn) = true) : 0 < refs m roots f := by
  unfold refs
  rw [List.sum_pos_iff_exists_pos_nat]
  refine ⟨_, List.mem_map_of_mem hr, slotCount_pos (Nat.mod_lt vpn (Nat.two_pow_pos 27)) ?_⟩
  rw [leaf_mod]
  exact h

lemma refs_eq_zero (h : ∀ r ∈ roots, ∀ vpn, mapsFrame f (leaf m r vpn) = false) :
    refs m roots f = 0 := by
  by_contra hne
  obtain ⟨n, hn, hpos⟩ := List.sum_pos_iff_exists_pos_nat.mp (Nat.pos_of_ne_zero hne)
  obtain ⟨r, hr, rfl⟩ := List.mem_map.mp hn
  rw [slotCount_eq_zero fun vpn _ => h r hr vpn] at hpos
  exact absurd hpos (lt_irrefl 0)

end

/-! ## Counters -/

/-- A frame of the memory that the allocator manages. -/
def Managed (lo hi f : Nat) : Prop := 4096 ∣ f ∧ lo ≤ f ∧ f < hi

variable {flags mem p : Nat} {tab' : Nat → Option Place} {count : Bool}

section

variable {Inv : A → Prop} {Held : A → Nat → Nat → Prop} {lo hi : Nat} {E : Env A}
variable {m m1 m' : Mem A} {tab : Nat → Option Place} {f pa : Nat}

/-- An address uses the counter of a managed frame exactly when it lies in it. -/
lemma pageIndex_eq_iff (hE : E.Ok lo hi Inv Held) (hf : Managed lo hi f) (hpa : pa < 2 ^ 64) :
    (counted E pa = true ∧ pageIndex E pa = pageIndex E f) ↔ frameOf pa = f := by
  obtain ⟨hdvd, hlo, hhi⟩ := hf
  have hpages := hE.pages_le
  have hpagesDvd := hE.pages_dvd
  have htop := hE.hi_le
  have hindex : ∀ x, E.pages ≤ x → x < 2 ^ 64 → pageIndex E x = (x - E.pages) / 4096 := by
    intro x hle hlt
    unfold pageIndex wrap64 pgShift
    rw [Nat.shiftRight_eq_div_pow]
    have hmod : (x + (2 ^ 64 - E.pages)) % 2 ^ 64 = x - E.pages := by omega
    rw [hmod]
  have hcounted : counted E pa = true ↔ E.pages ≤ pa ∧ pa ≤ physTop := by
    unfold counted
    rw [Bool.and_eq_true, decide_eq_true_eq, decide_eq_true_eq]
  unfold physTop at htop hcounted
  rw [hcounted, hindex f (by omega) (by omega)]
  unfold frameOf
  constructor
  · rintro ⟨⟨hle, _⟩, heq⟩
    rw [hindex pa hle hpa] at heq
    omega
  · intro heq
    refine ⟨by omega, ?_⟩
    rw [hindex pa (by omega) hpa]
    omega

/-- The counter of a frame after a change of the one that an address leads to. -/
lemma cnt_changed (hE : E.Ok lo hi Inv Held) (hf : Managed lo hi f) (hpa : pa < 2 ^ 64) (g : Nat → Nat) :
    (if counted E pa then update m.cnt (pageIndex E pa) (g (m.cnt (pageIndex E pa))) else m.cnt)
      (pageIndex E f) = if frameOf pa = f then g (m.cnt (pageIndex E f)) else m.cnt (pageIndex E f) := by
  have hiff := pageIndex_eq_iff hE hf hpa
  by_cases hc : counted E pa = true
  · rw [if_pos hc]
    by_cases heq : pageIndex E pa = pageIndex E f
    · rw [if_pos (hiff.mp ⟨hc, heq⟩), heq, update_self]
    · rw [if_neg fun hframe => heq (hiff.mpr hframe).2, update_of_ne (Ne.symm heq)]
  · rw [if_neg hc, if_neg fun hframe => hc (hiff.mpr hframe).1]

lemma cnt_pageRefInc (hE : E.Ok lo hi Inv Held) (hf : Managed lo hi f) (hpa : pa < 2 ^ 64) :
    (pageRefInc E pa m).cnt (pageIndex E f) =
      if frameOf pa = f then (m.cnt (pageIndex E f) + 1) % 256 else m.cnt (pageIndex E f) := by
  rw [← cnt_changed hE hf hpa fun n => (n + 1) % 256, pageRefInc]
  split_ifs <;> rfl

lemma cnt_pageRefDec (hE : E.Ok lo hi Inv Held) (hf : Managed lo hi f) (hpa : pa < 2 ^ 64) :
    (pageRefDec E pa m).2.cnt (pageIndex E f) =
      if frameOf pa = f then (m.cnt (pageIndex E f) + 255) % 256 else m.cnt (pageIndex E f) := by
  rw [← cnt_changed hE hf hpa fun n => (n + 255) % 256, pageRefDec]
  split_ifs <;> rfl

/-- The counter that mapping a page leaves. -/
lemma MapPage.cnt_managed (hE : E.Ok lo hi Inv Held) {r vpn : Nat}
    (h : MapPage E Held r vpn pa flags m tab m' tab') (hf : Managed lo hi f) (hpa : pa < 2 ^ 64) :
    m'.cnt (pageIndex E f) =
      if frameOf pa = f then (m.cnt (pageIndex E f) + 1) % 256 else m.cnt (pageIndex E f) := by
  rw [h.cnt, cnt_pageRefInc hE hf hpa]

/-- The mappings of a frame after one more page is mapped. -/
lemma MapPage.refs_eq {r vpn : Nat} {roots : List Nat}
    (h : MapPage E Held r vpn pa flags m tab m' tab')
    (hroots : ∀ r' ∈ roots, tab r' = some (rootPlace r')) (hnd : roots.Nodup) (hr : r ∈ roots)
    (hpa : pa < 2 ^ 64) (hflags : flags < 2 ^ 10) (hvacant : mapsFrame f (Vm.leaf m r vpn) = false) :
    refs m' roots f = refs m roots f + if frameOf pa = f then 1 else 0 := by
  have hupdate := refs_update hnd hr (fun r' hr' => h.leaf (hroots r' hr')) f
  rw [hvacant, mapsFrame_entry hpa hflags] at hupdate
  simpa using hupdate

/-! ## Dropping a reference -/

/-- The counter of the frame stands at its last reference. -/
def lastRef (E : Env A) (m : Mem A) (pa : Nat) : Bool :=
  counted E pa && decide (m.cnt (pageIndex E pa) = 1)

lemma dropFrame_eq (E : Env A) (pa : Nat) (m : Mem A) :
    dropFrame E pa m =
      if lastRef E m pa then kfree E pa (pageRefDec E pa m).2 else some (pageRefDec E pa m).2 := by
  unfold dropFrame lastRef pageRefDec
  by_cases hc : counted E pa = true
  · rw [if_pos hc, hc, Bool.true_and]
    by_cases h1 : m.cnt (pageIndex E pa) = 1
    · simp [h1]
    · simp [h1]
  · simp [hc]

/-- A reference drop, after which the frame is freed if it was the last one. -/
structure Dropped (E : Env A) (Held : A → Nat → Nat → Prop) (pa : Nat) (m m' : Mem A) : Prop where
  pte : m'.pte = m.pte
  byte : m'.byte = m.byte
  cnt : m'.cnt = (pageRefDec E pa m).2.cnt
  kfreed : m'.kfreed = m.kfreed ++ if lastRef E m pa then [pa] else []
  held : ∀ q k, Held m'.alloc q k ↔ Held m.alloc q k ∧ ¬ (lastRef E m pa = true ∧ q = pa ∧ k = 1)

lemma pageRefDec_same (E : Env A) (pa : Nat) (m : Mem A) :
    (pageRefDec E pa m).2 = { m with cnt := (pageRefDec E pa m).2.cnt } := by
  unfold pageRefDec
  split_ifs <;> rfl

/-- Only a single allocated page that is no table may be dropped for the last time. -/
lemma dropFrame_spec (hE : E.Ok lo hi Inv Held) (hs : Shaped Inv Held m tab)
    (hlast : lastRef E m pa = true → Held m.alloc pa 1 ∧ tab pa = none)
    (h : dropFrame E pa m = some m') : Shaped Inv Held m' tab ∧ Dropped E Held pa m m' := by
  have hsame := pageRefDec_same E pa m
  rw [dropFrame_eq] at h
  cases hl : lastRef E m pa with
  | true =>
    rw [if_pos hl] at h
    obtain ⟨hheld, hno⟩ := hlast hl
    obtain ⟨a, hfree, heq⟩ := bind_eq_some_iff.mp h
    cases heq
    rw [hsame] at hfree
    obtain ⟨a', hfree', hinv, hiff⟩ := hE.lawful.kfree_spec hs.alloc hheld
    have haa : a' = a := by
      have hsome : some a' = some a := hfree'.symm.trans hfree
      exact some.inj hsome
    subst haa
    refine ⟨⟨?_, hinv, ?_⟩, ⟨?_, ?_, rfl, ?_, ?_⟩⟩
    · rw [hsame]
      exact { hs.tables with }
    · intro t pl ht
      refine (hiff t 1).mpr ⟨hs.held ht, ?_⟩
      rintro ⟨rfl, _⟩
      rw [hno] at ht
      cases ht
    · rw [hsame]
    · rw [hsame]
    · rw [hsame, hl]
      rfl
    · intro q k
      rw [hl]
      rw [hiff]
      simp only [true_and]
  | false =>
    rw [if_neg (by rw [hl]; decide)] at h
    cases h
    refine ⟨?_, ⟨?_, ?_, rfl, ?_, ?_⟩⟩
    · rw [hsame]
      exact ⟨{ hs.tables with }, hs.alloc, hs.held⟩
    · rw [hsame]
    · rw [hsame]
    · rw [hsame, hl]
      exact (List.append_nil _).symm
    · intro q k
      rw [hsame, hl]
      simp

/-! ## Giving a page a frame of its own -/

/-- The flags of the entry that the page gets. -/
def ownFlags (pte : Nat) : Nat := (pteFlags pte &&& complement pteCow) ||| pteW

lemma ownFlags_lt (pte : Nat) : ownFlags pte < 2 ^ 10 :=
  Nat.or_lt_two_pow (lt_of_le_of_lt Nat.and_le_left (pteFlags_lt pte)) (by decide)

lemma has_ownFlags_pteV (pte : Nat) : has (ownFlags pte) pteV = has pte pteV := by
  have hbit : ∀ x, has x pteV = x.testBit 0 := fun x => has_two_pow x 0
  have hflags : has (pteFlags pte) pteV = has pte pteV := has_pteFlags (i := 0) (by decide)
  have hmask : (complement pteCow).testBit 0 = true := by decide
  have hw : pteW.testBit 0 = false := by decide
  rw [← hflags, hbit, hbit, ownFlags, Nat.testBit_or, Nat.testBit_and, hmask, hw, Bool.and_true,
    Bool.or_false]

lemma has_ownFlags_pteW (pte : Nat) : has (ownFlags pte) pteW = true := by
  have hbit : has (ownFlags pte) pteW = (ownFlags pte).testBit 2 := has_two_pow _ 2
  have hw : pteW.testBit 2 = true := by decide
  rw [hbit, ownFlags, Nat.testBit_or, hw, Bool.or_true]

/-- The counters before the old frame is dropped: only the handler has counted the new one. -/
def countNew (E : Env A) (count : Bool) (mem : Nat) (m : Mem A) : Mem A :=
  if count then pageRefInc E mem m else m

lemma countNew_same (E : Env A) (count : Bool) (mem : Nat) (m : Mem A) :
    countNew E count mem m = { m with cnt := (countNew E count mem m).cnt } := by
  cases count with
  | true => exact pageRefInc_same E mem m
  | false => rfl

/-- The counters depend on the counters before only. -/
lemma countNew_congr (E : Env A) (count : Bool) (mem : Nat) {m m1 : Mem A}
    (h : m1.cnt = m.cnt) : (countNew E count mem m1).cnt = (countNew E count mem m).cnt := by
  unfold countNew pageRefInc
  cases count with
  | true =>
    simp only [if_true]
    split_ifs
    · simp only [h]
    · exact h
  | false => exact h

lemma pageRefDec_congr (E : Env A) (pa : Nat) {m m1 : Mem A} (h : m1.cnt = m.cnt) :
    (pageRefDec E pa m1).2.cnt = (pageRefDec E pa m).2.cnt := by
  unfold pageRefDec
  split_ifs
  · simp only [h]
  · exact h

lemma lastRef_congr (E : Env A) (pa : Nat) {m m1 : Mem A} (h : m1.cnt = m.cnt) :
    lastRef E m1 pa = lastRef E m pa := by
  unfold lastRef
  rw [h]

/-- The page `vpn` of the table `r` moves from its frame to the new frame `mem`. -/
structure Broken (E : Env A) (Held : A → Nat → Nat → Prop) (count : Bool) (r vpn mem : Nat)
    (m : Mem A) (tab : Nat → Option Place) (m' : Mem A) : Prop where
  leaf : ∀ {r'}, tab r' = some (rootPlace r') → ∀ vpn', leaf m' r' vpn' =
    if r' = r ∧ vpn' % 2 ^ 27 = vpn % 2 ^ 27 then pa2pte mem ||| ownFlags (leaf m r vpn)
    else leaf m r' vpn'
  byte : m'.byte = (copyFrame mem (pte2pa (Vm.leaf m r vpn)) m).byte
  cnt : m'.cnt = (pageRefDec E (pte2pa (Vm.leaf m r vpn)) (countNew E count mem m)).2.cnt
  kfreed : m'.kfreed = m.kfreed ++
    if lastRef E (countNew E count mem m) (pte2pa (Vm.leaf m r vpn)) then
      [pte2pa (Vm.leaf m r vpn)] else []
  held : ∀ q k, Held m'.alloc q k ↔ ((q = mem ∧ k = 1) ∨ Held m.alloc q k) ∧
    ¬ (lastRef E (countNew E count mem m) (pte2pa (Vm.leaf m r vpn)) = true ∧
      q = pte2pa (Vm.leaf m r vpn) ∧ k = 1)

/-- The page that the next allocation of one page returns. -/
def NextPage (E : Env A) (m : Mem A) (mem : Nat) : Prop := ∃ m', kalloc E pgSize m = some (mem, m')

/-- The next page is a managed frame that nothing has been allocated in. -/
lemma NextPage.spec (hE : E.Ok lo hi Inv Held) (hs : Shaped Inv Held m tab)
    (h : NextPage E m mem) :
    tab mem = none ∧ Managed lo hi mem ∧ mem + 4096 ≤ hi ∧ ¬ Owned Held m.alloc mem := by
  obtain ⟨m1, hk⟩ := h
  obtain ⟨hno, hdvd, hlo, hhi, hfresh, _⟩ := kalloc_page hE hs hk
  exact ⟨hno, ⟨hdvd, hlo, by omega⟩, hhi, hfresh⟩

lemma breakCow_cases (h : breakCow E count p m = some (mem, m')) :
    ∃ m1, kalloc E pgSize m = some (mem, m1) ∧
      dropFrame E (pte2pa (m1.pte p)) (countNew E count mem
        ((copyFrame mem (pte2pa (m1.pte p)) m1).setPte p (pa2pte mem ||| ownFlags (m1.pte p)))) =
        some m' := by
  obtain ⟨⟨mem', m1⟩, hk, h⟩ := bind_eq_some_iff.mp h
  obtain ⟨m2, hdrop, h⟩ := bind_eq_some_iff.mp h
  cases h
  exact ⟨m1, hk, hdrop⟩

/-- The branch of `copyout` and of the store fault handler. Only a single allocated page that is
no table may be dropped for the last time. -/
lemma breakCow_spec (hE : E.Ok lo hi Inv Held) (hs : Shaped Inv Held m tab) {r vpn : Nat}
    (hr : tab r = some (rootPlace r)) (he : entryAddr m.pte r vpn = some p)
    (hlast : NextPage E m mem →
      lastRef E (countNew E count mem m) (pte2pa (leaf m r vpn)) = true →
      Held m.alloc (pte2pa (leaf m r vpn)) 1 ∧ tab (pte2pa (leaf m r vpn)) = none)
    (h : breakCow E count p m = some (mem, m')) :
    Shaped Inv Held m' tab ∧ Broken E Held count r vpn mem m tab m' ∧ NextPage E m mem := by
  obtain ⟨m1, hk, hdrop⟩ := breakCow_cases h
  have hnext : NextPage E m mem := ⟨m1, hk⟩
  obtain ⟨_, _, _, _, _, hinv, hm1, hheld⟩ := kalloc_page hE hs hk
  have hleaf : m1.pte p = leaf m r vpn := by
    rw [hm1]
    simp only [leaf, he]
  rw [hleaf] at hdrop
  generalize hpte : leaf m r vpn = pte at *
  obtain ⟨t, ht, hp⟩ := (hs.tables.entryAddr_eq_some_iff hr).mp he
  have htab1 : Tables (copyFrame mem (pte2pa pte) m1) tab := by
    rw [hm1]
    exact { hs.tables with }
  have htab2 : Tables ((copyFrame mem (pte2pa pte) m1).setPte p (pa2pte mem ||| ownFlags pte))
      tab := by
    rw [hp]
    exact htab1.setLeaf ht (Nat.mod_lt _ (by decide))
  have hleaf2 : ∀ {r'}, tab r' = some (rootPlace r') → ∀ vpn',
      leaf ((copyFrame mem (pte2pa pte) m1).setPte p (pa2pte mem ||| ownFlags pte)) r' vpn' =
        if r' = r ∧ vpn' % 2 ^ 27 = vpn % 2 ^ 27 then pa2pte mem ||| ownFlags pte
        else leaf m r' vpn' := by
    intro r' hr' vpn'
    have he1 : entryAddr (copyFrame mem (pte2pa pte) m1).pte r vpn = some p := by
      rw [hm1]
      exact he
    rw [htab1.leaf_setPte hr he1 hr', hm1]
    rfl
  -- the memory before the old frame is dropped
  have hm2 : (copyFrame mem (pte2pa pte) m1).setPte p (pa2pte mem ||| ownFlags pte) =
      { m with
        alloc := m1.alloc
        pte := update m.pte p (pa2pte mem ||| ownFlags pte)
        byte := (copyFrame mem (pte2pa pte) m).byte } := by
    rw [hm1]
    rfl
  generalize (copyFrame mem (pte2pa pte) m1).setPte p (pa2pte mem ||| ownFlags pte) = m2 at *
  have hsame := countNew_same E count mem m2
  have hcnt3 : (countNew E count mem m2).cnt = (countNew E count mem m).cnt :=
    countNew_congr E count mem (by rw [hm2])
  have halloc3 : (countNew E count mem m2).alloc = m1.alloc := by rw [hsame, hm2]
  have hs3 : Shaped Inv Held (countNew E count mem m2) tab := by
    refine ⟨?_, ?_, ?_⟩
    · rw [hsame]
      exact { htab2 with }
    · rw [halloc3]
      exact hinv
    · intro u pl hu
      rw [halloc3]
      exact (hheld u 1).mpr (.inr (hs.held hu))
  have hlast3 : lastRef E (countNew E count mem m2) (pte2pa pte) = true →
      Held (countNew E count mem m2).alloc (pte2pa pte) 1 ∧ tab (pte2pa pte) = none := by
    intro hl
    rw [lastRef_congr E _ hcnt3] at hl
    obtain ⟨hheld', hno⟩ := hlast hnext hl
    rw [halloc3]
    exact ⟨(hheld _ 1).mpr (.inr hheld'), hno⟩
  obtain ⟨hs', hd⟩ := dropFrame_spec hE hs3 hlast3 hdrop
  refine ⟨hs', ⟨?_, ?_, ?_, ?_, ?_⟩, hnext⟩
  · intro r' hr' vpn'
    rw [hpte, ← hleaf2 hr']
    have hpte' : m'.pte = m2.pte := by
      rw [hd.pte, hsame]
    simp only [leaf, hpte']
  · rw [hd.byte, hsame, hpte, hm2]
  · rw [hd.cnt, hpte, pageRefDec_congr E _ hcnt3]
  · have hkfreed3 : (countNew E count mem m2).kfreed = m.kfreed := by rw [hsame, hm2]
    rw [hd.kfreed, hkfreed3, hpte, lastRef_congr E _ hcnt3]
  · intro q k
    rw [hd.held, halloc3, hheld, hpte, lastRef_congr E _ hcnt3]

/-- A valid entry that is moved to the frame `mem`. -/
lemma mapsFrame_own {f pte : Nat} (hmem : mem < 2 ^ 64) (hdvd : 4096 ∣ mem)
    (hv : has pte pteV = true) :
    mapsFrame f (pa2pte mem ||| ownFlags pte) = decide (mem = f) := by
  have hvalid : has (pa2pte mem ||| ownFlags pte) pteV = true := by
    have hor : has (pa2pte mem ||| ownFlags pte) (1 <<< 0) = has (ownFlags pte) (1 <<< 0) :=
      has_or (by decide)
    exact hor.trans ((has_ownFlags_pteV pte).trans hv)
  have hframe : frameOf mem = mem := frameOf_of_dvd hdvd
  rw [mapsFrame, hvalid, pte2pa_or hmem (ownFlags_lt pte), hframe, Bool.true_and]

lemma cnt_countNew (hE : E.Ok lo hi Inv Held) (hf : Managed lo hi f) (hmem : mem < 2 ^ 64)
    (hdvd : 4096 ∣ mem) :
    (countNew E true mem m).cnt (pageIndex E f) =
      if mem = f then (m.cnt (pageIndex E f) + 1) % 256 else m.cnt (pageIndex E f) := by
  have hframe : frameOf mem = mem := frameOf_of_dvd hdvd
  show (pageRefInc E mem m).cnt (pageIndex E f) = _
  rw [cnt_pageRefInc hE hf hmem, hframe]

/-- Counting the new frame does not change the counters of the others. -/
lemma countNew_of_ne {i : Nat} (h : i ≠ pageIndex E mem) :
    (countNew E count mem m).cnt i = m.cnt i := by
  cases count with
  | true =>
    show (pageRefInc E mem m).cnt _ = _
    unfold pageRefInc
    split_ifs
    · exact update_of_ne h _ _
    · rfl
  | false => rfl

/-- Counting a managed frame does not change whether another frame has its last reference. -/
lemma lastRef_countNew {old : Nat} (hE : E.Ok lo hi Inv Held)
    (hmem : Managed lo hi mem) (hold : old < 2 ^ 64) (hdvd : 4096 ∣ old) (hne : old ≠ mem) :
    lastRef E (countNew E count mem m) old = lastRef E m old := by
  have hframe : frameOf old = old := frameOf_of_dvd hdvd
  unfold lastRef
  by_cases hc : counted E old = true
  · have hidx : pageIndex E old ≠ pageIndex E mem := by
      intro heq
      have := (pageIndex_eq_iff hE hmem hold).mp ⟨hc, heq⟩
      omega
    rw [countNew_of_ne hidx]
  · rw [Bool.eq_false_iff.mpr hc, Bool.false_and, Bool.false_and]

/-- A managed frame stands at its last reference when its counter is one. -/
lemma lastRef_managed (hE : E.Ok lo hi Inv Held) (hf : Managed lo hi f) :
    lastRef E m f = true ↔ m.cnt (pageIndex E f) = 1 := by
  have htop := hE.hi_lt
  have hlt : f < 2 ^ 64 := by
    have := hf.2.2
    omega
  have hframe : frameOf f = f := by
    have := hf.1
    unfold frameOf
    omega
  have hc : counted E f = true := ((pageIndex_eq_iff hE hf hlt).mpr hframe).1
  rw [lastRef, hc, Bool.true_and, decide_eq_true_eq]

/-! ## The store fault handler -/

lemma storePageFault_cases {r badv : Nat} (h : storePageFault E r badv m = some m') :
    ∃ e mem, entryAddr m.pte r (pgRoundDown badv >>> 12) = some e ∧
      has (leaf m r (pgRoundDown badv >>> 12)) pteV = true ∧
      has (leaf m r (pgRoundDown badv >>> 12)) pteCow = true ∧
      breakCow E true e m = some (mem, m') := by
  simp only [storePageFault, walk_noalloc, bind_eq_bind, bind_some] at h
  obtain ⟨e, he, h⟩ := bind_eq_some_iff.mp h
  have hleaf : m.pte e = leaf m r (pgRoundDown badv >>> 12) := by
    simp only [leaf, he]
  rw [hleaf] at h
  split_ifs at h with hcheck
  obtain ⟨⟨mem, m1⟩, hbreak, heq⟩ := bind_eq_some_iff.mp h
  cases heq
  simp only [Bool.or_eq_true, Bool.not_eq_true', not_or, Bool.not_eq_false] at hcheck
  exact ⟨e, mem, he, hcheck.1.2, hcheck.2, hbreak⟩

end

end Hana.Vm
