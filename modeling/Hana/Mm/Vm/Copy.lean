import Hana.Lib.Slots
import Hana.Mm.Vm.Frames

/-!
# Copying page tables

The specification of `uvmcopy`. `CopyPages` lists what it does page by page: an entry of the
parent that has a frame is mapped in the child, with `PTE_W` replaced by `PTE_COW`; the
parent's entries stay as they are.
-/

namespace Hana.Vm

open Lib Option

variable {A : Type}

/-! ## Flags of a copied entry -/

lemma copyFlags_lt (pte : Nat) : copyFlags pte < 2 ^ 10 := by
  have hflags := pteFlags_lt pte
  unfold copyFlags
  split_ifs
  · exact Nat.or_lt_two_pow (lt_of_le_of_lt Nat.and_le_left hflags) (by decide)
  · exact hflags

/-- The child can not store through a copied entry. -/
lemma has_copyFlags_pteW (pte : Nat) : has (copyFlags pte) pteW = false := by
  have hbit : ∀ x, has x pteW = x.testBit 2 := fun x => has_two_pow x 2
  unfold copyFlags
  split_ifs with hw
  · rw [hbit, Nat.testBit_or, Nat.testBit_and]
    have hmask : (complement pteW).testBit 2 = false := by decide
    have hcow : pteCow.testBit 2 = false := by decide
    rw [hmask, hcow, Bool.and_false, Bool.or_false]
  · have hflags : has (pteFlags pte) pteW = has pte pteW := has_pteFlags (i := 2) (by decide)
    rw [hflags]
    exact Bool.eq_false_iff.mpr hw

/-! ## The loop of uvmcopy -/

/-- The number of pages that `uvmcopy` visits. -/
def copyCount (sz : Nat) : Nat := (sz + (pgSize - 1)) / pgSize

/-- The pages `[vpn, vpn + n)` of the table `p` are copied to the table `c`. -/
inductive CopyPages (E : Env A) (Inv : A → Prop) (Held : A → Nat → Nat → Prop) (c p : Nat) :
    (n vpn : Nat) → Mem A → (Nat → Option Place) → Mem A → (Nat → Option Place) → Prop
  | nil {vpn : Nat} {m : Mem A} {tab : Nat → Option Place} :
      CopyPages E Inv Held c p 0 vpn m tab m tab
  | skip {n vpn : Nat} {m m' : Mem A} {tab tab' : Nat → Option Place}
      (hentry : (entryAddr m.pte p vpn).isSome) (hpa : pte2pa (leaf m p vpn) = 0)
      (hrest : CopyPages E Inv Held c p n (vpn + 1) m tab m' tab') :
      CopyPages E Inv Held c p (n + 1) vpn m tab m' tab'
  | copy {n vpn : Nat} {m m₁ m' : Mem A} {tab tab₁ tab' : Nat → Option Place}
      (hentry : (entryAddr m.pte p vpn).isSome) (hpa : pte2pa (leaf m p vpn) ≠ 0)
      (hmap : MapPage E Held c vpn (pte2pa (leaf m p vpn)) (copyFlags (leaf m p vpn)) m tab m₁ tab₁)
      (hs : Shaped Inv Held m₁ tab₁) (hrest : CopyPages E Inv Held c p n (vpn + 1) m₁ tab₁ m' tab') :
      CopyPages E Inv Held c p (n + 1) vpn m tab m' tab'

variable {n k f : Nat}

section

variable {Inv : A → Prop} {Held : A → Nat → Nat → Prop} {lo hi : Nat} {E : Env A}
variable {m m₁ m' : Mem A} {tab tab₁ tab' : Nat → Option Place} {c p r vpn : Nat}

lemma uvmcopy_eq {sz : Nat} (hsz : sz ≤ 2 ^ 64 - 4096) :
    uvmcopy E c p sz m = uvmcopyLoop E c p (copyCount sz) (4096 * 0) m := by
  unfold uvmcopy
  rw [if_neg (by unfold pgSize; omega)]
  rfl

/-- One turn of the loop of `uvmcopy`. -/
lemma uvmcopyLoop_succ (n va : Nat) (m : Mem A) :
    uvmcopyLoop E c p (n + 1) va m = (entryAddr m.pte p (va >>> 12)).bind fun _ =>
      if pte2pa (leaf m p (va >>> 12)) ≠ 0 then
        (mappages E c va (pte2pa (leaf m p (va >>> 12))) pgSize (copyFlags (leaf m p (va >>> 12)))
          m).bind (uvmcopyLoop E c p n (va + pgSize))
      else uvmcopyLoop E c p n (va + pgSize) m := by
  rw [uvmcopyLoop, walk_noalloc]
  simp only [bind_eq_bind, bind_some]
  cases he : entryAddr m.pte p (va >>> 12) with
  | none => simp only [bind_none]
  | some e =>
    have hleaf : leaf m p (va >>> 12) = m.pte e := by
      simp only [leaf, he]
    rw [hleaf]
    simp only [bind_some]

lemma uvmcopyLoop_spec (hE : E.Ok lo hi Inv Held) (vpn : Nat) (hvpn : vpn + n < 2 ^ 52)
    (hs : Shaped Inv Held m tab) (hc : tab c = some (rootPlace c))
    (h : uvmcopyLoop E c p n (4096 * vpn) m = some m') :
    ∃ tab', Shaped Inv Held m' tab' ∧ CopyPages E Inv Held c p n vpn m tab m' tab' := by
  induction n generalizing vpn m tab with
  | zero =>
    cases h
    exact ⟨tab, hs, CopyPages.nil⟩
  | succ n ih =>
    have hshift : (4096 * vpn) >>> 12 = vpn := by
      omega
    have hnext : 4096 * vpn + pgSize = 4096 * (vpn + 1) := rfl
    rw [uvmcopyLoop_succ, hshift, hnext] at h
    obtain ⟨e, he, h⟩ := bind_eq_some_iff.mp h
    have hsome : (entryAddr m.pte p vpn).isSome := isSome_iff_exists.mpr ⟨e, he⟩
    split_ifs at h with hpa
    · obtain ⟨m₁, hmap, h⟩ := bind_eq_some_iff.mp h
      obtain ⟨tab₁, hs1, hp1⟩ := mappages_page hE hs hc (dvd_mul_right _ _) (by omega)
        (pte2pa_le _) hmap
      rw [hshift] at hp1
      obtain ⟨tab', hs', hrest⟩ := ih (vpn + 1) (by omega) hs1 (hp1.le hc) h
      exact ⟨tab', hs', CopyPages.copy hsome hpa hp1 hs1 hrest⟩
    · obtain ⟨tab', hs', hrest⟩ := ih (vpn + 1) (by omega) hs hc h
      exact ⟨tab', hs', CopyPages.skip hsome (not_not.mp hpa) hrest⟩

/-! ## What the copy leaves alone -/

lemma CopyPages.tablesOnly (h : CopyPages E Inv Held c p n vpn m tab m' tab') :
    TablesOnly Held c m tab m' tab' := by
  induction h with
  | nil => exact TablesOnly.refl
  | skip _ _ _ ih => exact ih
  | copy _ _ hmap _ _ ih => exact hmap.tablesOnly.trans ih

/-- Walks in the other tables end where they ended before. -/
lemma Beside.entryAddr_eq (h : Beside r m tab m' tab') (ht : Tables m tab) (ht' : Tables m' tab')
    (hp : tab p = some (rootPlace p)) (hne : p ≠ r) (vpn : Nat) :
    entryAddr m'.pte p vpn = entryAddr m.pte p vpn := by
  apply ext
  intro e
  rw [ht'.entryAddr_eq_some_iff (h.le hp), ht.entryAddr_eq_some_iff hp]
  constructor
  · rintro ⟨t, hleaf, he⟩
    exact ⟨t, h.other hleaf hne, he⟩
  · rintro ⟨t, hleaf, he⟩
    exact ⟨t, h.le hleaf, he⟩

/-- The copied pages have leaf tables in the parent. -/
lemma CopyPages.entry_isSome (hne : p ≠ c) (h : CopyPages E Inv Held c p n vpn m tab m' tab') :
    Tables m tab → tab p = some (rootPlace p) → ∀ k, vpn ≤ k → k < vpn + n →
      (entryAddr m.pte p k).isSome := by
  induction h with
  | nil =>
    intro _ _ k hlo hhi
    omega
  | @skip n vpn m m' tab tab' hentry _ _ ih =>
    intro ht hp k hlo hhi
    by_cases hk : k = vpn
    · rw [hk]
      exact hentry
    · exact ih ht hp k (by omega) (by omega)
  | @copy n vpn m m₁ m' tab tab₁ tab' hentry _ hmap hs _ ih =>
    intro ht hp k hlo hhi
    by_cases hk : k = vpn
    · rw [hk]
      exact hentry
    · rw [← hmap.tablesOnly.beside.entryAddr_eq ht hs.tables hp hne]
      exact ih hs.tables (hmap.le hp) k (by omega) (by omega)

/-! ## The entries of the child -/

/-- The entry that the copy of a page gets. -/
def copyEntry (pte : Nat) : Nat := pa2pte (pte2pa pte) ||| copyFlags pte ||| pteV

lemma leaf_eq_of_mod_eq (m : Mem A) (r : Nat) {i : Nat} (h : i % 2 ^ 27 = k % 2 ^ 27) :
    leaf m r i = leaf m r k := by
  rw [← leaf_mod m r i, h, leaf_mod]

/-- An entry of the child is a copy of the parent's entry or what it was before. -/
lemma CopyPages.leaf_child_cases (hne : p ≠ c)
    (h : CopyPages E Inv Held c p n vpn m tab m' tab') (k : Nat) :
    tab c = some (rootPlace c) → tab p = some (rootPlace p) →
    leaf m' c k = leaf m c k ∨
      (∃ i, vpn ≤ i ∧ i < vpn + n ∧ i % 2 ^ 27 = k % 2 ^ 27) ∧ pte2pa (leaf m p k) ≠ 0 ∧
        leaf m' c k = copyEntry (leaf m p k) := by
  induction h with
  | nil =>
    intro _ _
    exact .inl rfl
  | skip _ _ _ ih =>
    intro hc hp
    rcases ih hc hp with hsame | ⟨⟨i, hlo, hhi, hmod⟩, hcopy⟩
    · exact .inl hsame
    · exact .inr ⟨⟨i, by omega, by omega, hmod⟩, hcopy⟩
  | @copy n vpn m m₁ m' tab tab₁ tab' _ hpa hmap hs _ ih =>
    intro hc hp
    have hparent := hmap.tablesOnly.leaf hp hne
    rcases ih (hmap.le hc) (hmap.le hp) with hsame | ⟨⟨i, hlo, hhi, hmod⟩, hcopy⟩
    · rw [hmap.leaf hc] at hsame
      by_cases hk : k % 2 ^ 27 = vpn % 2 ^ 27
      · rw [if_pos ⟨rfl, hk⟩] at hsame
        rw [leaf_eq_of_mod_eq m p hk]
        exact .inr ⟨⟨vpn, le_rfl, by omega, hk.symm⟩, hpa, hsame⟩
      · rw [if_neg fun hand => hk hand.2] at hsame
        exact .inl hsame
    · rw [hparent] at hcopy
      exact .inr ⟨⟨i, by omega, by omega, hmod⟩, hcopy⟩

/-- A page of the parent that has a frame is copied. -/
lemma CopyPages.leaf_copied (hne : p ≠ c) (h : CopyPages E Inv Held c p n vpn m tab m' tab') :
    tab c = some (rootPlace c) → tab p = some (rootPlace p) → vpn ≤ k → k < vpn + n →
    pte2pa (leaf m p k) ≠ 0 → leaf m' c k = copyEntry (leaf m p k) := by
  induction h with
  | nil =>
    intro _ _ hlo hhi
    omega
  | @skip n vpn m m' tab tab' _ hzero _ ih =>
    intro hc hp hlo hhi hpa
    by_cases hk : k = vpn
    · rw [hk] at hpa
      exact absurd hzero hpa
    · exact ih hc hp (by omega) (by omega) hpa
  | @copy n vpn m m₁ m' tab tab₁ tab' _ _ hmap _ hrest ih =>
    intro hc hp hlo hhi hpa
    have hparent := hmap.tablesOnly.leaf hp hne
    by_cases hk : k = vpn
    · -- a later turn can only write the same entry again
      subst hk
      rcases hrest.leaf_child_cases hne k (hmap.le hc) (hmap.le hp) with hsame | ⟨_, _, hcopy⟩
      · rw [hsame, hmap.leaf hc, if_pos ⟨rfl, rfl⟩]
        rfl
      · rw [hcopy, hparent]
    · rw [← hparent] at hpa ⊢
      exact ih (hmap.le hc) (hmap.le hp) (by omega) (by omega) hpa

/-! ## The counters -/

/-- The number of copied pages that map the frame. -/
def copiesOf (m : Mem A) (p vpn n f : Nat) : Nat :=
  slotCount n (fun i => leaf m p (vpn + i)) fun pte => decide (pte2pa pte = f)

lemma copiesOf_succ (m : Mem A) (p vpn n f : Nat) :
    copiesOf m p vpn (n + 1) f =
      (if pte2pa (leaf m p vpn) = f then 1 else 0) + copiesOf m p (vpn + 1) n f := by
  unfold copiesOf
  rw [slotCount_succ_left]
  simp only [add_zero, decide_eq_true_eq]
  congr 2
  funext i
  rw [add_assoc, add_comm 1 i]

lemma copiesOf_congr (h : ∀ k, leaf m' p k = leaf m p k) :
    copiesOf m' p vpn n f = copiesOf m p vpn n f := by
  unfold copiesOf
  simp only [h]

/-- Every copy is counted, as long as the counter does not wrap. -/
lemma CopyPages.cnt (hE : E.Ok lo hi Inv Held) (hne : p ≠ c) (hf : Managed lo hi f)
    (h : CopyPages E Inv Held c p n vpn m tab m' tab') :
    tab p = some (rootPlace p) → m.cnt (pageIndex E f) + copiesOf m p vpn n f < 256 →
    m'.cnt (pageIndex E f) = m.cnt (pageIndex E f) + copiesOf m p vpn n f := by
  have hpos : 0 < f := lt_of_lt_of_le hE.lo_pos hf.2.1
  induction h with
  | nil =>
    intro _ _
    rfl
  | @skip n vpn m m' tab tab' _ hzero _ ih =>
    intro hp hlt
    rw [copiesOf_succ, hzero, if_neg (by omega), zero_add] at hlt ⊢
    exact ih hp hlt
  | @copy n vpn m m₁ m' tab tab₁ tab' _ hpa hmap _ _ ih =>
    intro hp hlt
    have hcnt := hmap.cnt_managed hE hf (wrap64_lt _)
    rw [frameOf_pte2pa] at hcnt
    have hcopies : copiesOf m₁ p (vpn + 1) n f = copiesOf m p (vpn + 1) n f :=
      copiesOf_congr (hmap.tablesOnly.leaf hp hne)
    rw [copiesOf_succ] at hlt ⊢
    by_cases heq : pte2pa (leaf m p vpn) = f
    · rw [if_pos heq] at hcnt hlt ⊢
      rw [ih (hmap.le hp) (by rw [hcnt, hcopies]; omega), hcnt, hcopies]
      omega
    · rw [if_neg heq] at hcnt hlt ⊢
      rw [ih (hmap.le hp) (by rw [hcnt, hcopies]; omega), hcnt, hcopies]
      omega

/-- Every copied page is a new mapping of its frame. -/
lemma CopyPages.refs_eq {roots : List Nat} (hlo : 0 < lo) (hne : p ≠ c) (hnd : roots.Nodup)
    (hc : c ∈ roots) (hf : Managed lo hi f) (h : CopyPages E Inv Held c p n vpn m tab m' tab') :
    (∀ r ∈ roots, tab r = some (rootPlace r)) → tab p = some (rootPlace p) → vpn + n ≤ 2 ^ 27 →
    (∀ k, vpn ≤ k → k < vpn + n → mapsFrame f (leaf m c k) = false) →
    refs m' roots f = refs m roots f + copiesOf m p vpn n f := by
  have hpos : f ≠ 0 := by
    have := hf.2.1
    omega
  induction h with
  | nil =>
    intro _ _ _ _
    rfl
  | @skip n vpn m m' tab tab' _ hzero _ ih =>
    intro hroots hp hn hvacant
    rw [copiesOf_succ, hzero, if_neg hpos.symm, zero_add]
    exact ih hroots hp (by omega) fun k hlo hhi => hvacant k (by omega) (by omega)
  | @copy n vpn m m₁ m' tab tab₁ tab' _ hpa hmap _ _ ih =>
    intro hroots hp hn hvacant
    have hrefs := hmap.refs_eq hroots hnd hc (wrap64_lt _) (copyFlags_lt _)
      (hvacant vpn le_rfl (by omega))
    have hrest := ih (fun r hr => hmap.le (hroots r hr)) (hmap.le hp) (by omega) (by
      intro k hlo hhi
      rw [hmap.leaf (hroots c hc), if_neg (by omega)]
      exact hvacant k (by omega) (by omega))
    rw [hrest, hrefs, copiesOf_succ, frameOf_pte2pa,
      copiesOf_congr (hmap.tablesOnly.leaf hp hne), add_assoc]

/-! ## Enough memory

With pages left for the tables of the child, the loop ends exactly when every page has a leaf
table in the parent. -/

/-- The allocator can give out `n` more pages. -/
def Room (al : Allocator A) : Nat → A → Prop
  | 0, _ => True
  | n + 1, a => ∃ p a', al.kalloc pgSize a = some (p, a') ∧ Room al n a'

lemma Room.pred {al : Allocator A} : ∀ {n : Nat} {a : A}, Room al (n + 1) a → Room al n a := by
  intro n
  induction n with
  | zero =>
    intro a _
    trivial
  | succ n ih =>
    rintro a ⟨q, a', hk, hroom⟩
    exact ⟨q, a', hk, ih hroom⟩

lemma walkStep_room (q : Nat) (h : Room E.al (n + 1) m.alloc) :
    ∃ next m', walkStep E true q m = some (next, m') ∧ Room E.al n m'.alloc := by
  unfold walkStep
  rw [if_pos (rfl : true = true)]
  split_ifs with hv
  · exact ⟨_, m, rfl, h.pred⟩
  · obtain ⟨t, a', hk, hroom⟩ := h
    have htable : allocPagetable E m = some (t, clearTable t { m with alloc := a' }) := by
      simp only [allocPagetable, kalloc, hk, bind_eq_bind, bind_some]
    rw [htable]
    simp only [bind_eq_bind, bind_some]
    split_ifs
    · exact ⟨_, _, rfl, hroom⟩
    · exact ⟨_, _, rfl, hroom⟩

lemma walk_room (r va : Nat) (h : Room E.al (n + 2) m.alloc) :
    ∃ q m', walk E r va true m = some (q, m') ∧ Room E.al n m'.alloc := by
  simp only [walk, walkLoop]
  obtain ⟨next, m₁, hstep, hroom1⟩ := walkStep_room (r + 8 * ((va >>> 12) >>> 18 &&& 0x1ff)) h
  rw [hstep]
  simp only [bind_eq_bind, bind_some]
  cases next with
  | none => exact ⟨none, m₁, rfl, hroom1.pred⟩
  | some t =>
    obtain ⟨next, m2, hstep, hroom2⟩ :=
      walkStep_room (t + 8 * ((va >>> 12) >>> 9 &&& 0x1ff)) hroom1
    simp only
    rw [hstep]
    cases next with
    | none => exact ⟨none, m2, rfl, hroom2⟩
    | some t => exact ⟨_, m2, rfl, hroom2⟩

lemma mappages_page_room (hE : E.Ok lo hi Inv Held) (hs : Shaped Inv Held m tab)
    (hr : tab r = some (rootPlace r)) {va : Nat} (pa flags : Nat) (hdvd : 4096 ∣ va)
    (hva : va + 8192 ≤ 2 ^ 64) (h : Room E.al (n + 4) m.alloc) :
    ∃ m', mappages E r va pa pgSize flags m = some m' ∧ Room E.al n m'.alloc := by
  obtain ⟨q, m₁, hw, hroom1⟩ := walk_room r va (n := n + 2) h
  obtain ⟨e, tab₁, rfl, hs1, hg1, he⟩ := walk_alloc hE hs hr hw
  obtain ⟨hs2, _, _⟩ := setPte_mapPage E pa flags hs1 (hg1.le hr) he
  have halloc : (pageRefInc E pa (m₁.setPte e (pa2pte pa ||| flags ||| pteV))).alloc = m₁.alloc := by
    rw [pageRefInc_same]
    rfl
  simp only [mappages, hw, mapCount_page hdvd hva, bind_eq_bind, bind_some,
    mappagesLoop]
  split_ifs with hal
  · rw [← halloc] at hroom1
    obtain ⟨q, m3, hw3, hroom3⟩ := walk_room r (offsetVa va (0 + 1)) hroom1
    obtain ⟨e3, tab3, rfl, _⟩ := walk_alloc hE hs2 (hg1.le hr) hw3
    rw [hw3]
    exact ⟨m3, rfl, hroom3⟩
  · refine ⟨_, rfl, ?_⟩
    rw [halloc]
    exact hroom1.pred.pred

lemma uvmcopyLoop_room (hE : E.Ok lo hi Inv Held) (hne : p ≠ c) (vpn : Nat) (hvpn : vpn + n < 2 ^ 52)
    (hs : Shaped Inv Held m tab) (hc : tab c = some (rootPlace c)) (hp : tab p = some (rootPlace p))
    (hroom : Room E.al (4 * n) m.alloc)
    (hentry : ∀ k, vpn ≤ k → k < vpn + n → (entryAddr m.pte p k).isSome) :
    ∃ m', uvmcopyLoop E c p n (4096 * vpn) m = some m' := by
  induction n generalizing vpn m tab with
  | zero => exact ⟨m, rfl⟩
  | succ n ih =>
    have hshift : (4096 * vpn) >>> 12 = vpn := by
      omega
    have hnext : 4096 * vpn + pgSize = 4096 * (vpn + 1) := rfl
    obtain ⟨e, he⟩ := isSome_iff_exists.mp (hentry vpn le_rfl (by omega))
    have hrest : ∀ k, vpn + 1 ≤ k → k < vpn + 1 + n → (entryAddr m.pte p k).isSome :=
      fun k hlo hhi => hentry k (by omega) (by omega)
    rw [uvmcopyLoop_succ, hshift, hnext, he, bind_some]
    split_ifs
    · obtain ⟨m₁, hmap, hroom1⟩ := mappages_page_room hE hs hc (n := 4 * n)
        (pte2pa (leaf m p vpn)) (copyFlags (leaf m p vpn)) (dvd_mul_right _ vpn) (by omega) hroom
      obtain ⟨tab₁, hs1, hp1⟩ := mappages_page hE hs hc (dvd_mul_right _ _) (by omega)
        (pte2pa_le _) hmap
      rw [hmap, bind_some]
      refine ih (vpn + 1) (by omega) hs1 (hp1.le hc) (hp1.le hp) hroom1 ?_
      intro k hlo hhi
      rw [hp1.tablesOnly.beside.entryAddr_eq hs.tables hs1.tables hp hne]
      exact hrest k hlo hhi
    · exact ih (vpn + 1) (by omega) hs hc hp hroom.pred.pred.pred.pred hrest

end

end Hana.Vm
