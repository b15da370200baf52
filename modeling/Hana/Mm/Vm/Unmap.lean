import Hana.Lib.Loop
import Hana.Lib.Slots
import Hana.Mm.Vm.Boot
import Hana.Mm.Vm.Map

/-!
# Unmapping

`Unmapped` is the contract of `uvmunmap`: the pages of the range lose their leaf entries,
the other pages keep theirs, and with `do_free` the counters drop by the entries removed.
On RISC-V the test of the outer loop is `PTE2PA(pagetable[i] != 0)`, the frame of an entry
that is 0 or 1. It is never true, so the loop does nothing and the contract holds for empty
ranges only.
-/

namespace Hana.Vm

open Lib

variable {A : Type} {E : Env A} {pgtbl va npages : Nat} {doFree : Bool} {m m' : Mem A}

/-- The page lies in the `npages` pages from `va` on. -/
def InRange (va npages vpn : Nat) : Prop := va / pgSize ≤ vpn ∧ vpn < va / pgSize + npages

instance (va npages vpn : Nat) : Decidable (InRange va npages vpn) :=
  inferInstanceAs (Decidable (_ ∧ _))

/-- The entry of a page that is to be removed, zero outside of the range. -/
def rangeEntry (m : Mem A) (pgtbl va npages vpn : Nat) : Nat :=
  if InRange va npages vpn then leaf m pgtbl vpn else 0

/-- The entry holds a reference that the `i`th counter counts. -/
def refersTo (E : Env A) (i pte : Nat) : Bool :=
  decide (pte ≠ 0) && counted E (pte2pa pte) && decide (pageIndex E (pte2pa pte) = i)

/-- The contract of `uvmunmap`, for the pages of the Sv39 address space. -/
structure Unmapped (E : Env A) (pgtbl va npages : Nat) (doFree : Bool) (m m' : Mem A) : Prop where
  inside : ∀ vpn < 2 ^ 27, InRange va npages vpn → leaf m' pgtbl vpn = 0
  outside : ∀ vpn < 2 ^ 27, ¬ InRange va npages vpn → leaf m' pgtbl vpn = leaf m pgtbl vpn
  dropped : doFree = true → ∀ i, (m'.cnt i +
    slotCount (2 ^ 27) (rangeEntry m pgtbl va npages) (refersTo E i)) % 256 = m.cnt i % 256

/-- Neither truth value has a frame number. -/
lemma pte2pa_truth (c : Prop) [Decidable c] : pte2pa (if c then 1 else 0) = 0 := by
  split_ifs <;> rfl

/-- `uvmunmap` returns without having touched anything. -/
lemma uvmunmap_eq (E : Env A) (pgtbl npages : Nat) (doFree : Bool) (m : Mem A)
    (hva : 4096 ∣ va) : uvmunmap E pgtbl va npages doFree m = some m := by
  have haligned : isPgAligned va = true := (isPgAligned_iff va).mpr hva
  unfold uvmunmap
  rw [haligned]
  apply foldlM_some_self
  intro i _
  rw [pte2pa_truth]
  rfl

lemma uvmunmap_same (h : uvmunmap E pgtbl va npages doFree m = some m') : m' = m := by
  by_cases hal : isPgAligned va = true
  · rw [uvmunmap_eq E _ _ _ _ ((isPgAligned_iff va).mp hal)] at h
    cases h
    rfl
  · rw [uvmunmap, if_pos (by simpa using hal)] at h
    cases h

lemma refersTo_zero (E : Env A) (i : Nat) : refersTo E i 0 = false := rfl

/-- The contract of a call that changes nothing. -/
lemma unmapped_self_iff :
    Unmapped E pgtbl va npages doFree m m ↔
      ∀ vpn < 2 ^ 27, InRange va npages vpn → leaf m pgtbl vpn = 0 := by
  constructor
  · intro h
    exact h.inside
  · intro h
    refine ⟨h, fun _ _ _ => rfl, fun _ i => ?_⟩
    have hentry : ∀ vpn < 2 ^ 27, refersTo E i (rangeEntry m pgtbl va npages vpn) = false := by
      intro vpn hvpn
      have hzero : rangeEntry m pgtbl va npages vpn = 0 := by
        unfold rangeEntry
        split_ifs with hin
        · exact h vpn hvpn hin
        · rfl
      rw [hzero, refersTo_zero]
    rw [slotCount_eq_zero hentry, add_zero]

/-- `uvmunmap` meets its contract exactly when there is nothing to unmap in the range. -/
theorem uvmunmap_exact (E : Env A) (pgtbl npages : Nat) (doFree : Bool) (m : Mem A)
    (hva : 4096 ∣ va) :
    (∃ m', uvmunmap E pgtbl va npages doFree m = some m' ∧
      Unmapped E pgtbl va npages doFree m m') ↔
    ∀ vpn < 2 ^ 27, InRange va npages vpn → leaf m pgtbl vpn = 0 := by
  rw [uvmunmap_eq E pgtbl npages doFree m hva, ← unmapped_self_iff]
  constructor
  · rintro ⟨m', heq, h⟩
    cases heq
    exact h
  · intro h
    exact ⟨m, rfl, h⟩

/-- A kernel with four pages for the allocator, and a user table that maps one page at `va`. -/
def bootOnePage (va : Nat) : Option (Env Buddy.Pool × Nat × Mem Buddy.Pool) := do
  let (E, m) ← bootCleared 0x80305000
  let (r, m) ← allocPagetable E m
  let (p, m) ← kalloc E pgSize m
  let m ← mappages E r va p pgSize (pteU ||| pteRw) m
  some (E, r, m)

theorem uvmunmap_exact_beside_page :
    ∃ E r m, bootOnePage 0x1000 = some (E, r, m) ∧ leaf m r 1 ≠ 0 ∧
      ∃ m', uvmunmap E r 0x2000 3 true m = some m' ∧ Unmapped E r 0x2000 3 true m m' := by
  have hrun : (bootOnePage 0x1000).map (fun x => (leaf x.2.2 x.2.1 1, leaf x.2.2 x.2.1 2,
      leaf x.2.2 x.2.1 3, leaf x.2.2 x.2.1 4)) = some (0x200c0c17, 0, 0, 0) := by
    decide +kernel
  obtain ⟨⟨E, r, m⟩, hboot, heq⟩ := Option.map_eq_some_iff.mp hrun
  simp only [Prod.mk.injEq] at heq
  refine ⟨E, r, m, hboot, by rw [heq.1]; decide, ?_⟩
  rw [uvmunmap_exact E r 3 true m (by decide)]
  rintro vpn _ ⟨hlo, hhi⟩
  have hcases : vpn = 2 ∨ vpn = 3 ∨ vpn = 4 := by
    unfold pgSize at hlo hhi
    omega
  rcases hcases with rfl | rfl | rfl
  · exact heq.2.1
  · exact heq.2.2.1
  · exact heq.2.2.2

/-- A page that was mapped by `mappages` is still mapped after it. -/
theorem uvmunmap_keeps_page :
    ∃ E r m, bootOnePage 0x1000 = some (E, r, m) ∧
      ¬ ∃ m', uvmunmap E r 0x1000 1 true m = some m' ∧ Unmapped E r 0x1000 1 true m m' := by
  have hrun : (bootOnePage 0x1000).map (fun x => leaf x.2.2 x.2.1 1) = some 0x200c0c17 := by
    decide +kernel
  obtain ⟨⟨E, r, m⟩, hboot, heq⟩ := Option.map_eq_some_iff.mp hrun
  refine ⟨E, r, m, hboot, ?_⟩
  rintro ⟨m', hm', hexact⟩
  rw [uvmunmap_eq E r 1 true m (by decide)] at hm'
  cases hm'
  have hleaf : leaf m r 1 = 0 := hexact.inside 1 (by decide) (by decide)
  rw [heq] at hleaf
  exact absurd hleaf (by decide)

end Hana.Vm
