import Mathlib.Data.Nat.Bitwise
import Mathlib.Data.List.Count
import Mathlib.Data.List.Range
import Mathlib.Logic.Function.Basic

/-!
# Counting the slots that hold a value

A table of `n` slots is a function on indices. `slotCount n g p` is the number of slots
whose content satisfies `p`; writing one slot changes it by what that slot held and holds.
-/

namespace Hana.Lib

open List

variable {β : Type*}

def slotCount (n : Nat) (g : Nat → β) (p : β → Bool) : Nat :=
  (List.range n).countP fun i => p (g i)

lemma slotCount_succ (n : Nat) (g : Nat → β) (p : β → Bool) :
    slotCount (n + 1) g p = slotCount n g p + if p (g n) then 1 else 0 := by
  unfold slotCount
  rw [range_succ, countP_append, countP_singleton]

lemma slotCount_le (n : Nat) (g : Nat → β) (p : β → Bool) : slotCount n g p ≤ n :=
  countP_le_length.trans_eq length_range

/-- The same count with the first slot set apart. -/
lemma slotCount_succ_left (n : Nat) (g : Nat → β) (p : β → Bool) :
    slotCount (n + 1) g p = (if p (g 0) then 1 else 0) + slotCount n (fun i => g (i + 1)) p := by
  unfold slotCount
  rw [range_succ_eq_map, countP_cons, countP_map, add_comm]
  rfl

variable {n i : Nat} {g : Nat → β} {p : β → Bool}

lemma slotCount_congr {g' : Nat → β} {p' : β → Bool}
    (h : ∀ i < n, p (g i) = p' (g' i)) : slotCount n g p = slotCount n g' p' := by
  apply countP_congr
  intro i hi
  rw [h i (mem_range.mp hi)]

lemma slotCount_update (g : Nat → β) (p : β → Bool) (v : β) (hi : i < n) :
    slotCount n (Function.update g i v) p + (if p (g i) then 1 else 0) =
      slotCount n g p + if p v then 1 else 0 := by
  induction n with
  | zero => omega
  | succ n ih =>
    rw [slotCount_succ, slotCount_succ]
    by_cases he : i = n
    · subst he
      have hsame : slotCount i (Function.update g i v) p = slotCount i g p :=
        slotCount_congr fun j hj => by rw [Function.update_of_ne (by omega)]
      rw [hsame, Function.update_self]
      omega
    · rw [Function.update_of_ne (Ne.symm he)]
      omega

lemma slotCount_pos (hi : i < n) (hp : p (g i) = true) : 0 < slotCount n g p := by
  exact countP_pos_iff.mpr ⟨i, mem_range.mpr hi, hp⟩

lemma slotCount_eq_zero (h : ∀ i < n, p (g i) = false) : slotCount n g p = 0 := by
  unfold slotCount
  rw [countP_eq_zero]
  intro i hi
  rw [h i (mem_range.mp hi)]
  decide

/-- A sum over a list without repetition, one summand of which is changed. -/
lemma sum_map_update {l : List Nat} (hl : l.Nodup) {f f' : Nat → Nat} {a : Nat} (ha : a ∈ l)
    (h : ∀ x ∈ l, x ≠ a → f' x = f x) : (l.map f').sum + f a = (l.map f).sum + f' a := by
  induction l with
  | nil => cases ha
  | cons b l ih =>
    obtain ⟨hb, hl⟩ := nodup_cons.mp hl
    simp only [map_cons, sum_cons]
    rcases mem_cons.mp ha with rfl | ha
    · have hrest : l.map f' = l.map f := by
        apply map_congr_left
        intro x hx
        exact h x (mem_cons_of_mem _ hx) fun hxa => hb (hxa ▸ hx)
      rw [hrest]
      omega
    · have hne : b ≠ a := fun hba => hb (hba ▸ ha)
      have hb' := h b mem_cons_self hne
      have hrest := ih hl ha fun x hx => h x (mem_cons_of_mem _ hx)
      omega

end Hana.Lib
