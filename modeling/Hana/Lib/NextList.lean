import Mathlib.Data.List.Basic

/-!
# Singly linked lists with a terminator

A link map `next` over an arbitrary type of nodes and one value `e` that ends every list. The
links determine the nodes, so a list that reaches its end cannot come back to a node.
-/

namespace Hana.Lib

open List

variable {α : Type*} {next next' : α → α} {e a n : α} {xs ys : List α}

/-- The links lead from `a` through `xs` to the terminator `e`. -/
def NextList (next : α → α) (e : α) : α → List α → Prop
  | a, [] => a = e
  | a, x :: xs => a = x ∧ x ≠ e ∧ NextList next e (next x) xs

namespace NextList

/-- Only the links of the nodes on the list matter. -/
lemma congr (h : NextList next e a xs) (hn : ∀ u ∈ xs, next' u = next u) :
    NextList next' e a xs := by
  induction xs generalizing a with
  | nil => exact h
  | cons x xs ih =>
    obtain ⟨rfl, hne, h⟩ := h
    refine ⟨rfl, hne, ?_⟩
    rw [hn a mem_cons_self]
    exact ih h fun u hu => hn u (mem_cons_of_mem _ hu)

lemma unique (h : NextList next e a xs) (h' : NextList next e a ys) : xs = ys := by
  induction xs generalizing a ys with
  | nil =>
    have ha : a = e := h
    cases ys with
    | nil => rfl
    | cons y ys => exact absurd (h'.1.symm.trans ha) h'.2.1
  | cons x xs ih =>
    obtain ⟨rfl, hne, h⟩ := h
    cases ys with
    | nil => exact absurd h' hne
    | cons y ys =>
      obtain ⟨rfl, -, h'⟩ := h'
      rw [ih h h']

/-- The part of a list that starts at one of its nodes. -/
lemma drop (h : NextList next e a (xs ++ n :: ys)) : NextList next e n (n :: ys) := by
  induction xs generalizing a with
  | nil => exact ⟨rfl, h.2⟩
  | cons x xs ih => exact ih h.2.2

lemma nodup (h : NextList next e a xs) : xs.Nodup := by
  induction xs generalizing a with
  | nil => exact nodup_nil
  | cons x xs ih =>
    refine nodup_cons.mpr ⟨fun hmem => ?_, ih h.2.2⟩
    -- the rest of the list from the second visit on would be as long as the whole list
    obtain ⟨l1, l2, rfl⟩ := append_of_mem hmem
    have hrest : NextList next e x (x :: l2) := h.2.2.drop
    have hwhole : NextList next e x (x :: (l1 ++ x :: l2)) := ⟨rfl, h.2⟩
    have hsame := hrest.unique hwhole
    have hlen := congrArg length hsame
    simp only [length_append, length_cons] at hlen
    omega

end NextList

/-- When every node links to its successor, the list from `a` is an interval. -/
lemma nextList_range' {next : Nat → Nat} {a n : Nat}
    (h : ∀ i, a ≤ i → i < a + n → next i = i + 1) :
    NextList next (a + n) a (range' a n) := by
  induction n generalizing a with
  | zero => rfl
  | succ n ih =>
    refine ⟨rfl, by omega, ?_⟩
    rw [h a (Nat.le_refl a) (by omega), show a + (n + 1) = a + 1 + n by omega]
    exact ih fun i hi hlt => h i (by omega) (by omega)

end Hana.Lib
