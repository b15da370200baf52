import Mathlib.Data.List.Basic

/-!
# Doubly linked lists that end in a null pointer

Two link maps `next` and `prev` over an arbitrary type of nodes with a null pointer.
`NullList null next prev b a xs` says that the links lead from `a` through `xs` to the null
pointer and back, and that the node before the first one is `b`; for a whole list `b` is the
null pointer. Such a list has no repetition. The operations (insert in front, insert after a
node, unlink a node) are given by what they do to the links of the nodes on the list.
-/

namespace Hana.Lib

open List

variable {α : Type*} {null : α} {next prev next' prev' : α → α} {a b u x y n : α} {xs ys : List α}

/-- The links lead from `a` through `xs` to the null pointer; `b` comes before `a`. -/
def NullList (null : α) (next prev : α → α) : (b a : α) → List α → Prop
  | _, a, [] => a = null
  | b, a, x :: xs => a = x ∧ x ≠ null ∧ prev x = b ∧ NullList null next prev x (next x) xs

namespace NullList

lemma congr (h : NullList null next prev b a xs)
    (hn : ∀ u ∈ xs, next' u = next u ∧ prev' u = prev u) : NullList null next' prev' b a xs := by
  induction xs generalizing a b with
  | nil => exact h
  | cons x xs ih =>
    obtain ⟨rfl, hne, hprev, h⟩ := h
    obtain ⟨hnext', hprev'⟩ := hn a mem_cons_self
    refine ⟨rfl, hne, hprev'.trans hprev, ?_⟩
    rw [hnext']
    exact ih h fun u hu => hn u (mem_cons_of_mem _ hu)

lemma ne_null (h : NullList null next prev b a xs) (hx : x ∈ xs) : x ≠ null := by
  induction xs generalizing a b with
  | nil => cases hx
  | cons y xs ih =>
    obtain ⟨_, hne, _, h⟩ := h
    rcases mem_cons.mp hx with rfl | hx
    · exact hne
    · exact ih h hx

/-- The first node is a node, unless the list is empty. -/
lemma start_mem (h : NullList null next prev b a xs) (ha : a ≠ null) : a ∈ xs := by
  cases xs with
  | nil => exact absurd h ha
  | cons y xs =>
    obtain ⟨rfl, _⟩ := h
    exact mem_cons_self

lemma nil_of_null (h : NullList null next prev b null xs) : xs = [] := by
  cases xs with
  | nil => rfl
  | cons y xs => exact absurd h.1.symm h.2.1

/-- The links determine the nodes. -/
lemma unique {b' : α} (h : NullList null next prev b a xs)
    (h' : NullList null next prev b' a ys) : xs = ys := by
  induction xs generalizing a b b' ys with
  | nil =>
    have ha : a = null := h
    subst ha
    exact h'.nil_of_null.symm
  | cons x xs ih =>
    obtain ⟨rfl, hne, _, h⟩ := h
    cases ys with
    | nil => exact absurd h' hne
    | cons y ys =>
      obtain ⟨rfl, _, _, h'⟩ := h'
      rw [ih h h']

/-- The part of a list behind one of its nodes. -/
lemma drop (h : NullList null next prev b a (xs ++ x :: ys)) :
    NullList null next prev x (next x) ys := by
  induction xs generalizing a b with
  | nil => exact h.2.2.2
  | cons y xs ih => exact ih h.2.2.2

section

variable (h : NullList null next prev b a xs)
include h

/-- There is no way back to a node, because the rest of the list would repeat itself. -/
lemma nodup : xs.Nodup := by
  induction xs generalizing a b with
  | nil => exact nodup_nil
  | cons x xs ih =>
    obtain ⟨rfl, _, _, h⟩ := h
    refine nodup_cons.mpr ⟨fun hmem => ?_, ih h⟩
    obtain ⟨l1, l2, rfl⟩ := append_of_mem hmem
    have hsame := h.drop.unique h
    have hlen := congrArg length hsame
    simp only [length_append, length_cons] at hlen
    omega

lemma next_mem (hx : x ∈ xs) :
    next x = null ∨ next x ∈ xs := by
  obtain ⟨l1, l2, rfl⟩ := append_of_mem hx
  by_cases hnull : next x = null
  · exact .inl hnull
  · have hmem := h.drop.start_mem hnull
    exact .inr (mem_append.mpr (.inr (mem_cons_of_mem _ hmem)))

lemma prev_mem (hx : x ∈ xs) :
    prev x = b ∨ prev x ∈ xs := by
  induction xs generalizing a b with
  | nil => cases hx
  | cons y xs ih =>
    obtain ⟨rfl, _, hprev, h⟩ := h
    rcases mem_cons.mp hx with rfl | hx
    · exact .inl hprev
    · rcases ih h hx with hy | hmem
      · exact .inr (hy ▸ mem_cons_self)
      · exact .inr (mem_cons_of_mem _ hmem)

/-- `x` follows `u` in one direction exactly when `u` follows `x` in the other. -/
lemma next_eq_iff (hb : b ∉ xs) (hu : u ∈ xs) (hx : x ∈ xs) :
    next u = x ↔ prev x = u := by
  constructor
  · rintro rfl
    have hnull := h.ne_null hx
    obtain ⟨l1, l2, rfl⟩ := append_of_mem hu
    cases l2 with
    | nil => exact absurd h.drop hnull
    | cons y l2 =>
      obtain ⟨hy, _, hprev, _⟩ := h.drop
      rw [hy, hprev]
  · intro hprev
    induction xs generalizing a b with
    | nil => cases hx
    | cons y xs ih =>
      have hnodup := nodup_cons.mp h.nodup
      obtain ⟨rfl, _, hpa, h⟩ := h
      rcases mem_cons.mp hx with rfl | hx'
      · exact absurd (hpa.symm.trans hprev ▸ hu) hb
      · rcases mem_cons.mp hu with rfl | hu'
        · -- the node behind the first one is the only one that has it before it
          cases xs with
          | nil => cases hx'
          | cons z xs =>
            obtain ⟨hz, _, _, h'⟩ := h
            rcases mem_cons.mp hx' with rfl | hx''
            · exact hz
            · rcases h'.prev_mem hx'' with hy | hmem
              · exact absurd (by rw [← hprev, hy]; exact mem_cons_self) hnodup.1
              · exact absurd (hprev ▸ mem_cons_of_mem _ hmem) hnodup.1
        · exact ih h hnodup.1 hu' hx'

lemma start_eq_iff (hb : b ∉ xs) (hx : x ∈ xs) :
    a = x ↔ prev x = b := by
  cases xs with
  | nil => cases hx
  | cons y xs =>
    obtain ⟨rfl, _, hpa, h⟩ := h
    constructor
    · rintro rfl
      exact hpa
    · intro hprev
      rcases mem_cons.mp hx with rfl | hx
      · rfl
      · rcases h.prev_mem hx with hy | hmem
        · exact absurd (by rw [← hprev, hy]; exact mem_cons_self) hb
        · exact absurd (hprev ▸ mem_cons_of_mem _ hmem) hb

lemma next_ne_self (hx : x ∈ xs) : next x ≠ x := by
  intro he
  have hnull := h.ne_null hx
  have hnodup := h.nodup
  obtain ⟨l1, l2, rfl⟩ := append_of_mem hx
  have hdrop := h.drop
  rw [he] at hdrop
  have hmem := hdrop.start_mem hnull
  exact (nodup_cons.mp (nodup_append.mp hnodup).2.1).1 hmem

lemma prev_ne_self (hb : b ∉ xs) (hx : x ∈ xs) :
    prev x ≠ x := fun he => h.next_ne_self hx ((h.next_eq_iff hb hx hx).mpr he)

lemma null_notMem : null ∉ xs := fun hmem =>
  h.ne_null hmem rfl

/-! ## Operations -/

/-- A new node in front of the list. -/
lemma push (hne : n ≠ null)
    (hnext : next' n = a) (hprev : prev' n = null) (hfirst : a ≠ null → prev' a = n)
    (hrest : ∀ u ∈ xs, next' u = next u ∧ (u ≠ a → prev' u = prev u)) :
    NullList null next' prev' null n (n :: xs) := by
  refine ⟨rfl, hne, hprev, ?_⟩
  rw [hnext]
  cases xs with
  | nil => exact h
  | cons x xs =>
    have hnodup := nodup_cons.mp h.nodup
    obtain ⟨rfl, hnull, _, h⟩ := h
    refine ⟨rfl, hnull, hfirst hnull, ?_⟩
    rw [(hrest a mem_cons_self).1]
    refine h.congr fun u hu => ?_
    obtain ⟨hnext', hprev'⟩ := hrest u (mem_cons_of_mem _ hu)
    exact ⟨hnext', hprev' fun he => hnodup.1 (he ▸ hu)⟩

end

/-- The nodes behind `x`, when the first of them gets another node in front of it. -/
lemma behind [DecidableEq α] (h : NullList null next prev x a ys) (hx : x ∉ ys)
    (hnext : ∀ u ∈ ys, next' u = next u)
    (hprev : ∀ u ∈ ys, prev' u = if prev u = x then b else prev u) :
    NullList null next' prev' b a ys := by
  cases ys with
  | nil => exact h
  | cons y ys =>
    obtain ⟨hy, hynull, hpy, h'⟩ := h
    refine ⟨hy, hynull, ?_, ?_⟩
    · rw [hprev y mem_cons_self, if_pos hpy]
    · rw [hnext y mem_cons_self]
      refine h'.congr fun u hu => ⟨hnext u (mem_cons_of_mem _ hu), ?_⟩
      rw [hprev u (mem_cons_of_mem _ hu)]
      refine if_neg fun he => ?_
      rcases h'.prev_mem hu with hz | hz
      · exact hx (by rw [← he, hz]; exact mem_cons_self)
      · exact hx (he ▸ mem_cons_of_mem _ hz)

/-- Unlinking the node `x`. -/
lemma remove [DecidableEq α] (h : NullList null next prev b a (xs ++ x :: ys)) (hb : b ≠ x)
    (hnext : ∀ u ∈ xs ++ ys, next' u = if next u = x then next x else next u)
    (hprev : ∀ u ∈ xs ++ ys, prev' u = if prev u = x then prev x else prev u) :
    NullList null next' prev' b (if a = x then next x else a) (xs ++ ys) := by
  induction xs generalizing a b with
  | nil =>
    have hnodup := nodup_cons.mp h.nodup
    obtain ⟨rfl, hnull, hpa, h⟩ := h
    rw [if_pos rfl]
    refine h.behind hnodup.1 (fun u hu => ?_) fun u hu => ?_
    · rw [hnext u hu]
      refine if_neg fun he => ?_
      rcases h.next_mem hu with hz | hz
      · exact hnull (he.symm.trans hz)
      · exact hnodup.1 (he ▸ hz)
    · rw [hprev u hu, hpa]
  | cons w xs ih =>
    have hnodup := nodup_cons.mp h.nodup
    obtain ⟨rfl, hnull, hpa, h⟩ := h
    have hax : a ≠ x := fun he =>
      hnodup.1 (he ▸ mem_append_right _ mem_cons_self)
    rw [if_neg hax]
    refine ⟨rfl, hnull, ?_, ?_⟩
    · rw [hprev a mem_cons_self, hpa, if_neg hb]
    · rw [hnext a mem_cons_self]
      refine ih h hax (fun u hu => hnext u ?_) fun u hu => hprev u ?_
      · exact mem_cons_of_mem _ hu
      · exact mem_cons_of_mem _ hu

/-- A new node `n` behind the node `x`. -/
lemma insert [DecidableEq α] (h : NullList null next prev b a (xs ++ x :: ys)) (hb : b ≠ x)
    (hne : n ≠ null) (hnew : next' n = next x ∧ prev' n = x)
    (hnext : ∀ u ∈ xs ++ x :: ys, next' u = if u = x then n else next u)
    (hprev : ∀ u ∈ xs ++ x :: ys, prev' u = if prev u = x then n else prev u) :
    NullList null next' prev' b a (xs ++ x :: n :: ys) := by
  induction xs generalizing a b with
  | nil =>
    have hnodup := nodup_cons.mp h.nodup
    obtain ⟨rfl, hnull, hpa, h⟩ := h
    refine ⟨rfl, hnull, ?_, ?_⟩
    · rw [hprev a mem_cons_self, hpa, if_neg hb]
    · rw [hnext a mem_cons_self, if_pos rfl]
      refine ⟨rfl, hne, hnew.2, ?_⟩
      rw [hnew.1]
      refine h.behind hnodup.1 (fun u hu => ?_) fun u hu => hprev u (mem_cons_of_mem _ hu)
      rw [hnext u (mem_cons_of_mem _ hu)]
      exact if_neg fun (he : u = a) => hnodup.1 (he ▸ hu)
  | cons w xs ih =>
    have hnodup := nodup_cons.mp h.nodup
    obtain ⟨rfl, hnull, hpa, h⟩ := h
    have hax : a ≠ x := fun he =>
      hnodup.1 (he ▸ mem_append_right _ mem_cons_self)
    refine ⟨rfl, hnull, ?_, ?_⟩
    · rw [hprev a mem_cons_self, hpa, if_neg hb]
    · rw [hnext a mem_cons_self, if_neg hax]
      refine ih h hax (fun u hu => hnext u ?_) fun u hu => hprev u ?_
      · exact mem_cons_of_mem _ hu
      · exact mem_cons_of_mem _ hu

/-- Unlinking a node of a whole list, by the two assignments that do it. -/
lemma unlink [DecidableEq α] (h : NullList null next prev null a (xs ++ x :: ys))
    (hnext : ∀ u ∈ xs ++ ys, next' u = if u = prev x then next x else next u)
    (hprev : ∀ u ∈ xs ++ ys, prev' u = if u = next x then prev x else prev u) :
    NullList null next' prev' null (if prev x = null then next x else a) (xs ++ ys) := by
  have hx : x ∈ xs ++ x :: ys := mem_append_right _ mem_cons_self
  have hsub : ∀ u ∈ xs ++ ys, u ∈ xs ++ x :: ys := fun u hu =>
    mem_append.mpr ((mem_append.mp hu).imp_right (mem_cons_of_mem _))
  have hnull := h.null_notMem
  simp only [← h.start_eq_iff hnull hx]
  refine h.remove (fun he => hnull (he ▸ hx)) (fun u hu => ?_) fun u hu => ?_
  · simp only [hnext u hu, h.next_eq_iff hnull (hsub u hu) hx, eq_comm]
  · simp only [hprev u hu, ← h.next_eq_iff hnull hx (hsub u hu), eq_comm]

/-- Inserting a node behind another one of a whole list, by the assignments that do it. -/
lemma insertAfter [DecidableEq α] (h : NullList null next prev null a (xs ++ x :: ys))
    (hne : n ≠ null) (hnew : next' n = next x ∧ prev' n = x)
    (hnext : ∀ u ∈ xs ++ x :: ys, next' u = if u = x then n else next u)
    (hprev : ∀ u ∈ xs ++ x :: ys, prev' u = if u = next x then n else prev u) :
    NullList null next' prev' null a (xs ++ x :: n :: ys) := by
  have hx : x ∈ xs ++ x :: ys := mem_append_right _ mem_cons_self
  have hnull := h.null_notMem
  refine h.insert (fun he => hnull (he ▸ hx)) hne hnew hnext fun u hu => ?_
  simp only [hprev u hu, ← h.next_eq_iff hnull hx hu, eq_comm]

end NullList

end Hana.Lib
