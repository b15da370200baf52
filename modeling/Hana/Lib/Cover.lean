import Mathlib.Data.List.Count
import Mathlib.Data.List.Range
import Mathlib.Data.Nat.Bitwise
import Mathlib.Logic.Function.Basic

/-!
# Tiling a range by spans

A span is a half-open range of natural numbers, given by its start and its size. `mult`
counts how many spans of a list contain a number, so that a list tiles `[lo, hi)` exactly
when its multiplicity is one inside and zero outside. Multiplicity is additive, which turns
splitting, joining and moving spans between lists into arithmetic.
-/

namespace Hana.Lib

open List

/-- A half-open range, by its start and its size. -/
structure Span where
  start : Nat
  size : Nat
deriving DecidableEq, Repr

namespace Span

/-- The end of the span, excluded. -/
def stop (b : Span) : Nat := b.start + b.size

def Has (b : Span) (x : Nat) : Prop := b.start ≤ x ∧ x < b.stop

instance (b : Span) (x : Nat) : Decidable (b.Has x) :=
  inferInstanceAs (Decidable (_ ∧ _))

/-- No number lies in both spans. -/
def Apart (b c : Span) : Prop := b.stop ≤ c.start ∨ c.stop ≤ b.start

lemma apart_of_not_has {b c : Span} (hb : 0 < b.size) (hc : 0 < c.size)
    (h : ∀ x, b.Has x → ¬ c.Has x) : b.Apart c := by
  by_contra hn
  simp only [Apart, stop, not_or, not_le] at hn
  have := h (max b.start c.start)
  simp only [Has, stop] at this
  omega

lemma Apart.not_has {b c : Span} (h : b.Apart c) {x : Nat} (hb : b.Has x) : ¬ c.Has x := by
  simp only [Apart, Has, stop] at *
  omega

end Span

/-! ## Multiplicity -/

/-- How many spans of the list contain `x`. -/
def mult (B : List Span) (x : Nat) : Nat := B.countP fun b => decide (b.Has x)

@[simp] lemma mult_nil (x : Nat) : mult [] x = 0 := rfl

lemma mult_cons (b : Span) (B : List Span) (x : Nat) :
    mult (b :: B) x = (if b.Has x then 1 else 0) + mult B x := by
  simp only [mult, countP_cons, decide_eq_true_eq]
  omega

@[simp] lemma mult_append (B C : List Span) (x : Nat) :
    mult (B ++ C) x = mult B x + mult C x := countP_append

lemma mult_perm {B C : List Span} (h : B.Perm C) (x : Nat) : mult B x = mult C x :=
  h.countP_eq _

lemma mult_pos_iff {B : List Span} {x : Nat} : 0 < mult B x ↔ ∃ b ∈ B, b.Has x := by
  simp [mult, countP_pos_iff]

/-- Two adjacent spans cover what their union covers. -/
lemma mult_split (a n m : Nat) (x : Nat) :
    mult [⟨a, n⟩, ⟨a + n, m⟩] x = mult [⟨a, n + m⟩] x := by
  simp only [mult_cons, mult_nil]
  split_ifs <;> simp only [Span.Has, Span.stop] at * <;> omega

lemma mult_halves (a n : Nat) (x : Nat) :
    mult [⟨a, n⟩, ⟨a + n, n⟩] x = mult [⟨a, 2 * n⟩] x := by
  rw [mult_split, Nat.two_mul]

/-- Replacing the list of one index of a family changes the multiplicity by the difference. -/
lemma mult_flatMap_update (f : Nat → List Span) (n k : Nat) (l : List Span) (x : Nat)
    (hk : k < n) :
    mult ((range n).flatMap (Function.update f k l)) x + mult (f k) x =
      mult ((range n).flatMap f) x + mult l x := by
  induction n with
  | zero => omega
  | succ n ih =>
    simp only [range_succ, flatMap_append, flatMap_cons, flatMap_nil,
      append_nil, mult_append]
    by_cases he : k = n
    · subst he
      have hsame : (range k).flatMap (Function.update f k l) = (range k).flatMap f := by
        apply flatMap_congr
        intro i hi
        exact Function.update_of_ne (by have := mem_range.mp hi; omega) _ _
      rw [hsame, Function.update_self]
      omega
    · rw [Function.update_of_ne (Ne.symm he)]
      omega

/-! ## Tilings -/

/-- The spans of the list cover each number of `[lo, hi)` once, and nothing else. -/
def Tiles (B : List Span) (lo hi : Nat) : Prop :=
  ∀ x, mult B x = if lo ≤ x ∧ x < hi then 1 else 0

namespace Tiles

variable {B : List Span} {lo hi : Nat}

lemma mem_iff (h : Tiles B lo hi) (x : Nat) : (∃ b ∈ B, b.Has x) ↔ lo ≤ x ∧ x < hi := by
  rw [← mult_pos_iff, h x]
  split_ifs with hx
  · simp [hx]
  · simp [hx]

lemma subset (h : Tiles B lo hi) {b : Span} (hb : b ∈ B) (hs : 0 < b.size) :
    lo ≤ b.start ∧ b.stop ≤ hi := by
  have hfirst := (h.mem_iff b.start).mp ⟨b, hb, by simp [Span.Has, Span.stop, hs]⟩
  have hlast := (h.mem_iff (b.stop - 1)).mp ⟨b, hb, by simp [Span.Has, Span.stop]; omega⟩
  omega

/-- A tiling by nonempty spans has no overlap and hence no repetition. -/
lemma pairwise_apart (h : Tiles B lo hi) (hs : ∀ b ∈ B, 0 < b.size) :
    B.Pairwise Span.Apart := by
  have hle : ∀ x, mult B x ≤ 1 := fun x => by rw [h x]; split_ifs <;> omega
  clear h
  induction B with
  | nil => exact List.Pairwise.nil
  | cons b B ih =>
    refine pairwise_cons.mpr ⟨fun c hc => ?_, ih (fun c hc => hs c (by simp [hc])) ?_⟩
    · refine Span.apart_of_not_has (hs b (by simp)) (hs c (by simp [hc])) fun x hbx hcx => ?_
      have hx := hle x
      have hpos : 0 < mult B x := mult_pos_iff.mpr ⟨c, hc, hcx⟩
      rw [mult_cons, if_pos hbx] at hx
      omega
    · intro x
      have := hle x
      rw [mult_cons] at this
      omega

/-- The sizes of the spans of a tiling add up to the length of the range. -/
lemma sum_size (h : Tiles B lo hi) : (B.map Span.size).sum = hi - lo := by
  have hcount : ∀ (B : List Span) x, count x (B.flatMap fun b => range' b.start b.size) = mult B x := by
    intro B x
    induction B with
    | nil => rfl
    | cons b B ih =>
      rw [flatMap_cons, count_append, ih, mult_cons, Nodup.count (nodup_range' 1)]
      exact congrArg (· + mult B x) (if_congr mem_range'_1 rfl rfl)
  have hperm : (B.flatMap fun b => range' b.start b.size).Perm (range' lo (hi - lo)) := by
    refine perm_iff_count.mpr fun x => ?_
    rw [hcount, h x, Nodup.count (nodup_range' 1)]
    refine if_congr ?_ rfl rfl
    rw [mem_range'_1]
    omega
  simpa [length_flatMap] using hperm.length_eq

end Tiles

end Hana.Lib
