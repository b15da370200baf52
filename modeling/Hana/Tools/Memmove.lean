import Mathlib.Logic.Function.Basic
import Mathlib.Tactic.Common

/-!
# Moving bytes

`memmove` of `lib/string.c` on the contents of memory. The ranges do not wrap around, so that an
address is a natural number.
-/

namespace Hana.Str

open Function

/-- `while (n-- > 0) *d++ = *s++;` -/
def copyUp : (n d s : Nat) → (Nat → Nat) → Nat → Nat
  | 0, _, _, b => b
  | n + 1, d, s, b => copyUp n (d + 1) (s + 1) (update b d (b s))

/-- `while (n-- > 0) *--d = *--s;` -/
def copyDown : (n d s : Nat) → (Nat → Nat) → Nat → Nat
  | 0, _, _, b => b
  | n + 1, d, s, b => copyDown n (d - 1) (s - 1) (update b (d - 1) (b (s - 1)))

def memmove (dst src n : Nat) (b : Nat → Nat) : Nat → Nat :=
  if n = 0 then b
  else if src < dst ∧ src + n > dst then copyDown n (dst + n) (src + n) b
  else copyUp n dst src b

def memcpy (dst src n : Nat) (b : Nat → Nat) : Nat → Nat := memmove dst src n b

/-- The contents after a copy through a snapshot. -/
def moved (dst src n : Nat) (b : Nat → Nat) (x : Nat) : Nat :=
  if dst ≤ x ∧ x < dst + n then b (src + (x - dst)) else b x

variable {b : Nat → Nat}

/-- The byte that is stored is not one that is still to be read. -/
lemma copyUp_eq {n d s : Nat} (h : ¬ (s < d ∧ d < s + n)) : copyUp n d s b = moved d s n b := by
  induction n generalizing d s b with
  | zero =>
    funext x
    exact (if_neg (by omega)).symm
  | succ n ih =>
    funext x
    rw [copyUp, ih (by omega)]
    unfold moved
    rcases Nat.lt_trichotomy x d with hx | rfl | hx
    · rw [if_neg (by omega), if_neg (by omega), update_of_ne (by omega)]
    · rw [if_neg (by omega), if_pos (by omega), update_self, Nat.sub_self, Nat.add_zero]
    · by_cases hin : x < d + (n + 1)
      · rw [if_pos (by omega), if_pos (by omega), update_of_ne (by omega)]
        congr 1
        omega
      · rw [if_neg (by omega), if_neg (by omega), update_of_ne (by omega)]

/-- From the back, with the source below. -/
lemma copyDown_eq {n d s : Nat} (h : s ≤ d) : copyDown n (d + n) (s + n) b = moved d s n b := by
  induction n generalizing b with
  | zero =>
    funext x
    exact (if_neg (by omega)).symm
  | succ n ih =>
    funext x
    rw [copyDown, ← Nat.add_assoc, ← Nat.add_assoc, Nat.add_sub_cancel, Nat.add_sub_cancel, ih]
    unfold moved
    rcases Nat.lt_trichotomy x (d + n) with hx | rfl | hx
    · by_cases hin : d ≤ x
      · rw [if_pos (by omega), if_pos (by omega), update_of_ne (by omega)]
      · rw [if_neg (by omega), if_neg (by omega), update_of_ne (by omega)]
    · rw [if_neg (by omega), if_pos (by omega), update_self, Nat.add_sub_cancel_left]
    · rw [if_neg (by omega), if_neg (by omega), update_of_ne (by omega)]

lemma memmove_eq (dst src n : Nat) (b : Nat → Nat) : memmove dst src n b = moved dst src n b := by
  unfold memmove
  split_ifs with hn hover
  · funext x
    exact (if_neg (by omega)).symm
  · exact copyDown_eq (Nat.le_of_lt hover.1)
  · exact copyUp_eq hover

/-- Both copy the bytes that the source had before the call, however the ranges overlap, and change no
other byte. -/
theorem memmove_snapshot (dst src n : Nat) (b : Nat → Nat) :
    memcpy dst src n b = memmove dst src n b ∧
      (∀ i < n, memmove dst src n b (dst + i) = b (src + i)) ∧
      ∀ x, x < dst ∨ dst + n ≤ x → memmove dst src n b x = b x := by
  refine ⟨rfl, fun i hi => ?_, fun x hx => ?_⟩
  · rw [memmove_eq, moved, if_pos (by omega), Nat.add_sub_cancel_left]
  · rw [memmove_eq, moved, if_neg (by omega)]

end Hana.Str
