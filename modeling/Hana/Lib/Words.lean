import Mathlib.Algebra.Order.Ring.Nat
import Mathlib.Tactic.Ring

/-!
# Numbers in byte memory

A memory is a function from places to bytes. `leWord f a n` is the number that its `n` bytes
from `a` on stand for, lowest byte first. The bytes of a number give it back up to its size,
and a word is zero exactly if all of its bytes are.
-/

namespace Hana.Lib

variable {f g : Nat → Nat} {a b n v : Nat}

/-- The number that the `n` bytes from `a` on stand for. -/
def leWord (f : Nat → Nat) (a : Nat) : (n : Nat) → Nat
  | 0 => 0
  | n + 1 => leWord f a n + 256 ^ n * (f (a + n) % 256)

lemma leWord_congr (h : ∀ i < n, f (a + i) = g (b + i)) : leWord f a n = leWord g b n := by
  induction n with
  | zero => rfl
  | succ n ih =>
    rw [leWord, leWord, ih fun i hi => h i (Nat.lt_succ_of_lt hi), h n (Nat.lt_succ_self n)]

/-- The bytes of a number make this number, up to the size of the word. -/
lemma leWord_bytes (h : ∀ i < n, f (a + i) = v / 256 ^ i % 256) :
    leWord f a n = v % 256 ^ n := by
  induction n with
  | zero => exact (Nat.mod_one v).symm
  | succ n ih =>
    rw [leWord, ih fun i hi => h i (Nat.lt_succ_of_lt hi), h n (Nat.lt_succ_self n),
      Nat.mod_mod, Nat.pow_succ, Nat.mod_mul]

lemma leWord_lt (f : Nat → Nat) (a n : Nat) : leWord f a n < 256 ^ n := by
  induction n with
  | zero => exact Nat.one_pos
  | succ n ih =>
    have hbyte : f (a + n) % 256 + 1 ≤ 256 := Nat.mod_lt _ (by decide)
    calc leWord f a n + 256 ^ n * (f (a + n) % 256)
        < 256 ^ n + 256 ^ n * (f (a + n) % 256) := Nat.add_lt_add_right ih _
      _ = 256 ^ n * (f (a + n) % 256 + 1) := by ring
      _ ≤ 256 ^ n * 256 := Nat.mul_le_mul_left _ hbyte

end Hana.Lib
