import Mathlib.Data.Nat.Bitwise

/-!
# Flipping and clearing one bit

Exclusive or with a power of two moves a number to its neighbour at that distance, and
masking the bit off gives the lower of the two neighbours.
-/

namespace Hana.Lib

/-- The digits above the flipped bit change by one, those below it stay. -/
lemma xor_two_pow_digits (a m : Nat) :
    2 ^ m * ((a / 2 ^ m) ^^^ 1) + a % 2 ^ m = a ^^^ 2 ^ m := by
  have hx := Nat.div_add_mod (a ^^^ 2 ^ m) (2 ^ m)
  rwa [Nat.xor_div_two_pow, Nat.div_self (Nat.two_pow_pos m), Nat.xor_mod_two_pow,
    Nat.mod_self, Nat.xor_zero] at hx

lemma xor_two_pow_of_testBit {a m : Nat} (h : a.testBit m = true) :
    a ^^^ 2 ^ m = a - 2 ^ m := by
  have hodd : (a / 2 ^ m) % 2 = 1 := by
    simpa [Nat.testBit_eq_decide_div_mod_eq] using h
  have hpos : a / 2 ^ m ≠ 0 := by
    intro hz
    simp [hz] at hodd
  have hge : 2 ^ m ≤ 2 ^ m * (a / 2 ^ m) :=
    Nat.le_mul_of_pos_right _ (Nat.pos_of_ne_zero hpos)
  have hx := xor_two_pow_digits a m
  have ha := Nat.div_add_mod a (2 ^ m)
  rw [Nat.xor_one_of_odd (Nat.odd_iff.mpr hodd), Nat.mul_sub, mul_one] at hx
  omega

lemma xor_two_pow_of_not_testBit {a m : Nat} (h : a.testBit m = false) :
    a ^^^ 2 ^ m = a + 2 ^ m := by
  have heven : (a / 2 ^ m) % 2 = 0 := by
    simpa [Nat.testBit_eq_decide_div_mod_eq] using h
  have hx := xor_two_pow_digits a m
  have ha := Nat.div_add_mod a (2 ^ m)
  rw [Nat.xor_one_of_even (Nat.even_iff.mpr heven), mul_add, mul_one] at hx
  omega

/-- Masking off bit `m` of a `w`-bit number. -/
lemma and_clear_two_pow {a m w : Nat} (ha : a < 2 ^ w) (hm : m < w) :
    a &&& (2 ^ w - 1 - 2 ^ m) = if a.testBit m then a ^^^ 2 ^ m else a := by
  have hbit : (2 ^ w - 1).testBit m = true := by simp [Nat.testBit_two_pow_sub_one, hm]
  rw [← xor_two_pow_of_testBit hbit, Nat.and_xor_distrib_left,
    Nat.and_two_pow_sub_one_of_lt_two_pow ha, Nat.and_two_pow]
  cases hb : a.testBit m with
  | false => simp
  | true => simp

end Hana.Lib
