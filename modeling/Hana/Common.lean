import Mathlib.Data.Nat.Bitwise
import Mathlib.Tactic.Ring

/-!
# Constants and address macros

The macros of `kernel/include/common.h` and of the RISC-V `memlayout.h`, on natural
numbers, under their own names: `PGSIZE` is `pgSize`, `IN_RAM` is `inRam`. A `uint64`
value is a natural number below `2 ^ 64`; the sums that can leave that range are reduced
explicitly.
-/

namespace Hana

def pgSize : Nat := 4096

def pgShift : Nat := 12

def pgMask : Nat := 0xFFFFFFFFFFFFF000

def pgOffMask : Nat := 0xFFF

/-- The value of a `uint64` expression whose mathematical value is `n`. -/
def wrap64 (n : Nat) : Nat := n % 2 ^ 64

/-- `a - b` in `unsigned int`. -/
def usub (a b : Nat) : Nat := (a + (2 ^ 32 - b)) % 2 ^ 32

/-- The value of a `uint64` stored in an `int`. -/
def toInt32 (n : Nat) : Int :=
  if n % 2 ^ 32 < 2 ^ 31 then (n % 2 ^ 32 : Nat) else (n % 2 ^ 32 : Nat) - (2 ^ 32 : Nat)

def pgRoundUp (sz : Nat) : Nat := wrap64 (sz + pgOffMask) &&& pgMask

def pgRoundDown (a : Nat) : Nat := a &&& pgMask

def isPgAligned (a : Nat) : Bool := a &&& pgOffMask == 0

def kernelBase : Nat := 0x80200000

def physTop : Nat := 0x88000000

def maxVa : Nat := 0x4000000000

def inRam (addr : Nat) : Bool := decide (kernelBase ≤ addr) && decide (addr < physTop)

/-! ## Page arithmetic -/

lemma wrap64_of_lt {n : Nat} (h : n < 2 ^ 64) : wrap64 n = n := Nat.mod_eq_of_lt h

lemma wrap64_lt (n : Nat) : wrap64 n < 2 ^ 64 := Nat.mod_lt _ (by decide)

lemma and_pgMask {a : Nat} (h : a < 2 ^ 64) : a &&& pgMask = a / 4096 * 4096 := by
  apply Nat.eq_of_testBit_eq
  intro i
  have hm : pgMask = (2 ^ 52 - 1) <<< 12 := by decide
  have hd : a / 4096 * 4096 = (a >>> 12) <<< 12 := by
    rw [Nat.shiftLeft_eq, Nat.shiftRight_eq_div_pow]
  rw [hm, hd, Nat.testBit_and, Nat.testBit_shiftLeft, Nat.testBit_shiftLeft,
    Nat.testBit_shiftRight, Nat.testBit_two_pow_sub_one]
  by_cases hi : 12 ≤ i
  · by_cases hi' : i - 12 < 52
    · simp [hi, hi', Nat.add_sub_cancel' hi]
    · have ha : a.testBit i = false :=
        Nat.testBit_lt_two_pow (lt_of_lt_of_le h (Nat.pow_le_pow_right (by omega) (by omega)))
      simp [hi, Nat.add_sub_cancel' hi, ha]
  · simp [hi]

lemma pgRoundDown_eq {a : Nat} (h : a < 2 ^ 64) : pgRoundDown a = a / 4096 * 4096 :=
  and_pgMask h

lemma pgRoundDown_shiftRight {va : Nat} (hva : va < 2 ^ 64) : pgRoundDown va >>> 12 = va >>> 12 := by
  rw [pgRoundDown_eq hva, Nat.shiftRight_eq_div_pow, Nat.shiftRight_eq_div_pow]
  omega

lemma pgRoundUp_eq {sz : Nat} (h : sz + 4095 < 2 ^ 64) :
    pgRoundUp sz = (sz + 4095) / 4096 * 4096 := by
  have he : wrap64 (sz + pgOffMask) = sz + 4095 := wrap64_of_lt h
  rw [pgRoundUp, he, and_pgMask h]

lemma pgRoundUp_dvd (sz : Nat) : 4096 ∣ pgRoundUp sz := by
  rw [pgRoundUp, and_pgMask (wrap64_lt _)]
  exact Dvd.intro_left _ rfl

lemma pgRoundDown_dvd {a : Nat} (h : a < 2 ^ 64) : 4096 ∣ pgRoundDown a := by
  rw [pgRoundDown_eq h]
  exact Dvd.intro_left _ rfl

lemma and_pgMask_lt (a : Nat) : a &&& pgMask < 2 ^ 64 :=
  lt_of_le_of_lt Nat.and_le_right (by decide)

lemma and_pgMask_dvd (a : Nat) : 4096 ∣ a &&& pgMask := by
  have hmod : (a &&& pgMask) % 2 ^ 12 = 0 := by
    rw [Nat.and_mod_two_pow]
    exact Nat.and_zero _
  exact Nat.dvd_of_mod_eq_zero hmod

lemma pgRoundDown_le (a : Nat) : pgRoundDown a ≤ a := Nat.and_le_left

lemma isPgAligned_iff (a : Nat) : isPgAligned a = true ↔ 4096 ∣ a := by
  have h : a &&& pgOffMask = a % 4096 := Nat.and_two_pow_sub_one_eq_mod a 12
  rw [isPgAligned, beq_iff_eq, h, Nat.dvd_iff_mod_eq_zero]

lemma toInt32_toNat_le (n : Nat) : (toInt32 n).toNat ≤ n := by
  unfold toInt32
  split_ifs <;> omega

lemma toInt32_toNat_of_lt {n : Nat} (h : n < 2 ^ 31) : (toInt32 n).toNat = n := by
  unfold toInt32
  split_ifs <;> omega

end Hana
