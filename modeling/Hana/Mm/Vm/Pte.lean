import Hana.Common

/-!
# Page-table entries

The macros of the RISC-V `arch.h`. An entry holds a frame number above ten flag bits; the
lemmas below compute the frame and the flags of an entry that was put together from both.
-/

namespace Hana.Vm

def pteV : Nat := 1 <<< 0

def pteR : Nat := 1 <<< 1

def pteW : Nat := 1 <<< 2

def pteX : Nat := 1 <<< 3

def pteU : Nat := 1 <<< 4

def pteG : Nat := 1 <<< 5

def pteD : Nat := 1 <<< 7

def pteCow : Nat := 1 <<< 9

def pteRw : Nat := pteV ||| pteW ||| pteR

def pteRx : Nat := pteV ||| pteR ||| pteX

def pteRwx : Nat := pteV ||| pteR ||| pteX ||| pteW

def pa2pte (pa : Nat) : Nat := (pa >>> 12) <<< 10

def pte2pa (pte : Nat) : Nat := wrap64 ((pte >>> 10) <<< 12)

def pteFlags (pte : Nat) : Nat := pte &&& 0x3ff

/-- The C test `pte & flag`. -/
def has (pte flag : Nat) : Bool := pte &&& flag != 0

/-- The frame an address lies in. -/
def frameOf (pa : Nat) : Nat := pa / 4096 * 4096

lemma pa2pte_eq (pa : Nat) : pa2pte pa = 2 ^ 10 * (pa / 4096) := by
  rw [pa2pte, Nat.shiftRight_eq_div_pow, Nat.shiftLeft_eq, mul_comm]

variable {flags pa i : Nat}

lemma pa2pte_or (pa : Nat) (h : flags < 2 ^ 10) :
    pa2pte pa ||| flags = 1024 * (pa / 4096) + flags := by
  rw [pa2pte_eq]
  exact (Nat.two_pow_add_eq_or_of_lt h _).symm

lemma pte2pa_or (hpa : pa < 2 ^ 64) (h : flags < 2 ^ 10) :
    pte2pa (pa2pte pa ||| flags) = frameOf pa := by
  rw [pa2pte_or pa h, pte2pa, Nat.shiftRight_eq_div_pow, Nat.shiftLeft_eq]
  have hdiv : (1024 * (pa / 4096) + flags) / 2 ^ 10 = pa / 4096 := by omega
  rw [hdiv]
  exact wrap64_of_lt (by omega)

lemma pteFlags_lt (pte : Nat) : pteFlags pte < 2 ^ 10 := by
  have h : pteFlags pte = pte % 2 ^ 10 := Nat.and_two_pow_sub_one_eq_mod pte 10
  rw [h]
  exact Nat.mod_lt _ (by decide)

lemma has_two_pow (x i : Nat) : has x (1 <<< i) = x.testBit i := by
  rw [has, Nat.one_shiftLeft, Nat.and_two_pow]
  cases x.testBit i with
  | false => simp
  | true => simp

/-- The low bits of an entry are its flags. -/
lemma has_or (hi : i < 10) :
    has (pa2pte pa ||| flags) (1 <<< i) = has flags (1 <<< i) := by
  have hlow : (pa2pte pa).testBit i = false := by
    rw [pa2pte, Nat.testBit_shiftLeft]
    have hge : ¬ 10 ≤ i := by omega
    simp [hge]
  rw [has_two_pow, has_two_pow, Nat.testBit_or, hlow, Bool.false_or]

lemma has_pteFlags {pte : Nat} (hi : i < 10) :
    has (pteFlags pte) (1 <<< i) = has pte (1 <<< i) := by
  have hm : pteFlags pte = pte % 2 ^ 10 := Nat.and_two_pow_sub_one_eq_mod pte 10
  rw [has_two_pow, has_two_pow, hm, Nat.testBit_mod_two_pow]
  simp [hi]

lemma has_or_flag {x y : Nat} :
    has (x ||| y) (1 <<< i) = (has x (1 <<< i) || has y (1 <<< i)) := by
  rw [has_two_pow, has_two_pow, has_two_pow, Nat.testBit_or]

lemma has_or_pteV (x : Nat) : has (x ||| pteV) pteV = true := by
  have hor : has (x ||| pteV) (1 <<< 0) = (has x (1 <<< 0) || has pteV (1 <<< 0)) := has_or_flag
  exact hor.trans (Bool.or_true _)

/-- The flags of the entry that `mappages` writes. -/
lemma has_entry (hi : i < 10) :
    has (pa2pte pa ||| flags ||| pteV) (1 <<< i) = has (flags ||| pteV) (1 <<< i) := by
  rw [Nat.or_assoc, has_or hi]

/-- The frame of the entry that `mappages` writes. -/
lemma pte2pa_entry (hpa : pa < 2 ^ 64) (h : flags < 2 ^ 10) :
    pte2pa (pa2pte pa ||| flags ||| pteV) = frameOf pa := by
  rw [Nat.or_assoc, pte2pa_or hpa (Nat.or_lt_two_pow h (by decide))]

lemma has_zero (flag : Nat) : has 0 flag = false := by
  simp [has]

/-- Entries hold whole frames. -/
lemma pte2pa_dvd (pte : Nat) : 4096 ∣ pte2pa pte := by
  unfold pte2pa wrap64
  omega

lemma pte2pa_lt (pte : Nat) : pte2pa pte < 2 ^ 64 := wrap64_lt _

lemma pte2pa_le (pte : Nat) : pte2pa pte + 4096 ≤ 2 ^ 64 := by
  have hdvd := pte2pa_dvd pte
  have hlt := pte2pa_lt pte
  omega

lemma frameOf_of_dvd (h : 4096 ∣ pa) : frameOf pa = pa :=
  Nat.div_mul_cancel h

lemma frameOf_pte2pa (pte : Nat) : frameOf (pte2pa pte) = pte2pa pte :=
  frameOf_of_dvd (pte2pa_dvd pte)

end Hana.Vm
