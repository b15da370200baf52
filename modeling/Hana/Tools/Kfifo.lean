import Mathlib.Tactic.Common
import Hana.Common

/-!
# The kernel FIFO

`lib/kfifo.c`: a ring of `size` bytes with the counters `in` and `out`, which are `unsigned int` and
run freely. What a call stores in the caller's buffer is a partial function on its positions.
-/

namespace Hana.Fifo

structure Kfifo where
  buffer : Nat → UInt8
  size : Nat
  in_ : Nat
  out : Nat

/-- The position of a counter in the ring. -/
def mask (fifo : Kfifo) (n : Nat) : Nat := n &&& usub fifo.size 1

/-- `__kfifo_get`: the number of bytes, what the two `memcpy` calls store, and the FIFO. -/
def kfifoGetUnlocked (fifo : Kfifo) (len : Nat) : Nat × (Nat → Option UInt8) × Kfifo :=
  let len := min len (usub fifo.in_ fifo.out)
  let l := min len (usub fifo.size (mask fifo fifo.out))
  let stored := fun k =>
    if k < l then some (fifo.buffer (mask fifo fifo.out + k))
    else if k < l + (len - l) then some (fifo.buffer (k - l))
    else none
  (len, stored, { fifo with out := (fifo.out + len) % 2 ^ 32 })

/-- `kfifo_get`, which resets the counters of an empty FIFO. -/
def kfifoGet (fifo : Kfifo) (len : Nat) : Nat × (Nat → Option UInt8) × Kfifo :=
  let (len, stored, fifo) := kfifoGetUnlocked fifo len
  (len, stored, if fifo.in_ = fifo.out then { fifo with in_ := 0, out := 0 } else fifo)

/-- Exactly the bytes that are counted are stored. -/
lemma kfifoGet_stored (fifo : Kfifo) (len k : Nat) :
    ((kfifoGet fifo len).2.1 k).isSome ↔ k < (kfifoGet fifo len).1 := by
  have hle := Nat.min_le_left (min len (usub fifo.in_ fifo.out)) (usub fifo.size (mask fifo fifo.out))
  simp only [kfifoGet, kfifoGetUnlocked]
  generalize min (min len (usub fifo.in_ fifo.out)) (usub fifo.size (mask fifo fifo.out)) = l at hle ⊢
  generalize min len (usub fifo.in_ fifo.out) = n at hle ⊢
  by_cases hfirst : k < l
  · rw [if_pos hfirst]
    exact iff_of_true rfl (lt_of_lt_of_le hfirst hle)
  · rw [if_neg hfirst]
    by_cases hsecond : k < l + (n - l)
    · rw [if_pos hsecond]
      exact iff_of_true rfl (by omega)
    · rw [if_neg hsecond]
      exact iff_of_false Bool.false_ne_true (by omega)

end Hana.Fifo
