import Mathlib.Logic.Function.Basic
import Mathlib.Tactic.Common
import Hana.Lib.Loop

/-!
# Output of the tty

`tty_init`, `tty_flush` and `tty_write` of `kernel/fs/devfs/devs/tty.c`. A tty with a buffer sends a
line when it is complete or when the buffer is full, and one without a buffer sends every character.
`none` stands for a failed assertion and for a write behind the end of the buffer.

* `tty_lossless`: after any sequence of writes the characters that were sent and those in the buffer
  are together what was written, and no write has failed.
-/

namespace Hana.Devfs

open Function List Lib

structure Tty where
  bufsize : Nat
  buffer : Option (Nat → UInt8)
  bofs : Nat
  /-- What `putchar` has sent to the device. -/
  sent : List UInt8

def newline : UInt8 := 10

/-- `tty_init`; `alloc` is what `kalloc` returns for the buffer. -/
def ttyInit (bufsize : Nat) (alloc : Option (Nat → UInt8)) : Tty :=
  ⟨bufsize, if bufsize ≠ 0 then alloc else none, 0, []⟩

/-- `tty_flush` -/
def ttyFlush (tty : Tty) : Option Tty :=
  tty.buffer.map fun buffer =>
    { tty with sent := tty.sent ++ (List.range tty.bofs).map buffer, bofs := 0 }

/-- A turn of the loop of `tty_write`. -/
def writeChar (tty : Tty) (c : UInt8) : Option Tty :=
  match tty.buffer with
  | some buffer =>
    if tty.bofs < tty.bufsize then
      let tty := { tty with buffer := some (update buffer tty.bofs c), bofs := tty.bofs + 1 }
      if c = newline ∨ tty.bofs = tty.bufsize then ttyFlush tty else some tty
    else none
  | none => some { tty with sent := tty.sent ++ [c] }

/-- `tty_write`, with the number it returns and the new offset. -/
def ttyWrite (data : List UInt8) (offset : Int) (tty : Tty) : Option (Nat × Int × Tty) := do
  let tty ← data.foldlM writeChar tty
  some (data.length, offset + data.length, tty)

/-- The calls of `tty_write` with the given data and offsets. -/
def run (writes : List (List UInt8 × Int)) (tty : Tty) : Option Tty :=
  writes.foldlM (fun tty w => (ttyWrite w.1 w.2 tty).map (·.2.2)) tty

/-- `tty->buffer[0..bofs)` -/
def Tty.tail (tty : Tty) : List UInt8 := (List.range tty.bofs).map fun i => (tty.buffer.map (· i)).getD 0

/-- What was sent and what is in the buffer is what was written; the buffer holds a part of a line and
has room for one more character, and without a buffer nothing is held back. -/
structure LineBuffered (tty : Tty) (written : List UInt8) : Prop where
  stream : tty.sent ++ tty.tail = written
  line : newline ∉ tty.tail
  room : tty.bufsize ≠ 0 → tty.bofs < tty.bufsize
  empty : tty.buffer = none → tty.bofs = 0
  buffer : tty.bufsize = 0 → tty.buffer = none

lemma lineBuffered_init (bufsize : Nat) (alloc : Option (Nat → UInt8)) :
    LineBuffered (ttyInit bufsize alloc) [] :=
  ⟨rfl, not_mem_nil, Nat.pos_of_ne_zero, fun _ => rfl, fun hzero => if_neg (not_not_intro hzero)⟩

/-- The character that is written last is the last one of the buffer. -/
lemma map_range_update (buffer : Nat → UInt8) (bofs : Nat) (c : UInt8) :
    (range (bofs + 1)).map (update buffer bofs c) = (range bofs).map buffer ++ [c] := by
  rw [range_succ, map_append]
  refine congrArg₂ _ (map_congr_left fun i hi => ?_) (congrArg (· :: []) (update_self ..))
  exact update_of_ne (Nat.ne_of_lt (mem_range.mp hi)) ..

lemma LineBuffered.writeChar {tty : Tty} {written : List UInt8} (h : LineBuffered tty written)
    (c : UInt8) : ∃ tty', writeChar tty c = some tty' ∧ LineBuffered tty' (written ++ [c]) := by
  obtain ⟨bufsize, buffer, bofs, sent⟩ := tty
  obtain ⟨rfl, hline, hroom, hempty, hbuffer⟩ := h
  cases buffer with
  | none =>
    obtain rfl : bofs = 0 := hempty rfl
    exact ⟨_, rfl, by simp [Tty.tail], hline, hroom, hempty, hbuffer⟩
  | some buffer =>
    have hsize : bufsize ≠ 0 := fun hzero => nomatch hbuffer hzero
    have hlt := hroom hsize
    have hnext := map_range_update buffer bofs c
    have htail : Tty.tail ⟨bufsize, some buffer, bofs, sent⟩ = (range bofs).map buffer := rfl
    rw [htail] at hline ⊢
    simp only [Devfs.writeChar, if_pos hlt]
    split_ifs with hflush
    · refine ⟨_, rfl, ?_, not_mem_nil, fun _ => Nat.pos_of_ne_zero hsize, fun _ => rfl, ?_⟩
      · show (sent ++ _) ++ [] = _
        rw [hnext, append_nil, append_assoc]
      · exact fun hzero => absurd hzero hsize
    · obtain ⟨hc, hfull⟩ := not_or.mp hflush
      refine ⟨_, rfl, ?_, ?_, fun _ => Nat.lt_of_le_of_ne hlt hfull, nofun, fun hzero => absurd hzero hsize⟩
      · show sent ++ (range (bofs + 1)).map (update buffer bofs c) = _
        rw [hnext, append_assoc]
      · show newline ∉ (range (bofs + 1)).map (update buffer bofs c)
        rw [hnext, mem_append, mem_singleton]
        exact not_or.mpr ⟨hline, Ne.symm hc⟩

/-- The tty loses nothing, whatever its buffer and however the characters are split into writes. -/
theorem tty_lossless (bufsize : Nat) (alloc : Option (Nat → UInt8))
    (writes : List (List UInt8 × Int)) :
    ∃ tty, run writes (ttyInit bufsize alloc) = some tty ∧
      LineBuffered tty (writes.flatMap (·.1)) := by
  refine foldlM_history (P := fun done tty => LineBuffered tty (done.flatMap (·.1))) ?_ writes
    (d := []) (lineBuffered_init bufsize alloc)
  intro done tty w h
  have hchar : ∀ cs tty c, LineBuffered tty (done.flatMap (·.1) ++ cs) →
      ∃ tty', writeChar tty c = some tty' ∧ LineBuffered tty' (done.flatMap (·.1) ++ (cs ++ [c])) := by
    intro cs tty c h
    rw [← append_assoc]
    exact h.writeChar c
  obtain ⟨tty', hrun, h'⟩ := foldlM_history hchar w.1 (d := []) (by rwa [append_nil])
  refine ⟨tty', by rw [ttyWrite, hrun]; rfl, ?_⟩
  rw [flatMap_append, flatMap_singleton]
  exact h'

end Hana.Devfs
