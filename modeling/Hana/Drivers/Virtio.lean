import Mathlib.Data.Nat.Bitwise
import Mathlib.Logic.Function.Basic
import Mathlib.Tactic.SplitIfs
import Hana.Lib.NextList

/-!
# Virtqueues

The descriptor table, the available ring and the used ring that a driver shares with a virtio
device, after `drivers/virtio.c` and `include/drivers/virtio.h`. The three parts of one
allocation are kept as arrays of their own. `none` stands for a failed assertion, a panic and an
access behind the end of the descriptor table; the messages of `error` change nothing and are
left out.

The descriptors that are not in use form a list through their `next` fields. It starts at
`freeDesc` and ends at `queueSize`.
-/

namespace Hana.Virtio

open Function Lib

structure VirtqueueDesc where
  addr : Nat
  len : Nat
  flags : Nat
  next : Nat
  deriving Repr, DecidableEq, Inhabited

structure VirtqueueUsedElem where
  id : Nat
  len : Nat
  deriving Repr, DecidableEq, Inhabited

/-- The rings have free-running 16-bit indices. -/
structure Virtqueue where
  desc : Nat → VirtqueueDesc
  availIdx : Nat
  availRing : Nat → Nat
  usedIdx : Nat
  usedRing : Nat → VirtqueueUsedElem

structure VirtqInfo where
  seenUsed : Nat
  freeDesc : Nat
  virtq : Virtqueue
  descVirt : Nat → Nat
  queueNum : Nat
  queueSize : Nat

/-- A value stored in a 16-bit field. -/
def wrap16 (x : Nat) : Nat := x % 2 ^ 16

lemma wrap16_of_lt {x : Nat} (h : x < 2 ^ 16) : wrap16 x = x := Nat.mod_eq_of_lt h

/-- `wrap`: clears the bits of `len` in a 32-bit number. -/
def wrap (x len : Nat) : Nat := x &&& (2 ^ 32 - 1 - len)

def virtqDescFNext : Nat := 1

def virtqDescFWrite : Nat := 2

/-- `virtq_create`. It does not set `free_desc`. -/
def virtqCreate (info : VirtqInfo) : Option VirtqInfo :=
  if info.queueSize = 0 then
    none
  else
    some { info with
      virtq :=
        { desc := fun i =>
            { addr := 0, len := 0, flags := 0,
              next := if i < info.queueSize then wrap16 (i + 1) else 0 }
          availIdx := 0
          availRing := fun _ => 0
          usedIdx := 0
          usedRing := fun _ => ⟨0, 0⟩ }
      descVirt := fun _ => 0 }

/-- `virtq_add_to_device`, as far as the driver's side of the queue goes. `queuePFN` and
`queueNumMax` are what the registers of the selected queue read. -/
def virtqAddToDevice (info : VirtqInfo) (queuePFN queueNumMax queueSel queueSize : Nat) :
    Option VirtqInfo :=
  if queuePFN ≠ 0 then none
  else if queueNumMax = 0 then none
  else if queueNumMax < queueSize then none
  else virtqCreate { info with seenUsed := 0, freeDesc := 0, queueNum := queueSel, queueSize }

namespace VirtqInfo

def setDesc (info : VirtqInfo) (d : Nat) (f : VirtqueueDesc → VirtqueueDesc) : VirtqInfo :=
  { info with
    virtq := { info.virtq with desc := update info.virtq.desc d (f (info.virtq.desc d)) } }

/-- Writes the length and the flags of a descriptor. -/
def fill (info : VirtqInfo) (d len flags : Nat) : VirtqInfo :=
  info.setDesc d fun e => { e with len, flags }

/-- Writes the 16-bit link of a descriptor. -/
def link (info : VirtqInfo) (d n : Nat) : VirtqInfo :=
  info.setDesc d fun e => { e with next := wrap16 n }

def next (info : VirtqInfo) (d : Nat) : Nat := (info.virtq.desc d).next

section

variable (info : VirtqInfo) (d : Nat) (f : VirtqueueDesc → VirtqueueDesc)

@[simp] lemma setDesc_descVirt : (info.setDesc d f).descVirt = info.descVirt := rfl

lemma setDesc_desc (a : Nat) :
    (info.setDesc d f).virtq.desc a = if a = d then f (info.virtq.desc d) else info.virtq.desc a :=
  update_apply ..

lemma setDesc_next (a : Nat) :
    (info.setDesc d f).next a = if a = d then (f (info.virtq.desc d)).next else info.next a := by
  rw [next, setDesc_desc]
  split_ifs
  · rfl
  · rfl

end

lemma fill_next (info : VirtqInfo) (d len flags a : Nat) :
    (info.fill d len flags).next a = info.next a := by
  rw [fill, setDesc_next]
  split_ifs with h
  · rw [h, next]
  · rfl

lemma link_next (info : VirtqInfo) (d n a : Nat) :
    (info.link d n).next a = if a = d then wrap16 n else info.next a :=
  info.setDesc_next d (fun e => { e with next := wrap16 n }) a

end VirtqInfo

/-- The kernel runs in an identity mapping. -/
def virtToPhys (va : Nat) : Nat := va

/-- `virtq_alloc_desc`. With no descriptor left `free_desc` is `queue_size`, and the code goes on
with a descriptor behind the end of the table. -/
def virtqAllocDesc (info : VirtqInfo) (addr : Nat) : Option (VirtqInfo × Nat) :=
  let desc := info.freeDesc
  if desc < info.queueSize then
    let info := { info with freeDesc := info.next desc }
    let info := info.setDesc desc fun e => { e with addr := virtToPhys addr }
    some ({ info with descVirt := update info.descVirt desc addr }, desc)
  else
    none

/-- The queue after `virtq_alloc_desc` has taken the descriptor `d`. -/
def VirtqInfo.take (info : VirtqInfo) (d addr : Nat) : VirtqInfo :=
  { info.setDesc d fun e => { e with addr := virtToPhys addr } with
    freeDesc := info.next d
    descVirt := update info.descVirt d addr }

lemma virtqAllocDesc_eq {info : VirtqInfo} {d : Nat} (addr : Nat) (hfree : info.freeDesc = d)
    (hd : d < info.queueSize) : virtqAllocDesc info addr = some (info.take d addr, d) := by
  subst hfree
  rw [virtqAllocDesc, if_pos hd]
  rfl

namespace VirtqInfo

variable (info : VirtqInfo) (d addr : Nat)

lemma take_desc (a : Nat) : (info.take d addr).virtq.desc a =
    if a = d then { info.virtq.desc d with addr := virtToPhys addr } else info.virtq.desc a :=
  info.setDesc_desc d (fun e => { e with addr := virtToPhys addr }) a

lemma take_descVirt (a : Nat) :
    (info.take d addr).descVirt a = if a = d then addr else info.descVirt a :=
  update_apply ..

@[simp] lemma take_next (a : Nat) : (info.take d addr).next a = info.next a := by
  rw [next, take_desc]
  split_ifs with h
  · rw [h]
    rfl
  · rfl

end VirtqInfo

/-- `virtq_free_desc` -/
def virtqFreeDesc (info : VirtqInfo) (desc : Nat) : Option VirtqInfo :=
  if desc < info.queueSize then
    let info := info.link desc info.freeDesc
    some { info with freeDesc := desc, descVirt := update info.descVirt desc 0 }
  else
    none

/-- The queue after `virtq_free_desc` has put the descriptor `d` back. -/
def VirtqInfo.give (info : VirtqInfo) (d : Nat) : VirtqInfo :=
  { info.link d info.freeDesc with
    freeDesc := d
    descVirt := update info.descVirt d 0 }

lemma virtqFreeDesc_eq {info : VirtqInfo} {d : Nat} (hd : d < info.queueSize) :
    virtqFreeDesc info d = some (info.give d) := by
  rw [virtqFreeDesc, if_pos hd]
  rfl

namespace VirtqInfo

variable (info : VirtqInfo) (d : Nat)

@[simp] lemma give_freeDesc : (info.give d).freeDesc = d := rfl

lemma give_desc (a : Nat) : (info.give d).virtq.desc a =
    if a = d then { info.virtq.desc d with next := wrap16 info.freeDesc } else info.virtq.desc a :=
  info.setDesc_desc d (fun e => { e with next := wrap16 info.freeDesc }) a

lemma give_next (a : Nat) :
    (info.give d).next a = if a = d then wrap16 info.freeDesc else info.next a :=
  info.link_next d info.freeDesc a

lemma give_descVirt (a : Nat) :
    (info.give d).descVirt a = if a = d then 0 else info.descVirt a :=
  update_apply ..

end VirtqInfo

end Hana.Virtio
