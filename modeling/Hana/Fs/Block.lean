import Mathlib.Data.List.Range
import Mathlib.Tactic.Common
import Hana.Common
import Hana.Lib.Run

/-!
# Raw block devices in devfs

`block_read` and `block_write`, and the request list of the block layer under them, for one
operation after the other. The caller's buffer is addressed from its start and a byte of it that
has not been stored is `none`; `disk->buffer` is the bounce buffer. Requests are numbered in the
order of their allocation. Which of them fail, in which order the data of those that are in flight
moves, and how many can be allocated is up to the device and to memory.
-/

namespace Hana.Block

open Lib List

def wrap32 (n : Nat) : Nat := n % 2 ^ 32

inductive Status
  | init
  | ok
  | err
  deriving Repr, DecidableEq

/-- Where a request has its data. -/
inductive Ptr
  | buffer (off : Nat)
  | bounce
  deriving Repr, DecidableEq

structure Blkreq where
  write : Bool
  sectorSta : Nat
  buffer : Ptr
  status : Status
  deriving Repr, DecidableEq

/-- The device with its requests, newest first, and the memory that its requests use. -/
structure Io where
  sectorSize : Nat
  contents : Nat → UInt8
  rqList : List Nat
  request : Nat → Blkreq
  next : Nat
  bounce : Nat → UInt8
  buffer : Nat → Option UInt8

/-- What the device does with the requests of a run. -/
structure Device where
  err : Nat → Bool
  order : List Nat → List Nat

/-- `blkreq_alloc` and `blkdev_submit_req` -/
def submit (write : Bool) (sectorSta : Nat) (ptr : Ptr) (io : Io) : Io :=
  { io with
    rqList := io.next :: io.rqList
    request := Function.update io.request io.next ⟨write, sectorSta, ptr, .init⟩
    next := io.next + 1 }

/-- The device moves the data of one request. -/
def transfer (io : Io) (id : Nat) : Io :=
  let r := io.request id
  let base := r.sectorSta * io.sectorSize
  match r.write, r.buffer with
  | false, .buffer off => { io with
      buffer := fun k => if off ≤ k ∧ k < off + io.sectorSize then some (io.contents (base + (k - off)))
        else io.buffer k }
  | false, .bounce => { io with
      bounce := fun k => if k < io.sectorSize then io.contents (base + k) else io.bounce k }
  | true, .buffer off => { io with
      contents := fun a => if base ≤ a ∧ a < base + io.sectorSize then
        (io.buffer (off + (a - base))).getD 0 else io.contents a }
  | true, .bounce => { io with
      contents := fun a => if base ≤ a ∧ a < base + io.sectorSize then io.bounce (a - base)
        else io.contents a }

def pending (io : Io) : List Nat := io.rqList.filter fun id => (io.request id).status == .init

/-- The requests in flight come to their end. -/
def complete (D : Device) (io : Io) : Io :=
  let done := pending io
  let io := ((D.order done).filter fun id => !D.err id).foldl transfer io
  { io with
    request := fun id => if id ∈ done then
      { io.request id with status := if D.err id then .err else .ok } else io.request id }

/-- `blkdev_wait_all`: the number of requests on the list that are not `BLKREQ_STATUS_OK` in the
end. The process sleeps until those in flight are done. -/
def blkdevWaitAll (D : Device) (io : Io) : Nat × Io :=
  let io := complete D io
  ((io.rqList.filter fun id => (io.request id).status != .ok).length, io)

/-- `blkdev_free_all`, which leaves the requests that are not `BLKREQ_STATUS_OK` on the list. -/
def blkdevFreeAll (io : Io) : Io :=
  { io with rqList := io.rqList.filter fun id => (io.request id).status != .ok }

/-- The loop over the blocks, with `i` and `buf_ptr`: whether a request could not be allocated.
`prepare` is what is done to the bounce buffer before the last, partial block. -/
def issue (write incomplete : Bool) (blkCnt blkId avail : Nat) (prepare : Nat → Io → Io) :
    Nat → Nat → Nat → Io → Bool × Nat × Io
  | 0, _, bufPtr, io => (false, bufPtr, io)
  | n + 1, i, bufPtr, io =>
    let last := incomplete && i == usub blkCnt 1
    let io := if last then prepare bufPtr io else io
    if avail ≤ i then (true, bufPtr, io)
    else
      let io := submit write (wrap32 (blkId + i)) (if last then .bounce else .buffer bufPtr) io
      let bufPtr := if incomplete && i < usub blkCnt 2 then bufPtr + io.sectorSize else bufPtr
      issue write incomplete blkCnt blkId avail prepare n (i + 1) bufPtr io

def blkCnt (size sectorSize : Nat) : Nat := wrap32 ((size - 1) / sectorSize + 1)

def blkId (offset : Int) (sectorSize : Nat) : Nat := wrap32 ((offset % 2 ^ 64).toNat / sectorSize)

/-- `memset(disk->buffer, 0, sector_size)` -/
def clearBounce (io : Io) : Io :=
  { io with bounce := fun k => if k < io.sectorSize then 0 else io.bounce k }

/-- `memcpy(buf_ptr, disk->buffer, n)` -/
def bounceToBuffer (n bufPtr : Nat) (io : Io) : Io :=
  { io with buffer := fun k => if bufPtr ≤ k ∧ k < bufPtr + n then some (io.bounce (k - bufPtr))
      else io.buffer k }

/-- `memcpy(disk->buffer, buf_ptr, n)` -/
def bufferToBounce (n bufPtr : Nat) (io : Io) : Io :=
  { io with bounce := fun k => if k < n then (io.buffer (bufPtr + k)).getD 0 else io.bounce k }

/-- The loop of `block_read`. -/
def issueReads (avail size : Nat) (offset : Int) (io : Io) : Bool × Nat × Io :=
  issue false (size % io.sectorSize != 0) (blkCnt size io.sectorSize) (blkId offset io.sectorSize) avail
    (fun _ => clearBounce) (blkCnt size io.sectorSize) 0 0 io

/-- The loop of `block_write`. -/
def issueWrites (avail size : Nat) (offset : Int) (io : Io) : Bool × Nat × Io :=
  issue true (size % io.sectorSize != 0) (blkCnt size io.sectorSize) (blkId offset io.sectorSize) avail
    (bufferToBounce (size % io.sectorSize)) (blkCnt size io.sectorSize) 0 0 io

/-- `block_read`: the value returned, `*offset`, and the device. `avail` requests can be
allocated. -/
def blockRead (D : Device) (avail size : Nat) (offset : Int) (io : Io) : Int × Int × Io :=
  if size = 0 then (0, offset, io)
  else
    let (failed, bufPtr, io) := issueReads avail size offset io
    let (nr, io) := blkdevWaitAll D io
    let io := if size % io.sectorSize != 0 then bounceToBuffer (size % io.sectorSize) bufPtr io else io
    (if failed || nr != 0 then -1 else 0, offset + size, blkdevFreeAll io)

/-- `block_write` -/
def blockWrite (D : Device) (avail size : Nat) (offset : Int) (io : Io) : Int × Int × Io :=
  if size = 0 then (0, offset, io)
  else
    let io := if size % io.sectorSize != 0 then clearBounce io else io
    let (failed, _, io) := issueWrites avail size offset io
    let (nr, io) := blkdevWaitAll D io
    (if failed || nr != 0 then -1 else 0, offset + size, blkdevFreeAll io)

/-! ## The request list -/

section

variable {D : Device} {io io' : Io}

/-- Two devices with the same requests. -/
structure SameList (io io' : Io) : Prop where
  rqList : io'.rqList = io.rqList
  status : ∀ id, (io'.request id).status = (io.request id).status
  next : io'.next = io.next

lemma SameList.refl (io : Io) : SameList io io := ⟨rfl, fun _ => rfl, rfl⟩

/-- The requests `io.next, …, io.next + k - 1` have been put on the list. -/
structure Issued (io io' : Io) (k : Nat) : Prop where
  rqList : io'.rqList = (List.range' io.next k).reverse ++ io.rqList
  status : ∀ id, (io'.request id).status =
    if io.next ≤ id ∧ id < io.next + k then .init else (io.request id).status
  next : io'.next = io.next + k

lemma issued_submit (write : Bool) (sectorSta : Nat) (ptr : Ptr) (io : Io) :
    Issued io (submit write sectorSta ptr io) 1 := by
  refine ⟨rfl, fun id => ?_, rfl⟩
  show (Function.update io.request io.next ⟨write, sectorSta, ptr, .init⟩ id).status = _
  by_cases hid : id = io.next
  · rw [hid, Function.update_self, if_pos ⟨le_rfl, Nat.lt_succ_self _⟩]
  · rw [Function.update_of_ne hid, if_neg (by omega)]

lemma Issued.of_sameList {k : Nat} {io1 : Io} (h : SameList io io1) (h' : Issued io1 io' k) :
    Issued io io' k := by
  refine ⟨by rw [h'.rqList, h.rqList, h.next], fun id => ?_, by rw [h'.next, h.next]⟩
  rw [h'.status, h.next, h.status]

lemma Issued.trans {j k : Nat} {io1 : Io} (h : Issued io io1 j) (h' : Issued io1 io' k) :
    Issued io io' (j + k) := by
  refine ⟨?_, fun id => ?_, by rw [h'.next, h.next, add_assoc]⟩
  · rw [h'.rqList, h.rqList, h.next, ← append_assoc, ← reverse_append,
      range'_append_1]
  · rw [h'.status, h.status, h.next]
    by_cases hj : io.next ≤ id ∧ id < io.next + j
    · rw [if_neg (by omega), if_pos hj, if_pos (by omega)]
    · by_cases hk : io.next + j ≤ id ∧ id < io.next + j + k
      · rw [if_pos hk, if_pos (by omega)]
      · rw [if_neg hk, if_neg hj, if_neg (by omega)]

/-- The loop submits a request for each block, up to the one that cannot be allocated. -/
lemma issue_issued {write incomplete : Bool} {cnt blkId avail : Nat} {prepare : Nat → Io → Io}
    (hprepare : ∀ bufPtr io, SameList io (prepare bufPtr io)) (n i bufPtr : Nat) (io : Io)
    (hi : i ≤ avail) :
    Issued io (issue write incomplete cnt blkId avail prepare n i bufPtr io).2.2 (min n (avail - i)) ∧
      (issue write incomplete cnt blkId avail prepare n i bufPtr io).1 = decide (avail < i + n) := by
  induction n generalizing i bufPtr io with
  | zero =>
    refine ⟨⟨rfl, fun id => ?_, rfl⟩, (decide_eq_false (not_lt.mpr hi)).symm⟩
    rw [if_neg (by omega)]
    rfl
  | succ n ih =>
    have hprep : SameList io (if (incomplete && i == usub cnt 1) = true then prepare bufPtr io else io) := by
      split
      · exact hprepare bufPtr io
      · exact SameList.refl io
    simp only [issue]
    generalize (if (incomplete && i == usub cnt 1) = true then prepare bufPtr io else io) = io1 at hprep ⊢
    by_cases hfull : avail ≤ i
    · rw [if_pos hfull, Nat.sub_eq_zero_of_le hfull, Nat.min_zero]
      refine ⟨Issued.of_sameList hprep ⟨rfl, fun id => ?_, rfl⟩, (decide_eq_true (by omega)).symm⟩
      rw [if_neg (by omega)]
    · rw [if_neg hfull]
      obtain ⟨htail, hfailed⟩ := ih (i + 1) (if (incomplete && decide (i < usub cnt 2)) = true
          then bufPtr + io1.sectorSize else bufPtr) (submit write (wrap32 (blkId + i))
          (if (incomplete && i == usub cnt 1) = true then .bounce else .buffer bufPtr) io1) (by omega)
      refine ⟨?_, hfailed.trans (decide_eq_decide.mpr (by omega))⟩
      have hall := Issued.of_sameList hprep ((issued_submit write (wrap32 (blkId + i))
        (if (incomplete && i == usub cnt 1) = true then .bounce else .buffer bufPtr) io1).trans htail)
      rwa [show 1 + min n (avail - (i + 1)) = min (n + 1) (avail - i) by omega] at hall

lemma sameList_transfer (io : Io) (id : Nat) : SameList io (transfer io id) := by
  simp only [transfer]
  split <;> exact ⟨rfl, fun _ => rfl, rfl⟩

lemma SameList.trans {io1 : Io} (h : SameList io io1) (h' : SameList io1 io') : SameList io io' :=
  ⟨h'.rqList.trans h.rqList, fun id => (h'.status id).trans (h.status id), h'.next.trans h.next⟩

lemma sameList_foldl_transfer (l : List Nat) (io : Io) : SameList io (l.foldl transfer io) := by
  induction l generalizing io with
  | nil => exact SameList.refl io
  | cons id l ih => exact (sameList_transfer io id).trans (ih (transfer io id))

lemma sameList_clearBounce (io : Io) : SameList io (clearBounce io) := ⟨rfl, fun _ => rfl, rfl⟩

lemma sameList_bufferToBounce (n bufPtr : Nat) (io : Io) : SameList io (bufferToBounce n bufPtr io) :=
  ⟨rfl, fun _ => rfl, rfl⟩

lemma sameList_bounceToBuffer (n bufPtr : Nat) (io : Io) : SameList io (bounceToBuffer n bufPtr io) :=
  ⟨rfl, fun _ => rfl, rfl⟩

lemma complete_rqList (D : Device) (io : Io) :
    (complete D io).rqList = io.rqList ∧ (complete D io).next = io.next :=
  ⟨(sameList_foldl_transfer _ io).rqList, (sameList_foldl_transfer _ io).next⟩

lemma complete_status (D : Device) (io : Io) (id : Nat) :
    ((complete D io).request id).status = if id ∈ pending io then
      (if D.err id then .err else .ok) else (io.request id).status := by
  have hsame := (sameList_foldl_transfer ((D.order (pending io)).filter fun id => !D.err id) io).status id
  by_cases hid : id ∈ pending io
  · simp only [complete, if_pos hid]
  · simp only [complete, if_neg hid]
    exact hsame

/-- What an operation on an empty list leaves behind, once it has put `k` requests on it. -/
lemma waitAll_of_issued {k : Nat} (hempty : io.rqList = []) (h : Issued io io' k) :
    (blkdevWaitAll D io').2.rqList = (range' io.next k).reverse ∧
      (∀ id, io.next ≤ id → id < io.next + k →
        ((blkdevWaitAll D io').2.request id).status = if D.err id then .err else .ok) ∧
      (blkdevWaitAll D io').2.next = io.next + k := by
  have hlist : io'.rqList = (range' io.next k).reverse := by
    rw [h.rqList, hempty, append_nil]
  refine ⟨(complete_rqList D io').1.trans hlist, fun id hlo hhi => ?_,
    (complete_rqList D io').2.trans h.next⟩
  show ((complete D io').request id).status = _
  rw [complete_status, if_pos]
  refine mem_filter.mpr ⟨?_, ?_⟩
  · rw [hlist, mem_reverse, mem_range'_1]
    exact ⟨hlo, hhi⟩
  · rw [h.status, if_pos ⟨hlo, hhi⟩]
    rfl

/-- The end of both operations: they report a failure and leave the list empty as they should
exactly when every request could be allocated and succeeds. -/
lemma reports_iff {k : Nat} {failed : Bool} {io1 io2 : Io} (hempty : io.rqList = [])
    (h : Issued io io1 k) (hsame : SameList (blkdevWaitAll D io1).2 io2) :
    (((if failed || (blkdevWaitAll D io1).1 != 0 then -1 else 0 : Int) < 0 ↔
        ∃ id, io.next ≤ id ∧ id < (blkdevFreeAll io2).next ∧
          ((blkdevFreeAll io2).request id).status = .err) ∧ (blkdevFreeAll io2).rqList = []) ↔
      failed = false ∧ ∀ id, io.next ≤ id → id < io.next + k → D.err id = false := by
  obtain ⟨hlist, hstatus, hnext⟩ := waitAll_of_issued (D := D) hempty h
  have hleft : (blkdevFreeAll io2).rqList =
      (blkdevWaitAll D io1).2.rqList.filter fun id => ((blkdevWaitAll D io1).2.request id).status != .ok := by
    simp only [blkdevFreeAll, hsame.rqList, hsame.status]
  have hnr : (blkdevWaitAll D io1).1 = (blkdevFreeAll io2).rqList.length := by
    rw [hleft]
    rfl
  have hst : ∀ id, io.next ≤ id → id < io.next + k →
      ((blkdevFreeAll io2).request id).status = if D.err id then .err else .ok := by
    intro id hlo hhi
    exact (hsame.status id).trans (hstatus id hlo hhi)
  have hnext' : (blkdevFreeAll io2).next = io.next + k := hsame.next.trans hnext
  have hfree : (blkdevFreeAll io2).rqList = [] ↔
      ∀ id, io.next ≤ id → id < io.next + k → D.err id = false := by
    rw [hleft, hlist, filter_eq_nil_iff]
    refine forall_congr' fun id => ?_
    rw [mem_reverse, mem_range'_1, and_imp]
    refine forall_congr' fun hlo => forall_congr' fun hhi => ?_
    rw [hstatus id hlo hhi]
    cases D.err id <;> simp
  rw [hnr, hnext']
  constructor
  · rintro ⟨hret, hnil⟩
    have hok := hfree.mp hnil
    refine ⟨?_, hok⟩
    rw [hnil] at hret
    cases failed with
    | false => rfl
    | true =>
      obtain ⟨id, hlo, hhi, herr⟩ := hret.mp (by decide)
      rw [hst id hlo hhi, hok id hlo hhi] at herr
      cases herr
  · rintro ⟨rfl, hok⟩
    rw [hfree.mpr hok]
    refine ⟨iff_of_false (by decide) ?_, rfl⟩
    rintro ⟨id, hlo, hhi, herr⟩
    rw [hst id hlo hhi, hok id hlo hhi] at herr
    cases herr

end

/-- An operation on the device: its kind, size and offset, the caller's buffer, and the number of
requests that can be allocated for it. -/
structure Op where
  write : Bool
  size : Nat
  offset : Int
  buffer : Nat → Option UInt8
  avail : Nat

def run (D : Device) (io : Io) (op : Op) : Int × Int × Io :=
  let io := { io with buffer := op.buffer }
  if op.write then blockWrite D op.avail op.size op.offset io
  else blockRead D op.avail op.size op.offset io

def Step (D : Device) (io : Io) (op : Op) (io' : Io) : Prop := (run D io op).2.2 = io'

/-- The operation reports a failure if and only if one of its own requests has failed, and the list
is empty when it returns. -/
def Reports (D : Device) (io : Io) (op : Op) : Prop :=
  ((run D io op).1 < 0 ↔ ∃ id, io.next ≤ id ∧ id < (run D io op).2.2.next ∧
    ((run D io op).2.2.request id).status = .err) ∧ (run D io op).2.2.rqList = []

/-- The number of blocks of an operation. -/
def blocks (io : Io) (op : Op) : Nat := if op.size = 0 then 0 else blkCnt op.size io.sectorSize

/-- Every request of the operation can be allocated and succeeds. -/
def Healthy (D : Device) (io : Io) (op : Op) : Prop :=
  blocks io op ≤ op.avail ∧ ∀ id, io.next ≤ id → id < io.next + blocks io op → D.err id = false

/-- When every block gets its request, the requests are those of the blocks. -/
lemma healthy_iff {D : Device} {io : Io} {op : Op} (hsize : op.size ≠ 0) :
    (decide (op.avail < 0 + blkCnt op.size io.sectorSize) = false ∧ ∀ id, io.next ≤ id →
        id < io.next + min (blkCnt op.size io.sectorSize) (op.avail - 0) → D.err id = false) ↔
      Healthy D io op := by
  rw [Healthy, blocks, if_neg hsize, decide_eq_false_iff_not, zero_add, not_lt, Nat.sub_zero]
  refine and_congr_right fun hle => ?_
  rw [Nat.min_eq_left hle]

lemma reports_run_iff {D : Device} {io : Io} {op : Op} (hempty : io.rqList = []) :
    Reports D io op ↔ Healthy D io op := by
  by_cases hsize : op.size = 0
  · have hrun : run D io op = (0, op.offset, { io with buffer := op.buffer }) := by
      cases hw : op.write <;> simp [run, blockRead, blockWrite, hsize, hw]
    refine iff_of_true ?_ ⟨?_, fun id hlo hhi => ?_⟩
    · rw [Reports, hrun]
      refine ⟨iff_of_false (Int.lt_irrefl 0) ?_, hempty⟩
      rintro ⟨id, hlo, hhi, -⟩
      exact absurd hlo (not_le.mpr hhi)
    · rw [blocks, if_pos hsize]
      exact Nat.zero_le _
    · rw [blocks, if_pos hsize] at hhi
      exact absurd hlo (not_le.mpr hhi)
  · rw [← healthy_iff hsize]
    cases hw : op.write with
    | false =>
      obtain ⟨hissued, hfailed⟩ : Issued { io with buffer := op.buffer }
            (issueReads op.avail op.size op.offset { io with buffer := op.buffer }).2.2
            (min (blkCnt op.size io.sectorSize) (op.avail - 0)) ∧
          (issueReads op.avail op.size op.offset { io with buffer := op.buffer }).1 =
            decide (op.avail < 0 + blkCnt op.size io.sectorSize) :=
        issue_issued (fun _ => sameList_clearBounce) _ 0 0 _ (Nat.zero_le _)
      have hsame : SameList io { io with buffer := op.buffer } := ⟨rfl, fun _ => rfl, rfl⟩
      rw [Reports, run, hw, if_neg Bool.false_ne_true, blockRead, if_neg hsize, ← hfailed]
      refine reports_iff hempty (Issued.of_sameList hsame hissued) ?_
      split
      · exact sameList_bounceToBuffer _ _ _
      · exact SameList.refl _
    | true =>
      have hrun : run D io op = blockWrite D op.avail op.size op.offset { io with buffer := op.buffer } := by
        rw [run, hw]
        rfl
      rw [Reports, hrun, blockWrite, if_neg hsize]
      obtain ⟨io1, hclear, hsame, hss⟩ : ∃ io1, (if (op.size % io.sectorSize != 0) = true then
          clearBounce { io with buffer := op.buffer } else { io with buffer := op.buffer }) = io1 ∧
          SameList io io1 ∧ io1.sectorSize = io.sectorSize := by
        refine ⟨_, rfl, ?_, ?_⟩
        · split <;> exact ⟨rfl, fun _ => rfl, rfl⟩
        · split <;> rfl
      obtain ⟨hissued, hfailed⟩ : Issued io1 (issueWrites op.avail op.size op.offset io1).2.2
            (min (blkCnt op.size io1.sectorSize) (op.avail - 0)) ∧
          (issueWrites op.avail op.size op.offset io1).1 =
            decide (op.avail < 0 + blkCnt op.size io1.sectorSize) :=
        issue_issued (fun _ => sameList_bufferToBounce _ _) _ 0 0 _ (Nat.zero_le _)
      rw [hss] at hissued hfailed
      simp only [hclear, ← hfailed]
      exact reports_iff hempty (Issued.of_sameList hsame hissued) (SameList.refl _)

/-- The operations of a run report their failures as they should exactly when all requests of the
run can be allocated and succeed. -/
theorem failures_reported_iff {D : Device} {start io : Io} {ts : List (Transition Io Op)}
    (hstart : start.rqList = []) (hr : Run (Step D) start ts io) :
    (∀ t ∈ ts, Reports D t.source t.label) ↔ ∀ t ∈ ts, Healthy D t.source t.label := by
  have hstep : ∀ io op io', io.rqList = [] → Healthy D io op → Step D io op io' → io'.rqList = [] := by
    rintro io op io' h hh rfl
    exact ((reports_run_iff h).mpr hh).2
  have hexact : ∀ io op io', io.rqList = [] → Step D io op io' → (Reports D io op ↔ Healthy D io op) := by
    intro io op io' h _
    exact reports_run_iff h
  exact hr.forall_iff hstart hstep hexact

/-- A disk of zeros that nobody has used. -/
def newDisk : Io where
  sectorSize := 512
  contents := fun _ => 0
  rqList := []
  request := fun _ => ⟨false, 0, .bounce, .init⟩
  next := 0
  bounce := fun _ => 0
  buffer := fun _ => none

/-- An operation on the first `size` bytes. -/
def opAt (write : Bool) (size : Nat) : Op := ⟨write, size, 0, fun _ => none, 8⟩

/-- A device whose first request fails if `bad` says so. -/
def firstFails (bad : Bool) : Device := ⟨fun id => bad && id == 0, id⟩

theorem failures_reported_two : ∃ ts io, Run (Step (firstFails false)) newDisk ts io ∧
    ts.length = 2 ∧ ∀ t ∈ ts, Reports (firstFails false) t.source t.label := by
  have hr : Run (Step (firstFails false)) newDisk _ _ :=
    (Run.nil.snoc (a := opAt false 1000) rfl).snoc (a := opAt true 512) rfl
  refine ⟨_, _, hr, rfl, (failures_reported_iff rfl hr).mpr ?_⟩
  intro t ht
  simp only [nil_append, mem_append, mem_singleton] at ht
  rcases ht with rfl | rfl
  · exact ⟨by decide, fun _ _ _ => rfl⟩
  · exact ⟨by decide, fun _ _ _ => rfl⟩

/-- The request that failed in the first operation makes the second one fail, whose own request
succeeds. -/
theorem failure_reported_again :
    (run (firstFails true) newDisk (opAt false 512)).1 = -1 ∧
    (run (firstFails true) newDisk (opAt false 512)).2.2.rqList = [0] ∧
    (run (firstFails true) (run (firstFails true) newDisk (opAt false 512)).2.2 (opAt false 512)).1 = -1 ∧
    ((run (firstFails true) (run (firstFails true) newDisk (opAt false 512)).2.2
      (opAt false 512)).2.2.request 1).status = .ok := by
  decide

end Hana.Block
