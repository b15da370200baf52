import Mathlib.Data.List.Nodup
import Mathlib.Tactic.Common
import Hana.Lib.Run
import Hana.Drivers.Virtio

/-!
# The virtio block driver: descriptors and requests

`virtio_blk_submit` and `virtio_blk_handle_used` of `arch/riscv/drivers/virtio/virtio-blk.c`. A
request takes three descriptors from the free list of the queue, for its header, its buffer and
its status byte, and chains them through the same `next` fields that hold the free list. The
device hands the head back in the used ring, in an order of its own, and the driver frees the
three descriptors and reports the status to the request.

A request is named by the address of its `virtio_blk_req`. Its status byte is memory that the
device writes; the other fields are kept in `reqs`. `ended` lists the requests for which
`blkdev_general_endio` has been called.
-/

namespace Hana.Virtio

open Function VirtqInfo
open Option (bind_some)

open Lib

inductive BlkreqType
  | read
  | write
  deriving Repr, DecidableEq

inductive BlkreqStatus
  | init
  | ok
  | err
  deriving Repr, DecidableEq

structure Blkreq where
  type : BlkreqType
  sectorSta : Nat
  size : Nat
  buffer : Nat
  status : BlkreqStatus
  deriving Repr, DecidableEq

structure VirtioBlkReq where
  type : Nat
  sector : Nat
  descriptor : Nat
  blkreq : Blkreq
  deriving Repr, DecidableEq

structure VirtioBlk where
  info : VirtqInfo
  reqs : Nat → VirtioBlkReq
  byte : Nat → Nat
  ended : List Nat

def virtioBlkTIn : Nat := 0

def virtioBlkTOut : Nat := 1

def virtioBlkReqHeaderSize : Nat := 16

def virtioBlkReqFooterSize : Nat := 1

def virtioBlkSectorSize : Nat := 512

namespace VirtioBlk

def setReq (s : VirtioBlk) (hdr : Nat) (f : VirtioBlkReq → VirtioBlkReq) : VirtioBlk :=
  { s with reqs := update s.reqs hdr (f (s.reqs hdr)) }

end VirtioBlk

/-! ## The driver -/

/-- `virtio_blk_send` -/
def virtioBlkSend (hdr : Nat) (s : VirtioBlk) : VirtioBlk :=
  let virtq := s.info.virtq
  let slot := virtq.availIdx % s.info.queueSize
  { s with
    info :=
      { s.info with
        virtq :=
          { virtq with
            availRing := update virtq.availRing slot (wrap16 (s.reqs hdr).descriptor)
            availIdx := wrap16 (virtq.availIdx + 1) } } }

/-- `virtio_blk_submit`. A request of a size that is no multiple of the sector size is only
reported. -/
def virtioBlkSubmit (hdr : Nat) (s : VirtioBlk) : Option VirtioBlk := do
  let req := (s.reqs hdr).blkreq
  if req.size &&& (virtioBlkSectorSize - 1) ≠ 0 then
    some s
  else
    let datamode := if req.type = .read then virtqDescFWrite else 0
    let type := if req.type = .read then virtioBlkTIn else virtioBlkTOut
    let s := s.setReq hdr fun r => { r with type, sector := req.sectorSta }
    let (info, d1) ← virtqAllocDesc s.info hdr
    let s := s.setReq hdr fun r => { r with descriptor := d1 }
    let info := info.fill d1 virtioBlkReqHeaderSize virtqDescFNext
    let (info, d2) ← virtqAllocDesc info req.buffer
    let info := info.fill d2 (req.size % 2 ^ 32) (datamode ||| virtqDescFNext)
    let (info, d3) ← virtqAllocDesc info (hdr + virtioBlkReqHeaderSize)
    let info := info.fill d3 virtioBlkReqFooterSize virtqDescFWrite
    let info := ((info.link d1 d2).link d2 d3).link d3 0
    some (virtioBlkSend hdr { s with info })

/-- An access to the descriptor table. -/
def VirtqInfo.desc? (info : VirtqInfo) (d : Nat) : Option VirtqueueDesc :=
  if d < info.queueSize then some (info.virtq.desc d) else none

/-- The status the driver reports for the byte that the device has written; it panics on every
other byte. -/
def reportedStatus : Nat → Option BlkreqStatus
  | 0 => some .ok
  | 1 => some .err
  | _ => none

/-- `blkdev_general_endio` -/
def blkdevGeneralEndio (hdr : Nat) (s : VirtioBlk) : VirtioBlk := { s with ended := s.ended ++ [hdr] }

/-- `virtio_blk_handle_used`. A malformed chain of descriptors is only reported. -/
def virtioBlkHandleUsed (usedidx : Nat) (s : VirtioBlk) : Option VirtioBlk := do
  let info := s.info
  let desc1 := (info.virtq.usedRing usedidx).id
  let e1 ← info.desc? desc1
  if e1.flags &&& virtqDescFNext = 0 then some s else
  let desc2 := e1.next
  let e2 ← info.desc? desc2
  if e2.flags &&& virtqDescFNext = 0 then some s else
  let desc3 := e2.next
  let e3 ← info.desc? desc3
  if e1.len ≠ virtioBlkReqHeaderSize ∨ e3.len ≠ virtioBlkReqFooterSize then some s else
  let req := info.descVirt desc1
  let info ← virtqFreeDesc info desc1
  let info ← virtqFreeDesc info desc2
  let info ← virtqFreeDesc info desc3
  -- `req->status` with a null `req`
  if req = 0 then none else
  let status ← reportedStatus (s.byte (virtToPhys (req + virtioBlkReqHeaderSize)))
  let s := { s with info }.setReq req fun r => { r with blkreq := { r.blkreq with status } }
  some (blkdevGeneralEndio req s)

/-! ## The device -/

/-- The device completes the request whose chain starts at `head`: it writes the status byte, an
entry of the used ring and the index of the ring. -/
def deviceReturn (head status : Nat) (s : VirtioBlk) : VirtioBlk :=
  let virtq := s.info.virtq
  let footer := s.info.next (s.info.next head)
  { s with
    byte := update s.byte (virtq.desc footer).addr status
    info :=
      { s.info with
        virtq :=
          { virtq with
            usedRing := update virtq.usedRing (virtq.usedIdx % s.info.queueSize) ⟨head, 1⟩
            usedIdx := wrap16 (virtq.usedIdx + 1) } } }

/-- The head that the device finds in the available ring after its index has moved. -/
def postedHead (before after : VirtioBlk) : Option Nat :=
  if after.info.virtq.availIdx = before.info.virtq.availIdx then none
  else some (after.info.virtq.availRing (before.info.virtq.availIdx % before.info.queueSize))

/-- A request that the device has not returned yet: the head it got and the request behind it. -/
structure Posted where
  head : Nat
  hdr : Nat
  deriving Repr, DecidableEq

structure Queue where
  blk : VirtioBlk
  out : List Posted

inductive Event
  /-- A caller fills in the request at `hdr` and submits it. -/
  | submit (hdr : Nat) (req : Blkreq)
  /-- The device returns a head with a status, and the driver handles the used entry. -/
  | complete (head status : Nat)
  deriving Repr, DecidableEq

/-- Submissions and completions are atomic, and at most `queue_size / 3` requests are
outstanding. -/
def step (s : Queue) : Event → Option Queue
  | .submit hdr req =>
    if hdr ≠ 0 ∧ req.buffer ≠ 0 ∧ s.out.length < s.blk.info.queueSize / 3 then do
      let before := s.blk.setReq hdr fun r => { r with blkreq := req }
      let after ← virtioBlkSubmit hdr before
      some { blk := after, out := (postedHead before after).toList.map (⟨·, hdr⟩) ++ s.out }
    else
      none
  | .complete head status =>
    match s.out.find? fun p => p.head = head with
    | none => none
    | some p => do
      let usedidx := s.blk.info.virtq.usedIdx % s.blk.info.queueSize
      let blk ← virtioBlkHandleUsed usedidx (deviceReturn head status s.blk)
      some { blk, out := s.out.erase p }

/-! ## What a submission and a completion do -/

section

variable {s s' : VirtioBlk} {hdr d1 d2 d3 : Nat}

/-- The three descriptors of the posted request `p` are chained from its head and belong to the
header and the status byte of its request. -/
structure Chained (info : VirtqInfo) (p : Posted) : Prop where
  flags1 : (info.virtq.desc p.head).flags &&& virtqDescFNext ≠ 0
  flags2 : (info.virtq.desc (info.next p.head)).flags &&& virtqDescFNext ≠ 0
  len1 : (info.virtq.desc p.head).len = virtioBlkReqHeaderSize
  len3 : (info.virtq.desc (info.next (info.next p.head))).len = virtioBlkReqFooterSize
  footer : (info.virtq.desc (info.next (info.next p.head))).addr =
    virtToPhys (p.hdr + virtioBlkReqHeaderSize)
  virt : info.descVirt p.head = p.hdr
  hdr : p.hdr ≠ 0

/-- The descriptors of the request that was posted with the given head. -/
def VirtqInfo.triple (info : VirtqInfo) (head : Nat) : List Nat :=
  [head, info.next head, info.next (info.next head)]

/-- The request at `hdr` has got the descriptors `d1`, `d2` and `d3`. -/
structure Submitted (hdr d1 d2 d3 : Nat) (s s' : VirtioBlk) : Prop where
  queueSize : s'.info.queueSize = s.info.queueSize
  freeDesc : s'.info.freeDesc = s.info.next d3
  triple : s'.info.triple d1 = [d1, d2, d3]
  chained : Chained s'.info ⟨d1, hdr⟩
  desc : ∀ d, d ≠ d1 → d ≠ d2 → d ≠ d3 → s'.info.virtq.desc d = s.info.virtq.desc d
  virt : ∀ d, d ≠ d1 → d ≠ d2 → d ≠ d3 → s'.info.descVirt d = s.info.descVirt d
  owned : ∀ d, d = d1 ∨ d = d2 ∨ d = d3 → s'.info.descVirt d ≠ 0
  posted : postedHead s s' = some d1

lemma wrap16_succ_ne (x : Nat) : wrap16 (x + 1) ≠ x := by
  unfold wrap16
  omega

/-- The queue when the request at `hdr` has taken the descriptors `d1`, `d2` and `d3`. -/
def VirtqInfo.chain (info : VirtqInfo) (hdr : Nat) (req : Blkreq) (d1 d2 d3 : Nat) : VirtqInfo :=
  let datamode := if req.type = .read then virtqDescFWrite else 0
  let info := (info.take d1 hdr).fill d1 virtioBlkReqHeaderSize virtqDescFNext
  let info := (info.take d2 req.buffer).fill d2 (req.size % 2 ^ 32) (datamode ||| virtqDescFNext)
  let info := (info.take d3 (hdr + virtioBlkReqHeaderSize)).fill d3 virtioBlkReqFooterSize
    virtqDescFWrite
  ((info.link d1 d2).link d2 d3).link d3 0

lemma virtioBlkSubmit_eq {req : Blkreq} (hreq : (s.reqs hdr).blkreq = req)
    (hsize : req.size &&& (virtioBlkSectorSize - 1) = 0) (h1 : s.info.freeDesc = d1)
    (h2 : s.info.next d1 = d2) (h3 : s.info.next d2 = d3) (hlt1 : d1 < s.info.queueSize)
    (hlt2 : d2 < s.info.queueSize) (hlt3 : d3 < s.info.queueSize) :
    ∃ reqs, virtioBlkSubmit hdr s =
        some (virtioBlkSend hdr { s with info := s.info.chain hdr req d1 d2 d3, reqs }) ∧
      (reqs hdr).descriptor = d1 ∧ (reqs hdr).blkreq = req ∧ ∀ a, a ≠ hdr → reqs a = s.reqs a := by
  subst hreq
  rw [virtioBlkSubmit, if_neg (not_not_intro hsize)]
  simp only [VirtioBlk.setReq, virtqAllocDesc_eq _ h1 hlt1, Option.bind_eq_bind, bind_some]
  rw [virtqAllocDesc_eq (s.reqs hdr).blkreq.buffer (d := d2) (by exact h2) (by exact hlt2)]
  simp only [bind_some]
  -- the second descriptor still links to the third, since only its length and flags were written
  rw [virtqAllocDesc_eq (hdr + virtioBlkReqHeaderSize) (d := d3) ?_ (by exact hlt3)]
  refine ⟨_, rfl, ?_, ?_, ?_⟩
  · simp only [update_self]
  · simp only [update_self]
  · intro a ha
    simp only [update_of_ne ha]
  · show ((s.info.take d1 hdr).fill d1 virtioBlkReqHeaderSize virtqDescFNext).next d2 = d3
    rw [fill_next, take_next, h3]

section

variable (info : VirtqInfo) (hdr : Nat) (req : Blkreq) (h12 : d1 ≠ d2) (h13 : d1 ≠ d3) (h23 : d2 ≠ d3)
include h12 h13 h23

lemma chain_desc (d : Nat) : (info.chain hdr req d1 d2 d3).virtq.desc d =
    if d = d1 then ⟨virtToPhys hdr, virtioBlkReqHeaderSize, virtqDescFNext, wrap16 d2⟩
    else if d = d2 then
      ⟨virtToPhys req.buffer, req.size % 2 ^ 32,
        (if req.type = .read then virtqDescFWrite else 0) ||| virtqDescFNext, wrap16 d3⟩
    else if d = d3 then
      ⟨virtToPhys (hdr + virtioBlkReqHeaderSize), virtioBlkReqFooterSize, virtqDescFWrite, 0⟩
    else info.virtq.desc d := by
  simp only [chain, link, fill, setDesc_desc,
    take_desc, h12, h12.symm, h13,
    h13.symm, h23, h23.symm, if_true, if_false]
  by_cases hd1 : d = d1
  · simp only [hd1, h12, h13, if_true, if_false]
  · by_cases hd2 : d = d2
    · simp only [hd2, h12.symm, h23, if_true, if_false]
    · by_cases hd3 : d = d3
      · simp only [hd3, h13.symm, h23.symm, if_true, if_false, wrap16, Nat.zero_mod]
      · simp only [hd1, hd2, hd3, if_false]

lemma chain_descVirt (d : Nat) : (info.chain hdr req d1 d2 d3).descVirt d =
    if d = d1 then hdr else if d = d2 then req.buffer
    else if d = d3 then hdr + virtioBlkReqHeaderSize else info.descVirt d := by
  simp only [chain, link, fill, setDesc_descVirt,
    take_descVirt]
  split_ifs <;> simp_all

end

lemma chain_freeDesc (info : VirtqInfo) (hdr : Nat) (req : Blkreq) (d1 d2 d3 : Nat) :
    (info.chain hdr req d1 d2 d3).freeDesc = info.next d3 := by
  show ((((info.take d1 hdr).fill d1 _ _).take d2 _).fill d2 _ _).next d3 = _
  rw [fill_next, take_next, fill_next, take_next]

lemma virtioBlkSubmit_spec (hhdr : hdr ≠ 0) (hbuffer : (s.reqs hdr).blkreq.buffer ≠ 0)
    (hsize : (s.reqs hdr).blkreq.size &&& (virtioBlkSectorSize - 1) = 0)
    (hq : s.info.queueSize < 2 ^ 16) (h1 : s.info.freeDesc = d1) (h2 : s.info.next d1 = d2)
    (h3 : s.info.next d2 = d3) (hlt1 : d1 < s.info.queueSize) (hlt2 : d2 < s.info.queueSize)
    (hlt3 : d3 < s.info.queueSize) (h12 : d1 ≠ d2) (h13 : d1 ≠ d3) (h23 : d2 ≠ d3) :
    ∃ s', virtioBlkSubmit hdr s = some s' ∧ Submitted hdr d1 d2 d3 s s' := by
  obtain ⟨reqs, hrun, hdesc, _, _⟩ := virtioBlkSubmit_eq rfl hsize h1 h2 h3 hlt1 hlt2 hlt3
  refine ⟨_, hrun, ?_⟩
  have hw1 := wrap16_of_lt (lt_trans hlt1 hq)
  have hw2 := wrap16_of_lt (lt_trans hlt2 hq)
  have hw3 := wrap16_of_lt (lt_trans hlt3 hq)
  have hd := chain_desc s.info hdr (s.reqs hdr).blkreq h12 h13 h23
  have hv := chain_descVirt s.info hdr (s.reqs hdr).blkreq h12 h13 h23
  have hf := chain_freeDesc s.info hdr (s.reqs hdr).blkreq d1 d2 d3
  have hsz : (s.info.chain hdr (s.reqs hdr).blkreq d1 d2 d3).queueSize = s.info.queueSize := rfl
  have hidx : (s.info.chain hdr (s.reqs hdr).blkreq d1 d2 d3).virtq.availIdx = s.info.virtq.availIdx :=
    rfl
  generalize s.info.chain hdr (s.reqs hdr).blkreq d1 d2 d3 = info at hd hv hf hsz hidx
  have e1 := hd d1
  have e2 := hd d2
  have e3 := hd d3
  simp only [h12.symm, h13.symm, h23.symm, if_true, if_false, hw2, hw3] at e1 e2 e3
  refine ⟨hsz, hf, ?_, ⟨?_, ?_, ?_, ?_, ?_, ?_, hhdr⟩, ?_, ?_, ?_, ?_⟩
  · simp only [triple, next, virtioBlkSend, e1, e2]
  · simp only [virtioBlkSend, e1]
    decide
  · simp only [virtioBlkSend, next, e1, e2]
    split_ifs <;> decide
  · simp only [virtioBlkSend, e1]
  · simp only [virtioBlkSend, next, e1, e2, e3]
  · simp only [virtioBlkSend, next, e1, e2, e3]
  · exact (hv d1).trans (if_pos rfl)
  · intro d hd1 hd2 hd3
    exact (hd d).trans (by rw [if_neg hd1, if_neg hd2, if_neg hd3])
  · intro d hd1 hd2 hd3
    exact (hv d).trans (by rw [if_neg hd1, if_neg hd2, if_neg hd3])
  · intro d hmem
    show info.descVirt d ≠ 0
    rw [hv]
    split_ifs with hd1 hd2 hd3
    · exact hhdr
    · exact hbuffer
    · exact Nat.succ_ne_zero _
    · exact absurd hmem (by simp only [hd1, hd2, hd3, or_self, not_false_eq_true])
  · simp only [postedHead, virtioBlkSend, hidx, hsz, update_self, hdesc, hw1]
    rw [if_neg (wrap16_succ_ne _)]

/-- The queue when the descriptors `d1`, `d2` and `d3` are free again. -/
def VirtqInfo.unchain (info : VirtqInfo) (d1 d2 d3 : Nat) : VirtqInfo :=
  ((info.give d1).give d2).give d3

/-- The driver's answer to a used entry for a posted request, whatever status byte it finds. -/
lemma virtioBlkHandleUsed_eq {usedidx : Nat} {p : Posted}
    (hid : (s.info.virtq.usedRing usedidx).id = p.head) (h : Chained s.info p)
    (htriple : s.info.triple p.head = [d1, d2, d3]) (hlt1 : d1 < s.info.queueSize)
    (hlt2 : d2 < s.info.queueSize) (hlt3 : d3 < s.info.queueSize) :
    virtioBlkHandleUsed usedidx s =
      (reportedStatus (s.byte (virtToPhys (p.hdr + virtioBlkReqHeaderSize)))).map fun status =>
        blkdevGeneralEndio p.hdr ({ s with info := s.info.unchain d1 d2 d3 }.setReq p.hdr fun r =>
          { r with blkreq := { r.blkreq with status } }) := by
  obtain ⟨rfl, rfl, rfl⟩ := htriple
  have hlen : ¬((s.info.virtq.desc p.head).len ≠ virtioBlkReqHeaderSize ∨
      (s.info.virtq.desc (s.info.next (s.info.next p.head))).len ≠ virtioBlkReqFooterSize) :=
    not_or.mpr ⟨not_not_intro h.len1, not_not_intro h.len3⟩
  have hdesc : ∀ d, d < s.info.queueSize → s.info.desc? d = some (s.info.virtq.desc d) :=
    fun d hd => if_pos hd
  simp only [virtioBlkHandleUsed, hid, hdesc _ hlt1, Option.bind_eq_bind, bind_some]
  rw [if_neg h.flags1]
  have h2 : s.info.desc? (s.info.virtq.desc p.head).next = some (s.info.virtq.desc (s.info.next p.head)) :=
    hdesc _ hlt2
  rw [h2]
  simp only [bind_some]
  rw [if_neg h.flags2]
  have h3 : s.info.desc? (s.info.virtq.desc (s.info.next p.head)).next =
      some (s.info.virtq.desc (s.info.next (s.info.next p.head))) := hdesc _ hlt3
  rw [h3]
  simp only [bind_some]
  rw [if_neg hlen, virtqFreeDesc_eq hlt1]
  simp only [bind_some]
  rw [virtqFreeDesc_eq (by exact hlt2)]
  simp only [bind_some]
  rw [virtqFreeDesc_eq (by exact hlt3)]
  simp only [bind_some]
  rw [h.virt, if_neg h.hdr]
  cases reportedStatus (s.byte (virtToPhys (p.hdr + virtioBlkReqHeaderSize))) with
  | none => rfl
  | some status => rfl

section

variable (info : VirtqInfo) (h12 : d1 ≠ d2) (h13 : d1 ≠ d3) (h23 : d2 ≠ d3)
include h12 h13 h23

lemma unchain_next (d : Nat) : (info.unchain d1 d2 d3).next d =
    if d = d1 then wrap16 info.freeDesc else if d = d2 then wrap16 d1 else if d = d3 then wrap16 d2
    else info.next d := by
  simp only [unchain, give_next, give_freeDesc]
  by_cases hd1 : d = d1
  · simp only [hd1, h12, h13, if_true, if_false]
  · by_cases hd2 : d = d2
    · simp only [hd2, h12.symm, h23, if_true, if_false]
    · simp only [hd1, hd2, if_false]

omit h12 h13 h23 in
lemma unchain_desc_of_ne {d : Nat} (hd1 : d ≠ d1) (hd2 : d ≠ d2) (hd3 : d ≠ d3) :
    (info.unchain d1 d2 d3).virtq.desc d = info.virtq.desc d := by
  simp only [unchain, give_desc, hd1, hd2, hd3, if_false]

omit h12 h13 h23 in
lemma unchain_descVirt (d : Nat) : (info.unchain d1 d2 d3).descVirt d =
    if d = d1 ∨ d = d2 ∨ d = d3 then 0 else info.descVirt d := by
  simp only [unchain, give_descVirt]
  split_ifs <;> simp_all

end

end

end Hana.Virtio
