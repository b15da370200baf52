import Hana.Fs.Block
import Hana.Tools.Kfifo

/-!
# What `read` delivers

`sys_read` copies as many bytes to the user as the operation of the file returns, and returns by how
much the operation has moved `fpos`. The four operations are those of pipes, of the tty and of block
devices in devfs, and of ext4. The buffer that they fill is zeroed by `kcalloc`; a byte of it that
they have not stored is `none`.
-/

namespace Hana.Read

open Hana.Fifo List

structure Outcome where
  ret : Int
  stored : Nat → Option UInt8
  offset : Int

/-- `pipe_read`; the FIFO is absent when it or its lock is a null pointer. -/
def pipeRead (fifo : Option Kfifo) (size : Nat) (offset : Int) : Outcome :=
  match fifo with
  | none => ⟨-1, fun _ => none, offset⟩
  | some fifo =>
    let (rcnt, stored, _) := kfifoGet fifo (size % 2 ^ 32)
    ⟨rcnt, stored, offset + rcnt⟩

/-- The result of `getchar` in a `char`, which is signed or not. -/
def toChar (signed : Bool) (c : Int) : Int := if signed then (c + 128) % 256 - 128 else c % 256

/-- The loop of `tty_read`: how many characters it stores. -/
def ttyCount (signed : Bool) (getchar : Nat → Int) : Nat → Nat → Nat
  | 0, nrRead => nrRead
  | n + 1, nrRead =>
    if toChar signed (getchar nrRead) = -1 then nrRead else ttyCount signed getchar n (nrRead + 1)

/-- `tty_read` -/
def ttyRead (signed : Bool) (getchar : Nat → Int) (size : Nat) (offset : Int) : Outcome :=
  let nrRead := ttyCount signed getchar size 0
  ⟨nrRead, fun k => if k < nrRead then some (UInt8.ofNat ((getchar k % 256).toNat)) else none,
    offset + nrRead⟩

/-- `block_read` in its own terms. -/
def blockRead (D : Block.Device) (avail : Nat) (io : Block.Io) (size : Nat) (offset : Int) : Outcome :=
  let (ret, offset, io) := Block.blockRead D avail size offset { io with buffer := fun _ => none }
  ⟨ret, io.buffer, offset⟩

/-- `ext4_read`: whether `ext4_fseek` succeeds, and the bytes that `ext4_fread` stores and counts. -/
def ext4Read (seek : Bool) (fread : Option (List UInt8)) (offset : Int) : Outcome :=
  match seek, fread with
  | true, some data => ⟨data.length, fun k => data[k]?, offset + data.length⟩
  | _, _ => ⟨-1, fun _ => none, offset⟩

/-- An open file, with the state of what it reads from. -/
inductive Source
  | pipe (fifo : Option Kfifo)
  | tty (signed : Bool) (getchar : Nat → Int)
  | block (D : Block.Device) (avail : Nat) (io : Block.Io)
  | ext4 (seek : Bool) (fread : Option (List UInt8))

def Source.read : Source → Nat → Int → Outcome
  | .pipe fifo, size, offset => pipeRead fifo size offset
  | .tty signed getchar, size, offset => ttyRead signed getchar size offset
  | .block D avail io, size, offset => blockRead D avail io size offset
  | .ext4 seek fread, _, offset => ext4Read seek fread offset

structure File where
  source : Source
  fpos : Int
  wronly : Bool

/-- `sys_read`: the value returned, and the bytes that have been copied to the user. `alloc` and
`copied` say whether the kernel buffer could be allocated and copied. -/
def sysRead (file : Option File) (count : Nat) (alloc copied : Bool) : Int × (Nat → Option UInt8) :=
  if count = 0 then (0, fun _ => none)
  else if alloc = false then (-1, fun _ => none)
  else match file with
    | none => (-1, fun _ => none)
    | some file =>
      if file.wronly then (-1, fun _ => none)
      else
        let o := file.source.read count file.fpos
        if o.ret < 0 then (-1, fun _ => none)
        else if copied = false then (-1, fun _ => none)
        else (o.offset - file.fpos, fun k => if (k : Int) < o.ret then some ((o.stored k).getD 0) else none)

/-- An operation that returns `r ≥ 0` has stored exactly `r` bytes and moved the offset by `r`. -/
def Delivers (source : Source) (size : Nat) (offset : Int) : Prop :=
  let o := source.read size offset
  0 ≤ o.ret → (∀ k : Nat, (o.stored k).isSome ↔ (k : Int) < o.ret) ∧ o.offset = offset + o.ret

/-- When `sys_read` returns `n > 0`, the first `n` bytes of the user's buffer are those that the
operation has stored. -/
def SysDelivers (file : File) (count : Nat) : Prop :=
  ∀ alloc copied, 0 < (sysRead (some file) count alloc copied).1 → ∀ k : Nat,
    (k : Int) < (sysRead (some file) count alloc copied).1 →
      ∃ byte, (file.source.read count file.fpos).stored k = some byte ∧
        (sysRead (some file) count alloc copied).2 k = some byte

/-- A request on the list of the device, or one of the first `cnt` that the operation submits, does
not succeed. -/
def RequestFails (D : Block.Device) (io : Block.Io) (cnt : Nat) : Prop :=
  ∃ id, (id ∈ io.rqList ∨ io.next ≤ id ∧ id < io.next + cnt) ∧
    if (io.next ≤ id ∧ id < io.next + cnt) ∨ (io.request id).status = .init then D.err id = true
    else (io.request id).status = .err

/-- Every file but a block device; and a block device if nothing is read from it, or if the reading
fails. -/
def Faithful : Source → Nat → Prop
  | .block D avail io, size => size = 0 ∨ avail < Block.blkCnt size io.sectorSize ∨
      RequestFails D io (min (Block.blkCnt size io.sectorSize) avail)
  | _, _ => True

section

variable {size : Nat} {offset : Int}

lemma delivers_pipe (fifo : Option Kfifo) : Delivers (.pipe fifo) size offset := by
  intro hret
  cases fifo with
  | none => exact absurd hret (by decide : ¬ (0 : Int) ≤ -1)
  | some fifo =>
    exact ⟨fun k => (kfifoGet_stored fifo (size % 2 ^ 32) k).trans Int.ofNat_lt.symm, rfl⟩

lemma delivers_tty (signed : Bool) (getchar : Nat → Int) :
    Delivers (.tty signed getchar) size offset := by
  intro _
  refine ⟨fun k => Iff.trans ?_ Int.ofNat_lt.symm, rfl⟩
  show Option.isSome (if k < ttyCount signed getchar size 0 then _ else none) ↔ _
  split
  next hk => exact iff_of_true rfl hk
  next hk => exact iff_of_false Bool.false_ne_true hk

lemma delivers_ext4 (seek : Bool) (fread : Option (List UInt8)) :
    Delivers (.ext4 seek fread) size offset := by
  intro hret
  cases seek with
  | false => exact absurd hret (by decide : ¬ (0 : Int) ≤ -1)
  | true =>
    cases fread with
    | none => exact absurd hret (by decide : ¬ (0 : Int) ≤ -1)
    | some data =>
      refine ⟨fun k => Iff.trans ?_ Int.ofNat_lt.symm, rfl⟩
      show (data[k]?).isSome ↔ _
      by_cases hk : k < data.length
      · exact iff_of_true (by rw [List.getElem?_eq_getElem hk]; rfl) hk
      · exact iff_of_false (by rw [List.getElem?_eq_none (not_lt.mp hk)]; exact Bool.false_ne_true) hk

/-! ## Block devices -/

/-- `blkdev_wait_all` counts a request exactly when there is one that does not succeed. -/
lemma waitAll_ne_zero_iff {D : Block.Device} {io io' : Block.Io} {k : Nat}
    (h : Block.Issued io io' k) : (Block.blkdevWaitAll D io').1 ≠ 0 ↔ RequestFails D io k := by
  have hcount : (Block.blkdevWaitAll D io').1 ≠ 0 ↔ ∃ id ∈ io'.rqList,
      ((Block.complete D io').request id).status ≠ .ok := by
    rw [Block.blkdevWaitAll, Ne, length_eq_zero_iff, filter_eq_nil_iff,
      (Block.complete_rqList D io').1]
    simp
  rw [hcount, RequestFails]
  refine exists_congr fun id => ?_
  rw [h.rqList, mem_append, mem_reverse, mem_range'_1, or_comm]
  refine and_congr_right fun hid => ?_
  rw [Block.complete_status]
  have hstatus := h.status id
  by_cases hnew : io.next ≤ id ∧ id < io.next + k
  · rw [if_pos hnew] at hstatus
    have hpending : id ∈ Block.pending io' := by
      refine mem_filter.mpr ⟨?_, by rw [hstatus]; rfl⟩
      rw [h.rqList, mem_append, mem_reverse, mem_range'_1]
      exact .inl hnew
    rw [if_pos hpending, if_pos (Or.inl hnew)]
    cases D.err id <;> simp
  · rw [if_neg hnew] at hstatus
    have hold : id ∈ io'.rqList := by
      rw [h.rqList]
      exact mem_append.mpr (.inr (hid.resolve_right hnew))
    have hpending : id ∈ Block.pending io' ↔ (io.request id).status = .init := by
      rw [Block.pending, mem_filter, hstatus]
      simp [hold]
    by_cases hinit : (io.request id).status = .init
    · rw [if_pos (hpending.mpr hinit), if_pos (Or.inr hinit)]
      cases D.err id <;> simp
    · rw [if_neg (mt hpending.mp hinit), if_neg (by simp [hnew, hinit]), hstatus]
      cases hs : (io.request id).status with
      | init => exact absurd hs hinit
      | ok => simp
      | err => simp

/-- `block_read` of some bytes moves the offset by all of them, and returns zero unless it fails. -/
lemma blockRead_result (D : Block.Device) (avail : Nat) (io : Block.Io) (offset : Int)
    (hsize : size ≠ 0) :
    (blockRead D avail io size offset).offset = offset + size ∧
      (avail < Block.blkCnt size io.sectorSize ∨
          RequestFails D io (min (Block.blkCnt size io.sectorSize) avail) →
        (blockRead D avail io size offset).ret = -1) ∧
      (¬ (avail < Block.blkCnt size io.sectorSize ∨
          RequestFails D io (min (Block.blkCnt size io.sectorSize) avail)) →
        (blockRead D avail io size offset).ret = 0) := by
  obtain ⟨hissued, hfailed⟩ : Block.Issued { io with buffer := fun _ => none }
        (Block.issueReads avail size offset { io with buffer := fun _ => none }).2.2
        (min (Block.blkCnt size io.sectorSize) (avail - 0)) ∧
      (Block.issueReads avail size offset { io with buffer := fun _ => none }).1 =
        decide (avail < 0 + Block.blkCnt size io.sectorSize) :=
    Block.issue_issued (fun _ => Block.sameList_clearBounce) _ 0 0 _ (Nat.zero_le _)
  have hsame : Block.SameList io { io with buffer := fun _ => none } := ⟨rfl, fun _ => rfl, rfl⟩
  have hnr := waitAll_ne_zero_iff (D := D) (Block.Issued.of_sameList hsame hissued)
  rw [zero_add] at hfailed
  simp only [blockRead, Block.blockRead, if_neg hsize]
  refine ⟨trivial, fun hfail => if_pos ?_, fun hfine => if_neg ?_⟩
  · rw [Bool.or_eq_true, hfailed, decide_eq_true_iff, bne_iff_ne, hnr]
    exact hfail
  · rw [Bool.or_eq_true, hfailed, decide_eq_true_iff, bne_iff_ne, hnr]
    exact hfine

lemma delivers_block_iff (D : Block.Device) (avail : Nat) (io : Block.Io) :
    Delivers (.block D avail io) size offset ↔ Faithful (.block D avail io) size := by
  by_cases hsize : size = 0
  · refine iff_of_true (fun _ => ?_) (.inl hsize)
    have hread : Source.read (.block D avail io) size offset = ⟨0, fun _ => none, offset⟩ := by
      simp [Source.read, blockRead, Block.blockRead, hsize]
    rw [hread]
    refine ⟨fun k => iff_of_false Bool.false_ne_true ?_, (Int.add_zero offset).symm⟩
    exact Int.not_lt.mpr (Int.natCast_nonneg k)
  · obtain ⟨hoffset, hfails, hfine⟩ := blockRead_result D avail io offset hsize
    by_cases hfail : avail < Block.blkCnt size io.sectorSize ∨
        RequestFails D io (min (Block.blkCnt size io.sectorSize) avail)
    · refine iff_of_true (fun hret => ?_) (.inr hfail)
      have hneg : 0 ≤ (blockRead D avail io size offset).ret := hret
      rw [hfails hfail] at hneg
      exact absurd hneg (by decide)
    · refine iff_of_false (fun hdel => ?_) fun hc => hc.elim hsize hfail
      have hzero : (blockRead D avail io size offset).ret = 0 := hfine hfail
      have hmoved := (hdel (Int.le_of_eq hzero.symm)).2
      have hmoved' : offset + size = offset + 0 := hoffset.symm.trans (hmoved.trans (by rw [← hzero]; rfl))
      omega

/-! ## The system call -/

lemma sysDelivers_of_delivers {file : File} {count : Nat} (h : Delivers file.source count file.fpos) :
    SysDelivers file count := by
  intro alloc copied
  unfold sysRead
  split
  · exact fun hpos => absurd hpos (Int.lt_irrefl 0)
  split
  · exact fun hpos => absurd hpos (by decide)
  split
  next => exact fun hpos => absurd hpos (by decide)
  next file' heq =>
    cases heq
    split
    · exact fun hpos => absurd hpos (by decide)
    dsimp only
    split
    · exact fun hpos => absurd hpos (by decide)
    next hret =>
      split
      · exact fun hpos => absurd hpos (by decide)
      · obtain ⟨hstored, hoffset⟩ := h (Int.not_lt.mp hret)
        intro hpos k hk
        have hlt : (k : Int) < (file.source.read count file.fpos).ret := by omega
        obtain ⟨byte, hbyte⟩ := Option.isSome_iff_exists.mp ((hstored k).mpr hlt)
        refine ⟨byte, hbyte, (if_pos hlt).trans ?_⟩
        rw [hbyte]
        rfl

end

/-- Reading delivers what it reports, from every kind of file, exactly when the file is not a block
device from which something is read with success. -/
theorem read_delivers_iff (file : File) (count : Nat) :
    (Delivers file.source count file.fpos ∧ SysDelivers file count) ↔ Faithful file.source count := by
  have hop : Delivers file.source count file.fpos ↔ Faithful file.source count := by
    cases hsource : file.source with
    | pipe fifo => exact iff_of_true (delivers_pipe fifo) trivial
    | tty signed getchar => exact iff_of_true (delivers_tty signed getchar) trivial
    | block D avail io => exact delivers_block_iff D avail io
    | ext4 seek fread => exact iff_of_true (delivers_ext4 seek fread) trivial
  rw [← hop]
  exact ⟨And.left, fun h => ⟨h, sysDelivers_of_delivers h⟩⟩

/-- Reading 512 bytes from a disk: the operation returns zero, and `sys_read` returns 512 without
having copied anything. -/
theorem read_block_empty :
    (Source.read (.block (Block.firstFails false) 8 Block.newDisk) 512 0).ret = 0 ∧
    (Source.read (.block (Block.firstFails false) 8 Block.newDisk) 512 0).offset = 512 ∧
    (sysRead (some ⟨.block (Block.firstFails false) 8 Block.newDisk, 0, false⟩) 512 true true).1 = 512 ∧
    (sysRead (some ⟨.block (Block.firstFails false) 8 Block.newDisk, 0, false⟩) 512 true true).2 0 = none := by
  decide

/-! ## Characters of the tty -/

/-- `uart_getc`: a look at the UART finds a byte, or nothing. -/
def uartGetc : Option UInt8 → Int
  | some byte => byte.toNat
  | none => -1

/-- `tty_read` on the UART; the `char` of RISC-V is unsigned. -/
def ttyReadUart (polls : Nat → Option UInt8) (size : Nat) (offset : Int) : Outcome :=
  ttyRead false (fun i => uartGetc (polls i)) size offset

/-- What is stored are the bytes that the looks of the call have found. A call that stores less than
`size` has looked once more. -/
def Receives (polls : Nat → Option UInt8) (size : Nat) (o : Outcome) : Prop :=
  ∃ n : Nat, o.ret = n ∧
    (List.range n).map o.stored = ((List.range (min (n + 1) size)).filterMap polls).map some

/-- An unsigned character is never `-1`, so the loop does not stop early. -/
lemma ttyCount_unsigned (getchar : Nat → Int) (n nrRead : Nat) :
    ttyCount false getchar n nrRead = nrRead + n := by
  induction n generalizing nrRead with
  | zero => rfl
  | succ n ih =>
    have hne : toChar false (getchar nrRead) ≠ -1 := by
      change getchar nrRead % 256 ≠ -1
      omega
    rw [ttyCount, if_neg hne, ih]
    omega

/-- `tty_read` returns the characters that were received exactly when one is there at every look. -/
theorem ttyRead_receives_iff (polls : Nat → Option UInt8) (size : Nat) (offset : Int) :
    Receives polls size (ttyReadUart polls size offset) ↔ ∀ i < size, (polls i).isSome := by
  have hcount : ttyCount false (fun i => uartGetc (polls i)) size 0 = size := by
    rw [ttyCount_unsigned, zero_add]
  have hret : (ttyReadUart polls size offset).ret = size := congrArg Nat.cast hcount
  have hmin : min (size + 1) size = size := Nat.min_eq_right (Nat.le_succ size)
  constructor
  · rintro ⟨n, hn, hbytes⟩ i hi
    obtain rfl : size = n := Int.ofNat_inj.mp (hret.symm.trans hn)
    have hlen := congrArg length hbytes
    rw [hmin, length_map, length_map, eq_comm] at hlen
    exact filterMap_length_eq_length.mp hlen i (mem_range.mpr hi)
  · intro hall
    refine ⟨size, hret, ?_⟩
    have hsome : ∀ i, i < size → polls i = some ((polls i).getD 0) := fun i hi => by
      obtain ⟨byte, hbyte⟩ := Option.isSome_iff_exists.mp (hall i hi)
      rw [hbyte]
      rfl
    have hmap : (range size).filterMap polls = (range size).map fun i => (polls i).getD 0 := by
      rw [← filterMap_eq_map]
      exact filterMap_congr fun i hi => hsome i (mem_range.mp hi)
    rw [hmin, hmap, map_map]
    refine map_congr_left fun i hi => ?_
    have hi := mem_range.mp hi
    refine (if_pos (by rwa [hcount])).trans ?_
    obtain ⟨byte, hbyte⟩ := Option.isSome_iff_exists.mp (hall i hi)
    have hlt := byte.toNat_lt
    have hmod : ((byte.toNat : Int) % 256).toNat = byte.toNat := by omega
    simp only [hbyte, uartGetc, hmod, Function.comp, Option.getD_some, UInt8.ofNat_toNat]

/-- From an idle UART `tty_read` gets the character 255. -/
theorem ttyRead_stores_nothing : (ttyReadUart (fun _ => none) 1 0).ret = 1 ∧
    (ttyReadUart (fun _ => none) 1 0).stored 0 = some 255 := by
  decide

end Hana.Read
