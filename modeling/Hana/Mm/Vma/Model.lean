import Hana.Lib.Run
import Hana.Mm.Vm.Model

/-!
# Areas of the user space

The lists of areas that `proc_init`, `execve`, `clone`, `mmap` and `munmap` build and change
with their own pointer assignments. An area is a `struct vm_area` at the address that
`kalloc` returned for it, and the null pointer is zero; `KALLOC` does not clear the page, so
an operation that makes an area is given what the page held before. Of the page tables only
the entries that `do_munmap` reads are used here; tables and frames are allocated by
`kalloc`, which can be called at any time.

The loops follow `next` as the source does and need not end: they get a bound `fuel` on the
number of their turns, and a call returns when it does so for some bound.
-/

namespace Hana.Vma

open Function Vm

variable {A : Type}

structure Area where
  start : Nat
  end_ : Nat
  prot : Nat
  flags : Nat
  file : Nat
  offset : Nat
  next : Nat
  prev : Nat
deriving DecidableEq, Repr

/-- An area without its links. -/
def Area.fields (a : Area) : Area := { a with next := 0, prev := 0 }

/-- The contents of a page that was cleared. -/
def zeroArea : Area := ⟨0, 0, 0, 0, 0, 0, 0, 0⟩

def sizeofVmArea : Nat := 64

structure Process where
  pagetable : Nat
  sz : Nat
  vmaList : Nat
  mmapBase : Nat
  mmapBrk : Nat
  /-- The files of the open descriptors. -/
  fdt : Nat → Nat

/-- The memory, the areas by their addresses, the processes by their numbers, the counters,
positions and sizes of the files, and the pages that were written back: the file, the position and
the physical address of the page. -/
structure State (A : Type) where
  mem : Mem A
  area : Nat → Area
  proc : Nat → Option Process
  nextPid : Nat
  fRef : Nat → Int
  fpos : Nat → Nat
  fsize : Nat → Nat
  written : List (Nat × Nat × Nat)
  /-- The write operation of the file comes back from a page at this address. -/
  takes : Nat → Nat → Bool

/-- What the state says about files. -/
def State.files (s : State A) : (Nat → Int) × (Nat → Nat) × (Nat → Nat) × List (Nat × Nat × Nat) :=
  (s.fRef, s.fpos, s.fsize, s.written)

def State.setArea (s : State A) (a : Nat) (v : Area) : State A :=
  { s with area := update s.area a v }

/-- `a->start = v`. -/
def State.setStart (s : State A) (a v : Nat) : State A := s.setArea a { s.area a with start := v }

/-- `a->end = v`. -/
def State.setEnd (s : State A) (a v : Nat) : State A := s.setArea a { s.area a with end_ := v }

/-- `a->next = v`. -/
def State.setNext (s : State A) (a v : Nat) : State A := s.setArea a { s.area a with next := v }

/-- `if (a) a->prev = v`. -/
def State.setPrev (s : State A) (a v : Nat) : State A :=
  if a ≠ 0 then s.setArea a { s.area a with prev := v } else s

def State.setProc (s : State A) (pid : Nat) (p : Process) : State A :=
  { s with proc := update s.proc pid (some p) }

section

variable (s : State A) (a v x : Nat)

/-- A part of the areas that the new value of one area keeps. -/
lemma State.setArea_kept {B : Type} (f : Area → B) {a x : Nat} {w : Area} (h : f w = f (s.area a)) :
    f ((s.setArea a w).area x) = f (s.area x) := by
  simp only [setArea, update_apply]
  split_ifs with hx
  · rw [hx, h]
  · rfl

@[simp] lemma State.setStart_next : ((s.setStart a v).area x).next = (s.area x).next :=
  s.setArea_kept (·.next) rfl

@[simp] lemma State.setStart_prev : ((s.setStart a v).area x).prev = (s.area x).prev :=
  s.setArea_kept (·.prev) rfl

lemma State.setStart_fields : ((s.setStart a v).area x).fields =
    if x = a then { (s.area a).fields with start := v } else (s.area x).fields := by
  simp only [setStart, setArea, update_apply]
  split_ifs
  · rfl
  · rfl

@[simp] lemma State.setStart_files : (s.setStart a v).files = s.files := rfl

@[simp] lemma State.setStart_mem : (s.setStart a v).mem = s.mem := rfl

@[simp] lemma State.setStart_proc : (s.setStart a v).proc = s.proc := rfl

@[simp] lemma State.setStart_nextPid : (s.setStart a v).nextPid = s.nextPid := rfl

lemma State.setStart_of_ne {x : Nat} (h : x ≠ a) : (s.setStart a v).area x = s.area x :=
  update_of_ne h _ _

@[simp] lemma State.setEnd_next : ((s.setEnd a v).area x).next = (s.area x).next :=
  s.setArea_kept (·.next) rfl

@[simp] lemma State.setEnd_prev : ((s.setEnd a v).area x).prev = (s.area x).prev :=
  s.setArea_kept (·.prev) rfl

lemma State.setEnd_fields : ((s.setEnd a v).area x).fields =
    if x = a then { (s.area a).fields with end_ := v } else (s.area x).fields := by
  simp only [setEnd, setArea, update_apply]
  split_ifs
  · rfl
  · rfl

@[simp] lemma State.setEnd_files : (s.setEnd a v).files = s.files := rfl

@[simp] lemma State.setEnd_mem : (s.setEnd a v).mem = s.mem := rfl

@[simp] lemma State.setEnd_proc : (s.setEnd a v).proc = s.proc := rfl

@[simp] lemma State.setEnd_nextPid : (s.setEnd a v).nextPid = s.nextPid := rfl

lemma State.setEnd_of_ne {x : Nat} (h : x ≠ a) : (s.setEnd a v).area x = s.area x :=
  update_of_ne h _ _

@[simp] lemma State.setNext_next :
    ((s.setNext a v).area x).next = if x = a then v else (s.area x).next := by
  simp only [setNext, setArea, update_apply]
  split_ifs
  · rfl
  · rfl

@[simp] lemma State.setNext_prev : ((s.setNext a v).area x).prev = (s.area x).prev :=
  s.setArea_kept (·.prev) rfl

@[simp] lemma State.setNext_fields : ((s.setNext a v).area x).fields = (s.area x).fields :=
  s.setArea_kept Area.fields rfl

@[simp] lemma State.setNext_files : (s.setNext a v).files = s.files := rfl

@[simp] lemma State.setNext_mem : (s.setNext a v).mem = s.mem := rfl

@[simp] lemma State.setNext_proc : (s.setNext a v).proc = s.proc := rfl

@[simp] lemma State.setNext_nextPid : (s.setNext a v).nextPid = s.nextPid := rfl

lemma State.setNext_of_ne {x : Nat} (h : x ≠ a) : (s.setNext a v).area x = s.area x :=
  update_of_ne h _ _

lemma State.setPrev_eq : s.setPrev a v = { s with area := (s.setPrev a v).area } := by
  unfold setPrev
  split_ifs
  · rfl
  · rfl

@[simp] lemma State.setPrev_prev :
    ((s.setPrev a v).area x).prev = if x = a ∧ a ≠ 0 then v else (s.area x).prev := by
  unfold setPrev
  by_cases ha : a = 0
  · simp [ha]
  · simp only [ne_eq, ha, not_false_eq_true, if_true, and_true, setArea, update_apply]
    split_ifs
    · rfl
    · rfl

@[simp] lemma State.setPrev_next : ((s.setPrev a v).area x).next = (s.area x).next := by
  unfold setPrev
  split_ifs
  · exact s.setArea_kept (·.next) rfl
  · rfl

@[simp] lemma State.setPrev_fields : ((s.setPrev a v).area x).fields = (s.area x).fields := by
  unfold setPrev
  split_ifs
  · exact s.setArea_kept Area.fields rfl
  · rfl

@[simp] lemma State.setPrev_files : (s.setPrev a v).files = s.files :=
  congrArg (·.files) (s.setPrev_eq a v)

@[simp] lemma State.setPrev_mem : (s.setPrev a v).mem = s.mem :=
  congrArg (·.mem) (s.setPrev_eq a v)

@[simp] lemma State.setPrev_proc : (s.setPrev a v).proc = s.proc :=
  congrArg (·.proc) (s.setPrev_eq a v)

@[simp] lemma State.setPrev_nextPid : (s.setPrev a v).nextPid = s.nextPid :=
  congrArg (·.nextPid) (s.setPrev_eq a v)

lemma State.setPrev_of_ne {x : Nat} (h : x ≠ a) : (s.setPrev a v).area x = s.area x := by
  unfold setPrev setArea
  split_ifs
  · exact update_of_ne h _ _
  · rfl

end

/-- `KALLOC(struct vm_area, vma)`, with the contents of the page. -/
def kallocArea (E : Env A) (page : Area) (s : State A) : Option (Nat × State A) := do
  let (vma, m) ← kalloc E sizeofVmArea s.mem
  some (vma, { s with mem := m, area := update s.area vma page })

/-! ## New processes -/

def mmapBase : Nat := 0x800000000

def mmapInitSize : Nat := 0x40000000

def mmapExpand : Nat := 0x40000000

/-- The part of `alloc_proc` that is about areas. -/
def allocProc (s : State A) : Nat × Process × State A :=
  (s.nextPid, ⟨0, 0, 0, mmapBase, mmapBase + mmapInitSize, fun _ => 0⟩,
    { s with nextPid := s.nextPid + 1 })

/-- `proc_init`; `pagetable` is what `uvminit` returned. -/
def procInit (E : Env A) (pagetable : Nat) (s : State A) : Option (State A) := do
  let (pid, p, s) := allocProc s
  let sz := 18 * pgSize
  let (vma, s) ← kallocArea E zeroArea s
  let s := s.setArea vma
    { s.area vma with start := 0, end_ := sz, prot := pteRwx ||| pteU, next := vma, prev := vma }
  some (s.setProc pid { p with pagetable, sz, vmaList := vma })

def cloneVm : Nat := 0x100

/-- The loop of `clone` that copies the areas: `vma` is the next one to copy and `list` the list of
the child. -/
def copyAreas (E : Env A) : (fuel vma list : Nat) → State A → Option (Nat × State A)
  | 0, _, _, _ => none
  | fuel + 1, vma, list, s =>
    if vma = 0 then some (list, s)
    else do
      let (newVma, s) ← kallocArea E (s.area vma) s
      let s := (s.setNext newVma list).setPrev list newVma
      copyAreas E fuel (s.area vma).next newVma s

/-- The part of `clone` that is about areas; without `CLONE_VM` it is that of `fork`, too.
`cpgtbl` is the table that the child gets in that case. -/
def sysClone (E : Env A) (fuel pid flags cpgtbl : Nat) (s : State A) :
    Option (Nat × State A) := do
  let proc ← s.proc pid
  let (cpid, child, s) := allocProc s
  if flags &&& cloneVm ≠ 0 then do
    let (list, s) ← copyAreas E fuel proc.vmaList 0 s
    some (cpid, s.setProc cpid { child with
      pagetable := proc.pagetable
      sz := proc.sz
      vmaList := list
      mmapBase := proc.mmapBase
      mmapBrk := proc.mmapBrk
      fdt := proc.fdt })
  else
    some (cpid, s.setProc cpid { child with
      pagetable := cpgtbl
      sz := proc.sz
      fdt := proc.fdt })

/-! ## execve -/

structure Phdr where
  pType : Nat
  pVaddr : Nat
  pFilesz : Nat
  pMemsz : Nat
deriving DecidableEq, Repr

def ptLoad : Nat := 1

/-- The loop over the program headers: `i` is `vma_pt` and `list` is `p->vma_list`. A header that
fails its checks ends the loop. -/
def loadAreas (E : Env A) (vma : Nat) :
    (phdrs : List Phdr) → (i list : Nat) → State A → Option (Nat × State A)
  | [], _, list, s => some (list, s)
  | phdr :: phdrs, i, list, s =>
    if phdr.pType ≠ ptLoad then loadAreas E vma phdrs i list s
    else if phdr.pMemsz < phdr.pFilesz ∨ wrap64 (phdr.pVaddr + phdr.pMemsz) < phdr.pVaddr then
      some (list, s)
    else do
      let loadStart := pgRoundDown phdr.pVaddr
      let loadEnd := pgRoundUp (wrap64 (phdr.pVaddr + phdr.pMemsz + (2 ^ 64 - 1)))
      let (_, m) ← kalloc E (wrap64 (loadEnd + (2 ^ 64 - loadStart))) s.mem
      let s := { s with mem := m }
      let a := vma + sizeofVmArea * i
      let s := s.setArea a
        { s.area a with start := loadStart, end_ := loadEnd, prot := pteU ||| pteRwx, next := list }
      loadAreas E vma phdrs (i + 1) a s

/-- The part of `execve` that is about areas, once the file is found to be a program. In the end the
process gets the table and the size `space`, unless the call fails on the way;
`proc_free_pagetable` walks over the new list before that. -/
def sysExecve (E : Env A) (pid : Nat) (phdrs : List Phdr) (page : Area) (space : Option (Nat × Nat))
    (s : State A) : Option (State A) := do
  let p ← s.proc pid
  let (vma, s) ← kallocArea E page s
  let s := s.setNext vma 0
  let (list, s) ← loadAreas E vma phdrs 0 vma s
  let (pagetable, sz) := space.getD (p.pagetable, p.sz)
  some (s.setProc pid { p with pagetable, sz, vmaList := list })

/-! ## Searching the list -/

def findVma (area : Nat → Area) (va : Nat) : (fuel vma : Nat) → Option Nat
  | 0, _ => none
  | fuel + 1, vma =>
    if vma = 0 then some 0
    else if (area vma).start ≤ va ∧ va < (area vma).end_ then some vma
    else findVma area va fuel (area vma).next

/-- The loop of `find_free_vma_range`; the second part of the result is true if it returns from
the middle of the list. -/
def findHint (area : Nat → Area) (length : Nat) : (fuel vma hint : Nat) → Option (Nat × Bool)
  | 0, _, _ => none
  | fuel + 1, vma, hint =>
    if vma = 0 then some (hint, false)
    else if wrap64 (hint + length) ≤ (area vma).start then some (hint, true)
    else findHint area length fuel (area vma).next (wrap64 ((area vma).end_ + (2 ^ 64 - length)))

/-- `find_free_vma_range`, with the process after it. -/
def findFreeVmaRange (area : Nat → Area) (fuel : Nat) (p : Process) (length : Nat) :
    Option (Nat × Process) := do
  let (hint, found) ← findHint area length fuel p.vmaList (wrap64 (p.mmapBrk + (2 ^ 64 - length)))
  if !found && decide (hint < p.mmapBase) then
    some (0, { p with mmapBrk := wrap64 (p.mmapBrk + max length mmapExpand) })
  else some (hint, p)

/-! ## mmap and munmap -/

def mapShared : Nat := 0x01

def mapPrivate : Nat := 0x02

def mapFixed : Nat := 0x10

def mapAnonymous : Nat := 0x20

def nrOpen : Nat := 1024

structure MmapArgs where
  addr : Nat
  length : Nat
  prot : Nat
  flags : Nat
  fd : Int
  offset : Nat

def fileGet (file : Nat) (s : State A) : State A :=
  { s with fRef := update s.fRef file (s.fRef file + 1) }

/-- `IS_STDSTREAM`; the static files `f_stdin`, `f_stdout` and `f_stderr` have the numbers 1 to 3. -/
def isStdstream (file : Nat) : Bool := file == 1 || file == 2 || file == 3

/-- `file_put`, as far as the counter goes. -/
def filePut (file : Nat) (s : State A) : State A :=
  if isStdstream file then s else { s with fRef := update s.fRef file (s.fRef file - 1) }

/-- `kernel_lseek` with `SEEK_SET` on an ext4 file. The new position goes through an `int`, and the
position stays if the file is shorter. -/
def kernelLseek (file offset : Nat) (s : State A) : State A :=
  let ret : Int := if 2 ^ 63 ≤ offset ∨ s.fsize file < offset then -1 else toInt32 offset
  if ret < 0 then s else { s with fpos := update s.fpos file ret.toNat }

/-- `kernel_write` of the page at `buf`. A terminal or a pipe loads it through the page table of the
kernel, which has no pages of the user, and the kernel stops; an ext4 file has the device read the
physical page at `buf`, and here the device takes all of it. -/
def kernelWrite (file buf : Nat) (s : State A) : Option (State A) :=
  if !s.takes file buf then none
  else if s.fsize file < s.fpos file then some s
  else some { s with
    written := s.written ++ [(file, s.fpos file, buf)]
    fpos := update s.fpos file (s.fpos file + pgSize)
    fsize := update s.fsize file (max (s.fsize file) (s.fpos file + pgSize)) }

/-- Where `mmap` puts the area, if it does not fail. -/
def mmapVa (fuel : Nat) (args : MmapArgs) (length : Nat) (p : Process) (s : State A) :
    Option (Option Nat × Process) :=
  if args.flags &&& mapFixed ≠ 0 then
    some (if isPgAligned args.addr then some args.addr else none, p)
  else do
    let (va, p) ← findFreeVmaRange s.area fuel p length
    some (if va ≠ 0 then some va else none, p)

/-- The last assignments of `mmap`. -/
def linkArea (pid : Nat) (p : Process) (vma : Nat) (s : State A) : State A :=
  let s := (s.setNext vma p.vmaList).setPrev p.vmaList vma
  s.setProc pid { p with vmaList := vma }

def sysMmap (E : Env A) (fuel pid : Nat) (args : MmapArgs) (page : Area) (s : State A) :
    Option (Int × State A) := do
  let p ← s.proc pid
  if args.length = 0 ∨ !isPgAligned args.offset then some (-1, s)
  else do
    let length := pgRoundUp args.length
    let (va, p) ← mmapVa fuel args length p s
    let s := s.setProc pid p
    match va with
    | none => some (-1, s)
    | some va => do
      let (vma, s) ← kallocArea E page s
      let s := s.setArea vma { s.area vma with
        start := va
        end_ := wrap64 (va + length)
        prot := args.prot
        flags := args.flags
        offset := args.offset }
      if args.flags &&& mapAnonymous ≠ 0 then
        let s := s.setArea vma { s.area vma with file := 0 }
        some (0, linkArea pid p vma s)
      else if args.fd < 0 ∨ (nrOpen : Int) ≤ args.fd then some (-1, s)
      else
        let file := p.fdt args.fd.toNat
        let s := s.setArea vma { s.area vma with file := file }
        if file = 0 then some (-1, s)
        else some (0, linkArea pid p vma (fileGet file s))

/-- The loop of `do_munmap` that writes dirty pages back; it dereferences what `walk` returns, and the
file, and passes the address of the user to `kernel_write`. -/
def writeBack (E : Env A) (pagetable : Nat) (vma : Area) (unmapEnd : Nat) :
    (fuel a : Nat) → State A → Option (State A)
  | 0, _, _ => none
  | fuel + 1, a, s =>
    if a < unmapEnd then do
      let (pte, m) ← walk E pagetable a false s.mem
      let pte ← pte
      let s := { s with mem := m }
      let s ← (if has (m.pte pte) pteD then
        if vma.file = 0 then none
        else kernelWrite vma.file a
          (kernelLseek vma.file (wrap64 (vma.offset + (a - vma.start))) s)
        else some s)
      writeBack E pagetable vma unmapEnd fuel (wrap64 (a + pgSize)) s
    else some s

/-- The removal of an area from its list; the second branch writes to the area behind it without
a test. -/
def unlinkArea (pid : Nat) (p : Process) (vma : Nat) (s : State A) : Option (State A) :=
  let prev := (s.area vma).prev
  if prev ≠ 0 then
    let s := s.setNext prev (s.area vma).next
    some (s.setPrev (s.area vma).next (s.area vma).prev)
  else
    let next := (s.area vma).next
    let s := s.setProc pid { p with vmaList := next }
    if next = 0 then none else some (s.setPrev next 0)

/-- The new area of `do_munmap` for the upper part when the middle of an area is unmapped. -/
def splitArea (E : Env A) (vma unmapStart unmapEnd : Nat) (s : State A) : Option (State A) := do
  let (newVma, s) ← kallocArea E (s.area vma) s
  let s := (s.setStart newVma unmapEnd).setEnd vma unmapStart
  let s := s.setNext newVma (s.area vma).next
  let s := s.setNext vma newVma
  let s := s.setPrev (s.area newVma).next newVma
  some (s.setPrev newVma vma)

def doMunmap (E : Env A) (fuel pid addr length : Nat) (s : State A) : Option (Int × State A) := do
  let p ← s.proc pid
  let va := pgRoundDown addr
  let length := pgRoundUp length
  if length = 0 then some (-1, s)
  else do
    let vma ← findVma s.area va fuel p.vmaList
    if vma = 0 then some (-1, s)
    else do
      let a := s.area vma
      let unmapStart := max va a.start
      let unmapEnd := min (wrap64 (va + length)) a.end_
      let unmapLen := wrap64 (unmapEnd + (2 ^ 64 - unmapStart))
      let s ← (if a.flags &&& mapShared ≠ 0 ∧ a.flags &&& mapPrivate = 0 then
        writeBack E p.pagetable a unmapEnd fuel unmapStart s else some s)
      let m ← uvmunmap E p.pagetable unmapStart (unmapLen >>> pgShift) true s.mem
      let s := { s with mem := m }
      if unmapStart = a.start ∧ unmapEnd = a.end_ then do
        let s ← unlinkArea pid p vma s
        let file := (s.area vma).file
        let s := if file ≠ 0 then filePut file s else s
        let m ← kfree E vma s.mem
        some (0, { s with mem := m })
      else if unmapStart = a.start then some (0, s.setStart vma unmapEnd)
      else if unmapEnd = a.end_ then some (0, s.setEnd vma unmapStart)
      else do
        let s ← splitArea E vma unmapStart unmapEnd s
        some (0, s)

/-! ## Page faults -/

def protRead : Nat := 1

def protWrite : Nat := 2

def protExec : Nat := 4

def loadAccessFault : Nat := 5

def storeAmoAccessFault : Nat := 7

/-- The permissions that `page_unmap_handler` gives a page of the area. -/
def faultPerm (vma : Area) : Nat :=
  let perm := pteU ||| (if vma.prot &&& protRead ≠ 0 then pteR else 0) |||
    (if vma.prot &&& protExec ≠ 0 then pteX else 0) ||| (if vma.prot &&& protWrite ≠ 0 then pteW else 0)
  if vma.flags &&& mapPrivate ≠ 0 then (perm &&& complement pteW) ||| pteCow
  else if vma.flags &&& mapShared ≠ 0 then perm ||| pteG
  else perm

/-- `memset(mem, 0, PGSIZE)`. -/
def zeroFrame (mem : Nat) (m : Mem A) : Mem A :=
  { m with byte := fun x => if mem ≤ x ∧ x < mem + pgSize then 0 else m.byte x }

/-- `page_unmap_handler`; the first part of the result is true if it kills the process. The second
`CHECK` asks for both causes at once, as in the source. -/
def pageUnmapHandler (E : Env A) (fuel pid badv scause : Nat) (s : State A) :
    Option (Bool × State A) := do
  let p ← s.proc pid
  let va := pgRoundDown badv
  let vma ← findVma s.area va fuel p.vmaList
  let a := s.area vma
  if vma = 0 then some (true, s)
  else if ¬ ((scause = storeAmoAccessFault ∧ a.prot &&& protWrite ≠ 0) ∧
      (scause = loadAccessFault ∧ a.prot &&& protRead ≠ 0)) then some (true, s)
  else do
    let (mem, m) ← kalloc E pgSize s.mem
    let s := { s with mem := zeroFrame mem m }
    let s := if a.file ≠ 0 then filePut a.file s else s
    let m ← mappages E p.pagetable va mem pgSize (faultPerm a) s.mem
    some (false, { s with mem := m })

/-! ## Runs -/

/-- The system calls; `kalloc` stands for the other allocations of the kernel. -/
inductive Call where
  | kalloc (sz : Nat)
  | execve (pid : Nat) (phdrs : List Phdr) (page : Area) (space : Option (Nat × Nat))
  | clone (pid flags cpgtbl : Nat)
  | mmap (pid : Nat) (args : MmapArgs) (page : Area)
  | munmap (pid addr length : Nat)

def step (E : Env A) (s : State A) : Call → State A → Prop
  | .kalloc sz, s' => 0 < sz ∧ sz ≤ 4 * 2 ^ 20 ∧ ∃ p m, kalloc E sz s.mem = some (p, m) ∧
      s' = { s with mem := m }
  | .execve pid phdrs page space, s' => sysExecve E pid phdrs page space s = some s'
  | .clone pid flags cpgtbl, s' => ∃ fuel cpid, sysClone E fuel pid flags cpgtbl s = some (cpid, s')
  | .mmap pid args page, s' => ∃ fuel res, sysMmap E fuel pid args page s = some (res, s')
  | .munmap pid addr length, s' => ∃ fuel res, doMunmap E fuel pid addr length s = some (res, s')

end Hana.Vma
