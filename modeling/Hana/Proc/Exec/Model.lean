import Hana.Lib.Words
import Hana.Mm.Vm.Copyin
import Hana.Proc.Entry

/-!
# execve

`sys_execve` of `sys_proc.c` with what it uses of `kernel.c`, of the ext4 files and of
`proc.c`: the path is fetched and opened, the headers are read, every `PT_LOAD` segment gets a
block of the allocator, the interpreter is loaded likewise, the strings and pointers of the
arguments are laid out on a new stack page, and the old table is given up for the new one.

The variables on the kernel stack are part of memory: `Locals` holds their addresses, because
`copyin`, `copyinstr` and `kernel_read` write through pointers to them. Objects that only the
kernel knows by name (files, the process) are records. A list of areas is a chain of
`struct vm_area` in memory. `headers` is a log of the reads of ELF headers, with the
destination and the number of bytes.

`goto execve_bad` is the outcome `Flow.bad` of a part of the function. `none` stands for a
stop of the kernel, for a loop that does not end within `fuel`, and for an access that has no
defined result: a request of no bytes or of more than the largest block, the use of an error
pointer as a file, an element behind the end of `argv` or `envp`, and a store through `ustack_p`
that is not in the stack page.
-/

namespace Hana.Exec

open Lib Vm Proc

variable {A : Type}

def maxArgs : Nat := 32

def pathMax : Nat := 128

def maxArgStrlen : Nat := 128

def elfMagic : Nat := 0x464c457f

def ptLoad : Nat := 1

def ptInterp : Nat := 3

def sizeofEhdr : Nat := 64

def sizeofPhdr : Nat := 56

def sizeofExt4File : Nat := 32

def ldBase : Nat := 0x700000000000

/-- The offset of `next` in a `struct vm_area`. -/
def areaNext : Nat := 40

/-! ## ELF headers -/

/-- The fields of an `Elf64_Ehdr` that are used. -/
structure Ehdr where
  magic : Nat
  entry : Nat
  phoff : Nat
  phnum : Nat
deriving DecidableEq

/-- The fields of an `Elf64_Phdr` that are used. -/
structure Phdr where
  type : Nat
  offset : Nat
  vaddr : Nat
  filesz : Nat
  memsz : Nat
deriving DecidableEq

/-- The header that starts at `a`, in memory or in a file. -/
def ehdrAt (f : Nat → Nat) (a : Nat) : Ehdr :=
  ⟨leWord f a 4, leWord f (a + 24) 8, leWord f (a + 32) 8, leWord f (a + 56) 2⟩

def phdrAt (f : Nat → Nat) (a : Nat) : Phdr :=
  ⟨leWord f a 4, leWord f (a + 8) 8, leWord f (a + 16) 8, leWord f (a + 32) 8, leWord f (a + 40) 8⟩

/-! ## Memory -/

/-- `memset(a, 0, n)`, and a variable with the initialiser `{}`. -/
def zeroBytes (a n : Nat) (m : Mem A) : Mem A :=
  { m with byte := fun x => if a ≤ x ∧ x < a + n then 0 else m.byte x }

def storeWord (a v : Nat) (m : Mem A) : Mem A := writeBytes a (leBytes 8 v) m

def kcalloc (E : Env A) (nr sz : Nat) (m : Mem A) : Option (Nat × Mem A) := do
  let (p, m) ← kalloc E (nr * sz) m
  some (p, zeroBytes p (nr * sz) m)

/-- `buddy_alloc` of a size that is computed from the file. -/
def buddyAlloc (E : Env A) (sz : Nat) (m : Mem A) : Option (Nat × Mem A) :=
  if sz = 0 ∨ 4 * 2 ^ 20 < sz then none else kalloc E sz m

/-! ## Files -/

/-- An open file: the addresses of its objects, its contents and `fpos`. -/
structure File where
  addr : Nat
  inode : Nat
  content : List Nat
  fpos : Int

/-- What there is under a path. -/
inductive Lookup
  /-- `get_absolute_path` fails. -/
  | badPath
  /-- There is no mount point. -/
  | noMount
  /-- `openat` fails, that of ext4 or that of devfs. -/
  | cannotOpen (ext4 : Bool)
  /-- There is a file of ext4. -/
  | found (content : List Nat)

/-- `lookup` is given the bytes from the path on; `rcnt` is what the variable of this name happens
to hold in `ext4_read`. -/
structure Fs where
  lookup : (Nat → Nat) → Lookup
  rcnt : Nat

/-- What `kernel_open` returns. -/
inductive FilePtr
  | null
  | error
  | file (f : File)

/-- The addresses of the variables of `sys_execve` on the kernel stack. -/
structure Locals where
  path : Nat
  interpPath : Nat
  elf : Nat
  phdr : Nat
  ldElf : Nat
  argv : Nat
  envp : Nat

structure Kernel (A : Type) where
  env : Env A
  trampoline : Nat
  fs : Fs
  locals : Locals

/-- The registers of the trapframe that `execve` sets. -/
structure Trapframe where
  epc : Nat
  sp : Nat
  a1 : Nat
  a2 : Nat
deriving DecidableEq

/-- The fields of the calling process: `pagetable` is the root behind `p->pagetable` and `users`
its counter, `vmaList` is the pointer to the first area. -/
structure Caller where
  pagetable : Nat
  users : Nat
  trapframe : Nat
  regs : Trapframe
  vmaList : Nat
  sz : Nat
  heapStart : Nat
deriving DecidableEq

/-- `opened` lists the files that are open. -/
structure State (A : Type) where
  proc : Caller
  mem : Mem A
  opened : List Nat

def kernelOpen (K : Kernel A) (path : Nat) (s : State A) : Option (FilePtr × State A) :=
  match K.fs.lookup fun i => s.mem.byte (path + i) with
  | .badPath => some (.error, s)
  | .noMount => some (.null, s)
  | .cannotOpen ext4 => do
    let (file, m) ← kcalloc K.env sizeofFile 1 s.mem
    let (inode, m) ← kcalloc K.env sizeofInode 1 m
    let m ← (if ext4 then (kalloc K.env sizeofExt4File m).map Prod.snd else some m)
    let m ← kfree K.env inode m
    let m ← kfree K.env file m
    some (.null, { s with mem := m })
  | .found content => do
    let (file, m) ← kcalloc K.env sizeofFile 1 s.mem
    let (inode, m) ← kcalloc K.env sizeofInode 1 m
    let (_, m) ← kalloc K.env sizeofExt4File m
    some (.file ⟨file, inode, content, 0⟩, { s with mem := m, opened := file :: s.opened })

/-- `kernel_lseek` with `SEEK_SET`; the new position is passed through an `int`. -/
def kernelLseek (offset : Int) (f : File) : File :=
  if offset < 0 ∨ f.content.length < offset then f
  else
    let ret := toInt32 offset.toNat
    if ret < 0 then f else { f with fpos := ret }

/-- `kernel_read`, with the number of bytes that are written. A read of no bytes leaves `rcnt`
unset, and it is added to the position. -/
def kernelRead (fs : Fs) (buf size : Nat) (f : File) (m : Mem A) : Nat × File × Mem A :=
  if f.fpos < 0 ∨ f.content.length < f.fpos then (0, f, m)
  else if size = 0 then (0, { f with fpos := toInt64 (f.fpos.toNat + fs.rcnt) }, m)
  else
    let pos := f.fpos.toNat
    let n := min size (f.content.length - pos)
    (n, { f with fpos := f.fpos + n }, { m with
      byte := fun x => if buf ≤ x ∧ x < buf + n then f.content.getD (pos + (x - buf)) 0
        else m.byte x })

/-- `kernel_close` of a file with one reference. -/
def kernelClose (K : Kernel A) (f : File) (s : State A) : Option (State A) := do
  let m ← kfree K.env f.inode s.mem
  let m ← kfree K.env f.addr m
  some { s with mem := m, opened := s.opened.erase f.addr }

/-! ## Control flow -/

inductive Flow (A α : Type)
  /-- `goto execve_bad`, or a return of `-1` before there is a table. -/
  | bad (pgtbl : Option Nat) (sz : Nat) (s : State A)
  | next (a : α)

/-- One part of the function after another. -/
def andThen {α β : Type} (x : Option (Flow A α)) (f : α → Option (Flow A β)) :
    Option (Flow A β) :=
  x.bind fun
    | .bad pgtbl sz s => some (.bad pgtbl sz s)
    | .next a => f a

variable {α β : Type} {x : Option (Flow A α)} {f : α → Option (Flow A β)}

lemma andThen_eq_bad
    {pgtbl : Option Nat} {sz : Nat} {s : State A} (h : andThen x f = some (.bad pgtbl sz s)) :
    x = some (.bad pgtbl sz s) ∨ ∃ a, x = some (.next a) ∧ f a = some (.bad pgtbl sz s) := by
  obtain ⟨y, hx, hy⟩ := Option.bind_eq_some_iff.mp h
  cases y with
  | bad pgtbl1 sz1 s1 =>
    cases hy
    exact .inl hx
  | next a => exact .inr ⟨a, hx, hy⟩

lemma andThen_eq_next {b : β}
    (h : andThen x f = some (.next b)) : ∃ a, x = some (.next a) ∧ f a = some (.next b) := by
  obtain ⟨y, hx, hy⟩ := Option.bind_eq_some_iff.mp h
  cases y with
  | bad pgtbl1 sz1 s1 => cases hy
  | next a => exact ⟨a, hx, hy⟩

/-- The variables of `sys_execve` while the image is loaded. -/
structure Vars (A : Type) extends State A where
  file : File
  elf : Ehdr
  pgtbl : Nat
  vma : Nat
  vmaPt : Nat
  sz : Nat
  hasInterp : Bool
  ldEntry : Nat
  headers : List (Nat × Nat)

/-! ## Opening the file -/

/-- From the first read to the loop over the program headers. -/
def readHeader (K : Kernel A) (f : File) (s : State A) : Option (Flow A (Vars A)) :=
  let (n, f, m) := kernelRead K.fs K.locals.elf sizeofEhdr f s.mem
  let elf := ehdrAt m.byte K.locals.elf
  if elf.magic ≠ elfMagic then some (.bad none 0 { s with mem := m })
  else do
    let m := zeroBytes K.locals.phdr sizeofPhdr m
    let (pgtbl, m) ← uvmmake K.env K.trampoline s.proc.trapframe m
    let (vma, m) ← kalloc K.env sizeofVmArea m
    let m := storeWord (vma + areaNext) 0 m
    some (.next {
      proc := { s.proc with vmaList := vma }
      mem := m
      opened := s.opened
      file := f
      elf := elf
      pgtbl := pgtbl
      vma := vma
      vmaPt := 0
      sz := 0
      hasInterp := false
      ldEntry := 0
      headers := [(K.locals.elf, n)] })

/-- The memory when `kernel_open` is called. `copyinstr` returns a `size_t`, so that the test for a
negative result never holds. -/
def fetchPath (K : Kernel A) (upath : Nat) (s : State A) : Option (Mem A) := do
  let m := zeroBytes K.locals.interpPath pathMax s.mem
  let (_, m) ← copyinstr K.env s.proc.pagetable K.locals.path upath pathMax m
  some (zeroBytes K.locals.elf sizeofEhdr m)

def openImage (K : Kernel A) (upath : Nat) (s : State A) : Option (Flow A (Vars A)) :=
  if upath = 0 then some (.bad none 0 s)
  else do
    let m ← fetchPath K upath s
    let (file, s) ← kernelOpen K K.locals.path { s with mem := m }
    match file with
    | .null => some (.bad none 0 s)
    | .error => none
    | .file f => readHeader K f s

/-! ## The segments -/

/-- A program header is read to `phdr`, from the position `off`; `size` is the size that is asked
for. -/
def readPhdr (K : Kernel A) (size : Nat) (off : Int) (v : Vars A) : Vars A :=
  let f := kernelLseek off v.file
  let (n, f, m) := kernelRead K.fs K.locals.phdr size f v.mem
  { v with mem := m, file := f, headers := v.headers ++ [(K.locals.phdr, n)] }

/-- The contents of a segment, or another part of the file. -/
def readPart (K : Kernel A) (buf offset size : Nat) (v : Vars A) : Vars A :=
  let f := kernelLseek (toInt64 offset) v.file
  let (_, f, m) := kernelRead K.fs buf size f v.mem
  { v with mem := m, file := f }

def readInterp (K : Kernel A) (ph : Phdr) (v : Vars A) : Vars A :=
  let v := readPart K K.locals.interpPath ph.offset (wrap64 (ph.filesz + 1)) v
  { v with mem := zeroBytes (K.locals.interpPath + ph.filesz) 1 v.mem, hasInterp := true }

/-- The area of a segment, linked in front of the list. -/
def linkArea (loadStart loadEnd perms : Nat) (v : Vars A) : Vars A :=
  let area := v.vma + sizeofVmArea * v.vmaPt
  let m := writeBytes area (leBytes 8 loadStart ++ leBytes 8 loadEnd ++ leBytes 4 perms) v.mem
  let m := storeWord (area + areaNext) v.proc.vmaList m
  { v with mem := m, proc := { v.proc with vmaList := area }, vmaPt := v.vmaPt + 1 }

def loadPerms : Nat := pteU ||| pteRwx

def loadStart (ph : Phdr) : Nat := pgRoundDown ph.vaddr

def loadEnd (ph : Phdr) : Nat := pgRoundUp (wrap64 (ph.vaddr + ph.memsz + (2 ^ 64 - 1)))

/-- The size of the block for a segment. -/
def loadSize (ph : Phdr) : Nat := wrap64 (loadEnd ph + (2 ^ 64 - loadStart ph))

def loadSegment (K : Kernel A) (ph : Phdr) (v : Vars A) : Option (Vars A) := do
  let loadOff := ph.vaddr - loadStart ph
  let (mem, m) ← buddyAlloc K.env (loadSize ph) v.mem
  let m ← mappages K.env v.pgtbl ph.vaddr mem ph.memsz loadPerms m
  let v := { v with mem := m, sz := max v.sz (loadEnd ph) }
  let v := linkArea (loadStart ph) (loadEnd ph) loadPerms v
  some (readPart K (mem + loadOff) ph.offset ph.filesz v)

/-- One turn of the loop over the program headers. It asks for the size of an `Elf64_Ehdr`. -/
def loadTurn (K : Kernel A) (off : Int) (v : Vars A) : Option (Flow A (Vars A)) :=
  let v := readPhdr K sizeofEhdr off v
  let ph := phdrAt v.mem.byte K.locals.phdr
  if ph.type = ptInterp then some (.next (readInterp K ph v))
  else if ph.type ≠ ptLoad then some (.next v)
  else if ph.memsz < ph.filesz then some (.bad (some v.pgtbl) v.sz v.toState)
  else if wrap64 (ph.vaddr + ph.memsz) < ph.vaddr then some (.bad (some v.pgtbl) v.sz v.toState)
  else (loadSegment K ph v).map .next

/-- `off + sizeof(Elf64_Phdr)`, in an `int`. -/
def nextOff (off : Int) : Int := toInt32 ((off + sizeofPhdr) % (2 ^ 32 : Int)).toNat

def loadLoop (K : Kernel A) : (n : Nat) → (off : Int) → Vars A → Option (Flow A (Vars A))
  | 0, _, v => some (.next v)
  | n + 1, off, v => andThen (loadTurn K off v) (loadLoop K n (nextOff off))

/-! ## The interpreter -/

def ldTurn (K : Kernel A) (off : Int) (v : Vars A) : Option (Vars A) :=
  let v := readPhdr K sizeofPhdr off v
  let ph := phdrAt v.mem.byte K.locals.phdr
  if ph.type ≠ ptLoad then some v
  else do
    let (mem, m) ← buddyAlloc K.env ph.memsz v.mem
    let m ← mappages K.env v.pgtbl (wrap64 (ldBase + ph.vaddr)) mem ph.memsz loadPerms m
    some (readPart K mem ph.offset ph.filesz { v with mem := m })

def ldLoop (K : Kernel A) : (n : Nat) → (off : Int) → Vars A → Option (Vars A)
  | 0, _, v => some v
  | n + 1, off, v => do
    let v ← ldTurn K off v
    ldLoop K n (nextOff off) v

/-- An error pointer passes the test for `NULL`. -/
def loadInterp (K : Kernel A) (v : Vars A) : Option (Flow A (Vars A)) :=
  if v.hasInterp then do
    let m := zeroBytes K.locals.ldElf sizeofEhdr v.mem
    let (file, s) ← kernelOpen K K.locals.interpPath { v.toState with mem := m }
    match file with
    | .null => some (.bad (some v.pgtbl) v.sz s)
    | .error => none
    | .file f =>
      let (n, f, m) := kernelRead K.fs K.locals.ldElf sizeofEhdr f s.mem
      let ldElf := ehdrAt m.byte K.locals.ldElf
      let s := { s with mem := m }
      if ldElf.magic ≠ elfMagic then some (.bad (some v.pgtbl) v.sz s)
      else do
        let v := { v with
          toState := s, file := f, headers := v.headers ++ [(K.locals.ldElf, n)] }
        let v ← ldLoop K ldElf.phnum (toInt32 ldElf.phoff) v
        let s ← kernelClose K v.file v.toState
        some (.next { v with toState := s, ldEntry := wrap64 (ldBase + ldElf.entry) })
  else some (.next v)

/-- From the loop over the program headers to the stack. -/
def loadImage (K : Kernel A) (v : Vars A) : Option (Flow A (Vars A)) :=
  andThen (loadLoop K v.elf.phnum (toInt32 v.elf.phoff) v) fun v => do
    let s ← kernelClose K v.file v.toState
    loadInterp K { v with toState := s }

/-! ## The stack -/

/-- The address of the stack page. -/
def stackVa (v : Vars A) : Nat := wrap64 (pgRoundUp v.sz + pgSize)

/-- The stack page, found again through the table. -/
def mapUserStack (E : Env A) (pgtbl va : Nat) (m : Mem A) : Option (Nat × Mem A) := do
  let (ustack, m) ← kalloc E pgSize m
  let m ← mappages E pgtbl va ustack pgSize (pteU ||| pteRw) m
  let (pte, m) ← walk E pgtbl va false m
  let pte ← pte
  some (pte2pa (m.pte pte), m)

def leaveSpace : Nat := 128

/-- The stack pointer when `used` bytes below the top are used. -/
def stackPtr (stackTop used : Nat) : Nat := wrap64 (stackTop + (2 ^ 64 - used))

/-- A store to the stack page at the stack pointer. -/
def stackStore (ustack used : Nat) (src : List Nat) (m : Mem A) : Option (Mem A) :=
  if used ≤ pgSize then some (writeBytes (ustack + (pgSize - used)) src m) else none

/-- A `memmove` to the stack page. -/
def stackMove (ustack used src n : Nat) (m : Mem A) : Option (Mem A) :=
  if used ≤ pgSize then some (moveBytes (ustack + (pgSize - used)) src n m) else none

/-- The number of elements of the arrays `argv` and `envp`. -/
def argSlots : Nat := maxArgs * 8

/-- `for (argc = 0; argv[argc]; argc++);` with `n` elements of the array to go. -/
def countArgs (m : Mem A) (arr : Nat) : (n i : Nat) → Option Nat
  | 0, _ => none
  | n + 1, i => if leWord m.byte (arr + 8 * i) 8 = 0 then some i else countArgs m arr n (i + 1)

/-- `ALIGN(size, 8)`. -/
def align8 (size : Nat) : Nat := (size + 7) / 8 * 8

/-- The loop that copies the strings behind one another to `mem` and puts their offsets into the
array in place of the pointers; `none` for a string that cannot be copied. -/
def copyStrings (E : Env A) (oldPgtbl mem arr : Nat) :
    (todo i nbytes : Nat) → Mem A → Option (Option Nat × Mem A)
  | 0, _, nbytes, m => some (some nbytes, m)
  | todo + 1, i, nbytes, m => do
    let (size, m) ← copyinstr E oldPgtbl (mem + nbytes) (leWord m.byte (arr + 8 * i) 8)
      maxArgStrlen m
    if toInt32 size < 0 then some (none, m)
    else
      let m := storeWord (arr + 8 * i) nbytes m
      copyStrings E oldPgtbl mem arr todo (i + 1) (nbytes + align8 (toInt32 size).toNat) m

/-- The pointers of `argv` or `envp` are fetched to the array and counted. The result of `copyin` is
not looked at. -/
def fetchArgs (E : Env A) (oldPgtbl uarr arr : Nat) (m : Mem A) : Option (Nat × Mem A) := do
  let (_, m) ← copyin E oldPgtbl arr uarr (maxArgs * 8) m
  let n ← countArgs m arr argSlots 0
  some (n, m)

/-- The strings behind `n` pointers are moved to the stack by way of a block of their own. -/
def moveStrings (E : Env A) (oldPgtbl arr ustack used n : Nat) (m : Mem A) :
    Option (Option Nat × Mem A) := do
  let (mem, m) ← buddyAlloc E (n * maxArgStrlen) m
  let (nbytes, m) ← copyStrings E oldPgtbl mem arr n 0 0 m
  match nbytes with
  | none => do
    let m ← kfree E mem m
    some (none, m)
  | some nbytes => do
    let m ← stackMove ustack (used + nbytes) mem nbytes m
    let m ← kfree E mem m
    some (some (used + nbytes), m)

/-- The strings of `argv` or `envp`: their number and the use of the stack after them, or `none`
for a jump to `execve_bad`. -/
def pushStrings (E : Env A) (oldPgtbl uarr arr ustack used : Nat) (m : Mem A) :
    Option (Option (Nat × Nat) × Mem A) :=
  if uarr = 0 then some (some (0, used), m)
  else do
    let (n, m) ← fetchArgs E oldPgtbl uarr arr m
    let (used, m) ← moveStrings E oldPgtbl arr ustack used n m
    some (used.map fun used => (n, used), m)

/-- `auxv`. -/
def auxv (elf : Ehdr) : List Nat :=
  [3, elf.phoff, 4, sizeofPhdr, 5, elf.phnum, 9, elf.entry, 7, ldBase, 0, 0].flatMap (leBytes 8)

def pushAuxv (hasInterp : Bool) (elf : Ehdr) (ustack used : Nat) (m : Mem A) :
    Option (Nat × Mem A) :=
  if hasInterp then (stackStore ustack (used + 96) (auxv elf) m).map fun m => (used + 96, m)
  else some (used, m)

/-- The pointers to `n` strings, the last one first. -/
def pushPointers (ustack arr str : Nat) : (n used : Nat) → Mem A → Option (Nat × Mem A)
  | 0, used, m => some (used, m)
  | n + 1, used, m => do
    let m ← stackStore ustack (used + 8)
      (leBytes 8 (wrap64 (str + leWord m.byte (arr + 8 * n) 8))) m
    pushPointers ustack arr str n (used + 8) m

/-- The array of `argv` or `envp`, above which a word is left. The result has the address of the
array, which is zero without one. -/
def pushArray (uarr ustack arr str n stackTop used : Nat) (m : Mem A) :
    Option (Nat × Nat × Mem A) :=
  if uarr = 0 then some (0, used, m)
  else do
    let (used, m) ← pushPointers ustack arr str n (used + 8) m
    some (stackPtr stackTop used, used, m)

/-- What the stack page holds when it is complete. -/
structure Stack (A : Type) where
  mem : Mem A
  argc : Nat
  sp : Nat
  pArgv : Nat
  pEnvp : Nat

/-- From the mapping of the stack to the word `argc`. -/
def buildStack (K : Kernel A) (uargv uenvp : Nat) (v : Vars A) : Option (Flow A (Stack A)) := do
  let E := K.env
  let old := v.proc.pagetable
  let stackTop := wrap64 (stackVa v + pgSize)
  let (ustack, m) ← mapUserStack E v.pgtbl (stackVa v) v.mem
  let m := zeroBytes (ustack + (pgSize - leaveSpace)) leaveSpace m
  let (env, m) ← pushStrings E old uenvp K.locals.envp ustack leaveSpace m
  match env with
  | none => some (.bad (some v.pgtbl) stackTop { v.toState with mem := m })
  | some (envc, envUsed) => do
    let (args, m) ← pushStrings E old uargv K.locals.argv ustack envUsed m
    match args with
    | none => some (.bad (some v.pgtbl) stackTop { v.toState with mem := m })
    | some (argc, argUsed) => do
      let (used, m) ← pushAuxv v.hasInterp v.elf ustack argUsed m
      let (pEnvp, used, m) ← pushArray uenvp ustack K.locals.envp (stackPtr stackTop envUsed) envc
        stackTop (used + 8) m
      let (pArgv, used, m) ← pushArray uargv ustack K.locals.argv (stackPtr stackTop argUsed) argc
        stackTop used m
      let m ← stackStore ustack (used + 8) (leBytes 8 argc) m
      some (.next ⟨m, argc, stackPtr stackTop (used + 8), pArgv, pEnvp⟩)

/-! ## The end of the call -/

/-- The areas of the list that starts at `p`. -/
def readAreas (m : Mem A) : (fuel p : Nat) → Option (List VmArea)
  | 0, p => if p = 0 then some [] else none
  | fuel + 1, p =>
    if p = 0 then some []
    else do
      let vmas ← readAreas m fuel (leWord m.byte (p + areaNext) 8)
      some (⟨leWord m.byte p 8, leWord m.byte (p + 8) 8, leWord m.byte (p + 16) 4⟩ :: vmas)

/-- `proc_free_pagetable`, which goes along the list that `p->vma_list` has by now. -/
def procFreePagetable (E : Env A) (fuel : Nat) (p : Caller) (m : Mem A) : Option (Mem A) :=
  if 1 < p.users then some m
  else do
    let m ← uvmunmap E p.pagetable trapframeVa 1 true m
    let m ← uvmunmap E p.pagetable trampolineVa 1 false m
    let vmas ← readAreas m fuel p.vmaList
    uvmfreeVma E p.pagetable vmas m

inductive Result (A : Type)
  /-- The call returns `-1`. `image` is the table of the new image, with the memory at that time. -/
  | fails (image : Option (Nat × Mem A)) (s : State A)
  /-- The call returns `argc`. -/
  | runs (argc : Nat) (headers : List (Nat × Nat)) (s : State A)

/-- The process enters the new image. -/
def enterImage (K : Kernel A) (fuel : Nat) (v : Vars A) (st : Stack A) : Option (Result A) := do
  let m ← procFreePagetable K.env fuel v.proc st.mem
  let (_, m) ← kalloc K.env sizeofUpagetable m
  let entrypoint := if v.hasInterp then v.ldEntry else v.elf.entry
  let stackTop := wrap64 (stackVa v + pgSize)
  some (.runs st.argc v.headers { v.toState with
    mem := m
    proc := { v.proc with
      pagetable := v.pgtbl
      users := 1
      sz := stackTop
      heapStart := stackTop
      regs := ⟨wrap64 (entrypoint + (2 ^ 64 - 4)), st.sp, st.pArgv, st.pEnvp⟩ } })

/-- The code behind the label `execve_bad`. -/
def execveBad (E : Env A) (pgtbl : Option Nat) (sz : Nat) (s : State A) : Option (State A) :=
  match pgtbl with
  | none => some s
  | some pgtbl => do
    let m ← uvmfree E pgtbl sz s.mem
    let m ← freewalk E 1 pgtbl m
    some { s with mem := m }

/-- Everything up to the stack. -/
def prepare (K : Kernel A) (upath : Nat) (s : State A) : Option (Flow A (Vars A)) :=
  andThen (openImage K upath s) (loadImage K)

def sysExecve (K : Kernel A) (fuel upath uargv uenvp : Nat) (s : State A) : Option (Result A) :=
  (andThen (prepare K upath s) fun v =>
    andThen (buildStack K uargv uenvp v) fun st => some (.next (v, st))).bind fun
    | .bad pgtbl sz s => do
      let s' ← execveBad K.env pgtbl sz s
      some (.fails (pgtbl.map fun r => (r, s.mem)) s')
    | .next (v, st) => enterImage K fuel v st

/-! ## A small caller -/

/-- The variables, in a kernel stack that starts at `stack`. -/
def localsAt (stack : Nat) : Locals :=
  ⟨stack, stack + 128, stack + 256, stack + 320, stack + 384, stack + 512, stack + 2560⟩

/-- A process with one page of the user at `0x1000`, which holds the bytes `src`. -/
def bootCaller (users : Nat) (fs : Fs) (src : List Nat) :
    Option (Kernel Buddy.Pool × State Buddy.Pool) := do
  let (E, s) ← bootKernel
  let (r, m) ← allocPagetable E s.mem
  let (p, m) ← kalloc E pgSize m
  let m ← mappages E r 0x1000 p pgSize (pteU ||| pteRw) m
  let m := writeBytes p src m
  let (stack, m) ← kalloc E kstackSize m
  let (trapframe, m) ← kalloc E sizeofTrapframe m
  some (⟨E, 0x80200000, fs, localsAt stack⟩,
    ⟨⟨r, users, trapframe, ⟨0, 0, 0, 0⟩, 0, 0x2000, 0x2000⟩, m, []⟩)

def Phdr.bytes (ph : Phdr) : List Nat :=
  leBytes 4 ph.type ++ leBytes 4 0 ++ leBytes 8 ph.offset ++ leBytes 8 ph.vaddr ++ leBytes 8 0 ++
    leBytes 8 ph.filesz ++ leBytes 8 ph.memsz ++ leBytes 8 0

/-- An ELF file that consists of its headers, with the entry point `entry`. -/
def elfFile (entry : Nat) (phs : List Phdr) : List Nat :=
  leBytes 8 elfMagic ++ leBytes 16 0 ++ leBytes 8 entry ++ leBytes 8 sizeofEhdr ++ leBytes 16 0 ++
    leBytes 2 phs.length ++ leBytes 6 0 ++ phs.flatMap Phdr.bytes

end Hana.Exec
