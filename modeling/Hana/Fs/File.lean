import Mathlib.Data.Nat.Bitwise
import Mathlib.Logic.Function.Basic

/-!
# Descriptor tables and open files

`kernel/fs/file.c`: the descriptor table of a process, with `fd_alloc`, `fd_clone` and
`fd_free`, and the reference count of a `struct file`, with `file_get` and `file_put`. A
`struct file` is known by its address; `live` says whether it is allocated. The close
operation of the file system is outside this code: `file_put` takes its result as an
argument. Calls of the close operation and of `kfree` are logged.

The table's lock is a spinlock of the only CPU, so taking it while it is held stops the
kernel: the functions return `none` there and where an `assert` fails. Two error paths
return with the lock held.
-/

namespace Hana.File

open Function

def nrOpen : Nat := 1024

/-- A pointer to a `struct file`: one of the three static streams, or an allocated one. -/
inductive FilePtr where
  | stdin
  | stdout
  | stderr
  | heap (addr : Nat)
deriving DecidableEq, Repr

/-- `IS_STDSTREAM`. -/
def isStdstream : FilePtr → Bool
  | .heap _ => false
  | _ => true

/-- What `file_put` asks for outside of this code. -/
inductive Event where
  | close (f : FilePtr)
  | kfreeInode (f : FilePtr)
  | kfree (f : FilePtr)
deriving DecidableEq, Repr

/-- The table (`fd`, `nextFd`, `nrAvailFd`, `locked`) and the files it can point to. -/
structure Files where
  fd : Nat → Option FilePtr
  nextFd : Nat
  nrAvailFd : Nat
  locked : Bool
  ref : FilePtr → Int
  inode : FilePtr → Bool
  live : FilePtr → Bool
  log : List Event

def acquire (st : Files) : Option Files :=
  if st.locked then none else some { st with locked := true }

def release (st : Files) : Files := { st with locked := false }

def findAvailFd (st : Files) : Files :=
  if st.nrAvailFd = 0 then { st with nextFd := nrOpen }
  else
    { st with nextFd := ((List.range nrOpen).find? fun fd => (st.fd fd).isNone).getD nrOpen }

def fileGet (f : FilePtr) (st : Files) : Files :=
  { st with ref := update st.ref f (st.ref f + 1) }

def filePut (f : FilePtr) (closeRet : Int) (st : Files) : Int × Files :=
  if isStdstream f then (-1, st)
  else
    let ret := st.ref f - 1
    let st := { st with ref := update st.ref f ret }
    if ret = 0 then
      let st := { st with log := st.log ++ [.close f] }
      if closeRet < 0 then (-1, st)
      else
        let st := if st.inode f then { st with log := st.log ++ [.kfreeInode f] } else st
        (0, { st with live := update st.live f false, log := st.log ++ [.kfree f] })
    else (ret, st)

/-- The part of `file_init` that the table depends on, on a newly allocated file that will
have an inode or not. -/
def fileInit (f : FilePtr) (inode : Bool) (st : Files) : Files :=
  { st with
    ref := update st.ref f 0
    inode := update st.inode f inode
    live := update st.live f true }

/-- The table after `fdt_init`. -/
def fdtInit : Files where
  fd := fun i => match i with
    | 0 => some .stdin
    | 1 => some .stdout
    | 2 => some .stderr
    | _ => none
  nextFd := 3
  nrAvailFd := nrOpen - 3
  locked := false
  ref := fun f => if isStdstream f then 1 else 0
  inode := fun _ => false
  live := fun f => isStdstream f
  log := []

def fdAlloc (file : Option FilePtr) (st : Files) : Option (Int × Files) :=
  match file with
  | none => some (-1, st)
  | some f => do
    let st ← acquire st
    let fd := st.nextFd
    if nrOpen ≤ fd then some (-1, st)
    else if (st.fd fd).isSome then none
    else
      let st := findAvailFd { st with fd := update st.fd fd (some f) }
      let st := { st with nrAvailFd := (st.nrAvailFd + (2 ^ 32 - 1)) % 2 ^ 32 }
      some (fd, release (fileGet f st))

def fdFree (fd : Int) (closeRet : Int) (st : Files) : Option Files :=
  if fd < 0 ∨ (nrOpen : Int) ≤ fd then some st
  else do
    let st ← acquire st
    match st.fd fd.toNat with
    | none => some (release st)
    | some f =>
      let st := (filePut f closeRet st).2
      let st := { st with
        fd := update st.fd fd.toNat none
        nrAvailFd := (st.nrAvailFd + 1) % 2 ^ 32 }
      some (release (findAvailFd st))

/-- Whether the pointer read at `fd[i]` is not `NULL`. Behind the array lie `next_fd` and
`nr_avail_fd`, which `fd_clone` reads as a pointer when the table is full. -/
def slotUsed (st : Files) (i : Nat) : Bool :=
  if i < nrOpen then (st.fd i).isSome else st.nextFd != 0 || st.nrAvailFd != 0

/-- The descriptor that `fd_clone` writes; `none` stands for the argument `-1`. -/
def cloneTarget (newFd : Option Nat) (st : Files) : Nat := newFd.getD st.nextFd

/-- `fd_clone`, for descriptors in range. -/
def fdClone (oldFd : Nat) (newFd : Option Nat) (st : Files) : Option (Int × Files) := do
  let st ← acquire st
  let newFd := cloneTarget newFd st
  if (st.fd oldFd).isNone || slotUsed st newFd then some (-1, st)
  else
    let st := findAvailFd { st with fd := update st.fd newFd (st.fd oldFd) }
    some (newFd, release st)

end Hana.File
