import Hana.Lib.Run
import Hana.Fs.File

/-!
# Pipes behind descriptor tables

`kernel/fs/pipe.c` with the system calls that create, copy and close its files. A pipe is shared
by the files of its two ends and has a count of its own; `pipe_close`, the close operation of
these files, gives it up. The table of a process is the one of `Hana.Fs.File`, run on a view of
the process's table and the files of the kernel, and the calls of a close operation that
`fd_free` asks for are performed afterwards. `fdt_dup` copies every `struct file` of a table byte
by byte, and its inode: if there is none, as for the ends of a pipe, it loads from the null pointer.

The addresses of new objects are arguments: an allocation returns one that is not in use. `none`
stands for a stopped kernel, as in `Hana.Fs.File`.
-/

namespace Hana.Pipes

open Function Lib Hana.File

/-- A `struct files_struct`. -/
structure Table where
  fd : Nat → Option FilePtr
  nextFd : Nat
  nrAvailFd : Nat
  locked : Bool

/-- A `struct pipe`; `kfifo` says whether its buffer is allocated. -/
structure Pipe where
  ref : Int
  kfifo : Bool
  live : Bool
  deriving Repr, DecidableEq

/-- The processes, their tables, the files with `f_private` of those that belong to a pipe, and the
pipes. -/
structure Sys where
  pids : List Nat
  table : Nat → Table
  ref : FilePtr → Int
  inode : FilePtr → Bool
  live : FilePtr → Bool
  log : List File.Event
  priv : FilePtr → Option Nat
  pipe : Nat → Pipe

namespace Sys

/-- The table of a process and the files, as the functions on tables see them. -/
def view (s : Sys) (pid : Nat) : Files where
  fd := (s.table pid).fd
  nextFd := (s.table pid).nextFd
  nrAvailFd := (s.table pid).nrAvailFd
  locked := (s.table pid).locked
  ref := s.ref
  inode := s.inode
  live := s.live
  log := s.log

def put (s : Sys) (pid : Nat) (st : Files) : Sys :=
  { s with
    table := update s.table pid ⟨st.fd, st.nextFd, st.nrAvailFd, st.locked⟩
    ref := st.ref
    inode := st.inode
    live := st.live
    log := st.log }

end Sys

/-- `pipe_init`, when the buffer of the pipe could be allocated. -/
def pipeInit (rfile wfile : FilePtr) (p : Nat) (s : Sys) : Sys :=
  { s with
    ref := update (update s.ref rfile 0) wfile 0
    inode := update (update s.inode rfile false) wfile false
    live := update (update s.live rfile true) wfile true
    priv := update (update s.priv rfile (some p)) wfile (some p)
    pipe := update s.pipe p ⟨2, true, true⟩ }

/-- A pipe after one of its files has been closed. -/
def Pipe.drop (q : Pipe) : Pipe :=
  let ref := q.ref - 1
  if ref = 0 then { ref, kfifo := false, live := false } else { q with ref }

/-- `pipe_free` -/
def pipeFree (p : Nat) (s : Sys) : Sys :=
  { s with pipe := update s.pipe p (s.pipe p).drop }

/-- The close operation of a file: `pipe_close` for the end of a pipe. -/
def closeOp (f : FilePtr) (s : Sys) : Sys :=
  match s.priv f with
  | none => s
  | some p =>
    let s := pipeFree p s
    { s with priv := update s.priv f none }

/-- The close operations among the calls that were asked for. -/
def performCloses (evs : List File.Event) (s : Sys) : Sys :=
  evs.foldl (fun s ev => match ev with
    | .close f => closeOp f s
    | _ => s) s

/-- `fd_free`, with the result of the close operation of a file that belongs to no pipe. -/
def fdFree (pid : Nat) (fd closeRet : Int) (s : Sys) : Option Sys := do
  let file := if 0 ≤ fd ∧ fd < nrOpen then (s.table pid).fd fd.toNat else none
  let ret := if (file.bind s.priv).isSome then 0 else closeRet
  let st ← File.fdFree fd ret (s.view pid)
  some (performCloses (st.log.drop s.log.length) (s.put pid st))

/-- `kfree` of a file. -/
def kfreeFile (f : FilePtr) (s : Sys) : Sys :=
  { s with live := update s.live f false, log := s.log ++ [.kfree f] }

/-- The error path `out_pipe` of `pipe2`. -/
def outPipe (rfile wfile : FilePtr) (p : Nat) (s : Sys) : Sys :=
  kfreeFile rfile (kfreeFile wfile (pipeFree p (pipeFree p s)))

/-- `sys_pipe2` with the two files and the pipe at new addresses. Its error path reads `pipefd[0]`
from the user's array; `pipefd0` is what it finds there, and `none` a fault. -/
def sysPipe2 (pid r w p : Nat) (pipefd0 : Option Int) (s : Sys) : Option Sys := do
  let rfile := FilePtr.heap r
  let wfile := FilePtr.heap w
  let s := pipeInit rfile wfile p s
  let (fd0, st) ← fdAlloc (some rfile) (s.view pid)
  let s := s.put pid st
  if fd0 < 0 then
    some (outPipe rfile wfile p s)
  else
    let (fd1, st) ← fdAlloc (some wfile) (s.view pid)
    let s := s.put pid st
    if fd1 < 0 then
      let s ← fdFree pid (← pipefd0) 0 s
      some (outPipe rfile wfile p s)
    else
      some s

/-- `sys_dup` and `sys_dup3` -/
def sysDup (pid oldFd : Nat) (newFd : Option Nat) (s : Sys) : Option Sys := do
  let (_, st) ← fdClone oldFd newFd (s.view pid)
  some (s.put pid st)

/-- `sys_close` -/
def sysClose (pid : Nat) (fd closeRet : Int) (s : Sys) : Option Sys :=
  if fd < 0 ∨ (nrOpen : Int) ≤ fd then some s
  else if (s.table pid).locked then none
  else if (s.table pid).fd fd.toNat = none then some s
  else fdFree pid fd closeRet s

/-- `memdup` of a `struct file` and of its inode. -/
def dupFile (f g : FilePtr) (s : Sys) : Sys :=
  { s with
    ref := update s.ref g (s.ref f)
    inode := update s.inode g true
    live := update s.live g true
    priv := update s.priv g (s.priv f) }

/-- One turn of the loop of `fdt_dup`; `addr` gives the address of each new file. -/
def dupSlot (fdt : Nat → Option FilePtr) (addr : Nat → Nat)
    (x : (Nat → Option FilePtr) × Sys) (fd : Nat) : Option ((Nat → Option FilePtr) × Sys) :=
  match fdt fd with
  | none => some x
  | some f =>
    if x.2.inode f then
      some (update x.1 fd (some (.heap (addr fd))), dupFile f (.heap (addr fd)) x.2)
    else none

/-- `fdt_dup` for the table of a new process. -/
def fdtDup (pid child : Nat) (addr : Nat → Nat) (s : Sys) : Option Sys :=
  let t := s.table pid
  if t.locked then none
  else do
    let (fd, s) ← (List.range nrOpen).foldlM (dupSlot t.fd addr) (fun _ => none, s)
    some { s with
      pids := child :: s.pids
      table := update s.table child ⟨fd, t.nextFd, t.nrAvailFd, false⟩ }

inductive Event where
  | pipe2 (pid r w p : Nat) (pipefd0 : Option Int)
  | dup (pid oldFd : Nat) (newFd : Option Nat)
  | fork (pid child : Nat) (addr : Nat → Nat)
  | close (pid : Nat) (fd closeRet : Int)

/-- The addresses an allocation may return. -/
def fresh (s : Sys) : Event → Bool
  | .pipe2 _ r w p _ =>
    r != w && !s.live (.heap r) && !s.live (.heap w) && !(s.pipe p).live
  | .dup _ _ _ => true
  | .fork pid child addr =>
    decide (child ∉ s.pids) && (List.range nrOpen).all fun i =>
      ((s.table pid).fd i).isNone || !s.live (.heap (addr i)) && (List.range nrOpen).all fun j =>
        i == j || ((s.table pid).fd j).isNone || addr i != addr j
  | .close _ _ _ => true

/-- The process that makes a system call. -/
def Event.pid : Event → Nat
  | .pipe2 pid _ _ _ _ | .dup pid _ _ | .fork pid _ _ | .close pid _ _ => pid

/-- Descriptors are in range, as for `fd_clone` in `Hana.Fs.File`. -/
def inRange : Event → Bool
  | .dup _ oldFd newFd => decide (oldFd < nrOpen) && newFd.all fun n => decide (n < nrOpen)
  | _ => true

def step (s : Sys) (e : Event) : Option Sys :=
  if e.pid ∈ s.pids ∧ inRange e = true ∧ fresh s e = true then
    match e with
    | .pipe2 pid r w p pipefd0 => sysPipe2 pid r w p pipefd0 s
    | .dup pid oldFd newFd => sysDup pid oldFd newFd s
    | .fork pid child addr => fdtDup pid child addr s
    | .close pid fd closeRet => sysClose pid fd closeRet s
  else
    none

end Hana.Pipes
