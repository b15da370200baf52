import Mathlib.Data.List.Basic
import Hana.Lib.Run
import Hana.Proc.Wait

/-!
# The scheduler on one CPU

Processes that sleep, yield, nap and exit, the interrupt flag with its nesting count, and the
passes of `scheduler` over the list of processes. `swtch` does not save the interrupt flag: a
process that gets the CPU back has the flag of the scheduler until `sleep` or the return from the
trap sets it.

A process in the kernel is a system call or an exception, perhaps in `sleep`, perhaps interrupted
by traps on top of that. A system call is any sequence of the operations below. The panics of
`sched` are recorded in `fault`, and `sched` blocks all the same.
-/

namespace Hana.Sched

open Lib Hana.Wait

inductive Mode
  /-- A process that has not run yet, on its way to `dive_to_user`. -/
  | fresh
  | user
  /-- A timer interrupt from user mode. -/
  | trap
  | kernel
deriving DecidableEq, Repr

/-- What is on the kernel stack above a system call and its `sleep`. -/
inductive Frame
  /-- An interrupt in the kernel. -/
  | trap
  /-- `swtch` in `sched`, with the value of `intena`. -/
  | sched (intena : Bool)
  /-- Just before the call of `sched`. -/
  | toSched
deriving DecidableEq, Repr

/-- A process with the channel and the `int_status` of the `sleep` that it is in, and the number
of spinlocks that its system call has taken and not given back. -/
structure Proc where
  state : ProcState
  chan : Nat
  sleepingDue : Nat
  killed : Bool
  mode : Mode
  inSleep : Option (Nat × Bool)
  stack : List Frame
  locks : Nat
deriving DecidableEq, Repr

/-- `procList` is the list of processes and `rest` the part of it that the pass has not come to. -/
structure Sys where
  proc : Nat → Proc
  procList : List Nat
  rest : List Nat
  cur : Option Nat
  intr : Bool
  noff : Nat
  intena : Bool
  tickCounter : Nat
  fault : Bool

/-- The `-1` of `sleeping_due`. -/
def noDue : Nat := 2 ^ 64 - 1

def msPerTick : Int := 10

/-- `sleeping_due` in `nanosleep`, if the call sleeps. -/
def napDue (tick : Nat) (tvSec tvNsec : Int) : Option Nat :=
  if tvSec < 0 ∨ tvNsec < 0 ∨ 999999999 < tvNsec then none
  else
    let tMs := Int.bmod (tvSec * 1000 + tvNsec / 1000000) (2 ^ 64)
    let tMs := if tvNsec % 1000000 ≠ 0 then Int.bmod (tMs + 1) (2 ^ 64) else tMs
    if tMs ≤ 0 then none
    else some (((tick + (tMs - 1) / msPerTick + 1) % 2 ^ 64).toNat)

/-- A process as `alloc_proc` and `fork` make it. -/
def newProc : Proc where
  state := .runnable
  chan := 0
  sleepingDue := noDue
  killed := false
  mode := .fresh
  inSleep := none
  stack := []
  locks := 0

def Sys.put (p : Nat) (x : Proc) (s : Sys) : Sys := { s with proc := Function.update s.proc p x }

def Sys.wakeup (chan : Nat) (s : Sys) : Sys :=
  { s with proc := fun q =>
      if q ∈ s.procList ∧ s.cur ≠ some q ∧ (s.proc q).state = .sleeping ∧ (s.proc q).chan = chan then
        { s.proc q with state := .runnable } else s.proc q }

def Proc.kill (x : Proc) : Proc :=
  { x with killed := true, state := if x.state = .sleeping then .runnable else x.state }

/-- What a system call or an exception does. -/
inductive Op
  /-- `irq_pushoff`, as in `spinlock_acquire` -/
  | acquire
  /-- `irq_popoff`, as in `spinlock_release` -/
  | release
  | sleep (chan : Nat)
  /-- `sched_yield` -/
  | yield
  | nanosleep (tvSec tvNsec : Int)
  | wakeup (chan : Nat)
  | kill (q : Nat)
  | fork (q : Nat)
  /-- `freeproc` in `wait4` -/
  | reap (q : Nat)
  /-- The end of `do_exit`. -/
  | exit
deriving DecidableEq, Repr

/-- An operation of the process `p`, which has the CPU. -/
def perform (p : Nat) (s : Sys) : Op → Option Sys
  | .acquire =>
    some ({ s with
      intena := if s.noff = 0 then s.intr else s.intena
      noff := s.noff + 1
      intr := false }.put p { s.proc p with locks := (s.proc p).locks + 1 })
  | .release =>
    if s.intr = true ∨ s.noff = 0 ∨ (s.proc p).locks = 0 then none
    else some ({ s with
      noff := s.noff - 1
      intr := decide (s.noff = 1) && s.intena }.put p { s.proc p with locks := (s.proc p).locks - 1 })
  | .sleep chan =>
    some (s.put p { s.proc p with
      chan := chan, state := .sleeping, inSleep := some (chan, s.intr), stack := [.toSched] })
  | .yield => some (s.put p { s.proc p with state := .runnable, stack := [.toSched] })
  | .nanosleep tvSec tvNsec =>
    match napDue s.tickCounter tvSec tvNsec with
    | none => some s
    | some due =>
      some (s.put p { s.proc p with state := .sleeping, sleepingDue := due, stack := [.toSched] })
  | .wakeup chan => some (s.wakeup chan)
  | .kill q => if q ∈ s.procList then some (s.put q (s.proc q).kill) else some s
  | .fork q =>
    if q ∈ s.procList ∨ q = p then none
    else some ({ s with procList := q :: s.procList }.put q newProc)
  | .reap q =>
    if q ∈ s.procList ∧ q ≠ p ∧ (s.proc q).state = .zombie then
      some { s with procList := s.procList.filter (· ≠ q), rest := s.rest.filter (· ≠ q) }
    else none
  | .exit =>
    some ({ s with intr := false }.put p
      { s.proc p with state := .zombie, stack := [.toSched], locks := 0 })

/-- `yield` in the handler of the timer interrupt. -/
def Proc.preempt (x : Proc) : Proc :=
  if x.mode = .user then { x with state := .runnable, mode := .trap, stack := [.toSched] }
  else { x with state := .runnable, stack := .toSched :: .trap :: x.stack }

def Sys.tick (s : Sys) : Sys := { s with tickCounter := wrap64 (s.tickCounter + 1) }

/-- `timer_interrupt_handler`: a process that is `RUNNING` yields. -/
def timer (s : Sys) : Sys :=
  match s.cur with
  | none => s.tick
  | some p =>
    if (s.proc p).state = .running then { s.tick with intr := false }.put p (s.proc p).preempt
    else s.tick

/-- A call on top of the stack returns. -/
def resume (p : Nat) (s : Sys) : Option Sys :=
  match (s.proc p).stack, (s.proc p).inSleep with
  | .sched intena :: stack, _ =>
    some ({ s with intena := intena }.put p { s.proc p with stack := stack })
  | .trap :: stack, _ => some ({ s with intr := true }.put p { s.proc p with stack := stack })
  | .toSched :: _, _ => none
  | [], some (_, intStatus) =>
    some ({ s with intr := intStatus }.put p { s.proc p with chan := 0, inSleep := none })
  | [], none => none

/-- `sched`, up to `swtch` -/
def sched (p : Nat) (s : Sys) : Option Sys :=
  match (s.proc p).stack with
  | .toSched :: stack =>
    some ({ s with
      fault := s.fault || (s.proc p).state == ProcState.running || s.intr
      cur := none }.put p { s.proc p with stack := .sched s.intena :: stack })
  | _ => none

/-- The test of the timeout in the loop of `scheduler`. -/
def Proc.timeout (tick : Nat) (x : Proc) : Proc :=
  if x.state = .sleeping ∧ x.sleepingDue ≠ noDue ∧ x.sleepingDue ≤ tick then
    { x with sleepingDue := noDue, state := .runnable }
  else x

/-- One turn of the inner loop of `scheduler`, or what is between two passes. -/
def scan (s : Sys) : Sys :=
  match s.rest with
  | [] =>
    { s with
      intr := (s.procList.all fun q => (s.proc q).state == .sleeping) || s.intr
      rest := s.procList }
  | q :: rest =>
    let x := (s.proc q).timeout s.tickCounter
    if x.state = .runnable then
      { s with rest := rest, cur := some q }.put q { x with state := .running }
    else { s with rest := rest }.put q x

/-- `syscall_handler`, or another exception from user mode. -/
def enter (p : Nat) (syscall : Bool) (s : Sys) : Sys :=
  { s with intr := syscall && !(s.proc p).killed }.put p { s.proc p with mode := .kernel }

/-- `dive_to_user`. A spinlock that the system call still has stays taken. -/
def Sys.toUser (p : Nat) (s : Sys) : Sys :=
  { s with intr := true }.put p { s.proc p with mode := .user, locks := 0 }

/-- The end of `user_trap`. A process that is killed has to come to `do_exit`. -/
def leave (p : Nat) (s : Sys) : Option Sys :=
  match (s.proc p).mode with
  | .user => none
  | .fresh => some (s.toUser p)
  | .trap =>
    some (if (s.proc p).killed then s.put p { s.proc p with mode := .kernel } else s.toUser p)
  | .kernel => if (s.proc p).killed then none else some (s.toUser p)

inductive Event
  | enter (syscall : Bool)
  | op (o : Op)
  | leave
  | sched
  | resume
  | timer
  /-- An interrupt of a device, which wakes a channel. -/
  | irq (chan : Nat)
  | scan
deriving DecidableEq, Repr

/-- Whether the process is in its system call or exception itself. -/
def Proc.isBase (x : Proc) : Bool := x.stack.isEmpty && x.inSleep.isNone

def step (s : Sys) (e : Event) : Option Sys :=
  match e, s.cur with
  | .enter syscall, some p =>
    if (s.proc p).isBase ∧ (s.proc p).mode = .user then some (enter p syscall s) else none
  | .op o, some p => if (s.proc p).isBase ∧ (s.proc p).mode = .kernel then perform p s o else none
  | .leave, some p => if (s.proc p).isBase then leave p s else none
  | .sched, some p => sched p s
  | .resume, some p => resume p s
  | .timer, _ => if s.intr then some (timer s) else none
  | .irq chan, _ => if s.intr then some (s.wakeup chan) else none
  | .scan, none => some (scan s)
  | _, _ => none

def Step (s : Sys) (e : Event) (s' : Sys) : Prop := step s e = some s'

def start (procList : List Nat) : Sys where
  proc _ := newProc
  procList := procList
  rest := procList
  cur := none
  intr := true
  noff := 0
  intena := false
  tickCounter := 0
  fault := false

section Projections

variable (p : Nat) (x : Proc) (s : Sys)

@[simp] lemma put_proc_self : (s.put p x).proc p = x := Function.update_self _ _ _

lemma put_proc_of_ne {q : Nat} (hq : q ≠ p) : (s.put p x).proc q = s.proc q :=
  Function.update_of_ne hq _ _

@[simp] lemma put_intr : (s.put p x).intr = s.intr := rfl

end Projections

section Preempt

variable (x : Proc)

@[simp] lemma preempt_state : x.preempt.state = .runnable := by
  unfold Proc.preempt
  split_ifs <;> rfl

@[simp] lemma preempt_inSleep : x.preempt.inSleep = x.inSleep := by
  unfold Proc.preempt
  split_ifs <;> rfl

@[simp] lemma preempt_chan : x.preempt.chan = x.chan := by
  unfold Proc.preempt
  split_ifs <;> rfl

@[simp] lemma preempt_sleepingDue : x.preempt.sleepingDue = x.sleepingDue := by
  unfold Proc.preempt
  split_ifs <;> rfl

@[simp] lemma preempt_locks : x.preempt.locks = x.locks := by
  unfold Proc.preempt
  split_ifs <;> rfl

lemma preempt_stack : ∃ stack, x.preempt.stack = .toSched :: stack := by
  unfold Proc.preempt
  split_ifs <;> exact ⟨_, rfl⟩

end Preempt

/-- Between two steps of a process, the timer takes the CPU from it or only counts. -/
lemma timer_cases (s : Sys) :
    (timer s = s.tick ∧ ∀ p, s.cur = some p → (s.proc p).state ≠ .running) ∨
    ∃ p, s.cur = some p ∧ (s.proc p).state = .running ∧
      timer s = { s.tick with intr := false }.put p (s.proc p).preempt := by
  unfold timer
  split
  case h_1 hcur => exact .inl ⟨rfl, fun p hp => absurd (hcur.symm.trans hp) nofun⟩
  case h_2 p hcur =>
    split_ifs with hs
    · exact .inr ⟨p, hcur, hs, rfl⟩
    · refine .inl ⟨rfl, fun q hq => ?_⟩
      rw [← Option.some.inj (hcur.symm.trans hq)]
      exact hs

/-- The scheduler is between two passes, goes on to the next process, or gives it the CPU. -/
lemma scan_cases (s : Sys) :
    (s.rest = [] ∧ scan s = { s with
      intr := (s.procList.all fun q => (s.proc q).state == .sleeping) || s.intr
      rest := s.procList }) ∨
    ∃ q rest, s.rest = q :: rest ∧
      (((s.proc q).timeout s.tickCounter).state = .runnable ∧
          scan s = { s with rest := rest, cur := some q }.put q
            { (s.proc q).timeout s.tickCounter with state := .running } ∨
        ((s.proc q).timeout s.tickCounter).state ≠ .runnable ∧
          scan s = { s with rest := rest }.put q ((s.proc q).timeout s.tickCounter)) := by
  unfold scan
  split
  case h_1 hrest => exact .inl ⟨hrest, rfl⟩
  case h_2 q rest hrest =>
    refine .inr ⟨q, rest, hrest, ?_⟩
    simp only
    split_ifs with hs
    · exact .inl ⟨hs, rfl⟩
    · exact .inr ⟨hs, rfl⟩

lemma leave_cases {p : Nat} {s s' : Sys} (h : leave p s = some s') :
    ((s.proc p).mode = .trap ∧ s' = s.put p { s.proc p with mode := .kernel }) ∨ s' = s.toUser p := by
  unfold leave at h
  split at h
  · cases h
  · cases h
    exact .inr rfl
  case h_3 hmode =>
    split_ifs at h <;> cases h
    · exact .inl ⟨hmode, rfl⟩
    · exact .inr rfl
  · split_ifs at h
    cases h
    exact .inr rfl

lemma isBase_iff {x : Proc} : x.isBase = true ↔ x.stack = [] ∧ x.inSleep = none := by
  simp [Proc.isBase]

/-- The steps of the machine, by the event. -/
inductive Moves (s : Sys) : Event → Sys → Prop
  | enter {p : Nat} {b : Bool} (hcur : s.cur = some p) (hbase : (s.proc p).isBase = true)
      (hmode : (s.proc p).mode = .user) : Moves s (.enter b) (enter p b s)
  | op {p : Nat} {o : Op} {s' : Sys} (hcur : s.cur = some p) (hbase : (s.proc p).isBase = true)
      (hmode : (s.proc p).mode = .kernel) (h : perform p s o = some s') : Moves s (.op o) s'
  | leave {p : Nat} {s' : Sys} (hcur : s.cur = some p) (hbase : (s.proc p).isBase = true)
      (h : leave p s = some s') : Moves s .leave s'
  | sched {p : Nat} {stack : List Frame} (hcur : s.cur = some p)
      (hstack : (s.proc p).stack = .toSched :: stack) : Moves s .sched
        ({ s with
          fault := s.fault || (s.proc p).state == ProcState.running || s.intr
          cur := none }.put p { s.proc p with stack := .sched s.intena :: stack })
  | resumeSched {p : Nat} {b : Bool} {stack : List Frame} (hcur : s.cur = some p)
      (hstack : (s.proc p).stack = .sched b :: stack) :
      Moves s .resume ({ s with intena := b }.put p { s.proc p with stack := stack })
  | resumeTrap {p : Nat} {stack : List Frame} (hcur : s.cur = some p)
      (hstack : (s.proc p).stack = .trap :: stack) :
      Moves s .resume ({ s with intr := true }.put p { s.proc p with stack := stack })
  | resumeSleep {p c : Nat} {b : Bool} (hcur : s.cur = some p) (hstack : (s.proc p).stack = [])
      (hsleep : (s.proc p).inSleep = some (c, b)) :
      Moves s .resume ({ s with intr := b }.put p { s.proc p with chan := 0, inSleep := none })
  | timer (hintr : s.intr = true) : Moves s .timer (timer s)
  | irq {chan : Nat} (hintr : s.intr = true) : Moves s (.irq chan) (s.wakeup chan)
  | scan (hcur : s.cur = none) : Moves s .scan (scan s)

lemma moves_of_step {s s' : Sys} {e : Event} (h : Step s e s') : Moves s e s' := by
  unfold Step step at h
  split at h
  case h_1 b p hcur =>
    split_ifs at h with hc
    cases h
    exact .enter hcur hc.1 hc.2
  case h_2 o p hcur =>
    split_ifs at h with hc
    exact .op hcur hc.1 hc.2 h
  case h_3 p hcur =>
    split_ifs at h with hc
    exact .leave hcur hc h
  case h_4 p hcur =>
    unfold Sched.sched at h
    split at h
    · cases h
      exact .sched hcur ‹_›
    · cases h
  case h_5 p hcur =>
    unfold Sched.resume at h
    split at h <;> cases h
    · exact .resumeSched hcur ‹_›
    · exact .resumeTrap hcur ‹_›
    · exact .resumeSleep hcur ‹_› ‹_›
  case h_6 =>
    split_ifs at h with hc
    cases h
    exact .timer hc
  case h_7 chan =>
    split_ifs at h with hc
    cases h
    exact .irq hc
  case h_8 hcur =>
    cases h
    exact .scan hcur
  case h_9 => cases h

/-- An operation does not leave the CPU; that is up to `sched`. -/
lemma perform_cur {p : Nat} {s s' : Sys} {o : Op} (h : perform p s o = some s') :
    s'.cur = s.cur ∧ s'.fault = s.fault := by
  cases o with
  | nanosleep tvSec tvNsec =>
    simp only [perform] at h
    split at h <;> cases h <;> exact ⟨rfl, rfl⟩
  | _ =>
    simp only [perform] at h
    try split_ifs at h
    all_goals cases h
    all_goals exact ⟨rfl, rfl⟩

/-- A panic is not forgotten. -/
lemma Moves.fault_mono {s s' : Sys} {e : Event} (h : Moves s e s') (hf : s'.fault = false) :
    s.fault = false := by
  cases h with
  | op _ _ _ ho => exact (perform_cur ho).2.symm.trans hf
  | leave _ _ hl => obtain ⟨-, rfl⟩ | rfl := leave_cases hl <;> exact hf
  | sched _ _ =>
    exact (Bool.or_eq_false_iff.mp (Bool.or_eq_false_iff.mp hf).1).1
  | timer _ =>
    obtain ⟨heq, -⟩ | ⟨p, -, -, heq⟩ := timer_cases s <;> rw [heq] at hf <;> exact hf
  | scan _ =>
    obtain ⟨-, heq⟩ | ⟨q, rest, -, ⟨-, heq⟩ | ⟨-, heq⟩⟩ := scan_cases s <;> rw [heq] at hf <;> exact hf
  | _ => exact hf

/-- A schedule as a function, with a condition on its steps. -/
def follow (c : Sys → Event → Bool) (procList : List Nat) (evs : List Event) : Option (Bool × Sys) :=
  evs.foldlM (fun x e => (step x.2 e).map fun s => (x.1 && c x.2 e, s)) (true, start procList)

lemma follow_run (c : Sys → Event → Bool) (procList : List Nat) (evs : List Event)
    (P : Bool → Sys → Bool) (h : (follow c procList evs).any (fun x => P x.1 x.2) = true) :
    ∃ ts b s, Run Step (start procList) ts s ∧ (b = true → ∀ t ∈ ts, c t.source t.label = true) ∧
      P b s = true := by
  obtain ⟨⟨b, s⟩, hf, hP⟩ := Option.any_eq_true .. |>.mp h
  obtain ⟨ts, hr, hc⟩ := Run.exists_of_foldlM Run.nil nofun hf
  exact ⟨ts, b, s, hr, hc, hP⟩

end Hana.Sched
