import Hana.Fs.Block

/-!
# Processes that wait for a block device

`block_read` and `block_write` of devfs, and `blockdev_bread` and `blockdev_bwrite` of ext4 under
`blockdev_lock`, as sequences of steps on one CPU. A process that has a spinlock runs with
interrupts off: until it sleeps or releases the lock, nothing else happens. Requests are numbered
in the order of their allocation, and the memory of a request is never that of an older one.
-/

namespace Hana.Blk

open Function Lib Hana.Block

/-- Where a process is. -/
inductive Pc
  | idle
  /-- The loop of `block_read` and `block_write`, with the number of requests that are left. -/
  | issue (n : Nat)
  /-- Before `blkdev_wait_all`, and in its loop with the requests that are left. -/
  | waitAll
  | waitAt (rest : List Nat)
  /-- After `blkreq_sleep(r)` in the loop. -/
  | waitWake (r : Nat) (rest : List Nat)
  | freeAll
  /-- `blockdev_lock`, and the steps of `blockdev_bread` and `blockdev_bwrite`. -/
  | lock
  | submitWait
  | sleep (r : Nat)
  | wake (r : Nat)
  | unlock
  /-- The operation has returned, its caller has not yet freed the buffer. -/
  | returned
deriving DecidableEq, Repr

/-- A process is `SLEEPING` on the request `chan`, if there is one. The requests that it has
submitted in the operation are `own`. -/
structure Proc where
  pc : Pc
  chan : Option Nat
  killed : Bool
  own : List Nat
  failed : Bool
deriving DecidableEq, Repr

/-- The device, with the requests that it has not completed in `flight`. A request is `live` from
`ops->alloc` to `ops->free`, and `buffer` tells whether the memory of its data is allocated. -/
structure Sys where
  proc : Nat → Proc
  rqList : List Nat
  status : Nat → Status
  live : Nat → Bool
  buffer : Nat → Bool
  flight : List Nat
  next : Nat
  rqListLock : Option Nat
  devLock : Option Nat
  panicked : Bool

def Sys.goto (p : Nat) (pc : Pc) (s : Sys) : Sys :=
  { s with proc := update s.proc p { s.proc p with pc := pc } }

/-- `nr` and `ret` as they are used: whether the operation has seen a failure. -/
def Sys.note (p : Nat) (failed : Bool) (s : Sys) : Sys :=
  { s with proc := update s.proc p { s.proc p with failed := (s.proc p).failed || failed } }

/-- `sleep(chan)`, up to `sched` -/
def Sys.sleepOn (p c : Nat) (s : Sys) : Sys :=
  { s with proc := update s.proc p { s.proc p with chan := some c } }

/-- `blkreq_alloc` and `blkdev_submit_req` -/
def Sys.submit (p : Nat) (s : Sys) : Sys :=
  { s with
    proc := update s.proc p { s.proc p with own := s.next :: (s.proc p).own }
    rqList := s.next :: s.rqList
    status := update s.status s.next .init
    live := update s.live s.next true
    buffer := update s.buffer s.next true
    flight := s.next :: s.flight
    next := s.next + 1 }

/-- The loop of `blkdev_free_all`, which skips what is not `BLKREQ_STATUS_OK`. -/
def Sys.freeAll (s : Sys) : Sys :=
  { s with
    live := fun r => if r ∈ s.rqList ∧ s.status r = .ok then false else s.live r
    rqList := s.rqList.filter fun r => s.status r != .ok }

/-- `blkreq_free`, which leaves the request on the list -/
def Sys.free (r : Nat) (s : Sys) : Sys := { s with live := update s.live r false }

/-- The caller frees the buffer of the operation. -/
def Sys.drop (p : Nat) (s : Sys) : Sys :=
  { s with buffer := fun r => if r ∈ (s.proc p).own then false else s.buffer r }

/-- The assertion in `spinlock_acquire` fails. -/
def Sys.panic (s : Sys) : Sys := { s with panicked := true }

/-- The next step of a process inside of an operation. `avail` is whether `ops->alloc` finds
memory. -/
def advance (p : Nat) (avail : Bool) (s : Sys) : Option Sys :=
  match (s.proc p).pc with
  | .idle => none
  | .issue 0 => some (s.goto p .waitAll)
  | .issue (n + 1) =>
    if avail = false then some ((s.note p true).goto p .waitAll)
    else if s.rqListLock.isSome then some s.panic
    else some ((s.submit p).goto p (.issue n))
  | .waitAll =>
    if s.rqListLock.isSome then some s.panic
    else some ({ s with rqListLock := some p }.goto p (.waitAt s.rqList))
  | .waitAt [] => some ({ s with rqListLock := none }.goto p .freeAll)
  | .waitAt (r :: rest) =>
    if s.status r = .init then some ((s.sleepOn p r).goto p (.waitWake r rest))
    else some ((s.note p (s.status r != .ok)).goto p (.waitAt rest))
  | .waitWake r rest => some ((s.note p (s.status r != .ok)).goto p (.waitAt rest))
  | .freeAll =>
    if s.rqListLock.isSome then some s.panic
    else some (s.freeAll.goto p .returned)
  | .lock =>
    if s.devLock.isSome then some s.panic
    else some ({ s with devLock := some p }.goto p .submitWait)
  | .submitWait =>
    if avail = false then some ((s.note p true).goto p .unlock)
    else if s.rqListLock.isSome then some s.panic
    else some ((s.submit p).goto p (.sleep s.next))
  | .sleep r => some ((s.sleepOn p r).goto p (.wake r))
  | .wake r => some (((s.note p (s.status r != .ok)).free r).goto p .unlock)
  | .unlock => some ({ s with devLock := none }.goto p .returned)
  | .returned => some ((s.drop p).goto p .idle)

/-- The request of the `sleep` that a process is in. It has not got the CPU back. -/
def waitsFor : Pc → Option Nat
  | .waitWake r _ => some r
  | .wake r => some r
  | _ => none

/-- Whether the process that has the lock, if there is one, is `p` or is in `sleep`. -/
def Sys.passes (s : Sys) (l : Option Nat) (p : Option Nat) : Bool :=
  match l with
  | none => true
  | some q => some q == p || (waitsFor (s.proc q).pc).isSome

/-- Whether the CPU can go to `p`, or to none of the processes in the case of an interrupt or of
another process. -/
def Sys.lets (s : Sys) (p : Option Nat) : Bool :=
  !s.panicked && s.passes s.rqListLock p && s.passes s.devLock p

inductive Op
  /-- `block_read` and `block_write` of so many blocks -/
  | block (n : Nat)
  /-- `blockdev_bread` and `blockdev_bwrite` -/
  | blockdev
deriving DecidableEq, Repr

def Op.pc : Op → Pc
  | .block n => .issue n
  | .blockdev => .lock

inductive Event
  | call (p : Nat) (op : Op)
  | step (p : Nat) (avail : Bool)
  /-- `virtio_blk_handle_used` -/
  | complete (r : Nat) (ok : Bool)
  | kill (p : Nat)
deriving DecidableEq, Repr

/-- `wakeup(r)` -/
def Proc.wakeup (r : Nat) (q : Proc) : Proc :=
  if q.chan = some r then { q with chan := none } else q

/-- The status is set and `blkdev_general_endio` called. -/
def Sys.complete (r : Nat) (ok : Bool) (s : Sys) : Sys :=
  { s with
    status := update s.status r (if ok then .ok else .err)
    flight := s.flight.filter (· ≠ r)
    proc := fun p => (s.proc p).wakeup r }

def Sys.kill (p : Nat) (s : Sys) : Sys :=
  { s with proc := update s.proc p { s.proc p with killed := true, chan := none } }

def Sys.call (p : Nat) (op : Op) (s : Sys) : Sys :=
  { s with proc := update s.proc p { s.proc p with pc := op.pc, own := [], failed := false } }

def step (s : Sys) : Event → Option Sys
  | .call p op =>
    if s.lets (some p) ∧ (s.proc p).pc = .idle then
      some (s.call p op)
    else none
  | .step p avail =>
    if s.lets (some p) ∧ (s.proc p).chan = none then advance p avail s else none
  | .complete r ok => if s.lets none ∧ r ∈ s.flight then some (s.complete r ok) else none
  | .kill p => if s.lets none then some (s.kill p) else none

def start : Sys where
  proc _ := ⟨.idle, none, false, [], false⟩
  rqList := []
  status _ := .ok
  live _ := false
  buffer _ := false
  flight := []
  next := 0
  rqListLock := none
  devLock := none
  panicked := false

def Step (s : Sys) (e : Event) (s' : Sys) : Prop := step s e = some s'

section Places

variable (p q : Nat) (s : Sys)

@[simp] lemma goto_pc_self (pc : Pc) : ((s.goto p pc).proc p).pc = pc := by
  simp [Sys.goto]

lemma goto_proc_of_ne (pc : Pc) {q : Nat} (hq : q ≠ p) : (s.goto p pc).proc q = s.proc q :=
  update_of_ne hq _ _

@[simp] lemma note_pc (b : Bool) : ((s.note p b).proc q).pc = (s.proc q).pc := by
  by_cases hq : q = p
  · subst hq
    simp [Sys.note]
  · simp [Sys.note, hq]

@[simp] lemma note_chan (b : Bool) : ((s.note p b).proc q).chan = (s.proc q).chan := by
  by_cases hq : q = p
  · subst hq
    simp [Sys.note]
  · simp [Sys.note, hq]

@[simp] lemma sleepOn_pc (r : Nat) : ((s.sleepOn p r).proc q).pc = (s.proc q).pc := by
  by_cases hq : q = p
  · subst hq
    simp [Sys.sleepOn]
  · simp [Sys.sleepOn, hq]

@[simp] lemma submit_pc : ((s.submit p).proc q).pc = (s.proc q).pc := by
  by_cases hq : q = p
  · subst hq
    simp [Sys.submit]
  · simp [Sys.submit, hq]

@[simp] lemma submit_chan : ((s.submit p).proc q).chan = (s.proc q).chan := by
  by_cases hq : q = p
  · subst hq
    simp [Sys.submit]
  · simp [Sys.submit, hq]

end Places

/-- Whether the next step acquires `rq_list_lock`. -/
def takesRqListLock : Pc → Bool
  | .issue (_ + 1) => true
  | .waitAll => true
  | .freeAll => true
  | .submitWait => true
  | _ => false

/-- What the next step of `p` does, by the place where it is. -/
inductive Moves (p : Nat) (s : Sys) : Sys → Prop
  | issued (h : (s.proc p).pc = .issue 0) : Moves p s (s.goto p .waitAll)
  | noMemory {n : Nat} (h : (s.proc p).pc = .issue (n + 1)) :
      Moves p s ((s.note p true).goto p .waitAll)
  | issue {n : Nat} (h : (s.proc p).pc = .issue (n + 1)) : Moves p s ((s.submit p).goto p (.issue n))
  | rqListLockHeld (h : takesRqListLock (s.proc p).pc) (hl : s.rqListLock ≠ none) : Moves p s s.panic
  | waitAll (h : (s.proc p).pc = .waitAll) (hl : s.rqListLock = none) :
      Moves p s ({ s with rqListLock := some p }.goto p (.waitAt s.rqList))
  | waited (h : (s.proc p).pc = .waitAt []) : Moves p s ({ s with rqListLock := none }.goto p .freeAll)
  | waitSleep {r : Nat} {rest : List Nat} (h : (s.proc p).pc = .waitAt (r :: rest))
      (hs : s.status r = .init) : Moves p s ((s.sleepOn p r).goto p (.waitWake r rest))
  | waitNext {r : Nat} {rest : List Nat} (h : (s.proc p).pc = .waitAt (r :: rest))
      (hs : s.status r ≠ .init) : Moves p s ((s.note p (s.status r != .ok)).goto p (.waitAt rest))
  | waitWake {r : Nat} {rest : List Nat} (h : (s.proc p).pc = .waitWake r rest) :
      Moves p s ((s.note p (s.status r != .ok)).goto p (.waitAt rest))
  | freeAll (h : (s.proc p).pc = .freeAll) : Moves p s (s.freeAll.goto p .returned)
  | devLockHeld (h : (s.proc p).pc = .lock) (hl : s.devLock ≠ none) : Moves p s s.panic
  | lock (h : (s.proc p).pc = .lock) (hl : s.devLock = none) :
      Moves p s ({ s with devLock := some p }.goto p .submitWait)
  | noRequest (h : (s.proc p).pc = .submitWait) : Moves p s ((s.note p true).goto p .unlock)
  | submitWait (h : (s.proc p).pc = .submitWait) : Moves p s ((s.submit p).goto p (.sleep s.next))
  | sleep {r : Nat} (h : (s.proc p).pc = .sleep r) : Moves p s ((s.sleepOn p r).goto p (.wake r))
  | wake {r : Nat} (h : (s.proc p).pc = .wake r) :
      Moves p s (((s.note p (s.status r != .ok)).free r).goto p .unlock)
  | unlock (h : (s.proc p).pc = .unlock) : Moves p s ({ s with devLock := none }.goto p .returned)
  | returned (h : (s.proc p).pc = .returned) : Moves p s ((s.drop p).goto p .idle)

lemma moves_of_advance {p : Nat} {avail : Bool} {s s' : Sys} (h : advance p avail s = some s') :
    Moves p s s' := by
  have hlock : ∀ {l : Option Nat}, l.isSome = true → l ≠ none := by
    intro l hl hn
    rw [hn] at hl
    cases hl
  have hfree : ∀ {l : Option Nat}, ¬ l.isSome = true → l = none := by
    intro l hl
    exact Option.not_isSome_iff_eq_none.mp hl
  unfold advance at h
  split at h
  case h_1 => cases h
  case h_2 hpc =>
    cases h
    exact .issued hpc
  case h_3 n hpc =>
    split_ifs at h with ha hl <;> cases h
    · exact .noMemory hpc
    · exact .rqListLockHeld (by rw [hpc]; rfl) (hlock hl)
    · exact .issue hpc
  case h_4 hpc =>
    split_ifs at h with hl <;> cases h
    · exact .rqListLockHeld (by rw [hpc]; rfl) (hlock hl)
    · exact .waitAll hpc (hfree hl)
  case h_5 hpc =>
    cases h
    exact .waited hpc
  case h_6 r rest hpc =>
    split_ifs at h with hs <;> cases h
    · exact .waitSleep hpc hs
    · exact .waitNext hpc hs
  case h_7 r rest hpc =>
    cases h
    exact .waitWake hpc
  case h_8 hpc =>
    split_ifs at h with hl <;> cases h
    · exact .rqListLockHeld (by rw [hpc]; rfl) (hlock hl)
    · exact .freeAll hpc
  case h_9 hpc =>
    split_ifs at h with hl <;> cases h
    · exact .devLockHeld hpc (hlock hl)
    · exact .lock hpc (hfree hl)
  case h_10 hpc =>
    split_ifs at h with ha hl <;> cases h
    · exact .noRequest hpc
    · exact .rqListLockHeld (by rw [hpc]; rfl) (hlock hl)
    · exact .submitWait hpc
  case h_11 r hpc =>
    cases h
    exact .sleep hpc
  case h_12 r hpc =>
    cases h
    exact .wake hpc
  case h_13 hpc =>
    cases h
    exact .unlock hpc
  case h_14 hpc =>
    cases h
    exact .returned hpc

/-- The CPU goes to a process only if no other process has a lock outside of `sleep`. -/
lemma lets_cases {s : Sys} {p : Option Nat} (h : s.lets p = true) :
    s.panicked = false ∧ (∀ q, s.rqListLock = some q → some q = p ∨ waitsFor (s.proc q).pc ≠ none) ∧
      ∀ q, s.devLock = some q → some q = p ∨ waitsFor (s.proc q).pc ≠ none := by
  have hpass : ∀ l : Option Nat, s.passes l p = true → ∀ q, l = some q →
      some q = p ∨ waitsFor (s.proc q).pc ≠ none := by
    intro l hl q hq
    subst hq
    simpa [Sys.passes, Option.isSome_iff_ne_none] using hl
  simp only [Sys.lets, Bool.and_eq_true, Bool.not_eq_true'] at h
  exact ⟨h.1.1, hpass _ h.1.2, hpass _ h.2⟩

/-- The steps of the machine. -/
lemma step_cases {s s' : Sys} {e : Event} (h : Step s e s') :
    (∃ p op, e = .call p op ∧ s.lets (some p) = true ∧ (s.proc p).pc = .idle ∧ s' = s.call p op) ∨
    (∃ p avail, e = .step p avail ∧ s.lets (some p) = true ∧ (s.proc p).chan = none ∧ Moves p s s') ∨
    (∃ r ok, e = .complete r ok ∧ s.lets none = true ∧ r ∈ s.flight ∧ s' = s.complete r ok) ∨
    ∃ p, e = .kill p ∧ s.lets none = true ∧ s' = s.kill p := by
  unfold Step step at h
  split at h
  · rename_i p op
    split_ifs at h with hc
    cases h
    exact .inl ⟨p, op, rfl, hc.1, hc.2, rfl⟩
  · rename_i p avail
    split_ifs at h with hc
    exact .inr (.inl ⟨p, avail, rfl, hc.1, hc.2, moves_of_advance h⟩)
  · rename_i r ok
    split_ifs at h with hc
    cases h
    exact .inr (.inr (.inl ⟨r, ok, rfl, hc.1, hc.2, rfl⟩))
  · rename_i p
    split_ifs at h with hc
    cases h
    exact .inr (.inr (.inr ⟨p, rfl, hc, rfl⟩))

/-- A schedule as a function, with a condition on its steps. -/
def follow (c : Sys → Event → Bool) (evs : List Event) : Option (Bool × Sys) :=
  evs.foldlM (fun x e => (step x.2 e).map fun s => (x.1 && c x.2 e, s)) (true, start)

lemma follow_run (c : Sys → Event → Bool) (evs : List Event) (P : Bool → Sys → Bool)
    (h : (follow c evs).any (fun x => P x.1 x.2) = true) :
    ∃ ts b s, Run Step start ts s ∧ (b = true → ∀ t ∈ ts, c t.source t.label = true) ∧
      P b s = true := by
  obtain ⟨⟨b, s⟩, hf, hP⟩ := Option.any_eq_true .. |>.mp h
  obtain ⟨ts, hr, hc⟩ := Run.exists_of_foldlM Run.nil nofun hf
  exact ⟨ts, b, s, hr, hc, hP⟩

end Hana.Blk
