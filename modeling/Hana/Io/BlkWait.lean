import Hana.Io.Blk

/-!
# Requests in flight when an operation returns

A process looks at the status of a request once after it has slept, and `kill` wakes it before
the device is done. The operation then returns with the request in flight, and ext4 has even freed
it. Unless a process is killed while the request that it sleeps on is in flight, no operation
returns too early and nothing that the device may write to is freed, in any interleaving.
-/

namespace Hana.Blk

open Function List Lib Hana.Block

/-- The requests that a process has not looked at, or waited for. -/
def todo (rqList : List Nat) : Pc → List Nat
  | .issue _ => rqList
  | .waitAll => rqList
  | .waitAt rest => rest
  | .waitWake r rest => r :: rest
  | .sleep r => [r]
  | .wake r => [r]
  | _ => []

/-- The places at which an operation has returned to its caller. -/
def Pc.isReturned : Pc → Bool
  | .unlock => true
  | .returned => true
  | .idle => true
  | _ => false

/-- Nothing that the device may write to is freed, and the requests of the operations that have
returned are done. -/
structure Safe (s : Sys) : Prop where
  flight : ∀ r ∈ s.flight, s.live r = true ∧ s.buffer r = true
  done : ∀ p, (s.proc p).pc.isReturned = true → ∀ r ∈ (s.proc p).own,
    s.status r ≠ .init ∧ r ∉ s.flight

/-- `kill` does not hit a process that sleeps on a request in flight. -/
def sparesWaiter (s : Sys) : Event → Bool
  | .kill p => (s.proc p).chan.all fun r => s.status r != .init
  | _ => true

/-- What a process knows about its requests: those in flight are before it, and the one that it
has slept on is done when it runs again. -/
structure Tracks (s : Sys) (q : Proc) : Prop where
  own : ∀ r ∈ q.own, r < s.next
  bound : ∀ r ∈ todo s.rqList q.pc, r < s.next
  todo : ∀ r ∈ q.own, s.status r = .init → r ∈ todo s.rqList q.pc
  chan : ∀ r, q.chan = some r → waitsFor q.pc = some r
  woken : ∀ r, waitsFor q.pc = some r → q.chan = none → s.status r ≠ .init

structure WaitInv (s : Sys) : Prop where
  flight : ∀ r ∈ s.flight, s.status r = .init ∧ s.live r = true ∧ s.buffer r = true
  rqList : ∀ r ∈ s.rqList, r < s.next
  proc : ∀ p, Tracks s (s.proc p)

variable {pc : Pc} {r : Nat}

lemma mem_todo_of_waitsFor {l : List Nat} (h : waitsFor pc = some r) :
    r ∈ todo l pc := by
  cases pc <;> simp_all [waitsFor, todo]

/-- Places other than the loops before the wait do not depend on the list. -/
lemma todo_cases (l l' : List Nat) (pc : Pc) :
    (todo l pc = l ∧ todo l' pc = l') ∨ todo l pc = todo l' pc := by
  cases pc <;> simp [todo]

/-- A request that is done need not be looked at again. -/
lemma mem_of_done {f : Nat → Status} {rest : List Nat} (h : f r ≠ .init) :
    ∀ x ∈ r :: rest, f x = .init → x ∈ rest := by
  intro x hx hi
  rcases mem_cons.mp hx with rfl | hx
  · exact absurd hi h
  · exact hx

namespace Tracks

variable {s s' : Sys} {q : Proc}

/-- A process keeps what it knows when requests are added, done, or taken off the list once they
are done. -/
lemma frame (h : Tracks s q) (hnext : s.next ≤ s'.next)
    (hstatus : ∀ r < s.next, s'.status r = .init → s.status r = .init)
    (hlist : ∀ r ∈ s.rqList, s'.status r = .init → r ∈ s'.rqList)
    (hbound : ∀ r ∈ s'.rqList, r < s'.next) : Tracks s' q where
  own r hr := (h.own r hr).trans_le hnext
  bound r hr := by
    rcases todo_cases s.rqList s'.rqList q.pc with ⟨-, heq⟩ | heq
    · rw [heq] at hr
      exact hbound r hr
    · rw [← heq] at hr
      exact (h.bound r hr).trans_le hnext
  todo r hr hi := by
    have hmem := h.todo r hr (hstatus r (h.own r hr) hi)
    rcases todo_cases s.rqList s'.rqList q.pc with ⟨heq, heq'⟩ | heq
    · rw [heq] at hmem
      rw [heq']
      exact hlist r hmem hi
    · exact heq ▸ hmem
  chan := h.chan
  woken r hw hc hi := h.woken r hw hc (hstatus r (h.bound r (mem_todo_of_waitsFor hw)) hi)

/-- A step to a place where the process has the same requests before it that are in flight. -/
lemma goto (h : Tracks s q) {q' : Proc} (hown : q'.own = q.own)
    (hbound : ∀ r ∈ Blk.todo s.rqList q'.pc, r < s.next)
    (htodo : ∀ r ∈ Blk.todo s.rqList q.pc, s.status r = .init → r ∈ Blk.todo s.rqList q'.pc)
    (hchan : q'.chan = waitsFor q'.pc) : Tracks s q' where
  own r hr := h.own r (hown ▸ hr)
  bound := hbound
  todo r hr hi := htodo r (h.todo r (hown ▸ hr) hi) hi
  chan r hr := hchan ▸ hr
  woken r hw hc := by
    rw [hchan, hw] at hc
    cases hc

/-- The process runs again. -/
lemma wake (h : Tracks s q) {k : Bool} (hdone : ∀ r, q.chan = some r → s.status r ≠ .init) :
    Tracks s { q with killed := k, chan := none } where
  own := h.own
  bound := h.bound
  todo := h.todo
  chan r hr := by cases hr
  woken r hw _ := by
    cases hc : q.chan with
    | none => exact h.woken r hw hc
    | some c =>
      have heq : some c = some r := (h.chan c hc).symm.trans hw
      exact Option.some.inj heq ▸ hdone c hc

end Tracks

namespace WaitInv

variable {s s' : Sys} {p : Nat}

lemma safe (h : WaitInv s) : Safe s where
  flight r hr := (h.flight r hr).2
  done p hp r hr := by
    have hnil : todo s.rqList (s.proc p).pc = [] := by
      cases hpc : (s.proc p).pc <;> rw [hpc] at hp <;> first | rfl | cases hp
    have hne : s.status r ≠ .init := by
      intro hi
      have hmem := (h.proc p).todo r hr hi
      rw [hnil] at hmem
      cases hmem
    exact ⟨hne, fun hf => hne (h.flight r hf).1⟩

lemma start : WaitInv start where
  flight r hr := by cases hr
  rqList r hr := by cases hr
  proc p := {
    own := fun r hr => by cases hr
    bound := fun r hr => by cases hr
    todo := fun r hr => by cases hr
    chan := fun r hr => by cases hr
    woken := fun r hr => by cases hr }

section

variable (h : WaitInv s)
include h

/-- A step that leaves the requests alone. -/
lemma move {q : Proc} (hq : Tracks s q) (hlist : s'.rqList = s.rqList)
    (hstatus : s'.status = s.status) (hlive : s'.live = s.live) (hbuffer : s'.buffer = s.buffer)
    (hflight : s'.flight = s.flight) (hnext : s'.next = s.next)
    (hp : s'.proc = update s.proc p q) : WaitInv s' := by
  have hbound : ∀ r ∈ s'.rqList, r < s'.next := by
    rw [hlist, hnext]
    exact h.rqList
  have hframe : ∀ {x}, Tracks s x → Tracks s' x := fun hx =>
    hx.frame hnext.ge (fun r _ hi => hstatus ▸ hi) (fun r hr _ => hlist ▸ hr) hbound
  refine ⟨?_, hbound, ?_⟩
  · rw [hflight, hstatus, hlive, hbuffer]
    exact h.flight
  · rw [hp]
    exact Function.forall_update_iff s.proc (fun _ x => Tracks s' x) |>.mpr
      ⟨hframe hq, fun x _ => hframe (h.proc x)⟩

/-- A process that runs goes to a place where the requests in flight are still before it. -/
lemma goto {pc' : Pc} (hpc : (s.proc p).pc = pc) (hchan : (s.proc p).chan = none)
    (hwaits : waitsFor pc' = none) (hbound : ∀ r ∈ todo s.rqList pc', r < s.next)
    (htodo : ∀ r ∈ todo s.rqList pc, s.status r = .init → r ∈ todo s.rqList pc') :
    WaitInv (s.goto p pc') :=
  h.move (p := p) (q := { s.proc p with pc := pc' })
    ((h.proc p).goto rfl hbound (hpc ▸ htodo) (hchan.trans hwaits.symm)) rfl rfl rfl rfl rfl rfl rfl

lemma note (b : Bool) : WaitInv (s.note p b) :=
  h.move (p := p) (q := { s.proc p with failed := (s.proc p).failed || b })
    ⟨(h.proc p).own, (h.proc p).bound, (h.proc p).todo, (h.proc p).chan, (h.proc p).woken⟩
    rfl rfl rfl rfl rfl rfl rfl

lemma next_bound : ∀ r ∈ s.next :: s.rqList, r < s.next + 1 := by
  intro r hr
  rcases mem_cons.mp hr with rfl | hr
  · exact Nat.lt_succ_self _
  · exact (h.rqList r hr).trans (Nat.lt_succ_self _)

/-- The process goes to sleep on a request that is before it. -/
lemma sleepOn (hpc : waitsFor pc = some r)
    (htodo : todo s.rqList pc = todo s.rqList (s.proc p).pc) :
    WaitInv ((s.sleepOn p r).goto p pc) :=
  h.move (p := p) (q := { s.proc p with pc := pc, chan := some r })
    ((h.proc p).goto rfl (fun x hx => (h.proc p).bound x (htodo ▸ hx)) (fun x hx _ => htodo ▸ hx)
      hpc.symm) rfl rfl rfl rfl rfl rfl
    (by simp [Sys.goto, Sys.sleepOn])

/-- The new request is fresh, and it is before the process. -/
lemma submit (hchan : (s.proc p).chan = none) (hpc : waitsFor pc = none)
    (hnew : s.next ∈ todo (s.next :: s.rqList) pc)
    (hold : ∀ r ∈ todo s.rqList (s.proc p).pc, r ∈ todo (s.next :: s.rqList) pc)
    (hbound : ∀ r ∈ todo (s.next :: s.rqList) pc, r < s.next + 1) :
    WaitInv ((s.submit p).goto p pc) := by
  have hlist := h.next_bound
  have hstatus : ∀ r < s.next, update s.status s.next .init r = s.status r := fun r hr =>
    update_of_ne hr.ne _ _
  refine ⟨?_, hlist, ?_⟩
  · intro r hr
    change update s.status s.next .init r = .init ∧
      update s.live s.next true r = true ∧ update s.buffer s.next true r = true
    by_cases hx : r = s.next
    · subst hx
      simp
    · have hmem : r ∈ s.flight := (mem_cons.mp hr).resolve_left hx
      simpa [hx] using h.flight r hmem
  · have hframe : ∀ x, Tracks ((s.submit p).goto p pc) (s.proc x) := fun x =>
      (h.proc x).frame (Nat.le_succ _) (fun r hr hi => (hstatus r hr).symm.trans hi)
        (fun r hr _ => mem_cons_of_mem _ hr) hlist
    have hself : ((s.submit p).goto p pc).proc = update s.proc p
        { s.proc p with own := s.next :: (s.proc p).own, pc := pc } := by
      simp [Sys.goto, Sys.submit]
    rw [hself]
    refine Function.forall_update_iff s.proc (fun _ x => Tracks ((s.submit p).goto p pc) x) |>.mpr
      ⟨?_, fun x _ => hframe x⟩
    constructor
    · intro r hr
      rcases mem_cons.mp hr with rfl | hr
      · exact Nat.lt_succ_self _
      · exact (hframe p).own r hr
    · exact hbound
    · intro r hr hi
      rcases mem_cons.mp hr with rfl | hr
      · exact hnew
      · have hlt := (h.proc p).own r hr
        exact hold r ((h.proc p).todo r hr ((hstatus r hlt).symm.trans hi))
    · intro r hr
      cases hchan.symm.trans hr
    · intro r hw
      rw [hpc] at hw
      cases hw

/-- What is freed and unlinked is done, so the device does not write to it any more. -/
lemma release (hlive : ∀ r, s.status r = .init → s'.live r = s.live r)
    (hbuffer : ∀ r, s.status r = .init → s'.buffer r = s.buffer r)
    (hlist : ∀ r ∈ s'.rqList, r ∈ s.rqList)
    (hkept : ∀ r ∈ s.rqList, s.status r = .init → r ∈ s'.rqList)
    (hstatus : s'.status = s.status) (hflight : s'.flight = s.flight) (hnext : s'.next = s.next)
    (hproc : s'.proc = s.proc) : WaitInv s' := by
  have hbound : ∀ r ∈ s'.rqList, r < s'.next := fun r hr => hnext ▸ h.rqList r (hlist r hr)
  refine ⟨?_, hbound, ?_⟩
  · rw [hflight, hstatus]
    intro r hr
    obtain ⟨hi, hl, hb⟩ := h.flight r hr
    exact ⟨hi, (hlive r hi).trans hl, (hbuffer r hi).trans hb⟩
  · intro p
    rw [hproc]
    exact (h.proc p).frame hnext.ge (fun r _ hi => hstatus ▸ hi)
      (fun r hr hi => hkept r hr (hstatus ▸ hi)) hbound

lemma freeAll : WaitInv s.freeAll := by
  refine h.release ?_ (fun r _ => rfl) ?_ ?_ rfl rfl rfl rfl
  · intro r hi
    change (if r ∈ s.rqList ∧ s.status r = .ok then false else s.live r) = s.live r
    rw [if_neg]
    rintro ⟨-, ho⟩
    exact absurd (hi.symm.trans ho) nofun
  · exact fun r hr => mem_of_mem_filter hr
  · intro r hr hi
    exact mem_filter.mpr ⟨hr, by rw [hi]; rfl⟩

lemma free (hr : s.status r ≠ .init) : WaitInv (s.free r) := by
  refine h.release ?_ (fun r _ => rfl) (fun r hr => hr) (fun r hr _ => hr) rfl rfl rfl rfl
  intro x hx
  have hne : x ≠ r := fun heq => hr (heq ▸ hx)
  exact update_of_ne hne _ _

lemma drop (hp : ∀ r ∈ (s.proc p).own, s.status r ≠ .init) :
    WaitInv (s.drop p) := by
  refine h.release (fun r _ => rfl) ?_ (fun r hr => hr) (fun r hr _ => hr) rfl rfl rfl rfl
  intro r hi
  exact if_neg fun hr => hp r hr hi

/-- The locks and the panic are no part of the invariant. -/
lemma congr (l m : Option Nat) (b : Bool) :
    WaitInv { s with rqListLock := l, devLock := m, panicked := b } :=
  ⟨h.flight, h.rqList, fun p =>
    ⟨(h.proc p).own, (h.proc p).bound, (h.proc p).todo, (h.proc p).chan, (h.proc p).woken⟩⟩

/-- Every step of a process that runs keeps the invariant. -/
lemma moves (hchan : (s.proc p).chan = none) (hm : Moves p s s') : WaitInv s' := by
  have hp := h.proc p
  have hnote : ∀ b, ((s.note p b).proc p).pc = (s.proc p).pc ∧ ((s.note p b).proc p).chan = none := by
    intro b
    simp [hchan]
  -- nothing is before the process at the places after the wait
  have hnil : ∀ r ∈ ([] : List Nat), r < s.next := nofun
  cases hm with
  | issued hpc => exact h.goto hpc hchan rfl h.rqList fun r hr _ => hr
  | noMemory hpc =>
    exact (h.note true).goto ((hnote true).1.trans hpc) (hnote true).2 rfl h.rqList fun r hr _ => hr
  | issue hpc =>
    refine h.submit hchan rfl mem_cons_self ?_ ?_
    · rw [hpc]
      exact fun r hr => mem_cons_of_mem _ hr
    · exact h.next_bound
  | rqListLockHeld _ _ => exact h.congr s.rqListLock s.devLock true
  | waitAll hpc _ =>
    exact (h.congr (some p) s.devLock s.panicked).goto hpc hchan rfl h.rqList fun r hr _ => hr
  | waited hpc =>
    exact (h.congr none s.devLock s.panicked).goto hpc hchan rfl hnil fun r hr _ => hr
  | waitSleep hpc _ => exact h.sleepOn rfl (by rw [hpc]; rfl)
  | @waitNext r rest hpc hs =>
    have hb := hpc ▸ hp.bound
    exact (h.note _).goto ((hnote _).1.trans hpc) (hnote _).2 rfl
      (fun x hx => hb x (mem_cons_of_mem _ hx)) (mem_of_done hs)
  | @waitWake r rest hpc =>
    have hb := hpc ▸ hp.bound
    have hs : s.status r ≠ .init := hp.woken r (by rw [hpc]; rfl) hchan
    exact (h.note _).goto ((hnote _).1.trans hpc) (hnote _).2 rfl
      (fun x hx => hb x (mem_cons_of_mem _ hx)) (mem_of_done hs)
  | freeAll hpc => exact h.freeAll.goto hpc hchan rfl hnil fun r hr _ => hr
  | devLockHeld _ _ => exact h.congr s.rqListLock s.devLock true
  | lock hpc _ =>
    exact (h.congr s.rqListLock (some p) s.panicked).goto hpc hchan rfl hnil fun r hr _ => hr
  | noRequest hpc =>
    exact (h.note true).goto ((hnote true).1.trans hpc) (hnote true).2 rfl hnil fun r hr _ => hr
  | submitWait hpc =>
    refine h.submit hchan rfl (mem_singleton.mpr rfl) ?_ ?_
    · rw [hpc]
      exact nofun
    · intro r hr
      rw [mem_singleton.mp hr]
      exact Nat.lt_succ_self _
  | sleep hpc => exact h.sleepOn rfl (by rw [hpc]; rfl)
  | @wake r hpc =>
    have hs : s.status r ≠ .init := hp.woken r (by rw [hpc]; rfl) hchan
    exact ((h.note _).free hs).goto ((hnote _).1.trans hpc) (hnote _).2 rfl hnil (mem_of_done hs)
  | unlock hpc =>
    exact (h.congr s.rqListLock none s.panicked).goto hpc hchan rfl hnil fun r hr _ => hr
  | returned hpc =>
    have hdone : ∀ r ∈ (s.proc p).own, s.status r ≠ .init := fun r hr =>
      (h.safe.done p (by rw [hpc]; rfl) r hr).1
    exact (h.drop hdone).goto hpc hchan rfl hnil fun r hr _ => hr

lemma call (hpc : (s.proc p).pc = .idle) (op : Op) : WaitInv (s.call p op) := by
  have hchan : (s.proc p).chan = none := by
    cases hc : (s.proc p).chan with
    | none => rfl
    | some r =>
      have hw := (h.proc p).chan r hc
      rw [hpc] at hw
      cases hw
  have hbound : ∀ r ∈ todo s.rqList op.pc, r < s.next := by
    cases op with
    | block n => exact h.rqList
    | blockdev => exact nofun
  have hwaits : waitsFor op.pc = none := by cases op <;> rfl
  refine h.move (p := p) (q := { s.proc p with pc := op.pc, own := [], failed := false }) ?_
    rfl rfl rfl rfl rfl rfl rfl
  exact ⟨nofun, hbound, nofun,
    fun r hr => absurd (hchan.symm.trans hr) nofun, fun r hr => absurd (hwaits.symm.trans hr) nofun⟩

lemma complete (r : Nat) (ok : Bool) : WaitInv (s.complete r ok) := by
  have hdone : (s.complete r ok).status r ≠ .init := by
    change update s.status r _ r ≠ _
    rw [update_self]
    cases ok <;> exact nofun
  have hother : ∀ x, x ≠ r → (s.complete r ok).status x = s.status x := fun x hx =>
    update_of_ne hx _ _
  have hstatus : ∀ x, (s.complete r ok).status x = .init → s.status x = .init := by
    intro x hi
    exact (hother x fun heq => hdone (heq ▸ hi)).symm.trans hi
  refine ⟨?_, h.rqList, ?_⟩
  · intro x hx
    obtain ⟨hmem, hne⟩ := mem_filter.mp hx
    obtain ⟨hi, hlb⟩ := h.flight x hmem
    exact ⟨(hother x (of_decide_eq_true hne)).trans hi, hlb⟩
  · intro p
    have hp : Tracks (s.complete r ok) (s.proc p) :=
      (h.proc p).frame le_rfl (fun x _ => hstatus x) (fun x hx _ => hx) h.rqList
    change Tracks _ ((s.proc p).wakeup r)
    unfold Proc.wakeup
    split_ifs with hc
    · refine hp.wake (k := (s.proc p).killed) fun x hx => ?_
      rw [← Option.some.inj (hc.symm.trans hx)]
      exact hdone
    · exact hp

lemma kill (hk : ∀ r, (s.proc p).chan = some r → s.status r ≠ .init) :
    WaitInv (s.kill p) :=
  h.move (p := p) ((h.proc p).wake (k := true) hk) rfl rfl rfl rfl rfl rfl rfl

lemma step {e : Event} (hc : sparesWaiter s e = true) (hs : Step s e s') : WaitInv s' := by
  obtain ⟨p, op, rfl, -, hpc, rfl⟩ | ⟨p, avail, rfl, -, hchan, hm⟩ | ⟨r, ok, rfl, -, -, rfl⟩ |
    ⟨p, rfl, -, rfl⟩ := step_cases hs
  · exact h.call hpc op
  · exact h.moves hchan hm
  · exact h.complete r ok
  · refine h.kill fun r hr => ?_
    simpa [sparesWaiter, hr] using hc

end

end WaitInv

/-- In every interleaving in which no process is killed while it sleeps on a request in flight, no
operation returns before its requests are done, and the device never has a request or a buffer
that is freed. -/
theorem no_return_in_flight {ts : List (Transition Sys Event)} {s : Sys} (hr : Run Step start ts s)
    (hkill : ∀ t ∈ ts, sparesWaiter t.source t.label = true) : Safe s :=
  (hr.invariant_of_forall WaitInv.start hkill fun _ _ _ hi hc hs => hi.step hc hs).safe

/-- The second of two requests is done first, the process is killed after it has slept, and ext4
reads from another process. -/
theorem no_return_in_flight_two : ∃ ts s, Run Step start ts s ∧ Safe s ∧
    (s.proc 0).pc = .returned ∧ (s.proc 0).own = [1, 0] ∧ (s.proc 1).pc = .returned ∧
    (s.proc 1).own = [2] := by
  obtain ⟨ts, b, s, hr, hc, hP⟩ := follow_run sparesWaiter
    [.call 0 (.block 2), .step 0 true, .step 0 true, .step 0 true, .complete 1 true, .step 0 true,
      .step 0 true, .step 0 true, .complete 0 false, .kill 0, .step 0 true, .step 0 true, .step 0 true,
      .call 1 .blockdev, .step 1 true, .step 1 true, .step 1 true, .complete 2 true, .step 1 true,
      .step 1 true]
    (fun b s => b && decide ((s.proc 0).pc = .returned ∧ (s.proc 0).own = [1, 0] ∧
      (s.proc 1).pc = .returned ∧ (s.proc 1).own = [2])) (by decide)
  rw [Bool.and_eq_true] at hP
  exact ⟨ts, s, hr, no_return_in_flight hr (hc hP.1), of_decide_eq_true hP.2⟩

/-- A process that waits for the device is killed. In ext4 it frees the request in flight; in devfs
it returns, and its caller frees the buffer. -/
theorem killed_in_flight :
    (∃ ts s, Run Step start ts s ∧ (s.proc 0).pc = .unlock ∧ (s.proc 0).own = [0] ∧
      s.status 0 = .init ∧ 0 ∈ s.flight ∧ s.live 0 = false ∧ ¬ Safe s) ∧
    ∃ ts s, Run Step start ts s ∧ (s.proc 0).pc = .idle ∧ (s.proc 0).own = [0] ∧
      s.status 0 = .init ∧ 0 ∈ s.flight ∧ s.buffer 0 = false ∧ ¬ Safe s := by
  constructor
  · obtain ⟨ts, b, s, hr, -, hP⟩ := follow_run sparesWaiter
      [.call 0 .blockdev, .step 0 true, .step 0 true, .step 0 true, .kill 0, .step 0 true]
      (fun _ s => decide ((s.proc 0).pc = .unlock ∧ (s.proc 0).own = [0] ∧
        s.status 0 = .init ∧ 0 ∈ s.flight ∧ s.live 0 = false)) (by decide)
    obtain ⟨hpc, hown, hi, hf, hl⟩ := of_decide_eq_true hP
    refine ⟨ts, s, hr, hpc, hown, hi, hf, hl, fun hs => ?_⟩
    exact absurd ((hs.flight 0 hf).1.symm.trans hl) nofun
  · obtain ⟨ts, b, s, hr, -, hP⟩ := follow_run sparesWaiter
      [.call 0 (.block 1), .step 0 true, .step 0 true, .step 0 true, .step 0 true, .kill 0,
        .step 0 true, .step 0 true, .step 0 true, .step 0 true]
      (fun _ s => decide ((s.proc 0).pc = .idle ∧ (s.proc 0).own = [0] ∧
        s.status 0 = .init ∧ 0 ∈ s.flight ∧ s.buffer 0 = false)) (by decide)
    obtain ⟨hpc, hown, hi, hf, hb⟩ := of_decide_eq_true hP
    refine ⟨ts, s, hr, hpc, hown, hi, hf, hb, fun hs => ?_⟩
    exact absurd ((hs.flight 0 hf).2.symm.trans hb) nofun

end Hana.Blk
