import Hana.Proc.Sched

/-!
# Interrupts of the idle scheduler

A process leaves the CPU with interrupts off, and `swtch` does not change that. The scheduler turns
them on between two passes only if every process of the list is `SLEEPING`. So with a zombie on the
list and all others asleep, the scheduler goes round with interrupts off and nothing can wake a
process.
-/

namespace Hana.Sched

open Lib Hana.Wait List

/-- The steps of one pass. -/
def PassStep (s : Sys) (e : Event) (s' : Sys) : Prop := Step s e s' ∧ (e = .scan → s.rest ≠ [])

/-- No process can run, and at least one waits. -/
def Idle (s : Sys) : Prop :=
  (∀ p ∈ s.procList, (s.proc p).state ≠ .runnable) ∧ ∃ p ∈ s.procList, (s.proc p).state = .sleeping

/-- At the end of a pass: if the scheduler is idle, the next pass begins with interrupts on. -/
def Listens (s : Sys) : Prop := Idle s → (scan s).intr = true

/-- What a step of the scheduler itself leaves of the interrupt flag, and a step that gives the CPU
back to it. -/
lemma Moves.intr_of_cur {s s' : Sys} {e : Event} (hm : Moves s e s') (hpass : e = .scan → s.rest ≠ [])
    (hcur : s'.cur = none) :
    (s.cur = none ∧ s'.intr = s.intr) ∨ (s.cur ≠ none ∧ (s'.fault = false → s'.intr = false)) := by
  have hsome : ∀ {p : Nat}, s.cur = some p → s'.cur = s.cur → False := fun hp hc =>
    absurd (hp.symm.trans (hc.symm.trans hcur)) nofun
  cases hm with
  | enter hp _ _ => exact (hsome hp rfl).elim
  | op hp _ _ ho => exact (hsome hp (perform_cur ho).1).elim
  | leave hp _ hl => obtain ⟨-, rfl⟩ | rfl := leave_cases hl <;> exact (hsome hp rfl).elim
  | @sched p stack hp _ =>
    refine .inr ⟨by rw [hp]; exact nofun, fun hf => ?_⟩
    exact (Bool.or_eq_false_iff.mp hf).2
  | resumeSched hp _ => exact (hsome hp rfl).elim
  | resumeTrap hp _ => exact (hsome hp rfl).elim
  | resumeSleep hp _ _ => exact (hsome hp rfl).elim
  | timer _ =>
    obtain ⟨heq, -⟩ | ⟨p, hp, -, heq⟩ := timer_cases s
    · rw [heq] at hcur ⊢
      exact .inl ⟨hcur, rfl⟩
    · rw [heq] at hcur
      exact absurd (hp.symm.trans hcur) nofun
  | irq _ => exact .inl ⟨hcur, rfl⟩
  | scan hnone =>
    refine .inl ⟨hnone, ?_⟩
    obtain ⟨hrest, -⟩ | ⟨q, rest, -, ⟨-, heq⟩ | ⟨-, heq⟩⟩ := scan_cases s
    · exact absurd hrest (hpass rfl)
    · rw [heq]
      rfl
    · rw [heq]
      rfl

/-- When the scheduler has the CPU, the flag is that of the beginning of the pass, or it is off
because a process has run. -/
lemma pass_intr {s0 s : Sys} {ts : List (Transition Sys Event)} (hr : Run PassStep s0 ts s)
    (hbegin : s0.cur = none) (hfault : s.fault = false) (hcur : s.cur = none) :
    ((∀ t ∈ ts, t.target.cur = none) ∧ s.intr = s0.intr) ∨
      ((∃ t ∈ ts, t.target.cur ≠ none) ∧ s.intr = false) := by
  induction hr with
  | nil => exact .inl ⟨fun t ht => absurd ht not_mem_nil, rfl⟩
  | @snoc ts s s' e hr hs ih =>
    have hm := moves_of_step hs.1
    have hf := hm.fault_mono hfault
    rcases hm.intr_of_cur hs.2 hcur with ⟨hc, hi⟩ | ⟨hc, hi⟩
    · rcases ih hf hc with ⟨hall, hi'⟩ | ⟨⟨t, ht, hne⟩, hi'⟩
      · refine .inl ⟨fun t ht => ?_, hi.trans hi'⟩
        rcases mem_append.mp ht with ht | ht
        · exact hall t ht
        · rw [mem_singleton.mp ht]
          exact hcur
      · exact .inr ⟨⟨t, mem_append_left _ ht, hne⟩, hi.trans hi'⟩
    · -- the process that gives the CPU back got it in this pass
      refine .inr ⟨?_, hi hfault⟩
      cases hr with
      | nil => exact absurd hbegin hc
      | snoc _ _ =>
        exact ⟨_, mem_append.mpr (.inl (mem_append.mpr (.inr (mem_singleton.mpr rfl)))),
          hc⟩

lemma scan_intr {s : Sys} (hrest : s.rest = []) :
    (scan s).intr = true ↔ (∀ p ∈ s.procList, (s.proc p).state = .sleeping) ∨ s.intr = true := by
  simp [scan, hrest]

/-- For every list of processes and every pass over it that ends without a panic: the idle scheduler
listens to interrupts exactly if every process of the list sleeps, or interrupts were on when the
pass began and no process has run in it. -/
theorem idle_listens_iff {s₀ s : Sys} {ts : List (Transition Sys Event)} (hr : Run PassStep s₀ ts s)
    (hbegin : s₀.cur = none) (hcur : s.cur = none) (hrest : s.rest = []) (hfault : s.fault = false) :
    Listens s ↔ (Idle s → (∀ p ∈ s.procList, (s.proc p).state = .sleeping) ∨
      (s₀.intr = true ∧ ∀ t ∈ ts, t.target.cur = none)) := by
  unfold Listens
  rw [scan_intr hrest]
  have hintr : s.intr = true ↔ s₀.intr = true ∧ ∀ t ∈ ts, t.target.cur = none := by
    rcases pass_intr hr hbegin hfault hcur with ⟨hall, hi⟩ | ⟨⟨t, ht, hne⟩, hi⟩
    · rw [hi]
      exact ⟨fun h => ⟨h, hall⟩, fun h => h.1⟩
    · rw [hi]
      exact ⟨fun h => absurd h nofun, fun h => absurd (h.2 t ht) hne⟩
  rw [hintr]

def inPass (s : Sys) (e : Event) : Bool := e != .scan || !s.rest.isEmpty

/-- A pass over new processes. -/
lemma pass_run (procList : List Nat) (evs : List Event) (P : Sys → Bool)
    (h : (follow inPass procList evs).any (fun x => x.1 && P x.2) = true) :
    ∃ ts s, Run PassStep (start procList) ts s ∧ P s = true := by
  obtain ⟨ts, b, s, hr, hc, hP⟩ := follow_run inPass procList evs (fun b s => b && P s) h
  rw [Bool.and_eq_true] at hP
  refine ⟨ts, s, hr.and_of_forall fun t ht he => ?_, hP.2⟩
  have hin := hc hP.1 t ht
  simpa [inPass, he] using hin

/-- The only process sleeps until the disk is done. -/
theorem idle_listens_one : ∃ ts s, Run PassStep (start [1]) ts s ∧ Idle s ∧ s.intr = false ∧
    (scan s).intr = true := by
  obtain ⟨ts, s, hr, hP⟩ := pass_run [1]
    [.scan, .leave, .enter true, .op .acquire, .op (.sleep 7), .sched]
    (fun s => decide (s.cur = none ∧ s.rest = [] ∧ s.fault = false ∧ s.procList = [1] ∧
      (s.proc 1).state = .sleeping ∧ s.intr = false)) (by decide)
  obtain ⟨hcur, hrest, hfault, hlist, hstate, hintr⟩ := of_decide_eq_true hP
  have hall : ∀ p ∈ s.procList, (s.proc p).state = .sleeping := by
    rw [hlist]
    exact forall_mem_singleton.mpr hstate
  have hidle : Idle s := by
    refine ⟨fun p hp => ?_, 1, by rw [hlist]; exact mem_singleton.mpr rfl, hstate⟩
    rw [hall p hp]
    exact nofun
  exact ⟨ts, s, hr, hidle, hintr,
    (idle_listens_iff hr rfl hcur hrest hfault).mpr (fun _ => .inl hall) hidle⟩

/-- One process sleeps until the disk is done, the other one exits. -/
theorem idle_deaf : ∃ ts s, Run PassStep (start [1, 2]) ts s ∧ s.cur = none ∧ s.rest = [] ∧
    s.fault = false ∧ (s.proc 1).state = .sleeping ∧ (s.proc 2).state = .zombie ∧ Idle s ∧
    (scan s).intr = false := by
  obtain ⟨ts, s, hr, hP⟩ := pass_run [1, 2]
    [.scan, .leave, .enter true, .op .acquire, .op (.sleep 7), .sched, .scan, .leave, .enter true,
      .op .exit, .sched]
    (fun s => decide (s.cur = none ∧ s.rest = [] ∧ s.fault = false ∧ (s.proc 1).state = .sleeping ∧
      (s.proc 2).state = .zombie ∧ s.procList = [1, 2] ∧ (scan s).intr = false)) (by decide)
  obtain ⟨hcur, hrest, hfault, hone, htwo, hlist, hintr⟩ := of_decide_eq_true hP
  refine ⟨ts, s, hr, hcur, hrest, hfault, hone, htwo, ⟨?_, 1, ?_, hone⟩, hintr⟩
  · rw [hlist]
    simp [hone, htwo]
  · rw [hlist]
    exact mem_cons_self

end Hana.Sched
