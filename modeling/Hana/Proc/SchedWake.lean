import Hana.Proc.Sched

/-!
# Who wakes a process that sleeps on a channel

`nanosleep` leaves `sleeping_due` to the scheduler, which clears it when the time has come. If the
nap is cut short, the deadline stays, and it ends a later `sleep` of the process on a channel. As
long as naps are not cut short, a process in `sleep` is woken only through its channel or by
`kill`.
-/

namespace Hana.Sched

open Lib Hana.Wait

/-- The process is `SLEEPING` because it called `sleep(c)`. -/
def AsleepOn (x : Proc) (c : Nat) : Prop := x.state = .sleeping ∧ ∃ b, x.inSleep = some (c, b)

/-- The process is `SLEEPING` in `nanosleep`. -/
def Proc.naps (x : Proc) : Bool := x.state == .sleeping && x.inSleep.isNone

def Event.wakes (c : Nat) : Event → Prop
  | .op (.wakeup chan) => chan = c
  | .irq chan => chan = c
  | _ => False

/-- The processes that sleep on a channel and do not after the step have been woken through it,
or killed. -/
def WokenByChannel (s : Sys) (e : Event) (s' : Sys) : Prop :=
  ∀ p ∈ s.procList, ∀ c, AsleepOn (s.proc p) c → (s'.proc p).state ≠ .sleeping →
    e.wakes c ∨ e = .op (.kill p)

/-- The step does not cut a nap short: it does not kill a process in `nanosleep`, nor is it a
`wakeup(NULL)` while there is one. -/
def sparesNap (s : Sys) : Event → Bool
  | .op (.kill q) => !(s.proc q).naps
  | .op (.wakeup chan) => chan != 0 || s.procList.all fun q => !(s.proc q).naps
  | .irq chan => chan != 0 || s.procList.all fun q => !(s.proc q).naps
  | _ => true

/-- Only a process in `nanosleep` has a deadline, and `chan` is that of the `sleep`. -/
structure NapOk (x : Proc) : Prop where
  due : x.sleepingDue ≠ noDue → x.naps = true
  chan : ∀ c b, x.inSleep = some (c, b) → x.chan = c
  idle : x.inSleep = none → x.chan = 0

/-- A process that has the CPU and is not about to call `sched` is `RUNNING`. -/
def RunOk (x : Proc) : Prop := x.state = .running ∨ ∃ stack, x.stack = .toSched :: stack

structure NapInv (s : Sys) : Prop where
  proc : ∀ p, NapOk (s.proc p)
  cur : ∀ p, s.cur = some p → RunOk (s.proc p)

lemma naps_iff {x : Proc} : x.naps = true ↔ x.state = .sleeping ∧ x.inSleep = none := by
  simp [Proc.naps]

namespace NapOk

variable {x y : Proc}

/-- The deadline of a process that does not nap. -/
lemma noDue_of_state (h : NapOk x) (hs : x.state ≠ .sleeping) : x.sleepingDue = noDue := by
  by_contra hd
  exact hs (naps_iff.mp (h.due hd)).1

lemma noDue_of_asleepOn (h : NapOk x) {c : Nat} (hs : AsleepOn x c) : x.sleepingDue = noDue := by
  by_contra hd
  obtain ⟨b, hb⟩ := hs.2
  exact absurd ((naps_iff.mp (h.due hd)).2.symm.trans hb) nofun

/-- A change of the state that leaves the sleep and the deadline alone. -/
lemma of_state (h : NapOk x) (hdue : y.sleepingDue = x.sleepingDue) (hin : y.inSleep = x.inSleep)
    (hchan : y.chan = x.chan) (hs : x.naps = true → y.state = .sleeping) : NapOk y where
  due hd := by
    have hn := h.due (hdue ▸ hd)
    exact naps_iff.mpr ⟨hs hn, hin.trans (naps_iff.mp hn).2⟩
  chan c b hb := hchan.trans (h.chan c b (hin ▸ hb))
  idle hb := hchan.trans (h.idle (hin ▸ hb))

lemma newProc : NapOk newProc where
  due hd := absurd rfl hd
  chan c b hb := by cases hb
  idle _ := rfl

lemma timeout (h : NapOk x) (tick : Nat) : NapOk (x.timeout tick) := by
  unfold Proc.timeout
  split_ifs with hc
  · exact ⟨fun hd => absurd rfl hd, h.chan, h.idle⟩
  · exact h

end NapOk

namespace NapInv

variable {s s' t : Sys} {p : Nat} {x : Proc}

lemma start (l : List Nat) : NapInv (start l) :=
  ⟨fun _ => NapOk.newProc, fun p hp => by cases hp⟩

section

variable (h : NapInv s)
include h

/-- The record of one process changes. -/
lemma put (hproc : t.proc = s.proc) (hcur : t.cur = s.cur ∨ t.cur = none ∨ t.cur = some p)
    (hx : NapOk x) (hrun : t.cur = some p → RunOk x) : NapInv (t.put p x) where
  proc q := by
    by_cases hq : q = p
    · subst hq
      rw [put_proc_self]
      exact hx
    · rw [put_proc_of_ne p x t hq, hproc]
      exact h.proc q
  cur q hq := by
    by_cases hqp : q = p
    · subst hqp
      rw [put_proc_self]
      exact hrun hq
    · rw [put_proc_of_ne p x t hqp, hproc]
      rcases hcur with hc | hc | hc
      · exact h.cur q (hc ▸ hq)
      · exact absurd (hc.symm.trans hq) nofun
      · exact absurd (Option.some.inj (hq.symm.trans hc)) hqp

/-- A process in its system call is `RUNNING`. -/
lemma running (hcur : s.cur = some p) (hbase : (s.proc p).isBase = true) :
    (s.proc p).state = .running := by
  rcases h.cur p hcur with hs | ⟨stack, hs⟩
  · exact hs
  · exact absurd ((isBase_iff.mp hbase).1.symm.trans hs) nofun

lemma wakeup {chan : Nat}
    (hc : (chan != 0 || s.procList.all fun q => !(s.proc q).naps) = true) : NapInv (s.wakeup chan) where
  proc q := by
    change NapOk (if _ then _ else _)
    split_ifs with hw
    · refine (h.proc q).of_state rfl rfl rfl fun hn => ?_
      -- a process that naps has no channel
      have hzero : chan = 0 := hw.2.2.2.symm.trans ((h.proc q).idle (naps_iff.mp hn).2)
      rw [hzero, bne_self_eq_false, Bool.false_or, List.all_eq_true] at hc
      have hq := hc q hw.1
      rw [hn] at hq
      cases hq
    · exact h.proc q
  cur q hq := by
    change RunOk (if _ then _ else _)
    rw [if_neg fun hw => hw.2.1 hq]
    exact h.cur q hq

lemma kill {q : Nat} (hc : (s.proc q).naps = false) :
    NapInv (s.put q (s.proc q).kill) := by
  refine h.put rfl (.inl rfl) ?_ fun hq => ?_
  · refine (h.proc q).of_state rfl rfl rfl fun hn => ?_
    rw [hc] at hn
    cases hn
  · rcases h.cur q hq with hs | hs
    · refine .inl ?_
      simp [Proc.kill, hs]
    · exact .inr hs

lemma perform (hcur : s.cur = some p) (hbase : (s.proc p).isBase = true) {o : Op}
    (hc : sparesNap s (.op o) = true) (ho : perform p s o = some s') : NapInv s' := by
  have hrun := h.running hcur hbase
  have hp := h.proc p
  have hdue := hp.noDue_of_state (by rw [hrun]; exact nofun)
  have hnap : (s.proc p).naps = true → False := by
    intro hn
    exact absurd (hrun.symm.trans (naps_iff.mp hn).1) nofun
  cases o with
  | acquire =>
    cases ho
    exact h.put rfl (.inl rfl) (hp.of_state rfl rfl rfl fun hn => (hnap hn).elim) fun _ => .inl hrun
  | release =>
    simp only [Sched.perform] at ho
    split_ifs at ho
    cases ho
    exact h.put rfl (.inl rfl) (hp.of_state rfl rfl rfl fun hn => (hnap hn).elim) fun _ => .inl hrun
  | sleep chan =>
    cases ho
    refine h.put rfl (.inl rfl) ⟨fun hd => absurd hdue hd, ?_, fun hn => by cases hn⟩
      fun _ => .inr ⟨[], rfl⟩
    intro c b hb
    exact congrArg Prod.fst (Option.some.inj hb)
  | yield =>
    cases ho
    exact h.put rfl (.inl rfl) (hp.of_state rfl rfl rfl fun hn => (hnap hn).elim)
      fun _ => .inr ⟨[], rfl⟩
  | nanosleep tvSec tvNsec =>
    simp only [Sched.perform] at ho
    split at ho <;> cases ho
    · exact h
    · have hin := (isBase_iff.mp hbase).2
      exact h.put rfl (.inl rfl) ⟨fun _ => naps_iff.mpr ⟨rfl, hin⟩, hp.chan, hp.idle⟩
        fun _ => .inr ⟨[], rfl⟩
  | wakeup chan =>
    cases ho
    exact h.wakeup hc
  | kill q =>
    simp only [Sched.perform] at ho
    split_ifs at ho <;> cases ho
    · exact h.kill (Bool.not_eq_true' _ ▸ hc)
    · exact h
  | fork q =>
    simp only [Sched.perform] at ho
    split_ifs at ho with hq
    cases ho
    refine h.put rfl (.inl rfl) NapOk.newProc fun hq' => ?_
    exact absurd (Option.some.inj (hq'.symm.trans hcur)) (not_or.mp hq).2
  | reap q =>
    simp only [Sched.perform] at ho
    split_ifs at ho
    cases ho
    exact ⟨h.proc, h.cur⟩
  | exit =>
    cases ho
    exact h.put rfl (.inl rfl) (hp.of_state rfl rfl rfl fun hn => (hnap hn).elim)
      fun _ => .inr ⟨[], rfl⟩

lemma leave (hcur : s.cur = some p) (hbase : (s.proc p).isBase = true)
    (hl : leave p s = some s') : NapInv s' := by
  have hkeep : ∀ {t : Sys} {m : Mode} {n : Nat}, t.proc = s.proc → t.cur = s.cur →
      NapInv (t.put p { s.proc p with mode := m, locks := n }) := fun hproc hc =>
    h.put hproc (.inl hc) ((h.proc p).of_state rfl rfl rfl fun hn => (naps_iff.mp hn).1)
      fun _ => .inl (h.running hcur hbase)
  obtain ⟨-, rfl⟩ | rfl := leave_cases hl <;> exact hkeep rfl rfl

lemma scan (hcur : s.cur = none) : NapInv (scan s) := by
  obtain ⟨-, heq⟩ | ⟨q, rest, -, ⟨hs, heq⟩ | ⟨-, heq⟩⟩ := scan_cases s <;> rw [heq]
  · exact ⟨h.proc, h.cur⟩
  · have hq := (h.proc q).timeout s.tickCounter
    refine h.put rfl (.inr (.inr rfl)) (hq.of_state rfl rfl rfl fun hn => ?_) fun _ => .inl rfl
    exact absurd (hs.symm.trans (naps_iff.mp hn).1) nofun
  · exact h.put rfl (.inl rfl) ((h.proc q).timeout s.tickCounter)
      fun hq => absurd (hcur.symm.trans hq) nofun

/-- The step of a process that has the CPU, but in no system call. -/
lemma resume (hcur : s.cur = some p) (hproc : t.proc = s.proc) (htcur : t.cur = s.cur)
    (hstack : ∀ stack, (s.proc p).stack ≠ .toSched :: stack) (hx : NapOk x)
    (hstate : x.state = (s.proc p).state) : NapInv (t.put p x) := by
  refine h.put hproc (.inl htcur) hx fun _ => .inl ?_
  rcases h.cur p hcur with hs | ⟨stack, hs⟩
  · exact hstate.trans hs
  · exact absurd hs (hstack stack)

lemma moves {e : Event} (hc : sparesNap s e = true) (hm : Moves s e s') :
    NapInv s' := by
  have hsame : ∀ {p : Nat} {stack : List Frame}, NapOk { s.proc p with stack := stack } :=
    (h.proc _).of_state rfl rfl rfl fun hn => (naps_iff.mp hn).1
  cases hm with
  | @enter p _ hcur hbase _ =>
    exact h.put rfl (.inl rfl) ((h.proc p).of_state rfl rfl rfl fun hn => (naps_iff.mp hn).1)
      fun _ => .inl (h.running hcur hbase)
  | op hcur hbase _ ho => exact h.perform hcur hbase hc ho
  | leave hcur hbase hl => exact h.leave hcur hbase hl
  | sched hcur hstack => exact h.put rfl (.inr (.inl rfl)) hsame fun hq => by cases hq
  | resumeSched hcur hstack =>
    exact h.resume hcur rfl rfl (by rw [hstack]; exact nofun) hsame rfl
  | resumeTrap hcur hstack =>
    exact h.resume hcur rfl rfl (by rw [hstack]; exact nofun) hsame rfl
  | @resumeSleep p c b hcur hstack hsleep =>
    have hdue : (s.proc p).sleepingDue = noDue := by
      by_contra hd
      exact absurd ((naps_iff.mp ((h.proc p).due hd)).2.symm.trans hsleep) nofun
    exact h.resume hcur rfl rfl (by rw [hstack]; exact nofun)
      ⟨fun hd => absurd hdue hd, fun _ _ hb => absurd hb nofun, fun _ => rfl⟩ rfl
  | timer _ =>
    obtain ⟨heq, -⟩ | ⟨p, hcur, hs, heq⟩ := timer_cases s <;> rw [heq]
    · exact ⟨h.proc, h.cur⟩
    · refine h.put rfl (.inl rfl) ((h.proc p).of_state (by simp) (by simp) (by simp) fun hn => ?_)
        fun _ => .inr (preempt_stack _)
      exact absurd (hs.symm.trans (naps_iff.mp hn).1) nofun
  | irq _ => exact h.wakeup hc
  | scan hcur => exact h.scan hcur

end

/-- In a step of one process, only that process could stop sleeping. -/
lemma woken_put {e : Event} (hproc : t.proc = s.proc)
    (hx : ∀ c, AsleepOn (s.proc p) c → x.state = .sleeping) : WokenByChannel s e (t.put p x) := by
  intro q _ c hq hs
  by_cases hqp : q = p
  · subst hqp
    rw [put_proc_self] at hs
    exact absurd (hx c hq) hs
  · rw [put_proc_of_ne p x t hqp, hproc] at hs
    exact absurd hq.1 hs

lemma woken_wakeup (h : NapInv s) {e : Event} {chan : Nat} (he : e.wakes chan) :
    WokenByChannel s e (s.wakeup chan) := by
  intro q _ c hq hs
  refine .inl ?_
  change (if _ then _ else _ : Proc).state ≠ _ at hs
  split_ifs at hs with hw
  · obtain ⟨b, hb⟩ := hq.2
    rw [← (h.proc q).chan c b hb, hw.2.2.2]
    exact he
  · exact absurd hq.1 hs

lemma woken_perform (h : NapInv s) (hcur : s.cur = some p) (hbase : (s.proc p).isBase = true) {o : Op}
    (ho : Sched.perform p s o = some s') : WokenByChannel s (.op o) s' := by
  have hself : ∀ c, ¬ AsleepOn (s.proc p) c := fun c hc =>
    absurd ((h.running hcur hbase).symm.trans hc.1) nofun
  have hput : ∀ {t : Sys} {x : Proc}, t.proc = s.proc → WokenByChannel s (.op o) (t.put p x) :=
    fun hproc => woken_put hproc fun c hc => absurd hc (hself c)
  cases o with
  | wakeup chan =>
    cases ho
    exact h.woken_wakeup rfl
  | kill q =>
    simp only [Sched.perform] at ho
    split_ifs at ho <;> cases ho
    · intro x _ c hx hs
      by_cases hxq : x = q
      · exact .inr (by rw [hxq])
      · rw [put_proc_of_ne q _ s hxq] at hs
        exact absurd hx.1 hs
    · exact fun x _ c hx hs => absurd hx.1 hs
  | fork q =>
    simp only [Sched.perform] at ho
    split_ifs at ho with hq
    cases ho
    intro x hx c hc hs
    have hxq : x ≠ q := fun heq => (not_or.mp hq).1 (heq ▸ hx)
    rw [put_proc_of_ne q _ _ hxq] at hs
    exact absurd hc.1 hs
  | reap q =>
    simp only [Sched.perform] at ho
    split_ifs at ho
    cases ho
    exact fun x _ c hx hs => absurd hx.1 hs
  | nanosleep tvSec tvNsec =>
    simp only [Sched.perform] at ho
    split at ho <;> cases ho
    · exact fun x _ c hx hs => absurd hx.1 hs
    · exact hput rfl
  | release =>
    simp only [Sched.perform] at ho
    split_ifs at ho
    cases ho
    exact hput rfl
  | _ =>
    cases ho
    exact hput rfl

/-- The timeout of the scheduler does not concern a process in `sleep`. -/
lemma woken_scan (h : NapInv s) : WokenByChannel s .scan (Sched.scan s) := by
  have htime : ∀ q c, AsleepOn (s.proc q) c → (s.proc q).timeout s.tickCounter = s.proc q := by
    intro q c hq
    exact if_neg fun hc => hc.2.1 ((h.proc q).noDue_of_asleepOn hq)
  obtain ⟨-, heq⟩ | ⟨q, rest, -, ⟨hs, heq⟩ | ⟨-, heq⟩⟩ := scan_cases s <;> rw [heq]
  · exact fun x _ c hx hs => absurd hx.1 hs
  · refine woken_put rfl fun c hc => ?_
    rw [htime q c hc, hc.1] at hs
    cases hs
  · refine woken_put rfl fun c hc => ?_
    rw [htime q c hc]
    exact hc.1

lemma woken (h : NapInv s) {e : Event} (hm : Moves s e s') : WokenByChannel s e s' := by
  cases hm with
  | enter _ _ _ => exact woken_put rfl fun c hc => hc.1
  | op hcur hbase _ ho => exact h.woken_perform hcur hbase ho
  | leave _ _ hl => obtain ⟨-, rfl⟩ | rfl := leave_cases hl <;> exact woken_put rfl fun c hc => hc.1
  | sched _ _ => exact woken_put rfl fun c hc => hc.1
  | resumeSched _ _ => exact woken_put rfl fun c hc => hc.1
  | resumeTrap _ _ => exact woken_put rfl fun c hc => hc.1
  | resumeSleep _ _ _ => exact woken_put rfl fun c hc => hc.1
  | timer _ =>
    obtain ⟨heq, -⟩ | ⟨p, -, hs, heq⟩ := timer_cases s <;> rw [heq]
    · exact fun x _ c hx hs => absurd hx.1 hs
    · exact woken_put rfl fun c hc => absurd (hs.symm.trans hc.1) nofun
  | irq _ => exact h.woken_wakeup rfl
  | scan _ => exact h.woken_scan

end NapInv

/-- In every run in which no nap is cut short, a process that sleeps on a channel is woken only by
a `wakeup` of that channel or by `kill`. -/
theorem woken_by_channel {l : List Nat} {ts : List (Transition Sys Event)} {s : Sys}
    (hr : Run Step (start l) ts s) (hnap : ∀ t ∈ ts, sparesNap t.source t.label = true) :
    ∀ t ∈ ts, WokenByChannel t.source t.label t.target := by
  have hstep : ∀ s e s', NapInv s → sparesNap s e = true → Step s e s' →
      NapInv s' ∧ WokenByChannel s e s' := by
    intro s e s' hi hc hs
    have hm := moves_of_step hs
    exact ⟨hi.moves hc hm, hi.woken hm⟩
  exact hr.forall_of_forall (NapInv.start l) hnap hstep

/-- A nap of one tick to its end, then a sleep that another process ends. -/
theorem woken_by_channel_two : ∃ ts s, Run Step (start [1, 2]) ts s ∧
    ((s.proc 1).state = .runnable ∧ (s.proc 1).inSleep = some (7, false) ∧ s.tickCounter = 1) ∧
    ∀ t ∈ ts, WokenByChannel t.source t.label t.target := by
  obtain ⟨ts, b, s, hr, hc, hP⟩ := follow_run sparesNap [1, 2]
    [.scan, .leave, .enter true, .op (.nanosleep 0 1), .sched, .scan, .leave, .timer, .sched, .scan,
      .scan, .resume, .op .acquire, .op (.sleep 7), .sched, .scan, .resume, .leave, .enter true,
      .op (.wakeup 7)]
    (fun b s => b && decide ((s.proc 1).state = .runnable ∧ (s.proc 1).inSleep = some (7, false) ∧
      s.tickCounter = 1)) (by decide)
  rw [Bool.and_eq_true] at hP
  exact ⟨ts, s, hr, of_decide_eq_true hP.2, woken_by_channel hr (hc hP.1)⟩

/-- A process is killed in a nap of one tick and then, on its way out, sleeps until the disk has
written a page: the next pass of the scheduler wakes it. -/
theorem woken_by_stale_due : ∃ ts s, Run Step (start [1, 2]) ts s ∧ Step s .scan (scan s) ∧
    AsleepOn (s.proc 1) 7 ∧ ((scan s).proc 1).state = .running ∧ ¬ WokenByChannel s .scan (scan s) := by
  obtain ⟨ts, b, s, hr, -, hP⟩ := follow_run sparesNap [1, 2]
    [.scan, .leave, .enter true, .op (.nanosleep 0 1), .sched, .scan, .leave, .enter true,
      .op (.kill 1), .timer, .sched, .scan, .scan, .resume, .op .acquire, .op (.sleep 7), .sched,
      .scan, .resume, .resume, .timer, .sched, .scan]
    (fun _ s => decide (s.cur = none ∧ 1 ∈ s.procList ∧ (s.proc 1).state = .sleeping ∧
      (s.proc 1).inSleep = some (7, false) ∧ ((scan s).proc 1).state = .running)) (by decide)
  obtain ⟨hcur, hmem, hstate, hin, hrun⟩ := of_decide_eq_true hP
  have hasleep : AsleepOn (s.proc 1) 7 := ⟨hstate, false, hin⟩
  refine ⟨ts, s, hr, ?_, hasleep, hrun, fun hw => ?_⟩
  · simp [Step, step, hcur]
  · rcases hw 1 hmem 7 hasleep (by rw [hrun]; exact nofun) with hk | hk
    · exact hk
    · cases hk

end Hana.Sched
