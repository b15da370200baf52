import Mathlib.Algebra.BigOperators.Fin
import Mathlib.Algebra.Order.BigOperators.Group.Finset
import Hana.Proc.Sched

/-!
# The panics of sched

`sched` panics if interrupts are on. `syscall_handler` turns them on for every system call, so
`sched_yield`, `nanosleep` and a `wait4` that blocks come to `sched` with interrupts on. A process
that holds a spinlock has them off: `noff` counts the spinlocks of all processes, also of those
that sleep, and none of them is released to zero while one is held. So in runs in which system calls
sleep only with a spinlock that they have taken themselves, as they do for the disk, neither panic is
reached. One that an earlier system call has left taken is no help: interrupts come back on.
-/

namespace Hana.Sched

open Lib Hana.Wait List Option

/-- The step does not come to `sched` from a system call without a spinlock of its own. -/
def blocksLocked (s : Sys) : Event → Bool
  | .op (.sleep _) => s.cur.any fun p => (s.proc p).locks != 0
  | .op .yield => false
  | .op (.nanosleep tvSec tvNsec) => (napDue s.tickCounter tvSec tvNsec).isNone
  | _ => true

section Counts

/-- `n` bounds the sum of `f` over every set of processes. -/
def Counts (f : Nat → Nat) (n : Nat) : Prop := ∀ S : Finset Nat, ∑ p ∈ S, f p ≤ n

variable {f : Nat → Nat} {n m p b : Nat}

lemma Counts.le (h : Counts f n) : f p ≤ n := by
  simpa using h {p}

lemma Counts.update (h : Counts f n) (hm : n + b ≤ m + f p) : Counts (Function.update f p b) m := by
  intro S
  have hins := h (insert p (S.erase p))
  rw [Finset.sum_insert (Finset.notMem_erase p S)] at hins
  have hrest : ∑ q ∈ S.erase p, Function.update f p b q = ∑ q ∈ S.erase p, f q :=
    Finset.sum_congr rfl fun q hq => Function.update_of_ne (Finset.ne_of_mem_erase hq) _ _
  have hle : ∑ q ∈ S, Function.update f p b q ≤ b + ∑ q ∈ S.erase p, f q := by
    by_cases hp : p ∈ S
    · rw [← Finset.add_sum_erase S _ hp, Function.update_self, hrest]
    · rw [Finset.erase_eq_of_notMem hp] at hrest ⊢
      rw [hrest]
      exact Nat.le_add_left _ _
  omega

end Counts

/-- The stack of a process: `sched` is called only from its top, a process in `sleep` came there
with interrupts off, and one that was interrupted has no spinlock. -/
structure FrameOk (x : Proc) : Prop where
  tail : .toSched ∉ x.stack.tail
  sleep : ∀ c b, x.inSleep = some (c, b) → b = false
  above : x.inSleep = none → x.stack ≠ [] → x.locks = 0
  mode : x.mode ≠ .kernel → x.locks = 0 ∧ x.inSleep = none

/-- The process that has the CPU. -/
structure CurOk (intr : Bool) (x : Proc) : Prop where
  guards : ∀ stack, x.stack = .toSched :: stack → x.state ≠ .running ∧ intr = false
  held : x.isBase = true → x.locks ≠ 0 → intr = false

/-- A process that has not. -/
structure ParkedOk (x : Proc) : Prop where
  top : ∀ stack, x.stack ≠ .toSched :: stack
  free : x.isBase = true → x.locks = 0

structure GuardInv (s : Sys) : Prop where
  fault : s.fault = false
  noff : Counts (fun p => (s.proc p).locks) s.noff
  frame : ∀ p, FrameOk (s.proc p)
  cur : ∀ p, s.cur = some p → CurOk s.intr (s.proc p)
  parked : ∀ p, s.cur ≠ some p → ParkedOk (s.proc p)

lemma locks_put (p : Nat) (x : Proc) (s : Sys) :
    (fun q => ((s.put p x).proc q).locks) = Function.update (fun q => (s.proc q).locks) p x.locks := by
  funext q
  by_cases hq : q = p
  · subst hq
    simp
  · rw [put_proc_of_ne p x s hq, Function.update_of_ne hq]

namespace GuardInv

variable {s s' t : Sys} {p : Nat} {x : Proc}

lemma start (l : List Nat) : GuardInv (start l) where
  fault := rfl
  noff S := by simp [Sched.start, newProc]
  frame _ := ⟨not_mem_nil, fun _ _ hb => absurd hb nofun, fun _ _ => rfl, fun _ => ⟨rfl, rfl⟩⟩
  cur p hp := by cases hp
  parked _ _ := ⟨fun _ => nofun, fun _ => rfl⟩

section

variable (h : GuardInv s)
include h

/-- The record of one process changes, and perhaps who has the CPU. -/
lemma put (hproc : t.proc = s.proc) (hfault : t.fault = false)
    (hnoff : s.noff + x.locks ≤ t.noff + (s.proc p).locks) (hx : FrameOk x)
    (hcur : t.cur = some p → CurOk t.intr x) (hpark : t.cur ≠ some p → ParkedOk x)
    (hother : (t.cur = s.cur ∧ t.intr = s.intr) ∨ ∀ q, q ≠ p → t.cur ≠ some q ∧ s.cur ≠ some q) :
    GuardInv (t.put p x) where
  fault := hfault
  noff := by
    rw [locks_put, hproc]
    exact h.noff.update hnoff
  frame q := by
    by_cases hq : q = p
    · subst hq
      rw [put_proc_self]
      exact hx
    · rw [put_proc_of_ne p x t hq, hproc]
      exact h.frame q
  cur q hq := by
    by_cases hqp : q = p
    · subst hqp
      rw [put_proc_self]
      exact hcur hq
    · rcases hother with ⟨hc, hi⟩ | hne
      · rw [put_proc_of_ne p x t hqp, hproc, put_intr, hi]
        exact h.cur q (hc ▸ hq)
      · exact absurd hq (hne q hqp).1
  parked q hq := by
    by_cases hqp : q = p
    · subst hqp
      rw [put_proc_self]
      exact hpark hq
    · rw [put_proc_of_ne p x t hqp, hproc]
      rcases hother with ⟨hc, -⟩ | hne
      · exact h.parked q (hc ▸ hq)
      · exact h.parked q (hne q hqp).2

/-- A step of the process that has the CPU, and keeps it. -/
lemma put_cur (hcur : s.cur = some p) (hproc : t.proc = s.proc)
    (htcur : t.cur = s.cur) (hfault : t.fault = s.fault)
    (hnoff : s.noff + x.locks ≤ t.noff + (s.proc p).locks) (hx : FrameOk x) (hc : CurOk t.intr x) :
    GuardInv (t.put p x) := by
  refine h.put hproc (hfault.trans h.fault) hnoff hx (fun _ => hc) (fun hne => ?_) (.inr fun q hq => ?_)
  · exact absurd (htcur.trans hcur) hne
  · rw [htcur, hcur]
    exact ⟨fun heq => hq (some.inj heq).symm, fun heq => hq (some.inj heq).symm⟩

/-- Only states change, and that of the process with the CPU does not become `RUNNING`. -/
lemma of_states (hcur : s'.cur = s.cur) (hfault : s'.fault = s.fault)
    (hnoff : s'.noff = s.noff) (hintr : s'.intr = s.intr)
    (hsame : ∀ q, ∃ st k, s'.proc q = { s.proc q with state := st, killed := k })
    (hself : ∀ q, (s.proc q).state ≠ .running → (s'.proc q).state ≠ .running) :
    GuardInv s' where
  fault := hfault.trans h.fault
  noff := by
    have hlocks : (fun q => (s'.proc q).locks) = fun q => (s.proc q).locks := by
      funext q
      obtain ⟨st, k, heq⟩ := hsame q
      rw [heq]
    rw [hlocks, hnoff]
    exact h.noff
  frame q := by
    obtain ⟨st, k, heq⟩ := hsame q
    rw [heq]
    exact ⟨(h.frame q).tail, (h.frame q).sleep, (h.frame q).above, (h.frame q).mode⟩
  cur q hq := by
    obtain ⟨st, k, heq⟩ := hsame q
    have hc := h.cur q (hcur ▸ hq)
    have hst := hself q
    rw [heq] at hst ⊢
    rw [hintr]
    exact ⟨fun stack hs => ⟨hst (hc.guards stack hs).1, (hc.guards stack hs).2⟩, hc.held⟩
  parked q hq := by
    obtain ⟨st, k, heq⟩ := hsame q
    have hp := h.parked q (hcur ▸ hq)
    rw [heq]
    exact ⟨hp.top, hp.free⟩

lemma wakeup (chan : Nat) : GuardInv (s.wakeup chan) := by
  refine h.of_states rfl rfl rfl rfl (fun q => ?_) fun q hq => ?_
  · simp only [Sys.wakeup]
    split_ifs
    · exact ⟨.runnable, (s.proc q).killed, rfl⟩
    · exact ⟨(s.proc q).state, (s.proc q).killed, rfl⟩
  · simp only [Sys.wakeup]
    split_ifs
    · exact nofun
    · exact hq

lemma kill (q : Nat) : GuardInv (s.put q (s.proc q).kill) := by
  refine h.of_states rfl rfl rfl rfl (fun x => ?_) fun x hx => ?_
  · by_cases hxq : x = q
    · subst hxq
      rw [put_proc_self]
      exact ⟨_, _, rfl⟩
    · rw [put_proc_of_ne q _ s hxq]
      exact ⟨(s.proc x).state, (s.proc x).killed, rfl⟩
  · by_cases hxq : x = q
    · subst hxq
      rw [put_proc_self]
      change (if _ then _ else _) ≠ _
      split_ifs
      · exact nofun
      · exact hx
    · rw [put_proc_of_ne q _ s hxq]
      exact hx

/-- The process goes to `sched` with interrupts off. -/
lemma toSched (hcur : s.cur = some p) (hproc : t.proc = s.proc)
    (htcur : t.cur = s.cur) (hfault : t.fault = s.fault) (hnoff : t.noff = s.noff)
    (hintr : t.intr = false) (hlocks : x.locks ≤ (s.proc p).locks) (hx : FrameOk x)
    (hbase : x.stack ≠ []) (hstate : x.state ≠ .running) : GuardInv (t.put p x) := by
  refine h.put_cur hcur hproc htcur hfault (by omega) hx ⟨fun _ _ => ⟨hstate, hintr⟩, ?_⟩
  intro hb
  exact absurd (isBase_iff.mp hb).1 hbase

lemma perform (hcur : s.cur = some p) (hbase : (s.proc p).isBase = true)
    (hmode : (s.proc p).mode = .kernel) {o : Op} (hc : blocksLocked s (.op o) = true)
    (ho : perform p s o = some s') : GuardInv s' := by
  obtain ⟨hstack, hin⟩ := isBase_iff.mp hbase
  have hp := h.frame p
  have hheld := (h.cur p hcur).held hbase
  -- a system call that goes on in the same place
  have hframe : ∀ n, FrameOk { s.proc p with locks := n } := fun n =>
    ⟨hp.tail, hp.sleep, fun _ hne => absurd hstack hne, fun hne => absurd hmode hne⟩
  have hguards : ∀ stack, (s.proc p).stack ≠ .toSched :: stack := by
    intro stack hs
    rw [hstack] at hs
    cases hs
  cases o with
  | acquire =>
    cases ho
    exact h.put_cur hcur rfl rfl rfl (by simp; omega) (hframe _)
      ⟨fun stack hs => absurd hs (hguards stack), fun _ _ => rfl⟩
  | release =>
    simp only [Sched.perform] at ho
    split_ifs at ho with hn
    cases ho
    refine h.put_cur hcur rfl rfl rfl (by simp; omega) (hframe _)
      ⟨fun stack hs => absurd hs (hguards stack), fun _ hl => ?_⟩
    -- the other spinlocks of the process are still counted
    have hle : (s.proc p).locks ≤ s.noff := h.noff.le
    have hne : s.noff ≠ 1 := by
      change (s.proc p).locks - 1 ≠ 0 at hl
      omega
    simp [hne]
  | sleep chan =>
    cases ho
    have hlocks : (s.proc p).locks ≠ 0 := by
      simpa [blocksLocked, hcur] using hc
    have hintr := hheld hlocks
    refine h.toSched hcur rfl rfl rfl rfl hintr le_rfl ?_ (cons_ne_nil _ _) (fun he => by cases he)
    refine ⟨not_mem_nil, fun c b hb => ?_, fun hno => absurd hno (some_ne_none _), fun hne => absurd hmode hne⟩
    exact (congrArg Prod.snd (some.inj hb)).symm.trans hintr
  | yield => cases hc
  | nanosleep tvSec tvNsec =>
    have hnone : napDue s.tickCounter tvSec tvNsec = none := by
      simpa [blocksLocked] using hc
    simp only [Sched.perform, hnone] at ho
    cases ho
    exact h
  | wakeup chan =>
    cases ho
    exact h.wakeup chan
  | kill q =>
    simp only [Sched.perform] at ho
    split_ifs at ho <;> cases ho
    · exact h.kill q
    · exact h
  | fork q =>
    simp only [Sched.perform] at ho
    split_ifs at ho with hq
    cases ho
    have hne : s.cur ≠ some q := fun heq =>
      (not_or.mp hq).2 (some.inj (heq.symm.trans hcur))
    exact h.put rfl h.fault (Nat.add_le_add_left (Nat.zero_le _) _)
      ((start []).frame 0) (fun heq => absurd heq hne) (fun _ => (start []).parked 0 (some_ne_none 0).symm)
      (.inl ⟨rfl, rfl⟩)
  | reap q =>
    simp only [Sched.perform] at ho
    split_ifs at ho
    cases ho
    exact ⟨h.fault, h.noff, h.frame, h.cur, h.parked⟩
  | exit =>
    cases ho
    exact h.toSched hcur rfl rfl rfl rfl rfl (Nat.zero_le _)
      ⟨not_mem_nil, hp.sleep, fun _ _ => rfl, fun hne => absurd hmode hne⟩ (cons_ne_nil _ _) (fun he => by cases he)

/-- The timer takes the CPU from a process that has no spinlock, or is not in its system call. -/
lemma preempt (hcur : s.cur = some p) (hintr : s.intr = true)
    (hstate : (s.proc p).state = .running) : FrameOk (s.proc p).preempt := by
  have hp := h.frame p
  have hc := h.cur p hcur
  have hlocks : (s.proc p).inSleep = none → (s.proc p).locks = 0 := by
    intro hin
    by_cases hs : (s.proc p).stack = []
    · by_contra hl
      exact absurd (hintr.symm.trans (hc.held (isBase_iff.mpr ⟨hs, hin⟩) hl)) nofun
    · exact hp.above hin hs
  have hnot : .toSched ∉ (s.proc p).stack := by
    intro hmem
    cases hs : (s.proc p).stack with
    | nil =>
      rw [hs] at hmem
      cases hmem
    | cons f stack =>
      rw [hs] at hmem
      rcases mem_cons.mp hmem with heq | hmem
      · subst heq
        exact (hc.guards stack hs).1 hstate
      · have ht := hp.tail
        rw [hs] at ht
        exact ht hmem
  refine ⟨?_, ?_, ?_, ?_⟩
  · unfold Proc.preempt
    split_ifs
    · exact not_mem_nil
    · exact fun hmem => (mem_cons.mp hmem).elim nofun hnot
  · simpa using hp.sleep
  · intro hin _
    simpa using hlocks (by simpa using hin)
  · intro hmode
    have hm : (s.proc p).mode ≠ .kernel := by
      intro hk
      simp [Proc.preempt, hk] at hmode
    simpa using hp.mode hm

lemma timer (hintr : s.intr = true) : GuardInv (timer s) := by
  obtain ⟨heq, -⟩ | ⟨p, hcur, hstate, heq⟩ := timer_cases s <;> rw [heq]
  · exact ⟨h.fault, h.noff, h.frame, h.cur, h.parked⟩
  · obtain ⟨stack, hs⟩ := preempt_stack (s.proc p)
    refine h.toSched hcur rfl rfl rfl rfl rfl (by simp) (h.preempt hcur hintr hstate) ?_ ?_
    · rw [hs]
      exact nofun
    · rw [preempt_state]
      exact nofun

/-- A call on the stack of the process that has the CPU returns. -/
lemma pop (hcur : s.cur = some p) {f : Frame} {stack : List Frame}
    (hstack : (s.proc p).stack = f :: stack) (hproc : t.proc = s.proc) (htcur : t.cur = s.cur)
    (hfault : t.fault = s.fault) (hnoff : t.noff = s.noff) :
    GuardInv (t.put p { s.proc p with stack := stack }) := by
  have hp := h.frame p
  have htail : .toSched ∉ stack := by
    have ht := hp.tail
    rwa [hstack] at ht
  have hlocks : (s.proc p).inSleep = none → (s.proc p).locks = 0 := fun hin =>
    hp.above hin (by rw [hstack]; exact nofun)
  refine h.put_cur hcur hproc htcur hfault (by rw [hnoff]) ?_ ?_
  · exact ⟨fun hmem => htail (mem_of_mem_tail hmem), hp.sleep, fun hin _ => hlocks hin, hp.mode⟩
  · refine ⟨fun st hs => ?_, fun hb hl => ?_⟩
    · have hs' : stack = .toSched :: st := hs
      exact absurd (hs' ▸ mem_cons_self) htail
    · exact absurd (hlocks (isBase_iff.mp hb).2) hl

lemma scan (hcur : s.cur = none) : GuardInv (scan s) := by
  have hne : ∀ q, s.cur ≠ some q := fun q hq => absurd (hcur.symm.trans hq) nofun
  have htime : ∀ q, ∃ st d, (s.proc q).timeout s.tickCounter =
      { s.proc q with state := st, sleepingDue := d } := by
    intro q
    unfold Proc.timeout
    split_ifs
    · exact ⟨.runnable, noDue, rfl⟩
    · exact ⟨(s.proc q).state, (s.proc q).sleepingDue, rfl⟩
  obtain ⟨-, heq⟩ | ⟨q, rest, -, ⟨-, heq⟩ | ⟨-, heq⟩⟩ := scan_cases s <;> rw [heq]
  · exact ⟨h.fault, h.noff, h.frame, fun q hq => absurd hq (hne q), h.parked⟩
  · obtain ⟨st, d, hx⟩ := htime q
    have hq := h.frame q
    have hpark := h.parked q (hne q)
    rw [hx]
    refine h.put rfl h.fault le_rfl ⟨hq.tail, hq.sleep, hq.above, hq.mode⟩ (fun _ => ?_)
      (fun hn => absurd rfl hn) (.inr fun r hr => ⟨?_, hne r⟩)
    · exact ⟨fun stack hs => absurd hs (hpark.top stack), fun hb hl => absurd (hpark.free hb) hl⟩
    · exact fun he => hr (some.inj he).symm
  · obtain ⟨st, d, hx⟩ := htime q
    have hq := h.frame q
    have hpark := h.parked q (hne q)
    rw [hx]
    exact h.put rfl h.fault le_rfl ⟨hq.tail, hq.sleep, hq.above, hq.mode⟩
      (fun he => absurd he (hne q)) (fun _ => ⟨hpark.top, hpark.free⟩) (.inl ⟨rfl, rfl⟩)

lemma moves {e : Event} (hc : blocksLocked s e = true) (hm : Moves s e s') :
    GuardInv s' := by
  cases hm with
  | @enter p b hcur hbase hmode =>
    have hp := h.frame p
    have hlocks := hp.mode (by rw [hmode]; exact nofun)
    exact h.put_cur hcur rfl rfl rfl le_rfl
      ⟨hp.tail, hp.sleep, fun _ _ => hlocks.1, fun hne => absurd rfl hne⟩
      ⟨fun stack hs => absurd ((isBase_iff.mp hbase).1.symm.trans hs) nofun,
        fun _ hl => absurd hlocks.1 hl⟩
  | op hcur hbase hmode ho => exact h.perform hcur hbase hmode hc ho
  | @leave p s' hcur hbase hl =>
    have hp := h.frame p
    obtain ⟨hstack, hin⟩ := isBase_iff.mp hbase
    have hguards : ∀ stack, (s.proc p).stack ≠ .toSched :: stack := fun stack hs =>
      absurd (hstack.symm.trans hs) nofun
    obtain ⟨hmode, rfl⟩ | rfl := leave_cases hl
    · have hlocks := (hp.mode (by rw [hmode]; exact nofun)).1
      exact h.put_cur hcur rfl rfl rfl le_rfl
        ⟨hp.tail, hp.sleep, fun _ _ => hlocks, fun hne => absurd rfl hne⟩
        ⟨fun stack hs => absurd hs (hguards stack), fun _ hl => absurd hlocks hl⟩
    · exact h.put_cur hcur rfl rfl rfl (Nat.add_le_add_left (Nat.zero_le _) _)
        ⟨hp.tail, hp.sleep, fun _ _ => rfl, fun _ => ⟨rfl, hin⟩⟩
        ⟨fun stack hs => absurd hs (hguards stack), fun _ hl => absurd rfl hl⟩
  | @sched p stack hcur hstack =>
    have hp := h.frame p
    obtain ⟨hstate, hintr⟩ := (h.cur p hcur).guards stack hstack
    have htail : .toSched ∉ stack := by
      have ht := hp.tail
      rwa [hstack] at ht
    refine h.put rfl ?_ le_rfl ⟨htail, hp.sleep, fun hin _ => ?_, hp.mode⟩ nofun
      (fun _ => ⟨nofun, fun hb => absurd (isBase_iff.mp hb).1 nofun⟩) (.inr fun q hq => ⟨nofun, ?_⟩)
    · simp [h.fault, hstate, hintr]
    · exact hp.above hin (by rw [hstack]; exact nofun)
    · exact fun he => hq (some.inj (he.symm.trans hcur))
  | resumeSched hcur hstack => exact h.pop hcur hstack rfl rfl rfl rfl
  | resumeTrap hcur hstack => exact h.pop hcur hstack rfl rfl rfl rfl
  | @resumeSleep p c b hcur hstack hsleep =>
    have hp := h.frame p
    obtain rfl := hp.sleep c b hsleep
    refine h.put_cur hcur rfl rfl rfl le_rfl ⟨hp.tail, fun _ _ hb => absurd hb nofun,
      fun _ hne => absurd hstack hne, fun hm => ⟨(hp.mode hm).1, rfl⟩⟩ ⟨fun st hs => ?_, fun _ _ => rfl⟩
    exact absurd (hstack.symm.trans hs) nofun
  | timer hintr => exact h.timer hintr
  | irq _ => exact h.wakeup _
  | scan hcur => exact h.scan hcur

end

end GuardInv

/-- In every run in which system calls block only with a spinlock of their own, `sched` is always
called with interrupts off and a process that is not `RUNNING`. -/
theorem sched_never_panics {l : List Nat} {ts : List (Transition Sys Event)} {s : Sys}
    (hr : Run Step (start l) ts s) (hblock : ∀ t ∈ ts, blocksLocked t.source t.label = true) :
    s.fault = false := by
  have hstep : ∀ s e s', GuardInv s → blocksLocked s e = true → Step s e s' → GuardInv s' :=
    fun s e s' hi hc hs => hi.moves hc (moves_of_step hs)
  have hcond : ∀ t ∈ ts, (fun s e => blocksLocked s e = true) t.source t.label := hblock
  exact (hr.invariant_of_forall (GuardInv.start l) hcond hstep).fault

/-- Two processes wait for the disk one after the other, with the timer in between, and exit. -/
theorem sched_never_panics_two : ∃ ts s, Run Step (start [1, 2]) ts s ∧
    ((s.proc 1).state = .zombie ∧ (s.proc 2).state = .zombie ∧ s.cur = none) ∧ s.fault = false := by
  obtain ⟨ts, b, s, hr, hc, hP⟩ := follow_run blocksLocked [1, 2]
    [.scan, .leave, .enter true, .op .acquire, .op (.sleep 7), .sched, .scan, .leave, .timer, .sched,
      .scan, .scan, .scan, .resume, .leave, .enter true, .op (.wakeup 7), .timer, .sched, .scan, .scan,
      .resume, .resume, .op .release, .op .exit, .sched, .scan, .resume, .resume, .op .exit, .sched]
    (fun b s => b && decide ((s.proc 1).state = .zombie ∧ (s.proc 2).state = .zombie ∧ s.cur = none))
    (by decide)
  rw [Bool.and_eq_true] at hP
  exact ⟨ts, s, hr, of_decide_eq_true hP.2, sched_never_panics hr (hc hP.1)⟩

/-- The first process makes one system call that leaves it to the scheduler. -/
def firstCall (o : Op) : List Event := [.scan, .leave, .enter true, .op o, .sched]

lemma panics_of_follow {o : Op} (h : (follow blocksLocked [1] (firstCall o)).any (fun x => x.2.fault) = true) :
    ∃ ts b s, follow blocksLocked [1] (firstCall o) = some (b, s) ∧ Run Step (start [1]) ts s ∧
      s.fault = true := by
  obtain ⟨⟨b, s⟩, hf, hfault⟩ := Option.any_eq_true .. |>.mp h
  obtain ⟨ts, hr, -⟩ := Run.exists_of_foldlM Run.nil nofun hf
  exact ⟨ts, b, s, hf, hr, hfault⟩

/-- `sched_yield`, `nanosleep` of a second, and the `sleep` of `wait4` as the first system call. -/
theorem sched_panics :
    (∃ ts b s, follow blocksLocked [1] (firstCall .yield) = some (b, s) ∧ Run Step (start [1]) ts s ∧
      s.fault = true) ∧
    (∃ ts b s, follow blocksLocked [1] (firstCall (.nanosleep 1 0)) = some (b, s) ∧
      Run Step (start [1]) ts s ∧ s.fault = true) ∧
    (∃ ts b s, follow blocksLocked [1] (firstCall (.sleep 1)) = some (b, s) ∧ Run Step (start [1]) ts s ∧
      s.fault = true) := by
  refine ⟨panics_of_follow ?_, panics_of_follow ?_, panics_of_follow ?_⟩ <;> decide

end Hana.Sched
