import Hana.Io.Blk

/-!
# Spinlocks across a sleep

`blkdev_wait_all` sleeps with `rq_list_lock` and `blockdev_bread` sleeps with `dev_lock`, so a
process that comes to one of them in the meantime finds it held by its own CPU. As long as no
process has to wait for the device, nothing of that happens; the first that waits, sleeps with a
spinlock.
-/

namespace Hana.Blk

open Function Lib Hana.Block

section Owner

/-- A lock and the processes that are at places where they have it. -/
def Owned (l : Option Nat) (f : Nat → Bool) : Prop := ∀ q, l = some q ↔ f q = true

variable {l : Option Nat} {f : Nat → Bool} {p : Nat} {b : Bool}

lemma Owned.keep (h : Owned l f) (hb : f p = b) : Owned l (update f p b) := by
  rw [← hb, update_eq_self]
  exact h

lemma Owned.acquire (h : Owned none f) : Owned (some p) (update f p true) := by
  intro q
  by_cases hq : q = p
  · subst hq
    simp
  · rw [update_of_ne hq, ← h q]
    simp [Ne.symm hq]

lemma Owned.release (h : Owned l f) (hp : f p = true) : Owned none (update f p false) := by
  intro q
  by_cases hq : q = p
  · subst hq
    simp
  · have hl : l = some p := (h p).mpr hp
    rw [update_of_ne hq, ← h q, hl]
    simp [Ne.symm hq]

end Owner

/-- The places at which a process has `rq_list_lock` between two steps. -/
def hasRqListLock : Pc → Bool
  | .waitAt _ => true
  | .waitWake _ _ => true
  | _ => false

/-- The places at which a process has `dev_lock`. -/
def hasDevLock : Pc → Bool
  | .submitWait => true
  | .sleep _ => true
  | .wake _ => true
  | .unlock => true
  | _ => false

/-- A process that goes to sleep leaves the CPU without a spinlock, and no assertion of
`spinlock_acquire` fails. -/
structure Unlocked (s s' : Sys) : Prop where
  sleeps : ∀ p, (s.proc p).chan = none → (s'.proc p).chan ≠ none →
    s'.rqListLock = none ∧ s'.devLock = none
  asserts : s'.panicked = false

/-- The step does not sleep: the request that `blkdev_wait_all` comes to is done, and the step is
not the wait of `blkdev_submit_req_wait`. -/
def staysAwake (s : Sys) : Event → Bool
  | .step p _ =>
    match (s.proc p).pc with
    | .waitAt (r :: _) => s.status r != .init
    | .sleep _ => false
    | _ => true
  | _ => true

structure LockInv (s : Sys) : Prop where
  panicked : s.panicked = false
  awake : ∀ p, (s.proc p).chan = none ∧ waitsFor (s.proc p).pc = none
  rqListLock : Owned s.rqListLock fun q => hasRqListLock (s.proc q).pc
  devLock : Owned s.devLock fun q => hasDevLock (s.proc q).pc

namespace LockInv

variable {s s' : Sys} {p : Nat}

lemma start : LockInv start where
  panicked := rfl
  awake _ := ⟨rfl, rfl⟩
  rqListLock q := by simp [Blk.start, hasRqListLock]
  devLock q := by simp [Blk.start, hasDevLock]

variable {t : Sys} {pc : Pc}

lemma at_goto (g : Pc → Bool) (hproc : ∀ q, (t.proc q).pc = (s.proc q).pc) :
    (fun q => g ((t.goto p pc).proc q).pc) = update (fun q => g (s.proc q).pc) p (g pc) := by
  funext q
  by_cases hq : q = p
  · subst hq
    simp
  · rw [goto_proc_of_ne p t pc hq, update_of_ne hq, hproc]

variable {e : Event}

section

variable (h : LockInv s)
include h

/-- A step that sleeps neither before nor after. -/
lemma goto (hproc : ∀ q, (t.proc q).pc = (s.proc q).pc ∧ (t.proc q).chan = (s.proc q).chan)
    (hpanic : t.panicked = s.panicked) (hwaits : waitsFor pc = none)
    (hrq : Owned t.rqListLock (update (fun q => hasRqListLock (s.proc q).pc) p (hasRqListLock pc)))
    (hdev : Owned t.devLock (update (fun q => hasDevLock (s.proc q).pc) p (hasDevLock pc))) :
    LockInv (t.goto p pc) := by
  refine ⟨hpanic.trans h.panicked, fun q => ?_, ?_, ?_⟩
  · by_cases hq : q = p
    · subst hq
      have hchan : (t.proc q).chan = none := (hproc q).2.trans (h.awake q).1
      simp [Sys.goto, hwaits, hchan]
    · rw [goto_proc_of_ne p t pc hq, (hproc q).1, (hproc q).2]
      exact h.awake q
  · rw [at_goto hasRqListLock fun q => (hproc q).1]
    exact hrq
  · rw [at_goto hasDevLock fun q => (hproc q).1]
    exact hdev

/-- No lock that a process comes to is held. -/
lemma lock_free (hl : s.lets (some p) = true) :
    (hasRqListLock (s.proc p).pc = false → s.rqListLock = none) ∧
      (hasDevLock (s.proc p).pc = false → s.devLock = none) := by
  obtain ⟨-, hrq, hdev⟩ := lets_cases hl
  constructor
  · intro hp
    cases hq : s.rqListLock with
    | none => rfl
    | some q =>
      obtain rfl : q = p := Option.some.inj ((hrq q hq).resolve_right fun hw => hw (h.awake q).2)
      exact absurd (((h.rqListLock q).mp hq).symm.trans hp) nofun
  · intro hp
    cases hq : s.devLock with
    | none => rfl
    | some q =>
      obtain rfl : q = p := Option.some.inj ((hdev q hq).resolve_right fun hw => hw (h.awake q).2)
      exact absurd (((h.devLock q).mp hq).symm.trans hp) nofun

/-- A step that leaves the locks as they are. -/
lemma goto_same {pc' : Pc} (hpc : (s.proc p).pc = pc)
    (hproc : ∀ q, (t.proc q).pc = (s.proc q).pc ∧ (t.proc q).chan = (s.proc q).chan)
    (hpanic : t.panicked = s.panicked) (hwaits : waitsFor pc' = none)
    (hrq : t.rqListLock = s.rqListLock) (hdev : t.devLock = s.devLock)
    (hhas : hasRqListLock pc = hasRqListLock pc' ∧ hasDevLock pc = hasDevLock pc') :
    LockInv (t.goto p pc') := by
  subst hpc
  refine h.goto hproc hpanic hwaits ?_ ?_
  · rw [hrq]
    exact h.rqListLock.keep hhas.1
  · rw [hdev]
    exact h.devLock.keep hhas.2

/-- A step that does not sleep finds its locks free. -/
lemma moves (hl : s.lets (some p) = true) (hm : Moves p s s')
    (hw : ∀ r rest, (s.proc p).pc = .waitAt (r :: rest) → s.status r ≠ .init)
    (hsleep : ∀ r, (s.proc p).pc ≠ .sleep r) : LockInv s' := by
  have hsame : ∀ q, (s.proc q).pc = (s.proc q).pc ∧ (s.proc q).chan = (s.proc q).chan :=
    fun _ => ⟨rfl, rfl⟩
  have hnote : ∀ b q, ((s.note p b).proc q).pc = (s.proc q).pc ∧
      ((s.note p b).proc q).chan = (s.proc q).chan := fun b q => ⟨note_pc p q s b, note_chan p q s b⟩
  have hsubmit : ∀ q, ((s.submit p).proc q).pc = (s.proc q).pc ∧
      ((s.submit p).proc q).chan = (s.proc q).chan := fun q => ⟨submit_pc p q s, submit_chan p q s⟩
  cases hm with
  | issued hpc => exact h.goto_same hpc hsame rfl rfl rfl rfl ⟨rfl, rfl⟩
  | noMemory hpc => exact h.goto_same hpc (hnote true) rfl rfl rfl rfl ⟨rfl, rfl⟩
  | issue hpc => exact h.goto_same hpc hsubmit rfl rfl rfl rfl ⟨rfl, rfl⟩
  | rqListLockHeld ht hheld =>
    have hnot : hasRqListLock (s.proc p).pc = false := by
      cases hpc : (s.proc p).pc <;> rw [hpc] at ht <;> first | rfl | cases ht
    exact absurd ((h.lock_free hl).1 hnot) hheld
  | waitAll hpc hfree =>
    refine h.goto hsame rfl rfl ?_ (h.devLock.keep (by rw [hpc]; rfl))
    exact (hfree ▸ h.rqListLock).acquire
  | waited hpc =>
    refine h.goto hsame rfl rfl ?_ (h.devLock.keep (by rw [hpc]; rfl))
    exact h.rqListLock.release (by rw [hpc]; rfl)
  | waitSleep hpc hs => exact absurd hs (hw _ _ hpc)
  | waitNext hpc _ => exact h.goto_same hpc (hnote _) rfl rfl rfl rfl ⟨rfl, rfl⟩
  | waitWake hpc => exact h.goto_same hpc (hnote _) rfl rfl rfl rfl ⟨rfl, rfl⟩
  | freeAll hpc => exact h.goto_same hpc hsame rfl rfl rfl rfl ⟨rfl, rfl⟩
  | devLockHeld hpc hheld =>
    exact absurd ((h.lock_free hl).2 (by rw [hpc]; rfl)) hheld
  | lock hpc hfree =>
    refine h.goto hsame rfl rfl (h.rqListLock.keep (by rw [hpc]; rfl)) ?_
    exact (hfree ▸ h.devLock).acquire
  | noRequest hpc => exact h.goto_same hpc (hnote true) rfl rfl rfl rfl ⟨rfl, rfl⟩
  | submitWait hpc => exact h.goto_same hpc hsubmit rfl rfl rfl rfl ⟨rfl, rfl⟩
  | sleep hpc => exact absurd hpc (hsleep _)
  | wake hpc => exact h.goto_same hpc (hnote _) rfl rfl rfl rfl ⟨rfl, rfl⟩
  | unlock hpc =>
    refine h.goto hsame rfl rfl (h.rqListLock.keep (by rw [hpc]; rfl)) ?_
    exact h.devLock.release (by rw [hpc]; rfl)
  | returned hpc => exact h.goto_same hpc hsame rfl rfl rfl rfl ⟨rfl, rfl⟩

lemma call (hpc : (s.proc p).pc = .idle) (op : Op) : LockInv (s.call p op) := by
  have hplace : ∀ g : Pc → Bool, g op.pc = g .idle →
      (fun q => g ((s.call p op).proc q).pc) = fun q => g (s.proc q).pc := by
    intro g hg
    funext q
    by_cases hq : q = p
    · subst hq
      simp [Sys.call, hg, hpc]
    · simp [Sys.call, hq]
  refine ⟨h.panicked, fun q => ?_, ?_, ?_⟩
  · by_cases hq : q = p
    · subst hq
      cases op <;> simp [Sys.call, Op.pc, waitsFor, (h.awake q).1]
    · simpa [Sys.call, hq] using h.awake q
  · rw [hplace hasRqListLock (by cases op <;> rfl)]
    exact h.rqListLock
  · rw [hplace hasDevLock (by cases op <;> rfl)]
    exact h.devLock

/-- What does not move a process keeps the invariant, since no process sleeps. -/
lemma of_same_pc (hpanic : s'.panicked = s.panicked)
    (hproc : ∀ q, (s'.proc q).pc = (s.proc q).pc ∧ (s'.proc q).chan = none)
    (hrq : s'.rqListLock = s.rqListLock) (hdev : s'.devLock = s.devLock) : LockInv s' := by
  refine ⟨hpanic.trans h.panicked, fun q => ?_, ?_, ?_⟩
  · rw [(hproc q).1]
    exact ⟨(hproc q).2, (h.awake q).2⟩
  · simp only [hproc, hrq]
    exact h.rqListLock
  · simp only [hproc, hdev]
    exact h.devLock

lemma step (hc : staysAwake s e = true) (hs : Step s e s') :
    LockInv s' := by
  obtain ⟨p, op, rfl, -, hpc, rfl⟩ | ⟨p, avail, rfl, hl, -, hm⟩ | ⟨r, ok, rfl, -, -, rfl⟩ |
    ⟨p, rfl, -, rfl⟩ := step_cases hs
  · exact h.call hpc op
  · refine h.moves hl hm (fun r rest hpc => ?_) fun r hpc => ?_
    · simpa [staysAwake, hpc] using hc
    · simp [staysAwake, hpc] at hc
  · refine h.of_same_pc rfl (fun q => ?_) rfl rfl
    have hnone : (s.proc q).chan ≠ some r := by
      rw [(h.awake q).1]
      exact nofun
    change ((s.proc q).wakeup r).pc = _ ∧ ((s.proc q).wakeup r).chan = none
    rw [Proc.wakeup, if_neg hnone]
    exact ⟨rfl, (h.awake q).1⟩
  · refine h.of_same_pc rfl (fun q => ?_) rfl rfl
    by_cases hq : q = p
    · subst hq
      simp [Sys.kill]
    · simpa [Sys.kill, hq] using (h.awake q).1

/-- A step that sleeps does it with a lock. -/
lemma sleeps_locked (hc : staysAwake s e = false) (hs : Step s e s') :
    ∃ p, (s.proc p).chan = none ∧ (s'.proc p).chan ≠ none ∧
      (s'.rqListLock ≠ none ∨ s'.devLock ≠ none) := by
  obtain ⟨p, op, rfl, -, -, rfl⟩ | ⟨p, avail, rfl, -, hchan, hm⟩ | ⟨r, ok, rfl, -, -, rfl⟩ |
    ⟨p, rfl, -, rfl⟩ := step_cases hs
  · cases hc
  · refine ⟨p, hchan, ?_⟩
    cases hm with
    | waitSleep hpc _ =>
      have hlock : s.rqListLock = some p := (h.rqListLock p).mpr (congrArg hasRqListLock hpc)
      refine ⟨by simp [Sys.goto, Sys.sleepOn], .inl ?_⟩
      change s.rqListLock ≠ none
      rw [hlock]
      exact Option.some_ne_none p
    | sleep hpc =>
      have hlock : s.devLock = some p := (h.devLock p).mpr (congrArg hasDevLock hpc)
      refine ⟨by simp [Sys.goto, Sys.sleepOn], .inr ?_⟩
      change s.devLock ≠ none
      rw [hlock]
      exact Option.some_ne_none p
    | rqListLockHeld ht _ =>
      cases hpc : (s.proc p).pc <;> simp_all [staysAwake, takesRqListLock]
    | _ => simp_all [staysAwake]
  · cases hc
  · cases hc

lemma unlocked_iff (hs : Step s e s') :
    Unlocked s s' ↔ staysAwake s e = true := by
  constructor
  · intro hu
    by_contra hc
    obtain ⟨p, hchan, hchan', hlock⟩ := h.sleeps_locked (Bool.not_eq_true _ ▸ hc) hs
    obtain ⟨hrq, hdev⟩ := hu.sleeps p hchan hchan'
    exact hlock.elim (fun hn => hn hrq) fun hn => hn hdev
  · intro hc
    have h' := h.step hc hs
    exact ⟨fun p _ hne => absurd (h'.awake p).1 hne, h'.panicked⟩

end

end LockInv

/-- In every interleaving, no process goes to sleep with a spinlock and no assertion of
`spinlock_acquire` fails exactly if no process ever waits for the device. -/
theorem no_lock_asleep_iff {ts : List (Transition Sys Event)} {s : Sys} (hr : Run Step start ts s) :
    (∀ t ∈ ts, Unlocked t.source t.target) ↔ ∀ t ∈ ts, staysAwake t.source t.label = true := by
  have hstep : ∀ s e s', LockInv s → staysAwake s e = true → Step s e s' → LockInv s' :=
    fun _ _ _ hi hc hs => hi.step hc hs
  have hexact : ∀ s e s', LockInv s → Step s e s' → (Unlocked s s' ↔ staysAwake s e = true) :=
    fun _ _ _ hi hs => hi.unlocked_iff hs
  exact hr.forall_iff LockInv.start hstep hexact

/-- A device that is done before the process waits. -/
theorem no_lock_asleep_quick : ∃ ts s, Run Step start ts s ∧ ((s.proc 0).pc = .returned ∧
    (s.proc 0).own = [0] ∧ s.panicked = false) ∧ ∀ t ∈ ts, Unlocked t.source t.target := by
  obtain ⟨ts, b, s, hr, hc, hP⟩ := follow_run staysAwake [.call 0 (.block 1), .step 0 true,
    .complete 0 true, .step 0 true, .step 0 true, .step 0 true, .step 0 true, .step 0 true]
    (fun b s => b && decide ((s.proc 0).pc = .returned ∧ (s.proc 0).own = [0] ∧ s.panicked = false))
    (by decide)
  rw [Bool.and_eq_true] at hP
  exact ⟨ts, s, hr, of_decide_eq_true hP.2, (no_lock_asleep_iff hr).mpr (hc hP.1)⟩

lemma panicked_of_unlocked {ts : List (Transition Sys Event)} {s : Sys} (hr : Run Step start ts s)
    (h : ∀ t ∈ ts, Unlocked t.source t.target) : s.panicked = false := by
  cases hr with
  | nil => rfl
  | snoc _ _ => exact (h _ (List.mem_append.mpr (.inr (List.mem_singleton.mpr rfl)))).asserts

/-- One process waits for the device, in devfs or in ext4, and a second one starts the same
operation. -/
theorem locked_asleep :
    (∃ ts s, Run Step start ts s ∧ ((s.proc 0).chan = some 0 ∧ s.rqListLock = some 0 ∧
      s.panicked = true) ∧ ¬ ∀ t ∈ ts, Unlocked t.source t.target) ∧
    ∃ ts s, Run Step start ts s ∧ ((s.proc 0).chan = some 0 ∧ s.devLock = some 0 ∧
      s.panicked = true) ∧ ¬ ∀ t ∈ ts, Unlocked t.source t.target := by
  constructor
  · obtain ⟨ts, b, s, hr, -, hP⟩ := follow_run staysAwake [.call 0 (.block 1), .step 0 true,
      .step 0 true, .step 0 true, .step 0 true, .call 1 (.block 1), .step 1 true]
      (fun _ s => decide ((s.proc 0).chan = some 0 ∧ s.rqListLock = some 0 ∧ s.panicked = true))
      (by decide)
    have hs := of_decide_eq_true hP
    exact ⟨ts, s, hr, hs, fun h => absurd ((panicked_of_unlocked hr h).symm.trans hs.2.2) nofun⟩
  · obtain ⟨ts, b, s, hr, -, hP⟩ := follow_run staysAwake [.call 0 .blockdev, .step 0 true,
      .step 0 true, .step 0 true, .call 1 .blockdev, .step 1 true]
      (fun _ s => decide ((s.proc 0).chan = some 0 ∧ s.devLock = some 0 ∧ s.panicked = true))
      (by decide)
    have hs := of_decide_eq_true hP
    exact ⟨ts, s, hr, hs, fun h => absurd ((panicked_of_unlocked hr h).symm.trans hs.2.2) nofun⟩

end Hana.Blk
