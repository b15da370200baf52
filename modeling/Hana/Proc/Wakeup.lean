import Hana.Proc.Wait

/-!
# Wakeups between exit and wait4

`do_exit` and `wait4` as sequences of steps on one CPU. System calls run with interrupts on,
so between any two steps a timer interrupt can take the CPU from a process that is `RUNNING`;
after `p->state = SLEEPING` or `p->state = ZOMBIE` it can not. `sleep` gives the CPU to the
scheduler. A step is one statement of the source, or one turn of a loop over the processes.

A wakeup is lost if a child is a zombie that nobody has waited for while its parent sleeps in
`wait4`. This happens when the parent loses the CPU between its look at the child and the
assignment of `SLEEPING`, or the child between `wakeup` and the assignment of `ZOMBIE`. And
`reparent` gives a zombie to `init_proc` before it wakes it. Runs in which none of this
occurs lose no wakeup.
-/

namespace Hana.Wakeup

open Function Option Lib Vm Proc Wait

variable {A : Type}

/-- The arguments of `wait4` that are used. -/
structure Args where
  status : Nat
  options : Nat
deriving DecidableEq

/-- Where a process is. `user` stands for everything but the two calls. -/
inductive Pc where
  | user
  /-- The loop of `wait4` over the processes, at `p`. -/
  | scan (p : Nat) (hasChild : Bool) (args : Args)
  /-- The branch for the zombie `p`. -/
  | found (p : Nat) (args : Args)
  | free (p : Nat)
  /-- The statements of `sleep`. -/
  | sleepChan (args : Args)
  | sleepState (args : Args)
  | sleepSched (args : Args)
  | sleepEnd (args : Args)
  /-- The loop of `reparent` at `p`, and at `q` the `wakeup` in its body. -/
  | reparent (p status : Nat)
  | reparentWake (p q status : Nat)
  /-- The loop of `wakeup(p->parent)` at `q`. -/
  | wake (q chan status : Nat)
  | setStatus (status : Nat)
  | setZombie
  | exitSched
  | dead
deriving DecidableEq

/-- The kernel with the process that has the CPU, or zero. -/
structure Machine (A : Type) where
  k : Kernel A
  cur : Nat
  pc : Nat → Pc

def Machine.goto (pc : Pc) (s : Machine A) : Machine A :=
  { s with pc := update s.pc s.cur pc }

/-- The next step of the process that has the CPU, inside of a call. -/
def advance (E : Env A) (s : Machine A) : Option (Machine A) :=
  let k := s.k
  let cur := k.task s.cur
  match s.pc s.cur with
  | .user => none
  | .scan p hasChild args =>
    if p = 0 then
      if !hasChild || cur.killed then some (s.goto .user)
      else if has args.options wnohang then some (s.goto .user)
      else some (s.goto (.sleepChan args))
    else if decide ((k.task p).parent = s.cur) && !(k.task p).waited then
      if (k.task p).state = .zombie then some (s.goto (.found p args))
      else some (s.goto (.scan (k.task p).next true args))
    else some (s.goto (.scan (k.task p).next hasChild args))
  | .found p args => do
    let (res, m) ← (if args.status ≠ 0 then
        if (k.task p).pagetable = 0 then none
        else copyout E (k.root p) args.status (leBytes 4 (k.task p).status) k.mem
      else some (0, k.mem))
    let k := { k with mem := m }
    if res < 0 then some ({ s with k := k }.goto .user)
    else some ({ s with k := k.setTask p { k.task p with waited := true } }.goto (.free p))
  | .free p => do
    let k ← freeproc E p k
    some ({ s with k := k }.goto .user)
  | .sleepChan args =>
    some ({ s with k := k.setTask s.cur { cur with chan := s.cur } }.goto (.sleepState args))
  | .sleepState args =>
    some ({ s with k := k.setTask s.cur { cur with state := .sleeping } }.goto (.sleepSched args))
  | .sleepSched args => some { s.goto (.sleepEnd args) with cur := 0 }
  | .sleepEnd args =>
    some ({ s with k := k.setTask s.cur { cur with chan := 0 } }.goto (.scan k.procList false args))
  | .reparent p status =>
    if p = 0 then some (s.goto (.wake k.procList cur.parent status))
    else if (k.task p).parent = s.cur then
      some ({ s with k := k.setTask p { k.task p with parent := k.initProc } }.goto
        (.reparentWake p k.procList status))
    else some (s.goto (.reparent (k.task p).next status))
  | .reparentWake p q status =>
    if q = 0 then some (s.goto (.reparent (k.task p).next status))
    else
      let k := wakeTask s.cur k.initProc q k
      some ({ s with k := k }.goto (.reparentWake p (k.task q).next status))
  | .wake q chan status =>
    if q = 0 then some (s.goto (.setStatus status))
    else
      let k := wakeTask s.cur chan q k
      some ({ s with k := k }.goto (.wake (k.task q).next chan status))
  | .setStatus status =>
    some ({ s with k := k.setTask s.cur { cur with status := status } }.goto .setZombie)
  | .setZombie => some ({ s with k := k.setTask s.cur { cur with state := .zombie } }.goto .exitSched)
  | .exitSched => some { s.goto .dead with cur := 0 }
  | .dead => none

/-- What `kill` does to the record of a process. -/
def killTask (t : Task) : Task :=
  { t with killed := true, state := if t.state = .sleeping then .runnable else t.state }

inductive Event where
  /-- A step inside of `wait4` or `do_exit`. -/
  | run
  | wait4 (args : Args)
  | exit (status : Nat)
  | fork (child : Nat)
  | kill (q : Nat)
  /-- A timer interrupt whose handler calls `yield`. -/
  | tick
  /-- The scheduler switches to `q`. -/
  | pick (q : Nat)

def step (E : Env A) (s : Machine A) : Event → Machine A → Prop
  | .run, s' => s.cur ≠ 0 ∧ advance E s = some s'
  | .wait4 args, s' => s.cur ≠ 0 ∧ s.pc s.cur = .user ∧ s' = s.goto (.scan s.k.procList false args)
  | .exit status, s' => s.cur ≠ 0 ∧ s.pc s.cur = .user ∧ s' = s.goto (.reparent s.k.procList status)
  | .fork child, s' => s.cur ≠ 0 ∧ s.pc s.cur = .user ∧ child ≠ 0 ∧
      (∀ xs, Chain s.k xs → child ∉ xs) ∧ ∃ t : Task, t.parent = s.cur ∧ t.state = .runnable ∧
      t.waited = false ∧
      s' = { s with k := pushProc child t s.k, pc := update s.pc child .user }
  | .kill q, s' => s.cur ≠ 0 ∧ s.pc s.cur = .user ∧
      s' = { s with k := s.k.setTask q (killTask (s.k.task q)) }
  | .tick, s' => s.cur ≠ 0 ∧ (s.k.task s.cur).state = .running ∧
      s' = { s with k := s.k.setTask s.cur { s.k.task s.cur with state := .runnable }, cur := 0 }
  | .pick q, s' => s.cur = 0 ∧ (s.k.task q).state = .runnable ∧
      s' = { s with k := s.k.setTask q { s.k.task q with state := .running }, cur := q }

/-! ## Lost wakeups -/

/-- The child `c` of `p` is a zombie that nobody has waited for. -/
def Unreaped (k : Kernel A) (p c : Nat) : Prop :=
  (k.task c).parent = p ∧ (k.task c).state = .zombie ∧ (k.task c).waited = false

def Asleep (k : Kernel A) (p chan : Nat) : Prop :=
  (k.task p).state = .sleeping ∧ (k.task p).chan = chan

instance (k : Kernel A) (p c : Nat) : Decidable (Unreaped k p c) := by
  unfold Unreaped
  infer_instance

instance (k : Kernel A) (p chan : Nat) : Decidable (Asleep k p chan) := by
  unfold Asleep
  infer_instance

/-- A parent sleeps in `wait4` although there is a zombie for it. -/
def Lost (s : Machine A) : Prop :=
  ∃ xs c p, Chain s.k xs ∧ c ∈ xs ∧ Unreaped s.k p c ∧ Asleep s.k p p

/-- The places where a process must not lose the CPU: from the first look at a child to the
assignment of `SLEEPING`, and from the `wakeup` of the parent to the assignment of `ZOMBIE`. -/
def Pc.window : Pc → Bool
  | .scan _ _ _ => true
  | .sleepChan _ => true
  | .sleepState _ => true
  | .wake _ _ _ => true
  | .setStatus _ => true
  | .setZombie => true
  | _ => false

/-- The event does not disturb a process in its window, and does not hand a zombie to `init_proc`
while that sleeps in `wait4`. -/
def undisturbed (s : Machine A) : Event → Bool
  | .tick => !(s.pc s.cur).window
  | .run =>
    match s.pc s.cur with
    | .reparent p _ => !(decide (p ≠ 0) && decide (Unreaped s.k s.cur p) &&
        decide (Asleep s.k s.k.initProc s.k.initProc))
    | _ => true
  | _ => true

/-! ## The invariant -/

def Alive (t : Task) : Prop := t.state = .sleeping ∨ t.state = .runnable ∨ t.state = .running

/-- The list from `a` on is `ys`. -/
def From (k : Kernel A) (a : Nat) (ys : List Nat) : Prop :=
  ∃ b, ChainFrom k b a ys

/-- What a process in its window knows: the processes that it has passed are no zombies for it, or do
not sleep in a `wait4` for it. -/
def Known (k : Kernel A) (xs : List Nat) (cur : Nat) : Pc → Prop
  | .scan a _ _ => ∃ pre post, xs = pre ++ post ∧ From k a post ∧ ∀ c ∈ pre, ¬ Unreaped k cur c
  | .sleepChan _ => ∀ c ∈ xs, ¬ Unreaped k cur c
  | .sleepState _ => ∀ c ∈ xs, ¬ Unreaped k cur c
  | .wake q chan _ => chan = (k.task cur).parent ∧ ∃ pre post, xs = pre ++ post ∧ From k q post ∧
      ∀ p ∈ pre, ¬ Asleep k p chan
  | .setStatus _ => ∀ p ∈ xs, ¬ Asleep k p (k.task cur).parent
  | .setZombie => ∀ p ∈ xs, ¬ Asleep k p (k.task cur).parent
  | _ => True

/-- The process is about to leave the CPU. -/
def Pc.parked : Pc → Bool
  | .sleepSched _ => true
  | .exitSched => true
  | _ => false

/-- The zombie that a place holds on to. -/
def Pc.zombie : Pc → Option Nat
  | .found p _ => some p
  | .free p => some p
  | _ => none

/-- What holds of the processes, whoever runs. -/
structure Base (k : Kernel A) (pc : Nat → Pc) (xs : List Nat) : Prop where
  chain : Chain k xs
  alive : ∀ q, Alive (k.task q) → q ∈ xs
  none : ∀ c ∈ xs, ∀ p, Unreaped k p c → ¬ Asleep k p p
  held : ∀ q p, (pc q).zombie = some p → p ∈ xs ∧ (k.task p).state = .zombie ∧ (k.task p).parent = q

structure Safe (s : Machine A) (xs : List Nat) : Prop where
  base : Base s.k s.pc xs
  running : s.cur ≠ 0 → (s.k.task s.cur).state = .running ∨ (s.pc s.cur).parked = true
  focus : ∀ q, (s.pc q).window = true → q = s.cur ∧ s.cur ≠ 0
  known : s.cur ≠ 0 → Known s.k xs s.cur (s.pc s.cur)

variable {ys : List Nat} {t : Task} {ev : Event}

section

variable {E : Env A} {s s' : Machine A} {k k' : Kernel A} {pc : Nat → Pc} {xs : List Nat}
variable {p q cur chan : Nat}

variable {c : Pc} {args : Args} {status : Nat}

lemma Known.of_not_window (h : c.window = false) : Known k xs cur c := by
  cases c <;> trivial

lemma not_lost (h : Safe s xs) : ¬ Lost s := by
  rintro ⟨ys, c, p, hc, hmem, hz, hsleep⟩
  have hys : ys = xs := hc.unique h.base.chain
  subst hys
  exact h.base.none c hmem p hz hsleep

/-! ## Changes of the records -/

/-- A change of the records that puts nobody to sleep and makes no zombie. -/
structure Tame (xs : List Nat) (k k' : Kernel A) : Prop where
  same : SameList k k'
  alive : ∀ q, Alive (k'.task q) → q ∈ xs
  unreaped : ∀ {p c}, Unreaped k' p c → Unreaped k p c
  asleep : ∀ {p chan}, Asleep k' p chan → Asleep k p chan
  zombie : ∀ p, (k.task p).state = .zombie → (k'.task p).state = .zombie ∧
    (k'.task p).parent = (k.task p).parent

lemma Tame.base (h : Tame xs k k') (hb : Base k pc xs) : Base k' pc xs := by
  refine ⟨h.same.chain hb.chain, h.alive, ?_, ?_⟩
  · intro c hc p hz hsleep
    exact hb.none c hc p (h.unreaped hz) (h.asleep hsleep)
  · intro q p hp
    obtain ⟨hmem, hstate, hparent⟩ := hb.held q p hp
    obtain ⟨hstate', hparent'⟩ := h.zombie p hstate
    exact ⟨hmem, hstate', hparent'.trans hparent⟩

lemma Tame.refl (h : ∀ q, Alive (k.task q) → q ∈ xs) : Tame xs k k :=
  ⟨SameList.refl k, h, fun hz => hz, fun hs => hs, fun _ hz => ⟨hz, rfl⟩⟩

lemma From.same {a : Nat} (h : From k a ys) (hs : SameList k k') : From k' a ys := by
  obtain ⟨b, h⟩ := h
  exact ⟨b, h.congr fun u _ => (hs.task u).2⟩

/-- A new record for `p`. -/
lemma tame_setTask (hb : Base k pc xs)
    (hlinks : t.pid = (k.task p).pid ∧ t.next = (k.task p).next ∧ t.prev = (k.task p).prev)
    (halive : Alive t → p ∈ xs)
    (hzombie : t.state = .zombie → t.waited = false → (k.task p).state = .zombie ∧ (k.task p).waited = false)
    (hsleep : t.state = .sleeping → (k.task p).state = .sleeping ∧ t.chan = (k.task p).chan)
    (hkeep : (k.task p).state = .zombie → t.state = .zombie)
    (hparent : t.parent = (k.task p).parent) :
    Tame xs k (k.setTask p t) := by
  refine ⟨sameList_setTask hlinks.1 hlinks.2.1 hlinks.2.2, ?_, ?_, ?_, ?_⟩
  · intro q hq
    rw [setTask_task] at hq
    split_ifs at hq with heq
    · rw [heq]
      exact halive hq
    · exact hb.alive q hq
  · intro a c hz
    unfold Unreaped at hz ⊢
    rw [setTask_task] at hz
    split_ifs at hz with heq
    · rw [heq, ← hparent]
      exact ⟨hz.1, hzombie hz.2.1 hz.2.2⟩
    · exact hz
  · intro a chan hs
    unfold Asleep at hs ⊢
    rw [setTask_task] at hs
    split_ifs at hs with heq
    · obtain ⟨hstate, hchan⟩ := hsleep hs.1
      rw [heq, ← hchan]
      exact ⟨hstate, hs.2⟩
    · exact hs
  · intro q hq
    rw [setTask_task]
    split_ifs with heq
    · rw [heq] at hq ⊢
      exact ⟨hkeep hq, hparent⟩
    · exact ⟨hq, rfl⟩

/-- A new record for a process that is neither asleep nor dead, before and after. -/
lemma tame_awake (hb : Base k pc xs)
    (hlinks : t.pid = (k.task p).pid ∧ t.next = (k.task p).next ∧ t.prev = (k.task p).prev)
    (hold : (k.task p).state = .runnable ∨ (k.task p).state = .running)
    (hnew : t.state = .runnable ∨ t.state = .running) (hparent : t.parent = (k.task p).parent) :
    Tame xs k (k.setTask p t) := by
  refine tame_setTask hb hlinks (fun _ => hb.alive p (.inr hold)) (fun hz => ?_) (fun hs => ?_)
    (fun hz => ?_) hparent
  · rcases hnew with hnew | hnew <;> rw [hnew] at hz <;> cases hz
  · rcases hnew with hnew | hnew <;> rw [hnew] at hs <;> cases hs
  · rcases hold with hold | hold <;> rw [hold] at hz <;> cases hz

lemma tame_wakeTask (hb : Base k pc xs) : Tame xs k (wakeTask cur chan q k) := by
  unfold wakeTask
  split_ifs with hwake
  · refine tame_setTask hb ⟨rfl, rfl, rfl⟩ (fun _ => hb.alive q (.inl hwake.2.1)) ?_ ?_ ?_ rfl
    · intro hz
      cases hz
    · intro hs
      cases hs
    · intro hz
      rw [hwake.2.1] at hz
      cases hz
  · exact Tame.refl hb.alive

/-- Only the memory is different. -/
lemma tame_mem (hb : Base k pc xs) (m : Mem A) : Tame xs k { k with mem := m } :=
  ⟨⟨rfl, rfl, fun _ => ⟨rfl, rfl, rfl⟩⟩, hb.alive, fun hz => hz, fun hs => hs, fun _ hz => ⟨hz, rfl⟩⟩

lemma wakeTask_parent : ((wakeTask cur chan q k).task p).parent = (k.task p).parent := by
  unfold wakeTask
  split_ifs
  · rw [setTask_task]
    split_ifs with heq
    · rw [heq]
    · rfl
  · rfl

/-- The fields that are not links. -/
lemma body_fields {u : Task} (h : t.body = u.body) : t.state = u.state ∧ t.chan = u.chan ∧
    t.waited = u.waited ∧ t.parent = u.parent :=
  ⟨(congrArg Task.state h : _), (congrArg Task.chan h : _), (congrArg Task.waited h : _),
    (congrArg Task.parent h : _)⟩

/-- The running process falls asleep while there is no zombie for it, or dies while its parent does
not sleep. -/
lemma Base.park {st : ProcState} (hb : Base k pc xs) (hrun : (k.task cur).state = .running)
    (hsleep : st = .sleeping → ∀ c ∈ xs, ¬ Unreaped k cur c)
    (hzombie : st = .zombie → ∀ p ∈ xs, ¬ Asleep k p (k.task cur).parent) :
    Base (k.setTask cur { k.task cur with state := st }) pc xs := by
  have htask := setTask_task k cur { k.task cur with state := st }
  have hsame : SameList k (k.setTask cur { k.task cur with state := st }) := sameList_setTask rfl rfl rfl
  refine ⟨hsame.chain hb.chain, ?_, ?_, ?_⟩
  · intro q hq
    rw [htask] at hq
    split_ifs at hq with heq
    · exact heq ▸ hb.alive cur (.inr (.inr hrun))
    · exact hb.alive q hq
  · intro c hc a hz hs
    unfold Unreaped at hz
    unfold Asleep at hs
    rw [htask] at hz hs
    split_ifs at hz hs with hcc hac hac
    · exact absurd (hz.2.1.symm.trans hs.1) nofun
    · obtain ⟨ha : (k.task cur).parent = a, hst, _⟩ := hz
      refine hzombie hst a (hb.alive a (.inl hs.1)) ?_
      rw [ha]
      exact hs
    · rw [hac] at hz
      exact hsleep hs.1 c hc hz
    · exact hb.none c hc a hz hs
  · intro q a ha
    obtain ⟨hamem, hstate, hparent⟩ := hb.held q a ha
    have hne : a ≠ cur := by
      rintro rfl
      rw [hrun] at hstate
      cases hstate
    rw [htask, if_neg hne]
    exact ⟨hamem, hstate, hparent⟩

/-! ## Moving on -/

/-- The process that has the CPU goes to another place. -/
lemma Base.goto (hb : Base k pc xs)
    (hheld : ∀ p, c.zombie = some p → p ∈ xs ∧ (k.task p).state = .zombie ∧ (k.task p).parent = cur) :
    Base k (update pc cur c) xs := by
  refine ⟨hb.chain, hb.alive, hb.none, ?_⟩
  intro q p hp
  by_cases hq : q = cur
  · subst hq
    rw [update_self] at hp
    exact hheld p hp
  · rw [update_of_ne hq] at hp
    exact hb.held q p hp

/-- A step after which the same process has the CPU. -/
lemma Safe.move (hcur : s.cur ≠ 0) (hfocus : ∀ q, (s.pc q).window = true → q = s.cur ∧ s.cur ≠ 0)
    (hb : Base k' (update s.pc s.cur c) xs)
    (hrunning : (k'.task s.cur).state = .running ∨ c.parked = true) (hknown : Known k' xs s.cur c) :
    Safe ({ s with k := k' }.goto c) xs := by
  refine ⟨hb, fun _ => ?_, ?_, fun _ => ?_⟩
  · show _ ∨ (update s.pc s.cur c s.cur).parked = true
    rw [update_self]
    exact hrunning
  · intro q (hq : (update s.pc s.cur c q).window = true)
    by_cases heq : q = s.cur
    · exact ⟨heq, hcur⟩
    · rw [update_of_ne heq] at hq
      exact hfocus q hq
  · show Known k' xs s.cur (update s.pc s.cur c s.cur)
    rw [update_self]
    exact hknown

/-- The same, to a place that holds no zombie. -/
lemma Safe.goto (hcur : s.cur ≠ 0) (hfocus : ∀ q, (s.pc q).window = true → q = s.cur ∧ s.cur ≠ 0)
    (hb : Base k' s.pc xs) (hc : c.zombie = none)
    (hrunning : (k'.task s.cur).state = .running ∨ c.parked = true) (hknown : Known k' xs s.cur c) :
    Safe ({ s with k := k' }.goto c) xs := by
  refine move hcur hfocus (hb.goto fun p hp => ?_) hrunning hknown
  rw [hc] at hp
  cases hp

/-- A step after which the scheduler has the CPU. -/
lemma Safe.leave (hfocus : ∀ q, (s.pc q).window = true → q = s.cur ∧ s.cur ≠ 0)
    (hb : Base s.k s.pc xs) (hheld : c.zombie = none) (hc : c.window = false) :
    Safe { s.goto c with cur := 0 } xs := by
  have hno : ∀ p, c.zombie ≠ some p := by
    intro p hp
    rw [hheld] at hp
    cases hp
  refine ⟨hb.goto fun p hp => absurd hp (hno p), fun h => absurd rfl h, ?_, fun h => absurd rfl h⟩
  intro q (hq : (update s.pc s.cur c q).window = true)
  by_cases heq : q = s.cur
  · rw [heq, update_self, hc] at hq
    cases hq
  · rw [update_of_ne heq] at hq
    exact absurd (hfocus q hq).1 heq

/-! ## The steps of the two calls -/

lemma From.nil (h : From k 0 ys) : ys = [] := by
  obtain ⟨b, h⟩ := h
  exact h.nil_of_null

lemma From.cons (h : From k p ys) (hp : p ≠ 0) :
    ∃ ys', ys = p :: ys' ∧ From k (k.task p).next ys' := by
  obtain ⟨b, h⟩ := h
  cases ys with
  | nil => exact absurd h hp
  | cons y ys =>
    obtain ⟨rfl, _, _, h⟩ := h
    exact ⟨ys, rfl, p, h⟩

section

variable (h : Safe s xs)
include h

section

variable (hcur : s.cur ≠ 0)
include hcur

lemma Safe.running_of_pc (hpc : s.pc s.cur = c)
    (hc : c.parked = false) : (s.k.task s.cur).state = .running := by
  refine (h.running hcur).resolve_right ?_
  rw [hpc, hc]
  exact Bool.false_ne_true

lemma scan_safe {hasChild : Bool}
    (hpc : s.pc s.cur = .scan p hasChild args) (hadv : advance E s = some s') : Safe s' xs := by
  have hrun := h.running_of_pc hcur hpc rfl
  have hknown := h.known hcur
  rw [hpc] at hknown
  obtain ⟨pre, post, hxs, hfrom, hpre⟩ := hknown
  have hmove : ∀ c : Pc, c.zombie = none → Known s.k xs s.cur c → Safe (s.goto c) xs := fun c hc hk =>
    Safe.goto hcur h.focus h.base hc (.inl hrun) hk
  simp only [advance, hpc] at hadv
  by_cases hp : p = 0
  · subst hp
    have hall : ∀ c ∈ xs, ¬ Unreaped s.k s.cur c := by
      rw [hxs, hfrom.nil, List.append_nil]
      exact hpre
    rw [if_pos rfl] at hadv
    split_ifs at hadv <;> cases hadv
    · exact hmove _ rfl trivial
    · exact hmove _ rfl trivial
    · exact hmove _ rfl hall
  · obtain ⟨post', hpost, hfrom'⟩ := hfrom.cons hp
    have hpmem : p ∈ xs := by
      rw [hxs, hpost]
      exact List.mem_append_right _ List.mem_cons_self
    -- one more process has been passed
    have hpass : ∀ hasChild', ¬ Unreaped s.k s.cur p →
        Safe (s.goto (.scan (s.k.task p).next hasChild' args)) xs := by
      intro hasChild' hno
      refine hmove _ rfl ⟨pre ++ [p], post', ?_, hfrom', ?_⟩
      · rw [hxs, hpost, List.append_assoc]
        rfl
      · intro c hc
        rcases List.mem_append.mp hc with hc | hc
        · exact hpre c hc
        · rw [List.mem_singleton.mp hc]
          exact hno
    split_ifs at hadv with hchild hstate <;> cases hadv
    · rw [Bool.and_eq_true, decide_eq_true_iff] at hchild
      refine Safe.move hcur h.focus (h.base.goto fun q hq => ?_) (.inl hrun) trivial
      cases hq
      exact ⟨hpmem, hstate, hchild.1⟩
    · exact hpass true fun hz => hstate hz.2.1
    · refine hpass hasChild fun hz => hchild ?_
      rw [Bool.and_eq_true, decide_eq_true_iff, hz.2.2]
      exact ⟨hz.1, rfl⟩

lemma found_safe (hpc : s.pc s.cur = .found p args)
    (hadv : advance E s = some s') : Safe s' xs := by
  have hrun := h.running_of_pc hcur hpc rfl
  obtain ⟨hpmem, hstate, hparent⟩ := h.base.held s.cur p (by rw [hpc]; rfl)
  simp only [advance, hpc, bind_eq_bind] at hadv
  obtain ⟨⟨res, m⟩, _, hadv⟩ := bind_eq_some_iff.mp hadv
  have hmem := tame_mem h.base m
  have hb := hmem.base h.base
  split_ifs at hadv <;> cases hadv
  · exact Safe.goto hcur h.focus hb rfl (.inl hrun) trivial
  · have htame : Tame xs { s.k with mem := m } ({ s.k with mem := m }.setTask p
        { s.k.task p with waited := true }) := by
      refine tame_setTask hb ⟨rfl, rfl, rfl⟩ (fun _ => hpmem) ?_ ?_ (fun hz => hz) rfl
      · intro _ hw
        cases hw
      · intro hs
        exact ⟨hs, rfl⟩
    have hne : s.cur ≠ p := by
      rintro heq
      rw [heq, hstate] at hrun
      cases hrun
    refine Safe.move hcur h.focus ((htame.base hb).goto fun q hq => ?_) (.inl ?_) trivial
    · cases hq
      obtain ⟨hz, hpar⟩ := htame.zombie p hstate
      exact ⟨hpmem, hz, hpar.trans hparent⟩
    · rw [setTask_task, if_neg hne]
      exact hrun

/-- The zombie leaves the list. -/
lemma free_safe (hpc : s.pc s.cur = .free p)
    (hadv : advance E s = some s') : ∃ xs', Safe s' xs' := by
  have hrun := h.running_of_pc hcur hpc rfl
  obtain ⟨hpmem, hstate, hparent⟩ := h.base.held s.cur p (by rw [hpc]; rfl)
  simp only [advance, hpc, bind_eq_bind] at hadv
  obtain ⟨k', hfree, hadv⟩ := bind_eq_some_iff.mp hadv
  cases hadv
  obtain ⟨l1, l2, hxs⟩ := List.append_of_mem hpmem
  have hchain := h.base.chain
  rw [hxs] at hchain
  obtain ⟨hfreed, hchain'⟩ := freeproc_freed hchain hfree
  have hfield := fun q => body_fields (hfreed.body q)
  have hstay : ∀ q ∈ xs, q ≠ p → q ∈ l1 ++ l2 := by
    intro q hq hne
    rw [hxs] at hq
    rcases List.mem_append.mp hq with hq | hq
    · exact List.mem_append_left _ hq
    · exact List.mem_append.mpr (.inr (List.mem_of_ne_of_mem hne hq))
  have hsub : ∀ q ∈ l1 ++ l2, q ∈ xs := by
    intro q hq
    rw [hxs]
    exact List.mem_append.mpr ((List.mem_append.mp hq).imp_right (List.mem_cons_of_mem _))
  refine ⟨l1 ++ l2, Safe.move hcur h.focus ⟨hchain', ?_, ?_, ?_⟩ (.inl ?_) trivial⟩
  · intro q hq
    unfold Alive at hq
    rw [(hfield q).1] at hq
    refine hstay q (h.base.alive q hq) ?_
    rintro rfl
    rw [hstate] at hq
    rcases hq with hq | hq | hq <;> cases hq
  · intro c hc a hz hs
    refine h.base.none c (hsub c hc) a ?_ ?_
    · unfold Unreaped at hz ⊢
      rw [(hfield c).1, (hfield c).2.2.1, (hfield c).2.2.2] at hz
      exact hz
    · unfold Asleep at hs ⊢
      rw [(hfield a).1, (hfield a).2.1] at hs
      exact hs
  · intro q a ha
    have hq : q ≠ s.cur := by
      rintro rfl
      rw [update_self] at ha
      cases ha
    rw [update_of_ne hq] at ha
    obtain ⟨hamem, hastate, haparent⟩ := h.base.held q a ha
    -- the zombie of another process is a child of that one
    have hap : a ≠ p := by
      rintro rfl
      exact hq (haparent.symm.trans hparent)
    rw [(hfield a).1, (hfield a).2.2.2]
    exact ⟨hstay a hamem hap, hastate, haparent⟩
  · rw [(hfield s.cur).1]
    exact hrun

lemma sleepChan_safe (hpc : s.pc s.cur = .sleepChan args)
    (hadv : advance E s = some s') : Safe s' xs := by
  have hrun := h.running_of_pc hcur hpc rfl
  have hknown := h.known hcur
  rw [hpc] at hknown
  simp only [advance, hpc] at hadv
  cases hadv
  have htame : Tame xs s.k (s.k.setTask s.cur { s.k.task s.cur with chan := s.cur }) :=
    tame_awake h.base ⟨rfl, rfl, rfl⟩ (.inr hrun) (.inr hrun) rfl
  refine Safe.goto hcur h.focus (htame.base h.base) rfl (.inl ?_) ?_
  · rw [setTask_task, if_pos rfl]
    exact hrun
  · intro c hc hz
    exact hknown c hc (htame.unreaped hz)

/-- The parent falls asleep, and there is no zombie for it. -/
lemma sleepState_safe (hpc : s.pc s.cur = .sleepState args)
    (hadv : advance E s = some s') : Safe s' xs := by
  have hrun := h.running_of_pc hcur hpc rfl
  have hknown := h.known hcur
  rw [hpc] at hknown
  simp only [advance, hpc] at hadv
  cases hadv
  exact Safe.goto hcur h.focus (h.base.park hrun (fun _ => hknown) nofun) rfl (.inr rfl) trivial

lemma sleepEnd_safe (hpc : s.pc s.cur = .sleepEnd args)
    (hadv : advance E s = some s') : Safe s' xs := by
  have hrun := h.running_of_pc hcur hpc rfl
  simp only [advance, hpc] at hadv
  cases hadv
  have htame : Tame xs s.k (s.k.setTask s.cur { s.k.task s.cur with chan := 0 }) :=
    tame_awake h.base ⟨rfl, rfl, rfl⟩ (.inr hrun) (.inr hrun) rfl
  have hb := htame.base h.base
  refine Safe.goto hcur h.focus hb rfl (.inl ?_) ⟨[], xs, rfl, ⟨0, hb.chain⟩, ?_⟩
  · rw [setTask_task, if_pos rfl]
    exact hrun
  · exact nofun

end

/-- The turn of `reparent` on the process `p`, which gets another parent. -/
lemma reparent_base (hpc : s.pc s.cur = .reparent p status)
    (hparent : (s.k.task p).parent = s.cur)
    (hcond : Unreaped s.k s.cur p → ¬ Asleep s.k s.k.initProc s.k.initProc) :
    Base (s.k.setTask p { s.k.task p with parent := s.k.initProc }) s.pc xs := by
  have htask := setTask_task s.k p { s.k.task p with parent := s.k.initProc }
  have hsame : SameList s.k (s.k.setTask p { s.k.task p with parent := s.k.initProc }) :=
    sameList_setTask rfl rfl rfl
  have hstate : ∀ q, ((s.k.setTask p { s.k.task p with parent := s.k.initProc }).task q).state =
      (s.k.task q).state := by
    intro q
    rw [htask]
    split_ifs with heq
    · rw [heq]
    · rfl
  have hasleep : ∀ {a chan}, Asleep (s.k.setTask p { s.k.task p with parent := s.k.initProc }) a chan →
      Asleep s.k a chan := by
    intro a chan hs
    unfold Asleep at hs ⊢
    rw [htask] at hs
    split_ifs at hs with heq
    · rw [heq]
      exact hs
    · exact hs
  refine ⟨hsame.chain h.base.chain, ?_, ?_, ?_⟩
  · intro q hq
    unfold Alive at hq
    rw [hstate] at hq
    exact h.base.alive q hq
  · intro c hc a hz hs
    unfold Unreaped at hz
    rw [htask] at hz
    split_ifs at hz with heq
    · obtain ⟨ha, hz⟩ := hz
      have ha' : s.k.initProc = a := ha
      subst ha'
      exact hcond ⟨hparent, hz⟩ (hasleep hs)
    · exact h.base.none c hc a hz (hasleep hs)
  · intro q a ha
    obtain ⟨hamem, hz, hap⟩ := h.base.held q a ha
    have hne : a ≠ p := by
      rintro rfl
      have hq : q = s.cur := hap.symm.trans hparent
      rw [hq, hpc] at ha
      cases ha
    rw [hstate, htask, if_neg hne]
    exact ⟨hamem, hz, hap⟩

lemma reparent_safe (hcur : s.cur ≠ 0) (hpc : s.pc s.cur = .reparent p status)
    (hcalm : undisturbed s .run = true) (hadv : advance E s = some s') : Safe s' xs := by
  have hrun := h.running_of_pc hcur hpc rfl
  simp only [advance, hpc] at hadv
  by_cases hp : p = 0
  · rw [if_pos hp] at hadv
    cases hadv
    refine Safe.goto hcur h.focus h.base rfl (.inl hrun) ⟨rfl, [], xs, rfl, ⟨0, h.base.chain⟩, ?_⟩
    exact nofun
  · split_ifs at hadv with hparent <;> cases hadv
    · have hcond : Unreaped s.k s.cur p → ¬ Asleep s.k s.k.initProc s.k.initProc := by
        intro hz hs
        simp only [undisturbed, hpc, hp, hz, hs, ne_eq, not_false_eq_true, decide_true, Bool.and_self,
          Bool.not_true] at hcalm
        cases hcalm
      refine Safe.goto hcur h.focus (reparent_base h hpc hparent hcond) rfl (.inl ?_) trivial
      rw [setTask_task]
      split_ifs with heq
      · rw [← heq]
        exact hrun
      · exact hrun
    · exact Safe.goto hcur h.focus h.base rfl (.inl hrun) trivial

end

lemma wakeTask_running (hrun : (k.task cur).state = .running) :
    ((wakeTask cur chan q k).task cur).state = .running := by
  unfold wakeTask
  split_ifs with hwake
  · rw [setTask_task, if_neg hwake.1.symm]
    exact hrun
  · exact hrun

lemma reparentWake_safe (h : Safe s xs) (hcur : s.cur ≠ 0)
    (hpc : s.pc s.cur = .reparentWake p q status) (hadv : advance E s = some s') : Safe s' xs := by
  have hrun := h.running_of_pc hcur hpc rfl
  simp only [advance, hpc] at hadv
  split_ifs at hadv <;> cases hadv
  · exact Safe.goto hcur h.focus h.base rfl (.inl hrun) trivial
  · exact Safe.goto hcur h.focus ((tame_wakeTask h.base).base h.base) rfl
      (.inl (wakeTask_running hrun)) trivial

/-- After its turn of the loop a process does not sleep on the channel. -/
lemma wakeTask_not_asleep (hrun : (k.task cur).state = .running) :
    ¬ Asleep (wakeTask cur chan q k) q chan := by
  intro hs
  unfold wakeTask at hs
  split_ifs at hs with hwake
  · unfold Asleep at hs
    rw [setTask_task, if_pos rfl] at hs
    cases hs.1
  · refine hwake ⟨?_, hs⟩
    rintro rfl
    rw [hs.1] at hrun
    cases hrun

section

variable (h : Safe s xs)
include h

lemma wake_safe (hcur : s.cur ≠ 0) (hpc : s.pc s.cur = .wake q chan status)
    (hadv : advance E s = some s') : Safe s' xs := by
  have hrun := h.running_of_pc hcur hpc rfl
  have hknown := h.known hcur
  rw [hpc] at hknown
  obtain ⟨hchan, pre, post, hxs, hfrom, hpre⟩ := hknown
  simp only [advance, hpc] at hadv
  by_cases hq : q = 0
  · rw [if_pos hq] at hadv
    cases hadv
    subst hq
    rw [hfrom.nil, List.append_nil] at hxs
    rw [← hxs, hchan] at hpre
    exact Safe.goto hcur h.focus h.base rfl (.inl hrun) hpre
  · rw [if_neg hq] at hadv
    cases hadv
    have htame : Tame xs s.k (wakeTask s.cur chan q s.k) := tame_wakeTask h.base
    obtain ⟨post', hpost, hfrom'⟩ := (hfrom.same htame.same).cons hq
    refine Safe.goto hcur h.focus (htame.base h.base) rfl (.inl (wakeTask_running hrun))
      ⟨?_, pre ++ [q], post', ?_, hfrom', ?_⟩
    · rw [wakeTask_parent]
      exact hchan
    · rw [hxs, hpost, List.append_assoc]
      rfl
    · intro c hc
      rcases List.mem_append.mp hc with hc | hc
      · exact fun hs => hpre c hc (htame.asleep hs)
      · rw [List.mem_singleton.mp hc]
        exact wakeTask_not_asleep hrun

lemma setStatus_safe (hcur : s.cur ≠ 0) (hpc : s.pc s.cur = .setStatus status)
    (hadv : advance E s = some s') : Safe s' xs := by
  have hrun := h.running_of_pc hcur hpc rfl
  have hknown := h.known hcur
  rw [hpc] at hknown
  simp only [advance, hpc] at hadv
  cases hadv
  have htame : Tame xs s.k (s.k.setTask s.cur { s.k.task s.cur with status := status }) :=
    tame_awake h.base ⟨rfl, rfl, rfl⟩ (.inr hrun) (.inr hrun) rfl
  refine Safe.goto hcur h.focus (htame.base h.base) rfl (.inl ?_) ?_
  · rw [setTask_task, if_pos rfl]
    exact hrun
  · intro a ha hs
    rw [setTask_task, if_pos rfl] at hs
    exact hknown a ha (htame.asleep hs)

/-- The child becomes a zombie, and its parent does not sleep. -/
lemma setZombie_safe (hcur : s.cur ≠ 0) (hpc : s.pc s.cur = .setZombie)
    (hadv : advance E s = some s') : Safe s' xs := by
  have hrun := h.running_of_pc hcur hpc rfl
  have hknown := h.known hcur
  rw [hpc] at hknown
  simp only [advance, hpc] at hadv
  cases hadv
  exact Safe.goto hcur h.focus (h.base.park hrun nofun fun _ => hknown) rfl (.inr rfl) trivial

/-- A step inside of the two calls. -/
lemma advance_safe (hcur : s.cur ≠ 0) (hcalm : undisturbed s .run = true)
    (hadv : advance E s = some s') : ∃ xs', Safe s' xs' := by
  cases hpc : s.pc s.cur with
  | user =>
    simp only [advance, hpc] at hadv
    cases hadv
  | scan p hasChild args => exact ⟨xs, scan_safe h hcur hpc hadv⟩
  | found p args => exact ⟨xs, found_safe h hcur hpc hadv⟩
  | free p => exact free_safe h hcur hpc hadv
  | sleepChan args => exact ⟨xs, sleepChan_safe h hcur hpc hadv⟩
  | sleepState args => exact ⟨xs, sleepState_safe h hcur hpc hadv⟩
  | sleepSched args =>
    simp only [advance, hpc] at hadv
    cases hadv
    exact ⟨xs, Safe.leave h.focus h.base rfl rfl⟩
  | sleepEnd args => exact ⟨xs, sleepEnd_safe h hcur hpc hadv⟩
  | reparent p status => exact ⟨xs, reparent_safe h hcur hpc hcalm hadv⟩
  | reparentWake p q status => exact ⟨xs, reparentWake_safe h hcur hpc hadv⟩
  | wake q chan status => exact ⟨xs, wake_safe h hcur hpc hadv⟩
  | setStatus status => exact ⟨xs, setStatus_safe h hcur hpc hadv⟩
  | setZombie => exact ⟨xs, setZombie_safe h hcur hpc hadv⟩
  | exitSched =>
    simp only [advance, hpc] at hadv
    cases hadv
    exact ⟨xs, Safe.leave h.focus h.base rfl rfl⟩
  | dead =>
    simp only [advance, hpc] at hadv
    cases hadv

/-! ## The other events -/

lemma fork_safe {child : Nat} (hpc : s.pc s.cur = .user)
    (hnull : child ≠ 0) (hnew : child ∉ xs) (hstate : t.state = .runnable) :
    Safe { s with k := pushProc child t s.k, pc := update s.pc child .user } (child :: xs) := by
  obtain ⟨hchain, _, _⟩ := pushProc_chain (t := t) h.base.chain hnull hnew
  have hbody := pushProc_body child t s.k
  have hother := fun q (hq : q ≠ child) => body_fields ((hbody q).trans (if_neg hq))
  have hchild : ((pushProc child t s.k).task child).state = .runnable := by
    have hb := congrArg Task.state (hbody child)
    rw [if_pos rfl] at hb
    exact hb.trans hstate
  have hcur : s.cur ≠ 0 → s.cur ≠ child := by
    intro hc heq
    refine hnew (heq ▸ h.base.alive s.cur (.inr (.inr ?_)))
    exact h.running_of_pc hc hpc rfl
  refine ⟨⟨hchain, ?_, ?_, ?_⟩, ?_, ?_, ?_⟩
  · intro q hq
    by_cases heq : q = child
    · exact heq ▸ List.mem_cons_self
    · unfold Alive at hq
      rw [(hother q heq).1] at hq
      exact List.mem_cons_of_mem _ (h.base.alive q hq)
  · intro c hc a hz hs
    have hcc : c ≠ child := by
      rintro rfl
      rw [Unreaped, hchild] at hz
      cases hz.2.1
    have hac : a ≠ child := by
      rintro rfl
      rw [Asleep, hchild] at hs
      cases hs.1
    obtain ⟨hcs, _, hcw, hcp⟩ := hother c hcc
    obtain ⟨has, hach, _, _⟩ := hother a hac
    rw [Unreaped, hcs, hcw, hcp] at hz
    rw [Asleep, has, hach] at hs
    exact h.base.none c (List.mem_of_ne_of_mem hcc hc) a hz hs
  · intro q a (ha : (update s.pc child .user q).zombie = some a)
    have hq : q ≠ child := by
      rintro rfl
      rw [update_self] at ha
      cases ha
    rw [update_of_ne hq] at ha
    obtain ⟨hamem, hz, hparent⟩ := h.base.held q a ha
    have hac : a ≠ child := fun heq => hnew (heq ▸ hamem)
    obtain ⟨has, _, _, hap⟩ := hother a hac
    rw [has, hap]
    exact ⟨List.mem_cons_of_mem _ hamem, hz, hparent⟩
  · intro hc
    refine .inl ?_
    rw [(hother s.cur (hcur hc)).1]
    exact h.running_of_pc hc hpc rfl
  · intro q (hq : (update s.pc child .user q).window = true)
    by_cases heq : q = child
    · rw [heq, update_self] at hq
      cases hq
    · rw [update_of_ne heq] at hq
      exact h.focus q hq
  · intro hc
    refine Known.of_not_window ?_
    show (update s.pc child .user s.cur).window = false
    rw [update_of_ne (hcur hc), hpc]
    rfl

lemma kill_safe (hcur : s.cur ≠ 0) (hpc : s.pc s.cur = .user) :
    Safe { s with k := s.k.setTask q (killTask (s.k.task q)) } xs := by
  have hrun := h.running_of_pc hcur hpc rfl
  have hstate : (s.k.task q).state ≠ .sleeping →
      (killTask (s.k.task q)).state = (s.k.task q).state := fun hs => if_neg hs
  have hwoken : (s.k.task q).state = .sleeping → (killTask (s.k.task q)).state = .runnable :=
    fun hs => if_pos hs
  have htame : Tame xs s.k (s.k.setTask q (killTask (s.k.task q))) := by
    by_cases hs : (s.k.task q).state = .sleeping
    · refine tame_setTask h.base ⟨rfl, rfl, rfl⟩ (fun _ => h.base.alive q (.inl hs)) (fun hz => ?_)
        (fun hz => ?_) (fun hz => ?_) rfl
      · rw [hwoken hs] at hz
        cases hz
      · rw [hwoken hs] at hz
        cases hz
      · rw [hs] at hz
        cases hz
    · refine tame_setTask h.base ⟨rfl, rfl, rfl⟩ (fun hal => ?_) (fun hz hw => ⟨?_, hw⟩)
        (fun hz => ⟨?_, rfl⟩) (fun hz => ?_) rfl
      · rw [Alive, hstate hs] at hal
        exact h.base.alive q hal
      · rw [← hstate hs]
        exact hz
      · rw [← hstate hs]
        exact hz
      · rw [hstate hs]
        exact hz
  refine ⟨htame.base h.base, fun _ => .inl ?_, h.focus, fun _ => Known.of_not_window ?_⟩
  · rw [setTask_task]
    split_ifs with heq
    · rw [heq] at hrun
      rw [hstate (by rw [hrun]; exact nofun), hrun]
    · exact hrun
  · rw [hpc]
    rfl

lemma tick_safe (hrun : (s.k.task s.cur).state = .running) (hcalm : undisturbed s .tick = true) :
    Safe { s with k := s.k.setTask s.cur { s.k.task s.cur with state := .runnable }, cur := 0 } xs := by
  have htame : Tame xs s.k (s.k.setTask s.cur { s.k.task s.cur with state := .runnable }) :=
    tame_awake h.base ⟨rfl, rfl, rfl⟩ (.inr hrun) (.inl rfl) rfl
  refine ⟨htame.base h.base, fun hc => absurd rfl hc, ?_, fun hc => absurd rfl hc⟩
  intro q hq
  obtain ⟨rfl, _⟩ := h.focus q hq
  rw [undisturbed, hq] at hcalm
  cases hcalm

lemma pick_safe (hcur : s.cur = 0) (hq : (s.k.task q).state = .runnable) :
    Safe { s with k := s.k.setTask q { s.k.task q with state := .running }, cur := q } xs := by
  have htame : Tame xs s.k (s.k.setTask q { s.k.task q with state := .running }) :=
    tame_awake h.base ⟨rfl, rfl, rfl⟩ (.inl hq) (.inr rfl) rfl
  have hno : ∀ a, (s.pc a).window = false := by
    intro a
    rw [Bool.eq_false_iff]
    exact fun ha => (h.focus a ha).2 hcur
  refine ⟨htame.base h.base, fun _ => .inl ?_, fun a ha => ?_, fun _ => Known.of_not_window (hno q)⟩
  · rw [setTask_task, if_pos rfl]
  · have hwin := hno a
    rw [ha] at hwin
    cases hwin

lemma step_safe (hcalm : undisturbed s ev = true) (hs : step E s ev s') : ∃ xs', Safe s' xs' := by
  cases ev with
  | run => exact advance_safe h hs.1 hcalm hs.2
  | wait4 args =>
    obtain ⟨hcur, hpc, rfl⟩ := hs
    refine ⟨xs, Safe.goto hcur h.focus h.base rfl (.inl (h.running_of_pc hcur hpc rfl))
      ⟨[], xs, rfl, ⟨0, h.base.chain⟩, ?_⟩⟩
    exact nofun
  | exit status =>
    obtain ⟨hcur, hpc, rfl⟩ := hs
    exact ⟨xs, Safe.goto hcur h.focus h.base rfl (.inl (h.running_of_pc hcur hpc rfl)) trivial⟩
  | fork child =>
    obtain ⟨_, hpc, hnull, hnew, t, _, hstate, _, rfl⟩ := hs
    exact ⟨child :: xs, fork_safe h hpc hnull (hnew xs h.base.chain) hstate⟩
  | kill q =>
    obtain ⟨hcur, hpc, rfl⟩ := hs
    exact ⟨xs, kill_safe h hcur hpc⟩
  | tick =>
    obtain ⟨_, hrun, rfl⟩ := hs
    exact ⟨xs, tick_safe h hrun hcalm⟩
  | pick q =>
    obtain ⟨hcur, hq, rfl⟩ := hs
    exact ⟨xs, pick_safe h hcur hq⟩

end

/-! ## Runs -/

/-- The processes of the list are ready to run, and nobody is in one of the calls. -/
structure Start (s : Machine A) (xs : List Nat) : Prop where
  cur : s.cur = 0
  pc : ∀ q, s.pc q = .user
  chain : Chain s.k xs
  runnable : ∀ q ∈ xs, (s.k.task q).state = .runnable
  alive : ∀ q, Alive (s.k.task q) → q ∈ xs

lemma Start.safe (h : Start s xs) : Safe s xs := by
  refine ⟨⟨h.chain, h.alive, ?_, ?_⟩, fun hc => absurd h.cur hc, ?_, fun hc => absurd h.cur hc⟩
  · intro c hc p hz
    rw [Unreaped, h.runnable c hc] at hz
    cases hz.2.1
  · intro q p hp
    rw [h.pc q] at hp
    cases hp
  · intro q hq
    rw [h.pc q] at hq
    cases hq

/-- A run in which no process is disturbed in its window loses no wakeup. -/
theorem no_lost_wakeup (hstart : Start s xs) {ts : List (Transition (Machine A) Event)}
    (hr : Run (step E) s ts s') (hcalm : ∀ t ∈ ts, undisturbed t.source t.label = true) : ¬ Lost s' := by
  have hfirst : ∃ xs, Safe s xs := ⟨xs, hstart.safe⟩
  have hstep : ∀ s ev s', (∃ xs, Safe s xs) → undisturbed s ev = true → step E s ev s' →
      ∃ xs, Safe s' xs := by
    intro s ev s' ⟨xs, h⟩ hc hs
    exact step_safe h hc hs
  obtain ⟨xs', hsafe⟩ := hr.invariant_of_forall hfirst hcalm hstep
  exact not_lost hsafe

/-! ## Schedules -/

/-- The event as a function; a `fork` is left out. -/
def perform (E : Env A) (s : Machine A) : Event → Option (Machine A)
  | .run => if s.cur ≠ 0 then advance E s else none
  | .wait4 args =>
    if s.cur ≠ 0 ∧ s.pc s.cur = .user then some (s.goto (.scan s.k.procList false args)) else none
  | .exit status =>
    if s.cur ≠ 0 ∧ s.pc s.cur = .user then some (s.goto (.reparent s.k.procList status)) else none
  | .fork _ => none
  | .kill q =>
    if s.cur ≠ 0 ∧ s.pc s.cur = .user then
      some { s with k := s.k.setTask q (killTask (s.k.task q)) }
    else none
  | .tick =>
    if s.cur ≠ 0 ∧ (s.k.task s.cur).state = .running then
      some { s with k := s.k.setTask s.cur { s.k.task s.cur with state := .runnable }, cur := 0 }
    else none
  | .pick q =>
    if s.cur = 0 ∧ (s.k.task q).state = .runnable then
      some { s with k := s.k.setTask q { s.k.task q with state := .running }, cur := q }
    else none

lemma perform_step (h : perform E s ev = some s') : step E s ev s' := by
  cases ev with
  | run =>
    rw [perform] at h
    split_ifs at h with hc
    exact ⟨hc, h⟩
  | fork child => cases h
  | wait4 args | exit status | kill q | tick | pick q =>
    rw [perform] at h
    split_ifs at h with hc
    cases h
    exact ⟨hc.1, hc.2, rfl⟩

/-- The schedule `evs`, and whether it disturbs nobody. -/
def follow (E : Env A) : List Event → Bool × Machine A → Option (Bool × Machine A)
  | [], x => some x
  | ev :: evs, x => do
    let s ← perform E x.2 ev
    follow E evs (x.1 && undisturbed x.2 ev, s)

lemma follow_run {s0 : Machine A} {evs : List Event} {calm calm' : Bool}
    {ts : List (Transition (Machine A) Event)} (hr : Run (step E) s0 ts s)
    (hcalm : calm = true → ∀ t ∈ ts, undisturbed t.source t.label = true)
    (h : follow E evs (calm, s) = some (calm', s')) :
    ∃ ts', Run (step E) s0 ts' s' ∧
      (calm' = true → ∀ t ∈ ts', undisturbed t.source t.label = true) := by
  induction evs generalizing calm s ts with
  | nil =>
    cases h
    exact ⟨ts, hr, hcalm⟩
  | cons ev evs ih =>
    obtain ⟨s1, hp, h⟩ := bind_eq_some_iff.mp h
    refine ih (hr.snoc (perform_step hp)) ?_ h
    intro hand t ht
    rw [Bool.and_eq_true] at hand
    rcases List.mem_append.mp ht with ht | ht
    · exact hcalm hand.1 t ht
    · rw [List.mem_singleton.mp ht]
      exact hand.2

end

/-- Two processes, of which 1 is the parent of 2. -/
def pair : Machine Unit :=
  ⟨⟨⟨(), fun _ => 0, fun _ => 0, fun _ => 0, []⟩,
    fun a =>
      if a = 2 then ⟨2, .runnable, 0, false, 0, 0, false, 1, 1, 0, []⟩
      else if a = 1 then ⟨1, .runnable, 0, false, 0, 0, false, 0, 0, 2, []⟩
      else ⟨0, .init, 0, false, 0, 0, false, 0, 0, 0, []⟩,
    fun _ => ⟨0, 1⟩, 2, 1, 3⟩, 0, fun _ => .user⟩

/-- An allocator that gives nothing; the schedules below do not ask. -/
def emptyEnv : Env Unit := ⟨⟨fun _ _ => none, fun _ _ => none⟩, 0, 0⟩

lemma pair_start : Start pair [2, 1] := by
  refine ⟨rfl, fun _ => rfl, ⟨rfl, by decide, rfl, rfl, by decide, rfl, rfl⟩, ?_, ?_⟩
  · intro q hq
    simp only [List.mem_cons, List.not_mem_nil, or_false] at hq
    rcases hq with rfl | rfl <;> rfl
  · intro q hq
    by_cases h2 : q = 2
    · exact h2 ▸ List.mem_cons_self
    · by_cases h1 : q = 1
      · exact h1 ▸ List.mem_cons_of_mem _ List.mem_cons_self
      · simp only [Alive, pair, if_neg h2, if_neg h1] at hq
        rcases hq with hq | hq | hq <;> cases hq

/-- What a schedule leaves of the two processes. -/
def view (s : Machine Unit) : List Nat × List ProcState × Bool × Pc :=
  ([s.k.procList, (s.k.task 2).next, (s.k.task 2).prev, (s.k.task 1).next, (s.k.task 1).prev,
    (s.k.task 2).parent, (s.k.task 1).chan], [(s.k.task 2).state, (s.k.task 1).state],
    (s.k.task 2).waited, s.pc 1)

/-- The parent sleeps, and the child is a zombie. -/
lemma lost_of_view {s : Machine Unit} {c : Pc}
    (h : view s = ([2, 1, 0, 0, 2, 1, 1], [.zombie, .sleeping], false, c)) : Lost s := by
  simp only [view, Prod.mk.injEq, List.cons.injEq, and_true] at h
  obtain ⟨⟨hlist, hn2, hp2, hn1, hp1, hparent, hchan⟩, ⟨hz, hs⟩, hw, _⟩ := h
  refine ⟨[2, 1], 2, 1, ?_, List.mem_cons_self, ⟨hparent, hz, hw⟩, hs, hchan⟩
  simp only [Chain, NullList, hlist, hn2, hp2, hn1, hp1]
  decide

/-- The parent sleeps in `wait4`, the child exits, and the parent finds the zombie. -/
theorem no_lost_wakeup_pair :
    ∃ ts s', Run (step emptyEnv) pair ts s' ∧ s'.pc 1 = .found 2 ⟨0, 0⟩ ∧ ¬ Lost s' := by
  have hrun : (follow emptyEnv ([.pick 1, .wait4 ⟨0, 0⟩] ++ List.replicate 6 .run ++
      [.pick 2, .exit 7] ++ List.replicate 9 .run ++ [.pick 1] ++ List.replicate 2 .run)
      (true, pair)).map (fun x => (x.1, view x.2)) =
      some (true, ([2, 1, 0, 0, 2, 1, 0], [.zombie, .running], false, .found 2 ⟨0, 0⟩)) := by
    decide +kernel
  obtain ⟨⟨calm, s'⟩, hf, hview⟩ := map_eq_some_iff.mp hrun
  simp only [Prod.mk.injEq] at hview
  obtain ⟨ts, hr, hcalm⟩ := follow_run Run.nil nofun hf
  have hpc : s'.pc 1 = .found 2 ⟨0, 0⟩ := (Prod.mk.inj (Prod.mk.inj (Prod.mk.inj hview.2).2).2).2
  exact ⟨ts, s', hr, hpc, no_lost_wakeup pair_start hr (hcalm hview.1)⟩

/-- The parent has looked at its child and loses the CPU. The child exits, and the parent goes on to
fall asleep. -/
def lateSleep : List Event :=
  [.pick 1, .wait4 ⟨0, 0⟩] ++ List.replicate 3 .run ++ [.tick, .pick 2, .exit 7] ++
    List.replicate 9 .run ++ [.pick 1] ++ List.replicate 2 .run

/-- The parent sleeps. The child wakes it and loses the CPU, the parent looks at it and falls asleep
again, and the child becomes a zombie. -/
def lateZombie : List Event :=
  [.pick 1, .wait4 ⟨0, 0⟩] ++ List.replicate 6 .run ++ [.pick 2, .exit 7] ++ List.replicate 6 .run ++
    [.tick, .pick 1] ++ List.replicate 7 .run ++ [.pick 2] ++ List.replicate 2 .run

/-- A schedule loses the wakeup if it ends like this. -/
lemma lost_of_follow {evs : List Event} {c : Pc}
    (h : (follow emptyEnv evs (true, pair)).map (fun x => (x.1, view x.2)) =
      some (false, ([2, 1, 0, 0, 2, 1, 1], [.zombie, .sleeping], false, c))) :
    ∃ ts s, follow emptyEnv evs (true, pair) = some (false, s) ∧ Run (step emptyEnv) pair ts s ∧
      Lost s := by
  obtain ⟨⟨calm, s⟩, hf, hview⟩ := map_eq_some_iff.mp h
  obtain ⟨rfl, hview⟩ := Prod.mk.inj hview
  obtain ⟨ts, hr, _⟩ := follow_run Run.nil nofun hf
  exact ⟨ts, s, hf, hr, lost_of_view hview⟩

/-- Both schedules lose the wakeup. -/
theorem wakeup_lost :
    (∃ ts s, follow emptyEnv lateSleep (true, pair) = some (false, s) ∧ Run (step emptyEnv) pair ts s ∧
      Lost s) ∧
    (∃ ts s, follow emptyEnv lateZombie (true, pair) = some (false, s) ∧ Run (step emptyEnv) pair ts s ∧
      Lost s) := by
  constructor
  · have hlate : (follow emptyEnv lateSleep (true, pair)).map (fun x => (x.1, view x.2)) =
        some (false, ([2, 1, 0, 0, 2, 1, 1], [.zombie, .sleeping], false, .sleepSched ⟨0, 0⟩)) := by
      decide +kernel
    exact lost_of_follow hlate
  · have hlate : (follow emptyEnv lateZombie (true, pair)).map (fun x => (x.1, view x.2)) =
        some (false, ([2, 1, 0, 0, 2, 1, 1], [.zombie, .sleeping], false, .sleepEnd ⟨0, 0⟩)) := by
      decide +kernel
    exact lost_of_follow hlate

end Hana.Wakeup
