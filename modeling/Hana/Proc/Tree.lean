import Hana.Proc.Wakeup

/-!
# The list and the tree of processes

From `proc_init` on, with every operation as one step up to its call of `sched`: the list stays a
doubly linked list, every process but `init_proc` has a parent on it, and a process leaves it only
as a zombie that its parent waits for. A zombie has no children, since `do_exit` gives them to
`init_proc` and a zombie does not run again, so no parent goes before its children do.
-/

namespace Hana.Tree

open Lib Vm Proc Wait List Option

variable {A : Type}

/-- The kernel with the process that has the CPU, or zero. -/
structure Machine (A : Type) where
  k : Kernel A
  cur : Nat

/-- The loop of `kill`. -/
def kill (pid : Nat) : (fuel p : Nat) → Kernel A → Option (Int × Kernel A)
  | 0, _, _ => none
  | fuel + 1, p, k =>
    if p = 0 then some (-1, k)
    else if (k.task p).pid = pid then some (0, k.setTask p (Wakeup.killTask (k.task p)))
    else kill pid fuel (k.task p).next k

/-- `sleep(chan)` up to `sched`, and the same for `nanosleep`. -/
def sleep (chan : Nat) (s : Machine A) : Machine A :=
  { k := s.k.setTask s.cur { s.k.task s.cur with chan := chan, state := .sleeping }, cur := 0 }

inductive Event where
  /-- The scheduler comes to a process that is `RUNNABLE`. -/
  | schedule (p : Nat)
  /-- The scheduler comes to a process whose `sleeping_due` is over. -/
  | timeout (p : Nat)
  | yield
  | sleep (chan : Nat)
  | nanosleep
  /-- The end of `sleep`. -/
  | awake
  | wakeup (chan : Nat)
  | kill (pid : Nat)
  | spawn (child : Nat)
  | exit (status : Nat)
  | wait4 (status options : Nat)

/-- The steps of the kernel. A new process is at an address from `kcalloc`, which is none of the
processes; its `upagetable` and its areas may be any. -/
def step (E : Env A) (s : Machine A) : Event → Machine A → Prop
  | .schedule p, s' => s.cur = 0 ∧ (∃ xs, Chain s.k xs ∧ p ∈ xs) ∧ (s.k.task p).state = .runnable ∧
      s' = { k := s.k.setTask p { s.k.task p with state := .running }, cur := p }
  | .timeout p, s' => s.cur = 0 ∧ (∃ xs, Chain s.k xs ∧ p ∈ xs) ∧ (s.k.task p).state = .sleeping ∧
      s' = { s with k := s.k.setTask p { s.k.task p with state := .runnable } }
  | .yield, s' => s.cur ≠ 0 ∧
      s' = { k := s.k.setTask s.cur { s.k.task s.cur with state := .runnable }, cur := 0 }
  | .sleep chan, s' => s.cur ≠ 0 ∧ s' = sleep chan s
  | .nanosleep, s' => s.cur ≠ 0 ∧ s' = sleep (s.k.task s.cur).chan s
  | .awake, s' => s.cur ≠ 0 ∧
      s' = { s with k := s.k.setTask s.cur { s.k.task s.cur with chan := 0 } }
  | .wakeup chan, s' => ∃ fuel k, wakeup fuel s.cur chan s.k = some k ∧ s' = { s with k := k }
  | .kill pid, s' => s.cur ≠ 0 ∧
      ∃ fuel res k, kill pid fuel s.k.procList s.k = some (res, k) ∧ s' = { s with k := k }
  | .spawn child, s' => s.cur ≠ 0 ∧ child ≠ 0 ∧ (∀ xs, Chain s.k xs → child ∉ xs) ∧ ∃ t m u,
      t.state = .runnable ∧ t.parent = s.cur ∧
      s' = { s with k := { pushProc child t s.k with mem := m, upgtbl := u } }
  | .exit status, s' => s.cur ≠ 0 ∧ s.cur ≠ s.k.initProc ∧
      ∃ fuel k, doExit fuel s.cur status s.k = some k ∧ s' = { k := k, cur := 0 }
  | .wait4 status options, s' => s.cur ≠ 0 ∧ ∃ fuel,
      (∃ c k, sysWait4 E fuel s.cur status options s.k = some (.ret c k) ∧ s' = { s with k := k }) ∨
      (sysWait4 E fuel s.cur status options s.k = some .sleep ∧ s' = sleep s.cur s)

/-- What `proc_init` leaves. -/
structure Booted (s : Machine A) : Prop where
  cur : s.cur = 0
  first : s.k.procList = s.k.initProc
  init : s.k.initProc ≠ 0
  links : (s.k.task s.k.initProc).next = 0 ∧ (s.k.task s.k.initProc).prev = 0
  state : (s.k.task s.k.initProc).state = .runnable

/-! ## What has to hold -/

/-- The list is finite, ends in `NULL`, has no duplicates and its first process has no `prev`;
every process but `init_proc` has a parent on it. -/
def Sound (s : Machine A) : Prop :=
  ∃ xs, Chain s.k xs ∧ xs.Nodup ∧ (s.k.task s.k.procList).prev = 0 ∧
    ∀ p ∈ xs, p ≠ s.k.initProc → (s.k.task p).parent ∈ xs

def Event.isWait4 : Event → Prop
  | .wait4 _ _ => True
  | _ => False

/-- A process leaves the list only as a zombie, in a `wait4` of its parent, and a zombie stays
one. -/
def Orderly (s : Machine A) (e : Event) (s' : Machine A) : Prop :=
  ∀ xs xs', Chain s.k xs → Chain s'.k xs' → ∀ p ∈ xs,
    (p ∉ xs' → e.isWait4 ∧ (s.k.task p).state = .zombie ∧ (s.k.task p).parent = s.cur) ∧
    (p ∈ xs' → (s.k.task p).state = .zombie → (s'.k.task p).state = .zombie)

/-! ## Steps that leave the list and the tree alone -/

/-- The list, the parents and the zombies are as before. -/
structure Kept (k k' : Kernel A) : Prop where
  list : SameList k k'
  init : k'.initProc = k.initProc
  parent : ∀ p, (k'.task p).parent = (k.task p).parent
  zombie : ∀ p, (k'.task p).state = .zombie ↔ (k.task p).state = .zombie

/-- And a process that is `RUNNING` is so afterwards. -/
structure Calm (k k' : Kernel A) : Prop extends Kept k k' where
  running : ∀ p, (k.task p).state = .running → (k'.task p).state = .running

variable {t : Task} {fuel status : Nat} {ys : List Nat} {e : Event}

section

variable {E : Env A} {k k1 k' : Kernel A} {s s' : Machine A} {xs : List Nat} {p cur : Nat}

lemma Kept.refl (k : Kernel A) : Kept k k :=
  ⟨SameList.refl k, rfl, fun _ => rfl, fun _ => Iff.rfl⟩

lemma Kept.trans (h : Kept k k1) (h' : Kept k1 k') : Kept k k' :=
  ⟨h.list.trans h'.list, h'.init.trans h.init, fun p => (h'.parent p).trans (h.parent p),
    fun p => (h'.zombie p).trans (h.zombie p)⟩

lemma kept_setTask (hpid : t.pid = (k.task p).pid) (hnext : t.next = (k.task p).next)
    (hprev : t.prev = (k.task p).prev) (hparent : t.parent = (k.task p).parent)
    (hzombie : t.state = .zombie ↔ (k.task p).state = .zombie) : Kept k (k.setTask p t) := by
  refine ⟨sameList_setTask hpid hnext hprev, rfl, fun q => ?_, fun q => ?_⟩
  all_goals
    rw [setTask_task]
    split_ifs with hq
  · rw [hq]
    exact hparent
  · rfl
  · rw [hq]
    exact hzombie
  · exact Iff.rfl

/-- A change of the state of a process that is no zombie. -/
lemma kept_setState (hpid : t.pid = (k.task p).pid) (hnext : t.next = (k.task p).next)
    (hprev : t.prev = (k.task p).prev) (hparent : t.parent = (k.task p).parent)
    (hnew : t.state ≠ .zombie) (hold : (k.task p).state ≠ .zombie) : Kept k (k.setTask p t) :=
  kept_setTask hpid hnext hprev hparent ⟨fun h => absurd h hnew, fun h => absurd h hold⟩

lemma Calm.refl (k : Kernel A) : Calm k k := ⟨Kept.refl k, fun _ h => h⟩

lemma Calm.trans (h : Calm k k1) (h' : Calm k1 k') : Calm k k' :=
  ⟨h.toKept.trans h'.toKept, fun p hp => h'.running p (h.running p hp)⟩

lemma calm_setTask (h : Kept k (k.setTask p t))
    (hrun : (k.task p).state = .running → t.state = .running) : Calm k (k.setTask p t) := by
  refine ⟨h, fun q hq => ?_⟩
  rw [setTask_task]
  split_ifs with hqp
  · exact hrun (hqp ▸ hq)
  · exact hq

lemma wakeTask_calm (chan q : Nat) (k : Kernel A) : Calm k (wakeTask cur chan q k) := by
  unfold wakeTask
  split_ifs with hc
  · refine calm_setTask (kept_setState rfl rfl rfl rfl nofun ?_) fun hr => ?_
    · rw [hc.2.1]
      exact nofun
    · exact absurd (hr.symm.trans hc.2.1) nofun
  · exact Calm.refl k

lemma wakeup_calm {chan : Nat} (h : wakeup fuel cur chan k = some k') : Calm k k' :=
  eachProc_keeps Calm.refl Calm.trans (wakeTask_calm chan) h

lemma killTask_zombie (t : Task) : (Wakeup.killTask t).state = .zombie ↔ t.state = .zombie := by
  unfold Wakeup.killTask
  by_cases hs : t.state = .sleeping <;> simp [hs]

lemma kill_calm {pid : Nat} {res : Int} (h : kill pid fuel p k = some (res, k')) : Calm k k' := by
  induction fuel generalizing p with
  | zero => cases h
  | succ fuel ih =>
    rw [kill] at h
    split_ifs at h
    · cases h
      exact Calm.refl k
    · cases h
      refine calm_setTask (kept_setTask rfl rfl rfl rfl (killTask_zombie _)) fun hr => ?_
      simp [Wakeup.killTask, hr]
    · exact ih h

/-! ## exit -/

/-- What `reparent` does to the tree. -/
structure Reparented (cur : Nat) (k k' : Kernel A) : Prop where
  list : SameList k k'
  init : k'.initProc = k.initProc
  parent : ∀ p, (k'.task p).parent = (k.task p).parent ∨
    ((k.task p).parent = cur ∧ (k'.task p).parent = k.initProc)
  zombie : ∀ p, (k'.task p).state = .zombie ↔ (k.task p).state = .zombie

lemma Kept.reparented (h : Kept k k') : Reparented cur k k' :=
  ⟨h.list, h.init, fun p => .inl (h.parent p), h.zombie⟩

lemma Reparented.trans (h : Reparented cur k k1) (h' : Reparented cur k1 k') : Reparented cur k k' := by
  refine ⟨h.list.trans h'.list, h'.init.trans h.init, fun p => ?_,
    fun p => (h'.zombie p).trans (h.zombie p)⟩
  rcases h.parent p with hp | ⟨hp, hp'⟩ <;> rcases h'.parent p with hq | ⟨hq, hq'⟩
  · exact .inl (hq.trans hp)
  · exact .inr ⟨hp.symm.trans hq, hq'.trans h.init⟩
  · exact .inr ⟨hp, hq.trans hp'⟩
  · exact .inr ⟨hp, hq'.trans h.init⟩

/-- One turn of the loop of `reparent`. -/
lemma reparentTurn_reparented (hinit : cur ≠ k.initProc)
    (h : (if (k.task p).parent = cur then
      wakeup fuel cur k.initProc (k.setTask p { k.task p with parent := k.initProc }) else some k) =
        some k') :
    Reparented cur k k' ∧ (k'.task p).parent ≠ cur := by
  split_ifs at h with hp
  · have hkept := (wakeup_calm h).toKept
    have hset : Reparented cur k (k.setTask p { k.task p with parent := k.initProc }) := by
      refine ⟨sameList_setTask rfl rfl rfl, rfl, fun q => ?_, fun q => ?_⟩
      all_goals
        rw [setTask_task]
        split_ifs with hq
      · rw [hq]
        exact .inr ⟨hp, rfl⟩
      · exact .inl rfl
      · rw [hq]
      · exact Iff.rfl
    refine ⟨hset.trans hkept.reparented, ?_⟩
    rw [hkept.parent, setTask_task, if_pos rfl]
    exact hinit.symm
  · cases h
    exact ⟨(Kept.refl k).reparented, hp⟩

lemma Reparented.parent_ne (h : Reparented cur k k') (hp : (k.task p).parent ≠ cur) :
    (k'.task p).parent ≠ cur := by
  rcases h.parent p with heq | ⟨heq, -⟩
  · rw [heq]
    exact hp
  · exact absurd heq hp

/-- The loop gives every child in the part of the list before it to `init_proc`. -/
lemma reparentLoop_reparented {b a : Nat} (hinit : cur ≠ k.initProc) (hl : ChainFrom k b a ys)
    (h : reparentLoop cur fuel a k = some k') :
    Reparented cur k k' ∧ ∀ p ∈ ys, (k'.task p).parent ≠ cur := by
  induction fuel generalizing b a ys k with
  | zero => cases h
  | succ fuel ih =>
    rw [reparentLoop] at h
    cases ys with
    | nil =>
      have ha : a = 0 := hl
      rw [if_pos ha] at h
      cases h
      exact ⟨(Kept.refl _).reparented, fun p hp => by cases hp⟩
    | cons y ys =>
      obtain ⟨rfl, hne, _, hl⟩ := hl
      rw [if_neg hne] at h
      obtain ⟨k1, hturn, h⟩ := bind_eq_some_iff.mp h
      obtain ⟨h1, hp⟩ := reparentTurn_reparented hinit hturn
      have hl1 : ChainFrom k1 a (k1.task a).next ys := by
        rw [(h1.list.task a).2.1]
        exact NullList.congr hl fun u _ => (h1.list.task u).2
      have hinit1 : cur ≠ k1.initProc := by rwa [h1.init]
      obtain ⟨h2, hys⟩ := ih hinit1 hl1 h
      refine ⟨h1.trans h2, fun q hq => ?_⟩
      rcases mem_cons.mp hq with rfl | hq
      · exact h2.parent_ne hp
      · exact hys q hq

/-- After `do_exit` the process is a zombie without children. -/
lemma doExit_cases (hc : Chain k xs) (hinit : cur ≠ k.initProc)
    (h : doExit fuel cur status k = some k') :
    SameList k k' ∧ k'.initProc = k.initProc ∧
      (∀ p, (k'.task p).parent = (k.task p).parent ∨
        ((k.task p).parent = cur ∧ (k'.task p).parent = k.initProc)) ∧
      (∀ p ∈ xs, (k'.task p).parent ≠ cur) ∧
      ∀ p, (k'.task p).state = .zombie ↔ p = cur ∨ (k.task p).state = .zombie := by
  obtain ⟨k1, hparent, h⟩ := bind_eq_some_iff.mp h
  obtain ⟨k2, hwake, h⟩ := bind_eq_some_iff.mp h
  cases h
  obtain ⟨h1, hnone⟩ := reparentLoop_reparented hinit hc hparent
  have hkept := (wakeup_calm hwake).toKept
  have h2 := h1.trans hkept.reparented
  have hlast : ∀ q, ((k2.setTask cur { k2.task cur with status := status, state := .zombie }).task
      q).parent = (k2.task q).parent := by
    intro q
    rw [setTask_task]
    split_ifs with hq
    · rw [hq]
    · rfl
  refine ⟨h2.list.trans (sameList_setTask rfl rfl rfl), h2.init, fun p => ?_, fun p hp => ?_, fun p => ?_⟩
  · rw [hlast]
    exact h2.parent p
  · rw [hlast, hkept.parent]
    exact hnone p hp
  · rw [setTask_task]
    split_ifs with hp
    · exact ⟨fun _ => .inl hp, fun _ => rfl⟩
    · rw [h2.zombie]
      exact ⟨.inr, fun hor => hor.resolve_left hp⟩

/-! ## The invariant -/

structure TreeOk (s : Machine A) (xs : List Nat) : Prop where
  chain : Chain s.k xs
  init : s.k.initProc ∈ xs
  alive : (s.k.task s.k.initProc).state ≠ .zombie
  parent : ∀ p ∈ xs, p ≠ s.k.initProc → (s.k.task p).parent ∈ xs
  childless : ∀ p ∈ xs, (s.k.task p).state = .zombie → ∀ q ∈ xs, q ≠ s.k.initProc →
    (s.k.task q).parent ≠ p
  cur : s.cur ≠ 0 → s.cur ∈ xs ∧ (s.k.task s.cur).state = .running

lemma Chain.eq (h : Chain k xs) (h' : Chain k ys) : xs = ys := NullList.unique h h'

lemma Booted.treeOk (h : Booted s) : TreeOk s [s.k.initProc] where
  chain := by
    refine ⟨h.first, h.init, h.links.2, ?_⟩
    exact h.links.1
  init := mem_singleton.mpr rfl
  alive := by
    rw [h.state]
    exact nofun
  parent p hp hne := absurd (mem_singleton.mp hp) hne
  childless p hp hz q hq hne := absurd (mem_singleton.mp hq) hne
  cur hc := absurd h.cur hc

/-- The records after the last lines of `fork`. -/
lemma pushProc_parent_state (child : Nat) (t : Task) (k : Kernel A) (q : Nat) :
    ((pushProc child t k).task q).parent = (if q = child then t.parent else (k.task q).parent) ∧
      ((pushProc child t k).task q).state = (if q = child then t.state else (k.task q).state) := by
  have hparent := congrArg Task.parent (pushProc_body child t k q)
  have hstate := congrArg Task.state (pushProc_body child t k q)
  refine ⟨Eq.trans hparent ?_, Eq.trans hstate ?_⟩
  all_goals split_ifs <;> rfl

namespace TreeOk

lemma sound (h : TreeOk s xs) : Sound s := by
  refine ⟨xs, h.chain, h.chain.nodup, ?_, h.parent⟩
  cases xs with
  | nil => exact absurd h.init not_mem_nil
  | cons x xs =>
    obtain ⟨hx, -, hprev, -⟩ := h.chain
    rw [hx]
    exact hprev

/-- A step that leaves the list and the tree alone. -/
lemma kept (h : TreeOk s xs) (hk : Kept s.k s'.k)
    (hcur : s'.cur ≠ 0 → s'.cur ∈ xs ∧ (s'.k.task s'.cur).state = .running) : TreeOk s' xs where
  chain := hk.list.chain h.chain
  init := hk.init ▸ h.init
  alive := by
    rw [hk.init, Ne, hk.zombie]
    exact h.alive
  parent p hp hne := by
    rw [hk.parent]
    exact h.parent p hp (hk.init ▸ hne)
  childless p hp hz q hq hne := by
    rw [hk.parent]
    exact h.childless p hp ((hk.zombie p).mp hz) q hq (hk.init ▸ hne)
  cur := hcur

lemma exit (h : TreeOk s xs) (hinit : s.cur ≠ s.k.initProc)
    (hk : doExit fuel s.cur status s.k = some k') : TreeOk { k := k', cur := 0 } xs := by
  obtain ⟨hlist, hi, hparent, hnone, hzombie⟩ := doExit_cases h.chain hinit hk
  refine ⟨hlist.chain h.chain, ?_, ?_, fun p hp hne => ?_, fun p hp hz q hq hne => ?_,
    fun hc => absurd rfl hc⟩
  · rw [hi]
    exact h.init
  · rw [hi, Ne, hzombie]
    exact fun hor => hor.elim (fun heq => hinit heq.symm) h.alive
  · rw [hi] at hne
    rcases hparent p with heq | ⟨-, heq⟩
    · exact heq ▸ h.parent p hp hne
    · exact heq ▸ h.init
  · rw [hi] at hne
    rcases (hzombie p).mp hz with rfl | hz
    · exact hnone q hq
    · -- an older zombie gets no child, since `init_proc` is none
      rcases hparent q with heq | ⟨-, heq⟩
      · exact heq ▸ h.childless p hp hz q hq hne
      · intro hp'
        refine h.alive ?_
        rw [← heq.symm.trans hp'] at hz
        exact hz

lemma spawn {child : Nat} {m : Mem A} {u : Nat → Upagetable} (h : TreeOk s xs)
    (hcur : s.cur ≠ 0) (hnull : child ≠ 0) (hnew : child ∉ xs) (hstate : t.state = .runnable)
    (hparent : t.parent = s.cur) :
    TreeOk { s with k := { pushProc child t s.k with mem := m, upgtbl := u } } (child :: xs) := by
  have hold : ∀ q ∈ xs, ((pushProc child t s.k).task q).parent = (s.k.task q).parent ∧
      ((pushProc child t s.k).task q).state = (s.k.task q).state := by
    intro q hq
    have hne : q ≠ child := fun heq => hnew (heq ▸ hq)
    obtain ⟨hp, hs⟩ := pushProc_parent_state child t s.k q
    exact ⟨hp.trans (if_neg hne), hs.trans (if_neg hne)⟩
  have hchild : ((pushProc child t s.k).task child).parent = s.cur ∧
      ((pushProc child t s.k).task child).state = .runnable := by
    obtain ⟨hp, hs⟩ := pushProc_parent_state child t s.k child
    exact ⟨(hp.trans (if_pos rfl)).trans hparent, (hs.trans (if_pos rfl)).trans hstate⟩
  obtain ⟨hcmem, hrun⟩ := h.cur hcur
  refine ⟨(pushProc_chain (t := t) h.chain hnull hnew).1, mem_cons_of_mem _ h.init, ?_, ?_, ?_, ?_⟩
  · show ((pushProc child t s.k).task s.k.initProc).state ≠ .zombie
    rw [(hold _ h.init).2]
    exact h.alive
  · intro p hp hne
    rcases mem_cons.mp hp with rfl | hp
    · rw [hchild.1]
      exact mem_cons_of_mem _ hcmem
    · rw [(hold p hp).1]
      exact mem_cons_of_mem _ (h.parent p hp hne)
  · intro p hp hz q hq hne
    rcases mem_cons.mp hp with rfl | hp
    · rw [hchild.2] at hz
      cases hz
    · rw [(hold p hp).2] at hz
      rcases mem_cons.mp hq with rfl | hq
      · rw [hchild.1]
        rintro rfl
        rw [hrun] at hz
        cases hz
      · rw [(hold q hq).1]
        exact h.childless p hp hz q hq hne
  · intro _
    refine ⟨mem_cons_of_mem _ hcmem, ?_⟩
    rw [(hold _ hcmem).2]
    exact hrun

end TreeOk

/-! ## wait4 -/

lemma freeproc_init (h : freeproc E p k = some k') : k'.initProc = k.initProc ∧ p ≠ k.initProc := by
  by_cases hp : p = k.initProc
  · rw [freeproc, if_pos hp] at h
    cases h
  rw [freeproc, if_neg hp] at h
  refine ⟨?_, hp⟩
  obtain ⟨k1, htable, h⟩ := bind_eq_some_iff.mp h
  obtain ⟨k2, hremove, h⟩ := bind_eq_some_iff.mp h
  obtain ⟨m, -, h⟩ := bind_eq_some_iff.mp h
  cases h
  have h1 : k1.initProc = k.initProc := by
    split_ifs at htable
    · obtain ⟨m, u, rfl, -⟩ := procFreePagetable_cases htable
      rfl
    · cases htable
      rfl
  have h2 : k2.initProc = k1.initProc := by
    obtain ⟨k3, hfirst, hremove⟩ := bind_eq_some_iff.mp hremove
    cases hremove
    rw [relink_rest]
    split_ifs at hfirst <;> cases hfirst <;> rfl
  exact h2.trans h1

/-- A turn of `wait4` that returns leaves everything alone, or takes one zombie among the children
of the caller out of the list. -/
lemma sysWait4_tree {options : Nat} {c : Int} (hc : Chain k xs)
    (h : sysWait4 E fuel cur status options k = some (.ret c k')) :
    Calm k k' ∨ ∃ p l1 l2, xs = l1 ++ p :: l2 ∧ (k.task p).state = .zombie ∧ (k.task p).parent = cur ∧
      Chain k' (l1 ++ l2) ∧ k'.initProc = k.initProc ∧ p ≠ k.initProc ∧
      ∀ q, (k'.task q).parent = (k.task q).parent ∧ (k'.task q).state = (k.task q).state := by
  rcases scan_cases hc h with ⟨-, rfl⟩ | ⟨p, hfind, hreap⟩
  · exact .inl (Calm.refl k')
  · obtain ⟨res, m, -, ⟨-, -, rfl⟩ | ⟨-, -, hfree⟩⟩ := reap_cases hreap
    · exact .inl ⟨⟨⟨rfl, rfl, fun _ => ⟨rfl, rfl, rfl⟩⟩, rfl, fun _ => rfl, fun _ => Iff.rfl⟩,
        fun _ hr => hr⟩
    · have hz : reapable k cur p = true := List.find?_some hfind
      simp only [reapable, Bool.and_eq_true, decide_eq_true_iff] at hz
      obtain ⟨l1, l2, rfl⟩ := append_of_mem (List.mem_of_find?_eq_some hfind)
      have hmem : Kept k { k with mem := m } :=
        ⟨⟨rfl, rfl, fun _ => ⟨rfl, rfl, rfl⟩⟩, rfl, fun _ => rfl, fun _ => Iff.rfl⟩
      have hkept : Kept k ({ k with mem := m }.setTask p { k.task p with waited := true }) := by
        refine hmem.trans ?_
        exact kept_setTask rfl rfl rfl rfl Iff.rfl
      obtain ⟨hfreed, hc'⟩ := freeproc_freed (hkept.list.chain hc) hfree
      obtain ⟨hi, hne⟩ := freeproc_init hfree
      refine .inr ⟨p, l1, l2, rfl, hz.2, hz.1.1, hc', hi, hne, fun q => ?_⟩
      have hparent := congrArg Task.parent (hfreed.body q)
      have hstate := congrArg Task.state (hfreed.body q)
      refine ⟨Eq.trans hparent ?_, Eq.trans hstate ?_⟩
      all_goals
        rw [setTask_task]
        split_ifs with hq
        · rw [hq]
          rfl
        · rfl

namespace TreeOk

/-- A zombie without children goes. -/
lemma reaped {l1 l2 : List Nat} (h : TreeOk s (l1 ++ p :: l2)) (hz : (s.k.task p).state = .zombie)
    (hc : Chain k' (l1 ++ l2)) (hi : k'.initProc = s.k.initProc) (hp : p ≠ s.k.initProc)
    (htask : ∀ q, (k'.task q).parent = (s.k.task q).parent ∧ (k'.task q).state = (s.k.task q).state) :
    TreeOk { s with k := k' } (l1 ++ l2) := by
  have hmem : ∀ q, q ∈ l1 ++ p :: l2 → q ≠ p → q ∈ l1 ++ l2 := by
    intro q hq hne
    rcases mem_append.mp hq with hq | hq
    · exact mem_append_left _ hq
    · exact mem_append.mpr (.inr ((mem_cons.mp hq).resolve_left hne))
  have hsub : ∀ q, q ∈ l1 ++ l2 → q ∈ l1 ++ p :: l2 := fun q hq =>
    mem_append.mpr ((mem_append.mp hq).imp_right (mem_cons_of_mem _))
  have hpmem : p ∈ l1 ++ p :: l2 := mem_append_right _ mem_cons_self
  refine ⟨hc, ?_, ?_, fun q hq hne => ?_, fun q hq hqz r hr hne => ?_, fun hcur => ?_⟩
  · rw [hi]
    exact hmem _ h.init hp.symm
  · rw [hi, (htask _).2]
    exact h.alive
  · rw [hi] at hne
    rw [(htask q).1]
    exact hmem _ (h.parent q (hsub q hq) hne) (h.childless p hpmem hz q (hsub q hq) hne)
  · rw [hi] at hne
    rw [(htask r).1]
    exact h.childless q (hsub q hq) ((htask q).2.symm.trans hqz) r (hsub r hr) hne
  · obtain ⟨hcmem, hrun⟩ := h.cur hcur
    refine ⟨hmem _ hcmem fun heq => ?_, (htask s.cur).2.trans hrun⟩
    rw [heq, hz] at hrun
    cases hrun

end TreeOk

/-- A step keeps the list and the tree in order. -/
def Keeps (s : Machine A) (e : Event) (s' : Machine A) : Prop := (∃ xs, TreeOk s' xs) ∧ Orderly s e s'

lemma orderly_of_lists (hc : Chain s.k xs) (hc' : Chain s'.k ys)
    (h : ∀ p ∈ xs, (p ∉ ys → e.isWait4 ∧ (s.k.task p).state = .zombie ∧ (s.k.task p).parent = s.cur) ∧
      (p ∈ ys → (s.k.task p).state = .zombie → (s'.k.task p).state = .zombie)) : Orderly s e s' := by
  intro zs zs' hzs hzs'
  rw [← Chain.eq hc hzs, ← Chain.eq hc' hzs']
  exact h

lemma TreeOk.keeps_kept (h : TreeOk s xs) (hk : Kept s.k s'.k)
    (hcur : s'.cur ≠ 0 → s'.cur ∈ xs ∧ (s'.k.task s'.cur).state = .running) : Keeps s e s' :=
  ⟨⟨xs, h.kept hk hcur⟩, orderly_of_lists h.chain (hk.list.chain h.chain) fun p hp =>
    ⟨fun hn => absurd hp hn, fun _ hz => (hk.zombie p).mpr hz⟩⟩

lemma TreeOk.keeps_calm (h : TreeOk s xs) (hk : Calm s.k k') :
    Keeps s e { s with k := k' } :=
  h.keeps_kept hk.toKept fun hc => ⟨(h.cur hc).1, hk.running _ (h.cur hc).2⟩

/-- The process that has the CPU sleeps or yields. -/
lemma TreeOk.keeps_leave (h : TreeOk s xs) (hcur : s.cur ≠ 0)
    (hpid : t.pid = (s.k.task s.cur).pid) (hnext : t.next = (s.k.task s.cur).next)
    (hprev : t.prev = (s.k.task s.cur).prev) (hparent : t.parent = (s.k.task s.cur).parent)
    (hstate : t.state ≠ .zombie) : Keeps s e { k := s.k.setTask s.cur t, cur := 0 } := by
  refine h.keeps_kept (kept_setState hpid hnext hprev hparent hstate ?_) fun hc => absurd rfl hc
  rw [(h.cur hcur).2]
  exact nofun

lemma step_keeps (h : TreeOk s xs) (hs : step E s e s') : Keeps s e s' := by
  cases e with
  | schedule p =>
    obtain ⟨-, ⟨ys, hys, hp⟩, hstate, rfl⟩ := hs
    rw [← Chain.eq h.chain hys] at hp
    refine h.keeps_kept (kept_setState rfl rfl rfl rfl nofun ?_) fun _ => ⟨hp, ?_⟩
    · rw [hstate]
      exact nofun
    · rw [setTask_task, if_pos rfl]
  | timeout p =>
    obtain ⟨hcur, -, hstate, rfl⟩ := hs
    refine h.keeps_kept (kept_setState rfl rfl rfl rfl nofun ?_) fun hc => absurd hcur hc
    rw [hstate]
    exact nofun
  | yield =>
    obtain ⟨hcur, rfl⟩ := hs
    exact h.keeps_leave hcur rfl rfl rfl rfl nofun
  | sleep chan =>
    obtain ⟨hcur, rfl⟩ := hs
    exact h.keeps_leave hcur rfl rfl rfl rfl nofun
  | nanosleep =>
    obtain ⟨hcur, rfl⟩ := hs
    exact h.keeps_leave hcur rfl rfl rfl rfl nofun
  | awake =>
    obtain ⟨-, rfl⟩ := hs
    exact h.keeps_calm (calm_setTask (kept_setTask rfl rfl rfl rfl Iff.rfl) fun hr => hr)
  | wakeup chan =>
    obtain ⟨fuel, k', hk, rfl⟩ := hs
    exact h.keeps_calm (wakeup_calm hk)
  | kill pid =>
    obtain ⟨-, fuel, res, k', hk, rfl⟩ := hs
    exact h.keeps_calm (kill_calm hk)
  | spawn child =>
    obtain ⟨hcur, hnull, hnew, t, m, u, hstate, hparent, rfl⟩ := hs
    have hmem := hnew xs h.chain
    have h' := h.spawn (m := m) (u := u) hcur hnull hmem hstate hparent
    refine ⟨⟨_, h'⟩, orderly_of_lists h.chain h'.chain fun p hp => ⟨fun hn => ?_, fun _ hz => ?_⟩⟩
    · exact absurd (mem_cons_of_mem _ hp) hn
    · have hne : p ≠ child := fun heq => hmem (heq ▸ hp)
      exact ((pushProc_parent_state _ _ _ p).2.trans (if_neg hne)).trans hz
  | exit status =>
    obtain ⟨-, hinit, fuel, k', hk, rfl⟩ := hs
    have h' := h.exit hinit hk
    refine ⟨⟨_, h'⟩, orderly_of_lists h.chain h'.chain fun p hp => ⟨fun hn => absurd hp hn, fun _ hz => ?_⟩⟩
    exact ((doExit_cases h.chain hinit hk).2.2.2.2 p).mpr (.inr hz)
  | wait4 status options =>
    obtain ⟨hcur, fuel, ⟨c, k', hw, rfl⟩ | ⟨-, rfl⟩⟩ := hs
    · rcases sysWait4_tree h.chain hw with hk | ⟨p, l1, l2, rfl, hz, hparent, hc, hi, hp, htask⟩
      · exact h.keeps_calm hk
      · have h' := h.reaped hz hc hi hp htask
        refine ⟨⟨_, h'⟩, orderly_of_lists h.chain h'.chain fun q hq => ⟨fun hn => ?_, fun _ hqz => ?_⟩⟩
        · obtain rfl : q = p := by
            by_contra hne
            rcases mem_append.mp hq with hq | hq
            · exact hn (mem_append_left _ hq)
            · exact hn (mem_append.mpr (.inr ((mem_cons.mp hq).resolve_left hne)))
          exact ⟨trivial, hz, hparent⟩
        · exact (htask q).2.trans hqz
    · exact h.keeps_leave hcur rfl rfl rfl rfl nofun

/-- From `proc_init` on, in every run: the list and the tree of processes are sound, processes leave
the list only as zombies that their parent waits for, and zombies stay zombies. -/
theorem tree_sound {s₀ : Machine A} {ts : List (Transition (Machine A) Event)} (hboot : Booted s₀)
    (hr : Run (step E) s₀ ts s) : Sound s ∧ ∀ t ∈ ts, Orderly t.source t.label t.target := by
  have hstart : ∃ xs, TreeOk s₀ xs := ⟨_, hboot.treeOk⟩
  have hstep : ∀ s e s', (∃ xs, TreeOk s xs) → True → step E s e s' →
      (∃ xs, TreeOk s' xs) ∧ Orderly s e s' := by
    rintro s e s' ⟨xs, h⟩ - hs
    exact step_keeps h hs
  have htriv : ∀ t ∈ ts, (fun _ _ => True : Machine A → Event → Prop) t.source t.label :=
    fun _ _ => trivial
  obtain ⟨xs, h⟩ := hr.invariant hstart fun s e s' hi hs => (hstep s e s' hi trivial hs).1
  exact ⟨h.sound, hr.forall_of_forall hstart htriv hstep⟩

/-! ## The root -/

/-- The links to the parents lead from every process of the list to `init_proc`. -/
def Rooted (k : Kernel A) : Prop := ∀ xs, Chain k xs → ∀ p ∈ xs,
  Relation.ReflTransGen (fun p q => (k.task p).parent = q) p k.initProc

/-- The links of the processes stay or go to `init_proc`, and a new process has one of them as its
parent. -/
lemma TreeOk.rooted (h : TreeOk s xs) (hr : Rooted s.k) (hi : k'.initProc = s.k.initProc)
    (hc : Chain k' ys) (hold : ∀ q ∈ xs, (k'.task q).parent = (s.k.task q).parent ∨
      (k'.task q).parent = s.k.initProc)
    (hnew : ∀ p ∈ ys, p ∈ xs ∨ (k'.task p).parent ∈ xs) : Rooted k' := by
  have hxs : ∀ p ∈ xs, Relation.ReflTransGen (fun p q => (k'.task p).parent = q) p k'.initProc := by
    intro p hp
    rw [hi]
    induction hr xs h.chain p hp using Relation.ReflTransGen.head_induction_on with
    | refl => exact .refl
    | @head p q hq _ ih =>
      by_cases hne : p = s.k.initProc
      · rw [hne]
      · rcases hold p hp with heq | heq
        · exact .head (heq.trans hq) (ih (hq ▸ h.parent p hp hne))
        · exact .single heq
  intro zs hzs p hp
  rw [Chain.eq hzs hc] at hp
  rcases hnew p hp with hp | hp
  · exact hxs p hp
  · exact .head rfl (hxs _ hp)

lemma step_rooted (h : TreeOk s xs) (hr : Rooted s.k) (hs : step E s e s') : Rooted s'.k := by
  have hsame : ∀ {k' : Kernel A}, SameList s.k k' → k'.initProc = s.k.initProc →
      (∀ q, (k'.task q).parent = (s.k.task q).parent ∨ (k'.task q).parent = s.k.initProc) →
      Rooted k' := fun hl hi hold =>
    h.rooted hr hi (hl.chain h.chain) (fun q _ => hold q) fun p hp => .inl hp
  have hcalm : ∀ {k' : Kernel A}, Calm s.k k' → Rooted k' := fun hk =>
    hsame hk.list hk.init fun q => .inl (hk.parent q)
  have hset : ∀ q chan state,
      Rooted (s.k.setTask q { s.k.task q with chan := chan, state := state }) := by
    intro q chan state
    refine hsame (sameList_setTask rfl rfl rfl) rfl fun r => .inl ?_
    rw [setTask_task]
    split_ifs with hr
    · rw [hr]
    · rfl
  cases e with
  | schedule | timeout =>
    obtain ⟨-, -, -, rfl⟩ := hs
    exact hset _ _ _
  | yield | sleep | nanosleep | awake =>
    obtain ⟨-, rfl⟩ := hs
    exact hset _ _ _
  | wakeup chan =>
    obtain ⟨fuel, k', hk, rfl⟩ := hs
    exact hcalm (wakeup_calm hk)
  | kill pid =>
    obtain ⟨-, fuel, res, k', hk, rfl⟩ := hs
    exact hcalm (kill_calm hk)
  | spawn child =>
    obtain ⟨hcur, hnull, hnew, t, m, u, hstate, hparent, rfl⟩ := hs
    have hmem := hnew xs h.chain
    have htask := fun q => (pushProc_parent_state child t s.k q).1
    refine h.rooted hr rfl (h.spawn hcur hnull hmem hstate hparent).chain
      (fun q hq => .inl ((htask q).trans (if_neg (ne_of_mem_of_not_mem hq hmem)))) fun p hp => ?_
    rcases mem_cons.mp hp with rfl | hp
    · rw [htask, if_pos rfl, hparent]
      exact .inr (h.cur hcur).1
    · exact .inl hp
  | exit status =>
    obtain ⟨-, hinit, fuel, k', hk, rfl⟩ := hs
    obtain ⟨hlist, hi, hparent, -⟩ := doExit_cases h.chain hinit hk
    exact hsame hlist hi fun q => (hparent q).imp_right And.right
  | wait4 status options =>
    obtain ⟨hcur, fuel, ⟨c, k', hw, rfl⟩ | ⟨-, rfl⟩⟩ := hs
    · rcases sysWait4_tree h.chain hw with hk | ⟨p, l1, l2, rfl, -, -, hc, hi, -, htask⟩
      · exact hcalm hk
      · refine h.rooted hr hi hc (fun q _ => .inl (htask q).1) fun q hq => .inl ?_
        exact mem_append.mpr ((mem_append.mp hq).imp_right (mem_cons_of_mem _))
    · exact hset _ _ _

/-- In every run the links to the parents make one tree, with `init_proc` at its root. -/
theorem processes_rooted {s₀ : Machine A} {ts : List (Transition (Machine A) Event)}
    (hboot : Booted s₀) (hr : Run (step E) s₀ ts s) : Sound s ∧ Rooted s.k := by
  have hstart : Rooted s₀.k := by
    intro xs hxs p hp
    rw [Chain.eq hxs hboot.treeOk.chain, mem_singleton] at hp
    rw [hp]
  have hstep : ∀ s e s', ((∃ xs, TreeOk s xs) ∧ Rooted s.k) → step E s e s' →
      (∃ xs, TreeOk s' xs) ∧ Rooted s'.k := by
    rintro s e s' ⟨⟨xs, h⟩, hd⟩ hs
    exact ⟨(step_keeps h hs).1, step_rooted h hd hs⟩
  obtain ⟨⟨xs, h⟩, hroot⟩ := hr.invariant ⟨⟨_, hboot.treeOk⟩, hstart⟩ hstep
  exact ⟨h.sound, hroot⟩

end

/-- A record of a process at its creation. -/
def newTask (parent : Nat) : Task where
  pid := 0
  state := .runnable
  pagetable := 0
  killed := false
  chan := 0
  status := 0
  waited := false
  parent := parent
  next := 0
  prev := 0
  vmaList := []

def bootMachine : Machine Unit where
  k := { mem := ⟨(), fun _ => 0, fun _ => 0, fun _ => 0, []⟩, task := fun _ => newTask 0
         upgtbl := fun _ => ⟨0, 0⟩, procList := 1, initProc := 1, nextPid := 2 }
  cur := 0

def bootEnv : Env Unit where
  al := { kalloc := fun _ _ => none, kfree := fun _ a => some a }
  pages := 0
  kernelPagetable := 0

/-- `init_proc` forks, the child exits, and `init_proc` waits for it. -/
theorem tree_sound_reap : ∃ ts s, Run (step bootEnv) bootMachine ts s ∧ s.cur = 1 ∧
    s.k.procList = 1 ∧ (s.k.task 1).next = 0 ∧ ts.length = 7 ∧ Sound s ∧
    ∀ t ∈ ts, Orderly t.source t.label t.target := by
  have hboot : Booted bootMachine := ⟨rfl, rfl, Nat.succ_ne_zero 0, ⟨rfl, rfl⟩, rfl⟩
  have hinit : ∀ {k : Kernel Unit}, k.procList = 1 → (k.task 1).prev = 0 → (k.task 1).next = 0 →
      Chain k [1] := fun hfirst hprev hnext => ⟨hfirst, Nat.succ_ne_zero 0, hprev, hnext⟩
  have h1 : step bootEnv bootMachine (.schedule 1) _ :=
    ⟨rfl, ⟨[1], hinit rfl rfl rfl, mem_singleton.mpr rfl⟩, rfl, rfl⟩
  have hr1 : Run (step bootEnv) bootMachine _ _ := Run.nil.snoc h1
  have hnew : ∀ {k : Kernel Unit}, Chain k [1] → ∀ xs, Chain k xs → 2 ∉ xs := by
    intro k hk xs hxs
    rw [← Chain.eq hk hxs]
    decide
  have hr2 := hr1.snoc (a := Event.spawn 2) ⟨Nat.succ_ne_zero 0, Nat.succ_ne_zero 1,
    hnew (hinit rfl rfl rfl), newTask 1, bootMachine.k.mem, bootMachine.k.upgtbl, rfl, rfl, rfl⟩
  have hpair : ∀ {k : Kernel Unit}, k.procList = 2 → (k.task 2).prev = 0 → (k.task 2).next = 1 →
      (k.task 1).prev = 2 → (k.task 1).next = 0 → Chain k [2, 1] := by
    intro k hfirst hprev hnext hprev' hnext'
    exact ⟨hfirst, Nat.succ_ne_zero 1, hprev, hnext, Nat.succ_ne_zero 0, hprev', hnext'⟩
  have hr3 := hr2.snoc (a := Event.yield) ⟨Nat.succ_ne_zero 0, rfl⟩
  have hr4 := hr3.snoc (a := Event.schedule 2) ⟨rfl, ⟨[2, 1], hpair rfl rfl rfl rfl rfl,
    mem_cons_self⟩, rfl, rfl⟩
  have hr5 := hr4.snoc (a := Event.exit 0) ⟨Nat.succ_ne_zero 1, (by decide : (2 : Nat) ≠ 1), 9, _, rfl, rfl⟩
  have hr6 := hr5.snoc (a := Event.schedule 1) ⟨rfl, ⟨[2, 1], hpair rfl rfl rfl rfl rfl,
    mem_cons_of_mem _ mem_cons_self⟩, rfl, rfl⟩
  have hr7 := hr6.snoc (a := Event.wait4 0 0) ⟨Nat.succ_ne_zero 0, 9, .inl ⟨_, _, rfl, rfl⟩⟩
  exact ⟨_, _, hr7, rfl, rfl, rfl, rfl, tree_sound hboot hr7⟩

/-- `init_proc` forks. -/
theorem processes_rooted_fork : ∃ ts s, Run (step bootEnv) bootMachine ts s ∧ s.k.procList = 2 ∧
    Sound s ∧ Rooted s.k := by
  have hchain : ∀ {k : Kernel Unit}, k.procList = 1 → (k.task 1).prev = 0 → (k.task 1).next = 0 →
      Chain k [1] := fun hfirst hprev hnext => ⟨hfirst, Nat.succ_ne_zero 0, hprev, hnext⟩
  have hr1 : Run (step bootEnv) bootMachine _ _ := Run.nil.snoc (a := Event.schedule 1)
    ⟨rfl, ⟨[1], hchain rfl rfl rfl, mem_singleton.mpr rfl⟩, rfl, rfl⟩
  have hr2 := hr1.snoc (a := Event.spawn 2) ⟨Nat.succ_ne_zero 0, Nat.succ_ne_zero 1, fun xs hxs => by
    rw [← Chain.eq (hchain rfl rfl rfl) hxs]
    decide, newTask 1, bootMachine.k.mem, bootMachine.k.upgtbl, rfl, rfl, rfl⟩
  exact ⟨_, _, hr2, rfl, processes_rooted ⟨rfl, rfl, Nat.succ_ne_zero 0, ⟨rfl, rfl⟩, rfl⟩ hr2⟩

end Hana.Tree
