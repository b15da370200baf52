import Hana.Proc.Sched
import Hana.Proc.Share
import Hana.Proc.Tree

/-!
# The processes in several models

The scheduler keeps of a process its state, its channel and its mark. They are those of the record
in the list, and what a call does to the list is what some operations do to the scheduler. The steps
of `do_exit` and `wait4` without an interrupt between them are the two calls as a whole.
-/

namespace Hana.Wait

open Function Vm

/-! ## The shared page tables -/

/-- The users of a page table are counted as in the model of the shared tables; `f` numbers the
objects. -/
theorem procFreePagetable_cnt {A : Type} {E : Env A} {k k' : Kernel A} {s : Share.Sys} {p : Nat}
    {f : Nat → Nat} (hf : Injective f) (hcnt : ∀ u, (k.upgtbl u).cnt = s.cnt (f u))
    (htable : (s.task (f p)).pagetable = f (k.task p).pagetable)
    (hpos : 0 < s.cnt (f (k.task p).pagetable)) (h : procFreePagetable E p k = some k') (u : Nat) :
    (k'.upgtbl u).cnt = (Share.procFreePagetable (f p) s).cnt (f u) := by
  have hk : k'.upgtbl = update k.upgtbl (k.task p).pagetable
      ⟨k.root p, (k.upgtbl (k.task p).pagetable).cnt - 1⟩ := by
    rw [procFreePagetable] at h
    split_ifs at h
    · cases h
      rfl
    · obtain ⟨m, _, h⟩ := Option.bind_eq_some_iff.mp h
      cases h
      rfl
  have hs : (Share.procFreePagetable (f p) s).cnt =
      update s.cnt (f (k.task p).pagetable) (s.cnt (f (k.task p).pagetable) - 1) := by
    rw [Share.procFreePagetable, htable]
    split_ifs <;> rfl
  rw [hk, hs]
  by_cases hu : u = (k.task p).pagetable
  · rw [hu, update_self, update_self, hcnt]
    exact (Nat.cast_pred hpos).symm
  · rw [update_of_ne hu, update_of_ne (hf.ne hu), hcnt]

end Hana.Wait

namespace Hana.Tree

open Function List Lib Vm Wait
open Sched (perform)

/-! ## The scheduler -/

variable {A : Type} {E : Env A} {k k' : Kernel A} {s s' : Sched.Sys} {xs ys l1 l2 : List Nat}
variable {p q a b cur chan child fuel pid status options : Nat} {c : Int} {t : Task} {x : Sched.Proc}

def SameTask (x : Sched.Proc) (t : Task) : Prop :=
  x.state = t.state ∧ x.chan = t.chan ∧ x.killed = t.killed

/-- The scheduler has the list of the kernel and sees its processes as they are. -/
structure Sees (s : Sched.Sys) (k : Kernel A) (xs : List Nat) : Prop where
  chain : Chain k xs
  list : s.procList = xs
  task : ∀ q ∈ xs, SameTask (s.proc q) (k.task q)

/-- Operations of the process that has the CPU. -/
def Performs (p : Nat) : Sched.Sys → Sched.Sys → Prop :=
  Relation.ReflTransGen fun s s' => ∃ op, perform p s op = some s'

lemma Sees.put (h : Sees s k xs) (hsame : SameList k (k.setTask p t))
    (hlist : s'.procList = s.procList) (hproc : s'.proc = update s.proc p x)
    (hx : p ∈ xs → SameTask x t) : Sees s' (k.setTask p t) xs := by
  refine ⟨hsame.chain h.chain, hlist.trans h.list, fun q hq => ?_⟩
  rw [hproc, setTask_task, update_apply]
  split_ifs with hqp
  · exact hx (hqp ▸ hq)
  · exact h.task q hq

theorem Sees.sleep (h : Sees s k xs) (hs : perform p s (.sleep chan) = some s') :
    Sees s' (Tree.sleep chan ⟨k, p⟩).k xs := by
  cases hs
  exact h.put (sameList_setTask rfl rfl rfl) rfl rfl fun hp => ⟨rfl, rfl, (h.task p hp).2.2⟩

theorem Sees.kill (h : Sees s k xs) (hl : ChainFrom k b a ys) (hsub : ys ⊆ xs)
    (hk : Tree.kill pid fuel a k = some (c, k')) : ∃ s', Performs p s s' ∧ Sees s' k' xs := by
  induction fuel generalizing a b ys with
  | zero => cases hk
  | succ fuel ih =>
    rw [Tree.kill] at hk
    cases ys with
    | nil =>
      have ha : a = 0 := hl
      rw [if_pos ha] at hk
      cases hk
      exact ⟨s, .refl, h⟩
    | cons y ys =>
      obtain ⟨rfl, hne, _, hl⟩ := hl
      obtain ⟨ha, hsub⟩ := cons_subset.mp hsub
      rw [if_neg hne] at hk
      split_ifs at hk with hpid
      · cases hk
        obtain ⟨hstate, hchan, _⟩ := h.task a ha
        refine ⟨_, .single ⟨.kill a, if_pos (h.list ▸ ha)⟩, ?_⟩
        refine h.put (sameList_setTask rfl rfl rfl) rfl rfl fun _ => ⟨?_, hchan, rfl⟩
        simp only [Sched.Proc.kill, Wakeup.killTask, hstate]
      · exact ih hl hsub hk

/-- The loop of `wakeup` wakes the processes that sleep on the channel, and leaves the others. -/
lemma eachProc_wakeTask
    (hl : ChainFrom k b a xs)
    (h : eachProc (wakeTask cur chan) fuel a k = some k') (q : Nat) : k'.task q =
      if q ∈ xs ∧ q ≠ cur ∧ (k.task q).state = .sleeping ∧ (k.task q).chan = chan then
        { k.task q with state := .runnable } else k.task q := by
  induction fuel generalizing a b xs k with
  | zero => cases h
  | succ fuel ih =>
    rw [eachProc] at h
    cases xs with
    | nil =>
      have ha : a = 0 := hl
      rw [if_pos ha] at h
      cases h
      simp
    | cons y ys =>
      have hout := (nodup_cons.mp hl.nodup).1
      obtain ⟨rfl, hne, _, hl⟩ := hl
      have hsame := wakeTask_sameList cur chan a k
      rw [if_neg hne, (hsame.task a).2.1] at h
      rw [ih (hl.congr fun u _ => (hsame.task u).2) h]
      by_cases hq : q = a
      · subst hq
        simp only [hout, mem_cons_self, false_and, true_and, if_false, wakeTask]
        split_ifs
        · rw [setTask_task, if_pos rfl]
        · rfl
      · have htask : (wakeTask cur chan a k).task q = k.task q := by
          unfold wakeTask
          split_ifs
          · rw [setTask_task, if_neg hq]
          · rfl
        simp only [htask, mem_cons, hq, false_or]

theorem Sees.wakeup (h : Sees s k xs) (hcur : s.cur = some cur)
    (hw : Wait.wakeup fuel cur chan k = some k') : Sees (s.wakeup chan) k' xs := by
  refine ⟨(wakeup_sameList hw).chain h.chain, h.list, fun q hq => ?_⟩
  obtain ⟨hstate, hchan, hkilled⟩ := h.task q hq
  have hne : s.cur ≠ some q ↔ q ≠ cur := by
    rw [hcur, ne_eq, Option.some.injEq, eq_comm]
  rw [eachProc_wakeTask h.chain hw]
  simp only [Sched.Sys.wakeup, h.list, hne, hstate, hchan]
  split_ifs
  · exact ⟨rfl, rfl, hkilled⟩
  · exact ⟨hstate, hchan, hkilled⟩

/-- The last lines of `fork` and `clone`. -/
theorem Sees.fork (h : Sees s k xs) (hnull : child ≠ 0)
    (ht : t.state = .runnable ∧ t.chan = 0 ∧ t.killed = false)
    (hs : perform p s (.fork child) = some s') : Sees s' (pushProc child t k) (child :: xs) := by
  rw [perform, h.list] at hs
  split_ifs at hs with hnew
  cases hs
  have hout : child ∉ xs := fun hmem => hnew (.inl hmem)
  refine ⟨(pushProc_chain h.chain hnull hout).1, rfl, fun q hq => ?_⟩
  have hbody := pushProc_body child t k q
  show SameTask (update s.proc child Sched.newProc q) (Task.body ((pushProc child t k).task q))
  rw [hbody, update_apply]
  split_ifs with hqc
  · exact ⟨ht.1.symm, ht.2.1.symm, ht.2.2.symm⟩
  · exact h.task q ((mem_cons.mp hq).resolve_left hqc)

/-- `reparent` wakes `init_proc` for every child. -/
lemma Sees.reparent (h : Sees s k xs) (hcur : s.cur = some cur)
    (hr : reparentLoop cur fuel a k = some k') :
    ∃ s', Performs cur s s' ∧ s'.cur = some cur ∧ Sees s' k' xs := by
  induction fuel generalizing s a k with
  | zero => cases hr
  | succ fuel ih =>
    rw [reparentLoop] at hr
    by_cases ha : a = 0
    · rw [if_pos ha] at hr
      cases hr
      exact ⟨s, .refl, hcur, h⟩
    · rw [if_neg ha] at hr
      obtain ⟨k1, hturn, hr⟩ := Option.bind_eq_some_iff.mp hr
      by_cases hc : (k.task a).parent = cur
      · rw [if_pos hc] at hturn
        have hparent : Sees s (k.setTask a { k.task a with parent := k.initProc }) xs :=
          h.put (sameList_setTask rfl rfl rfl) rfl (update_eq_self a s.proc).symm (h.task a)
        obtain ⟨s', hs, hcur', h'⟩ := ih (hparent.wakeup hcur hturn) hcur hr
        exact ⟨s', .head ⟨.wakeup _, rfl⟩ hs, hcur', h'⟩
      · rw [if_neg hc] at hturn
        cases hturn
        exact ih h hcur hr

theorem Sees.exit (h : Sees s k xs) (hcur : s.cur = some cur)
    (hd : doExit fuel cur status k = some k') : ∃ s', Performs cur s s' ∧ Sees s' k' xs := by
  obtain ⟨k1, hparent, hd⟩ := Option.bind_eq_some_iff.mp hd
  obtain ⟨k2, hwake, hd⟩ := Option.bind_eq_some_iff.mp hd
  cases hd
  obtain ⟨s1, hs1, hcur1, h1⟩ := h.reparent hcur hparent
  have h2 := h1.wakeup hcur1 hwake
  have hs2 := hs1.tail ⟨.wakeup (k1.task cur).parent, rfl⟩
  refine ⟨_, hs2.tail ⟨.exit, rfl⟩, ?_⟩
  exact h2.put (sameList_setTask rfl rfl rfl) rfl rfl fun hp => ⟨rfl, (h2.task cur hp).2⟩

lemma Sees.reap (h : Sees s k (l1 ++ q :: l2)) (hf : freeproc E q k = some k')
    (hs : perform p s (.reap q) = some s') : Sees s' k' (l1 ++ l2) := by
  obtain ⟨hfreed, hc⟩ := freeproc_freed h.chain hf
  rw [perform] at hs
  split_ifs at hs
  cases hs
  have hout := (nodup_cons.mp (nodup_middle.mp h.chain.nodup)).1
  refine ⟨hc, ?_, fun u hu => ?_⟩
  · show s.procList.filter (· ≠ q) = l1 ++ l2
    rw [h.list, ← filter_eq_self.mpr fun u hu => decide_eq_true (ne_of_mem_of_not_mem hu hout)]
    simp
  · show SameTask (s.proc u) (Task.body (k'.task u))
    rw [hfreed.body]
    exact h.task u (by grind)

/-- A turn of `wait4` that returns. -/
theorem Sees.wait4 (h : Sees s k xs) (hrun : (k.task cur).state = .running)
    (hw : sysWait4 E fuel cur status options k = some (.ret c k')) :
    ∃ s' ys, Performs cur s s' ∧ Sees s' k' ys := by
  rcases scan_cases h.chain hw with ⟨_, rfl⟩ | ⟨q, hfind, hreap⟩
  · exact ⟨s, xs, .refl, h⟩
  obtain ⟨res, m, _, ⟨_, _, rfl⟩ | ⟨_, _, hfree⟩⟩ := reap_cases hreap
  · exact ⟨s, xs, .refl, h.chain, h.list, h.task⟩
  have hq := mem_of_find?_eq_some hfind
  have hzombie := find?_some hfind
  rw [reapable, Bool.and_eq_true, decide_eq_true_iff] at hzombie
  have hne : q ≠ cur := by
    rintro rfl
    cases hrun.symm.trans hzombie.2
  obtain ⟨s', hs⟩ : ∃ s', perform cur s (.reap q) = some s' :=
    ⟨_, if_pos ⟨h.list ▸ hq, hne, (h.task q hq).1.trans hzombie.2⟩⟩
  have hmem : Sees s { k with mem := m } xs := ⟨h.chain, h.list, h.task⟩
  have hwaited : Sees s ({ k with mem := m }.setTask q { k.task q with waited := true }) xs :=
    hmem.put (sameList_setTask rfl rfl rfl) rfl (update_eq_self q s.proc).symm (h.task q)
  obtain ⟨l1, l2, rfl⟩ := append_of_mem hq
  exact ⟨s', l1 ++ l2, .single ⟨_, hs⟩, hwaited.reap hfree hs⟩

end Hana.Tree

namespace Hana.Wakeup

open Function Option Lib Vm Proc Wait

/-! ## Calls without interruption -/

variable {A : Type} {E : Env A} {s : Machine A} {k k' : Kernel A} {args : Args} {turn : Turn A}
variable {fuel p q i status chan : Nat} {hasChild : Bool}

/-- Steps inside of a call, with no other event between them. -/
def Advances (E : Env A) : Machine A → Machine A → Prop :=
  Relation.ReflTransGen fun s s' => advance E s = some s'

/-- A loop of `wakeup`, where `f q` is the turn on `q`, up to `g`. -/
lemma wakeup_advances {f : Nat → Pc} {g : Kernel A → Pc}
    (hend : ∀ k, advance E ({ s with k := k }.goto (f 0)) = some ({ s with k := k }.goto (g k)))
    (hturn : ∀ k q, k.initProc = i → q ≠ 0 → advance E ({ s with k := k }.goto (f q)) =
      some ({ s with k := wakeTask s.cur chan q k }.goto (f ((wakeTask s.cur chan q k).task q).next)))
    (hinit : k.initProc = i) (h : eachProc (wakeTask s.cur chan) fuel q k = some k') :
    Advances E ({ s with k := k }.goto (f q)) ({ s with k := k' }.goto (g k')) := by
  induction fuel generalizing q k with
  | zero => cases h
  | succ fuel ih =>
    rw [eachProc] at h
    split_ifs at h with hq
    · cases h
      rw [hq]
      exact .single (hend _)
    · refine .head (hturn k q hinit hq) (ih ?_ h)
      unfold wakeTask
      split_ifs <;> exact hinit

lemma reparentLoop_advances (h : reparentLoop s.cur fuel p k = some k') :
    Advances E ({ s with k := k }.goto (.reparent p status))
      ({ s with k := k' }.goto (.wake k'.procList (k'.task s.cur).parent status)) := by
  induction fuel generalizing p k with
  | zero => cases h
  | succ fuel ih =>
    rw [reparentLoop] at h
    by_cases hp : p = 0
    · rw [if_pos hp] at h
      cases h
      refine .single ?_
      simp [advance, Machine.goto, hp]
    · rw [if_neg hp] at h
      obtain ⟨k1, hturn, h⟩ := bind_eq_some_iff.mp h
      refine .trans ?_ (ih h)
      split_ifs at hturn with hparent
      · refine .head (b := { s with k := k.setTask p { k.task p with parent := k.initProc } }.goto
          (.reparentWake p k.procList status)) ?_ ?_
        · simp [advance, Machine.goto, hp, hparent]
        · refine wakeup_advances (i := k.initProc) (f := fun q => .reparentWake p q status)
            (g := fun k => .reparent (k.task p).next status) (fun k => ?_)
            (fun k1 q hinit hq => ?_) rfl hturn
          · simp [advance, Machine.goto]
          · simp [advance, Machine.goto, hq, hinit]
      · cases hturn
        refine .single ?_
        simp [advance, Machine.goto, hp, hparent]

/-- The steps of `do_exit`. -/
theorem exit_advances (h : doExit fuel s.cur status s.k = some k') :
    Advances E (s.goto (.reparent s.k.procList status)) ({ s with k := k' }.goto .exitSched) := by
  obtain ⟨k1, hparent, h⟩ := bind_eq_some_iff.mp h
  obtain ⟨k2, hwake, h⟩ := bind_eq_some_iff.mp h
  cases h
  refine (reparentLoop_advances hparent).trans (.trans (wakeup_advances
    (f := fun q => .wake q (k1.task s.cur).parent status) (g := fun _ => .setStatus status)
    (fun k => ?_) (fun _ _ _ hq => ?_) rfl hwake) ?_)
  · simp [advance, Machine.goto]
  · simp [advance, Machine.goto, hq]
  · refine .head (b := { s with k := k2.setTask s.cur { k2.task s.cur with status := status } }.goto
      .setZombie) ?_ (.single ?_)
    · simp [advance, Machine.goto]
    · simp [advance, Machine.goto, Kernel.setTask]

/-- Where `wait4` is after a turn of its loop. -/
def afterTurn (args : Args) (s : Machine A) : Turn A → Machine A
  | .ret _ k => { s with k := k }.goto .user
  | .sleep => s.goto (.sleepChan args)

@[simp] lemma afterTurn_goto (pc : Pc) : afterTurn args (s.goto pc) turn = afterTurn args s turn := by
  cases turn <;> simp [afterTurn, Machine.goto]

lemma reap_advances (hpc : s.pc s.cur = .found p args) (h : reap E args.status p s.k = some turn) :
    Advances E s (afterTurn args s turn) := by
  obtain ⟨⟨res, m⟩, hstore, h⟩ := bind_eq_some_iff.mp h
  by_cases hres : res < 0
  · simp only [if_pos hres] at h
    cases h
    refine .single ?_
    simp only [advance, hpc, hstore]
    exact if_pos hres
  · simp only [if_neg hres] at h
    obtain ⟨k1, hfree, h⟩ := bind_eq_some_iff.mp h
    cases h
    refine .head (b := { s with
      k := { s.k with mem := m }.setTask p { s.k.task p with waited := true } }.goto (.free p)) ?_
      (.single ?_)
    · simp only [advance, hpc, hstore]
      exact if_neg hres
    · simp only [advance, Machine.goto, update_self, hfree]
      simp [afterTurn, Machine.goto]

/-- The steps of a turn of `wait4`. -/
theorem scan_advances (hpc : s.pc s.cur = .scan p hasChild args)
    (h : scan E s.cur args.status args.options fuel p hasChild s.k = some turn) :
    Advances E s (afterTurn args s turn) := by
  induction fuel generalizing s p hasChild with
  | zero => cases h
  | succ fuel ih =>
    have hnext : ∀ pc, (s.goto pc).pc (s.goto pc).cur = pc := fun pc => update_self ..
    rw [scan] at h
    split_ifs at h with hp hno hhang hchild hstate
    · cases h
      exact .single (by simp [advance, hpc, hp, hno, afterTurn])
    · cases h
      exact .single (by simp [advance, hpc, hp, hno, hhang, afterTurn])
    · cases h
      exact .single (by simp [advance, hpc, hp, hno, hhang, afterTurn])
    · rw [← afterTurn_goto (.found p args)]
      exact .head (by simp [advance, hpc, hp, hchild, hstate]) (reap_advances (hnext _) h)
    · rw [← afterTurn_goto (.scan (s.k.task p).next true args)]
      exact .head (by simp [advance, hpc, hp, hchild, hstate]) (ih (hnext _) h)
    · rw [← afterTurn_goto (.scan (s.k.task p).next hasChild args)]
      exact .head (by simp [advance, hpc, hp, hchild]) (ih (hnext _) h)

end Hana.Wakeup
