import Hana.Lib.NullList
import Hana.Proc.Entry

/-!
# exit and wait4

The list of processes with `do_exit`, `freeproc` and the system call `wait4`. A process is
known by the address of its `struct proc`; the list is linked by `next` and `prev` and ends
with `NULL`. `scan` is one turn of the endless loop of `wait4`: it returns from the call, or
the caller sleeps and a later turn starts from the state that the others have left.

What `wait4` does to the list is right: the child that is returned is taken out, and its pid
does not come back.

Of `do_exit` the part on the list is here; its `munmap` of the areas changes no entry, and
the descriptors and the working directory are left out.
-/

namespace Hana.Wait

open Function List Option Lib Vm Proc

variable {A : Type}

inductive ProcState where
  | init
  | sleeping
  | runnable
  | running
  | zombie
deriving DecidableEq, Repr

structure Task where
  pid : Nat
  state : ProcState
  /-- The address of the `upagetable`. -/
  pagetable : Nat
  killed : Bool
  chan : Nat
  /-- The 32 bits of the `int`. -/
  status : Nat
  waited : Bool
  parent : Nat
  next : Nat
  prev : Nat
  vmaList : List VmArea

structure Upagetable where
  pgtbl : Nat
  cnt : Int

structure Kernel (A : Type) where
  mem : Mem A
  task : Nat → Task
  upgtbl : Nat → Upagetable
  procList : Nat
  initProc : Nat
  nextPid : Nat

def Kernel.setTask (p : Nat) (t : Task) (k : Kernel A) : Kernel A :=
  { k with task := update k.task p t }

def Kernel.setNext (p v : Nat) (k : Kernel A) : Kernel A :=
  k.setTask p { k.task p with next := v }

def Kernel.setPrev (p v : Nat) (k : Kernel A) : Kernel A :=
  k.setTask p { k.task p with prev := v }

/-- `UPGTBL(p->pagetable)`. -/
def Kernel.root (k : Kernel A) (p : Nat) : Nat := (k.upgtbl (k.task p).pagetable).pgtbl

/-! ## Freeing a process -/

def freePgtbl (E : Env A) (pgtbl : Nat) (vma : List VmArea) (m : Mem A) : Option (Mem A) := do
  let m ← uvmunmap E pgtbl trapframeVa 1 true m
  let m ← uvmunmap E pgtbl trampolineVa 1 false m
  uvmfreeVma E pgtbl vma m

def procFreePagetable (E : Env A) (p : Nat) (k : Kernel A) : Option (Kernel A) :=
  let u := (k.task p).pagetable
  let old := (k.upgtbl u).cnt
  let k := { k with upgtbl := update k.upgtbl u { k.upgtbl u with cnt := old - 1 } }
  if 1 < old then some k
  else do
    let m ← freePgtbl E (k.root p) (k.task p).vmaList k.mem
    some { k with mem := m }

/-- The two assignments that close the gap between `prev` and `next`. -/
def relink (prev next : Nat) (k : Kernel A) : Kernel A :=
  let k := if prev ≠ 0 then k.setNext prev next else k
  if next ≠ 0 then k.setPrev next prev else k

/-- The lines of `freeproc` that take `p` out of the list. -/
def removeProc (p : Nat) (k : Kernel A) : Option (Kernel A) := do
  let k ← (if p = k.procList then
      if (k.task p).next = 0 then none else some { k with procList := (k.task p).next }
    else some k)
  some (relink (k.task p).prev (k.task p).next k)

def freeproc (E : Env A) (p : Nat) (k : Kernel A) : Option (Kernel A) :=
  if p = k.initProc then none
  else do
    let k ← (if (k.task p).pagetable ≠ 0 then procFreePagetable E p k else some k)
    let k ← removeProc p k
    let m ← kfree E p k.mem
    some { k with mem := m }

/-! ## exit -/

/-- A loop over the list of processes. -/
def eachProc (f : Nat → Kernel A → Kernel A) : (fuel p : Nat) → Kernel A → Option (Kernel A)
  | 0, _, _ => none
  | fuel + 1, p, k => if p = 0 then some k else eachProc f fuel ((f p k).task p).next (f p k)

/-- The body of the loop of `wakeup`, called by the process `cur`. -/
def wakeTask (cur chan p : Nat) (k : Kernel A) : Kernel A :=
  if p ≠ cur ∧ (k.task p).state = .sleeping ∧ (k.task p).chan = chan then
    k.setTask p { k.task p with state := .runnable }
  else k

def wakeup (fuel cur chan : Nat) (k : Kernel A) : Option (Kernel A) :=
  eachProc (wakeTask cur chan) fuel k.procList k

/-- The loop of `reparent`, which wakes `init_proc` for every child that it gets. -/
def reparentLoop (cur : Nat) : (fuel p : Nat) → Kernel A → Option (Kernel A)
  | 0, _, _ => none
  | fuel + 1, p, k =>
    if p = 0 then some k
    else do
      let k ← (if (k.task p).parent = cur then
          wakeup fuel cur k.initProc (k.setTask p { k.task p with parent := k.initProc })
        else some k)
      reparentLoop cur fuel (k.task p).next k

def doExit (fuel cur status : Nat) (k : Kernel A) : Option (Kernel A) := do
  let k ← reparentLoop cur fuel k.procList k
  let k ← wakeup fuel cur (k.task cur).parent k
  some (k.setTask cur { k.task cur with status := status, state := .zombie })

/-! ## wait4 -/

/-- How a turn of the loop of `wait4` ends. -/
inductive Turn (A : Type) where
  | ret (c : Int) (k : Kernel A)
  | sleep

def wnohang : Nat := 1

/-- A child that the scan stops at. -/
def reapable (k : Kernel A) (cur p : Nat) : Bool :=
  decide ((k.task p).parent = cur) && !(k.task p).waited && decide ((k.task p).state = .zombie)

/-- The branch for a child that is a zombie. -/
def reap (E : Env A) (status p : Nat) (k : Kernel A) : Option (Turn A) := do
  let (res, m) ← (if status ≠ 0 then
      if (k.task p).pagetable = 0 then none
      else copyout E (k.root p) status (leBytes 4 (k.task p).status) k.mem
    else some (0, k.mem))
  if res < 0 then some (.ret (-1) { k with mem := m })
  else do
    let k := { k with mem := m }
    let k := k.setTask p { k.task p with waited := true }
    let childPid := (k.task p).pid
    let k ← freeproc E p k
    some (.ret childPid k)

/-- The turn of `wait4` by the process `cur`, from the place `p` in the list on. -/
def scan (E : Env A) (cur status options : Nat) :
    (fuel p : Nat) → (hasChild : Bool) → Kernel A → Option (Turn A)
  | 0, _, _, _ => none
  | fuel + 1, p, hasChild, k =>
    if p = 0 then
      if !hasChild || (k.task cur).killed then some (.ret (-1) k)
      else if has options wnohang then some (.ret 0 k)
      else some .sleep
    else if decide ((k.task p).parent = cur) && !(k.task p).waited then
      if (k.task p).state = .zombie then reap E status p k
      else scan E cur status options fuel (k.task p).next true k
    else scan E cur status options fuel (k.task p).next hasChild k

def sysWait4 (E : Env A) (fuel cur status options : Nat) (k : Kernel A) : Option (Turn A) :=
  scan E cur status options fuel k.procList false k

/-! ## Steps of the kernel on the list -/

/-- The list from `a` on is `xs`, and `b` is before it. -/
abbrev ChainFrom (k : Kernel A) (b a : Nat) (xs : List Nat) : Prop :=
  NullList 0 (fun p => (k.task p).next) (fun p => (k.task p).prev) b a xs

/-- The list of processes is `xs`. -/
def Chain (k : Kernel A) (xs : List Nat) : Prop :=
  NullList 0 (fun p => (k.task p).next) (fun p => (k.task p).prev) 0 k.procList xs

/-- The list and the pids are as before. -/
structure SameList (k k' : Kernel A) : Prop where
  first : k'.procList = k.procList
  nextPid : k'.nextPid = k.nextPid
  task : ∀ p, (k'.task p).pid = (k.task p).pid ∧ (k'.task p).next = (k.task p).next ∧
    (k'.task p).prev = (k.task p).prev

/-- The last lines of `fork` and `clone`; `t` is the record of the child. -/
def pushProc (child : Nat) (t : Task) (k : Kernel A) : Kernel A :=
  let k := k.setTask child { t with pid := k.nextPid, next := k.procList, prev := 0 }
  let k := k.setPrev k.procList child
  { k with procList := child, nextPid := k.nextPid + 1 }

inductive Event where
  | wait4 (cur status options : Nat) (c : Int)
  | spawn (child : Nat)
  | exit (cur status : Nat)
  | other

/-- A system call that concerns the list, or anything that leaves the list alone. A new process is
at an address from `kcalloc`, which is none of the processes; the memory may be any. -/
def step (E : Env A) (k : Kernel A) : Event → Kernel A → Prop
  | .wait4 cur status options c, k' => ∃ fuel, sysWait4 E fuel cur status options k = some (.ret c k')
  | .spawn child, k' => child ≠ 0 ∧ (∀ xs, Chain k xs → child ∉ xs) ∧ ∃ t m u,
      k' = { pushProc child t k with mem := m, upgtbl := u }
  | .exit cur status, k' => ∃ fuel, doExit fuel cur status k = some k'
  | .other, k' => SameList k k'

variable {t : Task} {fuel n : Nat} {l1 l2 : List Nat}

section

variable {E : Env A} {k k1 k' : Kernel A} {xs : List Nat} {p cur status options : Nat} {c : Int}

lemma SameList.refl (k : Kernel A) : SameList k k := ⟨rfl, rfl, fun _ => ⟨rfl, rfl, rfl⟩⟩

lemma SameList.trans (h : SameList k k1) (h' : SameList k1 k') : SameList k k' := by
  refine ⟨h'.first.trans h.first, h'.nextPid.trans h.nextPid, fun p => ?_⟩
  obtain ⟨hpid, hnext, hprev⟩ := h.task p
  obtain ⟨hpid', hnext', hprev'⟩ := h'.task p
  exact ⟨hpid'.trans hpid, hnext'.trans hnext, hprev'.trans hprev⟩

lemma SameList.chain (h : SameList k k') (hc : Chain k xs) : Chain k' xs := by
  unfold Chain
  rw [h.first]
  exact NullList.congr hc fun p _ => (h.task p).2

/-- A record that keeps its pid and its links. -/
lemma sameList_setTask (hpid : t.pid = (k.task p).pid) (hnext : t.next = (k.task p).next)
    (hprev : t.prev = (k.task p).prev) : SameList k (k.setTask p t) := by
  refine ⟨rfl, rfl, fun q => ?_⟩
  by_cases hq : q = p
  · subst hq
    simp only [Kernel.setTask, update_self, hpid, hnext, hprev, and_self]
  · simp only [Kernel.setTask, update_of_ne hq, and_self]

/-- What each turn of the loop keeps, the loop keeps. -/
lemma eachProc_keeps {f : Nat → Kernel A → Kernel A} {R : Kernel A → Kernel A → Prop}
    (hrefl : ∀ k, R k k) (htrans : ∀ {k1 k2 k3}, R k1 k2 → R k2 k3 → R k1 k3)
    (hf : ∀ p k, R k (f p k)) (h : eachProc f fuel p k = some k') : R k k' := by
  induction fuel generalizing p k with
  | zero => cases h
  | succ fuel ih =>
    rw [eachProc] at h
    split_ifs at h
    · cases h
      exact hrefl _
    · exact htrans (hf p k) (ih h)

lemma wakeTask_sameList (cur chan p : Nat) (k : Kernel A) : SameList k (wakeTask cur chan p k) := by
  unfold wakeTask
  split_ifs
  · exact sameList_setTask rfl rfl rfl
  · exact SameList.refl k

lemma wakeup_sameList {chan : Nat} (h : wakeup fuel cur chan k = some k') : SameList k k' :=
  eachProc_keeps SameList.refl SameList.trans (wakeTask_sameList cur chan) h

lemma reparentLoop_sameList (h : reparentLoop cur fuel p k = some k') : SameList k k' := by
  induction fuel generalizing p k with
  | zero => cases h
  | succ fuel ih =>
    rw [reparentLoop] at h
    by_cases hp : p = 0
    · rw [if_pos hp] at h
      cases h
      exact SameList.refl _
    · rw [if_neg hp] at h
      obtain ⟨k1, hturn, h⟩ := bind_eq_some_iff.mp h
      have hsame : SameList k k1 := by
        split_ifs at hturn
        · refine SameList.trans ?_ (wakeup_sameList hturn)
          exact sameList_setTask rfl rfl rfl
        · cases hturn
          exact SameList.refl k
      exact hsame.trans (ih h)

lemma doExit_sameList (h : doExit fuel cur status k = some k') : SameList k k' := by
  obtain ⟨k1, hparent, h⟩ := bind_eq_some_iff.mp h
  obtain ⟨k2, hwake, h⟩ := bind_eq_some_iff.mp h
  cases h
  exact ((reparentLoop_sameList hparent).trans (wakeup_sameList hwake)).trans
    (sameList_setTask rfl rfl rfl)

/-! ## Taking a process out of the list -/

/-- The record of a process without its links. -/
def Task.body (t : Task) : Task := { t with next := 0, prev := 0 }

lemma setTask_task (k : Kernel A) (a : Nat) (t : Task) (q : Nat) :
    (k.setTask a t).task q = if q = a then t else k.task q :=
  update_apply k.task a t q

lemma setNext_task (k : Kernel A) (a v q : Nat) :
    ((k.setNext a v).task q).body = (k.task q).body ∧
      ((k.setNext a v).task q).next = (if q = a then v else (k.task q).next) ∧
      ((k.setNext a v).task q).prev = (k.task q).prev := by
  rw [Kernel.setNext, setTask_task]
  split_ifs with hq
  · rw [hq]
    exact ⟨rfl, rfl, rfl⟩
  · exact ⟨rfl, rfl, rfl⟩

lemma setPrev_task (k : Kernel A) (a v q : Nat) :
    ((k.setPrev a v).task q).body = (k.task q).body ∧
      ((k.setPrev a v).task q).next = (k.task q).next ∧
      ((k.setPrev a v).task q).prev = (if q = a then v else (k.task q).prev) := by
  rw [Kernel.setPrev, setTask_task]
  split_ifs with hq
  · rw [hq]
    exact ⟨rfl, rfl, rfl⟩
  · exact ⟨rfl, rfl, rfl⟩

lemma relink_task (k : Kernel A) (prev next : Nat) {q : Nat} (hq : q ≠ 0) :
    ((relink prev next k).task q).next = (if q = prev then next else (k.task q).next) ∧
      ((relink prev next k).task q).prev = (if q = next then prev else (k.task q).prev) := by
  have hk1 : let k1 := if prev ≠ 0 then k.setNext prev next else k
      (k1.task q).next = (if q = prev then next else (k.task q).next) ∧
        (k1.task q).prev = (k.task q).prev := by
    intro k1
    by_cases hprev : prev = 0
    · simp only [k1, hprev, ne_eq, not_true_eq_false, if_false, hq, and_self]
    · simp only [k1, hprev, ne_eq, not_false_eq_true, if_true, setNext_task, and_self]
  unfold relink
  by_cases hnext : next = 0
  · simp only [hnext, ne_eq, not_true_eq_false, if_false, hq] at hk1 ⊢
    exact hk1
  · simp only [hnext, ne_eq, not_false_eq_true, if_true, setPrev_task, hk1, and_self]

lemma relink_body (k : Kernel A) (prev next q : Nat) :
    ((relink prev next k).task q).body = (k.task q).body := by
  unfold relink
  split_ifs <;> simp only [setPrev_task, setNext_task]

lemma relink_rest (k : Kernel A) (prev next : Nat) :
    relink prev next k = { k with task := (relink prev next k).task } := by
  unfold relink
  split_ifs <;> rfl

lemma removeProc_cases (hc : Chain k (l1 ++ p :: l2)) (h : removeProc p k = some k') :
    k' = { relink (k.task p).prev (k.task p).next k with
      procList := if (k.task p).prev = 0 then (k.task p).next else k.procList } := by
  have hmem : p ∈ l1 ++ p :: l2 := mem_append_right _ mem_cons_self
  have hstart := NullList.start_eq_iff hc hc.null_notMem hmem
  obtain ⟨k1, hfirst, h⟩ := bind_eq_some_iff.mp h
  cases h
  by_cases hp : p = k.procList
  · rw [if_pos (hstart.mp hp.symm)]
    split_ifs at hfirst
    cases hfirst
    unfold relink
    split_ifs <;> rfl
  · rw [if_neg hp] at hfirst
    rw [if_neg fun hprev => hp (hstart.mpr hprev).symm]
    cases hfirst
    rw [relink_rest]

lemma removeProc_chain (hc : Chain k (l1 ++ p :: l2)) (h : removeProc p k = some k') :
    Chain k' (l1 ++ l2) ∧ k'.mem = k.mem ∧ k'.upgtbl = k.upgtbl ∧ k'.nextPid = k.nextPid ∧
      ∀ q, (k'.task q).body = (k.task q).body := by
  have hk' := removeProc_cases hc h
  have hne : ∀ u ∈ l1 ++ l2, u ≠ 0 := fun u hu =>
    hc.ne_null (mem_append.mpr ((mem_append.mp hu).imp_right (mem_cons_of_mem _)))
  refine ⟨?_, ?_, ?_, ?_, ?_⟩
  · rw [hk']
    exact NullList.unlink hc (fun u hu => (relink_task k _ _ (hne u hu)).1)
      (fun u hu => (relink_task k _ _ (hne u hu)).2)
  all_goals rw [hk', relink_rest]
  intro q
  exact relink_body k _ _ q

/-! ## What freeproc does -/

lemma freePgtbl_freewalk {r : Nat} {vma : List VmArea} {m m' : Mem A}
    (h : freePgtbl E r vma m = some m') : freewalk E 3 r m = some m' := by
  simp only [freePgtbl, uvmfreeVma, bind_eq_bind, bind_eq_some_iff] at h
  obtain ⟨m1, hframe, m2, htramp, m3, hloop, h⟩ := h
  have h1 := uvmunmap_same hframe
  have h2 := uvmunmap_same htramp
  have h3 : m3 = m2 := foldlM_invariant (P := fun m3 => m3 = m2) rfl
    (fun _ _ _ hm hturn => (uvmunmap_same hturn).trans hm) hloop
  rw [h3, h2, h1] at h
  exact h

/-- The tables of the process are freed, or they are still in use. -/
lemma procFreePagetable_cases (h : procFreePagetable E p k = some k') :
    ∃ m u, k' = { k with mem := m, upgtbl := u } ∧ (∀ a, (u a).pgtbl = (k.upgtbl a).pgtbl) ∧
      (m = k.mem ∨ freewalk E 3 (k.root p) k.mem = some m) := by
  have hpgtbl : ∀ u cnt a, (update k.upgtbl u { k.upgtbl u with cnt := cnt } a).pgtbl =
      (k.upgtbl a).pgtbl := by
    intro u cnt a
    rw [update_apply]
    split_ifs with ha
    · rw [ha]
    · rfl
  rw [procFreePagetable] at h
  split_ifs at h
  · cases h
    exact ⟨_, _, rfl, hpgtbl _ _, .inl rfl⟩
  · obtain ⟨m, hfree, h⟩ := bind_eq_some_iff.mp h
    cases h
    refine ⟨m, _, rfl, hpgtbl _ _, .inr ?_⟩
    have hwalk := freePgtbl_freewalk hfree
    rw [Kernel.root, hpgtbl] at hwalk
    exact hwalk

/-- The process is gone from the list; the other records differ in their links only. -/
structure Freed (E : Env A) (p : Nat) (k k' : Kernel A) : Prop where
  body : ∀ q, (k'.task q).body = (k.task q).body
  nextPid : k'.nextPid = k.nextPid
  pgtbl : ∀ a, (k'.upgtbl a).pgtbl = (k.upgtbl a).pgtbl
  mem : ∃ m, (m = k.mem ∨ freewalk E 3 (k.root p) k.mem = some m) ∧ kfree E p m = some k'.mem

lemma Freed.pid (h : Freed E p k k') (q : Nat) : (k'.task q).pid = (k.task q).pid := by
  have hpid := congrArg Task.pid (h.body q)
  exact hpid

lemma Freed.root (h : Freed E p k k') (q : Nat) : k'.root q = k.root q := by
  have hbody := congrArg Task.pagetable (h.body q)
  have hpt : (k'.task q).pagetable = (k.task q).pagetable := hbody
  rw [Kernel.root, Kernel.root, hpt, h.pgtbl]

lemma freeproc_freed (hc : Chain k (l1 ++ p :: l2))
    (h : freeproc E p k = some k') : Freed E p k k' ∧ Chain k' (l1 ++ l2) := by
  by_cases hinit : p = k.initProc
  · rw [freeproc, if_pos hinit] at h
    cases h
  rw [freeproc, if_neg hinit] at h
  obtain ⟨k1, htable, h⟩ := bind_eq_some_iff.mp h
  obtain ⟨k2, hremove, h⟩ := bind_eq_some_iff.mp h
  obtain ⟨m', hfree, h⟩ := bind_eq_some_iff.mp h
  cases h
  have hk1 : ∃ m u, k1 = { k with mem := m, upgtbl := u } ∧ (∀ a, (u a).pgtbl = (k.upgtbl a).pgtbl) ∧
      (m = k.mem ∨ freewalk E 3 (k.root p) k.mem = some m) := by
    split_ifs at htable
    · exact procFreePagetable_cases htable
    · cases htable
      exact ⟨_, _, rfl, fun _ => rfl, .inl rfl⟩
  obtain ⟨m, u, rfl, hu, hm⟩ := hk1
  obtain ⟨hc', hmem, hupgtbl, hnext, hbody⟩ :=
    removeProc_chain (k := { k with mem := m, upgtbl := u }) hc hremove
  refine ⟨⟨hbody, hnext, ?_, m, hm, ?_⟩, hc'⟩
  · intro a
    rw [hupgtbl]
    exact hu a
  · rw [hmem] at hfree
    exact hfree

/-! ## The turn of wait4 -/

/-- The scan ends at the first zombie among the children, or changes nothing. -/
lemma scan_cases {b a : Nat} {ys : List Nat} {hasChild : Bool} (hl : ChainFrom k b a ys)
    (h : scan E cur status options fuel a hasChild k = some (.ret c k')) :
    (c = -1 ∨ c = 0) ∧ k' = k ∨
      ∃ p, ys.find? (reapable k cur) = some p ∧ reap E status p k = some (.ret c k') := by
  induction fuel generalizing b a ys hasChild with
  | zero => cases h
  | succ fuel ih =>
    rw [scan] at h
    cases ys with
    | nil =>
      have ha : a = 0 := hl
      split_ifs at h
      · cases h
        exact .inl ⟨.inl rfl, rfl⟩
      · cases h
        exact .inl ⟨.inr rfl, rfl⟩
      · cases h
    | cons y ys =>
      obtain ⟨rfl, hne, _, hl⟩ := hl
      rw [if_neg hne] at h
      by_cases hz : reapable k cur a = true
      · rw [reapable, Bool.and_eq_true, decide_eq_true_iff] at hz
        rw [if_pos hz.1, if_pos hz.2] at h
        refine .inr ⟨a, List.find?_cons_of_pos ?_, h⟩
        rw [reapable, Bool.and_eq_true, decide_eq_true_iff]
        exact hz
      · have hnext : ∃ hasChild', scan E cur status options fuel (k.task a).next hasChild' k =
            some (.ret c k') := by
          split_ifs at h with hchild hstate
          · refine absurd ?_ hz
            rw [reapable, Bool.and_eq_true, decide_eq_true_iff]
            exact ⟨hchild, hstate⟩
          · exact ⟨_, h⟩
          · exact ⟨_, h⟩
        obtain ⟨hasChild', h⟩ := hnext
        rw [List.find?_cons_of_neg hz]
        exact ih hl h

lemma reap_cases (h : reap E status p k = some (.ret c k')) :
    ∃ res m, (status = 0 ∧ res = 0 ∧ m = k.mem ∨
        status ≠ 0 ∧ copyout E (k.root p) status (leBytes 4 (k.task p).status) k.mem = some (res, m)) ∧
      (res < 0 ∧ c = -1 ∧ k' = { k with mem := m } ∨
        0 ≤ res ∧ c = (k.task p).pid ∧ freeproc E p ({ k with mem := m }.setTask p
          { k.task p with waited := true }) = some k') := by
  obtain ⟨⟨res, m⟩, hcopy, h⟩ := bind_eq_some_iff.mp h
  refine ⟨res, m, ?_, ?_⟩
  · by_cases hnull : status = 0
    · rw [if_neg (not_not_intro hnull)] at hcopy
      cases hcopy
      exact .inl ⟨hnull, rfl, rfl⟩
    · rw [if_pos hnull] at hcopy
      split_ifs at hcopy
      exact .inr ⟨hnull, hcopy⟩
  · by_cases hres : res < 0
    · simp only [hres, if_true, some.injEq, Turn.ret.injEq] at h
      exact .inl ⟨hres, h.1.symm, h.2.symm⟩
    · simp only [hres, if_false] at h
      obtain ⟨k1, hfree, h⟩ := bind_eq_some_iff.mp h
      simp only [some.injEq, Turn.ret.injEq] at h
      obtain ⟨hpid, rfl⟩ := h
      refine .inr ⟨by omega, ?_, hfree⟩
      rw [← hpid, setTask_task, if_pos rfl]

/-- What a turn that returns does to the list. -/
lemma sysWait4_list (hc : Chain k xs)
    (h : sysWait4 E fuel cur status options k = some (.ret c k')) :
    (c = -1 ∨ c = 0) ∧ SameList k k' ∨
      ∃ p l1 l2 k1, xs = l1 ++ p :: l2 ∧ c = (k.task p).pid ∧ SameList k k1 ∧ Freed E p k1 k' ∧
        Chain k' (l1 ++ l2) := by
  rcases scan_cases hc h with ⟨hres, rfl⟩ | ⟨p, hfind, hreap⟩
  · exact .inl ⟨hres, SameList.refl k'⟩
  · obtain ⟨res, m, _, ⟨_, hc', rfl⟩ | ⟨_, hpid, hfree⟩⟩ := reap_cases hreap
    · exact .inl ⟨.inl hc', ⟨rfl, rfl, fun _ => ⟨rfl, rfl, rfl⟩⟩⟩
    · obtain ⟨l1, l2, rfl⟩ := append_of_mem (List.mem_of_find?_eq_some hfind)
      have hmem : SameList k { k with mem := m } := ⟨rfl, rfl, fun _ => ⟨rfl, rfl, rfl⟩⟩
      have hsame : SameList k ({ k with mem := m }.setTask p { k.task p with waited := true }) := by
        refine hmem.trans ?_
        exact sameList_setTask rfl rfl rfl
      obtain ⟨hfreed, hc'⟩ := freeproc_freed (hsame.chain hc) hfree
      exact .inr ⟨p, l1, l2, _, rfl, hpid, hsame, hfreed, hc'⟩

/-! ## A pid does not come back -/

/-- No process has the pid `n`, and none will get it. -/
def Spent (n : Nat) (k : Kernel A) : Prop :=
  n < k.nextPid ∧ ∃ xs, Chain k xs ∧ ∀ p ∈ xs, (k.task p).pid ≠ n

/-- The records of the processes with a new one. -/
lemma pushProc_body (child : Nat) (t : Task) (k : Kernel A) (q : Nat) :
    ((pushProc child t k).task q).body =
      if q = child then { t with pid := k.nextPid }.body else (k.task q).body := by
  refine (setPrev_task (k.setTask child
    { t with pid := k.nextPid, next := k.procList, prev := 0 }) k.procList child q).1.trans ?_
  rw [setTask_task]
  split_ifs <;> rfl

lemma pushProc_chain {child : Nat} (hc : Chain k xs) (hnull : child ≠ 0) (hnew : child ∉ xs) :
    Chain (pushProc child t k) (child :: xs) ∧
      (((pushProc child t k).task child).pid = k.nextPid) ∧
      ∀ q ∈ xs, ((pushProc child t k).task q).pid = (k.task q).pid := by
  have hfirst : k.procList ≠ child := by
    intro heq
    exact hnew (heq ▸ hc.start_mem (heq ▸ hnull))
  have hpid : ∀ q, ((pushProc child t k).task q).pid =
      if q = child then k.nextPid else (k.task q).pid := by
    intro q
    have hbody := congrArg Task.pid (pushProc_body child t k q)
    refine Eq.trans hbody ?_
    split_ifs <;> rfl
  have hlinks : ∀ q, ((pushProc child t k).task q).next =
        (if q = child then k.procList else (k.task q).next) ∧
      ((pushProc child t k).task q).prev =
        if q = k.procList then child else if q = child then 0 else (k.task q).prev := by
    intro q
    obtain ⟨_, hnext, hprev⟩ := setPrev_task (k.setTask child
      { t with pid := k.nextPid, next := k.procList, prev := 0 }) k.procList child q
    refine ⟨hnext.trans ?_, hprev.trans ?_⟩
    · rw [setTask_task]
      split_ifs <;> rfl
    · rw [setTask_task]
      split_ifs <;> rfl
  refine ⟨NullList.push hc hnull ?_ ?_ ?_ ?_, ?_, ?_⟩
  · exact (hlinks child).1.trans (if_pos rfl)
  · refine (hlinks child).2.trans ?_
    rw [if_neg hfirst.symm, if_pos rfl]
  · intro _
    exact (hlinks k.procList).2.trans (if_pos rfl)
  · intro u hu
    have hne : u ≠ child := fun heq => hnew (heq ▸ hu)
    refine ⟨(hlinks u).1.trans (if_neg hne), fun hua => ?_⟩
    rw [(hlinks u).2, if_neg hua, if_neg hne]
  · rw [hpid, if_pos rfl]
  · intro q hq
    have hne : q ≠ child := fun heq => hnew (heq ▸ hq)
    rw [hpid, if_neg hne]

lemma SameList.spent (h : SameList k k') (hs : Spent n k) : Spent n k' := by
  obtain ⟨hlt, xs, hc, hno⟩ := hs
  refine ⟨by rw [h.nextPid]; exact hlt, xs, h.chain hc, fun p hp => ?_⟩
  rw [(h.task p).1]
  exact hno p hp

/-- A step keeps a spent pid spent, and `wait4` does not return it. -/
lemma step_spent (hn : 0 < n) {ev : Event} (hs : Spent n k) (h : step E k ev k') :
    Spent n k' ∧ ∀ cur status options, ev ≠ .wait4 cur status options n := by
  cases ev with
  | wait4 cur status options c =>
    obtain ⟨fuel, h⟩ := h
    obtain ⟨hlt, xs, hc, hno⟩ := hs
    rcases sysWait4_list hc h with ⟨hres, hsame⟩ | ⟨p, l1, l2, k1, rfl, rfl, hsame, hfreed, hc'⟩
    · refine ⟨hsame.spent ⟨hlt, xs, hc, hno⟩, fun _ _ _ heq => ?_⟩
      have hcn : c = n := by
        cases heq
        rfl
      omega
    · have hp := hno p (mem_append_right _ mem_cons_self)
      refine ⟨⟨?_, l1 ++ l2, hc', fun q hq => ?_⟩, fun _ _ _ heq => hp ?_⟩
      · rw [hfreed.nextPid, hsame.nextPid]
        exact hlt
      · rw [hfreed.pid, (hsame.task q).1]
        exact hno q (mem_append.mpr ((mem_append.mp hq).imp_right (mem_cons_of_mem _)))
      · simp only [Event.wait4.injEq, Nat.cast_inj] at heq
        exact heq.2.2.2
  | spawn child =>
    obtain ⟨hnull, hnew, t, m, u, rfl⟩ := h
    obtain ⟨hlt, xs, hc, hno⟩ := hs
    obtain ⟨hc', hpid, hrest⟩ := pushProc_chain (t := t) hc hnull (hnew xs hc)
    refine ⟨⟨Nat.lt_succ_of_lt hlt, child :: xs, hc', fun q hq => ?_⟩, fun _ _ _ heq => by cases heq⟩
    rcases mem_cons.mp hq with rfl | hq
    · have hne : k.nextPid ≠ n := by omega
      exact hpid ▸ hne
    · have hne := hno q hq
      exact (hrest q hq) ▸ hne
  | exit cur status =>
    obtain ⟨fuel, h⟩ := h
    exact ⟨(doExit_sameList h).spent hs, fun _ _ _ heq => by cases heq⟩
  | other => exact ⟨SameList.spent h hs, fun _ _ _ heq => by cases heq⟩

/-- No later `wait4` returns a spent pid. -/
lemma run_spent (hn : 0 < n) {ts : List (Transition (Kernel A) Event)} (hs : Spent n k)
    (hr : Run (step E) k ts k') : ∀ t ∈ ts, ∀ cur status options, t.label ≠ .wait4 cur status options n := by
  have hstep : ∀ k ev k', Spent n k → True → step E k ev k' →
      Spent n k' ∧ ∀ cur status options, ev ≠ .wait4 cur status options n := by
    intro k ev k' hs _ h
    exact step_spent hn hs h
  exact hr.forall_of_forall hs (fun _ _ => trivial) hstep

end

end Hana.Wait
