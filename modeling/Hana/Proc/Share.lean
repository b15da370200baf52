import Mathlib.Data.List.Nodup
import Mathlib.Data.List.Count
import Mathlib.Tactic.Common
import Hana.Lib.Run

/-!
# Tables that processes share

`sys_clone` may give the child the descriptor table, the working directory and the page table of
its parent, and `do_exit` and `freeproc` give them up again. Only the page table carries a count.
Descriptor tables and working directories are freed by every process that exits, and the
`upagetable` with the count is never freed.

The areas and the open files of a process are not part of the state. A `clone` is told what it finds
there: `proc_init` links the list of areas to itself, so that the loop of `CLONE_VM` does not end, and
`fdt_dup` stops at a file without an inode, as the standard streams are. The loop over the areas in
`do_exit` is left out, which only adds runs.

An object is named by the number of its allocation, so that memory that is freed twice can be told
from memory that was allocated again. `kfreed` lists the objects passed to `kfree`, and
`pgtblFreed` the page tables passed to `free_pgtbl`, by their `upagetable`. Zero is the null
pointer, and `none` stands for its dereference and for a failed assertion.
-/

namespace Hana.Share

open Function List Option Lib

structure Task where
  fdt : Nat
  cwd : Nat
  pagetable : Nat
  zombie : Bool
  deriving Repr, DecidableEq

structure Sys where
  procs : List Nat
  task : Nat → Task
  next : Nat
  fdts : List Nat
  cwds : List Nat
  upgtbls : List Nat
  cnt : Nat → Nat
  kfreed : List Nat
  pgtblFreed : List Nat

structure Flags where
  vm : Bool
  fs : Bool
  files : Bool
  deriving Repr, DecidableEq

/-- `alloc_proc`: a process with a working directory and a descriptor table of its own. -/
def allocProc (s : Sys) : Sys :=
  { s with
    task := update s.task s.next ⟨s.next + 2, s.next + 1, 0, false⟩
    next := s.next + 3
    cwds := (s.next + 1) :: s.cwds
    fdts := (s.next + 2) :: s.fdts }

/-- `sys_clone` of the process `p`, as far as the three tables go. Without `CLONE_VM` the new page
table is not stored in the child. `listEnds` says whether the list of areas of `p` has an end, and
`inodes` whether all of its open files have an inode. -/
def sysClone (flags : Flags) (listEnds inodes : Bool) (p : Nat) (s : Sys) : Option Sys :=
  let proc := s.task p
  let child := s.next
  if proc.pagetable = 0 ∨ (flags.vm && !listEnds) ∨ (!flags.files && !inodes) then none
  else
    let s := allocProc s
    let s := if flags.vm then
        { s with cnt := update s.cnt proc.pagetable (s.cnt proc.pagetable + 1) }
      else s
    let pagetable := if flags.vm then proc.pagetable else 0
    let cwd := if flags.fs then proc.cwd else s.next
    let s := if flags.fs then s else { s with next := s.next + 1, cwds := s.next :: s.cwds }
    let fdt := if flags.files then proc.fdt else s.next
    let s := if flags.files then s else { s with next := s.next + 1, fdts := s.next :: s.fdts }
    some { s with
      task := update s.task child ⟨fdt, cwd, pagetable, false⟩
      procs := child :: s.procs }

/-- `do_exit` -/
def doExit (p : Nat) (s : Sys) : Sys :=
  let proc := s.task p
  { s with
    kfreed := s.kfreed ++ [proc.fdt, proc.cwd]
    task := update s.task p { proc with zombie := true } }

/-- `proc_free_pagetable` -/
def procFreePagetable (p : Nat) (s : Sys) : Sys :=
  let u := (s.task p).pagetable
  let old := s.cnt u
  let s := { s with cnt := update s.cnt u (old - 1) }
  if 1 < old then s else { s with pgtblFreed := s.pgtblFreed ++ [u] }

/-- `freeproc` -/
def freeproc (p : Nat) (s : Sys) : Sys :=
  let s := if (s.task p).pagetable ≠ 0 then procFreePagetable p s else s
  { s with procs := s.procs.erase p }

/-- `init_proc` -/
def initProc : Nat := 1

inductive Event
  | clone (p : Nat) (flags : Flags) (listEnds inodes : Bool)
  | exit (p : Nat)
  /-- `wait4` of the parent frees the process. -/
  | reap (p : Nat)
  deriving Repr, DecidableEq

def step (s : Sys) : Event → Option Sys
  | .clone p flags listEnds inodes =>
    if p ∈ s.procs ∧ (s.task p).zombie = false then sysClone flags listEnds inodes p s else none
  | .exit p => if p ∈ s.procs ∧ (s.task p).zombie = false then some (doExit p s) else none
  | .reap p =>
    if p ∈ s.procs ∧ (s.task p).zombie = true ∧ p ≠ initProc then some (freeproc p s) else none

/-- The system after `proc_init`. -/
def boot : Sys where
  procs := [initProc]
  task := fun p => if p = initProc then ⟨3, 2, 4, false⟩ else ⟨0, 0, 0, true⟩
  next := 5
  fdts := [3]
  cwds := [2]
  upgtbls := [4]
  cnt := fun u => if u = 4 then 1 else 0
  kfreed := []
  pgtblFreed := []

/-- No process leads to freed memory, and nothing has been freed twice. -/
structure Safe (s : Sys) : Prop where
  live : ∀ p ∈ s.procs, (s.task p).zombie = false →
    (s.task p).fdt ∉ s.kfreed ∧ (s.task p).cwd ∉ s.kfreed
  pagetable : ∀ p ∈ s.procs, (s.task p).pagetable ≠ 0 →
    (s.task p).pagetable ∉ s.kfreed ∧ (s.task p).pagetable ∉ s.pgtblFreed
  once : ∀ o, s.kfreed.count o ≤ 1 ∧ s.pgtblFreed.count o ≤ 1

/-- Besides, what no process leads to any more has been freed: a descriptor table and a working
directory when the last process has exited, an `upagetable` when it is gone from the list. -/
structure Owned (s : Sys) : Prop where
  safe : Safe s
  fdts : ∀ o ∈ s.fdts, (∀ p ∈ s.procs, (s.task p).zombie = false → (s.task p).fdt ≠ o) → o ∈ s.kfreed
  cwds : ∀ o ∈ s.cwds, (∀ p ∈ s.procs, (s.task p).zombie = false → (s.task p).cwd ≠ o) → o ∈ s.kfreed
  upgtbls : ∀ u ∈ s.upgtbls, (∀ p ∈ s.procs, (s.task p).pagetable ≠ u) → u ∈ s.kfreed

/-- The event is no `clone`. -/
def notClone (_ : Sys) : Event → Bool
  | .clone _ _ _ _ => false
  | _ => true

/-- A process that exits has its descriptor table and its working directory for itself. -/
def sole (s : Sys) : Event → Bool
  | .exit p => s.procs.all fun q => q == p || (s.task q).zombie ||
      ((s.task q).fdt != (s.task p).fdt && (s.task q).cwd != (s.task p).cwd)
  | _ => true

variable {flags : Flags} {listEnds inodes : Bool} {p : Nat} {e : Event}

section

variable {s s' : Sys}

/-! ## The first clone -/

/-- The system while only the first process exists. -/
structure Alone (s : Sys) : Prop where
  procs : s.procs = [initProc]
  task : ∃ z, s.task initProc = ⟨3, 2, 4, z⟩ ∧ s.kfreed = if z then [3, 2] else []
  next : s.next = 5
  fdts : s.fdts = [3]
  cwds : s.cwds = [2]
  upgtbls : s.upgtbls = [4]
  pgtblFreed : s.pgtblFreed = []

lemma Alone.owned (h : Alone s) : Owned s := by
  obtain ⟨z, htask, hfreed⟩ := h.task
  have hmem : ∀ p ∈ s.procs, p = initProc := by
    intro p hp
    rw [h.procs] at hp
    exact mem_singleton.mp hp
  have hinit : initProc ∈ s.procs := h.procs ▸ mem_singleton_self _
  have hgone : ∀ o, o = 3 ∨ o = 2 → z ≠ false → o ∈ s.kfreed := by
    intro o ho hz
    rw [hfreed, if_pos (Bool.not_eq_false z ▸ hz)]
    simpa using ho
  refine ⟨⟨?_, ?_, ?_⟩, ?_, ?_, ?_⟩
  · intro p hp hz
    rw [hmem p hp, htask] at hz ⊢
    have hz' : z = false := hz
    rw [hfreed, hz']
    exact ⟨not_mem_nil, not_mem_nil⟩
  · intro p hp _
    rw [hmem p hp, htask, hfreed, h.pgtblFreed]
    cases z
    · exact ⟨not_mem_nil, not_mem_nil⟩
    · exact ⟨by decide, not_mem_nil⟩
  · intro o
    rw [hfreed, h.pgtblFreed]
    refine ⟨nodup_iff_count_le_one.mp ?_ o, Nat.zero_le _⟩
    cases z
    · exact nodup_nil
    · decide
  · intro o ho hno
    rw [h.fdts, mem_singleton] at ho
    have hz := hno initProc hinit
    rw [htask] at hz
    exact hgone o (.inl ho) fun hf => hz hf ho.symm
  · intro o ho hno
    rw [h.cwds, mem_singleton] at ho
    have hz := hno initProc hinit
    rw [htask] at hz
    exact hgone o (.inr ho) fun hf => hz hf ho.symm
  · intro u hu hno
    rw [h.upgtbls, mem_singleton] at hu
    have hz := hno initProc hinit
    rw [htask] at hz
    exact absurd hu.symm hz

/-- What `clone` does: the child is new, and the descriptor table and the working directory that
it was allocated with stay behind. -/
lemma sysClone_result (h : sysClone flags listEnds inodes p s = some s') :
    (s.task p).pagetable ≠ 0 ∧ s'.procs = s.next :: s.procs ∧
    s'.kfreed = s.kfreed ∧ s'.pgtblFreed = s.pgtblFreed ∧ s'.upgtbls = s.upgtbls ∧
    s'.cnt = (if flags.vm then
      update s.cnt (s.task p).pagetable (s.cnt (s.task p).pagetable + 1) else s.cnt) ∧
    s.next + 3 ≤ s'.next ∧
    ∃ fdt cwd, s'.task = update s.task s.next
        ⟨fdt, cwd, if flags.vm then (s.task p).pagetable else 0, false⟩ ∧
      (fdt = (s.task p).fdt ∧ s'.fdts = (s.next + 2) :: s.fdts ∨
        s.next + 3 ≤ fdt ∧ fdt < s'.next ∧ s'.fdts = fdt :: (s.next + 2) :: s.fdts) ∧
      (cwd = (s.task p).cwd ∧ s'.cwds = (s.next + 1) :: s.cwds ∨
        s.next + 3 ≤ cwd ∧ cwd < s'.next ∧ (fdt = (s.task p).fdt ∨ cwd ≠ fdt) ∧
          s'.cwds = cwd :: (s.next + 1) :: s.cwds) := by
  obtain ⟨hreturns, h⟩ := ite_none_left_eq_some.mp h
  have hnull := (not_or.mp hreturns).1
  cases h
  rcases flags with ⟨_ | _, _ | _, _ | _⟩ <;> simp [allocProc, hnull, update_idem]

lemma Alone.clone (h : Alone s) (hp : p ∈ s.procs)
    (hstep : sysClone flags listEnds inodes p s = some s') : ¬ Owned s' := by
  obtain ⟨z, htask, hfreed⟩ := h.task
  obtain ⟨-, hprocs, hkfreed, -, -, -, -, fdt, cwd, htask', hfdt, -⟩ := sysClone_result hstep
  have hpi : p = initProc := by
    rw [h.procs] at hp
    exact mem_singleton.mp hp
  rw [hpi, htask, h.next] at hfdt
  rw [h.next] at hprocs htask'
  -- the descriptor table of `alloc_proc`
  intro howned
  have hmem : 7 ∈ s'.fdts := by
    rcases hfdt with ⟨-, hfdts⟩ | ⟨-, -, hfdts⟩ <;> rw [hfdts] <;> simp
  have hnone : ∀ q ∈ s'.procs, (s'.task q).zombie = false → (s'.task q).fdt ≠ 7 := by
    intro q hq _
    rw [hprocs, h.procs] at hq
    rcases mem_cons.mp hq with rfl | hq
    · rw [htask', update_self]
      rcases hfdt with ⟨hf, -⟩ | ⟨hf, -, -⟩
      · rw [hf]
        exact (by decide : 3 ≠ 7)
      · exact Nat.ne_of_gt hf
    · rw [mem_singleton.mp hq, htask', update_of_ne (by decide), htask]
      exact (by decide : 3 ≠ 7)
  have hlost := howned.fdts 7 hmem hnone
  rw [hkfreed, hfreed] at hlost
  cases z
  · exact not_mem_nil hlost
  · exact absurd hlost (by decide)

lemma Alone.exit (h : Alone s) (hp : p ∈ s.procs) (hz : (s.task p).zombie = false) :
    Alone (doExit p s) := by
  obtain ⟨z, htask, hfreed⟩ := h.task
  have hpi : p = initProc := by
    rw [h.procs] at hp
    exact mem_singleton.mp hp
  subst hpi
  rw [htask] at hz
  have hz' : z = false := hz
  subst hz'
  refine ⟨h.procs, ⟨true, ?_, ?_⟩, h.next, h.fdts, h.cwds, h.upgtbls, h.pgtblFreed⟩
  · simp only [doExit, update_self, htask]
  · simp only [doExit, hfreed, htask]
    rfl

lemma alone_boot : Alone boot :=
  ⟨rfl, ⟨false, rfl, rfl⟩, rfl, rfl, rfl, rfl, rfl⟩

lemma Alone.step (h : Alone s) (he : notClone s e = true)
    (hstep : Share.step s e = some s') : Alone s' := by
  cases e with
  | clone p flags listEnds inodes => cases he
  | exit p =>
    obtain ⟨⟨hp, hz⟩, heq⟩ := ite_none_right_eq_some.mp hstep
    rw [← some.inj heq]
    exact h.exit hp hz
  | reap p =>
    obtain ⟨⟨hp, -, hne⟩, -⟩ := ite_none_right_eq_some.mp hstep
    rw [h.procs] at hp
    exact absurd (mem_singleton.mp hp) hne

/-- The first `clone` ends it. -/
lemma Alone.owned_iff (h : Alone s) (hstep : Share.step s e = some s') :
    Owned s' ↔ notClone s e = true := by
  constructor
  · intro howned
    cases e with
    | clone p flags listEnds inodes =>
      obtain ⟨⟨hp, -⟩, hclone⟩ := ite_none_right_eq_some.mp hstep
      exact absurd howned (h.clone hp hclone)
    | exit p => rfl
    | reap p => rfl
  · intro he
    exact (h.step he hstep).owned

/-! ## Sharing -/

/-- The number of listed processes that run on a page table. -/
def users (s : Sys) (u : Nat) : Nat := s.procs.countP fun p => (s.task p).pagetable == u

/-- The invariant of the runs in which no process frees what another one uses. -/
structure Inv (s : Sys) : Prop where
  nodup : s.procs.Nodup
  listed : ∀ p ∈ s.procs, p < s.next
  fdt : ∀ p ∈ s.procs, (s.task p).fdt ∈ s.fdts
  cwd : ∀ p ∈ s.procs, (s.task p).cwd ∈ s.cwds
  apart : ∀ o ∈ s.fdts, o ∉ s.cwds
  fdts : ∀ o ∈ s.fdts, o < s.next
  cwds : ∀ o ∈ s.cwds, o < s.next
  kfreed : ∀ o ∈ s.kfreed, o ∈ s.fdts ∨ o ∈ s.cwds
  once : s.kfreed.Nodup
  live : ∀ p ∈ s.procs, (s.task p).zombie = false →
    (s.task p).fdt ∉ s.kfreed ∧ (s.task p).cwd ∉ s.kfreed
  pagetable : ∀ p ∈ s.procs, (s.task p).pagetable = 0 ∨
    (s.task p).pagetable ∈ s.upgtbls ∧ (s.task p).pagetable ∉ s.pgtblFreed
  upgtbls : ∀ u ∈ s.upgtbls, u ∉ s.fdts ∧ u ∉ s.cwds ∧ u < s.next ∧ u ≠ 0
  cnt : ∀ u ≠ 0, u ∉ s.pgtblFreed → s.cnt u = users s u
  pgtblOnce : s.pgtblFreed.Nodup

lemma Inv.safe (h : Inv s) : Safe s := by
  refine ⟨h.live, ?_, fun o => ⟨nodup_iff_count_le_one.mp h.once o,
    nodup_iff_count_le_one.mp h.pgtblOnce o⟩⟩
  intro p hp hne
  rcases h.pagetable p hp with hnull | ⟨hu, hfreed⟩
  · exact absurd hnull hne
  · obtain ⟨hf, hc, -⟩ := h.upgtbls _ hu
    exact ⟨fun hk => (h.kfreed _ hk).elim hf hc, hfreed⟩

lemma inv_boot : Inv boot := by
  refine ⟨by decide, by decide, by decide, by decide, by decide, by decide, by decide, by decide,
    by decide, by decide, by decide, by decide, ?_, by decide⟩
  intro u hu _
  by_cases h4 : u = 4
  · rw [h4]
    rfl
  · have h4' : ¬ 4 = u := fun h => h4 h.symm
    simp [boot, users, initProc, h4, h4']

lemma Inv.new (h : Inv s) {o : Nat} (ho : s.next ≤ o) :
    o ∉ s.procs ∧ o ∉ s.fdts ∧ o ∉ s.cwds ∧ o ∉ s.kfreed := by
  have hf : o ∉ s.fdts := fun hm => absurd (h.fdts o hm) (Nat.not_lt.mpr ho)
  have hc : o ∉ s.cwds := fun hm => absurd (h.cwds o hm) (Nat.not_lt.mpr ho)
  exact ⟨fun hm => absurd (h.listed o hm) (Nat.not_lt.mpr ho), hf, hc,
    fun hm => (h.kfreed o hm).elim hf hc⟩

/-- A new process at the head of the list, with every other one as it was. -/
lemma users_cons {t : Task} (hp : p ∉ s.procs) (hprocs : s'.procs = p :: s.procs)
    (htask : s'.task = update s.task p t) (u : Nat) :
    users s' u = users s u + if t.pagetable = u then 1 else 0 := by
  have hrest : s.procs.countP (fun q => (s'.task q).pagetable == u) = users s u := by
    refine countP_congr fun q hq => ?_
    rw [htask, update_of_ne (ne_of_mem_of_not_mem hq hp)]
  unfold users
  rw [hprocs, countP_cons, hrest, htask, update_self]
  simp only [users, beq_iff_eq]

lemma Inv.clone (h : Inv s) (hp : p ∈ s.procs)
    (hz : (s.task p).zombie = false) (hstep : sysClone flags listEnds inodes p s = some s') : Inv s' := by
  obtain ⟨hnull, hprocs, hkfreed, hpgtbl, hupgtbls, hcnt, hnext, fdt, cwd, htask, hfdt, hcwd⟩ :=
    sysClone_result hstep
  have hchild : s.next ∉ s.procs := (h.new (Nat.le_refl _)).1
  have hold : ∀ q ∈ s.procs, s'.task q = s.task q := by
    intro q hq
    rw [htask, update_of_ne (ne_of_mem_of_not_mem hq hchild)]
  have hself : s'.task s.next =
      ⟨fdt, cwd, if flags.vm then (s.task p).pagetable else 0, false⟩ := by
    rw [htask, update_self]
  obtain ⟨hfdtp, hcwdp⟩ := h.live p hp hz
  have hfsub : ∀ o ∈ s.fdts, o ∈ s'.fdts := by
    intro o ho
    rcases hfdt with ⟨-, he⟩ | ⟨-, -, he⟩ <;> rw [he] <;> simp [ho]
  have hcsub : ∀ o ∈ s.cwds, o ∈ s'.cwds := by
    intro o ho
    rcases hcwd with ⟨-, he⟩ | ⟨-, -, -, he⟩ <;> rw [he] <;> simp [ho]
  have hfnew : ∀ o ∈ s'.fdts, o ∈ s.fdts ∨ s.next + 2 ≤ o ∧ o < s'.next ∧ (o = s.next + 2 ∨ o = fdt) := by
    intro o ho
    rcases hfdt with ⟨-, he⟩ | ⟨hle, hlt, he⟩ <;> rw [he] at ho <;> simp only [mem_cons] at ho <;> grind
  have hcnew : ∀ o ∈ s'.cwds, o ∈ s.cwds ∨
      s.next ≤ o ∧ o < s'.next ∧ o ≠ s.next + 2 ∧ (fdt = (s.task p).fdt ∨ o ≠ fdt) := by
    intro o ho
    rcases hcwd with ⟨-, he⟩ | ⟨hle, hlt, hne, he⟩ <;> rw [he] at ho <;> simp only [mem_cons] at ho <;> grind
  have hfdt' : fdt ∈ s'.fdts ∧ fdt ∉ s.kfreed := by
    rcases hfdt with ⟨rfl, -⟩ | ⟨hle, -, he⟩
    · exact ⟨hfsub _ (h.fdt p hp), hfdtp⟩
    · exact ⟨by rw [he]; exact mem_cons_self, (h.new (by omega)).2.2.2⟩
  have hcwd' : cwd ∈ s'.cwds ∧ cwd ∉ s.kfreed := by
    rcases hcwd with ⟨rfl, -⟩ | ⟨hle, -, -, he⟩
    · exact ⟨hcsub _ (h.cwd p hp), hcwdp⟩
    · exact ⟨by rw [he]; exact mem_cons_self, (h.new (by omega)).2.2.2⟩
  have hlist : ∀ {Q : Nat → Prop}, Q s.next → (∀ q ∈ s.procs, Q q) → ∀ q ∈ s'.procs, Q q := by
    intro Q hnew hrest q hq
    rw [hprocs] at hq
    rcases mem_cons.mp hq with rfl | hq
    · exact hnew
    · exact hrest q hq
  refine ⟨?_, ?_, ?_, ?_, ?_, ?_, ?_, ?_, ?_, ?_, ?_, ?_, ?_, ?_⟩
  · rw [hprocs]
    exact nodup_cons.mpr ⟨hchild, h.nodup⟩
  · exact hlist (by omega) fun q hq => Nat.lt_of_lt_of_le (h.listed q hq) (by omega)
  · refine hlist (by rw [hself]; exact hfdt'.1) fun q hq => ?_
    rw [hold q hq]
    exact hfsub _ (h.fdt q hq)
  · refine hlist (by rw [hself]; exact hcwd'.1) fun q hq => ?_
    rw [hold q hq]
    exact hcsub _ (h.cwd q hq)
  · intro o ho hc
    have hparent := h.fdts _ (h.fdt p hp)
    rcases hfnew o ho with ho' | ⟨hle, -, ho'⟩
    · rcases hcnew o hc with hc' | ⟨hle', -⟩
      · exact h.apart o ho' hc'
      · exact absurd (h.fdts o ho') (Nat.not_lt.mpr hle')
    · rcases hcnew o hc with hc' | ⟨-, -, hne, hor⟩
      · exact absurd (h.cwds o hc') (by omega)
      · omega
  · intro o ho
    rcases hfnew o ho with ho' | ⟨-, hlt, -⟩
    · exact Nat.lt_of_lt_of_le (h.fdts o ho') (by omega)
    · exact hlt
  · intro o ho
    rcases hcnew o ho with ho' | ⟨-, hlt, -⟩
    · exact Nat.lt_of_lt_of_le (h.cwds o ho') (by omega)
    · exact hlt
  · intro o ho
    rw [hkfreed] at ho
    exact (h.kfreed o ho).imp (hfsub o) (hcsub o)
  · rw [hkfreed]
    exact h.once
  · rw [hkfreed]
    refine hlist (fun _ => ?_) fun q hq => ?_
    · rw [hself]
      exact ⟨hfdt'.2, hcwd'.2⟩
    · rw [hold q hq]
      exact h.live q hq
  · rw [hpgtbl, hupgtbls]
    refine hlist ?_ fun q hq => ?_
    · rw [hself]
      by_cases hvm : flags.vm = true
      · simp only [hvm, if_true]
        exact h.pagetable p hp
      · simp [hvm]
    · rw [hold q hq]
      exact h.pagetable q hq
  · intro u hu
    rw [hupgtbls] at hu
    obtain ⟨hf, hc, hlt, hne⟩ := h.upgtbls u hu
    refine ⟨fun hm => ?_, fun hm => ?_, by omega, hne⟩
    · rcases hfnew u hm with hm' | ⟨hle, -⟩
      · exact hf hm'
      · omega
    · rcases hcnew u hm with hm' | ⟨hle, -⟩
      · exact hc hm'
      · omega
  · intro u hu hfree
    rw [hpgtbl] at hfree
    rw [users_cons hchild hprocs htask, ← h.cnt u hu hfree, hcnt]
    by_cases hvm : flags.vm = true
    · simp only [hvm, if_true, update_apply, eq_comm (a := u)]
      by_cases he : (s.task p).pagetable = u
      · simp [he]
      · simp [he]
    · simp [hvm, hu.symm]
  · rw [hpgtbl]
    exact h.pgtblOnce

lemma Inv.exit (h : Inv s) (hp : p ∈ s.procs) (hz : (s.task p).zombie = false)
    (hsole : sole s (.exit p) = true) : Inv (doExit p s) := by
  obtain ⟨hfdt, hcwd⟩ := h.live p hp hz
  have hne : (s.task p).fdt ≠ (s.task p).cwd := fun heq =>
    h.apart _ (h.fdt p hp) (heq ▸ h.cwd p hp)
  have htask : ∀ q, ((doExit p s).task q).fdt = (s.task q).fdt ∧
      ((doExit p s).task q).cwd = (s.task q).cwd ∧
      ((doExit p s).task q).pagetable = (s.task q).pagetable := by
    intro q
    by_cases hq : q = p
    · subst hq
      simp [doExit]
    · simp [doExit, update_of_ne hq]
  refine ⟨h.nodup, h.listed, fun q hq => (htask q).1 ▸ h.fdt q hq,
    fun q hq => (htask q).2.1 ▸ h.cwd q hq, h.apart, h.fdts, h.cwds, ?_, ?_, ?_,
    fun q hq => (htask q).2.2 ▸ h.pagetable q hq, h.upgtbls, ?_, h.pgtblOnce⟩
  · intro o ho
    rcases mem_append.mp ho with ho | ho
    · exact h.kfreed o ho
    · simp only [mem_cons, not_mem_nil, or_false] at ho
      rcases ho with rfl | rfl
      · exact .inl (h.fdt p hp)
      · exact .inr (h.cwd p hp)
  · refine nodup_append.mpr ⟨h.once, by simp [hne], ?_⟩
    intro a ha b hb
    simp only [mem_cons, not_mem_nil, or_false] at hb
    rcases hb with rfl | rfl
    · exact fun heq => hfdt (heq ▸ ha)
    · exact fun heq => hcwd (heq ▸ ha)
  · intro q hq hlive
    have hqp : q ≠ p := by
      intro heq
      simp [doExit, heq] at hlive
    have hlive' : (s.task q).zombie = false := by
      simpa [doExit, update_of_ne hqp] using hlive
    obtain ⟨hqf, hqc⟩ := h.live q hq hlive'
    have hshare := all_eq_true.mp hsole q hq
    simp only [hlive', Bool.or_false, Bool.or_eq_true, beq_iff_eq, hqp, false_or, Bool.and_eq_true,
      bne_iff_ne] at hshare
    rw [(htask q).1, (htask q).2.1]
    simp only [doExit, mem_append, mem_cons, not_mem_nil, or_false, not_or]
    refine ⟨⟨hqf, hshare.1, ?_⟩, hqc, ?_, hshare.2⟩
    · exact fun heq => h.apart _ (h.fdt q hq) (heq ▸ h.cwd p hp)
    · exact fun heq => h.apart _ (h.fdt p hp) (heq ▸ h.cwd q hq)
  · intro u hu hfree
    have husers : users (doExit p s) u = users s u :=
      countP_congr fun q _ => by rw [(htask q).2.2]
    rw [husers]
    exact h.cnt u hu hfree

/-- What `freeproc` does: the page table goes with the last process on the list that uses it. -/
lemma freeproc_result :
    (freeproc p s).procs = s.procs.erase p ∧ (freeproc p s).task = s.task ∧
    (freeproc p s).next = s.next ∧ (freeproc p s).fdts = s.fdts ∧ (freeproc p s).cwds = s.cwds ∧
    (freeproc p s).upgtbls = s.upgtbls ∧ (freeproc p s).kfreed = s.kfreed ∧
    ((s.task p).pagetable = 0 ∧ (freeproc p s).cnt = s.cnt ∧
        (freeproc p s).pgtblFreed = s.pgtblFreed ∨
      (s.task p).pagetable ≠ 0 ∧ (freeproc p s).cnt = update s.cnt (s.task p).pagetable
          (s.cnt (s.task p).pagetable - 1) ∧
        (freeproc p s).pgtblFreed = if 1 < s.cnt (s.task p).pagetable then s.pgtblFreed
          else s.pgtblFreed ++ [(s.task p).pagetable]) := by
  by_cases hnull : (s.task p).pagetable = 0
  · simp [freeproc, hnull]
  · by_cases hcnt : 1 < s.cnt (s.task p).pagetable <;> simp [freeproc, procFreePagetable, hnull, hcnt]

lemma Inv.reap (h : Inv s) (hp : p ∈ s.procs) : Inv (freeproc p s) := by
  obtain ⟨hprocs, htask, hnext, hfdts, hcwds, hupgtbls, hkfreed, hpgtbl⟩ := freeproc_result (s := s) (p := p)
  have hsub : ∀ q ∈ (freeproc p s).procs, q ∈ s.procs := by
    intro q hq
    rw [hprocs] at hq
    exact mem_of_mem_erase hq
  -- the process counts among the users of its own page table
  have husers : ∀ u, users s u = users (freeproc p s) u + if (s.task p).pagetable = u then 1 else 0 := by
    intro u
    have hperm := (perm_cons_erase hp).countP_eq fun q => (s.task q).pagetable == u
    unfold users
    rw [hprocs, htask, hperm, countP_cons]
    simp only [beq_iff_eq]
  have hkeep : (∀ q ∈ (freeproc p s).procs, (s.task q).pagetable = 0 ∨
      (s.task q).pagetable ∉ (freeproc p s).pgtblFreed) ∧
      (∀ u ≠ 0, u ∉ (freeproc p s).pgtblFreed → (freeproc p s).cnt u = users (freeproc p s) u) ∧
      (freeproc p s).pgtblFreed.Nodup := by
    rcases hpgtbl with ⟨hnull, hcnt, hfreed⟩ | ⟨hnull, hcnt, hfreed⟩
    · rw [hcnt, hfreed]
      refine ⟨fun q hq => (h.pagetable q (hsub q hq)).imp_right And.right, ?_, h.pgtblOnce⟩
      intro u hu hfree
      have hne : (s.task p).pagetable ≠ u := by
        rw [hnull]
        exact hu.symm
      rw [h.cnt u hu hfree, husers u, if_neg hne, Nat.add_zero]
    · have hlive := ((h.pagetable p hp).resolve_left hnull).2
      have hown := h.cnt _ hnull hlive
      rw [husers, if_pos rfl] at hown
      have hcounts : ∀ u ≠ 0, u ∉ s.pgtblFreed →
          (freeproc p s).cnt u = users (freeproc p s) u := by
        intro u hu hfree
        rw [hcnt]
        by_cases hpu : u = (s.task p).pagetable
        · rw [hpu, update_self, hown, Nat.add_sub_cancel]
        · rw [update_of_ne hpu, h.cnt u hu hfree, husers u, if_neg (Ne.symm hpu),
            Nat.add_zero]
      by_cases hlast : 1 < s.cnt (s.task p).pagetable
      · rw [if_pos hlast] at hfreed
        rw [hfreed]
        exact ⟨fun q hq => (h.pagetable q (hsub q hq)).imp_right And.right, hcounts, h.pgtblOnce⟩
      · rw [if_neg hlast] at hfreed
        rw [hfreed]
        have hnone : users (freeproc p s) (s.task p).pagetable = 0 := by omega
        refine ⟨fun q hq => (h.pagetable q (hsub q hq)).imp_right fun hq' hm => ?_,
          fun u hu hfree => hcounts u hu fun hm => hfree (mem_append_left _ hm),
          nodup_append.mpr ⟨h.pgtblOnce, nodup_singleton _, ?_⟩⟩
        · rcases mem_append.mp hm with hm | hm
          · exact hq'.2 hm
          · have hno := countP_eq_zero.mp hnone q hq
            rw [htask] at hno
            exact hno (beq_iff_eq.mpr (mem_singleton.mp hm))
        · intro a ha b hb heq
          rw [mem_singleton.mp hb] at heq
          exact hlive (heq ▸ ha)
  refine ⟨?_, ?_, ?_, ?_, ?_, ?_, ?_, ?_, ?_, ?_, ?_, ?_, hkeep.2.1, hkeep.2.2⟩
  · rw [hprocs]
    exact h.nodup.erase p
  · rw [hnext]
    exact fun q hq => h.listed q (hsub q hq)
  · rw [htask, hfdts]
    exact fun q hq => h.fdt q (hsub q hq)
  · rw [htask, hcwds]
    exact fun q hq => h.cwd q (hsub q hq)
  · rw [hfdts, hcwds]
    exact h.apart
  · rw [hfdts, hnext]
    exact h.fdts
  · rw [hcwds, hnext]
    exact h.cwds
  · rw [hkfreed, hfdts, hcwds]
    exact h.kfreed
  · rw [hkfreed]
    exact h.once
  · rw [htask, hkfreed]
    exact fun q hq => h.live q (hsub q hq)
  · rw [htask, hupgtbls]
    intro q hq
    rcases h.pagetable q (hsub q hq) with hz | ⟨hu, -⟩
    · exact .inl hz
    · exact (hkeep.1 q hq).imp_right fun hfree => ⟨hu, hfree⟩
  · rw [hupgtbls, hfdts, hcwds, hnext]
    exact h.upgtbls

lemma Inv.step (h : Inv s) (he : sole s e = true)
    (hstep : Share.step s e = some s') : Inv s' := by
  cases e with
  | clone p flags listEnds inodes =>
    obtain ⟨⟨hp, hz⟩, hclone⟩ := ite_none_right_eq_some.mp hstep
    exact h.clone hp hz hclone
  | exit p =>
    obtain ⟨⟨hp, hz⟩, heq⟩ := ite_none_right_eq_some.mp hstep
    rw [← some.inj heq]
    exact h.exit hp hz he
  | reap p =>
    obtain ⟨⟨hp, -⟩, heq⟩ := ite_none_right_eq_some.mp hstep
    rw [← some.inj heq]
    exact h.reap hp

end

/-- The tables are owned in every state of a run exactly when the run has no `clone`, since each
one loses the two tables that `alloc_proc` made for the child. What is freed is freed once and
by its last user as long as no process exits that shares a descriptor table or a working directory
with another one that is alive. -/
theorem tables_freed_once {ts : List (Transition Sys Event)} {s : Sys}
    (hr : Run (fun s e s' => step s e = some s') boot ts s) :
    ((∀ t ∈ ts, Owned t.target) ↔ ∀ t ∈ ts, notClone t.source t.label = true) ∧
    ((∀ t ∈ ts, sole t.source t.label = true) → Safe s ∧ ∀ t ∈ ts, Safe t.target) := by
  constructor
  · have hstep : ∀ s e s', Alone s → notClone s e = true → step s e = some s' → Alone s' := by
      intro s e s' h he hs
      exact h.step he hs
    have hexact : ∀ s e s', Alone s → step s e = some s' → (Owned s' ↔ notClone s e = true) := by
      intro s e s' h hs
      exact h.owned_iff hs
    exact hr.forall_iff alone_boot hstep hexact
  · intro hsole
    have hstep : ∀ s e s', Inv s → sole s e = true → step s e = some s' → Inv s' := by
      intro s e s' h he hs
      exact h.step he hs
    have hgood : ∀ s e s', Inv s → sole s e = true → step s e = some s' → Inv s' ∧ Safe s' := by
      intro s e s' h he hs
      exact ⟨h.step he hs, (h.step he hs).safe⟩
    have hall := hr.forall_of_forall inv_boot hsole hgood
    exact ⟨(hr.invariant_of_forall inv_boot hsole hstep).safe, hall⟩

/-- The machine on a list of events, with the events that meet the condition counted along. -/
def follow (es : List Event) : Option (Bool × Sys) :=
  es.foldlM (fun x e => (step x.2 e).map fun s => (x.1 && sole x.2 e, s)) (true, boot)

/-- A process whose list of areas has an end and whose files have inodes makes a thread that shares
the page table only: when it is reaped the count is back at one. -/
theorem tables_freed_once_thread : ∃ ts s, Run (fun s e s' => step s e = some s') boot ts s ∧
    Safe s ∧ s.procs = [initProc] ∧ s.cnt 4 = 1 ∧ s.pgtblFreed = [] ∧ s.kfreed = [9, 8] := by
  have hrun : (follow [.clone 1 ⟨true, false, false⟩ true true, .exit 5, .reap 5]).map
      (fun x => (x.1, x.2.procs, x.2.cnt 4, x.2.pgtblFreed, x.2.kfreed)) =
      some (true, [initProc], 1, [], [9, 8]) := by decide
  obtain ⟨⟨b, s⟩, hf, hview⟩ := map_eq_some_iff.mp hrun
  simp only [Prod.mk.injEq] at hview
  obtain ⟨hb, hprocs, hcnt, hpgtbl, hkfreed⟩ := hview
  obtain ⟨ts, hr, hts⟩ := Run.exists_of_foldlM Run.nil nofun hf
  exact ⟨ts, s, hr, ((tables_freed_once hr).2 (hts hb)).1, hprocs, hcnt, hpgtbl, hkfreed⟩

/-- The first process as `proc_init` leaves it makes a child that shares its working directory and its
descriptor table. Those that `alloc_proc` made for the child are lost. -/
theorem tables_lost : ∃ s, (∃ ts, Run (fun s e s' => step s e = some s') boot ts s) ∧
    s.procs = [5, initProc] ∧ (∀ p ∈ s.procs, (s.task p).fdt = 3 ∧ (s.task p).cwd = 2) ∧
    7 ∈ s.fdts ∧ 6 ∈ s.cwds ∧ s.kfreed = [] ∧ ¬ Owned s := by
  have hrun : (follow [.clone 1 ⟨false, true, true⟩ false false]).map (fun x => (x.2.procs,
      decide (∀ p ∈ x.2.procs, (x.2.task p).fdt = 3 ∧ (x.2.task p).cwd = 2), x.2.fdts, x.2.cwds,
      x.2.kfreed)) = some ([5, initProc], true, [7, 3], [6, 2], []) := by decide
  obtain ⟨⟨b, s⟩, hf, hview⟩ := map_eq_some_iff.mp hrun
  simp only [Prod.mk.injEq, decide_eq_true_eq] at hview
  obtain ⟨hprocs, htask, hfdts, hcwds, hkfreed⟩ := hview
  obtain ⟨ts, hr, -⟩ := Run.exists_of_foldlM Run.nil nofun hf
  have hfdt : 7 ∈ s.fdts := by
    rw [hfdts]
    decide
  refine ⟨s, ⟨ts, hr⟩, hprocs, htask, hfdt, by rw [hcwds]; decide, hkfreed, fun howned => ?_⟩
  have hfreed := howned.fdts 7 hfdt fun p hp _ heq => absurd ((htask p hp).1.symm.trans heq) (by decide)
  rw [hkfreed] at hfreed
  exact not_mem_nil hfreed

end Hana.Share
