import Hana.Lib.NullList
import Hana.Mm.Vm.Boot
import Hana.Mm.Vm.Unmap
import Hana.Mm.Vma.Model
import Mathlib.Data.List.Nodup

/-!
# The lists of areas

A list of areas should end in the null pointer, in both directions, and the lists of two
processes should have no area in common: then every search over a list ends, and an
operation of one process does not touch the areas of another. `Effect` says this of one
operation: only the list of one process changes, and what is new on it was not allocated
before.

The list that `proc_init` makes is linked to itself, and so is every list that `execve`
makes for a program with a segment to load. `Cond` keeps the steps away from the first and
does not allow the second.
-/

namespace Hana.Vma

open Function List Option State Lib Vm

variable {A : Type}

/-- The list that starts at `head` has the areas `nodes`. -/
def IsVmaList (area : Nat → Area) (head : Nat) (nodes : List Nat) : Prop :=
  NullList 0 (fun a => (area a).next) (fun a => (area a).prev) 0 head nodes

/-- The first area is linked to itself. -/
def SelfLinked (area : Nat → Area) (head : Nat) : Prop := head ≠ 0 ∧ (area head).next = head

/-- A list over which every search ends, and ends on the list. -/
structure WellFormed (area : Nat → Area) (p : Process) (nodes : List Nat) : Prop where
  list : IsVmaList area p.vmaList nodes
  nodup : nodes.Nodup
  findVma : ∀ va, ∃ fuel vma, findVma area va fuel p.vmaList = some vma ∧ (vma = 0 ∨ vma ∈ nodes)
  findFree : ∀ length, ∃ fuel r, findFreeVmaRange area fuel p length = some r

/-- What a step may do. -/
def Cond (s : State A) : Call → Prop
  | .kalloc _ => True
  | .execve _ phdrs page _ => (∀ phdr ∈ phdrs, phdr.pType ≠ ptLoad) ∧ page.prev = 0
  | .clone pid flags _ => flags &&& cloneVm ≠ 0 → ∀ p, s.proc pid = some p →
      p.vmaList = 0 ∨ (s.area p.vmaList).next = 0
  | .mmap pid _ page => (∀ p, s.proc pid = some p → ¬ SelfLinked s.area p.vmaList) ∧ page.prev = 0
  | .munmap pid _ _ => ∀ p, s.proc pid = some p → ¬ SelfLinked s.area p.vmaList

/-! ## Searches -/

variable {area : Nat → Area} {head : Nat} {nodes : List Nat}

lemma SelfLinked.not_list (h : SelfLinked area head) (nodes : List Nat) :
    ¬ IsVmaList area head nodes := by
  intro hl
  have hmem := hl.start_mem h.1
  obtain ⟨l1, l2, rfl⟩ := append_of_mem hmem
  have hdrop : NullList 0 (fun a => (area a).next) (fun a => (area a).prev) head head l2 := by
    have := hl.drop
    rwa [h.2] at this
  have hlen := congrArg length (hdrop.unique hl)
  simp only [length_append, length_cons] at hlen
  omega

variable {va b x a file f c addr list first : Nat}

lemma findVma_list
    (h : NullList 0 (fun a => (area a).next) (fun a => (area a).prev) b head nodes) :
    ∃ vma, findVma area va (nodes.length + 1) head = some vma ∧ (vma = 0 ∨ vma ∈ nodes) := by
  induction nodes generalizing b head with
  | nil =>
    have hnull : head = 0 := h
    exact ⟨0, by rw [findVma, if_pos hnull], .inl rfl⟩
  | cons x nodes ih =>
    obtain ⟨rfl, hne, _, h⟩ := h
    rw [findVma, if_neg hne]
    split_ifs with hin
    · exact ⟨head, rfl, .inr mem_cons_self⟩
    · obtain ⟨vma, hfind, hmem⟩ := ih h
      exact ⟨vma, hfind, hmem.imp_right (mem_cons_of_mem _)⟩

lemma findHint_list {length : Nat}
    (h : NullList 0 (fun a => (area a).next) (fun a => (area a).prev) b head nodes) (hint : Nat) :
    ∃ r, findHint area length (nodes.length + 1) head hint = some r := by
  induction nodes generalizing b head hint with
  | nil =>
    have hnull : head = 0 := h
    exact ⟨_, by rw [findHint, if_pos hnull]⟩
  | cons x nodes ih =>
    obtain ⟨rfl, hne, _, h⟩ := h
    rw [findHint, if_neg hne]
    split_ifs
    · exact ⟨_, rfl⟩
    · exact ih h _

lemma IsVmaList.wellFormed {p : Process} (h : IsVmaList area p.vmaList nodes) :
    WellFormed area p nodes := by
  refine ⟨h, h.nodup, fun va => ⟨_, findVma_list h⟩, fun length => ⟨nodes.length + 1, ?_⟩⟩
  obtain ⟨⟨hint, found⟩, hr⟩ : ∃ r, findHint area length (nodes.length + 1) p.vmaList
      (wrap64 (p.mmapBrk + (2 ^ 64 - length))) = some r := findHint_list h _
  simp only [findFreeVmaRange, hr, bind_eq_bind, bind_some]
  split_ifs
  · exact ⟨_, rfl⟩
  · exact ⟨_, rfl⟩

/-- A search that ends on an area of the list has found it there. -/
lemma findVma_mem {vma : Nat} {fuel : Nat}
    (h : NullList 0 (fun a => (area a).next) (fun a => (area a).prev) b head nodes)
    (hfind : findVma area va fuel head = some vma) (hne : vma ≠ 0) : vma ∈ nodes := by
  induction fuel generalizing b head nodes with
  | zero => cases hfind
  | succ fuel ih =>
    rw [findVma] at hfind
    split_ifs at hfind with hnull hin
    · cases hfind
      exact absurd rfl hne
    · cases hfind
      exact h.start_mem hnull
    · cases nodes with
      | nil => exact absurd h hnull
      | cons x nodes =>
        obtain ⟨rfl, _, _, h⟩ := h
        exact mem_cons_of_mem _ (ih h hfind)

/-! ## What an operation changes -/

variable {area' : Nat → Area} {args : MmapArgs} {fRef : Nat → Int} {phdrs : List Phdr}
variable {ts : List (Transition (State A) Call)}

section

variable {Inv : A → Prop} {Held : A → Nat → Nat → Prop} {lo hi : Nat} {E : Env A}
variable {s s' s₁ : State A} {pid q : Nat} {p p' : Process} {old new nodes : List Nat}

/-- The lists of all processes. A list that is linked to itself counts as its first area. -/
structure Lists (Inv : A → Prop) (Held : A → Nat → Nat → Prop) (s : State A)
    (nodes : Nat → List Nat) : Prop where
  alloc : Inv s.mem.alloc
  fresh : ∀ pid, s.nextPid ≤ pid → s.proc pid = none
  list : ∀ {pid p}, s.proc pid = some p → IsVmaList s.area p.vmaList (nodes pid) ∨
    SelfLinked s.area p.vmaList ∧ nodes pid = [p.vmaList]
  held : ∀ {pid x}, x ∈ nodes pid → Held s.mem.alloc x 1
  apart : ∀ {pid pid' x}, pid ≠ pid' → x ∈ nodes pid → x ∉ nodes pid'

/-- The list of the process `q` becomes `new`; of the areas that were allocated before, only those
in `old` are touched. -/
structure Effect (Inv : A → Prop) (Held : A → Nat → Nat → Prop) (q : Nat) (old new : List Nat)
    (s s' : State A) : Prop where
  alloc : Inv s'.mem.alloc
  frame : ∀ x, Held s.mem.alloc x 1 → x ∉ old → Held s'.mem.alloc x 1 ∧ s'.area x = s.area x
  made : ∀ x ∈ new, Held s'.mem.alloc x 1 ∧ (x ∈ old ∨ ¬ Held s.mem.alloc x 1)
  other : ∀ pid, pid ≠ q → s'.proc pid = s.proc pid
  proc : ∃ p, s'.proc q = some p ∧ IsVmaList s'.area p.vmaList new
  nextPid : s.nextPid ≤ s'.nextPid ∧ q < s'.nextPid

variable {area : Nat → Area} {page : Area} {v fuel length pagetable vma : Nat} {res : Int}

lemma SelfLinked.congr {head : Nat} (h : area' head = area head) :
    SelfLinked area' head ↔ SelfLinked area head := by
  unfold SelfLinked
  rw [h]

lemma IsVmaList.congr {head : Nat} (h : IsVmaList area head nodes)
    (hsame : ∀ x ∈ nodes, area' x = area x) :
    IsVmaList area' head nodes :=
  NullList.congr h fun x hx => by
    rw [hsame x hx]
    exact ⟨rfl, rfl⟩

lemma Lists.effect {nodes : Nat → List Nat} (h : Lists Inv Held s nodes)
    (he : Effect Inv Held q old new s s') (hold : old ⊆ nodes q) :
    Lists Inv Held s' (update nodes q new) := by
  have hkeep : ∀ {pid x}, pid ≠ q → x ∈ nodes pid →
      Held s'.mem.alloc x 1 ∧ s'.area x = s.area x := by
    intro pid x hne hx
    exact he.frame x (h.held hx) fun hmem => h.apart hne hx (hold hmem)
  have hnew : ∀ {pid x}, pid ≠ q → x ∈ nodes pid → x ∉ new := by
    intro pid x hne hx hmem
    rcases (he.made x hmem).2 with hin | hno
    · exact h.apart hne hx (hold hin)
    · exact hno (h.held hx)
  refine ⟨he.alloc, ?_, ?_, ?_, ?_⟩
  · intro pid hpid
    rw [he.other pid (by have := he.nextPid; omega)]
    exact h.fresh pid (Nat.le_trans he.nextPid.1 hpid)
  · intro pid p hp
    by_cases hq : pid = q
    · subst hq
      obtain ⟨p', hp', hlist⟩ := he.proc
      rw [hp] at hp'
      cases hp'
      rw [update_self]
      exact .inl hlist
    · rw [he.other pid hq] at hp
      rw [update_of_ne hq]
      rcases h.list hp with hlist | ⟨hself, hnodes⟩
      · exact .inl (hlist.congr fun x hx => (hkeep hq hx).2)
      · have hhead : p.vmaList ∈ nodes pid := by
          rw [hnodes]
          exact mem_singleton.mpr rfl
        exact .inr ⟨(SelfLinked.congr (hkeep hq hhead).2).mpr hself, hnodes⟩
  · intro pid x hx
    by_cases hq : pid = q
    · subst hq
      rw [update_self] at hx
      exact (he.made x hx).1
    · rw [update_of_ne hq] at hx
      exact (hkeep hq hx).1
  · intro pid pid' x hne hx
    by_cases hq : pid = q
    · subst hq
      rw [update_self] at hx
      rw [update_of_ne (Ne.symm hne)]
      intro hx'
      exact hnew (Ne.symm hne) hx' hx
    · rw [update_of_ne hq] at hx
      by_cases hq' : pid' = q
      · subst hq'
        rw [update_self]
        exact hnew hq hx
      · rw [update_of_ne hq']
        exact h.apart hne hx

lemma Lists.pid_lt {nodes : Nat → List Nat} (h : Lists Inv Held s nodes)
    (hp : s.proc pid = some p) : pid < s.nextPid := by
  by_contra hge
  rw [h.fresh pid (Nat.le_of_not_lt hge)] at hp
  cases hp

/-- The process `q` has a list after the operation, and the other processes keep theirs. -/
lemma Effect.selfLinked_iff {nodes : Nat → List Nat} (h : Lists Inv Held s nodes)
    (he : Effect Inv Held q old new s s') (hold : old ⊆ nodes q) (hp : s'.proc pid = some p) :
    SelfLinked s'.area p.vmaList ↔
      pid ≠ q ∧ ∃ p0, s.proc pid = some p0 ∧ SelfLinked s.area p0.vmaList := by
  by_cases hq : pid = q
  · subst hq
    obtain ⟨p', hp', hlist⟩ := he.proc
    rw [hp] at hp'
    cases hp'
    exact ⟨fun hself => absurd hlist (hself.not_list new), fun hne => absurd rfl hne.1⟩
  · rw [he.other pid hq] at hp
    have hsame : p.vmaList ∈ nodes pid → s'.area p.vmaList = s.area p.vmaList := fun hx =>
      (he.frame _ (h.held hx) fun hmem => h.apart hq hx (hold hmem)).2
    have hiff : SelfLinked s'.area p.vmaList ↔ SelfLinked s.area p.vmaList := by
      rcases h.list hp with hlist | ⟨_, hnodes⟩
      · by_cases hnull : p.vmaList = 0
        · exact ⟨fun hself => absurd hnull hself.1, fun hself => absurd hnull hself.1⟩
        · exact SelfLinked.congr (hsame (hlist.start_mem hnull))
      · exact SelfLinked.congr (hsame (hnodes ▸ mem_singleton.mpr rfl))
    rw [hiff]
    constructor
    · intro hself
      exact ⟨hq, p, hp, hself⟩
    · rintro ⟨_, p0, hp0, hself⟩
      rw [hp] at hp0
      cases hp0
      exact hself

/-! ## Allocations -/

/-- `s'` has the new page `v` and differs from `s` in its contents. -/
structure NewArea (Inv : A → Prop) (Held : A → Nat → Nat → Prop) (v : Nat) (s s' : State A) :
    Prop where
  alloc : Inv s'.mem.alloc
  ne_null : v ≠ 0
  unheld : ¬ Held s.mem.alloc v 1
  held : ∀ x k, Held s'.mem.alloc x k ↔ (x = v ∧ k = 1) ∨ Held s.mem.alloc x k
  area : ∀ x, x ≠ v → s'.area x = s.area x

lemma kallocArea_spec (hE : E.Ok lo hi Inv Held) (hinv : Inv s.mem.alloc)
    (h : kallocArea E page s = some (v, s')) :
    NewArea Inv Held v s s' ∧ ∃ m, s' = { s with mem := m, area := update s.area v page } := by
  obtain ⟨⟨v', m⟩, hk, heq⟩ := bind_eq_some_iff.mp h
  cases heq
  obtain ⟨⟨v', a⟩, halloc, heq⟩ := bind_eq_some_iff.mp hk
  cases heq
  obtain ⟨hinv', n, _, hone, hapart, hheld⟩ :=
    hE.lawful.kalloc_spec hinv (by decide) (by decide) halloc
  have hn := hone (by decide)
  subst hn
  have hv := hE.lawful.range hinv' ((hheld v 1).mpr (.inl ⟨rfl, rfl⟩))
  have hlo := hE.lo_pos
  refine ⟨⟨hinv', by omega, fun hold => ?_, hheld, fun x hx => update_of_ne hx _ _⟩, _, rfl⟩
  have := hapart v 1 hold
  omega

lemma ne_null_of_held (hE : E.Ok lo hi Inv Held) (hinv : Inv s.mem.alloc)
    (hx : Held s.mem.alloc x 1) : x ≠ 0 := by
  have hrange := hE.lawful.range hinv hx
  have hpos := hE.lo_pos
  omega

lemma NewArea.ne_of_held (h : NewArea Inv Held v s s') (hx : Held s.mem.alloc x 1) :
    x ≠ v := by
  rintro rfl
  exact h.unheld hx

lemma Lists.kalloc (hE : E.Ok lo hi Inv Held) {nodes : Nat → List Nat}
    (h : Lists Inv Held s nodes) {sz : Nat} {m : Mem A} (hpos : 0 < sz) (hsz : sz ≤ 4 * 2 ^ 20)
    (hk : Vm.kalloc E sz s.mem = some (a, m)) : Lists Inv Held { s with mem := m } nodes := by
  obtain ⟨⟨a', al⟩, halloc, heq⟩ := bind_eq_some_iff.mp hk
  cases heq
  obtain ⟨hinv, n, _, _, _, hheld⟩ := hE.lawful.kalloc_spec h.alloc hpos hsz halloc
  exact ⟨hinv, h.fresh, h.list, fun hx => (hheld _ _).mpr (.inr (h.held hx)), h.apart⟩

/-! ## Processes that keep their list -/

/-- An operation on `pid` that changes no link. -/
lemma effect_same (hlist : IsVmaList s.area p.vmaList nodes)
    (hheld : ∀ x ∈ nodes, Held s.mem.alloc x 1) (hp : s'.proc pid = some p')
    (hhead : p'.vmaList = p.vmaList) (hinv : Inv s'.mem.alloc)
    (hkeep : ∀ x, Held s.mem.alloc x 1 → Held s'.mem.alloc x 1 ∧ (x ∉ nodes → s'.area x = s.area x))
    (hlinks : ∀ x ∈ nodes, (s'.area x).next = (s.area x).next ∧ (s'.area x).prev = (s.area x).prev)
    (hother : ∀ pid', pid' ≠ pid → s'.proc pid' = s.proc pid') (hnext : s'.nextPid = s.nextPid)
    (hpid : pid < s.nextPid) : Effect Inv Held pid nodes nodes s s' := by
  refine ⟨hinv, fun x hx hno => ?_, fun x hx => ?_, hother, ⟨p', hp, ?_⟩, by omega⟩
  · obtain ⟨hx', harea⟩ := hkeep x hx
    exact ⟨hx', harea hno⟩
  · exact ⟨(hkeep x (hheld x hx)).1, .inl hx⟩
  · rw [hhead]
    exact NullList.congr hlist hlinks

/-! ## mmap -/

lemma findFreeVmaRange_vmaList
    (h : findFreeVmaRange area fuel p length = some (va, p')) : p'.vmaList = p.vmaList := by
  obtain ⟨⟨hint, found⟩, _, h⟩ := bind_eq_some_iff.mp h
  simp only at h
  split_ifs at h
  · cases h
    rfl
  · cases h
    rfl

lemma mmapVa_vmaList {va : Option Nat}
    (h : mmapVa fuel args length p s = some (va, p')) : p'.vmaList = p.vmaList := by
  unfold mmapVa at h
  split_ifs at h
  · cases h
    rfl
  · cases h
    rfl
  · obtain ⟨⟨va', p1⟩, hfind, h⟩ := bind_eq_some_iff.mp h
    cases h
    exact findFreeVmaRange_vmaList hfind

/-- The counters when there is an area with this file. -/
def getRef (file : Nat) (fRef : Nat → Int) : Nat → Int :=
  if file = 0 then fRef else update fRef file (fRef file + 1)

lemma getRef_of_ne (h : f ≠ file) : getRef file fRef f = fRef f := by
  unfold getRef
  split_ifs
  · rfl
  · exact update_of_ne h _ _

lemma fileGet_of_ne (hne : file ≠ 0) (s : State A) :
    fileGet file s = { s with fRef := getRef file s.fRef } := by
  rw [fileGet, getRef, if_neg hne]

/-- `mmap` fails before it has an area, or with an area that it does not link, or it links it and
holds the file. -/
lemma sysMmap_cases (h : sysMmap E fuel pid args page s = some (res, s')) :
    ∃ p, s.proc pid = some p ∧ (s' = s ∨ ∃ p', p'.vmaList = p.vmaList ∧
      (s' = s.setProc pid p' ∨ ∃ v s₁ a, kallocArea E page (s.setProc pid p') = some (v, s₁) ∧
        a.prev = (s₁.area v).prev ∧ (s' = s₁.setArea v a ∨
          s' = linkArea pid p' v { s₁.setArea v a with fRef := getRef a.file s₁.fRef }))) := by
  obtain ⟨p, hp, h⟩ := bind_eq_some_iff.mp h
  refine ⟨p, hp, ?_⟩
  by_cases hbad : args.length = 0 ∨ (!isPgAligned args.offset) = true
  · rw [if_pos hbad] at h
    cases h
    exact .inl rfl
  · rw [if_neg hbad] at h
    obtain ⟨⟨va, p'⟩, hva, h⟩ := bind_eq_some_iff.mp h
    refine .inr ⟨p', mmapVa_vmaList hva, ?_⟩
    cases va with
    | none =>
      cases h
      exact .inl rfl
    | some va =>
      obtain ⟨⟨v, s₁⟩, hk, h⟩ := bind_eq_some_iff.mp h
      refine .inr ⟨v, s₁, ?_⟩
      simp only [setArea, update_self, update_idem] at h ⊢
      split_ifs at h with _ _ hnull
      · cases h
        exact ⟨_, hk, by rfl, .inr rfl⟩
      · cases h
        exact ⟨_, hk, by rfl, .inl rfl⟩
      · cases h
        exact ⟨_, hk, by rfl, .inl rfl⟩
      · cases h
        refine ⟨_, hk, ?_, .inr (congrArg (linkArea pid p' v) (fileGet_of_ne hnull _))⟩
        rfl

/-- A new area in front of the list. -/
lemma linkArea_effect (hlist : IsVmaList s.area p.vmaList nodes)
    (hheld : ∀ x ∈ nodes, Held s.mem.alloc x 1) (hv : NewArea Inv Held v s s₁)
    (hprev : (s₁.area v).prev = 0) (hother : ∀ pid', pid' ≠ pid → s₁.proc pid' = s.proc pid')
    (hnext : s₁.nextPid = s.nextPid) (hpid : pid < s.nextPid) (hhead : p'.vmaList = p.vmaList) :
    Effect Inv Held pid nodes (v :: nodes) s (linkArea pid p' v s₁) := by
  have hne : v ≠ p.vmaList := by
    by_cases hnull : p.vmaList = 0
    · rw [hnull]
      exact hv.ne_null
    · exact (hv.ne_of_held (hheld _ (hlist.start_mem hnull))).symm
  unfold linkArea
  rw [hhead]
  refine ⟨?_, fun x hx hno => ?_, fun x hx => ?_, fun pid' hne' => ?_, ?_, ?_⟩
  · simp only [setProc, setPrev_mem, setNext_mem, hv.alloc]
  · have hxv := hv.ne_of_held hx
    simp only [setProc, setPrev_mem, setNext_mem]
    refine ⟨(hv.held x 1).mpr (.inr hx), ?_⟩
    by_cases hfirst : x = p.vmaList
    · have hnull : p.vmaList = 0 := by
        by_contra hnull
        exact hno (hfirst ▸ hlist.start_mem hnull)
      rw [setPrev, if_neg (by simpa using hnull), setNext_of_ne _ _ _ hxv, hv.area x hxv]
    · rw [setPrev_of_ne _ _ _ hfirst, setNext_of_ne _ _ _ hxv, hv.area x hxv]
  · simp only [setProc, setPrev_mem, setNext_mem]
    rcases mem_cons.mp hx with rfl | hx
    · exact ⟨(hv.held x 1).mpr (.inl ⟨rfl, rfl⟩), .inr hv.unheld⟩
    · exact ⟨(hv.held x 1).mpr (.inr (hheld x hx)), .inl hx⟩
  · rw [← hother pid' hne']
    simp only [setProc, update_of_ne hne', setPrev_proc, setNext_proc]
  · refine ⟨_, update_self _ _ _, ?_⟩
    refine NullList.push hlist hv.ne_null ?_ ?_ (fun hnull => ?_) fun x hx => ?_
    · simp [setProc]
    · simp [setProc, hne, hprev]
    · simp [setProc, hnull]
    · have hxv := hv.ne_of_held (hheld x hx)
      simp only [setProc, setPrev_next, setNext_next, if_neg hxv, hv.area x hxv,
        setPrev_prev, setNext_prev]
      exact ⟨trivial, fun hfirst => if_neg fun hand => hfirst hand.1⟩
  · simp only [setProc, setPrev_nextPid, setNext_nextPid]
    omega

lemma NewArea.setProc (h : NewArea Inv Held v (s.setProc pid p) s') :
    NewArea Inv Held v s s' :=
  { h with }

lemma NewArea.setArea (h : NewArea Inv Held v s s') (a : Area) :
    NewArea Inv Held v s (s'.setArea v a) :=
  { h with area := fun x hx => (update_of_ne hx _ _).trans (h.area x hx) }

lemma linkArea_files (pid : Nat) (p : Process) (v : Nat)
    (s : State A) : (linkArea pid p v s).files = s.files := by
  change ((s.setNext v p.vmaList).setPrev p.vmaList v).files = s.files
  rw [setPrev_files, setNext_files]

lemma linkArea_fields (pid : Nat) (p : Process) (v : Nat) (s : State A) (x : Nat) :
    ((linkArea pid p v s).area x).fields = (s.area x).fields := by
  change (((s.setNext v p.vmaList).setPrev p.vmaList v).area x).fields = (s.area x).fields
  rw [setPrev_fields, setNext_fields]

/-- What `mmap` does to the areas and to the counters of the files. -/
inductive Mapped (Held : A → Nat → Nat → Prop) (nodes new : List Nat) (s s' : State A) : Prop
  | failed (hnew : new = nodes) (hfields : ∀ x ∈ nodes, (s'.area x).fields = (s.area x).fields)
      (href : s'.fRef = s.fRef)
  | linked {v : Nat} (hv : ¬ Held s.mem.alloc v 1) (hnew : new = v :: nodes)
      (hfields : ∀ x, x ≠ v → (s'.area x).fields = (s.area x).fields)
      (href : s'.fRef = getRef (s'.area v).file s.fRef)

/-- `mmap` fails, or it puts a new area in front of the list. -/
lemma sysMmap_effect (hE : E.Ok lo hi Inv Held) {nodes : Nat → List Nat}
    (h : Lists Inv Held s nodes) (hpage : page.prev = 0)
    (hself : ∀ p, s.proc pid = some p → ¬ SelfLinked s.area p.vmaList)
    (hm : sysMmap E fuel pid args page s = some (res, s')) :
    (∃ p, s.proc pid = some p) ∧ ∃ new, Effect Inv Held pid (nodes pid) new s s' ∧
      s'.written = s.written ∧ Mapped Held (nodes pid) new s s' := by
  obtain ⟨p, hp, hcases⟩ := sysMmap_cases hm
  refine ⟨⟨p, hp⟩, ?_⟩
  have hlist : IsVmaList s.area p.vmaList (nodes pid) :=
    (h.list hp).resolve_right fun hs => hself p hp hs.1
  have hpid := h.pid_lt hp
  have hheld : ∀ x ∈ nodes pid, Held s.mem.alloc x 1 := fun x hx => h.held hx
  rcases hcases with rfl | ⟨p', hhead, rfl | ⟨v, s₁, a, hk, hprev, hs'⟩⟩
  · exact ⟨_, effect_same hlist hheld hp rfl h.alloc (fun x hx => ⟨hx, fun _ => rfl⟩)
      (fun x _ => ⟨rfl, rfl⟩) (fun _ _ => rfl) rfl hpid, rfl, .failed rfl (fun _ _ => rfl) rfl⟩
  · exact ⟨_, effect_same hlist hheld (update_self _ _ _) hhead h.alloc
      (fun x hx => ⟨hx, fun _ => rfl⟩) (fun x _ => ⟨rfl, rfl⟩)
      (fun _ hne => update_of_ne hne _ _) rfl hpid, rfl, .failed rfl (fun _ _ => rfl) rfl⟩
  · obtain ⟨hv, m, hs1⟩ := kallocArea_spec hE (s := s.setProc pid p') h.alloc hk
    have hother : ∀ pid', pid' ≠ pid → s₁.proc pid' = s.proc pid' := by
      intro pid' hne
      rw [hs1]
      exact update_of_ne hne _ _
    have hnext : s₁.nextPid = s.nextPid := by
      rw [hs1]
      rfl
    have hfiles : s₁.files = s.files := by
      rw [hs1]
      rfl
    have href : s₁.fRef = s.fRef := congrArg Prod.fst hfiles
    have hwritten : s₁.written = s.written := congrArg (fun f => f.2.2.2) hfiles
    have hpage' : (s₁.area v).prev = 0 := by
      rw [hs1]
      simp only [update_self, hpage]
    have hv' := hv.setProc.setArea a
    rcases hs' with rfl | rfl
    · have hp' : (s₁.setArea v a).proc pid = some p' := by
        rw [hs1]
        exact update_self _ _ _
      have hsame : ∀ x ∈ nodes pid, (s₁.setArea v a).area x = s.area x := fun x hx =>
        hv'.area x (hv'.ne_of_held (hheld x hx))
      refine ⟨_, effect_same hlist hheld hp' hhead hv'.alloc (fun x hx => ?_) (fun x hx => ?_)
        hother hnext hpid, hwritten, .failed rfl (fun x hx => ?_) href⟩
      · exact ⟨(hv'.held x 1).mpr (.inr hx), fun _ => hv'.area x (hv'.ne_of_held hx)⟩
      · rw [hsame x hx]
        exact ⟨rfl, rfl⟩
      · rw [hsame x hx]
    · have hv'' : NewArea Inv Held v s { s₁.setArea v a with fRef := getRef a.file s₁.fRef } :=
        { hv' with }
      have hfiles' := linkArea_files pid p' v
        { s₁.setArea v a with fRef := getRef a.file s₁.fRef }
      have hfields := linkArea_fields pid p' v
        { s₁.setArea v a with fRef := getRef a.file s₁.fRef }
      refine ⟨_, linkArea_effect hlist hheld hv'' ?_ hother hnext hpid hhead, ?_,
        .linked hv'.unheld rfl (fun x hx => ?_) ?_⟩
      · simp only [setArea, update_self]
        rw [hprev, hpage']
      · exact (congrArg (fun f => f.2.2.2) hfiles').trans hwritten
      · rw [hfields x, hv''.area x hx]
      · have hself : ((s₁.setArea v a).area v).fields.file = a.file :=
          (congrArg Area.file (update_self v a s₁.area) :)
        have hfile := (congrArg Area.file (hfields v)).trans hself
        exact (congrArg Prod.fst hfiles').trans (congrArg₂ getRef hfile.symm href)

/-! ## munmap -/

lemma kernelLseek_cases (file offset : Nat) (s : State A) :
    ∃ q, kernelLseek file offset s = { s with fpos := q } := by
  unfold kernelLseek
  simp only
  split_ifs
  · exact ⟨s.fpos, rfl⟩
  · exact ⟨_, rfl⟩
  · exact ⟨s.fpos, rfl⟩
  · exact ⟨_, rfl⟩

/-- A page is written exactly if the file takes it. -/
lemma kernelWrite_cases (file a offset : Nat) (s : State A) :
    (s.takes file a = true ∧ ∃ w q z, kernelWrite file a (kernelLseek file offset s) =
      some { s with written := w, fpos := q, fsize := z }) ∨
    (s.takes file a = false ∧ kernelWrite file a (kernelLseek file offset s) = none) := by
  obtain ⟨q, hq⟩ := kernelLseek_cases file offset s
  rw [hq]
  unfold kernelWrite
  cases htakes : s.takes file a with
  | false => exact .inr ⟨rfl, by simp⟩
  | true =>
    refine .inl ⟨rfl, ?_⟩
    simp only [Bool.not_true, Bool.false_eq_true, if_false]
    split_ifs
    · exact ⟨s.written, q, s.fsize, rfl⟩
    · exact ⟨_, _, _, rfl⟩

/-- One turn of the loop that writes dirty pages back. -/
lemma writeBack_succ {unmapEnd : Nat} {vma : Area}
    (h : writeBack E pagetable vma unmapEnd (fuel + 1) a s = some s') :
    (¬ a < unmapEnd ∧ s' = s) ∨ (a < unmapEnd ∧ ∃ s₁,
      writeBack E pagetable vma unmapEnd fuel (wrap64 (a + pgSize)) s₁ = some s' ∧
      ((has (leaf s.mem pagetable (a >>> 12)) pteD = true ∧ vma.file ≠ 0 ∧
        s.takes vma.file a = true ∧ ∃ w q z, s₁ = { s with written := w, fpos := q, fsize := z }) ∨
        has (leaf s.mem pagetable (a >>> 12)) pteD = false ∧ s₁ = s)) := by
  unfold writeBack at h
  by_cases hlt : a < unmapEnd
  · rw [if_pos hlt, walk_noalloc] at h
    obtain ⟨⟨pte, m⟩, hw, h⟩ := bind_eq_some_iff.mp h
    cases hw
    obtain ⟨pte, hpte, h⟩ := bind_eq_some_iff.mp h
    obtain ⟨s₁, hs1, h⟩ := bind_eq_some_iff.mp h
    have hleaf : leaf s.mem pagetable (a >>> 12) = s.mem.pte pte := by
      simp only [leaf, hpte]
    rw [hleaf]
    refine .inr ⟨hlt, s₁, h, ?_⟩
    split_ifs at hs1 with hd hnull
    · rcases kernelWrite_cases vma.file a (wrap64 (vma.offset + (a - vma.start))) s with
        ⟨htakes, w, q, z, hw⟩ | ⟨-, hw⟩
      · cases hw.symm.trans hs1
        exact .inl ⟨hd, hnull, htakes, w, q, z, rfl⟩
      · cases hw.symm.trans hs1
    · cases hs1
      exact .inr ⟨by simpa using hd, rfl⟩
  · rw [if_neg hlt] at h
    cases h
    exact .inl ⟨hlt, rfl⟩

lemma writeBack_cases {unmapEnd : Nat} {vma : Area}
    (h : writeBack E pagetable vma unmapEnd fuel a s = some s') :
    ∃ w q z, s' = { s with written := w, fpos := q, fsize := z } := by
  induction fuel generalizing a s with
  | zero => cases h
  | succ fuel ih =>
    rcases writeBack_succ h with ⟨-, rfl⟩ | ⟨-, s₁, hrest, hs1⟩
    · exact ⟨_, _, _, rfl⟩
    · obtain ⟨w, q, z, rfl⟩ := ih hrest
      rcases hs1 with ⟨-, -, -, w', q', z', rfl⟩ | ⟨-, rfl⟩
      · exact ⟨w, q, z, rfl⟩
      · exact ⟨w, q, z, rfl⟩

/-- What `do_munmap` does with the area at `vma` and the range from `b` to `c`. -/
inductive Unmaps (E : Env A) (pid : Nat) (p : Process) (vma b c : Nat) (s : State A) : State A → Prop
  | whole {s₁ : State A} {m : Mem A} (hstart : b = (s.area vma).start) (hend : c = (s.area vma).end_)
      (hunlink : unlinkArea pid p vma s = some s₁) (hfree : Vm.kfree E vma s₁.mem = some m) :
      Unmaps E pid p vma b c s
        { (if (s₁.area vma).file ≠ 0 then filePut (s₁.area vma).file s₁ else s₁) with mem := m }
  | head (hstart : b = (s.area vma).start) (hend : c ≠ (s.area vma).end_) :
      Unmaps E pid p vma b c s (s.setStart vma c)
  | tail (hstart : b ≠ (s.area vma).start) (hend : c = (s.area vma).end_) :
      Unmaps E pid p vma b c s (s.setEnd vma b)
  | middle {s' : State A} (hstart : b ≠ (s.area vma).start) (hend : c ≠ (s.area vma).end_)
      (hsplit : splitArea E vma b c s = some s') : Unmaps E pid p vma b c s s'

/-- The dirty pages of a shared area are written back first. -/
def writesBack (E : Env A) (pagetable : Nat) (vma : Area) (b c fuel : Nat) (s : State A) :
    Option (State A) :=
  if vma.flags &&& mapShared ≠ 0 ∧ vma.flags &&& mapPrivate = 0 then
    writeBack E pagetable vma c fuel b s
  else some s

lemma writesBack_cases {vma : Area} (h : writesBack E pagetable vma b c fuel s = some s') :
    ∃ w q z, s' = { s with written := w, fpos := q, fsize := z } := by
  unfold writesBack at h
  split_ifs at h
  · exact writeBack_cases h
  · cases h
    exact ⟨_, _, _, rfl⟩

lemma filePut_mem (file : Nat) (s : State A) : (filePut file s).mem = s.mem := by
  unfold filePut
  split_ifs
  · rfl
  · rfl

lemma findVma_bounds {head : Nat} (h : findVma area va fuel head = some vma) (hne : vma ≠ 0) :
    (area vma).start ≤ va ∧ va < (area vma).end_ := by
  induction fuel generalizing head with
  | zero => cases h
  | succ fuel ih =>
    rw [findVma] at h
    split_ifs at h with hnull hin
    · cases h
      exact absurd rfl hne
    · cases h
      exact hin
    · exact ih h

/-- The end of the range that `do_munmap` takes from an area. -/
def unmapEnd (vma : Area) (addr length : Nat) : Nat :=
  min (wrap64 (pgRoundDown addr + pgRoundUp length)) vma.end_

/-- The cases of `do_munmap`: nothing is found, or a part of an area is written back and taken
away. -/
lemma doMunmap_cases (h : doMunmap E fuel pid addr length s = some (res, s')) :
    ∃ p, s.proc pid = some p ∧
      ((s' = s ∧ (pgRoundUp length = 0 ∨ findVma s.area (pgRoundDown addr) fuel p.vmaList = some 0)) ∨
        ∃ vma s₁, pgRoundUp length ≠ 0 ∧ vma ≠ 0 ∧
          findVma s.area (pgRoundDown addr) fuel p.vmaList = some vma ∧
          writesBack E p.pagetable (s.area vma) (pgRoundDown addr) (unmapEnd (s.area vma) addr length)
            fuel s = some s₁ ∧
          Unmaps E pid p vma (pgRoundDown addr) (unmapEnd (s.area vma) addr length) s₁ s') := by
  obtain ⟨p, hp, h⟩ := bind_eq_some_iff.mp h
  refine ⟨p, hp, ?_⟩
  by_cases hlen : pgRoundUp length = 0
  · rw [if_pos hlen] at h
    cases h
    exact .inl ⟨rfl, .inl hlen⟩
  · rw [if_neg hlen] at h
    obtain ⟨vma, hfind, h⟩ := bind_eq_some_iff.mp h
    by_cases hnull : vma = 0
    · rw [if_pos hnull] at h
      cases h
      exact .inl ⟨rfl, .inr (hnull ▸ hfind)⟩
    · rw [if_neg hnull] at h
      obtain ⟨s₁, hwrite, h⟩ := bind_eq_some_iff.mp h
      obtain ⟨m, hunmap, h⟩ := bind_eq_some_iff.mp h
      have hm := uvmunmap_same hunmap
      subst hm
      rw [max_eq_left (findVma_bounds hfind hnull).1] at hwrite h
      obtain ⟨w, q, z, rfl⟩ := writesBack_cases hwrite
      refine .inr ⟨vma, _, hlen, hnull, hfind, hwrite, ?_⟩
      split_ifs at h with hwhole hhead htail
      · obtain ⟨s2, hunlink, h⟩ := bind_eq_some_iff.mp h
        obtain ⟨m', hfree, h⟩ := bind_eq_some_iff.mp h
        cases h
        have hmem : (if (s2.area vma).file ≠ 0 then filePut (s2.area vma).file s2 else s2).mem = s2.mem := by
          split_ifs
          · exact filePut_mem _ _
          · rfl
        rw [hmem] at hfree
        exact .whole hwhole.1 hwhole.2 hunlink hfree
      · cases h
        exact .head hhead fun hend => hwhole ⟨hhead, hend⟩
      · cases h
        exact .tail hhead htail
      · obtain ⟨s2, hsplit, h⟩ := bind_eq_some_iff.mp h
        cases h
        exact .middle hhead htail hsplit

/-- The assignments that take an area off its list. -/
lemma unlinkArea_spec (hlist : IsVmaList s.area p.vmaList nodes) (hvma : vma ∈ nodes)
    (hp : s.proc pid = some p) (h : unlinkArea pid p vma s = some s₁) :
    s₁.mem = s.mem ∧ s₁.nextPid = s.nextPid ∧ (∀ pid', pid' ≠ pid → s₁.proc pid' = s.proc pid') ∧
      (∃ p', s₁.proc pid = some p' ∧
        p'.vmaList = if (s.area vma).prev = 0 then (s.area vma).next else p.vmaList) ∧
      (∀ x, x ≠ (s.area vma).prev → x ≠ (s.area vma).next → s₁.area x = s.area x) ∧
      ∀ x, x ≠ 0 →
        (s₁.area x).next = (if x = (s.area vma).prev then (s.area vma).next else (s.area x).next) ∧
        (s₁.area x).prev = (if x = (s.area vma).next then (s.area vma).prev else (s.area x).prev) := by
  have hself : (s.area vma).prev ≠ vma := hlist.prev_ne_self hlist.null_notMem hvma
  unfold unlinkArea at h
  by_cases hprev : (s.area vma).prev = 0
  · simp only [hprev, ne_eq, not_true_eq_false, if_false] at h
    split_ifs at h with hnext
    cases h
    refine ⟨setPrev_mem _ _ _, setPrev_nextPid _ _ _, fun pid' hne => ?_,
      ⟨{ p with vmaList := (s.area vma).next }, ?_, (if_pos hprev).symm⟩, ?_, ?_⟩
    · rw [setPrev_proc]
      exact update_of_ne hne _ _
    · rw [setPrev_proc]
      exact update_self _ _ _
    · intro x _ hx
      exact setPrev_of_ne _ _ _ hx
    · intro x hx
      rw [if_neg (hprev ▸ hx), hprev, setPrev_next, setPrev_prev]
      simp only [setProc, ne_eq, hnext, not_false_eq_true, and_true]
  · have hstay := setNext_of_ne s (s.area vma).prev (s.area vma).next hself.symm
    simp only [hprev, ne_eq, not_false_eq_true, if_true, hstay, some.injEq] at h
    subst h
    refine ⟨by simp, by simp, by simp, ⟨p, by simp [hp], (if_neg hprev).symm⟩, ?_, ?_⟩
    · intro x hxp hxn
      rw [setPrev_of_ne _ _ _ hxn, setNext_of_ne _ _ _ hxp]
    · intro x hx
      simp only [setPrev_next, setNext_next, setPrev_prev, setNext_prev,
        true_and]
      by_cases he : x = (s.area vma).next
      · rw [if_pos he, if_pos ⟨he, he ▸ hx⟩]
      · rw [if_neg he, if_neg fun hand => he hand.1]

/-- The area is taken off the list and freed. -/
lemma unlinkArea_effect (hE : E.Ok lo hi Inv Held) (hinv : Inv s.mem.alloc)
    (hlist : IsVmaList s.area p.vmaList nodes) (hheld : ∀ x ∈ nodes, Held s.mem.alloc x 1)
    (hvma : vma ∈ nodes) (hp : s.proc pid = some p) (hpid : pid < s.nextPid)
    (h : unlinkArea pid p vma s = some s₁) {m : Mem A} (hfree : Vm.kfree E vma s₁.mem = some m)
    (f : Nat → Int) :
    ∃ new, (∀ x, x ∈ new ↔ x ∈ nodes ∧ x ≠ vma) ∧
      Effect Inv Held pid nodes new s { s₁ with mem := m, fRef := f } := by
  obtain ⟨hmem, hnext, hother, ⟨p', hp', hhead⟩, hframe, hlinks⟩ := unlinkArea_spec hlist hvma hp h
  rw [hmem] at hfree
  obtain ⟨a, hfree', heq⟩ := bind_eq_some_iff.mp hfree
  cases heq
  obtain ⟨a', hfree'', hinv', hheld'⟩ := hE.lawful.kfree_spec hinv (hheld vma hvma)
  rw [hfree''] at hfree'
  cases hfree'
  have hprevmem := hlist.prev_mem hvma
  have hnextmem := hlist.next_mem hvma
  have hnodup := hlist.nodup
  obtain ⟨l1, l2, rfl⟩ := append_of_mem hvma
  have hnew : ∀ x, x ∈ l1 ++ l2 ↔ x ∈ l1 ++ vma :: l2 ∧ x ≠ vma := by
    intro x
    have hnot := (nodup_cons.mp (nodup_middle.mp hnodup)).1
    constructor
    · intro hx
      refine ⟨mem_append.mpr ((mem_append.mp hx).imp_right (mem_cons_of_mem _)), ?_⟩
      rintro rfl
      exact hnot hx
    · rintro ⟨hx, hne⟩
      simpa [hne] using hx
  have hsub := fun x hx => (hnew x).mp hx
  refine ⟨l1 ++ l2, hnew, hinv', fun x hx hno => ?_, fun x hx => ?_, hother, ⟨p', hp', ?_⟩, ?_⟩
  · refine ⟨(hheld' x 1).mpr ⟨hx, fun hand => hno (hand.1 ▸ hvma)⟩, ?_⟩
    have hx0 := ne_null_of_held hE hinv hx
    refine hframe x (fun he => ?_) fun he => ?_
    · rcases hprevmem with hz | hz
      · exact hx0 (he.trans hz)
      · exact hno (he ▸ hz)
    · rcases hnextmem with hz | hz
      · exact hx0 (he.trans hz)
      · exact hno (he ▸ hz)
  · obtain ⟨hx', hne⟩ := hsub x hx
    exact ⟨(hheld' x 1).mpr ⟨hheld x hx', fun hand => hne hand.1⟩, .inl hx'⟩
  · rw [hhead]
    refine NullList.unlink hlist (fun u hu => ?_) fun u hu => ?_
    · exact (hlinks u (hlist.ne_null (hsub u hu).1)).1
    · exact (hlinks u (hlist.ne_null (hsub u hu).1)).2
  · show s.nextPid ≤ s₁.nextPid ∧ pid < s₁.nextPid
    omega

lemma splitArea_effect (hE : E.Ok lo hi Inv Held) (hinv : Inv s.mem.alloc)
    (hlist : IsVmaList s.area p.vmaList nodes) (hheld : ∀ x ∈ nodes, Held s.mem.alloc x 1)
    (hvma : vma ∈ nodes) (hp : s.proc pid = some p) (hpid : pid < s.nextPid)
    (h : splitArea E vma b c s = some s') :
    ∃ v new, ¬ Held s.mem.alloc v 1 ∧ (∀ x, x ∈ new ↔ x = v ∨ x ∈ nodes) ∧
      Effect Inv Held pid nodes new s s' ∧ s'.files = s.files ∧
      ∀ x, (s'.area x).fields = if x = v then { (s.area vma).fields with start := c }
        else if x = vma then { (s.area vma).fields with end_ := b } else (s.area x).fields := by
  obtain ⟨⟨v, s₁⟩, hk, heq⟩ := bind_eq_some_iff.mp h
  obtain ⟨hv, m, rfl⟩ := kallocArea_spec hE hinv hk
  have hvne := hv.ne_of_held (hheld vma hvma)
  have hne : ∀ x ∈ nodes, x ≠ v := fun x hx => hv.ne_of_held (hheld x hx)
  have hnextmem := hlist.next_mem hvma
  simp only [some.injEq] at heq
  subst heq
  obtain ⟨l1, l2, rfl⟩ := append_of_mem hvma
  have hnew : ∀ x, x ∈ l1 ++ vma :: v :: l2 ↔ x = v ∨ x ∈ l1 ++ vma :: l2 := by
    intro x
    simp only [mem_append, mem_cons]
    tauto
  refine ⟨v, l1 ++ vma :: v :: l2, hv.unheld, hnew, ⟨?_, fun x hx hno => ?_, fun x hx => ?_,
    fun pid' _ => ?_, ⟨p, ?_, ?_⟩, ?_⟩, ?_, fun x => ?_⟩
  · simp [hv.alloc]
  · have hxv := hv.ne_of_held hx
    have hxvma : x ≠ vma := fun he => hno (he ▸ hvma)
    simp only [setPrev_mem, setNext_mem, setEnd_mem, setStart_mem]
    refine ⟨(hv.held x 1).mpr (.inr hx), ?_⟩
    have hxnext : x ≠ (s.area vma).next := by
      intro he
      rcases hnextmem with hz | hz
      · exact ne_null_of_held hE hinv hx (he.trans hz)
      · exact hno (he ▸ hz)
    rw [setPrev_of_ne _ _ _ hxv, setPrev_of_ne, setNext_of_ne _ _ _ hxvma,
      setNext_of_ne _ _ _ hxv, setEnd_of_ne _ _ _ hxvma, setStart_of_ne _ _ _ hxv]
    · exact hv.area x hxv
    · simp [hvne, hvne.symm, hxnext]
  · simp only [setPrev_mem, setNext_mem, setEnd_mem, setStart_mem]
    by_cases hxv : x = v
    · rw [hxv]
      exact ⟨(hv.held v 1).mpr (.inl ⟨rfl, rfl⟩), .inr hv.unheld⟩
    · have hx' := ((hnew x).mp hx).resolve_left hxv
      exact ⟨(hv.held x 1).mpr (.inr (hheld x hx')), .inl hx'⟩
  · simp
  · simp [hp]
  · refine NullList.insertAfter hlist hv.ne_null ?_ (fun u hu => ?_) fun u hu => ?_
    · simp [hvne, hvne.symm, hv.ne_null]
    · simp [hne u hu]
    · have hu0 := hlist.ne_null hu
      by_cases he : u = (s.area vma).next
      · simp [hne u hu, hvne, hvne.symm, ← he, hu0]
      · simp [hne u hu, hvne, hvne.symm, he]
  · simp [hpid]
  · simp only [setPrev_files, setNext_files, setEnd_files, setStart_files]
    rfl
  · simp only [setPrev_fields, setNext_fields, setEnd_fields, setStart_fields]
    by_cases hxv : x = v
    · simp [hxv, hvne.symm]
    · by_cases hx : x = vma
      · simp [hx, hvne]
      · simp [hx, hxv]

lemma unlinkArea_fields (h : unlinkArea pid p vma s = some s₁) :
    s₁.files = s.files ∧ ∀ x, (s₁.area x).fields = (s.area x).fields := by
  unfold unlinkArea at h
  simp only at h
  split_ifs at h
  · cases h
    exact ⟨by simp, fun x => by simp⟩
  · cases h
    refine ⟨?_, fun x => by simp [setProc]⟩
    rw [setPrev_files]
    rfl

/-- The counters when an area with this file is gone. -/
def putRef (file : Nat) (fRef : Nat → Int) : Nat → Int :=
  if file ≠ 0 ∧ isStdstream file = false then update fRef file (fRef file - 1) else fRef

lemma putRef_of_ne (h : f ≠ file) : putRef file fRef f = fRef f := by
  unfold putRef
  split_ifs
  · exact update_of_ne h _ _
  · rfl

lemma filePut_of_ne (file : Nat) (s : State A) :
    (if file ≠ 0 then filePut file s else s) = { s with fRef := putRef file s.fRef } := by
  unfold putRef filePut
  by_cases hnull : file = 0
  · simp [hnull]
  · cases hstd : isStdstream file with
    | false => simp [hnull]
    | true => simp [hnull]

/-- What `do_munmap` leaves of the areas and of the counters of the files. -/
inductive Cut (Held : A → Nat → Nat → Prop) (nodes new : List Nat) (vma b c : Nat) (s s' : State A) : Prop
  | whole (hstart : b = (s.area vma).start) (hend : c = (s.area vma).end_)
      (hnew : ∀ x, x ∈ new ↔ x ∈ nodes ∧ x ≠ vma)
      (hfields : ∀ x, (s'.area x).fields = (s.area x).fields)
      (href : s'.fRef = putRef (s.area vma).file s.fRef)
  | head (hstart : b = (s.area vma).start) (hend : c ≠ (s.area vma).end_) (hnew : new = nodes)
      (hfields : ∀ x, (s'.area x).fields =
        if x = vma then { (s.area vma).fields with start := c } else (s.area x).fields)
      (href : s'.fRef = s.fRef)
  | tail (hstart : b ≠ (s.area vma).start) (hend : c = (s.area vma).end_) (hnew : new = nodes)
      (hfields : ∀ x, (s'.area x).fields =
        if x = vma then { (s.area vma).fields with end_ := b } else (s.area x).fields)
      (href : s'.fRef = s.fRef)
  | middle (hstart : b ≠ (s.area vma).start) (hend : c ≠ (s.area vma).end_) {v : Nat}
      (hv : ¬ Held s.mem.alloc v 1) (hnew : ∀ x, x ∈ new ↔ x = v ∨ x ∈ nodes)
      (hfields : ∀ x, (s'.area x).fields = if x = v then { (s.area vma).fields with start := c }
        else if x = vma then { (s.area vma).fields with end_ := b } else (s.area x).fields)
      (href : s'.fRef = s.fRef)

lemma Unmaps.cut (hE : E.Ok lo hi Inv Held) (hinv : Inv s.mem.alloc)
    (hlist : IsVmaList s.area p.vmaList nodes) (hheld : ∀ x ∈ nodes, Held s.mem.alloc x 1)
    (hvma : vma ∈ nodes) (hp : s.proc pid = some p) (hpid : pid < s.nextPid)
    (h : Unmaps E pid p vma b c s s') :
    ∃ new, Effect Inv Held pid nodes new s s' ∧ s'.written = s.written ∧
      Cut Held nodes new vma b c s s' := by
  have hne : ∀ x, x ∉ nodes → x ≠ vma := fun x hx he => hx (he ▸ hvma)
  cases h with
  | @whole s₁ m hstart hend hunlink hfree =>
    obtain ⟨hfiles, hfields⟩ := unlinkArea_fields hunlink
    have hfile : (s₁.area vma).file = (s.area vma).file := (congrArg Area.file (hfields vma) :)
    have href : s₁.fRef = s.fRef := congrArg Prod.fst hfiles
    have hwritten : s₁.written = s.written := congrArg (fun f => f.2.2.2) hfiles
    rw [filePut_of_ne, hfile, href]
    obtain ⟨new, hnew, he⟩ := unlinkArea_effect hE hinv hlist hheld hvma hp hpid hunlink hfree
      (putRef (s.area vma).file s.fRef)
    exact ⟨new, he, hwritten, .whole hstart hend hnew hfields rfl⟩
  | head hstart hend =>
    refine ⟨nodes, effect_same hlist hheld hp rfl hinv (fun x hx => ⟨hx, fun hno => ?_⟩)
      (fun x _ => by simp) (fun _ _ => rfl) rfl hpid, rfl, ?_⟩
    · exact setStart_of_ne _ _ _ (hne x hno)
    · exact .head hstart hend rfl (fun x => setStart_fields s vma c x) rfl
  | tail hstart hend =>
    refine ⟨nodes, effect_same hlist hheld hp rfl hinv (fun x hx => ⟨hx, fun hno => ?_⟩)
      (fun x _ => by simp) (fun _ _ => rfl) rfl hpid, rfl, ?_⟩
    · exact setEnd_of_ne _ _ _ (hne x hno)
    · exact .tail hstart hend rfl (fun x => setEnd_fields s vma b x) rfl
  | middle hstart hend hsplit =>
    obtain ⟨v, new, hv, hnew, he, hfiles, hfields⟩ := splitArea_effect hE hinv hlist hheld hvma hp hpid
      hsplit
    exact ⟨new, he, congrArg (fun f => f.2.2.2) hfiles,
      .middle hstart hend hv hnew hfields (congrArg Prod.fst hfiles)⟩

/-- `do_munmap` does nothing, or it writes pages of an area back and takes a part of it away. -/
lemma doMunmap_effect (hE : E.Ok lo hi Inv Held) {nodes : Nat → List Nat}
    (h : Lists Inv Held s nodes) (hself : ∀ p, s.proc pid = some p → ¬ SelfLinked s.area p.vmaList)
    (hm : doMunmap E fuel pid addr length s = some (res, s')) :
    ∃ p, s.proc pid = some p ∧ ∃ new, Effect Inv Held pid (nodes pid) new s s' ∧
      ((s' = s ∧ (pgRoundUp length = 0 ∨ findVma s.area (pgRoundDown addr) fuel p.vmaList = some 0)) ∨
        ∃ vma s₁, pgRoundUp length ≠ 0 ∧ vma ∈ nodes pid ∧
          findVma s.area (pgRoundDown addr) fuel p.vmaList = some vma ∧
          writesBack E p.pagetable (s.area vma) (pgRoundDown addr) (unmapEnd (s.area vma) addr length)
            fuel s = some s₁ ∧ s'.written = s₁.written ∧
          Cut Held (nodes pid) new vma (pgRoundDown addr) (unmapEnd (s.area vma) addr length) s s') := by
  obtain ⟨p, hp, hcases⟩ := doMunmap_cases hm
  have hlist : IsVmaList s.area p.vmaList (nodes pid) :=
    (h.list hp).resolve_right fun hs => hself p hp hs.1
  have hpid := h.pid_lt hp
  have hheld : ∀ x ∈ nodes pid, Held s.mem.alloc x 1 := fun x hx => h.held hx
  refine ⟨p, hp, ?_⟩
  rcases hcases with ⟨rfl, hnothing⟩ | ⟨vma, s₁, hlen, hnull, hfind, hwrite, hunmaps⟩
  · exact ⟨_, effect_same hlist hheld hp rfl h.alloc (fun x hx => ⟨hx, fun _ => rfl⟩)
      (fun x _ => ⟨rfl, rfl⟩) (fun _ _ => rfl) rfl hpid, .inl ⟨rfl, hnothing⟩⟩
  · have hvma := findVma_mem hlist hfind hnull
    obtain ⟨w, q, z, rfl⟩ := writesBack_cases hwrite
    obtain ⟨new, he, hwritten, hcut⟩ := Unmaps.cut hE
      (s := { s with written := w, fpos := q, fsize := z }) h.alloc hlist hheld hvma hp hpid hunmaps
    refine ⟨new, { he with }, .inr ⟨vma, _, hlen, hvma, hfind, hwrite, hwritten, ?_⟩⟩
    cases hcut with
    | whole hstart hend hnew hfields href => exact .whole hstart hend hnew hfields href
    | head hstart hend hnew hfields href => exact .head hstart hend hnew hfields href
    | tail hstart hend hnew hfields href => exact .tail hstart hend hnew hfields href
    | middle hstart hend hv hnew hfields href => exact .middle hstart hend hv hnew hfields href

/-! ## execve and clone -/

/-- Without a segment to load the list is what it was before the loop. -/
lemma loadAreas_skip {i : Nat} (hphdrs : ∀ phdr ∈ phdrs, phdr.pType ≠ ptLoad) :
    loadAreas E vma phdrs i list s = some (list, s) := by
  induction phdrs with
  | nil => rfl
  | cons phdr phdrs ih =>
    rw [loadAreas, if_pos (hphdrs phdr mem_cons_self)]
    exact ih fun phdr' h => hphdrs phdr' (mem_cons_of_mem _ h)

lemma sysExecve_effect (hE : E.Ok lo hi Inv Held) {space : Option (Nat × Nat)}
    {nodes : Nat → List Nat} (h : Lists Inv Held s nodes)
    (hphdrs : ∀ phdr ∈ phdrs, phdr.pType ≠ ptLoad) (hpage : page.prev = 0)
    (hx : sysExecve E pid phdrs page space s = some s') :
    ∃ new, Effect Inv Held pid [] new s s' := by
  obtain ⟨p, hp, hx⟩ := bind_eq_some_iff.mp hx
  obtain ⟨⟨v, s₁⟩, hk, hx⟩ := bind_eq_some_iff.mp hx
  obtain ⟨⟨list, s2⟩, hload, hx⟩ := bind_eq_some_iff.mp hx
  rw [loadAreas_skip hphdrs] at hload
  cases hload
  cases hx
  obtain ⟨hv, m, rfl⟩ := kallocArea_spec hE h.alloc hk
  refine ⟨[v], hv.alloc, fun x hx _ => ?_, fun x hx => ?_, fun pid' hne => ?_,
    ⟨_, update_self _ _ _, ?_⟩, ?_⟩
  · have hxv := hv.ne_of_held hx
    refine ⟨(hv.held x 1).mpr (.inr hx), ?_⟩
    exact (setNext_of_ne _ _ _ hxv).trans (hv.area x hxv)
  · rw [mem_singleton.mp hx]
    exact ⟨(hv.held v 1).mpr (.inl ⟨rfl, rfl⟩), .inr hv.unheld⟩
  · exact update_of_ne hne _ _
  · refine ⟨rfl, hv.ne_null, ?_, ?_⟩
    · simp [setProc, hpage]
    · simp [setProc, NullList]
  · exact ⟨le_rfl, h.pid_lt hp⟩

/-- The loop of `clone` on a list of at most one area. -/
lemma copyAreas_short (hE : E.Ok lo hi Inv Held) (hinv : Inv s.mem.alloc)
    (hshort : vma = 0 ∨ Held s.mem.alloc vma 1 ∧ (s.area vma).next = 0)
    (h : copyAreas E fuel vma 0 s = some (list, s')) :
    (list = 0 ∧ s' = s) ∨ vma ≠ 0 ∧ NewArea Inv Held list s s' ∧ (s'.area list).next = 0 ∧
      (s'.area list).prev = (s.area vma).prev ∧ s'.proc = s.proc ∧ s'.nextPid = s.nextPid := by
  cases fuel with
  | zero => cases h
  | succ fuel =>
    rw [copyAreas] at h
    by_cases hnull : vma = 0
    · rw [if_pos hnull] at h
      cases h
      exact .inl ⟨rfl, rfl⟩
    · obtain ⟨hheld, hlast⟩ := hshort.resolve_left hnull
      rw [if_neg hnull] at h
      obtain ⟨⟨v, s₁⟩, hk, h⟩ := bind_eq_some_iff.mp h
      obtain ⟨hv, m, rfl⟩ := kallocArea_spec hE hinv hk
      have hvne := hv.ne_of_held hheld
      cases fuel with
      | zero => cases h
      | succ fuel =>
        -- the copy is made, and its original was the last area
        simp only [copyAreas, setPrev_next, setNext_next, if_neg hvne,
          update_of_ne hvne, hlast, if_true, some.injEq, Prod.mk.injEq] at h
        obtain ⟨rfl, rfl⟩ := h
        refine .inr ⟨hnull, ?_, ?_, ?_, ?_, ?_⟩
        · refine ⟨hv.alloc, hv.ne_null, hv.unheld, hv.held, fun x hx => ?_⟩
          rw [setPrev, if_neg (by simp), setNext_of_ne _ _ _ hx]
          exact hv.area x hx
        · simp
        · simp [hv.ne_null]
        · simp
        · simp

/-- A child without areas. -/
lemma effect_child (hinv : Inv s.mem.alloc) (hnull : p.vmaList = 0) :
    Effect Inv Held s.nextPid [] [] s
      ({ s with nextPid := s.nextPid + 1 }.setProc s.nextPid p) := by
  refine ⟨hinv, fun x hx _ => ⟨hx, rfl⟩, nofun, fun pid' hne => ?_,
    ⟨p, update_self _ _ _, hnull⟩, ⟨Nat.le_succ _, Nat.lt_succ_self _⟩⟩
  exact update_of_ne hne _ _

section

variable (hE : E.Ok lo hi Inv Held)
include hE

/-- The child of a process with at most one area. -/
lemma sysClone_effect {flags cpgtbl cpid : Nat} {nodes : Nat → List Nat}
    (h : Lists Inv Held s nodes)
    (hshort : flags &&& cloneVm ≠ 0 → ∀ p, s.proc pid = some p → p.vmaList = 0 ∨ (s.area p.vmaList).next = 0)
    (hc : sysClone E fuel pid flags cpgtbl s = some (cpid, s')) :
    cpid = s.nextPid ∧ ∃ new, Effect Inv Held cpid [] new s s' := by
  obtain ⟨p, hp, hc⟩ := bind_eq_some_iff.mp hc
  simp only [allocProc] at hc
  by_cases hvm : flags &&& cloneVm ≠ 0
  · rw [if_pos hvm] at hc
    obtain ⟨⟨list, s₁⟩, hcopy, hc⟩ := bind_eq_some_iff.mp hc
    cases hc
    refine ⟨rfl, ?_⟩
    have hlist : p.vmaList = 0 ∨ (Held s.mem.alloc p.vmaList 1 ∧ (s.area p.vmaList).next = 0) ∧
        (s.area p.vmaList).prev = 0 := by
      by_cases hnull : p.vmaList = 0
      · exact .inl hnull
      · have hlast := (hshort hvm p hp).resolve_left hnull
        have hl := (h.list hp).resolve_right fun hs => hnull (hs.1.2.symm.trans hlast)
        have hmem := hl.start_mem hnull
        exact .inr ⟨⟨h.held hmem, hlast⟩, (hl.start_eq_iff hl.null_notMem hmem).mp rfl⟩
    rcases copyAreas_short hE (s := { s with nextPid := s.nextPid + 1 }) h.alloc
      (hlist.imp_right And.left) hcopy with ⟨rfl, rfl⟩ | ⟨hne, hv, hnext, hprev, hproc, hpid⟩
    · exact ⟨[], effect_child h.alloc rfl⟩
    · have hprev' : (s₁.area list).prev = 0 := by
        rw [hprev]
        exact (hlist.resolve_left hne).2
      refine ⟨[list], hv.alloc, fun x hx _ => ?_, fun x hx => ?_, fun pid' hne => ?_,
        ⟨_, update_self _ _ _, ?_⟩, ?_⟩
      · exact ⟨(hv.held x 1).mpr (.inr hx), hv.area x (hv.ne_of_held hx)⟩
      · rw [mem_singleton.mp hx]
        exact ⟨(hv.held list 1).mpr (.inl ⟨rfl, rfl⟩), .inr hv.unheld⟩
      · exact (update_of_ne hne _ _).trans (congrFun hproc pid')
      · exact ⟨rfl, hv.ne_null, hprev', hnext⟩
      · show s.nextPid ≤ s₁.nextPid ∧ s.nextPid < s₁.nextPid
        rw [hpid]
        exact ⟨Nat.le_succ _, Nat.lt_succ_self _⟩
  · rw [if_neg hvm] at hc
    cases hc
    exact ⟨rfl, [], effect_child h.alloc rfl⟩

/-! ## Runs -/

/-- The process whose list a step makes or changes. -/
def Call.target (s : State A) : Call → Option Nat
  | .kalloc _ => none
  | .execve pid _ _ _ => some pid
  | .clone _ _ _ => some s.nextPid
  | .mmap pid _ _ => some pid
  | .munmap pid _ _ => some pid

lemma step_effect {nodes : Nat → List Nat} (h : Lists Inv Held s nodes)
    {c : Call} (hcond : Cond s c) (hs : step E s c s') :
    (c.target s = none ∧ s'.area = s.area ∧ s'.proc = s.proc ∧ Lists Inv Held s' nodes) ∨
      ∃ q old new, c.target s = some q ∧ old ⊆ nodes q ∧ Effect Inv Held q old new s s' := by
  cases c with
  | kalloc sz =>
    obtain ⟨hpos, hsz, a, m, hk, rfl⟩ := hs
    exact .inl ⟨rfl, rfl, rfl, h.kalloc hE hpos hsz hk⟩
  | execve pid phdrs page space =>
    obtain ⟨new, he⟩ := sysExecve_effect hE h hcond.1 hcond.2 hs
    exact .inr ⟨pid, [], new, rfl, nil_subset _, he⟩
  | clone pid flags cpgtbl =>
    obtain ⟨fuel, cpid, hc⟩ := hs
    obtain ⟨rfl, new, he⟩ := sysClone_effect hE h hcond hc
    exact .inr ⟨_, [], new, rfl, nil_subset _, he⟩
  | mmap pid args page =>
    obtain ⟨fuel, res, hm⟩ := hs
    obtain ⟨-, new, he, -⟩ := sysMmap_effect hE h hcond.2 hcond.1 hm
    exact .inr ⟨pid, _, new, rfl, List.Subset.refl _, he⟩
  | munmap pid addr length =>
    obtain ⟨fuel, res, hm⟩ := hs
    obtain ⟨-, -, new, he, -⟩ := doMunmap_effect hE h hcond hm
    exact .inr ⟨pid, _, new, rfl, List.Subset.refl _, he⟩

/-- The step is an `execve` of the process. -/
def Call.execs (pid : Nat) : Call → Prop
  | .execve pid' _ _ _ => pid' = pid
  | _ => False

/-- What holds along a run: all lists are in order, except that the first process keeps the list of
`proc_init` until it calls `execve`. -/
structure Reached (Inv : A → Prop) (Held : A → Nat → Nat → Prop) (first : Nat)
    (ts : List (Transition (State A) Call)) (s : State A) (nodes : Nat → List Nat) : Prop where
  lists : Lists Inv Held s nodes
  live : ∃ p, s.proc first = some p
  self : ∀ {pid p}, s.proc pid = some p →
    (SelfLinked s.area p.vmaList ↔ pid = first ∧ ∀ t ∈ ts, ¬ t.label.execs first)

lemma procInit_cases (hinv : Inv s.mem.alloc) (h : procInit E pagetable s = some s') :
    ∃ v m a p, p.vmaList = v ∧ a.next = v ∧ v ≠ 0 ∧ Inv m.alloc ∧ Held m.alloc v 1 ∧
      s' = { s with
        mem := m
        area := update s.area v a
        proc := update s.proc s.nextPid (some p)
        nextPid := s.nextPid + 1 } := by
  obtain ⟨⟨v, s₁⟩, hk, heq⟩ := bind_eq_some_iff.mp h
  obtain ⟨hv, m, rfl⟩ := kallocArea_spec hE (s := { s with nextPid := s.nextPid + 1 }) hinv hk
  simp only [setArea, setProc, update_self, update_idem,
    some.injEq] at heq
  exact ⟨v, m, _, _, by rfl, by rfl, hv.ne_null, hv.alloc, (hv.held v 1).mpr (.inl ⟨rfl, rfl⟩),
    heq.symm⟩

/-- The list of `proc_init` is linked to itself. -/
lemma procInit_reached (hinv : Inv s.mem.alloc)
    (hnone : ∀ pid, s.proc pid = none) (h : procInit E pagetable s = some s') :
    ∃ nodes, Reached Inv Held s.nextPid [] s' nodes := by
  obtain ⟨v, m, a, p, hp, hnext, hnull, hinv', hheld, rfl⟩ := procInit_cases hE hinv h
  subst hp
  have hproc : ∀ {pid p'}, update s.proc s.nextPid (some p) pid = some p' →
      pid = s.nextPid ∧ p' = p := by
    intro pid p' hp
    by_cases hpid : pid = s.nextPid
    · rw [hpid, update_self] at hp
      exact ⟨hpid, (some.inj hp).symm⟩
    · rw [update_of_ne hpid, hnone] at hp
      cases hp
  have hself : SelfLinked (update s.area p.vmaList a) p.vmaList :=
    ⟨hnull, by rw [update_self, hnext]⟩
  have hnodes : ∀ {pid x}, x ∈ update (fun _ => []) s.nextPid [p.vmaList] pid →
      pid = s.nextPid ∧ x = p.vmaList := by
    intro pid x hx
    by_cases hpid : pid = s.nextPid
    · rw [hpid, update_self] at hx
      exact ⟨hpid, mem_singleton.mp hx⟩
    · rw [update_of_ne hpid] at hx
      cases hx
  refine ⟨update (fun _ => []) s.nextPid [p.vmaList], ⟨hinv', ?_, ?_, ?_, ?_⟩,
    ⟨p, update_self _ _ _⟩, ?_⟩
  · intro pid hpid
    have hlt : s.nextPid < pid := hpid
    exact (update_of_ne (by omega) _ _).trans (hnone pid)
  · intro pid p' hp
    obtain ⟨rfl, rfl⟩ := hproc hp
    exact .inr ⟨hself, update_self _ _ _⟩
  · intro pid x hx
    obtain ⟨rfl, rfl⟩ := hnodes hx
    exact hheld
  · intro pid pid' x hne hx hx'
    exact hne ((hnodes hx).1.trans (hnodes hx').1.symm)
  · intro pid p' hp
    obtain ⟨rfl, rfl⟩ := hproc hp
    exact ⟨fun _ => ⟨rfl, nofun⟩, fun _ => hself⟩

lemma Reached.step {nodes : Nat → List Nat}
    (h : Reached Inv Held first ts s nodes) {c : Call} (hcond : Cond s c) (hs : step E s c s') :
    ∃ nodes', Reached Inv Held first (ts ++ [⟨s, c, s'⟩]) s' nodes' := by
  obtain ⟨p1, hp1⟩ := h.live
  have hall : (∀ t ∈ ts ++ [(⟨s, c, s'⟩ : Transition (State A) Call)], ¬ t.label.execs first) ↔
      (∀ t ∈ ts, ¬ t.label.execs first) ∧ ¬ c.execs first := by
    simp only [mem_append, mem_singleton, or_imp, forall_and, forall_eq]
  rcases step_effect hE h.lists hcond hs with ⟨htarget, harea, hproc, hlists⟩ | ⟨q, old, new, htarget, hold, he⟩
  · have hno : ¬ c.execs first := by
      cases c with
      | kalloc sz => exact fun hx => hx
      | execve _ _ _ _ => cases htarget
      | clone _ _ _ => cases htarget
      | mmap _ _ _ => cases htarget
      | munmap _ _ _ => cases htarget
    refine ⟨nodes, hlists, ⟨p1, hproc ▸ hp1⟩, ?_⟩
    intro pid p hp
    rw [hproc] at hp
    rw [harea, h.self hp, hall, and_iff_left hno]
  · have hfirst : ∃ p, s'.proc first = some p := by
      by_cases hq : first = q
      · obtain ⟨p, hp, _⟩ := he.proc
        exact ⟨p, hq ▸ hp⟩
      · exact ⟨p1, (he.other first hq).trans hp1⟩
    refine ⟨_, h.lists.effect he hold, hfirst, ?_⟩
    intro pid p hp
    rw [he.selfLinked_iff h.lists hold hp, hall]
    constructor
    · rintro ⟨hq, p0, hp0, hself⟩
      obtain ⟨rfl, hts⟩ := (h.self hp0).mp hself
      refine ⟨rfl, hts, fun hx => hq ?_⟩
      cases c with
      | execve pid' _ _ _ =>
        have hpid : pid' = pid := hx
        subst hpid
        exact some.inj htarget
      | kalloc _ => cases hx
      | clone _ _ _ => cases hx
      | mmap _ _ _ => cases hx
      | munmap _ _ _ => cases hx
    · rintro ⟨rfl, hts, hx⟩
      have hself := (h.self hp1).mpr ⟨rfl, hts⟩
      refine ⟨?_, p1, hp1, hself⟩
      rintro rfl
      cases c with
      | kalloc _ => cases htarget
      | execve pid' _ _ _ =>
        cases htarget
        exact hx rfl
      | clone _ _ _ =>
        cases htarget
        exact lt_irrefl _ (h.lists.pid_lt hp1)
      | mmap pid' _ _ =>
        cases htarget
        exact hcond.1 p1 hp1 hself
      | munmap pid' _ _ =>
        cases htarget
        exact hcond p1 hp1 hself

lemma run_reached {nodes : Nat → List Nat} (h : Reached Inv Held first [] s nodes)
    (hr : Run (step E) s ts s') (hcond : ∀ t ∈ ts, Cond t.source t.label) :
    ∃ nodes', Reached Inv Held first ts s' nodes' := by
  induction hr with
  | nil => exact ⟨nodes, h⟩
  | @snoc ts s₁ s2 c _ hs ih =>
    obtain ⟨nodes1, h1⟩ := ih fun t ht => hcond t (mem_append_left _ ht)
    have hlast := hcond ⟨s₁, c, s2⟩ (mem_append.mpr (.inr (mem_singleton.mpr rfl)))
    exact h1.step hE hlast hs

end

/-- In every run from `proc_init` whose steps meet the condition, every process has a well-formed
list of its own areas; the first process does so from its first `execve` on, and not before. -/
theorem vma_lists_wellFormed (hE : E.Ok lo hi Inv Held) (hinv : Inv s.mem.alloc)
    (hnone : ∀ pid, s.proc pid = none) {pagetable : Nat} (hinit : procInit E pagetable s = some s₁)
    {ts : List (Transition (State A) Call)} (hr : Run (step E) s₁ ts s')
    (hcond : ∀ t ∈ ts, Cond t.source t.label) :
    ∃ nodes : Nat → List Nat,
      (∀ pid p, s'.proc pid = some p →
        (pid ≠ s.nextPid ∨ ∃ t ∈ ts, t.label.execs s.nextPid) ∧ WellFormed s'.area p (nodes pid) ∨
        (pid = s.nextPid ∧ ∀ t ∈ ts, ¬ t.label.execs s.nextPid) ∧
          ∀ l, ¬ IsVmaList s'.area p.vmaList l) ∧
      ∀ pid pid' x, pid ≠ pid' → x ∈ nodes pid → x ∉ nodes pid' := by
  obtain ⟨nodes0, h0⟩ := procInit_reached hE hinv hnone hinit
  obtain ⟨nodes, h⟩ := run_reached hE h0 hr hcond
  refine ⟨nodes, fun pid p hp => ?_, fun pid pid' x hne hx => h.lists.apart hne hx⟩
  by_cases hself : SelfLinked s'.area p.vmaList
  · exact .inr ⟨(h.self hp).mp hself, hself.not_list⟩
  · refine .inl ⟨?_, ((h.lists.list hp).resolve_right fun hs => hself hs.1).wellFormed⟩
    by_contra hcon
    push Not at hcon
    exact hself ((h.self hp).mpr hcon)

end

/-! ## A small kernel with one process -/

instance (area : Nat → Area) (head : Nat) : Decidable (SelfLinked area head) :=
  inferInstanceAs (Decidable (_ ∧ _))

/-- The areas and processes of a kernel that has none. -/
def noProcess (m : Mem A) : State A :=
  ⟨m, fun _ => zeroArea, fun _ => none, 1, fun _ => 0, fun _ => 0, fun _ => 0, [], fun _ _ => false⟩

/-- An anonymous area of three pages at a fixed address. -/
def fixedArgs : MmapArgs := ⟨0x10000, 0x3000, 7, mapFixed ||| mapAnonymous ||| mapPrivate, -1, 0⟩

/-- The list of a process is linked to itself. -/
def selfLinked (s : State A) (pid : Nat) : Bool :=
  (s.proc pid).any fun p => decide (SelfLinked s.area p.vmaList)

lemma not_selfLinked {s : State A} {pid : Nat} (h : selfLinked s pid = false) {p : Process}
    (hp : s.proc pid = some p) : ¬ SelfLinked s.area p.vmaList := by
  rw [selfLinked, hp] at h
  simpa using h

/-- The first process loads a program without segments, makes an area and gives its middle back. -/
theorem vma_lists_wellFormed_split :
    ∃ E m s₀ s₁ s₂ s₃, ∃ nodes : Nat → List Nat, bootSmall = some (E, m) ∧
      procInit E 0 (noProcess m) = some s₀ ∧
      sysExecve E 1 [⟨3, 0, 0, 0⟩] zeroArea none s₀ = some s₁ ∧
      sysMmap E 8 1 fixedArgs zeroArea s₁ = some (0, s₂) ∧
      doMunmap E 8 1 0x11000 0x1000 s₂ = some (0, s₃) ∧
      ∀ pid p, s₃.proc pid = some p → WellFormed s₃.area p (nodes pid) := by
  have hrun : (bootSmall.bind fun b => (procInit b.1 0 (noProcess b.2)).bind fun s₀ =>
      (sysExecve b.1 1 [⟨3, 0, 0, 0⟩] zeroArea none s₀).bind fun s₁ =>
      (sysMmap b.1 8 1 fixedArgs zeroArea s₁).bind fun r2 =>
      (doMunmap b.1 8 1 0x11000 0x1000 r2.2).map fun r3 =>
        (r2.1, r3.1, selfLinked s₁ 1, selfLinked r2.2 1)) = some (0, 0, false, false) := by
    decide +kernel
  simp only [bind_eq_some_iff, map_eq_some_iff, Prod.exists] at hrun
  obtain ⟨E, m, hboot, s₀, hinit, s₁, hexec, res2, s₂, hmmap, res3, s₃, hmunmap, hres⟩ := hrun
  simp only [Prod.mk.injEq] at hres
  obtain ⟨rfl, rfl, hself1, hself2⟩ := hres
  obtain ⟨hE, hs⟩ := bootSmall_ok hboot
  have hstep1 : step E s₀ (.execve 1 [⟨3, 0, 0, 0⟩] zeroArea none) s₁ := hexec
  have hstep2 : step E s₁ (.mmap 1 fixedArgs zeroArea) s₂ := ⟨8, 0, hmmap⟩
  have hstep3 : step E s₂ (.munmap 1 0x11000 0x1000) s₃ := ⟨8, 0, hmunmap⟩
  have hr := ((Run.nil.snoc hstep1).snoc hstep2).snoc hstep3
  obtain ⟨nodes, hlists, _⟩ := vma_lists_wellFormed hE (s := noProcess m) hs.alloc (fun _ => rfl)
    hinit hr (by
      intro t ht
      simp only [nil_append, cons_append, mem_cons, not_mem_nil, or_false] at ht
      rcases ht with rfl | rfl | rfl
      · exact ⟨by simp [ptLoad], rfl⟩
      · exact ⟨fun p hp => not_selfLinked hself1 hp, rfl⟩
      · exact fun p hp => not_selfLinked hself2 hp)
  refine ⟨E, m, s₀, s₁, s₂, s₃, nodes, hboot, hinit, hexec, hmmap, hmunmap, fun pid p hp => ?_⟩
  rcases hlists pid p hp with ⟨_, hwf⟩ | ⟨⟨_, hno⟩, _⟩
  · exact hwf
  · exact absurd rfl (hno ⟨s₀, .execve 1 [⟨3, 0, 0, 0⟩] zeroArea none, s₁⟩ mem_cons_self)

/-- The first process has a list without an end, before and after it loads a program with one
segment. -/
theorem vma_list_selfLinked :
    ∃ E m s₀ s₁ p₀ p₁, bootSmall = some (E, m) ∧ procInit E 0 (noProcess m) = some s₀ ∧
      s₀.proc 1 = some p₀ ∧ (∀ l, ¬ IsVmaList s₀.area p₀.vmaList l) ∧
      sysExecve E 1 [⟨ptLoad, 0x10000, 0x1000, 0x1000⟩] zeroArea none s₀ = some s₁ ∧
      s₁.proc 1 = some p₁ ∧ ∀ l, ¬ IsVmaList s₁.area p₁.vmaList l := by
  have hrun : (bootSmall.bind fun b => (procInit b.1 0 (noProcess b.2)).bind fun s₀ =>
      (sysExecve b.1 1 [⟨ptLoad, 0x10000, 0x1000, 0x1000⟩] zeroArea none s₀).bind fun s₁ =>
      (s₀.proc 1).bind fun p₀ => (s₁.proc 1).map fun p₁ =>
        decide (SelfLinked s₀.area p₀.vmaList ∧ SelfLinked s₁.area p₁.vmaList)) = some true := by
    decide +kernel
  simp only [bind_eq_some_iff, map_eq_some_iff, Prod.exists] at hrun
  obtain ⟨E, m, hboot, s₀, hinit, s₁, hexec, p₀, hp0, p₁, hp1, hself⟩ := hrun
  obtain ⟨hself0, hself1⟩ := of_decide_eq_true hself
  exact ⟨E, m, s₀, s₁, p₀, p₁, hboot, hinit, hp0, hself0.not_list, hexec, hp1, hself1.not_list⟩

end Hana.Vma
