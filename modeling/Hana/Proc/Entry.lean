import Hana.Mm.Vm.RefCount
import Hana.Proc.Brk

/-!
# Entering user mode

`dive_to_user` and the trap entry reach the registers of a process through one fixed address:
the table of the process should map `TRAPFRAME` to the page of its own trapframe, and
`TRAMPOLINE` to the code that runs while the tables are switched. Processes are made by
`proc_init`, `fork` and `clone`, and each of them puts the table together in its own way.

Only the first process can enter user mode. The table that `fork` makes maps the trapframe
of the parent, the table that `clone` shares does so, too, and without `CLONE_VM` the child
of `clone` has no table at all. `Kept` says what such a call does to the other processes.

The area of the first process is linked to itself in the source, so that a walk along its
areas does not end. Here its list is that one area, which only adds runs: those in which the
first process calls `fork`, or `clone` with `CLONE_VM`, and the call returns. The open files of a
process change between its calls, so a call is told which of them have an inode.
-/

namespace Hana.Proc

open Lib Vm List Option

variable {A : Type}

/-! ## proc_init -/

/-- `uvminit`; `initCode` is the code of the first process. -/
def uvminit (E : Env A) (trampoline trapframe : Nat) (initCode : List Nat) (m : Mem A) :
    Option (Nat × Mem A) :=
  if 16 * pgSize < initCode.length then none
  else do
    let (userspace, m) ← kalloc E initCode.length m
    let m := writeBytes userspace initCode m
    let (upgtbl, m) ← uvmmake E trampoline trapframe m
    let m ← mappages E upgtbl 0 userspace initCode.length (pteU ||| pteR ||| pteX ||| pteW) m
    let m ← mappages E upgtbl (16 * pgSize) 0 pgSize 0 m
    let (ustack, m) ← kalloc E pgSize m
    let m ← mappages E upgtbl (17 * pgSize) ustack pgSize (pteU ||| pteR ||| pteW) m
    some (upgtbl, m)

def sizeofVmArea : Nat := 64

/-- The area of the first process. -/
def initArea : VmArea := ⟨0, 18 * pgSize, pteRwx ||| pteU⟩

def procInit (E : Env A) (trampoline : Nat) (initCode : List Nat) (s : Sys A) :
    Option (Process × Sys A) := do
  let (p, s) ← allocProc E s
  let (pagetable, m) ← uvminit E trampoline p.trapframe initCode s.mem
  let (_, m) ← kalloc E sizeofUpagetable m
  let (_, m) ← kalloc E sizeofVmArea m
  some ({ p with
    pagetable := pagetable
    heapStart := 18 * pgSize
    sz := 18 * pgSize
    vmaList := [initArea] }, { s with mem := m })

/-! ## clone -/

def cloneVm : Nat := 0x100

def cloneFs : Nat := 0x200

def cloneFiles : Nat := 0x400

def cloneParentSettid : Nat := 0x100000

def cloneChildSettid : Nat := 0x1000000

structure CloneArgs where
  flags : Nat
  ptid : Nat
  tls : Nat
  ctid : Nat

/-- The first `n` bytes of a number in memory. -/
def leBytes (n v : Nat) : List Nat := (List.range n).map fun i => v / 256 ^ i % 256

/-- The offset of `tp` in a trapframe. -/
def trapframeTp : Nat := 64

/-- The allocations of the loop that copies the areas. -/
def copyVmas (E : Env A) : List VmArea → Mem A → Option (Mem A)
  | [], m => some m
  | _ :: vmas, m => do
    let (_, m) ← kalloc E sizeofVmArea m
    copyVmas E vmas m

/-- The table and the areas of the child. Without `CLONE_VM` the new table is not stored. -/
def cloneSpace (E : Env A) (flags : Nat) (proc child : Process) (m : Mem A) :
    Option (Process × Mem A) :=
  if flags &&& cloneVm ≠ 0 then do
    let m ← copyVmas E proc.vmaList m
    some ({ child with pagetable := proc.pagetable, vmaList := proc.vmaList.reverse }, m)
  else do
    let (cpgtbl, m) ← allocPagetable E m
    let m ← uvmcopy E cpgtbl proc.pagetable proc.sz m
    some (child, m)

/-- `copyout` of the number of the child, if the flag is set; its result is not looked at. -/
def cloneSettid (E : Env A) (set : Bool) (proc : Process) (tid pid : Nat) (m : Mem A) :
    Option (Mem A) :=
  if set then do
    let (_, m) ← copyout E proc.pagetable tid (leBytes 4 pid) m
    some m
  else some m

def sysClone (E : Env A) (args : CloneArgs) (proc : Process) (s : Sys A) :
    Option (Process × Sys A) := do
  let (child, s) ← allocProc E s
  let (child, m) ← cloneSpace E args.flags proc child s.mem
  let m := copyTrapframe child.trapframe proc.trapframe m
  let m := writeBytes (child.trapframe + trapframeTp) (leBytes 8 args.tls) m
  let m ← (if args.flags &&& cloneFs ≠ 0 then some m
    else strdup E proc.cwd m)
  let m ← (if args.flags &&& cloneFiles ≠ 0 then some m else fdtDup E proc.files m)
  let m ← cloneSettid E (args.flags &&& cloneParentSettid != 0) proc args.ptid child.pid m
  let m ← cloneSettid E (args.flags &&& cloneChildSettid != 0) proc args.ctid child.pid m
  some ({ child with
    sz := proc.sz
    heapStart := proc.heapStart
    cwd := proc.cwd
    files := proc.files }, { s with mem := m })

/-! ## Runs -/

/-- The memory and the processes that are `RUNNABLE`. -/
structure Procs (A : Type) where
  sys : Sys A
  procs : List Process

inductive Create where
  | fork (parent : Process) (files : List Bool)
  | clone (proc : Process) (files : List Bool) (args : CloneArgs)

/-- A process that has a table calls `fork` or `clone`. -/
def createStep (E : Env A) (trampoline : Nat) (s : Procs A) : Create → Procs A → Prop
  | .fork parent files, s' => parent ∈ s.procs ∧ parent.pagetable ≠ 0 ∧ ∃ child sys',
      sysFork E trampoline { parent with files := files } s.sys = some (child, sys') ∧
        s' = ⟨sys', child :: s.procs⟩
  | .clone proc files args, s' => proc ∈ s.procs ∧ proc.pagetable ≠ 0 ∧ args.ptid < 2 ^ 64 ∧
      args.ctid < 2 ^ 64 ∧ ∃ child sys',
      sysClone E args { proc with files := files } s.sys = some (child, sys') ∧
        s' = ⟨sys', child :: s.procs⟩

/-- The table of the process maps the trampoline and the process's own trapframe. -/
def EntersUser (trampoline : Nat) (m : Mem A) (p : Process) : Prop :=
  p.pagetable ≠ 0 ∧
    mapsFrame (frameOf trampoline) (leaf m p.pagetable (trampolineVa >>> 12)) = true ∧
    mapsFrame (frameOf p.trapframe) (leaf m p.pagetable (trapframeVa >>> 12)) = true

/-! ## What the calls keep -/

/-- Blocks stay allocated, tables stay tables, and the entries of the roots outside of `R` stay as
they are. -/
structure Kept (Held : A → Nat → Nat → Prop) (R : Nat → Prop) (m : Mem A)
    (tab : Nat → Option Place) (m' : Mem A) (tab' : Nat → Option Place) : Prop where
  le : ∀ {t pl}, tab t = some pl → tab' t = some pl
  held : ∀ {q k}, Held m.alloc q k → Held m'.alloc q k
  leaf : ∀ {r}, tab r = some (rootPlace r) → ¬ R r → ∀ vpn, leaf m' r vpn = leaf m r vpn

variable {sz flags t f : Nat} {s' sys' : Sys A} {s : Procs A} {child proc : Process}
variable {initCode : List Nat}

section

variable {Inv : A → Prop} {Held : A → Nat → Nat → Prop} {lo hi : Nat} {E : Env A} {R : Nat → Prop}
variable {m m1 m' : Mem A} {tab tab1 tab' : Nat → Option Place} {r : Nat}

lemma Kept.refl : Kept Held R m tab m tab :=
  ⟨fun h => h, fun h => h, fun _ _ _ => rfl⟩

lemma Kept.trans (h : Kept Held R m tab m1 tab1) (h' : Kept Held R m1 tab1 m' tab') :
    Kept Held R m tab m' tab' := by
  refine ⟨fun ht => h'.le (h.le ht), fun hq => h'.held (h.held hq), fun hr hno vpn => ?_⟩
  rw [h'.leaf (h.le hr) hno, h.leaf hr hno]

lemma Kept.none (h : Kept Held R m tab m' tab') (hr : tab' r = none) : tab r = none := by
  by_contra hne
  obtain ⟨pl, htab⟩ := ne_none_iff_exists'.mp hne
  rw [h.le htab] at hr
  cases hr

lemma TablesOnly.kept (h : TablesOnly Held r m tab m' tab') (hR : R r) :
    Kept Held R m tab m' tab' := by
  refine ⟨h.le, h.held, fun hr' hno => h.leaf hr' ?_⟩
  rintro rfl
  exact hno hR

/-- Only the contents of memory change. -/
lemma kept_bytes (hs : Shaped Inv Held m tab) (b : Nat → Nat) :
    Shaped Inv Held { m with byte := b } tab ∧ Kept Held R m tab { m with byte := b } tab :=
  ⟨⟨{ hs.tables with }, hs.alloc, hs.held⟩, ⟨fun h => h, fun h => h, fun _ _ _ => rfl⟩⟩

lemma kalloc_kept (hE : E.Ok lo hi Inv Held) (hs : Shaped Inv Held m tab) {p : Nat}
    (hpos : 0 < sz) (hsz : sz ≤ 4 * 2 ^ 20) (hk : kalloc E sz m = some (p, m')) :
    Shaped Inv Held m' tab ∧ Kept Held R m tab m' tab ∧ m'.pte = m.pte := by
  obtain ⟨hs', hm'⟩ := kalloc_shaped hE hs hpos hsz hk
  obtain ⟨⟨p', a⟩, halloc, heq⟩ := bind_eq_some_iff.mp hk
  cases heq
  obtain ⟨_, _, _, _, _, hheld⟩ := hE.lawful.kalloc_spec hs.alloc hpos hsz halloc
  exact ⟨hs', ⟨fun h => h, fun hq => (hheld _ _).mpr (.inr hq), fun _ _ _ => rfl⟩, rfl⟩

lemma mappages_kept (hE : E.Ok lo hi Inv Held) (hs : Shaped Inv Held m tab)
    (hr : tab r = some (rootPlace r)) (hR : R r) {va pa : Nat}
    (hm : mappages E r va pa sz flags m = some m') :
    ∃ tab', Shaped Inv Held m' tab' ∧ Kept Held R m tab m' tab' ∧ Entries r flags m m' ∧
      (Clean r m tab → Clean r m' tab') := by
  obtain ⟨tab', hs', ht, he⟩ := mappages_entries hE hs hr hm
  exact ⟨tab', hs', TablesOnly.kept ht hR, he, ht.clean⟩

lemma allocPagetable_kept (hE : E.Ok lo hi Inv Held) (hs : Shaped Inv Held m tab)
    (hk : allocPagetable E m = some (t, m')) :
    ∃ tab', Shaped Inv Held m' tab' ∧ tab t = none ∧ tab' t = some (rootPlace t) ∧
      Kept Held R m tab m' tab' ∧ ∀ vpn, leaf m' t vpn = 0 := by
  obtain ⟨tab', hs', hnew, hroot, hle, hzero, hleaf, _, _, _, hheld⟩ := allocPagetable_spec hE hs hk
  exact ⟨tab', hs', hnew, hroot, ⟨hle, fun hq => (hheld _ _).mpr (.inr hq),
    fun hr _ => hleaf hr⟩, hzero⟩

/-! ## New processes -/

/-- The page of a trapframe that is allocated in the call. -/
structure Fresh (Held : A → Nat → Nat → Prop) (t : Nat) (m m' : Mem A) : Prop where
  unowned : ¬ Owned Held m.alloc t
  held : Held m'.alloc t 1
  dvd : 4096 ∣ t
  le : t + 4096 ≤ 2 ^ 64

lemma kalloc_fresh (hE : E.Ok lo hi Inv Held) (hs : Shaped Inv Held m tab)
    (hpos : 0 < sz) (hsz : sz ≤ 4096) (hk : kalloc E sz m = some (t, m')) : Fresh Held t m m' := by
  obtain ⟨⟨t', a⟩, halloc, heq⟩ := bind_eq_some_iff.mp hk
  cases heq
  obtain ⟨hinv, n, _, hone, hapart, hheld⟩ :=
    hE.lawful.kalloc_spec hs.alloc hpos (by omega) halloc
  have hn := hone hsz
  subst hn
  have hheld' : Held a t 1 := (hheld t 1).mpr (.inl ⟨rfl, rfl⟩)
  obtain ⟨hdvd, _, _, hhi⟩ := hE.lawful.range hinv hheld'
  have hle := hE.hi_lt
  refine ⟨?_, hheld', hdvd, by omega⟩
  rintro ⟨q, k, hq, hlo, hlt⟩
  have := hapart q k hq
  omega

lemma Fresh.mono (h : Fresh Held t m1 m') (hk : Kept Held R m tab m1 tab1) :
    Fresh Held t m m' := by
  refine ⟨?_, h.held, h.dvd, h.le⟩
  rintro ⟨q, k, hq, hle⟩
  exact h.unowned ⟨q, k, hk.held hq, hle⟩

lemma Fresh.kept (h : Fresh Held t m m1) (hk : Kept Held R m1 tab1 m' tab') :
    Fresh Held t m m' :=
  ⟨h.unowned, hk.held h.held, h.dvd, h.le⟩

lemma Fresh.ne (h : Fresh Held t m m') (hf : Held m.alloc f 1) : f ≠ t := by
  rintro rfl
  exact h.unowned ⟨f, 1, hf, le_rfl, by omega⟩

lemma allocProc_kept (hE : E.Ok lo hi Inv Held) {s : Sys A} {p : Process}
    (hs : Shaped Inv Held s.mem tab)
    (hk : tab E.kernelPagetable = some (rootPlace E.kernelPagetable)) (hR : R E.kernelPagetable)
    (h : allocProc E s = some (p, s')) :
    p.pid = s.nextPid ∧ s'.nextPid = s.nextPid + 1 ∧ p.pagetable = 0 ∧ p.vmaList = [] ∧
      p.cwd = ['/'] ∧ Fresh Held p.trapframe s.mem s'.mem ∧
      ∃ tab', Shaped Inv Held s'.mem tab' ∧ Kept Held R s.mem tab s'.mem tab' := by
  simp only [allocProc, mapStack, bind_eq_bind, bind_eq_some_iff, Prod.exists,
    some.injEq, Prod.mk.injEq] at h
  obtain ⟨_, m1, hk1, m3, ⟨stack, m2, hk2, hmap⟩, tf, m4, hk4, m5, hk5, _, m6, hk6, rfl, rfl⟩ := h
  obtain ⟨_, _, hk5⟩ := strdup_eq_some hk5
  obtain ⟨hs1, hkept1, _⟩ := kalloc_kept hE hs (by decide) (by decide) hk1
  obtain ⟨hs2, hkept2, _⟩ := kalloc_kept hE hs1 (by decide) (by decide) hk2
  obtain ⟨tab3, hs3, hkept3, _⟩ := mappages_kept hE hs2 hk hR hmap
  obtain ⟨hs4, hkept4, _⟩ := kalloc_kept hE hs3 (by decide) (by decide) hk4
  obtain ⟨hs5, hkept5, _⟩ := kalloc_kept hE hs4 (by decide) (by decide) hk5
  obtain ⟨hs6, hkept6, _⟩ := kalloc_kept hE hs5 (by decide) (by decide) hk6
  have hbefore := (hkept1.trans hkept2).trans hkept3
  have hafter : Kept Held R m4 tab3 m6 tab3 := hkept5.trans hkept6
  have hfresh := kalloc_fresh hE hs3 (by decide) (by decide) hk4
  exact ⟨rfl, rfl, rfl, rfl, rfl, (hfresh.mono hbefore).kept hafter, tab3, hs6,
    (hbefore.trans hkept4).trans hafter⟩

lemma clean_of_pte (hpte : m'.pte = m.pte) (h : Clean r m tab) : Clean r m' tab := by
  unfold Clean
  rw [hpte]
  exact h

/-- No page of the table is marked for copying. -/
def NoCow (r : Nat) (m : Mem A) : Prop := ∀ vpn, has (leaf m r vpn) pteCow = false

lemma NoCow.entries (h : NoCow r m) (he : Entries r flags m m')
    (hflags : has flags pteCow = false) : NoCow r m' := by
  intro vpn
  rcases he vpn with heq | ⟨pa, heq⟩
  · rw [heq]
    exact h vpn
  · have hentry : has (pa2pte pa ||| flags ||| pteV) pteCow = has (flags ||| pteV) pteCow :=
      has_entry (i := 9) (by decide)
    have hor : has (flags ||| pteV) (1 <<< 9) = (has flags (1 <<< 9) || has pteV (1 <<< 9)) := has_or_flag
    rw [heq, hentry]
    exact hor.trans (by rw [show has flags (1 <<< 9) = false from hflags]; rfl)

section

variable (hE : E.Ok lo hi Inv Held)
include hE

lemma uvmcopyAllocPages_kept {c perms n va : Nat} (hR : R c) (hperms : has perms pteCow = false)
    (hs : Shaped Inv Held m tab) (hc : tab c = some (rootPlace c)) (hcow : NoCow c m)
    (h : uvmcopyAllocPages E c perms n va m = some m') :
    ∃ tab', Shaped Inv Held m' tab' ∧ Kept Held R m tab m' tab' ∧ NoCow c m' ∧
      (Clean c m tab → Clean c m' tab') := by
  induction n generalizing va m tab with
  | zero =>
    cases h
    exact ⟨tab, hs, Kept.refl, hcow, fun hclean => hclean⟩
  | succ n ih =>
    simp only [uvmcopyAllocPages, bind_eq_bind, bind_eq_some_iff, Prod.exists] at h
    obtain ⟨pa, m1, hk, m2, hmap, h⟩ := h
    obtain ⟨hs1, hkept1, hpte⟩ := kalloc_kept hE hs (by decide) (by decide) hk
    obtain ⟨tab2, hs2, hkept2, hent, hclean⟩ := mappages_kept hE hs1 hc hR hmap
    have hcow1 : NoCow c m1 := by
      intro vpn
      have hleaf : leaf m1 c vpn = leaf m c vpn := by
        unfold leaf
        rw [hpte]
      rw [hleaf]
      exact hcow vpn
    obtain ⟨tab', hs', hkept', hcow', hclean'⟩ :=
      ih hs2 (hkept2.le hc) (hcow1.entries hent hperms) h
    exact ⟨tab', hs', (hkept1.trans hkept2).trans hkept', hcow',
      fun hc0 => hclean' (hclean (clean_of_pte hpte hc0))⟩

lemma uvmcopyAlloc_kept {c p : Nat} {vmas : List VmArea} (hR : R c)
    (hprot : ∀ v ∈ vmas, has v.prot pteCow = false) (hs : Shaped Inv Held m tab)
    (hc : tab c = some (rootPlace c)) (hcow : NoCow c m) (h : uvmcopyAlloc E c p vmas m = some m') :
    ∃ tab', Shaped Inv Held m' tab' ∧ Kept Held R m tab m' tab' ∧ NoCow c m' ∧
      (Clean c m tab → Clean c m' tab') := by
  induction vmas generalizing m tab with
  | nil =>
    cases h
    exact ⟨tab, hs, Kept.refl, hcow, fun hclean => hclean⟩
  | cons v vmas ih =>
    simp only [uvmcopyAlloc] at h
    split_ifs at h
    · cases h
    · obtain ⟨m1, hpages, h⟩ := bind_eq_some_iff.mp h
      obtain ⟨tab1, hs1, hkept1, hcow1, hclean1⟩ := uvmcopyAllocPages_kept hE hR
        (hprot v mem_cons_self) hs hc hcow hpages
      obtain ⟨tab', hs', hkept', hcow', hclean'⟩ := ih
        (fun v' hv' => hprot v' (mem_cons_of_mem _ hv')) hs1 (hkept1.le hc) hcow1 h
      exact ⟨tab', hs', hkept1.trans hkept', hcow', fun hc0 => hclean' (hclean1 hc0)⟩

lemma dupFiles_kept {files : List Bool} (hs : Shaped Inv Held m tab) (h : dupFiles E files m = some m') :
    Shaped Inv Held m' tab ∧ Kept Held R m tab m' tab ∧ m'.pte = m.pte := by
  induction files generalizing m with
  | nil =>
    cases h
    exact ⟨hs, Kept.refl, rfl⟩
  | cons inode files ih =>
    simp only [dupFiles, bind_eq_bind, bind_eq_some_iff, Prod.exists] at h
    obtain ⟨_, m1, hk1, _, m2, hk2, h⟩ := h
    obtain ⟨-, h⟩ := ite_none_right_eq_some.mp h
    obtain ⟨hs1, hkept1, hpte1⟩ := kalloc_kept hE hs (by decide) (by decide) hk1
    obtain ⟨hs2, hkept2, hpte2⟩ := kalloc_kept hE hs1 (by decide) (by decide) hk2
    obtain ⟨hs', hkept', hpte'⟩ := ih hs2 h
    exact ⟨hs', (hkept1.trans hkept2).trans hkept', hpte'.trans (hpte2.trans hpte1)⟩

lemma fdtDup_kept {files : List Bool} (hs : Shaped Inv Held m tab) (h : fdtDup E files m = some m') :
    Shaped Inv Held m' tab ∧ Kept Held R m tab m' tab ∧ m'.pte = m.pte := by
  obtain ⟨⟨_, m1⟩, hk1, h⟩ := bind_eq_some_iff.mp h
  obtain ⟨hs1, hkept1, hpte1⟩ := kalloc_kept hE hs (by decide) (by decide) hk1
  obtain ⟨hs', hkept', hpte'⟩ := dupFiles_kept hE hs1 h
  exact ⟨hs', hkept1.trans hkept', hpte'.trans hpte1⟩

lemma copyVmas_kept {vmas : List VmArea} (hs : Shaped Inv Held m tab)
    (h : copyVmas E vmas m = some m') : Shaped Inv Held m' tab ∧ Kept Held R m tab m' tab := by
  induction vmas generalizing m with
  | nil =>
    cases h
    exact ⟨hs, Kept.refl⟩
  | cons v vmas ih =>
    obtain ⟨⟨_, m1⟩, hk1, h⟩ := bind_eq_some_iff.mp h
    obtain ⟨hs1, hkept1, _⟩ := kalloc_kept hE hs (by decide) (by decide) hk1
    obtain ⟨hs', hkept'⟩ := ih hs1 h
    exact ⟨hs', hkept1.trans hkept'⟩

end

/-! ## The processes of a run -/

/-- A process of a run in the memory `m`. -/
structure Fit (E : Env A) (Held : A → Nat → Nat → Prop) (trampoline first : Nat) (m : Mem A)
    (tab : Nat → Option Place) (p : Process) : Prop where
  trapframe : Held m.alloc p.trapframe 1
  le : p.trapframe + 4096 ≤ 2 ^ 64
  sz : p.sz = 18 * pgSize
  cwd : p.cwd = ['/']
  areas : ∀ v ∈ p.vmaList, v = initArea
  table : p.pagetable ≠ 0 → tab p.pagetable = some (rootPlace p.pagetable) ∧
    p.pagetable ≠ E.kernelPagetable ∧ NoCow p.pagetable m ∧ ∃ f, Held m.alloc f 1 ∧
      mapsFrame f (leaf m p.pagetable (trapframeVa >>> 12)) = true
  enters : EntersUser trampoline m p ↔ p.pid = first

/-- The processes of a run. -/
structure Live (E : Env A) (Inv : A → Prop) (Held : A → Nat → Nat → Prop) (trampoline first : Nat)
    (s : Procs A) (tab : Nat → Option Place) : Prop where
  shaped : Shaped Inv Held s.sys.mem tab
  kernel : tab E.kernelPagetable = some (rootPlace E.kernelPagetable)
  firstLt : first < s.sys.nextPid
  fit : ∀ p ∈ s.procs, Fit E Held trampoline first s.sys.mem tab p

variable {trampoline first : Nat} {p : Process}

/-- A call that keeps the table of a process keeps the process. -/
lemma Fit.kept (h : Fit E Held trampoline first m tab p)
    (hk : Kept Held R m tab m' tab') (hR : p.pagetable ≠ 0 → ¬ R p.pagetable) :
    Fit E Held trampoline first m' tab' p := by
  by_cases hnull : p.pagetable = 0
  · refine ⟨hk.held h.trapframe, h.le, h.sz, h.cwd, h.areas, fun hne => absurd hnull hne, ?_⟩
    rw [← h.enters]
    exact ⟨fun he => absurd hnull he.1, fun he => absurd hnull he.1⟩
  · obtain ⟨hroot, hkernel, hcow, f, hf, hmaps⟩ := h.table hnull
    have hleaf := hk.leaf hroot (hR hnull)
    refine ⟨hk.held h.trapframe, h.le, h.sz, h.cwd, h.areas, fun _ => ⟨hk.le hroot, hkernel, ?_, f,
      hk.held hf, ?_⟩, ?_⟩
    · intro vpn
      rw [hleaf vpn]
      exact hcow vpn
    · rw [hleaf]
      exact hmaps
    · rw [← h.enters]
      unfold EntersUser
      rw [hleaf, hleaf]

/-- The open files do not matter. -/
lemma Fit.files (h : Fit E Held trampoline first m tab p) (files : List Bool) :
    Fit E Held trampoline first m tab { p with files := files } := { h with }

lemma trapframeVa_page : 4096 ∣ trapframeVa ∧ trapframeVa + 8192 ≤ 2 ^ 64 := by decide

lemma trampolineVa_page : 4096 ∣ trampolineVa ∧ trampolineVa + 8192 ≤ 2 ^ 64 := by decide

lemma initArea_prot : has initArea.prot pteCow = false := by decide

lemma leaf_of_pte (h : m'.pte = m.pte) (r vpn : Nat) : leaf m' r vpn = leaf m r vpn := by
  unfold leaf
  rw [h]

/-- Neither of the two mappings takes the place of the other. -/
lemma trapframe_ne_trampoline :
    (trapframeVa >>> 12) % 2 ^ 27 ≠ (trampolineVa >>> 12) % 2 ^ 27 := by decide

lemma NoCow.of_pte (h : NoCow r m) (hpte : m'.pte = m.pte) : NoCow r m' := by
  intro vpn
  rw [leaf_of_pte hpte]
  exact h vpn

/-- The new child beside the processes that were there before. -/
lemma Live.add (h : Live E Inv Held trampoline first s tab) (hs : Shaped Inv Held sys'.mem tab')
    (hnext : s.sys.nextPid ≤ sys'.nextPid) (hk : Kept Held R s.sys.mem tab sys'.mem tab')
    (hR : ∀ r, R r → r = E.kernelPagetable ∨ tab r = none)
    (hchild : Fit E Held trampoline first sys'.mem tab' child) :
    Live E Inv Held trampoline first ⟨sys', child :: s.procs⟩ tab' := by
  refine ⟨hs, hk.le h.kernel, lt_of_lt_of_le h.firstLt hnext, fun p hp => ?_⟩
  rcases mem_cons.mp hp with rfl | hp
  · exact hchild
  · have hfit := h.fit p hp
    refine hfit.kept hk fun hnull hr => ?_
    obtain ⟨hroot, hne, _⟩ := hfit.table hnull
    rcases hR _ hr with heq | hnone
    · exact hne heq
    · rw [hnone] at hroot
      cases hroot

/-- A process whose table maps another allocated page at `TRAPFRAME` does not enter user mode. -/
lemma not_entersUser {m0 : Mem A}
    (hfresh : Fresh Held child.trapframe m0 m') (hf : Held m0.alloc f 1)
    (hmaps : mapsFrame f (leaf m' child.pagetable (trapframeVa >>> 12)) = true) :
    ¬ EntersUser trampoline m' child := by
  rintro ⟨_, _, hown⟩
  rw [frameOf_of_dvd hfresh.dvd] at hown
  rw [mapsFrame, Bool.and_eq_true, decide_eq_true_iff] at hown hmaps
  exact hfresh.ne hf (hmaps.2.symm.trans hown.2)

/-- What `fork` does: the child gets a table of its own, which maps the trapframe of the parent. -/
lemma sysFork_spec (hE : E.Ok lo hi Inv Held) {sys : Sys A} {parent : Process}
    (hs : Shaped Inv Held sys.mem tab)
    (hk : tab E.kernelPagetable = some (rootPlace E.kernelPagetable))
    (hprot : ∀ v ∈ parent.vmaList, has v.prot pteCow = false)
    (htf : parent.trapframe + 4096 ≤ 2 ^ 64) (hcwd : parent.cwd.length < 1024)
    (hf : sysFork E trampoline parent sys = some (child, sys')) :
    child.pid = sys.nextPid ∧ sys'.nextPid = sys.nextPid + 1 ∧ child.vmaList = [] ∧
      child.sz = parent.sz ∧ child.cwd = parent.cwd ∧
      Fresh Held child.trapframe sys.mem sys'.mem ∧ tab child.pagetable = none ∧
      ∃ tab', Shaped Inv Held sys'.mem tab' ∧
        Kept Held (fun r => r = E.kernelPagetable ∨ r = child.pagetable) sys.mem tab sys'.mem tab' ∧
        tab' child.pagetable = some (rootPlace child.pagetable) ∧
        Clean child.pagetable sys'.mem tab' ∧ NoCow child.pagetable sys'.mem ∧
        (trampoline + 4096 ≤ 2 ^ 64 → leaf sys'.mem child.pagetable (trapframeVa >>> 12) =
          pa2pte parent.trapframe ||| (pteU ||| pteRw) ||| pteV) := by
  simp only [sysFork, bind_eq_bind, bind_eq_some_iff, Prod.exists, some.injEq,
    Prod.mk.injEq] at hf
  obtain ⟨c, s1, hproc, t, m2, htable, m3, hareas, m4, hmap4, m5, hmap5, _, m6, hk6, m7, hk7, m8,
    hfdt, rfl, rfl⟩ := hf
  obtain ⟨hpos, _, hk7⟩ := strdup_eq_some hk7
  -- the roots that the call writes to: the kernel's and the new one
  let R : Nat → Prop := fun r => r = E.kernelPagetable ∨ r = t
  obtain ⟨hpid, hnext, _, hvma, _, hfresh, tab1, hs1, hkept1⟩ :=
    allocProc_kept hE (R := R) hs hk (.inl rfl) hproc
  obtain ⟨tab2, hs2, hnone, hroot2, hkept2, hzero⟩ := allocPagetable_kept hE (R := R) hs1 htable
  have hclean2 := allocPagetable_clean htable hs2.tables hroot2
  have hcow2 : NoCow t m2 := by
    intro vpn
    rw [hzero]
    rfl
  obtain ⟨tab3, hs3, hkept3, hcow3, hclean3⟩ :=
    uvmcopyAlloc_kept hE (R := R) (.inr rfl) hprot hs2 hroot2 hcow2 hareas
  have hroot3 := hkept3.le hroot2
  obtain ⟨tab4, hs4, hp4⟩ := mappages_page hE hs3 hroot3 trapframeVa_page.1 trapframeVa_page.2 htf
    hmap4
  have hroot4 := hp4.le hroot3
  obtain ⟨tab5, hs5, hkept5, hent5, hclean5⟩ :=
    mappages_kept hE (R := R) hs4 hroot4 (.inr rfl) hmap5
  have hcow5 : NoCow t m5 := (hcow3.entries (hp4.entries hroot3) (by decide)).entries hent5 (by decide)
  obtain ⟨hs6, hkept6, hpte6⟩ := kalloc_kept hE (R := R) hs5 (by decide) (by decide) hk6
  have hbytes := kept_bytes (R := R) hs6 (copyTrapframe c.trapframe parent.trapframe m6).byte
  obtain ⟨hs7, hkept7, hpte7⟩ := kalloc_kept hE (R := R) hbytes.1 hpos (by omega) hk7
  obtain ⟨hs8, hkept8, hpte8⟩ := fdtDup_kept hE (R := R) hs7 hfdt
  have hpte : m8.pte = m5.pte := hpte8.trans (hpte7.trans hpte6)
  have hafter : Kept Held R s1.mem tab1 m8 tab5 :=
    ((((((hkept2.trans hkept3).trans (TablesOnly.kept hp4.tablesOnly (.inr rfl))).trans
      hkept5).trans hkept6).trans hbytes.2).trans hkept7).trans hkept8
  refine ⟨hpid, hnext, hvma, rfl, rfl, hfresh.kept hafter, hkept1.none hnone, tab5, hs8,
    hkept1.trans hafter, hkept5.le hroot4,
    clean_of_pte hpte (hclean5 (hp4.tablesOnly.clean (hclean3 hclean2))), hcow5.of_pte hpte,
    fun htramp => ?_⟩
  have hcount := mapCount_page trampolineVa_page.1 trampolineVa_page.2
  rw [leaf_of_pte hpte, mappages_leaf_outside hE hs4 hroot4 (by rw [hcount]; decide)
    (by rw [hcount]; decide) (by rw [hcount]; omega) ?_ hmap5, hp4.leaf hroot3, if_pos ⟨rfl, rfl⟩]
  intro i hi
  rw [hcount, Nat.lt_one_iff] at hi
  rw [hi]
  exact trapframe_ne_trampoline

/-- The child of `fork` is not able to enter user mode. -/
lemma sysFork_live (hE : E.Ok lo hi Inv Held) (h : Live E Inv Held trampoline first s tab)
    {parent : Process} (hfit : Fit E Held trampoline first s.sys.mem tab parent)
    (htramp : trampoline + 4096 ≤ 2 ^ 64)
    (hf : sysFork E trampoline parent s.sys = some (child, sys')) :
    ∃ tab', Live E Inv Held trampoline first ⟨sys', child :: s.procs⟩ tab' := by
  have hprot : ∀ v ∈ parent.vmaList, has v.prot pteCow = false := by
    intro v hv
    rw [hfit.areas v hv]
    exact initArea_prot
  have hcwd : parent.cwd.length < 1024 := by
    rw [hfit.cwd]
    decide
  obtain ⟨hpid, hnext, hvma, hsz, hcwd', hfresh, hnone, tab', hs', hkept, hroot, _, hcow, hleaf⟩ :=
    sysFork_spec hE h.shaped h.kernel hprot hfit.le hcwd hf
  have hdvd := (hE.lawful.range h.shaped.alloc hfit.trapframe).1
  have hparentLe := hfit.le
  have hmaps : mapsFrame parent.trapframe (leaf sys'.mem child.pagetable (trapframeVa >>> 12)) = true := by
    rw [hleaf htramp, mapsFrame_entry (by omega) (by decide), frameOf_of_dvd hdvd, decide_eq_true_iff]
  refine ⟨tab', h.add hs' (by omega) hkept ?_ ?_⟩
  · rintro r (rfl | rfl)
    · exact .inl rfl
    · exact .inr hnone
  · refine ⟨hfresh.held, hfresh.le, hsz.trans hfit.sz, hcwd'.trans hfit.cwd, ?_,
      fun _ => ⟨hroot, ?_, hcow, parent.trapframe, hkept.held hfit.trapframe, hmaps⟩, ?_⟩
    · intro v hv
      rw [hvma] at hv
      cases hv
    · intro hkernel
      have hkroot := h.kernel
      rw [← hkernel, hnone] at hkroot
      cases hkroot
    · have hne : child.pid ≠ first := by
        have := h.firstLt
        omega
      refine ⟨fun he => absurd he ?_, fun he => absurd he hne⟩
      exact not_entersUser hfresh hfit.trapframe hmaps

/-- The child of `clone` shares the table of the caller or has none. -/
lemma cloneSpace_kept (hE : E.Ok lo hi Inv Held) {child' : Process}
    (hs : Shaped Inv Held m tab) (hsz : proc.sz ≤ 2 ^ 39) (hR : ∀ r, tab r = none → R r)
    (h : cloneSpace E flags proc child m = some (child', m')) :
    (child' = { child with pagetable := proc.pagetable, vmaList := proc.vmaList.reverse } ∨
      child' = child) ∧
      ∃ tab', Shaped Inv Held m' tab' ∧ Kept Held R m tab m' tab' := by
  unfold cloneSpace at h
  split_ifs at h
  · obtain ⟨m1, hcopy, h⟩ := bind_eq_some_iff.mp h
    cases h
    exact ⟨.inl rfl, tab, copyVmas_kept hE hs hcopy⟩
  · obtain ⟨⟨t, m1⟩, htable, h⟩ := bind_eq_some_iff.mp h
    obtain ⟨m2, hcopy, h⟩ := bind_eq_some_iff.mp h
    cases h
    obtain ⟨tab1, hs1, hnone, hroot1, hkept1, _⟩ := allocPagetable_kept hE (R := R) hs htable
    have hcount : copyCount proc.sz ≤ 2 ^ 27 := by
      unfold copyCount pgSize
      omega
    rw [uvmcopy_eq (by omega)] at hcopy
    obtain ⟨tab2, hs2, hpages⟩ := uvmcopyLoop_spec hE _ (by omega) hs1 hroot1 hcopy
    exact ⟨.inr rfl, tab2, hs2,
      hkept1.trans (TablesOnly.kept hpages.tablesOnly (hR t hnone))⟩

lemma cloneSettid_kept {set : Bool} {tid pid : Nat} (htid : tid < 2 ^ 64)
    (hs : Shaped Inv Held m tab) (hcow : NoCow proc.pagetable m)
    (h : cloneSettid E set proc tid pid m = some m') :
    Shaped Inv Held m' tab ∧ Kept Held R m tab m' tab := by
  unfold cloneSettid at h
  split_ifs at h
  · obtain ⟨⟨res, m1⟩, hcopy, h⟩ := bind_eq_some_iff.mp h
    cases h
    have hsame := copyoutLoop_same htid (fun _ _ => hcow _) hcopy
    rw [hsame]
    exact kept_bytes hs _
  · cases h
    exact ⟨hs, Kept.refl⟩

lemma NoCow.kept (h : NoCow r m) (hk : Kept Held R m tab m' tab')
    (hr : tab r = some (rootPlace r)) (hR : ¬ R r) : NoCow r m' := by
  intro vpn
  rw [hk.leaf hr hR]
  exact h vpn

/-- The child of `clone` has the table of its parent, which maps another trapframe, or none. -/
lemma sysClone_live (hE : E.Ok lo hi Inv Held)
    (h : Live E Inv Held trampoline first s tab) {args : CloneArgs}
    (hfit : Fit E Held trampoline first s.sys.mem tab proc) (hnull : proc.pagetable ≠ 0) (hptid : args.ptid < 2 ^ 64)
    (hctid : args.ctid < 2 ^ 64) (hc : sysClone E args proc s.sys = some (child, sys')) :
    ∃ tab', Live E Inv Held trampoline first ⟨sys', child :: s.procs⟩ tab' := by
  simp only [sysClone, bind_eq_bind, bind_eq_some_iff, Prod.exists, some.injEq,
    Prod.mk.injEq] at hc
  obtain ⟨c, s1, hproc, c', m2, hspace, m3, hcwd3, m4, hfiles4, m5, hset5, m6, hset6, rfl, rfl⟩ := hc
  obtain ⟨hroot, hkernel, hcow, f, hf, hmaps⟩ := hfit.table hnull
  -- the roots that the call writes to: the kernel's and those that are new
  let R : Nat → Prop := fun r => r = E.kernelPagetable ∨ tab r = none
  have hnotR : ¬ R proc.pagetable := by
    rintro (heq | hnone)
    · exact hkernel heq
    · rw [hnone] at hroot
      cases hroot
  obtain ⟨hpid, hnext, hnull1, hvma, hcwd, hfresh, tab1, hs1, hkept1⟩ :=
    allocProc_kept hE (R := R) h.shaped h.kernel (.inl rfl) hproc
  have hRnone : ∀ r, tab1 r = none → R r := fun r hr => .inr (hkept1.none hr)
  obtain ⟨hchild, tab2, hs2, hkept2⟩ := cloneSpace_kept hE hs1 (by rw [hfit.sz]; decide) hRnone hspace
  have hbytes := kept_bytes (R := R) hs2 (writeBytes (c'.trapframe + trapframeTp) (leBytes 8 args.tls)
    (copyTrapframe c'.trapframe proc.trapframe m2)).byte
  have hcwd3' : Shaped Inv Held m3 tab2 ∧ Kept Held R m2 tab2 m3 tab2 := by
    rw [hfit.cwd] at hcwd3
    split_ifs at hcwd3
    · cases hcwd3
      exact ⟨hbytes.1, hbytes.2⟩
    · obtain ⟨_, _, hk⟩ := strdup_eq_some hcwd3
      obtain ⟨hs3, hkept3, _⟩ := kalloc_kept hE (R := R) hbytes.1 (by decide) (by decide) hk
      exact ⟨hs3, hbytes.2.trans hkept3⟩
  obtain ⟨hs3, hkept3⟩ := hcwd3'
  have hfiles4' : Shaped Inv Held m4 tab2 ∧ Kept Held R m3 tab2 m4 tab2 := by
    split_ifs at hfiles4
    · cases hfiles4
      exact ⟨hs3, Kept.refl⟩
    · obtain ⟨hs4, hkept4, _⟩ := fdtDup_kept hE (R := R) hs3 hfiles4
      exact ⟨hs4, hkept4⟩
  obtain ⟨hs4, hkept4⟩ := hfiles4'
  have hroot2 := hkept2.le (hkept1.le hroot)
  have hcow4 := hcow.kept (((hkept1.trans hkept2).trans hkept3).trans hkept4) hroot hnotR
  obtain ⟨hs5, hkept5⟩ := cloneSettid_kept (R := R) hptid hs4 hcow4 hset5
  have hcow5 := hcow4.kept hkept5 hroot2 hnotR
  obtain ⟨hs6, hkept6⟩ := cloneSettid_kept (R := R) hctid hs5 hcow5 hset6
  have hcow6 := hcow5.kept hkept6 hroot2 hnotR
  have hafter : Kept Held R s1.mem tab1 m6 tab2 :=
    (((hkept2.trans hkept3).trans hkept4).trans hkept5).trans hkept6
  have hkept := hkept1.trans hafter
  have hmaps6 : mapsFrame f (leaf m6 proc.pagetable (trapframeVa >>> 12)) = true := by
    rw [hkept.leaf hroot hnotR]
    exact hmaps
  have hfresh6 := hfresh.kept hafter
  have hne : c.pid ≠ first := by
    have := h.firstLt
    omega
  refine ⟨tab2, h.add hs6 (by show s.sys.nextPid ≤ s1.nextPid; omega) hkept (fun r hr => hr) ?_⟩
  rcases hchild with rfl | rfl
  · refine ⟨hfresh6.held, hfresh6.le, hfit.sz, hfit.cwd, ?_, fun _ => ⟨hroot2, hkernel, hcow6, f,
      hkept.held hf, hmaps6⟩, fun he => absurd he ?_, fun he => absurd he hne⟩
    · intro v hv
      exact hfit.areas v (mem_reverse.mp hv)
    · exact not_entersUser hfresh6 hf hmaps6
  · refine ⟨hfresh6.held, hfresh6.le, hfit.sz, hfit.cwd, ?_, fun hcon => absurd hnull1 hcon,
      fun he => absurd hnull1 he.1, fun he => absurd he hne⟩
    intro v hv
    simp only [hvma] at hv
    cases hv

/-! ## The first process -/

/-- The code of the first process takes at most sixteen pages. -/
lemma mapCount_code {len : Nat} (hpos : 0 < len) (hlen : len ≤ 16 * pgSize) :
    mapCount 0 len ≤ 16 := by
  have hpage : 16 * pgSize = 65536 := by decide
  have hdown : pgRoundDown 0 = 0 := by decide
  have hlast : wrap64 (0 + len + (2 ^ 64 - 1)) = len - 1 := by
    unfold wrap64
    omega
  have hup : pgRoundUp (len - 1) ≤ 65536 := by
    rw [pgRoundUp_eq (by omega)]
    omega
  have hdiff : wrap64 (pgRoundUp (len - 1) + (2 ^ 64 - 0)) >>> pgShift ≤ 16 := by
    have hw : wrap64 (pgRoundUp (len - 1) + (2 ^ 64 - 0)) = pgRoundUp (len - 1) := by
      unfold wrap64
      omega
    rw [hw, pgShift, Nat.shiftRight_eq_div_pow]
    omega
  simp only [mapCount, hdown, hlast]
  rw [toInt32_toNat_of_lt (by omega)]
  exact hdiff

/-- The table of the first process: what `uvmmake` maps is not mapped over. -/
lemma uvminit_spec (hE : E.Ok lo hi Inv Held) (hs : Shaped Inv Held m tab) {trapframe : Nat}
    (hcode : initCode ≠ []) (htf : trapframe + 4096 ≤ 2 ^ 64) (htramp : trampoline + 4096 ≤ 2 ^ 64)
    (hR : ∀ r, tab r = none → R r) (h : uvminit E trampoline trapframe initCode m = some (r, m')) :
    tab r = none ∧ ∃ tab', Shaped Inv Held m' tab' ∧ Kept Held R m tab m' tab' ∧
      tab' r = some (rootPlace r) ∧ NoCow r m' ∧
      leaf m' r (trampolineVa >>> 12) = pa2pte trampoline ||| (pteR ||| pteX) ||| pteV ∧
      leaf m' r (trapframeVa >>> 12) = pa2pte trapframe ||| (pteR ||| pteW) ||| pteV := by
  unfold uvminit at h
  split_ifs at h with hlen
  simp only [bind_eq_bind, bind_eq_some_iff, Prod.exists, some.injEq,
    Prod.mk.injEq] at h
  obtain ⟨code, m1, hk1, t, m2, hmake, m3, hmap3, m4, hmap4, stack, m5, hk5, m6, hmap6, rfl, rfl⟩ := h
  have hpos : 0 < initCode.length := length_pos_iff.mpr hcode
  have hpage : 16 * pgSize = 65536 := by decide
  have hcount := mapCount_code hpos (Nat.le_of_not_lt hlen)
  have htop := hE.hi_lt
  obtain ⟨hs1, hkept1, _⟩ := kalloc_kept hE (R := R) hs hpos (by omega) hk1
  have hcodeLe := kalloc_range hE hs hpos (by omega) hk1
  have hbytes := kept_bytes (R := R) hs1 (writeBytes code initCode m1).byte
  obtain ⟨ma, mb, hta, hmapa, hmapb⟩ := uvmmake_cases hmake
  obtain ⟨taba, hsa, hnone, hroota, hkepta, hzero⟩ := allocPagetable_kept hE (R := R) hbytes.1 hta
  have hRt := hR t hnone
  have hcowa : NoCow t ma := by
    intro vpn
    rw [hzero]
    rfl
  obtain ⟨tabb, hsb, hpb⟩ := mappages_page hE hsa hroota trampolineVa_page.1 trampolineVa_page.2
    htramp hmapa
  have hrootb := hpb.le hroota
  obtain ⟨tab2, hs2, hp2⟩ := mappages_page hE hsb hrootb trapframeVa_page.1 trapframeVa_page.2 htf hmapb
  have hroot2 := hp2.le hrootb
  have hcow2 : NoCow t m2 := (hcowa.entries (hpb.entries hroota) (by decide)).entries
    (hp2.entries hrootb) (by decide)
  obtain ⟨tab3, hs3, hkept3, hent3, _⟩ := mappages_kept hE (R := R) hs2 hroot2 hRt hmap3
  have hroot3 := hkept3.le hroot2
  obtain ⟨tab4, hs4, hkept4, hent4, _⟩ := mappages_kept hE (R := R) hs3 hroot3 hRt hmap4
  have hroot4 := hkept4.le hroot3
  obtain ⟨hs5, hkept5, hpte5⟩ := kalloc_kept hE (R := R) hs4 (by decide) (by decide) hk5
  have hstackLe := kalloc_range hE hs4 (by decide) (by decide) hk5
  obtain ⟨tab6, hs6, hkept6, hent6, _⟩ := mappages_kept hE (R := R) hs5 hroot4 hRt hmap6
  have hcow : NoCow t m6 := (((hcow2.entries hent3 (by decide)).entries hent4 (by decide)).of_pte
    hpte5).entries hent6 (by decide)
  -- the pages of the code and of the stack lie below the two pages that `uvmmake` maps
  have hhigh : ∀ vpn, 2 ^ 20 ≤ vpn → vpn < 2 ^ 27 → leaf m6 t vpn = leaf m2 t vpn := by
    intro vpn hlow hlt
    have hvpn : vpn % 2 ^ 27 = vpn := Nat.mod_eq_of_lt hlt
    have hguard : mapCount (16 * pgSize) pgSize = 1 := by decide
    have hstack : mapCount (17 * pgSize) pgSize = 1 := by decide
    have h16 : (16 * pgSize) >>> 12 = 16 := by decide
    have h17 : (17 * pgSize) >>> 12 = 17 := by decide
    rw [mappages_leaf_outside hE hs5 hroot4 (by rw [hstack]; decide) (by rw [hstack]; decide)
      (by rw [hstack]; omega) (by rw [hstack, h17, hvpn]; omega) hmap6, leaf_of_pte hpte5,
      mappages_leaf_outside hE hs3 hroot3 (by rw [hguard]; decide) (by rw [hguard]; decide)
      (by rw [hguard]; decide) (by rw [hguard, h16, hvpn]; omega) hmap4,
      mappages_leaf_outside hE hs2 hroot2 (by omega) (by omega) (by omega)
      (by rw [hvpn, Nat.zero_shiftRight]; omega) hmap3]
  have hkept : Kept Held R m tab m6 tab6 :=
    (((((((hkept1.trans hbytes.2).trans hkepta).trans (TablesOnly.kept hpb.tablesOnly hRt)).trans
      (TablesOnly.kept hp2.tablesOnly hRt)).trans hkept3).trans hkept4).trans hkept5).trans hkept6
  refine ⟨hnone, tab6, hs6, hkept, hkept6.le hroot4, hcow, ?_, ?_⟩
  · rw [hhigh _ (by decide) (by decide), hp2.leaf hrootb,
      if_neg fun hand => trapframe_ne_trampoline hand.2.symm, hpb.leaf hroota, if_pos ⟨rfl, rfl⟩]
  · rw [hhigh _ (by decide) (by decide), hp2.leaf hrootb, if_pos ⟨rfl, rfl⟩]

lemma procInit_live (hE : E.Ok lo hi Inv Held) {s : Sys A} (hs : Shaped Inv Held s.mem tab)
    (hk : tab E.kernelPagetable = some (rootPlace E.kernelPagetable)) (hcode : initCode ≠ [])
    (htramp : trampoline + 4096 ≤ 2 ^ 64) (h : procInit E trampoline initCode s = some (p, s')) :
    ∃ tab', Live E Inv Held trampoline p.pid ⟨s', [p]⟩ tab' := by
  simp only [procInit, bind_eq_bind, bind_eq_some_iff, Prod.exists, some.injEq,
    Prod.mk.injEq] at h
  obtain ⟨c, s1, hproc, t, m2, hinit, _, m3, hk3, _, m4, hk4, rfl, rfl⟩ := h
  let R : Nat → Prop := fun r => r = E.kernelPagetable ∨ tab r = none
  obtain ⟨hpid, hnext, _, _, hcwd, hfresh, tab1, hs1, hkept1⟩ :=
    allocProc_kept hE (R := R) hs hk (.inl rfl) hproc
  have hRnone : ∀ r, tab1 r = none → R r := fun r hr => .inr (hkept1.none hr)
  obtain ⟨hnone, tab2, hs2, hkept2, hroot2, hcow2, hleafTr, hleafTf⟩ :=
    uvminit_spec hE hs1 hcode hfresh.le htramp hRnone hinit
  obtain ⟨hs3, hkept3, hpte3⟩ := kalloc_kept hE (R := R) hs2 (by decide) (by decide) hk3
  obtain ⟨hs4, hkept4, hpte4⟩ := kalloc_kept hE (R := R) hs3 (by decide) (by decide) hk4
  have hpte := hpte4.trans hpte3
  have hafter : Kept Held R s1.mem tab1 m4 tab2 := (hkept2.trans hkept3).trans hkept4
  have hfresh' := hfresh.kept hafter
  have hle := hfresh.le
  have hmaps : mapsFrame (frameOf c.trapframe) (leaf m4 t (trapframeVa >>> 12)) = true := by
    rw [leaf_of_pte hpte, hleafTf, mapsFrame_entry (by omega) (by decide), decide_eq_true_iff]
  have hrange := hs2.tables.range hroot2
  have hnull : t ≠ 0 := by omega
  refine ⟨tab2, hs4, hafter.le (hkept1.le hk), ?_, fun p hp => ?_⟩
  · show c.pid < s1.nextPid
    omega
  · rw [mem_singleton.mp hp]
    refine ⟨hfresh'.held, hle, rfl, hcwd, fun v hv => mem_singleton.mp hv, fun _ => ⟨hroot2, ?_,
      hcow2.of_pte hpte, c.trapframe, hfresh'.held, ?_⟩, fun _ => rfl, fun _ => ⟨hnull, ?_, hmaps⟩⟩
    · intro hkernel
      have hkroot := hkept1.le hk
      rw [← hkernel, hnone] at hkroot
      cases hkroot
    · rw [frameOf_of_dvd hfresh.dvd] at hmaps
      exact hmaps
    · rw [leaf_of_pte hpte, hleafTr, mapsFrame_entry (by omega) (by decide), decide_eq_true_iff]

/-- In every run from `proc_init` exactly the process that it made can enter user mode. -/
theorem enters_user_iff (hE : E.Ok lo hi Inv Held) {s s' : Sys A} (hs : Shaped Inv Held s.mem tab)
    (hk : tab E.kernelPagetable = some (rootPlace E.kernelPagetable)) {initCode : List Nat}
    (hcode : initCode ≠ []) (htramp : trampoline + 4096 ≤ 2 ^ 64) {init : Process}
    (hinit : procInit E trampoline initCode s = some (init, s'))
    {ts : List (Transition (Procs A) Create)} {s₁ : Procs A}
    (hr : Run (createStep E trampoline) ⟨s', [init]⟩ ts s₁) :
    ∀ p ∈ s₁.procs, EntersUser trampoline s₁.sys.mem p ↔ p.pid = init.pid := by
  have hstep : ∀ s c s', (∃ tab, Live E Inv Held trampoline init.pid s tab) →
      createStep E trampoline s c s' → ∃ tab, Live E Inv Held trampoline init.pid s' tab := by
    rintro s c s' ⟨tab, h⟩ hstep
    cases c with
    | fork parent files =>
      obtain ⟨hp, _, child, sys', hf, rfl⟩ := hstep
      exact sysFork_live hE h ((h.fit parent hp).files files) htramp hf
    | clone proc files args =>
      obtain ⟨hp, hnull, hptid, hctid, child, sys', hc, rfl⟩ := hstep
      exact sysClone_live hE h ((h.fit proc hp).files files) hnull hptid hctid hc
  obtain ⟨tab1, h1⟩ := hr.invariant (procInit_live hE hs hk hcode htramp hinit) hstep
  exact fun p hp => (h1.fit p hp).enters

end

/-! ## A small kernel with two processes -/

/-- A kernel with its own table and 127 pages for the allocator. -/
def bootKernel : Option (Env Buddy.Pool × Sys Buddy.Pool) := do
  let (E, m) ← bootCleared 0x80380000
  let (kpgtbl, m) ← allocPagetable E m
  some ({ E with kernelPagetable := kpgtbl }, ⟨m, 1⟩)

lemma bootKernel_ok {E : Env Buddy.Pool} {s : Sys Buddy.Pool} (h : bootKernel = some (E, s)) :
    E.Ok (bootLo 0x80300000 0x80380000) (pgRoundDown 0x80380000)
        (bootInv 0x80250000 0x80300000 0x80380000) Buddy.held ∧
      ∃ tab, Shaped (bootInv 0x80250000 0x80300000 0x80380000) Buddy.held s.mem tab ∧
        tab E.kernelPagetable = some (rootPlace E.kernelPagetable) := by
  unfold bootKernel at h
  obtain ⟨⟨E0, m0⟩, hinit, h⟩ := bind_eq_some_iff.mp h
  obtain ⟨⟨kpgtbl, m1⟩, hk, h⟩ := bind_eq_some_iff.mp h
  cases h
  obtain ⟨hE0, hs0⟩ := bootCleared_ok hinit (by decide) (by decide)
  obtain ⟨tab, hs, _, hroot, _⟩ := allocPagetable_spec hE0 hs0 hk
  exact ⟨⟨hE0.lawful, hE0.lo_pos, hE0.hi_le, hE0.pages_le, hE0.pages_dvd⟩, tab, hs, hroot⟩

/-- The first process and its child by `clone` with `CLONE_FILES`. -/
lemma bootKernel_child :
    ∃ E s init s1 child s2, bootKernel = some (E, s) ∧
      procInit E 0x80200000 [0x13, 0] s = some (init, s1) ∧ init.pid = 1 ∧ init.pagetable ≠ 0 ∧
      sysClone E ⟨cloneFiles, 0, 0, 0⟩ init s1 = some (child, s2) ∧ child.pid = 2 ∧ child.pagetable = 0 := by
  have hrun : (bootKernel.bind fun x => (procInit x.1 0x80200000 [0x13, 0] x.2).bind fun y =>
      (sysClone x.1 ⟨cloneFiles, 0, 0, 0⟩ y.1 y.2).map fun z =>
        (y.1.pid, decide (y.1.pagetable = 0), z.1.pid, z.1.pagetable)) = some (1, false, 2, 0) := by
    decide +kernel
  obtain ⟨⟨E, s⟩, hboot, hrun⟩ := bind_eq_some_iff.mp hrun
  obtain ⟨⟨init, s1⟩, hinit, hrun⟩ := bind_eq_some_iff.mp hrun
  obtain ⟨⟨child, s2⟩, hclone, hres⟩ := map_eq_some_iff.mp hrun
  simp only [Prod.mk.injEq, decide_eq_false_iff_not] at hres
  obtain ⟨hpid, hnull, hcpid, hcnull⟩ := hres
  exact ⟨E, s, init, s1, child, s2, hboot, hinit, hpid, hnull, hclone, hcpid, hcnull⟩

/-- The first process can enter user mode, and its child by `clone` cannot. -/
theorem enters_user_first :
    ∃ E s init s₁ child s₂, bootKernel = some (E, s) ∧
      procInit E 0x80200000 [0x13, 0] s = some (init, s₁) ∧
      sysClone E ⟨cloneFiles, 0, 0, 0⟩ init s₁ = some (child, s₂) ∧ EntersUser 0x80200000 s₂.mem init ∧
      ¬ EntersUser 0x80200000 s₂.mem child := by
  obtain ⟨E, s, init, s₁, child, s₂, hboot, hinit, hpid, hnull, hclone, hcpid, _⟩ := bootKernel_child
  obtain ⟨hE, tab, hs, hk⟩ := bootKernel_ok hboot
  have hstep : createStep E 0x80200000 ⟨s₁, [init]⟩ (.clone init init.files ⟨cloneFiles, 0, 0, 0⟩)
      ⟨s₂, [child, init]⟩ :=
    ⟨mem_cons_self, hnull, by decide, by decide, child, s₂, hclone, rfl⟩
  have hiff := enters_user_iff hE hs hk (cons_ne_nil _ _) (by decide) hinit (Run.nil.snoc hstep)
  refine ⟨E, s, init, s₁, child, s₂, hboot, hinit, hclone, ?_, fun hcon => ?_⟩
  · exact (hiff init (mem_cons_of_mem _ mem_cons_self)).mpr rfl
  · have hsame := (hiff child mem_cons_self).mp hcon
    omega

/-- Without `CLONE_VM` the child of `clone` has no table. -/
theorem enters_user_not_child :
    ∃ E s init s₁ child s₂, bootKernel = some (E, s) ∧
      procInit E 0x80200000 [0x13, 0] s = some (init, s₁) ∧
      sysClone E ⟨cloneFiles, 0, 0, 0⟩ init s₁ = some (child, s₂) ∧ child.pagetable = 0 ∧
      ¬ EntersUser 0x80200000 s₂.mem child := by
  obtain ⟨E, s, init, s₁, child, s₂, hboot, hinit, _, _, hclone, _, hnull⟩ := bootKernel_child
  refine ⟨E, s, init, s₁, child, s₂, hboot, hinit, hclone, hnull, ?_⟩
  rintro ⟨hcon, _⟩
  exact hcon hnull

end Hana.Proc
