import Hana.Mm.Vm.Boot
import Hana.Mm.Vm.Map

/-!
# fork

`alloc_proc` of `proc.c` and the system call `fork` of `sys_proc.c`. A process is a record
of the fields that the call reads and writes. Of the kernel objects that are allocated on
the way only the trapframe is part of the memory contents, because user tables map it; the
others are typed values here, and their allocation is what is left of them.

`ForkCopies` says what `fork` is for: the child reads what the parent reads, the two share
no frame that one of them can store to, and the child knows its areas. The child's list of
areas stays empty and its table maps the parent's trapframe, so this holds only for a
parent that has no area and does not map its own trapframe.
-/

namespace Hana.Proc

open Vm Option

variable {A : Type}

def trampolineVa : Nat := maxVa - 2 * pgSize

def trapframeVa : Nat := trampolineVa - pgSize

def kstackSize : Nat := 4 * pgSize

/-- `KSTACK`; the product is an `int`. -/
def kstack (n : Nat) : Nat :=
  (((trapframeVa : Int) - toInt32 ((kstackSize + pgSize) * n)) % (2 ^ 64 : Int)).toNat

/-! ## Sizes of the kernel objects -/

def sizeofProc : Nat := 344

def sizeofTrapframe : Nat := 288

def sizeofFilesStruct : Nat := 8248

def sizeofFile : Nat := 1120

def sizeofInode : Nat := 112

def sizeofUpagetable : Nat := 16

/-- The offset of `a0` in a trapframe. -/
def trapframeA0 : Nat := 112

structure Process where
  pid : Nat
  pagetable : Nat
  trapframe : Nat
  vmaList : List VmArea
  sz : Nat
  heapStart : Nat
  cwd : List Char
  /-- For each open descriptor, whether its file has an inode. -/
  files : List Bool

/-- The memory and the counter `next_pid`. -/
structure Sys (A : Type) where
  mem : Mem A
  nextPid : Nat

/-! ## Allocating a process -/

def mapStack (E : Env A) (pgtbl stackVa : Nat) (m : Mem A) : Option (Mem A) := do
  let (stack, m) ← kalloc E kstackSize m
  mappages E pgtbl stackVa stack kstackSize (pteR ||| pteW) m

/-- `strdup`, which does not ask for room for the terminator. `kalloc` stops if it is asked for
nothing. -/
def strdup (E : Env A) (str : List Char) (m : Mem A) : Option (Mem A) :=
  if str = [] then none else (kalloc E str.length m).map Prod.snd

/-- The files of a new process are the standard streams, which have no inode. -/
def allocProc (E : Env A) (s : Sys A) : Option (Process × Sys A) := do
  let (_, m) ← kalloc E sizeofProc s.mem
  let pid := s.nextPid
  let m ← mapStack E E.kernelPagetable (kstack pid) m
  let (trapframe, m) ← kalloc E sizeofTrapframe m
  let m ← strdup E ['/'] m
  let (_, m) ← kalloc E sizeofFilesStruct m
  some (⟨pid, 0, trapframe, [], 0, 0, ['/'], [false, false, false]⟩, ⟨m, s.nextPid + 1⟩)

/-! ## The system call -/

/-- The loop of `fdt_dup`, with the descriptors that are to go. It copies the inode of a file from the
null pointer if there is none. -/
def dupFiles (E : Env A) : List Bool → Mem A → Option (Mem A)
  | [], m => some m
  | inode :: files, m => do
    let (_, m) ← kalloc E sizeofFile m
    let (_, m) ← kalloc E sizeofInode m
    if inode then dupFiles E files m else none

def fdtDup (E : Env A) (files : List Bool) (m : Mem A) : Option (Mem A) := do
  let (_, m) ← kalloc E sizeofFilesStruct m
  dupFiles E files m

/-- `*dst = *src` for trapframes, with `a0` set to zero. -/
def copyTrapframe (dst src : Nat) (m : Mem A) : Mem A :=
  { m with byte := fun x =>
      if dst + trapframeA0 ≤ x ∧ x < dst + trapframeA0 + 8 then 0
      else if dst ≤ x ∧ x < dst + sizeofTrapframe then m.byte (src + (x - dst))
      else m.byte x }

/-- `sys_fork`; `trampoline` is the address of the trampoline's code. -/
def sysFork (E : Env A) (trampoline : Nat) (parent : Process) (s : Sys A) :
    Option (Process × Sys A) := do
  let (child, s) ← allocProc E s
  let (cpgtbl, m) ← allocPagetable E s.mem
  let m ← uvmcopyAlloc E cpgtbl parent.pagetable parent.vmaList m
  let m ← mappages E cpgtbl trapframeVa parent.trapframe pgSize (pteU ||| pteRw) m
  let m ← mappages E cpgtbl trampolineVa trampoline pgSize pteRx m
  let (_, m) ← kalloc E sizeofUpagetable m
  let m := copyTrapframe child.trapframe parent.trapframe m
  let m ← strdup E parent.cwd m
  let m ← fdtDup E parent.files m
  some ({ child with
    pagetable := cpgtbl
    sz := parent.sz
    heapStart := parent.heapStart
    cwd := parent.cwd
    files := parent.files }, { s with mem := m })

/-! ## What the call does to the tables -/

section

variable {Inv : A → Prop} {Held : A → Nat → Nat → Prop} {lo hi : Nat} {E : Env A}
variable {m m' : Mem A} {tab : Nat → Option Place} {parent child : Process} {s s' : Sys A}
variable {trampoline : Nat}

lemma mapStack_beside (hE : E.Ok lo hi Inv Held) (hs : Shaped Inv Held m tab) {r stackVa : Nat}
    (hr : tab r = some (rootPlace r)) (h : mapStack E r stackVa m = some m') :
    ∃ tab', Shaped Inv Held m' tab' ∧ Beside r m tab m' tab' := by
  obtain ⟨⟨stack, m1⟩, hk, hm⟩ := bind_eq_some_iff.mp h
  obtain ⟨hs1, hm1⟩ := kalloc_shaped hE hs (by decide) (by decide) hk
  obtain ⟨tab', hs', hb⟩ := mappages_beside hE hs1 hr hm
  refine ⟨tab', hs', ⟨hb.le, hb.other, ?_, ?_⟩⟩
  · intro r' hr' hne vpn
    rw [hb.leaf hr' hne, hm1]
    rfl
  · rw [hb.byte, hm1]

lemma strdup_eq_some {str : List Char} (h : strdup E str m = some m') :
    0 < str.length ∧ ∃ p, kalloc E str.length m = some (p, m') := by
  obtain ⟨hne, h⟩ := ite_none_left_eq_some.mp h
  obtain ⟨⟨p, _⟩, hk, rfl⟩ := map_eq_some_iff.mp h
  exact ⟨List.length_pos_iff.mpr hne, p, hk⟩

/-- A new process has no area; making it changes the kernel's table only. -/
lemma allocProc_spec (hE : E.Ok lo hi Inv Held) {p : Process}
    (hs : Shaped Inv Held s.mem tab)
    (hk : tab E.kernelPagetable = some (rootPlace E.kernelPagetable))
    (h : allocProc E s = some (p, s')) :
    p.vmaList = [] ∧ ∃ tab', Shaped Inv Held s'.mem tab' ∧
      Beside E.kernelPagetable s.mem tab s'.mem tab' := by
  simp only [allocProc, bind_eq_bind, bind_eq_some_iff, Prod.exists] at h
  obtain ⟨_, m1, hk1, m2, hstack, _, m3, hk3, m4, hk4, _, m5, hk5, h⟩ := h
  cases h
  obtain ⟨_, _, hk4⟩ := strdup_eq_some hk4
  obtain ⟨hs1, hm1⟩ := kalloc_shaped hE hs (by decide) (by decide) hk1
  obtain ⟨tab', hs2, hb⟩ := mapStack_beside hE hs1 hk hstack
  obtain ⟨hs3, hm3⟩ := kalloc_shaped hE hs2 (by decide) (by decide) hk3
  obtain ⟨hs4, hm4⟩ := kalloc_shaped hE hs3 (by decide) (by decide) hk4
  obtain ⟨hs5, hm5⟩ := kalloc_shaped hE hs4 (by decide) (by decide) hk5
  refine ⟨rfl, tab', hs5, ⟨hb.le, hb.other, ?_, ?_⟩⟩
  · intro r' hr' hne vpn
    have hleaf := hb.leaf hr' hne vpn
    rw [hm1] at hleaf
    rw [hm5, hm4, hm3]
    exact hleaf
  · rw [hm5, hm4, hm3]
    rw [hb.byte, hm1]

lemma dupFiles_shaped (hE : E.Ok lo hi Inv Held) {files : List Bool} (hs : Shaped Inv Held m tab)
    (h : dupFiles E files m = some m') :
    Shaped Inv Held m' tab ∧ m' = { m with alloc := m'.alloc } := by
  induction files generalizing m with
  | nil =>
    cases h
    exact ⟨hs, rfl⟩
  | cons inode files ih =>
    obtain ⟨⟨_, m1⟩, hk1, h⟩ := bind_eq_some_iff.mp h
    obtain ⟨⟨_, m2⟩, hk2, h⟩ := bind_eq_some_iff.mp h
    obtain ⟨-, h⟩ := ite_none_right_eq_some.mp h
    obtain ⟨hs1, hm1⟩ := kalloc_shaped hE hs (by decide) (by decide) hk1
    obtain ⟨hs2, hm2⟩ := kalloc_shaped hE hs1 (by decide) (by decide) hk2
    obtain ⟨hs', hm'⟩ := ih hs2 h
    refine ⟨hs', ?_⟩
    rw [hm', hm2, hm1]

/-- Areas that cover nothing are not copied. -/
lemma uvmcopyAlloc_empty {c p : Nat} {vmas : List VmArea} (hempty : ∀ v ∈ vmas, v.end_ ≤ v.start)
    (h : uvmcopyAlloc E c p vmas m = some m') : m' = m := by
  induction vmas with
  | nil =>
    cases h
    rfl
  | cons v vmas ih =>
    have hv := hempty v List.mem_cons_self
    have hn : (v.end_ - v.start + (pgSize - 1)) / pgSize = 0 := by
      unfold pgSize
      omega
    simp only [uvmcopyAlloc, hn] at h
    split_ifs at h
    · cases h
    · exact ih (fun w hw => hempty w (List.mem_cons_of_mem _ hw)) h

/-! ## Copying the address space -/

/-- The address lies in the area. -/
def Covers (v : VmArea) (a : Nat) : Prop := v.start ≤ a ∧ a < v.end_

/-- What `fork` is for, between the memory `m` before and `m'` after the call. -/
structure ForkCopies (m : Mem A) (parent : Process) (m' : Mem A) (child : Process) : Prop where
  bytes : ∀ v ∈ parent.vmaList, ∀ a, Covers v a →
    readByte m' child.pagetable a = readByte m parent.pagetable a
  apart : ∀ f, ∀ vpn < 2 ^ 27, ∀ vpn' < 2 ^ 27,
    mapsFrame f (leaf m' parent.pagetable vpn) = true →
    mapsFrame f (leaf m' child.pagetable vpn') = true →
    userWritable (leaf m' parent.pagetable vpn) = false ∧
      userWritable (leaf m' child.pagetable vpn') = false
  areas : ∀ a prot, (∃ v ∈ child.vmaList, Covers v a ∧ v.prot = prot) ↔
    ∃ v ∈ parent.vmaList, Covers v a ∧ v.prot = prot

/-- A parent that `fork` copies: none of its areas covers an address, its table does not map the
frame of its trapframe, and it does not map the trampoline for stores of the user. -/
structure Forkable (m : Mem A) (trampoline : Nat) (parent : Process) : Prop where
  areas : ∀ v ∈ parent.vmaList, v.end_ ≤ v.start
  trapframe : ∀ vpn < 2 ^ 27,
    mapsFrame (frameOf parent.trapframe) (leaf m parent.pagetable vpn) = false
  trampoline : ∀ vpn < 2 ^ 27, mapsFrame (frameOf trampoline) (leaf m parent.pagetable vpn) = true →
    userWritable (leaf m parent.pagetable vpn) = false

/-- A process of the running kernel: it has a table of its own, and its fields are in range. -/
structure Process.Ok (E : Env A) (tab : Nat → Option Place) (p : Process) : Prop where
  kernel : tab E.kernelPagetable = some (rootPlace E.kernelPagetable)
  table : tab p.pagetable = some (rootPlace p.pagetable)
  own : p.pagetable ≠ E.kernelPagetable
  trapframe : p.trapframe + 4096 ≤ 2 ^ 64
  cwd : p.cwd.length < 1024

lemma sysFork_vmaList (hE : E.Ok lo hi Inv Held) (hs : Shaped Inv Held s.mem tab)
    (hp : parent.Ok E tab) (h : sysFork E trampoline parent s = some (child, s')) :
    child.vmaList = [] := by
  simp only [sysFork, bind_eq_bind, bind_eq_some_iff, Prod.exists] at h
  obtain ⟨c, s1, hproc, _, m2, _, m3, _, m4, _, m5, _, _, m6, _, m7, _, m8, _, h⟩ := h
  cases h
  exact (allocProc_spec hE hs hp.kernel hproc).1

/-- The two tables after the call, when there is no page to copy. -/
lemma sysFork_tables (hE : E.Ok lo hi Inv Held) (hs : Shaped Inv Held s.mem tab)
    (hp : parent.Ok E tab) (htramp : trampoline + 4096 ≤ 2 ^ 64)
    (hempty : ∀ v ∈ parent.vmaList, v.end_ ≤ v.start)
    (h : sysFork E trampoline parent s = some (child, s')) :
    (∀ vpn, leaf s'.mem parent.pagetable vpn = leaf s.mem parent.pagetable vpn) ∧
    ∀ vpn, leaf s'.mem child.pagetable vpn =
      if vpn % 2 ^ 27 = (trampolineVa >>> 12) % 2 ^ 27 then pa2pte trampoline ||| pteRx ||| pteV
      else if vpn % 2 ^ 27 = (trapframeVa >>> 12) % 2 ^ 27 then
        pa2pte parent.trapframe ||| (pteU ||| pteRw) ||| pteV
      else 0 := by
  simp only [sysFork, bind_eq_bind, bind_eq_some_iff, Prod.exists] at h
  obtain ⟨c, s1, hproc, t, m2, htable, m3, hcopy, m4, hmap4, m5, hmap5, _, m6, hk6, m7, hk7, m8,
    hdup, h⟩ := h
  cases h
  obtain ⟨hcwd, _, hk7⟩ := strdup_eq_some hk7
  obtain ⟨_, tab1, hs1, hb1⟩ := allocProc_spec hE hs hp.kernel hproc
  obtain ⟨tab2, hs2, hnew, hroot, hle2, hzero, hold, _⟩ := allocPagetable_spec hE hs1 htable
  have hm3 := uvmcopyAlloc_empty hempty hcopy
  subst hm3
  have hparent1 := hb1.le hp.table
  have hne : parent.pagetable ≠ t := by
    intro heq
    rw [heq, hnew] at hparent1
    cases hparent1
  obtain ⟨tab4, hs4, hp4⟩ := mappages_page hE hs2 hroot (by decide) (by decide) hp.trapframe hmap4
  obtain ⟨tab5, hs5, hp5⟩ := mappages_page hE hs4 (hp4.le hroot) (by decide) (by decide) htramp
    hmap5
  -- the last allocations do not touch any table
  obtain ⟨hs6, hm6⟩ := kalloc_shaped hE hs5 (by decide) (by decide) hk6
  have hs6' : Shaped Inv Held (copyTrapframe c.trapframe parent.trapframe m6) tab5 :=
    ⟨{ hs6.tables with }, hs6.alloc, hs6.held⟩
  have hcwd' := hp.cwd
  obtain ⟨hs7, hm7⟩ := kalloc_shaped hE hs6' hcwd (by omega) hk7
  obtain ⟨⟨_, m9⟩, hk9, hdup⟩ := bind_eq_some_iff.mp hdup
  obtain ⟨hs9, hm9⟩ := kalloc_shaped hE hs7 (by decide) (by decide) hk9
  obtain ⟨_, hm8⟩ := dupFiles_shaped hE hs9 hdup
  have hleaf : ∀ r vpn, leaf m8 r vpn = leaf m5 r vpn := by
    intro r vpn
    rw [hm8, hm9, hm7]
    rw [hm6]
    rfl
  constructor
  · intro vpn
    rw [hleaf, hp5.leaf (hp4.le (hle2 hparent1)), if_neg fun hand => hne hand.1,
      hp4.leaf (hle2 hparent1), if_neg fun hand => hne hand.1, hold hparent1,
      hb1.leaf hp.table hp.own]
  · intro vpn
    rw [hleaf, hp5.leaf (hp4.le hroot), hp4.leaf hroot, hzero]
    simp only [true_and]

/-- `fork` copies the address space exactly of the parents that have none. -/
theorem fork_copies_iff (hE : E.Ok lo hi Inv Held) (hs : Shaped Inv Held s.mem tab)
    (hp : parent.Ok E tab) (htramp : trampoline + 4096 ≤ 2 ^ 64)
    (h : sysFork E trampoline parent s = some (child, s')) :
    ForkCopies s.mem parent s'.mem child ↔ Forkable s.mem trampoline parent := by
  have hlist := sysFork_vmaList hE hs hp h
  have htf := hp.trapframe
  have htfLt : parent.trapframe < 2 ^ 64 := by omega
  have htrampLt : trampoline < 2 ^ 64 := by omega
  constructor
  · intro hc
    have hempty : ∀ v ∈ parent.vmaList, v.end_ ≤ v.start := by
      intro v hv
      by_contra hlt
      have hcover := (hc.areas v.start v.prot).mpr ⟨v, hv, ⟨le_rfl, by omega⟩, rfl⟩
      rw [hlist] at hcover
      obtain ⟨w, hw, _⟩ := hcover
      cases hw
    obtain ⟨hparent, hchild⟩ := sysFork_tables hE hs hp htramp hempty h
    have htf := hchild (trapframeVa >>> 12)
    rw [if_neg (by decide), if_pos rfl] at htf
    have htr := hchild (trampolineVa >>> 12)
    rw [if_pos rfl] at htr
    refine ⟨hempty, ?_, ?_⟩
    · intro vpn hvpn
      by_contra hmaps
      rw [Bool.not_eq_false, ← hparent] at hmaps
      have hboth := hc.apart (frameOf parent.trapframe) vpn hvpn (trapframeVa >>> 12) (by decide)
        hmaps (by rw [htf, mapsFrame_entry htfLt (by decide)]; exact decide_eq_true rfl)
      rw [htf, userWritable_entry] at hboth
      exact absurd hboth.2 (by decide)
    · intro vpn hvpn hmaps
      rw [← hparent] at hmaps ⊢
      exact (hc.apart (frameOf trampoline) vpn hvpn (trampolineVa >>> 12) (by decide) hmaps
        (by rw [htr, mapsFrame_entry htrampLt (by decide)]; exact decide_eq_true rfl)).1
  · intro hf
    obtain ⟨hparent, hchild⟩ := sysFork_tables hE hs hp htramp hf.areas h
    refine ⟨?_, ?_, ?_⟩
    · intro v hv a hcover
      have hempty := hf.areas v hv
      unfold Covers at hcover
      omega
    · intro f vpn hvpn vpn' _ hmaps hmaps'
      rw [hparent] at hmaps ⊢
      rw [hchild] at hmaps' ⊢
      split_ifs at hmaps' ⊢ with htr htf
      · rw [mapsFrame_entry htrampLt (by decide), decide_eq_true_eq] at hmaps'
        subst hmaps'
        exact ⟨hf.trampoline vpn hvpn hmaps, userWritable_entry _ _⟩
      · rw [mapsFrame_entry htfLt (by decide), decide_eq_true_eq] at hmaps'
        subst hmaps'
        rw [hf.trapframe vpn hvpn] at hmaps
        cases hmaps
      · cases hmaps'
    · intro a prot
      rw [hlist]
      constructor
      · rintro ⟨v, hv, _⟩
        cases hv
      · rintro ⟨v, hv, hcover, _⟩
        have hempty := hf.areas v hv
        unfold Covers at hcover
        omega

end

/-- A process with an empty table and three files that have inodes, in a kernel that has 63 pages for
the allocator. -/
def bootProcess : Option (Env Buddy.Pool × Sys Buddy.Pool × Process) := do
  let (E, m) ← bootCleared 0x80340000
  let (kpgtbl, m) ← allocPagetable E m
  let E := { E with kernelPagetable := kpgtbl }
  let (upgtbl, m) ← allocPagetable E m
  let (trapframe, m) ← kalloc E sizeofTrapframe m
  some (E, ⟨m, 2⟩, ⟨1, upgtbl, trapframe, [], 0, 0, ['/'], [true, true, true]⟩)

/-- The same process with a trapframe that is mapped as in `uvmmake`, and with one page of user
memory that holds the byte 42. -/
def bootProcessPage : Option (Env Buddy.Pool × Sys Buddy.Pool × Process) := do
  let (E, s, p) ← bootProcess
  let (page, m) ← kalloc E pgSize s.mem
  let m := writeBytes page [42] m
  let m ← mappages E p.pagetable trapframeVa p.trapframe pgSize (pteR ||| pteW) m
  let m ← mappages E p.pagetable 0 page pgSize (pteU ||| pteRw ||| pteX) m
  some (E, ⟨m, s.nextPid⟩, { p with vmaList := [⟨0, pgSize, pteU ||| pteRw ||| pteX⟩], sz := pgSize })

theorem fork_copies_bare_process :
    ∃ E s parent child s', bootProcess = some (E, s, parent) ∧
      sysFork E 0x80200000 parent s = some (child, s') ∧
      Forkable s.mem 0x80200000 parent ∧ ForkCopies s.mem parent s'.mem child := by
  have hrun : (bootProcess.bind fun x => (sysFork x.1 0x80200000 x.2.2 x.2.1).map fun y =>
      y.1.pid) = some 2 := by
    decide +kernel
  obtain ⟨⟨E, s, parent⟩, hboot, hfork⟩ := bind_eq_some_iff.mp hrun
  obtain ⟨⟨child, s'⟩, hfork, _⟩ := map_eq_some_iff.mp hfork
  refine ⟨E, s, parent, child, s', hboot, hfork, ?_⟩
  unfold bootProcess at hboot
  obtain ⟨⟨E0, m0⟩, hinit, hboot⟩ := bind_eq_some_iff.mp hboot
  obtain ⟨⟨kpgtbl, m1⟩, hk1, hboot⟩ := bind_eq_some_iff.mp hboot
  obtain ⟨⟨upgtbl, m2⟩, hk2, hboot⟩ := bind_eq_some_iff.mp hboot
  obtain ⟨⟨tf, m3⟩, hk3, hboot⟩ := bind_eq_some_iff.mp hboot
  cases hboot
  have hcwd : ['/'].length < 1024 := by decide
  obtain ⟨hE0, hs0⟩ := bootCleared_ok hinit (by decide) (by decide)
  obtain ⟨tab1, hs1, _, hroot1, _⟩ := allocPagetable_spec hE0 hs0 hk1
  have hE : Env.Ok { E0 with kernelPagetable := kpgtbl } _ _ _ _ :=
    ⟨hE0.lawful, hE0.lo_pos, hE0.hi_le, hE0.pages_le, hE0.pages_dvd⟩
  obtain ⟨tab2, hs2, hnew2, hroot2, hle2, hzero2, _⟩ := allocPagetable_spec hE hs1 hk2
  obtain ⟨hs3, hm3⟩ := kalloc_shaped hE hs2 (by decide) (by decide) hk3
  have hleaf : ∀ vpn, leaf m3 upgtbl vpn = 0 := by
    intro vpn
    rw [hm3]
    exact hzero2 vpn
  have hne : upgtbl ≠ kpgtbl := by
    intro heq
    rw [heq, hroot1] at hnew2
    cases hnew2
  have htf : tf + 4096 ≤ 2 ^ 64 := by
    have hrange := kalloc_range hE hs2 (by decide) (by decide) hk3
    have htop := hE.hi_lt
    omega
  have hforkable : Forkable m3 0x80200000 ⟨1, upgtbl, tf, [], 0, 0, ['/'], [true, true, true]⟩ := by
    refine ⟨?_, ?_, ?_⟩
    · intro v hv
      cases hv
    · intro vpn _
      rw [hleaf]
      rfl
    · intro vpn _ _
      rw [hleaf]
      rfl
  exact ⟨hforkable, (fork_copies_iff hE hs3 ⟨hle2 hroot1, hroot2, hne, htf, hcwd⟩ (by decide)
    hfork).mpr hforkable⟩

/-- The child reads 0 where the parent reads 42, and it has no area. The three open files have
inodes, or the call would stop in `fdt_dup`. -/
theorem fork_child_reads_stale :
    ∃ E s parent child s', bootProcessPage = some (E, s, parent) ∧
      sysFork E 0x80200000 parent s = some (child, s') ∧
      readByte s.mem parent.pagetable 0 = some 42 ∧ readByte s'.mem child.pagetable 0 = some 0 ∧
      child.vmaList = [] ∧ ¬ ForkCopies s.mem parent s'.mem child := by
  have hrun : (bootProcessPage.bind fun x => (sysFork x.1 0x80200000 x.2.2 x.2.1).map fun y =>
      (readByte x.2.1.mem x.2.2.pagetable 0, readByte y.2.mem y.1.pagetable 0, x.2.2.vmaList,
        y.1.vmaList)) =
      some (some 42, some 0, [⟨0, pgSize, pteU ||| pteRw ||| pteX⟩], []) := by
    decide +kernel
  obtain ⟨⟨E, s, parent⟩, hboot, hfork⟩ := bind_eq_some_iff.mp hrun
  obtain ⟨⟨child, s'⟩, hfork, heq⟩ := map_eq_some_iff.mp hfork
  simp only [Prod.mk.injEq] at heq
  obtain ⟨hparent, hchild, hlist, hlist'⟩ := heq
  refine ⟨E, s, parent, child, s', hboot, hfork, hparent, hchild, hlist', fun hc => ?_⟩
  have hbyte := hc.bytes ⟨0, pgSize, pteU ||| pteRw ||| pteX⟩ (by rw [hlist]; exact List.mem_cons_self)
    0 ⟨Nat.le_refl 0, by decide⟩
  rw [hparent, hchild] at hbyte
  cases hbyte

end Hana.Proc
