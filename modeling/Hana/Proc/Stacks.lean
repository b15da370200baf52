import Hana.Mm.Vm.MapRange
import Hana.Proc.Entry

/-!
# Kernel stacks

`alloc_proc` maps the stack of the process `pid` at `KSTACK(pid)` in the table of the kernel,
which `kvmmake` has made. The stacks are to lie one below the other between the memory and the
trapframe, with an unmapped page between any two of them, and no stack is to be mapped over
something else (`MapsStack`).

`KSTACK` multiplies its argument in an `int`. So the address depends on `5 * pid` modulo 2^20
only (`stackPage`), and the upper half of these residues counts as negative: the stack is then
above the trapframe. The first pid with such a stack is 104858, and 209716 gets pages of the
stack of 1.
-/

namespace Hana.Proc

open Lib Vm Option

variable {A : Type}

/-! ## The table of the kernel -/

def testSpaceVa : Nat := maxVa - pgSize

def uart0 : Nat := 0x10000000

def virtUart0Size : Nat := 0x100

def virtio0 : Nat := 0x10001000

def virtVirtioSize : Nat := 0x1000

def virtioMmioDevNum : Nat := 8

def clint : Nat := 0x2000000

def virtClintSize : Nat := 0x10000

def plic : Nat := 0xc000000

def virtPlicSize : Nat := 0x4000000

/-- The bytes of `0x11451419198100UL`. -/
def testWord : List Nat := [0x00, 0x81, 0x19, 0x19, 0x14, 0x45, 0x11, 0x00]

/-- `kvmmake`; `etext` is the end of the kernel's code and `trampoline` the address of the
trampoline. -/
def kvmmake (E : Env A) (etext trampoline : Nat) (m : Mem A) : Option (Nat × Mem A) := do
  let (kpgtbl, m) ← allocPagetable E m
  let m ← mappages E kpgtbl uart0 uart0 virtUart0Size (pteR ||| pteW) m
  let m ← mappages E kpgtbl virtio0 virtio0 (virtioMmioDevNum * virtVirtioSize) (pteR ||| pteW) m
  let m ← mappages E kpgtbl clint clint virtClintSize (pteR ||| pteW) m
  let m ← mappages E kpgtbl plic plic virtPlicSize (pteR ||| pteW) m
  let m ← mappages E kpgtbl kernelBase kernelBase (etext - kernelBase) (pteR ||| pteX) m
  let m ← mappages E kpgtbl etext etext (physTop - etext) (pteR ||| pteW) m
  let m ← mappages E kpgtbl trampolineVa trampoline pgSize (pteR ||| pteX) m
  let (testSpace, m) ← kalloc E pgSize m
  let m := writeBytes testSpace testWord m
  let m ← mappages E kpgtbl testSpaceVa testSpace pgSize (pteR ||| pteCow) m
  some (kpgtbl, m)

/-- The page is not mapped. -/
def Unmapped (m : Mem A) (r vpn : Nat) : Prop := has (leaf m r vpn) pteV = false

/-- Nothing is mapped between the memory and the trapframe. -/
def WindowFree (m : Mem A) (r : Nat) : Prop :=
  ∀ vpn, physTop / 4096 ≤ vpn → vpn < trapframeVa / 4096 → Unmapped m r vpn

section

variable {Inv : A → Prop} {Held : A → Nat → Nat → Prop} {lo hi : Nat} {E : Env A}
variable {m m' : Mem A} {tab : Nat → Option Place} {r : Nat}

/-- A range below the top of the memory or above the trapframe is mapped beside the window. -/
lemma WindowFree.mappages (h : WindowFree m r) (hE : E.Ok lo hi Inv Held)
    (hs : Shaped Inv Held m tab) (hr : tab r = some (rootPlace r)) {va pa sz flags : Nat}
    (hpos : 0 < sz) (hsz : sz ≤ 2 ^ 30) (hpa : pa ≤ physTop)
    (hbeside : va + sz ≤ physTop ∨ trapframeVa ≤ va ∧ va + sz ≤ maxVa)
    (hm : Vm.mappages E r va pa sz flags m = some m') :
    WindowFree m' r ∧ ∃ tab', Shaped Inv Held m' tab' ∧ tab' r = some (rootPlace r) := by
  obtain ⟨tab', hs', hb, -⟩ := mappages_entries hE hs hr hm
  refine ⟨?_, tab', hs', hb.le hr⟩
  intro vpn hlo hhi
  have hframe : trapframeVa = 0x3fffffd000 := rfl
  rw [hframe] at hbeside hhi
  unfold physTop at hbeside hpa hlo
  unfold maxVa at hbeside
  have hcount := mapCount_eq (show va < 2 ^ 64 by omega) hpos (show sz < 2 ^ 31 by omega)
  have hleaf : leaf m' r vpn = leaf m r vpn := by
    refine mappages_leaf_outside hE hs hr ?_ ?_ ?_ ?_ hm
    · omega
    · omega
    · omega
    · intro i hi
      omega
  unfold Unmapped
  rw [hleaf]
  exact h vpn hlo hhi

/-- `kvmmake` leaves the window free. -/
lemma kvmmake_windowFree (hE : E.Ok lo hi Inv Held) (hs : Shaped Inv Held m tab)
    {etext trampoline kpgtbl : Nat} (htext : kernelBase < etext) (hdata : etext < physTop)
    (htramp : trampoline < physTop) (h : kvmmake E etext trampoline m = some (kpgtbl, m')) :
    WindowFree m' kpgtbl ∧ ∃ tab', Shaped Inv Held m' tab' ∧
      tab' kpgtbl = some (rootPlace kpgtbl) := by
  simp only [kvmmake, bind_eq_bind, bind_eq_some_iff, Prod.exists, some.injEq,
    Prod.mk.injEq] at h
  obtain ⟨kpgtbl, m0, hroot, m1, h1, m2, h2, m3, h3, m4, h4, m5, h5, m6, h6, m7, h7, test, m8, h8, m9, h9,
    rfl, rfl⟩ := h
  obtain ⟨tab0, hs0, -, hr0, -, hleaf, -⟩ := allocPagetable_spec hE hs hroot
  have hfree : WindowFree m0 kpgtbl := fun vpn _ _ => by
    unfold Unmapped
    rw [hleaf]
    rfl
  unfold kernelBase at htext
  unfold physTop at hdata htramp
  obtain ⟨hfree, tab1, hs1, hr1⟩ := hfree.mappages hE hs0 hr0 (by decide) (by decide) (by decide)
    (.inl (by decide)) h1
  obtain ⟨hfree, tab2, hs2, hr2⟩ := hfree.mappages hE hs1 hr1 (by decide) (by decide) (by decide)
    (.inl (by decide)) h2
  obtain ⟨hfree, tab3, hs3, hr3⟩ := hfree.mappages hE hs2 hr2 (by decide) (by decide) (by decide)
    (.inl (by decide)) h3
  obtain ⟨hfree, tab4, hs4, hr4⟩ := hfree.mappages hE hs3 hr3 (by decide) (by decide) (by decide)
    (.inl (by decide)) h4
  obtain ⟨hfree, tab5, hs5, hr5⟩ := hfree.mappages hE hs4 hr4 (by unfold kernelBase; omega)
    (by unfold kernelBase; omega) (by decide) (.inl (by unfold kernelBase physTop; omega)) h5
  obtain ⟨hfree, tab6, hs6, hr6⟩ := hfree.mappages hE hs5 hr5 (by unfold physTop; omega)
    (by unfold physTop; omega) (by unfold physTop; omega) (.inl (by unfold physTop; omega)) h6
  obtain ⟨hfree, tab7, hs7, hr7⟩ := hfree.mappages hE hs6 hr6 (by decide) (by decide)
    (by unfold physTop; omega) (.inr (by decide)) h7
  obtain ⟨-, -, -, htest, -, -, hm8, -⟩ := kalloc_page hE hs7 h8
  obtain ⟨hs8, -⟩ := kalloc_shaped hE hs7 (by decide) (by decide) h8
  have hsame : ∀ vpn, leaf (writeBytes test testWord m8) kpgtbl vpn = leaf m7 kpgtbl vpn := by
    intro vpn
    rw [hm8]
    rfl
  have hshaped : Shaped Inv Held (writeBytes test testWord m8) tab7 :=
    ⟨{ hs8.tables with }, hs8.alloc, hs8.held⟩
  have hfree : WindowFree (writeBytes test testWord m8) kpgtbl := fun vpn hlo' hhi' => by
    unfold Unmapped
    rw [hsame]
    exact hfree vpn hlo' hhi'
  have hhi := hE.hi_le
  exact hfree.mappages hE hshaped hr7 (by decide) (by decide) (by omega)
    (.inr (by decide)) h9

end

/-! ## Where the stacks lie -/

/-- The number of pages from the start of the stack up to the trapframe, as the `int` keeps it. -/
def stackPage (n : Nat) : Nat := 5 * n % 2 ^ 20

lemma kstack_eq (n : Nat) : kstack n =
    if stackPage n < 2 ^ 19 then trapframeVa - 4096 * stackPage n
    else trapframeVa + 4096 * (2 ^ 20 - stackPage n) := by
  have hmod : (kstackSize + pgSize) * n % 2 ^ 32 = 4096 * stackPage n := by
    unfold kstackSize pgSize stackPage
    omega
  have hframe : trapframeVa = 0x3fffffd000 := rfl
  rw [kstack, toInt32, hmod, hframe]
  generalize stackPage n = k at *
  by_cases hk : k < 2 ^ 19
  · rw [if_pos (by omega), if_pos hk]
    omega
  · rw [if_neg (by omega), if_neg hk]
    omega

/-- The stack lies between the memory and the trapframe. -/
def StackPlaced (n : Nat) : Prop := physTop ≤ kstack n ∧ kstack n + kstackSize ≤ trapframeVa

/-- There is a page between the two stacks. -/
def StacksApart (p q : Nat) : Prop :=
  kstack p + kstackSize + pgSize ≤ kstack q ∨ kstack q + kstackSize + pgSize ≤ kstack p

lemma stackPlaced_iff (n : Nat) : StackPlaced n ↔ 4 ≤ stackPage n ∧ stackPage n < 2 ^ 19 := by
  unfold StackPlaced
  rw [kstack_eq]
  unfold physTop kstackSize trapframeVa trampolineVa maxVa pgSize
  split_ifs <;> omega

lemma stacksApart_iff {p q : Nat} (hp : stackPage p < 2 ^ 19) (hq : stackPage q < 2 ^ 19) :
    StacksApart p q ↔ stackPage p + 5 ≤ stackPage q ∨ stackPage q + 5 ≤ stackPage p := by
  unfold StacksApart
  rw [kstack_eq, kstack_eq, if_pos hp, if_pos hq]
  unfold kstackSize trapframeVa trampolineVa maxVa pgSize
  omega

/-- Two stacks are where they should be. -/
lemma stacks_iff (p q : Nat) : StackPlaced p ∧ StackPlaced q ∧ StacksApart p q ↔
    (4 ≤ stackPage p ∧ stackPage p < 2 ^ 19) ∧ (4 ≤ stackPage q ∧ stackPage q < 2 ^ 19) ∧
      (stackPage p + 5 ≤ stackPage q ∨ stackPage q + 5 ≤ stackPage p) := by
  rw [stackPlaced_iff, stackPlaced_iff]
  refine and_congr_right fun hp => and_congr_right fun hq => ?_
  exact stacksApart_iff hp.2 hq.2

lemma stackPage_of_le {n : Nat} (h : n ≤ 104857) : stackPage n = 5 * n := by
  unfold stackPage
  omega

/-! ## Mapping the stacks -/

/-- The stack of `pid` is mapped over nothing, apart from the stacks of the smaller pids, with a page
without mapping below it and above it. -/
structure MapsStack (r pid : Nat) (m m' : Mem A) : Prop where
  placed : StackPlaced pid
  apart : ∀ q, 1 ≤ q → q < pid → StacksApart q pid
  fresh : ∀ i < 4, Unmapped m r (kstack pid / 4096 + i)
  below : Unmapped m' r (kstack pid / 4096 - 1)
  above : Unmapped m' r (kstack pid / 4096 + 4)

/-- A new process, or what else the kernel does. -/
inductive KernelOp where
  | allocProc
  | other

/-- The table of the kernel is in order. -/
def KernelTable (Inv : A → Prop) (Held : A → Nat → Nat → Prop) (r : Nat) (m : Mem A) : Prop :=
  ∃ tab, Shaped Inv Held m tab ∧ tab r = some (rootPlace r)

/-- Only `alloc_proc` maps pages in the table of the kernel. -/
def kernelStep (E : Env A) (Inv : A → Prop) (Held : A → Nat → Nat → Prop) (s : Sys A) :
    KernelOp → Sys A → Prop
  | .allocProc, s' => ∃ p, Proc.allocProc E s = some (p, s')
  | .other, s' => s'.nextPid = s.nextPid ∧ KernelTable Inv Held E.kernelPagetable s'.mem ∧
      ∀ vpn, Unmapped s.mem E.kernelPagetable vpn → Unmapped s'.mem E.kernelPagetable vpn

/-- The pages up to the trapframe that belong to no stack so far are free; the distance of a page to
the trapframe is `j`. -/
structure StacksBelow (E : Env A) (Inv : A → Prop) (Held : A → Nat → Nat → Prop) (s : Sys A) : Prop where
  table : KernelTable Inv Held E.kernelPagetable s.mem
  first : 1 ≤ s.nextPid
  last : s.nextPid ≤ 104858
  free : ∀ j, 1 ≤ j → j ≤ 2 ^ 19 + 2 → (∀ n, 1 ≤ n → n < s.nextPid → ¬ (5 * n ≤ j + 3 ∧ j ≤ 5 * n)) →
    Unmapped s.mem E.kernelPagetable (trapframeVa / 4096 - j)

section

variable {Inv : A → Prop} {Held : A → Nat → Nat → Prop} {lo hi : Nat} {E : Env A} {s s' : Sys A}

/-- `alloc_proc` maps the four pages of the stack. -/
lemma allocProc_leaf (hE : E.Ok lo hi Inv Held) (htable : KernelTable Inv Held E.kernelPagetable s.mem)
    {p : Process} (hpid : s.nextPid ≤ 104857) (h : allocProc E s = some (p, s')) :
    s'.nextPid = s.nextPid + 1 ∧ KernelTable Inv Held E.kernelPagetable s'.mem ∧
      ∀ vpn < 2 ^ 27, (∀ i < 4, vpn ≠ kstack s.nextPid / 4096 + i) →
        leaf s'.mem E.kernelPagetable vpn = leaf s.mem E.kernelPagetable vpn := by
  obtain ⟨tab, hs, hk⟩ := htable
  simp only [allocProc, mapStack, bind_eq_bind, bind_eq_some_iff, Prod.exists,
    some.injEq, Prod.mk.injEq] at h
  obtain ⟨_, m1, hk1, m3, ⟨stack, m2, hk2, hmap⟩, tf, m4, hk4, m5, hk5, _, m6, hk6, rfl, rfl⟩ := h
  obtain ⟨_, _, hk5⟩ := strdup_eq_some hk5
  obtain ⟨hs1, hm1⟩ := kalloc_shaped hE hs (by decide) (by decide) hk1
  obtain ⟨hs2, hm2⟩ := kalloc_shaped hE hs1 (by decide) (by decide) hk2
  have hrange := kalloc_range hE hs1 (by decide) (by decide) hk2
  have hhi := hE.hi_le
  obtain ⟨tab3, hs3, hb3, -⟩ := mappages_entries hE hs2 hk hmap
  obtain ⟨hs4, hm4⟩ := kalloc_shaped hE hs3 (by decide) (by decide) hk4
  obtain ⟨hs5, hm5⟩ := kalloc_shaped hE hs4 (by decide) (by decide) hk5
  obtain ⟨hs6, hm6⟩ := kalloc_shaped hE hs5 (by decide) (by decide) hk6
  refine ⟨rfl, ⟨tab3, hs6, hb3.le hk⟩, fun vpn hvpn hout => ?_⟩
  have hva : kstack s.nextPid = trapframeVa - 4096 * (5 * s.nextPid) := by
    rw [kstack_eq, stackPage_of_le hpid, if_pos (by omega)]
  have hcount : mapCount (kstack s.nextPid) kstackSize = 4 := by
    rw [mapCount_eq _ (by decide) (by decide), hva]
    · unfold kstackSize trapframeVa trampolineVa maxVa pgSize
      omega
    · rw [hva]
      unfold trapframeVa trampolineVa maxVa pgSize
      omega
  have hleaf : leaf m3 E.kernelPagetable vpn = leaf m2 E.kernelPagetable vpn := by
    refine mappages_leaf_outside hE hs2 hk ?_ ?_ ?_ ?_ hmap
    · rw [hcount]
      decide
    · rw [hcount, hva]
      unfold trapframeVa trampolineVa maxVa pgSize
      omega
    · unfold physTop at hhi
      omega
    · intro i hi
      rw [hcount] at hi
      have hne := hout i hi
      rw [Nat.shiftRight_eq_div_pow, hva]
      rw [hva] at hne
      unfold trapframeVa trampolineVa maxVa pgSize at hne ⊢
      omega
  rw [hm6, hm5, hm4]
  refine hleaf.trans ?_
  rw [hm2, hm1]
  rfl

lemma kstack_page {n : Nat} (hn : n ≤ 104857) : kstack n / 4096 = trapframeVa / 4096 - 5 * n := by
  rw [kstack_eq, stackPage_of_le hn, if_pos (by omega)]
  omega

lemma StacksBelow.start (htable : KernelTable Inv Held E.kernelPagetable s.mem)
    (hfree : WindowFree s.mem E.kernelPagetable) (hpid : s.nextPid = 1) : StacksBelow E Inv Held s := by
  refine ⟨htable, by omega, by omega, fun j hj hle _ => hfree _ ?_ ?_⟩
  · unfold physTop trapframeVa trampolineVa maxVa pgSize
    omega
  · unfold trapframeVa trampolineVa maxVa pgSize
    omega

/-- The stack of a pid up to 104857 takes four of the free pages. -/
lemma StacksBelow.allocProc (hE : E.Ok lo hi Inv Held) (h : StacksBelow E Inv Held s) {p : Process}
    (hpid : s.nextPid ≤ 104857) (hm : Proc.allocProc E s = some (p, s')) :
    StacksBelow E Inv Held s' := by
  obtain ⟨hnext, htable, hleaf⟩ := allocProc_leaf hE h.table hpid hm
  refine ⟨htable, by omega, by omega, fun j hj hle hout => ?_⟩
  have hpage := kstack_page hpid
  have htop : trapframeVa / 4096 < 2 ^ 27 ∧ 2 ^ 20 ≤ trapframeVa / 4096 := by decide
  have hself := hout s.nextPid h.first (by omega)
  unfold Unmapped
  rw [hleaf _ (by omega)]
  · refine h.free j hj hle fun n hn hlt => ?_
    exact hout n hn (by omega)
  · intro i hi
    omega

lemma StacksBelow.step (hE : E.Ok lo hi Inv Held) (h : StacksBelow E Inv Held s) {op : KernelOp}
    (hcond : op = .allocProc → s.nextPid ≤ 104857) (hs : kernelStep E Inv Held s op s') :
    StacksBelow E Inv Held s' := by
  cases op with
  | allocProc =>
    obtain ⟨p, hm⟩ := hs
    exact h.allocProc hE (hcond rfl) hm
  | other =>
    obtain ⟨hnext, htable, hkeep⟩ := hs
    refine ⟨htable, by rw [hnext]; exact h.first, by rw [hnext]; exact h.last, ?_⟩
    rw [hnext]
    intro j hj hle hout
    exact hkeep _ (h.free j hj hle hout)

lemma mapsStack_iff (hE : E.Ok lo hi Inv Held) (h : StacksBelow E Inv Held s) {p : Process}
    (hm : allocProc E s = some (p, s')) :
    MapsStack E.kernelPagetable s.nextPid s.mem s'.mem ↔ s.nextPid ≤ 104857 := by
  have hfirst := h.first
  constructor
  · intro hstack
    have hlt := ((stackPlaced_iff _).mp hstack.placed).2
    have hlast := h.last
    unfold stackPage at hlt
    omega
  · intro hpid
    have hpage := kstack_page hpid
    have hself := stackPage_of_le hpid
    have htop : 2 ^ 20 ≤ trapframeVa / 4096 := by decide
    have h' := h.allocProc hE hpid hm
    refine ⟨(stackPlaced_iff _).mpr ⟨by omega, by omega⟩, fun q hq hlt => ?_, fun i hi => ?_, ?_, ?_⟩
    · have hother := stackPage_of_le (show q ≤ 104857 by omega)
      exact (stacksApart_iff (by omega) (by omega)).mpr (by omega)
    · have hfree := h.free (5 * s.nextPid - i) (by omega) (by omega) fun n hn hlt => by omega
      rwa [hpage, show trapframeVa / 4096 - 5 * s.nextPid + i =
        trapframeVa / 4096 - (5 * s.nextPid - i) by omega]
    · have hfree := h'.free (5 * s.nextPid + 1) (by omega) (by omega) fun n hn hlt => by omega
      rwa [hpage, Nat.sub_sub]
    · have hfree := h'.free (5 * s.nextPid - 4) (by omega) (by omega) fun n hn hlt => by omega
      rwa [hpage, show trapframeVa / 4096 - 5 * s.nextPid + 4 =
        trapframeVa / 4096 - (5 * s.nextPid - 4) by omega]

/-- Two stacks lie apart, below the trapframe and above the memory, exactly if the pages from their
starts to the trapframe are so; and the stacks of a running kernel are mapped over nothing, apart from
each other, exactly as long as the pids are at most 104857. -/
theorem kernel_stacks_iff (hE : E.Ok lo hi Inv Held)
    (htable : KernelTable Inv Held E.kernelPagetable s.mem)
    (hfree : WindowFree s.mem E.kernelPagetable) (hpid : s.nextPid = 1) :
    (∀ p q, StackPlaced p ∧ StackPlaced q ∧ StacksApart p q ↔
      (4 ≤ stackPage p ∧ stackPage p < 2 ^ 19) ∧ (4 ≤ stackPage q ∧ stackPage q < 2 ^ 19) ∧
        (stackPage p + 5 ≤ stackPage q ∨ stackPage q + 5 ≤ stackPage p)) ∧
    ∀ ts s', Run (kernelStep E Inv Held) s ts s' →
      ((∀ t ∈ ts, t.label = .allocProc →
          MapsStack E.kernelPagetable t.source.nextPid t.source.mem t.target.mem) ↔
        ∀ t ∈ ts, t.label = .allocProc → t.source.nextPid ≤ 104857) := by
  refine ⟨stacks_iff, fun ts s' hr => ?_⟩
  have hstart : StacksBelow E Inv Held s := .start htable hfree hpid
  have hstep : ∀ s (op : KernelOp) s', StacksBelow E Inv Held s →
      (op = .allocProc → s.nextPid ≤ 104857) → kernelStep E Inv Held s op s' →
      StacksBelow E Inv Held s' := fun s op s' h hcond hs => h.step hE hcond hs
  have hexact : ∀ s (op : KernelOp) s', StacksBelow E Inv Held s → kernelStep E Inv Held s op s' →
      ((op = .allocProc → MapsStack E.kernelPagetable s.nextPid s.mem s'.mem) ↔
        (op = .allocProc → s.nextPid ≤ 104857)) := by
    intro s op s' h hs
    cases op with
    | allocProc =>
      obtain ⟨p, hm⟩ := hs
      simp only [forall_const, mapsStack_iff hE h hm]
    | other => simp only [reduceCtorEq, false_implies]
  exact hr.forall_iff hstart hstep hexact

end

/-! ## The first two processes -/

lemma bootKernel_free {E : Env Buddy.Pool} {s : Sys Buddy.Pool} (h : bootKernel = some (E, s)) :
    WindowFree s.mem E.kernelPagetable ∧ s.nextPid = 1 := by
  unfold bootKernel at h
  obtain ⟨⟨E0, m0⟩, hinit, h⟩ := bind_eq_some_iff.mp h
  obtain ⟨⟨kpgtbl, m1⟩, hk, h⟩ := bind_eq_some_iff.mp h
  cases h
  obtain ⟨hE0, hs0⟩ := bootCleared_ok hinit (by decide) (by decide)
  obtain ⟨-, -, -, -, -, hleaf, -⟩ := allocPagetable_spec hE0 hs0 hk
  refine ⟨fun vpn _ _ => ?_, rfl⟩
  unfold Unmapped
  rw [hleaf]
  rfl

/-- The stacks of the first two processes. -/
theorem kernel_stacks_first :
    ∃ E s p₁ s₁ p₂ s₂, bootKernel = some (E, s) ∧ allocProc E s = some (p₁, s₁) ∧
      allocProc E s₁ = some (p₂, s₂) ∧ StacksApart 1 2 ∧
      MapsStack E.kernelPagetable s.nextPid s.mem s₁.mem ∧
      MapsStack E.kernelPagetable s₁.nextPid s₁.mem s₂.mem := by
  have hrun : (bootKernel.bind fun x => (allocProc x.1 x.2).bind fun y =>
      (allocProc x.1 y.2).map fun _ => decide (y.2.nextPid = 2)) = some true := by
    decide +kernel
  obtain ⟨⟨E, s⟩, hboot, hrun⟩ := bind_eq_some_iff.mp hrun
  obtain ⟨⟨p₁, s₁⟩, h1, hrun⟩ := bind_eq_some_iff.mp hrun
  obtain ⟨⟨p₂, s₂⟩, h2, hres⟩ := map_eq_some_iff.mp hrun
  have hpid1 := of_decide_eq_true hres
  obtain ⟨hE, tab, hs, hk⟩ := bootKernel_ok hboot
  obtain ⟨hfree, hpid⟩ := bootKernel_free hboot
  obtain ⟨hpairs, hall⟩ := kernel_stacks_iff hE ⟨tab, hs, hk⟩ hfree hpid
  have hstep1 : kernelStep E (bootInv 0x80250000 0x80300000 0x80380000) Buddy.held s .allocProc s₁ :=
    ⟨p₁, h1⟩
  have hstep2 : kernelStep E (bootInv 0x80250000 0x80300000 0x80380000) Buddy.held s₁ .allocProc s₂ :=
    ⟨p₂, h2⟩
  have hr := (Run.nil.snoc hstep1).snoc hstep2
  have hmaps := (hall _ _ hr).mpr (by
    intro t ht _
    simp only [List.nil_append, List.cons_append, List.mem_cons, List.not_mem_nil, or_false] at ht
    rcases ht with rfl | rfl
    · exact hpid.trans_le (by decide)
    · exact (show s₁.nextPid = 2 from hpid1).trans_le (by decide))
  refine ⟨E, s, p₁, s₁, p₂, s₂, hboot, h1, h2, ((hpairs 1 2).mpr (by decide)).2.2, ?_, ?_⟩
  · exact hmaps ⟨s, .allocProc, s₁⟩ (by simp) rfl
  · exact hmaps ⟨s₁, .allocProc, s₂⟩ (by simp) rfl

/-- The stack of 104858 is above the trapframe, and that of 209716 starts within the stack of 1. -/
theorem kstack_collides :
    trapframeVa < kstack 104858 ∧ ¬ StackPlaced 104858 ∧ ¬ StacksApart 1 209716 ∧
      kstack 1 < kstack 209716 ∧ kstack 209716 < kstack 1 + kstackSize := by
  refine ⟨by decide, ?_, ?_, by decide, by decide⟩
  · unfold StackPlaced
    decide
  · unfold StacksApart
    decide

end Hana.Proc
