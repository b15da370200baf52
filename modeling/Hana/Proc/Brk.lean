import Hana.Lib.Run
import Hana.Mm.Vm.Teardown
import Hana.Mm.Vm.Unmap
import Hana.Proc.Fork
import Mathlib.Data.List.Nodup

/-!
# The heap and its release

`uvmmake` of the RISC-V `mm.c` and the system call `brk` of `sys_mm.c`: the heap grows by one
block of the allocator for each call, and the pages of the block are mapped one by one.
`ReturnedOnce` is what the teardown of an address space is for: every block that was
allocated for it is passed to `kfree` once, by its own address.

The tables are returned that way. The blocks of the heap are not: `uvmunmap` does not reach
the leaf entries, and `freewalk` does not look at them. So the blocks of a space are returned
exactly when its heap never grew.
-/

namespace Hana.Proc

open Lib Vm Option

variable {A : Type}

/-- `uvmmake`; `trampoline` is the address of the trampoline's code. -/
def uvmmake (E : Env A) (trampoline trapframe : Nat) (m : Mem A) : Option (Nat × Mem A) := do
  let (upgtbl, m) ← allocPagetable E m
  let m ← mappages E upgtbl trampolineVa trampoline pgSize (pteR ||| pteX) m
  let m ← mappages E upgtbl trapframeVa trapframe pgSize (pteR ||| pteW) m
  some (upgtbl, m)

/-- The system call `brk`, with its result, the process and the memory. -/
def sysBrk (E : Env A) (brk : Nat) (p : Process) (m : Mem A) : Option (Int × Process × Mem A) :=
  if brk = 0 then some (p.sz, p, m)
  else if brk < p.heapStart ∨ maxVa < brk then some (-1, p, m)
  else
    let newBrk := pgRoundUp brk
    if p.sz < newBrk then do
      let size := newBrk - p.sz
      let (pa, m) ← kalloc E size m
      if pa = 0 then some (-1, p, m)
      else
        let m ← mappages E p.pagetable p.sz pa size (pteRw ||| pteU) m
        some (0, { p with sz := newBrk }, m)
    else if newBrk < p.sz then do
      let m ← uvmunmap E p.pagetable newBrk ((p.sz - newBrk) >>> pgShift) true m
      some (0, { p with sz := newBrk }, m)
    else some (0, { p with sz := newBrk }, m)

/-- The call asks for more memory. -/
def Grows (p : Process) (brk : Nat) : Prop :=
  brk ≠ 0 ∧ p.heapStart ≤ brk ∧ brk ≤ maxVa ∧ p.sz < pgRoundUp brk

/-- A call of `brk`. An increment of more than 4 MiB has an order for which there is no free area;
the allocator then reads behind its array, and the call has no defined result. -/
def brkStep (E : Env A) (s : Process × Mem A) (brk : Nat) (s' : Process × Mem A) : Prop :=
  (Grows s.1 brk → pgRoundUp brk - s.1.sz ≤ Buddy.maxRequest) ∧
    ∃ res, sysBrk E brk s.1 s.2 = some (res, s'.1, s'.2)

/-- Every block that is allocated in `m₁` and was not in `m₀` is passed to `kfree` once between `m₁`
and `m₂`, by its first page and with its size, and none of its other pages is. -/
def ReturnedOnce (Held : A → Nat → Nat → Prop) (m₀ m₁ m₂ : Mem A) : Prop :=
  ∃ freed, m₂.kfreed = m₁.kfreed ++ freed ∧
    ∀ q k, Held m₁.alloc q k → ¬ Held m₀.alloc q k →
      freed.count q = 1 ∧ ¬ Held m₂.alloc q k ∧ ∀ x ∈ freed, ¬ (q < x ∧ x < q + 4096 * k)

/-- The memory of a space under the root `r`: what was allocated since `m₀` are the tables of the
root and the blocks `data` of the heap. -/
structure Space (Inv : A → Prop) (Held : A → Nat → Nat → Prop) (r : Nat) (m₀ : Mem A)
    (data : List (Nat × Nat)) (m : Mem A) (tab : Nat → Option Place) : Prop where
  shaped : Shaped Inv Held m tab
  clean : Clean r m tab
  root : tab r = some (rootPlace r)
  kept : ∀ {q k}, Held m₀.alloc q k → Held m.alloc q k
  blocks : ∀ {q k}, Held m.alloc q k →
    Held m₀.alloc q k ∨ (∃ pl, tab q = some pl ∧ pl.root = r) ∨ (q, k) ∈ data
  heap : ∀ b ∈ data, Held m.alloc b.1 b.2 ∧ ¬ Held m₀.alloc b.1 b.2 ∧ tab b.1 = none

variable {trampoline trapframe brk : Nat} {s s' : Process × Mem A} {vmas : List VmArea}

section

variable {Inv : A → Prop} {Held : A → Nat → Nat → Prop} {lo hi : Nat} {E : Env A}
variable {m₀ m m' : Mem A} {tab tab' : Nat → Option Place} {r : Nat} {data : List (Nat × Nat)}
variable {p p' : Process}

lemma Space.heap_owned (hE : E.Ok lo hi Inv Held) (h : Space Inv Held r m₀ data m tab)
    {b : Nat × Nat} (hb : b ∈ data) : Owned Held m.alloc b.1 := by
  have hheld := (h.heap b hb).1
  have hpos := (hE.lawful.range h.shaped.alloc hheld).2.1
  exact ⟨b.1, b.2, hheld, le_rfl, by omega⟩

/-- New tables below the root belong to the space. -/
lemma Space.tablesOnly (hE : E.Ok lo hi Inv Held) (h : Space Inv Held r m₀ data m tab)
    (ht : TablesOnly Held r m tab m' tab') (hs : Shaped Inv Held m' tab') :
    Space Inv Held r m₀ data m' tab' := by
  refine ⟨hs, ht.clean h.clean, ht.le h.root, fun hq => ht.held (h.kept hq), ?_, ?_⟩
  · intro q k hq
    rcases ht.fresh hq with hq | ⟨rfl, hno, pl, hpl⟩
    · rcases h.blocks hq with hq | ⟨pl, hpl, hroot⟩ | hq
      · exact .inl hq
      · exact .inr (.inl ⟨pl, ht.le hpl, hroot⟩)
      · exact .inr (.inr hq)
    · refine .inr (.inl ⟨pl, hpl, ?_⟩)
      by_contra hne
      have hheld := h.shaped.held (ht.other hpl hne)
      exact hno ⟨q, 1, hheld, le_rfl, by omega⟩
  · intro b hb
    obtain ⟨hheld, hnew, hnone⟩ := h.heap b hb
    refine ⟨ht.held hheld, hnew, ?_⟩
    cases htab : tab' b.1 with
    | none => rfl
    | some pl =>
      rcases ht.new htab with hold | hno
      · rw [hnone] at hold
        cases hold
      · exact absurd (h.heap_owned hE hb) hno

/-- An allocation adds a block to the heap. -/
lemma Space.kalloc (hE : E.Ok lo hi Inv Held) (h : Space Inv Held r m₀ data m tab) {sz pa : Nat}
    (hpos : 0 < sz) (hsz : sz ≤ Buddy.maxRequest) (hk : Vm.kalloc E sz m = some (pa, m')) :
    ∃ n, Space Inv Held r m₀ ((pa, n) :: data) m' tab := by
  obtain ⟨hs, hm⟩ := kalloc_shaped hE h.shaped hpos hsz hk
  obtain ⟨⟨p', a⟩, halloc, heq⟩ := bind_eq_some_iff.mp hk
  cases heq
  obtain ⟨_, n, hn, _, hapart, hheld⟩ := hE.lawful.kalloc_spec h.shaped.alloc hpos hsz halloc
  refine ⟨n, ⟨hs, h.clean, h.root, fun hq => (hheld _ _).mpr (.inr (h.kept hq)), ?_, ?_⟩⟩
  · intro q k hq
    rcases (hheld q k).mp hq with ⟨rfl, rfl⟩ | hq
    · exact .inr (.inr List.mem_cons_self)
    · rcases h.blocks hq with hq | hq | hq
      · exact .inl hq
      · exact .inr (.inl hq)
      · exact .inr (.inr (List.mem_cons_of_mem _ hq))
  · intro b hb
    rcases List.mem_cons.mp hb with rfl | hb
    · refine ⟨(hheld _ _).mpr (.inl ⟨rfl, rfl⟩), ?_, ?_⟩
      · intro hold
        have := hapart pa n (h.kept hold)
        omega
      · cases htab : tab pa with
        | none => rfl
        | some pl =>
          have := hapart pa 1 (h.shaped.held htab)
          omega
    · obtain ⟨hheld', hnew, hnone⟩ := h.heap b hb
      exact ⟨(hheld _ _).mpr (.inr hheld'), hnew, hnone⟩

/-! ## Making the space -/

lemma uvmmake_cases (h : uvmmake E trampoline trapframe m = some (r, m')) :
    ∃ m1 m2, allocPagetable E m = some (r, m1) ∧
      mappages E r trampolineVa trampoline pgSize (pteR ||| pteX) m1 = some m2 ∧
      mappages E r trapframeVa trapframe pgSize (pteR ||| pteW) m2 = some m' := by
  simp only [uvmmake, bind_eq_bind, bind_eq_some_iff, some.injEq, Prod.exists,
    Prod.mk.injEq] at h
  obtain ⟨t, m1, halloc, m2, hmap, m3, hmap', rfl, rfl⟩ := h
  exact ⟨m1, m2, halloc, hmap, hmap'⟩

/-- A new space consists of tables only. -/
lemma uvmmake_space (hE : E.Ok lo hi Inv Held) (hs : Shaped Inv Held m tab)
    (h : uvmmake E trampoline trapframe m = some (r, m')) :
    ∃ tab', Space Inv Held r m [] m' tab' := by
  obtain ⟨m1, m2, halloc, hmap, hmap'⟩ := uvmmake_cases h
  obtain ⟨tab1, hs1, _, hr1, _, _, _, _, _, _, hheld⟩ := allocPagetable_spec hE hs halloc
  have hspace : Space Inv Held r m [] m1 tab1 := by
    refine ⟨hs1, allocPagetable_clean halloc hs1.tables hr1, hr1,
      fun hq => (hheld _ _).mpr (.inr hq), ?_, ?_⟩
    · intro q k hq
      rcases (hheld q k).mp hq with ⟨rfl, _⟩ | hq
      · exact .inr (.inl ⟨_, hr1, rfl⟩)
      · exact .inl hq
    · intro b hb
      cases hb
  obtain ⟨tab2, hs2, ht2⟩ := mappages_tablesOnly hE hs1 hr1 hmap
  obtain ⟨tab3, hs3, ht3⟩ := mappages_tablesOnly hE hs2 (ht2.le hr1) hmap'
  exact ⟨tab3, (hspace.tablesOnly hE ht2 hs2).tablesOnly hE ht3 hs3⟩

/-- A new space maps the trapframe and the trampoline, for the kernel, and nothing else. -/
lemma uvmmake_leaf (hE : E.Ok lo hi Inv Held) (hs : Shaped Inv Held m tab)
    (htrampoline : trampoline + 4096 ≤ 2 ^ 64)
    (htrapframe : trapframe + 4096 ≤ 2 ^ 64) (h : uvmmake E trampoline trapframe m = some (r, m')) :
    ∃ tab', Shaped Inv Held m' tab' ∧ tab' r = some (rootPlace r) ∧
      ∀ vpn, leaf m' r vpn =
        if vpn % 2 ^ 27 = trapframeVa / 4096 then pa2pte trapframe ||| (pteR ||| pteW) ||| pteV
        else if vpn % 2 ^ 27 = trampolineVa / 4096 then
          pa2pte trampoline ||| (pteR ||| pteX) ||| pteV
        else 0 := by
  obtain ⟨m1, m2, halloc, hmap, hmap'⟩ := uvmmake_cases h
  obtain ⟨tab1, hs1, _, hr1, _, hzero, _⟩ := allocPagetable_spec hE hs halloc
  obtain ⟨tab2, hs2, hp2⟩ := mappages_page hE hs1 hr1 (by decide) (by decide) htrampoline hmap
  obtain ⟨tab3, hs3, hp3⟩ :=
    mappages_page hE hs2 (hp2.le hr1) (by decide) (by decide) htrapframe hmap'
  have hframe : (trapframeVa >>> 12) % 2 ^ 27 = trapframeVa / 4096 := by decide
  have hcode : (trampolineVa >>> 12) % 2 ^ 27 = trampolineVa / 4096 := by decide
  refine ⟨tab3, hs3, hp3.le (hp2.le hr1), fun vpn => ?_⟩
  simp only [hp3.leaf (hp2.le hr1), hp2.leaf hr1, hzero, hframe, hcode, true_and]

/-! ## The calls of brk -/

/-- A call that does not grow the heap leaves the memory alone; one that does takes a block and maps
it, if there is one. -/
lemma sysBrk_cases {res : Int} (h : sysBrk E brk p m = some (res, p', m')) :
    p'.pagetable = p.pagetable ∧ (¬ Grows p brk ∧ m' = m ∨
      Grows p brk ∧ ∃ pa m1, Vm.kalloc E (pgRoundUp brk - p.sz) m = some (pa, m1) ∧
        (m' = m1 ∨ mappages E p.pagetable p.sz pa (pgRoundUp brk - p.sz) (pteRw ||| pteU) m1 =
          some m')) := by
  simp only [sysBrk, bind_eq_bind] at h
  unfold Grows
  split_ifs at h with hzero hrange hgrow hshrink
  · cases h
    exact ⟨rfl, .inl ⟨fun hg => hg.1 hzero, rfl⟩⟩
  · cases h
    exact ⟨rfl, .inl ⟨fun hg => by omega, rfl⟩⟩
  · obtain ⟨⟨pa, m1⟩, hk, h⟩ := bind_eq_some_iff.mp h
    have hg : brk ≠ 0 ∧ p.heapStart ≤ brk ∧ brk ≤ maxVa ∧ p.sz < pgRoundUp brk := by omega
    split_ifs at h
    · cases h
      exact ⟨rfl, .inr ⟨hg, pa, m1, hk, .inl rfl⟩⟩
    · obtain ⟨m2, hm, h⟩ := bind_eq_some_iff.mp h
      cases h
      exact ⟨rfl, .inr ⟨hg, pa, m1, hk, .inr hm⟩⟩
  · obtain ⟨m2, hm, h⟩ := bind_eq_some_iff.mp h
    cases h
    rw [uvmunmap_eq E _ _ true m (pgRoundUp_dvd brk)] at hm
    cases hm
    exact ⟨rfl, .inl ⟨fun hg => hgrow hg.2.2.2, rfl⟩⟩
  · cases h
    exact ⟨rfl, .inl ⟨fun hg => hgrow hg.2.2.2, rfl⟩⟩

lemma brkStep_space (hE : E.Ok lo hi Inv Held)
    (h : Space Inv Held s.1.pagetable m₀ data s.2 tab) (hb : brkStep E s brk s') :
    s'.1.pagetable = s.1.pagetable ∧ ∃ tab' data', Space Inv Held s.1.pagetable m₀ data' s'.2 tab' ∧
      (¬ Grows s.1 brk ∧ data' = data ∨ Grows s.1 brk ∧ data' ≠ []) := by
  obtain ⟨hsize, res, hb⟩ := hb
  obtain ⟨hp, ⟨hg, hm⟩ | ⟨hg, pa, m1, hk, hm⟩⟩ := sysBrk_cases hb
  · rw [hm]
    exact ⟨hp, tab, data, h, .inl ⟨hg, rfl⟩⟩
  · refine ⟨hp, ?_⟩
    have hpos : 0 < pgRoundUp brk - s.1.sz := Nat.sub_pos_of_lt hg.2.2.2
    obtain ⟨n, h1⟩ := h.kalloc hE hpos (hsize hg) hk
    rcases hm with hm | hm
    · rw [hm]
      exact ⟨tab, _, h1, .inr ⟨hg, List.cons_ne_nil _ _⟩⟩
    · obtain ⟨tab', hs', ht⟩ := mappages_tablesOnly hE h1.shaped h1.root hm
      exact ⟨tab', _, h1.tablesOnly hE ht hs', .inr ⟨hg, List.cons_ne_nil _ _⟩⟩

/-- After any number of calls the heap has a block exactly when one of them grew it. -/
lemma brkRun_space (hE : E.Ok lo hi Inv Held) {ts : List (Transition (Process × Mem A) Nat)}
    (h : Space Inv Held s.1.pagetable m₀ [] s.2 tab) (hr : Run (brkStep E) s ts s') :
    s'.1.pagetable = s.1.pagetable ∧ ∃ tab' data, Space Inv Held s.1.pagetable m₀ data s'.2 tab' ∧
      (data = [] ↔ ∀ t ∈ ts, ¬ Grows t.source.1 t.label) := by
  induction hr with
  | nil => exact ⟨rfl, tab, [], h, by simp⟩
  | @snoc ts s1 s2 brk _ hb ih =>
    obtain ⟨hp1, tab1, data1, h1, hiff⟩ := ih
    rw [← hp1] at h1
    obtain ⟨hp2, tab2, data2, h2, hdata⟩ := brkStep_space hE h1 hb
    rw [hp1] at hp2 h2
    refine ⟨hp2, tab2, data2, h2, ?_⟩
    simp only [List.mem_append, List.mem_singleton, or_imp, forall_and, forall_eq]
    rcases hdata with ⟨hg, rfl⟩ | ⟨hg, hne⟩
    · rw [hiff]
      exact ⟨fun hall => ⟨hall, hg⟩, fun hall => hall.1⟩
    · exact ⟨fun hnil => absurd hnil hne, fun hall => absurd hg hall.2⟩

/-! ## Releasing the space -/

lemma uvmfreeVma_eq (hvmas : ∀ vma ∈ vmas, 4096 ∣ vma.start) :
    uvmfreeVma E r vmas m = freewalk E 3 r m := by
  have hturn : ∀ vma ∈ vmas,
      uvmunmap E r vma.start ((vma.end_ - vma.start) >>> pgShift) true m = some m :=
    fun vma hvma => uvmunmap_eq E r _ true m (hvmas vma hvma)
  have hloop := foldlM_some_self (fun m (vma : VmArea) =>
    uvmunmap E r vma.start ((vma.end_ - vma.start) >>> pgShift) true m) vmas m hturn
  rw [uvmfreeVma, hloop, bind_eq_bind, bind_some]

/-- The teardown returns the tables, so it returns everything when there is no heap. -/
lemma Space.returnedOnce_iff (hE : E.Ok lo hi Inv Held) (h : Space Inv Held r m₀ data m tab)
    (hvmas : ∀ vma ∈ vmas, 4096 ∣ vma.start) :
    (∃ m', uvmfreeVma E r vmas m = some m' ∧ ReturnedOnce Held m₀ m m') ↔ data = [] := by
  obtain ⟨m1, freed, hfree, hrel, hnodup, hmem⟩ := freewalk_spec hE h.shaped h.clean h.root
  rw [uvmfreeVma_eq hvmas]
  constructor
  · rintro ⟨m', hm', freed', hfreed', honce⟩
    rw [hfree] at hm'
    cases hm'
    have hsame : freed' = freed := List.append_cancel_left (hfreed'.symm.trans hrel.kfreed)
    subst hsame
    refine List.eq_nil_iff_forall_not_mem.mpr fun b hb => ?_
    obtain ⟨hheld, hnew, hnone⟩ := h.heap b hb
    have hcount := (honce b.1 b.2 hheld hnew).1
    obtain ⟨pl, hpl, _⟩ := (hmem b.1).mp (List.count_pos_iff.mp (by omega))
    rw [hnone] at hpl
    cases hpl
  · rintro rfl
    refine ⟨m1, hfree, freed, hrel.kfreed, fun q k hq hnew => ?_⟩
    obtain ⟨pl, hpl, hroot⟩ : ∃ pl, tab q = some pl ∧ pl.root = r := by
      rcases h.blocks hq with hold | htable | hheap
      · exact absurd hold hnew
      · exact htable
      · cases hheap
    have hq1 := h.shaped.held hpl
    have hk : k = 1 := by
      have hpos := (hE.lawful.range h.shaped.alloc hq).2.1
      rcases hE.lawful.apart h.shaped.alloc hq hq1 with ⟨_, hk⟩ | hlt | hlt
      · exact hk
      · omega
      · omega
    have hin : q ∈ freed := (hmem q).mpr ⟨pl, hpl, hroot⟩
    refine ⟨List.count_eq_one_of_mem hnodup hin, fun hheld => ?_, fun x hx hbetween => ?_⟩
    · exact ((hrel.held q k).mp hheld).2 ⟨hk, hin⟩
    · obtain ⟨pl', hpl', _⟩ := (hmem x).mp hx
      have hdvd := h.shaped.tables.dvd hpl
      have hdvd' := h.shaped.tables.dvd hpl'
      omega

/-- The blocks that were allocated for a space are returned once each, whatever areas are unmapped
before its tables are freed, exactly when no call of `brk` grew the heap. -/
theorem brk_blocks_returned_iff (hE : E.Ok lo hi Inv Held) (hs : Shaped Inv Held m₀ tab)
    {trampoline trapframe : Nat} (hmake : uvmmake E trampoline trapframe m₀ = some (r, m))
    (hp : p.pagetable = r) {ts : List (Transition (Process × Mem A) Nat)}
    (hr : Run (brkStep E) (p, m) ts (p', m')) {vmas : List VmArea}
    (hvmas : ∀ vma ∈ vmas, 4096 ∣ vma.start) :
    (∃ m₁, uvmfreeVma E r vmas m' = some m₁ ∧ ReturnedOnce Held m₀ m' m₁) ↔
      ∀ t ∈ ts, ¬ Grows t.source.1 t.label := by
  obtain ⟨tab1, h1⟩ := uvmmake_space hE hs hmake
  subst hp
  obtain ⟨_, tab2, data, h2, hiff⟩ := brkRun_space hE (s := (p, m)) h1 hr
  rw [← hiff]
  exact h2.returnedOnce_iff hE hvmas

end

/-! ## A small kernel with one space -/

abbrev BuddyMem := Mem Buddy.Pool

/-- The small kernel before and after a space is made in it. -/
def bootSpace : Option (Env Buddy.Pool × BuddyMem × Nat × BuddyMem) := do
  let (E, m₀) ← bootSmall
  let (r, m) ← uvmmake E 0x80200000 0x80201000 m₀
  some (E, m₀, r, m)

lemma bootSpace_cases {E : Env Buddy.Pool} {m₀ m : BuddyMem} {r : Nat}
    (h : bootSpace = some (E, m₀, r, m)) :
    bootSmall = some (E, m₀) ∧ uvmmake E 0x80200000 0x80201000 m₀ = some (r, m) := by
  simp only [bootSpace, bind_eq_bind, bind_eq_some_iff, some.injEq, Prod.exists,
    Prod.mk.injEq] at h
  obtain ⟨E', m0', hboot, r', m', hmake, rfl, rfl, rfl, rfl⟩ := h
  exact ⟨hboot, hmake⟩

/-- A process with a heap from `0x1000` to `0x3000`. -/
def heapProcess (r : Nat) : Process := ⟨1, r, 0x80201000, [], 0x3000, 0x1000, ['/'], []⟩

/-- The heap is asked for its end and then made smaller. -/
theorem brk_blocks_returned_shrink :
    ∃ E m₀ r m ts, bootSpace = some (E, m₀, r, m) ∧ ts.length = 2 ∧
      Run (brkStep E) (heapProcess r, m) ts ({ heapProcess r with sz := 0x2000 }, m) ∧
      ∃ m₁, uvmfreeVma E r [⟨0x1000, 0x3000, 0⟩] m = some m₁ ∧
        ReturnedOnce Buddy.held m₀ m m₁ := by
  have hrun : bootSpace.isSome = true := by decide +kernel
  obtain ⟨⟨E, m₀, r, m⟩, hboot⟩ := isSome_iff_exists.mp hrun
  obtain ⟨hsmall, hmake⟩ := bootSpace_cases hboot
  obtain ⟨hE, hs⟩ := bootSmall_ok hsmall
  have hstay : ∀ brk ≤ 0x3000, ¬ Grows (heapProcess r) brk := by
    rintro brk hle ⟨_, _, _, hgrow⟩
    rw [pgRoundUp_eq (by omega)] at hgrow
    simp only [heapProcess] at hgrow
    omega
  have hask : brkStep E (heapProcess r, m) 0 (heapProcess r, m) :=
    ⟨fun hg => absurd hg (hstay 0 (by decide)), 0x3000, rfl⟩
  have hunmap : ∀ n, uvmunmap E r 0x2000 n true m = some m := fun n =>
    uvmunmap_eq E r n true m (by decide)
  have hround : pgRoundUp 0x2000 = 0x2000 := by decide
  have hshrink : brkStep E (heapProcess r, m) 0x2000 ({ heapProcess r with sz := 0x2000 }, m) := by
    refine ⟨fun hg => absurd hg (hstay 0x2000 (by decide)), 0, ?_⟩
    simp [sysBrk, heapProcess, hround, maxVa, hunmap]
  have hbrk := (Run.nil.snoc hask).snoc hshrink
  refine ⟨E, m₀, r, m, _, hboot, rfl, hbrk, ?_⟩
  refine (brk_blocks_returned_iff hE hs hmake rfl hbrk ?_).mpr ?_
  · intro vma hvma
    rcases List.mem_singleton.mp hvma with rfl
    decide
  · intro t ht
    rcases List.mem_cons.mp ht with rfl | ht
    · exact hstay 0 (by decide)
    · rcases List.mem_singleton.mp ht with rfl
      exact hstay 0x2000 (by decide)

/-- The heap grows by two pages; the block is not returned when its pages are unmapped and the
tables are freed. -/
theorem brk_block_not_returned :
    ∃ E m₀ r m p' m', bootSpace = some (E, m₀, r, m) ∧
      brkStep E (heapProcess r, m) 0x5000 (p', m') ∧ p'.sz = 0x5000 ∧
      ¬ ∃ m₁, uvmfreeVma E r [⟨0, 0x5000, 0⟩] m' = some m₁ ∧ ReturnedOnce Buddy.held m₀ m' m₁ := by
  have hrun : ((bootSpace.bind fun x => sysBrk x.1 0x5000 (heapProcess x.2.2.1) x.2.2.2).map
      fun x => x.2.1.sz) = some 0x5000 := by decide +kernel
  obtain ⟨⟨res, p', m'⟩, hbrk, hsz⟩ := map_eq_some_iff.mp hrun
  obtain ⟨⟨E, m₀, r, m⟩, hboot, hbrk⟩ := bind_eq_some_iff.mp hbrk
  obtain ⟨hsmall, hmake⟩ := bootSpace_cases hboot
  obtain ⟨hE, hs⟩ := bootSmall_ok hsmall
  have hround : pgRoundUp 0x5000 = 0x5000 := by decide
  have hmax : Buddy.maxRequest = 0x400000 := by decide
  have hgrow : Grows (heapProcess r) 0x5000 := by
    simp [Grows, heapProcess, hround, maxVa]
  have hstep : brkStep E (heapProcess r, m) 0x5000 (p', m') := by
    refine ⟨fun _ => ?_, res, hbrk⟩
    simp [heapProcess, hround, hmax]
  refine ⟨E, m₀, r, m, p', m', hboot, hstep, hsz, fun hreturned => ?_⟩
  obtain ⟨tab1, h1⟩ := uvmmake_space hE hs hmake
  obtain ⟨_, tab2, data, h2, ⟨hno, _⟩ | ⟨_, hne⟩⟩ :=
    brkStep_space hE (s := (heapProcess r, m)) h1 hstep
  · exact hno hgrow
  · refine hne ((h2.returnedOnce_iff hE ?_).mp hreturned)
    intro vma hvma
    rcases List.mem_singleton.mp hvma with rfl
    decide

end Hana.Proc
