import Hana.Mm.Vm.MapRange
import Hana.Proc.Brk

/-!
# What brk does to the heap

After a call of `brk` that succeeds, the pages from `heap_start` to the new break should be
mapped for reading and writing, each to a frame of its own, the pages that the heap gave up
should be unmapped, and no other mapping should have changed (`HeapKept`).

A call that grows the heap maps a fresh block of the allocator. It does so without looking
at the entries that it writes, so an area or the trapframe in the way is lost. A call that
shrinks the heap changes nothing but `p->sz`, because `uvmunmap` does not reach the entries.
Hence a call is exact if and only if the pages that stay were in order before it and the pages
between the two breaks were not mapped before it (`BrkExact`); for a heap that is in order the
second part rules out every call that shrinks it.
-/

namespace Hana.Proc

open Lib Vm Option

variable {A : Type}

/-- The page starts in the interval from `a`, included, to `b`, excluded. -/
abbrev PageIn (a b vpn : Nat) : Prop := a ≤ 4096 * vpn ∧ 4096 * vpn < b

/-- The page is mapped for the user's reads and writes, and no other page of the tables `roots` has
its frame. -/
structure HeapPage (Held : A → Nat → Nat → Prop) (roots : List Nat) (m : Mem A) (r vpn : Nat) :
    Prop where
  valid : has (leaf m r vpn) pteV = true
  user : has (leaf m r vpn) pteU = true
  read : has (leaf m r vpn) pteR = true
  write : has (leaf m r vpn) pteW = true
  owned : Owned Held m.alloc (pte2pa (leaf m r vpn))
  own : ∀ q ∈ roots, ∀ vpn' < 2 ^ 27, has (leaf m q vpn') pteV = true →
    pte2pa (leaf m q vpn') = pte2pa (leaf m r vpn) → q = r ∧ vpn' = vpn

/-- What a successful call leaves: the heap ends at the new break, it is mapped, what it gave up is
not mapped, and mappings outside of it are as before. -/
structure HeapKept (Held : A → Nat → Nat → Prop) (roots : List Nat) (s : Process × Mem A) (brk : Nat)
    (s' : Process × Mem A) : Prop where
  sz : s'.1.sz = pgRoundUp brk
  heap : ∀ vpn, PageIn s.1.heapStart s'.1.sz vpn → HeapPage Held roots s'.2 s.1.pagetable vpn
  above : ∀ vpn, PageIn s'.1.sz s.1.sz vpn → has (leaf s'.2 s.1.pagetable vpn) pteV = false
  outside : ∀ vpn < 2 ^ 27, ¬ PageIn s.1.heapStart s.1.sz vpn →
    (has (leaf s.2 s.1.pagetable vpn) pteV = true ∨ ¬ PageIn s.1.heapStart s'.1.sz vpn) →
    leaf s'.2 s.1.pagetable vpn = leaf s.2 s.1.pagetable vpn

/-- The argument is one that `brk` accepts. -/
def Accepts (p : Process) (brk : Nat) : Prop := brk ≠ 0 ∧ p.heapStart ≤ brk ∧ brk ≤ maxVa

/-- A call of `brk` with its result. -/
def brkCall (E : Env A) (s : Process × Mem A) (call : Nat × Int) (s' : Process × Mem A) : Prop :=
  (Grows s.1 call.1 → pgRoundUp call.1 - s.1.sz ≤ Buddy.maxRequest) ∧
    sysBrk E call.1 s.1 s.2 = some (call.2, s'.1, s'.2)

/-- What the call should do: an argument that is refused changes nothing. -/
def BrkMeets (Held : A → Nat → Nat → Prop) (roots : List Nat) (s : Process × Mem A)
    (call : Nat × Int) (s' : Process × Mem A) : Prop :=
  (Accepts s.1 call.1 → call.2 = 0 ∧ HeapKept Held roots s call.1 s') ∧
    (call.1 ≠ 0 → ¬ Accepts s.1 call.1 → call.2 = -1 ∧ s' = s)

/-- The pages below both breaks are in order, and those between the breaks are not mapped. -/
def BrkExact (Held : A → Nat → Nat → Prop) (roots : List Nat) (s : Process × Mem A) (brk : Nat) :
    Prop :=
  (∀ vpn, PageIn s.1.heapStart (min s.1.sz (pgRoundUp brk)) vpn →
    HeapPage Held roots s.2 s.1.pagetable vpn) ∧
  ∀ vpn, PageIn (min s.1.sz (pgRoundUp brk)) (max s.1.sz (pgRoundUp brk)) vpn →
    has (leaf s.2 s.1.pagetable vpn) pteV = false

/-- The page tables of the processes, in a memory where mapped frames are allocated. -/
structure Spaces (Inv : A → Prop) (Held : A → Nat → Nat → Prop) (lo hi : Nat) (roots : List Nat)
    (m : Mem A) (tab : Nat → Option Place) : Prop where
  shaped : Shaped Inv Held m tab
  isRoot : ∀ q ∈ roots, tab q = some (rootPlace q)
  allocated : ∀ q ∈ roots, ∀ vpn, has (leaf m q vpn) pteV = true →
    lo ≤ pte2pa (leaf m q vpn) → pte2pa (leaf m q vpn) < hi → Owned Held m.alloc (pte2pa (leaf m q vpn))

/-- A process with its break, and the spaces. -/
structure HeapSpace (Inv : A → Prop) (Held : A → Nat → Nat → Prop) (lo hi : Nat) (roots : List Nat)
    (s : Process × Mem A) : Prop where
  spaces : ∃ tab, Spaces Inv Held lo hi roots s.2 tab
  table : s.1.pagetable ∈ roots
  start : 4096 ∣ s.1.heapStart
  stop : 4096 ∣ s.1.sz
  le : s.1.heapStart ≤ s.1.sz

variable {m1 : Mem A} {vpn : Nat} {s s' : Process × Mem A} {call : Nat × Int}

section

variable {Inv : A → Prop} {Held : A → Nat → Nat → Prop} {lo hi : Nat} {E : Env A} {roots : List Nat}
variable {m m' : Mem A} {tab : Nat → Option Place} {r : Nat} {p p' : Process} {brk : Nat}

lemma pteRwU_lt : pteRw ||| pteU < 2 ^ 10 := by decide

/-- The break stays below the top of the address space. -/
lemma pgRoundUp_le_maxVa (h : brk ≤ maxVa) : pgRoundUp brk ≤ maxVa := by
  unfold maxVa at h ⊢
  rw [pgRoundUp_eq (by omega)]
  omega

lemma le_pgRoundUp (h : brk ≤ maxVa) : brk ≤ pgRoundUp brk := by
  unfold maxVa at h
  rw [pgRoundUp_eq (by omega)]
  omega

/-! ## One call -/

/-- The outcomes of a call that returns. -/
lemma sysBrk_outcome {res : Int}
    (hpos : ∀ {sz pa m1}, 0 < sz → sz ≤ Buddy.maxRequest → Vm.kalloc E sz m = some (pa, m1) → pa ≠ 0)
    (hsize : Grows p brk → pgRoundUp brk - p.sz ≤ Buddy.maxRequest)
    (h : sysBrk E brk p m = some (res, p', m')) :
    (brk = 0 ∧ p' = p ∧ m' = m) ∨ (brk ≠ 0 ∧ ¬ Accepts p brk ∧ res = -1 ∧ p' = p ∧ m' = m) ∨
    (Accepts p brk ∧ res = 0 ∧ p' = { p with sz := pgRoundUp brk } ∧
      ((pgRoundUp brk ≤ p.sz ∧ m' = m) ∨
        (p.sz < pgRoundUp brk ∧ pgRoundUp brk - p.sz ≤ Buddy.maxRequest ∧
          ∃ pa m1, Vm.kalloc E (pgRoundUp brk - p.sz) m = some (pa, m1) ∧
            mappages E p.pagetable p.sz pa (pgRoundUp brk - p.sz) (pteRw ||| pteU) m1 = some m'))) := by
  simp only [sysBrk, bind_eq_bind] at h
  unfold Accepts
  split_ifs at h with hzero hrange hgrow hshrink
  · cases h
    exact .inl ⟨hzero, rfl, rfl⟩
  · cases h
    exact .inr (.inl ⟨hzero, by omega, rfl, rfl, rfl⟩)
  · have hreq := hsize ⟨hzero, by omega, by omega, hgrow⟩
    obtain ⟨⟨pa, m1⟩, hk, h⟩ := bind_eq_some_iff.mp h
    rw [if_neg (hpos (by omega) hreq hk)] at h
    obtain ⟨m2, hm, h⟩ := bind_eq_some_iff.mp h
    cases h
    exact .inr (.inr ⟨by omega, rfl, rfl, .inr ⟨hgrow, hreq, pa, m1, hk, hm⟩⟩)
  · obtain ⟨m2, hm, h⟩ := bind_eq_some_iff.mp h
    cases h
    rw [uvmunmap_eq E _ _ true m (pgRoundUp_dvd brk)] at hm
    cases hm
    exact .inr (.inr ⟨by omega, rfl, rfl, .inl ⟨by omega, rfl⟩⟩)
  · cases h
    exact .inr (.inr ⟨by omega, rfl, rfl, .inl ⟨by omega, rfl⟩⟩)

lemma kalloc_ne_zero (hE : E.Ok lo hi Inv Held) (hs : Shaped Inv Held m tab) {sz pa : Nat}
    (hpos : 0 < sz) (hsz : sz ≤ Buddy.maxRequest)
    (hk : Vm.kalloc E sz m = some (pa, m1)) : pa ≠ 0 := by
  have hrange := kalloc_range hE hs hpos hsz hk
  have hlo := hE.lo_pos
  omega

/-- What growing from `sz` to `stop` does: the pages in between get the frames of a block at `pa`, which
nothing was using, and the other pages of all tables keep their entries. -/
structure Grown (Held : A → Nat → Nat → Prop) (lo hi : Nat) (roots : List Nat) (r sz stop pa : Nat)
    (m m' : Mem A) : Prop where
  dvd : 4096 ∣ pa
  low : lo ≤ pa
  high : pa + (stop - sz) ≤ hi
  inside : ∀ vpn, PageIn sz stop vpn →
    leaf m' r vpn = pa2pte (pa + (4096 * vpn - sz)) ||| (pteRw ||| pteU) ||| pteV
  outside : ∀ vpn < 2 ^ 27, ¬ PageIn sz stop vpn → leaf m' r vpn = leaf m r vpn
  other : ∀ q ∈ roots, q ≠ r → ∀ vpn, leaf m' q vpn = leaf m q vpn
  fresh : ∀ x, pa ≤ x → x < pa + (stop - sz) → Owned Held m'.alloc x ∧ ¬ Owned Held m.alloc x
  owned : ∀ {x}, Owned Held m.alloc x → Owned Held m'.alloc x
  managed : ∀ {x}, Owned Held m'.alloc x → lo ≤ x ∧ x < hi

lemma brk_grown (hE : E.Ok lo hi Inv Held) (h : Spaces Inv Held lo hi roots m tab) (hr : r ∈ roots)
    {sz stop pa : Nat} (hsz : 4096 ∣ sz) (hstop : 4096 ∣ stop) (hlt : sz < stop)
    (hmax : stop ≤ maxVa) (hreq : stop - sz ≤ Buddy.maxRequest)
    (hk : Vm.kalloc E (stop - sz) m = some (pa, m1))
    (hm : mappages E r sz pa (stop - sz) (pteRw ||| pteU) m1 = some m') :
    (∃ tab', Shaped Inv Held m' tab' ∧ ∀ q ∈ roots, tab' q = some (rootPlace q)) ∧
      Grown Held lo hi roots r sz stop pa m m' := by
  have hmaxReq : Buddy.maxRequest = 0x400000 := by decide
  unfold maxVa at hmax
  obtain ⟨hs1, hm1⟩ := kalloc_shaped hE h.shaped (by omega) hreq hk
  obtain ⟨⟨pa', a⟩, halloc, heq⟩ := bind_eq_some_iff.mp hk
  cases heq
  obtain ⟨hinv, n, hn, -, hapart, hheld⟩ := hE.lawful.kalloc_spec h.shaped.alloc (by omega) hreq halloc
  have hblock : Held a pa n := (hheld pa n).mpr (.inl ⟨rfl, rfl⟩)
  obtain ⟨hdvd, hnpos, hlow, hhigh⟩ := hE.lawful.range hinv hblock
  have htop := hE.hi_lt
  have hcount : mapCount sz (stop - sz) = (stop - sz) / 4096 := by
    rw [mapCount_eq (by omega) (by omega) (by omega)]
    omega
  have hleaf1 : ∀ q vpn, leaf { m with alloc := a } q vpn = leaf m q vpn := fun _ _ => rfl
  obtain ⟨tab', hs', hb, -⟩ := mappages_entries hE hs1 (h.isRoot r hr) hm
  refine ⟨⟨tab', hs', fun q hq => hb.le (h.isRoot q hq)⟩, hdvd, hlow, by omega, ?_, ?_, ?_, ?_, ?_, ?_⟩
  · intro vpn hin
    have hhit := mappages_hit hE hs1 (h.isRoot r hr) (by omega) (by omega) hm
      (i := vpn - sz / 4096) (by omega) (.inl (by omega))
    have hidx : sz >>> 12 + (vpn - sz / 4096) = vpn := by
      omega
    have hframe : wrap64 (pa + (vpn - sz / 4096) * pgSize) = pa + (4096 * vpn - sz) := by
      rw [wrap64_of_lt (by unfold pgSize; omega)]
      unfold pgSize
      omega
    rwa [hidx, hframe] at hhit
  · intro vpn hvpn hout
    refine mappages_leaf_outside hE hs1 (h.isRoot r hr) (by omega) (by omega) (by omega) ?_ hm
    intro i hi
    omega
  · intro q hq hne vpn
    rw [hb.leaf (h.isRoot q hq) hne, hleaf1]
  · intro x hx hlt'
    refine ⟨⟨pa, n, hb.held hblock, hx, by omega⟩, ?_⟩
    rintro ⟨q, k, hq, hqx, hxq⟩
    have := hapart q k hq
    omega
  · rintro x ⟨q, k, hq, hqx, hxq⟩
    exact ⟨q, k, hb.held ((hheld q k).mpr (.inr hq)), hqx, hxq⟩
  · rintro x ⟨q, k, hq, hqx, hxq⟩
    obtain ⟨-, -, hqlo, hqhi⟩ := hE.lawful.range hs'.alloc hq
    omega

/-! ## Growing -/

section

variable {sz stop pa : Nat}

section

variable (hE : E.Ok lo hi Inv Held)
include hE

lemma Grown.frame (h : Grown Held lo hi roots r sz stop pa m m')
    (hsz : 4096 ∣ sz) (hin : PageIn sz stop vpn) :
    pte2pa (leaf m' r vpn) = pa + (4096 * vpn - sz) := by
  have hhigh := h.high
  have htop := hE.hi_lt
  have hdvd := h.dvd
  rw [h.inside vpn hin, pte2pa_entry (by omega) pteRwU_lt, frameOf]
  omega

section

variable (hsp : Spaces Inv Held lo hi roots m tab) (h : Grown Held lo hi roots r sz stop pa m m')
include hsp h

/-- The frames of the new pages are not mapped elsewhere. -/
lemma Grown.heapPage (hsz : 4096 ∣ sz) (hin : PageIn sz stop vpn) :
    HeapPage Held roots m' r vpn := by
  have hleaf := h.inside vpn hin
  have hframe := h.frame hE hsz hin
  have hin' := hin
  have hhigh := h.high
  obtain ⟨howned, hnot⟩ := h.fresh (pa + (4096 * vpn - sz)) (by omega) (by omega)
  have hflag : ∀ i < 10, has (leaf m' r vpn) (1 <<< i) = has (pteRw ||| pteU ||| pteV) (1 <<< i) := by
    intro i hi
    rw [hleaf, has_entry hi]
  refine ⟨hflag 0 (by decide), hflag 4 (by decide), hflag 1 (by decide), hflag 2 (by decide),
    by rw [hframe]; exact howned, ?_⟩
  intro q hq vpn' hvpn' hv heq
  rw [hframe] at heq
  have hold : leaf m' q vpn' ≠ leaf m q vpn' := by
    intro hsame
    rw [hsame] at hv heq
    have hmem := hsp.allocated q hq vpn' hv (by have := h.low; omega) (by omega)
    rw [heq] at hmem
    exact hnot hmem
  by_cases hqr : q = r
  · subst hqr
    refine ⟨rfl, ?_⟩
    by_cases hin1 : PageIn sz stop vpn'
    · rw [h.frame hE hsz hin1] at heq
      omega
    · exact absurd (h.outside vpn' hvpn' hin1) hold
  · exact absurd (h.other q hq hqr vpn') hold

/-- If nothing was mapped where the heap grows, a page below is in order as it was before. -/
lemma Grown.heapPage_iff (hsz : 4096 ∣ sz) (hr : r ∈ roots)
    (hfree : ∀ vpn, PageIn sz stop vpn → has (leaf m r vpn) pteV = false)
    (hlow : vpn < 2 ^ 27) (hvpn : ¬ PageIn sz stop vpn) :
    HeapPage Held roots m' r vpn ↔ HeapPage Held roots m r vpn := by
  have hleaf := h.outside vpn hlow hvpn
  constructor
  · intro hpage
    have hv := hpage.valid
    have hmanaged := h.managed hpage.owned
    rw [hleaf] at hv hmanaged
    refine ⟨hv, hleaf ▸ hpage.user, hleaf ▸ hpage.read, hleaf ▸ hpage.write,
      hsp.allocated r hr vpn hv hmanaged.1 hmanaged.2, ?_⟩
    intro q hq vpn' hvpn' hv' heq
    have hsame : leaf m' q vpn' = leaf m q vpn' := by
      by_cases hqr : q = r
      · subst hqr
        refine h.outside vpn' hvpn' fun hin => ?_
        rw [hfree vpn' hin] at hv'
        cases hv'
      · exact h.other q hq hqr vpn'
    exact hpage.own q hq vpn' hvpn' (by rw [hsame]; exact hv') (by rw [hsame, hleaf]; exact heq)
  · intro hpage
    have howned := h.owned hpage.owned
    refine ⟨hleaf.symm ▸ hpage.valid, hleaf.symm ▸ hpage.user, hleaf.symm ▸ hpage.read,
      hleaf.symm ▸ hpage.write, by rw [hleaf]; exact howned, ?_⟩
    intro q hq vpn' hvpn' hv' heq
    rw [hleaf] at heq
    by_cases hnew : q = r ∧ PageIn sz stop vpn'
    · -- a new page has a frame that was not allocated
      obtain ⟨rfl, hin⟩ := hnew
      rw [h.frame hE hsz hin] at heq
      have hno := (h.fresh (pa + (4096 * vpn' - sz)) (by omega) (by omega)).2
      rw [heq] at hno
      exact absurd hpage.owned hno
    · have hsame : leaf m' q vpn' = leaf m q vpn' := by
        by_cases hqr : q = r
        · subst hqr
          exact h.outside vpn' hvpn' fun hin => hnew ⟨rfl, hin⟩
        · exact h.other q hq hqr vpn'
      rw [hsame] at hv' heq
      exact hpage.own q hq vpn' hvpn' hv' heq

lemma Grown.spaces (hsz : 4096 ∣ sz) {tab' : Nat → Option Place} (hs' : Shaped Inv Held m' tab')
    (hroots : ∀ q ∈ roots, tab' q = some (rootPlace q)) :
    Spaces Inv Held lo hi roots m' tab' := by
  refine ⟨hs', hroots, fun q hq vpn hv hlow hhigh => ?_⟩
  have hmod : leaf m' q vpn = leaf m' q (vpn % 2 ^ 27) := (leaf_mod m' q vpn).symm
  rw [hmod] at hv hlow hhigh ⊢
  have hlt : vpn % 2 ^ 27 < 2 ^ 27 := Nat.mod_lt _ (by decide)
  generalize vpn % 2 ^ 27 = vpn at *
  by_cases hnew : q = r ∧ PageIn sz stop vpn
  · obtain ⟨rfl, hin⟩ := hnew
    rw [h.frame hE hsz hin]
    exact (h.fresh (pa + (4096 * vpn - sz)) (by omega) (by omega)).1
  · have hsame : leaf m' q vpn = leaf m q vpn := by
      by_cases hqr : q = r
      · subst hqr
        exact h.outside vpn hlt fun hin => hnew ⟨rfl, hin⟩
      · exact h.other q hq hqr vpn
    rw [hsame] at hv hlow hhigh ⊢
    exact h.owned (hsp.allocated q hq vpn hv hlow hhigh)

/-- A page that was mapped where the heap grows is lost. -/
lemma Grown.unmapped (hsz : 4096 ∣ sz) (hr : r ∈ roots) (hin : PageIn sz stop vpn)
    (hsame : leaf m' r vpn = leaf m r vpn) :
    has (leaf m r vpn) pteV = false := by
  rw [Bool.eq_false_iff]
  intro hv
  have hframe := h.frame hE hsz hin
  rw [hsame] at hframe
  have hlow := h.low
  have hhigh := h.high
  have howned := hsp.allocated r hr vpn hv (by omega) (by omega)
  rw [hframe] at howned
  exact (h.fresh (pa + (4096 * vpn - sz)) (by omega) (by omega)).2 howned

end

end

end

/-! ## Exact calls -/

lemma HeapSpace.step (hE : E.Ok lo hi Inv Held)
    (h : HeapSpace Inv Held lo hi roots s) (hc : brkCall E s call s') :
    HeapSpace Inv Held lo hi roots s' := by
  obtain ⟨p, m⟩ := s
  obtain ⟨p', m'⟩ := s'
  obtain ⟨brk, res⟩ := call
  obtain ⟨hsize, hc⟩ := hc
  obtain ⟨tab, hsp⟩ := h.spaces
  simp only at hsize hc hsp
  rcases sysBrk_outcome (kalloc_ne_zero hE hsp.shaped) hsize hc with
    ⟨-, rfl, rfl⟩ | ⟨-, -, -, rfl, rfl⟩ | ⟨hacc, -, rfl, hm⟩
  · exact h
  · exact h
  · have hle : p.heapStart ≤ pgRoundUp brk := hacc.2.1.trans (le_pgRoundUp hacc.2.2)
    refine ⟨?_, h.table, h.start, pgRoundUp_dvd brk, hle⟩
    rcases hm with ⟨-, rfl⟩ | ⟨hlt, hreq, pa, m1, hk, hmap⟩
    · exact ⟨tab, hsp⟩
    · obtain ⟨⟨tab', hs', hroots⟩, hg⟩ := brk_grown hE hsp h.table h.stop (pgRoundUp_dvd brk) hlt
        (pgRoundUp_le_maxVa hacc.2.2) hreq hk hmap
      exact ⟨tab', hg.spaces hE hsp h.stop hs' hroots⟩

/-- A call that keeps the pages above the break drops them exactly if they were not mapped. -/
lemma heapKept_same_iff (hsz : s'.1.sz = pgRoundUp brk)
    (hle : pgRoundUp brk ≤ s.1.sz) (hm : s'.2 = s.2) :
    HeapKept Held roots s brk s' ↔ BrkExact Held roots s brk := by
  unfold BrkExact
  rw [min_eq_right hle, max_eq_left hle]
  constructor
  · intro h
    have hheap := h.heap
    have habove := h.above
    rw [hsz, hm] at hheap habove
    exact ⟨hheap, habove⟩
  · rintro ⟨hheap, habove⟩
    refine ⟨hsz, ?_, ?_, fun vpn _ _ _ => ?_⟩
    · rwa [hsz, hm]
    · rwa [hsz, hm]
    · rw [hm]

/-- A call that grows the heap is exact if the old pages were in order and nothing was in the way. -/
lemma Grown.heapKept_iff (hE : E.Ok lo hi Inv Held) {pa : Nat}
    (h : HeapSpace Inv Held lo hi roots s) (hsz : s'.1.sz = pgRoundUp brk) (hmax : brk ≤ maxVa)
    (hlt : s.1.sz < pgRoundUp brk)
    (hg : Grown Held lo hi roots s.1.pagetable s.1.sz (pgRoundUp brk) pa s.2 s'.2) :
    HeapKept Held roots s brk s' ↔ BrkExact Held roots s brk := by
  obtain ⟨tab, hsp⟩ := h.spaces
  have hstop := pgRoundUp_le_maxVa hmax
  have hle := h.le
  have hbound : ∀ {vpn}, 4096 * vpn < pgRoundUp brk → vpn < 2 ^ 27 := by
    intro vpn hvpn
    unfold maxVa at hstop
    omega
  unfold BrkExact
  rw [min_eq_left hlt.le, max_eq_right hlt.le]
  constructor
  · intro hk
    have hfree : ∀ vpn, PageIn s.1.sz (pgRoundUp brk) vpn →
        has (leaf s.2 s.1.pagetable vpn) pteV = false := by
      intro vpn hin
      rw [Bool.eq_false_iff]
      intro hv
      have hsame := hk.outside vpn (hbound hin.2) (fun hold => by have := hin.1; have := hold.2; omega)
        (.inl hv)
      rw [hg.unmapped hE hsp h.stop h.table hin hsame] at hv
      cases hv
    refine ⟨fun vpn hin => ?_, hfree⟩
    obtain ⟨hin1, hin2⟩ := hin
    refine (hg.heapPage_iff hE hsp h.stop h.table hfree (hbound (by omega)) fun hnew => ?_).mp
      (hk.heap vpn (by rw [hsz]; exact ⟨hin1, by omega⟩))
    have := hnew.1
    omega
  · rintro ⟨hheap, hfree⟩
    refine ⟨hsz, fun vpn hin => ?_, fun vpn hin => ?_, fun vpn hvpn hout hor => ?_⟩
    · rw [hsz] at hin
      by_cases hnew : PageIn s.1.sz (pgRoundUp brk) vpn
      · exact hg.heapPage hE hsp h.stop hnew
      · obtain ⟨hin1, hin2⟩ := hin
        refine (hg.heapPage_iff hE hsp h.stop h.table hfree (hbound hin2) hnew).mpr
          (hheap vpn ⟨hin1, ?_⟩)
        omega
    · obtain ⟨hin1, hin2⟩ := hin
      omega
    · refine hg.outside vpn hvpn fun hnew => ?_
      rcases hor with hv | hno
      · rw [hfree vpn hnew] at hv
        cases hv
      · refine hno ⟨?_, ?_⟩
        · exact hle.trans hnew.1
        · rw [hsz]
          exact hnew.2

lemma brkMeets_iff (hE : E.Ok lo hi Inv Held)
    (h : HeapSpace Inv Held lo hi roots s) (hc : brkCall E s call s') :
    BrkMeets Held roots s call s' ↔ (Accepts s.1 call.1 → BrkExact Held roots s call.1) := by
  obtain ⟨p, m⟩ := s
  obtain ⟨p', m'⟩ := s'
  obtain ⟨brk, res⟩ := call
  obtain ⟨hsize, hc⟩ := hc
  obtain ⟨tab, hsp⟩ := h.spaces
  simp only at hsize hc hsp
  rcases sysBrk_outcome (kalloc_ne_zero hE hsp.shaped) hsize hc with
    ⟨hzero, rfl, rfl⟩ | ⟨-, hno, hres, rfl, rfl⟩ | ⟨hacc, hres, rfl, hm⟩
  · have hno : ¬ Accepts p' brk := fun hacc => hacc.1 hzero
    exact ⟨fun _ hacc => absurd hacc hno, fun _ => ⟨fun hacc => absurd hacc hno,
      fun hne => absurd hzero hne⟩⟩
  · exact ⟨fun _ hacc => absurd hacc hno, fun _ => ⟨fun hacc => absurd hacc hno,
      fun _ _ => ⟨hres, rfl⟩⟩⟩
  · have hiff : HeapKept Held roots (p, m) brk ({ p with sz := pgRoundUp brk }, m') ↔
        BrkExact Held roots (p, m) brk := by
      rcases hm with ⟨hle, rfl⟩ | ⟨hlt, hreq, pa, m1, hk, hmap⟩
      · exact heapKept_same_iff rfl hle rfl
      · obtain ⟨-, hg⟩ := brk_grown hE hsp h.table h.stop (pgRoundUp_dvd brk) hlt
          (pgRoundUp_le_maxVa hacc.2.2) hreq hk hmap
        exact hg.heapKept_iff hE h rfl hacc.2.2 hlt
    exact ⟨fun hmeets _ => hiff.mp (hmeets.1 hacc).2, fun hexact => ⟨fun _ => ⟨hres, hiff.mpr (hexact hacc)⟩,
      fun _ hno => absurd hacc hno⟩⟩

/-- In every run of calls, all of them do what they should exactly when every call that is accepted
finds the pages that stay in order and the pages between the breaks unmapped. -/
theorem brk_meets_iff (hE : E.Ok lo hi Inv Held) {s s' : Process × Mem A}
    (h : HeapSpace Inv Held lo hi roots s) {ts : List (Transition (Process × Mem A) (Nat × Int))}
    (hr : Run (brkCall E) s ts s') :
    (∀ t ∈ ts, BrkMeets Held roots t.source t.label t.target) ↔
      ∀ t ∈ ts, Accepts t.source.1 t.label.1 → BrkExact Held roots t.source t.label.1 := by
  have hstep : ∀ s (call : Nat × Int) s', HeapSpace Inv Held lo hi roots s →
      (Accepts s.1 call.1 → BrkExact Held roots s call.1) → brkCall E s call s' →
      HeapSpace Inv Held lo hi roots s' := fun s call s' h _ hc => h.step hE hc
  have hexact : ∀ s (call : Nat × Int) s', HeapSpace Inv Held lo hi roots s → brkCall E s call s' →
      (BrkMeets Held roots s call s' ↔ (Accepts s.1 call.1 → BrkExact Held roots s call.1)) :=
    fun s call s' h hc => brkMeets_iff hE h hc
  exact hr.forall_iff h hstep hexact

end

/-! ## A small kernel -/

/-- A process whose heap starts at `0x3000` and is empty. -/
def emptyHeap (r : Nat) : Process := ⟨1, r, 0x80201000, [], 0x3000, 0x3000, ['/'], []⟩

lemma emptyHeap_space {E : Env Buddy.Pool} {m0 m : BuddyMem} {r : Nat}
    (h : bootSpace = some (E, m0, r, m)) :
    E.Ok (bootLo 0x80300000 0x80310000) (pgRoundDown 0x80310000)
        (bootInv 0x80250000 0x80300000 0x80310000) Buddy.held ∧
      HeapSpace (bootInv 0x80250000 0x80300000 0x80310000) Buddy.held (bootLo 0x80300000 0x80310000)
        (pgRoundDown 0x80310000) [r] (emptyHeap r, m) ∧
      ∀ vpn < 0x1000, has (leaf m r vpn) pteV = false := by
  obtain ⟨hsmall, hmake⟩ := bootSpace_cases h
  obtain ⟨hE, hs⟩ := bootSmall_ok hsmall
  obtain ⟨tab, hs', hr, hleaf⟩ := uvmmake_leaf hE hs (by decide) (by decide) hmake
  have hframes : ∀ vpn, has (leaf m r vpn) pteV = true →
      pte2pa (leaf m r vpn) = 0x80201000 ∨ pte2pa (leaf m r vpn) = 0x80200000 := by
    intro vpn hv
    rw [hleaf] at hv ⊢
    split_ifs at hv ⊢
    · exact .inl (pte2pa_entry (by decide) (by decide))
    · exact .inr (pte2pa_entry (by decide) (by decide))
    · cases hv
  have hstart : 4096 ∣ 0x3000 := by decide
  refine ⟨hE, ⟨⟨tab, hs', ?_, ?_⟩, List.mem_singleton.mpr rfl, hstart, hstart, le_rfl⟩, ?_⟩
  · intro q hq
    rw [List.mem_singleton.mp hq]
    exact hr
  · intro q hq vpn hv hlow
    rw [List.mem_singleton.mp hq] at hv hlow ⊢
    have hlo : bootLo 0x80300000 0x80310000 = 0x80301000 := by decide
    simp only at hv hlow
    rcases hframes vpn hv with heq | heq
    · omega
    · omega
  · intro vpn hvpn
    rw [hleaf, if_neg (by unfold trapframeVa trampolineVa maxVa pgSize; omega),
      if_neg (by unfold trampolineVa maxVa pgSize; omega), has_zero]

/-- The first growth of a heap. -/
theorem brk_meets_first :
    ∃ E m₀ r m p' m', bootSpace = some (E, m₀, r, m) ∧
      brkCall E (emptyHeap r, m) (0x4800, 0) (p', m') ∧ p'.sz = 0x5000 ∧
      BrkMeets Buddy.held [r] (emptyHeap r, m) (0x4800, 0) (p', m') := by
  have hrun : (bootSpace.bind fun x =>
      (sysBrk x.1 0x4800 (emptyHeap x.2.2.1) x.2.2.2).map fun y => decide (y.1 = 0 ∧ y.2.1.sz = 0x5000)) =
      some true := by decide +kernel
  obtain ⟨⟨E, m₀, r, m⟩, hboot, hrun⟩ := bind_eq_some_iff.mp hrun
  obtain ⟨⟨res, p', m'⟩, hbrk, hres⟩ := map_eq_some_iff.mp hrun
  obtain ⟨rfl, hsz⟩ := of_decide_eq_true hres
  obtain ⟨hE, hspace, hzero⟩ := emptyHeap_space hboot
  have hround : pgRoundUp 0x4800 = 0x5000 := by decide
  have hcall : brkCall E (emptyHeap r, m) (0x4800, 0) (p', m') :=
    ⟨fun _ => by simp only [hround, emptyHeap]; decide, hbrk⟩
  have hmeets := (brk_meets_iff hE hspace (Run.nil.snoc hcall)).mpr (by
    intro t ht _
    obtain rfl := List.mem_singleton.mp ht
    simp only [BrkExact, hround, emptyHeap]
    refine ⟨fun vpn hin => ?_, fun vpn hin => hzero vpn ?_⟩
    · omega
    · omega)
  exact ⟨E, m₀, r, m, p', m', hboot, hcall, hsz, hmeets _ (List.mem_singleton.mpr rfl)⟩

/-- The heap grows by two pages and gives one back; the page above the break stays mapped. -/
theorem brk_shrink_keeps_page :
    ∃ E m₀ r m ts p' m', bootSpace = some (E, m₀, r, m) ∧
      HeapSpace (bootInv 0x80250000 0x80300000 0x80310000) Buddy.held (bootLo 0x80300000 0x80310000)
        (pgRoundDown 0x80310000) [r] (emptyHeap r, m) ∧
      Run (brkCall E) (emptyHeap r, m) ts (p', m') ∧ p'.sz = 0x4000 ∧
      has (leaf m' r 4) pteV = true ∧ ¬ ∀ t ∈ ts, BrkMeets Buddy.held [r] t.source t.label t.target := by
  have hrun : (bootSpace.bind fun x => (sysBrk x.1 0x4800 (emptyHeap x.2.2.1) x.2.2.2).bind fun y =>
      (sysBrk x.1 0x3800 y.2.1 y.2.2).map fun z => decide (y.1 = 0 ∧ y.2.1.sz = 0x5000 ∧
        y.2.1.heapStart = 0x3000 ∧ y.2.1.pagetable = x.2.2.1 ∧ z.1 = 0 ∧ z.2.1.sz = 0x4000 ∧
        has (leaf z.2.2 x.2.2.1 4) pteV = true)) = some true := by decide +kernel
  obtain ⟨⟨E, m₀, r, m⟩, hboot, hrun⟩ := bind_eq_some_iff.mp hrun
  obtain ⟨⟨res1, p1, m1⟩, hbrk1, hrun⟩ := bind_eq_some_iff.mp hrun
  obtain ⟨⟨res2, p2, m2⟩, hbrk2, hres⟩ := map_eq_some_iff.mp hrun
  obtain ⟨rfl, hsz1, hstart, htable, rfl, hsz2, hv⟩ := of_decide_eq_true hres
  simp only at hsz1 hstart htable hsz2 hv
  obtain ⟨hE, hspace, -⟩ := emptyHeap_space hboot
  have hround1 : pgRoundUp 0x4800 = 0x5000 := by decide
  have hround2 : pgRoundUp 0x3800 = 0x4000 := by decide
  have hcall1 : brkCall E (emptyHeap r, m) (0x4800, 0) (p1, m1) :=
    ⟨fun _ => by simp only [hround1, emptyHeap]; decide, hbrk1⟩
  have hcall2 : brkCall E (p1, m1) (0x3800, 0) (p2, m2) :=
    ⟨fun _ => by simp only [hround2, hsz1]; decide, hbrk2⟩
  refine ⟨E, m₀, r, m, _, p2, m2, hboot, hspace, (Run.nil.snoc hcall1).snoc hcall2, hsz2, hv, ?_⟩
  intro hmeets
  have haccepts : Accepts p1 0x3800 := ⟨by decide, by rw [hstart]; decide, by decide⟩
  obtain ⟨-, hkept⟩ := (hmeets ⟨(p1, m1), (0x3800, 0), (p2, m2)⟩ (by simp)).1 haccepts
  have hunmapped := hkept.above 4 (by simp only [PageIn, hsz1, hsz2]; decide)
  simp only [htable, hv] at hunmapped
  cases hunmapped

end Hana.Proc
