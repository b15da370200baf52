import Hana.Mm.Buddy.Run

/-!
# Requests of every size

`buddy_alloc` uses the order that `get_order` computes as an index into `zone.free_area` and
does not compare it with `MAX_ORDER`. What stands before the access is the assertion
`sz <= (PGSIZE << order)`, whose shift is made in `int`:

* up to order 18 the assertion holds, and from order 11 on the index is outside of the array;
* at order 19 the shift gives `INT_MIN`, which is a large number as a `uint64`, so that the
  assertion holds as well;
* from order 20 on the shift gives 0 and the assertion stops the kernel; a size that wraps
  around in `PGROUNDUP` gets order 0 and stops there too.

The functions of this module are those of the model with every index into `free_area`
checked and with the state in which the kernel stops.
-/

namespace Hana.Buddy

open Lib

variable {L : Layout} {s e : Nat} {st st' : Kmem} {F : Nat → List Nat} {live : List Block}

/-- Why a call does not return. -/
inductive Stop
  /-- An `assert`, a `panic` or a `TODO` is met in this state. -/
  | halt (st : Kmem)
  /-- `zone.free_area` would be accessed at this index. -/
  | outOfBounds (index : Int)

/-- The check of an index into `zone.free_area`. -/
def checkArea (index : Int) : Except Stop Unit :=
  if 0 ≤ index ∧ index < maxOrder then .ok () else .error (.outOfBounds index)

def addFirstChecked (L : Layout) (addr order : Nat) (st : Kmem) : Except Stop Kmem :=
  match addFirst L addr order st with
  | none => .error (.halt st)
  | some st' => do
    checkArea order
    .ok st'

def removeChecked (block : Nat) (st : Kmem) : Except Stop Kmem := do
  checkArea (st.order block)
  .ok (remove block st)

def requireSplitChecked (L : Layout) (order : Nat) : (n addr : Nat) → Kmem → Except Stop (Nat × Kmem)
  | 0, addr, st => .ok (addr, st)
  | n + 1, addr, st => do
    let st ← addFirstChecked L addr (order + n) st
    requireSplitChecked L order n (addr + blockSize (order + n)) st

/-- `require`, with the address 0 for `NULL`. -/
def requireChecked (L : Layout) (order : Nat) (st : Kmem) : Except Stop (Nat × Kmem) :=
  match (List.range' (order + 1) (maxOrder - (order + 1))).find? fun i => st.nrFree i != 0 with
  | none => .ok (0, st)
  | some i => do
    let freeBlock := st.prev (L.freeList i)
    let st ← removeChecked freeBlock st
    requireSplitChecked L order (i - order) freeBlock st

def buddyAllocChecked (L : Layout) (sz : Nat) (st : Kmem) : Except Stop (Nat × Kmem) :=
  if sz = 0 then .error (.halt st)
  else
    let order := getOrder (pgRoundUp sz)
    if intPageShl order < sz then .error (.halt st)
    else do
      checkArea order
      if st.nrFree order ≠ 0 then
        let freeBlock := st.prev (L.freeList order)
        let st ← removeChecked freeBlock st
        .ok (freeBlock, setPageOrder L freeBlock order st)
      else
        let (addr, st) ← requireChecked L order st
        -- `TODO()` stops the kernel
        if addr = 0 then .error (.halt st) else .ok (addr, setPageOrder L addr order st)

/-! ## Indices that are in bounds -/

variable {k order sz size j : Nat}

lemma checkArea_ok (hk : k < maxOrder) : checkArea k = .ok () :=
  if_pos ⟨Int.natCast_nonneg k, Int.ofNat_lt.mpr hk⟩

lemma checkArea_outOfBounds (hk : maxOrder ≤ k) :
    checkArea k = .error (.outOfBounds k) := by
  refine if_neg fun h => ?_
  omega

/-- The block is on the list of the order that its header names. -/
lemma FreeLists.removeChecked_ok (h : FreeLists L st F) {a : Nat} (hk : k < maxOrder)
    (ha : a ∈ F k) : removeChecked a st = .ok (Buddy.remove a st) := by
  unfold removeChecked
  rw [h.order k hk a ha, checkArea_ok hk]
  rfl

lemma requireSplitChecked_ok : ∀ n addr st p, order + n ≤ maxOrder →
    requireSplit L order n addr st = some p → requireSplitChecked L order n addr st = .ok p := by
  intro n
  induction n with
  | zero =>
    intro addr st p _ h
    cases h
    rfl
  | succ n ih =>
    intro addr st p hn h
    obtain ⟨st1, hfirst, hrest⟩ := Option.bind_eq_some_iff.mp h
    have hchecked : addFirstChecked L addr (order + n) st = .ok st1 := by
      unfold addFirstChecked
      rw [hfirst]
      rw [checkArea_ok (by omega)]
      rfl
    unfold requireSplitChecked
    rw [hchecked]
    exact ih _ st1 p (by omega) hrest

/-- In a consistent state `require` indexes the array in bounds. -/
lemma Partition.requireChecked_eq (h : Partition L s e st F live []) (hL : L.Region s e)
    (ho : order < maxOrder) :
    requireChecked L order st = match require L order st with
      | some p => .ok p
      | none => .ok (0, st) := by
  unfold requireChecked
  cases hfind : (List.range' (order + 1) (maxOrder - (order + 1))).find?
      fun i => st.nrFree i != 0 with
  | none =>
    unfold require
    rw [hfind]
  | some i =>
    obtain ⟨hpred, hrange, _⟩ := List.find?_range'_eq_some.mp hfind
    rw [List.mem_range'_1] at hrange
    have hi : i < maxOrder := by omega
    have hne : F i ≠ [] := by
      apply (h.lists.nrFree_eq_zero hi).not.mp
      simpa using hpred
    have hmem := h.lists.last_mem hi hne
    rcases require_spec hL h ho with ⟨_, hall⟩ | ⟨_, a, st', _, _, _, _, hsome, _⟩
    · exact absurd (hall i (by omega) hi) hne
    · have hsplit : requireSplit L order (i - order) (st.prev (L.freeList i))
          (Buddy.remove (st.prev (L.freeList i)) st) = require L order st := by
        unfold require
        rw [hfind]
      rw [hsome] at hsplit ⊢
      dsimp only
      rw [h.lists.removeChecked_ok hi hmem]
      exact requireSplitChecked_ok _ _ _ _ (by omega) hsplit

/-- In a consistent state a request of at most 4 MiB indexes the array in bounds. -/
lemma Partition.buddyAllocChecked_eq (h : Partition L s e st F live []) (hL : L.Region s e)
    (hpos : 0 < sz) (hsz : sz ≤ maxRequest) :
    buddyAllocChecked L sz st = match buddyAlloc L sz st with
      | some p => .ok p
      | none => .error (.halt st) := by
  obtain ⟨ho, hfit⟩ := requestOrder_spec hsz
  have hzero : sz ≠ 0 := by omega
  have hshl : ¬ intPageShl (requestOrder sz) < sz := by
    rw [intPageShl_eq ho]
    omega
  unfold buddyAllocChecked buddyAlloc
  change getOrder (pgRoundUp sz) < maxOrder at ho
  change ¬ intPageShl (getOrder (pgRoundUp sz)) < sz at hshl
  simp only [if_neg hzero, if_neg hshl, checkArea_ok ho]
  by_cases hfree : st.nrFree (getOrder (pgRoundUp sz)) ≠ 0
  · have hmem := h.lists.last_mem ho ((h.lists.nrFree_eq_zero ho).not.mp hfree)
    simp only [if_pos hfree, h.lists.removeChecked_ok ho hmem]
    rfl
  · simp only [if_neg hfree, h.requireChecked_eq hL ho]
    rcases require_spec hL h ho with ⟨hnone, _⟩ | ⟨i, a, st', hlt, hi, ha, _, hsome, _⟩
    · rw [hnone]
      rfl
    · have hsize := blockSize_le (j := getOrder (pgRoundUp sz) + 1) (k := i) hlt
      have hone := blockSize_pos (getOrder (pgRoundUp sz))
      rw [blockSize_succ] at hsize
      have hne : a + (blockSize i - blockSize (getOrder (pgRoundUp sz))) ≠ 0 := by omega
      simp only [hsome, bind, Except.bind, Option.bind, if_neg hne]

/-! ## The order of a size -/

/-- The loop of `get_order` stops where its condition fails. -/
lemma getOrderLoop_stops : ∀ fuel order, ¬ intOneShl (order + fuel) < size →
    ¬ intOneShl (getOrderLoop size fuel order) < size := by
  intro fuel
  induction fuel with
  | zero =>
    intro order h
    exact h
  | succ fuel ih =>
    intro order h
    unfold getOrderLoop
    split_ifs with hlt
    · exact ih (order + 1) (by rwa [add_right_comm])
    · exact hlt

/-- The loop has passed every smaller order. -/
lemma getOrderLoop_passes : ∀ fuel order j, order ≤ j →
    j < getOrderLoop size fuel order → intOneShl j < size := by
  intro fuel
  induction fuel with
  | zero =>
    intro order j hle hlt
    unfold getOrderLoop at hlt
    omega
  | succ fuel ih =>
    intro order j hle hlt
    unfold getOrderLoop at hlt
    split_ifs at hlt with hcond
    · rcases eq_or_lt_of_le hle with rfl | hle
      · exact hcond
      · exact ih (order + 1) j hle hlt
    · omega

/-- The loop of `get_order` comes to its end for every size. -/
lemma getOrder_stops (h : size < 2 ^ 64) :
    ¬ intOneShl (getOrder size) < size >>> pgShift := by
  apply getOrderLoop_stops
  have hlast : intOneShl (0 + 31) = 2 ^ 64 - 2 ^ 31 := by decide
  rw [hlast, pgShift, Nat.shiftRight_eq_div_pow]
  omega

/-- A number of pages above `2 ^ j` needs a larger order than `j`. -/
lemma getOrder_gt (h : size < 2 ^ 64) (hj : j < 31)
    (hlt : 2 ^ j < size >>> pgShift) : j < getOrder size := by
  by_contra hle
  have hstop := getOrder_stops h
  have hshl : intOneShl (getOrder size) = 2 ^ getOrder size := if_pos (by omega)
  have hpow : 2 ^ getOrder size ≤ 2 ^ j := Nat.pow_le_pow_right (by decide) (by omega)
  omega

/-- A number of pages up to `2 ^ j` needs at most the order `j`. -/
lemma getOrder_le (hj : j < 31) (hle : size >>> pgShift ≤ 2 ^ j) :
    getOrder size ≤ j := by
  by_contra hlt
  have hpass := getOrderLoop_passes 31 0 j (Nat.zero_le j) (Nat.lt_of_not_le hlt)
  have hshl : intOneShl j = 2 ^ j := if_pos hj
  omega

/-- The sizes whose order passes the assertion and is outside of the array. -/
lemma order_outOfBounds (hlo : 4 * 2 ^ 20 < sz) (hhi : sz ≤ 2 ^ 31) :
    maxOrder ≤ getOrder (pgRoundUp sz) ∧ ¬ intPageShl (getOrder (pgRoundUp sz)) < sz := by
  have hround : pgRoundUp sz = (sz + 4095) / 4096 * 4096 := pgRoundUp_eq (by omega)
  have hpages : pgRoundUp sz >>> pgShift = (sz + 4095) / 4096 := by
    rw [hround, pgShift, Nat.shiftRight_eq_div_pow]
    omega
  have hbound : pgRoundUp sz < 2 ^ 64 := by omega
  have hgt := getOrder_gt (j := 10) hbound (by decide) (by omega)
  have hle : getOrder (pgRoundUp sz) ≤ 19 := getOrder_le (by decide) (by omega)
  refine ⟨hgt, ?_⟩
  have hstop := getOrder_stops hbound
  have hone : intOneShl (getOrder (pgRoundUp sz)) = 2 ^ getOrder (pgRoundUp sz) := if_pos (by omega)
  unfold intPageShl pgSize
  by_cases hlt : getOrder (pgRoundUp sz) < 19
  · rw [if_pos hlt]
    omega
  · have heq : getOrder (pgRoundUp sz) = 19 := by omega
    rw [if_neg hlt, if_pos heq]
    omega

/-- Larger sizes fail the assertion, by the overflow of the shift or of the rounding. -/
lemma intPageShl_lt (hlo : 2 ^ 31 < sz) (hhi : sz < 2 ^ 64) :
    intPageShl (getOrder (pgRoundUp sz)) < sz := by
  by_cases hwrap : sz + 4095 < 2 ^ 64
  · have hround : pgRoundUp sz = (sz + 4095) / 4096 * 4096 := pgRoundUp_eq hwrap
    have hgt : 19 < getOrder (pgRoundUp sz) := by
      apply getOrder_gt
      · omega
      · decide
      · rw [hround, pgShift, Nat.shiftRight_eq_div_pow]
        omega
    unfold intPageShl
    rw [if_neg (by omega), if_neg (by omega)]
    omega
  · have hzero : pgRoundUp sz = 0 := by
      have hsum : wrap64 (sz + pgOffMask) < 4096 := by
        unfold wrap64 pgOffMask
        omega
      unfold pgRoundUp
      rw [and_pgMask (by omega)]
      omega
    have horder : getOrder (pgRoundUp sz) = 0 := by
      rw [hzero]
      decide
    have hpage : intPageShl 0 = 4096 := by decide
    rw [horder, hpage]
    omega

/-! ## Every size -/

/-- The call comes to an end without an access outside of `free_area`, and it returns a block that
is large enough or stops with every word of the allocator as it was. -/
def AllocSafe (L : Layout) (s e : Nat) (live : List Block) (st : Kmem) (sz : Nat) : Prop :=
  ¬ intOneShl (getOrder (pgRoundUp sz)) < pgRoundUp sz >>> pgShift ∧
    match buddyAllocChecked L sz st with
    | .ok (addr, st') => sz ≤ blockSize (requestOrder sz) ∧
        ∃ F, Consistent L s e st' F (⟨addr, requestOrder sz⟩ :: live)
    | .error (.halt st') => st' = st
    | .error (.outOfBounds _) => False

/-- In every state of a run, `buddy_alloc` is safe for exactly the sizes that are at most 4 MiB or
above 2 GiB. -/
theorem buddyAlloc_safe_iff {start end_ : Nat} (hend : end_ < 2 ^ 64)
    (hzone : L.zone + 40 * maxOrder ≤ pgRoundUp start ∨ pgRoundDown end_ ≤ L.zone)
    (hr : Reach L start end_ st live) {sz : Nat} (hpos : 0 < sz) (hsz : sz < 2 ^ 64) :
    AllocSafe L (pgRoundUp start) (pgRoundDown end_) live st sz ↔
      ¬ (4 * 2 ^ 20 < sz ∧ sz ≤ 2 ^ 31) := by
  have hL : L.Region (pgRoundUp start) (pgRoundDown end_) :=
    ⟨pgRoundUp_dvd start, lt_of_le_of_lt (pgRoundDown_le end_) hend, hzone⟩
  obtain ⟨F, hp⟩ := hr.partition hL
  have hstop := getOrder_stops (and_pgMask_lt (wrap64 (sz + pgOffMask)))
  have hzero : sz ≠ 0 := by omega
  constructor
  · rintro ⟨_, hsafe⟩ ⟨hlo, hhi⟩
    obtain ⟨hord, hshl⟩ := order_outOfBounds hlo hhi
    have hout : buddyAllocChecked L sz st =
        .error (.outOfBounds (getOrder (pgRoundUp sz))) := by
      unfold buddyAllocChecked
      simp only [if_neg hzero, if_neg hshl, checkArea_outOfBounds hord]
      rfl
    rw [hout] at hsafe
    exact hsafe
  · intro hcond
    refine ⟨hstop, ?_⟩
    by_cases hsmall : sz ≤ 4 * 2 ^ 20
    · rw [hp.buddyAllocChecked_eq hL hpos hsmall]
      have hkalloc : kalloc L sz st = buddyAlloc L sz st := if_neg hzero
      rcases kalloc_spec hL hp hpos hsmall with ⟨hnone, _⟩ | ⟨addr, st', F', hsome, hp'⟩
      · rw [← hkalloc, hnone]
      · rw [← hkalloc, hsome]
        exact ⟨(requestOrder_spec hsmall).2, F', hp'.consistent⟩
    · have hlo : 2 ^ 31 < sz := by omega
      have hshl := intPageShl_lt hlo hsz
      have hhalt : buddyAllocChecked L sz st = .error (.halt st) := by
        unfold buddyAllocChecked
        simp only [if_neg hzero, if_pos hshl]
      rw [hhalt]

/-- Four pages, from which two are allocated; a request for 3 GiB stops at the assertion. -/
theorem buddyAlloc_safe_huge :
    ∃ st, Reach ⟨0x80250000, 0x80251000⟩ 0x80300000 0x80304000 st [⟨0x80302000, 1⟩] ∧
      AllocSafe ⟨0x80250000, 0x80251000⟩ (pgRoundUp 0x80300000) (pgRoundDown 0x80304000)
        [⟨0x80302000, 1⟩] st 0xc0000000 := by
  obtain ⟨st, hreach⟩ := fourPages_reach
  exact ⟨st, hreach, (buddyAlloc_safe_iff (by decide) (.inl (by decide)) hreach (by decide)
    (by decide)).mpr (by decide)⟩

/-- One byte more than 4 MiB: `free_area` is accessed at the index `MAX_ORDER`. -/
theorem buddyAlloc_index_eleven :
    ∃ st, Reach ⟨0x80250000, 0x80251000⟩ 0x80300000 0x80304000 st [⟨0x80302000, 1⟩] ∧
      buddyAllocChecked ⟨0x80250000, 0x80251000⟩ (4 * 2 ^ 20 + 1) st = .error (.outOfBounds 11) := by
  obtain ⟨st, hreach⟩ := fourPages_reach
  refine ⟨st, hreach, ?_⟩
  rfl

end Hana.Buddy
