import Hana.Mm.Buddy.Partition

/-!
# Allocation and freeing keep the partition

The specifications of `kalloc` and `kfree` over `Partition`. An allocation takes a block
from a list, returns the upper parts of the splits to the lists and records the order of
what it hands out; freeing merges the block with its buddy as long as the buddy is free
and carries the mark of a free block. `add_last` sets that mark and `add_first` does not.
-/

namespace Hana.Buddy

open Function List Lib

variable {L : Layout} {s e : Nat} {st : Kmem} {F : Nat → List Nat} {live : List Block}
variable {extra : List Span} {a k : Nat}

/-! ## The order of a request -/

lemma getOrderLoop_spec {size k : Nat} (hk : k < 31) (hsize : size ≤ 2 ^ k) :
    ∀ fuel order, order ≤ k → k ≤ order + fuel →
      size ≤ 2 ^ getOrderLoop size fuel order ∧ getOrderLoop size fuel order ≤ k := by
  intro fuel
  induction fuel with
  | zero =>
    intro order hle hfuel
    have he : order = k := by omega
    subst he
    exact ⟨hsize, hle⟩
  | succ fuel ih =>
    intro order hle hfuel
    have hshl : intOneShl order = 2 ^ order := by
      exact if_pos (by omega)
    unfold getOrderLoop
    split_ifs with hlt
    · have hne : order ≠ k := by
        rintro rfl
        omega
      exact ih (order + 1) (by omega) (by omega)
    · exact ⟨by omega, hle⟩

/-- The largest request, 4 MiB. -/
def maxRequest : Nat := 4 * 2 ^ 20

def requestOrder (sz : Nat) : Nat := getOrder (pgRoundUp sz)

variable {sz order n addr b j : Nat}

lemma requestOrder_spec (hsz : sz ≤ maxRequest) :
    requestOrder sz < maxOrder ∧ sz ≤ blockSize (requestOrder sz) := by
  have hmax : maxRequest = 4194304 := by decide
  have hround : pgRoundUp sz = (sz + 4095) / 4096 * 4096 := pgRoundUp_eq (by omega)
  have hpages : pgRoundUp sz >>> pgShift = (sz + 4095) / 4096 := by
    rw [hround, pgShift, Nat.shiftRight_eq_div_pow]
    exact Nat.mul_div_cancel _ (by decide)
  have hten : pgRoundUp sz >>> pgShift ≤ 2 ^ 10 := by
    omega
  obtain ⟨hfit, hle⟩ := getOrderLoop_spec (by decide) hten 31 0 (by decide) (by decide)
  refine ⟨?_, ?_⟩
  · show getOrderLoop (pgRoundUp sz >>> pgShift) 31 0 < 11
    omega
  · have hsize : blockSize (requestOrder sz) = 4096 * 2 ^ requestOrder sz := by
      rw [blockSize_eq, Nat.pow_add]
    have hfit : (sz + 4095) / 4096 ≤ 2 ^ requestOrder sz := by
      rw [← hpages]
      exact hfit
    omega

lemma intPageShl_eq {k : Nat} (hk : k < maxOrder) : intPageShl k = blockSize k := by
  unfold maxOrder at hk
  unfold intPageShl
  rw [if_pos (by omega), blockSize, Nat.shiftLeft_eq]

/-! ## Splitting -/

/-- The lists after a block of order `order + n` at `addr` has been cut down to `order`: every order
in between gets the lower half of what is left. -/
def splitLists (F : Nat → List Nat) (order n addr : Nat) : Nat → List Nat := fun j =>
  if order ≤ j ∧ j < order + n then (addr + (blockSize (order + n) - blockSize (j + 1))) :: F j
  else F j

lemma splitLists_zero (F : Nat → List Nat) (order addr : Nat) : splitLists F order 0 addr = F := by
  funext j
  exact if_neg (by omega)

lemma splitLists_succ (F : Nat → List Nat) (order n addr : Nat) :
    splitLists F order (n + 1) addr =
      splitLists (update F (order + n) (addr :: F (order + n))) order n
        (addr + blockSize (order + n)) := by
  funext j
  have hsize := blockSize_succ (order + n)
  rw [add_assoc] at hsize
  simp only [splitLists]
  by_cases hj : j = order + n
  · rw [if_pos (by omega), if_neg (by omega), hj, update_self, add_assoc, Nat.sub_self,
      add_zero]
  · rw [update_of_ne hj]
    by_cases hin : order ≤ j ∧ j < order + n
    · have hle : blockSize (j + 1) ≤ blockSize (order + n) := blockSize_le (by omega)
      rw [if_pos hin, if_pos (by omega), hsize]
      congr 1
      omega
    · rw [if_neg hin, if_neg (by omega)]

/-- What is cut off stays aligned. -/
lemma Natural.splitLists (h : Natural F) (haddr : blockSize (order + n) ∣ addr) :
    Natural (splitLists F order n addr) := by
  intro j hj x hx
  unfold Buddy.splitLists at hx
  split_ifs at hx with hin
  · rcases mem_cons.mp hx with rfl | hx
    · have htop := blockSize_dvd (j := j) (k := order + n) (by omega)
      exact Nat.dvd_add (htop.trans haddr) (Nat.dvd_sub htop (blockSize_dvd (Nat.le_succ j)))
    · exact h j hj x hx
  · exact h j hj x hx

lemma addFirst_magic {st' : Kmem} (h : addFirst L a k st = some st') : st'.magic = st.magic := by
  unfold addFirst at h
  split_ifs at h
  cases h
  rfl

lemma requireSplit_spec (hL : L.Region s e) :
    ∀ n addr st F, order + n < maxOrder → 4096 ∣ addr →
      Partition L s e st F live [⟨addr, blockSize (order + n)⟩] →
      ∃ st', requireSplit L order n addr st =
          some (addr + (blockSize (order + n) - blockSize order), st') ∧
        Partition L s e st' (splitLists F order n addr) live
          [⟨addr + (blockSize (order + n) - blockSize order), blockSize order⟩] ∧
        st'.magic = st.magic := by
  intro n
  induction n with
  | zero =>
    intro addr st F _ _ h
    rw [splitLists_zero, add_zero, Nat.sub_self, add_zero]
    exact ⟨st, rfl, h, rfl⟩
  | succ n ih =>
    intro addr st F hn hdvd h
    -- the block is cut into its two halves; the lower one goes on the list
    have hcut : Partition L s e st F live
        [⟨addr, blockSize (order + n)⟩, ⟨addr + blockSize (order + n), blockSize (order + n)⟩] := by
      refine h.regroup fun x => ?_
      rw [mult_halves, ← blockSize_succ, add_assoc]
    obtain ⟨st1, hst1, h1⟩ := hcut.addFirst hL (by omega) hdvd
    obtain ⟨st', hst', h', hmagic⟩ := ih (addr + blockSize (order + n)) st1 _ (by omega)
      (Nat.dvd_add hdvd (dvd_blockSize _)) h1
    have haddr : addr + blockSize (order + n) + (blockSize (order + n) - blockSize order) =
        addr + (blockSize (order + (n + 1)) - blockSize order) := by
      have hle : blockSize order ≤ blockSize (order + n) := blockSize_le (by omega)
      have hsize := blockSize_succ (order + n)
      rw [add_assoc] at hsize
      omega
    rw [haddr, ← splitLists_succ] at h'
    rw [haddr] at hst'
    refine ⟨st', ?_, h', hmagic.trans (addFirst_magic hst1)⟩
    unfold requireSplit
    rw [hst1]
    exact hst'

/-! ## Recording the order -/

lemma pageIndex_ne (L : Layout) {a : Nat} (ha : a < 2 ^ 64) (hb : b < 2 ^ 64)
    (hda : 4096 ∣ a) (hdb : 4096 ∣ b) (hne : a ≠ b) : L.pageIndex a ≠ L.pageIndex b := by
  unfold Layout.pageIndex wrap64 pgShift
  generalize 2 ^ 64 - L.pages = c
  omega

lemma Partition.live_ne_extra (h : Partition L s e st F live extra) {b : Block} {c : Span}
    (hb : b ∈ live) (hc : c ∈ extra) (hs : 0 < c.size) : b.addr ≠ c.start := by
  intro heq
  have hpos := blockSize_pos b.order
  have hlive : 0 < mult (live.map Block.span) b.addr := by
    refine mult_pos_iff.mpr ⟨b.span, mem_map.mpr ⟨b, hb, rfl⟩, ?_⟩
    simp only [Span.Has, Span.stop, Block.span]
    omega
  have hextra : 0 < mult extra b.addr := by
    refine mult_pos_iff.mpr ⟨c, hc, ?_⟩
    simp only [Span.Has, Span.stop]
    omega
  have hle := h.mult_le b.addr
  omega

/-- Writing the order of a block in transit does not touch those of the live blocks. -/
lemma Partition.setPageOrder (h : Partition L s e st F live extra) (hL : L.Region s e)
    {a k : Nat} (ha : 4096 ∣ a) (hmem : (⟨a, blockSize k⟩ : Span) ∈ extra) :
    Partition L s e (setPageOrder L a n st) F live extra := by
  have hpos := blockSize_pos k
  have hlt := hL.lt
  have hr := h.extra_range hmem hpos
  refine { h with
    lists := { h.lists with }
    recorded := ?_ }
  intro b hb
  have hbr := h.live_range hb
  have hidx : L.pageIndex b.addr ≠ L.pageIndex a := by
    unfold Span.stop at hr
    exact pageIndex_ne L (by omega) (by simp only at hr; omega) (h.live_dvd b hb) ha
      (h.live_ne_extra hb hmem hpos)
  unfold Buddy.setPageOrder
  simp only [update_of_ne hidx]
  exact h.recorded b hb

/-- The block in transit is handed to the client. -/
lemma Partition.give (h : Partition L s e st F live [⟨a, blockSize k⟩]) (hL : L.Region s e)
    (hk : k < maxOrder) (ha : 4096 ∣ a) :
    Partition L s e (Buddy.setPageOrder L a k st) F (⟨a, k⟩ :: live) [] := by
  have h' := h.setPageOrder hL (n := k) ha (mem_singleton.mpr rfl)
  refine ⟨h'.lists, ?_, h'.aligned, ?_, ?_, ?_, h'.stray⟩
  · intro x
    have hx := h'.tiles x
    rw [mult_append, mult_append] at hx
    have hspan : (⟨a, k⟩ : Block).span = ⟨a, blockSize k⟩ := rfl
    rw [map_cons, hspan, ← singleton_append, append_nil, mult_append,
      mult_append]
    omega
  · intro b hb
    rcases mem_cons.mp hb with rfl | hb
    · exact ha
    · exact h.live_dvd b hb
  · intro b hb
    rcases mem_cons.mp hb with rfl | hb
    · exact hk
    · exact h.live_order b hb
  · intro b hb
    rcases mem_cons.mp hb with rfl | hb
    · unfold maxOrder at hk
      unfold Buddy.setPageOrder
      simp only [update_self]
      omega
    · exact h'.recorded b hb

/-- The client hands a live block back. -/
lemma Partition.takeBack (h : Partition L s e st F live []) {b : Block} (hb : b ∈ live) :
    Partition L s e st F (live.erase b) [b.span] := by
  refine ⟨h.lists, ?_, h.aligned, ?_, ?_, ?_, h.stray⟩
  · intro x
    have hx := h.tiles x
    have hp := mult_perm ((perm_cons_erase hb).map Block.span) x
    rw [map_cons, ← singleton_append, mult_append] at hp
    rw [append_nil, mult_append] at hx
    rw [mult_append, mult_append]
    omega
  · intro c hc
    exact h.live_dvd c (mem_of_mem_erase hc)
  · intro c hc
    exact h.live_order c (mem_of_mem_erase hc)
  · intro c hc
    exact h.recorded c (mem_of_mem_erase hc)

/-! ## The two entry points -/

/-- The last block of a nonempty list is the one its head links back to. -/
lemma FreeLists.last_mem (h : FreeLists L st F) (hk : k < maxOrder) (hne : F k ≠ []) :
    st.prev (L.freeList k) ∈ F k := by
  rw [(h.ring k hk).prev_head]
  obtain ⟨xs, x, hF⟩ := (eq_nil_or_concat (F k)).resolve_left hne
  simp [hF]

lemma FreeLists.nrFree_eq_zero (h : FreeLists L st F) (hk : k < maxOrder) :
    st.nrFree k = 0 ↔ F k = [] := by
  rw [h.count k hk, length_eq_zero_iff]

/-- `require` cuts down the last block of the first list above `order` that has one. -/
lemma require_spec (hL : L.Region s e) (h : Partition L s e st F live [])
    (ho : order < maxOrder) :
    (require L order st = none ∧ ∀ i, order < i → i < maxOrder → F i = []) ∨
      ∃ i a st', order < i ∧ i < maxOrder ∧ a ∈ F i ∧ (∀ j, order < j → j < i → F j = []) ∧
        require L order st = some (a + (blockSize i - blockSize order), st') ∧
        Partition L s e st' (splitLists (update F i ((F i).erase a)) order (i - order) a)
          live [⟨a + (blockSize i - blockSize order), blockSize order⟩] ∧
        st'.magic = update st.magic a 0 := by
  unfold require
  cases hfind : (range' (order + 1) (maxOrder - (order + 1))).find?
      fun i => st.nrFree i != 0 with
  | none =>
    left
    refine ⟨rfl, fun i hlo hhi => ?_⟩
    rw [List.find?_eq_none] at hfind
    have hi := hfind i (mem_range'_1.mpr (by omega))
    rw [← h.lists.nrFree_eq_zero hhi]
    simpa using hi
  | some i =>
    right
    obtain ⟨hpred, hrange, hfirst⟩ := List.find?_range'_eq_some.mp hfind
    rw [mem_range'_1] at hrange
    have hi : i < maxOrder := by omega
    have hne : F i ≠ [] := by
      apply (h.lists.nrFree_eq_zero hi).not.mp
      simpa using hpred
    have hmem := h.lists.last_mem hi hne
    have hsum : order + (i - order) = i := by omega
    obtain ⟨st', hst', h', hmagic⟩ := requireSplit_spec hL (i - order) _ _ _ (by rwa [hsum])
      (h.aligned i hi _ hmem) (by rw [hsum]; exact h.remove hL hi hmem)
    rw [hsum] at hst' h'
    refine ⟨i, _, st', by omega, hi, hmem, fun j hlo hhi => ?_, hst', h', hmagic⟩
    have hj := hfirst j (by omega) hhi
    rw [← h.lists.nrFree_eq_zero (by omega)]
    simpa using hj

/-- `kalloc` takes a block of the order of the request or cuts down a larger one, or it stops
because every list that could serve the request is empty. -/
lemma kalloc_cases (hL : L.Region s e) (h : Partition L s e st F live [])
    (hpos : 0 < sz) (hsz : sz ≤ maxRequest) :
    (kalloc L sz st = none ∧ ∀ i, requestOrder sz ≤ i → i < maxOrder → F i = []) ∨
      ∃ i a st', requestOrder sz ≤ i ∧ i < maxOrder ∧ a ∈ F i ∧
        (∀ j, requestOrder sz ≤ j → j < i → F j = []) ∧
        kalloc L sz st = some (a + (blockSize i - blockSize (requestOrder sz)), st') ∧
        Partition L s e st' (splitLists (update F i ((F i).erase a)) (requestOrder sz)
          (i - requestOrder sz) a)
          (⟨a + (blockSize i - blockSize (requestOrder sz)), requestOrder sz⟩ :: live) [] ∧
        st'.magic = update st.magic a 0 := by
  obtain ⟨ho, hfit⟩ := requestOrder_spec hsz
  have hzero : sz ≠ 0 := by omega
  have hshl : ¬ intPageShl (getOrder (pgRoundUp sz)) < sz := by
    show ¬ intPageShl (requestOrder sz) < sz
    rw [intPageShl_eq ho]
    omega
  unfold kalloc buddyAlloc
  simp only [if_neg hzero, if_neg hshl]
  by_cases hfree : st.nrFree (requestOrder sz) = 0
  · have hempty := (h.lists.nrFree_eq_zero ho).mp hfree
    have hcond : ¬ st.nrFree (getOrder (pgRoundUp sz)) ≠ 0 := fun hn => hn hfree
    rw [if_neg hcond]
    rcases require_spec hL h ho with ⟨hnone, hall⟩ |
      ⟨i, a, st', hlt, hi, hmem, hbetween, hsome, h', hmagic⟩
    · left
      have hreq : require L (getOrder (pgRoundUp sz)) st = none := hnone
      rw [hreq]
      refine ⟨rfl, fun i hlo hhi => ?_⟩
      rcases eq_or_lt_of_le hlo with rfl | hlt
      · exact hempty
      · exact hall i hlt hhi
    · right
      have hreq : require L (getOrder (pgRoundUp sz)) st =
          some (a + (blockSize i - blockSize (requestOrder sz)), st') := hsome
      have hsize := blockSize_le (j := requestOrder sz + 1) (k := i) (by omega)
      rw [blockSize_succ] at hsize
      have hdvd : 4096 ∣ a + (blockSize i - blockSize (requestOrder sz)) :=
        Nat.dvd_add (h.aligned i hi a hmem) (Nat.dvd_sub (dvd_blockSize _) (dvd_blockSize _))
      rw [hreq]
      refine ⟨i, a, setPageOrder L (a + (blockSize i - blockSize (requestOrder sz)))
        (requestOrder sz) st', by omega, hi, hmem, ?_, ?_, h'.give hL ho hdvd, hmagic⟩
      · intro j hlo hhi
        rcases eq_or_lt_of_le hlo with rfl | hlt
        · exact hempty
        · exact hbetween j hlt hhi
      · show (if a + (blockSize i - blockSize (requestOrder sz)) = 0 then _ else _) = _
        rw [if_neg (by omega)]
        rfl
  · right
    have hcond : st.nrFree (getOrder (pgRoundUp sz)) ≠ 0 := hfree
    rw [if_pos hcond]
    have hmem := h.lists.last_mem ho ((h.lists.nrFree_eq_zero ho).not.mp hfree)
    refine ⟨requestOrder sz, _, setPageOrder L (st.prev (L.freeList (requestOrder sz)))
      (requestOrder sz) (remove (st.prev (L.freeList (requestOrder sz))) st), le_rfl, ho, hmem,
      fun j hlo hhi => ?_, ?_, ?_, rfl⟩
    · omega
    · rw [Nat.sub_self, add_zero]
      rfl
    · rw [Nat.sub_self, Nat.sub_self, add_zero, splitLists_zero]
      exact (h.remove hL ho hmem).give hL ho (h.aligned _ ho _ hmem)

/-- `kalloc` hands out a block of the order of the request, or stops because every list
that could serve the request is empty. -/
lemma kalloc_spec (hL : L.Region s e) (h : Partition L s e st F live [])
    (hpos : 0 < sz) (hsz : sz ≤ maxRequest) :
    (kalloc L sz st = none ∧ ∀ i, requestOrder sz ≤ i → i < maxOrder → F i = []) ∨
      ∃ addr st' F', kalloc L sz st = some (addr, st') ∧
        Partition L s e st' F' (⟨addr, requestOrder sz⟩ :: live) [] := by
  rcases kalloc_cases hL h hpos hsz with hnone | ⟨i, a, st', _, _, _, _, hsome, h', _⟩
  · exact .inl hnone
  · exact .inr ⟨_, st', _, hsome, h'⟩

/-- The block in transit lies in the managed range. -/
lemma Partition.transit_lt (h : Partition L s e st F live [⟨a, blockSize k⟩])
    (hL : L.Region s e) : a < 2 ^ 64 := by
  have hr := h.extra_range (mem_singleton.mpr rfl) (blockSize_pos k)
  have hlt := hL.lt
  unfold Span.stop at hr
  simp only at hr
  omega

/-- A marked buddy is a free block, and its order field tells which list it is on. -/
lemma Partition.buddy_mem (h : Partition L s e st F live extra)
    (hd : 4096 ∣ buddyBlock addr k) (hm : canMerge addr k st = true) : buddyBlock addr k ∈ F k := by
  unfold canMerge at hm
  simp only [Bool.and_eq_true, beq_iff_eq] at hm
  obtain ⟨⟨⟨⟨_, hmagic⟩, horder⟩, _⟩, _⟩ := hm
  by_contra hnot
  refine h.stray _ hd (fun j hj hmem => ?_) hmagic
  have hj' := h.lists.order j hj _ hmem
  rw [horder] at hj'
  have he : k = j := by exact_mod_cast hj'
  exact hnot (he ▸ hmem)

/-! ### The block that is put on a list -/

/-- The words by which `buddy_free_helper` recognises a block of a free list. -/
def Marked (st : Kmem) (x : Nat) : Prop :=
  st.magic x = buddyMagic ∧ inRam (st.prev x) = true ∧ inRam (st.next x) = true

/-- The free buddies of a block are followed upwards as long as they are marked, and one is met that
is not. -/
inductive Misses (st : Kmem) (F : Nat → List Nat) : (addr order : Nat) → Prop
  | here {addr order : Nat} (hk : order < maxOrder - 1) (hmem : buddyBlock addr order ∈ F order)
      (hno : ¬ Marked st (buddyBlock addr order)) : Misses st F addr order
  | later {addr order : Nat} (hk : order < maxOrder - 1) (hmem : buddyBlock addr order ∈ F order)
      (hm : Marked st (buddyBlock addr order))
      (h : Misses st F (buddyLow addr order) (order + 1)) : Misses st F addr order

lemma Partition.canMerge_iff (h : Partition L s e st F live extra)
    (hk : k < maxOrder) (hd : 4096 ∣ buddyBlock addr k) :
    canMerge addr k st = true ↔
      k < maxOrder - 1 ∧ buddyBlock addr k ∈ F k ∧ Marked st (buddyBlock addr k) := by
  constructor
  · intro hm
    have hmem := h.buddy_mem hd hm
    simp only [canMerge, Bool.and_eq_true, beq_iff_eq, decide_eq_true_eq] at hm
    exact ⟨hm.1.1.1.1, hmem, hm.1.1.1.2, hm.1.2, hm.2⟩
  · rintro ⟨hlt, hmem, hmagic, hprev, hnext⟩
    have horder := h.lists.order k hk _ hmem
    simp only [canMerge, hlt, hmagic, horder, hprev, hnext, decide_true, beq_self_eq_true,
      Bool.and_self]

/-- Taking a block off a list does not change the marks of blocks on other lists. -/
lemma FreeLists.marked_remove (h : FreeLists L st F) {x : Nat} (hj : j < maxOrder)
    (hb : b ∈ F j) (hk : k < maxOrder) (hx : x ∈ F k) (hjk : k ≠ j) :
    Marked (Buddy.remove b st) x ↔ Marked st x := by
  have hne := h.node_ne hk hj hjk (.inr hx) (.inr hb)
  have hprev := h.node_ne hk hj hjk (.inr hx) (h.prev_node hj (.inr hb))
  have hnext := h.node_ne hk hj hjk (.inr hx) (h.next_node hj (.inr hb))
  simp only [Marked, Buddy.remove, update_of_ne hne, update_of_ne hprev,
    update_of_ne hnext]

lemma Misses.transfer {st' : Kmem} {F' : Nat → List Nat}
    (hF : ∀ k, j ≤ k → k < maxOrder → F' k = F k)
    (hmark : ∀ k x, j ≤ k → k < maxOrder → x ∈ F k → (Marked st' x ↔ Marked st x))
    (h : Misses st F addr order) (hj : j ≤ order) : Misses st' F' addr order := by
  induction h with
  | here hk hmem hno =>
    have hlt := lt_of_lt_of_le hk (Nat.sub_le _ _)
    refine .here hk ?_ fun hm => hno ((hmark _ _ hj hlt hmem).mp hm)
    rw [hF _ hj hlt]
    exact hmem
  | later hk hmem hm _ ih =>
    have hlt := lt_of_lt_of_le hk (Nat.sub_le _ _)
    refine .later hk ?_ ((hmark _ _ hj hlt hmem).mpr hm) (ih (by omega))
    rw [hF _ hj hlt]
    exact hmem

/-- What is met above the order of a block that is taken off its list. -/
lemma FreeLists.misses_remove_iff (h : FreeLists L st F)
    (hj : j < maxOrder) (hb : b ∈ F j) (hlt : j < order) :
    Misses (Buddy.remove b st) (update F j ((F j).erase b)) addr order ↔
      Misses st F addr order := by
  have hF : ∀ k, j + 1 ≤ k → k < maxOrder → update F j ((F j).erase b) k = F k :=
    fun k hk _ => update_of_ne (by omega) _ _
  constructor
  · intro hm
    refine hm.transfer (fun k hk hk' => (hF k hk hk').symm) (fun k x hk hk' hx => ?_) hlt
    rw [hF k hk hk'] at hx
    exact (h.marked_remove hj hb hk' hx (by omega)).symm
  · intro hm
    exact hm.transfer hF (fun k x hk hk' hx => h.marked_remove hj hb hk' hx (by omega)) hlt

/-- Recording an order touches no mark. -/
lemma misses_setPageOrder_iff :
    Misses (setPageOrder L b n st) F addr order ↔ Misses st F addr order := by
  constructor
  · intro hm
    refine hm.transfer (fun _ _ _ => rfl) ?_ (Nat.zero_le _)
    exact fun _ _ _ _ _ => Iff.rfl
  · intro hm
    refine hm.transfer (fun _ _ _ => rfl) ?_ (Nat.zero_le _)
    exact fun _ _ _ _ _ => Iff.rfl

lemma buddyBlock_ne (ha : addr < 2 ^ 64) (hk : k < maxOrder) :
    buddyBlock addr k ≠ addr := by
  have hpos := blockSize_pos k
  rcases buddy_cases ha hk with ⟨hb, _⟩ | ⟨hb, _⟩
  · omega
  · omega

/-- The block `⟨x, k⟩` that freeing puts on a list: it contains the freed block, the lists have no
other new block, its alignment follows from that of the freed block, it is the freed block itself if
that has no marked free buddy, and its buddy is not free unless the buddy was missed for want of its
mark. -/
structure Put (st : Kmem) (F : Nat → List Nat) (addr order : Nat) (F' : Nat → List Nat)
    (x k : Nat) : Prop where
  order_lt : k < maxOrder
  mem : x ∈ F' k
  start : x ≤ addr
  stop : addr + blockSize order ≤ x + blockSize k
  old : ∀ j < maxOrder, ∀ y ∈ F' j, y ∈ F j ∨ (j = k ∧ y = x)
  aligned : blockSize order ∣ addr → blockSize k ∣ x
  alone : ¬ (buddyBlock addr order ∈ F order ∧ Marked st (buddyBlock addr order)) →
    x = addr ∧ k = order
  eager : (k < maxOrder - 1 → buddyBlock x k ∉ F' k) ↔ ¬ Misses st F addr order

/-- The merged block is aligned to its size. -/
lemma buddyLow_aligned (ha : addr < 2 ^ 64) (hk : k < maxOrder)
    (h : blockSize k ∣ addr) : blockSize (k + 1) ∣ buddyLow addr k := by
  have hm : 12 + k < 64 := by
    unfold maxOrder at hk
    omega
  have hshift : pgSize <<< k = 2 ^ (12 + k) := blockSize_eq k
  rw [buddyLow, hshift, and_clear_two_pow ha hm, blockSize_succ]
  obtain ⟨q, rfl⟩ := h
  have hbit : (blockSize k * q).testBit (12 + k) = q.testBit 0 := by
    rw [blockSize_eq, Nat.testBit_two_pow_mul, Nat.sub_self, decide_eq_true le_rfl,
      Bool.true_and]
  rw [hbit, Nat.testBit_zero, ← blockSize_eq]
  split_ifs with hodd
  · rw [blockSize_eq, xor_two_pow_of_testBit (by rw [← blockSize_eq, hbit, Nat.testBit_zero, hodd]),
      ← blockSize_eq]
    have hq : blockSize k * q - blockSize k = 2 * blockSize k * (q / 2) := by
      rw [decide_eq_true_eq] at hodd
      obtain ⟨n, rfl⟩ : ∃ n, q = 2 * n + 1 := ⟨q / 2, by omega⟩
      have hn : (2 * n + 1) / 2 = n := by omega
      rw [hn, mul_add, mul_one, Nat.add_sub_cancel]
      ring
    rw [hq]
    exact dvd_mul_right _ _
  · have hq : blockSize k * q = 2 * blockSize k * (q / 2) := by
      rw [decide_eq_true_eq] at hodd
      obtain ⟨n, rfl⟩ : ∃ n, q = 2 * n := ⟨q / 2, by omega⟩
      have hn : 2 * n / 2 = n := by omega
      rw [hn]
      ring
    rw [hq]
    exact dvd_mul_right _ _

/-- A block whose buddy is not recognised is put as it is. -/
lemma Partition.put_last (h : Partition L s e st F live [⟨addr, blockSize k⟩])
    (hL : L.Region s e) (hk : k < maxOrder) (hd : 4096 ∣ addr) (hm : canMerge addr k st ≠ true) :
    Put st F addr k (update F k (F k ++ [addr])) addr k := by
  have ha := h.transit_lt hL
  have hmerge := (h.canMerge_iff hk (buddyBlock_dvd ha hk hd)).not.mp hm
  have hne := buddyBlock_ne ha hk
  refine ⟨hk, ?_, le_rfl, le_rfl, ?_, fun hdvd => hdvd, fun _ => ⟨rfl, rfl⟩, ?_⟩
  · rw [update_self]
    exact mem_append_right _ (mem_singleton.mpr rfl)
  · intro j _ y hy
    by_cases hjk : j = k
    · subst hjk
      rw [update_self, mem_append, mem_singleton] at hy
      exact hy.imp_right fun heq => ⟨rfl, heq⟩
    · rw [update_of_ne hjk] at hy
      exact .inl hy
  · rw [update_self, mem_append, mem_singleton, or_iff_left hne]
    constructor
    · intro hnot hmiss
      cases hmiss with
      | here hlt hmem _ => exact hnot hlt hmem
      | later hlt hmem _ _ => exact hnot hlt hmem
    · intro hmiss hlt hmem
      exact hmiss (.here hlt hmem fun hmark => hmerge ⟨hlt, hmem, hmark⟩)

lemma buddyLow_dvd (hx : addr < 2 ^ 64) (hk : k < maxOrder) (hd : 4096 ∣ addr) :
    4096 ∣ buddyLow addr k ∧ buddyLow addr k < 2 ^ 64 := by
  have hb := buddyBlock_dvd hx hk hd
  rcases buddy_cases hx hk with ⟨hsum, hl⟩ | ⟨_, hl⟩
  · rw [hl]
    exact ⟨hb, by omega⟩
  · rw [hl]
    exact ⟨hd, hx⟩

/-- Freeing merges upwards and ends by putting one block on a list. -/
lemma buddyFreeHelper_spec (hL : L.Region s e) :
    ∀ fuel addr order st F, order + fuel = maxOrder - 1 → 4096 ∣ addr →
      Partition L s e st F live [⟨addr, blockSize order⟩] →
      ∃ st' F' x k, buddyFreeHelper L fuel addr order st = some st' ∧
        Partition L s e st' F' live [] ∧ Put st F addr order F' x k := by
  intro fuel
  induction fuel with
  | zero =>
    intro addr order st F ho hdvd h
    have hk : order < maxOrder := by
      unfold maxOrder at *
      omega
    obtain ⟨st', hst', h'⟩ := h.addLast hL hk hdvd
    refine ⟨st', _, _, _, hst', h', h.put_last hL hk hdvd ?_⟩
    have hlast : ¬ order < maxOrder - 1 := by omega
    simp [canMerge, hlast]
  | succ fuel ih =>
    intro addr order st F ho hdvd h
    have hk : order < maxOrder := by
      omega
    have haddr := h.transit_lt hL
    unfold buddyFreeHelper
    by_cases hm : canMerge addr order st = true
    · rw [if_pos hm]
      have hbd := buddyBlock_dvd haddr hk hdvd
      obtain ⟨hlt, hbuddy, hmark⟩ := (h.canMerge_iff hk hbd).mp hm
      have hmerged := (h.remove hL hk hbuddy).regroup fun x =>
        (mult_merge (k := order) haddr hk x).symm
      have hlow : 4096 ∣ buddyLow addr order ∧ buddyLow addr order ≤ addr ∧
          addr + blockSize order ≤ buddyLow addr order + blockSize (order + 1) := by
        have hsize := blockSize_succ order
        rcases buddy_cases haddr hk with ⟨hb, hl⟩ | ⟨_, hl⟩
        · rw [hl]
          exact ⟨hbd, by omega, by omega⟩
        · rw [hl]
          exact ⟨hdvd, le_rfl, by omega⟩
      obtain ⟨st', F', x, k, hst', h', hput⟩ := ih _ _ _ _ (by omega) hlow.1 hmerged
      refine ⟨st', F', x, k, hst', h', hput.order_lt, hput.mem, hput.start.trans hlow.2.1,
        hlow.2.2.trans hput.stop, ?_, fun hal => hput.aligned (buddyLow_aligned haddr hk hal),
        fun hno => absurd ⟨hbuddy, hmark⟩ hno, ?_⟩
      · intro j hj y hy
        rcases hput.old j hj y hy with hold | hnew
        · by_cases hjo : j = order
          · subst hjo
            rw [update_self] at hold
            exact .inl (mem_of_mem_erase hold)
          · rw [update_of_ne hjo] at hold
            exact .inl hold
        · exact .inr hnew
      · rw [hput.eager, h.lists.misses_remove_iff hk hbuddy (Nat.lt_succ_self _)]
        refine not_congr ⟨fun hmiss => .later hlt hbuddy hmark hmiss, fun hmiss => ?_⟩
        cases hmiss with
        | here _ _ hno => exact absurd hmark hno
        | later _ _ _ hrest => exact hrest
    · rw [if_neg hm]
      obtain ⟨st', hst', h'⟩ := h.addLast hL hk hdvd
      exact ⟨st', _, _, _, hst', h', h.put_last hL hk hdvd hm⟩

/-- `kfree` of a live block succeeds, and one block that contains it is put on a list. -/
lemma kfree_cases (hL : L.Region s e) (h : Partition L s e st F live []) {b : Block}
    (hb : b ∈ live) :
    ∃ st' F' x k, kfree L b.addr st = some st' ∧ Partition L s e st' F' (live.erase b) [] ∧
      Put st F b.addr b.order F' x k := by
  have hdvd := h.live_dvd b hb
  have ho := h.live_order b hb
  have h' := (h.takeBack hb).setPageOrder hL (n := 0) hdvd (mem_singleton.mpr rfl)
  unfold kfree buddyFree
  rw [h.recorded b hb]
  obtain ⟨st', F', x, k, hst', hp', hput⟩ := buddyFreeHelper_spec hL (maxOrder - 1 - b.order) _ _ _ _
    (by unfold maxOrder at *; omega) hdvd h'
  exact ⟨st', F', x, k, hst', hp',
    { hput with eager := hput.eager.trans misses_setPageOrder_iff.not }⟩

/-- `kfree` of a live block succeeds and returns exactly that block. -/
lemma kfree_spec (hL : L.Region s e) (h : Partition L s e st F live []) {b : Block}
    (hb : b ∈ live) :
    ∃ st' F', kfree L b.addr st = some st' ∧ Partition L s e st' F' (live.erase b) [] := by
  obtain ⟨st', F', _, _, hst', h', _⟩ := kfree_cases hL h hb
  exact ⟨st', F', hst', h'⟩

end Hana.Buddy
