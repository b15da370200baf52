import Hana.Mm.Buddy.Ops

/-!
# Initialisation

`buddy_init` first computes how many blocks of each order it will make and then lays them
out from `s` upwards. The range that is not laid out yet is one span in transit, so that
every `add_last` of the layout is an instance of `Partition.addLast`. The counters of the
orders that are still to come hold the numbers to make, not the lengths of the lists;
`Kmem.masked` hides them.
-/

namespace Hana.Buddy

open Function List Lib

/-! ## How many blocks are made -/

lemma initCountsLoop_of_le : ∀ n npages nrFree j, n ≤ j →
    initCountsLoop n npages nrFree j = nrFree j := by
  intro n
  induction n with
  | zero => exact fun _ _ _ _ => rfl
  | succ i ih =>
    intro npages nrFree j hj
    unfold initCountsLoop
    rw [ih _ _ j (by omega), update_of_ne (by omega)]

/-- The number of pages in `count j` blocks of each order `j < n`. -/
def pagesIn (n : Nat) (count : Nat → Nat) : Nat :=
  ((List.range n).map fun j => 2 ^ j * count j).sum

lemma pagesIn_succ (n : Nat) (count : Nat → Nat) :
    pagesIn (n + 1) count = pagesIn n count + 2 ^ n * count n := by
  simp [pagesIn, range_succ]

variable {n a k m j : Nat}

lemma pagesIn_congr {count count' : Nat → Nat} (h : ∀ j < n, count j = count' j) :
    pagesIn n count = pagesIn n count' := by
  unfold pagesIn
  congr 1
  apply map_congr_left
  intro j hj
  rw [h j (mem_range.mp hj)]

/-- The distribution loop uses up all pages. -/
lemma pagesIn_initCountsLoop : ∀ n npages nrFree, (∀ j < n, nrFree j + npages < 2 ^ 64) →
    (n = 0 → npages = 0) →
    pagesIn n (initCountsLoop n npages nrFree) = pagesIn n nrFree + npages := by
  intro n
  induction n with
  | zero =>
    intro npages nrFree _ hz
    rw [hz rfl]
    rfl
  | succ i ih =>
    intro npages nrFree hb _
    have hmask : npages &&& (1 <<< i - 1) = npages % 2 ^ i := by
      rw [Nat.one_shiftLeft]
      exact Nat.and_two_pow_sub_one_eq_mod npages i
    have hle : npages % 2 ^ i ≤ npages := Nat.mod_le _ _
    have hdiv : npages >>> i ≤ npages := Nat.shiftRight_le _ _
    have hi := hb i (by omega)
    have hcount : wrap64 (nrFree i + npages >>> i) = nrFree i + npages >>> i :=
      wrap64_of_lt (by omega)
    unfold initCountsLoop
    rw [hmask, hcount, pagesIn_succ, pagesIn_succ, initCountsLoop_of_le _ _ _ i (Nat.le_refl i),
      update_self, ih]
    · have hsame : pagesIn i (update nrFree i (nrFree i + npages >>> i)) =
          pagesIn i nrFree :=
        pagesIn_congr fun j hj => update_of_ne (by omega) _ _
      have hdm := Nat.div_add_mod npages (2 ^ i)
      rw [hsame, Nat.shiftRight_eq_div_pow, mul_add]
      omega
    · intro j hj
      have hj' := hb j (by omega)
      rw [update_of_ne (by omega)]
      omega
    · rintro rfl
      exact Nat.mod_one npages

lemma pagesIn_initCounts {npages : Nat} (h : npages < 2 ^ 63) :
    pagesIn maxOrder (initCounts npages) = npages := by
  have hsq : maxOrder * blockNpages (maxOrder - 1) = 11264 := by decide
  unfold initCounts
  simp only [hsq]
  split_ifs with hlt
  · rw [pagesIn_initCountsLoop]
    · have hsum : pagesIn maxOrder (fun i => 1 <<< (maxOrder - 1 - i)) = 11264 := by decide
      omega
    · intro j _
      have hone : 1 <<< (maxOrder - 1 - j) ≤ 2 ^ 10 := by
        rw [Nat.one_shiftLeft]
        exact Nat.pow_le_pow_right (by decide) (by unfold maxOrder; omega)
      omega
    · intro hz
      exact absurd hz (by decide)
  · rw [pagesIn_initCountsLoop]
    · have hsum : pagesIn maxOrder (fun _ => 0) = 0 := by decide
      rw [hsum, zero_add]
    · intro j _
      omega
    · intro hz
      exact absurd hz (by decide)

/-! ## Laying out the blocks -/

/-- The state with the counters from order `m` on hidden. -/
def Kmem.masked (m : Nat) (st : Kmem) : Kmem :=
  { st with nrFree := fun j => if j < m then st.nrFree j else 0 }

lemma addLast_masked {L : Layout} (hk : k < m) (st : Kmem) :
    addLast L a k (st.masked m) = (addLast L a k st).map (Kmem.masked m) := by
  have hcount : update (st.masked m).nrFree k (wrap64 ((st.masked m).nrFree k + 1)) =
      fun j => if j < m then
        update st.nrFree k (wrap64 (st.nrFree k + 1)) j else 0 := by
    funext j
    by_cases hj : j = k
    · subst hj
      simp [Kmem.masked, hk]
    · simp [Kmem.masked, update_of_ne hj]
  unfold addLast
  split_ifs with ha
  · rw [hcount]
    rfl
  · rfl

lemma addLast_nrFree {L : Layout} {st st' : Kmem}
    (h : addLast L a k st = some st') (hj : j ≠ k) : st'.nrFree j = st.nrFree j := by
  unfold addLast at h
  split_ifs at h
  cases h
  exact update_of_ne hj _ _

section Layout

variable {L : Layout} {s e : Nat}

/-- `n` blocks of order `k` are cut off the range that is left. -/
lemma layBlocks_spec (hL : L.Region s e) (hk : k < maxOrder) (hm : k < m) :
    ∀ n cur st F, 4096 ∣ cur → cur + n * blockSize k ≤ e →
      Partition L s e (st.masked m) F [] [⟨cur, e - cur⟩] →
      ∃ st' F', layBlocks L k n cur st = some (cur + n * blockSize k, st') ∧
        Partition L s e (st'.masked m) F' [] [⟨cur + n * blockSize k, e - (cur + n * blockSize k)⟩] ∧
        (∀ j, j ≠ k → st'.nrFree j = st.nrFree j) ∧
        (Natural F → blockSize k ∣ cur → Natural F') := by
  intro n
  induction n with
  | zero =>
    intro cur st F _ _ h
    refine ⟨st, F, ?_, ?_, fun _ _ => rfl, fun hn _ => hn⟩
    · simp [layBlocks]
    · simpa using h
  | succ n ih =>
    intro cur st F hdvd hle h
    have hstep : cur + (n + 1) * blockSize k = cur + blockSize k + n * blockSize k := by ring
    rw [hstep] at hle ⊢
    have hcut : Partition L s e (st.masked m) F []
        [⟨cur, blockSize k⟩, ⟨cur + blockSize k, e - (cur + blockSize k)⟩] := by
      refine h.regroup fun x => ?_
      have hsize : blockSize k + (e - (cur + blockSize k)) = e - cur := by omega
      rw [mult_split, hsize]
    obtain ⟨st1, hst1, h1⟩ := hcut.addLast hL hk hdvd
    rw [addLast_masked hm, Option.map_eq_some_iff] at hst1
    obtain ⟨st2, hst2, rfl⟩ := hst1
    obtain ⟨st', F', hst', h', hframe, hnat⟩ :=
      ih (cur + blockSize k) st2 _ (Nat.dvd_add hdvd (dvd_blockSize k)) hle h1
    refine ⟨st', F', ?_, h', fun j hj => ?_, fun hF hcur => ?_⟩
    · unfold layBlocks
      rw [hst2]
      exact hst'
    · rw [hframe j hj, addLast_nrFree hst2 hj]
    · refine hnat (hF.update fun x hx => ?_) (Nat.dvd_add hcur (Nat.dvd_refl _))
      rcases mem_append.mp hx with hx | hx
      · exact hF k hk x hx
      · rwa [mem_singleton.mp hx]

/-- The bytes of the blocks that are still to be made, from order `i` on. -/
def bytesFrom (i n : Nat) (nrFree : Nat → Nat) : Nat :=
  ((List.range' i n).map fun j => (toInt32 (nrFree j)).toNat * blockSize j).sum

lemma bytesFrom_succ (i n : Nat) (nrFree : Nat → Nat) :
    bytesFrom i (n + 1) nrFree =
      (toInt32 (nrFree i)).toNat * blockSize i + bytesFrom (i + 1) n nrFree := rfl

lemma bytesFrom_congr {i : Nat} {f g : Nat → Nat} (h : ∀ j, i ≤ j → f j = g j) :
    bytesFrom i n f = bytesFrom i n g := by
  unfold bytesFrom
  congr 1
  apply map_congr_left
  intro j hj
  rw [h j (mem_range'_1.mp hj).1]

/-- The blocks that are still to be made have at least the size of order `i`. -/
lemma blockSize_dvd_bytesFrom (i n : Nat) (nrFree : Nat → Nat) :
    blockSize i ∣ bytesFrom i n nrFree := by
  induction n generalizing i with
  | zero => exact Nat.dvd_zero _
  | succ n ih =>
    exact Nat.dvd_add (Nat.dvd_mul_left _ _) ((blockSize_dvd (Nat.le_succ i)).trans (ih (i + 1)))

lemma masked_reset (i : Nat) (st : Kmem) :
    Kmem.masked (i + 1) { st with nrFree := update st.nrFree i 0 } = st.masked i := by
  unfold Kmem.masked
  congr 1
  funext j
  by_cases hj : j = i
  · subst hj
    simp
  · have hiff : j < i + 1 ↔ j < i := by omega
    simp [update_of_ne hj, hiff]

/-- All orders are laid out. Where the layout ends at a multiple of the largest block size, the
blocks of each order start at multiples of theirs: what follows them is made of blocks that are not
smaller. -/
lemma layOrders_spec (hL : L.Region s e) :
    ∀ n i cur st F, i + n = maxOrder → 4096 ∣ cur → cur + bytesFrom i n st.nrFree ≤ e →
      Partition L s e (st.masked i) F [] [⟨cur, e - cur⟩] →
      ∃ st' F', layOrders L (range' i n) cur st =
          some (cur + bytesFrom i n st.nrFree, st') ∧
        Partition L s e (st'.masked maxOrder) F' []
          [⟨cur + bytesFrom i n st.nrFree, e - (cur + bytesFrom i n st.nrFree)⟩] ∧
        (Natural F → blockSize (maxOrder - 1) ∣ cur + bytesFrom i n st.nrFree → Natural F') := by
  intro n
  induction n with
  | zero =>
    intro i cur st F hi _ _ h
    subst hi
    exact ⟨st, F, rfl, h, fun hn _ => hn⟩
  | succ n ih =>
    intro i cur st F hi hdvd hle h
    have hbytes := blockSize_dvd_bytesFrom i (n + 1) st.nrFree
    rw [bytesFrom_succ, ← add_assoc] at hle ⊢
    have hcur0 : blockSize (maxOrder - 1) ∣ cur + (toInt32 (st.nrFree i)).toNat * blockSize i +
        bytesFrom (i + 1) n st.nrFree → blockSize i ∣ cur := by
      intro htop
      rw [add_assoc] at htop
      exact (Nat.dvd_add_left hbytes).mp ((blockSize_dvd (by omega)).trans htop)
    generalize hcur : cur + (toInt32 (st.nrFree i)).toNat * blockSize i = cur' at hle hcur0 ⊢
    rw [← masked_reset] at h
    obtain ⟨st1, F1, hst1, h1, hframe, hnat1⟩ := layBlocks_spec hL (by omega) (Nat.lt_succ_self i)
      (toInt32 (st.nrFree i)).toNat cur _ F hdvd (by omega) h
    rw [hcur] at hst1 h1
    have hrest : bytesFrom (i + 1) n st.nrFree = bytesFrom (i + 1) n st1.nrFree := by
      refine bytesFrom_congr fun j hj => ?_
      rw [hframe j (by omega)]
      exact (update_of_ne (by omega) _ _).symm
    have hdvd' : 4096 ∣ cur' := by
      rw [← hcur]
      exact Nat.dvd_add hdvd (Dvd.dvd.mul_left (dvd_blockSize i) _)
    rw [hrest] at hle hcur0 ⊢
    obtain ⟨st', F', hst', h', hnat⟩ := ih (i + 1) cur' st1 F1 (by omega) hdvd' hle h1
    refine ⟨st', F', ?_, h', fun hF htop => hnat (hnat1 hF (hcur0 htop)) htop⟩
    show (layBlocks L i _ cur _ >>= fun p => layOrders L (range' (i + 1) n) p.1 p.2) = _
    rw [hst1]
    exact hst'

lemma Partition.unmask {st : Kmem} {F : Nat → List Nat} {live : List Block}
    {extra : List Span} (h : Partition L s e (st.masked maxOrder) F live extra) :
    Partition L s e st F live extra := by
  refine { h with lists := { h.lists with count := ?_ } }
  intro k hk
  have hcount := h.lists.count k hk
  unfold Kmem.masked at hcount
  simpa only [if_pos hk] using hcount

/-- Before the layout every list is empty, and the whole range is in transit. -/
lemma initZone_partition (hse : s ≤ e) {st : Kmem}
    (hmagic : ∀ x, 4096 ∣ x → st.magic x ≠ buddyMagic) (counts : Nat → Nat) :
    Partition L s e ((initZone L counts st).masked 0) (fun _ => []) [] [⟨s, e - s⟩] := by
  have hhead : ∀ k < maxOrder, ((range maxOrder).any fun j => L.freeList k == L.freeList j) =
      true := by
    intro k hk
    exact any_eq_true.mpr ⟨k, mem_range.mpr hk, beq_self_eq_true _⟩
  refine ⟨⟨?_, ?_, ?_, ?_, ?_⟩, ?_, ?_, ?_, ?_, ?_, ?_⟩
  · intro k hk
    apply LinkRing.nil
    · simp only [Kmem.masked, initZone, hhead k hk, if_true]
    · simp only [Kmem.masked, initZone, hhead k hk, if_true]
  · intro k _
    rfl
  · intro k _ a ha
    cases ha
  · intro k _ a ha
    cases ha
  · intro k _ a ha
    cases ha
  · intro x
    have hfree : freeSpans (fun _ => []) = [] := by decide
    rw [hfree, map_nil, append_nil, nil_append, mult_cons, mult_nil]
    unfold Span.Has Span.stop
    simp only [Nat.add_sub_cancel' hse, add_zero]
  · intro k _ a ha
    cases ha
  · intro b hb
    cases hb
  · intro b hb
    cases hb
  · intro b hb
    cases hb
  · intro x hx _
    simp only [Kmem.masked, initZone]
    split_ifs
    · decide
    · exact hmagic x hx

end Layout

/-! ## The whole function -/

lemma bytesFrom_zero_succ (n : Nat) (count : Nat → Nat) :
    bytesFrom 0 (n + 1) count =
      bytesFrom 0 n count + (toInt32 (count n)).toNat * blockSize n := by
  unfold bytesFrom
  rw [← range_eq_range', ← range_eq_range']
  simp [range_succ]

lemma mul_blockSize (c j : Nat) : c * blockSize j = 4096 * (2 ^ j * c) := by
  rw [blockSize_eq, pow_add]
  ring

lemma bytesFrom_le (n : Nat) (count : Nat → Nat) :
    bytesFrom 0 n count ≤ 4096 * pagesIn n count := by
  induction n with
  | zero => exact Nat.zero_le _
  | succ n ih =>
    have hle := Nat.mul_le_mul_right (blockSize n) (toInt32_toNat_le (count n))
    rw [mul_blockSize (count n)] at hle
    rw [bytesFrom_zero_succ, pagesIn_succ]
    omega

/-- Counts that fit an `int` are laid out in full. -/
lemma bytesFrom_eq {count : Nat → Nat} (h : ∀ j < n, count j < 2 ^ 31) :
    bytesFrom 0 n count = 4096 * pagesIn n count := by
  induction n with
  | zero => rfl
  | succ n ih =>
    rw [bytesFrom_zero_succ, pagesIn_succ, ih fun j hj => h j (by omega),
      toInt32_toNat_of_lt (h n (by omega)), mul_blockSize]
    omega

lemma le_pagesIn (count : Nat → Nat) (hj : j < n) : count j ≤ pagesIn n count := by
  induction n with
  | zero => omega
  | succ n ih =>
    rw [pagesIn_succ]
    by_cases he : j = n
    · subst he
      have hpow := Nat.le_mul_of_pos_left (count j) (Nat.two_pow_pos j)
      omega
    · omega

variable {L : Layout} {start end_ : Nat} {st : Kmem}

section

variable (hL : L.Region (pgRoundUp start) (pgRoundDown end_))
include hL

/-- `buddy_init` lays out its blocks in the range and compares where it ends with `e`. -/
lemma buddyInit_eq (hse : pgRoundUp start ≤ pgRoundDown end_)
    (hmagic : ∀ x, 4096 ∣ x → st.magic x ≠ buddyMagic) :
    ∃ cur st' F, cur = pgRoundUp start + bytesFrom 0 maxOrder
        (initCounts ((pgRoundDown end_ - pgRoundUp start) / 4096)) ∧
      buddyInit L start end_ st = (if cur = pgRoundDown end_ then some st' else none) ∧
      Partition L (pgRoundUp start) (pgRoundDown end_) st' F [] [⟨cur, pgRoundDown end_ - cur⟩] ∧
      (blockSize (maxOrder - 1) ∣ cur → Natural F) := by
  have hds := hL.dvd
  have hlt := hL.lt
  unfold buddyInit
  generalize pgRoundUp start = s at *
  generalize pgRoundDown end_ = e at *
  have hnpages : wrap64 (e + (2 ^ 64 - s)) >>> pgShift = (e - s) / 4096 := by
    unfold wrap64 pgShift
    omega
  have htotal : pagesIn maxOrder (initCounts ((e - s) / 4096)) = (e - s) / 4096 :=
    pagesIn_initCounts (by omega)
  have hle := bytesFrom_le maxOrder (initCounts ((e - s) / 4096))
  have hcheck : ¬ wrap64 ((e - s) / 4096 + (2 ^ 64 - wrap64 ((e - s) / 4096))) ≠ 0 := by
    unfold wrap64
    omega
  simp only [hnpages, if_neg (not_lt.mpr hse)]
  generalize initCounts ((e - s) / 4096) = counts at *
  have hsum : ((range maxOrder).map fun i => blockNpages i * counts i).sum =
      (e - s) / 4096 := by
    rw [← htotal]
    unfold pagesIn blockNpages
    simp only [Nat.one_shiftLeft]
  obtain ⟨st', F, hst', h', hnat⟩ := layOrders_spec hL maxOrder 0 s (initZone L counts st) _
    (by decide) hds (by show s + bytesFrom 0 maxOrder counts ≤ e; omega)
    (initZone_partition hse hmagic counts)
  have hempty : Natural fun _ => [] := fun _ _ _ hx => absurd hx not_mem_nil
  refine ⟨s + bytesFrom 0 maxOrder counts, st', F, rfl, ?_, h'.unmask, hnat hempty⟩
  have hnrFree : (initZone L counts st).nrFree = counts := rfl
  rw [hnrFree] at hst'
  rw [hsum, if_neg hcheck, range_eq_range', hst', Option.bind_eq_bind, Option.bind_some]

/-- A `buddy_init` that does not stop leaves every page on a free list, in aligned blocks if the end
of the range is aligned to the largest block. -/
lemma buddyInit_spec (hmagic : ∀ x, 4096 ∣ x → st.magic x ≠ buddyMagic)
    {st' : Kmem} (h : buddyInit L start end_ st = some st') :
    ∃ F, Partition L (pgRoundUp start) (pgRoundDown end_) st' F [] [] ∧
      (blockSize (maxOrder - 1) ∣ pgRoundDown end_ → Natural F) := by
  have hse : pgRoundUp start ≤ pgRoundDown end_ := by
    by_contra hn
    unfold buddyInit at h
    simp only [if_pos (Nat.lt_of_not_le hn)] at h
    cases h
  obtain ⟨cur, st1, F, _, heq, hp, hnat⟩ := buddyInit_eq hL hse hmagic
  rw [heq] at h
  split_ifs at h with hcur
  cases h
  refine ⟨F, hp.regroup fun x => ?_, hcur ▸ hnat⟩
  rw [hcur, Nat.sub_self, mult_nil, mult_cons, mult_nil, if_neg]
  simp only [Span.Has, Span.stop]
  omega

end

end Hana.Buddy
