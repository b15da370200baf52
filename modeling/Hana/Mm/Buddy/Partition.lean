import Hana.Lib.Bits
import Hana.Lib.Cover
import Hana.Mm.Buddy.Lists

/-!
# The partition of the managed range

`Partition L s e st F live extra` says that the free blocks of `F`, the allocated blocks
`live` and the blocks `extra` that an operation holds between two list updates tile
`[s, e)`. The three list primitives move one block between `F` and `extra`; splitting and
merging regroup `extra`. What makes the merge sound is the field `stray`: a page that is
not on a free list does not carry the magic word, so that a buddy that carries it is a
free block.
-/

namespace Hana.Buddy

open Function List Lib

/-- An allocated block, with the order it was allocated with. -/
structure Block where
  addr : Nat
  order : Nat
deriving DecidableEq, Repr

def Block.span (b : Block) : Span := ⟨b.addr, blockSize b.order⟩

/-- The spans of all free blocks. -/
def freeSpans (F : Nat → List Nat) : List Span :=
  (List.range maxOrder).flatMap fun k => (F k).map fun a => (⟨a, blockSize k⟩ : Span)

/-- Every free block starts at a multiple of its size. -/
def Natural (F : Nat → List Nat) : Prop := ∀ k < maxOrder, ∀ a ∈ F k, blockSize k ∣ a

/-- The managed range is made of pages, and the list heads are outside of it. -/
structure Layout.Region (L : Layout) (s e : Nat) : Prop where
  dvd : 4096 ∣ s
  lt : e < 2 ^ 64
  heads : L.zone + 40 * maxOrder ≤ s ∨ e ≤ L.zone

structure Partition (L : Layout) (s e : Nat) (st : Kmem) (F : Nat → List Nat)
    (live : List Block) (extra : List Span) : Prop where
  lists : FreeLists L st F
  tiles : Tiles (freeSpans F ++ live.map Block.span ++ extra) s e
  aligned : ∀ k < maxOrder, ∀ a ∈ F k, 4096 ∣ a
  live_dvd : ∀ b ∈ live, 4096 ∣ b.addr
  live_order : ∀ b ∈ live, b.order < maxOrder
  recorded : ∀ b ∈ live, st.pageOrder (L.pageIndex b.addr) = b.order
  stray : ∀ x, 4096 ∣ x → (∀ k < maxOrder, x ∉ F k) → st.magic x ≠ buddyMagic

/-! ## Sizes and buddies -/

lemma blockSize_eq (k : Nat) : blockSize k = 2 ^ (12 + k) := by
  rw [blockSize, pgSize, Nat.shiftLeft_eq, Nat.pow_add]

lemma blockSize_pos (k : Nat) : 0 < blockSize k := by
  rw [blockSize_eq]
  exact Nat.two_pow_pos _

lemma blockSize_succ (k : Nat) : blockSize (k + 1) = 2 * blockSize k := by
  rw [blockSize_eq, blockSize_eq, ← add_assoc, Nat.pow_succ, mul_comm]

lemma dvd_blockSize (k : Nat) : 4096 ∣ blockSize k := by
  rw [blockSize_eq, pow_add]
  exact dvd_mul_right _ _

variable {k a : Nat} {F : Nat → List Nat}

lemma blockSize_dvd {j : Nat} (h : j ≤ k) : blockSize j ∣ blockSize k := by
  rw [blockSize_eq, blockSize_eq]
  exact Nat.pow_dvd_pow 2 (by omega)

lemma blockSize_le {j : Nat} (h : j ≤ k) : blockSize j ≤ blockSize k :=
  Nat.le_of_dvd (blockSize_pos k) (blockSize_dvd h)

/-- The buddy is the neighbour at the distance of the block size, and `BUDDY_LOW` is the
lower of the two. -/
lemma buddy_cases (ha : a < 2 ^ 64) (hk : k < maxOrder) :
    (buddyBlock a k + blockSize k = a ∧ buddyLow a k = buddyBlock a k) ∨
      (buddyBlock a k = a + blockSize k ∧ buddyLow a k = a) := by
  have hm : 12 + k < 64 := by
    unfold maxOrder at hk
    omega
  have hshift : pgSize <<< k = 2 ^ (12 + k) := blockSize_eq k
  have hlow := and_clear_two_pow ha hm
  unfold buddyBlock buddyLow
  rw [blockSize_eq, hshift, hlow]
  cases hb : a.testBit (12 + k) with
  | true =>
    have hge := Nat.ge_two_pow_of_testBit hb
    left
    rw [xor_two_pow_of_testBit hb]
    exact ⟨Nat.sub_add_cancel hge, rfl⟩
  | false =>
    right
    rw [xor_two_pow_of_not_testBit hb]
    exact ⟨rfl, rfl⟩

lemma buddyBlock_dvd (ha : a < 2 ^ 64) (hk : k < maxOrder) (hd : 4096 ∣ a) :
    4096 ∣ buddyBlock a k := by
  have hs := dvd_blockSize k
  rcases buddy_cases ha hk with ⟨hb, _⟩ | ⟨hb, _⟩
  · rw [← hb] at hd
    exact (Nat.dvd_add_left hs).mp hd
  · rw [hb]
    exact Nat.dvd_add hd hs

/-- A block and its buddy cover the merged block. -/
lemma mult_merge (ha : a < 2 ^ 64) (hk : k < maxOrder) (x : Nat) :
    mult [⟨buddyBlock a k, blockSize k⟩, ⟨a, blockSize k⟩] x =
      mult [⟨buddyLow a k, blockSize (k + 1)⟩] x := by
  rw [blockSize_succ]
  rcases buddy_cases ha hk with ⟨hb, hl⟩ | ⟨hb, hl⟩
  · rw [hl, ← mult_halves, hb]
  · rw [hl, ← mult_halves, hb]
    exact mult_perm (Perm.swap _ _ _) x

lemma Natural.update {xs : List Nat} (h : Natural F) (hxs : ∀ x ∈ xs, blockSize k ∣ x) :
    Natural (update F k xs) := by
  intro j hj x hx
  by_cases hjk : j = k
  · subst hjk
    rw [update_self] at hx
    exact hxs x hx
  · rw [update_of_ne hjk] at hx
    exact h j hj x hx

/-! ## Moving blocks -/

lemma mem_freeSpans (hk : k < maxOrder) (ha : a ∈ F k) :
    (⟨a, blockSize k⟩ : Span) ∈ freeSpans F := by
  exact mem_flatMap.mpr ⟨k, mem_range.mpr hk, mem_map.mpr ⟨a, ha, rfl⟩⟩

/-- The effect on the multiplicities of replacing one list. -/
lemma mult_freeSpans_update (F : Nat → List Nat) (hk : k < maxOrder) (xs : List Nat) (x : Nat) :
    mult (freeSpans (update F k xs)) x +
        mult ((F k).map fun a => (⟨a, blockSize k⟩ : Span)) x =
      mult (freeSpans F) x + mult (xs.map fun a => (⟨a, blockSize k⟩ : Span)) x := by
  have he : freeSpans (update F k xs) =
      (range maxOrder).flatMap (update
        (fun j => (F j).map fun a => (⟨a, blockSize j⟩ : Span)) k
        (xs.map fun a => (⟨a, blockSize k⟩ : Span))) := by
    unfold freeSpans
    congr 1
    funext j
    by_cases hj : j = k
    · subst hj
      simp
    · simp [update_of_ne hj]
  rw [he]
  exact mult_flatMap_update _ _ _ _ _ hk

/-- Adding the block `a` to the list of order `k`. -/
lemma mult_freeSpans_add {xs : List Nat} (hk : k < maxOrder) (hp : xs.Perm (a :: F k)) (x : Nat) :
    mult (freeSpans (update F k xs)) x =
      mult (freeSpans F) x + mult [⟨a, blockSize k⟩] x := by
  have hu := mult_freeSpans_update F hk xs x
  rw [mult_perm (hp.map _), map_cons, ← singleton_append, mult_append] at hu
  omega

/-- Taking the block `a` from the list of order `k`. -/
lemma mult_freeSpans_erase (hk : k < maxOrder) (ha : a ∈ F k) (x : Nat) :
    mult (freeSpans (update F k ((F k).erase a))) x + mult [⟨a, blockSize k⟩] x =
      mult (freeSpans F) x := by
  have hu := mult_freeSpans_update F hk ((F k).erase a) x
  rw [mult_perm ((perm_cons_erase ha).map _), map_cons, ← singleton_append,
    mult_append] at hu
  omega

namespace Partition

variable {L : Layout} {s e : Nat} {st : Kmem} {F : Nat → List Nat} {live : List Block}
variable {extra : List Span} {a k : Nat}

section

variable (h : Partition L s e st F live extra)
include h

lemma mult_le (x : Nat) :
    mult (freeSpans F) x + mult (live.map Block.span) x + mult extra x ≤ 1 := by
  have hx := h.tiles x
  simp only [mult_append] at hx
  split_ifs at hx <;> omega

lemma extra_range {b : Span} (hb : b ∈ extra) (hs : 0 < b.size) : s ≤ b.start ∧ b.stop ≤ e :=
  h.tiles.subset (mem_append_right _ hb) hs

lemma live_range {b : Block} (hb : b ∈ live) :
    s ≤ b.addr ∧ b.addr + blockSize b.order ≤ e := by
  refine h.tiles.subset (b := b.span) ?_ (blockSize_pos _)
  exact mem_append.mpr (.inl (mem_append.mpr
    (.inr (mem_map.mpr ⟨b, hb, rfl⟩))))

lemma free_range (hk : k < maxOrder) (ha : a ∈ F k) :
    s ≤ a ∧ a + blockSize k ≤ e := by
  refine h.tiles.subset (b := ⟨a, blockSize k⟩) ?_ (blockSize_pos _)
  exact mem_append.mpr (.inl (mem_append.mpr (.inl (mem_freeSpans hk ha))))

end

lemma mult_free_pos (hk : k < maxOrder) (ha : a ∈ F k) : 0 < mult (freeSpans F) a := by
  refine mult_pos_iff.mpr ⟨_, mem_freeSpans hk ha, ?_⟩
  have hpos := blockSize_pos k
  simp only [Span.Has, Span.stop]
  omega

/-- A block in transit is not on a list, and it is not a list head. -/
lemma fresh (h : Partition L s e st F live extra) (hL : L.Region s e) {b : Span}
    (hb : b ∈ extra) (hs : 0 < b.size) : Fresh L F b.start := by
  intro k hk
  have hr := h.extra_range hb hs
  refine ⟨?_, ?_⟩
  · have hheads := hL.heads
    unfold Span.stop at hr
    unfold Layout.freeList
    omega
  · intro hmem
    have hfree := mult_free_pos hk hmem
    have hextra : 0 < mult extra b.start := by
      refine mult_pos_iff.mpr ⟨b, hb, ?_⟩
      simp only [Span.Has, Span.stop]
      omega
    have hle := h.mult_le b.start
    omega

/-- The counters do not overflow. -/
lemma length_lt (h : Partition L s e st F live extra) (hL : L.Region s e)
    (hk : k < maxOrder) : (F k).length + 1 < 2 ^ 64 := by
  have hsize : 4096 ≤ blockSize k := Nat.le_of_dvd (blockSize_pos k) (dvd_blockSize k)
  have hsub : F k ⊆ range (e - 1) := by
    intro x hx
    have hr := h.free_range hk hx
    rw [mem_range]
    omega
  have hlen := (subperm_of_subset (h.lists.ring k hk).nodup_list hsub).length_le
  have hlt := hL.lt
  rw [length_range] at hlen
  omega

/-- Regrouping the blocks in transit. -/
lemma regroup (h : Partition L s e st F live extra) {extra' : List Span}
    (hm : ∀ x, mult extra' x = mult extra x) : Partition L s e st F live extra' := by
  refine { h with tiles := ?_ }
  intro x
  have hx := h.tiles x
  rw [mult_append] at hx ⊢
  rw [hm, hx]

section

variable (h : Partition L s e st F live (⟨a, blockSize k⟩ :: extra))
include h

/-- A block in transit goes to the list of its order. -/
lemma put {st' : Kmem} {xs : List Nat} (hk : k < maxOrder) (ha : 4096 ∣ a)
    (hp : xs.Perm (a :: F k)) (hlists : FreeLists L st' (update F k xs))
    (hpage : st'.pageOrder = st.pageOrder) (hmagic : ∀ x, x ≠ a → st'.magic x = st.magic x) :
    Partition L s e st' (update F k xs) live extra := by
  refine ⟨hlists, ?_, ?_, h.live_dvd, h.live_order, ?_, ?_⟩
  · intro x
    have hx := h.tiles x
    rw [← singleton_append, mult_append, mult_append, mult_append] at hx
    rw [mult_append, mult_append, mult_freeSpans_add hk hp]
    omega
  · intro j hj x hx
    by_cases hjk : j = k
    · subst hjk
      rw [update_self, hp.mem_iff, mem_cons] at hx
      rcases hx with rfl | hx
      · exact ha
      · exact h.aligned j hj x hx
    · rw [update_of_ne hjk] at hx
      exact h.aligned j hj x hx
  · intro b hb
    rw [hpage]
    exact h.recorded b hb
  · intro x hx hn
    have hxk := hn k hk
    rw [update_self, hp.mem_iff, mem_cons, not_or] at hxk
    rw [hmagic x hxk.1]
    refine h.stray x hx fun j hj hmem => ?_
    by_cases hjk : j = k
    · subst hjk
      exact hxk.2 hmem
    · apply hn j hj
      rwa [update_of_ne hjk]

lemma addFirst (hL : L.Region s e) (hk : k < maxOrder) (ha : 4096 ∣ a) :
    ∃ st', Buddy.addFirst L a k st = some st' ∧
      Partition L s e st' (update F k (a :: F k)) live extra := by
  have hfresh : Fresh L F a := h.fresh hL mem_cons_self (blockSize_pos k)
  obtain ⟨st', hst, hlists, hmagic, hpage⟩ :=
    h.lists.addFirst hk ha hfresh (h.length_lt hL hk)
  refine ⟨st', hst, h.put hk ha (Perm.refl _) hlists hpage fun x _ => ?_⟩
  rw [hmagic]

lemma addLast (hL : L.Region s e) (hk : k < maxOrder) (ha : 4096 ∣ a) :
    ∃ st', Buddy.addLast L a k st = some st' ∧
      Partition L s e st' (update F k (F k ++ [a])) live extra := by
  have hfresh : Fresh L F a := h.fresh hL mem_cons_self (blockSize_pos k)
  obtain ⟨st', hst, hlists, hmagic, hpage, _⟩ :=
    h.lists.addLast hk ha hfresh (h.length_lt hL hk)
  refine ⟨st', hst, h.put hk ha (perm_append_singleton a (F k)) hlists hpage ?_⟩
  intro x hx
  rw [hmagic, update_of_ne hx]

end

/-- `remove` takes a block off its list. -/
lemma remove (h : Partition L s e st F live extra) (hL : L.Region s e)
    (hk : k < maxOrder) (ha : a ∈ F k) :
    Partition L s e (Buddy.remove a st) (update F k ((F k).erase a)) live
      (⟨a, blockSize k⟩ :: extra) := by
  have hsub : ∀ j x, x ∈ update F k ((F k).erase a) j → x ∈ F j := by
    intro j x hx
    by_cases hjk : j = k
    · subst hjk
      rw [update_self] at hx
      exact mem_of_mem_erase hx
    · rwa [update_of_ne hjk] at hx
  have hlen := h.length_lt hL hk
  refine ⟨h.lists.remove hk ha (by omega), ?_, ?_, h.live_dvd, h.live_order, h.recorded, ?_⟩
  · intro x
    have hx := h.tiles x
    rw [mult_append, mult_append, ← mult_freeSpans_erase hk ha] at hx
    rw [← singleton_append, mult_append, mult_append, mult_append]
    omega
  · intro j hj x hx
    exact h.aligned j hj x (hsub j x hx)
  · intro x hx hn
    unfold Buddy.remove
    by_cases hxa : x = a
    · rw [hxa]
      simp [buddyMagic]
    · simp only [update_of_ne hxa]
      refine h.stray x hx fun j hj hmem => hn j hj ?_
      by_cases hjk : j = k
      · subst hjk
        rw [update_self]
        exact (mem_erase_of_ne hxa).mpr hmem
      · rwa [update_of_ne hjk]

end Partition

end Hana.Buddy
