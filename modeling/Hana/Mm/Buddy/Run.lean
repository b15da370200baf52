import Hana.Mm.Buddy.Init

/-!
# Runs of the allocator

A run starts with `buddy_init` and goes on with allocations, releases of live blocks and
stores of the clients, who own the live blocks and the memory outside the managed range.
The list of live blocks is not part of the program's state: a run carries it along, so
that what the program knows (the order recorded in `pages`) can be compared with it.
-/

namespace Hana.Buddy

open Function List Lib

/-- The header words at an address are the same in both states. -/
def SameHeader (st st' : Kmem) (x : Nat) : Prop :=
  st'.magic x = st.magic x ∧ st'.order x = st.order x ∧ st'.prev x = st.prev x ∧
    st'.next x = st.next x

/-- A client may write to live blocks and outside the range, but not to the allocator's own
data, and it leaves no page there that starts with the magic word. -/
structure ClientStore (L : Layout) (s e : Nat) (live : List Block) (st st' : Kmem) : Prop where
  heads : ∀ k < maxOrder, SameHeader st st' (L.freeList k)
  free : ∀ x, 4096 ∣ x → s ≤ x → x < e → (∀ b ∈ live, ¬ b.span.Has x) → SameHeader st st' x
  nrFree : st'.nrFree = st.nrFree
  pageOrder : st'.pageOrder = st.pageOrder
  noMagic : ∀ x, 4096 ∣ x → ((x < s ∨ e ≤ x) ∨ ∃ b ∈ live, b.span.Has x) →
    st'.magic x ≠ buddyMagic

/-- The states of a run, with the blocks that are allocated there. `hmagic` is asked of the memory
before `buddy_init`. -/
inductive Reach (L : Layout) (start end_ : Nat) : Kmem → List Block → Prop
  | init {st st' : Kmem} (hmagic : ∀ x, 4096 ∣ x → st.magic x ≠ buddyMagic)
      (h : buddyInit L start end_ st = some st') : Reach L start end_ st' []
  | kalloc {st st' : Kmem} {live : List Block} {sz a : Nat} (hr : Reach L start end_ st live)
      (hpos : 0 < sz) (hsz : sz ≤ maxRequest) (h : kalloc L sz st = some (a, st')) :
      Reach L start end_ st' (⟨a, requestOrder sz⟩ :: live)
  | kfree {st st' : Kmem} {live : List Block} {b : Block} (hr : Reach L start end_ st live)
      (hb : b ∈ live) (h : kfree L b.addr st = some st') : Reach L start end_ st' (live.erase b)
  | store {st st' : Kmem} {live : List Block} (hr : Reach L start end_ st live)
      (h : ClientStore L (pgRoundUp start) (pgRoundDown end_) live st st') :
      Reach L start end_ st' live

/-- What a run keeps: the blocks on the free lists and the live blocks tile `[s, e)`, the
lists are well formed, and the order of every live block is the recorded one. -/
structure Consistent (L : Layout) (s e : Nat) (st : Kmem) (F : Nat → List Nat)
    (live : List Block) : Prop where
  tiles : Tiles (freeSpans F ++ live.map Block.span) s e
  apart : (freeSpans F ++ live.map Block.span).Pairwise Span.Apart
  ring : ∀ k < maxOrder, LinkRing st.next st.prev (L.freeList k) (F k)
  count : ∀ k < maxOrder, st.nrFree k = (F k).length
  order : ∀ k < maxOrder, ∀ a ∈ F k, st.order a = k
  recorded : ∀ b ∈ live, st.pageOrder (L.pageIndex b.addr) = b.order

variable {L : Layout} {s e : Nat} {st st' : Kmem} {F : Nat → List Nat} {live : List Block}

lemma Partition.consistent (h : Partition L s e st F live []) :
    Consistent L s e st F live := by
  have htiles := h.tiles
  rw [append_nil] at htiles
  refine ⟨htiles, htiles.pairwise_apart ?_, h.lists.ring, h.lists.count, h.lists.order,
    h.recorded⟩
  intro b hb
  rcases mem_append.mp hb with hb | hb
  · obtain ⟨k, _, hb⟩ := mem_flatMap.mp hb
    obtain ⟨a, _, rfl⟩ := mem_map.mp hb
    exact blockSize_pos k
  · obtain ⟨c, _, rfl⟩ := mem_map.mp hb
    exact blockSize_pos c.order

variable {extra : List Span} {k a x : Nat} {b c : Block}

lemma Partition.free_not_live
    (h : Partition L s e st F live extra) (hk : k < maxOrder) (ha : a ∈ F k) (hb : b ∈ live) :
    ¬ b.span.Has a := by
  intro hbx
  have hlive : 0 < mult (live.map Block.span) a :=
    mult_pos_iff.mpr ⟨b.span, mem_map.mpr ⟨b, hb, rfl⟩, hbx⟩
  have hle := h.mult_le a
  have hfree := mult_free_pos hk ha
  omega

/-! ## The headers that `kfree` writes -/

instance (st st' : Kmem) (x : Nat) : Decidable (SameHeader st st' x) :=
  inferInstanceAs (Decidable (_ ∧ _ ∧ _ ∧ _))

lemma SameHeader.trans {st1 : Kmem} (h : SameHeader st st1 x)
    (h' : SameHeader st1 st' x) : SameHeader st st' x :=
  ⟨h'.1.trans h.1, h'.2.1.trans h.2.1, h'.2.2.1.trans h.2.2.1, h'.2.2.2.trans h.2.2.2⟩

lemma remove_sameHeader {block : Nat} (hb : x ≠ block) (hp : x ≠ st.prev block)
    (hn : x ≠ st.next block) : SameHeader st (remove block st) x :=
  ⟨update_of_ne hb _ _, update_of_ne hb _ _, update_of_ne hn _ _,
    update_of_ne hp _ _⟩

lemma addLast_sameHeader (h : addLast L a k st = some st') (ha : x ≠ a)
    (hh : x ≠ L.freeList k) (hl : x ≠ st.prev (L.freeList k)) : SameHeader st st' x := by
  unfold addLast at h
  split_ifs at h
  cases h
  refine ⟨update_of_ne ha _ _, update_of_ne ha _ _, ?_, ?_⟩
  · exact (update_of_ne ha _ _).trans (update_of_ne hh _ _)
  · exact (update_of_ne hl _ _).trans (update_of_ne ha _ _)

/-- The nodes of the free lists lie in no live block. -/
lemma Partition.node_not_live {u : Nat} (h : Partition L s e st F live extra) (hL : L.Region s e)
    (hk : k < maxOrder) (hu : Node L F k u) (hb : b ∈ live) : ¬ b.span.Has u := by
  rcases hu with rfl | hu
  · have hrange := h.live_range hb
    have hheads := hL.heads
    simp only [Span.Has, Span.stop, Block.span, Layout.freeList]
    omega
  · exact h.free_not_live hk hu hb

lemma Partition.transit_not_live
    (h : Partition L s e st F live [⟨a, blockSize k⟩]) (hb : b ∈ live) : ¬ b.span.Has a := by
  intro hhas
  have hlive : 0 < mult (live.map Block.span) a :=
    mult_pos_iff.mpr ⟨b.span, mem_map.mpr ⟨b, hb, rfl⟩, hhas⟩
  have hpos := blockSize_pos k
  have hextra : 0 < mult [(⟨a, blockSize k⟩ : Span)] a := by
    refine mult_pos_iff.mpr ⟨_, mem_singleton.mpr rfl, ?_⟩
    simp only [Span.Has, Span.stop]
    omega
  have hle := h.mult_le a
  omega

/-- `buddy_free_helper` writes to the lists and to the block that it puts there, and to no block that
is allocated. -/
lemma buddyFreeHelper_sameHeader (hL : L.Region s e) (hb : b ∈ live) (hx : b.span.Has x) :
    ∀ fuel addr order st F st', order + fuel = maxOrder - 1 → 4096 ∣ addr →
      Partition L s e st F live [⟨addr, blockSize order⟩] →
      buddyFreeHelper L fuel addr order st = some st' → SameHeader st st' x := by
  have hne : ∀ {k u st F extra}, Partition L s e st F live extra → k < maxOrder → Node L F k u →
      x ≠ u := by
    rintro k u st F extra hp hk hu rfl
    exact hp.node_not_live hL hk hu hb hx
  have hput : ∀ {addr order st F st'}, order < maxOrder →
      Partition L s e st F live [⟨addr, blockSize order⟩] →
      addLast L addr order st = some st' → SameHeader st st' x := by
    intro addr order st F st' hk hp h
    have hhead : Node L F order (L.freeList order) := .inl rfl
    refine addLast_sameHeader h ?_ (hne hp hk hhead) (hne hp hk (hp.lists.prev_node hk hhead))
    rintro rfl
    exact hp.transit_not_live hb hx
  intro fuel
  induction fuel with
  | zero =>
    intro addr order st F st' ho _ hp h
    exact hput (by unfold maxOrder at *; omega) hp h
  | succ fuel ih =>
    intro addr order st F st' ho hd hp h
    have hk : order < maxOrder := by
      omega
    have haddr := hp.transit_lt hL
    have hbd := buddyBlock_dvd haddr hk hd
    rw [buddyFreeHelper] at h
    by_cases hm : canMerge addr order st = true
    · rw [if_pos hm] at h
      obtain ⟨-, hbuddy, -⟩ := (hp.canMerge_iff hk hbd).mp hm
      have hnode : Node L F order (buddyBlock addr order) := .inr hbuddy
      have hmerged := (hp.remove hL hk hbuddy).regroup fun y =>
        (mult_merge (k := order) haddr hk y).symm
      have hlow := (buddyLow_dvd haddr hk hd).1
      have hremove : SameHeader st (remove (buddyBlock addr order) st) x :=
        remove_sameHeader (hne hp hk hnode) (hne hp hk (hp.lists.prev_node hk hnode))
          (hne hp hk (hp.lists.next_node hk hnode))
      exact hremove.trans (ih _ _ _ _ _ (by omega) hlow hmerged h)
    · rw [if_neg hm] at h
      exact hput hk hp h

/-- `kfree` leaves the blocks alone that stay allocated. -/
lemma kfree_sameHeader (hL : L.Region s e) (h : Partition L s e st F live [])
    (hb : b ∈ live) (hk : kfree L b.addr st = some st') (hc : c ∈ live.erase b)
    (hx : c.span.Has x) : SameHeader st st' x := by
  have hdvd := h.live_dvd b hb
  have ho := h.live_order b hb
  have hp := (h.takeBack hb).setPageOrder hL (n := 0) hdvd (mem_singleton.mpr rfl)
  rw [kfree, buddyFree, h.recorded b hb] at hk
  have hsame := buddyFreeHelper_sameHeader hL hc hx _ _ _ _ _ _ (by unfold maxOrder at *; omega)
    hdvd hp hk
  exact hsame

/-- A client store does not reach the free lists. -/
lemma Partition.store (h : Partition L s e st F live []) (hs : ClientStore L s e live st st') :
    Partition L s e st' F live [] := by
  have hfree : ∀ k < maxOrder, ∀ a ∈ F k, SameHeader st st' a := by
    intro k hk a ha
    have hr := h.free_range hk ha
    have hpos := blockSize_pos k
    exact hs.free a (h.aligned k hk a ha) hr.1 (by omega) fun b hb => h.free_not_live hk ha hb
  have hnode : ∀ k < maxOrder, ∀ u, u = L.freeList k ∨ u ∈ F k → SameHeader st st' u := by
    intro k hk u hu
    rcases hu with rfl | hu
    · exact hs.heads k hk
    · exact hfree k hk u hu
  refine { h with
    lists := { h.lists with ring := ?_, count := ?_, order := ?_ }
    recorded := ?_
    stray := ?_ }
  · intro k hk
    exact (h.lists.ring k hk).congr (fun u hu => (hnode k hk u hu).2.2.2)
      (fun u hu => (hnode k hk u hu).2.2.1)
  · intro k hk
    rw [hs.nrFree, h.lists.count k hk]
  · intro k hk a ha
    rw [(hfree k hk a ha).2.1, h.lists.order k hk a ha]
  · intro b hb
    rw [hs.pageOrder]
    exact h.recorded b hb
  · intro x hx hn
    by_cases hout : (x < s ∨ e ≤ x) ∨ ∃ b ∈ live, b.span.Has x
    · exact hs.noMagic x hx hout
    · rw [not_or, not_or, not_exists] at hout
      obtain ⟨⟨hlo, hhi⟩, hlive⟩ := hout
      have hsame := hs.free x hx (by omega) (by omega) fun b hb hbx => hlive b ⟨hb, hbx⟩
      rw [hsame.1]
      exact h.stray x hx hn

/-- Every reachable state carries a partition. -/
lemma Reach.partition {start end_ : Nat} (hL : L.Region (pgRoundUp start) (pgRoundDown end_))
    (hr : Reach L start end_ st live) :
    ∃ F, Partition L (pgRoundUp start) (pgRoundDown end_) st F live [] := by
  induction hr with
  | init hmagic h =>
    obtain ⟨F, hp, _⟩ := buddyInit_spec hL hmagic h
    exact ⟨F, hp⟩
  | kalloc _ hpos hsz h ih =>
    obtain ⟨F, hp⟩ := ih
    rcases kalloc_spec hL hp hpos hsz with ⟨hnone, _⟩ | ⟨addr, st1, F', hsome, hp'⟩
    · rw [hnone] at h
      cases h
    · rw [hsome] at h
      cases h
      exact ⟨F', hp'⟩
  | kfree _ hb h ih =>
    obtain ⟨F, hp⟩ := ih
    obtain ⟨st1, F', hsome, hp'⟩ := kfree_spec hL hp hb
    rw [hsome] at h
    cases h
    exact ⟨F', hp'⟩
  | store _ h ih =>
    obtain ⟨F, hp⟩ := ih
    exact ⟨F, hp.store h⟩

/-- The spans of a list that cover a number once are apart from one another. -/
lemma Partition.live_apart (h : Partition L s e st F (b :: live) [])
    (hc : c ∈ live) : b.span.Apart c.span := by
  have happart := h.consistent.apart
  rw [pairwise_append, map_cons, pairwise_cons] at happart
  exact happart.2.1.1 c.span (mem_map.mpr ⟨c, hc, rfl⟩)

/-- Freeing a block adds exactly its addresses to the free ones. -/
lemma Partition.mult_freed {F' : Nat → List Nat} (hb : b ∈ live)
    (h : Partition L s e st F live []) (h' : Partition L s e st' F' (live.erase b) []) (x : Nat) :
    mult (freeSpans F') x = mult (freeSpans F) x + mult [b.span] x := by
  have hx := h.tiles x
  have hx' := h'.tiles x
  have hp := mult_perm ((perm_cons_erase hb).map Block.span) x
  rw [map_cons, ← singleton_append, mult_append] at hp
  rw [append_nil, mult_append] at hx hx'
  omega

/-- In every state of a run the free and the live blocks tile the managed range and the
free lists are well formed; an allocation returns a page-aligned block that is large
enough and apart from all live blocks, or stops because no block is large enough; and a
live block can be freed with the order that is recorded for it. -/
theorem buddy_partition {start end_ : Nat} (hend : end_ < 2 ^ 64)
    (hzone : L.zone + 40 * maxOrder ≤ pgRoundUp start ∨ pgRoundDown end_ ≤ L.zone)
    (hr : Reach L start end_ st live) :
    ∃ F, Consistent L (pgRoundUp start) (pgRoundDown end_) st F live ∧
      (∀ sz, 0 < sz → sz ≤ 4 * 2 ^ 20 →
        (kalloc L sz st = none ∧ ∀ i, requestOrder sz ≤ i → i < maxOrder → F i = []) ∨
        ∃ a st', kalloc L sz st = some (a, st') ∧ 4096 ∣ a ∧
          sz ≤ blockSize (requestOrder sz) ∧ pgRoundUp start ≤ a ∧
          a + blockSize (requestOrder sz) ≤ pgRoundDown end_ ∧
          ∀ b ∈ live, Span.Apart ⟨a, blockSize (requestOrder sz)⟩ b.span) ∧
      (∀ b ∈ live, ∃ st' F', kfree L b.addr st = some st' ∧
        Consistent L (pgRoundUp start) (pgRoundDown end_) st' F' (live.erase b) ∧
        ∀ x, mult (freeSpans F') x = mult (freeSpans F) x + mult [b.span] x) := by
  have hL : L.Region (pgRoundUp start) (pgRoundDown end_) :=
    ⟨pgRoundUp_dvd start, lt_of_le_of_lt (pgRoundDown_le end_) hend, hzone⟩
  obtain ⟨F, hp⟩ := hr.partition hL
  refine ⟨F, hp.consistent, ?_, ?_⟩
  · intro sz hpos hsz
    rcases kalloc_spec hL hp hpos hsz with hnone | ⟨a, st1, F', hsome, hp'⟩
    · exact .inl hnone
    · right
      have hmem : (⟨a, requestOrder sz⟩ : Block) ∈ (⟨a, requestOrder sz⟩ : Block) :: live :=
        mem_cons_self
      have hrange := hp'.live_range hmem
      exact ⟨a, st1, hsome, hp'.live_dvd _ hmem, (requestOrder_spec hsz).2, hrange.1, hrange.2,
        fun b hb => hp'.live_apart hb⟩
  · intro b hb
    obtain ⟨st1, F', hsome, hp'⟩ := kfree_spec hL hp hb
    exact ⟨st1, F', hsome, hp'.consistent, hp.mult_freed hb hp'⟩

/-- The bytes on the free lists, as `nr_free` counts them. -/
def freeBytes (st : Kmem) : Nat := ((range maxOrder).map fun k => st.nrFree k * blockSize k).sum

/-- No page is lost: in every state of a run the free and the live blocks have all of the bytes. -/
theorem bytes_conserved {start end_ : Nat} (hend : end_ < 2 ^ 64)
    (hzone : L.zone + 40 * maxOrder ≤ pgRoundUp start ∨ pgRoundDown end_ ≤ L.zone)
    (hr : Reach L start end_ st live) :
    freeBytes st + (live.map fun b => blockSize b.order).sum =
      pgRoundDown end_ - pgRoundUp start := by
  obtain ⟨F, hp⟩ := hr.partition
    ⟨pgRoundUp_dvd start, lt_of_le_of_lt (pgRoundDown_le end_) hend, hzone⟩
  have hfree : ((freeSpans F).map Span.size).sum = freeBytes st := by
    rw [freeSpans, map_flatMap, flatMap_def, sum_flatten, map_map]
    refine congrArg sum (map_congr_left fun k hk => ?_)
    simp [hp.lists.count k (mem_range.mp hk), Function.comp_def]
  have hsum := hp.consistent.tiles.sum_size
  rwa [map_append, sum_append, hfree, map_map] at hsum

/-- Four pages, from which two are allocated. -/
lemma fourPages_reach :
    ∃ st, Reach ⟨0x80250000, 0x80251000⟩ 0x80300000 0x80304000 st [⟨0x80302000, 1⟩] := by
  have hrun : ((buddyInit ⟨0x80250000, 0x80251000⟩ 0x80300000 0x80304000
      ⟨fun _ => 0, fun _ => 0, fun _ => 0, fun _ => 0, fun _ => 0, fun _ => 0⟩).bind
      (kalloc ⟨0x80250000, 0x80251000⟩ 5000)).map Prod.fst = some 0x80302000 := by
    decide +kernel
  obtain ⟨⟨a, st⟩, hbind, rfl⟩ := Option.map_eq_some_iff.mp hrun
  obtain ⟨st1, hinit, halloc⟩ := Option.bind_eq_some_iff.mp hbind
  have hzero : 0 ≠ buddyMagic := by decide
  have hreach := Reach.kalloc (Reach.init (fun _ _ => hzero) hinit) (by decide) (by decide)
    halloc
  exact ⟨st, hreach⟩

theorem buddy_partition_four_pages :
    ∃ st, Reach ⟨0x80250000, 0x80251000⟩ 0x80300000 0x80304000 st [⟨0x80302000, 1⟩] ∧
      ∃ F, Consistent ⟨0x80250000, 0x80251000⟩ (pgRoundUp 0x80300000) (pgRoundDown 0x80304000)
        st F [⟨0x80302000, 1⟩] := by
  obtain ⟨st, hreach⟩ := fourPages_reach
  obtain ⟨F, hF, _⟩ := buddy_partition (by decide) (.inl (by decide)) hreach
  exact ⟨st, hreach, F, hF⟩

theorem bytes_conserved_four_pages :
    ∃ st, Reach ⟨0x80250000, 0x80251000⟩ 0x80300000 0x80304000 st [⟨0x80302000, 1⟩] ∧
      freeBytes st + 0x2000 = 0x4000 := by
  obtain ⟨st, hreach⟩ := fourPages_reach
  exact ⟨st, hreach, bytes_conserved (by decide) (.inl (by decide)) hreach⟩

end Hana.Buddy
