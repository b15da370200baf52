import Hana.Mm.Buddy.Client

/-!
# Aligned blocks and coalescing

Two consequences of the specifications of `kalloc` and `kfree`.

Where the managed range ends at a multiple of the largest block size, the layout of
`buddy_init` puts every block at a multiple of its size, although it starts anywhere: the
blocks are laid out in increasing order, so that what follows a block is made of blocks that
are not smaller. Splitting and merging keep this, and the flipped bit always names the other
half of an aligned pair.

Freeing merges a block with its free buddy, if the buddy is marked. `add_last` marks the block
that it puts on a list and `add_first`, which puts back the halves of a split, does not. The
halves are therefore not found again: a block that was cut out of a larger one never grows back
when it is freed.
-/

namespace Hana.Buddy

open Lib List Option

variable {L : Layout} {s e : Nat} {st st' : Kmem} {F : Nat → List Nat} {live : List Block}

/-! ## Alignment -/

/-- The two halves of an aligned block of order `k + 1`, in either order. -/
def Siblings (k a b : Nat) : Prop :=
  ∃ p, blockSize (k + 1) ∣ p ∧ ((a = p ∧ b = p + blockSize k) ∨ (b = p ∧ a = p + blockSize k))

lemma siblings_buddyBlock {a k : Nat} (ha : a < 2 ^ 64) (hk : k < maxOrder)
    (hd : blockSize k ∣ a) : Siblings k a (buddyBlock a k) := by
  refine ⟨buddyLow a k, buddyLow_aligned ha hk hd, ?_⟩
  rcases buddy_cases ha hk with ⟨hb, hl⟩ | ⟨hb, hl⟩
  · right
    rw [hl]
    exact ⟨rfl, hb.symm⟩
  · left
    rw [hl]
    exact ⟨rfl, hb⟩

/-- The merges of `buddy_free_helper`: the block that it holds, and the buddy that it takes. -/
def mergeSteps : (fuel addr order : Nat) → Kmem → List (Block × Block)
  | 0, _, _, _ => []
  | fuel + 1, addr, order, st =>
    if canMerge addr order st then
      (⟨addr, order⟩, ⟨buddyBlock addr order, order⟩) ::
        mergeSteps fuel (buddyLow addr order) (order + 1) (remove (buddyBlock addr order) st)
    else []

/-- The merges of `kfree`. -/
def kfreeSteps (L : Layout) (addr : Nat) (st : Kmem) : List (Block × Block) :=
  let order := st.pageOrder (L.pageIndex addr)
  mergeSteps (maxOrder - 1 - order) addr order (setPageOrder L addr 0 st)

/-- Two blocks of one order that are halves of an aligned block. -/
def MergeAligned (p : Block × Block) : Prop :=
  p.1.order = p.2.order ∧ Siblings p.1.order p.1.addr p.2.addr

lemma mergeSteps_aligned : ∀ fuel addr order st, order + fuel < maxOrder → addr < 2 ^ 64 →
    blockSize order ∣ addr → ∀ p ∈ mergeSteps fuel addr order st, MergeAligned p := by
  intro fuel
  induction fuel with
  | zero =>
    intro addr order st _ _ _ p hp
    cases hp
  | succ fuel ih =>
    intro addr order st ho ha hd p hp
    have hk : order < maxOrder := by omega
    have hlow := (buddyLow_dvd ha hk ((dvd_blockSize order).trans hd)).2
    unfold mergeSteps at hp
    split_ifs at hp with hm
    · rcases mem_cons.mp hp with rfl | hp
      · exact ⟨rfl, siblings_buddyBlock ha hk hd⟩
      · exact ih _ _ _ (by omega) hlow (buddyLow_aligned ha hk hd) p hp
    · cases hp

/-- The live blocks start at multiples of their sizes. -/
def LiveNatural (live : List Block) : Prop := ∀ b ∈ live, blockSize b.order ∣ b.addr

/-- Alignment is kept by every step of a run. -/
lemma Reach.natural {start end_ : Nat} (hL : L.Region (pgRoundUp start) (pgRoundDown end_))
    (htop : blockSize (maxOrder - 1) ∣ pgRoundDown end_) (hr : Reach L start end_ st live) :
    ∃ F, Partition L (pgRoundUp start) (pgRoundDown end_) st F live [] ∧ Natural F ∧
      LiveNatural live := by
  induction hr with
  | init hmagic h =>
    obtain ⟨F, hp, hnat⟩ := buddyInit_spec hL hmagic h
    exact ⟨F, hp, hnat htop, nofun⟩
  | kalloc _ hpos hsz h ih =>
    obtain ⟨F, hp, hnat, hlive⟩ := ih
    rcases kalloc_cases hL hp hpos hsz with ⟨hnone, _⟩ | ⟨i, a, st1, hle, hi, ha, _, hsome, hp', _⟩
    · rw [hnone] at h
      cases h
    · rw [hsome] at h
      cases h
      have hsum : requestOrder _ + (i - requestOrder _) = i := Nat.add_sub_of_le hle
      have herase : Natural (Function.update F i ((F i).erase a)) :=
        hnat.update fun x hx => hnat i hi x (mem_of_mem_erase hx)
      refine ⟨_, hp', herase.splitLists (by rw [hsum]; exact hnat i hi a ha), ?_⟩
      intro b hb
      rcases mem_cons.mp hb with rfl | hb
      · exact Nat.dvd_add ((blockSize_dvd hle).trans (hnat i hi a ha))
          (Nat.dvd_sub (blockSize_dvd hle) (Nat.dvd_refl _))
      · exact hlive b hb
  | kfree _ hb h ih =>
    obtain ⟨F, hp, hnat, hlive⟩ := ih
    obtain ⟨st1, F', x, k, hsome, hp', hput⟩ := kfree_cases hL hp hb
    rw [hsome] at h
    cases h
    refine ⟨F', hp', fun j hj y hy => ?_, fun c hc => hlive c (mem_of_mem_erase hc)⟩
    rcases hput.old j hj y hy with hold | ⟨rfl, rfl⟩
    · exact hnat j hj y hold
    · exact hput.aligned (hlive _ hb)
  | store _ h ih =>
    obtain ⟨F, hp, hnat, hlive⟩ := ih
    exact ⟨F, hp.store h, hnat, hlive⟩

/-- If the range ends at a multiple of 4 MiB, every free and every live block of a run starts at a
multiple of its size, the address with the bit flipped is the other half of an aligned pair, and
what `kfree` merges are the two halves of such a pair. -/
theorem buddy_aligned {start end_ : Nat} (hend : end_ < 2 ^ 64) (htop : 4 * 2 ^ 20 ∣ end_)
    (hzone : L.zone + 40 * maxOrder ≤ pgRoundUp start ∨ pgRoundDown end_ ≤ L.zone)
    (hr : Reach L start end_ st live) :
    ∃ F, Consistent L (pgRoundUp start) (pgRoundDown end_) st F live ∧
      (∀ k < maxOrder, ∀ a ∈ F k, pgSize * 2 ^ k ∣ a ∧ Siblings k a (buddyBlock a k)) ∧
      (∀ b ∈ live, pgSize * 2 ^ b.order ∣ b.addr ∧
        Siblings b.order b.addr (buddyBlock b.addr b.order)) ∧
      ∀ b ∈ live, ∀ p ∈ kfreeSteps L b.addr st, MergeAligned p := by
  have hL : L.Region (pgRoundUp start) (pgRoundDown end_) :=
    ⟨pgRoundUp_dvd start, lt_of_le_of_lt (pgRoundDown_le end_) hend, hzone⟩
  have htop' : blockSize (maxOrder - 1) ∣ pgRoundDown end_ := by
    have hsize : blockSize (maxOrder - 1) = 4 * 2 ^ 20 := by decide
    rw [hsize, pgRoundDown_eq hend]
    omega
  obtain ⟨F, hp, hnat, hlive⟩ := hr.natural hL htop'
  have hsize : ∀ k, pgSize * 2 ^ k = blockSize k := fun k => (Nat.shiftLeft_eq _ _).symm
  have hlt : ∀ b ∈ live, b.addr < 2 ^ 64 := by
    intro b hb
    have hrange := hp.live_range hb
    have hbound := hL.lt
    omega
  refine ⟨F, hp.consistent, fun k hk a ha => ?_, fun b hb => ?_, fun b hb p hmem => ?_⟩
  · have hrange := hp.free_range hk ha
    have hbound := hL.lt
    rw [hsize]
    exact ⟨hnat k hk a ha, siblings_buddyBlock (by omega) hk (hnat k hk a ha)⟩
  · rw [hsize]
    exact ⟨hlive b hb, siblings_buddyBlock (hlt b hb) (hp.live_order b hb) (hlive b hb)⟩
  · have ho := hp.live_order b hb
    unfold kfreeSteps at hmem
    rw [hp.recorded b hb] at hmem
    exact mergeSteps_aligned _ _ _ _ (by unfold maxOrder at *; omega) (hlt b hb) (hlive b hb) p hmem

/-- The four pages below the end of a 4 MiB block, from which two are allocated. -/
theorem buddy_aligned_four_pages :
    ∃ st, Reach ⟨0x80250000, 0x80251000⟩ 0x803fc000 0x80400000 st [⟨0x803fe000, 1⟩] ∧
      ∃ F, Consistent ⟨0x80250000, 0x80251000⟩ (pgRoundUp 0x803fc000) (pgRoundDown 0x80400000)
          st F [⟨0x803fe000, 1⟩] ∧
        ∀ k < maxOrder, ∀ a ∈ F k, pgSize * 2 ^ k ∣ a ∧ Siblings k a (buddyBlock a k) := by
  have hrun : ((buddyInit ⟨0x80250000, 0x80251000⟩ 0x803fc000 0x80400000
      ⟨fun _ => 0, fun _ => 0, fun _ => 0, fun _ => 0, fun _ => 0, fun _ => 0⟩).bind
      (kalloc ⟨0x80250000, 0x80251000⟩ 5000)).map Prod.fst = some 0x803fe000 := by
    decide +kernel
  obtain ⟨⟨a, st⟩, hbind, rfl⟩ := map_eq_some_iff.mp hrun
  obtain ⟨st1, hinit, halloc⟩ := bind_eq_some_iff.mp hbind
  have hzero : 0 ≠ buddyMagic := by decide
  have hreach := Reach.kalloc (Reach.init (fun _ _ => hzero) hinit) (by decide) (by decide)
    halloc
  obtain ⟨F, hF, hfree, _⟩ := buddy_aligned (by decide) (by decide) (.inl (by decide)) hreach
  exact ⟨st, hreach, F, hF, hfree⟩

/-! ## Coalescing -/

/-- A page inside a block in transit does not carry the mark. -/
lemma Partition.inside_magic {extra : List Span} {a n y : Nat}
    (h : Partition L s e st F live (⟨a, n⟩ :: extra)) (hd : 4096 ∣ y) (hlo : a ≤ y)
    (hhi : y < a + n) : st.magic y ≠ buddyMagic := by
  refine h.stray y hd fun k hk hmem => ?_
  have hfree : 0 < mult (freeSpans F) y := mult_free_pos hk hmem
  have hextra : 0 < mult (⟨a, n⟩ :: extra) y :=
    mult_pos_iff.mpr ⟨⟨a, n⟩, mem_cons_self, hlo, hhi⟩
  have hle := h.mult_le y
  omega

/-- The half that is split off last is the only block of its order, and it is not marked. -/
lemma Partition.split_not_marked (h : Partition L s e st F live []) (hL : L.Region s e)
    {order i c : Nat} (hlt : order < i) (hi : i < maxOrder) (hc : c ∈ F i) (hempty : F order = [])
    (hmagic : st'.magic = Function.update st.magic c 0) :
    ∀ y ∈ splitLists (Function.update F i ((F i).erase c)) order (i - order) c order,
      ¬ Marked st' y := by
  intro y hy hmark
  have hsum : order + (i - order) = i := by omega
  have hy : y = c + (blockSize i - blockSize (order + 1)) := by
    simpa [splitLists, hsum, hlt, hlt.ne, hempty] using hy
  have hsize := blockSize_le (j := order + 1) (k := i) hlt
  have hpos := blockSize_pos (order + 1)
  have hdvd : 4096 ∣ y := by
    rw [hy]
    exact Nat.dvd_add (h.aligned i hi c hc) (Nat.dvd_sub (dvd_blockSize _) (dvd_blockSize _))
  refine (h.remove hL hi hc).inside_magic hdvd (by omega) (by omega) ?_
  have hsame : (Buddy.remove c st).magic = st'.magic := hmagic.symm
  rw [hsame]
  exact hmark.1

/-- A block that is cut out of a larger one is put back as it is. -/
lemma kfree_after_split (hL : L.Region s e) (h : Partition L s e st F live []) {sz a : Nat}
    (hpos : 0 < sz) (hsz : sz ≤ maxRequest) (hempty : F (requestOrder sz) = []) {st1 : Kmem}
    (halloc : kalloc L sz st = some (a, st1)) :
    ∃ st2 F2, kfree L a st1 = some st2 ∧ Partition L s e st2 F2 live [] ∧
      a ∈ F2 (requestOrder sz) := by
  rcases kalloc_cases hL h hpos hsz with ⟨hnone, _⟩ | ⟨i, c, st', hle, hi, hc, _, hsome, hp, hmagic⟩
  · rw [hnone] at halloc
    cases halloc
  · rw [hsome] at halloc
    cases halloc
    have hlt : requestOrder sz < i := by
      refine lt_of_le_of_ne hle fun heq => ?_
      rw [← heq, hempty] at hc
      cases hc
    have hhalf := h.split_not_marked hL hlt hi hc hempty hmagic
    obtain ⟨st2, F2, x, k, hfree, hp2, hput⟩ := kfree_cases hL hp mem_cons_self
    rw [erase_cons_head] at hp2
    have hmem := hput.mem
    obtain ⟨hx, hk⟩ := hput.alone fun hm => hhalf _ hm.1 hm.2
    rw [hx, hk] at hmem
    exact ⟨st2, F2, hfree, hp2, hmem⟩

/-- After `kfree` the block that was put on a list has no free buddy exactly if every free buddy
that was met on the way up was marked. Allocating a block out of a larger one and freeing it again
never gives the same free blocks. -/
theorem kfree_coalesces_iff {start end_ : Nat} (hend : end_ < 2 ^ 64)
    (hzone : L.zone + 40 * maxOrder ≤ pgRoundUp start ∨ pgRoundDown end_ ≤ L.zone)
    (hr : Reach L start end_ st live) :
    ∃ F, Consistent L (pgRoundUp start) (pgRoundDown end_) st F live ∧
      (∀ b ∈ live, ∃ st' F' x k, kfree L b.addr st = some st' ∧
        Consistent L (pgRoundUp start) (pgRoundDown end_) st' F' (live.erase b) ∧
        k < maxOrder ∧ x ∈ F' k ∧ x ≤ b.addr ∧ b.addr + blockSize b.order ≤ x + blockSize k ∧
        ((k < maxOrder - 1 → buddyBlock x k ∉ F' k) ↔ ¬ Misses st F b.addr b.order)) ∧
      (∀ sz, 0 < sz → sz ≤ 4 * 2 ^ 20 → F (requestOrder sz) = [] →
        ∀ a st₁, kalloc L sz st = some (a, st₁) →
          ∃ st₂ F₂, kfree L a st₁ = some st₂ ∧
            Consistent L (pgRoundUp start) (pgRoundDown end_) st₂ F₂ live ∧
            ¬ ∀ k < maxOrder, ∀ x, x ∈ F₂ k ↔ x ∈ F k) := by
  have hL : L.Region (pgRoundUp start) (pgRoundDown end_) :=
    ⟨pgRoundUp_dvd start, lt_of_le_of_lt (pgRoundDown_le end_) hend, hzone⟩
  obtain ⟨F, hp⟩ := hr.partition hL
  refine ⟨F, hp.consistent, fun b hb => ?_, fun sz hpos hsz hempty a st₁ halloc => ?_⟩
  · obtain ⟨st', F', x, k, hfree, hp', hput⟩ := kfree_cases hL hp hb
    exact ⟨st', F', x, k, hfree, hp'.consistent, hput.order_lt, hput.mem, hput.start, hput.stop,
      hput.eager⟩
  · obtain ⟨st₂, F₂, hfree, hp2, hmem⟩ := kfree_after_split hL hp hpos hsz hempty halloc
    refine ⟨st₂, F₂, hfree, hp2.consistent, fun hsame => ?_⟩
    have hback := (hsame _ (requestOrder_spec hsz).1 a).mp hmem
    rw [hempty] at hback
    cases hback

/-- Four pages, of which the last two are allocated one by one: the first one that is freed has no
free buddy. -/
theorem kfree_coalesces_first :
    ∃ st, Reach ⟨0x80250000, 0x80251000⟩ 0x80300000 0x80304000 st
        [⟨0x80302000, 0⟩, ⟨0x80303000, 0⟩] ∧
      ∃ F, Consistent ⟨0x80250000, 0x80251000⟩ (pgRoundUp 0x80300000) (pgRoundDown 0x80304000) st F
          [⟨0x80302000, 0⟩, ⟨0x80303000, 0⟩] ∧
        ¬ Misses st F 0x80302000 0 ∧
        ∃ st' F' x k, kfree ⟨0x80250000, 0x80251000⟩ 0x80302000 st = some st' ∧
          Consistent ⟨0x80250000, 0x80251000⟩ (pgRoundUp 0x80300000) (pgRoundDown 0x80304000) st' F'
            [⟨0x80303000, 0⟩] ∧
          x ∈ F' k ∧ x ≤ 0x80302000 ∧ (k < maxOrder - 1 → buddyBlock x k ∉ F' k) := by
  obtain ⟨st, hboot, hreach⟩ := bootTwo_reach
  have hcount : bootTwo.map (fun st => st.nrFree 0) = some 0 := by decide +kernel
  rw [hboot, map_some, some.injEq] at hcount
  obtain ⟨F, hF, hfree, _⟩ := kfree_coalesces_iff (by decide) (.inl (by decide)) hreach
  have hempty : F 0 = [] := by
    rw [hF.count 0 (by decide), length_eq_zero_iff] at hcount
    exact hcount
  have hmiss : ¬ Misses st F 0x80302000 0 := by
    intro hm
    cases hm with
    | here _ hmem _ =>
      rw [hempty] at hmem
      cases hmem
    | later _ hmem _ _ =>
      rw [hempty] at hmem
      cases hmem
  obtain ⟨st', F', x, k, hst', hF', _, hx, hle, _, hiff⟩ := hfree ⟨0x80302000, 0⟩ (by simp)
  exact ⟨st, hreach, F, hF, hmiss, st', F', x, k, hst', hF', hx, hle, hiff.mpr hmiss⟩

/-- Four pages are one block of order 2. A page is allocated and freed: both it and its buddy are on
the list of order 0 then, and there is no block of order 2 any more. -/
theorem kfree_leaves_halves :
    ∃ st st₁ st₂, Reach ⟨0x80250000, 0x80251000⟩ 0x80300000 0x80304000 st [] ∧
      kalloc ⟨0x80250000, 0x80251000⟩ 4096 st = some (0x80303000, st₁) ∧
      kfree ⟨0x80250000, 0x80251000⟩ 0x80303000 st₁ = some st₂ ∧
      buddyBlock 0x80303000 0 = 0x80302000 ∧
      st₂.next (Layout.freeList ⟨0x80250000, 0x80251000⟩ 0) = 0x80302000 ∧
      st₂.next 0x80302000 = 0x80303000 ∧ st.nrFree 2 = 1 ∧ st₂.nrFree 2 = 0 := by
  have hrun : ((buddyInit ⟨0x80250000, 0x80251000⟩ 0x80300000 0x80304000
      ⟨fun _ => 0, fun _ => 0, fun _ => 0, fun _ => 0, fun _ => 0, fun _ => 0⟩).bind fun st =>
        (kalloc ⟨0x80250000, 0x80251000⟩ 4096 st).bind fun p =>
          (kfree ⟨0x80250000, 0x80251000⟩ 0x80303000 p.2).map fun st₂ =>
            decide (p.1 = 0x80303000 ∧
              st₂.next (Layout.freeList ⟨0x80250000, 0x80251000⟩ 0) = 0x80302000 ∧
              st₂.next 0x80302000 = 0x80303000 ∧ st.nrFree 2 = 1 ∧ st₂.nrFree 2 = 0)) =
      some true := by
    decide +kernel
  obtain ⟨st, hinit, hrun⟩ := bind_eq_some_iff.mp hrun
  obtain ⟨⟨a, st₁⟩, halloc, hrun⟩ := bind_eq_some_iff.mp hrun
  obtain ⟨st₂, hfree, hrun⟩ := map_eq_some_iff.mp hrun
  obtain ⟨rfl, hfacts⟩ := of_decide_eq_true hrun
  have hzero : 0 ≠ buddyMagic := by decide
  exact ⟨st, st₁, st₂, Reach.init (fun _ _ => hzero) hinit, halloc, hfree, by decide, hfacts⟩

end Hana.Buddy
