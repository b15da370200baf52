import Hana.Mm.Buddy.Run

/-!
# What the clients can do to the allocator

`buddy_free_helper` recognises a free buddy by words that it reads at the buddy's address.
Those words may belong to a live page, whose owner can write anything into them. This
module looks at runs in which the clients store arbitrary bytes (`OpenReach`) and at
`kfree` on two memories that differ inside live blocks only.

The free lists, the counters and the recorded orders do not depend on the magic words, so
that `Partition` is carried for the state without them (`unmarked`). What is left is the
condition that `kfree` is not misled: the buddies that it takes are on the free lists.
-/

namespace Hana.Buddy

open Function List
open Option (bind_eq_bind map_some)

open Lib

/-- The block is met when the list of order `k` is followed from its head. -/
def OnList (L : Layout) (st : Kmem) (k a : Nat) : Prop := Follows st.next (L.freeList k) a

/-- Freeing a block at `addr` merges upwards, with blocks of the free lists, until it would take a
buddy that satisfies `Bad`. -/
inductive Meets (L : Layout) (st : Kmem) (Bad : Nat → Nat → Prop) : (addr order : Nat) → Prop
  | here {addr order : Nat} (hm : canMerge addr order st = true)
      (hbad : Bad (buddyBlock addr order) order) : Meets L st Bad addr order
  | later {addr order : Nat} (hm : canMerge addr order st = true)
      (hon : OnList L st order (buddyBlock addr order))
      (h : Meets L st Bad (buddyLow addr order) (order + 1)) : Meets L st Bad addr order

/-- Freeing the block would take a buddy that is not on the list of its order. -/
def Misled (L : Layout) (st : Kmem) (b : Block) : Prop :=
  Meets L st (fun y k => ¬ OnList L st k y) b.addr b.order

/-- Freeing the block would take a buddy that lies in a live block. -/
def Decoyed (L : Layout) (live : List Block) (st : Kmem) (b : Block) : Prop :=
  Meets L st (fun y _ => ∃ c ∈ live, c.span.Has y) b.addr b.order

/-- A client may write anything to live blocks and outside the range. -/
structure OpenStore (L : Layout) (s e : Nat) (live : List Block) (st st' : Kmem) : Prop where
  heads : ∀ k < maxOrder, SameHeader st st' (L.freeList k)
  free : ∀ x, 4096 ∣ x → s ≤ x → x < e → (∀ b ∈ live, ¬ b.span.Has x) → SameHeader st st' x
  nrFree : st'.nrFree = st.nrFree
  pageOrder : st'.pageOrder = st.pageOrder

/-- The runs with arbitrary stores of the clients, and an arbitrary memory at the start, in which no
`kfree` is misled. -/
inductive OpenReach (L : Layout) (start end_ : Nat) : Kmem → List Block → Prop
  | init {st st' : Kmem} (h : buddyInit L start end_ st = some st') : OpenReach L start end_ st' []
  | kalloc {st st' : Kmem} {live : List Block} {sz a : Nat} (hr : OpenReach L start end_ st live)
      (hpos : 0 < sz) (hsz : sz ≤ maxRequest) (h : kalloc L sz st = some (a, st')) :
      OpenReach L start end_ st' (⟨a, requestOrder sz⟩ :: live)
  | kfree {st st' : Kmem} {live : List Block} {b : Block} (hr : OpenReach L start end_ st live)
      (hb : b ∈ live) (hcond : ¬ Misled L st b) (h : kfree L b.addr st = some st') :
      OpenReach L start end_ st' (live.erase b)
  | store {st st' : Kmem} {live : List Block} (hr : OpenReach L start end_ st live)
      (h : OpenStore L (pgRoundUp start) (pgRoundDown end_) live st st') :
      OpenReach L start end_ st' live

/-- The two memories agree outside the live blocks. -/
structure SameButLive (live : List Block) (st st' : Kmem) : Prop where
  header : ∀ x, (∀ b ∈ live, ¬ b.span.Has x) → SameHeader st st' x
  nrFree : st'.nrFree = st.nrFree
  pageOrder : st'.pageOrder = st.pageOrder

/-- The blocks that `buddy_free_helper` takes off the free lists, in order. -/
def mergedBlocks : (fuel addr order : Nat) → Kmem → List Block
  | 0, _, _, _ => []
  | fuel + 1, addr, order, st =>
    if canMerge addr order st then
      ⟨buddyBlock addr order, order⟩ ::
        mergedBlocks fuel (buddyLow addr order) (order + 1) (remove (buddyBlock addr order) st)
    else []

/-- The blocks that `kfree` merges the block at `addr` with. -/
def kfreeMerged (L : Layout) (addr : Nat) (st : Kmem) : List Block :=
  let order := st.pageOrder (L.pageIndex addr)
  mergedBlocks (maxOrder - 1 - order) addr order (setPageOrder L addr 0 st)

/-- `kfree` does not take live blocks. -/
def KeepsLive (L : Layout) (live : List Block) (st : Kmem) (b : Block) : Prop :=
  ∀ m ∈ kfreeMerged L b.addr st, ∀ c ∈ live, m.span.Apart c.span

/-- `kfree` leaves the same free blocks in both memories and takes no live block in either. -/
structure Independent (L : Layout) (live : List Block) (b : Block) (st₁ st₂ : Kmem) : Prop where
  same : ∃ st₁' st₂', kfree L b.addr st₁ = some st₁' ∧ kfree L b.addr st₂ = some st₂' ∧
    ∀ k < maxOrder, ∀ a, OnList L st₁' k a ↔ OnList L st₂' k a
  first : KeepsLive L live st₁ b
  second : KeepsLive L live st₂ b

/-! ## Magic words -/

def isHead (L : Layout) (x : Nat) : Bool := (List.range maxOrder).any fun k => x == L.freeList k

/-- The state without the magic words outside the zone. -/
def unmarked (L : Layout) (st : Kmem) : Kmem :=
  { st with magic := fun x => if isHead L x then st.magic x else 0 }

variable {x j b addr order start end_ : Nat} {Bad Bad' : Nat → Nat → Prop}

section

variable {L : Layout} {s e : Nat} {st st' : Kmem} {F : Nat → List Nat} {live : List Block}
variable {extra : List Span} {a k : Nat}

lemma isHead_freeList (hk : k < maxOrder) : isHead L (L.freeList k) = true :=
  any_eq_true.mpr ⟨k, mem_range.mpr hk, beq_self_eq_true _⟩

/-- A partition does not need the magic words outside the zone. -/
lemma Partition.unmarked (h : Partition L s e st F live extra) :
    Partition L s e (unmarked L st) F live extra := by
  refine { h with
    lists := { h.lists with }
    stray := ?_ }
  intro x hx hn
  simp only [Buddy.unmarked]
  split_ifs
  · exact h.stray x hx hn
  · decide

lemma unmarked_unmarked (L : Layout) (st : Kmem) : unmarked L (unmarked L st) = unmarked L st := by
  unfold unmarked
  congr 1
  funext x
  simp only
  split_ifs <;> rfl

lemma unmarked_remove (L : Layout) (a : Nat) (st : Kmem) :
    unmarked L (remove a st) = remove a (unmarked L st) := by
  unfold unmarked remove
  congr 1
  funext x
  by_cases hx : x = a
  · subst hx
    simp
  · simp only [update_of_ne hx]

lemma unmarked_setPageOrder (L : Layout) (a n : Nat) (st : Kmem) :
    unmarked L (setPageOrder L a n st) = setPageOrder L a n (unmarked L st) := rfl

lemma unmarked_addFirst (L : Layout) (a k : Nat) (st : Kmem) :
    (addFirst L a k st).map (unmarked L) = addFirst L a k (unmarked L st) := by
  unfold addFirst
  split_ifs <;> rfl

/-! ### Allocation and initialisation -/

lemma unmarked_requireSplit (L : Layout) (order : Nat) : ∀ n addr st,
    (requireSplit L order n addr st).map (Prod.map id (unmarked L)) =
      requireSplit L order n addr (unmarked L st) := by
  intro n
  induction n with
  | zero =>
    intro addr st
    rfl
  | succ n ih =>
    intro addr st
    simp only [requireSplit, bind_eq_bind]
    rw [← unmarked_addFirst, Option.map_bind, Option.bind_map]
    congr 1
    funext st'
    exact ih _ _

lemma unmarked_require (L : Layout) (order : Nat) (st : Kmem) :
    (require L order st).map (Prod.map id (unmarked L)) = require L order (unmarked L st) := by
  unfold require
  have hfree : (unmarked L st).nrFree = st.nrFree := rfl
  rw [hfree]
  cases (range' (order + 1) (maxOrder - (order + 1))).find? fun i => st.nrFree i != 0 with
  | none => rfl
  | some i =>
    simp only
    rw [unmarked_requireSplit, unmarked_remove]
    rfl

/-- `kalloc` does not read the magic words. -/
lemma unmarked_kalloc (L : Layout) (sz : Nat) (st : Kmem) :
    (kalloc L sz st).map (Prod.map id (unmarked L)) = kalloc L sz (unmarked L st) := by
  have hfree : (unmarked L st).nrFree = st.nrFree := rfl
  have hprev : (unmarked L st).prev = st.prev := rfl
  simp only [kalloc, buddyAlloc, hfree, hprev]
  split_ifs
  · rfl
  · rfl
  · simp only [map_some, Prod.map_apply, id, unmarked_setPageOrder, unmarked_remove]
  · simp only [bind_eq_bind]
    rw [← unmarked_require, Option.map_bind, Option.bind_map]
    congr 1
    funext p
    simp only [Function.comp_apply, Prod.map_fst, Prod.map_snd, id]
    split_ifs <;> rfl

lemma addLast_congr {st1 st2 : Kmem} (h : unmarked L st1 = unmarked L st2) (a k : Nat) :
    (addLast L a k st1).map (unmarked L) = (addLast L a k st2).map (unmarked L) := by
  simp only [unmarked, Kmem.mk.injEq] at h
  obtain ⟨hmagic, horder, hprev, hnext, hfree, hpage⟩ := h
  unfold addLast
  split_ifs
  · simp only [map_some, unmarked, horder, hprev, hnext, hfree, hpage, Option.some.injEq,
      Kmem.mk.injEq, and_true]
    funext x
    have hx := congrFun hmagic x
    by_cases hxa : x = a
    · subst hxa
      simp only [update_self]
    · simpa only [update_of_ne hxa] using hx
  · rfl

/-- Two computations that go on from results with the same image. -/
lemma map_bind_congr {α β γ δ : Type} {x y : Option α} {f : α → β} {g : α → Option γ} {r : γ → δ}
    (h : x.map f = y.map f) (hg : ∀ a b, f a = f b → (g a).map r = (g b).map r) :
    (x.bind g).map r = (y.bind g).map r := by
  cases x with
  | none =>
    cases y with
    | none => rfl
    | some b => cases h
  | some a =>
    cases y with
    | none => cases h
    | some b => exact hg a b (Option.some.inj h)

lemma layBlocks_congr (L : Layout) (order : Nat) : ∀ n s (st1 st2 : Kmem),
    unmarked L st1 = unmarked L st2 →
    (layBlocks L order n s st1).map (Prod.map id (unmarked L)) =
      (layBlocks L order n s st2).map (Prod.map id (unmarked L)) := by
  intro n
  induction n with
  | zero =>
    intro s st1 st2 h
    simp only [layBlocks, map_some, Prod.map_apply, h]
  | succ n ih =>
    intro s st1 st2 h
    exact map_bind_congr (addLast_congr h s order) fun st1' st2' h' => ih _ _ _ h'

lemma layOrders_congr (L : Layout) : ∀ orders s (st1 st2 : Kmem),
    unmarked L st1 = unmarked L st2 →
    (layOrders L orders s st1).map (Prod.map id (unmarked L)) =
      (layOrders L orders s st2).map (Prod.map id (unmarked L)) := by
  intro orders
  induction orders with
  | nil =>
    intro s st1 st2 h
    simp only [layOrders, map_some, Prod.map_apply, h]
  | cons i orders ih =>
    intro s st1 st2 h
    have hfree : st1.nrFree = st2.nrFree := by
      show (unmarked L st1).nrFree = (unmarked L st2).nrFree
      rw [h]
    have hreset : unmarked L { st1 with nrFree := update st1.nrFree i 0 } =
        unmarked L { st2 with nrFree := update st2.nrFree i 0 } := by
      simp only [unmarked, Kmem.mk.injEq] at h ⊢
      rw [hfree]
      exact ⟨h.1, h.2.1, h.2.2.1, h.2.2.2.1, rfl, h.2.2.2.2.2⟩
    simp only [layOrders, bind_eq_bind, hfree]
    rw [hfree] at hreset
    refine map_bind_congr (layBlocks_congr L i _ s _ _ hreset) fun p q hpq => ?_
    simp only [Prod.map_apply', Prod.mk.injEq, id] at hpq
    rw [hpq.1]
    exact ih _ _ _ hpq.2

/-- The memory at the start without any magic word. -/
def bare (st : Kmem) : Kmem := { st with magic := fun _ => 0 }

lemma unmarked_initZone (L : Layout) (counts : Nat → Nat) (st : Kmem) :
    unmarked L (initZone L counts st) = unmarked L (initZone L counts (bare st)) := by
  simp only [unmarked, initZone, bare, Kmem.mk.injEq, and_true]
  funext x
  cases hx : isHead L x with
  | true =>
    rw [isHead] at hx
    simp only [hx, if_true]
  | false => simp only [Bool.false_eq_true, if_false]

/-- What the memory holds before `buddy_init` does not matter for the lists. -/
lemma buddyInit_bare (L : Layout) (start end_ : Nat) (st : Kmem) :
    (buddyInit L start end_ st).map (unmarked L) =
      (buddyInit L start end_ (bare st)).map (unmarked L) := by
  simp only [buddyInit]
  split_ifs
  · rfl
  · rfl
  · refine map_bind_congr (layOrders_congr L _ _ _ _ (unmarked_initZone L _ st)) fun p q hpq => ?_
    simp only [Prod.map_apply', Prod.mk.injEq, id] at hpq
    rw [hpq.1]
    split_ifs
    · simp only [map_some, hpq.2]
    · rfl

/-- `buddy_init` does not stop on a range of less than 8 TiB, whose block counts fit an `int`, if the
list heads are outside of it. -/
theorem buddyInit_isSome (hL : L.Region (pgRoundUp start) (pgRoundDown end_))
    (hend : end_ < 2 ^ 64) (hse : pgRoundUp start ≤ pgRoundDown end_)
    (hsize : pgRoundDown end_ - pgRoundUp start < 2 ^ 43) :
    ∃ st', buddyInit L start end_ st = some st' := by
  have hzero : 0 ≠ buddyMagic := by decide
  have hmagic : ∀ x, 4096 ∣ x → (bare st).magic x ≠ buddyMagic := fun _ _ => hzero
  obtain ⟨cur, st1, F, hcur, heq, -⟩ := buddyInit_eq hL hse hmagic
  have htotal : pagesIn maxOrder (initCounts ((pgRoundDown end_ - pgRoundUp start) / 4096)) =
      (pgRoundDown end_ - pgRoundUp start) / 4096 := pagesIn_initCounts (by omega)
  have hde := pgRoundDown_dvd hend
  have hds := hL.dvd
  have hend' : cur = pgRoundDown end_ := by
    rw [hcur, bytesFrom_eq, htotal]
    · omega
    · intro j hj
      have hle := le_pagesIn (initCounts ((pgRoundDown end_ - pgRoundUp start) / 4096)) hj
      omega
  have hbare := buddyInit_bare L start end_ st
  rw [heq, if_pos hend', map_some] at hbare
  obtain ⟨st', hst', -⟩ := Option.map_eq_some_iff.mp hbare
  exact ⟨st', hst'⟩

/-- Four pages, one of which holds the word of a free block. -/
theorem buddyInit_isSome_four_pages :
    ∃ st, buddyInit ⟨0x80250000, 0x80251000⟩ 0x80300000 0x80304000
      ⟨fun x => if x = 0x80301000 then buddyMagic else 0, fun _ => 0, fun _ => 0, fun _ => 0,
        fun _ => 0, fun _ => 0⟩ = some st :=
  buddyInit_isSome ⟨by decide, by decide, .inl (by decide)⟩ (by decide) (by decide) (by decide)

/-! ## Merging -/

lemma FreeLists.onList_iff (h : FreeLists L st F) (hk : k < maxOrder) :
    OnList L st k a ↔ a ∈ F k := (h.ring k hk).follows_iff

lemma FreeLists.of_unmarked (h : FreeLists L (unmarked L st) F) : FreeLists L st F :=
  { h with }

lemma canMerge_congr (h : SameHeader st st' (buddyBlock x k)) :
    canMerge x k st' = canMerge x k st := by
  obtain ⟨hmagic, horder, hprev, hnext⟩ := h
  simp only [canMerge, hmagic, horder, hprev, hnext]

lemma canMerge_order (h : canMerge x k st = true) :
    k < maxOrder ∧ st.magic (buddyBlock x k) = buddyMagic ∧ st.order (buddyBlock x k) = k := by
  simp only [canMerge, Bool.and_eq_true, beq_iff_eq, decide_eq_true_eq] at h
  exact ⟨by omega, h.1.1.1.2, h.1.1.2⟩

/-- Taking a block off a list does not change what is found at higher orders. -/
lemma canMerge_remove (h : Partition L s e (unmarked L st) F live extra)
    (hj : j < maxOrder) (hb : b ∈ F j) (hjk : j < k) (hdvd : 4096 ∣ buddyBlock x k) :
    canMerge x k (remove b st) = canMerge x k st := by
  have hl := h.lists.of_unmarked
  have horder : ∀ y ∈ F j, (remove b st).order y ≠ k ∧ st.order y ≠ k := by
    intro y hy
    have hjk' : (j : Int) ≠ k := by omega
    refine ⟨?_, by rw [hl.order j hj y hy]; exact hjk'⟩
    by_cases hyb : y = b
    · simp only [remove, hyb, update_self]
      omega
    · simp only [remove, update_of_ne hyb]
      rw [hl.order j hj y hy]
      exact hjk'
  by_cases hnode : Node L F j (buddyBlock x k)
  · -- a head is not marked, and a block of the list has another order
    have hfalse : ∀ st' : Kmem, (st'.magic (buddyBlock x k) = buddyMagic →
        st'.order (buddyBlock x k) = k → False) → canMerge x k st' = false := by
      intro st' hno
      by_contra hm
      obtain ⟨_, hmagic, horder⟩ := canMerge_order (Bool.of_not_eq_false hm)
      exact hno hmagic horder
    rcases hnode with hhead | hmem
    · have hne : buddyBlock x k ≠ b := by
        rw [hhead]
        exact (hl.heads j hj b hb j hj).symm
      have hmagic : st.magic (buddyBlock x k) ≠ buddyMagic := by
        have hstray := h.stray _ hdvd fun i hi hmem => hl.heads i hi _ hmem j hj hhead
        simp only [unmarked, hhead, isHead_freeList hj, if_true] at hstray
        rwa [hhead]
      have hmagic' : (remove b st).magic (buddyBlock x k) ≠ buddyMagic := by
        simpa only [remove, update_of_ne hne] using hmagic
      rw [hfalse st fun hm _ => hmagic hm, hfalse _ fun hm _ => hmagic' hm]
    · rw [hfalse st fun _ ho => (horder _ hmem).2 ho, hfalse _ fun _ ho => (horder _ hmem).1 ho]
  · refine canMerge_congr ?_
    have hne : buddyBlock x k ≠ b := fun heq => hnode (.inr (heq ▸ hb))
    have hprev : buddyBlock x k ≠ st.prev b := fun heq => hnode (heq ▸ hl.prev_node hj (.inr hb))
    have hnext : buddyBlock x k ≠ st.next b := fun heq => hnode (heq ▸ hl.next_node hj (.inr hb))
    simp only [SameHeader, remove, update_of_ne hne, update_of_ne hprev,
      update_of_ne hnext, and_self]

/-- What is met from the order `j` on depends on what is found there. -/
lemma Meets.transfer
    (hcan : ∀ x k, j ≤ k → 4096 ∣ buddyBlock x k → canMerge x k st = true → canMerge x k st' = true)
    (hon : ∀ k y, j ≤ k → k < maxOrder → OnList L st k y → OnList L st' k y)
    (hbad : ∀ k y, j ≤ k → k < maxOrder → Bad y k → Bad' y k) (h : Meets L st Bad addr order)
    (hj : j ≤ order) (hd : 4096 ∣ addr) (hlt : addr < 2 ^ 64) :
    Meets L st' Bad' addr order := by
  induction h with
  | here hm hb =>
    obtain ⟨hk, _, _⟩ := canMerge_order hm
    exact .here (hcan _ _ hj (buddyBlock_dvd hlt hk hd) hm) (hbad _ _ hj hk hb)
  | later hm ho _ ih =>
    obtain ⟨hk, _, _⟩ := canMerge_order hm
    obtain ⟨hd', hlt'⟩ := buddyLow_dvd hlt hk hd
    exact .later (hcan _ _ hj (buddyBlock_dvd hlt hk hd) hm) (hon _ _ hj hk ho)
      (ih (by omega) hd' hlt')

section

variable (h : Partition L s e (unmarked L st) F live extra)
include h

lemma onList_remove_iff (hL : L.Region s e)
    (hj : j < maxOrder) (hb : b ∈ F j) (k y : Nat) (hjk : j < k) (hk : k < maxOrder) :
    OnList L (remove b st) k y ↔ OnList L st k y := by
  have hlen := h.length_lt hL hj
  rw [(h.lists.of_unmarked.remove hj hb (by omega)).onList_iff hk,
    h.lists.of_unmarked.onList_iff hk, update_of_ne (by omega)]

/-- `Meets` above the order of a block that is taken off its list. -/
lemma meets_remove_iff (hL : L.Region s e)
    (hj : j < maxOrder) (hb : b ∈ F j) (hbad : ∀ k y, j < k → k < maxOrder → (Bad y k ↔ Bad' y k))
    (horder : j < order) (hd : 4096 ∣ addr) (hlt : addr < 2 ^ 64) :
    Meets L (remove b st) Bad addr order ↔ Meets L st Bad' addr order := by
  have hon := onList_remove_iff h hL hj hb
  constructor
  · intro hm
    refine hm.transfer (fun x k hjk hdvd hc => ?_) (fun k y hjk hk => (hon k y hjk hk).mp)
      (fun k y hjk hk => (hbad k y hjk hk).mp) horder hd hlt
    rwa [canMerge_remove h hj hb hjk hdvd] at hc
  · intro hm
    refine hm.transfer (fun x k hjk hdvd hc => ?_) (fun k y hjk hk => (hon k y hjk hk).mpr)
      (fun k y hjk hk => (hbad k y hjk hk).mpr) horder hd hlt
    rwa [canMerge_remove h hj hb hjk hdvd]

/-- A `kfree` that is not misled is not misled after its first merge either. -/
lemma not_misled_remove (hL : L.Region s e)
    (hk : order < maxOrder) (hb : buddyBlock addr order ∈ F order)
    (hd : 4096 ∣ addr) (hlt : addr < 2 ^ 64) (hm : canMerge addr order st = true)
    (hst : ¬ Meets L st (fun y k => ¬ OnList L st k y) addr order) :
    ¬ Meets L (remove (buddyBlock addr order) st)
      (fun y k => ¬ OnList L (remove (buddyBlock addr order) st) k y)
      (buddyLow addr order) (order + 1) := by
  intro hmeets
  obtain ⟨hd', hlt'⟩ := buddyLow_dvd hlt hk hd
  refine hst (.later hm ((h.lists.of_unmarked.onList_iff hk).mpr hb) ?_)
  refine (meets_remove_iff h hL hk hb (fun k y hjk hk' => ?_) (Nat.lt_succ_self _) hd' hlt').mp
    hmeets
  exact (onList_remove_iff h hL hk hb k y hjk hk').not

end

/-- Two states with the same free lists, headers included. -/
structure AgreeOn (L : Layout) (F : Nat → List Nat) (st st' : Kmem) : Prop where
  node : ∀ k < maxOrder, ∀ u, Node L F k u → SameHeader st st' u
  nrFree : st'.nrFree = st.nrFree
  pageOrder : st'.pageOrder = st.pageOrder

lemma AgreeOn.refl (L : Layout) (F : Nat → List Nat) (st : Kmem) : AgreeOn L F st st :=
  ⟨fun _ _ _ _ => ⟨rfl, rfl, rfl, rfl⟩, rfl, rfl⟩

lemma AgreeOn.freeLists (h : AgreeOn L F st st') (hl : FreeLists L st F) : FreeLists L st' F := by
  refine { hl with ring := ?_, count := ?_, order := ?_ }
  · intro k hk
    exact (hl.ring k hk).congr (fun u hu => (h.node k hk u hu).2.2.2)
      (fun u hu => (h.node k hk u hu).2.2.1)
  · intro k hk
    rw [h.nrFree, hl.count k hk]
  · intro k hk a ha
    rw [(h.node k hk a (.inr ha)).2.1, hl.order k hk a ha]

lemma AgreeOn.partition (h : AgreeOn L F st st')
    (hp : Partition L s e (unmarked L st) F live extra) :
    Partition L s e (unmarked L st') F live extra := by
  have hl := h.freeLists hp.lists.of_unmarked
  refine { hp with
    lists := { hl with }
    recorded := ?_
    stray := ?_ }
  · intro b hb
    show st'.pageOrder _ = _
    rw [h.pageOrder]
    exact hp.recorded b hb
  · intro x hx hn
    have hstray := hp.stray x hx hn
    simp only [unmarked] at hstray ⊢
    split_ifs at hstray ⊢ with hhead
    · obtain ⟨k, hk, heq⟩ := any_eq_true.mp hhead
      rw [(h.node k (mem_range.mp hk) x (.inl (beq_iff_eq.mp heq))).1]
      exact hstray
    · exact hstray

lemma AgreeOn.remove (h : AgreeOn L F st st') (hj : j < maxOrder) (hb : b ∈ F j) :
    AgreeOn L (update F j ((F j).erase b)) (remove b st) (remove b st') := by
  obtain ⟨hmagic, horder, hprev, hnext⟩ := h.node j hj b (.inr hb)
  constructor
  · intro k hk u hu
    have hu' : Node L F k u := by
      rcases hu with hu | hu
      · exact .inl hu
      · by_cases hkj : k = j
        · subst hkj
          rw [update_self] at hu
          exact .inr (mem_of_mem_erase hu)
        · rw [update_of_ne hkj] at hu
          exact .inr hu
    obtain ⟨hm, ho, hp, hn⟩ := h.node k hk u hu'
    simp only [SameHeader, Buddy.remove, hprev, hnext, update_apply]
    exact ⟨by rw [hm], by rw [ho], by rw [hp], by rw [hn]⟩
  · simp only [Buddy.remove, h.nrFree, horder]
  · exact h.pageOrder

/-- The block that is put back last makes the lists the same in both states. -/
lemma AgreeOn.addLast (h : AgreeOn L F st st') (hL : L.Region s e) (hk : k < maxOrder)
    (hd : 4096 ∣ a) (hp : Partition L s e (unmarked L st) F live [⟨a, blockSize k⟩]) :
    ∃ st1 st2 F', addLast L a k st = some st1 ∧ addLast L a k st' = some st2 ∧
      Partition L s e (unmarked L st1) F' live [] ∧ FreeLists L st2 F' := by
  have hfresh : Fresh L F a := hp.fresh hL mem_cons_self (blockSize_pos k)
  have hlen := hp.length_lt hL hk
  obtain ⟨st1, hst1, _⟩ := hp.lists.of_unmarked.addLast hk hd hfresh hlen
  obtain ⟨st2, hst2, hlists, _⟩ := (h.freeLists hp.lists.of_unmarked).addLast hk hd hfresh hlen
  obtain ⟨st0, hst0, hp0⟩ := hp.addLast hL hk hd
  have hmap := addLast_congr (L := L) (unmarked_unmarked L st).symm a k
  rw [hst1, hst0, map_some, map_some, Option.some.injEq] at hmap
  refine ⟨st1, st2, _, hst1, hst2, ?_, hlists⟩
  rw [hmap]
  exact hp0.unmarked

/-- `buddy_free_helper` on two states with the same free lists: as long as it is not misled it takes
blocks of the lists only and leaves the same lists. -/
lemma buddyFreeHelper_agree (hL : L.Region s e) :
    ∀ fuel addr order st st' F, order + fuel = maxOrder - 1 → 4096 ∣ addr →
      Partition L s e (unmarked L st) F live [⟨addr, blockSize order⟩] → AgreeOn L F st st' →
      ¬ Meets L st (fun y k => ¬ OnList L st k y) addr order →
      ¬ Meets L st' (fun y k => ¬ OnList L st' k y) addr order →
      ∃ st1 st2 F', buddyFreeHelper L fuel addr order st = some st1 ∧
        buddyFreeHelper L fuel addr order st' = some st2 ∧
        Partition L s e (unmarked L st1) F' live [] ∧ FreeLists L st2 F' ∧
        ∀ m, m ∈ mergedBlocks fuel addr order st ∨ m ∈ mergedBlocks fuel addr order st' →
          m.order < maxOrder ∧ m.addr ∈ F m.order := by
  intro fuel
  induction fuel with
  | zero =>
    intro addr order st st' F ho hd hp hagree _ _
    obtain ⟨st1, st2, F', h1, h2, hp', hl'⟩ :=
      hagree.addLast hL (by unfold maxOrder at *; omega) hd hp
    refine ⟨st1, st2, F', h1, h2, hp', hl', fun m hm => ?_⟩
    simp only [mergedBlocks, not_mem_nil, or_self] at hm
  | succ fuel ih =>
    intro addr order st st' F ho hd hp hagree hst hst'
    have hk : order < maxOrder := by
      omega
    have hl := hp.lists.of_unmarked
    have hl' := hagree.freeLists hl
    have hlt := hp.transit_lt hL
    have hon : canMerge addr order st = true → buddyBlock addr order ∈ F order := by
      intro hm
      by_contra hno
      exact hst (.here hm ((hl.onList_iff hk).not.mpr hno))
    have hon' : canMerge addr order st' = true → buddyBlock addr order ∈ F order := by
      intro hm
      by_contra hno
      exact hst' (.here hm ((hl'.onList_iff hk).not.mpr hno))
    simp only [buddyFreeHelper, mergedBlocks]
    by_cases hm : canMerge addr order st = true
    · have hb := hon hm
      have hm' : canMerge addr order st' = true := by
        rwa [canMerge_congr (hagree.node order hk _ (.inr hb))]
      rw [if_pos hm, if_pos hm', if_pos hm, if_pos hm']
      obtain ⟨hd', hlt'⟩ := buddyLow_dvd hlt hk hd
      have hp' := (hp.remove hL hk hb).regroup fun x => (mult_merge hlt hk x).symm
      rw [← unmarked_remove] at hp'
      obtain ⟨st1, st2, F', h1, h2, hp1, hl2, hmerged⟩ := ih (buddyLow addr order) (order + 1)
        (remove (buddyBlock addr order) st) (remove (buddyBlock addr order) st') _ (by omega) hd' hp'
        (hagree.remove hk hb) (not_misled_remove hp hL hk hb hd hlt hm hst)
        (not_misled_remove (hagree.partition hp) hL hk hb hd hlt hm' hst')
      refine ⟨st1, st2, F', h1, h2, hp1, hl2, fun m hmem => ?_⟩
      have hcases : m = ⟨buddyBlock addr order, order⟩ ∨
          (m ∈ mergedBlocks fuel (buddyLow addr order) (order + 1)
              (remove (buddyBlock addr order) st) ∨
            m ∈ mergedBlocks fuel (buddyLow addr order) (order + 1)
              (remove (buddyBlock addr order) st')) := by
        simp only [mem_cons] at hmem
        tauto
      rcases hcases with rfl | hmem
      · exact ⟨hk, hb⟩
      · obtain ⟨hmk, hmF⟩ := hmerged m hmem
        refine ⟨hmk, ?_⟩
        by_cases hmo : m.order = order
        · rw [hmo, update_self] at hmF
          rw [hmo]
          exact mem_of_mem_erase hmF
        · rwa [update_of_ne hmo] at hmF
    · have hm' : ¬ canMerge addr order st' = true := by
        intro hm'
        rw [canMerge_congr (hagree.node order hk _ (.inr (hon' hm')))] at hm'
        exact hm hm'
      rw [if_neg hm, if_neg hm', if_neg hm, if_neg hm']
      obtain ⟨st1, st2, F', h1, h2, hp', hl'⟩ := hagree.addLast hL hk hd hp
      refine ⟨st1, st2, F', h1, h2, hp', hl', fun m hm => ?_⟩
      simp only [not_mem_nil, or_self] at hm

/-- A buddy that is met along the way is taken. -/
lemma mergedBlocks_of_meets (hL : L.Region s e) {Bad : Nat → Prop} :
    ∀ fuel addr order st F, order + fuel = maxOrder - 1 → 4096 ∣ addr →
      Partition L s e (unmarked L st) F live [⟨addr, blockSize order⟩] →
      Meets L st (fun y _ => Bad y) addr order →
      ∃ m ∈ mergedBlocks fuel addr order st, Bad m.addr := by
  intro fuel
  induction fuel with
  | zero =>
    intro addr order st F ho _ _ hmeets
    have hm : canMerge addr order st = true := by
      cases hmeets with
      | here hm _ => exact hm
      | later hm _ _ => exact hm
    have hlast : order = maxOrder - 1 := by omega
    simp [canMerge, hlast] at hm
  | succ fuel ih =>
    intro addr order st F ho hd hp hmeets
    have hlt := hp.transit_lt hL
    cases hmeets with
    | here hm hbad =>
      refine ⟨⟨buddyBlock addr order, order⟩, ?_, hbad⟩
      rw [mergedBlocks, if_pos hm]
      exact mem_cons_self
    | later hm hon h =>
      obtain ⟨hk, _, _⟩ := canMerge_order hm
      have hb := (hp.lists.of_unmarked.onList_iff hk).mp hon
      obtain ⟨hd', hlt'⟩ := buddyLow_dvd hlt hk hd
      have hp' := (hp.remove hL hk hb).regroup fun x => (mult_merge hlt hk x).symm
      rw [← unmarked_remove] at hp'
      have hmeets' := (meets_remove_iff hp hL hk hb (fun _ _ _ _ => Iff.rfl) (Nat.lt_succ_self _)
        hd' hlt').mpr h
      obtain ⟨m, hm', hbad⟩ := ih _ _ _ _ (by omega) hd' hp' hmeets'
      refine ⟨m, ?_, hbad⟩
      rw [mergedBlocks, if_pos hm]
      exact mem_cons_of_mem _ hm'

/-! ## Runs -/

lemma meets_setPageOrder_iff {n : Nat} (hd : 4096 ∣ addr) (hlt : addr < 2 ^ 64) :
    Meets L (setPageOrder L x n st) Bad addr order ↔ Meets L st Bad addr order := by
  constructor <;>
    exact fun h => h.transfer (fun _ _ _ _ hc => by exact hc) (fun _ _ _ _ ho => by exact ho)
      (fun _ _ _ _ hb => hb) (Nat.zero_le _) hd hlt

/-- The state in which `buddy_free_helper` is called for a live block. -/
lemma Partition.freeing {b : Block} (h : Partition L s e (Buddy.unmarked L st) F live [])
    (hL : L.Region s e) (hb : b ∈ live) :
    Partition L s e (Buddy.unmarked L (Buddy.setPageOrder L b.addr 0 st)) F (live.erase b) [b.span] := by
  exact (h.takeBack hb).setPageOrder hL (h.live_dvd b hb) (mem_singleton.mpr rfl)

lemma kfree_agree {b : Block} (hL : L.Region s e) (h : Partition L s e (unmarked L st) F live [])
    (hagree : AgreeOn L F st st') (hb : b ∈ live) (hst : ¬ Misled L st b) (hst' : ¬ Misled L st' b) :
    ∃ st1 st2 F', kfree L b.addr st = some st1 ∧ kfree L b.addr st' = some st2 ∧
      Partition L s e (unmarked L st1) F' (live.erase b) [] ∧ FreeLists L st2 F' ∧
      ∀ m, m ∈ kfreeMerged L b.addr st ∨ m ∈ kfreeMerged L b.addr st' →
        m.order < maxOrder ∧ m.addr ∈ F m.order := by
  have hd := h.live_dvd b hb
  have ho := h.live_order b hb
  have hp := h.freeing hL hb
  have hlt := hp.transit_lt hL
  have hrec : st.pageOrder (L.pageIndex b.addr) = b.order := h.recorded b hb
  simp only [kfree, buddyFree, kfreeMerged, hagree.pageOrder, hrec]
  refine buddyFreeHelper_agree hL _ _ _ _ _ _ ?_ hd hp ⟨hagree.node, hagree.nrFree, ?_⟩ ?_ ?_
  · omega
  · simp only [setPageOrder, hagree.pageOrder]
  · exact (meets_setPageOrder_iff hd hlt).not.mpr hst
  · exact (meets_setPageOrder_iff hd hlt).not.mpr hst'

/-- Stores of the clients do not reach the nodes of the free lists. -/
lemma OpenStore.agreeOn (h : OpenStore L s e live st st')
    (hp : Partition L s e (unmarked L st) F live []) : AgreeOn L F st st' := by
  refine ⟨fun k hk u hu => ?_, h.nrFree, h.pageOrder⟩
  rcases hu with rfl | hu
  · exact h.heads k hk
  · have hr := hp.free_range hk hu
    have hpos := blockSize_pos k
    exact h.free u (hp.aligned k hk u hu) hr.1 (by omega) fun b hb => hp.free_not_live hk hu hb

lemma SameButLive.openStore (h : SameButLive live st st') (hL : L.Region s e)
    (hp : Partition L s e (unmarked L st) F live []) : OpenStore L s e live st st' := by
  refine ⟨fun k hk => h.header _ fun b hb hhas => ?_, fun x _ _ _ hx => h.header x hx, h.nrFree,
    h.pageOrder⟩
  have hr := hp.live_range hb
  have hheads := hL.heads
  simp only [Span.Has, Span.stop, Block.span, Layout.freeList] at hhas
  omega

/-- Every state of an open run carries a partition. -/
lemma OpenReach.partition (hL : L.Region (pgRoundUp start) (pgRoundDown end_))
    (hr : OpenReach L start end_ st live) :
    ∃ F, Partition L (pgRoundUp start) (pgRoundDown end_) (unmarked L st) F live [] := by
  induction hr with
  | @init st st' h =>
    have hbare := buddyInit_bare L start end_ st
    rw [h, map_some] at hbare
    obtain ⟨st1, hst1, heq⟩ := Option.map_eq_some_iff.mp hbare.symm
    have hzero : 0 ≠ buddyMagic := by decide
    obtain ⟨F, hp, _⟩ := buddyInit_spec hL (fun _ _ => hzero) hst1
    exact ⟨F, heq ▸ hp.unmarked⟩
  | @kalloc st st' live sz a _ hpos hsz h ih =>
    obtain ⟨F, hp⟩ := ih
    have hmap := unmarked_kalloc L sz st
    rw [h, map_some] at hmap
    rcases kalloc_spec hL hp hpos hsz with ⟨hnone, _⟩ | ⟨addr, st1, F', hsome, hp'⟩
    · rw [hnone] at hmap
      cases hmap
    · rw [hsome, Option.some.injEq, Prod.map_apply, Prod.mk.injEq] at hmap
      obtain ⟨rfl, rfl⟩ := hmap
      exact ⟨F', hp'⟩
  | kfree _ hb hcond h ih =>
    obtain ⟨F, hp⟩ := ih
    obtain ⟨st1, _, F', hst1, _, hp', _⟩ :=
      kfree_agree hL hp (AgreeOn.refl L F _) hb hcond hcond
    rw [h, Option.some.injEq] at hst1
    exact ⟨F', hst1 ▸ hp'⟩
  | store _ h ih =>
    obtain ⟨F, hp⟩ := ih
    exact ⟨F, (h.agreeOn hp).partition hp⟩

lemma AgreeOn.symm (h : AgreeOn L F st st') : AgreeOn L F st' st :=
  ⟨fun k hk u hu => by
    obtain ⟨hm, ho, hp, hn⟩ := h.node k hk u hu
    exact ⟨hm.symm, ho.symm, hp.symm, hn.symm⟩, h.nrFree.symm, h.pageOrder.symm⟩

lemma AgreeOn.trans {st'' : Kmem} (h : AgreeOn L F st st') (h' : AgreeOn L F st' st'') :
    AgreeOn L F st st'' :=
  ⟨fun k hk u hu => by
    obtain ⟨hm, ho, hp, hn⟩ := h.node k hk u hu
    obtain ⟨hm', ho', hp', hn'⟩ := h'.node k hk u hu
    exact ⟨hm'.trans hm, ho'.trans ho, hp'.trans hp, hn'.trans hn⟩,
    h'.nrFree.trans h.nrFree, h'.pageOrder.trans h.pageOrder⟩

lemma Partition.free_live_apart (h : Partition L s e st F live []) {m c : Block}
    (hk : m.order < maxOrder) (hm : m.addr ∈ F m.order) (hc : c ∈ live) :
    m.span.Apart c.span := by
  have happart := h.consistent.apart
  rw [pairwise_append] at happart
  exact happart.2.2 m.span (mem_freeSpans hk hm) c.span (mem_map.mpr ⟨c, hc, rfl⟩)

/-- A decoy in a live block makes `kfree` take that block. -/
lemma not_decoyed_of_keepsLive {b : Block} (hL : L.Region s e)
    (h : Partition L s e (unmarked L st) F live []) (hb : b ∈ live) (hkeep : KeepsLive L live st b) :
    ¬ Decoyed L live st b := by
  intro hdecoy
  have hd := h.live_dvd b hb
  have ho := h.live_order b hb
  have hp := h.freeing hL hb
  have hrec : st.pageOrder (L.pageIndex b.addr) = b.order := h.recorded b hb
  obtain ⟨m, hm, c, hc, hhas⟩ := mergedBlocks_of_meets hL (maxOrder - 1 - b.order) _ _ _ _
    (by unfold maxOrder at *; omega) hd hp
    ((meets_setPageOrder_iff hd (hp.transit_lt hL)).mpr hdecoy)
  have happart := hkeep m (by simpa only [kfreeMerged, hrec] using hm) c hc
  have hpos := blockSize_pos m.order
  refine happart.not_has ?_ hhas
  simp only [Span.Has, Span.stop, Block.span]
  omega

/-- In every run with arbitrary stores of the clients, `kfree` of a live block leaves the same free
blocks and takes no live block, whatever the live blocks hold, as long as it is not misled; and it
takes a live block when one of them holds a decoy. -/
theorem kfree_independent {start end_ : Nat} (hend : end_ < 2 ^ 64)
    (hzone : L.zone + 40 * maxOrder ≤ pgRoundUp start ∨ pgRoundDown end_ ≤ L.zone)
    (hr : OpenReach L start end_ st live) {b : Block} (hb : b ∈ live) {st₁ st₂ : Kmem}
    (h₁ : SameButLive live st st₁) (h₂ : SameButLive live st st₂) :
    (¬ Misled L st₁ b → ¬ Misled L st₂ b → Independent L live b st₁ st₂) ∧
      (Independent L live b st₁ st₂ → ¬ Decoyed L live st₁ b ∧ ¬ Decoyed L live st₂ b) := by
  have hL : L.Region (pgRoundUp start) (pgRoundDown end_) :=
    ⟨pgRoundUp_dvd start, lt_of_le_of_lt (pgRoundDown_le end_) hend, hzone⟩
  obtain ⟨F, hp⟩ := hr.partition hL
  have hagree1 := (h₁.openStore hL hp).agreeOn hp
  have hagree2 := (h₂.openStore hL hp).agreeOn hp
  have hp1 := hagree1.partition hp
  constructor
  · intro hst1 hst2
    obtain ⟨st1', st2', F', hk1, hk2, hp', hl2, hmerged⟩ :=
      kfree_agree hL hp1 (hagree1.symm.trans hagree2) hb hst1 hst2
    refine ⟨⟨st1', st2', hk1, hk2, fun k hk a => ?_⟩, fun m hm c hc => ?_, fun m hm c hc => ?_⟩
    · rw [hp'.lists.of_unmarked.onList_iff hk, hl2.onList_iff hk]
    · obtain ⟨hmk, hmF⟩ := hmerged m (.inl hm)
      exact hp1.free_live_apart hmk hmF hc
    · obtain ⟨hmk, hmF⟩ := hmerged m (.inr hm)
      exact hp1.free_live_apart hmk hmF hc
  · intro hind
    exact ⟨not_decoyed_of_keepsLive hL hp1 hb hind.first,
      not_decoyed_of_keepsLive hL (hagree2.partition hp) hb hind.second⟩

/-- Where no page that is not free carries the magic word, nothing is misled. -/
lemma Partition.not_misled (h : Partition L s e st F live extra) {b : Block} (hd : 4096 ∣ b.addr)
    (hlt : b.addr < 2 ^ 64) : ¬ Misled L st b := by
  unfold Misled
  generalize b.addr = addr at hd hlt
  generalize b.order = order
  intro hmeets
  induction hmeets with
  | here hm hno =>
    obtain ⟨hk, _, _⟩ := canMerge_order hm
    exact hno ((h.lists.onList_iff hk).mpr (h.buddy_mem (buddyBlock_dvd hlt hk hd) hm))
  | later hm _ _ ih =>
    obtain ⟨hk, _, _⟩ := canMerge_order hm
    obtain ⟨hd', hlt'⟩ := buddyLow_dvd hlt hk hd
    exact ih hd' hlt'

/-- The runs of clients that store no magic word are open runs. -/
lemma Reach.openReach (hL : L.Region (pgRoundUp start) (pgRoundDown end_))
    (hr : Reach L start end_ st live) : OpenReach L start end_ st live := by
  induction hr with
  | init _ h => exact .init h
  | kalloc _ hpos hsz h ih => exact .kalloc ih hpos hsz h
  | @kfree st st' live b hr hb h ih =>
    obtain ⟨F, hp⟩ := hr.partition hL
    have hrange := hp.live_range hb
    have hlt := hL.lt
    exact .kfree ih hb (hp.not_misled (hp.live_dvd b hb) (by omega)) h
  | store _ h ih => exact .store ih ⟨h.heads, h.free, h.nrFree, h.pageOrder⟩

end

/-! ## Two neighbours -/

/-- A client writes a whole header at the start of its page. -/
def writeHeader (x magic : Nat) (order : Int) (prev next : Nat) (st : Kmem) : Kmem :=
  { st with
    magic := update st.magic x magic
    order := update st.order x order
    prev := update st.prev x prev
    next := update st.next x next }

lemma writeHeader_sameButLive {live : List Block} {magic : Nat} {order : Int} {prev next : Nat}
    {st : Kmem} {c : Block} (hc : c ∈ live) (hx : c.span.Has x) :
    SameButLive live st (writeHeader x magic order prev next st) := by
  refine ⟨fun y hy => ?_, rfl, rfl⟩
  have hne : y ≠ x := fun heq => hy c hc (heq ▸ hx)
  simp only [SameHeader, writeHeader, update_of_ne hne, and_self]

/-- Four pages, of which the last two are allocated one by one. -/
def bootTwo : Option Kmem := do
  let st ← buddyInit ⟨0x80250000, 0x80251000⟩ 0x80300000 0x80304000
    ⟨fun _ => 0, fun _ => 0, fun _ => 0, fun _ => 0, fun _ => 0, fun _ => 0⟩
  let (_, st) ← kalloc ⟨0x80250000, 0x80251000⟩ 4096 st
  let (_, st) ← kalloc ⟨0x80250000, 0x80251000⟩ 4096 st
  some st

lemma bootTwo_reach : ∃ st, bootTwo = some st ∧
    Reach ⟨0x80250000, 0x80251000⟩ 0x80300000 0x80304000 st [⟨0x80302000, 0⟩, ⟨0x80303000, 0⟩] := by
  have hrun : ((buddyInit ⟨0x80250000, 0x80251000⟩ 0x80300000 0x80304000
      ⟨fun _ => 0, fun _ => 0, fun _ => 0, fun _ => 0, fun _ => 0, fun _ => 0⟩).bind fun st =>
        (kalloc ⟨0x80250000, 0x80251000⟩ 4096 st).bind fun x =>
          (kalloc ⟨0x80250000, 0x80251000⟩ 4096 x.2).map fun y => (x.1, y.1)) =
      some (0x80303000, 0x80302000) := by
    decide +kernel
  obtain ⟨st0, hinit, hrun⟩ := Option.bind_eq_some_iff.mp hrun
  obtain ⟨⟨a, st1⟩, halloc1, hrun⟩ := Option.bind_eq_some_iff.mp hrun
  obtain ⟨⟨b, st2⟩, halloc2, heq⟩ := Option.map_eq_some_iff.mp hrun
  obtain ⟨rfl, rfl⟩ := heq
  have hzero : 0 ≠ buddyMagic := by decide
  have hreach := Reach.kalloc (Reach.kalloc (Reach.init (fun _ _ => hzero) hinit) (by decide)
    (by decide) halloc1) (by decide) (by decide) halloc2
  refine ⟨st2, ?_, hreach⟩
  simp only [bootTwo, hinit, halloc1, halloc2, bind_eq_bind, Option.bind_some]

/-- One of the neighbours holds other bytes, and the other one is freed. -/
theorem kfree_independent_neighbour :
    ∃ st, OpenReach ⟨0x80250000, 0x80251000⟩ 0x80300000 0x80304000 st
        [⟨0x80302000, 0⟩, ⟨0x80303000, 0⟩] ∧
      Independent ⟨0x80250000, 0x80251000⟩ [⟨0x80302000, 0⟩, ⟨0x80303000, 0⟩] ⟨0x80302000, 0⟩
        st (writeHeader 0x80303000 7 0 0x80303000 0x80303000 st) := by
  obtain ⟨st, _, hreach⟩ := bootTwo_reach
  have hL : Layout.Region ⟨0x80250000, 0x80251000⟩ (pgRoundUp 0x80300000) (pgRoundDown 0x80304000) :=
    ⟨by decide, by decide, .inl (by decide)⟩
  have hopen := hreach.openReach hL
  refine ⟨st, hopen, ?_⟩
  obtain ⟨F, hp⟩ := hreach.partition hL
  have hsame : SameButLive [⟨0x80302000, 0⟩, ⟨0x80303000, 0⟩] st
      (writeHeader 0x80303000 7 0 0x80303000 0x80303000 st) :=
    writeHeader_sameButLive (c := ⟨0x80303000, 0⟩) (by simp) (by decide)
  refine (kfree_independent (by decide) (.inl (by decide)) hopen (by simp)
    ⟨fun _ _ => ⟨rfl, rfl, rfl, rfl⟩, rfl, rfl⟩ hsame).1 (hp.not_misled (by decide) (by decide)) ?_
  intro hmisled
  have hm : canMerge 0x80302000 0 (writeHeader 0x80303000 7 0 0x80303000 0x80303000 st) = true := by
    cases hmisled with
    | here hm _ => exact hm
    | later hm _ _ => exact hm
  obtain ⟨_, hmagic, _⟩ := canMerge_order hm
  have hbuddy : buddyBlock 0x80302000 0 = 0x80303000 := by decide
  rw [hbuddy] at hmagic
  simp only [writeHeader, update_self] at hmagic
  exact absurd hmagic (by decide)

/-- One of the neighbours imitates a free block: freeing the other one takes its page. -/
theorem kfree_takes_decoy :
    ∃ st, OpenReach ⟨0x80250000, 0x80251000⟩ 0x80300000 0x80304000 st
        [⟨0x80302000, 0⟩, ⟨0x80303000, 0⟩] ∧
      SameButLive [⟨0x80302000, 0⟩, ⟨0x80303000, 0⟩] st
        (writeHeader 0x80303000 buddyMagic 0 0x80303000 0x80303000 st) ∧
      ¬ Independent ⟨0x80250000, 0x80251000⟩ [⟨0x80302000, 0⟩, ⟨0x80303000, 0⟩] ⟨0x80302000, 0⟩
        st (writeHeader 0x80303000 buddyMagic 0 0x80303000 0x80303000 st) := by
  obtain ⟨st, hboot, hreach⟩ := bootTwo_reach
  have hL : Layout.Region ⟨0x80250000, 0x80251000⟩ (pgRoundUp 0x80300000) (pgRoundDown 0x80304000) :=
    ⟨by decide, by decide, .inl (by decide)⟩
  refine ⟨st, hreach.openReach hL,
    writeHeader_sameButLive (c := ⟨0x80303000, 0⟩) (by simp) (by decide), fun hind => ?_⟩
  have hrun : bootTwo.map (fun st => kfreeMerged ⟨0x80250000, 0x80251000⟩ 0x80302000
      (writeHeader 0x80303000 buddyMagic 0 0x80303000 0x80303000 st)) =
        some [⟨0x80303000, 0⟩] := by
    decide +kernel
  rw [hboot, map_some, Option.some.injEq] at hrun
  have happart := hind.second ⟨0x80303000, 0⟩ (by rw [hrun]; exact mem_singleton.mpr rfl)
    ⟨0x80303000, 0⟩ (by simp)
  exact happart.not_has (x := 0x80303000) (by decide) (by decide)

end Hana.Buddy
