import Hana.Lib.LinkRing
import Hana.Mm.Buddy.Model

/-!
# The free lists of the buddy allocator

`FreeLists L st F` relates the links, the counters and the order fields of a state to
the lists `F k` of free block addresses. The three list primitives `addFirst`, `addLast`
and `remove` are specified once, as an update of `F` at one order; the later modules use
these specifications and never look at the links again.
-/

namespace Hana.Buddy

open Function List Lib

/-- The address is neither a list head nor a free block. -/
def Fresh (L : Layout) (F : Nat → List Nat) (a : Nat) : Prop :=
  ∀ k < maxOrder, a ≠ L.freeList k ∧ a ∉ F k

structure FreeLists (L : Layout) (st : Kmem) (F : Nat → List Nat) : Prop where
  ring : ∀ k < maxOrder, LinkRing st.next st.prev (L.freeList k) (F k)
  count : ∀ k < maxOrder, st.nrFree k = (F k).length
  order : ∀ k < maxOrder, ∀ a ∈ F k, st.order a = k
  heads : ∀ k < maxOrder, ∀ a ∈ F k, ∀ j < maxOrder, a ≠ L.freeList j
  disjoint : ∀ k < maxOrder, ∀ a ∈ F k, ∀ j < maxOrder, j ≠ k → a ∉ F j

lemma freeList_ne {L : Layout} {j k : Nat} (h : j ≠ k) : L.freeList j ≠ L.freeList k := by
  unfold Layout.freeList
  omega

/-- Nodes of the list of order `k`, its head included. -/
def Node (L : Layout) (F : Nat → List Nat) (k u : Nat) : Prop := u = L.freeList k ∨ u ∈ F k

namespace FreeLists

variable {L : Layout} {st st' : Kmem} {F : Nat → List Nat} {a k : Nat}

lemma node_ne (h : FreeLists L st F) {j u v : Nat} (hj : j < maxOrder) (hk : k < maxOrder)
    (hjk : j ≠ k) (hu : Node L F j u) (hv : Node L F k v) : u ≠ v := by
  rintro rfl
  rcases hu with hu | hu
  · rcases hv with hv | hv
    · exact freeList_ne hjk (hu.symm.trans hv)
    · exact h.heads k hk u hv j hj hu
  · rcases hv with hv | hv
    · exact h.heads j hj u hu k hk hv
    · exact h.disjoint j hj u hu k hk hjk.symm hv

lemma next_node (h : FreeLists L st F) (hk : k < maxOrder) {u : Nat} (hu : Node L F k u) :
    Node L F k (st.next u) := by
  rcases hu with rfl | hu
  · rw [(h.ring k hk).next_head]
    cases hF : F k with
    | nil => exact .inl rfl
    | cons x xs => exact .inr (by simp [hF])
  · exact (h.ring k hk).next_mem hu

lemma prev_node (h : FreeLists L st F) (hk : k < maxOrder) {u : Nat} (hu : Node L F k u) :
    Node L F k (st.prev u) := by
  rcases hu with rfl | hu
  · rw [(h.ring k hk).prev_head]
    rcases eq_nil_or_concat (F k) with hF | ⟨xs, x, hF⟩
    · exact .inl (by simp [hF])
    · exact .inr (by simp [hF])
  · exact (h.ring k hk).prev_mem hu

/-- The frame rule of the three primitives: a step that rewrites the list of order `k` and
leaves the nodes of the other lists alone keeps the relation. -/
lemma replace (h : FreeLists L st F) (hk : k < maxOrder) {xs : List Nat}
    (hring : LinkRing st'.next st'.prev (L.freeList k) xs)
    (hcount : st'.nrFree = update st.nrFree k xs.length) (horder : ∀ x ∈ xs, st'.order x = k)
    (hsub : ∀ x ∈ xs, x ∈ F k ∨ Fresh L F x)
    (hother : ∀ j < maxOrder, j ≠ k → ∀ u, Node L F j u →
      st'.next u = st.next u ∧ st'.prev u = st.prev u ∧ st'.order u = st.order u) :
    FreeLists L st' (update F k xs) := by
  have hnode : ∀ j < maxOrder, j ≠ k → update F k xs j = F j :=
    fun j _ hjk => update_of_ne hjk _ _
  refine ⟨?_, ?_, ?_, ?_, ?_⟩
  · intro j hj
    by_cases hjk : j = k
    · subst hjk
      rwa [update_self]
    · rw [hnode j hj hjk]
      exact (h.ring j hj).congr (fun u hu => (hother j hj hjk u hu).1)
        (fun u hu => (hother j hj hjk u hu).2.1)
  · intro j hj
    rw [hcount]
    by_cases hjk : j = k
    · subst hjk
      simp
    · rw [hnode j hj hjk, update_of_ne hjk, h.count j hj]
  · intro j hj x hx
    by_cases hjk : j = k
    · subst hjk
      exact horder x (by simpa using hx)
    · rw [hnode j hj hjk] at hx
      rw [(hother j hj hjk x (.inr hx)).2.2, h.order j hj x hx]
  · intro j hj x hx i hi
    by_cases hjk : j = k
    · subst hjk
      rcases hsub x (by simpa using hx) with hx | hx
      · exact h.heads j hj x hx i hi
      · exact (hx i hi).1
    · rw [hnode j hj hjk] at hx
      exact h.heads j hj x hx i hi
  · intro j hj x hx i hi hij hxi
    by_cases hjk : j = k
    · subst hjk
      rw [hnode i hi hij] at hxi
      rcases hsub x (by simpa using hx) with hx | hx
      · exact h.disjoint j hj x hx i hi hij hxi
      · exact (hx i hi).2 hxi
    · rw [hnode j hj hjk] at hx
      by_cases hik : i = k
      · subst hik
        rcases hsub x (by simpa using hxi) with hxi | hxi
        · exact h.disjoint j hj x hx i hi hij hxi
        · exact (hxi j hj).2 hx
      · rw [hnode i hi hik] at hxi
        exact h.disjoint j hj x hx i hi hij hxi

lemma fresh_ne_node (hfresh : Fresh L F a) {j u : Nat} (hj : j < maxOrder)
    (hu : Node L F j u) : u ≠ a := by
  rintro rfl
  rcases hu with hu | hu
  · exact (hfresh j hj).1 hu
  · exact (hfresh j hj).2 hu

/-- Effect of `add_first`. -/
lemma addFirst (h : FreeLists L st F) (hk : k < maxOrder) (ha : 4096 ∣ a)
    (hfresh : Fresh L F a) (hlen : (F k).length + 1 < 2 ^ 64) :
    ∃ st', Buddy.addFirst L a k st = some st' ∧
      FreeLists L st' (update F k (a :: F k)) ∧
      st'.magic = st.magic ∧ st'.pageOrder = st.pageOrder := by
  unfold Buddy.addFirst
  rw [if_pos ((isPgAligned_iff a).mpr ha)]
  refine ⟨_, rfl, ?_, rfl, rfl⟩
  have hnext := h.next_node hk (.inl rfl)
  apply h.replace hk
  · exact (h.ring k hk).insertFirst (hfresh k hk).1 (hfresh k hk).2
  · simp only [h.count k hk, length_cons]
    rw [wrap64_of_lt hlen]
  · intro x hx
    by_cases hxa : x = a
    · simp [hxa]
    · have hx : x ∈ F k := by simpa [hxa] using hx
      simp [update_of_ne hxa, h.order k hk x hx]
  · intro x hx
    rcases mem_cons.mp hx with rfl | hx
    · exact .inr hfresh
    · exact .inl hx
  · intro j hj hjk u hu
    have hua := fresh_ne_node hfresh hj hu
    have huh := h.node_ne hj hk hjk hu (.inl rfl)
    have hun := h.node_ne hj hk hjk hu hnext
    simp [update_of_ne hua, update_of_ne huh, update_of_ne hun]

/-- Effect of `add_last`. -/
lemma addLast (h : FreeLists L st F) (hk : k < maxOrder) (ha : 4096 ∣ a)
    (hfresh : Fresh L F a) (hlen : (F k).length + 1 < 2 ^ 64) :
    ∃ st', Buddy.addLast L a k st = some st' ∧
      FreeLists L st' (update F k (F k ++ [a])) ∧
      st'.magic = update st.magic a buddyMagic ∧ st'.pageOrder = st.pageOrder ∧
      st'.nrFree = update st.nrFree k ((F k).length + 1) := by
  unfold Buddy.addLast
  rw [if_pos ((isPgAligned_iff a).mpr ha)]
  have hcount : wrap64 (st.nrFree k + 1) = (F k).length + 1 := by
    rw [h.count k hk, wrap64_of_lt hlen]
  refine ⟨_, rfl, ?_, rfl, rfl, by simp only [hcount]⟩
  have hprev := h.prev_node hk (.inl rfl)
  apply h.replace hk
  · exact (h.ring k hk).insertLast (hfresh k hk).1 (hfresh k hk).2
  · simp only [hcount, length_append, length_singleton]
  · intro x hx
    by_cases hxa : x = a
    · simp [hxa]
    · have hx : x ∈ F k := by simpa [hxa] using hx
      simp [update_of_ne hxa, h.order k hk x hx]
  · intro x hx
    rcases mem_append.mp hx with hx | hx
    · exact .inl hx
    · rw [mem_singleton.mp hx]
      exact .inr hfresh
  · intro j hj hjk u hu
    have hua := fresh_ne_node hfresh hj hu
    have huh := h.node_ne hj hk hjk hu (.inl rfl)
    have hup := h.node_ne hj hk hjk hu hprev
    simp [update_of_ne hua, update_of_ne huh, update_of_ne hup]

/-- Effect of `remove`. -/
lemma remove (h : FreeLists L st F) (hk : k < maxOrder) (ha : a ∈ F k)
    (hlen : (F k).length < 2 ^ 64) :
    FreeLists L (Buddy.remove a st) (update F k ((F k).erase a)) := by
  have hnext := h.next_node hk (.inr ha)
  have hprev := h.prev_node hk (.inr ha)
  have horder : (st.order a).toNat = k := by rw [h.order k hk a ha, Int.toNat_natCast]
  have hdec : wrap64 ((F k).length + (2 ^ 64 - 1)) = (F k).length - 1 := by
    have hpos : 0 < (F k).length := length_pos_of_mem ha
    unfold wrap64
    omega
  apply h.replace hk
  · exact (h.ring k hk).unlink ha
  · unfold Buddy.remove
    simp only [horder, h.count k hk, length_erase_of_mem ha, hdec]
  · intro x hx
    have hxa : x ≠ a := fun he => (h.ring k hk).nodup_list.not_mem_erase (he ▸ hx)
    have hx : x ∈ F k := mem_of_mem_erase hx
    simp [Buddy.remove, update_of_ne hxa, h.order k hk x hx]
  · intro x hx
    exact .inl (mem_of_mem_erase hx)
  · intro j hj hjk u hu
    have hua := h.node_ne hj hk hjk hu (.inr ha)
    have hun := h.node_ne hj hk hjk hu hnext
    have hup := h.node_ne hj hk hjk hu hprev
    simp [Buddy.remove, update_of_ne hua, update_of_ne hun,
      update_of_ne hup]

end FreeLists

end Hana.Buddy
