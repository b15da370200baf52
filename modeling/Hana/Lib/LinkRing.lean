import Mathlib.Data.List.Basic
import Mathlib.Data.List.Induction
import Mathlib.Logic.Function.Basic

/-!
# Circular doubly linked lists

Two link maps `next` and `prev` over an arbitrary type of nodes. `LinkRing next prev h xs`
says that, starting from the head `h`, the links run through `xs` in order and come back
to `h`, in both directions and without repetition. The three operations of an intrusive
list (insert after the head, insert before the head, unlink a node) are given as the
pointer assignments they perform, and each is shown to have the list operation as its
effect on `xs`.
-/

namespace Hana.Lib

open Function List

variable {α : Type*}

/-- `b` follows `a`. -/
def Linked (next prev : α → α) (a b : α) : Prop := next a = b ∧ prev b = a

/-- The links lead from `a` through `xs` to `b`. -/
def Seg (next prev : α → α) : α → List α → α → Prop
  | a, [], b => Linked next prev a b
  | a, x :: xs, b => Linked next prev a x ∧ Seg next prev x xs b

/-- The nodes `xs` form a ring with head `h`. -/
structure LinkRing (next prev : α → α) (h : α) (xs : List α) : Prop where
  nodup : (h :: xs).Nodup
  seg : Seg next prev h xs h

/-! ## Paths -/

variable {next prev : α → α} {a b : α} {xs : List α}

lemma Seg.congr {next' prev' : α → α} (hs : Seg next prev a xs b)
    (hn : ∀ u, u = a ∨ u ∈ xs → next' u = next u) (hp : ∀ u, u ∈ xs ∨ u = b → prev' u = prev u) :
    Seg next' prev' a xs b := by
  induction xs generalizing a with
  | nil => exact ⟨(hn a (.inl rfl)).trans hs.1, (hp b (.inr rfl)).trans hs.2⟩
  | cons x xs ih =>
    obtain ⟨hl, hs⟩ := hs
    refine ⟨⟨(hn a (.inl rfl)).trans hl.1, (hp x (by simp)).trans hl.2⟩, ih hs ?_ ?_⟩
    · intro u hu
      exact hn u (.inr (mem_cons.mpr hu))
    · intro u hu
      exact hp u (hu.imp_left (mem_cons_of_mem x))

lemma seg_append {x : α} {ys : List α} :
    Seg next prev a (xs ++ x :: ys) b ↔ Seg next prev a xs x ∧ Seg next prev x ys b := by
  induction xs generalizing a with
  | nil => exact Iff.rfl
  | cons y xs ih => simp only [cons_append, Seg, ih, and_assoc]

lemma seg_reverse :
    Seg prev next b xs.reverse a ↔ Seg next prev a xs b := by
  induction xs generalizing a with
  | nil => exact and_comm
  | cons x xs ih =>
    rw [reverse_cons, seg_append, ih]
    exact ⟨fun h => ⟨h.2.symm, h.1⟩, fun h => ⟨h.2, h.1.symm⟩⟩

lemma Seg.next_eq (hs : Seg next prev a xs b) : next a = xs.headD b := by
  cases xs with
  | nil => exact hs.1
  | cons x xs => exact hs.1.1

lemma Seg.prev_mem (hs : Seg next prev a xs b) : prev b = a ∨ prev b ∈ xs := by
  rw [(seg_reverse.mpr hs).next_eq]
  cases hx : xs.reverse with
  | nil => exact .inl rfl
  | cons x ys => exact .inr (mem_reverse.mp (by simp [hx]))

/-- Redirecting the last link of a path moves its end point. -/
lemma Seg.retarget [DecidableEq α] {c : α} (hs : Seg next prev a xs b) (hnd : (a :: xs).Nodup)
    (hc : c ∉ xs) :
    Seg (update next (prev b) c) (update prev c (prev b)) a xs c := by
  rcases eq_nil_or_concat xs with rfl | ⟨ys, y, rfl⟩
  · have hb : prev b = a := hs.2
    simp [Seg, Linked, hb]
  · rw [concat_eq_append] at hs hnd hc ⊢
    obtain ⟨hs, hy, hb⟩ := seg_append.mp hs
    rw [hb]
    refine seg_append.mpr ⟨hs.congr (fun u hu => ?_) (fun u hu => ?_), by simp [Seg, Linked]⟩
    · refine update_of_ne (fun he => ?_) _ _
      rw [← cons_append, nodup_append] at hnd
      exact hnd.2.2 u (by simpa using hu) y (by simp) he
    · exact update_of_ne (fun he => hc (by simpa [← he] using hu)) _ _

/-! ## Rings -/

namespace LinkRing

variable {next prev next' prev' : α → α} {h a x : α} {xs : List α}

lemma nil (hn : next h = h) (hp : prev h = h) : LinkRing next prev h [] :=
  ⟨by simp, hn, hp⟩

section

variable (hr : LinkRing next prev h xs)
include hr

/-- A ring only depends on the links of its own nodes. -/
lemma congr (hn : ∀ u, u = h ∨ u ∈ xs → next' u = next u)
    (hp : ∀ u, u = h ∨ u ∈ xs → prev' u = prev u) : LinkRing next' prev' h xs :=
  ⟨hr.nodup, hr.seg.congr hn fun u hu => hp u hu.symm⟩

/-- The same ring read backwards. -/
lemma reverse : LinkRing prev next h xs.reverse := by
  refine ⟨?_, seg_reverse.mpr hr.seg⟩
  have hnd := hr.nodup
  rw [nodup_cons] at hnd ⊢
  exact ⟨fun hm => hnd.1 (mem_reverse.mp hm), (reverse_perm xs).nodup_iff.mpr hnd.2⟩

lemma next_head : next h = xs.headD h := hr.seg.next_eq

lemma prev_head : prev h = xs.getLastD h := by
  rw [hr.reverse.next_head, List.headD_eq_head?_getD, head?_reverse,
    ← List.getLastD_eq_getLast?]

lemma nodup_list : xs.Nodup := (nodup_cons.mp hr.nodup).2

/-- The neighbours of a node are the head or nodes of the ring. -/
lemma next_mem (hx : x ∈ xs) : next x = h ∨ next x ∈ xs := by
  obtain ⟨ys, zs, rfl⟩ := append_of_mem hx
  rw [(seg_append.mp hr.seg).2.next_eq]
  cases zs with
  | nil => exact .inl rfl
  | cons z zs => exact .inr (by simp)

lemma prev_mem (hx : x ∈ xs) : prev x = h ∨ prev x ∈ xs := by
  have := hr.reverse.next_mem (mem_reverse.mpr hx)
  rwa [mem_reverse] at this

end

variable [DecidableEq α]

/-- Insertion right after the head. -/
lemma insertFirst (hr : LinkRing next prev h xs) (ha : a ≠ h) (hx : a ∉ xs) :
    LinkRing (update (update next h a) a (next h))
      (update (update prev a h) (next h) a) h (a :: xs) := by
  have hnd := nodup_cons.mp hr.nodup
  refine ⟨?_, ?_⟩
  · simp only [nodup_cons, mem_cons, not_or]
    exact ⟨⟨ha.symm, hnd.1⟩, hx, hnd.2⟩
  · cases xs with
    | nil =>
      have hh : next h = h := hr.next_head
      simp [Seg, Linked, hh, update_of_ne ha.symm, update_of_ne ha]
    | cons y ys =>
      obtain ⟨⟨hy, hy'⟩, hs⟩ := hr.seg
      have hay : a ≠ y := fun he => hx (by simp [he])
      have hhy : h ≠ y := fun he => hnd.1 (by simp [he])
      refine ⟨⟨?_, ?_⟩, ⟨?_, ?_⟩, ?_⟩
      · simp [update_of_ne ha.symm]
      · simp [hy, update_of_ne hay]
      · simp [hy]
      · simp [hy]
      · refine hs.congr (fun u hu => ?_) (fun u hu => ?_)
        · have hua : u ≠ a := fun he => hx (by simpa [he] using hu)
          have huh : u ≠ h := fun he => hnd.1 (by simpa [he] using hu)
          simp [update_of_ne hua, update_of_ne huh]
        · have huy : u ≠ y := by
            rcases hu with hu | rfl
            · exact fun he => (nodup_cons.mp hnd.2).1 (he ▸ hu)
            · exact hhy
          have hua : u ≠ a := by
            rcases hu with hu | rfl
            · exact fun he => hx (mem_cons_of_mem _ (he ▸ hu))
            · exact ha.symm
          simp [hy, update_of_ne huy, update_of_ne hua]

/-- Insertion right before the head, at the end of the list. -/
lemma insertLast (hr : LinkRing next prev h xs) (ha : a ≠ h) (hx : a ∉ xs) :
    LinkRing (update (update next a h) (prev h) a)
      (update (update prev h a) a (prev h)) h (xs ++ [a]) := by
  have := (hr.reverse.insertFirst ha (by simpa using hx)).reverse
  simpa using this

/-- Unlinking a node joins its two neighbours. -/
lemma unlink (hr : LinkRing next prev h xs) (hx : x ∈ xs) :
    LinkRing (update next (prev x) (next x)) (update prev (next x) (prev x))
      h (xs.erase x) := by
  obtain ⟨ys, zs, rfl⟩ := append_of_mem hx
  have hnd := hr.nodup
  obtain ⟨hys, hzs⟩ := seg_append.mp hr.seg
  simp only [nodup_cons, nodup_append, mem_append, mem_cons, not_or] at hnd
  obtain ⟨⟨hhy, hhx, hhz⟩, hny, ⟨hxz, hnz⟩, hyz⟩ := hnd
  have hxy : x ∉ ys := fun hm => hyz x hm x (.inl rfl) rfl
  rw [erase_append_right _ hxy, erase_cons_head]
  refine ⟨hr.nodup.sublist (by simp), ?_⟩
  have hnd : (h :: ys).Nodup := nodup_cons.mpr ⟨hhy, hny⟩
  cases zs with
  | nil =>
    have hnx : next x = h := hzs.1
    rw [append_nil, hnx]
    exact hys.retarget hnd hhy
  | cons z zs =>
    obtain ⟨⟨hnx, hpz⟩, hzs⟩ := hzs
    rw [hnx]
    refine seg_append.mpr ⟨hys.retarget hnd fun hm => hyz z hm z (by simp) rfl, ?_⟩
    have hpx := hys.prev_mem
    refine hzs.congr (fun u hu => ?_) (fun u hu => ?_)
    · have hu' : u = z ∨ u ∈ zs := hu
      refine update_of_ne (fun he => ?_) _ _
      rcases hpx with hp | hp
      · exact hhz (by rw [← hp, ← he]; simpa using hu')
      · exact hyz (prev x) hp u (.inr (by simpa using hu')) he.symm
    · refine update_of_ne (fun he => ?_) _ _
      subst he
      rcases hu with hu | rfl
      · exact (nodup_cons.mp hnz).1 hu
      · exact hhz (by simp)

end LinkRing

/-! ## Following the links -/

/-- The nodes that are met from `h` on before the links come back to `h`. -/
inductive Follows (next : α → α) (h : α) : α → Prop
  | first (hne : next h ≠ h) : Follows next h (next h)
  | next {a : α} (ha : Follows next h a) (hne : next a ≠ h) : Follows next h (next a)

lemma LinkRing.follows_iff {h : α} (hr : LinkRing next prev h xs) :
    Follows next h a ↔ a ∈ xs := by
  have hmem : ∀ ys zs : List α, ∀ x, xs = ys ++ x :: zs → Follows next h x := by
    intro ys
    induction ys using reverseRecOn with
    | nil =>
      intro zs x hx
      have hnext : next h = x := by rw [hr.next_head, hx]; rfl
      rw [← hnext]
      refine .first fun hne => ?_
      have hnd := hr.nodup
      rw [hx, ← hnext, hne] at hnd
      simp at hnd
    | append_singleton ys y ih =>
      intro zs x hx
      rw [append_assoc, singleton_append] at hx
      have hy := ih _ _ hx
      have hseg := hr.seg
      rw [hx] at hseg
      have hnext : next y = x := (seg_append.mp hseg).2.1.1
      rw [← hnext]
      refine .next hy fun hne => ?_
      have hnd := hr.nodup
      rw [hx, ← hnext, hne] at hnd
      simp at hnd
  constructor
  · intro hf
    induction hf with
    | first hne =>
      rw [hr.next_head] at hne ⊢
      cases xs with
      | nil => exact absurd rfl hne
      | cons x xs => exact mem_cons_self
    | next _ hne ih => exact (hr.next_mem ih).resolve_left hne
  · intro ha
    obtain ⟨ys, zs, hx⟩ := append_of_mem ha
    exact hmem ys zs a hx

end Hana.Lib
