import Hana.Mm.Vm.Model

/-!
# The shape of the page tables

`Tables m tab` says that the pages in `tab` form three-level page tables in the memory `m`:
`tab t` gives the place of the table at `t`, that is, its root, its level (two for a root,
zero for a leaf table) and the range of pages it serves. A place determines its table, so
that two tables never share an entry, and an entry above the leaves is valid exactly when
the table below it exists.

`Grow` is what `walk` does in the worst case: it adds empty tables. The leaf entries, which
are all that the rest of the memory management looks at, stay as they are.
-/

namespace Hana.Vm

open Function

variable {A : Type}

structure Place where
  root : Nat
  level : Nat
  idx : Nat
deriving DecidableEq, Repr

/-- The place of a root. -/
def rootPlace (r : Nat) : Place := ⟨r, 2, 0⟩

structure Tables (m : Mem A) (tab : Nat → Option Place) : Prop where
  dvd : ∀ {t pl}, tab t = some pl → 4096 ∣ t
  range : ∀ {t pl}, tab t = some pl → 0 < t ∧ t < 2 ^ 64
  level : ∀ {t pl}, tab t = some pl → pl.level ≤ 2
  unique : ∀ {t t' pl}, tab t = some pl → tab t' = some pl → t = t'
  child : ∀ {t r l i k}, tab t = some ⟨r, l + 1, i⟩ → k < 512 →
    has (m.pte (t + 8 * k)) pteV = true →
    tab (pte2pa (m.pte (t + 8 * k))) = some ⟨r, l, 512 * i + k⟩
  nochild : ∀ {t r l i k}, tab t = some ⟨r, l + 1, i⟩ → k < 512 →
    has (m.pte (t + 8 * k)) pteV = false → ∀ t', tab t' ≠ some ⟨r, l, 512 * i + k⟩
  parent : ∀ {t r l i}, tab t = some ⟨r, l, i⟩ → l < 2 →
    ∃ t', tab t' = some ⟨r, l + 1, i / 512⟩
  root : ∀ {t r i}, tab t = some ⟨r, 2, i⟩ → t = r ∧ i = 0

/-- The entries above the leaves that are not valid are zero, in the tables below the root `r`. -/
def Clean (r : Nat) (m : Mem A) (tab : Nat → Option Place) : Prop :=
  ∀ t l i k, tab t = some ⟨r, l + 1, i⟩ → k < 512 → has (m.pte (t + 8 * k)) pteV = false →
    m.pte (t + 8 * k) = 0

/-! ## Indices -/

lemma and_511 (n : Nat) : n &&& 0x1ff = n % 512 := Nat.and_two_pow_sub_one_eq_mod n 9

/-- The leaf table of a page, by its number. -/
def leafPlace (r vpn : Nat) : Place := ⟨r, 0, vpn / 512 % 2 ^ 18⟩

lemma entryAddr_def (pte : Nat → Nat) (r vpn : Nat) :
    entryAddr pte r vpn =
      if has (pte (r + 8 * (vpn / 2 ^ 18 % 512))) pteV then
        if has (pte (pte2pa (pte (r + 8 * (vpn / 2 ^ 18 % 512))) + 8 * (vpn / 512 % 512))) pteV then
          some (pte2pa (pte (pte2pa (pte (r + 8 * (vpn / 2 ^ 18 % 512))) +
            8 * (vpn / 512 % 512))) + 8 * (vpn % 512))
        else none
      else none := by
  unfold entryAddr
  simp only [and_511, Nat.shiftRight_eq_div_pow]

variable {i t' k' vpn p r' v l : Nat}

/-- The bits above an Sv39 page number are ignored. -/
lemma entryAddr_mod {k : Nat} (h : i % 2 ^ 27 = k % 2 ^ 27) (pte : Nat → Nat) (r : Nat) :
    entryAddr pte r i = entryAddr pte r k := by
  have h2 : i / 2 ^ 18 % 512 = k / 2 ^ 18 % 512 := by omega
  have h1 : i / 512 % 512 = k / 512 % 512 := by omega
  have h0 : i % 512 = k % 512 := by omega
  rw [entryAddr_def, entryAddr_def, h2, h1, h0]

lemma leaf_mod (m : Mem A) (r vpn : Nat) : leaf m r (vpn % 2 ^ 27) = leaf m r vpn := by
  simp only [leaf, entryAddr_mod (Nat.mod_mod vpn (2 ^ 27))]

lemma slot_inj {t k : Nat} (ht : 4096 ∣ t) (ht' : 4096 ∣ t') (hk : k < 512)
    (hk' : k' < 512) (h : t + 8 * k = t' + 8 * k') : t = t' ∧ k = k' := by
  omega

/-! ## A new table -/

section

variable {tab : Nat → Option Place} {m : Mem A} {t u k : Nat} {pl pl' : Place}

lemma ne_of_new (hnew : tab t = none) (hu : tab u = some pl) : u ≠ t := by
  rintro rfl
  rw [hnew] at hu
  cases hu

lemma new_keeps (hnew : tab t = none) (hu : tab u = some pl) :
    update tab t (some pl') u = some pl := by
  rw [update_of_ne (ne_of_new hnew hu)]
  exact hu

lemma new_cases (hu : update tab t (some pl') u = some pl) :
    (u = t ∧ pl = pl') ∨ tab u = some pl := by
  by_cases he : u = t
  · subst he
    rw [update_self] at hu
    exact .inl ⟨rfl, (Option.some.inj hu).symm⟩
  · rw [update_of_ne he] at hu
    exact .inr hu

lemma clearTable_self (hk : k < 512) : (clearTable t m).pte (t + 8 * k) = 0 := by
  refine if_pos ?_
  unfold pgSize
  omega

lemma clearTable_of_ne (hu : 4096 ∣ u) (ht : 4096 ∣ t) (hne : u ≠ t) (hk : k < 512) :
    (clearTable t m).pte (u + 8 * k) = m.pte (u + 8 * k) := by
  refine if_neg ?_
  unfold pgSize
  omega

end

namespace Tables

variable {m m' : Mem A} {tab : Nat → Option Place} {r : Nat}

/-- The shape depends on the entries above the leaves only. -/
lemma congr (h : Tables m tab) (hpte : ∀ {t r l i k}, tab t = some ⟨r, l + 1, i⟩ → k < 512 →
    m'.pte (t + 8 * k) = m.pte (t + 8 * k)) : Tables m' tab := by
  refine ⟨h.dvd, h.range, h.level, h.unique, ?_, ?_, h.parent, h.root⟩
  · intro t r l i k ht hk hv
    rw [hpte ht hk] at hv ⊢
    exact h.child ht hk hv
  · intro t r l i k ht hk hv
    rw [hpte ht hk] at hv
    exact h.nochild ht hk hv

lemma empty : Tables m fun _ => none := by
  refine ⟨?_, ?_, ?_, ?_, ?_, ?_, ?_, ?_⟩
  · intro t pl ht
    cases ht
  · intro t pl ht
    cases ht
  · intro t pl ht
    cases ht
  · intro t t' pl ht
    cases ht
  · intro t r l i k ht
    cases ht
  · intro t r l i k ht
    cases ht
  · intro t r l i ht
    cases ht
  · intro t r i ht
    cases ht

section

variable (h : Tables m tab)
include h

/-- `walk` finds the entry of a page exactly when its leaf table exists. -/
lemma entryAddr_eq_some_iff (hr : tab r = some (rootPlace r)) :
    entryAddr m.pte r vpn = some p ↔
      ∃ t, tab t = some (leafPlace r vpn) ∧ p = t + 8 * (vpn % 512) := by
  have hi2 : vpn / 2 ^ 18 % 512 < 512 := Nat.mod_lt _ (by decide)
  have hi1 : vpn / 512 % 512 < 512 := Nat.mod_lt _ (by decide)
  have hidx : 512 * (512 * 0 + vpn / 2 ^ 18 % 512) + vpn / 512 % 512 = vpn / 512 % 2 ^ 18 := by
    omega
  have hdiv : vpn / 512 % 2 ^ 18 / 512 = 512 * 0 + vpn / 2 ^ 18 % 512 := by omega
  rw [entryAddr_def]
  -- a leaf table has a parent, and the entries on the way to it are the ones that `walk` reads
  cases hv2 : has (m.pte (r + 8 * (vpn / 2 ^ 18 % 512))) pteV with
  | false =>
    have hno := h.nochild hr hi2 hv2
    simp only [Bool.false_eq_true, if_false, reduceCtorEq, false_iff, not_exists]
    rintro t ⟨ht, _⟩
    obtain ⟨t', ht'⟩ := h.parent ht (by decide)
    rw [hdiv] at ht'
    exact hno t' ht'
  | true =>
    have ht1 := h.child hr hi2 hv2
    simp only [if_true]
    cases hv1 : has (m.pte (pte2pa (m.pte (r + 8 * (vpn / 2 ^ 18 % 512))) +
        8 * (vpn / 512 % 512))) pteV with
    | false =>
      have hno := h.nochild ht1 hi1 hv1
      rw [hidx] at hno
      simp only [Bool.false_eq_true, if_false, reduceCtorEq, false_iff, not_exists]
      rintro t ⟨ht, _⟩
      exact hno t ht
    | true =>
      have ht0 := h.child ht1 hi1 hv1
      rw [hidx] at ht0
      simp only [if_true, Option.some.injEq]
      constructor
      · rintro rfl
        exact ⟨_, ht0, rfl⟩
      · rintro ⟨t, ht, rfl⟩
        rw [h.unique ht0 ht]

/-- An entry belongs to one page of one table. -/
lemma entryAddr_inj (hr : tab r = some (rootPlace r)) {vpn' : Nat}
    (hr' : tab r' = some (rootPlace r')) (he : entryAddr m.pte r vpn = some p)
    (he' : entryAddr m.pte r' vpn' = some p) : r = r' ∧ vpn % 2 ^ 27 = vpn' % 2 ^ 27 := by
  obtain ⟨t, ht, rfl⟩ := (h.entryAddr_eq_some_iff hr).mp he
  obtain ⟨t', ht', hp⟩ := (h.entryAddr_eq_some_iff hr').mp he'
  obtain ⟨rfl, hk⟩ := slot_inj (h.dvd ht) (h.dvd ht') (Nat.mod_lt _ (by decide))
    (Nat.mod_lt _ (by decide)) hp
  rw [ht] at ht'
  have hplace : leafPlace r vpn = leafPlace r' vpn' := Option.some.inj ht'
  simp only [leafPlace, Place.mk.injEq, true_and] at hplace
  exact ⟨hplace.1, by omega⟩

lemma setLeaf_pte {t k l' i' : Nat} (ht : tab t = some ⟨r, 0, i⟩)
    (hk : k < 512) (ht' : tab t' = some ⟨r', l' + 1, i'⟩) (hk' : k' < 512) :
    (m.setPte (t + 8 * k) v).pte (t' + 8 * k') = m.pte (t' + 8 * k') := by
  refine update_of_ne (fun he => ?_) _ _
  obtain ⟨rfl, _⟩ := slot_inj (h.dvd ht') (h.dvd ht) hk' hk he
  rw [ht] at ht'
  cases ht'

/-- A write to a leaf entry does not change the shape of the tables. -/
lemma setLeaf {t k : Nat} (ht : tab t = some ⟨r, 0, i⟩) (hk : k < 512) :
    Tables (m.setPte (t + 8 * k) v) tab :=
  h.congr fun ht' hk' => h.setLeaf_pte ht hk ht' hk'

lemma setLeaf_clean {t k : Nat} (ht : tab t = some ⟨r, 0, i⟩)
    (hk : k < 512) (hc : Clean r' m tab) : Clean r' (m.setPte (t + 8 * k) v) tab := by
  intro t' l' i' k' ht' hk' hv
  rw [h.setLeaf_pte ht hk ht' hk'] at hv ⊢
  exact hc t' l' i' k' ht' hk' hv

/-- The entries of all pages stay where they are. -/
lemma entryAddr_congr (h' : Tables m' tab) (hr : tab r = some (rootPlace r)) (vpn : Nat) :
    entryAddr m'.pte r vpn = entryAddr m.pte r vpn := by
  apply Option.ext
  intro p
  rw [h'.entryAddr_eq_some_iff hr, h.entryAddr_eq_some_iff hr]

/-- Writing the entry of one page changes the leaf of that page only. -/
lemma leaf_setPte (hr : tab r = some (rootPlace r)) (he : entryAddr m.pte r vpn = some p)
    (hr' : tab r' = some (rootPlace r')) (vpn' : Nat) :
    leaf (m.setPte p v) r' vpn' =
      if r' = r ∧ vpn' % 2 ^ 27 = vpn % 2 ^ 27 then v else leaf m r' vpn' := by
  obtain ⟨t, ht, hp⟩ := (h.entryAddr_eq_some_iff hr).mp he
  have h' : Tables (m.setPte p v) tab := by
    rw [hp]
    exact h.setLeaf ht (Nat.mod_lt _ (by decide))
  unfold leaf
  rw [h.entryAddr_congr h' hr' vpn']
  cases he' : entryAddr m.pte r' vpn' with
  | none =>
    rw [if_neg]
    rintro ⟨rfl, hvpn⟩
    have hsame : leafPlace r' vpn' = leafPlace r' vpn := by
      simp only [leafPlace, Place.mk.injEq, true_and]
      omega
    have hentry : entryAddr m.pte r' vpn' = some (t + 8 * (vpn' % 512)) := by
      rw [h.entryAddr_eq_some_iff hr', hsame]
      exact ⟨t, ht, rfl⟩
    rw [he'] at hentry
    cases hentry
  | some q =>
    by_cases hq : q = p
    · subst hq
      obtain ⟨hrr, hvpn⟩ := h.entryAddr_inj hr' hr he' he
      rw [if_pos ⟨hrr, hvpn⟩]
      exact update_self _ _ _
    · rw [if_neg]
      · exact update_of_ne hq _ _
      · rintro ⟨rfl, hvpn⟩
        have hsame : leafPlace r' vpn' = leafPlace r' vpn := by
          simp only [leafPlace, Place.mk.injEq, true_and]
          omega
        have hk : vpn' % 512 = vpn % 512 := by omega
        obtain ⟨t', ht', rfl⟩ := (h.entryAddr_eq_some_iff hr').mp he'
        rw [hsame] at ht'
        rw [h.unique ht' ht, hk, hp] at hq
        exact hq rfl

/-! ## Adding a table -/

/-- What holds of the places and addresses, also with a new table in a place that was free. -/
lemma new_shape {t : Nat} (pl' : Place) (hdvd : 4096 ∣ t)
    (hrange : 0 < t ∧ t < 2 ^ 64) (hlevel : pl'.level ≤ 2) (hfree : ∀ u, tab u ≠ some pl') :
    (∀ {u pl}, update tab t (some pl') u = some pl →
      4096 ∣ u ∧ (0 < u ∧ u < 2 ^ 64) ∧ pl.level ≤ 2) ∧
    ∀ {u u' pl}, update tab t (some pl') u = some pl → update tab t (some pl') u' = some pl →
      u = u' := by
  refine ⟨?_, ?_⟩
  · intro u pl hu
    rcases new_cases hu with ⟨rfl, rfl⟩ | hu
    · exact ⟨hdvd, hrange, hlevel⟩
    · exact ⟨h.dvd hu, h.range hu, h.level hu⟩
  · intro u u' pl hu hu'
    rcases new_cases hu with ⟨he, hpl⟩ | hold
    · rcases new_cases hu' with ⟨he', _⟩ | hold'
      · rw [he, he']
      · rw [hpl] at hold'
        exact absurd hold' (hfree u')
    · rcases new_cases hu' with ⟨_, hpl⟩ | hold'
      · rw [hpl] at hold
        exact absurd hold (hfree u)
      · exact h.unique hold hold'

/-- An empty table is hung into an entry that was not valid. -/
lemma addTable {t k : Nat} (ht : tab t = some ⟨r, l + 1, i⟩)
    (hk : k < 512) (hv : has (m.pte (t + 8 * k)) pteV = false) (hnew : tab t' = none)
    (hdvd : 4096 ∣ t') (hpos : 0 < t') (hlt : t' < 2 ^ 64) :
    Tables ((clearTable t' m).setPte (t + 8 * k) (pa2pte t' ||| pteV))
      (update tab t' (some ⟨r, l, 512 * i + k⟩)) := by
  have hentry : pte2pa (pa2pte t' ||| pteV) = t' := by
    rw [pte2pa_or hlt (by decide), frameOf]
    omega
  have hfree : ∀ u, tab u ≠ some ⟨r, l, 512 * i + k⟩ := h.nochild ht hk hv
  have hdt := h.dvd ht
  have htt := ne_of_new hnew ht
  -- what the tables read after the change
  have hpte : ∀ {u pl k'}, tab u = some pl → k' < 512 →
      ((clearTable t' m).setPte (t + 8 * k) (pa2pte t' ||| pteV)).pte (u + 8 * k') =
        if u = t ∧ k' = k then pa2pte t' ||| pteV else m.pte (u + 8 * k') := by
    intro u pl k' hu hk'
    have hdu := h.dvd hu
    show update (clearTable t' m).pte (t + 8 * k) _ (u + 8 * k') = _
    by_cases he : u + 8 * k' = t + 8 * k
    · rw [he, update_self, if_pos (slot_inj hdu hdt hk' hk he)]
    · rw [update_of_ne he, if_neg (by rintro ⟨rfl, rfl⟩; exact he rfl)]
      exact clearTable_of_ne hdu hdvd (ne_of_new hnew hu) hk'
  have hzero : ∀ {k'}, k' < 512 →
      ((clearTable t' m).setPte (t + 8 * k) (pa2pte t' ||| pteV)).pte (t' + 8 * k') = 0 := by
    intro k' hk'
    show update (clearTable t' m).pte (t + 8 * k) _ (t' + 8 * k') = _
    rw [update_of_ne (by omega)]
    exact clearTable_self hk'
  have hlevel : l + 1 ≤ 2 := h.level ht
  obtain ⟨hshape, hunique⟩ := h.new_shape ⟨r, l, 512 * i + k⟩ hdvd ⟨hpos, hlt⟩
    (show l ≤ 2 by omega) hfree
  refine ⟨fun hu => (hshape hu).1, fun hu => (hshape hu).2.1, fun hu => (hshape hu).2.2, hunique,
    ?_, ?_, ?_, ?_⟩
  · intro u r' l' i' k' hu hk' hv'
    rcases new_cases hu with ⟨rfl, _⟩ | hu0
    · rw [hzero hk', has_zero] at hv'
      cases hv'
    · rw [hpte hu0 hk'] at hv' ⊢
      by_cases he : u = t ∧ k' = k
      · rw [if_pos he, hentry, update_self, he.2]
        rw [he.1, ht] at hu0
        cases hu0
        rfl
      · rw [if_neg he] at hv' ⊢
        exact new_keeps hnew (h.child hu0 hk' hv')
  · intro u r' l' i' k' hu hk' hv' u' hu'
    rcases new_cases hu with ⟨rfl, hpl⟩ | hu0
    · -- the new table is empty, and nothing can be below it
      cases hpl
      rcases new_cases hu' with ⟨_, hpl⟩ | hu'₀
      · simp only [Place.mk.injEq] at hpl
        omega
      · obtain ⟨t1, ht₁⟩ := h.parent hu'₀ (by omega)
        have hdiv : (512 * (512 * i + k) + k') / 512 = 512 * i + k := by omega
        rw [hdiv] at ht₁
        exact hfree t1 ht₁
    · rw [hpte hu0 hk'] at hv'
      by_cases he : u = t ∧ k' = k
      · rw [if_pos he, has_or_pteV] at hv'
        cases hv'
      · rw [if_neg he] at hv'
        rcases new_cases hu' with ⟨_, hpl⟩ | hu'₀
        · simp only [Place.mk.injEq] at hpl
          obtain ⟨hr', hl', hidx⟩ := hpl
          have hi : i' = i := by omega
          rw [hr', hl', hi] at hu0
          exact he ⟨h.unique hu0 ht, by omega⟩
        · exact h.nochild hu0 hk' hv' u' hu'₀
  · intro u r' l' i' hu hl'
    rcases new_cases hu with ⟨_, hpl⟩ | hu0
    · cases hpl
      have hdiv : (512 * i + k) / 512 = i := by omega
      rw [hdiv]
      exact ⟨t, new_keeps hnew ht⟩
    · obtain ⟨t1, ht₁⟩ := h.parent hu0 hl'
      exact ⟨t1, new_keeps hnew ht₁⟩
  · intro u r' i' hu
    rcases new_cases hu with ⟨_, hpl⟩ | hu0
    · simp only [Place.mk.injEq] at hpl
      omega
    · exact h.root hu0

lemma addTable_clean {t k : Nat} (hdvd : 4096 ∣ t') (hc : Clean r' m tab) :
    Clean r' ((clearTable t' m).setPte (t + 8 * k) (pa2pte t' ||| pteV))
      (update tab t' (some ⟨r, l, 512 * i + k⟩)) := by
  intro u l' i' k' hu hk' hv
  by_cases he : u + 8 * k' = t + 8 * k
  · have hself : ((clearTable t' m).setPte (t + 8 * k) (pa2pte t' ||| pteV)).pte (u + 8 * k') =
        pa2pte t' ||| pteV := by
      rw [he]
      exact update_self _ _ _
    rw [hself, has_or_pteV] at hv
    cases hv
  · have hpte : ((clearTable t' m).setPte (t + 8 * k) (pa2pte t' ||| pteV)).pte (u + 8 * k') =
        (clearTable t' m).pte (u + 8 * k') := update_of_ne he _ _
    rw [hpte] at hv ⊢
    by_cases hut : u = t'
    · rw [hut]
      exact clearTable_self hk'
    · rw [update_of_ne hut] at hu
      rw [clearTable_of_ne (h.dvd hu) hdvd hut hk'] at hv ⊢
      exact hc u l' i' k' hu hk' hv

/-- Every table hangs below its root. -/
lemma root_isSome {u : Nat} {pl : Place} (hu : tab u = some pl) :
    tab pl.root = some (rootPlace pl.root) := by
  have htop : ∀ {t i}, tab t = some ⟨pl.root, 2, i⟩ → tab pl.root = some (rootPlace pl.root) := by
    intro t i ht
    obtain ⟨rfl, rfl⟩ := h.root ht
    exact ht
  have hone : ∀ {t i}, tab t = some ⟨pl.root, 1, i⟩ → tab pl.root = some (rootPlace pl.root) := by
    intro t i ht
    obtain ⟨t', ht'⟩ := h.parent ht (by decide)
    exact htop ht'
  obtain ⟨r', l', i'⟩ := pl
  have hlevel : l' ≤ 2 := h.level hu
  have hcases : l' = 0 ∨ l' = 1 ∨ l' = 2 := by omega
  rcases hcases with rfl | rfl | rfl
  · obtain ⟨t', ht'⟩ := h.parent hu (by decide)
    exact hone ht'
  · exact hone hu
  · exact htop hu

end

/-- A table below another one is named by its entry there. -/
lemma named (ht : Tables m tab) {t : Nat} (h : tab t = some ⟨r, l, i⟩) (hl : l < 2) :
    ∃ t', tab t' = some ⟨r, l + 1, i / 512⟩ ∧ has (m.pte (t' + 8 * (i % 512))) pteV = true ∧
      t = pte2pa (m.pte (t' + 8 * (i % 512))) := by
  obtain ⟨t', ht'⟩ := ht.parent h hl
  have hk : i % 512 < 512 := Nat.mod_lt _ (by decide)
  have hidx : 512 * (i / 512) + i % 512 = i := Nat.div_add_mod i 512
  cases hv : has (m.pte (t' + 8 * (i % 512))) pteV with
  | true =>
    have hchild := ht.child ht' hk hv
    rw [hidx] at hchild
    exact ⟨t', ht', hv, ht.unique h hchild⟩
  | false =>
    have hno := ht.nochild ht' hk hv t
    rw [hidx] at hno
    exact absurd h hno

/-- A new empty root. -/
lemma addRoot (h : Tables m tab) {t : Nat} (hnew : tab t = none) (hdvd : 4096 ∣ t)
    (hpos : 0 < t) (hlt : t < 2 ^ 64) :
    Tables (clearTable t m) (update tab t (some (rootPlace t))) := by
  have hold : ∀ {u pl}, tab u = some pl → pl.root ≠ t := by
    intro u pl hu heq
    have hroot := h.root_isSome hu
    rw [heq, hnew] at hroot
    cases hroot
  have hpte : ∀ {u pl k}, tab u = some pl → k < 512 →
      (clearTable t m).pte (u + 8 * k) = m.pte (u + 8 * k) :=
    fun hu hk => clearTable_of_ne (h.dvd hu) hdvd (ne_of_new hnew hu) hk
  obtain ⟨hshape, hunique⟩ := h.new_shape (rootPlace t) hdvd ⟨hpos, hlt⟩ (Nat.le_refl 2)
    fun u hu => absurd rfl (hold hu)
  refine ⟨fun hu => (hshape hu).1, fun hu => (hshape hu).2.1, fun hu => (hshape hu).2.2, hunique,
    ?_, ?_, ?_, ?_⟩
  · intro u r' l' i' k' hu hk' hv'
    rcases new_cases hu with ⟨rfl, _⟩ | hu0
    · rw [clearTable_self hk', has_zero] at hv'
      cases hv'
    · rw [hpte hu0 hk'] at hv' ⊢
      exact new_keeps hnew (h.child hu0 hk' hv')
  · intro u r' l' i' k' hu hk' hv' u' hu'
    rcases new_cases hu with ⟨rfl, hpl⟩ | hu0
    · -- no table has the new root above it
      cases hpl
      rcases new_cases hu' with ⟨_, hpl⟩ | hu'₀
      · cases hpl
      · exact absurd rfl (hold hu'₀)
    · rw [hpte hu0 hk'] at hv'
      rcases new_cases hu' with ⟨_, hpl⟩ | hu'₀
      · simp only [rootPlace, Place.mk.injEq] at hpl
        exact absurd hpl.1 (hold hu0)
      · exact h.nochild hu0 hk' hv' u' hu'₀
  · intro u r' l' i' hu hl'
    rcases new_cases hu with ⟨_, hpl⟩ | hu0
    · cases hpl
      exact absurd hl' (by decide)
    · obtain ⟨t1, ht₁⟩ := h.parent hu0 hl'
      exact ⟨t1, new_keeps hnew ht₁⟩
  · intro u r' i' hu
    rcases new_cases hu with ⟨rfl, hpl⟩ | hu0
    · cases hpl
      exact ⟨rfl, rfl⟩
    · exact h.root hu0

end Tables

end Hana.Vm
