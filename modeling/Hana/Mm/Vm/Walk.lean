import Hana.Lib.Words
import Hana.Mm.Vm.Tables

/-!
# Walking and growing page tables

The specification of `walk`: without allocation it only looks the entry up; with allocation
it ends at the entry of the page and leaves every leaf entry of every table as it is.
-/

namespace Hana.Vm

open Function Option

variable {A : Type}

/-- The environment of a running kernel: a lawful allocator for pages in `[lo, hi)`, whose
counters start at `pages`. -/
structure Env.Ok (E : Env A) (lo hi : Nat) (Inv : A → Prop) (Held : A → Nat → Nat → Prop) :
    Prop where
  lawful : E.al.Lawful lo hi Inv Held
  lo_pos : 0 < lo
  hi_le : hi ≤ physTop
  pages_le : E.pages ≤ lo
  pages_dvd : 4096 ∣ E.pages

lemma Env.Ok.hi_lt {E : Env A} {lo hi : Nat} {Inv : A → Prop} {Held : A → Nat → Nat → Prop}
    (h : E.Ok lo hi Inv Held) : hi < 2 ^ 32 := h.hi_le.trans_lt (by decide)

/-- A memory whose tables are laid out by `tab`, each in an allocated page of its own. -/
structure Shaped (Inv : A → Prop) (Held : A → Nat → Nat → Prop) (m : Mem A)
    (tab : Nat → Option Place) : Prop where
  tables : Tables m tab
  alloc : Inv m.alloc
  held : ∀ {t pl}, tab t = some pl → Held m.alloc t 1

/-- The page lies in an allocated block. -/
def Owned (Held : A → Nat → Nat → Prop) (a : A) (x : Nat) : Prop :=
  ∃ q k, Held a q k ∧ q ≤ x ∧ x < q + 4096 * k

/-- No allocated page starts with the magic word. The headers of the free blocks are in the pages
themselves, and `kfree` takes a buddy that starts with this word for a free block. -/
def Unforged (Held : A → Nat → Nat → Prop) (m : Mem A) : Prop :=
  ∀ x, 4096 ∣ x → Owned Held m.alloc x →
    Lib.leWord m.byte x 8 ≠ Buddy.buddyMagic ∧ m.pte x ≠ Buddy.buddyMagic

/-- Tables are added below the root `r`, and nothing is freed. -/
structure Extends (Held : A → Nat → Nat → Prop) (r : Nat) (m : Mem A) (tab : Nat → Option Place)
    (m' : Mem A) (tab' : Nat → Option Place) : Prop where
  le : ∀ {t pl}, tab t = some pl → tab' t = some pl
  root : ∀ {r'}, tab' r' = some (rootPlace r') → tab r' = some (rootPlace r')
  other : ∀ {t pl}, tab' t = some pl → pl.root ≠ r → tab t = some pl
  new : ∀ {t pl}, tab' t = some pl → tab t = some pl ∨ ¬ Owned Held m.alloc t
  byte : m'.byte = m.byte
  kfreed : m'.kfreed = m.kfreed
  held : ∀ {q k}, Held m.alloc q k → Held m'.alloc q k
  fresh : ∀ {q k}, Held m'.alloc q k →
    Held m.alloc q k ∨ (k = 1 ∧ ¬ Owned Held m.alloc q ∧ ∃ pl, tab' q = some pl)
  clean : Clean r m tab → Clean r m' tab'

/-- `m'` differs from `m` by new empty tables below the root `r`. -/
structure Grow (Held : A → Nat → Nat → Prop) (r : Nat) (m : Mem A) (tab : Nat → Option Place)
    (m' : Mem A) (tab' : Nat → Option Place) : Prop extends Extends Held r m tab m' tab' where
  leaf : ∀ {r'}, tab r' = some (rootPlace r') → ∀ vpn, leaf m' r' vpn = leaf m r' vpn
  cnt : m'.cnt = m.cnt

/-- What a change below the root `r` keeps. -/
structure Beside (r : Nat) (m : Mem A) (tab : Nat → Option Place) (m' : Mem A)
    (tab' : Nat → Option Place) : Prop where
  le : ∀ {t pl}, tab t = some pl → tab' t = some pl
  other : ∀ {t pl}, tab' t = some pl → pl.root ≠ r → tab t = some pl
  leaf : ∀ {r'}, tab r' = some (rootPlace r') → r' ≠ r → ∀ vpn, leaf m' r' vpn = leaf m r' vpn
  byte : m'.byte = m.byte

/-- Below the root `r` entries are written and tables are added; nothing else changes. -/
structure TablesOnly (Held : A → Nat → Nat → Prop) (r : Nat) (m : Mem A)
    (tab : Nat → Option Place) (m' : Mem A) (tab' : Nat → Option Place) : Prop
    extends Extends Held r m tab m' tab' where
  leaf : ∀ {r'}, tab r' = some (rootPlace r') → r' ≠ r → ∀ vpn, leaf m' r' vpn = leaf m r' vpn

variable {va p sz t : Nat} {q : Option Nat}

section

variable {Inv : A → Prop} {Held : A → Nat → Nat → Prop} {lo hi : Nat} {E : Env A}
variable {m m' m'' : Mem A} {tab tab' tab'' : Nat → Option Place} {r : Nat}

lemma Owned.mono {a a' : A} {x : Nat} (h : Owned Held a x)
    (hheld : ∀ {q k}, Held a q k → Held a' q k) : Owned Held a' x := by
  obtain ⟨q, k, hq, hx⟩ := h
  exact ⟨q, k, hheld hq, hx⟩

lemma Extends.refl : Extends Held r m tab m tab :=
  ⟨fun h => h, fun h => h, fun h _ => h, fun h => .inl h, rfl, rfl, fun h => h, fun h => .inl h,
    fun h => h⟩

lemma Extends.trans (h : Extends Held r m tab m' tab') (h' : Extends Held r m' tab' m'' tab'') :
    Extends Held r m tab m'' tab'' := by
  refine ⟨fun ht => h'.le (h.le ht), fun ht => h.root (h'.root ht),
    fun ht hne => h.other (h'.other ht hne) hne, ?_, h'.byte.trans h.byte, h'.kfreed.trans h.kfreed,
    fun hq => h'.held (h.held hq), ?_, fun hc => h'.clean (h.clean hc)⟩
  · intro t pl ht
    rcases h'.new ht with ht | hno
    · exact h.new ht
    · exact .inr fun howned => hno (howned.mono h.held)
  · intro q k hq
    rcases h'.fresh hq with hq | ⟨hk, hno, hpl⟩
    · rcases h.fresh hq with hq | ⟨hk, hno, pl, hpl⟩
      · exact .inl hq
      · exact .inr ⟨hk, hno, pl, h'.le hpl⟩
    · exact .inr ⟨hk, fun howned => hno (howned.mono h.held), hpl⟩

lemma TablesOnly.refl : TablesOnly Held r m tab m tab := ⟨Extends.refl, fun _ _ _ => rfl⟩

lemma TablesOnly.trans (h : TablesOnly Held r m tab m' tab')
    (h' : TablesOnly Held r m' tab' m'' tab'') : TablesOnly Held r m tab m'' tab'' := by
  refine ⟨h.toExtends.trans h'.toExtends, fun hr' hne vpn => ?_⟩
  rw [h'.leaf (h.le hr') hne, h.leaf hr' hne]

lemma TablesOnly.beside (h : TablesOnly Held r m tab m' tab') : Beside r m tab m' tab' :=
  ⟨h.le, h.other, h.leaf, h.byte⟩

lemma Grow.tablesOnly (h : Grow Held r m tab m' tab') : TablesOnly Held r m tab m' tab' :=
  ⟨h.toExtends, fun hr' _ => h.leaf hr'⟩

lemma Grow.refl : Grow Held r m tab m tab := ⟨Extends.refl, fun _ _ => rfl, rfl⟩

lemma Grow.trans (h : Grow Held r m tab m' tab') (h' : Grow Held r m' tab' m'' tab'') :
    Grow Held r m tab m'' tab'' := by
  refine ⟨h.toExtends.trans h'.toExtends, fun hr vpn => ?_, h'.cnt.trans h.cnt⟩
  rw [h'.leaf (h.le hr), h.leaf hr]

/-! ## Looking up -/

lemma walk_noalloc (pgtbl va : Nat) (m : Mem A) :
    walk E pgtbl va false m = some (entryAddr m.pte pgtbl (va >>> 12), m) := by
  simp only [walk, walkLoop, walkStep, entryAddr]
  cases hv2 : has (m.pte (pgtbl + 8 * ((va >>> 12) >>> 18 &&& 0x1ff))) pteV with
  | false => rfl
  | true =>
    simp only [if_true, bind_eq_bind, bind_some]
    cases hv1 : has (m.pte (pte2pa (m.pte (pgtbl + 8 * ((va >>> 12) >>> 18 &&& 0x1ff))) +
        8 * ((va >>> 12) >>> 9 &&& 0x1ff))) pteV with
    | false => rfl
    | true => rfl

/-- The bits of an address above 39 and below 12 are ignored. -/
lemma walk_mod {va' : Nat} (h : (va >>> 12) % 2 ^ 27 = (va' >>> 12) % 2 ^ 27) (alloc : Bool)
    (m : Mem A) : walk E r va alloc m = walk E r va' alloc m := by
  have h2 : (va >>> 12) / 2 ^ 18 % 512 = (va' >>> 12) / 2 ^ 18 % 512 := by omega
  have h1 : (va >>> 12) / 2 ^ 9 % 512 = (va' >>> 12) / 2 ^ 9 % 512 := by omega
  have h0 : (va >>> 12) % 512 = (va' >>> 12) % 512 := by omega
  simp only [walk, walkLoop, and_511, Nat.shiftRight_eq_div_pow _ 18, Nat.shiftRight_eq_div_pow _ 9,
    h2, h1, h0]

/-- Where the tables are there, nothing is allocated. -/
lemma walk_of_entry (alloc : Bool) (he : entryAddr m.pte r (va >>> 12) = some p) :
    walk E r va alloc m = some (some p, m) := by
  simp only [entryAddr] at he
  split_ifs at he with hv2 hv1
  cases he
  simp only [walk, walkLoop, walkStep, hv2, hv1, if_true, bind_eq_bind, bind_some]

/-! ## Making tables -/

/-- A newly allocated page is no table yet, and it is not owned. -/
lemma kalloc_page (hE : E.Ok lo hi Inv Held) (h : Shaped Inv Held m tab)
    (hk : kalloc E pgSize m = some (p, m')) :
    tab p = none ∧ 4096 ∣ p ∧ lo ≤ p ∧ p + 4096 ≤ hi ∧ ¬ Owned Held m.alloc p ∧ Inv m'.alloc ∧
      m' = { m with alloc := m'.alloc } ∧
      ∀ q k, Held m'.alloc q k ↔ (q = p ∧ k = 1) ∨ Held m.alloc q k := by
  obtain ⟨⟨p', a⟩, halloc, heq⟩ := bind_eq_some_iff.mp hk
  cases heq
  obtain ⟨hinv, n, _, hone, hapart, hheld⟩ :=
    hE.lawful.kalloc_spec h.alloc (by decide) (by decide) halloc
  have hn := hone le_rfl
  subst hn
  have hp : Held a p 1 := (hheld p 1).mpr (.inl ⟨rfl, rfl⟩)
  obtain ⟨hdvd, _, hlo, hhi⟩ := hE.lawful.range hinv hp
  refine ⟨?_, hdvd, hlo, by omega, ?_, hinv, rfl, hheld⟩
  · cases htab : tab p with
    | none => rfl
    | some pl =>
      have := hapart p 1 (h.held htab)
      omega
  · rintro ⟨q, k, hq, hlo', hhi'⟩
    have := hapart q k hq
    omega

/-- An allocation of any size touches no table. -/
lemma kalloc_shaped (hE : E.Ok lo hi Inv Held) (h : Shaped Inv Held m tab)
    (hpos : 0 < sz) (hsz : sz ≤ 4 * 2 ^ 20) (hk : kalloc E sz m = some (p, m')) :
    Shaped Inv Held m' tab ∧ m' = { m with alloc := m'.alloc } := by
  obtain ⟨⟨p', a⟩, halloc, heq⟩ := bind_eq_some_iff.mp hk
  cases heq
  obtain ⟨hinv, n, _, _, _, hheld⟩ := hE.lawful.kalloc_spec h.alloc hpos hsz halloc
  exact ⟨⟨{ h.tables with }, hinv, fun ht => (hheld _ _).mpr (.inr (h.held ht))⟩, rfl⟩

lemma kalloc_range (hE : E.Ok lo hi Inv Held) (h : Shaped Inv Held m tab)
    (hpos : 0 < sz) (hsz : sz ≤ 4 * 2 ^ 20) (hk : kalloc E sz m = some (p, m')) :
    lo ≤ p ∧ p + 4096 ≤ hi := by
  obtain ⟨⟨p', a⟩, halloc, heq⟩ := bind_eq_some_iff.mp hk
  cases heq
  obtain ⟨hinv, n, _, _, _, hheld⟩ := hE.lawful.kalloc_spec h.alloc hpos hsz halloc
  obtain ⟨_, hn, hlo, hhi⟩ := hE.lawful.range hinv ((hheld p n).mpr (.inl ⟨rfl, rfl⟩))
  omega

/-- The new empty table changes no leaf entry. -/
lemma leaf_addTable (h : Tables m tab) {r t' l i k : Nat} (ht : tab t = some ⟨r, l + 1, i⟩)
    (hk : k < 512) (hv : has (m.pte (t + 8 * k)) pteV = false) (hnew : tab t' = none)
    (hdvd : 4096 ∣ t') (hpos : 0 < t') (hlt : t' < 2 ^ 64) {r' : Nat}
    (hr' : tab r' = some (rootPlace r')) (vpn : Nat) :
    leaf ((clearTable t' m).setPte (t + 8 * k) (pa2pte t' ||| pteV)) r' vpn = leaf m r' vpn := by
  have h' := h.addTable ht hk hv hnew hdvd hpos hlt
  have hr'' : update tab t' (some ⟨r, l, 512 * i + k⟩) r' = some (rootPlace r') :=
    new_keeps hnew hr'
  have hk' : vpn % 512 < 512 := Nat.mod_lt _ (by decide)
  have htt := ne_of_new hnew ht
  have hdt := h.dvd ht
  unfold leaf
  cases he : entryAddr ((clearTable t' m).setPte (t + 8 * k) (pa2pte t' ||| pteV)).pte r' vpn with
  | none =>
    cases he0 : entryAddr m.pte r' vpn with
    | none => rfl
    | some p =>
      obtain ⟨u, hu, hp⟩ := (h.entryAddr_eq_some_iff hr').mp he0
      have hsome : entryAddr ((clearTable t' m).setPte (t + 8 * k) (pa2pte t' ||| pteV)).pte
          r' vpn = some p := by
        rw [h'.entryAddr_eq_some_iff hr'']
        exact ⟨u, new_keeps hnew hu, hp⟩
      rw [he] at hsome
      cases hsome
  | some p =>
    obtain ⟨u, hu, hp⟩ := (h'.entryAddr_eq_some_iff hr'').mp he
    by_cases hut : u = t'
    · -- the entry is in the new table, which is empty
      subst hut
      have hnone : entryAddr m.pte r' vpn = none := by
        cases he0 : entryAddr m.pte r' vpn with
        | none => rfl
        | some q =>
          obtain ⟨u', hu', _⟩ := (h.entryAddr_eq_some_iff hr').mp he0
          rw [update_self] at hu
          rw [← hu] at hu'
          exact absurd hu' (h.nochild ht hk hv u')
      rw [hnone, hp]
      show update (clearTable u m).pte (t + 8 * k) _ (u + 8 * (vpn % 512)) = 0
      rw [update_of_ne (by omega)]
      exact clearTable_self hk'
    · rw [update_of_ne hut] at hu
      have he0 : entryAddr m.pte r' vpn = some p :=
        (h.entryAddr_eq_some_iff hr').mpr ⟨u, hu, hp⟩
      have hdu := h.dvd hu
      rw [he0, hp]
      show update (clearTable t' m).pte (t + 8 * k) _ (u + 8 * (vpn % 512)) = _
      have hslot : u + 8 * (vpn % 512) ≠ t + 8 * k := by
        intro heq
        obtain ⟨rfl, _⟩ := slot_inj hdu hdt hk' hk heq
        rw [ht] at hu
        cases hu
      rw [update_of_ne hslot]
      exact clearTable_of_ne hdu hdvd hut hk'

/-- The two writes of `walk` to one entry are one. -/
lemma setPte_setPte (m : Mem A) (p v w : Nat) : (m.setPte p v).setPte p w = m.setPte p w := by
  unfold Mem.setPte
  simp only [update_idem]

/-- One turn of the loop of `walk`. -/
lemma walkStep_alloc (hE : E.Ok lo hi Inv Held) (h : Shaped Inv Held m tab) {r l i k : Nat}
    (ht : tab t = some ⟨r, l + 1, i⟩) (hk : k < 512)
    (hw : walkStep E true (t + 8 * k) m = some (q, m')) :
    ∃ u tab', q = some u ∧ Shaped Inv Held m' tab' ∧ Grow Held r m tab m' tab' ∧
      tab' u = some ⟨r, l, 512 * i + k⟩ := by
  unfold walkStep at hw
  cases hv : has (m.pte (t + 8 * k)) pteV with
  | true =>
    rw [if_pos hv] at hw
    cases hw
    exact ⟨_, tab, rfl, h, Grow.refl, h.tables.child ht hk hv⟩
  | false =>
    rw [if_neg (by rw [hv]; decide), if_pos rfl] at hw
    obtain ⟨⟨t', m2⟩, halloc, hw⟩ := bind_eq_some_iff.mp hw
    obtain ⟨⟨t'', m1⟩, hkalloc, heq⟩ := bind_eq_some_iff.mp halloc
    cases heq
    obtain ⟨hnew, hdvd, hlo, hhi, hnotowned, hinv, hm1, hheld⟩ := kalloc_page hE h hkalloc
    have hlopos := hE.lo_pos
    have hhile := hE.hi_lt
    have hpos : 0 < t' := by omega
    have hlt : t' < 2 ^ 64 := by
      omega
    have hnz : pa2pte t' ≠ 0 := by
      rw [pa2pte_eq]
      omega
    have hself : ((clearTable t' m1).setPte (t + 8 * k) (pa2pte t')).pte (t + 8 * k) = pa2pte t' :=
      update_self _ _ _
    have hentry : pte2pa (pa2pte t' ||| pteV) = t' := by
      rw [pte2pa_or hlt (by decide), frameOf]
      omega
    have hself' : ((clearTable t' m1).setPte (t + 8 * k) (pa2pte t' ||| pteV)).pte (t + 8 * k) =
        pa2pte t' ||| pteV := update_self _ _ _
    simp only [hself, setPte_setPte, ne_eq, hnz, not_false_eq_true, if_true, hself',
      hentry] at hw
    cases hw
    have hv₁ : has (m1.pte (t + 8 * k)) pteV = false := by
      rw [hm1]
      exact hv
    have htab1 : Tables m1 tab := by
      rw [hm1]
      exact { h.tables with }
    refine ⟨t', update tab t' (some ⟨r, l, 512 * i + k⟩), rfl, ⟨?_, hinv, ?_⟩,
      ⟨⟨?_, ?_, ?_, ?_, ?_, ?_, ?_, ?_, ?_⟩, ?_, ?_⟩, update_self _ _ _⟩
    · exact htab1.addTable ht hk hv₁ hnew hdvd hpos hlt
    · intro u pl hu
      exact (hheld u 1).mpr ((new_cases hu).imp (fun he => ⟨he.1, rfl⟩) h.held)
    · exact fun hu => new_keeps hnew hu
    · intro u hu
      rcases new_cases hu with ⟨_, hpl⟩ | hu
      · have hlevel : l + 1 ≤ 2 := h.tables.level ht
        simp only [rootPlace, Place.mk.injEq] at hpl
        omega
      · exact hu
    · intro u pl hu hne
      rcases new_cases hu with ⟨_, rfl⟩ | hu
      · exact absurd rfl hne
      · exact hu
    · intro u pl hu
      rcases new_cases hu with ⟨rfl, _⟩ | hu
      · exact .inr hnotowned
      · exact .inl hu
    · rw [hm1]
      rfl
    · rw [hm1]
      rfl
    · intro q k' hq
      exact (hheld q k').mpr (.inr hq)
    · intro q k' hq
      rcases (hheld q k').mp hq with ⟨rfl, rfl⟩ | hq
      · exact .inr ⟨rfl, hnotowned, _, update_self _ _ _⟩
      · exact .inl hq
    · intro hc
      refine htab1.addTable_clean hdvd ?_
      rw [hm1]
      exact hc
    · intro r' hr' vpn
      rw [leaf_addTable htab1 ht hk hv₁ hnew hdvd hpos hlt hr']
      rw [hm1]
      rfl
    · rw [hm1]
      rfl

/-- `walk` with allocation ends at the entry of the page. -/
lemma walk_alloc (hE : E.Ok lo hi Inv Held) (h : Shaped Inv Held m tab) {r : Nat}
    (hr : tab r = some (rootPlace r)) (hw : walk E r va true m = some (q, m')) :
    ∃ p tab', q = some p ∧ Shaped Inv Held m' tab' ∧ Grow Held r m tab m' tab' ∧
      entryAddr m'.pte r (va >>> 12) = some p := by
  generalize hvpn : va >>> 12 = vpn
  have hi2 : vpn / 2 ^ 18 % 512 < 512 := Nat.mod_lt _ (by decide)
  have hi1 : vpn / 2 ^ 9 % 512 < 512 := Nat.mod_lt _ (by decide)
  have hr2 : tab r = some ⟨r, 1 + 1, 0⟩ := hr
  simp only [walk, walkLoop, hvpn, and_511, Nat.shiftRight_eq_div_pow] at hw
  obtain ⟨⟨q1, m1⟩, hw1, hw⟩ := bind_eq_some_iff.mp hw
  obtain ⟨u1, tab1, rfl, h₁, hg1, hu1⟩ := walkStep_alloc hE h hr2 hi2 hw1
  obtain ⟨⟨q0, m0⟩, hw0, hw⟩ := bind_eq_some_iff.mp hw
  obtain ⟨u0, tab0, rfl, h₀, hg0, hu0⟩ := walkStep_alloc hE h₁ hu1 hi1 hw0
  cases hw
  refine ⟨_, tab0, rfl, h₀, hg1.trans hg0, ?_⟩
  rw [h₀.tables.entryAddr_eq_some_iff (hg0.le (hg1.le hr))]
  refine ⟨u0, ?_, rfl⟩
  have hidx : 512 * (512 * 0 + vpn / 2 ^ 18 % 512) + vpn / 2 ^ 9 % 512 = vpn / 512 % 2 ^ 18 := by
    omega
  rw [hu0, hidx]
  rfl

/-! ## New roots -/

/-- The leaf entries of one table depend on its place and its words only. -/
lemma leaf_congr (h : Tables m tab) (h' : Tables m' tab') (hle : ∀ {t pl}, tab t = some pl →
    tab' t = some pl) (hpte : ∀ {t pl k}, tab t = some pl → k < 512 →
      m'.pte (t + 8 * k) = m.pte (t + 8 * k)) {r : Nat} (hr : tab r = some (rootPlace r))
    (hback : ∀ {t i}, tab' t = some ⟨r, 0, i⟩ → tab t = some ⟨r, 0, i⟩) (vpn : Nat) :
    leaf m' r vpn = leaf m r vpn := by
  have hentry : entryAddr m'.pte r vpn = entryAddr m.pte r vpn := by
    apply ext
    intro p
    rw [h'.entryAddr_eq_some_iff (hle hr), h.entryAddr_eq_some_iff hr]
    constructor
    · rintro ⟨t, ht, hp⟩
      exact ⟨t, hback ht, hp⟩
    · rintro ⟨t, ht, hp⟩
      exact ⟨t, hle ht, hp⟩
  unfold leaf
  rw [hentry]
  cases he : entryAddr m.pte r vpn with
  | none => rfl
  | some p =>
    obtain ⟨t, ht, rfl⟩ := (h.entryAddr_eq_some_iff hr).mp he
    exact hpte ht (Nat.mod_lt _ (by decide))

/-- The new root is laid out beside the old tables, which keep their words. -/
lemma allocPagetable_update (hE : E.Ok lo hi Inv Held) (h : Shaped Inv Held m tab)
    (hk : allocPagetable E m = some (t, m')) :
    tab t = none ∧ Shaped Inv Held m' (update tab t (some (rootPlace t))) ∧
      (∀ {u pl k}, tab u = some pl → k < 512 → m'.pte (u + 8 * k) = m.pte (u + 8 * k)) ∧
      (∀ {r}, tab r = some (rootPlace r) → ∀ vpn, leaf m' r vpn = leaf m r vpn) ∧
      m' = { m with alloc := m'.alloc, pte := m'.pte } ∧ ¬ Owned Held m.alloc t ∧
      ∀ q k, Held m'.alloc q k ↔ (q = t ∧ k = 1) ∨ Held m.alloc q k := by
  obtain ⟨⟨t', m1⟩, hkalloc, heq⟩ := bind_eq_some_iff.mp hk
  cases heq
  obtain ⟨hnew, hdvd, hlo, hhi, hnotowned, hinv, hm1, hheld⟩ := kalloc_page hE h hkalloc
  have hlopos := hE.lo_pos
  have hhile := hE.hi_lt
  have htab1 : Tables m1 tab := by
    rw [hm1]
    exact { h.tables with }
  have htab' := htab1.addRoot hnew hdvd (by omega) (by omega)
  have hwords : ∀ {u pl k}, tab u = some pl → k < 512 →
      (clearTable t m1).pte (u + 8 * k) = m.pte (u + 8 * k) := by
    intro u pl k hu hk'
    rw [clearTable_of_ne (h.tables.dvd hu) hdvd (ne_of_new hnew hu) hk', hm1]
  refine ⟨hnew, ⟨htab', hinv, ?_⟩, hwords, ?_, ?_, hnotowned, hheld⟩
  · intro u pl hu
    exact (hheld u 1).mpr ((new_cases hu).imp (fun he => ⟨he.1, rfl⟩) h.held)
  · intro r hr vpn
    refine leaf_congr h.tables htab' (fun hu => new_keeps hnew hu) hwords hr ?_ vpn
    intro u i hu
    rcases new_cases hu with ⟨_, hpl⟩ | hu
    · cases hpl
    · exact hu
  · rw [hm1]
    rfl

/-- `alloc_pagetable` makes an empty table beside the others. -/
lemma allocPagetable_spec (hE : E.Ok lo hi Inv Held) (h : Shaped Inv Held m tab)
    (hk : allocPagetable E m = some (t, m')) :
    ∃ tab', Shaped Inv Held m' tab' ∧ tab t = none ∧ tab' t = some (rootPlace t) ∧
      (∀ {u pl}, tab u = some pl → tab' u = some pl) ∧ (∀ vpn, leaf m' t vpn = 0) ∧
      (∀ {r}, tab r = some (rootPlace r) → ∀ vpn, leaf m' r vpn = leaf m r vpn) ∧
      (∀ {r}, tab' r = some (rootPlace r) → r = t ∨ tab r = some (rootPlace r)) ∧
      m' = { m with alloc := m'.alloc, pte := m'.pte } ∧ ¬ Owned Held m.alloc t ∧
      ∀ q k, Held m'.alloc q k ↔ (q = t ∧ k = 1) ∨ Held m.alloc q k := by
  obtain ⟨hnew, hs', _, hleaf, hm', hnotowned, hheld⟩ := allocPagetable_update hE h hk
  have hself : update tab t (some (rootPlace t)) t = some (rootPlace t) :=
    update_self _ _ _
  refine ⟨update tab t (some (rootPlace t)), hs', hnew, hself, fun hu => new_keeps hnew hu, ?_, hleaf,
    fun hr => (new_cases hr).imp_left And.left, hm', hnotowned, hheld⟩
  -- the new table has no leaf tables
  intro vpn
  unfold leaf
  cases he : entryAddr m'.pte t vpn with
  | none => rfl
  | some p =>
    obtain ⟨u, hu, _⟩ := (hs'.tables.entryAddr_eq_some_iff hself).mp he
    rcases new_cases hu with ⟨_, hpl⟩ | hu
    · cases hpl
    · exact absurd rfl (ne_of_new hnew (h.tables.root_isSome hu))

/-- A table that `alloc_pagetable` made has no entry. -/
lemma allocPagetable_clean (hk : allocPagetable E m = some (r, m')) (h : Tables m' tab)
    (hr : tab r = some (rootPlace r)) : Clean r m' tab := by
  have hzero : ∀ k < 512, m'.pte (r + 8 * k) = 0 := by
    intro k hk'
    obtain ⟨⟨t, m1⟩, _, heq⟩ := bind_eq_some_iff.mp hk
    cases heq
    exact if_pos (by unfold pgSize; omega)
  intro u l i k hu hlt _
  obtain rfl | rfl | hl : l = 1 ∨ l = 0 ∨ 2 ≤ l := by omega
  · obtain ⟨rfl, rfl⟩ := h.root hu
    exact hzero k hlt
  · -- a table of the second level would be named by an entry of the root
    obtain ⟨t, ht⟩ := h.parent hu (by decide)
    obtain ⟨rfl, hi⟩ := h.root ht
    have hlow : i % 512 < 512 := Nat.mod_lt _ (by decide)
    have hinvalid : has (m'.pte (t + 8 * (i % 512))) pteV = false := by
      rw [hzero _ hlow]
      rfl
    refine absurd hu ?_
    have hidx : i = 512 * (i / 512) + i % 512 := (Nat.div_add_mod i 512).symm
    rw [hidx]
    exact h.nochild ht hlow hinvalid u
  · have := h.level hu
    simp only at this
    omega

end

end Hana.Vm
