import Hana.Mm.Vm.Boot
import Hana.Mm.Vm.Copy

/-!
# Mapping a range of addresses

`mappages` steps a pointer through a leaf table and looks it up anew where the table ends.
`pageAt` is the page that the pointer is at, turn by turn, and `Stored` says what a sequence
of stores to given pages leaves in a table. The pointer keeps up with a walk for every page
(`mappagesWalks`), as long as the offset of the page fits in an `int`.

The number of pages is taken from `PGROUNDUP(va + sz - 1)`. When the last byte of the range
is the first one of a page, that page is left out.
-/

namespace Hana.Vm

open Option

variable {A : Type}

/-- Where an access through the table goes, and the flags of the page. -/
def translate (m : Mem A) (r va : Nat) : Option (Nat × Nat) :=
  let pte := leaf m r (va >>> 12)
  if has pte pteV then some (pte2pa pte + va % pgSize, pteFlags pte) else none

/-- The page that `mappages` maps after `i` others. -/
def pageAt (va : Nat) : Nat → Nat
  | 0 => va >>> 12
  | i + 1 => if 512 ∣ pageAt va i + 1 then offsetVa va (i + 1) >>> 12 else pageAt va i + 1

/-- The same mapping with a walk for every page: `n` pages are to go after `i` others. -/
def mappagesWalks (E : Env A) (pgtbl va pa flags : Nat) : (n i : Nat) → Mem A → Option (Mem A)
  | 0, _, m => some m
  | n + 1, i, m => do
    let (pte, m) ← walk E pgtbl (wrap64 (va + i * pgSize)) true m
    let pte ← pte
    mappagesWalks E pgtbl va pa flags n (i + 1)
      (m.setPte pte (pa2pte (wrap64 (pa + i * pgSize)) ||| flags ||| pteV))

/-- The frames `pa 0, …, pa (n - 1)` were stored to the pages `page 0, …, page (n - 1)`, in this
order. -/
structure Stored (r flags n : Nat) (page pa : Nat → Nat) (m m' : Mem A) : Prop where
  hit : ∀ i < n, (∀ j, i < j → j < n → page j % 2 ^ 27 ≠ page i % 2 ^ 27) →
    leaf m' r (page i) = pa2pte (pa i) ||| flags ||| pteV
  miss : ∀ k, (∀ i < n, k % 2 ^ 27 ≠ page i % 2 ^ 27) → leaf m' r k = leaf m r k

variable {i vpn p f x y : Nat} {alloc : Bool} {q : Option Nat}

section

variable {Inv : A → Prop} {Held : A → Nat → Nat → Prop} {lo hi : Nat} {E : Env A}
variable {m m1 m' : Mem A} {tab tab1 tab' : Nat → Option Place} {r flags n va pa sz : Nat}
variable {pte : Nat} {m2 : Mem A} {page frame : Nat → Nat}

lemma Stored.zero : Stored r flags 0 page frame m m :=
  ⟨nofun, fun _ _ => rfl⟩

lemma Stored.cons
    (h : ∀ k, leaf m1 r k = if k % 2 ^ 27 = page 0 % 2 ^ 27 then pa2pte (frame 0) ||| flags ||| pteV
      else leaf m r k)
    (hrest : Stored r flags n (fun i => page (i + 1)) (fun i => frame (i + 1)) m1 m') :
    Stored r flags (n + 1) page frame m m' := by
  constructor
  · intro i hi hlater
    cases i with
    | zero =>
      have hkept : leaf m' r (page 0) = leaf m1 r (page 0) :=
        hrest.miss _ fun j hj => (hlater (j + 1) (by omega) (by omega)).symm
      rw [hkept, h, if_pos rfl]
    | succ i =>
      exact hrest.hit i (by omega) fun j hij hj => hlater (j + 1) (by omega) (by omega)
  · intro k hk
    rw [hrest.miss k fun i hi => hk (i + 1) (by omega), h, if_neg (hk 0 (by omega))]

/-- Pages count modulo the width of a page number. -/
lemma Stored.congr {page' : Nat → Nat} (h : Stored r flags n page frame m m')
    (hpage : ∀ i < n, page i % 2 ^ 27 = page' i % 2 ^ 27) :
    Stored r flags n page' frame m m' := by
  constructor
  · intro i hi hlater
    rw [← leaf_eq_of_mod_eq m' r (hpage i hi)]
    refine h.hit i hi fun j hij hj => ?_
    rw [hpage i hi, hpage j hj]
    exact hlater j hij hj
  · intro k hk
    refine h.miss k fun i hi => ?_
    rw [hpage i hi]
    exact hk i hi

/-- Two sequences of stores to the same different pages leave the same entries. -/
lemma Stored.leaf_eq {m'' : Mem A} (h : Stored r flags n page frame m m')
    (h' : Stored r flags n page frame m m'')
    (hinj : ∀ i j, i < j → j < n → page j % 2 ^ 27 ≠ page i % 2 ^ 27) (k : Nat) :
    leaf m' r k = leaf m'' r k := by
  by_cases hk : ∃ i < n, k % 2 ^ 27 = page i % 2 ^ 27
  · obtain ⟨i, hi, hki⟩ := hk
    rw [leaf_eq_of_mod_eq m' r hki, leaf_eq_of_mod_eq m'' r hki,
      h.hit i hi fun j hij hj => hinj i j hij hj, h'.hit i hi fun j hij hj => hinj i j hij hj]
  · have hout : ∀ i < n, k % 2 ^ 27 ≠ page i % 2 ^ 27 := fun i hi heq => hk ⟨i, hi, heq⟩
    rw [h.miss k hout, h'.miss k hout]

/-! ## The pointer -/

/-- The address that is looked up, as long as the product does not leave the `int`. -/
lemma offsetVa_eq (hi : i < 2 ^ 19) : offsetVa va i = wrap64 (va + i * pgSize) := by
  have hint : toInt32 (i * pgSize) = ((i * pgSize : Nat) : Int) := by
    unfold toInt32 pgSize
    norm_cast
    omega
  unfold offsetVa wrap64
  rw [hint]
  norm_cast

lemma wrap64_page (va i : Nat) :
    (wrap64 (va + i * pgSize) >>> 12) % 2 ^ 27 = (va >>> 12 + i) % 2 ^ 27 := by
  unfold wrap64 pgSize
  omega

/-- The pointer is at the page that follows. -/
lemma pageAt_mod (hi : i < 2 ^ 19) : pageAt va i % 2 ^ 27 = (va >>> 12 + i) % 2 ^ 27 := by
  induction i with
  | zero => rfl
  | succ i ih =>
    rw [pageAt]
    split_ifs
    · rw [offsetVa_eq hi, wrap64_page]
    · omega

/-- At `2 ^ 19` pages the product is negative. -/
lemma pageAt_two_pow (va : Nat) : pageAt va (2 ^ 19) % 2 ^ 27 =
    (if 512 ∣ va >>> 12 then va >>> 12 + (2 ^ 27 - 2 ^ 19) else va >>> 12 + 2 ^ 19) % 2 ^ 27 := by
  have hprev : pageAt va (2 ^ 19 - 1) % 2 ^ 27 = (va >>> 12 + (2 ^ 19 - 1)) % 2 ^ 27 :=
    pageAt_mod (by decide)
  have hstep : pageAt va (2 ^ 19) = if 512 ∣ pageAt va (2 ^ 19 - 1) + 1
      then offsetVa va (2 ^ 19) >>> 12 else pageAt va (2 ^ 19 - 1) + 1 := by
    rfl
  have hend : 512 ∣ pageAt va (2 ^ 19 - 1) + 1 ↔ 512 ∣ va >>> 12 := by omega
  have hint : toInt32 (2 ^ 19 * pgSize) = -(2 ^ 31) := by decide
  rw [hstep]
  simp only [hend]
  split_ifs
  · unfold offsetVa
    omega
  · omega

/-! ## The loops -/

lemma wrap64_next_frame (pa i : Nat) :
    wrap64 (wrap64 (pa + i * pgSize) + pgSize) = wrap64 (pa + (i + 1) * pgSize) := by
  unfold wrap64 pgSize
  omega

/-- The loop stores to the pages that the pointer goes through. -/
lemma mappagesLoop_stored (hE : E.Ok lo hi Inv Held) (nrMapped : Nat) (hs : Shaped Inv Held m tab)
    (hr : tab r = some (rootPlace r)) (he : entryAddr m.pte r (pageAt va nrMapped) = some pte)
    (hl : mappagesLoop E r va flags n nrMapped pte (wrap64 (pa + nrMapped * pgSize)) m = some m') :
    Stored r flags n (fun i => pageAt va (nrMapped + i))
      (fun i => wrap64 (pa + (nrMapped + i) * pgSize)) m m' := by
  induction n generalizing nrMapped pte m tab with
  | zero =>
    cases hl
    exact Stored.zero
  | succ n ih =>
    obtain ⟨vpn1, pte1, m1, tab1, hs1, hp1, hvpn1, he1, _, hl⟩ := mappagesLoop_turn hE hs hr he hl
    rw [wrap64_next_frame] at hl
    rw [hvpn1] at he1
    have hrest := ih (nrMapped + 1) hs1 (hp1.le hr) he1 hl
    refine Stored.cons ?_ (by simpa only [add_assoc, add_comm 1] using hrest)
    intro k
    rw [hp1.leaf hr]
    simp only [true_and, add_zero]

lemma mappages_stored (hE : E.Ok lo hi Inv Held) (hs : Shaped Inv Held m tab)
    (hr : tab r = some (rootPlace r)) (hpa : pa < 2 ^ 64)
    (hm : mappages E r va pa sz flags m = some m') :
    Stored r flags (mapCount va sz) (pageAt va) (fun i => wrap64 (pa + i * pgSize)) m m' := by
  obtain ⟨p, m1, tab1, hw, hs1, hg1, he, hl⟩ := mappages_cases hE hs hr hm
  have hpa0 : wrap64 (pa + 0 * pgSize) = pa := by
    rw [zero_mul, add_zero, wrap64_of_lt hpa]
  rw [← hpa0] at hl
  have hstored := mappagesLoop_stored hE 0 hs1 (hg1.le hr) he hl
  simp only [zero_add] at hstored
  constructor
  · exact hstored.hit
  · intro k hk
    rw [hstored.miss k hk, hg1.leaf hr]

/-- A store to a leaf entry, without the counter. -/
lemma setPte_shaped (h : Shaped Inv Held m tab) (hr : tab r = some (rootPlace r)) {v : Nat}
    (he : entryAddr m.pte r vpn = some p) : Shaped Inv Held (m.setPte p v) tab := by
  obtain ⟨t, ht, rfl⟩ := (h.tables.entryAddr_eq_some_iff hr).mp he
  exact ⟨h.tables.setLeaf ht (Nat.mod_lt _ (by decide)), h.alloc, h.held⟩

lemma mappagesWalks_stored (hE : E.Ok lo hi Inv Held) (i : Nat) (hs : Shaped Inv Held m tab)
    (hr : tab r = some (rootPlace r)) (hl : mappagesWalks E r va pa flags n i m = some m') :
    Stored r flags n (fun j => wrap64 (va + (i + j) * pgSize) >>> 12)
      (fun j => wrap64 (pa + (i + j) * pgSize)) m m' := by
  induction n generalizing i m tab with
  | zero =>
    cases hl
    exact Stored.zero
  | succ n ih =>
    simp only [mappagesWalks, bind_eq_bind, bind_eq_some_iff, Prod.exists] at hl
    obtain ⟨q, m1, hw, p, hq, hl⟩ := hl
    obtain ⟨p', tab1, hp', hs1, hg1, he⟩ := walk_alloc hE hs hr hw
    rw [hq, some.injEq] at hp'
    subst hp'
    have hrest := ih (i + 1) (setPte_shaped hs1 (hg1.le hr) he) (hg1.le hr) hl
    refine Stored.cons ?_ (by simpa only [add_assoc, add_comm 1] using hrest)
    intro k
    rw [hs1.tables.leaf_setPte (hg1.le hr) he (hg1.le hr), hg1.leaf hr]
    simp only [true_and, add_zero]

/-! ## Walks and the rest of memory -/

/-- `walk` reads the allocator and the tables only. -/
def SameTables (m m' : Mem A) : Prop := m'.alloc = m.alloc ∧ m'.pte = m.pte

lemma SameTables.setPte (h : SameTables m m') (p v : Nat) :
    SameTables (m.setPte p v) (m'.setPte p v) := by
  refine ⟨h.1, ?_⟩
  simp only [Mem.setPte, h.2]

lemma SameTables.allocPagetable (h : SameTables m m') {t : Nat}
    (hk : allocPagetable E m = some (t, m1)) :
    ∃ m1', Vm.allocPagetable E m' = some (t, m1') ∧ SameTables m1 m1' := by
  obtain ⟨⟨p, a⟩, hx, hk⟩ := bind_eq_some_iff.mp hk
  obtain ⟨⟨p', a'⟩, halloc, hx⟩ := bind_eq_some_iff.mp hx
  cases hx
  cases hk
  refine ⟨clearTable t { m' with alloc := a' }, ?_, rfl, ?_⟩
  · simp only [Vm.allocPagetable, kalloc, h.1, halloc, bind_eq_bind, bind_some]
  · simp only [clearTable, h.2]

lemma SameTables.walkStep (h : SameTables m m') (hw : walkStep E alloc p m = some (q, m1)) :
    ∃ m1', Vm.walkStep E alloc p m' = some (q, m1') ∧ SameTables m1 m1' := by
  unfold Vm.walkStep at hw ⊢
  rw [h.2]
  split_ifs at hw ⊢
  · cases hw
    exact ⟨m', rfl, h⟩
  · obtain ⟨⟨t, m2⟩, hk, hw⟩ := bind_eq_some_iff.mp hw
    obtain ⟨m2', hk', h2⟩ := h.allocPagetable hk
    rw [hk']
    simp only [bind_eq_bind, bind_some] at hw ⊢
    have h3 := h2.setPte p (pa2pte t)
    split_ifs at hw ⊢
    · cases hw
      rw [h3.2]
      have h4 := h3.setPte p ((m2.setPte p (pa2pte t)).pte p ||| pteV)
      rw [h4.2]
      exact ⟨_, rfl, h4⟩
    · cases hw
      exact ⟨_, rfl, h3⟩
  · cases hw
    exact ⟨m', rfl, h⟩

lemma SameTables.walkLoop {shifts : List Nat} {t : Nat} (h : SameTables m m')
    (hw : walkLoop E alloc vpn shifts t m = some (q, m1)) :
    ∃ m1', Vm.walkLoop E alloc vpn shifts t m' = some (q, m1') ∧ SameTables m1 m1' := by
  induction shifts generalizing t m m' with
  | nil =>
    cases hw
    exact ⟨m', rfl, h⟩
  | cons shift shifts ih =>
    obtain ⟨⟨next, m2⟩, hstep, hw⟩ := bind_eq_some_iff.mp hw
    obtain ⟨m2', hstep', h2⟩ := h.walkStep hstep
    simp only [Vm.walkLoop, hstep']
    cases next with
    | none =>
      cases hw
      exact ⟨m2', rfl, h2⟩
    | some t => exact ih h2 hw

/-- If the loop returns, so do the walks for every page. -/
lemma mappagesWalks_isSome (hE : E.Ok lo hi Inv Held) (nrMapped : Nat) (hint : nrMapped + n < 2 ^ 19)
    (hs : Shaped Inv Held m tab) (hr : tab r = some (rootPlace r))
    (he : entryAddr m.pte r (pageAt va nrMapped) = some pte)
    (hw : walk E r (wrap64 (va + nrMapped * pgSize)) true m1 = some (some pte, m2))
    (hsame : SameTables m m2)
    (hl : mappagesLoop E r va flags n nrMapped pte (wrap64 (pa + nrMapped * pgSize)) m = some m') :
    (mappagesWalks E r va pa flags n nrMapped m1).isSome := by
  induction n generalizing nrMapped pte m m1 m2 tab with
  | zero => rfl
  | succ n ih =>
    obtain ⟨vpn1, pte1, m3, tab1, hs1, hp1, hvpn1, he1, hnext, hl⟩ :=
      mappagesLoop_turn hE hs hr he hl
    have hpage : vpn1 = pageAt va (nrMapped + 1) := hvpn1
    rw [wrap64_next_frame] at hl
    rw [hpage] at he1
    simp only [mappagesWalks, hw]
    cases n with
    | zero => rfl
    | succ n =>
      -- the two memories differ in the counters only, and the next walk does not read these
      have hw1 := hnext (wrap64 (va + (nrMapped + 1) * pgSize)) (by
        rw [hpage, wrap64_page, pageAt_mod (by omega)])
      have hstored : SameTables (pageRefInc E (wrap64 (pa + nrMapped * pgSize)) (m.setPte pte
          (pa2pte (wrap64 (pa + nrMapped * pgSize)) ||| flags ||| pteV)))
          (m2.setPte pte (pa2pte (wrap64 (pa + nrMapped * pgSize)) ||| flags ||| pteV)) := by
        rw [pageRefInc_same]
        exact hsame.setPte _ _
      obtain ⟨m4, hw4, hsame4⟩ := hstored.walkLoop hw1
      exact ih (nrMapped + 1) (by omega) hs1 (hp1.le hr) he1 hw4 hsame4 hl

/-! ## Enough memory -/

lemma mappagesLoop_room (hE : E.Ok lo hi Inv Held) (hs : Shaped Inv Held m tab)
    (hr : tab r = some (rootPlace r)) (he : entryAddr m.pte r vpn = some pte)
    (hroom : Room E.al (2 * n) m.alloc) (nrMapped : Nat) :
    (mappagesLoop E r va flags n nrMapped pte pa m).isSome := by
  induction n generalizing nrMapped pte pa vpn m tab with
  | zero => rfl
  | succ n ih =>
    obtain ⟨hs1, _, _⟩ := setPte_mapPage E pa flags hs hr he
    have halloc : (pageRefInc E pa (m.setPte pte (pa2pte pa ||| flags ||| pteV))).alloc =
        m.alloc := by
      rw [pageRefInc_same]
      rfl
    rw [← halloc] at hroom
    simp only [mappagesLoop]
    split_ifs with hal
    · obtain ⟨q, m2, hw, hroom2⟩ := walk_room r (offsetVa va (nrMapped + 1)) (n := 2 * n) hroom
      obtain ⟨p2, tab2, rfl, hs2, hg2, he2⟩ := walk_alloc hE hs1 hr hw
      rw [hw]
      exact ih hs2 (hg2.le hr) he2 hroom2 _
    · rw [← hs.tables.entryAddr_congr hs1.tables hr] at he
      have hnext := next_entry hs1 hr he (Bool.eq_false_iff.mpr hal)
      exact ih hs1 hr hnext hroom.pred.pred _

lemma mappages_of_walk (hw : walk E r va true m = some (some p, m1)) :
    mappages E r va pa sz flags m =
      mappagesLoop E r va flags (mapCount va sz) 0 p pa m1 := by
  rw [mappages, hw, bind_eq_bind, bind_some]
  dsimp only
  rw [bind_eq_bind, bind_some]

/-- Two pages for every page to map, and two for the first walk, are enough. -/
lemma mappages_room (hE : E.Ok lo hi Inv Held) (hs : Shaped Inv Held m tab)
    (hr : tab r = some (rootPlace r)) (hroom : Room E.al (2 * mapCount va sz + 2) m.alloc) :
    ∃ m', mappages E r va pa sz flags m = some m' := by
  obtain ⟨q, m1, hw, hroom1⟩ := walk_room r va hroom
  obtain ⟨p, tab1, rfl, hs1, hg1, he⟩ := walk_alloc hE hs hr hw
  rw [mappages_of_walk hw, ← isSome_iff_exists]
  exact mappagesLoop_room hE hs1 (hg1.le hr) he hroom1 0

/-! ## The pointer against walks -/

/-- The pages of fewer than `2 ^ 27` turns are different. -/
lemma page_ne {j : Nat} (hij : i < j) (hj : j < 2 ^ 27) :
    (vpn + j) % 2 ^ 27 ≠ (vpn + i) % 2 ^ 27 := by
  omega

/-- For fewer than `2 ^ 19` pages, the pointer of `mappages` leads to the same table as a walk for
every page, and no page outside of the range changes. -/
theorem mappages_eq_walks (hE : E.Ok lo hi Inv Held) (hs : Shaped Inv Held m tab)
    (hr : tab r = some (rootPlace r)) (hpa : pa < 2 ^ 64) (hint : mapCount va sz < 2 ^ 19) :
    (Room E.al (2 * mapCount va sz + 2) m.alloc →
      ∃ m', mappages E r va pa sz flags m = some m') ∧
    ∀ m', mappages E r va pa sz flags m = some m' →
      ∃ m'', mappagesWalks E r va pa flags (mapCount va sz) 0 m = some m'' ∧
        (∀ vpn, leaf m' r vpn = leaf m'' r vpn) ∧
        ∀ vpn, (∀ i < mapCount va sz, vpn % 2 ^ 27 ≠ (va / pgSize + i) % 2 ^ 27) →
          leaf m' r vpn = leaf m r vpn := by
  refine ⟨mappages_room hE hs hr, ?_⟩
  intro m' hm
  have hstored : Stored r flags (mapCount va sz) (fun i => va >>> 12 + i)
      (fun i => wrap64 (pa + i * pgSize)) m m' :=
    (mappages_stored hE hs hr hpa hm).congr fun i hi => pageAt_mod (by omega)
  obtain ⟨p, m1, tab1, hw, hs1, hg1, he, hl⟩ := mappages_cases hE hs hr hm
  have hpa0 : wrap64 (pa + 0 * pgSize) = pa := by
    rw [zero_mul, add_zero, wrap64_of_lt hpa]
  have hw0 : walk E r (wrap64 (va + 0 * pgSize)) true m = some (some p, m1) := by
    rw [walk_mod (wrap64_page va 0)]
    exact hw
  rw [← hpa0] at hl
  obtain ⟨m'', hwalks⟩ := isSome_iff_exists.mp (mappagesWalks_isSome hE 0 (by omega)
    hs1 (hg1.le hr) he hw0 ⟨rfl, rfl⟩ hl)
  have hstored' : Stored r flags (mapCount va sz) (fun i => va >>> 12 + i)
      (fun i => wrap64 (pa + i * pgSize)) m m'' := by
    have h := mappagesWalks_stored hE 0 hs hr hwalks
    simp only [zero_add] at h
    exact h.congr fun i _ => wrap64_page va i
  refine ⟨m'', hwalks, hstored.leaf_eq hstored' fun i j hij hj => page_ne hij (by omega), ?_⟩
  intro vpn hout
  have hpage : va >>> 12 = va / pgSize := Nat.shiftRight_eq_div_pow va 12
  refine hstored.miss vpn fun i hi => ?_
  rw [hpage]
  exact hout i hi

/-! ## The whole range -/

/-- The last page of the range is left out by `PGROUNDUP(va + sz - 1)`, or it is looked up with an
offset that has left the `int`. -/
def LastPageLost (va sz : Nat) : Prop :=
  (va + sz - 1) % pgSize = 0 ∨ (2 ^ 31 < va % pgSize + sz - 1 ∧ va / pgSize % 512 = 0)

instance (va sz : Nat) : Decidable (LastPageLost va sz) := by
  unfold LastPageLost
  infer_instance

lemma mapCount_eq (hva : va < 2 ^ 64) (hpos : 0 < sz) (hsz : sz < 2 ^ 31) :
    mapCount va sz = (va % 4096 + sz - 1 + 4095) / 4096 := by
  have hlast : wrap64 (va + sz + (2 ^ 64 - 1)) = (va + sz - 1) % 2 ^ 64 := by
    unfold wrap64
    omega
  have hup : pgRoundUp ((va + sz - 1) % 2 ^ 64) =
      ((va + sz - 1) % 2 ^ 64 + 4095) % 2 ^ 64 / 4096 * 4096 := by
    rw [pgRoundUp, and_pgMask (wrap64_lt _)]
    rfl
  have hdiff : wrap64 (((va + sz - 1) % 2 ^ 64 + 4095) % 2 ^ 64 / 4096 * 4096 +
      (2 ^ 64 - va / 4096 * 4096)) >>> pgShift = (va % 4096 + sz - 1 + 4095) / 4096 := by
    unfold wrap64 pgShift
    omega
  simp only [mapCount, pgRoundDown_eq hva, hlast, hup, hdiff]
  exact toInt32_toNat_of_lt (by omega)

lemma pteFlags_entry (h : flags < 2 ^ 10) :
    pteFlags (pa2pte f ||| flags ||| pteV) = flags ||| pteV := by
  have hlt : flags ||| pteV < 2 ^ 10 := Nat.or_lt_two_pow h (by decide)
  have hmod : pteFlags (pa2pte f ||| flags ||| pteV) = (pa2pte f ||| flags ||| pteV) % 2 ^ 10 :=
    Nat.and_two_pow_sub_one_eq_mod _ 10
  rw [hmod, Nat.or_assoc, pa2pte_or f hlt]
  omega

/-- An address whose page has the entry that `mappages` writes. -/
lemma translate_entry (hf : f < 2 ^ 64) (hflags : flags < 2 ^ 10)
    (h : leaf m r (x >>> 12) = pa2pte f ||| flags ||| pteV) :
    translate m r x = some (frameOf f + x % pgSize, flags ||| pteV) := by
  have hmaps := mapsFrame_entry (f := frameOf f) hf hflags
  rw [decide_eq_true rfl, mapsFrame, Bool.and_eq_true] at hmaps
  simp only [translate, h, hmaps.1, if_true, pte2pa_entry hf hflags, pteFlags_entry hflags]

lemma translate_flags_lt (h : translate m r x = some (y, flags)) :
    flags < 2 ^ 10 := by
  simp only [translate] at h
  split_ifs at h
  cases h
  exact pteFlags_lt _

/-- Two addresses of one page. -/
lemma translate_same_page {x' : Nat} (hpage : (x >>> 12) % 2 ^ 27 = (x' >>> 12) % 2 ^ 27)
    (h : translate m r x = some (y, f)) :
    translate m r x' = some (y - x % pgSize + x' % pgSize, f) := by
  simp only [translate, leaf_eq_of_mod_eq m r hpage] at h ⊢
  split_ifs at h ⊢ with hv
  cases h
  simp only [Nat.add_sub_cancel]

lemma translate_congr (h : leaf m' r (x >>> 12) = leaf m r (x >>> 12)) :
    translate m' r x = translate m r x := by
  simp only [translate, h]

/-- The pages of the range that are mapped. -/
lemma mappages_hit (hE : E.Ok lo hi Inv Held) (hs : Shaped Inv Held m tab)
    (hr : tab r = some (rootPlace r)) (hpa : pa < 2 ^ 64) (hn : mapCount va sz ≤ 2 ^ 19 + 1)
    (hm : mappages E r va pa sz flags m = some m') (hi : i < mapCount va sz)
    (hint : i < 2 ^ 19 ∨ ¬ 512 ∣ va >>> 12) :
    leaf m' r (va >>> 12 + i) = pa2pte (wrap64 (pa + i * pgSize)) ||| flags ||| pteV := by
  have hstored := mappages_stored hE hs hr hpa hm
  have hlast := pageAt_two_pow va
  generalize mapCount va sz = n at *
  have hpage : pageAt va i % 2 ^ 27 = (va >>> 12 + i) % 2 ^ 27 := by
    by_cases hlt : i < 2 ^ 19
    · exact pageAt_mod hlt
    · have hi' : i = 2 ^ 19 := by omega
      rw [hi', hlast, if_neg (hint.resolve_left hlt)]
  rw [← leaf_eq_of_mod_eq m' r hpage]
  refine hstored.hit i hi fun j hij hj => ?_
  rw [hpage]
  by_cases hlt : j < 2 ^ 19
  · rw [pageAt_mod hlt]
    exact page_ne hij (by omega)
  · have hj' : j = 2 ^ 19 := by omega
    rw [hj', hlast]
    split_ifs <;> omega

/-- The page behind the mapped ones, and the page that the overflow skips. -/
lemma mappages_miss (hE : E.Ok lo hi Inv Held) (hs : Shaped Inv Held m tab)
    (hr : tab r = some (rootPlace r)) (hpa : pa < 2 ^ 64)
    (hm : mappages E r va pa sz flags m = some m') {k : Nat}
    (hk : (k = mapCount va sz ∧ k ≤ 2 ^ 19) ∨ (k = 2 ^ 19 ∧ mapCount va sz = 2 ^ 19 + 1 ∧ 512 ∣ va >>> 12)) :
    leaf m' r (va >>> 12 + k) = leaf m r (va >>> 12 + k) := by
  have hstored := mappages_stored hE hs hr hpa hm
  have hlast := pageAt_two_pow va
  generalize mapCount va sz = n at *
  refine hstored.miss _ fun j hj => ?_
  by_cases hlt : j < 2 ^ 19
  · rw [pageAt_mod hlt]
    exact page_ne (by omega) (by omega)
  · obtain ⟨hk', hn', hdvd⟩ := hk.resolve_left (by omega)
    have hj' : j = 2 ^ 19 := by omega
    rw [hj', hlast, if_pos hdvd]
    omega

/-- The number of the page of an address, counted from the start of the range. -/
lemma range_page {va : Nat} (hx : va ≤ x) :
    (wrap64 x >>> 12) % 2 ^ 27 = (va >>> 12 + (va % 4096 + (x - va)) / 4096) % 2 ^ 27 := by
  unfold wrap64
  omega

/-- The frame of an address of the range, and its offset. -/
lemma frame_add_offset {va pa : Nat} (hoff : va % 4096 = pa % 4096) (hx : va ≤ x) :
    frameOf (wrap64 (pa + (va % 4096 + (x - va)) / 4096 * pgSize)) + wrap64 x % pgSize =
      wrap64 (pa + (x - va)) := by
  unfold frameOf wrap64 pgSize
  omega

/-- Going back from the last address of the range to another one of its page. -/
lemma last_sub_offset {va pa sz : Nat} (hoff : va % 4096 = pa % 4096) (hx : va ≤ x)
    (hxlt : x < va + sz) (hpage : (va % 4096 + (x - va)) / 4096 = (va % 4096 + sz - 1) / 4096) :
    wrap64 (pa + (sz - 1)) - wrap64 (va + sz - 1) % pgSize + wrap64 x % pgSize =
      wrap64 (pa + (x - va)) := by
  unfold wrap64 pgSize
  omega

/-- Which page is lost, by its number. -/
lemma LastPageLost.cases (h : LastPageLost va sz) (hpos : 0 < sz) (hsz : sz < 2 ^ 31) :
    ((va % 4096 + sz - 1) / 4096 = (va % 4096 + sz - 1 + 4095) / 4096 ∧
      (va % 4096 + sz - 1) / 4096 ≤ 2 ^ 19) ∨
    ((va % 4096 + sz - 1) / 4096 = 2 ^ 19 ∧ (va % 4096 + sz - 1 + 4095) / 4096 = 2 ^ 19 + 1 ∧
      512 ∣ va / 4096) := by
  unfold LastPageLost pgSize at h
  rcases h with h | h
  · exact .inl (by omega)
  · exact .inr (by omega)

/-- The other pages of the range are among the mapped ones, within reach of the `int`. -/
lemma mapped_of_not_lost (hi : i ≤ (va % 4096 + sz - 1) / 4096) (hpos : 0 < sz)
    (hsz : sz < 2 ^ 31) (h : ¬ (LastPageLost va sz ∧ i = (va % 4096 + sz - 1) / 4096)) :
    i < (va % 4096 + sz - 1 + 4095) / 4096 ∧ (i < 2 ^ 19 ∨ ¬ 512 ∣ va / 4096) := by
  unfold LastPageLost pgSize at h
  omega

/-- With enough memory `mappages` returns. Then every address of the range goes where it should,
exactly if the last page is not lost or was mapped like this before. -/
theorem mappages_covers_iff (hE : E.Ok lo hi Inv Held) (hs : Shaped Inv Held m tab)
    (hr : tab r = some (rootPlace r)) (hva : va < 2 ^ 64) (hpa : pa < 2 ^ 64)
    (hoff : va % pgSize = pa % pgSize) (hpos : 0 < sz) (hsz : sz < 2 ^ 31) :
    (Room E.al (2 * mapCount va sz + 2) m.alloc →
      ∃ m', mappages E r va pa sz flags m = some m') ∧
    ∀ m', mappages E r va pa sz flags m = some m' →
      ((∀ x, va ≤ x → x < va + sz →
        translate m' r (wrap64 x) = some (wrap64 (pa + (x - va)), flags ||| pteV)) ↔
      flags < 2 ^ 10 ∧ (LastPageLost va sz → translate m r (wrap64 (va + sz - 1)) =
        some (wrap64 (pa + (sz - 1)), flags ||| pteV))) := by
  refine ⟨mappages_room hE hs hr, fun m' hm => ?_⟩
  have hcount := mapCount_eq hva hpos hsz
  have hvpn : va >>> 12 = va / 4096 := Nat.shiftRight_eq_div_pow va 12
  have hle : va ≤ va + sz - 1 := by omega
  have hlast := range_page hle
  have hsub : va % 4096 + (va + sz - 1 - va) = va % 4096 + sz - 1 := by omega
  rw [hsub] at hlast
  -- the entry of the last page is the old one where the page is lost
  have hkept : LastPageLost va sz → translate m' r (wrap64 (va + sz - 1)) =
      translate m r (wrap64 (va + sz - 1)) := by
    intro hl
    refine translate_congr ?_
    rw [leaf_eq_of_mod_eq m' r hlast, leaf_eq_of_mod_eq m r hlast]
    refine mappages_miss hE hs hr hpa hm ?_
    rw [hcount, hvpn]
    exact hl.cases hpos hsz
  constructor
  · intro hall
    refine ⟨?_, fun hl => ?_⟩
    · have hflags := translate_flags_lt (hall va le_rfl (by omega))
      exact lt_of_le_of_lt Nat.left_le_or hflags
    · have hend : va + sz - 1 - va = sz - 1 := by omega
      rw [← hkept hl, hall _ hle (by omega), hend]
  · rintro ⟨hflags, hold⟩ x hx hxlt
    have hpage := range_page hx
    by_cases hmissed : LastPageLost va sz ∧
        (va % 4096 + (x - va)) / 4096 = (va % 4096 + sz - 1) / 4096
    · -- the page of the last address, which is mapped from before
      obtain ⟨hl, hij⟩ := hmissed
      rw [hij, ← hlast] at hpage
      rw [translate_same_page hpage.symm ((hkept hl).trans (hold hl)),
        last_sub_offset hoff hx hxlt hij]
    · have hle' : (va % 4096 + (x - va)) / 4096 ≤ (va % 4096 + sz - 1) / 4096 :=
        Nat.div_le_div_right (by omega)
      obtain ⟨hlt, hint⟩ := mapped_of_not_lost hle' hpos hsz hmissed
      have hentry := mappages_hit hE hs hr hpa (by rw [hcount]; omega) hm
        (by rw [hcount]; exact hlt) (by rw [hvpn]; exact hint)
      rw [← leaf_eq_of_mod_eq m' r hpage] at hentry
      rw [translate_entry (wrap64_lt _) hflags hentry, frame_add_offset hoff hx]

end

/-- Two pages that lie on both sides of the end of a leaf table. -/
theorem mappages_eq_walks_across_tables :
    ∃ E m₀ r m m' m'', bootSmall = some (E, m₀) ∧ allocPagetable E m₀ = some (r, m) ∧
      mapCount 0x1ff000 0x2000 = 2 ∧
      mappages E r 0x1ff000 0x80200000 0x2000 (pteU ||| pteRw) m = some m' ∧
      mappagesWalks E r 0x1ff000 0x80200000 (pteU ||| pteRw) 2 0 m = some m'' ∧
      (∀ vpn, leaf m' r vpn = leaf m'' r vpn) ∧
      ∀ vpn, (∀ i < 2, vpn % 2 ^ 27 ≠ (0x1ff000 / pgSize + i) % 2 ^ 27) →
        leaf m' r vpn = leaf m r vpn := by
  have hcount : mapCount 0x1ff000 0x2000 = 2 := by decide
  have hrun : (bootSmall.bind fun x => (allocPagetable x.1 x.2).bind fun r =>
      (mappages x.1 r.1 0x1ff000 0x80200000 0x2000 (pteU ||| pteRw) r.2).map fun _ => true) =
      some true := by
    decide +kernel
  obtain ⟨⟨E, m₀⟩, hboot, hrun⟩ := bind_eq_some_iff.mp hrun
  obtain ⟨⟨r, m⟩, hr, hrun⟩ := bind_eq_some_iff.mp hrun
  obtain ⟨m', hmap, _⟩ := map_eq_some_iff.mp hrun
  obtain ⟨hE, hs⟩ := bootSmall_ok hboot
  obtain ⟨tab, hs1, _, hr1, _⟩ := allocPagetable_spec hE hs hr
  obtain ⟨m'', hwalks, hleaf, hout⟩ := (mappages_eq_walks hE hs1 hr1 (by decide)
    (by rw [hcount]; decide)).2 m' hmap
  exact ⟨E, m₀, r, m, m', m'', hboot, hr, hcount, hmap, hwalks, hleaf, hout⟩

/-- A range that ends in the middle of a page. -/
theorem mappages_covers_middle :
    ∃ E m₀ r m m', bootSmall = some (E, m₀) ∧ allocPagetable E m₀ = some (r, m) ∧
      mappages E r 0x1010 0x80200010 0x1800 (pteU ||| pteRw) m = some m' ∧
      ¬ LastPageLost 0x1010 0x1800 ∧
      ∀ x, 0x1010 ≤ x → x < 0x1010 + 0x1800 → translate m' r (wrap64 x) =
        some (wrap64 (0x80200010 + (x - 0x1010)), pteU ||| pteRw ||| pteV) := by
  have hrun : (bootSmall.bind fun x => (allocPagetable x.1 x.2).bind fun r =>
      (mappages x.1 r.1 0x1010 0x80200010 0x1800 (pteU ||| pteRw) r.2).map fun _ => true) =
      some true := by
    decide +kernel
  obtain ⟨⟨E, m₀⟩, hboot, hrun⟩ := bind_eq_some_iff.mp hrun
  obtain ⟨⟨r, m⟩, hr, hrun⟩ := bind_eq_some_iff.mp hrun
  obtain ⟨m', hmap, _⟩ := map_eq_some_iff.mp hrun
  obtain ⟨hE, hs⟩ := bootSmall_ok hboot
  obtain ⟨tab, hs1, _, hr1, _⟩ := allocPagetable_spec hE hs hr
  have hlast : ¬ LastPageLost 0x1010 0x1800 := by decide
  refine ⟨E, m₀, r, m, m', hboot, hr, hmap, hlast, ?_⟩
  exact ((mappages_covers_iff hE hs1 hr1 (by decide) (by decide) (by decide) (by decide)
    (by decide)).2 m' hmap).mpr ⟨by decide, fun hl => absurd hl hlast⟩

/-- A range of one byte at the start of a page, as a segment with `p_memsz` one: no page is
mapped. -/
theorem mappages_last_page_lost :
    ∃ E m₀ r m m', bootSmall = some (E, m₀) ∧ allocPagetable E m₀ = some (r, m) ∧
      mappages E r 0x1000 0x80200000 1 (pteU ||| pteRw) m = some m' ∧
      translate m' r 0x1000 = none := by
  have hrun : (bootSmall.bind fun x => (allocPagetable x.1 x.2).bind fun r =>
      (mappages x.1 r.1 0x1000 0x80200000 1 (pteU ||| pteRw) r.2).map fun m' =>
        translate m' r.1 0x1000) = some none := by
    decide +kernel
  obtain ⟨⟨E, m₀⟩, hboot, hrun⟩ := bind_eq_some_iff.mp hrun
  obtain ⟨⟨r, m⟩, hr, hrun⟩ := bind_eq_some_iff.mp hrun
  obtain ⟨m', hmap, hnone⟩ := map_eq_some_iff.mp hrun
  exact ⟨E, m₀, r, m, m', hboot, hr, hmap, hnone⟩

end Hana.Vm
