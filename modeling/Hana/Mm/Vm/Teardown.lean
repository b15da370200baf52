import Hana.Lib.Loop
import Hana.Mm.Vm.Map

/-!
# Taking a page table down

`freewalk` visits the tables below a root and frees each of them after the tables below it.
`Below tab r l i u` says that the table at `u` is the one at level `l` with number `i` below
the root `r`, or hangs below that one; the visit of a table frees exactly the tables that
are below it, each once. The frames that the leaf entries map are not looked at.
-/

namespace Hana.Vm

open Lib List Option

variable {A : Type}

/-- The table at `u` is the one with number `i` at level `l`, or is below it. -/
def Below (tab : Nat → Option Place) (r : Nat) : (l i u : Nat) → Prop
  | 0, i, u => tab u = some ⟨r, 0, i⟩
  | l + 1, i, u => tab u = some ⟨r, l + 1, i⟩ ∨ ∃ j < 512, Below tab r l (512 * i + j) u

/-- There is a table at `u`. -/
def TableAt (tab : Nat → Option Place) (u : Nat) : Prop := ∃ pl, tab u = some pl

/-- The pages `freed`, and no others, are passed to `kfree`; the tables in `Keep` that are not freed
keep their entries. -/
structure Released (Inv : A → Prop) (Held : A → Nat → Nat → Prop) (Keep : Nat → Prop)
    (freed : List Nat) (m m' : Mem A) : Prop where
  kfreed : m'.kfreed = m.kfreed ++ freed
  alloc : Inv m'.alloc
  held : ∀ q k, Held m'.alloc q k ↔ Held m.alloc q k ∧ ¬ (k = 1 ∧ q ∈ freed)
  pte : ∀ u, Keep u → u ∉ freed → ∀ k < 512, m'.pte (u + 8 * k) = m.pte (u + 8 * k)

/-! ## What is read and freed -/

/-- The accesses of `freewalk`: it reads the entry `i` of the table at `t`, or it frees the table. -/
inductive Event where
  | read (t i pte : Nat)
  | free (t : Nat)
deriving DecidableEq, Repr

def Event.freed : Event → Option Nat
  | .read _ _ _ => none
  | .free t => some t

/-- `freewalk` with a log of its accesses; `free` stands for `kfree`. -/
def freewalkLog (free : Nat → Mem A → Option (Mem A)) :
    (n pgtbl : Nat) → Mem A × List Event → Option (Mem A × List Event)
  | 0, _, x => some x
  | n + 1, pgtbl, x => do
    let x ← (List.range 512).foldlM (fun x i => do
      let pte := x.1.pte (pgtbl + 8 * i)
      let x := (x.1, x.2 ++ [.read pgtbl i pte])
      let x ← (if pte2pa pte ≠ 0 then freewalkLog free n (pte2pa pte) x else some x)
      some (x.1.setPte (pgtbl + 8 * i) 0, x.2)) x
    let m ← free pgtbl x.1
    some (m, x.2 ++ [.free pgtbl])

/-- A way to free pages: it does to the allocator what `kfree` does, and it leaves the words of the
pages in `Safe` alone. -/
structure Frees (E : Env A) (Inv : A → Prop) (Held : A → Nat → Nat → Prop) (Safe : A → Nat → Prop)
    (free : Nat → Mem A → Option (Mem A)) : Prop where
  free : ∀ {t m m₁}, Inv m.alloc → Held m.alloc t 1 → kfree E t m = some m₁ →
    ∃ m', free t m = some m' ∧ m'.alloc = m₁.alloc ∧ m'.kfreed = m₁.kfreed ∧
    ∀ u, Safe m'.alloc u → ∀ k < 512, m'.pte (u + 8 * k) = m.pte (u + 8 * k)
  safe : ∀ {a a' u}, (∀ q k, Held a' q k → Held a q k) → Safe a' u → Safe a u

/-- A log of the visit of tables with the entries `m₀`: the pages `freed` are freed in this order, and
what is read is an entry of one of them, or of a table in `Open`, before it is freed. -/
structure Logged (m₀ : Mem A) (Open : Nat → Prop) (freed : List Nat) (log : List Event) : Prop where
  frees : log.filterMap Event.freed = freed
  order : log.Pairwise fun a b => ∀ t i pte, a = .free t → b ≠ .read t i pte
  reads : ∀ t i pte, .read t i pte ∈ log →
    (Open t ∨ t ∈ freed) ∧ i < 512 ∧ pte = m₀.pte (t + 8 * i)

variable {pl : Place} {log : List Event} {Open' : Nat → Prop}

section

variable {Inv : A → Prop} {Held : A → Nat → Nat → Prop} {lo hi : Nat} {E : Env A}
variable {m m₁ m' : Mem A} {tab : Nat → Option Place} {r l i t u : Nat} {freed freed' : List Nat}

variable {Keep Open : Nat → Prop} {m₀ : Mem A} {Safe : A → Nat → Prop}

lemma Released.trans (h : Released Inv Held Keep freed m m₁)
    (h' : Released Inv Held Keep freed' m₁ m') :
    Released Inv Held Keep (freed ++ freed') m m' := by
  refine ⟨?_, h'.alloc, ?_, ?_⟩
  · rw [h'.kfreed, h.kfreed, append_assoc]
  · intro q k
    rw [h'.held, h.held, mem_append]
    tauto
  · intro u hu hno k hk
    rw [mem_append, not_or] at hno
    rw [h'.pte u hu hno.2 k hk, h.pte u hu hno.1 k hk]

lemma Released.refl (halloc : Inv m.alloc) :
    Released Inv Held Keep [] m m :=
  ⟨(append_nil _).symm, halloc, by simp, fun _ _ _ _ _ => rfl⟩

lemma Released.mono {Keep' : Nat → Prop} (h : Released Inv Held Keep freed m m')
    (hk : ∀ u, Keep' u → u ∉ freed → Keep u) : Released Inv Held Keep' freed m m' :=
  ⟨h.kfreed, h.alloc, h.held, fun u hu hno => h.pte u (hk u hu hno) hno⟩

lemma Below.place (h : Below tab r l i u) : ∃ l' i', l' ≤ l ∧ tab u = some ⟨r, l', i'⟩ := by
  induction l generalizing i with
  | zero => exact ⟨0, i, le_rfl, h⟩
  | succ l ih =>
    rcases h with h | ⟨j, _, h⟩
    · exact ⟨l + 1, i, le_rfl, h⟩
    · obtain ⟨l', i', hle, htab⟩ := ih h
      exact ⟨l', i', Nat.le_succ_of_le hle, htab⟩

/-- A table is below one table of each level at most. -/
lemma Below.unique {i' : Nat} (h : Below tab r l i u) (h' : Below tab r l i' u) : i = i' := by
  induction l generalizing i i' with
  | zero =>
    rw [Below] at h h'
    rw [h] at h'
    cases h'
    rfl
  | succ l ih =>
    have hlow : ∀ {i j}, tab u = some ⟨r, l + 1, i⟩ → ¬ Below tab r l j u := by
      intro i j hu hb
      obtain ⟨l', i', hle, hu'⟩ := hb.place
      rw [hu] at hu'
      simp only [some.injEq, Place.mk.injEq] at hu'
      omega
    rcases h with h | ⟨j, hj, h⟩
    · rcases h' with h' | ⟨j', _, h'⟩
      · rw [h] at h'
        cases h'
        rfl
      · exact absurd h' (hlow h)
    · rcases h' with h' | ⟨j', hj', h'⟩
      · exact absurd h (hlow h')
      · have heq := ih h h'
        omega

/-- Whatever is below a place has a table at that place above it. -/
lemma Below.top (ht : Tables m tab) (hl : l ≤ 2) (h : Below tab r l i u) :
    ∃ t, tab t = some ⟨r, l, i⟩ := by
  induction l generalizing i with
  | zero => exact ⟨u, h⟩
  | succ l ih =>
    rcases h with h | ⟨j, hj, h⟩
    · exact ⟨u, h⟩
    · obtain ⟨t, htab⟩ := ih (by omega) h
      obtain ⟨t', ht'⟩ := ht.parent htab (by omega)
      have hdiv : (512 * i + j) / 512 = i := by omega
      rw [hdiv] at ht'
      exact ⟨t', ht'⟩

/-- All tables of a root are below it. -/
lemma Tables.below_root (ht : Tables m tab) (hu : tab u = some pl) :
    Below tab pl.root 2 0 u := by
  have hone : ∀ {t i}, tab t = some ⟨pl.root, 1, i⟩ → i < 512 := by
    intro t i h
    obtain ⟨t', ht'⟩ := ht.parent h (by decide)
    have hroot := (ht.root ht').2
    omega
  obtain ⟨r, l, i⟩ := pl
  have hlevel : l ≤ 2 := ht.level hu
  have hcases : l = 0 ∨ l = 1 ∨ l = 2 := by omega
  rcases hcases with rfl | rfl | rfl
  · obtain ⟨t', ht'⟩ := ht.parent hu (by decide)
    refine .inr ⟨i / 512, hone ht', .inr ⟨i % 512, Nat.mod_lt _ (by decide), ?_⟩⟩
    have hidx : 512 * (512 * 0 + i / 512) + i % 512 = i := by omega
    rw [hidx]
    exact hu
  · refine .inr ⟨i, hone hu, .inl ?_⟩
    have hidx : 512 * 0 + i = i := by omega
    rw [hidx]
    exact hu
  · refine .inl ?_
    rw [← (ht.root hu).2]
    exact hu

lemma kfree_frees : Frees E Inv Held (fun _ _ => True) (kfree E) where
  free {t m m₁} _ _ h := by
    refine ⟨m₁, h, rfl, rfl, fun _ _ _ _ => ?_⟩
    obtain ⟨a, -, heq⟩ := bind_eq_some_iff.mp h
    cases heq
    rfl
  safe _ _ := trivial

/-- The log changes nothing. -/
lemma freewalk_eq_map (n t : Nat) (x : Mem A × List Event) :
    freewalk E n t x.1 = (freewalkLog (kfree E) n t x).map Prod.fst := by
  induction n generalizing t x with
  | zero => rfl
  | succ n ih =>
    -- the turn for one entry, without the log and with it
    have hloop := foldlM_project (σ := Mem A) (τ := Mem A × List Event)
      (f := fun m i => do
        let m' ← (if pte2pa (m.pte (t + 8 * i)) ≠ 0 then
          freewalk E n (pte2pa (m.pte (t + 8 * i))) m else some m)
        some (m'.setPte (t + 8 * i) 0))
      (g := fun y i => do
        let z := (y.1, y.2 ++ [.read t i (y.1.pte (t + 8 * i))])
        let z ← (if pte2pa (y.1.pte (t + 8 * i)) ≠ 0 then
          freewalkLog (kfree E) n (pte2pa (y.1.pte (t + 8 * i))) z else some z)
        some (z.1.setPte (t + 8 * i) 0, z.2))
      Prod.fst (by
        intro y i
        simp only
        split_ifs with hchild
        · rw [ih (pte2pa (y.1.pte (t + 8 * i))) (y.1, y.2 ++ [.read t i (y.1.pte (t + 8 * i))])]
          cases freewalkLog (kfree E) n _ _ with
          | none => rfl
          | some z => rfl
        · rfl) (range 512) x
    rw [freewalk, freewalkLog]
    simp only [bind_eq_bind] at hloop ⊢
    rw [hloop]
    generalize foldlM (m := Option) _ x (range 512) = out
    cases out with
    | none => rfl
    | some y =>
      simp only [map_some, bind_some]
      cases kfree E t y.1 with
      | none => rfl
      | some m => rfl

/-! ## Logs -/

lemma Logged.mem_iff (h : Logged m₀ Open freed log) :
    .free u ∈ log ↔ u ∈ freed := by
  rw [← h.frees, mem_filterMap]
  constructor
  · intro hin
    exact ⟨_, hin, rfl⟩
  · rintro ⟨e, hin, he⟩
    cases e with
    | read t i pte => cases he
    | free t =>
      cases he
      exact hin

lemma Logged.nil (m₀ : Mem A) (Open : Nat → Prop) : Logged m₀ Open [] [] :=
  ⟨rfl, List.Pairwise.nil, fun _ _ _ hin => absurd hin not_mem_nil⟩

lemma Logged.read {k : Nat} (ht : Open t) (hk : k < 512) :
    Logged m₀ Open [] [.read t k (m₀.pte (t + 8 * k))] := by
  refine ⟨rfl, pairwise_singleton _ _, fun t' i pte hin => ?_⟩
  cases mem_singleton.mp hin
  exact ⟨.inl ht, hk, rfl⟩

lemma Logged.free (m₀ : Mem A) (t : Nat) : Logged m₀ (fun _ => False) [t] [.free t] := by
  refine ⟨rfl, pairwise_singleton _ _, fun t' i pte hin => ?_⟩
  cases mem_singleton.mp hin

/-- A visit after another one: the second reads nothing that the first has freed. -/
lemma Logged.append {log' : List Event} (h : Logged m₀ Open freed log)
    (h' : Logged m₀ Open' freed' log') (hlater : ∀ u ∈ freed, ¬ Open' u ∧ u ∉ freed') :
    Logged m₀ (fun u => Open u ∨ Open' u) (freed ++ freed') (log ++ log') := by
  refine ⟨?_, pairwise_append.mpr ⟨h.order, h'.order, ?_⟩, ?_⟩
  · rw [filterMap_append, h.frees, h'.frees]
  · rintro a ha b hb t i pte rfl rfl
    obtain ⟨hopen, hno⟩ := hlater t (h.mem_iff.mp ha)
    exact (h'.reads t i pte hb).1.elim hopen hno
  · intro t i pte hin
    rcases mem_append.mp hin with hin | hin
    · obtain ⟨hwhere, hread⟩ := h.reads t i pte hin
      exact ⟨hwhere.imp .inl (mem_append_left _), hread⟩
    · obtain ⟨hwhere, hread⟩ := h'.reads t i pte hin
      exact ⟨hwhere.imp .inr (mem_append_right _), hread⟩

lemma Logged.mono (h : Logged m₀ Open freed log) (ho : ∀ u, Open u → Open' u ∨ u ∈ freed) :
    Logged m₀ Open' freed log := by
  refine ⟨h.frees, h.order, fun t i pte hin => ?_⟩
  obtain ⟨hwhere, hread⟩ := h.reads t i pte hin
  exact ⟨hwhere.elim (ho t) .inr, hread⟩

/-! ## Visits -/

/-- Releases one after the other, with a frame that depends on what is allocated in the end. -/
lemma Frees.trans {free : Nat → Mem A → Option (Mem A)} (hfree : Frees E Inv Held Safe free)
    (h : Released Inv Held (fun u => Keep u ∧ Safe m₁.alloc u) freed m m₁)
    (h' : Released Inv Held (fun u => Keep u ∧ Safe m'.alloc u) freed' m₁ m') :
    Released Inv Held (fun u => Keep u ∧ Safe m'.alloc u) (freed ++ freed') m m' := by
  refine (h.mono fun u hu _ => ⟨hu.1, hfree.safe (fun q k hq => ?_) hu.2⟩).trans h'
  exact ((h'.held q k).mp hq).1

/-- A table is freed. -/
lemma Frees.released {free : Nat → Mem A → Option (Mem A)} (hfree : Frees E Inv Held Safe free)
    (hE : E.Ok lo hi Inv Held) (halloc : Inv m.alloc) (hheld : Held m.alloc t 1) (Keep : Nat → Prop) :
    ∃ m', free t m = some m' ∧ Released Inv Held (fun u => Keep u ∧ Safe m'.alloc u) [t] m m' := by
  obtain ⟨a, ha, hinv, hheld'⟩ := hE.lawful.kfree_spec halloc hheld
  have hk : kfree E t m = some { m with alloc := a, kfreed := m.kfreed ++ [t] } := by
    simp only [kfree, ha, bind_eq_bind, bind_some]
  obtain ⟨m', hm', halloc', hkfreed, hpte⟩ := hfree.free halloc hheld hk
  refine ⟨m', hm', hkfreed, halloc' ▸ hinv, fun q k => ?_, fun u hu _ => hpte u hu.2⟩
  rw [halloc', hheld', mem_singleton]
  tauto

/-- Clearing an entry of the table at `t`. -/
lemma setPte_released (ht : Tables m₀ tab) (htab : TableAt tab t) {k : Nat} (hk : k < 512)
    (halloc : Inv m.alloc) :
    Released Inv Held (fun u => TableAt tab u ∧ u ≠ t) [] m (m.setPte (t + 8 * k) 0) := by
  obtain ⟨pl, htab⟩ := htab
  refine ⟨(append_nil _).symm, halloc, ?_, ?_⟩
  · intro q k
    simp only [not_mem_nil, and_false, not_false_eq_true, and_true]
    rfl
  · rintro u ⟨⟨pl', hu⟩, hne⟩ _ k' hk'
    refine Function.update_of_ne (fun he => hne ?_) _ _
    exact (slot_inj (ht.dvd hu) (ht.dvd htab) hk' hk he).1

/-- The visit of one table, when the visit of its `j`th entry frees the tables `Sub j`. -/
lemma freewalkLog_table (hE : E.Ok lo hi Inv Held) {free : Nat → Mem A → Option (Mem A)}
    (hfree : Frees E Inv Held Safe free) (ht : Tables m₀ tab) {n : Nat} (htab : TableAt tab t)
    (Sub : Nat → Nat → Prop) (hsub : ∀ j u, Sub j u → u ≠ t ∧ TableAt tab u)
    (hunique : ∀ j j' u, Sub j u → Sub j' u → j = j') (log : List Event) (halloc : Inv m.alloc)
    (hsafe : ∀ a u, u = t ∨ (∃ j < 512, Sub j u) → Held a u 1 → Safe a u)
    (hheld : ∀ u, u = t ∨ (∃ j < 512, Sub j u) → Held m.alloc u 1 ∧
      ∀ k < 512, m.pte (u + 8 * k) = m₀.pte (u + 8 * k))
    (hbody : ∀ j < 512, ∀ (m₁ : Mem A) (log1 : List Event), Inv m₁.alloc →
      (∀ u, Sub j u → Held m₁.alloc u 1 ∧ ∀ k < 512, m₁.pte (u + 8 * k) = m₀.pte (u + 8 * k)) →
      ∃ m2 freed log2, (if pte2pa (m₀.pte (t + 8 * j)) ≠ 0 then
          freewalkLog free n (pte2pa (m₀.pte (t + 8 * j))) (m₁, log1) else some (m₁, log1)) =
            some (m2, log1 ++ log2) ∧
        Released Inv Held (fun u => TableAt tab u ∧ Safe m2.alloc u) freed m₁ m2 ∧ freed.Nodup ∧
        (∀ u, u ∈ freed ↔ Sub j u) ∧ Logged m₀ (fun _ => False) freed log2) :
    ∃ m' freed log', freewalkLog free (n + 1) t (m, log) = some (m', log ++ log') ∧
      Released Inv Held (fun u => TableAt tab u ∧ Safe m'.alloc u) freed m m' ∧ freed.Nodup ∧
      (∀ u, u ∈ freed ↔ u = t ∨ ∃ j < 512, Sub j u) ∧ Logged m₀ (fun _ => False) freed log' := by
  -- after `k` turns the tables of the first `k` entries are free, and the entries from `k` on
  -- are as they were
  have hloop := foldlM_range (n := 512) (s := (m, log))
    (f := fun x j => do
      let pte := x.1.pte (t + 8 * j)
      let x := (x.1, x.2 ++ [.read t j pte])
      let x ← (if pte2pa pte ≠ 0 then freewalkLog free n (pte2pa pte) x else some x)
      some (x.1.setPte (t + 8 * j) 0, x.2))
    (fun k x => ∃ freed log1, x.2 = log ++ log1 ∧
      Released Inv Held (fun u => (TableAt tab u ∧ u ≠ t) ∧ Safe x.1.alloc u) freed m x.1 ∧
      freed.Nodup ∧ (∀ u, u ∈ freed ↔ ∃ j < k, Sub j u) ∧
      (∀ j, k ≤ j → j < 512 → x.1.pte (t + 8 * j) = m₀.pte (t + 8 * j)) ∧
      Logged m₀ (fun u => u = t) freed log1)
    ⟨[], [], (append_nil _).symm, Released.refl halloc, nodup_nil, by simp,
      fun j _ hj => (hheld t (.inl rfl)).2 j hj, Logged.nil m₀ _⟩ (by
    rintro k hk ⟨m₁, log1⟩ ⟨freed, log2, hlog, hrel, hnd, hmem, hrest, hlogged⟩
    simp only at hlog hrel hrest
    have hlater : ∀ u, Sub k u → u ∉ freed := by
      intro u hu hin
      obtain ⟨j, hj, huj⟩ := (hmem u).mp hin
      have := hunique _ _ _ hu huj
      omega
    have hnot : t ∉ freed := by
      intro hin
      obtain ⟨j, -, hj⟩ := (hmem t).mp hin
      exact (hsub j t hj).1 rfl
    have hheldt : Held m₁.alloc t 1 :=
      (hrel.held t 1).mpr ⟨(hheld t (.inl rfl)).1, fun hand => hnot hand.2⟩
    obtain ⟨m2, freed', log3, hm2, hrel', hnd', hmem', hlogged'⟩ := hbody k hk m₁
      (log1 ++ [.read t k (m₀.pte (t + 8 * k))]) hrel.alloc (by
      intro u hu
      obtain ⟨hne, htabu⟩ := hsub k u hu
      obtain ⟨hheldu, hpteu⟩ := hheld u (.inr ⟨k, hk, hu⟩)
      have hstill : Held m₁.alloc u 1 :=
        (hrel.held u 1).mpr ⟨hheldu, fun hand => hlater u hu hand.2⟩
      refine ⟨hstill, fun k' hk' => ?_⟩
      rw [hrel.pte u ⟨⟨htabu, hne⟩, hsafe _ u (.inr ⟨k, hk, hu⟩) hstill⟩ (hlater u hu) k' hk',
        hpteu k' hk'])
    have ht' : t ∉ freed' := fun hin => (hsub k t ((hmem' t).mp hin)).1 rfl
    have hsafet : Safe m2.alloc t :=
      hsafe _ t (.inl rfl) ((hrel'.held t 1).mpr ⟨hheldt, fun hand => ht' hand.2⟩)
    have hclear : Released Inv Held (fun u => (TableAt tab u ∧ u ≠ t) ∧ Safe m2.alloc u) [] m2
        (m2.setPte (t + 8 * k) 0) :=
      (setPte_released ht htab hk hrel'.alloc).mono fun u hu _ => hu.1
    refine ⟨(m2.setPte (t + 8 * k) 0, log1 ++ [.read t k (m₀.pte (t + 8 * k))] ++ log3), ?_,
      freed ++ freed', log2 ++ ([.read t k (m₀.pte (t + 8 * k))] ++ log3), ?_, ?_, ?_, ?_, ?_, ?_⟩
    · simp only [hrest k (Nat.le_refl k) hk, hm2, bind_eq_bind, bind_some]
    · simp only [hlog, append_assoc]
    · have hvisit : Released Inv Held (fun u => (TableAt tab u ∧ u ≠ t) ∧ Safe m2.alloc u) freed' m₁ m2 :=
        hrel'.mono fun u hu _ => ⟨hu.1.1, hu.2⟩
      have hall := (hfree.trans hrel hvisit).trans hclear
      rwa [append_nil] at hall
    · refine nodup_append.mpr ⟨hnd, hnd', ?_⟩
      rintro u hu v hv rfl
      exact hlater u ((hmem' u).mp hv) hu
    · intro u
      rw [mem_append, hmem, hmem']
      constructor
      · rintro (⟨j, hj, hu⟩ | hu)
        · exact ⟨j, by omega, hu⟩
        · exact ⟨k, Nat.lt_succ_self k, hu⟩
      · rintro ⟨j, hj, hu⟩
        rcases Nat.lt_succ_iff_lt_or_eq.mp hj with hj | rfl
        · exact .inl ⟨j, hj, hu⟩
        · exact .inr hu
    · intro j hkj hj
      have hne : t + 8 * j ≠ t + 8 * k := by omega
      have hset : (m2.setPte (t + 8 * k) 0).pte (t + 8 * j) = m2.pte (t + 8 * j) :=
        Function.update_of_ne hne _ _
      rw [hset, hrel'.pte t ⟨htab, hsafet⟩ ht' j hj, hrest j (by omega) hj]
    · have hread : Logged m₀ (fun u => u = t) [] [.read t k (m₀.pte (t + 8 * k))] := .read rfl hk
      have hturn : Logged m₀ (fun u => u = t) freed' ([.read t k (m₀.pte (t + 8 * k))] ++ log3) :=
        (hread.append hlogged' nofun).mono
          fun u hu => .inl (hu.resolve_right id)
      refine (hlogged.append hturn fun u hu => ⟨?_, fun hin => ?_⟩).mono fun u hu => .inl (hu.elim id id)
      · rintro rfl
        exact hnot hu
      · exact hlater u ((hmem' u).mp hin) hu)
  obtain ⟨⟨m₁, log1⟩, hm1, freed, log2, hlog, hrel, hnd, hmem, -, hlogged⟩ := hloop
  simp only at hlog hrel
  have htf : t ∉ freed := by
    intro hin
    obtain ⟨j, _, hj⟩ := (hmem t).mp hin
    exact (hsub j t hj).1 rfl
  have hheldt : Held m₁.alloc t 1 :=
    (hrel.held t 1).mpr ⟨(hheld t (.inl rfl)).1, fun hand => htf hand.2⟩
  obtain ⟨m', hm', hfreed⟩ := hfree.released hE hrel.alloc hheldt (fun u => TableAt tab u ∧ u ≠ t)
  have hall := hfree.trans hrel hfreed
  refine ⟨m', freed ++ [t], log2 ++ [.free t], ?_,
    hall.mono fun u hu hno => ⟨⟨hu.1, fun heq => ?_⟩, hu.2⟩, ?_, ?_, ?_⟩
  · simp only [bind_eq_bind] at hm1
    simp only [freewalkLog, bind_eq_bind]
    rw [hm1, bind_some]
    simp only [hm', hlog, bind_some, append_assoc]
  · exact hno (by simp [heq])
  · refine nodup_append.mpr ⟨hnd, by simp, ?_⟩
    rintro u hu v hv rfl
    exact htf (mem_singleton.mp hv ▸ hu)
  · intro u
    rw [mem_append, hmem, mem_singleton, or_comm]
  · refine (hlogged.append (Logged.free m₀ t) fun u hu => ⟨id, fun hin => ?_⟩).mono fun u hu => .inr ?_
    · exact htf (mem_singleton.mp hin ▸ hu)
    · obtain rfl := hu.resolve_right id
      exact mem_append_right _ mem_cons_self

/-- The visit of a table frees the tables below it, each once, and reads none of them afterwards. -/
lemma freewalkLog_below (hE : E.Ok lo hi Inv Held) {free : Nat → Mem A → Option (Mem A)}
    (hfree : Frees E Inv Held Safe free) (hsafe : ∀ a u, Held a u 1 → Safe a u) (ht : Tables m₀ tab)
    (hc : Clean r m₀ tab) :
    ∀ l t i (m : Mem A) (log : List Event), l ≤ 2 → tab t = some ⟨r, l, i⟩ → Inv m.alloc →
      (∀ u, Below tab r l i u → Held m.alloc u 1 ∧
        ∀ k < 512, m.pte (u + 8 * k) = m₀.pte (u + 8 * k)) →
      ∃ m' freed log', freewalkLog free (l + 1) t (m, log) = some (m', log ++ log') ∧
        Released Inv Held (fun u => TableAt tab u ∧ Safe m'.alloc u) freed m m' ∧ freed.Nodup ∧
        (∀ u, u ∈ freed ↔ Below tab r l i u) ∧ Logged m₀ (fun _ => False) freed log' := by
  intro l
  induction l with
  | zero =>
    intro t i m log _ htab halloc hheld
    obtain ⟨m', freed, log', hm', hrel, hnd, hmem, hlogged⟩ := freewalkLog_table (n := 0) hE hfree ht
      ⟨_, htab⟩ (fun _ _ => False) (fun _ _ hf => hf.elim) (fun _ _ _ hf => hf.elim) log halloc
      (fun a u _ => hsafe a u) (by
        rintro u (rfl | ⟨_, _, hf⟩)
        · exact hheld u htab
        · exact hf.elim) (by
        intro j _ m₁ log1 halloc1 _
        refine ⟨m₁, [], [], ?_, Released.refl halloc1, nodup_nil, by simp, Logged.nil _ _⟩
        rw [append_nil]
        split_ifs <;> rfl)
    refine ⟨m', freed, log', hm', hrel, hnd, fun u => ?_, hlogged⟩
    rw [hmem]
    constructor
    · rintro (rfl | ⟨_, _, hf⟩)
      · exact htab
      · exact hf.elim
    · intro hu
      exact .inl (ht.unique hu htab)
  | succ l ih =>
    intro t i m log hl htab halloc hheld
    obtain ⟨m', freed, log', hm', hrel, hnd, hmem, hlogged⟩ := freewalkLog_table (n := l + 1) hE hfree ht
      ⟨_, htab⟩ (fun j u => Below tab r l (512 * i + j) u ∧ j < 512) (by
        rintro j u ⟨hu, _⟩
        obtain ⟨l', i', hle, hpl⟩ := hu.place
        refine ⟨?_, _, hpl⟩
        rintro rfl
        rw [htab] at hpl
        simp only [some.injEq, Place.mk.injEq] at hpl
        omega) (by
        rintro j j' u ⟨hu, _⟩ ⟨hu', _⟩
        have := hu.unique hu'
        omega) log halloc (fun a u _ => hsafe a u) (by
        rintro u (rfl | ⟨j, hj, hu, _⟩)
        · exact hheld u (.inl htab)
        · exact hheld u (.inr ⟨j, hj, hu⟩)) (by
        intro j hj m₁ log1 halloc1 hheld1
        cases hv : has (m₀.pte (t + 8 * j)) pteV with
        | true =>
          have hchild := ht.child htab hj hv
          have hpos := (ht.range hchild).1
          rw [if_pos (by omega)]
          obtain ⟨m2, freed, log2, hm2, hrel, hnd, hmem, hlogged⟩ := ih _ _ m₁ log1 (by omega) hchild
            halloc1 fun u hu => hheld1 u ⟨hu, hj⟩
          refine ⟨m2, freed, log2, hm2, hrel, hnd, fun u => ?_, hlogged⟩
          rw [hmem]
          exact ⟨fun hu => ⟨hu, hj⟩, fun hu => hu.1⟩
        | false =>
          have hzero := hc t l i j htab hj hv
          rw [hzero, if_neg (by decide)]
          refine ⟨m₁, [], [], by rw [append_nil], Released.refl halloc1, nodup_nil,
            fun u => ?_, Logged.nil _ _⟩
          refine ⟨fun hu => absurd hu not_mem_nil, fun hu => ?_⟩
          obtain ⟨t', ht'⟩ := hu.1.top ht (by omega)
          exact absurd ht' (ht.nochild htab hj hv t'))
    refine ⟨m', freed, log', hm', hrel, hnd, fun u => ?_, hlogged⟩
    rw [hmem]
    constructor
    · rintro (rfl | ⟨j, hj, hu, _⟩)
      · exact .inl htab
      · exact .inr ⟨j, hj, hu⟩
    · rintro (hu | ⟨j, hj, hu⟩)
      · exact .inl (ht.unique hu htab)
      · exact .inr ⟨j, hj, hu, hj⟩

/-- The visit of a root frees the tables of that root. -/
lemma freewalkLog_spec (hE : E.Ok lo hi Inv Held) {free : Nat → Mem A → Option (Mem A)}
    (hfree : Frees E Inv Held Safe free) (hsafe : ∀ a u, Held a u 1 → Safe a u)
    (hs : Shaped Inv Held m tab) (hc : Clean r m tab) (hr : tab r = some (rootPlace r))
    (log : List Event) :
    ∃ m' freed log', freewalkLog free 3 r (m, log) = some (m', log ++ log') ∧
      Released Inv Held (fun u => TableAt tab u ∧ Safe m'.alloc u) freed m m' ∧ freed.Nodup ∧
      (∀ u, u ∈ freed ↔ ∃ pl, tab u = some pl ∧ pl.root = r) ∧
      Logged m (fun _ => False) freed log' := by
  obtain ⟨m', freed, log', hm', hrel, hnd, hmem, hlogged⟩ := freewalkLog_below hE hfree hsafe hs.tables hc
    2 r 0 m log (Nat.le_refl 2) hr hs.alloc (by
      intro u hu
      obtain ⟨l', i', _, hpl⟩ := hu.place
      exact ⟨hs.held hpl, fun _ _ => rfl⟩)
  refine ⟨m', freed, log', hm', hrel, hnd, fun u => ?_, hlogged⟩
  rw [hmem]
  constructor
  · intro hu
    obtain ⟨l', i', _, hpl⟩ := hu.place
    exact ⟨_, hpl, rfl⟩
  · rintro ⟨pl, hpl, rfl⟩
    exact hs.tables.below_root hpl

/-- `freewalk` of a root frees the tables of that root, each once. -/
lemma freewalk_spec (hE : E.Ok lo hi Inv Held) (hs : Shaped Inv Held m tab) (hc : Clean r m tab)
    (hr : tab r = some (rootPlace r)) :
    ∃ m' freed, freewalk E 3 r m = some m' ∧ Released Inv Held (TableAt tab) freed m m' ∧
      freed.Nodup ∧ ∀ u, u ∈ freed ↔ ∃ pl, tab u = some pl ∧ pl.root = r := by
  obtain ⟨m', freed, log', hm', hrel, hnd, hmem, -⟩ := freewalkLog_spec hE kfree_frees
    (fun _ _ _ => trivial) hs hc hr []
  refine ⟨m', freed, ?_, hrel.mono fun u hu _ => ⟨hu, trivial⟩, hnd, hmem⟩
  rw [freewalk_eq_map 3 r (m, []), hm']
  rfl

/-! ## The other roots -/

/-- The tables that are left when those of the root `r` are gone. -/
def dropRoot (r : Nat) (tab : Nat → Option Place) : Nat → Option Place :=
  fun t => (tab t).filter fun pl => pl.root ≠ r

lemma dropRoot_eq_some :
    dropRoot r tab t = some pl ↔ tab t = some pl ∧ pl.root ≠ r := by
  rw [dropRoot, filter_eq_some_iff, decide_eq_true_iff]

/-- The tables of the other roots keep their entries. -/
lemma Tables.dropRoot (ht : Tables m tab)
    (hpte : ∀ {t pl k}, tab t = some pl → pl.root ≠ r → k < 512 →
      m'.pte (t + 8 * k) = m.pte (t + 8 * k)) : Tables m' (dropRoot r tab) := by
  refine ⟨fun h => ?_, fun h => ?_, fun h => ?_, fun h h' => ?_, ?_, ?_, ?_, fun h => ?_⟩
  · exact ht.dvd (dropRoot_eq_some.mp h).1
  · exact ht.range (dropRoot_eq_some.mp h).1
  · exact ht.level (dropRoot_eq_some.mp h).1
  · exact ht.unique (dropRoot_eq_some.mp h).1 (dropRoot_eq_some.mp h').1
  · intro t r' l i k h hk hv
    obtain ⟨h, hne⟩ := dropRoot_eq_some.mp h
    rw [hpte h hne hk] at hv ⊢
    exact dropRoot_eq_some.mpr ⟨ht.child h hk hv, hne⟩
  · intro t r' l i k h hk hv t' h'
    obtain ⟨h, hne⟩ := dropRoot_eq_some.mp h
    rw [hpte h hne hk] at hv
    exact ht.nochild h hk hv t' (dropRoot_eq_some.mp h').1
  · intro t r' l i h hl
    obtain ⟨h, hne⟩ := dropRoot_eq_some.mp h
    obtain ⟨t', h'⟩ := ht.parent h hl
    exact ⟨t', dropRoot_eq_some.mpr ⟨h', hne⟩⟩
  · exact ht.root (dropRoot_eq_some.mp h).1

lemma freewalk_byte {n : Nat} (h : freewalk E n t m = some m') : m'.byte = m.byte := by
  induction n generalizing t m m' with
  | zero =>
    cases h
    rfl
  | succ n ih =>
    rw [freewalk] at h
    obtain ⟨m₁, hloop, hfree⟩ := bind_eq_some_iff.mp h
    obtain ⟨_, _, hfree⟩ := bind_eq_some_iff.mp hfree
    cases hfree
    refine foldlM_invariant (P := fun m' => m'.byte = m.byte) rfl ?_ hloop
    intro m2 i m3 hbyte hturn
    obtain ⟨m4, hwalk, hset⟩ := bind_eq_some_iff.mp hturn
    cases hset
    show m4.byte = m.byte
    split_ifs at hwalk
    · rw [ih hwalk, hbyte]
    · cases hwalk
      exact hbyte

lemma freewalk_kfreed {n : Nat} (h : freewalk E n t m = some m') :
    ∃ freed, m'.kfreed = m.kfreed ++ freed ∧ (n ≠ 0 → t ∈ freed) := by
  induction n generalizing t m m' with
  | zero =>
    cases h
    exact ⟨[], (append_nil _).symm, fun h => absurd rfl h⟩
  | succ n ih =>
    rw [freewalk] at h
    obtain ⟨m₁, hloop, hfree⟩ := bind_eq_some_iff.mp h
    obtain ⟨_, _, hfree⟩ := bind_eq_some_iff.mp hfree
    cases hfree
    have hbelow : ∃ freed, m₁.kfreed = m.kfreed ++ freed := by
      refine foldlM_invariant (P := fun m' : Mem A => ∃ freed, m'.kfreed = m.kfreed ++ freed)
        ⟨[], (append_nil _).symm⟩ ?_ hloop
      rintro m2 i m3 ⟨freed, hfreed⟩ hturn
      obtain ⟨m4, hwalk, hset⟩ := bind_eq_some_iff.mp hturn
      cases hset
      show ∃ freed, m4.kfreed = m.kfreed ++ freed
      split_ifs at hwalk
      · obtain ⟨freed', hfreed', _⟩ := ih hwalk
        exact ⟨freed ++ freed', by rw [hfreed', hfreed, append_assoc]⟩
      · cases hwalk
        exact ⟨freed, hfreed⟩
    obtain ⟨freed, hfreed⟩ := hbelow
    refine ⟨freed ++ [t], ?_, fun _ => mem_append_right _ mem_cons_self⟩
    rw [← append_assoc, ← hfreed]

/-- `freewalk` of a root leaves the other roots and the contents of memory alone. -/
lemma freewalk_keeps (hE : E.Ok lo hi Inv Held) (hs : Shaped Inv Held m tab) (hc : Clean r m tab)
    (hr : tab r = some (rootPlace r)) (h : freewalk E 3 r m = some m') :
    Shaped Inv Held m' (dropRoot r tab) ∧ m'.byte = m.byte ∧
      ∀ {q}, tab q = some (rootPlace q) → q ≠ r → ∀ vpn, leaf m' q vpn = leaf m q vpn := by
  obtain ⟨m₁, freed, hm1, hrel, _, hmem⟩ := freewalk_spec hE hs hc hr
  rw [h] at hm1
  cases hm1
  have hnot : ∀ {t pl}, tab t = some pl → pl.root ≠ r → t ∉ freed := by
    intro t pl ht hne hin
    obtain ⟨pl', ht', hroot⟩ := (hmem t).mp hin
    rw [ht] at ht'
    cases ht'
    exact hne hroot
  have hpte : ∀ {t pl k}, tab t = some pl → pl.root ≠ r → k < 512 →
      m'.pte (t + 8 * k) = m.pte (t + 8 * k) :=
    fun ht hne hk => hrel.pte _ ⟨_, ht⟩ (hnot ht hne) _ hk
  have htables := hs.tables.dropRoot (r := r) hpte
  refine ⟨⟨htables, hrel.alloc, ?_⟩, freewalk_byte h, ?_⟩
  · intro t pl ht
    obtain ⟨ht, hne⟩ := dropRoot_eq_some.mp ht
    exact (hrel.held t 1).mpr ⟨hs.held ht, fun hin => hnot ht hne hin.2⟩
  · intro q hq hne vpn
    refine (leaf_congr htables hs.tables (fun ht => (dropRoot_eq_some.mp ht).1) ?_
      (dropRoot_eq_some.mpr ⟨hq, hne⟩) ?_ vpn).symm
    · intro t pl k ht hk
      obtain ⟨ht, hroot⟩ := dropRoot_eq_some.mp ht
      exact (hpte ht hroot hk).symm
    · intro t i ht
      exact dropRoot_eq_some.mpr ⟨ht, hne⟩

end

end Hana.Vm
