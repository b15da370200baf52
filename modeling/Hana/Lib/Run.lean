import Mathlib.Data.List.Basic

/-!
# Runs of a labelled transition system

A run is the list of its transitions, oldest first. Besides the usual invariant rule there
is a rule for exact conditions: if, in states that satisfy the invariant, a transition does
what it should exactly when it meets a condition on the state before it, then a whole run
does what it should exactly when all of its transitions meet the condition.
-/

namespace Hana.Lib

open List

variable {σ α : Type*}

/-- One transition, with the states before and after it. -/
structure Transition (σ α : Type*) where
  source : σ
  label : α
  target : σ

/-- The runs of a step relation from a start state. -/
inductive Run (step : σ → α → σ → Prop) (start : σ) : List (Transition σ α) → σ → Prop
  | nil : Run step start [] start
  | snoc {ts : List (Transition σ α)} {s s' : σ} {a : α} (hr : Run step start ts s)
      (hs : step s a s') : Run step start (ts ++ [⟨s, a, s'⟩]) s'

namespace Run

variable {step : σ → α → σ → Prop} {start : σ} {ts : List (Transition σ α)} {s : σ}

variable {Inv : σ → Prop} {Cond : σ → α → Prop}

section

variable (hr : Run step start ts s)
include hr

/-- A property of the start that every step keeps holds at the end of every run. -/
lemma invariant (hstart : Inv start)
    (hstep : ∀ s a s', Inv s → step s a s' → Inv s') : Inv s := by
  induction hr with
  | nil => exact hstart
  | snoc _ hs ih => exact hstep _ _ _ ih hs

/-- The same along a run whose transitions all meet a condition. -/
lemma invariant_of_forall (hstart : Inv start) (hcond : ∀ t ∈ ts, Cond t.source t.label)
    (hstep : ∀ s a s', Inv s → Cond s a → step s a s' → Inv s') : Inv s := by
  induction hr with
  | nil => exact hstart
  | @snoc ts s s' a _ hs ih =>
    have hlast := hcond ⟨s, a, s'⟩ (mem_append.mpr (.inr (mem_singleton.mpr rfl)))
    exact hstep s a s' (ih fun t ht => hcond t (mem_append_left _ ht)) hlast hs

/-- A step that is good whenever it meets the condition makes the runs good that meet it. -/
lemma forall_of_forall {Good : σ → α → σ → Prop} (hstart : Inv start)
    (hcond : ∀ t ∈ ts, Cond t.source t.label)
    (hstep : ∀ s a s', Inv s → Cond s a → step s a s' → Inv s' ∧ Good s a s') :
    ∀ t ∈ ts, Good t.source t.label t.target := by
  induction hr with
  | nil =>
    intro t ht
    cases ht
  | @snoc ts s s' a hr hs ih =>
    have hcond' : ∀ t ∈ ts, Cond t.source t.label := fun t ht =>
      hcond t (mem_append_left _ ht)
    have hlast := hcond ⟨s, a, s'⟩ (mem_append.mpr (.inr (mem_singleton.mpr rfl)))
    have hinv := hr.invariant_of_forall hstart hcond' fun s a s' hi hc ht => (hstep s a s' hi hc ht).1
    intro t ht
    rcases mem_append.mp ht with ht | ht
    · exact ih hcond' t ht
    · rw [mem_singleton.mp ht]
      exact (hstep _ _ _ hinv hlast hs).2

/-- A run is good exactly when every transition of it meets the condition. -/
lemma forall_iff {Good : σ → α → σ → Prop} (hstart : Inv start)
    (hstep : ∀ s a s', Inv s → Cond s a → step s a s' → Inv s')
    (hexact : ∀ s a s', Inv s → step s a s' → (Good s a s' ↔ Cond s a)) :
    (∀ t ∈ ts, Good t.source t.label t.target) ↔ ∀ t ∈ ts, Cond t.source t.label := by
  induction hr with
  | nil => simp
  | @snoc ts s s' a hr hs ih =>
    simp only [mem_append, mem_singleton]
    constructor
    · intro hgood
      have hcond := ih.mp fun t ht => hgood t (.inl ht)
      have hinv := hr.invariant_of_forall hstart hcond hstep
      rintro t (ht | rfl)
      · exact hcond t ht
      · exact (hexact _ _ _ hinv hs).mp (hgood _ (.inr rfl))
    · intro hcond
      have hcond' : ∀ t ∈ ts, Cond t.source t.label := fun t ht => hcond t (.inl ht)
      have hinv := hr.invariant_of_forall hstart hcond' hstep
      rintro t (ht | rfl)
      · exact ih.mpr hcond' t ht
      · exact (hexact _ _ _ hinv hs).mpr (hcond _ (.inr rfl))

/-- A run whose transitions all meet a condition is one of the steps that meet it. -/
lemma and_of_forall (hcond : ∀ t ∈ ts, Cond t.source t.label) :
    Run (fun s a s' => step s a s' ∧ Cond s a) start ts s := by
  induction hr with
  | nil => exact nil
  | @snoc ts s s' a hr hs ih =>
    have hlast := hcond ⟨s, a, s'⟩ (mem_append.mpr (.inr (mem_singleton.mpr rfl)))
    exact (ih fun t ht => hcond t (mem_append_left _ ht)).snoc ⟨hs, hlast⟩

end

variable {f : σ → α → Option σ} {c : σ → α → Bool} {l : List α} {s' : σ} {b b' : Bool}

/-- If the results of a function are steps, there is a run through every schedule that the function
accepts, and a condition on the steps that the function counts along is met by all of them. -/
lemma exists_of_foldlM_step (hf : ∀ a ∈ l, ∀ s s', f s a = some s' → step s a s')
    (hr : Run step start ts s) (hts : b = true → ∀ t ∈ ts, c t.source t.label = true)
    (h : l.foldlM (fun x a => (f x.2 a).map fun s => (x.1 && c x.2 a, s)) (b, s) = some (b', s')) :
    ∃ ts', Run step start ts' s' ∧ (b' = true → ∀ t ∈ ts', c t.source t.label = true) := by
  induction l generalizing b s ts with
  | nil =>
    cases h
    exact ⟨ts, hr, hts⟩
  | cons a l ih =>
    obtain ⟨⟨b1, s1⟩, hstep, hrest⟩ := Option.bind_eq_some_iff.mp h
    obtain ⟨s2, hs, heq⟩ := Option.map_eq_some_iff.mp hstep
    obtain ⟨rfl, rfl⟩ := Prod.mk.inj heq
    refine ih (fun x hx => hf x (mem_cons_of_mem _ hx)) (hr.snoc (hf a mem_cons_self _ _ hs)) ?_ hrest
    intro hb t ht
    rw [Bool.and_eq_true] at hb
    rcases mem_append.mp ht with ht | ht
    · exact hts hb.1 t ht
    · rw [mem_singleton.mp ht]
      exact hb.2

/-- The same for a machine that is given by the function. -/
lemma exists_of_foldlM (hr : Run (fun s a s' => f s a = some s') start ts s)
    (hts : b = true → ∀ t ∈ ts, c t.source t.label = true)
    (h : l.foldlM (fun x a => (f x.2 a).map fun s => (x.1 && c x.2 a, s)) (b, s) = some (b', s')) :
    ∃ ts', Run (fun s a s' => f s a = some s') start ts' s' ∧
      (b' = true → ∀ t ∈ ts', c t.source t.label = true) :=
  hr.exists_of_foldlM_step (fun _ _ _ _ hs => hs) hts h

end Run

end Hana.Lib
