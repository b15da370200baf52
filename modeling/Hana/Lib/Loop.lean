import Mathlib.Data.List.Basic

/-!
# Loops that can fail

Rules for `foldlM` in `Option`: a body that changes nothing, and an invariant that is kept
turn by turn and shows at the same time that the loop ends normally.
-/

namespace Hana.Lib

open List

variable {σ : Type*} {β : Type*}

/-- A loop whose body changes nothing. -/
lemma foldlM_some_self (f : σ → β → Option σ) (l : List β) (s : σ)
    (h : ∀ b ∈ l, f s b = some s) : l.foldlM f s = some s := by
  induction l with
  | nil => rfl
  | cons b l ih =>
    rw [foldlM_cons, h b mem_cons_self]
    exact ih fun c hc => h c (mem_cons_of_mem _ hc)

variable {f : σ → β → Option σ}

/-- A property that every turn keeps holds after the loop. -/
lemma foldlM_invariant {P : σ → Prop} {l : List β} {s s' : σ} (h0 : P s)
    (hstep : ∀ s b s', P s → f s b = some s' → P s') (h : l.foldlM f s = some s') : P s' := by
  induction l generalizing s with
  | nil =>
    cases h
    exact h0
  | cons b l ih =>
    obtain ⟨s1, hturn, h⟩ := Option.bind_eq_some_iff.mp h
    exact ih (hstep s b s1 h0 hturn) h

/-- A loop that carries more than another one does the same to what both carry. -/
lemma foldlM_project {τ : Type*} {g : τ → β → Option τ} (π : τ → σ)
    (h : ∀ x b, f (π x) b = (g x b).map π) (l : List β) (x : τ) :
    l.foldlM f (π x) = (l.foldlM g x).map π := by
  induction l generalizing x with
  | nil => rfl
  | cons b l ih =>
    rw [foldlM_cons, foldlM_cons, h]
    cases hg : g x b with
    | none => rfl
    | some y => exact ih y

/-- A loop over `0, …, n - 1` with an invariant that counts the turns. -/
lemma foldlM_range {f : σ → Nat → Option σ} (P : Nat → σ → Prop) {n : Nat} {s : σ} (h0 : P 0 s)
    (hstep : ∀ k < n, ∀ s, P k s → ∃ s', f s k = some s' ∧ P (k + 1) s') :
    ∃ s', (range n).foldlM f s = some s' ∧ P n s' := by
  induction n with
  | zero => exact ⟨s, rfl, h0⟩
  | succ n ih =>
    obtain ⟨s1, hs1, hp1⟩ := ih fun k hk => hstep k (Nat.lt_succ_of_lt hk)
    obtain ⟨s', hs', hp'⟩ := hstep n (Nat.lt_succ_self n) s1 hp1
    refine ⟨s', ?_, hp'⟩
    rw [range_succ, foldlM_append, hs1]
    show ([n].foldlM f s1) = _
    rw [foldlM_cons, hs']
    rfl

/-- A loop with an invariant on the items that it has taken, which also shows that every turn succeeds. -/
lemma foldlM_history {P : List β → σ → Prop}
    (hstep : ∀ d s b, P d s → ∃ s', f s b = some s' ∧ P (d ++ [b]) s') (l : List β) :
    ∀ {d : List β} {s : σ}, P d s → ∃ s', l.foldlM f s = some s' ∧ P (d ++ l) s' := by
  induction l with
  | nil => exact fun {d s} h => ⟨s, rfl, by rwa [append_nil]⟩
  | cons b l ih =>
    intro d s h
    obtain ⟨s1, hs1, h1⟩ := hstep d s b h
    obtain ⟨s', hs', h'⟩ := ih h1
    refine ⟨s', ?_, by rwa [append_cons]⟩
    rw [foldlM_cons, hs1]
    exact hs'

end Hana.Lib
