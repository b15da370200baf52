import Hana.Mm.Vma.Lists
import Mathlib.Data.Set.Card
import Mathlib.Data.Set.Finite.Lattice

/-!
# Live areas

An area is live while it is on the list of a process. `mmap` and `munmap` change the set of live
areas by one area at most; so they do to the areas that hold a file.
-/

namespace Hana.Vma

open Function Lib Vm

variable {A : Type}

/-- The area is on the list that starts at `a`. -/
inductive OnList (area : Nat → Area) : (a x : Nat) → Prop
  | here {x : Nat} (hne : x ≠ 0) : OnList area x x
  | next {a x : Nat} (hne : a ≠ 0) (hx : OnList area (area a).next x) : OnList area a x

def Area.contains (a : Area) (va : Nat) : Prop := a.start ≤ va ∧ va < a.end_

def Live (s : State A) (x : Nat) : Prop := ∃ pid p, s.proc pid = some p ∧ OnList s.area p.vmaList x

/-- The live areas with the file. -/
def holders (s : State A) (file : Nat) : Set Nat := { x | Live s x ∧ (s.area x).file = file }

/-- The references to a file that are not those of an area. -/
noncomputable def otherRefs (s : State A) (file : Nat) : Int := s.fRef file - (holders s file).ncard

variable {area : Nat → Area}

lemma onList_iff {b a x : Nat} {nodes : List Nat}
    (h : NullList 0 (fun a => (area a).next) (fun a => (area a).prev) b a nodes) :
    OnList area a x ↔ x ∈ nodes := by
  induction nodes generalizing b a with
  | nil =>
    have hnull : a = 0 := h
    subst hnull
    refine ⟨fun hx => ?_, fun hx => absurd hx List.not_mem_nil⟩
    cases hx with
    | here hne => exact absurd rfl hne
    | next hne _ => exact absurd rfl hne
  | cons y nodes ih =>
    obtain ⟨rfl, hne, -, h⟩ := h
    rw [List.mem_cons, ← ih h]
    constructor
    · intro hx
      cases hx with
      | here _ => exact .inl rfl
      | next _ hx => exact .inr hx
    · rintro (rfl | hx)
      · exact .here hne
      · exact .next hne hx

lemma SelfLinked.onList_iff {a x : Nat} (h : SelfLinked area a) :
    OnList area a x ↔ x = a := by
  have hloop : ∀ {b x}, OnList area b x → b = a → x = a := by
    intro b x hx
    induction hx with
    | here _ => exact id
    | next _ _ ih =>
      rintro rfl
      exact ih h.2
  constructor
  · intro hx
    exact hloop hx rfl
  · rintro rfl
    exact .here h.1

variable {p : Process}

section

variable {Inv : A → Prop} {Held : A → Nat → Nat → Prop}
variable {s s' : State A} {q v x file : Nat} {nodes : Nat → List Nat} {new : List Nat}

section

variable (h : Lists Inv Held s nodes)
include h

lemma Lists.live_iff :
    Live s x ↔ ∃ pid p, s.proc pid = some p ∧ x ∈ nodes pid := by
  have hiff : ∀ {pid p}, s.proc pid = some p → (OnList s.area p.vmaList x ↔ x ∈ nodes pid) := by
    intro pid p hp
    rcases h.list hp with hlist | ⟨hself, hnodes⟩
    · exact Vma.onList_iff hlist
    · rw [hself.onList_iff, hnodes, List.mem_singleton]
  constructor
  · rintro ⟨pid, p, hp, hx⟩
    exact ⟨pid, p, hp, (hiff hp).mp hx⟩
  · rintro ⟨pid, p, hp, hx⟩
    exact ⟨pid, p, hp, (hiff hp).mpr hx⟩

lemma Lists.live (hp : s.proc q = some p)
    (hx : x ∈ nodes q) : Live s x := h.live_iff.mpr ⟨q, p, hp, hx⟩

lemma Lists.held_of_live (hx : Live s x) : Held s.mem.alloc x 1 := by
  obtain ⟨pid, p, -, hmem⟩ := h.live_iff.mp hx
  exact h.held hmem

lemma Lists.holders_finite (file : Nat) : (holders s file).Finite := by
  have hfin : (⋃ pid ∈ (Finset.range s.nextPid : Set Nat), { x | x ∈ nodes pid }).Finite :=
    Set.Finite.biUnion (Finset.finite_toSet _) fun pid _ => List.finite_toSet (nodes pid)
  refine hfin.subset fun x hx => ?_
  obtain ⟨pid, p, hp, hmem⟩ := h.live_iff.mp hx.1
  exact Set.mem_biUnion (Finset.mem_coe.mpr (Finset.mem_range.mpr (h.pid_lt hp))) hmem

/-- The areas of the other processes stay, and those of `q` are the new ones. -/
lemma Effect.live_iff (he : Effect Inv Held q (nodes q) new s s') :
    Live s' x ↔ (Live s x ∧ x ∉ nodes q) ∨ x ∈ new := by
  rw [(h.effect he (List.Subset.refl _)).live_iff]
  constructor
  · rintro ⟨pid, p, hp, hx⟩
    by_cases hpid : pid = q
    · subst hpid
      rw [update_self] at hx
      exact .inr hx
    · rw [update_of_ne hpid] at hx
      rw [he.other pid hpid] at hp
      exact .inl ⟨h.live hp hx, h.apart hpid hx⟩
  · rintro (⟨hx, hno⟩ | hx)
    · obtain ⟨pid, p, hp, hmem⟩ := h.live_iff.mp hx
      have hpid : pid ≠ q := by
        rintro rfl
        exact hno hmem
      refine ⟨pid, p, (he.other pid hpid).trans hp, ?_⟩
      rwa [update_of_ne hpid]
    · obtain ⟨p, hp, -⟩ := he.proc
      refine ⟨q, p, hp, ?_⟩
      rwa [update_self]

lemma Effect.live_same (he : Effect Inv Held q (nodes q) (nodes q) s s')
    (hp : s.proc q = some p) (x : Nat) : Live s' x ↔ Live s x := by
  rw [he.live_iff h]
  constructor
  · rintro (⟨hx, -⟩ | hx)
    · exact hx
    · exact h.live hp hx
  · intro hx
    by_cases hmem : x ∈ nodes q
    · exact .inr hmem
    · exact .inl ⟨hx, hmem⟩

lemma Effect.live_add (he : Effect Inv Held q (nodes q) new s s')
    (hp : s.proc q = some p) (hnew : ∀ x, x ∈ new ↔ x = v ∨ x ∈ nodes q) (x : Nat) :
    Live s' x ↔ x = v ∨ Live s x := by
  rw [he.live_iff h, hnew]
  constructor
  · rintro (⟨hx, -⟩ | hx | hx)
    · exact .inr hx
    · exact .inl hx
    · exact .inr (h.live hp hx)
  · rintro (hx | hx)
    · exact .inr (.inl hx)
    · by_cases hmem : x ∈ nodes q
      · exact .inr (.inr hmem)
      · exact .inl ⟨hx, hmem⟩

lemma Effect.live_remove (he : Effect Inv Held q (nodes q) new s s')
    (hp : s.proc q = some p) (hv : v ∈ nodes q)
    (hnew : ∀ x, x ∈ new ↔ x ∈ nodes q ∧ x ≠ v) (x : Nat) : Live s' x ↔ Live s x ∧ x ≠ v := by
  rw [he.live_iff h, hnew]
  constructor
  · rintro (⟨hx, hno⟩ | ⟨hx, hne⟩)
    · exact ⟨hx, fun heq => hno (heq ▸ hv)⟩
    · exact ⟨h.live hp hx, hne⟩
  · rintro ⟨hx, hne⟩
    by_cases hmem : x ∈ nodes q
    · exact .inr ⟨hmem, hne⟩
    · exact .inl ⟨hx, hmem⟩

/-- The fields of a live area stay if those on the list of `q` do. -/
lemma Effect.fields_of_live (he : Effect Inv Held q (nodes q) new s s') (hx : Live s x)
    (hq : x ∈ nodes q → (s'.area x).fields = (s.area x).fields) :
    (s'.area x).fields = (s.area x).fields := by
  by_cases hmem : x ∈ nodes q
  · exact hq hmem
  · rw [(he.frame x (h.held_of_live hx) hmem).2]

end

/-! ## Areas that hold a file -/

lemma holders_congr (hlive : ∀ x, Live s' x ↔ Live s x)
    (hfile : ∀ x, Live s x → (s'.area x).file = (s.area x).file) (file : Nat) :
    holders s' file = holders s file := by
  ext x
  simp only [holders, Set.mem_ofPred_eq, hlive]
  constructor
  · rintro ⟨hx, rfl⟩
    exact ⟨hx, (hfile x hx).symm⟩
  · rintro ⟨hx, rfl⟩
    exact ⟨hx, hfile x hx⟩

/-- One more live area. -/
lemma holders_add (hfin : (holders s file).Finite) (hv : ¬ Live s v)
    (hlive : ∀ x, Live s' x ↔ x = v ∨ Live s x)
    (hfile : ∀ x, Live s x → (s'.area x).file = (s.area x).file) :
    ((holders s' file).ncard : Int) = (holders s file).ncard + if (s'.area v).file = file then 1 else 0 := by
  have hnot : v ∉ holders s file := fun hx => hv hx.1
  split_ifs with hf
  · have hset : holders s' file = insert v (holders s file) := by
      ext x
      simp only [holders, Set.mem_ofPred_eq, Set.mem_insert_iff, hlive]
      constructor
      · rintro ⟨rfl | hx, hxf⟩
        · exact .inl rfl
        · exact .inr ⟨hx, (hfile x hx).symm.trans hxf⟩
      · rintro (rfl | ⟨hx, hxf⟩)
        · exact ⟨.inl rfl, hf⟩
        · exact ⟨.inr hx, (hfile x hx).trans hxf⟩
    rw [hset, Set.ncard_insert_of_notMem hnot hfin, Nat.cast_add, Nat.cast_one]
  · have hset : holders s' file = holders s file := by
      ext x
      simp only [holders, Set.mem_ofPred_eq, hlive]
      constructor
      · rintro ⟨rfl | hx, hxf⟩
        · exact absurd hxf hf
        · exact ⟨hx, (hfile x hx).symm.trans hxf⟩
      · rintro ⟨hx, hxf⟩
        exact ⟨.inr hx, (hfile x hx).trans hxf⟩
    rw [hset, add_zero]

/-! ## References -/

lemma otherRefs_congr (hlive : ∀ x, Live s' x ↔ Live s x)
    (hfile : ∀ x, Live s x → (s'.area x).file = (s.area x).file) (href : s'.fRef = s.fRef) :
    otherRefs s' file = otherRefs s file := by
  rw [otherRefs, otherRefs, href, holders_congr hlive hfile]

/-- A new area that takes a reference. -/
lemma otherRefs_get (hfin : (holders s file).Finite) (hv : ¬ Live s v)
    (hlive : ∀ x, Live s' x ↔ x = v ∨ Live s x)
    (hfile : ∀ x, Live s x → (s'.area x).file = (s.area x).file)
    (href : s'.fRef = getRef (s'.area v).file s.fRef) (hne : file ≠ 0) :
    otherRefs s' file = otherRefs s file := by
  rw [otherRefs, otherRefs, holders_add hfin hv hlive hfile, href]
  by_cases hf : (s'.area v).file = file
  · rw [if_pos hf, hf, getRef, if_neg hne, update_self]
    omega
  · rw [if_neg hf, getRef_of_ne (Ne.symm hf)]
    omega

/-- A new area that takes no reference. -/
lemma otherRefs_add (hfin : (holders s file).Finite) (hv : ¬ Live s v)
    (hlive : ∀ x, Live s' x ↔ x = v ∨ Live s x)
    (hfile : ∀ x, Live s x → (s'.area x).file = (s.area x).file) (href : s'.fRef = s.fRef) :
    otherRefs s' file = otherRefs s file - if (s'.area v).file = file then 1 else 0 := by
  rw [otherRefs, otherRefs, holders_add hfin hv hlive hfile, href]
  omega

/-- An area is gone, and `file_put` was called; for a standard stream it does nothing. -/
lemma otherRefs_put (hfin : (holders s' file).Finite) (hv : Live s v)
    (hlive : ∀ x, Live s' x ↔ Live s x ∧ x ≠ v)
    (hfile : ∀ x, Live s x → (s'.area x).file = (s.area x).file)
    (href : s'.fRef = putRef (s.area v).file s.fRef) (hne : file ≠ 0) :
    otherRefs s' file =
      otherRefs s file + if (s.area v).file = file ∧ isStdstream file = true then 1 else 0 := by
  have hgone : ¬ Live s' v := fun hx => ((hlive v).mp hx).2 rfl
  have hback : ∀ x, Live s x ↔ x = v ∨ Live s' x := by
    intro x
    rw [hlive]
    constructor
    · intro hx
      by_cases hxv : x = v
      · exact .inl hxv
      · exact .inr ⟨hx, hxv⟩
    · rintro (rfl | ⟨hx, -⟩)
      · exact hv
      · exact hx
  have hcount := holders_add hfin hgone hback fun x hx => (hfile x ((hlive x).mp hx).1).symm
  rw [otherRefs, otherRefs, hcount, href]
  by_cases hf : (s.area v).file = file
  · subst hf
    rw [putRef]
    cases hstd : isStdstream (s.area v).file with
    | true =>
      simp only [Bool.true_eq_false, and_false, if_false, and_self, if_true]
      omega
    | false =>
      simp only [ne_eq, hne, not_false_eq_true, and_self, if_true, update_self,
        Bool.false_eq_true, and_false, if_false]
      omega
  · rw [putRef_of_ne (Ne.symm hf), if_neg hf, if_neg fun hand => hf hand.1]
    omega

end

end Hana.Vma
