import Hana.Lib.NextList
import Hana.Mm.Vma.Files

/-!
# Demand paging

`page_unmap_handler` is for accesses to pages of an area that have no frame yet: a load from
an area with `PROT_READ` and a store to an area with `PROT_WRITE` get a new frame, and any
other access kills the process (`ServesFault`).

The guard of the handler asks for a store and a load at once. No cause is both, so every
access that the handler decides on kills the process, permitted or not. What is left is the
refusal of the other accesses, and this needs that the search for the area ends: on a list
that is linked to itself it goes on forever for an address that is in none of the areas.
-/

namespace Hana.Vma

open Lib Vm Option

variable {A : Type}

/-- The causes of a load and of a store that has no access to its page. -/
inductive Access where
  | load
  | store
deriving DecidableEq, Repr

def loadPageFault : Nat := 13

def storeAmoPageFault : Nat := 15

/-- The access that a cause stands for. -/
def access (scause : Nat) : Option Access :=
  if scause = loadAccessFault ∨ scause = loadPageFault then some .load
  else if scause = storeAmoAccessFault ∨ scause = storeAmoPageFault then some .store
  else none

/-- The protection of the area allows the access. -/
def Area.allows (a : Area) : Access → Prop
  | .load => a.prot &&& protRead ≠ 0
  | .store => a.prot &&& protWrite ≠ 0

/-- An area of the list contains the address and allows the access. -/
def Permitted (area : Nat → Area) (p : Process) (badv scause x : Nat) : Prop :=
  OnList area p.vmaList x ∧ (area x).contains badv ∧
    ∃ acc, access scause = some acc ∧ (area x).allows acc

/-- The entry gives the user no more than the area does. -/
structure Within (a : Area) (pte : Nat) : Prop where
  valid : has pte pteV = true
  user : has pte pteU = true
  read : has pte pteR = true → a.prot &&& protRead ≠ 0
  write : has pte pteW = true → a.prot &&& protWrite ≠ 0
  exec : has pte pteX = true → a.prot &&& protExec ≠ 0
  cow : a.flags &&& mapPrivate ≠ 0 → a.prot &&& protWrite ≠ 0 →
    has pte pteCow = true ∧ has pte pteW = false

/-- The page of the address has a new frame of zeros, with the permissions of the area. -/
def Installs (E : Env A) (p : Process) (a : Area) (badv : Nat) (m m' : Mem A) : Prop :=
  Within a (leaf m' p.pagetable (badv >>> 12)) ∧
    (∃ m₁, kalloc E pgSize m = some (pte2pa (leaf m' p.pagetable (badv >>> 12)), m₁)) ∧
    ∀ i < pgSize, m'.byte (pte2pa (leaf m' p.pagetable (badv >>> 12)) + i) = 0

/-- What the handler is for. The first part of its result says whether it sets `killed`. -/
structure ServesFault (E : Env A) (s : State A) (pid : Nat) (p : Process) (badv scause : Nat) : Prop where
  permitted : ∀ x, Permitted s.area p badv scause x →
    ∃ fuel s', pageUnmapHandler E fuel pid badv scause s = some (false, s') ∧
      Installs E p (s.area x) badv s.mem s'.mem
  refused : (¬ ∃ x, Permitted s.area p badv scause x) →
    ∃ fuel s', pageUnmapHandler E fuel pid badv scause s = some (true, s') ∧
      ∀ r vpn, leaf s'.mem r vpn = leaf s.mem r vpn

/-- The list has an end, or an area on it contains the address. -/
def SearchEnds (area : Nat → Area) (head va : Nat) : Prop :=
  (∃ nodes, NextList (fun a => (area a).next) 0 head nodes) ∨
    ∃ x, OnList area head x ∧ (area x).contains va

section

variable {E : Env A} {s : State A} {p : Process} {area : Nat → Area}
variable {pid badv scause head va : Nat}

lemma SearchEnds.next (h : SearchEnds area (area head).next va) (hne : head ≠ 0) :
    SearchEnds area head va := by
  rcases h with ⟨nodes, hlist⟩ | ⟨x, hx, hin⟩
  · exact .inl ⟨head :: nodes, rfl, hne, hlist⟩
  · exact .inr ⟨x, .next hne hx, hin⟩

lemma findVma_here (hne : head ≠ 0) (hin : (area head).contains va) :
    findVma area va 1 head = some head := by
  rw [findVma, if_neg hne]
  exact if_pos hin

lemma findVma_next (hne : head ≠ 0)
    (h : ∃ fuel v, findVma area va fuel (area head).next = some v) :
    ∃ fuel v, findVma area va fuel head = some v := by
  obtain ⟨fuel, v, h⟩ := h
  by_cases hin : (area head).contains va
  · exact ⟨1, head, findVma_here hne hin⟩
  · refine ⟨fuel + 1, v, ?_⟩
    rw [findVma, if_neg hne, ← h]
    exact if_neg hin

/-- The search returns exactly when it ends. -/
lemma findVma_returns_iff :
    (∃ fuel v, findVma area va fuel head = some v) ↔ SearchEnds area head va := by
  constructor
  · rintro ⟨fuel, v, h⟩
    induction fuel generalizing head with
    | zero => cases h
    | succ fuel ih =>
      rw [findVma] at h
      split_ifs at h with hnull hin
      · exact .inl ⟨[], hnull⟩
      · exact .inr ⟨head, .here hnull, hin⟩
      · exact (ih h).next hnull
  · rintro (⟨nodes, hlist⟩ | ⟨x, hx, hin⟩)
    · induction nodes generalizing head with
      | nil =>
        have hnull : head = 0 := hlist
        exact ⟨1, 0, by rw [findVma, if_pos hnull]⟩
      | cons y nodes ih =>
        obtain ⟨rfl, hne, hlist⟩ := hlist
        exact findVma_next hne (ih hlist)
    · induction hx with
      | here hne => exact ⟨1, _, findVma_here hne hin⟩
      | next hne _ ih => exact findVma_next hne (ih hin)

/-- The handler returns exactly when its search does, and then it kills the process and changes
nothing. -/
lemma pageUnmapHandler_returns_iff (hp : s.proc pid = some p) :
    (∃ fuel, pageUnmapHandler E fuel pid badv scause s = some (true, s)) ↔
      SearchEnds s.area p.vmaList (pgRoundDown badv) := by
  rw [← findVma_returns_iff]
  constructor
  · rintro ⟨fuel, h⟩
    obtain ⟨p', hp', h⟩ := bind_eq_some_iff.mp h
    obtain ⟨v, hfind, -⟩ := bind_eq_some_iff.mp h
    rw [hp] at hp'
    cases hp'
    exact ⟨fuel, v, hfind⟩
  · rintro ⟨fuel, v, hfind⟩
    refine ⟨fuel, ?_⟩
    have hcause : ¬ ((scause = storeAmoAccessFault ∧ (s.area v).prot &&& protWrite ≠ 0) ∧
        (scause = loadAccessFault ∧ (s.area v).prot &&& protRead ≠ 0)) := by
      rintro ⟨⟨hstore, -⟩, hload, -⟩
      exact absurd (hstore.symm.trans hload) (by decide)
    simp only [pageUnmapHandler, hp, hfind, bind_eq_bind, bind_some, if_pos hcause,
      ite_self]

/-- The handler does what it is for exactly on the accesses that it has to refuse, if its search
ends. -/
theorem pageUnmapHandler_serves_iff (hp : s.proc pid = some p) :
    ServesFault E s pid p badv scause ↔
      (∀ x, OnList s.area p.vmaList x → (s.area x).contains badv →
        ∀ acc, access scause = some acc → ¬ (s.area x).allows acc) ∧
      SearchEnds s.area p.vmaList (pgRoundDown badv) := by
  constructor
  · intro h
    have hno : ¬ ∃ x, Permitted s.area p badv scause x := by
      rintro ⟨x, hx⟩
      obtain ⟨fuel, s', hrun, -⟩ := h.permitted x hx
      exact absurd (pageUnmapHandler_kills hrun).1 Bool.false_ne_true
    obtain ⟨fuel, s', hrun, -⟩ := h.refused hno
    obtain ⟨-, rfl⟩ := pageUnmapHandler_kills hrun
    refine ⟨?_, (pageUnmapHandler_returns_iff hp).mp ⟨fuel, hrun⟩⟩
    intro x hx hin acc hacc hallows
    exact hno ⟨x, hx, hin, acc, hacc, hallows⟩
  · rintro ⟨hno, hends⟩
    obtain ⟨fuel, hrun⟩ : ∃ fuel, pageUnmapHandler E fuel pid badv scause s = some (true, s) :=
      (pageUnmapHandler_returns_iff hp).mpr hends
    refine ⟨?_, fun _ => ⟨fuel, s, hrun, fun _ _ => rfl⟩⟩
    rintro x ⟨hx, hin, acc, hacc, hallows⟩
    exact absurd hallows (hno x hx hin acc hacc)

end

/-! ## An area for reading and writing -/

/-- An anonymous private area of one page at `0x20000` for reading and writing. -/
def anonArgs : MmapArgs := ⟨0x20000, 0x1000, 3, mapFixed ||| mapAnonymous ||| mapPrivate, -1, 0⟩

/-- The first process loads a program without segments and makes the area. -/
def bootAnon : Option (Env Buddy.Pool × State Buddy.Pool) := do
  let (E, m) ← bootSmall
  let s ← procInit E 0 (noProcess m)
  let s ← sysExecve E 1 [] zeroArea none s
  let (_, s) ← sysMmap E 8 1 anonArgs zeroArea s
  some (E, s)

/-- The list has two areas; the second one is empty. -/
def AnonList (area : Nat → Area) (head : Nat) : Prop :=
  (head ≠ 0 ∧ (area head).start = 0x20000 ∧ (area head).end_ = 0x21000 ∧ (area head).prot = 3) ∧
    (area head).next ≠ 0 ∧ (area (area head).next).end_ = 0 ∧ (area (area head).next).next = 0

instance (area : Nat → Area) (head : Nat) : Decidable (AnonList area head) :=
  inferInstanceAs (Decidable (_ ∧ _))

lemma bootAnon_list : ∃ E s p, bootAnon = some (E, s) ∧ s.proc 1 = some p ∧
    AnonList s.area p.vmaList := by
  have hrun : (bootAnon.bind fun x => (x.2.proc 1).map fun p =>
      decide (AnonList x.2.area p.vmaList)) = some true := by
    decide +kernel
  obtain ⟨⟨E, s⟩, hboot, hrun⟩ := bind_eq_some_iff.mp hrun
  obtain ⟨p, hp, heq⟩ := map_eq_some_iff.mp hrun
  exact ⟨E, s, p, hboot, hp, of_decide_eq_true heq⟩

/-- A load beside the areas. -/
theorem pageUnmapHandler_refuses_outside :
    ∃ E s p, bootAnon = some (E, s) ∧ s.proc 1 = some p ∧
      ServesFault E s 1 p 0x30000 loadAccessFault := by
  obtain ⟨E, s, p, hboot, hp, ⟨hne, hstart, hend, hprot⟩, hnext, hempty, hnull⟩ := bootAnon_list
  refine ⟨E, s, p, hboot, hp, (pageUnmapHandler_serves_iff hp).mpr ⟨?_, .inl ?_⟩⟩
  · intro x hx hin
    have hno : x = p.vmaList ∨ x = (s.area p.vmaList).next := by
      cases hx with
      | here _ => exact .inl rfl
      | next _ hx =>
        cases hx with
        | here _ => exact .inr rfl
        | next _ hx =>
          rw [hnull] at hx
          cases hx with
          | here hz => exact absurd rfl hz
          | next hz _ => exact absurd rfl hz
    unfold Area.contains at hin
    rcases hno with rfl | rfl
    · omega
    · omega
  · exact ⟨[p.vmaList, (s.area p.vmaList).next], rfl, hne, rfl, hnext, hnull⟩

/-- A load from the area and a store to it kill the process, although the area allows both. -/
theorem pageUnmapHandler_kills_permitted :
    ∃ E s p x, bootAnon = some (E, s) ∧ s.proc 1 = some p ∧
      Permitted s.area p 0x20008 loadAccessFault x ∧
      Permitted s.area p 0x20008 storeAmoAccessFault x ∧
      (∃ fuel, pageUnmapHandler E fuel 1 0x20008 loadAccessFault s = some (true, s)) ∧
      ∃ fuel, pageUnmapHandler E fuel 1 0x20008 storeAmoAccessFault s = some (true, s) := by
  obtain ⟨E, s, p, hboot, hp, ⟨hne, hstart, hend, hprot⟩, -⟩ := bootAnon_list
  have hcontains : ∀ va, 0x20000 ≤ va → va < 0x21000 → (s.area p.vmaList).contains va := by
    intro va hlo hhi
    unfold Area.contains
    omega
  have hends : SearchEnds s.area p.vmaList (pgRoundDown 0x20008) := by
    exact .inr ⟨p.vmaList, .here hne, hcontains _ (by decide) (by decide)⟩
  refine ⟨E, s, p, p.vmaList, hboot, hp, ?_, ?_, (pageUnmapHandler_returns_iff hp).mpr hends,
    (pageUnmapHandler_returns_iff hp).mpr hends⟩
  · refine ⟨.here hne, hcontains _ (by decide) (by decide), .load, rfl, ?_⟩
    unfold Area.allows
    rw [hprot]
    decide
  · refine ⟨.here hne, hcontains _ (by decide) (by decide), .store, rfl, ?_⟩
    unfold Area.allows
    rw [hprot]
    decide

end Hana.Vma
