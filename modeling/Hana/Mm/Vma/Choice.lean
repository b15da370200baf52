import Hana.Mm.Vma.Live

/-!
# Where mmap puts an area

Without `MAP_FIXED`, `mmap` is to choose a range of its own: it returns the start of a new
area that lies in the window from `mmap_base` to `mmap_brk` and meets no other area
(`Chooses`).

`find_free_vma_range` goes along the list. Its candidates end at `mmap_brk` and then at the
end of each area (`upper`), and it takes the first one that ends at or below the start of
the next area; at the end of the list it takes the last one, unless that one starts below
`mmap_base` (`StopsAt`). So every candidate after the first lies in the area it was computed
from. Besides, the call returns `NULL` for every area it makes. What is left of `Chooses`
are the calls that fail (`mmap_chooses_iff`).
-/

namespace Hana.Vma

open Function Option Lib Vm

variable {A : Type}

/-- The area that comes `k` places behind `head`. -/
def nth (area : Nat → Area) (head k : Nat) : Nat := (fun a => (area a).next)^[k] head

/-- The end of the candidate that is compared with the area `k`. -/
def upper (area : Nat → Area) (head brk : Nat) : Nat → Nat
  | 0 => wrap64 brk
  | k + 1 => wrap64 (area (nth area head k)).end_

/-- The candidate `k` is the first one in front of which the list ends or leaves a gap. -/
structure StopsAt (area : Nat → Area) (head brk k : Nat) : Prop where
  before : ∀ j < k, nth area head j ≠ 0 ∧ (area (nth area head j)).start < upper area head brk j
  stop : nth area head k = 0 ∨ upper area head brk k ≤ (area (nth area head k)).start

/-- The start of the candidate `k`. -/
def candidate (area : Nat → Area) (p : Process) (length k : Nat) : Nat :=
  wrap64 (upper area p.vmaList p.mmapBrk k + (2 ^ 64 - length))

/-- The file of the area is missing. -/
def BadFile (p : Process) (args : MmapArgs) : Prop :=
  args.flags &&& mapAnonymous = 0 ∧
    ((args.fd < 0 ∨ (nrOpen : Int) ≤ args.fd) ∨ p.fdt args.fd.toNat = 0)

/-- The call fails: its offset is not that of a page, the search comes to nothing, or there is no
file. -/
def Fails (E : Env A) (s : State A) (p : Process) (args : MmapArgs) : Prop :=
  isPgAligned args.offset = false ∨ ∃ k, StopsAt s.area p.vmaList p.mmapBrk k ∧
    (candidate s.area p (pgRoundUp args.length) k = 0 ∨
      nth s.area p.vmaList k = 0 ∧ candidate s.area p (pgRoundUp args.length) k < p.mmapBase ∨
      BadFile p args ∧ ∃ v m, kalloc E sizeofVmArea s.mem = some (v, m))

/-- A new area of the given length starts at `va`, in the window, and meets no area that was there
before. -/
structure Placed (pid : Nat) (p : Process) (length va : Nat) (s s' : State A) : Prop where
  area : ∃ p', s'.proc pid = some p' ∧ p'.vmaList ≠ 0 ∧ (s'.area p'.vmaList).start = va ∧
    (s'.area p'.vmaList).end_ = va + length ∧ (s'.area p'.vmaList).next = p.vmaList
  window : p.mmapBase ≤ va ∧ va + length ≤ p.mmapBrk
  free : ∀ x, OnList s.area p.vmaList x → ∀ a, va ≤ a → a < va + length → ¬ (s.area x).contains a

/-- The call returns, and it returns `MMAP_FAILED` or the start of the area that it made. -/
def Chooses (E : Env A) (pid : Nat) (p : Process) (args : MmapArgs) (page : Area) (s : State A) : Prop :=
  ∃ fuel res s', sysMmap E fuel pid args page s = some (res, s') ∧
    (res = -1 ∨ ∃ va : Nat, res = va ∧ Placed pid p (pgRoundUp args.length) va s s')

/-- The areas of the process are pairwise disjoint. -/
def AreasDisjoint (pid : Nat) (s : State A) : Prop :=
  ∀ p, s.proc pid = some p → ∀ x y, OnList s.area p.vmaList x → OnList s.area p.vmaList y → x ≠ y →
    ∀ a, (s.area x).contains a → ¬ (s.area y).contains a

section

variable {area : Nat → Area} {head brk k length fuel hint : Nat} {found : Bool}

/-! ## The search -/

lemma nth_zero (area : Nat → Area) (head : Nat) : nth area head 0 = head := rfl

lemma nth_succ (area : Nat → Area) (head k : Nat) :
    nth area head (k + 1) = nth area (area head).next k := rfl

lemma upper_succ (area : Nat → Area) (head brk k : Nat) :
    upper area head brk (k + 1) = upper area (area head).next (area head).end_ k := by
  cases k with
  | zero => rfl
  | succ k => rfl

/-- The test that the list goes on behind its first area. -/
lemma stopsAt_succ_iff : StopsAt area head brk (k + 1) ↔
    (head ≠ 0 ∧ (area head).start < wrap64 brk) ∧
      StopsAt area (area head).next (area head).end_ k := by
  constructor
  · intro h
    refine ⟨h.before 0 (Nat.succ_pos _), ?_, ?_⟩
    · intro j hj
      have hb := h.before (j + 1) (by omega)
      rwa [nth_succ, upper_succ] at hb
    · have hs := h.stop
      rwa [nth_succ, upper_succ] at hs
  · rintro ⟨hfirst, h⟩
    refine ⟨?_, ?_⟩
    · intro j hj
      cases j with
      | zero => exact hfirst
      | succ j =>
        rw [nth_succ, upper_succ]
        exact h.before j (by omega)
    · rw [nth_succ, upper_succ]
      exact h.stop

lemma wrap64_sub_add (E : Nat) (h : length ≤ 2 ^ 64) :
    wrap64 (wrap64 (E + (2 ^ 64 - length)) + length) = wrap64 E := by
  unfold wrap64
  omega

lemma wrap64_sub (E : Nat) : wrap64 (wrap64 E + (2 ^ 64 - length)) = wrap64 (E + (2 ^ 64 - length)) := by
  unfold wrap64
  omega

/-- What the loop of `find_free_vma_range` returns, whatever its bound. -/
lemma findHint_iff (hlen : length ≤ 2 ^ 64) :
    (∃ fuel, findHint area length fuel head (wrap64 (brk + (2 ^ 64 - length))) = some (hint, found)) ↔
      ∃ k, StopsAt area head brk k ∧ hint = wrap64 (upper area head brk k + (2 ^ 64 - length)) ∧
        found = decide (nth area head k ≠ 0) := by
  constructor
  · rintro ⟨fuel, h⟩
    induction fuel generalizing head brk with
    | zero => cases h
    | succ fuel ih =>
      rw [findHint, wrap64_sub_add brk hlen] at h
      have hnone : ∀ j, j < 0 → nth area head j ≠ 0 ∧
          (area (nth area head j)).start < upper area head brk j :=
        fun j hj => absurd hj j.not_lt_zero
      split_ifs at h with hnull hgap
      · cases h
        refine ⟨0, ⟨hnone, .inl hnull⟩, (wrap64_sub brk).symm, ?_⟩
        simp [nth_zero, hnull]
      · cases h
        refine ⟨0, ⟨hnone, .inr hgap⟩, (wrap64_sub brk).symm, ?_⟩
        simp [nth_zero, hnull]
      · obtain ⟨k, hstop, hhint, hfound⟩ := ih h
        refine ⟨k + 1, stopsAt_succ_iff.mpr ⟨⟨hnull, by omega⟩, hstop⟩, ?_, ?_⟩
        · rw [upper_succ]
          exact hhint
        · exact hfound
  · rintro ⟨k, hstop, rfl, rfl⟩
    induction k generalizing head brk with
    | zero =>
      refine ⟨1, ?_⟩
      rw [findHint, wrap64_sub_add brk hlen]
      by_cases hnull : head = 0
      · rw [if_pos hnull, upper, wrap64_sub, nth_zero]
        simp [hnull]
      · have hgap : wrap64 brk ≤ (area head).start := hstop.stop.resolve_left hnull
        rw [if_neg hnull, if_pos hgap, upper, wrap64_sub, nth_zero]
        simp [hnull]
    | succ k ih =>
      obtain ⟨⟨hne, hlt⟩, hstop⟩ := stopsAt_succ_iff.mp hstop
      obtain ⟨fuel, hrun⟩ := ih hstop
      refine ⟨fuel + 1, ?_⟩
      rw [findHint, wrap64_sub_add brk hlen, if_neg hne, if_neg (by omega), nth_succ, upper_succ]
      exact hrun

end

section

variable {E : Env A} {s s' : State A} {pid : Nat} {p p' : Process} {args : MmapArgs} {page : Area}
variable {res : Int} {va length : Nat}

/-- What `find_free_vma_range` returns, and the process after it. -/
def chosen (area : Nat → Area) (p : Process) (length k : Nat) : Nat × Process :=
  if nth area p.vmaList k = 0 ∧ candidate area p length k < p.mmapBase then
    (0, { p with mmapBrk := wrap64 (p.mmapBrk + max length mmapExpand) })
  else (candidate area p length k, p)

lemma findFreeVmaRange_iff {area : Nat → Area} (hlen : length ≤ 2 ^ 64) :
    (∃ fuel, findFreeVmaRange area fuel p length = some (va, p')) ↔
      ∃ k, StopsAt area p.vmaList p.mmapBrk k ∧ (va, p') = chosen area p length k := by
  have htest : ∀ k hint, (!decide (nth area p.vmaList k ≠ 0) && decide (hint < p.mmapBase)) = true ↔
      nth area p.vmaList k = 0 ∧ hint < p.mmapBase := by
    intro k hint
    simp
  constructor
  · rintro ⟨fuel, h⟩
    obtain ⟨⟨hint, found⟩, hrun, h⟩ := bind_eq_some_iff.mp h
    obtain ⟨k, hstop, rfl, rfl⟩ := (findHint_iff hlen).mp ⟨fuel, hrun⟩
    refine ⟨k, hstop, ?_⟩
    simp only [htest] at h
    unfold chosen candidate
    split_ifs at h ⊢
    · cases h
      rfl
    · cases h
      rfl
  · rintro ⟨k, hstop, heq⟩
    obtain ⟨fuel, hrun⟩ := (findHint_iff hlen).mpr ⟨k, hstop, rfl, rfl⟩
    refine ⟨fuel, ?_⟩
    rw [heq]
    simp only [findFreeVmaRange, hrun, bind_eq_bind, bind_some, htest]
    unfold chosen candidate
    split_ifs
    · rfl
    · rfl

/-! ## The call -/

/-- The call fails without an address; with one it makes an area there, and links it if its file is
in order. -/
lemma sysMmap_of_find (E : Env A) (page : Area) (hp : s.proc pid = some p)
    (hflags : args.flags &&& mapFixed = 0)
    (hpos : 0 < args.length) (halign : isPgAligned args.offset = true) {fuel : Nat}
    (hfind : findFreeVmaRange s.area fuel p (pgRoundUp args.length) = some (va, p')) :
    (va = 0 → sysMmap E fuel pid args page s = some (-1, s.setProc pid p')) ∧
    (va ≠ 0 → kallocArea E page (s.setProc pid p') = none → sysMmap E fuel pid args page s = none) ∧
    ∀ v s1, va ≠ 0 → kallocArea E page (s.setProc pid p') = some (v, s1) →
      (BadFile p' args → ∃ a, sysMmap E fuel pid args page s = some (-1, s1.setArea v a)) ∧
      (¬ BadFile p' args → ∃ a f, a.start = va ∧ a.end_ = wrap64 (va + pgRoundUp args.length) ∧
        sysMmap E fuel pid args page s =
          some (0, linkArea pid p' v { s1.setArea v a with fRef := f })) := by
  have hgood : ¬ (args.length = 0 ∨ (!isPgAligned args.offset) = true) := by
    rw [halign]
    simp
    omega
  refine ⟨fun hva => ?_, fun hva hnone => ?_, fun v s1 hva hk => ?_⟩
  · simp only [sysMmap, hp, bind_eq_bind, bind_some, if_neg hgood, mmapVa, hflags, ne_eq,
      not_true_eq_false, if_false, hfind, hva]
  · simp only [sysMmap, hp, bind_eq_bind, bind_some, if_neg hgood, mmapVa, hflags, ne_eq,
      not_true_eq_false, if_false, hfind, hva, not_false_eq_true, if_true, hnone, bind_none]
  · simp only [sysMmap, hp, bind_eq_bind, bind_some, if_neg hgood, mmapVa, hflags, ne_eq,
      not_true_eq_false, if_false, hfind, hva, not_false_eq_true, if_true, hk, State.setArea,
      update_self, update_idem]
    constructor
    · rintro ⟨hanon, hfile⟩
      rw [if_neg (not_not.mpr hanon)]
      by_cases hfd : args.fd < 0 ∨ (nrOpen : Int) ≤ args.fd
      · rw [if_pos hfd]
        exact ⟨_, rfl⟩
      · rw [if_neg hfd, if_pos (hfile.resolve_left hfd)]
        exact ⟨_, rfl⟩
    · intro hok
      by_cases hanon : args.flags &&& mapAnonymous = 0
      · have hfd : ¬ (args.fd < 0 ∨ (nrOpen : Int) ≤ args.fd) := fun hfd => hok ⟨hanon, .inl hfd⟩
        have hfile : p'.fdt args.fd.toNat ≠ 0 := fun hfile => hok ⟨hanon, .inr hfile⟩
        rw [if_neg (not_not.mpr hanon), if_neg hfd, if_neg hfile]
        refine ⟨_, _, ?_, ?_, rfl⟩
        · rfl
        · rfl
      · rw [if_pos hanon]
        refine ⟨_, s1.fRef, ?_, ?_, rfl⟩
        · rfl
        · rfl

lemma linkArea_head (pid : Nat) (p : Process) (v : Nat) (s : State A) :
    (linkArea pid p v s).proc pid = some { p with vmaList := v } ∧
      ((linkArea pid p v s).area v).start = (s.area v).start := by
  refine ⟨?_, (congrArg Area.start (linkArea_fields pid p v s v) :)⟩
  exact update_self _ _ _

lemma StopsAt.unique {area : Nat → Area} {head brk k k' : Nat} (h : StopsAt area head brk k)
    (h' : StopsAt area head brk k') : k = k' := by
  rcases lt_trichotomy k k' with hlt | heq | hlt
  · obtain ⟨hne, hstart⟩ := h'.before k hlt
    have := h.stop.resolve_left hne
    omega
  · exact heq
  · obtain ⟨hne, hstart⟩ := h.before k' hlt
    have := h'.stop.resolve_left hne
    omega

lemma pgRoundUp_le (n : Nat) : pgRoundUp n ≤ 2 ^ 64 := by
  exact le_of_lt (and_pgMask_lt _)

lemma sysMmap_of_offset (hp : s.proc pid = some p) (halign : isPgAligned args.offset = false)
    (fuel : Nat) : sysMmap E fuel pid args page s = some (-1, s) := by
  simp only [sysMmap, hp, bind_eq_bind, bind_some, halign, Bool.not_false, or_true,
    if_true]

lemma sysMmap_of_not_find (hp : s.proc pid = some p) (hflags : args.flags &&& mapFixed = 0)
    (hpos : 0 < args.length) (halign : isPgAligned args.offset = true) {fuel : Nat}
    (hfind : findFreeVmaRange s.area fuel p (pgRoundUp args.length) = none) :
    sysMmap E fuel pid args page s = none := by
  have hgood : ¬ (args.length = 0 ∨ (!isPgAligned args.offset) = true) := by
    rw [halign]
    simp
    omega
  simp only [sysMmap, hp, bind_eq_bind, bind_some, if_neg hgood, mmapVa, hflags, ne_eq,
    not_true_eq_false, if_false, hfind, bind_none]

lemma kallocArea_eq_some {v : Nat} {s1 : State A} (h : kallocArea E page s = some (v, s1)) :
    ∃ m, kalloc E sizeofVmArea s.mem = some (v, m) ∧
      s1 = { s with mem := m, area := update s.area v page } := by
  obtain ⟨⟨v', m⟩, hk, heq⟩ := bind_eq_some_iff.mp h
  cases heq
  exact ⟨m, hk, rfl⟩

/-- A call that returns has failed and changed no list, or it made an area at an address that is not
zero, and returns zero. -/
lemma sysMmap_choice (hp : s.proc pid = some p) (hflags : args.flags &&& mapFixed = 0)
    (hpos : 0 < args.length) {fuel : Nat} (h : sysMmap E fuel pid args page s = some (res, s')) :
    (res = -1 ∧ Fails E s p args ∧ (s' = s ∨ ∃ p', p'.vmaList = p.vmaList ∧ (s' = s.setProc pid p' ∨
      ∃ v m a, kalloc E sizeofVmArea s.mem = some (v, m) ∧
        s' = { s.setProc pid p' with mem := m, area := update s.area v a }))) ∨
      res = 0 ∧ ¬ Fails E s p args ∧
        ∃ p', s'.proc pid = some p' ∧ (s'.area p'.vmaList).start ≠ 0 := by
  cases halign : isPgAligned args.offset with
  | false =>
    rw [sysMmap_of_offset hp halign] at h
    cases h
    exact .inl ⟨rfl, .inl halign, .inl rfl⟩
  | true =>
    cases hfind : findFreeVmaRange s.area fuel p (pgRoundUp args.length) with
    | none =>
      rw [sysMmap_of_not_find hp hflags hpos halign hfind] at h
      cases h
    | some r =>
      obtain ⟨va, p'⟩ := r
      have hhead := findFreeVmaRange_vmaList hfind
      obtain ⟨k, hstop, hchosen⟩ := (findFreeVmaRange_iff (pgRoundUp_le _)).mp ⟨fuel, hfind⟩
      obtain ⟨hzero, hnone, hsome⟩ :=
        sysMmap_of_find E page hp hflags hpos halign hfind
      by_cases hva : va = 0
      · rw [hzero hva] at h
        cases h
        refine .inl ⟨rfl, .inr ⟨k, hstop, ?_⟩, .inr ⟨p', hhead, .inl rfl⟩⟩
        unfold chosen at hchosen
        split_ifs at hchosen with hlast
        · exact .inr (.inl hlast)
        · cases hchosen
          exact .inl hva
      · have hfound : ¬ (nth s.area p.vmaList k = 0 ∧
            candidate s.area p (pgRoundUp args.length) k < p.mmapBase) ∧
            va = candidate s.area p (pgRoundUp args.length) k ∧ p' = p := by
          unfold chosen at hchosen
          split_ifs at hchosen with hlast
          · cases hchosen
            exact absurd rfl hva
          · cases hchosen
            exact ⟨hlast, rfl, rfl⟩
        obtain ⟨hlast, hcand, rfl⟩ := hfound
        cases hk : kallocArea E page (s.setProc pid p') with
        | none =>
          rw [hnone hva hk] at h
          cases h
        | some r =>
          obtain ⟨v, s1⟩ := r
          obtain ⟨m, hkalloc, rfl⟩ := kallocArea_eq_some hk
          obtain ⟨hbad, hgood⟩ := hsome v _ hva hk
          by_cases hfile : BadFile p' args
          · obtain ⟨a, hrun⟩ := hbad hfile
            rw [hrun] at h
            cases h
            refine .inl ⟨rfl, .inr ⟨k, hstop, .inr (.inr ⟨hfile, v, m, hkalloc⟩)⟩,
              .inr ⟨p', rfl, .inr ⟨v, m, a, hkalloc, ?_⟩⟩⟩
            simp only [State.setArea, State.setProc, update_idem]
          · obtain ⟨a, f, hstart, -, hrun⟩ := hgood hfile
            rw [hrun] at h
            cases h
            refine .inr ⟨rfl, ?_, _, (linkArea_head _ _ _ _).1, ?_⟩
            · rintro (hoff | ⟨k', hstop', hcases⟩)
              · rw [halign] at hoff
                cases hoff
              · obtain rfl := hstop.unique hstop'
                rcases hcases with hc | hc | hc
                · exact hva (hcand.trans hc)
                · exact hlast hc
                · exact hfile hc.1
            · rw [(linkArea_head _ _ _ _).2]
              simp only [State.setArea, update_self, hstart]
              exact hva

/-- One call does what it should exactly when it fails. -/
lemma chooses_iff (hp : s.proc pid = some p) (hflags : args.flags &&& mapFixed = 0)
    (hpos : 0 < args.length) : Chooses E pid p args page s ↔ Fails E s p args := by
  constructor
  · rintro ⟨fuel, res, s', hrun, hres⟩
    rcases sysMmap_choice hp hflags hpos hrun with ⟨-, hfails, -⟩ | ⟨rfl, -, p', hp', hstart⟩
    · exact hfails
    · rcases hres with hres | ⟨va, hva, hplaced⟩
      · cases hres
      · -- the call returns zero, and the area does not start there
        obtain ⟨p'', hp'', -, hstart', -⟩ := hplaced.area
        rw [hp'] at hp''
        cases hp''
        refine absurd (hstart'.trans ?_) hstart
        exact_mod_cast hva.symm
  · rintro (hoff | ⟨k, hstop, hcases⟩)
    · exact ⟨0, -1, s, sysMmap_of_offset hp hoff 0, .inl rfl⟩
    · cases halign : isPgAligned args.offset with
      | false => exact ⟨0, -1, s, sysMmap_of_offset hp halign 0, .inl rfl⟩
      | true =>
        obtain ⟨fuel, hfind⟩ := (findFreeVmaRange_iff (pgRoundUp_le args.length)).mpr
          ⟨k, hstop, Prod.mk.eta⟩
        obtain ⟨hzero, -, hsome⟩ :=
          sysMmap_of_find E page hp hflags hpos halign hfind
        by_cases hva : (chosen s.area p (pgRoundUp args.length) k).1 = 0
        · exact ⟨fuel, -1, _, hzero hva, .inl rfl⟩
        · have hsame : ¬ (nth s.area p.vmaList k = 0 ∧
              candidate s.area p (pgRoundUp args.length) k < p.mmapBase) := by
            intro hlast
            rw [chosen, if_pos hlast] at hva
            exact hva rfl
          rw [chosen, if_neg hsame] at hva hsome
          rcases hcases with hc | hc | ⟨hfile, v, m, hk⟩
          · exact absurd hc hva
          · exact absurd hc hsame
          · obtain ⟨s1, hkarea⟩ : ∃ s1, kallocArea E page (s.setProc pid p) = some (v, s1) := by
              simp only [kallocArea, State.setProc, hk, bind_eq_bind, bind_some]
              exact ⟨_, rfl⟩
            obtain ⟨a, hrun⟩ := (hsome v s1 hva hkarea).1 hfile
            exact ⟨fuel, -1, _, hrun, .inl rfl⟩

/-! ## Runs -/

/-- A call of `mmap` without `MAP_FIXED` that returns. -/
def mmapStep (E : Env A) (pid : Nat) (s : State A) (call : MmapArgs × Area) (s' : State A) : Prop :=
  (call.1.flags &&& mapFixed = 0 ∧ 0 < call.1.length) ∧
    ∃ fuel res, sysMmap E fuel pid call.1 call.2 s = some (res, s')

/-- What a step of a run is to do. -/
def StepChooses (E : Env A) (pid : Nat) (s : State A) (call : MmapArgs × Area) (s' : State A) : Prop :=
  (∀ p, s.proc pid = some p → Chooses E pid p call.1 call.2 s) ∧ AreasDisjoint pid s'

/-- The process is there, its areas are disjoint and in allocated pages. -/
structure MmapReady (Inv : A → Prop) (Held : A → Nat → Nat → Prop) (pid : Nat) (s : State A) : Prop where
  alloc : Inv s.mem.alloc
  proc : ∃ p, s.proc pid = some p
  owned : ∀ p, s.proc pid = some p → ∀ x, OnList s.area p.vmaList x → Owned Held s.mem.alloc x
  disjoint : AreasDisjoint pid s

lemma OnList.congr {area area' : Nat → Area} {head x : Nat}
    (h : ∀ y, OnList area head y → area' y = area y) (hx : OnList area' head x) : OnList area head x := by
  induction hx with
  | here hne => exact .here hne
  | @next a x hne _ ih =>
    have hnext := h a (.here hne)
    rw [hnext] at ih
    exact .next hne (ih fun y hy => h y (.next hne hy))

/-- A failed call leaves the areas as they are. -/
lemma MmapReady.failed {Inv : A → Prop} {Held : A → Nat → Nat → Prop} {lo hi : Nat}
    (hE : E.Ok lo hi Inv Held) (h : MmapReady Inv Held pid s) (hp : s.proc pid = some p)
    (hs : s' = s ∨ ∃ p', p'.vmaList = p.vmaList ∧ (s' = s.setProc pid p' ∨
      ∃ v m a, kalloc E sizeofVmArea s.mem = some (v, m) ∧
        s' = { s.setProc pid p' with mem := m, area := update s.area v a })) :
    MmapReady Inv Held pid s' := by
  have howned := h.owned p hp
  have hdisjoint := h.disjoint p hp
  rcases hs with rfl | ⟨p', hhead, rfl | ⟨v, m, a, hk, rfl⟩⟩
  · exact h
  · have hproc : ∀ q, (s.setProc pid p').proc pid = some q → q.vmaList = p.vmaList := by
      intro q hq
      simp only [State.setProc, update_self, some.injEq] at hq
      rw [← hq, hhead]
    refine ⟨h.alloc, ⟨p', update_self _ _ _⟩, fun q hq x hx => ?_, fun q hq x y hx hy => ?_⟩
    · rw [hproc q hq] at hx
      exact howned x hx
    · rw [hproc q hq] at hx hy
      exact hdisjoint x y hx hy
  · obtain ⟨⟨v', al⟩, halloc, heq⟩ := bind_eq_some_iff.mp hk
    cases heq
    obtain ⟨hinv, n, hn, hone, hapart, hheld⟩ :=
      hE.lawful.kalloc_spec h.alloc (by decide) (by decide) halloc
    have hnew : ∀ x, Owned Held s.mem.alloc x → x ≠ v := by
      rintro x ⟨q, j, hq, hlo, hhi⟩ rfl
      have := hapart q j hq
      omega
    have hsame : ∀ x, OnList s.area p.vmaList x → update s.area v a x = s.area x :=
      fun x hx => update_of_ne (hnew x (howned x hx)) _ _
    refine ⟨hinv, ⟨p', update_self _ _ _⟩, fun q hq x hx => ?_, fun q hq x y hx hy => ?_⟩
    · simp only [State.setProc, update_self, some.injEq] at hq
      subst hq
      rw [hhead] at hx
      obtain ⟨b, j, hb, hlo, hhi⟩ := howned x (hx.congr hsame)
      exact ⟨b, j, (hheld b j).mpr (.inr hb), hlo, hhi⟩
    · simp only [State.setProc, update_self, some.injEq] at hq
      subst hq
      rw [hhead] at hx hy
      have hx' := hx.congr hsame
      have hy' := hy.congr hsame
      simp only [hsame x hx', hsame y hy']
      exact hdisjoint x y hx' hy'

/-- A call of `mmap` chooses a free range exactly when it fails; and the calls of a run do so, and
keep the areas of the process disjoint, exactly when all of them fail. -/
theorem mmap_chooses_iff {Inv : A → Prop} {Held : A → Nat → Nat → Prop} {lo hi : Nat}
    (hE : E.Ok lo hi Inv Held) (hready : MmapReady Inv Held pid s) (hp : s.proc pid = some p) :
    (∀ args page, args.flags &&& mapFixed = 0 → 0 < args.length →
      (Chooses E pid p args page s ↔ Fails E s p args)) ∧
    ∀ ts s', Run (mmapStep E pid) s ts s' →
      ((∀ t ∈ ts, StepChooses E pid t.source t.label t.target) ↔
        ∀ t ∈ ts, ∀ q, t.source.proc pid = some q → Fails E t.source q t.label.1) := by
  refine ⟨fun args page hflags hpos => chooses_iff hp hflags hpos, fun ts s' hr => ?_⟩
  have hstep : ∀ s (call : MmapArgs × Area) s', MmapReady Inv Held pid s →
      (∀ q, s.proc pid = some q → Fails E s q call.1) → mmapStep E pid s call s' →
      MmapReady Inv Held pid s' := by
    rintro s call s' hready hfails ⟨⟨hflags, hpos⟩, fuel, res, hrun⟩
    obtain ⟨q, hq⟩ := hready.proc
    rcases sysMmap_choice hq hflags hpos hrun with ⟨-, -, hs'⟩ | ⟨-, hno, -⟩
    · exact hready.failed hE hq hs'
    · exact absurd (hfails q hq) hno
  have hexact : ∀ s (call : MmapArgs × Area) s', MmapReady Inv Held pid s →
      mmapStep E pid s call s' → (StepChooses E pid s call s' ↔
        ∀ q, s.proc pid = some q → Fails E s q call.1) := by
    intro s call s' hready hcall
    constructor
    · intro hgood q hq
      exact (chooses_iff hq hcall.1.1 hcall.1.2).mp (hgood.1 q hq)
    · intro hfails
      refine ⟨fun q hq => (chooses_iff hq hcall.1.1 hcall.1.2).mpr (hfails q hq), ?_⟩
      exact (hstep s call s' hready hfails hcall).disjoint
  exact hr.forall_iff hready hstep hexact

end

/-! ## A child without areas -/

/-- The first process forks; the child, process 2, has no areas. -/
def bootChild : Option (Env Buddy.Pool × State Buddy.Pool) := do
  let (E, m) ← bootSmall
  let s ← procInit E 0 (noProcess m)
  let (_, s) ← sysClone E 0 1 0 0 s
  some (E, s)

/-- An anonymous private area of the given length, anywhere. -/
def anywhere (length : Nat) : MmapArgs := ⟨0, length, 3, mapAnonymous ||| mapPrivate, -1, 0⟩

lemma bootChild_ready {E : Env Buddy.Pool} {p : Process}
    {s : State Buddy.Pool} (hboot : bootChild = some (E, s))
    (hp : s.proc 2 = some p) (hempty : p.vmaList = 0) :
    E.Ok (bootLo 0x80300000 0x80310000) (pgRoundDown 0x80310000)
        (bootInv 0x80250000 0x80300000 0x80310000) Buddy.held ∧
      MmapReady (bootInv 0x80250000 0x80300000 0x80310000) Buddy.held 2 s := by
  simp only [bootChild, bind_eq_bind, bind_eq_some_iff, Prod.exists, some.injEq,
    Prod.mk.injEq] at hboot
  obtain ⟨E', m, hsmall, s1, hinit, cpid, s2, hclone, rfl, rfl⟩ := hboot
  obtain ⟨hE, hs⟩ := bootSmall_ok hsmall
  obtain ⟨v, m', a, q, -, -, -, hinv, -, rfl⟩ := procInit_cases hE hs.alloc hinit
  have hsame : s2.mem = m' := by
    cases hclone
    rfl
  have hnone : ∀ p', s2.proc 2 = some p' → ∀ x, ¬ OnList s2.area p'.vmaList x := by
    intro p' hp' x hx
    rw [hp] at hp'
    cases hp'
    rw [hempty] at hx
    cases hx with
    | here hz => exact absurd rfl hz
    | next hz _ => exact absurd rfl hz
  refine ⟨hE, ?_, ⟨p, hp⟩, fun p' hp' x hx => absurd hx (hnone p' hp' x),
    fun p' hp' x _ hx => absurd hx (hnone p' hp' x)⟩
  rw [hsame]
  exact hinv

/-- The child asks for more than the window holds. -/
theorem mmap_chooses_nothing :
    ∃ E s p s', bootChild = some (E, s) ∧ s.proc 2 = some p ∧
      Chooses E 2 p (anywhere 0x80000000) zeroArea s ∧
      Run (mmapStep E 2) s [⟨s, (anywhere 0x80000000, zeroArea), s'⟩] s' ∧
      StepChooses E 2 s (anywhere 0x80000000, zeroArea) s' := by
  have hrun : (bootChild.bind fun b => (b.2.proc 2).bind fun p =>
      (sysMmap b.1 1 2 (anywhere 0x80000000) zeroArea b.2).map fun r =>
        decide (p.vmaList = 0 ∧ p.mmapBase = mmapBase ∧ p.mmapBrk = mmapBase + mmapInitSize)) =
      some true := by
    decide +kernel
  obtain ⟨⟨E, s⟩, hboot, hrun⟩ := bind_eq_some_iff.mp hrun
  obtain ⟨p, hp, hrun⟩ := bind_eq_some_iff.mp hrun
  obtain ⟨⟨res, s'⟩, hcall, hwin⟩ := map_eq_some_iff.mp hrun
  obtain ⟨hempty, hbase, hbrk⟩ := of_decide_eq_true hwin
  obtain ⟨hE, hready⟩ := bootChild_ready hboot hp hempty
  have hfails : Fails E s p (anywhere 0x80000000) := by
    have hnull : nth s.area p.vmaList 0 = 0 := hempty
    refine .inr ⟨0, ⟨nofun, .inl hnull⟩,
      .inr (.inl ⟨hnull, ?_⟩)⟩
    rw [candidate, upper, hbase, hbrk]
    decide
  have hr : Run (mmapStep E 2) s [⟨s, (anywhere 0x80000000, zeroArea), s'⟩] s' :=
    Run.nil.snoc ⟨by decide, 1, res, hcall⟩
  obtain ⟨hone, hall⟩ := mmap_chooses_iff hE hready hp
  refine ⟨E, s, p, s', hboot, hp, (hone _ _ (by decide) (by decide)).mpr hfails, hr, ?_⟩
  refine (hall _ _ hr).mpr ?_ _ List.mem_cons_self
  rintro t ht q hq
  obtain rfl := List.mem_singleton.mp ht
  rw [hp] at hq
  cases hq
  exact hfails

/-- The child asks for one page and then for one page. Both calls return `NULL`, and both areas are the
last page below `mmap_brk`. -/
theorem mmap_chooses_twice :
    ∃ E s s₁ s₂ p, bootChild = some (E, s) ∧ AreasDisjoint 2 s ∧
      sysMmap E 2 2 (anywhere 0x1000) zeroArea s = some (0, s₁) ∧
      sysMmap E 2 2 (anywhere 0x1000) zeroArea s₁ = some (0, s₂) ∧
      s₂.proc 2 = some p ∧ ¬ AreasDisjoint 2 s₂ ∧
      ∃ x y, x ≠ y ∧ OnList s₂.area p.vmaList x ∧ OnList s₂.area p.vmaList y ∧
        (s₂.area x).start = 0x83ffff000 ∧ (s₂.area x).end_ = 0x840000000 ∧
        (s₂.area y).start = 0x83ffff000 ∧ (s₂.area y).end_ = 0x840000000 := by
  have hrun : (bootChild.bind fun b => (b.2.proc 2).bind fun p =>
      (sysMmap b.1 2 2 (anywhere 0x1000) zeroArea b.2).bind fun r1 =>
      (sysMmap b.1 2 2 (anywhere 0x1000) zeroArea r1.2).bind fun r2 => (r2.2.proc 2).map fun q =>
        decide (p.vmaList = 0 ∧ r1.1 = 0 ∧ r2.1 = 0 ∧ q.vmaList ≠ 0 ∧
          (r2.2.area q.vmaList).next ≠ 0 ∧ (r2.2.area q.vmaList).next ≠ q.vmaList ∧
          (r2.2.area q.vmaList).start = 0x83ffff000 ∧ (r2.2.area q.vmaList).end_ = 0x840000000 ∧
          (r2.2.area (r2.2.area q.vmaList).next).start = 0x83ffff000 ∧
          (r2.2.area (r2.2.area q.vmaList).next).end_ = 0x840000000)) = some true := by
    decide +kernel
  simp only [bind_eq_some_iff, map_eq_some_iff, Prod.exists] at hrun
  obtain ⟨E, s, hboot, p, hp, res1, s₁, hcall1, res2, s₂, hcall2, q, hq, hareas⟩ := hrun
  obtain ⟨hempty, hres1, hres2, hne, hnext, hother, hstart, hend, hstart', hend'⟩ :=
    of_decide_eq_true hareas
  subst hres1 hres2
  have hx : OnList s₂.area q.vmaList q.vmaList := .here hne
  have hy : OnList s₂.area q.vmaList (s₂.area q.vmaList).next := .next hne (.here hnext)
  refine ⟨E, s, s₁, s₂, q, hboot, (bootChild_ready hboot hp hempty).2.disjoint, hcall1, hcall2, hq, ?_,
    (s₂.area q.vmaList).next, q.vmaList, hother, hy, hx, hstart', hend', hstart, hend⟩
  intro hdisjoint
  refine hdisjoint q hq _ _ hy hx hother 0x83ffff000 ?_ ?_
  · rw [Area.contains, hstart', hend']
    decide
  · rw [Area.contains, hstart, hend]
    decide

end Hana.Vma
