import Hana.Mm.Vma.Live

/-!
# Areas of files

Runs of `mmap`, `munmap` and page faults. An address of an area with a file has a position in that
file, which should stay what it was when the area was mapped, and every live area should hold one
reference to its file. `Traced` keeps along a run what each area was mapped as; an area that
`munmap` splits off was mapped as the area it was a part of.

`do_munmap` moves the start of an area without its offset, and an area that it splits off has the
offset of the other part and no reference of its own. The positions and references are kept
exactly as long as only the end of an area is given back, or all of it. A dirty page is never
written as it should be: `kernel_write` gets its address in the memory of the user and takes it for
one of the kernel's own.
-/

namespace Hana.Vma

open Lib Vm List Option

variable {A : Type}

/-! ## Positions -/

/-- What an area maps. -/
structure Mapping where
  start : Nat
  end_ : Nat
  file : Nat
  offset : Nat

def Area.mapping (a : Area) : Mapping := ⟨a.start, a.end_, a.file, a.offset⟩

/-- The position in the file, as `do_munmap` computes it. -/
def Mapping.position (m : Mapping) (a : Nat) : Nat := wrap64 (m.offset + (a - m.start))

/-- `m` lies in `o`, and its addresses have the positions that they have there. -/
structure PartOf (m o : Mapping) : Prop where
  file : m.file = o.file
  start : o.start ≤ m.start
  end_ : m.end_ ≤ o.end_
  position : ∀ a, m.start ≤ a → a < m.end_ → m.position a = o.position a

/-! ## Runs -/

/-- A state, and what each area was mapped as. -/
structure Traced (A : Type) where
  state : State A
  origin : Nat → Mapping

/-- The state that a run starts from. -/
def Traced.start (s : State A) : Traced A := ⟨s, fun x => (s.area x).mapping⟩

inductive Op where
  | kalloc (sz : Nat)
  | mmap (pid : Nat) (args : MmapArgs) (page : Area)
  | fault (pid badv scause : Nat)
  | munmap (pid addr length : Nat)

def opStep (E : Env A) (s : State A) : Op → State A → Prop
  | .kalloc sz, s' => step E s (.kalloc sz) s'
  | .mmap pid args page, s' => step E s (.mmap pid args page) s'
  | .fault pid badv scause, s' => ∃ fuel killed, pageUnmapHandler E fuel pid badv scause s = some (killed, s')
  | .munmap pid addr length, s' => step E s (.munmap pid addr length) s'

/-- `munmap` works on the area `vma` of the process `p`. -/
structure Finds (s : State A) (pid addr length : Nat) (p : Process) (vma : Nat) : Prop where
  proc : s.proc pid = some p
  length : pgRoundUp length ≠ 0
  found : ∃ fuel, findVma s.area (pgRoundDown addr) fuel p.vmaList = some vma
  ne_null : vma ≠ 0

/-- One step; a live area keeps its origin. -/
structure TracedStep (E : Env A) (k : Traced A) (op : Op) (k' : Traced A) : Prop where
  step : opStep E k.state op k'.state
  kept : ∀ x, Live k.state x → k'.origin x = k.origin x
  mapped : ∀ pid args page, op = .mmap pid args page → ∀ x, Live k'.state x → ¬ Live k.state x →
    k'.origin x = (k'.state.area x).mapping
  split : ∀ pid addr length, op = .munmap pid addr length → ∀ x, Live k'.state x → ¬ Live k.state x →
    ∃ p vma, Finds k.state pid addr length p vma ∧ k'.origin x = k.origin vma

/-- The dirty pages from `b` up to `c`. -/
def dirtyPages (m : Mem A) (pagetable b c : Nat) : List Nat :=
  ((range ((c - b + 4095) / 4096)).map fun i => b + 4096 * i).filter fun a =>
    has (leaf m pagetable (a >>> 12)) pteD

/-- The area is written back. -/
def Area.isShared (a : Area) : Bool := a.flags &&& mapShared ≠ 0 ∧ a.flags &&& mapPrivate = 0

/-- What should hold in a run from `s₀`: the positions are those that were mapped, and every live
area has one reference. -/
structure FilesOk (s₀ : State A) (k : Traced A) : Prop where
  area : ∀ x, Live k.state x → (k.state.area x).file ≠ 0 → PartOf (k.state.area x).mapping (k.origin x)
  refs : ∀ file, file ≠ 0 → otherRefs k.state file = otherRefs s₀ file

/-- The same after a step, which writes each dirty page that it takes away, from the frame that the
page has, to its own position. -/
structure KeepsFiles (s₀ : State A) (k : Traced A) (op : Op) (k' : Traced A) : Prop extends
    FilesOk s₀ k' where
  written : ∀ pid addr length p vma, op = .munmap pid addr length →
    Finds k.state pid addr length p vma → (k.state.area vma).file ≠ 0 →
    k'.state.written = k.state.written ++ if (k.state.area vma).isShared then
      (dirtyPages k.state.mem p.pagetable (pgRoundDown addr)
        (unmapEnd (k.state.area vma) addr length)).map fun a =>
          ((k.origin vma).file, (k.origin vma).position a, pte2pa (leaf k.state.mem p.pagetable (a >>> 12)))
      else []

/-! ## Conditions -/

/-- The lists stay in order. -/
def Ordered (s : State A) : Op → Prop
  | .mmap pid args page => Cond s (.mmap pid args page)
  | .munmap pid addr length => Cond s (.munmap pid addr length)
  | _ => True

/-- `munmap` takes no dirty page of a shared area of a file. -/
def Clean (s : State A) : Op → Prop
  | .munmap pid addr length => ∀ p vma, Finds s pid addr length p vma → (s.area vma).file ≠ 0 →
      (s.area vma).isShared = true →
      dirtyPages s.mem p.pagetable (pgRoundDown addr) (unmapEnd (s.area vma) addr length) = []
  | _ => True

/-- `munmap` takes an area with a file up to its end, and not all of one that maps a standard
stream. -/
def TakesEnd (s : State A) : Op → Prop
  | .munmap pid addr length => ∀ p vma, Finds s pid addr length p vma → (s.area vma).file ≠ 0 →
      (s.area vma).end_ ≤ wrap64 (pgRoundDown addr + pgRoundUp length) ∧
      ((s.area vma).start = pgRoundDown addr → isStdstream (s.area vma).file = false)
  | _ => True

/-! ## Page faults -/

variable {fuel b c pagetable a x : Nat}

/-- No fault has both causes, so the handler kills the process and changes nothing else. -/
lemma pageUnmapHandler_kills {E : Env A} {pid badv scause : Nat} {s s' : State A} {killed : Bool}
    (h : pageUnmapHandler E fuel pid badv scause s = some (killed, s')) : killed = true ∧ s' = s := by
  obtain ⟨p, -, h⟩ := bind_eq_some_iff.mp h
  obtain ⟨vma, -, h⟩ := bind_eq_some_iff.mp h
  have hcause : ¬ ((scause = storeAmoAccessFault ∧ (s.area vma).prot &&& protWrite ≠ 0) ∧
      (scause = loadAccessFault ∧ (s.area vma).prot &&& protRead ≠ 0)) := by
    rintro ⟨⟨hstore, -⟩, hload, -⟩
    exact absurd (hstore.symm.trans hload) (by decide)
  by_cases hnull : vma = 0
  · rw [if_pos hnull] at h
    cases h
    exact ⟨rfl, rfl⟩
  · rw [if_neg hnull, if_pos hcause] at h
    cases h
    exact ⟨rfl, rfl⟩

section

variable {Inv : A → Prop} {Held : A → Nat → Nat → Prop} {lo hi : Nat} {E : Env A}
variable {s s' : State A} {pid addr length vma : Nat} {p : Process}

/-! ## Searches -/

lemma findVma_unique {area : Nat → Area} {va fuel' head v v' : Nat}
    (h : findVma area va fuel head = some v) (h' : findVma area va fuel' head = some v') : v = v' := by
  induction fuel generalizing fuel' head with
  | zero => cases h
  | succ fuel ih =>
    cases fuel' with
    | zero => cases h'
    | succ fuel' =>
      rw [findVma] at h h'
      split_ifs at h h'
      · exact some.inj (h.symm.trans h')
      · exact some.inj (h.symm.trans h')
      · exact ih h h'

lemma Finds.eq (h : Finds s pid addr length p vma) {p' : Process} {vma' : Nat}
    (hp : s.proc pid = some p') (hfind : findVma s.area (pgRoundDown addr) fuel p'.vmaList = some vma') :
    p = p' ∧ vma = vma' := by
  have hpp : p = p' := some.inj (h.proc.symm.trans hp)
  subst hpp
  obtain ⟨fuel', hfound⟩ := h.found
  exact ⟨rfl, findVma_unique hfound hfind⟩

/-! ## Writing back -/

lemma dirtyPages_of_lt (m : Mem A) (pagetable : Nat) (h : b < c) :
    dirtyPages m pagetable b c = (if has (leaf m pagetable (b >>> 12)) pteD then [b] else []) ++
      dirtyPages m pagetable (b + 4096) c := by
  have hcount : (c - b + 4095) / 4096 = (c - (b + 4096) + 4095) / 4096 + 1 := by omega
  have hshift : (fun i => b + 4096 * i) ∘ Nat.succ = fun i => b + 4096 + 4096 * i := by
    funext i
    simp only [Function.comp_apply, Nat.succ_eq_add_one]
    ring
  rw [dirtyPages, dirtyPages, hcount, List.range_succ_eq_map, List.map_cons, List.map_map, hshift,
    filter_cons, Nat.mul_zero, add_zero]
  split_ifs
  · rw [singleton_append]
  · rw [nil_append]

/-- The loop does nothing where no page is dirty. -/
lemma writeBack_clean {vma : Area} (hc : c + 4096 ≤ 2 ^ 64) (hclean : dirtyPages s.mem pagetable a c = [])
    (h : writeBack E pagetable vma c fuel a s = some s') : s' = s := by
  induction fuel generalizing a s with
  | zero => cases h
  | succ fuel ih =>
    rcases writeBack_succ h with ⟨-, hs'⟩ | ⟨hlt, s1, hrest, hs1⟩
    · exact hs'
    · have hstep : wrap64 (a + pgSize) = a + 4096 := by
        rw [pgSize]
        exact wrap64_of_lt (by omega)
      rw [hstep] at hrest
      rw [dirtyPages_of_lt _ _ hlt] at hclean
      obtain ⟨hfirst, hclean⟩ := append_eq_nil_iff.mp hclean
      rcases hs1 with ⟨hd, -⟩ | ⟨-, rfl⟩
      · rw [if_pos hd] at hfirst
        cases hfirst
      · exact ih hclean hrest

/-! ## Parts -/

lemma PartOf.refl (m : Mapping) : PartOf m m := ⟨rfl, le_rfl, le_rfl, fun _ _ _ => rfl⟩

lemma PartOf.shorten {m o : Mapping} (h : PartOf m o) (hb : b ≤ m.end_) :
    PartOf { m with end_ := b } o :=
  ⟨h.file, h.start, le_trans hb h.end_, fun a hs he => h.position a hs (lt_of_lt_of_le he hb)⟩

/-- The offset has to move with the start. -/
lemma PartOf.start_unique {m o : Mapping} (h : PartOf m o) (h' : PartOf { m with start := c } o)
    (hm : m.start < m.end_) (hc : c < m.end_) (hm' : m.start < 2 ^ 64) (hc' : c < 2 ^ 64) : c = m.start := by
  have hmove : ∀ n, 0 < n → n < 2 ^ 64 → wrap64 (m.offset + 0) ≠ wrap64 (m.offset + n) := by
    intro n hpos hlt heq
    unfold wrap64 at heq
    omega
  rcases lt_trichotomy c m.start with hlt | heq | hgt
  · have hpos := (h.position m.start le_rfl hm).trans (h'.position m.start (le_of_lt hlt) hm).symm
    simp only [Mapping.position, Nat.sub_self] at hpos
    exact absurd hpos (hmove _ (by omega) (by omega))
  · exact heq
  · have hpos := (h'.position c le_rfl hc).trans (h.position c (le_of_lt hgt) hc).symm
    simp only [Mapping.position, Nat.sub_self] at hpos
    exact absurd hpos (hmove _ (by omega) (by omega))

/-! ## Ranges -/

lemma unmapEnd_le (a : Area) (addr length : Nat) : unmapEnd a addr length + 4096 ≤ 2 ^ 64 := by
  obtain ⟨i, hi⟩ := and_pgMask_dvd addr
  obtain ⟨j, hj⟩ := and_pgMask_dvd (wrap64 (length + pgOffMask))
  have hwrap : wrap64 (pgRoundDown addr + pgRoundUp length) + 4096 ≤ 2 ^ 64 := by
    rw [pgRoundDown, pgRoundUp, hi, hj, wrap64]
    omega
  exact le_trans (Nat.add_le_add_right (Nat.min_le_left _ _) _) hwrap

lemma unmapEnd_eq_iff (a : Area) (addr length : Nat) :
    unmapEnd a addr length = a.end_ ↔ a.end_ ≤ wrap64 (pgRoundDown addr + pgRoundUp length) :=
  min_eq_right_iff

/-- A range that does not reach the end of the area is not empty. -/
lemma unmapEnd_ne {a : Area} (hlen : pgRoundUp length ≠ 0) (hend : unmapEnd a addr length ≠ a.end_) :
    unmapEnd a addr length < a.end_ ∧ unmapEnd a addr length ≠ pgRoundDown addr := by
  have hlt : unmapEnd a addr length < a.end_ := lt_of_le_of_ne (Nat.min_le_right _ _) hend
  refine ⟨hlt, fun heq => ?_⟩
  have hlen' : pgRoundUp length < 2 ^ 64 := and_pgMask_lt _
  have hmin : unmapEnd a addr length = wrap64 (pgRoundDown addr + pgRoundUp length) := by
    unfold unmapEnd at hlt ⊢
    omega
  rw [hmin, wrap64] at heq
  omega

/-! ## Steps -/

variable {s₀ : State A} {k k' : Traced A} {op : Op} {nodes : Nat → List Nat} {new : List Nat}

lemma mapping_of_fields {a b : Area} (h : a.fields = b.fields) : a.mapping = b.mapping :=
  (congrArg Area.mapping h :)

lemma file_of_fields {a b : Area} (h : a.fields = b.fields) : a.file = b.file :=
  (congrArg Area.file h :)

lemma FilesOk.start (s : State A) : FilesOk s (Traced.start s) :=
  ⟨fun _ _ _ => PartOf.refl _, fun _ _ => rfl⟩

/-- An area that stays as it is. -/
lemma FilesOk.area_of_fields (hok : FilesOk s₀ k) (hs : TracedStep E k op k')
    (hx : Live k.state x) (hfields : (k'.state.area x).fields = (k.state.area x).fields)
    (hfile : (k'.state.area x).file ≠ 0) : PartOf (k'.state.area x).mapping (k'.origin x) := by
  rw [hs.kept x hx, mapping_of_fields hfields]
  exact hok.area x hx (file_of_fields hfields ▸ hfile)

lemma FilesOk.same (hok : FilesOk s₀ k) (hs : TracedStep E k op k')
    (hlive : ∀ x, Live k'.state x ↔ Live k.state x)
    (hfields : ∀ x, Live k.state x → (k'.state.area x).fields = (k.state.area x).fields)
    (href : k'.state.fRef = k.state.fRef) : FilesOk s₀ k' := by
  refine ⟨fun x hx hfile => ?_, fun file hne => ?_⟩
  · have hx' := (hlive x).mp hx
    exact hok.area_of_fields hs hx' (hfields x hx') hfile
  · rw [otherRefs_congr hlive (fun x hx => file_of_fields (hfields x hx)) href]
    exact hok.refs file hne

lemma FilesOk.mmap (hE : E.Ok lo hi Inv Held) (h : Lists Inv Held k.state nodes) (hok : FilesOk s₀ k)
    {args : MmapArgs} {page : Area} (hcond : Ordered k.state (.mmap pid args page))
    (hs : TracedStep E k (.mmap pid args page) k') : FilesOk s₀ k' := by
  obtain ⟨fuel, res, hm⟩ := hs.step
  obtain ⟨⟨p, hp⟩, new, he, -, hmapped⟩ := sysMmap_effect hE h hcond.2 hcond.1 hm
  cases hmapped with
  | failed hnew hfields href =>
    subst hnew
    exact hok.same hs (he.live_same h hp) (fun x hx => he.fields_of_live h hx (hfields x)) href
  | @linked v hv hnew hfields href =>
    have hnot : ¬ Live k.state v := fun hx => hv (h.held_of_live hx)
    have hlive := he.live_add h hp (v := v) (fun x => by rw [hnew, mem_cons])
    have hsame : ∀ x, Live k.state x → (k'.state.area x).fields = (k.state.area x).fields := by
      intro x hx
      refine hfields x ?_
      rintro rfl
      exact hnot hx
    refine ⟨fun x hx hfile => ?_, fun file hne => ?_⟩
    · rcases (hlive x).mp hx with rfl | hx'
      · rw [hs.mapped pid args page rfl x hx hnot]
        exact PartOf.refl _
      · exact hok.area_of_fields hs hx' (hsame x hx') hfile
    · rw [otherRefs_get (h.holders_finite file) hnot hlive
        (fun x hx => file_of_fields (hsame x hx)) href hne]
      exact hok.refs file hne

/-- An area that was allocated before keeps its file. -/
lemma Cut.file {nodes new : List Nat} (h : Cut Held nodes new vma b c s s')
    (hx : Held s.mem.alloc x 1) : (s'.area x).file = (s.area x).file := by
  have hchange : ∀ {a : Area}, (s'.area x).fields = (if x = vma then a else (s.area x).fields) →
      a.file = (s.area vma).file → (s'.area x).file = (s.area x).file := by
    intro a hfields ha
    split_ifs at hfields with heq
    · rw [heq, ← ha, ← heq]
      exact (congrArg Area.file hfields :)
    · exact file_of_fields hfields
  cases h with
  | whole _ _ _ hfields _ => exact file_of_fields (hfields x)
  | head _ _ _ hfields _ => exact hchange (hfields x) rfl
  | tail _ _ _ hfields _ => exact hchange (hfields x) rfl
  | @middle _ _ v hv _ hfields _ =>
    have hxv : x ≠ v := fun heq => hv (heq ▸ hx)
    exact hchange ((hfields x).trans (if_neg hxv)) rfl

/-- What is left of an area without a file, or whose end is taken. -/
lemma FilesOk.cut (h : Lists Inv Held k.state nodes) (hok : FilesOk s₀ k)
    (hs : TracedStep E k op k') (hp : k.state.proc pid = some p) (hvma : vma ∈ nodes pid)
    (he : Effect Inv Held pid (nodes pid) new k.state k'.state)
    (hb : b < (k.state.area vma).end_) (hcut : Cut Held (nodes pid) new vma b c k.state k'.state)
    (hcond : (k.state.area vma).file ≠ 0 → c = (k.state.area vma).end_ ∧
      (b = (k.state.area vma).start → isStdstream (k.state.area vma).file = false)) :
    FilesOk s₀ k' := by
  have hlive0 := h.live hp hvma
  have hfile : ∀ x, Live k.state x → (k'.state.area x).file = (k.state.area x).file := fun x hx =>
    hcut.file (h.held_of_live hx)
  cases hcut with
  | whole hstart hend hnew hfields href =>
    have hlive := he.live_remove h hp hvma hnew
    refine ⟨fun x hx hfile => ?_, fun file hne => ?_⟩
    · exact hok.area_of_fields hs ((hlive x).mp hx).1 (hfields x) hfile
    · rw [otherRefs_put ((h.effect he (List.Subset.refl _)).holders_finite file) hlive0 hlive
        hfile href hne, if_neg, add_zero]
      · exact hok.refs file hne
      · rintro ⟨rfl, hstd⟩
        exact absurd (hstd.symm.trans ((hcond hne).2 hstart)) nofun
  | head hstart hend hnew hfields href =>
    have hnull : (k.state.area vma).file = 0 := by
      by_contra hfile
      exact hend (hcond hfile).1
    subst hnew
    have hlive := he.live_same h hp
    refine ⟨fun x hx hne => ?_, fun file hne => ?_⟩
    · have hxv : x ≠ vma := by
        rintro rfl
        exact hne ((hfile x hlive0).trans hnull)
      exact hok.area_of_fields hs ((hlive x).mp hx) ((hfields x).trans (if_neg hxv)) hne
    · rw [otherRefs_congr hlive hfile href]
      exact hok.refs file hne
  | tail hstart hend hnew hfields href =>
    subst hnew
    have hlive := he.live_same h hp
    have hself := (hfields vma).trans (if_pos rfl)
    refine ⟨fun x hx hne => ?_, fun file hne => ?_⟩
    · by_cases hxv : x = vma
      · subst hxv
        have hmap : (k'.state.area x).mapping = { (k.state.area x).mapping with end_ := b } :=
          (congrArg Area.mapping hself :)
        rw [hs.kept x hlive0, hmap]
        exact (hok.area x hlive0 (hfile x hlive0 ▸ hne)).shorten (le_of_lt hb)
      · exact hok.area_of_fields hs ((hlive x).mp hx) ((hfields x).trans (if_neg hxv)) hne
    · rw [otherRefs_congr hlive hfile href]
      exact hok.refs file hne
  | @middle hstart hend v hv hnew hfields href =>
    have hnull : (k.state.area vma).file = 0 := by
      by_contra hfile
      exact hend (hcond hfile).1
    have hnot : ¬ Live k.state v := fun hx => hv (h.held_of_live hx)
    have hlive := he.live_add h hp hnew
    have hvfile : (k'.state.area v).file = 0 :=
      (congrArg Area.file ((hfields v).trans (if_pos rfl)) :).trans hnull
    refine ⟨fun x hx hne => ?_, fun file hne => ?_⟩
    · have hxv : x ≠ v := by
        rintro rfl
        exact hne hvfile
      have hx' := ((hlive x).mp hx).resolve_left hxv
      have hxvma : x ≠ vma := by
        rintro rfl
        exact hne ((hfile x hx').trans hnull)
      exact hok.area_of_fields hs hx'
        (((hfields x).trans (if_neg hxv)).trans (if_neg hxvma)) hne
    · rw [otherRefs_add (h.holders_finite file) hnot hlive hfile href, hvfile, if_neg (Ne.symm hne),
        sub_zero]
      exact hok.refs file hne

/-- A head, a middle part or all of a standard stream cannot be taken. -/
lemma FilesOk.of_cut (h : Lists Inv Held k.state nodes) (hok : FilesOk s₀ k) (hs : TracedStep E k op k')
    (hp : k.state.proc pid = some p) (hvma : vma ∈ nodes pid)
    (he : Effect Inv Held pid (nodes pid) new k.state k'.state)
    (hb : b < (k.state.area vma).end_) (hb' : b < 2 ^ 64)
    (hc : c ≠ (k.state.area vma).end_ → c < (k.state.area vma).end_ ∧ c ≠ b ∧ c < 2 ^ 64)
    (hcut : Cut Held (nodes pid) new vma b c k.state k'.state) (hok' : FilesOk s₀ k')
    (hne : (k.state.area vma).file ≠ 0) : c = (k.state.area vma).end_ ∧
      (b = (k.state.area vma).start → isStdstream (k.state.area vma).file = false) := by
  have hlive0 := h.live hp hvma
  have hfile : ∀ x, Live k.state x → (k'.state.area x).file = (k.state.area x).file := fun x hx =>
    hcut.file (h.held_of_live hx)
  have hrefs := (hok'.refs _ hne).trans (hok.refs _ hne).symm
  cases hcut with
  | whole hstart hend hnew hfields href =>
    refine ⟨hend, fun _ => ?_⟩
    by_contra hstd
    rw [otherRefs_put ((h.effect he (List.Subset.refl _)).holders_finite _) hlive0
      (he.live_remove h hp hvma hnew) hfile href hne, if_pos ⟨rfl, by simpa using hstd⟩] at hrefs
    omega
  | head hstart hend hnew hfields href =>
    subst hnew
    obtain ⟨hlt, hcb, hc'⟩ := hc hend
    have hmap : (k'.state.area vma).mapping = { (k.state.area vma).mapping with start := c } :=
      (congrArg Area.mapping ((hfields vma).trans (if_pos rfl)) :)
    have hpart := hok'.area vma ((he.live_same h hp vma).mpr hlive0) (hfile vma hlive0 ▸ hne)
    rw [hs.kept vma hlive0, hmap] at hpart
    exact absurd ((hok.area vma hlive0 hne).start_unique hpart (hstart.symm.trans_lt hb) hlt
      (hstart.symm.trans_lt hb') hc') fun heq => hcb (heq.trans hstart.symm)
  | tail hstart hend _ _ _ => exact ⟨hend, fun hb => absurd hb hstart⟩
  | @middle hstart hend v hv hnew hfields href =>
    have hnot : ¬ Live k.state v := fun hx => hv (h.held_of_live hx)
    have hvfile : (k'.state.area v).file = (k.state.area vma).file :=
      (congrArg Area.file ((hfields v).trans (if_pos rfl)) :)
    rw [otherRefs_add (h.holders_finite _) hnot (he.live_add h hp hnew) hfile href, hvfile,
      if_pos rfl] at hrefs
    omega

/-- Nothing is written back where no page is dirty. -/
lemma written_of_clean (hclean : Clean k.state (.munmap pid addr length))
    (hfinds : Finds k.state pid addr length p vma) (hne : (k.state.area vma).file ≠ 0) {s1 : State A}
    (h : writesBack E p.pagetable (k.state.area vma) (pgRoundDown addr)
      (unmapEnd (k.state.area vma) addr length) fuel k.state = some s1) (f : Nat → Nat × Nat × Nat) :
    s1.written = k.state.written ++ if (k.state.area vma).isShared then
      (dirtyPages k.state.mem p.pagetable (pgRoundDown addr)
        (unmapEnd (k.state.area vma) addr length)).map f
      else [] := by
  unfold writesBack at h
  by_cases hshared : (k.state.area vma).isShared = true
  · have hnone := hclean p vma hfinds hne hshared
    rw [if_pos (of_decide_eq_true hshared)] at h
    rw [if_pos hshared, hnone, map_nil, append_nil, writeBack_clean (unmapEnd_le _ _ _) hnone h]
  · rw [if_neg fun hcond => hshared (decide_eq_true hcond)] at h
    cases h
    rw [if_neg hshared, append_nil]

lemma munmap_keepsFiles_iff (hE : E.Ok lo hi Inv Held) (h : Lists Inv Held k.state nodes)
    (hok : FilesOk s₀ k) (hcond : Ordered k.state (.munmap pid addr length))
    (hclean : Clean k.state (.munmap pid addr length))
    (hs : TracedStep E k (.munmap pid addr length) k') :
    KeepsFiles s₀ k (.munmap pid addr length) k' ↔ TakesEnd k.state (.munmap pid addr length) := by
  obtain ⟨fuel, res, hm⟩ := hs.step
  obtain ⟨p, hp, new, he, hcases⟩ := doMunmap_effect hE h hcond hm
  rcases hcases with ⟨hsame, hnothing⟩ | ⟨vma, s1, hlen, hvma, hfind, hwrite, hwritten, hcut⟩
  · -- no area is found
    have hno : ∀ {p' vma'}, ¬ Finds k.state pid addr length p' vma' := by
      intro p' vma' hf
      rcases hnothing with hlen | hfind
      · exact hf.length hlen
      · exact hf.ne_null (hf.eq hp hfind).2
    have hok' : FilesOk s₀ k' := hok.same hs (fun x => by rw [hsame]) (fun x _ => by rw [hsame])
      (by rw [hsame])
    refine ⟨fun _ p' vma' hf => absurd hf hno, fun _ => ⟨hok', fun _ _ _ _ _ heq hf => ?_⟩⟩
    cases heq
    exact absurd hf hno
  · have hlive0 := h.live hp hvma
    have hnull : vma ≠ 0 := ne_null_of_held hE h.alloc (h.held hvma)
    have hfinds : Finds k.state pid addr length p vma := ⟨hp, hlen, ⟨fuel, hfind⟩, hnull⟩
    have hbounds := findVma_bounds hfind hnull
    constructor
    · intro hkeeps p' vma' hf hne
      obtain ⟨rfl, rfl⟩ := hf.eq hp hfind
      have hc : unmapEnd (k.state.area vma') addr length ≠ (k.state.area vma').end_ →
          unmapEnd (k.state.area vma') addr length < (k.state.area vma').end_ ∧
          unmapEnd (k.state.area vma') addr length ≠ pgRoundDown addr ∧
          unmapEnd (k.state.area vma') addr length < 2 ^ 64 := by
        intro hend
        obtain ⟨hlt, hva⟩ := unmapEnd_ne hlen hend
        have := unmapEnd_le (k.state.area vma') addr length
        exact ⟨hlt, hva, by omega⟩
      obtain ⟨hend, hstd⟩ := FilesOk.of_cut h hok hs hp hvma he hbounds.2 (and_pgMask_lt _) hc hcut
        hkeeps.toFilesOk hne
      exact ⟨(unmapEnd_eq_iff _ _ _).mp hend, fun hstart => hstd hstart.symm⟩
    · intro htakes
      have hok' : FilesOk s₀ k' := hok.cut h hs hp hvma he hbounds.2 hcut fun hne =>
        ⟨(unmapEnd_eq_iff _ _ _).mpr (htakes p vma hfinds hne).1,
          fun hstart => (htakes p vma hfinds hne).2 hstart.symm⟩
      refine ⟨hok', fun pid' addr' length' p' vma' heq hf hne => ?_⟩
      cases heq
      obtain ⟨rfl, rfl⟩ := hf.eq hp hfind
      rw [hwritten]
      exact written_of_clean hclean hf hne hwrite _

/-! ## Runs -/

/-- What is asked of a step besides the range of `munmap`. -/
def Serves (k : Traced A) (op : Op) : Prop := Ordered k.state op ∧ Clean k.state op

lemma opStep_lists (hE : E.Ok lo hi Inv Held) (h : Lists Inv Held s nodes) (hcond : Ordered s op)
    (hs : opStep E s op s') : ∃ nodes', Lists Inv Held s' nodes' := by
  cases op with
  | kalloc sz =>
    obtain ⟨hpos, hsz, a, m, hk, rfl⟩ := hs
    exact ⟨nodes, h.kalloc hE hpos hsz hk⟩
  | mmap pid args page =>
    obtain ⟨fuel, res, hm⟩ := hs
    obtain ⟨-, new, he, -⟩ := sysMmap_effect hE h hcond.2 hcond.1 hm
    exact ⟨_, h.effect he (List.Subset.refl _)⟩
  | fault pid badv scause =>
    obtain ⟨fuel, killed, hf⟩ := hs
    obtain ⟨-, rfl⟩ := pageUnmapHandler_kills hf
    exact ⟨nodes, h⟩
  | munmap pid addr length =>
    obtain ⟨fuel, res, hm⟩ := hs
    obtain ⟨-, -, new, he, -⟩ := doMunmap_effect hE h hcond hm
    exact ⟨_, h.effect he (List.Subset.refl _)⟩

lemma keepsFiles_iff (hE : E.Ok lo hi Inv Held) (h : Lists Inv Held k.state nodes) (hok : FilesOk s₀ k)
    (hserves : Serves k op) (hs : TracedStep E k op k') :
    KeepsFiles s₀ k op k' ↔ TakesEnd k.state op := by
  cases op with
  | kalloc sz =>
    obtain ⟨-, -, a, m, -, hstate⟩ := hs.step
    have hok' : FilesOk s₀ k' := hok.same hs (fun x => by rw [hstate]; rfl) (fun x _ => by rw [hstate])
      (by rw [hstate])
    exact ⟨fun _ => trivial, fun _ => ⟨hok', fun _ _ _ _ _ heq => absurd heq nofun⟩⟩
  | mmap pid args page =>
    have hok' := hok.mmap hE h hserves.1 hs
    exact ⟨fun _ => trivial, fun _ => ⟨hok', fun _ _ _ _ _ heq => absurd heq nofun⟩⟩
  | fault pid badv scause =>
    obtain ⟨fuel, killed, hf⟩ := hs.step
    obtain ⟨-, hstate⟩ := pageUnmapHandler_kills hf
    have hok' : FilesOk s₀ k' := hok.same hs (fun x => by rw [hstate]) (fun x _ => by rw [hstate])
      (by rw [hstate])
    exact ⟨fun _ => trivial, fun _ => ⟨hok', fun _ _ _ _ _ heq => absurd heq nofun⟩⟩
  | munmap pid addr length => exact munmap_keepsFiles_iff hE h hok hserves.1 hserves.2 hs

/-- From a state whose lists are in order, and as long as they stay so and no dirty page of a shared
area is taken: all steps keep the positions and the references of the areas, exactly if every
`munmap` takes an area with a file up to its end. -/
theorem file_areas_kept_iff (hE : E.Ok lo hi Inv Held) (h : Lists Inv Held s nodes)
    {ts : List (Transition (Traced A) Op)} (hr : Run (TracedStep E) (Traced.start s) ts k)
    (hserves : ∀ t ∈ ts, Serves t.source t.label) :
    (∀ t ∈ ts, KeepsFiles s t.source t.label t.target) ↔
      ∀ t ∈ ts, TakesEnd t.source.state t.label := by
  have hexact : ∀ k op k', ((∃ nodes, Lists Inv Held k.state nodes) ∧ FilesOk s k) →
      (TracedStep E k op k' ∧ Serves k op) → (KeepsFiles s k op k' ↔ TakesEnd k.state op) := by
    rintro k op k' ⟨⟨nodes, hl⟩, hok⟩ ⟨hs, hserve⟩
    exact keepsFiles_iff hE hl hok hserve hs
  have hstep : ∀ k op k', ((∃ nodes, Lists Inv Held k.state nodes) ∧ FilesOk s k) →
      TakesEnd k.state op → (TracedStep E k op k' ∧ Serves k op) →
      (∃ nodes, Lists Inv Held k'.state nodes) ∧ FilesOk s k' := by
    intro k op k' hi htakes hs
    obtain ⟨nodes, hl⟩ := hi.1
    exact ⟨opStep_lists hE hl hs.2.1 hs.1.step, ((hexact k op k' hi hs).mpr htakes).toFilesOk⟩
  exact (hr.and_of_forall hserves).forall_iff ⟨⟨nodes, h⟩, FilesOk.start s⟩ hstep hexact

/-- Every step can be traced. -/
lemma exists_traced (k : Traced A) (hs : opStep E k.state op s') :
    ∃ k', k'.state = s' ∧ TracedStep E k op k' := by
  classical
  cases op with
  | munmap pid addr length =>
    obtain ⟨fuel, res, hm⟩ := id hs
    obtain ⟨p, hp, ⟨rfl, -⟩ | ⟨vma, s1, hlen, hnull, hfind, -⟩⟩ := doMunmap_cases hm
    · refine ⟨k, rfl, hs, fun _ _ => rfl, nofun, fun _ _ _ _ x hx hno => absurd hx hno⟩
    · refine ⟨⟨s', fun x => if Live k.state x then k.origin x else k.origin vma⟩, rfl, hs,
        fun x hx => if_pos hx, nofun, fun _ _ _ heq x _ hno => ?_⟩
      cases heq
      exact ⟨p, vma, ⟨hp, hlen, ⟨fuel, hfind⟩, hnull⟩, if_neg hno⟩
  | kalloc sz =>
    exact ⟨⟨s', k.origin⟩, rfl, hs, fun _ _ => rfl, nofun, nofun⟩
  | fault pid badv scause =>
    exact ⟨⟨s', k.origin⟩, rfl, hs, fun _ _ => rfl, nofun, nofun⟩
  | mmap pid args page =>
    exact ⟨⟨s', fun x => if Live k.state x then k.origin x else (s'.area x).mapping⟩, rfl, hs,
      fun x hx => if_pos hx, fun _ _ _ _ x _ hno => if_neg hno, nofun⟩

end

/-! ## A process with an open file -/

/-- The conditions on a `munmap`, by a search that ends. -/
def checksMunmap (fuel pid addr length : Nat) (s : State A) : Bool :=
  (s.proc pid).all fun p => (findVma s.area (pgRoundDown addr) fuel p.vmaList).any fun vma =>
    decide (¬ SelfLinked s.area p.vmaList) && ((s.area vma).file == 0 ||
      decide ((s.area vma).end_ ≤ wrap64 (pgRoundDown addr + pgRoundUp length)) &&
      (decide ((s.area vma).start ≠ pgRoundDown addr) || !isStdstream (s.area vma).file) &&
      (!(s.area vma).isShared ||
        (dirtyPages s.mem p.pagetable (pgRoundDown addr) (unmapEnd (s.area vma) addr length)).isEmpty))

lemma checksMunmap_spec {pid addr length : Nat} {k : Traced A}
    (h : checksMunmap fuel pid addr length k.state = true) :
    Serves k (.munmap pid addr length) ∧ TakesEnd k.state (.munmap pid addr length) := by
  have hcheck : ∀ p, k.state.proc pid = some p → ∃ vma,
      findVma k.state.area (pgRoundDown addr) fuel p.vmaList = some vma ∧
      ¬ SelfLinked k.state.area p.vmaList ∧ ((k.state.area vma).file ≠ 0 →
        ((k.state.area vma).end_ ≤ wrap64 (pgRoundDown addr + pgRoundUp length) ∧
          ((k.state.area vma).start = pgRoundDown addr → isStdstream (k.state.area vma).file = false)) ∧
        ((k.state.area vma).isShared = true → dirtyPages k.state.mem p.pagetable
          (pgRoundDown addr) (unmapEnd (k.state.area vma) addr length) = [])) := by
    intro p hp
    rw [checksMunmap, hp] at h
    obtain ⟨vma, hfind, hvma⟩ := Option.any_eq_true .. |>.mp h
    refine ⟨vma, hfind, ?_⟩
    simp only [Bool.and_eq_true, Bool.or_eq_true, decide_eq_true_eq, beq_iff_eq, Bool.not_eq_true',
      List.isEmpty_iff] at hvma
    obtain ⟨hself, hvma⟩ := hvma
    refine ⟨hself, fun hne => ?_⟩
    obtain ⟨⟨hend, hstd⟩, hclean⟩ := hvma.resolve_left hne
    refine ⟨⟨hend, fun hstart => hstd.resolve_left (not_not_intro hstart)⟩, fun hshared => ?_⟩
    exact hclean.resolve_left (by rw [hshared]; exact nofun)
  have hfinds : ∀ {p vma}, Finds k.state pid addr length p vma →
      findVma k.state.area (pgRoundDown addr) fuel p.vmaList = some vma := by
    intro p vma hf
    obtain ⟨vma', hfind, -⟩ := hcheck p hf.proc
    rw [hfind, (hf.eq hf.proc hfind).2]
  refine ⟨⟨fun p hp => ?_, fun p vma hf hne hshared => ?_⟩, fun p vma hf hne => ?_⟩
  · obtain ⟨-, -, hself, -⟩ := hcheck p hp
    exact hself
  · obtain ⟨vma', hfind, -, hvma⟩ := hcheck p hf.proc
    obtain rfl := some.inj (hfind.symm.trans (hfinds hf))
    exact (hvma hne).2 hshared
  · obtain ⟨vma', hfind, -, hvma⟩ := hcheck p hf.proc
    obtain rfl := some.inj (hfind.symm.trans (hfinds hf))
    exact (hvma hne).1

/-- A page table at 0x1000 that maps the three pages from 0x10000 on; none of them is dirty. -/
def cleanPte (p : Nat) : Nat :=
  if p = 0x1000 then 0x801
  else if p = 0x2000 then 0xc01
  else if p = 0x3080 ∨ p = 0x3088 ∨ p = 0x3090 then 0x17
  else 0

/-- A process without areas, with the file 4 at its descriptor 3. -/
def fileOwner : Process :=
  ⟨0x1000, 0, 0, mmapBase, mmapBase + mmapInitSize, fun fd => if fd = 3 then 4 else 0⟩

/-- The process is the only one. -/
def fileProcess (m : Mem A) : State A :=
  { noProcess { m with pte := cleanPte } with
    proc := fun pid => if pid = 1 then some fileOwner else none
    nextPid := 2
    fRef := fun _ => 1 }

lemma fileProcess_lists {Inv : A → Prop} {Held : A → Nat → Nat → Prop} {m : Mem A}
    (hinv : Inv m.alloc) : Lists Inv Held (fileProcess m) fun _ => [] where
  alloc := hinv
  fresh pid hpid := by
    have hge : 2 ≤ pid := hpid
    exact if_neg (by omega)
  list {pid p} hp := by
    change (if pid = 1 then some fileOwner else none) = some p at hp
    split_ifs at hp
    cases hp
    exact .inl rfl
  held hx := absurd hx not_mem_nil
  apart _ hx := absurd hx not_mem_nil

/-- Three pages of the file, from its fifth page on, at 0x10000. -/
def sharedArgs : MmapArgs := ⟨0x10000, 0x3000, 3, mapFixed ||| mapShared, 3, 0x4000⟩

/-- The first page of the file, at 0x20000. -/
def privateArgs : MmapArgs := ⟨0x20000, 0x1000, 3, mapFixed ||| mapPrivate, 3, 0⟩

/-- Two areas of the file are mapped and there is a page fault; the last page of one area is given
back, and then all of the other area. -/
theorem file_areas_kept_tail :
    ∃ E m s₁ s₂ s₃ s₄ ts k, bootSmall = some (E, m) ∧
      sysMmap E 8 1 sharedArgs zeroArea (fileProcess m) = some (0, s₁) ∧
      sysMmap E 8 1 privateArgs zeroArea s₁ = some (0, s₂) ∧
      pageUnmapHandler E 8 1 0x20000 storeAmoAccessFault s₂ = some (true, s₂) ∧
      doMunmap E 8 1 0x12000 0x1000 s₂ = some (0, s₃) ∧
      doMunmap E 8 1 0x20000 0x1000 s₃ = some (0, s₄) ∧
      Run (TracedStep E) (Traced.start (fileProcess m)) ts k ∧ k.state = s₄ ∧
      ∀ t ∈ ts, KeepsFiles (fileProcess m) t.source t.label t.target := by
  have hrun : (bootSmall.bind fun b => (sysMmap b.1 8 1 sharedArgs zeroArea (fileProcess b.2)).bind
      fun r1 => (sysMmap b.1 8 1 privateArgs zeroArea r1.2).bind fun r2 =>
      (doMunmap b.1 8 1 0x12000 0x1000 r2.2).bind fun r3 =>
      (doMunmap b.1 8 1 0x20000 0x1000 r3.2).map fun r4 => decide (
        (r1.1 = 0 ∧ r2.1 = 0 ∧ r3.1 = 0 ∧ r4.1 = 0) ∧ selfLinked (fileProcess b.2) 1 = false ∧
        selfLinked r1.2 1 = false ∧
        (pageUnmapHandler b.1 8 1 0x20000 storeAmoAccessFault r2.2).isSome = true ∧
        checksMunmap 8 1 0x12000 0x1000 r2.2 = true ∧ checksMunmap 8 1 0x20000 0x1000 r3.2 = true)) =
      some true := by
    decide +kernel
  simp only [bind_eq_some_iff, map_eq_some_iff, Prod.exists] at hrun
  obtain ⟨E, m, hboot, res1, s₁, hmmap1, res2, s₂, hmmap2, res3, s₃, hmunmap3, res4, s₄, hmunmap4,
    hres⟩ := hrun
  obtain ⟨⟨rfl, rfl, rfl, rfl⟩, hself0, hself1, hfault, hcheck3, hcheck4⟩ :=
    of_decide_eq_true hres
  obtain ⟨⟨killed, s2'⟩, hfault⟩ := isSome_iff_exists.mp hfault
  obtain ⟨rfl, hsame⟩ := pageUnmapHandler_kills hfault
  rw [hsame] at hfault
  obtain ⟨hE, hs⟩ := bootSmall_ok hboot
  have hstep1 : opStep E (fileProcess m) (.mmap 1 sharedArgs zeroArea) s₁ := ⟨8, 0, hmmap1⟩
  have hstep2 : opStep E s₁ (.mmap 1 privateArgs zeroArea) s₂ := ⟨8, 0, hmmap2⟩
  have hstep3 : opStep E s₂ (.fault 1 0x20000 storeAmoAccessFault) s₂ := ⟨8, true, hfault⟩
  have hstep4 : opStep E s₂ (.munmap 1 0x12000 0x1000) s₃ := ⟨8, 0, hmunmap3⟩
  have hstep5 : opStep E s₃ (.munmap 1 0x20000 0x1000) s₄ := ⟨8, 0, hmunmap4⟩
  obtain ⟨k1, rfl, ht1⟩ := exists_traced (Traced.start (fileProcess m)) hstep1
  obtain ⟨k2, rfl, ht2⟩ := exists_traced k1 hstep2
  obtain ⟨k3, hk3, ht3⟩ := exists_traced k2 hstep3
  rw [← hk3] at hstep4 hcheck3
  obtain ⟨k4, rfl, ht4⟩ := exists_traced k3 hstep4
  obtain ⟨k5, rfl, ht5⟩ := exists_traced k4 hstep5
  have hr := ((((Run.nil.snoc ht1).snoc ht2).snoc ht3).snoc ht4).snoc ht5
  obtain ⟨ts, hr, hserves, htakes⟩ : ∃ ts, Run (TracedStep E) (Traced.start (fileProcess m)) ts k5 ∧
      (∀ t ∈ ts, Serves t.source t.label) ∧ ∀ t ∈ ts, TakesEnd t.source.state t.label := by
    refine ⟨_, hr, forall₂_and.mp fun t ht => ?_⟩
    simp only [nil_append, cons_append, mem_cons, not_mem_nil, or_false] at ht
    rcases ht with rfl | rfl | rfl | rfl | rfl
    · exact ⟨⟨⟨fun p hp => not_selfLinked hself0 hp, rfl⟩, trivial⟩, trivial⟩
    · exact ⟨⟨⟨fun p hp => not_selfLinked hself1 hp, rfl⟩, trivial⟩, trivial⟩
    · exact ⟨⟨trivial, trivial⟩, trivial⟩
    · exact checksMunmap_spec hcheck3
    · exact checksMunmap_spec hcheck4
  exact ⟨E, m, _, _, _, _, ts, k5, hboot, hmmap1, hmmap2, hfault, hmunmap3, hmunmap4, hr, rfl,
    (file_areas_kept_iff hE (fileProcess_lists hs.alloc) hr hserves).mpr htakes⟩

lemma live_head {s : State A} {pid : Nat} {p : Process} (hp : s.proc pid = some p) (hne : p.vmaList ≠ 0) :
    Live s p.vmaList := ⟨pid, p, hp, .here hne⟩

lemma live_second {s : State A} {pid : Nat} {p : Process} (hp : s.proc pid = some p)
    (hne : p.vmaList ≠ 0) (hnext : (s.area p.vmaList).next ≠ 0) : Live s (s.area p.vmaList).next :=
  ⟨pid, p, hp, .next hne (.here hnext)⟩

/-- When the first page of an area is given back, the second one moves to the position of the first
in the file. When the middle page is given back, two areas share one reference. -/
theorem file_area_moved :
    ∃ E m s₁ s₂ s₃ v x y, bootSmall = some (E, m) ∧
      sysMmap E 8 1 sharedArgs zeroArea (fileProcess m) = some (0, s₁) ∧
      doMunmap E 8 1 0x10000 0x1000 s₁ = some (0, s₂) ∧ Live s₁ v ∧ Live s₂ v ∧
      (s₁.area v).mapping.position 0x11000 = 0x5000 ∧ (s₂.area v).mapping.position 0x11000 = 0x4000 ∧
      doMunmap E 8 1 0x11000 0x1000 s₁ = some (0, s₃) ∧ (fileProcess m).fRef 4 = 1 ∧ s₃.fRef 4 = 2 ∧
      x ≠ y ∧ Live s₃ x ∧ Live s₃ y ∧ (s₃.area x).file = 4 ∧ (s₃.area y).file = 4 := by
  have hrun : (bootSmall.bind fun b => (sysMmap b.1 8 1 sharedArgs zeroArea (fileProcess b.2)).bind
      fun r1 => (doMunmap b.1 8 1 0x10000 0x1000 r1.2).bind fun r2 =>
      (doMunmap b.1 8 1 0x11000 0x1000 r1.2).bind fun r3 => (r1.2.proc 1).bind fun p1 =>
      (r2.2.proc 1).bind fun p2 => (r3.2.proc 1).map fun p3 => decide (
        (r1.1 = 0 ∧ r2.1 = 0 ∧ r3.1 = 0) ∧ p1.vmaList ≠ 0 ∧ p2.vmaList = p1.vmaList ∧
        (r1.2.area p1.vmaList).mapping.position 0x11000 = 0x5000 ∧
        (r2.2.area p1.vmaList).mapping.position 0x11000 = 0x4000 ∧ r3.2.fRef 4 = 2 ∧
        p3.vmaList ≠ (r3.2.area p3.vmaList).next ∧ p3.vmaList ≠ 0 ∧ (r3.2.area p3.vmaList).next ≠ 0 ∧
        (r3.2.area p3.vmaList).file = 4 ∧ (r3.2.area (r3.2.area p3.vmaList).next).file = 4)) =
      some true := by
    decide +kernel
  simp only [bind_eq_some_iff, map_eq_some_iff, Prod.exists] at hrun
  obtain ⟨E, m, hboot, res1, s₁, hmmap, res2, s₂, hhead, res3, s₃, hmiddle, p1, hp1, p2, hp2, p3,
    hp3, hres⟩ := hrun
  obtain ⟨⟨rfl, rfl, rfl⟩, hne, heq, hpos, hpos', href, hxy, hx, hy, hxf, hyf⟩ := of_decide_eq_true hres
  have hlive2 : Live s₂ p1.vmaList := heq ▸ live_head hp2 (heq.trans_ne hne)
  exact ⟨E, m, s₁, s₂, s₃, p1.vmaList, p3.vmaList, _, hboot, hmmap, hhead, live_head hp1 hne, hlive2,
    hpos, hpos', hmiddle, rfl, href, hxy, live_head hp3 hx, live_second hp3 hx hy, hxf, hyf⟩

end Hana.Vma
