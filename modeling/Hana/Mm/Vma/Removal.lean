import Hana.Mm.Vma.Files

/-!
# What munmap removes

`munmap` is to take the pages of its range off the areas of the process, whatever areas these
pages are in, and to leave the list in order and all other entries of the page table alone
(`Removes`).

`do_munmap` looks for the one area with the first page of the range and cuts the range off
this area only: the whole of it, its head, its tail or a part in the middle (`Cut`). So it
fails on a range that starts in front of an area, and it leaves what the range has of other
areas. The end of the range is computed in 64 bits, and a range that reaches the end of the
address space makes the area larger. Finally the call stops the kernel when it removes the only
area, when it writes back a page without a leaf table, without a file or to a file that does not
take it, and when there is no memory for the second part of an area. `doMunmap_removes_iff` says that this is all.
-/

namespace Hana.Vma

open Lib Vm Option

variable {A : Type}

/-- An area of the process contains the address. -/
def Covered (pid : Nat) (s : State A) (a : Nat) : Prop :=
  ∃ p x, s.proc pid = some p ∧ OnList s.area p.vmaList x ∧ (s.area x).contains a

/-- The address is in the range that `munmap` is to remove. -/
def InRange (addr length a : Nat) : Prop :=
  pgRoundDown addr ≤ a ∧ a < pgRoundDown addr + pgRoundUp length

/-- The range is gone, and nothing else is. -/
structure Removed (pid : Nat) (p : Process) (addr length : Nat) (s s' : State A) : Prop where
  covered : ∀ a, Covered pid s' a ↔ Covered pid s a ∧ ¬ InRange addr length a
  list : ∃ p' nodes, s'.proc pid = some p' ∧ WellFormed s'.area p' nodes
  ptes : ∀ a, Covered pid s' a →
    leaf s'.mem p.pagetable (a >>> 12) = leaf s.mem p.pagetable (a >>> 12)

/-- The call returns, and the range is gone then. -/
def Removes (E : Env A) (pid : Nat) (p : Process) (addr length : Nat) (s : State A) : Prop :=
  (∃ fuel r, doMunmap E fuel pid addr length s = some r) ∧
    ∀ fuel res s', doMunmap E fuel pid addr length s = some (res, s') → Removed pid p addr length s s'

/-- The page at `a` can be written back: it has a leaf table, and if it is dirty, it has a file, which
takes a page at this address. -/
def WritesPage (s : State A) (pagetable : Nat) (vma : Area) (a : Nat) : Prop :=
  entryAddr s.mem.pte pagetable (a >>> 12) ≠ none ∧
    (has (leaf s.mem pagetable (a >>> 12)) pteD = true → vma.file ≠ 0 ∧ s.takes vma.file a = true)

/-- No area has an address of the range. -/
def Apart (area : Nat → Area) (nodes : List Nat) (addr length : Nat) : Prop :=
  ∀ x ∈ nodes, ∀ a, InRange addr length a → ¬ (area x).contains a

/-- The area with the first page of the range has all that there is of the range. -/
structure OneArea (area : Nat → Area) (nodes : List Nat) (addr length vma : Nat) : Prop where
  mem : vma ∈ nodes
  first : (area vma).contains (pgRoundDown addr)
  only : ∀ x ∈ nodes, x ≠ vma → ∀ a, InRange addr length a → ¬ (area x).contains a

/-- The area `vma` is cut: it is not the only area, if it goes as a whole, there is memory for another
one, if it falls in two, and its pages can be written back. -/
structure TakesOne (E : Env A) (s : State A) (p : Process) (nodes : List Nat) (addr length vma : Nat) :
    Prop extends OneArea s.area nodes addr length vma where
  below : pgRoundDown addr + pgRoundUp length < 2 ^ 64
  pages : (s.area vma).isShared = true →
    ∀ i, pgRoundDown addr + 4096 * i < unmapEnd (s.area vma) addr length →
      WritesPage s p.pagetable (s.area vma) (pgRoundDown addr + 4096 * i)
  another : pgRoundDown addr = (s.area vma).start →
    (s.area vma).end_ ≤ pgRoundDown addr + pgRoundUp length → nodes ≠ [vma]
  room : pgRoundDown addr ≠ (s.area vma).start →
    pgRoundDown addr + pgRoundUp length < (s.area vma).end_ → ∃ r, kalloc E sizeofVmArea s.mem = some r

variable {area : Nat → Area} {va head pagetable : Nat} {b : Area}

section

variable {Inv : A → Prop} {Held : A → Nat → Nat → Prop} {lo hi : Nat} {E : Env A}
variable {s s' s₁ : State A} {pid addr length vma fuel : Nat} {p : Process} {new : List Nat} {res : Int}

/-! ## Returning -/

lemma findVma_mono {v : Nat} (h : findVma area va fuel head = some v)
    (k : Nat) : findVma area va (fuel + k) head = some v := by
  induction fuel generalizing head with
  | zero => cases h
  | succ fuel ih =>
    rw [add_right_comm, findVma]
    rw [findVma] at h
    split_ifs at h ⊢ with hnull hin
    · exact h
    · exact h
    · exact ih h

variable {c : Nat} {a : Area} {nodes : List Nat}

/-- The turn of the loop that writes a page back. -/
lemma writeBack_turn {a : Nat} {area : Area} (hlt : a < c)
    (hpage : WritesPage s pagetable area a) :
    ∃ w q z, ∀ fuel, writeBack E pagetable area c (fuel + 1) a s =
      writeBack E pagetable area c fuel (wrap64 (a + pgSize))
        { s with written := w, fpos := q, fsize := z } := by
  obtain ⟨hentry, hfile⟩ := hpage
  obtain ⟨pte, hpte⟩ := ne_none_iff_exists'.mp hentry
  have hleaf : leaf s.mem pagetable (a >>> 12) = s.mem.pte pte := by
    simp only [leaf, hpte]
  rw [hleaf] at hfile
  by_cases hd : has (s.mem.pte pte) pteD = true
  · obtain ⟨hne, htakes⟩ := hfile hd
    rcases kernelWrite_cases area.file a (wrap64 (area.offset + (a - area.start))) s with
      ⟨-, w, q, z, hw⟩ | ⟨hno, -⟩
    · refine ⟨w, q, z, fun fuel => ?_⟩
      simp only [writeBack, if_pos hlt, walk_noalloc, hpte, bind_eq_bind, bind_some, hd,
        if_true, if_neg hne, hw]
    · rw [htakes] at hno
      cases hno
  · refine ⟨s.written, s.fpos, s.fsize, fun fuel => ?_⟩
    simp only [writeBack, if_pos hlt, walk_noalloc, hpte, bind_eq_bind, bind_some, hd,
      Bool.false_eq_true, if_false]

lemma writeBack_returns {a n : Nat} {area : Area} (hc : c + 4096 ≤ 2 ^ 64) (hn : c ≤ a + 4096 * n)
    (hpages : ∀ i, a + 4096 * i < c → WritesPage s pagetable area (a + 4096 * i)) (k : Nat) :
    ∃ s', writeBack E pagetable area c (n + 1 + k) a s = some s' := by
  induction n generalizing a s with
  | zero =>
    refine ⟨s, ?_⟩
    rw [add_right_comm, writeBack, if_neg (by omega)]
  | succ n ih =>
    by_cases hlt : a < c
    · obtain ⟨w, q, z, hturn⟩ := writeBack_turn (E := E) hlt (hpages 0 hlt)
      have hstep : wrap64 (a + pgSize) = a + 4096 := by
        rw [pgSize]
        exact wrap64_of_lt (by omega)
      have hnext : c ≤ a + 4096 + 4096 * n := by omega
      rw [add_right_comm, hturn, hstep]
      refine ih hnext fun i hi => ?_
      have hshift : a + 4096 + 4096 * i = a + 4096 * (i + 1) := by omega
      rw [hshift] at hi ⊢
      exact hpages (i + 1) hi
    · refine ⟨s, ?_⟩
      rw [add_right_comm, writeBack, if_neg hlt]

/-- A loop that returns has written every page. -/
lemma writesPage_of_writeBack {a : Nat} {area : Area} (hc : c + 4096 ≤ 2 ^ 64)
    (h : writeBack E pagetable area c fuel a s = some s') (i : Nat) (hi : a + 4096 * i < c) :
    WritesPage s pagetable area (a + 4096 * i) := by
  induction fuel generalizing a s i with
  | zero => cases h
  | succ fuel ih =>
    rcases writeBack_succ h with ⟨hge, -⟩ | ⟨hlt, s₁, hrest, hs1⟩
    · omega
    · have hstep : wrap64 (a + pgSize) = a + 4096 := by
        rw [pgSize]
        exact wrap64_of_lt (by omega)
      rw [hstep] at hrest
      cases i with
      | zero =>
        rw [Nat.mul_zero, add_zero]
        refine ⟨fun hnone => ?_, fun hd => ?_⟩
        · rw [writeBack, if_pos hlt, walk_noalloc, hnone] at h
          cases h
        · rcases hs1 with ⟨-, hfile, htakes, -⟩ | ⟨hclean, -⟩
          · exact ⟨hfile, htakes⟩
          · rw [hclean] at hd
            cases hd
      | succ i =>
        have hshift : a + 4096 + 4096 * i = a + 4096 * (i + 1) := by omega
        rw [← hshift]
        rcases hs1 with ⟨-, -, -, w, q, z, rfl⟩ | ⟨-, rfl⟩
        · exact ih hrest i (by omega)
        · exact ih hrest i (by omega)

/-- Only the removal of the only area stops. -/
lemma unlinkArea_returns_iff (pid : Nat) (hlist : IsVmaList s.area p.vmaList nodes)
    (hvma : vma ∈ nodes) : (∃ s₁, unlinkArea pid p vma s = some s₁) ↔ nodes ≠ [vma] := by
  unfold unlinkArea
  by_cases hprev : (s.area vma).prev = 0
  · have hhead : p.vmaList = vma := (hlist.start_eq_iff hlist.null_notMem hvma).mpr hprev
    simp only [hprev, ne_eq, not_true_eq_false, if_false, State.setProc]
    obtain ⟨xs, rfl⟩ : ∃ xs, nodes = vma :: xs := by
      cases nodes with
      | nil => cases hvma
      | cons x xs => exact ⟨xs, by rw [← hhead, hlist.1]⟩
    have hrest := hlist.2.2.2
    by_cases hnext : (s.area vma).next = 0
    · simp only [hnext] at hrest
      simp [hnext, hrest.nil_of_null]
    · have hne : xs ≠ [] := by
        rintro rfl
        exact hnext hrest
      simp [hnext, hne]
  · have hne : nodes ≠ [vma] := by
      rintro rfl
      exact hprev hlist.2.2.1
    simp [hprev, hne]

/-- The call returns unless it has to write back a page that it cannot, to remove the only area or to
make an area without memory. -/
lemma doMunmap_returns (hE : E.Ok lo hi Inv Held) (hinv : Inv s.mem.alloc)
    (hlist : IsVmaList s.area p.vmaList nodes) (hheld : ∀ x ∈ nodes, Held s.mem.alloc x 1)
    (hp : s.proc pid = some p) (hvma : vma ∈ nodes)
    (hfind : findVma s.area (pgRoundDown addr) fuel p.vmaList = some vma)
    (hpages : (s.area vma).isShared = true →
      ∀ i, pgRoundDown addr + 4096 * i < unmapEnd (s.area vma) addr length →
        WritesPage s p.pagetable (s.area vma) (pgRoundDown addr + 4096 * i))
    (hanother : pgRoundDown addr = (s.area vma).start →
      unmapEnd (s.area vma) addr length = (s.area vma).end_ → nodes ≠ [vma])
    (hroom : pgRoundDown addr ≠ (s.area vma).start →
      unmapEnd (s.area vma) addr length ≠ (s.area vma).end_ → ∃ r, kalloc E sizeofVmArea s.mem = some r) :
    ∃ fuel r, doMunmap E fuel pid addr length s = some r := by
  have hnull : vma ≠ 0 := hlist.ne_null hvma
  have hstart := (findVma_bounds hfind hnull).1
  obtain ⟨n, s₁, hwrite⟩ : ∃ n s₁, writesBack E p.pagetable (s.area vma) (pgRoundDown addr)
      (unmapEnd (s.area vma) addr length) (fuel + n) s = some s₁ := by
    unfold writesBack
    split_ifs with hshared
    · refine ⟨unmapEnd (s.area vma) addr length + 1, ?_⟩
      rw [add_comm fuel]
      exact writeBack_returns (unmapEnd_le _ _ _) (by omega) (hpages (decide_eq_true hshared)) fuel
    · exact ⟨0, s, rfl⟩
  obtain ⟨w, q, z, rfl⟩ := writesBack_cases hwrite
  have hunmap : ∀ npages, uvmunmap E p.pagetable (pgRoundDown addr) npages true s.mem = some s.mem :=
    fun npages => uvmunmap_eq E _ npages true s.mem (and_pgMask_dvd addr)
  refine ⟨fuel + n, ?_⟩
  unfold doMunmap
  unfold writesBack at hwrite
  unfold unmapEnd at hwrite hanother hroom
  simp only [hp, bind_eq_bind, bind_some, findVma_mono hfind n, if_neg hnull,
    max_eq_left hstart, hwrite, hunmap]
  by_cases hlen : pgRoundUp length = 0
  · rw [if_pos hlen]
    exact ⟨_, rfl⟩
  split_ifs with hwhole hhead htail
  · obtain ⟨s2, hunlink⟩ := (unlinkArea_returns_iff pid
      (s := { s with written := w, fpos := q, fsize := z }) hlist hvma).mpr (hanother hwhole.1 hwhole.2)
    obtain ⟨hmem, -⟩ := unlinkArea_spec (s := { s with written := w, fpos := q, fsize := z }) hlist hvma
      hp hunlink
    obtain ⟨a, hfree, -⟩ := hE.lawful.kfree_spec hinv (hheld vma hvma)
    rw [hunlink, bind_some, filePut_of_ne]
    simp only [kfree, hmem, hfree, bind_eq_bind, bind_some]
    exact ⟨_, rfl⟩
  · exact ⟨_, rfl⟩
  · exact ⟨_, rfl⟩
  · obtain ⟨⟨v, m⟩, hk⟩ := hroom hhead htail
    simp only [splitArea, kallocArea, hk]
    exact ⟨_, rfl⟩

/-! ## What is covered -/

lemma covered_iff (hp : s.proc pid = some p) (hlist : IsVmaList s.area p.vmaList nodes) (a : Nat) :
    Covered pid s a ↔ ∃ x ∈ nodes, (s.area x).contains a := by
  constructor
  · rintro ⟨p', x, hp', hx, hin⟩
    rw [hp] at hp'
    cases hp'
    exact ⟨x, (onList_iff hlist).mp hx, hin⟩
  · rintro ⟨x, hx, hin⟩
    exact ⟨p, x, hp, (onList_iff hlist).mpr hx, hin⟩

lemma contains_of_fields (h : a.fields = b.fields) (va : Nat) :
    a.contains va ↔ b.contains va := by
  have hstart : a.start = b.start := (congrArg Area.start h :)
  have hend : a.end_ = b.end_ := (congrArg Area.end_ h :)
  rw [Area.contains, Area.contains, hstart, hend]

lemma contains_with_start (h : a.fields = { b.fields with start := c }) (va : Nat) :
    a.contains va ↔ c ≤ va ∧ va < b.end_ := by
  have hstart : a.start = c := (congrArg Area.start h :)
  have hend : a.end_ = b.end_ := (congrArg Area.end_ h :)
  rw [Area.contains, hstart, hend]

lemma contains_with_end (h : a.fields = { b.fields with end_ := c }) (va : Nat) :
    a.contains va ↔ b.start ≤ va ∧ va < c := by
  have hstart : a.start = b.start := (congrArg Area.start h :)
  have hend : a.end_ = c := (congrArg Area.end_ h :)
  rw [Area.contains, hstart, hend]

/-- An area on the list, or `vma`. -/
lemma exists_mem_iff_of_ne {P Q : Nat → Prop} (hvma : vma ∈ nodes)
    (h : ∀ x ∈ nodes, x ≠ vma → (P x ↔ Q x)) :
    (∃ x ∈ nodes, P x) ↔ (∃ x ∈ nodes, x ≠ vma ∧ Q x) ∨ P vma := by
  constructor
  · rintro ⟨x, hx, hP⟩
    by_cases he : x = vma
    · exact .inr (he ▸ hP)
    · exact .inl ⟨x, hx, he, (h x hx he).mp hP⟩
  · rintro (⟨x, hx, he, hQ⟩ | hP)
    · exact ⟨x, hx, (h x hx he).mpr hQ⟩
    · exact ⟨vma, hvma, hP⟩

/-- The area is left with what lies in front of the range and what lies behind it. -/
lemma Cut.covered {b : Nat} (h : Cut Held nodes new vma b c s s')
    (hheld : ∀ x ∈ nodes, Held s.mem.alloc x 1) (hvma : vma ∈ nodes) (a : Nat) :
    (∃ x ∈ new, (s'.area x).contains a) ↔ (∃ x ∈ nodes, x ≠ vma ∧ (s.area x).contains a) ∨
      ((s.area vma).start ≤ a ∧ a < b ∨ c ≤ a ∧ a < (s.area vma).end_) := by
  cases h with
  | whole hstart hend hnew hfields =>
    have hempty : ¬ ((s.area vma).start ≤ a ∧ a < b ∨ c ≤ a ∧ a < (s.area vma).end_) := by omega
    rw [or_iff_left hempty]
    simp only [hnew, contains_of_fields (hfields _), and_assoc]
  | head hstart hend hnew hfields =>
    subst hnew
    have hself := hfields vma
    rw [if_pos rfl] at hself
    rw [exists_mem_iff_of_ne hvma (Q := fun x => (s.area x).contains a), contains_with_start hself]
    · have hfront : ¬ ((s.area vma).start ≤ a ∧ a < b) := by omega
      rw [or_iff_right hfront]
    · intro x _ he
      have hx := hfields x
      rw [if_neg he] at hx
      exact contains_of_fields hx a
  | tail hstart hend hnew hfields =>
    subst hnew
    have hself := hfields vma
    rw [if_pos rfl] at hself
    rw [exists_mem_iff_of_ne hvma (Q := fun x => (s.area x).contains a), contains_with_end hself]
    · have hback : ¬ (c ≤ a ∧ a < (s.area vma).end_) := by omega
      rw [or_iff_left hback]
    · intro x _ he
      have hx := hfields x
      rw [if_neg he] at hx
      exact contains_of_fields hx a
  | @middle hstart hend v hv hnew hfields =>
    have hne : ∀ x ∈ nodes, x ≠ v := by
      rintro x hx rfl
      exact hv (hheld x hx)
    have hupper := hfields v
    rw [if_pos rfl] at hupper
    have hself := hfields vma
    rw [if_neg (hne vma hvma), if_pos rfl] at hself
    have hsplit : (∃ x ∈ new, (s'.area x).contains a) ↔
        (s'.area v).contains a ∨ ∃ x ∈ nodes, (s'.area x).contains a := by
      simp only [hnew, or_and_right, exists_or, exists_eq_left]
    rw [hsplit, exists_mem_iff_of_ne hvma (Q := fun x => (s.area x).contains a),
      contains_with_start hupper, contains_with_end hself]
    · exact or_left_comm.trans (or_congr_right or_comm)
    · intro x hx he
      have hother := hfields x
      rw [if_neg (hne x hx), if_neg he] at hother
      exact contains_of_fields hother a

/-- The entries of the page tables stay. -/
lemma doMunmap_pte (h : doMunmap E fuel pid addr length s = some (res, s')) :
    s'.mem.pte = s.mem.pte := by
  obtain ⟨p, -, ⟨rfl, -⟩ | ⟨vma, s₁, -, -, -, hwrite, hunmaps⟩⟩ := doMunmap_cases h
  · rfl
  · obtain ⟨w, q, z, rfl⟩ := writesBack_cases hwrite
    cases hunmaps with
    | @whole s2 m _ _ hunlink hfree =>
      obtain ⟨a, -, heq⟩ := bind_eq_some_iff.mp hfree
      cases heq
      have hmem : s2.mem = s.mem := by
        unfold unlinkArea at hunlink
        simp only at hunlink
        split_ifs at hunlink
        · cases hunlink
          rw [State.setPrev_mem, State.setNext_mem]
        · cases hunlink
          rw [State.setPrev_mem]
          rfl
      rw [hmem]
    | head _ _ => rfl
    | tail _ _ => rfl
    | middle _ _ hsplit =>
      obtain ⟨⟨v, s2⟩, hk, heq⟩ := bind_eq_some_iff.mp hsplit
      obtain ⟨⟨v', m⟩, hk', hs2⟩ := bind_eq_some_iff.mp hk
      obtain ⟨⟨v'', al⟩, -, hm⟩ := bind_eq_some_iff.mp hk'
      cases hm
      cases hs2
      simp only [some.injEq] at heq
      rw [← heq]
      simp

/-- The area is cut at its front unless the end of the range wraps around. -/
lemma lt_unmapEnd_iff (hlen : pgRoundUp length ≠ 0) (hin : pgRoundDown addr < a.end_) :
    pgRoundDown addr < unmapEnd a addr length ↔ pgRoundDown addr + pgRoundUp length < 2 ^ 64 := by
  have hlen' : pgRoundUp length < 2 ^ 64 := and_pgMask_lt _
  unfold unmapEnd wrap64
  omega

lemma unmapEnd_of_below (hbelow : pgRoundDown addr + pgRoundUp length < 2 ^ 64) (a : Area) :
    unmapEnd a addr length = min (pgRoundDown addr + pgRoundUp length) a.end_ := by
  rw [unmapEnd, wrap64_of_lt hbelow]

lemma not_contains_of_findVma {b : Nat}
    (h : NullList 0 (fun a => (area a).next) (fun a => (area a).prev) b head nodes)
    (hfind : findVma area va fuel head = some 0) : ∀ x ∈ nodes, ¬ (area x).contains va := by
  induction nodes generalizing b head fuel with
  | nil => exact nofun
  | cons y nodes ih =>
    obtain ⟨rfl, hne, -, h⟩ := h
    cases fuel with
    | zero => cases hfind
    | succ fuel =>
      rw [findVma, if_neg hne] at hfind
      split_ifs at hfind with hin
      · cases hfind
        exact absurd rfl hne
      · intro x hx
        rcases List.mem_cons.mp hx with rfl | hx
        · exact hin
        · exact ih h hfind x hx

/-! ## The whole call -/

lemma inRange_first (hlen : pgRoundUp length ≠ 0) : InRange addr length (pgRoundDown addr) :=
  ⟨le_rfl, Nat.lt_add_of_pos_right (Nat.pos_of_ne_zero hlen)⟩

lemma OneArea.eq {vma' : Nat} (h : OneArea area nodes addr length vma)
    (hlen : pgRoundUp length ≠ 0) (hmem : vma' ∈ nodes)
    (hfirst : (area vma').contains (pgRoundDown addr)) : vma' = vma := by
  by_contra hne
  exact h.only vma' hmem hne _ (inRange_first hlen) hfirst

/-- A call that returns removes the range exactly if the range is in no area, or in one area only and
does not reach the end of the address space. -/
lemma removed_iff (hE : E.Ok lo hi Inv Held) {nodes : Nat → List Nat} (h : Lists Inv Held s nodes)
    (hp : s.proc pid = some p) (hlist : IsVmaList s.area p.vmaList (nodes pid))
    (hm : doMunmap E fuel pid addr length s = some (res, s')) :
    Removed pid p addr length s s' ↔ Apart s.area (nodes pid) addr length ∨
      pgRoundDown addr + pgRoundUp length < 2 ^ 64 ∧
        ∃ vma, OneArea s.area (nodes pid) addr length vma := by
  have hself : ∀ p, s.proc pid = some p → ¬ SelfLinked s.area p.vmaList := by
    intro p' hp' hself
    rw [hp] at hp'
    cases hp'
    exact hself.not_list _ hlist
  have hpte := doMunmap_pte hm
  obtain ⟨p', hp', new, he, hcases⟩ := doMunmap_effect hE h hself hm
  rw [hp] at hp'
  cases hp'
  obtain ⟨q, hq, hnew⟩ := he.proc
  -- what is left to show are the addresses
  have hset : Removed pid p addr length s s' ↔ ∀ a, (∃ x ∈ new, (s'.area x).contains a) ↔
      (∃ x ∈ nodes pid, (s.area x).contains a) ∧ ¬ InRange addr length a := by
    simp only [← covered_iff hp hlist, ← covered_iff hq hnew]
    refine ⟨Removed.covered, fun hcov => ⟨hcov, ⟨q, new, hq, hnew.wellFormed⟩, fun a _ => ?_⟩⟩
    simp only [leaf, hpte]
  rw [hset]
  rcases hcases with ⟨rfl, hnothing⟩ | ⟨vma, s₁, hlen, hvma, hfind, -, -, hcut⟩
  · rw [hp] at hq
    cases hq
    rw [hnew.unique hlist]
    constructor
    · intro heq
      refine .inl fun x hx a hin hcontains => ?_
      exact ((heq a).mp ⟨x, hx, hcontains⟩).2 hin
    · intro hor a
      have hapart : Apart s'.area (nodes pid) addr length := by
        refine hor.elim id ?_
        rintro ⟨-, vma, hone⟩
        rcases hnothing with hlen | hfind
        · intro x hx b hb
          unfold InRange at hb
          omega
        · exact absurd hone.first (not_contains_of_findVma hlist hfind vma hone.mem)
      constructor
      · rintro ⟨x, hx, hcontains⟩
        exact ⟨⟨x, hx, hcontains⟩, fun hin => hapart x hx a hin hcontains⟩
      · exact And.left
  · have hfirst := findVma_bounds hfind (hlist.ne_null hvma)
    have hbelow := lt_unmapEnd_iff hlen hfirst.2
    simp only [hcut.covered (fun x hx => h.held hx) hvma]
    constructor
    · intro heq
      refine .inr ⟨?_, vma, hvma, hfirst, fun x hx hne a hin hcontains => ?_⟩
      · by_contra hover
        have hle := Nat.le_of_not_lt fun hlt => hover (hbelow.mp hlt)
        exact ((heq _).mp (.inr (.inr ⟨hle, hfirst.2⟩))).2 (inRange_first hlen)
      · exact ((heq a).mp (.inl ⟨x, hx, hne, hcontains⟩)).2 hin
    · rintro (hapart | ⟨hin, vma', hone⟩)
      · exact absurd hfirst (hapart vma hvma _ (inRange_first hlen))
      · obtain rfl := hone.eq hlen hvma hfirst
        intro a
        have hbefore : (∃ x ∈ nodes pid, (s.area x).contains a) ↔
            (∃ x ∈ nodes pid, x ≠ vma ∧ (s.area x).contains a) ∨ (s.area vma).contains a :=
          exists_mem_iff_of_ne hvma fun x _ _ => Iff.rfl
        have hothers : (∃ x ∈ nodes pid, x ≠ vma ∧ (s.area x).contains a) → ¬ InRange addr length a := by
          rintro ⟨x, hx, hne, hcontains⟩ hr
          exact hone.only x hx hne a hr hcontains
        have harith : ((s.area vma).start ≤ a ∧ a < pgRoundDown addr ∨
            min (pgRoundDown addr + pgRoundUp length) (s.area vma).end_ ≤ a ∧ a < (s.area vma).end_) ↔
            (s.area vma).contains a ∧ ¬ InRange addr length a := by
          unfold Area.contains InRange
          omega
        rw [unmapEnd_of_below hin, harith, hbefore, or_and_right, and_iff_left_of_imp hothers]

/-- What a call that returns says about the area that it cut. -/
lemma takesOne_of_returns (hp : s.proc pid = some p) (hlist : IsVmaList s.area p.vmaList nodes)
    (hm : doMunmap E fuel pid addr length s = some (res, s'))
    (hbelow : pgRoundDown addr + pgRoundUp length < 2 ^ 64)
    (hone : OneArea s.area nodes addr length vma) (hlen : pgRoundUp length ≠ 0) :
    TakesOne E s p nodes addr length vma := by
  obtain ⟨p', hp', hcases⟩ := doMunmap_cases hm
  rw [hp] at hp'
  cases hp'
  rcases hcases with ⟨-, hz | hfind⟩ | ⟨vma', s₁, -, hnull, hfind, hwrite, hunmaps⟩
  · exact absurd hz hlen
  · exact absurd hone.first (not_contains_of_findVma hlist hfind vma hone.mem)
  · have hvma := findVma_mem hlist hfind hnull
    obtain rfl := hone.eq hlen hvma (findVma_bounds hfind hnull)
    refine ⟨hone, hbelow, fun hshared i hi => ?_, fun hstart hend => ?_,
      fun hstart hend => ?_⟩
    · rw [writesBack, if_pos (of_decide_eq_true hshared)] at hwrite
      exact writesPage_of_writeBack (unmapEnd_le _ _ _) hwrite i hi
    · have hend' : unmapEnd (s.area vma') addr length = (s.area vma').end_ := by
        rw [unmapEnd_of_below hbelow]
        exact Nat.min_eq_right hend
      obtain ⟨w, q, z, rfl⟩ := writesBack_cases hwrite
      cases hunmaps with
      | whole _ _ hunlink _ =>
        exact (unlinkArea_returns_iff pid (s := { s with written := w, fpos := q, fsize := z })
          hlist hvma).mp ⟨_, hunlink⟩
      | head _ hne => exact absurd hend' hne
      | tail hne _ => exact absurd hstart hne
      | middle hne _ _ => exact absurd hstart hne
    · have hend' : unmapEnd (s.area vma') addr length ≠ (s.area vma').end_ := by
        rw [unmapEnd_of_below hbelow]
        omega
      obtain ⟨w, q, z, rfl⟩ := writesBack_cases hwrite
      cases hunmaps with
      | whole he _ _ _ => exact absurd he hstart
      | head he _ => exact absurd he hstart
      | tail _ he => exact absurd he hend'
      | middle _ _ hsplit =>
        obtain ⟨⟨v, s2⟩, hk, -⟩ := bind_eq_some_iff.mp hsplit
        obtain ⟨r, hk', -⟩ := bind_eq_some_iff.mp hk
        exact ⟨r, hk'⟩

/-- `do_munmap` removes its range from the areas exactly if no area has a page of it, or one area has
its first page and all that there is of it, and can be cut. -/
theorem doMunmap_removes_iff (hE : E.Ok lo hi Inv Held) {nodes : Nat → List Nat}
    (h : Lists Inv Held s nodes) (hp : s.proc pid = some p)
    (hlist : IsVmaList s.area p.vmaList (nodes pid)) :
    Removes E pid p addr length s ↔ Apart s.area (nodes pid) addr length ∨
      ∃ vma, TakesOne E s p (nodes pid) addr length vma := by
  constructor
  · rintro ⟨⟨fuel, ⟨res, s'⟩, hm⟩, hall⟩
    rcases (removed_iff hE h hp hlist hm).mp (hall fuel res s' hm) with hapart | ⟨hbelow, vma, hone⟩
    · exact .inl hapart
    · by_cases hlen : pgRoundUp length = 0
      · refine .inl fun x _ a ha => ?_
        unfold InRange at ha
        omega
      · exact .inr ⟨vma, takesOne_of_returns hp hlist hm hbelow hone hlen⟩
  · rintro (hapart | ⟨vma, htakes⟩)
    · refine ⟨?_, fun fuel res s' hm => (removed_iff hE h hp hlist hm).mpr (.inl hapart)⟩
      obtain ⟨v, hfind, hv⟩ := findVma_list hlist
      refine ⟨(nodes pid).length + 1, (-1, s), ?_⟩
      by_cases hlen : pgRoundUp length = 0
      · simp only [doMunmap, hp, hlen, bind_eq_bind, bind_some, if_true]
      · have hnull : v = 0 := by
          by_contra hne
          exact hapart v (hv.resolve_left hne) _ (inRange_first hlen) (findVma_bounds hfind hne)
        simp only [doMunmap, hp, hfind, hnull, bind_eq_bind, bind_some, if_true, ite_self]
    · have hone := htakes.toOneArea
      refine ⟨?_, fun fuel res s' hm => (removed_iff hE h hp hlist hm).mpr
        (.inr ⟨htakes.below, vma, hone⟩)⟩
      by_cases hlen : pgRoundUp length = 0
      · refine ⟨0, (-1, s), ?_⟩
        simp only [doMunmap, hp, hlen, bind_eq_bind, bind_some, if_true]
      · obtain ⟨v, hfind, hv⟩ := findVma_list hlist
        have hne : v ≠ 0 := by
          rintro rfl
          exact not_contains_of_findVma hlist hfind vma htakes.mem htakes.first
        obtain rfl := hone.eq hlen (hv.resolve_left hne) (findVma_bounds hfind hne)
        refine doMunmap_returns hE h.alloc hlist (fun x hx => h.held hx) hp htakes.mem hfind htakes.pages
          (fun hstart hend => ?_) fun hstart hend => ?_
        · rw [unmapEnd_of_below htakes.below] at hend
          exact htakes.another hstart (by omega)
        · rw [unmapEnd_of_below htakes.below] at hend
          exact htakes.room hstart (by omega)

end

/-! ## Areas of a file -/

/-- The list has one area, from `b` to `c`. -/
def IsSingle (area : Nat → Area) (head b c : Nat) : Prop :=
  head ≠ 0 ∧ (area head).prev = 0 ∧ (area head).next = 0 ∧ (area head).start = b ∧ (area head).end_ = c

instance (area : Nat → Area) (head b c : Nat) : Decidable (IsSingle area head b c) :=
  inferInstanceAs (Decidable (_ ∧ _))

/-- The middle page of a shared area of three pages is given back. -/
theorem doMunmap_removes_middle :
    ∃ E m s p, bootSmall = some (E, m) ∧
      sysMmap E 8 1 sharedArgs zeroArea (fileProcess m) = some (0, s) ∧ s.proc 1 = some p ∧
      Removes E 1 p 0x11000 0x1000 s := by
  have hrun : (bootSmall.bind fun b => (sysMmap b.1 8 1 sharedArgs zeroArea (fileProcess b.2)).bind
      fun r => (r.2.proc 1).map fun p => decide (r.1 = 0 ∧ selfLinked (fileProcess b.2) 1 = false ∧
        IsSingle r.2.area p.vmaList 0x10000 0x13000 ∧ entryAddr r.2.mem.pte p.pagetable (0x11000 >>> 12) ≠ none ∧
        has (leaf r.2.mem p.pagetable (0x11000 >>> 12)) pteD = false ∧
        (kalloc b.1 sizeofVmArea r.2.mem).isSome = true)) = some true := by
    decide +kernel
  obtain ⟨⟨E, m⟩, hboot, hrun⟩ := bind_eq_some_iff.mp hrun
  obtain ⟨⟨res, s⟩, hmmap, hrun⟩ := bind_eq_some_iff.mp hrun
  obtain ⟨p, hp, hres⟩ := map_eq_some_iff.mp hrun
  obtain ⟨rfl, hself, ⟨hne, hprev, hnext, hstart, hend⟩, hentry, hclean, hroom⟩ := of_decide_eq_true hres
  obtain ⟨hE, hs⟩ := bootSmall_ok hboot
  have hordered : Ordered (fileProcess m) (.mmap 1 sharedArgs zeroArea) :=
    ⟨fun q hq => not_selfLinked hself hq, rfl⟩
  obtain ⟨nodes, h⟩ := opStep_lists hE (fileProcess_lists hs.alloc) hordered ⟨8, 0, hmmap⟩
  have hlist : IsVmaList s.area p.vmaList [p.vmaList] := ⟨rfl, hne, hprev, hnext⟩
  have hnodes : nodes 1 = [p.vmaList] := by
    rcases h.list hp with hl | ⟨-, hl⟩
    · exact hl.unique hlist
    · exact hl
  refine ⟨E, m, s, p, hboot, hmmap, hp, (doMunmap_removes_iff hE h hp (hnodes ▸ hlist)).mpr (.inr ?_)⟩
  have hva : pgRoundDown 0x11000 = 0x11000 := by decide
  refine ⟨p.vmaList, ⟨?_, ?_, ?_⟩, ?_, ?_, ?_, ?_⟩
  · rw [hnodes]
    exact List.mem_singleton_self _
  · rw [Area.contains, hstart, hend]
    decide
  · intro x hx hother
    rw [hnodes, List.mem_singleton] at hx
    exact absurd hx hother
  · decide
  · intro _ i hi
    have hi0 : i = 0 := by
      have hle : unmapEnd (s.area p.vmaList) 0x11000 0x1000 ≤ 0x12000 := Nat.min_le_left _ _
      omega
    subst hi0
    exact ⟨hentry, fun hd => absurd hd (Bool.eq_false_iff.mp hclean)⟩
  · intro hfirst
    rw [hva, hstart] at hfirst
    cases hfirst
  · intro _ _
    exact isSome_iff_exists.mp hroom

/-- The range starts in the last page of one area and covers another one, which stays. -/
theorem doMunmap_leaves_second :
    ∃ E m s₁ s₂ s₃ p x y, bootSmall = some (E, m) ∧
      sysMmap E 8 1 sharedArgs zeroArea (fileProcess m) = some (0, s₁) ∧
      sysMmap E 8 1 privateArgs zeroArea s₁ = some (0, s₂) ∧ s₂.proc 1 = some p ∧
      IsVmaList s₂.area p.vmaList [x, y] ∧ (s₂.area y).end_ ≤ (s₂.area x).start ∧
      doMunmap E 8 1 0x12000 0xf000 s₂ = some (0, s₃) ∧
      InRange 0x12000 0xf000 0x20000 ∧ Covered 1 s₂ 0x20000 ∧ Covered 1 s₃ 0x20000 := by
  have hrun : (bootSmall.bind fun b => (sysMmap b.1 8 1 sharedArgs zeroArea (fileProcess b.2)).bind
      fun r1 => (sysMmap b.1 8 1 privateArgs zeroArea r1.2).bind fun r2 =>
      (doMunmap b.1 8 1 0x12000 0xf000 r2.2).bind fun r3 => (r2.2.proc 1).bind fun p =>
      (r3.2.proc 1).map fun q => decide ((r1.1 = 0 ∧ r2.1 = 0 ∧ r3.1 = 0) ∧
        (p.vmaList ≠ 0 ∧ (r2.2.area p.vmaList).prev = 0 ∧
          IsSingle (fun a => { r2.2.area a with prev := 0 }) (r2.2.area p.vmaList).next 0x10000 0x13000 ∧
          (r2.2.area (r2.2.area p.vmaList).next).prev = p.vmaList) ∧
        ((r2.2.area p.vmaList).start = 0x20000 ∧ (r2.2.area p.vmaList).end_ = 0x21000) ∧
        q.vmaList ≠ 0 ∧ (r3.2.area q.vmaList).start = 0x20000 ∧ (r3.2.area q.vmaList).end_ = 0x21000)) =
      some true := by
    decide +kernel
  simp only [bind_eq_some_iff, map_eq_some_iff, Prod.exists] at hrun
  obtain ⟨E, m, hboot, res1, s₁, hmmap1, res2, s₂, hmmap2, res3, s₃, hmunmap, p, hp, q, hq,
    hres⟩ := hrun
  obtain ⟨⟨rfl, rfl, rfl⟩, ⟨hne, hprev, ⟨hnext, -, hlast, -, hend⟩, hback⟩, ⟨hstart, hend2⟩, hne3, hstart3,
    hend3⟩ := of_decide_eq_true hres
  refine ⟨E, m, s₁, s₂, s₃, p, p.vmaList, _, hboot, hmmap1, hmmap2, hp,
    ⟨rfl, hne, hprev, rfl, hnext, hback, hlast⟩, ?_, hmunmap, ?_,
    ⟨p, p.vmaList, hp, .here hne, ?_⟩, ⟨q, q.vmaList, hq, .here hne3, ?_⟩⟩
  · rw [hend, hstart]
    decide
  · unfold InRange
    decide
  · rw [Area.contains, hstart, hend2]
    decide
  · rw [Area.contains, hstart3, hend3]
    decide

end Hana.Vma
