import Hana.Mm.Vm.FreeLog
import Hana.Proc.Exec.Space

/-!
# A failing execve

`FailsClean` is what a failing call owes to its caller: the result is `-1`, the process is as
before, no file stays open, and every table of the image that was begun is passed to `kfree`
once. It holds exactly if the call fails before a file is open:

* a file with the wrong magic number is not closed;
* later failures free the table by `uvmfree`, which frees the root, too, and then once more by
  `freewalk`; the root is passed to `kfree` twice. At that time the list of areas of the
  process is replaced as well.
-/

namespace Hana.Exec

open Lib Vm Proc Option

variable {A : Type}

/-- The call returns `-1` and leaves nothing behind. -/
def FailsClean (K : Kernel A) (fuel upath uargv uenvp : Nat) (s : State A) : Prop :=
  ∃ image s', sysExecve K fuel upath uargv uenvp s = some (.fails image s') ∧
    s'.proc = s.proc ∧ s'.opened = s.opened ∧
    ∀ r m, image = some (r, m) → ∀ l t, TableBelow m r l t →
      s'.mem.kfreed.count t = m.kfreed.count t + 1

/-- The allocator has a block for each of the objects that `kernel_open` makes. -/
def OpenRoom (al : Allocator A) (ext4 : Bool) (a : A) : Prop :=
  ∃ file a₁ inode a₂, al.kalloc sizeofFile a = some (file, a₁) ∧
    al.kalloc sizeofInode a₁ = some (inode, a₂) ∧
    (ext4 = true → ∃ priv a₃, al.kalloc sizeofExt4File a₂ = some (priv, a₃))

/-- There is no path, or no file can be opened under the path that was fetched. -/
def NoFile (K : Kernel A) (upath : Nat) (s : State A) : Prop :=
  upath = 0 ∨ ∃ m, fetchPath K upath s = some m ∧
    match K.fs.lookup fun i => m.byte (K.locals.path + i) with
    | .noMount => True
    | .cannotOpen ext4 => OpenRoom K.env.al ext4 m.alloc
    | _ => False

section

variable {Inv : A → Prop} {Held : A → Nat → Nat → Prop} {lo hi : Nat}
variable {K : Kernel A} {s s' : State A} {v : Vars A} {sz : Nat} {pgtbl : Option Nat}

/-! ## Where the failures come from -/

lemma loadTurn_bad {off : Int} (h : loadTurn K off v = some (.bad pgtbl sz s')) :
    pgtbl ≠ none := by
  simp only [loadTurn] at h
  split_ifs at h
  · cases h
  · cases h
  · cases h
    exact some_ne_none _
  · cases h
    exact some_ne_none _
  · obtain ⟨v', _, hv'⟩ := map_eq_some_iff.mp h
    cases hv'

lemma loadLoop_bad {n : Nat} {off : Int} (h : loadLoop K n off v = some (.bad pgtbl sz s')) :
    pgtbl ≠ none := by
  induction n generalizing off v with
  | zero => cases h
  | succ n ih =>
    rcases andThen_eq_bad h with hturn | ⟨v1, _, hloop⟩
    · exact loadTurn_bad hturn
    · exact ih hloop

lemma loadInterp_bad (h : loadInterp K v = some (.bad pgtbl sz s')) : pgtbl ≠ none := by
  unfold loadInterp at h
  split_ifs at h
  · obtain ⟨⟨file, s1⟩, _, h⟩ := bind_eq_some_iff.mp h
    cases file with
    | null =>
      cases h
      exact some_ne_none _
    | error => cases h
    | file f =>
      dsimp only at h
      split_ifs at h
      · cases h
        exact some_ne_none _
      · obtain ⟨v1, _, h⟩ := bind_eq_some_iff.mp h
        obtain ⟨s2, _, h⟩ := bind_eq_some_iff.mp h
        cases h
  · cases h

lemma loadImage_bad (h : loadImage K v = some (.bad pgtbl sz s')) : pgtbl ≠ none := by
  rcases andThen_eq_bad h with hloop | ⟨v1, _, h⟩
  · exact loadLoop_bad hloop
  · obtain ⟨s1, _, h⟩ := bind_eq_some_iff.mp h
    exact loadInterp_bad h

lemma buildStack_bad {uargv uenvp : Nat}
    (h : buildStack K uargv uenvp v = some (.bad pgtbl sz s')) : pgtbl ≠ none := by
  obtain ⟨⟨ustack, m1⟩, _, h⟩ := bind_eq_some_iff.mp h
  obtain ⟨⟨env, m2⟩, _, h⟩ := bind_eq_some_iff.mp h
  cases env with
  | none =>
    cases h
    exact some_ne_none _
  | some env =>
    obtain ⟨⟨args, m3⟩, _, h⟩ := bind_eq_some_iff.mp h
    cases args with
    | none =>
      cases h
      exact some_ne_none _
    | some args =>
      obtain ⟨⟨used, m4⟩, _, h⟩ := bind_eq_some_iff.mp h
      obtain ⟨⟨pEnvp, used1, m5⟩, _, h⟩ := bind_eq_some_iff.mp h
      obtain ⟨⟨pArgv, used2, m6⟩, _, h⟩ := bind_eq_some_iff.mp h
      obtain ⟨m7, _, h⟩ := bind_eq_some_iff.mp h
      cases h

/-- A failure without a table is one of the first part. -/
lemma sysExecve_fails {fuel upath uargv uenvp : Nat} {image : Option (Nat × Mem A)}
    (h : sysExecve K fuel upath uargv uenvp s = some (.fails image s')) :
    ∃ pgtbl sz s1, execveBad K.env pgtbl sz s1 = some s' ∧
      image = (pgtbl.map fun r => (r, s1.mem)) ∧
      (pgtbl = none → openImage K upath s = some (.bad none sz s1)) := by
  obtain ⟨flow, hflow, h⟩ := bind_eq_some_iff.mp h
  cases flow with
  | next vst =>
    obtain ⟨m1, _, h⟩ := bind_eq_some_iff.mp h
    obtain ⟨⟨up, m2⟩, _, h⟩ := bind_eq_some_iff.mp h
    cases h
  | bad pgtbl sz s1 =>
    obtain ⟨s2, hbad, h⟩ := bind_eq_some_iff.mp h
    cases h
    refine ⟨pgtbl, sz, s1, hbad, rfl, ?_⟩
    rintro rfl
    rcases andThen_eq_bad hflow with hprep | ⟨v1, _, hstack⟩
    · rcases andThen_eq_bad hprep with hopen | ⟨v1, _, hload⟩
      · exact hopen
      · exact absurd rfl (loadImage_bad hload)
    · rcases andThen_eq_bad hstack with hstack | ⟨st, _, hnext⟩
      · exact absurd rfl (buildStack_bad hstack)
      · cases hnext

/-! ## The label `execve_bad` -/

/-- There is nothing that `uvmunmap` does in front of the `freewalk`. -/
lemma uvmfree_eq (E : Env A) (r sz : Nat) (m : Mem A) : uvmfree E r sz m = freewalk E 3 r m := by
  have hunmap : uvmunmap E r 0 (pgRoundUp sz >>> pgShift) true m = some m :=
    uvmunmap_eq E r _ true m (Nat.dvd_zero _)
  by_cases hpos : 0 < sz
  · simp only [uvmfree, if_pos hpos, hunmap, bind_eq_bind, bind_some]
  · simp only [uvmfree, if_neg hpos, bind_eq_bind, bind_some]

/-- The root is passed to `kfree` by `uvmfree` and by the `freewalk` after it. -/
lemma execveBad_twice {r : Nat} (h : execveBad K.env (some r) sz s = some s') :
    s.mem.kfreed.count r + 2 ≤ s'.mem.kfreed.count r := by
  simp only [execveBad, uvmfree_eq, bind_eq_bind, bind_eq_some_iff,
    some.injEq] at h
  obtain ⟨m2, hfree, m3, hwalk, rfl⟩ := h
  obtain ⟨freed, hfreed, hmem⟩ := freewalk_kfreed hfree
  obtain ⟨freed', hfreed', hmem'⟩ := freewalk_kfreed hwalk
  have hone : 1 ≤ freed.count r := List.one_le_count_iff.mpr (hmem (by decide))
  have hone' : 1 ≤ freed'.count r := List.one_le_count_iff.mpr (hmem' (by decide))
  rw [hfreed', hfreed, List.count_append, List.count_append]
  omega

/-! ## Opening -/

lemma kernelOpen_file {path : Nat} {f : File} (h : kernelOpen K path s = some (.file f, s')) :
    s'.opened = f.addr :: s.opened := by
  unfold kernelOpen at h
  split at h
  · cases h
  · cases h
  · simp only [bind_eq_bind, bind_eq_some_iff, some.injEq, Prod.mk.injEq,
      reduceCtorEq, false_and, and_false, exists_false] at h
  · simp only [bind_eq_bind, bind_eq_some_iff, some.injEq, Prod.mk.injEq,
      Prod.exists, FilePtr.file.injEq] at h
    obtain ⟨file, m1, _, inode, m2, _, priv, m3, _, rfl, rfl⟩ := h
    rfl

lemma kcalloc_eq {E : Env A} {nr size : Nat} (m : Mem A) :
    kcalloc E nr size m = (E.al.kalloc (nr * size) m.alloc).map fun r =>
      (r.1, zeroBytes r.1 (nr * size) { m with alloc := r.2 }) := by
  unfold kcalloc kalloc
  cases E.al.kalloc (nr * size) m.alloc with
  | none => rfl
  | some r => rfl

/-- The third object keeps the other ones. -/
lemma kalloc_ext4File (hE : K.env.Ok lo hi Inv Held) {a : A} (hinv : Inv a) {ext4 : Bool}
    (h : ext4 = true → ∃ priv a₃, K.env.al.kalloc sizeofExt4File a = some (priv, a₃)) :
    ∃ a', Inv a' ∧ (∀ q n, Held a q n → Held a' q n) ∧ ∀ m : Mem A, m.alloc = a →
      (if ext4 then (kalloc K.env sizeofExt4File m).map Prod.snd else some m) =
        some { m with alloc := a' } := by
  cases ext4 with
  | false =>
    refine ⟨a, hinv, fun _ _ hq => hq, ?_⟩
    rintro m rfl
    rfl
  | true =>
    obtain ⟨priv, a', hpriv⟩ := h rfl
    obtain ⟨hinv', _, _, _, _, hheld⟩ := hE.lawful.kalloc_spec hinv (by decide) (by decide) hpriv
    refine ⟨a', hinv', fun q n hq => (hheld q n).mpr (.inr hq), ?_⟩
    rintro m rfl
    simp only [if_true, kalloc, hpriv, bind_eq_bind, bind_some, map_some]

/-- The result `NULL`, and what it takes to come back with it. -/
lemma kernelOpen_null_iff (hE : K.env.Ok lo hi Inv Held) (path : Nat) (hinv : Inv s.mem.alloc) :
    (∃ s', kernelOpen K path s = some (.null, s') ∧ s'.proc = s.proc ∧ s'.opened = s.opened) ↔
      match K.fs.lookup fun i => s.mem.byte (path + i) with
      | .noMount => True
      | .cannotOpen ext4 => OpenRoom K.env.al ext4 s.mem.alloc
      | _ => False := by
  unfold kernelOpen
  cases K.fs.lookup fun i => s.mem.byte (path + i) with
  | badPath => simp
  | noMount => simp
  | found content =>
    simp only [iff_false]
    rintro ⟨s', h, _⟩
    simp only [bind_eq_bind, bind_eq_some_iff, some.injEq, Prod.mk.injEq,
      reduceCtorEq, false_and, and_false, exists_false] at h
  | cannotOpen ext4 =>
    simp only [bind_eq_bind, kcalloc_eq, mul_one]
    constructor
    · rintro ⟨s', h, _⟩
      simp only [bind_eq_some_iff, map_eq_some_iff, Prod.exists] at h
      obtain ⟨file, m1, ⟨_, a1, hfile, heq1⟩, inode, m2, ⟨_, a2, hinode, heq2⟩, m3, hpriv, _⟩ := h
      cases heq1
      cases heq2
      refine ⟨file, a1, inode, a2, hfile, hinode, fun hext4 => ?_⟩
      rw [if_pos hext4] at hpriv
      obtain ⟨_, hpriv, _⟩ := map_eq_some_iff.mp hpriv
      obtain ⟨⟨priv, a3⟩, hpriv, _⟩ := bind_eq_some_iff.mp hpriv
      exact ⟨priv, a3, hpriv⟩
    · rintro ⟨file, a1, inode, a2, hfile, hinode, hpriv⟩
      obtain ⟨hinv1, n1, _, _, hapart1, hheld1⟩ :=
        hE.lawful.kalloc_spec hinv (by decide) (by decide) hfile
      obtain ⟨hinv2, n2, hn2, _, hapart2, hheld2⟩ :=
        hE.lawful.kalloc_spec hinv1 (by decide) (by decide) hinode
      obtain ⟨a3, hinv3, hkept, hthird⟩ := kalloc_ext4File hE hinv2 hpriv
      have hfile1 : Held a1 file n1 := (hheld1 _ _).mpr (.inl ⟨rfl, rfl⟩)
      have hinode3 : Held a3 inode n2 := hkept _ _ ((hheld2 _ _).mpr (.inl ⟨rfl, rfl⟩))
      have hfile3 : Held a3 file n1 := hkept _ _ ((hheld2 _ _).mpr (.inr hfile1))
      obtain ⟨a4, hfree4, hinv4, hheld4⟩ := hE.lawful.kfree_spec hinv3 hinode3
      have hne : file ≠ inode := by
        rcases hapart2 file n1 hfile1 with h | h <;> omega
      obtain ⟨a5, hfree5, _⟩ :=
        hE.lawful.kfree_spec hinv4 ((hheld4 file n1).mpr ⟨hfile3, fun h => hne h.1⟩)
      simp only [hfile, hinode, map_some, bind_some, zeroBytes]
      rw [hthird ⟨a2, s.mem.pte, _, s.mem.cnt, s.mem.kfreed⟩ rfl]
      simp only [kfree, bind_eq_bind, bind_some, hfree4, hfree5]
      exact ⟨_, rfl, rfl, rfl⟩

lemma fetchPath_alloc {upath : Nat} {m : Mem A} (h : fetchPath K upath s = some m) :
    m.alloc = s.mem.alloc := by
  obtain ⟨⟨res, m1⟩, hcopy, h⟩ := bind_eq_some_iff.mp h
  cases h
  rw [copyinstr_rest hcopy]
  rfl

/-- A failing call is clean exactly if it does not come to open a file, where no live page imitates a
free block. -/
theorem execve_fails_clean_iff (hE : K.env.Ok lo hi Inv Held) (hinv : Inv s.mem.alloc)
    (fuel upath uargv uenvp : Nat) :
    FailsClean K fuel upath uargv uenvp s ↔ NoFile K upath s := by
  constructor
  · rintro ⟨image, s', h, hproc, hopened, hfreed⟩
    obtain ⟨pgtbl, sz, s1, hbad, himage, hnone⟩ := sysExecve_fails h
    cases pgtbl with
    | some r =>
      have htwice := execveBad_twice hbad
      have honce := hfreed r s1.mem himage 2 r .root
      omega
    | none =>
      have hopen := hnone rfl
      cases hbad
      unfold openImage at hopen
      split_ifs at hopen with hnull
      · exact .inl hnull
      · obtain ⟨m, hpath, hopen⟩ := bind_eq_some_iff.mp hopen
        obtain ⟨⟨file, s2⟩, hfile, hopen⟩ := bind_eq_some_iff.mp hopen
        refine .inr ⟨m, hpath, ?_⟩
        have hiff := kernelOpen_null_iff (s := { s with mem := m }) hE K.locals.path
          (by rw [fetchPath_alloc hpath]; exact hinv)
        cases file with
        | null =>
          cases hopen
          exact hiff.mp ⟨_, hfile, hproc, hopened⟩
        | error => cases hopen
        | file f =>
          -- the magic number is wrong, and the file is in the list of open files
          have hmore := kernelOpen_file hfile
          simp only [readHeader] at hopen
          split_ifs at hopen
          · cases hopen
            have hlen := congrArg List.length (hmore.symm.trans hopened)
            simp only [List.length_cons] at hlen
            omega
          · simp only [bind_eq_bind, bind_eq_some_iff, some.injEq,
              reduceCtorEq, and_false, exists_false] at hopen
  · rintro (rfl | ⟨m, hpath, hlook⟩)
    · refine ⟨none, s, rfl, rfl, rfl, ?_⟩
      intro r m himage
      cases himage
    · obtain ⟨s', hfile, hproc, hopened⟩ :=
        (kernelOpen_null_iff (s := { s with mem := m }) hE K.locals.path
          (by rw [fetchPath_alloc hpath]; exact hinv)).mpr hlook
      by_cases hnull : upath = 0
      · subst hnull
        refine ⟨none, s, rfl, rfl, rfl, ?_⟩
        intro r m himage
        cases himage
      · have hopen : openImage K upath s = some (.bad none 0 s') := by
          simp only [openImage, if_neg hnull, hpath, hfile, bind_eq_bind, bind_some]
        refine ⟨none, s', ?_, hproc, hopened, ?_⟩
        · simp only [sysExecve, prepare, hopen, andThen, bind_some, execveBad,
            bind_eq_bind, map_none]
        · intro r m himage
          cases himage

end

/-- Nothing can be opened under the path, and the call is clean. -/
theorem execve_fails_clean_missing :
    ∃ K s, bootCaller 1 ⟨fun _ => .cannotOpen true, 0⟩ [47, 97, 0] = some (K, s) ∧
      FailsClean K 8 0x1000 0 0 s := by
  have hrun : ((bootCaller 1 ⟨fun _ => .cannotOpen true, 0⟩ [47, 97, 0]).bind fun x =>
      (fetchPath x.1 0x1000 x.2).bind fun m => (x.1.env.al.kalloc sizeofFile m.alloc).bind fun y =>
        (x.1.env.al.kalloc sizeofInode y.2).bind fun z =>
          (x.1.env.al.kalloc sizeofExt4File z.2).map fun _ => true) = some true := by
    decide +kernel
  obtain ⟨⟨K, s⟩, hboot, hrun⟩ := bind_eq_some_iff.mp hrun
  obtain ⟨m, hpath, hrun⟩ := bind_eq_some_iff.mp hrun
  obtain ⟨⟨file, a1⟩, hfile, hrun⟩ := bind_eq_some_iff.mp hrun
  obtain ⟨⟨inode, a2⟩, hinode, hrun⟩ := bind_eq_some_iff.mp hrun
  obtain ⟨⟨priv, a3⟩, hpriv, _⟩ := map_eq_some_iff.mp hrun
  obtain ⟨hE, stack, pages, tab, hready⟩ := bootCaller_ready hboot
  refine ⟨K, s, hboot, (execve_fails_clean_iff hE hready.shaped.alloc 8 0x1000 0 0).mpr ?_⟩
  refine .inr ⟨m, hpath, ?_⟩
  rw [bootCaller_fs hboot]
  exact ⟨file, a1, inode, a2, hfile, hinode, fun _ => ⟨priv, a3, hpriv⟩⟩

/-- The call has failed without an image, and a file is open. -/
def leavesOpen (s : State A) : Result A → Bool
  | .fails none s' => decide (s.opened = [] ∧ s'.opened.length = 1)
  | _ => false

/-- A file with the wrong magic number: the call fails, and the file stays open. -/
theorem execve_wrong_magic_leaks :
    ∃ K s s', bootCaller 1 ⟨fun _ => .found [0x7f, 0x45, 0x4c, 0x47], 0⟩ [47, 97, 0] = some (K, s) ∧
      sysExecve K 8 0x1000 0 0 s = some (.fails none s') ∧ s.opened = [] ∧ s'.opened.length = 1 ∧
      ¬ FailsClean K 8 0x1000 0 0 s := by
  have hrun : ((bootCaller 1 ⟨fun _ => .found [0x7f, 0x45, 0x4c, 0x47], 0⟩ [47, 97, 0]).bind fun x =>
      (sysExecve x.1 8 0x1000 0 0 x.2).map (leavesOpen x.2)) = some true := by
    decide +kernel
  obtain ⟨⟨K, s⟩, hboot, hrun⟩ := bind_eq_some_iff.mp hrun
  obtain ⟨res, hexec, hres⟩ := map_eq_some_iff.mp hrun
  cases res with
  | runs argc headers s' => cases hres
  | fails image s' =>
    cases image with
    | some image => cases hres
    | none =>
      obtain ⟨hempty, hopen⟩ := of_decide_eq_true hres
      refine ⟨K, s, s', hboot, hexec, hempty, hopen, ?_⟩
      rintro ⟨image, s1, hexec', _, hopened, _⟩
      rw [hexec] at hexec'
      cases hexec'
      rw [hopened, hempty] at hopen
      cases hopen

end Hana.Exec
