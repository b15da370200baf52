import Mathlib.Data.List.Nodup
import Mathlib.Tactic.Common
import Hana.Fs.Pipe
import Hana.Fs.PipeFailure

/-!
# How many files a pipe has

The count of a pipe should be the number of the files that belong to it, over all processes. It is
set by `pipe_init` and only goes down after that. So it stays right as long as no file of a pipe is
copied, which `fdt_dup` does not come to the end of, and as long as a file is closed with its last
descriptor, which `fd_clone` does not see to.
-/

namespace Hana.Pipes

open Function List Option Lib Hana.File

/-- The files that belong to the pipe `p`. -/
def Ends (s : Sys) (p : Nat) (l : List FilePtr) : Prop :=
  l.Nodup ∧ ∀ f, f ∈ l ↔ s.live f = true ∧ s.priv f = some p

/-- The counts are right, a pipe and its buffer are there as long as a file of it is, and the
descriptors lead to files and pipes that are there. -/
structure Exact (s : Sys) : Prop where
  refs : ∀ p, (s.pipe p).live = true → ∃ l, Ends s p l ∧ (s.pipe p).ref = l.length
  freed : ∀ p, (s.pipe p).live = true ↔ ∃ f, s.live f = true ∧ s.priv f = some p
  kfifo : ∀ p, (s.pipe p).kfifo = (s.pipe p).live
  descriptors : ∀ pid ∈ s.pids, ∀ i < nrOpen, ∀ f p, (s.table pid).fd i = some f →
    s.priv f = some p → s.live f = true ∧ (s.pipe p).live = true
  files : ∀ pid ∈ s.pids, ∀ i < nrOpen, ∀ f, (s.table pid).fd i = some f →
    isStdstream f = false → s.live f = true

/-- No descriptor of a pipe is copied to another process, no file is closed while another
descriptor of it is open, and `pipe2` does not find exactly one free descriptor. -/
def careful (s : Sys) : Event → Bool
  | .pipe2 pid _ _ _ _ =>
    let t := s.table pid
    decide (nrOpen ≤ t.nextFd) || t.nrAvailFd != 0 &&
      (range nrOpen).any fun i => i != t.nextFd && (t.fd i).isNone
  | .dup _ _ _ => true
  | .fork pid _ _ =>
    (range nrOpen).all fun i => ((s.table pid).fd i).all fun f => (s.priv f).isNone
  | .close pid fd _ =>
    ((s.table pid).fd fd.toNat).all fun f => isStdstream f ||
      s.pids.all fun q => (range nrOpen).all fun i =>
        (q == pid && i == fd.toNat) || (s.table q).fd i != some f

/-- What careful runs keep. -/
structure Inv (s : Sys) : Prop where
  slot : ∀ pid ∈ s.pids, ∀ i < nrOpen, ∀ f, (s.table pid).fd i = some f → isStdstream f = false →
    s.live f = true
  std : ∀ f, isStdstream f = true → s.priv f = none
  ref : ∀ f p, s.live f = true → s.priv f = some p → s.ref f = 1
  pipe : ∀ p, ∃ l, Ends s p l ∧
    ((s.pipe p).live = true → (s.pipe p).ref = l.length ∧ l ≠ []) ∧
    ((s.pipe p).live = false → l = [])
  kfifo : ∀ p, (s.pipe p).kfifo = (s.pipe p).live

variable {pid p n i r w : Nat} {f : FilePtr} {st : Files} {fdt : Nat → Option FilePtr}

section

variable {s s' : Sys}

lemma Inv.exact (h : Inv s) : Exact s := by
  refine ⟨?_, ?_, h.kfifo, ?_, h.slot⟩
  · intro p hp
    obtain ⟨l, hl, hlive, _⟩ := h.pipe p
    exact ⟨l, hl, (hlive hp).1⟩
  · intro p
    obtain ⟨l, hl, hlive, hdead⟩ := h.pipe p
    constructor
    · intro hp
      obtain ⟨f, hf⟩ := exists_mem_of_ne_nil l (hlive hp).2
      exact ⟨f, (hl.2 f).mp hf⟩
    · intro ⟨f, hf⟩
      have hmem := (hl.2 f).mpr hf
      cases hp : (s.pipe p).live with
      | true => rfl
      | false =>
        rw [hdead hp] at hmem
        cases hmem
  · intro pid hpid i hi f p hslot hpriv
    have hstd : isStdstream f = false := by
      cases hstd : isStdstream f with
      | false => rfl
      | true =>
        rw [h.std f hstd] at hpriv
        cases hpriv
    have hf := h.slot pid hpid i hi f hslot hstd
    obtain ⟨l, hl, _, hdead⟩ := h.pipe p
    refine ⟨hf, ?_⟩
    cases hp : (s.pipe p).live with
    | true => rfl
    | false =>
      have hmem := (hl.2 f).mpr ⟨hf, hpriv⟩
      rw [hdead hp] at hmem
      cases hmem

/-- A change of the tables and of what no file of a pipe depends on. -/
lemma Inv.of_files (h : Inv s)
    (hslot : ∀ pid ∈ s'.pids, ∀ i < nrOpen, ∀ f, (s'.table pid).fd i = some f →
      isStdstream f = false → s'.live f = true)
    (hpipe : ∀ p, s'.pipe p = s.pipe p ∨
      (s.pipe p).live = false ∧ (s'.pipe p).live = false ∧ (s'.pipe p).kfifo = false)
    (hstd : ∀ f, isStdstream f = true → s'.priv f = none)
    (hends : ∀ f p, s'.live f = true ∧ s'.priv f = some p ↔ s.live f = true ∧ s.priv f = some p)
    (href : ∀ f p, s.live f = true → s.priv f = some p → s'.ref f = s.ref f) : Inv s' := by
  refine ⟨hslot, hstd, ?_, ?_, ?_⟩
  · intro f p hlive hpriv
    obtain ⟨hlive, hpriv⟩ := (hends f p).mp ⟨hlive, hpriv⟩
    rw [href f p hlive hpriv]
    exact h.ref f p hlive hpriv
  · intro p
    obtain ⟨l, ⟨hnodup, hl⟩, hlive, hdead⟩ := h.pipe p
    refine ⟨l, ⟨hnodup, fun f => (hl f).trans (hends f p).symm⟩, ?_⟩
    rcases hpipe p with heq | ⟨hold, hnew, _⟩
    · rw [heq]
      exact ⟨hlive, hdead⟩
    · refine ⟨fun hn => ?_, fun _ => hdead hold⟩
      rw [hnew] at hn
      cases hn
  · intro p
    rcases hpipe p with heq | ⟨_, hnew, hfifo⟩
    · rw [heq]
      exact h.kfifo p
    · rw [hnew, hfifo]

/-! ## Tables -/

lemma put_table (s : Sys) (pid : Nat) (st : Files) (q i : Nat) :
    ((s.put pid st).table q).fd i = if q = pid then st.fd i else (s.table q).fd i := by
  show (update s.table pid _ q).fd i = _
  rw [update_apply]
  split_ifs
  · rfl
  · rfl

lemma Inv.dup (h : Inv s) {oldFd : Nat} {newFd : Option Nat} (hpid : pid ∈ s.pids)
    (hrange : oldFd < nrOpen) (hs : sysDup pid oldFd newFd s = some s') : Inv s' := by
  simp only [sysDup, bind_eq_bind, bind_eq_some_iff, Prod.exists,
    some.injEq] at hs
  obtain ⟨r, st, hclone, rfl⟩ := hs
  have hst : st.ref = s.ref ∧ st.live = s.live ∧
      ∀ i f, st.fd i = some f → i < nrOpen → isStdstream f = false → s.live f = true := by
    rcases fdClone_cases hclone with ⟨_, rfl⟩ | ⟨next, f, hold, _, _, rfl⟩
    · exact ⟨rfl, rfl, fun i f hslot hi hstd => h.slot pid hpid i hi f hslot hstd⟩
    · refine ⟨rfl, rfl, fun i g hslot hi hstd => ?_⟩
      have hslot' : update (s.table pid).fd (cloneTarget newFd (s.view pid)) (some f) i =
          some g := hslot
      rw [update_apply] at hslot'
      split_ifs at hslot'
      · cases hslot'
        exact h.slot pid hpid oldFd hrange f hold hstd
      · exact h.slot pid hpid i hi g hslot' hstd
  obtain ⟨href, hlive, hslots⟩ := hst
  refine h.of_files ?_ (fun _ => .inl rfl) h.std ?_ ?_
  · intro q hq i hi f hslot hstd
    show st.live f = true
    rw [hlive]
    rw [put_table] at hslot
    split_ifs at hslot with hqp
    · exact hslots i f hslot hi hstd
    · exact h.slot q hq i hi f hslot hstd
  · intro f p
    show st.live f = true ∧ s.priv f = some p ↔ _
    rw [hlive]
  · intro f p _ _
    show st.ref f = s.ref f
    rw [href]

/-! ## Closing -/

lemma performCloses_closing (st : Files) (f : FilePtr) (s : Sys) :
    performCloses (closing st f) s = closeOp f s := by
  unfold closing performCloses
  cases st.inode f with
  | false => rfl
  | true => rfl

lemma closeOp_none (hpriv : s.priv f = none) : closeOp f s = s := by
  simp only [closeOp, hpriv]

lemma closeOp_some (hpriv : s.priv f = some p) : closeOp f s =
    { s with
      pipe := update s.pipe p (s.pipe p).drop
      priv := update s.priv f none } := by
  simp only [closeOp, hpriv, pipeFree]

/-- A pipe that loses one of its `n` files is freed exactly when there was no other. -/
lemma drop_spec {q : Pipe} (href : q.ref = n) (hn : 0 < n) :
    (q.drop.live = true → q.drop.ref = (n - 1 : Nat) ∧ n - 1 ≠ 0) ∧
      (q.live = true → q.drop.live = false → n - 1 = 0) := by
  unfold Pipe.drop
  simp only [href]
  split_ifs with hzero
  · refine ⟨fun hf => ?_, fun _ _ => by omega⟩
    cases hf
  · have hcast : (n : Int) - 1 = (n - 1 : Nat) := by omega
    refine ⟨fun _ => ⟨hcast, by omega⟩, fun ht hf => ?_⟩
    rw [ht] at hf
    cases hf

/-- What is left when a descriptor and its file are given up: the other descriptors lead elsewhere. -/
structure Sole (s : Sys) (pid i : Nat) (f : FilePtr) : Prop where
  slot : (s.table pid).fd i = some f
  only : isStdstream f = false → ∀ q ∈ s.pids, ∀ j < nrOpen, (s.table q).fd j = some f → q = pid ∧ j = i

/-- The slots after one of them has been cleared. -/
lemma Sole.others (hsole : Sole s pid i f)
    (hst : st.fd = update (s.table pid).fd i none) {q j : Nat} {g : FilePtr}
    (hq : q ∈ s.pids) (hj : j < nrOpen) (hslot : ((s.put pid st).table q).fd j = some g) :
    (s.table q).fd j = some g ∧ (isStdstream g = false → g ≠ f) := by
  rw [put_table, hst] at hslot
  have hold : (s.table q).fd j = some g ∧ ¬ (q = pid ∧ j = i) := by
    split_ifs at hslot with hqp
    · rw [update_apply] at hslot
      split_ifs at hslot with hji
      subst hqp
      exact ⟨hslot, fun hn => hji hn.2⟩
    · exact ⟨hslot, fun hn => hqp hn.1⟩
  refine ⟨hold.1, fun hstd hgf => hold.2 ?_⟩
  subst hgf
  exact hsole.only hstd q hq j hj hold.1

/-- A file of a pipe is closed and freed. -/
lemma Inv.closePipe (h : Inv s) (hsole : Sole s pid i f) (hlive : s.live f = true)
    (hpriv : s.priv f = some p) (hfd : st.fd = update (s.table pid).fd i none)
    (hl : st.live = update s.live f false) (hr : ∀ g, g ≠ f → st.ref g = s.ref g) :
    Inv (closeOp f (s.put pid st)) := by
  rw [closeOp_some (by exact hpriv)]
  obtain ⟨l, ⟨hnodup, hl'⟩, hcount, hdead⟩ := h.pipe p
  have hmem : f ∈ l := (hl' f).mpr ⟨hlive, hpriv⟩
  have hplive : (s.pipe p).live = true := by
    cases hp : (s.pipe p).live with
    | true => rfl
    | false =>
      rw [hdead hp] at hmem
      cases hmem
  have hends : ∀ g q, (st.live g = true ∧ update s.priv f none g = some q) ↔
      g ≠ f ∧ s.live g = true ∧ s.priv g = some q := by
    intro g q
    rw [hl, update_apply, update_apply]
    split_ifs with hg
    · simp [hg]
    · simp [hg]
  have hlen := length_erase_of_mem hmem
  have hpos := length_pos_of_mem hmem
  refine ⟨?_, ?_, ?_, ?_, ?_⟩
  · intro q hq j hj g hslot hstd
    obtain ⟨hold, hne⟩ := hsole.others hfd hq hj hslot
    show st.live g = true
    rw [hl, update_of_ne (hne hstd)]
    exact h.slot q hq j hj g hold hstd
  · intro g hg
    show update s.priv f none g = none
    rw [update_apply]
    split_ifs
    · rfl
    · exact h.std g hg
  · intro g q hg hgp
    obtain ⟨hne, hg, hgp⟩ := (hends g q).mp ⟨hg, hgp⟩
    exact (hr g hne).trans (h.ref g q hg hgp)
  · intro q
    by_cases hq : q = p
    · subst hq
      refine ⟨l.erase f, ⟨hnodup.erase f, fun g => ?_⟩, ?_⟩
      · rw [hnodup.mem_erase_iff, hl' g]
        exact (hends g q).symm
      · obtain ⟨hstay, hgone⟩ := drop_spec (hcount hplive).1 hpos
        simp only [update_self, hlen]
        refine ⟨fun ht => ⟨(hstay ht).1, fun hnil => (hstay ht).2 ?_⟩, fun hf => ?_⟩
        · rw [← hlen, hnil, length_nil]
        · exact length_eq_zero_iff.mp (hlen.trans (hgone hplive hf))
    · obtain ⟨l2, ⟨hnodup2, hl2⟩, hcount2, hdead2⟩ := h.pipe q
      simp only [update_of_ne hq]
      refine ⟨l2, ⟨hnodup2, fun g => (hl2 g).trans ?_⟩, hcount2, hdead2⟩
      refine Iff.trans ?_ (hends g q).symm
      constructor
      · intro hg
        refine ⟨fun hgf => hq ?_, hg⟩
        rw [hgf, hpriv] at hg
        exact (some.inj hg.2).symm
      · exact fun hg => hg.2
  · intro q
    show (update s.pipe p (s.pipe p).drop q).kfifo = (update s.pipe p (s.pipe p).drop q).live
    rw [update_apply]
    split_ifs
    · unfold Pipe.drop
      simp only
      split_ifs
      · rfl
      · exact h.kfifo p
    · exact h.kfifo q

/-- A file that belongs to no pipe gives up a reference, or is closed. -/
lemma Inv.closeOther (h : Inv s) (hsole : Sole s pid i f)
    (hpriv : s.priv f = none) (hfd : st.fd = update (s.table pid).fd i none)
    (hl : ∀ g, (isStdstream f = false → g ≠ f) → st.live g = s.live g)
    (hr : ∀ g, g ≠ f → st.ref g = s.ref g) : Inv (s.put pid st) := by
  refine h.of_files ?_ (fun _ => .inl rfl) h.std ?_ ?_
  · intro q hq j hj g hslot hstd
    obtain ⟨hold, hne⟩ := hsole.others hfd hq hj hslot
    show st.live g = true
    by_cases hgf : g = f
    · subst hgf
      exact absurd rfl (hne hstd)
    · rw [hl g fun _ => hgf]
      exact h.slot q hq j hj g hold hstd
  · intro g p
    show st.live g = true ∧ s.priv g = some p ↔ _
    by_cases hgf : g = f
    · subst hgf
      simp [hpriv]
    · rw [hl g fun _ => hgf]
  · intro g p _ hgp
    refine hr g fun hgf => ?_
    rw [hgf, hpriv] at hgp
    cases hgp

lemma Inv.fdFree (h : Inv s) {fd closeRet : Int} (hpid : pid ∈ s.pids)
    (hlo : 0 ≤ fd) (hhi : fd < nrOpen) (hsole : Sole s pid fd.toNat f)
    (hs : fdFree pid fd closeRet s = some s') : Inv s' := by
  simp only [Pipes.fdFree, bind_eq_bind, bind_eq_some_iff, some.injEq] at hs
  obtain ⟨st, hfree, rfl⟩ := hs
  have hfile : (if 0 ≤ fd ∧ fd < nrOpen then (s.table pid).fd fd.toNat else none) = some f := by
    rw [if_pos ⟨hlo, hhi⟩, hsole.slot]
  rw [hfile, bind_some] at hfree
  have hret : ∀ p, s.priv f = some p → (if (s.priv f).isSome = true then 0 else closeRet) = 0 := by
    intro p hp
    rw [hp]
    rfl
  generalize (if (s.priv f).isSome = true then 0 else closeRet) = ret at hfree hret
  rcases fdFree_cases hfree with ⟨hempty, _⟩ | ⟨next, avail, g, _, _, hslot, _, rfl⟩
  · exact absurd hsole.slot (hempty f hlo hhi)
  have hgf : f = g := some.inj (hsole.slot.symm.trans hslot)
  subst hgf
  have hdrop : ∀ evs : List File.Event, (s.log ++ evs).drop s.log.length = evs := fun evs =>
    drop_left
  have hlog : performCloses (drop s.log.length s.log) = id := by
    rw [drop_length]
    rfl
  cases hstd : isStdstream f with
  | true =>
    -- a static stream is never freed
    rw [filePut_stdstream hstd]
    simp only [Sys.view, hlog, id_eq]
    exact h.closeOther hsole (h.std f hstd) rfl (fun _ _ => rfl) fun _ _ => rfl
  | false =>
    have hlive := h.slot pid hpid fd.toNat (by omega) f hsole.slot hstd
    by_cases href : s.ref f = 1
    · cases hpriv : s.priv f with
      | none =>
        rcases Int.lt_or_le ret 0 with hfail | hok
        · rw [filePut_closeFails hstd href hfail]
          simp only [Sys.view, hdrop]
          show Inv (closeOp f (s.put pid _))
          rw [closeOp_none (by exact hpriv)]
          exact h.closeOther hsole hpriv rfl (fun _ _ => rfl) fun g hg => update_of_ne hg ..
        · rw [filePut_last hstd href hok]
          simp only [Sys.view, hdrop, performCloses_closing]
          rw [closeOp_none (by exact hpriv)]
          exact h.closeOther hsole hpriv rfl (fun g hg => update_of_ne (hg hstd) ..)
            fun g hg => update_of_ne hg ..
      | some p =>
        rw [filePut_last hstd href (Int.le_of_eq (hret p hpriv).symm)]
        simp only [Sys.view, hdrop, performCloses_closing]
        exact h.closePipe hsole hlive hpriv rfl rfl fun g hg => update_of_ne hg ..
    · -- the file has other references, so it belongs to no pipe
      have hpriv : s.priv f = none := by
        cases hpriv : s.priv f with
        | none => rfl
        | some p => exact absurd (h.ref f p hlive hpriv) href
      rw [filePut_shared hstd href]
      simp only [Sys.view, hlog, id_eq]
      exact h.closeOther hsole hpriv rfl (fun _ _ => rfl) fun g hg => update_of_ne hg ..

/-! ## Copying a table -/

/-- `g` is the copy of one of the first `n` files of the table. -/
def IsCopy (fdt : Nat → Option FilePtr) (addr : Nat → Nat) (n : Nat) (g : FilePtr) : Prop :=
  ∃ i < n, (fdt i).isSome = true ∧ g = .heap (addr i)

/-- The state after `n` turns of the loop of `fdt_dup`, when no file of the table belongs to a
pipe. -/
structure Copied (fdt : Nat → Option FilePtr) (addr : Nat → Nat) (s : Sys) (n : Nat)
    (x : (Nat → Option FilePtr) × Sys) : Prop where
  fd : ∀ i g, x.1 i = some g → IsCopy fdt addr n g
  pids : x.2.pids = s.pids
  table : x.2.table = s.table
  pipe : x.2.pipe = s.pipe
  old : ∀ g, ¬ IsCopy fdt addr n g →
    x.2.live g = s.live g ∧ x.2.ref g = s.ref g ∧ x.2.priv g = s.priv g
  new : ∀ g, IsCopy fdt addr n g → x.2.live g = true ∧ x.2.priv g = none

lemma Copied.step {addr : Nat → Nat} {x : (Nat → Option FilePtr) × Sys}
    (h : Copied fdt addr s n x) (hpriv : ∀ f, fdt n = some f → s.priv f = none)
    {y : (Nat → Option FilePtr) × Sys} (hy : dupSlot fdt addr x n = some y) :
    Copied fdt addr s (n + 1) y := by
  have hmono : ∀ g, IsCopy fdt addr n g → IsCopy fdt addr (n + 1) g := by
    intro g ⟨i, hi, hsome, hg⟩
    exact ⟨i, Nat.lt_succ_of_lt hi, hsome, hg⟩
  cases hfd : fdt n with
  | none =>
    -- an empty slot is skipped
    have hback : ∀ g, IsCopy fdt addr (n + 1) g → IsCopy fdt addr n g := by
      intro g ⟨i, hi, hsome, hg⟩
      rcases Nat.lt_succ_iff_lt_or_eq.mp hi with hi | rfl
      · exact ⟨i, hi, hsome, hg⟩
      · rw [hfd] at hsome
        cases hsome
    simp only [dupSlot, hfd] at hy
    cases hy
    exact ⟨fun i g hg => hmono g (h.fd i g hg), h.pids, h.table, h.pipe,
      fun g hg => h.old g fun hc => hg (hmono g hc), fun g hg => h.new g (hback g hg)⟩
  | some f =>
    have hnew : IsCopy fdt addr (n + 1) (.heap (addr n)) :=
      ⟨n, Nat.lt_succ_self n, by rw [hfd]; rfl, rfl⟩
    have hf : x.2.priv f = none := by
      by_cases hc : IsCopy fdt addr n f
      · exact (h.new f hc).2
      · rw [(h.old f hc).2.2]
        exact hpriv f hfd
    simp only [dupSlot, hfd] at hy
    split_ifs at hy
    cases hy
    refine ⟨?_, h.pids, h.table, h.pipe, ?_, ?_⟩
    · intro i g hg
      simp only [update_apply] at hg
      split_ifs at hg
      · cases hg
        exact hnew
      · exact hmono g (h.fd i g hg)
    · intro g hg
      have hne : g ≠ .heap (addr n) := fun he => hg (he ▸ hnew)
      simp only [dupFile, update_of_ne hne]
      exact h.old g fun hc => hg (hmono g hc)
    · intro g ⟨i, hi, hsome, hg⟩
      simp only [dupFile, update_apply]
      split_ifs with hgn
      · exact ⟨rfl, hf⟩
      · refine h.new g ⟨i, ?_, hsome, hg⟩
        rcases Nat.lt_succ_iff_lt_or_eq.mp hi with hi | rfl
        · exact hi
        · exact absurd hg hgn

lemma copied_foldlM (addr : Nat → Nat) (n : Nat)
    (hpriv : ∀ i < n, ∀ f, fdt i = some f → s.priv f = none) {x : (Nat → Option FilePtr) × Sys}
    (hx : (range n).foldlM (dupSlot fdt addr) (fun _ => none, s) = some x) :
    Copied fdt addr s n x := by
  induction n generalizing x with
  | zero =>
    cases hx
    have hno : ∀ g, ¬ IsCopy fdt addr 0 g := fun g ⟨i, hi, _⟩ => Nat.not_lt_zero i hi
    refine ⟨fun i g hg => ?_, rfl, rfl, rfl, fun g _ => ⟨rfl, rfl, rfl⟩, fun g hg => absurd hg (hno g)⟩
    cases hg
  | succ n ih =>
    rw [range_succ, foldlM_append] at hx
    obtain ⟨y, hy, hx⟩ := bind_eq_some_iff.mp hx
    obtain ⟨z, hz, hx⟩ := bind_eq_some_iff.mp hx
    cases hx
    exact (ih (fun i hi => hpriv i (Nat.lt_succ_of_lt hi)) hy).step (hpriv n (Nat.lt_succ_self n)) hz

lemma Inv.fork (h : Inv s) {child : Nat} {addr : Nat → Nat}
    (hfresh : ∀ i < nrOpen, ((s.table pid).fd i).isSome = true → s.live (.heap (addr i)) = false)
    (hpriv : ∀ i < nrOpen, ∀ f, (s.table pid).fd i = some f → s.priv f = none)
    (hs : fdtDup pid child addr s = some s') : Inv s' := by
  simp only [fdtDup] at hs
  split_ifs at hs
  obtain ⟨x, hx, hs⟩ := bind_eq_some_iff.mp hs
  have hcopy := copied_foldlM addr nrOpen hpriv hx
  cases hs
  have hdead : ∀ g, IsCopy (s.table pid).fd addr nrOpen g → s.live g = false ∧ isStdstream g = false := by
    intro g ⟨i, hi, hsome, hg⟩
    subst hg
    exact ⟨hfresh i hi hsome, rfl⟩
  have hlive : ∀ g, s.live g = true → x.2.live g = true := by
    intro g hg
    by_cases hc : IsCopy (s.table pid).fd addr nrOpen g
    · exact (hcopy.new g hc).1
    · rw [(hcopy.old g hc).1]
      exact hg
  refine h.of_files ?_ (fun p => .inl (congrFun hcopy.pipe p)) ?_ ?_ ?_
  · intro q hq i hi f hslot hstd
    have hslot' : (update x.2.table child
        ⟨x.1, (s.table pid).nextFd, (s.table pid).nrAvailFd, false⟩ q).fd i = some f := hslot
    rw [update_apply] at hslot'
    split_ifs at hslot' with hqc
    · exact (hcopy.new f (hcopy.fd i f hslot')).1
    · rw [hcopy.table] at hslot'
      have hq' : q ∈ s.pids := by
        rcases mem_cons.mp hq with he | hq
        · exact absurd he hqc
        · exact hcopy.pids ▸ hq
      exact hlive f (h.slot q hq' i hi f hslot' hstd)
  · intro f hstd
    by_cases hc : IsCopy (s.table pid).fd addr nrOpen f
    · exact (hcopy.new f hc).2
    · rw [(hcopy.old f hc).2.2]
      exact h.std f hstd
  · intro f p
    by_cases hc : IsCopy (s.table pid).fd addr nrOpen f
    · rw [(hcopy.new f hc).2, (hdead f hc).1]
      simp
    · rw [(hcopy.old f hc).1, (hcopy.old f hc).2.2]
  · intro f p hf _
    refine (hcopy.old f fun hc => ?_).2.1
    rw [(hdead f hc).1] at hf
    cases hf

/-! ## Creating a pipe -/

/-- The two files of a new pipe have got descriptors. -/
lemma Inv.newPipe (h : Inv s) (hrw : r ≠ w) (hr : s.live (.heap r) = false)
    (hw : s.live (.heap w) = false) (hp : (s.pipe p).live = false) (hpids : s'.pids = s.pids)
    (hslot : ∀ q ∈ s.pids, ∀ i f, (s'.table q).fd i = some f →
      f = .heap r ∨ f = .heap w ∨ (s.table q).fd i = some f)
    (hlive : s'.live = (pipeInit (.heap r) (.heap w) p s).live)
    (hpriv : s'.priv = (pipeInit (.heap r) (.heap w) p s).priv)
    (hpipe : s'.pipe = (pipeInit (.heap r) (.heap w) p s).pipe) (hrefr : s'.ref (.heap r) = 1)
    (hrefw : s'.ref (.heap w) = 1) (href : ∀ g, g ≠ .heap r → g ≠ .heap w → s'.ref g = s.ref g) :
    Inv s' := by
  have hne : FilePtr.heap r ≠ .heap w := fun he => hrw (FilePtr.heap.inj he)
  have hl : ∀ g, s'.live g = if g = .heap r ∨ g = .heap w then true else s.live g := by
    intro g
    rw [hlive]
    simp only [pipeInit, update_apply]
    split_ifs <;> simp_all
  have hv : ∀ g, s'.priv g = if g = .heap r ∨ g = .heap w then some p else s.priv g := by
    intro g
    rw [hpriv]
    simp only [pipeInit, update_apply]
    split_ifs <;> simp_all
  have hq : ∀ q, s'.pipe q = if q = p then ⟨2, true, true⟩ else s.pipe q := by
    intro q
    rw [hpipe]
    exact update_apply ..
  refine ⟨?_, ?_, ?_, ?_, ?_⟩
  · intro q hqm i hi f hf hstd
    rw [hpids] at hqm
    rw [hl]
    split_ifs with hnew
    · rfl
    · rcases hslot q hqm i f hf with he | he | hold
      · exact absurd (.inl he) hnew
      · exact absurd (.inr he) hnew
      · exact h.slot q hqm i hi f hold hstd
  · intro f hstd
    rw [hv, if_neg]
    · exact h.std f hstd
    · rintro (rfl | rfl)
      · cases hstd
      · cases hstd
  · intro f q hf hfq
    rw [hl] at hf
    rw [hv] at hfq
    split_ifs at hf hfq with hnew
    · rcases hnew with rfl | rfl
      · exact hrefr
      · exact hrefw
    · rw [href f (fun he => hnew (.inl he)) fun he => hnew (.inr he)]
      exact h.ref f q hf hfq
  · intro q
    rw [hq]
    split_ifs with hqp
    · subst hqp
      refine ⟨[.heap r, .heap w], ⟨by simp [hne], fun f => ?_⟩, fun _ => ⟨rfl, cons_ne_nil _ _⟩,
        fun hf => by cases hf⟩
      rw [hl, hv]
      split_ifs with hnew
      · simpa using hnew
      · -- the pipe is new, so no file belongs to it yet
        obtain ⟨l, hl', _, hdead⟩ := h.pipe q
        have hnone : ¬ (s.live f = true ∧ s.priv f = some q) := by
          rw [← hl'.2 f, hdead hp]
          exact not_mem_nil
        simpa [hnone] using hnew
    · obtain ⟨l, ⟨hnodup, hl'⟩, hcount, hdead⟩ := h.pipe q
      refine ⟨l, ⟨hnodup, fun f => (hl' f).trans ?_⟩, hcount, hdead⟩
      rw [hl, hv]
      split_ifs with hnew
      · rcases hnew with rfl | rfl
        · simp [hr, Ne.symm hqp]
        · simp [hw, Ne.symm hqp]
      · rfl
  · intro q
    rw [hq]
    split_ifs
    · rfl
    · exact h.kfifo q

/-- The error path of `pipe2` leaves the new files and the pipe freed. -/
lemma Inv.outPipe (h : Inv s)
    (hr : s.live (.heap r) = false) (hw : s.live (.heap w) = false) (hp : (s.pipe p).live = false)
    (hfd : st.fd = (s.table pid).fd) (href : st.ref = (pipeInit (.heap r) (.heap w) p s).ref)
    (hl : st.live = (pipeInit (.heap r) (.heap w) p s).live) :
    Inv (outPipe (.heap r) (.heap w) p ((pipeInit (.heap r) (.heap w) p s).put pid st)) := by
  have hlive : ∀ g, (Pipes.outPipe (.heap r) (.heap w) p
      ((pipeInit (.heap r) (.heap w) p s).put pid st)).live g = s.live g := by
    intro g
    simp only [Pipes.outPipe, kfreeFile, pipeFree, Sys.put, hl, pipeInit, update_apply]
    split_ifs with hgr hgw
    · rw [hgr, hr]
    · rw [hgw, hw]
    · rfl
  have hpriv : ∀ g, g ≠ .heap r → g ≠ .heap w → (pipeInit (.heap r) (.heap w) p s).priv g = s.priv g := by
    intro g hgr hgw
    simp only [pipeInit, update_of_ne hgr, update_of_ne hgw]
  have hold : ∀ f, s.live f = true → f ≠ .heap r ∧ f ≠ .heap w := by
    rintro f hf
    constructor <;> rintro rfl <;> simp_all
  refine h.of_files ?_ ?_ ?_ ?_ ?_
  · intro q hq i hi f hslot hstd
    rw [hlive]
    refine h.slot q hq i hi f ?_ hstd
    have hslot' : (((pipeInit (.heap r) (.heap w) p s).put pid st).table q).fd i = some f := hslot
    rw [put_table, hfd] at hslot'
    split_ifs at hslot' with hqp
    · rw [hqp]
      exact hslot'
    · exact hslot'
  · intro q
    by_cases hqp : q = p
    · subst hqp
      refine .inr ⟨hp, ?_, ?_⟩
      all_goals
        simp only [Pipes.outPipe, kfreeFile, pipeFree, Sys.put, pipeInit, update_self]
        rfl
    · refine .inl ?_
      simp only [Pipes.outPipe, kfreeFile, pipeFree, Sys.put, pipeInit, update_of_ne hqp]
  · intro f hstd
    refine (hpriv f ?_ ?_).trans (h.std f hstd)
    · rintro rfl
      cases hstd
    · rintro rfl
      cases hstd
  · intro f q
    rw [hlive]
    by_cases hf : s.live f = true
    · show s.live f = true ∧ (pipeInit (.heap r) (.heap w) p s).priv f = some q ↔ _
      rw [hpriv f (hold f hf).1 (hold f hf).2]
    · simp [hf]
  · intro f q hf _
    simp only [Pipes.outPipe, kfreeFile, pipeFree, Sys.put, href, pipeInit,
      update_of_ne (hold f hf).1, update_of_ne (hold f hf).2]

lemma Inv.pipe2 (h : Inv s) {pipefd0 : Option Int} (hrw : r ≠ w)
    (hr : s.live (.heap r) = false) (hw : s.live (.heap w) = false) (hp : (s.pipe p).live = false)
    (hroom : nrOpen ≤ (s.table pid).nextFd ∨ (s.table pid).nrAvailFd ≠ 0 ∧
      ∃ i < nrOpen, i ≠ (s.table pid).nextFd ∧ (s.table pid).fd i = none)
    (hs : sysPipe2 pid r w p pipefd0 s = some s') : Inv s' := by
  simp only [sysPipe2, bind_eq_bind, bind_eq_some_iff, Prod.exists] at hs
  obtain ⟨fd0, st1, halloc, hs⟩ := hs
  rcases fdAlloc_result halloc with ⟨_, rfl, rfl⟩ | ⟨avail, hlt, rfl, hfree, rfl⟩
  · cases hs
    exact h.outPipe hr hw hp rfl rfl rfl
  · have hpos : ¬ (((pipeInit (.heap r) (.heap w) p s).view pid).nextFd : Int) < 0 := by omega
    rw [if_neg hpos] at hs
    simp only [bind_eq_some_iff, Prod.exists] at hs
    obtain ⟨fd1, st2, halloc', hs⟩ := hs
    have hne : FilePtr.heap r ≠ .heap w := fun he => hrw (FilePtr.heap.inj he)
    rcases fdAlloc_result halloc' with ⟨hfull, _, _⟩ | ⟨avail', _, rfl, _, rfl⟩
    · -- there is another free descriptor
      obtain ⟨havail, i, hi, hin, hnone⟩ := hroom.resolve_left (not_le.mpr hlt)
      refine absurd hfull (not_le.mpr ?_)
      simp only [Sys.view, Sys.put, update_self]
      refine findAvailFd_lt havail hi ?_
      exact (update_of_ne hin ..).trans hnone
    · cases hs
      refine h.newPipe hrw hr hw hp rfl ?_ rfl rfl rfl ?_ ?_ ?_
      · intro q _ i f hslot
        rw [put_table] at hslot
        split_ifs at hslot with hqp
        · subst hqp
          simp only [Sys.view, Sys.put, update_self, update_apply] at hslot
          split_ifs at hslot
          · exact .inr (.inl (some.inj hslot).symm)
          · exact .inl (some.inj hslot).symm
          · exact .inr (.inr hslot)
        · rw [put_table, if_neg hqp] at hslot
          exact .inr (.inr hslot)
      · simp only [Sys.view, Sys.put, pipeInit, update_of_ne hne, update_self]
        rfl
      · simp only [Sys.view, Sys.put, pipeInit, update_of_ne hne.symm, update_self]
        rfl
      · intro g hgr hgw
        simp only [Sys.view, Sys.put, pipeInit, update_of_ne hgr, update_of_ne hgw]

/-! ## Runs -/

/-- One system call. -/
lemma Inv.step (h : Inv s) {e : Event} (hcare : careful s e = true) (hs : step s e = some s') :
    Inv s' := by
  unfold Pipes.step at hs
  split_ifs at hs with hok
  obtain ⟨hpid, hrange, hfresh⟩ := hok
  cases e with
  | pipe2 pid r w p pipefd0 =>
    simp only [fresh, Bool.and_eq_true, bne_iff_ne, Bool.not_eq_true'] at hfresh
    obtain ⟨⟨⟨hrw, hr⟩, hw⟩, hp⟩ := hfresh
    refine h.pipe2 hrw hr hw hp ?_ hs
    simp only [careful, Bool.or_eq_true, decide_eq_true_eq, Bool.and_eq_true, bne_iff_ne,
      List.any_eq_true, List.mem_range, isNone_iff_eq_none] at hcare
    exact hcare
  | dup pid oldFd newFd =>
    simp only [inRange, Bool.and_eq_true, decide_eq_true_eq] at hrange
    exact h.dup hpid hrange.1 hs
  | fork pid child addr =>
    simp only [fresh, Bool.and_eq_true, List.all_eq_true, List.mem_range, Bool.or_eq_true,
      Bool.not_eq_true'] at hfresh
    simp only [careful, List.all_eq_true, List.mem_range] at hcare
    refine h.fork ?_ ?_ hs
    · intro i hi hsome
      rcases hfresh.2 i hi with hnone | hdead
      · rw [isNone_iff_eq_none] at hnone
        rw [hnone] at hsome
        cases hsome
      · exact hdead.1
    · intro i hi f hf
      have hnone := hcare i hi
      rw [hf] at hnone
      exact isNone_iff_eq_none.mp hnone
  | close pid fd closeRet =>
    unfold sysClose at hs
    simp only at hs
    split_ifs at hs with hout hlock hempty
    · cases hs
      exact h
    · cases hs
      exact h
    · obtain ⟨f, hf⟩ := ne_none_iff_exists'.mp hempty
      refine h.fdFree hpid (by omega) (by omega) ⟨hf, fun hstd q hq j hj hslot => ?_⟩ hs
      simp only [careful, hf, all_some, hstd, Bool.false_or, List.all_eq_true, List.mem_range,
        Bool.or_eq_true, Bool.and_eq_true, beq_iff_eq, bne_iff_ne] at hcare
      exact (hcare q hq j hj).resolve_right fun hne => hne hslot

/-- A system in which no pipe has been created. -/
structure Start (s : Sys) : Prop where
  slot : ∀ pid ∈ s.pids, ∀ i < nrOpen, ∀ f, (s.table pid).fd i = some f → isStdstream f = false →
    s.live f = true
  priv : ∀ f, s.priv f = none
  pipe : ∀ p, (s.pipe p).live = false ∧ (s.pipe p).kfifo = false

lemma Start.inv (h : Start s) : Inv s := by
  refine ⟨h.slot, fun f _ => h.priv f, ?_, ?_, ?_⟩
  · intro f p _ hp
    rw [h.priv f] at hp
    cases hp
  · intro p
    refine ⟨[], ⟨nodup_nil, fun f => ?_⟩, fun hn => ?_, fun _ => rfl⟩
    · simp [h.priv f]
    · rw [(h.pipe p).1] at hn
      cases hn
  · intro p
    rw [(h.pipe p).1, (h.pipe p).2]

/-- Careful runs keep the counts of all pipes right. -/
theorem pipe_refs_exact (hstart : Start s) {ts : List (Transition Sys Event)}
    (hr : Run (fun s e s' => step s e = some s') s ts s')
    (hcare : ∀ t ∈ ts, careful t.source t.label = true) : Exact s' := by
  have hstep : ∀ s e s', Inv s → careful s e = true → step s e = some s' → Inv s' := by
    intro s e s' h hc hs
    exact h.step hc hs
  exact (hr.invariant_of_forall hstart.inv hcare hstep).exact

end

/-! ## The table after `pipe2` -/

section

variable (pid : Nat) (s : Sys) (st : Files)

lemma put_view : (s.put pid st).view pid = st := by
  simp [Sys.view, Sys.put]

lemma performCloses_table (evs : List File.Event) : (performCloses evs s).table = s.table := by
  induction evs generalizing s with
  | nil => rfl
  | cons ev evs ih =>
    rw [performCloses, foldl_cons, ← performCloses, ih]
    cases ev with
    | close f =>
      dsimp only [closeOp]
      split <;> rfl
    | _ => rfl

lemma fdFree_table (fd : Int) : (fdFree pid fd 0 (s.put pid st)).bind (fun s => some (s.table pid)) =
    (File.fdFree fd 0 st).bind fun st => some ((s.put pid st).table pid) := by
  simp only [fdFree, put_view]
  simp [performCloses_table, Sys.put, Option.bind_assoc]

/-- The model of the failing calls leaves the same table. -/
theorem sysPipe2_table (r w p : Nat) (pipefd0 : Option Int) :
    (sysPipe2 pid r w p pipefd0 s).map (fun s => s.table pid) =
      (File.sysPipe2 true true r w pipefd0 (s.view pid)).map fun x => (s.put pid x.2.2).table pid := by
  have hinit : (pipeInit (.heap r) (.heap w) p s).view pid =
    fileInit (.heap w) false (fileInit (.heap r) false (s.view pid)) := rfl
  have hout : ∀ s, (outPipe (.heap r) (.heap w) p s).table = s.table := fun _ => rfl
  simp only [sysPipe2, File.sysPipe2, hinit, bind_eq_bind, Bool.true_eq_false, if_false]
  rcases fdAlloc (some (.heap r)) _ with - | ⟨fd0, st⟩
  · rfl
  simp only [bind_some, put_view]
  split
  · simp [hout, Sys.put]
  rcases fdAlloc (some (.heap w)) st with - | ⟨fd1, st'⟩
  · rfl
  simp only [bind_some]
  split
  · rcases pipefd0 with - | fd
    · rfl
    have hfree := fdFree_table pid ((pipeInit (.heap r) (.heap w) p s).put pid st) st' fd
    simpa [Option.map_bind, Function.comp_def, hout, Sys.put] using hfree
  · simp [Sys.put]

end

/-- One process with the three standard streams. -/
def bootSys : Sys where
  pids := [1]
  table := fun _ => ⟨fdtInit.fd, fdtInit.nextFd, fdtInit.nrAvailFd, false⟩
  ref := fdtInit.ref
  inode := fdtInit.inode
  live := fdtInit.live
  log := []
  priv := fun _ => none
  pipe := fun _ => ⟨0, false, false⟩

lemma bootSys_start : Start bootSys := by
  refine ⟨?_, fun _ => rfl, fun _ => ⟨rfl, rfl⟩⟩
  intro pid _ i _ f hslot hstd
  have hslot' : fdtInit.fd i = some f := hslot
  match i, hslot' with
  | 0, he => cases he; cases hstd
  | 1, he => cases he; cases hstd
  | 2, he => cases he; cases hstd

/-- A sequence of system calls, with the condition on its steps. -/
def follow (evs : List Event) : Option (Bool × Sys) :=
  evs.foldlM (fun x e => (step x.2 e).map fun s => (x.1 && careful x.2 e, s)) (true, bootSys)

/-- A process without open files forks; the child creates a pipe and closes one end of it. -/
theorem pipe_refs_exact_child : ∃ ts s, Run (fun s e s' => step s e = some s') bootSys ts s ∧
    s.pipe 1 = ⟨1, true, true⟩ ∧ Exact s := by
  have hrun : (follow [.close 1 0 0, .close 1 1 0, .close 1 2 0, .fork 1 2 (fun fd => 10 + fd),
      .pipe2 2 20 21 1 none, .close 2 1 0]).map
      (fun x => (x.1, x.2.pipe 1)) = some (true, ⟨1, true, true⟩) := by
    decide +kernel
  obtain ⟨⟨b, s⟩, hf, hview⟩ := map_eq_some_iff.mp hrun
  obtain ⟨hb, hpipe⟩ := Prod.mk.inj hview
  obtain ⟨ts, hr, hcare⟩ := Run.exists_of_foldlM Run.nil nofun hf
  exact ⟨ts, s, hr, hpipe, pipe_refs_exact bootSys_start hr (hcare hb)⟩

/-- A process creates a pipe, gets a second descriptor of the read end by `dup3` and closes the first
one and the write end: the pipe and the file behind the second descriptor are freed. -/
theorem pipe_freed_under_dup : ∃ ts s, Run (fun s e s' => step s e = some s') bootSys ts s ∧
    1 ∈ s.pids ∧ (s.table 1).fd 5 = some (.heap 20) ∧ s.live (.heap 20) = false ∧
    s.pipe 1 = ⟨0, false, false⟩ ∧ ¬ Exact s := by
  have hrun : (follow [.pipe2 1 20 21 1 none, .dup 1 3 (some 5), .close 1 3 0, .close 1 4 0]).map
      (fun x => (decide (1 ∈ x.2.pids), (x.2.table 1).fd 5, x.2.live (.heap 20), x.2.pipe 1)) =
      some (true, some (.heap 20), false, ⟨0, false, false⟩) := by
    decide +kernel
  obtain ⟨⟨b, s⟩, hf, hview⟩ := map_eq_some_iff.mp hrun
  simp only [Prod.mk.injEq, decide_eq_true_eq] at hview
  obtain ⟨hpid, hslot, hdead, hpipe⟩ := hview
  obtain ⟨ts, hr, _⟩ := Run.exists_of_foldlM Run.nil nofun hf
  refine ⟨ts, s, hr, hpid, hslot, hdead, hpipe, fun h => ?_⟩
  have hlive := h.files 1 hpid 5 (by decide) _ hslot rfl
  rw [hdead] at hlive
  cases hlive

end Hana.Pipes
