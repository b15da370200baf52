import Hana.Fs.File
import Hana.Lib.Run
import Hana.Lib.Slots

/-!
# Reference counts of open files

A run of the descriptor table is a sequence of `fd_alloc` on newly opened files, `fd_clone`
and `fd_free`. Such a run keeps `f_ref` equal to the number of slots that name the file,
and closes and frees a file exactly with its last slot, as long as no `fd_clone` copies an
allocated file, since `fd_clone` takes no reference, and no close operation of a last slot
fails, since `file_put` then gives the file up without freeing it. Both conditions are on
the state before the step, and a step that violates one of them breaks the property at once.
-/

namespace Hana.File

open Function Option Lib

/-- The number of slots that name `f`. -/
def slotsOf (f : FilePtr) (st : Files) : Nat := slotCount nrOpen st.fd fun o => o == some f

inductive Op where
  | fdAlloc (addr : Nat) (inode : Bool)
  | fdClone (oldFd : Nat) (newFd : Option Nat)
  | fdFree (fd : Int) (closeRet : Int)
deriving DecidableEq, Repr

/-- The steps of a run. An opened file is a new allocation, and descriptors that are cloned
are in range. -/
def Step (st : Files) (op : Op) (st' : Files) : Prop :=
  match op with
  | .fdAlloc addr inode =>
    st.live (.heap addr) = false ∧
      ∃ r, fdAlloc (some (.heap addr)) (fileInit (.heap addr) inode st) = some (r, st')
  | .fdClone oldFd newFd =>
    oldFd < nrOpen ∧ (∀ n, newFd = some n → n < nrOpen) ∧
      ∃ r, fdClone oldFd newFd st = some (r, st')
  | .fdFree fd closeRet => fdFree fd closeRet st = some st'

/-- Every allocated file that is not a standard stream has as many references as slots. -/
def RefsMatch (st : Files) : Prop :=
  ∀ f, isStdstream f = false → st.live f = true → st.ref f = slotsOf f st

/-- No slot points to a freed file. -/
def NoDangling (st : Files) : Prop :=
  ∀ i < nrOpen, ∀ f, st.fd i = some f → isStdstream f = false → st.live f = true

/-- The slot `fd` is the last one that names the file in it, which is no standard stream. -/
def LastSlot (st : Files) (fd : Int) (f : FilePtr) : Prop :=
  0 ≤ fd ∧ fd < nrOpen ∧ st.fd fd.toNat = some f ∧ isStdstream f = false ∧ slotsOf f st = 1

/-- The calls that closing and freeing a file amounts to. -/
def closing (st : Files) (f : FilePtr) : List Event :=
  .close f :: ((if st.inode f then [.kfreeInode f] else []) ++ [.kfree f])

/-- A step does what it should: counts match, nothing dangles, and `fd_free` closes and frees
a file exactly when it gives up the last slot of it. -/
structure Sound (st : Files) (op : Op) (st' : Files) : Prop where
  refs : RefsMatch st'
  dangling : NoDangling st'
  last : ∀ fd closeRet f, op = .fdFree fd closeRet → LastSlot st fd f →
    st'.log = st.log ++ closing st f ∧ st'.live f = false
  other : ∀ fd closeRet, op = .fdFree fd closeRet → (∀ f, ¬ LastSlot st fd f) →
    st'.log = st.log ∧ st'.live = st.live

/-- The condition on the state before a step. -/
def Careful (st : Files) : Op → Prop
  | .fdAlloc _ _ => True
  | .fdClone oldFd newFd => ∀ f, st.fd oldFd = some f → isStdstream f = false →
      slotUsed st (cloneTarget newFd st) = true
  | .fdFree fd closeRet => ∀ f, LastSlot st fd f → 0 ≤ closeRet

/-- What runs keep. The last part is what makes the assertion in `fd_alloc` hold. -/
structure Inv (st : Files) : Prop where
  refs : RefsMatch st
  dangling : NoDangling st
  next : st.nextFd < nrOpen → st.fd st.nextFd = none

/-! ## What the operations do -/

lemma findAvailFd_eq (st : Files) :
    ∃ n, findAvailFd st = { st with nextFd := n } ∧ (n < nrOpen → st.fd n = none) := by
  unfold findAvailFd
  split_ifs with hzero
  · exact ⟨nrOpen, rfl, fun h => absurd h (lt_irrefl _)⟩
  · refine ⟨_, rfl, ?_⟩
    cases hfind : (List.range nrOpen).find? fun fd => (st.fd fd).isNone with
    | none => exact fun h => absurd h (lt_irrefl _)
    | some n =>
      intro _
      have hn := List.find?_some hfind
      simpa using hn

variable {st st' : Files} {f : FilePtr} {r closeRet : Int} {i : Nat}

lemma acquire_eq_some (h : acquire st = some st') :
    st.locked = false ∧ st' = { st with locked := true } := by
  unfold acquire at h
  split_ifs at h with hl
  cases h
  exact ⟨by simpa using hl, rfl⟩

/-- `fd_alloc` finds the table full, or fills the next free slot and takes a reference. -/
lemma fdAlloc_result (h : fdAlloc (some f) st = some (r, st')) :
    (nrOpen ≤ st.nextFd ∧ r = -1 ∧ st' = { st with locked := true }) ∨
      ∃ avail, st.nextFd < nrOpen ∧ r = st.nextFd ∧ st.fd st.nextFd = none ∧
        st' = { st with
          fd := update st.fd st.nextFd (some f)
          nextFd := (findAvailFd { st with fd := update st.fd st.nextFd (some f) }).nextFd
          nrAvailFd := avail
          locked := false
          ref := update st.ref f (st.ref f + 1) } := by
  obtain ⟨st1, hacq, h⟩ := bind_eq_some_iff.mp h
  obtain ⟨_, rfl⟩ := acquire_eq_some hacq
  simp only at h
  split_ifs at h with hfull hused
  · cases h
    exact .inl ⟨hfull, rfl, rfl⟩
  · refine .inr ?_
    have hnext : (findAvailFd { st with locked := true, fd := update st.fd st.nextFd (some f) }).nextFd =
        (findAvailFd { st with fd := update st.fd st.nextFd (some f) }).nextFd := by
      unfold findAvailFd
      simp only
      split_ifs <;> rfl
    obtain ⟨next, heq, _⟩ := findAvailFd_eq
      { st with locked := true, fd := update st.fd st.nextFd (some f) }
    rw [heq] at h hnext
    cases h
    exact ⟨_, by omega, rfl, by simpa using hused, by rw [← hnext]; rfl⟩

/-- The same, with what is known of the slot after it. -/
lemma fdAlloc_cases (h : fdAlloc (some f) st = some (r, st')) :
    st' = { st with locked := true } ∨
      ∃ next avail, st.nextFd < nrOpen ∧ st.fd st.nextFd = none ∧
        (next < nrOpen → update st.fd st.nextFd (some f) next = none) ∧
        st' = { st with
          fd := update st.fd st.nextFd (some f)
          nextFd := next
          nrAvailFd := avail
          locked := false
          ref := update st.ref f (st.ref f + 1) } := by
  rcases fdAlloc_result h with ⟨_, _, hst⟩ | ⟨avail, hlt, _, hfree, hst⟩
  · exact .inl hst
  · obtain ⟨next, heq, hnext⟩ := findAvailFd_eq { st with fd := update st.fd st.nextFd (some f) }
    rw [heq] at hst
    exact .inr ⟨next, avail, hlt, hfree, hnext, hst⟩

/-- A free slot is found when the table counts one. -/
lemma findAvailFd_lt (havail : st.nrAvailFd ≠ 0) (hi : i < nrOpen) (hfree : st.fd i = none) :
    (findAvailFd st).nextFd < nrOpen := by
  unfold findAvailFd
  rw [if_neg havail]
  cases hfind : (List.range nrOpen).find? fun fd => (st.fd fd).isNone with
  | none =>
    have hno := List.find?_eq_none.mp hfind i (List.mem_range.mpr hi)
    rw [hfree] at hno
    exact absurd rfl hno
  | some n => exact List.mem_range.mp (List.mem_of_find?_eq_some hfind)

/-- `fd_clone` copies a slot into a free one, or refuses. -/
lemma fdClone_cases {oldFd : Nat} {newFd : Option Nat}
    (h : fdClone oldFd newFd st = some (r, st')) :
    ((st.fd oldFd = none ∨ slotUsed st (cloneTarget newFd st) = true) ∧
        st' = { st with locked := true }) ∨
      ∃ next f, st.fd oldFd = some f ∧ slotUsed st (cloneTarget newFd st) = false ∧
        (next < nrOpen →
          update st.fd (cloneTarget newFd st) (some f) next = none) ∧
        st' = { st with
          fd := update st.fd (cloneTarget newFd st) (some f)
          nextFd := next
          locked := false } := by
  obtain ⟨st1, hacq, h⟩ := bind_eq_some_iff.mp h
  obtain ⟨_, rfl⟩ := acquire_eq_some hacq
  have htarget : cloneTarget newFd { st with locked := true } = cloneTarget newFd st := rfl
  have hused : slotUsed { st with locked := true } (cloneTarget newFd st) =
      slotUsed st (cloneTarget newFd st) := rfl
  simp only [htarget, hused] at h
  cases hold : st.fd oldFd with
  | none =>
    simp only [hold, isNone_none, Bool.true_or, if_true] at h
    cases h
    exact .inl ⟨.inl rfl, rfl⟩
  | some f =>
    cases hu : slotUsed st (cloneTarget newFd st) with
    | true =>
      simp only [hu, Bool.or_true, if_true] at h
      cases h
      exact .inl ⟨.inr rfl, rfl⟩
    | false =>
      simp only [hold, hu, isNone_some, Bool.or_false, Bool.false_eq_true, if_false] at h
      right
      obtain ⟨next, heq, hnext⟩ := findAvailFd_eq
        { st with locked := true, fd := update st.fd (cloneTarget newFd st) (some f) }
      rw [heq] at h
      cases h
      exact ⟨next, f, rfl, rfl, hnext, rfl⟩

/-- `fd_free` of an empty slot does nothing; of a used one, it drops a reference. -/
lemma fdFree_cases {fd : Int} (h : fdFree fd closeRet st = some st') :
    ((∀ f, 0 ≤ fd → fd < nrOpen → st.fd fd.toNat ≠ some f) ∧
        ∃ l, st' = { st with locked := l }) ∨
      ∃ next avail f, 0 ≤ fd ∧ fd < nrOpen ∧ st.fd fd.toNat = some f ∧
        (next < nrOpen → update st.fd fd.toNat none next = none) ∧
        st' = { (filePut f closeRet st).2 with
          fd := update st.fd fd.toNat none
          nextFd := next
          nrAvailFd := avail
          locked := false } := by
  unfold fdFree at h
  split_ifs at h with hrange
  · cases h
    exact .inl ⟨fun f hlo hhi => by omega, st.locked, rfl⟩
  · obtain ⟨st1, hacq, h⟩ := bind_eq_some_iff.mp h
    obtain ⟨_, rfl⟩ := acquire_eq_some hacq
    cases hslot : st.fd fd.toNat with
    | none =>
      rw [hslot] at h
      cases h
      exact .inl ⟨fun f _ _ => by simp, false, rfl⟩
    | some f =>
      rw [hslot] at h
      right
      obtain ⟨next, heq, hnext⟩ := findAvailFd_eq
        { (filePut f closeRet { st with locked := true }).2 with
          fd := update (filePut f closeRet { st with locked := true }).2.fd fd.toNat none
          nrAvailFd :=
            ((filePut f closeRet { st with locked := true }).2.nrAvailFd + 1) % 2 ^ 32 }
      have hput : (filePut f closeRet { st with locked := true }).2 =
          { (filePut f closeRet st).2 with locked := true } ∧
          (filePut f closeRet st).2.fd = st.fd := by
        simp only [filePut]
        split_ifs <;> exact ⟨rfl, rfl⟩
      simp only at h hnext
      rw [heq, hput.1] at h
      rw [hput.1] at hnext
      simp only [hput.2] at h hnext
      cases h
      exact ⟨next, _, f, by omega, by omega, rfl, hnext, rfl⟩

/-! ## Counting -/

lemma slotsOf_write (st : Files) (hi : i < nrOpen) (v : Option FilePtr) (g : FilePtr) :
    slotCount nrOpen (update st.fd i v) (fun o => o == some g) +
        (if st.fd i = some g then 1 else 0) =
      slotsOf g st + if v = some g then 1 else 0 := by
  have h := slotCount_update st.fd (fun o => o == some g) v hi
  simpa only [beq_iff_eq, slotsOf] using h

lemma slotsOf_eq_zero (h : ∀ i < nrOpen, st.fd i ≠ some f) :
    slotsOf f st = 0 := by
  refine slotCount_eq_zero fun i hi => ?_
  simpa using h i hi

lemma slotsOf_pos (hi : i < nrOpen) (h : st.fd i = some f) : 0 < slotsOf f st :=
  slotCount_pos hi (by simp [h])

/-! ## The three operations against the specification -/

lemma Inv.fileInit (h : Inv st) {addr : Nat} (inode : Bool) (hdead : st.live (.heap addr) = false) :
    Inv (fileInit (.heap addr) inode st) := by
  have hnone : ∀ i < nrOpen, st.fd i ≠ some (.heap addr) := by
    intro i hi hslot
    have hlive := h.dangling i hi _ hslot rfl
    rw [hdead] at hlive
    cases hlive
  refine ⟨?_, ?_, h.next⟩
  · intro f hstd hlive
    simp only [File.fileInit] at hlive ⊢
    by_cases hf : f = .heap addr
    · rw [hf, update_self]
      exact_mod_cast (slotsOf_eq_zero hnone).symm
    · rw [update_of_ne hf] at hlive ⊢
      exact h.refs f hstd hlive
  · intro i hi f hslot hstd
    have hne : f ≠ .heap addr := fun he => hnone i hi (he ▸ hslot)
    simp only [File.fileInit, update_of_ne hne]
    exact h.dangling i hi f hslot hstd

/-- `fd_alloc` adds a slot and a reference of the same file. -/
lemma Inv.fdAlloc (h : Inv st) (hlive : st.live f = true)
    (hf : fdAlloc (some f) st = some (r, st')) : Inv st' := by
  rcases fdAlloc_cases hf with rfl | ⟨next, avail, hlt, hfree, hnext, rfl⟩
  · exact ⟨h.refs, h.dangling, h.next⟩
  · refine ⟨?_, ?_, hnext⟩
    · intro g hstd hg
      have hcount := slotsOf_write st hlt (some f) g
      simp only [hfree, reduceCtorEq, if_false, add_zero, some.injEq] at hcount
      simp only [slotsOf, hcount]
      by_cases hgf : f = g
      · subst hgf
        rw [update_self, h.refs f hstd hg, if_pos rfl]
        rfl
      · rw [update_of_ne (Ne.symm hgf), if_neg hgf, add_zero]
        exact h.refs g hstd hg
    · intro i hi g hslot hstd
      simp only at hslot ⊢
      by_cases hin : i = st.nextFd
      · rw [hin, update_self] at hslot
        cases hslot
        exact hlive
      · rw [update_of_ne hin] at hslot
        exact h.dangling i hi g hslot hstd

/-- `fd_clone` adds a slot without a reference: it is harmless for a standard stream only. -/
lemma fdClone_exact (h : Inv st) {oldFd : Nat} {newFd : Option Nat} (hold : oldFd < nrOpen)
    (hnew : ∀ n, newFd = some n → n < nrOpen) (hc : fdClone oldFd newFd st = some (r, st')) :
    (RefsMatch st' ↔ Careful st (.fdClone oldFd newFd)) ∧
      (Careful st (.fdClone oldFd newFd) → Inv st') := by
  rcases fdClone_cases hc with ⟨href, rfl⟩ | ⟨next, f, hslot, hunused, hnext, rfl⟩
  · have hcareful : Careful st (.fdClone oldFd newFd) := by
      intro f hf _
      rcases href with hnone | hused
      · rw [hnone] at hf
        cases hf
      · exact hused
    exact ⟨⟨fun _ => hcareful, fun _ => h.refs⟩, fun _ => ⟨h.refs, h.dangling, h.next⟩⟩
  · have hlt : cloneTarget newFd st < nrOpen := by
      cases newFd with
      | some n => exact hnew n rfl
      | none =>
        -- behind the table the pointer that is read is `next_fd`, which is not zero there
        by_contra hge
        have hge : ¬ st.nextFd < nrOpen := hge
        have hunused : slotUsed st st.nextFd = false := hunused
        unfold slotUsed at hunused
        rw [if_neg hge, Bool.or_eq_false_iff, bne_eq_false_iff_eq] at hunused
        omega
    have hfree : st.fd (cloneTarget newFd st) = none := by
      unfold slotUsed at hunused
      rw [if_pos hlt] at hunused
      simpa using hunused
    have hcount : ∀ g, slotCount nrOpen (update st.fd (cloneTarget newFd st) (some f))
        (fun o => o == some g) = slotsOf g st + if f = g then 1 else 0 := by
      intro g
      have hw := slotsOf_write st hlt (some f) g
      simpa only [hfree, reduceCtorEq, if_false, add_zero, some.injEq] using hw
    cases hstd : isStdstream f with
    | false =>
      have hnot : ¬ Careful st (.fdClone oldFd newFd) := by
        intro hcareful
        have hused := hcareful f hslot hstd
        rw [hunused] at hused
        cases hused
      refine ⟨⟨fun hrefs => ?_, fun hcareful => absurd hcareful hnot⟩,
        fun hcareful => absurd hcareful hnot⟩
      have hlive := h.dangling oldFd hold f hslot hstd
      have hafter := hrefs f hstd hlive
      have hbefore := h.refs f hstd hlive
      simp only [slotsOf, hcount f, if_true] at hafter
      unfold slotsOf at hbefore
      omega
    | true =>
      have hrefs : ∀ g, isStdstream g = false → st.live g = true → st.ref g =
          (slotCount nrOpen (update st.fd (cloneTarget newFd st) (some f))
            (fun o => o == some g) : Nat) := by
        intro g hg hlive
        have hne : f ≠ g := by
          rintro rfl
          rw [hstd] at hg
          cases hg
        rw [hcount g, if_neg hne, add_zero]
        exact h.refs g hg hlive
      have hcareful : Careful st (.fdClone oldFd newFd) := by
        intro g hg hgstd
        rw [hslot] at hg
        cases hg
        rw [hstd] at hgstd
        cases hgstd
      refine ⟨⟨fun _ => hcareful, fun _ => hrefs⟩, fun _ => ⟨hrefs, ?_, hnext⟩⟩
      intro i hi g hg hgstd
      simp only at hg ⊢
      by_cases hin : i = cloneTarget newFd st
      · rw [hin, update_self] at hg
        cases hg
        rw [hstd] at hgstd
        cases hgstd
      · rw [update_of_ne hin] at hg
        exact h.dangling i hi g hg hgstd

/-! ## `file_put` -/

lemma filePut_stdstream (h : isStdstream f = true) : (filePut f closeRet st).2 = st := by
  unfold filePut
  rw [if_pos h]

lemma filePut_shared (h : isStdstream f = false) (href : st.ref f ≠ 1) :
    (filePut f closeRet st).2 = { st with ref := update st.ref f (st.ref f - 1) } := by
  have hret : ¬ st.ref f - 1 = 0 := by omega
  simp only [filePut, h, hret, Bool.false_eq_true, if_false]

lemma filePut_closeFails (h : isStdstream f = false) (href : st.ref f = 1) (hclose : closeRet < 0) :
    (filePut f closeRet st).2 = { st with
      ref := update st.ref f (st.ref f - 1)
      log := st.log ++ [.close f] } := by
  have hret : st.ref f - 1 = 0 := by omega
  simp only [filePut, h, hret, hclose, Bool.false_eq_true, if_false, if_true]

lemma filePut_last (h : isStdstream f = false) (href : st.ref f = 1) (hclose : 0 ≤ closeRet) :
    (filePut f closeRet st).2 = { st with
      ref := update st.ref f (st.ref f - 1)
      live := update st.live f false
      log := st.log ++ closing st f } := by
  have hret : st.ref f - 1 = 0 := by omega
  have hclose : ¬ closeRet < 0 := by omega
  simp only [filePut, closing, h, hret, hclose, Bool.false_eq_true, if_false, if_true]
  cases st.inode f with
  | false => simp
  | true => simp

/-- The state after the slot of `f` has been cleared and a reference of `f` was dropped. -/
lemma drop_inv (h : Inv st) (hi : i < nrOpen) (hslot : st.fd i = some f)
    (hfd : st'.fd = update st.fd i none)
    (href : ∀ g, isStdstream g = false → st'.ref g = if f = g then st.ref g - 1 else st.ref g)
    (hlive : ∀ g, isStdstream g = false → (st'.live g = true ↔ st.live g = true ∧ ¬ (f = g ∧ slotsOf g st = 1)))
    (hnext : st'.nextFd < nrOpen → st'.fd st'.nextFd = none) : Inv st' := by
  have hcount : ∀ g, slotsOf g st' + (if f = g then 1 else 0) = slotsOf g st := by
    intro g
    have hw := slotsOf_write st hi none g
    rw [hslot] at hw
    simp only [reduceCtorEq, if_false, add_zero, some.injEq] at hw
    unfold slotsOf at hw ⊢
    rw [hfd]
    exact hw
  refine ⟨?_, ?_, hnext⟩
  · intro g hg hgl
    have hbefore := h.refs g hg ((hlive g hg).mp hgl).1
    have hc := hcount g
    rw [href g hg]
    split_ifs at hc ⊢ <;> omega
  · intro j hj g hg hgstd
    rw [hfd] at hg
    have hji : j ≠ i := by
      rintro rfl
      rw [update_self] at hg
      cases hg
    have hold := hg
    rw [update_of_ne hji] at hold
    refine (hlive g hgstd).mpr ⟨h.dangling j hj g hold hgstd, ?_⟩
    rintro ⟨rfl, hone⟩
    have hc := hcount f
    have hpos : 0 < slotsOf f st' := slotsOf_pos hj (by rw [hfd, hg])
    rw [if_pos rfl] at hc
    omega

/-- A `fd_free` that gives up no last slot. -/
lemma fdFree_other {fd : Int} (hno : ∀ f, ¬ LastSlot st fd f) (hinv : Inv st')
    (hlog : st'.log = st.log) (hlive : st'.live = st.live) :
    (Sound st (.fdFree fd closeRet) st' ↔ Careful st (.fdFree fd closeRet)) ∧
      (Careful st (.fdFree fd closeRet) → Inv st') := by
  refine ⟨⟨fun _ f hl => absurd hl (hno f), fun _ => ⟨hinv.refs, hinv.dangling, ?_, ?_⟩⟩,
    fun _ => hinv⟩
  · intro _ _ f he hl
    cases he
    exact absurd hl (hno f)
  · intro _ _ _ _
    exact ⟨hlog, hlive⟩

/-- `fd_free` meets its specification unless the close operation of a last slot fails. -/
lemma fdFree_exact (h : Inv st) {fd : Int} (hf : fdFree fd closeRet st = some st') :
    (Sound st (.fdFree fd closeRet) st' ↔ Careful st (.fdFree fd closeRet)) ∧
      (Careful st (.fdFree fd closeRet) → Inv st') := by
  rcases fdFree_cases hf with ⟨hempty, l, rfl⟩ | ⟨next, avail, f, hlo, hhi, hslot, hnext, rfl⟩
  · exact fdFree_other (fun f hl => hempty f hl.1 hl.2.1 hl.2.2.1)
      ⟨h.refs, h.dangling, h.next⟩ rfl rfl
  have hi : fd.toNat < nrOpen := by omega
  have hsame : ∀ g, LastSlot st fd g → f = g := by
    intro g hl
    have hfg := hl.2.2.1
    rw [hslot] at hfg
    exact some.inj hfg
  cases hstd : isStdstream f with
  | true =>
    have hne : ∀ g, isStdstream g = false → f ≠ g := by
      rintro g hg rfl
      rw [hstd] at hg
      cases hg
    rw [filePut_stdstream hstd]
    refine fdFree_other (fun g hl => hne g hl.2.2.2.1 (hsame g hl)) ?_ rfl rfl
    refine drop_inv h hi hslot rfl (fun g hg => (if_neg (hne g hg)).symm) ?_ hnext
    intro g hg
    simp [hne g hg]
  | false =>
    have href := h.refs f hstd (h.dangling _ hi f hslot hstd)
    have hrefs : ∀ g, update st.ref f (st.ref f - 1) g =
        if f = g then st.ref g - 1 else st.ref g := by
      intro g
      by_cases hg : f = g
      · rw [← hg, update_self, if_pos rfl]
      · rw [update_of_ne (Ne.symm hg), if_neg hg]
    by_cases hone : slotsOf f st = 1
    · have hlast : LastSlot st fd f := ⟨hlo, hhi, hslot, hstd, hone⟩
      have hone' : st.ref f = 1 := by omega
      by_cases hclose : closeRet < 0
      · -- the file is closed but stays allocated
        have hnot : ¬ Careful st (.fdFree fd closeRet) := by
          intro hcareful
          have := hcareful f hlast
          omega
        refine ⟨⟨fun hsound => ?_, fun hcareful => absurd hcareful hnot⟩,
          fun hcareful => absurd hcareful hnot⟩
        have hlive := (hsound.last fd closeRet f rfl hlast).2
        rw [filePut_closeFails hstd hone' hclose] at hlive
        have hstill : st.live f = true := h.dangling _ hi f hslot hstd
        exact absurd (hstill.symm.trans hlive) (by decide)
      · have hclose : 0 ≤ closeRet := by omega
        rw [filePut_last hstd hone' hclose]
        have hcareful : Careful st (.fdFree fd closeRet) := fun _ _ => hclose
        have hinv : Inv { st with
            fd := update st.fd fd.toNat none
            nextFd := next
            nrAvailFd := avail
            locked := false
            ref := update st.ref f (st.ref f - 1)
            live := update st.live f false
            log := st.log ++ closing st f } := by
          refine drop_inv h hi hslot rfl (fun g _ => hrefs g) (fun g _ => ?_) hnext
          by_cases hg : f = g
          · subst hg
            simp [hone]
          · simp [update_of_ne (Ne.symm hg), hg]
        refine ⟨⟨fun _ => hcareful, fun _ => ⟨hinv.refs, hinv.dangling, ?_, ?_⟩⟩, fun _ => hinv⟩
        · intro _ _ g he hl
          cases he
          rw [← hsame g hl]
          exact ⟨rfl, update_self _ _ _⟩
        · intro _ _ he hno
          cases he
          exact absurd hlast (hno f)
    · have hne : st.ref f ≠ 1 := by omega
      rw [filePut_shared hstd hne]
      refine fdFree_other (fun g hl => ?_) ?_ rfl rfl
      · rw [hsame g hl] at hone
        exact hone hl.2.2.2.2
      · refine drop_inv h hi hslot rfl (fun g _ => hrefs g) (fun g _ => ?_) hnext
        refine ⟨fun hl => ⟨hl, ?_⟩, fun hl => hl.1⟩
        rintro ⟨rfl, hg⟩
        exact hone hg

/-! ## Runs -/

lemma fdtInit_inv : Inv fdtInit := by
  have hslots : ∀ i f, fdtInit.fd i = some f → isStdstream f = true := by
    intro i f hi
    match i, hi with
    | 0, hi => cases hi; rfl
    | 1, hi => cases hi; rfl
    | 2, hi => cases hi; rfl
  refine ⟨?_, ?_, fun _ => rfl⟩
  · intro f hstd hlive
    have hlive : isStdstream f = true := hlive
    rw [hstd] at hlive
    cases hlive
  · intro i _ f hi hstd
    rw [hslots i f hi] at hstd
    cases hstd

/-- One step, from a state that runs can reach. -/
lemma step_exact {op : Op} (h : Inv st) (hs : Step st op st') :
    (Sound st op st' ↔ Careful st op) ∧ (Careful st op → Inv st') := by
  cases op with
  | fdAlloc addr inode =>
    obtain ⟨hdead, r, hf⟩ := hs
    have hinv : Inv st' := (h.fileInit inode hdead).fdAlloc (update_self _ _ _) hf
    refine ⟨⟨fun _ => trivial, fun _ => ⟨hinv.refs, hinv.dangling, ?_, ?_⟩⟩, fun _ => hinv⟩
    · intro _ _ _ he
      cases he
    · intro _ _ he
      cases he
  | fdClone oldFd newFd =>
    obtain ⟨hold, hnew, r, hf⟩ := hs
    obtain ⟨hiff, hinv⟩ := fdClone_exact h hold hnew hf
    refine ⟨⟨fun hsound => hiff.mp hsound.refs, fun hcareful => ?_⟩, hinv⟩
    refine ⟨hiff.mpr hcareful, (hinv hcareful).dangling, ?_, ?_⟩
    · intro _ _ _ he
      cases he
    · intro _ _ he
      cases he
  | fdFree fd closeRet => exact fdFree_exact h hs

/-- A run of the descriptor table keeps the reference counts right, leaves no dangling slot
and closes and frees every file with its last slot, if and only if none of its steps clones
an allocated file into a free slot and no close operation of a last slot fails. -/
theorem file_refs_exact {ts : List (Transition Files Op)} {st : Files}
    (hr : Run Step fdtInit ts st) :
    (∀ t ∈ ts, Sound t.source t.label t.target) ↔ ∀ t ∈ ts, Careful t.source t.label :=
  hr.forall_iff fdtInit_inv (fun _ _ _ h hc hs => (step_exact h hs).2 hc)
    (fun _ _ _ h hs => (step_exact h hs).1)

/-- A file is opened and closed again. -/
theorem file_refs_exact_open_close :
    ∃ ts st, Run Step fdtInit ts st ∧ ts.map Transition.label = [.fdAlloc 0 true, .fdFree 3 0] ∧
      ∀ t ∈ ts, Sound t.source t.label t.target := by
  have hrun : ((fdAlloc (some (.heap 0)) (fileInit (.heap 0) true fdtInit)).bind fun p =>
      fdFree 3 0 p.2).isSome = true := by decide +kernel
  obtain ⟨st2, hst2⟩ := isSome_iff_exists.mp hrun
  obtain ⟨⟨r, st1⟩, hst1, hfree⟩ := bind_eq_some_iff.mp hst2
  have h1 : Step fdtInit (.fdAlloc 0 true) st1 := ⟨rfl, r, hst1⟩
  have hr : Run Step fdtInit [⟨fdtInit, .fdAlloc 0 true, st1⟩, ⟨st1, .fdFree 3 0, st2⟩] st2 :=
    (Run.nil.snoc h1).snoc hfree
  refine ⟨_, _, hr, rfl, (file_refs_exact hr).mpr ?_⟩
  intro t ht
  simp only [List.mem_cons, List.not_mem_nil, or_false] at ht
  rcases ht with rfl | rfl
  · trivial
  · intro _ _
    exact Int.le_refl 0

/-- A file is opened, duplicated and closed through the copy: the first descriptor is left
pointing to the freed file. -/
theorem file_refs_dup_dangling :
    ∃ ts st, Run Step fdtInit ts st ∧
      ts.map Transition.label = [.fdAlloc 0 true, .fdClone 3 none, .fdFree 4 0] ∧
      st.fd 3 = some (.heap 0) ∧ st.live (.heap 0) = false ∧
      ¬ ∀ t ∈ ts, Sound t.source t.label t.target := by
  have hrun : (((fdAlloc (some (.heap 0)) (fileInit (.heap 0) true fdtInit)).bind fun p =>
      fdClone 3 none p.2).bind fun p => fdFree 4 0 p.2).map
        (fun st => (st.fd 3, st.live (.heap 0))) = some (some (.heap 0), false) := by
    decide +kernel
  obtain ⟨st3, hst3, hfinal⟩ := map_eq_some_iff.mp hrun
  obtain ⟨⟨r2, st2⟩, hst2, hfree⟩ := bind_eq_some_iff.mp hst3
  obtain ⟨⟨r1, st1⟩, hst1, hclone⟩ := bind_eq_some_iff.mp hst2
  obtain ⟨hslot, hdead⟩ := Prod.mk.inj hfinal
  have h1 : Step fdtInit (.fdAlloc 0 true) st1 := ⟨rfl, r1, hst1⟩
  have hnone : ∀ n, none = some n → n < nrOpen := by
    intro n hn
    cases hn
  have h2 : Step st1 (.fdClone 3 none) st2 := ⟨by decide, hnone, r2, hclone⟩
  have hr : Run Step fdtInit [⟨fdtInit, .fdAlloc 0 true, st1⟩, ⟨st1, .fdClone 3 none, st2⟩,
      ⟨st2, .fdFree 4 0, st3⟩] st3 :=
    ((Run.nil.snoc h1).snoc h2).snoc hfree
  refine ⟨_, _, hr, rfl, hslot, hdead, fun hsound => ?_⟩
  have hlast := hsound ⟨st2, .fdFree 4 0, st3⟩ (by simp)
  have hlive := hlast.dangling 3 (by decide) _ hslot rfl
  rw [hdead] at hlive
  cases hlive

end Hana.File
