import Hana.Fs.FileRefs

/-!
# A failing openat

`sys_openat` of `kernel/fs/fs.c` with its cleanup labels, over the descriptor table and the files of
`Hana.Fs.File`. The results of the copy from the user, of the resolution of the path, of the
allocations and of the operations of the file system are arguments; the calls of `kfree` and of the
close operation are in the log of the files.

Once the file system has opened the file, no error path is clean: if the open operation fails after
that, as `ext4_openat` does when the mode of a new file cannot be set, or if there is no slot, nobody
closes the file again; if `getattr` fails, `fd_free` closes and frees it, and the labels free
both objects a second time, unless the close operation has failed.

* `openat_clean_iff`: a failing `openat` leaves no trace exactly when the file system has not opened
  the file.
-/

namespace Hana.File

open Option

/-- What `openat` finds on its way. -/
structure OpenEnv where
  copied : Bool
  /-- `get_absolute_path`, which can follow a null pointer. -/
  resolved : Option Int
  mounted : Bool
  inodeAlloc : Bool
  ifget : Int
  openat : Int
  /-- An open operation that fails has opened the file before. -/
  opened : Bool
  getattr : Int
  close : Int

def kfreeInode (f : FilePtr) (st : Files) : Files := { st with log := st.log ++ [.kfreeInode f] }

def kfreeFile (f : FilePtr) (st : Files) : Files :=
  { st with live := Function.update st.live f false, log := st.log ++ [.kfree f] }

/-- The labels `out_inode` and `out_file`. -/
def outInode (f : FilePtr) (st : Files) : Files := kfreeFile f (kfreeInode f st)

/-- `sys_openat`; `file` is the address that `kcalloc` gives for the file, or `none` for `NULL`. -/
def sysOpenat (E : OpenEnv) (file : Option Nat) (st : Files) : Option (Int × Files) :=
  if E.copied = false then some (-1, st)
  else do
    let ret ← E.resolved
    if ret < 0 ∨ E.mounted = false then some (-1, st)
    else match file with
      | none => some (-1, st)
      | some addr =>
        let f := FilePtr.heap addr
        if E.inodeAlloc = false then some (-1, kfreeFile f st)
        else
          let st := fileInit f true st
          if E.ifget < 0 ∨ E.openat ≠ 0 then some (-1, outInode f st)
          else
            let (fd, st) ← fdAlloc (some f) st
            if fd < 0 then some (-1, outInode f st)
            else if E.getattr ≠ 0 then
              let st ← fdFree fd E.close st
              some (-1, outInode f st)
            else some (fd, st)

/-- The call gets so far that the file system opens the file. -/
def OpenEnv.Opens (E : OpenEnv) (file : Option Nat) : Prop :=
  E.copied = true ∧ (∃ ret, E.resolved = some ret ∧ 0 ≤ ret) ∧ E.mounted = true ∧ file.isSome = true ∧
    E.inodeAlloc = true ∧ 0 ≤ E.ifget ∧ (E.openat = 0 ∨ E.opened = true)

/-- The call has left no trace: the table holds the same files, the file and the inode that it has
allocated have been freed once, and what it has opened it has closed. -/
structure Clean (E : OpenEnv) (file : Option Nat) (st st' : Files) (log : List Event) : Prop where
  table : st'.fd = st.fd
  freed : ∀ addr, file = some addr → E.copied = true → (∃ ret, E.resolved = some ret ∧ 0 ≤ ret) →
    E.mounted = true → log.count (.kfree (.heap addr)) = 1 ∧
      log.count (.kfreeInode (.heap addr)) = if E.inodeAlloc then 1 else 0
  closed : ∀ addr, file = some addr → E.Opens file → 0 ≤ E.close ∧ log.count (.close (.heap addr)) = 1

section

variable {E : OpenEnv} {file : Option Nat} {st st' : Files}

/-- The events of a failed call that has opened nothing. -/
lemma sysOpenat_early (hno : ¬ E.Opens file) (h : sysOpenat E file st = some (-1, st')) :
    ∃ log, st'.log = st.log ++ log ∧ Clean E file st st' log := by
  unfold sysOpenat at h
  by_cases hcopied : E.copied = false
  · rw [if_pos hcopied] at h
    cases h
    exact ⟨[], (List.append_nil _).symm, rfl, fun _ _ hc => absurd hcopied (by simp [hc]),
      fun _ _ ho => absurd ho hno⟩
  rw [if_neg hcopied] at h
  obtain ⟨ret, hres, h⟩ := bind_eq_some_iff.mp h
  by_cases hearly : ret < 0 ∨ E.mounted = false
  · rw [if_pos hearly] at h
    cases h
    refine ⟨[], (List.append_nil _).symm, rfl, fun _ _ _ hr hm => ?_, fun _ _ ho => absurd ho hno⟩
    obtain ⟨ret', hres', hpos⟩ := hr
    cases hres.symm.trans hres'
    rcases hearly with hneg | hmount
    · omega
    · exact absurd hmount (by simp [hm])
  rw [if_neg hearly] at h
  cases file with
  | none =>
    cases h
    exact ⟨[], (List.append_nil _).symm, rfl, nofun, nofun⟩
  | some addr =>
    dsimp only at h
    by_cases hinode : E.inodeAlloc = false
    · rw [if_pos hinode] at h
      cases h
      refine ⟨[.kfree (.heap addr)], rfl, rfl, ?_, fun _ _ ho => absurd ho hno⟩
      rintro _ ⟨⟩ - - -
      simp [hinode]
    rw [if_neg hinode] at h
    by_cases hopen : E.ifget < 0 ∨ E.openat ≠ 0
    · rw [if_pos hopen] at h
      cases h
      refine ⟨[.kfreeInode (.heap addr), .kfree (.heap addr)], List.append_assoc _ _ _, rfl, ?_,
        fun _ _ ho => absurd ho hno⟩
      rintro _ ⟨⟩ - - -
      simp [hinode]
    · exfalso
      refine hno ⟨by simpa using hcopied, ⟨ret, hres, by omega⟩, by simpa using fun h => hearly (.inr h),
        rfl, by simpa using hinode, by omega, .inl (by omega)⟩

/-- A failing call that has opened the file frees it without closing it, or frees it twice. -/
lemma sysOpenat_late {addr : Nat} (hopens : E.Opens (some addr)) (hclose : 0 ≤ E.close)
    (h : sysOpenat E (some addr) st = some (-1, st')) :
    ∃ log, st'.log = st.log ++ log ∧
      (log.count (.close (.heap addr)) = 0 ∨ log.count (.kfree (.heap addr)) = 2) := by
  obtain ⟨hcopied, ⟨ret, hres, hpos⟩, hmount, -, hinode, -, -⟩ := hopens
  have hearly : ¬ (ret < 0 ∨ E.mounted = false) := by simp [hmount, hpos]
  unfold sysOpenat at h
  rw [if_neg (by simp [hcopied]), hres] at h
  simp only [bind_eq_bind, bind_some, if_neg hearly, hinode, Bool.true_eq_false, if_false] at h
  by_cases hfails : E.ifget < 0 ∨ E.openat ≠ 0
  · rw [if_pos hfails] at h
    cases h
    exact ⟨[.kfreeInode (.heap addr), .kfree (.heap addr)], List.append_assoc _ _ _, .inl rfl⟩
  rw [if_neg hfails] at h
  obtain ⟨⟨fd, st1⟩, halloc, h⟩ := bind_eq_some_iff.mp h
  rcases fdAlloc_result halloc with ⟨-, rfl, rfl⟩ | ⟨avail, hlt, rfl, -, hst1⟩
  · -- no slot: nobody closes the file
    cases h
    exact ⟨[.kfreeInode (.heap addr), .kfree (.heap addr)], List.append_assoc _ _ _, .inl rfl⟩
  by_cases hattr : E.getattr ≠ 0
  · rw [if_pos hattr] at h
    obtain ⟨st2, hfree, h⟩ := bind_eq_some_iff.mp h
    cases h
    have hslot : st1.fd st.nextFd = some (.heap addr) := by
      rw [hst1]
      exact Function.update_self _ _ _
    have href : st1.ref (.heap addr) = 1 := by
      rw [hst1]
      simp [fileInit]
    have hlog : st1.log = st.log := by
      rw [hst1]
      rfl
    have hinode1 : st1.inode (.heap addr) = true := by
      rw [hst1]
      simp [fileInit]
    -- `fd_free` has closed and freed it
    rcases fdFree_cases hfree with ⟨hnone, -⟩ | ⟨_, _, f, -, -, hf, -, rfl⟩
    · exact absurd hslot (hnone (.heap addr) (Int.natCast_nonneg _) (Int.ofNat_lt.mpr hlt))
    · cases (show some f = some (.heap addr) from hf.symm.trans hslot)
      rw [filePut_last rfl href hclose]
      refine ⟨[.close (.heap addr), .kfreeInode (.heap addr), .kfree (.heap addr),
        .kfreeInode (.heap addr), .kfree (.heap addr)], ?_, .inr (by simp)⟩
      simp [outInode, kfreeFile, kfreeInode, closing, hinode1, hlog]
  · rw [if_neg hattr] at h
    have hfd := (Prod.mk.inj (some.inj h)).1
    omega

end

/-- A failing `openat` leaves no trace if and only if the file system has not opened the file. -/
theorem openat_clean_iff {E : OpenEnv} {file : Option Nat} {st st' : Files}
    (h : sysOpenat E file st = some (-1, st')) :
    Clean E file st st' (st'.log.drop st.log.length) ↔ ¬ E.Opens file := by
  constructor
  · intro hclean hopens
    obtain ⟨addr, rfl⟩ := isSome_iff_exists.mp hopens.2.2.2.1
    obtain ⟨hclose, hcount⟩ := hclean.closed addr rfl hopens
    have hfreed := (hclean.freed addr rfl hopens.1 hopens.2.1 hopens.2.2.1).1
    obtain ⟨log, hlog, htwice⟩ := sysOpenat_late hopens hclose h
    rw [hlog, List.drop_left] at hcount hfreed
    omega
  · intro hno
    obtain ⟨log, hlog, hclean⟩ := sysOpenat_early hno h
    rw [hlog, List.drop_left]
    exact hclean

/-- Everything succeeds but the operations given. -/
def openEnv (openat getattr : Int) : OpenEnv := ⟨true, some 0, true, true, 0, openat, false, getattr, 0⟩

/-- An `openat` of a file that the file system does not open. -/
theorem openat_clean_refused : ∃ st', sysOpenat (openEnv (-2) 0) (some 4096) fdtInit = some (-1, st') ∧
    Clean (openEnv (-2) 0) (some 4096) fdtInit st' (st'.log.drop fdtInit.log.length) :=
  ⟨_, rfl, (openat_clean_iff rfl).mpr fun h => absurd h.2.2.2.2.2.2 (by decide)⟩

/-- When `getattr` fails, the inode and the file are freed twice. When the table is full, nobody closes
the file. -/
theorem openat_leaves_traces :
    (sysOpenat (openEnv 0 (-1)) (some 4096) fdtInit).map (fun r => (r.1, r.2.log)) =
      some (-1, [.close (.heap 4096), .kfreeInode (.heap 4096), .kfree (.heap 4096),
        .kfreeInode (.heap 4096), .kfree (.heap 4096)]) ∧
    (sysOpenat (openEnv 0 0) (some 4096)
        { fdtInit with fd := fun _ => some .stdin, nextFd := 1024, nrAvailFd := 0 }).map
        (fun r => (r.1, r.2.log)) =
      some (-1, [.kfreeInode (.heap 4096), .kfree (.heap 4096)]) := by
  decide +kernel

end Hana.File
