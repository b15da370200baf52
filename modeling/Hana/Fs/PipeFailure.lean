import Hana.Fs.FileRefs

/-!
# A failing pipe2

`sys_pipe2` of `kernel/fs/fs.c` with `pipe_init` and `pipe_free` of `kernel/fs/pipe.c`, as far as its
error paths go, over the descriptor table of `Hana.Fs.File`. What is freed is logged object by object,
and so is the access to the user's array on the last error path.

The table's lock is part of the table. `fd_alloc` returns with the lock held when there is no slot, so
only the failure of `pipe_init` leaves the table as it was. If the second end gets no slot, `fd_free`
with a number of the table waits for that lock for ever, and with any other number it does nothing:
the file of the first end stays in the table and is freed.

* `pipe2_clean_iff`: a failing `pipe2` leaves no trace exactly when `pipe_init` has failed; the lock
  aside, exactly when it has failed or there was no slot for the first end.
-/

namespace Hana.File

inductive PipeEvent where
  | kfreePipe
  | kfreeKfifo
  | kfreeLock
  | kfreeRfile
  | kfreeWfile
  /-- `pipefd[0]` is read through the user's pointer. -/
  | userDeref
deriving DecidableEq, Repr

/-- The two calls of `pipe_free` on a pipe with both of its references. -/
def pipeFreeBoth : List PipeEvent := [.kfreeKfifo, .kfreeLock, .kfreePipe]

/-- The label `out_file`. -/
def outFile : List PipeEvent := [.kfreeWfile, .kfreeRfile]

/-- `sys_pipe2` with the files at `r` and `w`. `fifo` says whether `kfifo_alloc` succeeds; `small`
whether the other allocations do, whose results `kcalloc` clears without a look at them. `pipefd0` is
what the error path finds in the user's array, and `none` a fault. -/
def sysPipe2 (small fifo : Bool) (r w : Nat) (pipefd0 : Option Int) (st : Files) :
    Option (Int × List PipeEvent × Files) :=
  if small = false then none
  else if fifo = false then some (-1, [.kfreePipe, .kfreeLock] ++ outFile, st)
  else do
    let (fd0, st) ← fdAlloc (some (.heap r)) (fileInit (.heap w) false (fileInit (.heap r) false st))
    if fd0 < 0 then some (-1, pipeFreeBoth ++ outFile, st)
    else
      let (fd1, st) ← fdAlloc (some (.heap w)) st
      if fd1 < 0 then
        let st ← fdFree (← pipefd0) 0 st
        some (-1, .userDeref :: (pipeFreeBoth ++ outFile), st)
      else some (0, [], st)

/-- The objects that the call has allocated have been freed once: the FIFO is one of them if its
allocation has succeeded. -/
def FreedOnce (fifo : Bool) (log : List PipeEvent) : Prop :=
  log.count .kfreePipe = 1 ∧ log.count .kfreeLock = 1 ∧ log.count .kfreeRfile = 1 ∧
    log.count .kfreeWfile = 1 ∧ log.count .kfreeKfifo = if fifo then 1 else 0

instance (fifo : Bool) (log : List PipeEvent) : Decidable (FreedOnce fifo log) :=
  inferInstanceAs (Decidable (_ ∧ _))

/-- The slots and the counters of the table. -/
def entries (st : Files) : (Nat → Option FilePtr) × Nat × Nat := (st.fd, st.nextFd, st.nrAvailFd)

/-- No trace but perhaps a lock that is held. -/
structure CleanEntries (fifo : Bool) (log : List PipeEvent) (st st' : Files) : Prop where
  entries : entries st' = entries st
  freed : FreedOnce fifo log
  noDeref : .userDeref ∉ log

/-- No trace of the call. -/
structure CleanTable (fifo : Bool) (log : List PipeEvent) (st st' : Files) : Prop
    extends CleanEntries fifo log st st' where
  locked : st'.locked = st.locked

/-- What a failing call does: `pipe_init` fails, or there is no slot for the first end, or none for the
second and the user's array is read. -/
lemma sysPipe2_fails {small fifo : Bool} {r w : Nat} {pipefd0 : Option Int} {st st' : Files}
    {log : List PipeEvent} (h : sysPipe2 small fifo r w pipefd0 st = some (-1, log, st')) :
    (fifo = false ∧ log = [.kfreePipe, .kfreeLock] ++ outFile ∧ st' = st) ∨
    (fifo = true ∧ nrOpen ≤ st.nextFd ∧ log = pipeFreeBoth ++ outFile ∧ st.locked = false ∧
      st'.locked = true ∧ entries st' = entries st) ∨
    (fifo = true ∧ st.nextFd < nrOpen ∧ .userDeref ∈ log) := by
  unfold sysPipe2 at h
  split at h
  · cases h
  split at h
  next hfifo =>
    cases h
    exact .inl ⟨hfifo, rfl, rfl⟩
  next hfifo =>
    have hfifo : fifo = true := by simpa using hfifo
    obtain ⟨⟨fd0, st1⟩, halloc, h⟩ := Option.bind_eq_some_iff.mp h
    have hlock : st.locked = false := by
      obtain ⟨_, hacq, -⟩ := Option.bind_eq_some_iff.mp halloc
      exact (acquire_eq_some hacq).1
    dsimp only at h
    rcases fdAlloc_result halloc with ⟨hfull, rfl, rfl⟩ | ⟨avail, hlt, rfl, -, hst1⟩
    · cases h
      exact .inr (.inl ⟨hfifo, hfull, rfl, hlock, rfl, rfl⟩)
    obtain ⟨⟨fd1, st2⟩, -, h⟩ := Option.bind_eq_some_iff.mp h
    split at h
    · obtain ⟨fd, -, h⟩ := Option.bind_eq_some_iff.mp h
      obtain ⟨st3, -, h⟩ := Option.bind_eq_some_iff.mp h
      cases h
      exact .inr (.inr ⟨hfifo, hlt, List.mem_cons_self⟩)
    · cases h

/-- A failing `pipe2` leaves no trace if and only if `pipe_init` has failed. If the lock of the table
does not count, it also leaves none when the table is full before. -/
theorem pipe2_clean_iff {small fifo : Bool} {r w : Nat} {pipefd0 : Option Int} {st st' : Files}
    {log : List PipeEvent} (h : sysPipe2 small fifo r w pipefd0 st = some (-1, log, st')) :
    (CleanTable fifo log st st' ↔ fifo = false) ∧
      (CleanEntries fifo log st st' ↔ fifo = false ∨ nrOpen ≤ st.nextFd) := by
  rcases sysPipe2_fails h with ⟨rfl, rfl, rfl⟩ | ⟨rfl, hfull, rfl, hlock, hheld, hsame⟩ |
    ⟨rfl, hlt, hderef⟩
  · have hclean : CleanEntries false ([.kfreePipe, .kfreeLock] ++ outFile) st' st' :=
      ⟨rfl, by decide, by decide⟩
    exact ⟨iff_of_true ⟨hclean, rfl⟩ rfl, iff_of_true hclean (.inl rfl)⟩
  · have hclean : CleanEntries true (pipeFreeBoth ++ outFile) st st' := ⟨hsame, by decide, by decide⟩
    refine ⟨iff_of_false (fun hc => ?_) (by decide), iff_of_true hclean (.inr hfull)⟩
    have hlocked := hc.locked
    rw [hlock, hheld] at hlocked
    cases hlocked
  · refine ⟨iff_of_false (fun hc => hc.noDeref hderef) (by decide), iff_of_false ?_ ?_⟩
    · exact fun hc => hc.noDeref hderef
    · rintro (hfalse | hfull)
      · cases hfalse
      · omega

/-- A table without a free slot. -/
def noSlot : Files := { fdtInit with fd := fun _ => some .stdin, nextFd := 1024, nrAvailFd := 0 }

/-- A `pipe2` without memory for the FIFO, and one on a full table, which leaves the lock held. -/
theorem pipe2_clean_nomem :
    (∃ log st', sysPipe2 true false 4096 8192 none fdtInit = some (-1, log, st') ∧
      CleanTable false log fdtInit st') ∧
    ∃ log st', sysPipe2 true true 4096 8192 none noSlot = some (-1, log, st') ∧
      CleanEntries true log noSlot st' ∧ ¬ CleanTable true log noSlot st' := by
  have hnomem : sysPipe2 true false 4096 8192 none fdtInit =
      some (-1, [.kfreePipe, .kfreeLock] ++ outFile, fdtInit) := rfl
  have hfull : sysPipe2 true true 4096 8192 none noSlot =
      some (-1, pipeFreeBoth ++ outFile, _) := rfl
  exact ⟨⟨_, _, hnomem, (pipe2_clean_iff hnomem).1.mpr rfl⟩, _, _, hfull,
    (pipe2_clean_iff hfull).2.mpr (.inr (by decide)),
    fun hc => absurd ((pipe2_clean_iff hfull).1.mp hc) (by decide)⟩

/-- A table with one free slot. -/
def oneSlot : Files := { fdtInit with
  fd := fun i => if i = 1023 then none else some .stdin, nextFd := 1023, nrAvailFd := 1 }

/-- The only free slot is used for the first end. The call fails, the slot still points to the file that
was freed, and the user's pointer has been followed, to an address that the kernel's own page table
maps: an array of the user's would be a fault. -/
theorem pipe2_leaves_file :
    (sysPipe2 true true 4096 8192 (some (-1)) oneSlot).map (fun x => (x.1, x.2.1, x.2.2.fd 1023)) =
      some (-1, [.userDeref, .kfreeKfifo, .kfreeLock, .kfreePipe, .kfreeWfile, .kfreeRfile],
        some (.heap 4096)) ∧ oneSlot.fd 1023 = none := by
  decide +kernel

end Hana.File
