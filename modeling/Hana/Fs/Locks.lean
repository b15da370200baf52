import Hana.Fs.FileRefs
import Hana.Fs.Mount

/-!
# The locks of the descriptor table and of the mount table

`fdt_lock` and `mplst_lock` are spinlocks. `spinlock_acquire` switches the interrupts off and
counts this in `noff` of the CPU, and asserts that the CPU does not hold the lock already;
`spinlock_release` undoes both. This module runs the seven functions that take one of the two
locks on a state with both tables and the CPU, and asks which calls give the lock back.

Four paths do not: `fd_alloc` when the table is full, `fd_clone` when there is nothing to copy
or the target is in use, `mountpoint_add` of a path that is in the table, and
`mountpoint_remove` of a path that is in the table, which is its successful path. The next call
that needs the lock fails the assertion.

The functions on the descriptor table read `fd[i]` for any `int`. What stands behind and before the
array is part of the call (`mem`), but for the fields of `struct files_struct` themselves. A word that
is not mapped stops the kernel with the lock held, and so does a store to one that cannot be written.
-/

namespace Hana.Locks

open Function Option Lib Hana.File Hana.Mount

/-- The fields of `struct cpu` that the locks use, and the interrupt enable bit. -/
structure Cpu where
  noff : Nat
  intena : Bool
  intr : Bool
  deriving Repr, DecidableEq

/-- A descriptor table, the mount table and the CPU that runs. -/
structure Kern where
  files : Files
  mounts : Sys
  cpu : Cpu

/-! ## Spinlocks -/

def irqPushoff (c : Cpu) : Cpu where
  noff := c.noff + 1
  intena := if c.noff = 0 then c.intr else c.intena
  intr := false

def irqPopoff (c : Cpu) : Option Cpu :=
  if c.intr ∨ c.noff = 0 then none
  else
    let c := { c with noff := c.noff - 1 }
    some (if c.noff = 0 ∧ c.intena then { c with intr := true } else c)

/-- `spinlock_acquire`, on the lock word and the CPU. -/
def spinlockAcquire (locked : Bool) (c : Cpu) : Option (Bool × Cpu) :=
  let c := irqPushoff c
  if locked then none else some (true, c)

def spinlockRelease (locked : Bool) (c : Cpu) : Option (Bool × Cpu) :=
  if locked then (irqPopoff c).map fun c => (false, c) else none

def acquireFdt (k : Kern) : Option Kern := do
  let (locked, cpu) ← spinlockAcquire k.files.locked k.cpu
  some { k with files := { k.files with locked := locked }, cpu := cpu }

def releaseFdt (k : Kern) : Option Kern := do
  let (locked, cpu) ← spinlockRelease k.files.locked k.cpu
  some { k with files := { k.files with locked := locked }, cpu := cpu }

def acquireMplst (k : Kern) : Option Kern := do
  let (locked, cpu) ← spinlockAcquire k.mounts.locked k.cpu
  some { k with mounts := { k.mounts with locked := locked }, cpu := cpu }

def releaseMplst (k : Kern) : Option Kern := do
  let (locked, cpu) ← spinlockRelease k.mounts.locked k.cpu
  some { k with mounts := { k.mounts with locked := locked }, cpu := cpu }

/-! ## The descriptor table -/

/-- The file is stored at `next_fd`, and the next free slot is looked for. -/
def fillNext (f : FilePtr) (st : Files) : Files :=
  let st := findAvailFd { st with fd := update st.fd st.nextFd (some f) }
  let st := { st with nrAvailFd := (st.nrAvailFd + (2 ^ 32 - 1)) % 2 ^ 32 }
  fileGet f st

def fdAlloc (file : Option FilePtr) (k : Kern) : Option (Int × Kern) :=
  match file with
  | none => some (-1, k)
  | some f => do
    let k ← acquireFdt k
    let fd := k.files.nextFd
    if nrOpen ≤ fd then some (-1, k)
    else if (k.files.fd fd).isSome then none
    else
      let k ← releaseFdt { k with files := fillNext f k.files }
      some (fd, k)

/-- The slot `fd` is emptied, and the next free slot is looked for. -/
def emptySlot (fd : Nat) (f : FilePtr) (closeRet : Int) (st : Files) : Files :=
  let st := (filePut f closeRet st).2
  findAvailFd { st with
    fd := update st.fd fd none
    nrAvailFd := (st.nrAvailFd + 1) % 2 ^ 32 }

def fdFree (fd closeRet : Int) (k : Kern) : Option Kern :=
  if fd < 0 ∨ (nrOpen : Int) ≤ fd then some k
  else do
    let k ← acquireFdt k
    match k.files.fd fd.toNat with
    | none => releaseFdt k
    | some f => releaseFdt { k with files := emptySlot fd.toNat f closeRet k.files }

/-- The pointer at `fd[i]`, read while the lock is held, if the word is mapped. Behind the array stand
`next_fd` and `nr_avail_fd` in one word, then the lock: its first and its last word are not zero
while it is held. -/
def slot (mem : Int → Option (Option FilePtr)) (st : Files) (i : Int) : Option (Option FilePtr) :=
  if 0 ≤ i ∧ i < nrOpen then some (st.fd i.toNat)
  else if i = nrOpen then
    some (if st.nextFd = 0 ∧ st.nrAvailFd = 0 then none
      else some (.heap (st.nextFd + 2 ^ 32 * st.nrAvailFd)))
  else if i = nrOpen + 1 ∨ i = nrOpen + 6 then some (some ((mem i).join.getD (.heap 1)))
  else mem i

/-- The upper half of the address of a file. The static streams are in the kernel image, which is
below 4 GiB. -/
def upperHalf : FilePtr → Nat
  | .heap addr => addr / 2 ^ 32 % 2 ^ 32
  | _ => 0

/-- The pointer is written to `fd[i]`. At `NR_OPEN` its upper half becomes `nr_avail_fd`; `next_fd` is
computed again right after. -/
def setSlot (st : Files) (i : Int) (f : FilePtr) : Files :=
  if 0 ≤ i ∧ i < nrOpen then { st with fd := update st.fd i.toNat (some f) }
  else if i = nrOpen then { st with nrAvailFd := upperHalf f }
  else st

/-- The descriptor that `fd_clone` writes. -/
def cloneSlot (newFd : Int) (st : Files) : Int := if newFd = -1 then st.nextFd else newFd

def fdClone (mem : Int → Option (Option FilePtr)) (oldFd newFd : Int) (k : Kern) :
    Option (Int × Kern) := do
  let k ← acquireFdt k
  let newFd := cloneSlot newFd k.files
  match ← slot mem k.files oldFd with
  | none => some (-1, k)
  | some f =>
    if (← slot mem k.files newFd).isSome then some (-1, k)
    else
      let k ← releaseFdt { k with files := findAvailFd (setSlot k.files newFd f) }
      some (newFd, k)

def fdGet (mem : Int → Option (Option FilePtr)) (fd : Int) (k : Kern) :
    Option (Option FilePtr × Kern) := do
  let k ← acquireFdt k
  let res ← slot mem k.files fd
  let k ← releaseFdt k
  some (res, k)

/-! ## The mount table -/

def mountpointFind (path : List Char) (k : Kern) : Option (Option Mountpoint × Kern) := do
  let k ← acquireMplst k
  let res := (k.mounts.table.foldl (findTurn path) (-1, none)).2
  let k ← releaseMplst k
  some (res, k)

/-- `mountpoint_add`; `none` is a null pointer or an entry without a path or a file system. -/
def mountpointAdd (mp : Option Mountpoint) (k : Kern) : Option Kern :=
  match mp with
  | none => some k
  | some mp => do
    let k ← acquireMplst k
    if k.mounts.table.any fun i => mp.mountpoint == i.mountpoint then some k
    else
      let k ← releaseMplst k
      some { k with mounts := { k.mounts with table := mp :: k.mounts.table } }

def mountpointRemove (mountpoint : List Char) (k : Kern) : Option Kern := do
  let k ← acquireMplst k
  if k.mounts.table.any fun mp => mp.mountpoint == mountpoint then
    some { k with mounts := { k.mounts with
      table := k.mounts.table.eraseP fun mp => mp.mountpoint == mountpoint } }
  else releaseMplst k

/-! ## Calls -/

inductive Call
  | fdAlloc (file : Option FilePtr)
  | fdFree (fd closeRet : Int)
  | fdClone (mem : Int → Option (Option FilePtr)) (oldFd newFd : Int)
  | fdGet (mem : Int → Option (Option FilePtr)) (fd : Int)
  | mountpointFind (path : List Char)
  | mountpointAdd (mp : Option Mountpoint)
  | mountpointRemove (mountpoint : List Char)

/-- A call, without its result; `none` where the kernel stops. -/
def exec (k : Kern) : Call → Option Kern
  | .fdAlloc file => (fdAlloc file k).map Prod.snd
  | .fdFree fd closeRet => fdFree fd closeRet k
  | .fdClone mem oldFd newFd => (fdClone mem oldFd newFd k).map Prod.snd
  | .fdGet mem fd => (fdGet mem fd k).map Prod.snd
  | .mountpointFind path => (mountpointFind path k).map Prod.snd
  | .mountpointAdd mp => mountpointAdd mp k
  | .mountpointRemove mountpoint => mountpointRemove mountpoint k

def Step (k : Kern) (c : Call) (k' : Kern) : Prop := exec k c = some k'

/-- Both locks are free, and `next_fd` names a free slot or the end of the table. -/
structure Ready (k : Kern) : Prop where
  fdt : k.files.locked = false
  mplst : k.mounts.locked = false
  next : k.files.nextFd < nrOpen → k.files.fd k.files.nextFd = none

/-- The call returns with both locks free and the interrupts nested as deeply as before. -/
def Clean (k : Kern) (c : Call) : Prop :=
  ∃ k', exec k c = some k' ∧ k'.files.locked = false ∧ k'.mounts.locked = false ∧
    k'.cpu.noff = k.cpu.noff

/-- The words that the call reads are mapped. -/
def Reads (k : Kern) : Call → Prop
  | .fdClone mem oldFd newFd => slot mem k.files oldFd = some none ∨
    (slot mem k.files oldFd).isSome ∧ (slot mem k.files (cloneSlot newFd k.files)).isSome
  | .fdGet mem fd => (slot mem k.files fd).isSome
  | _ => True

/-- The calls that give back the lock that they take. -/
def Releases (k : Kern) : Call → Prop
  | .fdAlloc file => file = none ∨ k.files.nextFd < nrOpen
  | .fdClone mem oldFd newFd =>
    (∃ f, slot mem k.files oldFd = some (some f)) ∧ slot mem k.files (cloneSlot newFd k.files) = some none
  | .fdGet mem fd => (slot mem k.files fd).isSome
  | .mountpointAdd mp => ∀ m ∈ mp, m.mountpoint ∉ paths k.mounts
  | .mountpointRemove mountpoint => mountpoint ∉ paths k.mounts
  | _ => True

/-! ## Taking and releasing a lock -/

section

variable {k k' : Kern} {c : Call}

/-- The state with `fdt_lock` taken. -/
def Kern.lockFdt (k : Kern) : Kern :=
  { k with files := { k.files with locked := true }, cpu := irqPushoff k.cpu }

/-- The state with `mplst_lock` taken. -/
def Kern.lockMplst (k : Kern) : Kern :=
  { k with mounts := { k.mounts with locked := true }, cpu := irqPushoff k.cpu }

@[simp] lemma lockFdt_nextFd (k : Kern) : k.lockFdt.files.nextFd = k.files.nextFd := rfl

@[simp] lemma lockFdt_fd (k : Kern) : k.lockFdt.files.fd = k.files.fd := rfl

@[simp] lemma lockMplst_table (k : Kern) : k.lockMplst.mounts.table = k.mounts.table := rfl

lemma acquireFdt_eq (h : k.files.locked = false) : acquireFdt k = some k.lockFdt := by
  simp [acquireFdt, spinlockAcquire, h, Kern.lockFdt]

lemma acquireMplst_eq (h : k.mounts.locked = false) : acquireMplst k = some k.lockMplst := by
  simp [acquireMplst, spinlockAcquire, h, Kern.lockMplst]

lemma irqPopoff_pushoff (c : Cpu) :
    ∃ c', irqPopoff (irqPushoff c) = some c' ∧ c'.noff = c.noff := by
  refine ⟨_, if_neg (by simp [irqPushoff]), ?_⟩
  split_ifs
  · exact Nat.add_sub_cancel c.noff 1
  · exact Nat.add_sub_cancel c.noff 1

/-- The lock of a descriptor table that was changed under it is released. -/
lemma releaseFdt_eq (k : Kern) {st : Files} (hlock : st.locked = true) :
    ∃ c, releaseFdt { k.lockFdt with files := st } = some ⟨release st, k.mounts, c⟩ ∧
      c.noff = k.cpu.noff := by
  obtain ⟨c, hpop, hnoff⟩ := irqPopoff_pushoff k.cpu
  refine ⟨c, ?_, hnoff⟩
  simp [releaseFdt, spinlockRelease, Kern.lockFdt, hlock, hpop, release]

/-- The mount table was not changed yet when its lock is released. -/
lemma releaseMplst_eq (h : k.mounts.locked = false) :
    ∃ c, releaseMplst k.lockMplst = some ⟨k.files, k.mounts, c⟩ ∧ c.noff = k.cpu.noff := by
  obtain ⟨c, hpop, hnoff⟩ := irqPopoff_pushoff k.cpu
  refine ⟨c, ?_, hnoff⟩
  have hmounts : k.mounts = { k.mounts with locked := false } := by rw [← h]
  rw [hmounts]
  simp [releaseMplst, spinlockRelease, Kern.lockMplst, hpop]

/-! ## The tables alone

Without the CPU these are the functions of the two tables. -/

lemma acquireFdt_none (h : k.files.locked = true) : acquireFdt k = none := by
  simp [acquireFdt, spinlockAcquire, h]

lemma acquireMplst_none (h : k.mounts.locked = true) : acquireMplst k = none := by
  simp [acquireMplst, spinlockAcquire, h]

lemma findAvailFd_locked (st : Files) : (findAvailFd st).locked = st.locked := by
  obtain ⟨n, heq, _⟩ := findAvailFd_eq st
  rw [heq]

lemma fillNext_locked (f : FilePtr) (st : Files) : (fillNext f st).locked = st.locked := by
  unfold fillNext fileGet
  dsimp only
  exact findAvailFd_locked _

lemma filePut_locked (f : FilePtr) (closeRet : Int) (st : Files) :
    (filePut f closeRet st).2.locked = st.locked := by
  unfold filePut
  dsimp only
  split_ifs <;> rfl

lemma emptySlot_locked (fd : Nat) (f : FilePtr) (closeRet : Int) (st : Files) :
    (emptySlot fd f closeRet st).locked = st.locked := by
  rw [emptySlot, findAvailFd_locked]
  exact filePut_locked f closeRet st

lemma fdAlloc_files (file : Option FilePtr) (k : Kern) :
    (fdAlloc file k).map (fun p => (p.1, p.2.files)) = File.fdAlloc file k.files := by
  cases file with
  | none => rfl
  | some f =>
    cases hlock : k.files.locked with
    | true => simp [fdAlloc, File.fdAlloc, acquireFdt_none hlock, acquire, hlock]
    | false =>
      obtain ⟨c, hrel, _⟩ := releaseFdt_eq k (fillNext_locked f k.lockFdt.files)
      simp only [fdAlloc, File.fdAlloc, acquireFdt_eq hlock, acquire, hlock, bind_eq_bind,
        bind_some, Bool.false_eq_true, if_false, hrel, lockFdt_nextFd, lockFdt_fd]
      split_ifs with hfull hfree
      · rfl
      · rfl
      · rfl

lemma fdFree_files (fd closeRet : Int) (k : Kern) :
    (fdFree fd closeRet k).map Kern.files = File.fdFree fd closeRet k.files := by
  unfold fdFree File.fdFree
  split_ifs with hrange
  · rfl
  · cases hlock : k.files.locked with
    | true => simp [acquireFdt_none hlock, acquire, hlock]
    | false =>
      simp only [acquireFdt_eq hlock, acquire, hlock, bind_eq_bind, bind_some,
        Bool.false_eq_true, if_false, lockFdt_fd]
      cases hfd : k.files.fd fd.toNat with
      | none =>
        have hheld : k.lockFdt.files.locked = true := rfl
        obtain ⟨c, hrel, _⟩ := releaseFdt_eq k hheld
        exact congrArg (Option.map Kern.files) hrel
      | some f =>
        obtain ⟨c, hrel, _⟩ := releaseFdt_eq k (emptySlot_locked fd.toNat f closeRet k.lockFdt.files)
        exact congrArg (Option.map Kern.files) hrel

/-- Inside the table `fd_clone` is the function of the descriptor table alone. -/
lemma fdClone_files (mem : Int → Option (Option FilePtr)) (k : Kern) {oldFd : Nat} {newFd : Option Nat}
    (hold : oldFd < nrOpen) (hnew : cloneTarget newFd k.files < nrOpen) :
    (fdClone mem oldFd ((newFd.map Int.ofNat).getD (-1)) k).map (fun p => (p.1, p.2.files)) =
      File.fdClone oldFd newFd k.files := by
  have htarget : cloneSlot ((newFd.map Int.ofNat).getD (-1)) k.files = cloneTarget newFd k.files := by
    cases newFd with
    | none => rfl
    | some n =>
      have hneg : ¬ (n : Int) = -1 := by omega
      exact if_neg hneg
  have hslot : ∀ i < nrOpen, slot mem k.files (i : Nat) = some (k.files.fd i) := by
    intro i hi
    exact (if_pos ⟨Int.natCast_nonneg i, Int.ofNat_lt.mpr hi⟩).trans (by rw [Int.toNat_natCast])
  cases hlock : k.files.locked with
  | true => simp [fdClone, File.fdClone, acquireFdt_none hlock, acquire, hlock]
  | false =>
    have hsrc : slot mem k.lockFdt.files oldFd = some (k.files.fd oldFd) := hslot oldFd hold
    have hdst : slot mem k.lockFdt.files (cloneTarget newFd k.files : Nat) =
        some (k.files.fd (cloneTarget newFd k.files)) := hslot _ hnew
    have hused : slotUsed { k.files with locked := true } (cloneTarget newFd k.files) =
        (k.files.fd (cloneTarget newFd k.files)).isSome := if_pos hnew
    have htarget' : cloneSlot ((newFd.map Int.ofNat).getD (-1)) k.lockFdt.files =
        cloneTarget newFd k.files := htarget
    have hclone : cloneTarget newFd { k.files with locked := true } = cloneTarget newFd k.files := rfl
    simp only [fdClone, File.fdClone, acquireFdt_eq hlock, acquire, hlock, bind_eq_bind,
      bind_some, Bool.false_eq_true, if_false, htarget', hsrc, hdst, hclone, hused]
    cases hfd : k.files.fd oldFd with
    | none => rfl
    | some f =>
      cases hnew' : k.files.fd (cloneTarget newFd k.files) with
      | some g => rfl
      | none =>
        have hset : setSlot k.lockFdt.files (cloneTarget newFd k.files : Nat) f =
            { k.lockFdt.files with
              fd := update k.files.fd (cloneTarget newFd k.files) (some f) } :=
          (if_pos ⟨Int.natCast_nonneg _, Int.ofNat_lt.mpr hnew⟩).trans (by rw [Int.toNat_natCast]; rfl)
        have hheld := findAvailFd_locked (setSlot k.lockFdt.files (cloneTarget newFd k.files : Nat) f)
        dsimp only
        rw [hset] at hheld ⊢
        obtain ⟨c, hrel, _⟩ := releaseFdt_eq k hheld
        rw [hrel]
        rfl

lemma mountpointFind_mounts (path : List Char) (k : Kern) :
    (mountpointFind path k).map Prod.fst = Mount.mountpointFind path k.mounts := by
  cases hlock : k.mounts.locked with
  | true => simp [mountpointFind, Mount.mountpointFind, acquireMplst_none hlock, hlock]
  | false =>
    obtain ⟨c, hrel, _⟩ := releaseMplst_eq hlock
    simp [mountpointFind, Mount.mountpointFind, acquireMplst_eq hlock, hlock, hrel]

lemma mountpointAdd_mounts (mp : Mountpoint) (k : Kern) :
    (mountpointAdd (some mp) k).map Kern.mounts = Mount.mountpointAdd mp k.mounts := by
  cases hlock : k.mounts.locked with
  | true => simp [mountpointAdd, Mount.mountpointAdd, acquireMplst_none hlock, hlock]
  | false =>
    obtain ⟨c, hrel, _⟩ := releaseMplst_eq hlock
    simp only [mountpointAdd, Mount.mountpointAdd, acquireMplst_eq hlock, hlock, hrel,
      bind_eq_bind, bind_some, lockMplst_table, Bool.false_eq_true, if_false]
    split_ifs
    · rfl
    · rfl

lemma mountpointRemove_mounts (path : List Char) (k : Kern) :
    (mountpointRemove path k).map Kern.mounts = Mount.mountpointRemove path k.mounts := by
  cases hlock : k.mounts.locked with
  | true => simp [mountpointRemove, Mount.mountpointRemove, acquireMplst_none hlock, hlock]
  | false =>
    obtain ⟨c, hrel, _⟩ := releaseMplst_eq hlock
    simp only [mountpointRemove, Mount.mountpointRemove, acquireMplst_eq hlock, hlock, hrel,
      bind_eq_bind, bind_some, lockMplst_table, Bool.false_eq_true, if_false]
    split_ifs
    · rfl
    · rfl

/-! ## What each call leaves -/

/-- The call returns. If it meets the condition, both locks are free and the nesting is that of
before; otherwise it keeps a lock. -/
def Leaves (k : Kern) (cond : Prop) (res : Option Kern) : Prop :=
  ∃ k', res = some k' ∧ (cond → Ready k' ∧ k'.cpu.noff = k.cpu.noff) ∧
    (¬ cond → k'.files.locked = true ∨ k'.mounts.locked = true)

lemma Leaves.of_ready {cond : Prop} {res : Option Kern} (hcond : cond)
    (h : ∃ k', res = some k' ∧ Ready k' ∧ k'.cpu.noff = k.cpu.noff) : Leaves k cond res := by
  obtain ⟨k', hres, hready⟩ := h
  exact ⟨k', hres, fun _ => hready, fun hno => absurd hcond hno⟩

lemma Leaves.of_held {cond : Prop} {res : Option Kern} (hcond : ¬ cond)
    (h : ∃ k', res = some k' ∧ (k'.files.locked = true ∨ k'.mounts.locked = true)) :
    Leaves k cond res := by
  obtain ⟨k', hres, hheld⟩ := h
  exact ⟨k', hres, fun hc => absurd hc hcond, fun _ => hheld⟩

/-- A descriptor table that was changed under the lock is left ready. -/
lemma releaseFdt_ready (h : Ready k) (st : Files) (hlock : st.locked = true)
    (hnext : st.nextFd < nrOpen → st.fd st.nextFd = none) :
    ∃ k', releaseFdt { k.lockFdt with files := st } = some k' ∧ Ready k' ∧
      k'.cpu.noff = k.cpu.noff := by
  obtain ⟨c, hrel, hnoff⟩ := releaseFdt_eq k hlock
  exact ⟨_, hrel, ⟨rfl, h.mplst, hnext⟩, hnoff⟩

lemma releaseMplst_ready (h : Ready k) :
    ∃ k', releaseMplst k.lockMplst = some k' ∧ Ready k' ∧ k'.cpu.noff = k.cpu.noff := by
  obtain ⟨c, hrel, hnoff⟩ := releaseMplst_eq h.mplst
  exact ⟨_, hrel, ⟨h.fdt, h.mplst, h.next⟩, hnoff⟩

lemma findAvailFd_next (st : Files) :
    (findAvailFd st).nextFd < nrOpen → (findAvailFd st).fd (findAvailFd st).nextFd = none := by
  obtain ⟨n, heq, hn⟩ := findAvailFd_eq st
  rw [heq]
  exact hn

lemma fillNext_next (f : FilePtr) (st : Files) :
    (fillNext f st).nextFd < nrOpen → (fillNext f st).fd (fillNext f st).nextFd = none := by
  unfold fillNext fileGet
  dsimp only
  exact findAvailFd_next _

lemma setSlot_locked (st : Files) (i : Int) (f : FilePtr) :
    (setSlot st i f).locked = st.locked := by
  unfold setSlot
  split_ifs <;> rfl

lemma fdAlloc_leaves (h : Ready k) (file : Option FilePtr) :
    Leaves k (Releases k (.fdAlloc file)) (exec k (.fdAlloc file)) := by
  cases file with
  | none => exact .of_ready (.inl rfl) ⟨k, rfl, h, rfl⟩
  | some f =>
    simp only [exec, fdAlloc, acquireFdt_eq h.fdt, bind_eq_bind, bind_some]
    by_cases hfull : nrOpen ≤ k.files.nextFd
    · refine .of_held ?_ ⟨k.lockFdt, ?_, .inl rfl⟩
      · rintro (hnull | hlt)
        · cases hnull
        · omega
      · exact congrArg _ (if_pos hfull)
    · have hfree : k.files.fd k.files.nextFd = none := h.next (Nat.lt_of_not_le hfull)
      have hopen : ¬ nrOpen ≤ k.lockFdt.files.nextFd := hfull
      have hslot : ¬ (k.lockFdt.files.fd k.lockFdt.files.nextFd).isSome = true := by
        show ¬ (k.files.fd k.files.nextFd).isSome = true
        rw [hfree]
        exact Bool.false_ne_true
      obtain ⟨k', hrel, hready⟩ := releaseFdt_ready h (fillNext f k.lockFdt.files)
        (fillNext_locked f _) (fillNext_next f _)
      refine .of_ready (.inr (Nat.lt_of_not_le hfull)) ⟨k', ?_, hready⟩
      rw [if_neg hopen, if_neg hslot, hrel, bind_some, map_some]

lemma fdFree_leaves (h : Ready k) (fd closeRet : Int) :
    Leaves k (Releases k (.fdFree fd closeRet)) (exec k (.fdFree fd closeRet)) := by
  refine .of_ready trivial ?_
  unfold exec fdFree
  dsimp only
  split_ifs with hrange
  · exact ⟨k, rfl, h, rfl⟩
  · rw [acquireFdt_eq h.fdt, bind_eq_bind, bind_some]
    cases hfd : k.lockFdt.files.fd fd.toNat with
    | none => exact releaseFdt_ready h k.lockFdt.files rfl h.next
    | some f =>
      exact releaseFdt_ready h _ (emptySlot_locked fd.toNat f closeRet _) (findAvailFd_next _)

section

variable (h : Ready k) (mem : Int → Option (Option FilePtr)) (oldFd newFd : Int)
include h

lemma fdClone_leaves (hreads : Reads k (.fdClone mem oldFd newFd)) :
    Leaves k (Releases k (.fdClone mem oldFd newFd)) (exec k (.fdClone mem oldFd newFd)) := by
  simp only [exec, fdClone, acquireFdt_eq h.fdt, bind_eq_bind, bind_some]
  have hold : slot mem k.lockFdt.files oldFd = slot mem k.files oldFd := rfl
  have hnew : slot mem k.lockFdt.files (cloneSlot newFd k.lockFdt.files) =
      slot mem k.files (cloneSlot newFd k.files) := rfl
  rw [hold, hnew]
  rcases hreads with hsrc | ⟨hsrc, hdst⟩
  · rw [hsrc, bind_some]
    refine .of_held ?_ ⟨k.lockFdt, rfl, .inl rfl⟩
    rintro ⟨⟨f, hf⟩, -⟩
    cases hsrc.symm.trans hf
  obtain ⟨src, hsrc⟩ := isSome_iff_exists.mp hsrc
  obtain ⟨dst, hdst⟩ := isSome_iff_exists.mp hdst
  simp only [hsrc, hdst, bind_some]
  cases src with
  | none =>
    refine .of_held ?_ ⟨k.lockFdt, rfl, .inl rfl⟩
    rintro ⟨⟨f, hf⟩, -⟩
    cases hsrc.symm.trans hf
  | some f =>
    cases dst with
    | some g => exact .of_held (fun hc => absurd (hdst.symm.trans hc.2) nofun) ⟨k.lockFdt, rfl, .inl rfl⟩
    | none =>
      obtain ⟨k', hrel, hready⟩ := releaseFdt_ready h
        (findAvailFd (setSlot k.lockFdt.files (cloneSlot newFd k.lockFdt.files) f))
        (by rw [findAvailFd_locked, setSlot_locked]; rfl) (findAvailFd_next _)
      refine .of_ready ⟨⟨f, hsrc⟩, hdst⟩ ⟨k', ?_, hready⟩
      simp only [isSome_none, Bool.false_eq_true, if_false, hrel, bind_some, map_some]

lemma fdGet_leaves (hreads : Reads k (.fdGet mem oldFd)) :
    Leaves k (Releases k (.fdGet mem oldFd)) (exec k (.fdGet mem oldFd)) := by
  obtain ⟨k', hrel, hready⟩ := releaseFdt_ready h k.lockFdt.files rfl h.next
  obtain ⟨res, hres⟩ := isSome_iff_exists.mp hreads
  have hres' : slot mem k.lockFdt.files oldFd = some res := hres
  refine .of_ready hreads ⟨k', ?_, hready⟩
  simp only [exec, fdGet, acquireFdt_eq h.fdt, bind_eq_bind, bind_some, hres', hrel, map_some]

end

lemma mountpointFind_leaves (h : Ready k) (path : List Char) :
    Leaves k (Releases k (.mountpointFind path)) (exec k (.mountpointFind path)) := by
  obtain ⟨k', hrel, hready, hnoff⟩ := releaseMplst_ready h
  refine .of_ready trivial ⟨k', ?_, hready, hnoff⟩
  simp only [exec, mountpointFind, acquireMplst_eq h.mplst, bind_eq_bind, bind_some,
    hrel, map_some]

lemma any_mountpoint_iff {path : List Char} {s : Sys} :
    (s.table.any fun mp => mp.mountpoint == path) = true ↔ path ∈ paths s := by
  simp only [List.any_eq_true, beq_iff_eq, paths, List.mem_map]

lemma mountpointAdd_leaves (h : Ready k) (mp : Option Mountpoint) :
    Leaves k (Releases k (.mountpointAdd mp)) (exec k (.mountpointAdd mp)) := by
  cases mp with
  | none => exact .of_ready (fun m hm => absurd hm (not_mem_none m)) ⟨k, rfl, h, rfl⟩
  | some mp =>
    have hany : (k.lockMplst.mounts.table.any fun i => mp.mountpoint == i.mountpoint) = true ↔
        mp.mountpoint ∈ paths k.mounts := by
      rw [← any_mountpoint_iff]
      simp only [BEq.comm (a := mp.mountpoint)]
      rfl
    simp only [exec, mountpointAdd, acquireMplst_eq h.mplst, bind_eq_bind, bind_some]
    by_cases hin : mp.mountpoint ∈ paths k.mounts
    · refine .of_held (fun hc => hc mp rfl hin) ⟨k.lockMplst, ?_, .inr rfl⟩
      exact if_pos (hany.mpr hin)
    · obtain ⟨k', hrel, hready, hnoff⟩ := releaseMplst_ready h
      rw [if_neg (mt hany.mp hin), hrel]
      refine .of_ready ?_ ⟨_, rfl, ⟨hready.fdt, hready.mplst, hready.next⟩, hnoff⟩
      intro m hm
      cases hm
      exact hin

lemma mountpointRemove_leaves (h : Ready k) (path : List Char) :
    Leaves k (Releases k (.mountpointRemove path)) (exec k (.mountpointRemove path)) := by
  have hany : (k.lockMplst.mounts.table.any fun mp => mp.mountpoint == path) = true ↔
      path ∈ paths k.mounts := any_mountpoint_iff
  simp only [exec, mountpointRemove, acquireMplst_eq h.mplst, bind_eq_bind, bind_some]
  by_cases hin : path ∈ paths k.mounts
  · rw [if_pos (hany.mpr hin)]
    exact .of_held (fun hc => hc hin) ⟨_, rfl, .inr rfl⟩
  · obtain ⟨k', hrel, hready, hnoff⟩ := releaseMplst_ready h
    rw [if_neg (mt hany.mp hin)]
    exact .of_ready hin ⟨k', hrel, hready, hnoff⟩

/-- A call that reads what is mapped returns from a state in which both locks are free. -/
lemma exec_leaves (h : Ready k) (hreads : Reads k c) : Leaves k (Releases k c) (exec k c) := by
  cases c with
  | fdAlloc file => exact fdAlloc_leaves h file
  | fdFree fd closeRet => exact fdFree_leaves h fd closeRet
  | fdClone mem oldFd newFd => exact fdClone_leaves h mem oldFd newFd hreads
  | fdGet mem fd => exact fdGet_leaves h mem fd hreads
  | mountpointFind path => exact mountpointFind_leaves h path
  | mountpointAdd mp => exact mountpointAdd_leaves h mp
  | mountpointRemove mountpoint => exact mountpointRemove_leaves h mountpoint

lemma reads_of_releases (hcond : Releases k c) : Reads k c := by
  cases c with
  | fdClone mem oldFd newFd =>
    obtain ⟨⟨f, hsrc⟩, hdst⟩ := hcond
    exact .inr ⟨by rw [hsrc]; rfl, by rw [hdst]; rfl⟩
  | fdGet mem fd => exact hcond
  | _ => trivial

lemma Ready.step (h : Ready k) (hcond : Releases k c) (hs : Step k c k') : Ready k' := by
  obtain ⟨k'', hexec, hgood, -⟩ := exec_leaves h (reads_of_releases hcond)
  rw [Step, hexec, some.injEq] at hs
  subst hs
  exact (hgood hcond).1

end

/-- A process with its standard streams on a kernel that has mounted nothing yet. -/
def boot : Kern := ⟨fdtInit, Mount.start, ⟨0, false, true⟩⟩

end Hana.Locks
