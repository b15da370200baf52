import Hana.Fs.FileRefs

/-!
# The next descriptor

`next_fd` is kept by `find_avail_fd`, which does not look at the table when `nr_avail_fd` is
zero. That counter is not the number of free slots: `fd_clone` fills a slot and leaves it as it
is. It never falls below the number of free slots, though, and exceeds it by at most one for
each call, so in a run of fewer than `2 ^ 31` calls it is zero only when the table is full and
does not wrap around.

* `nextFd_leastFree`: along every such run `next_fd` is the least free descriptor, no call
  fails an assertion, and `fd_alloc` and `fd_clone` to any slot return the least free one.

The lock is left aside: every call starts with the table unlocked, whatever the call before it
left behind.
-/

namespace Hana.File

open Function Option Lib

/-- The number of slots that are `NULL`. -/
def freeSlots (st : Files) : Nat := slotCount nrOpen st.fd Option.isNone

/-- The least index whose slot is `NULL`, or `NR_OPEN` when there is none. -/
structure LeastFree (st : Files) (n : Nat) : Prop where
  le : n ≤ nrOpen
  below : ∀ m < n, st.fd m ≠ none
  free : n < nrOpen → st.fd n = none

inductive Call where
  | fdAlloc (file : Option FilePtr)
  | fdFree (fd : Nat) (closeRet : Int)
  | fdClone (oldFd : Nat) (newFd : Option Nat)
deriving DecidableEq, Repr

/-- A call with the table's lock released. `fd_free` returns nothing. -/
def Call.perform : Call → Files → Option (Int × Files)
  | .fdAlloc file, st => File.fdAlloc file (release st)
  | .fdFree fd closeRet, st => (File.fdFree fd closeRet (release st)).map fun st => (0, st)
  | .fdClone oldFd newFd, st => File.fdClone oldFd newFd (release st)

/-- Descriptors are in range, and a clone goes to a free slot, or to any while one is free. -/
def Call.Legal (st : Files) : Call → Prop
  | .fdAlloc _ => True
  | .fdFree fd _ => fd < nrOpen
  | .fdClone oldFd newFd => oldFd < nrOpen ∧
      (∀ n, newFd = some n → n < nrOpen ∧ st.fd n = none) ∧
      (newFd = none → ∃ i < nrOpen, st.fd i = none)

def CallStep (st : Files) (c : Call) (st' : Files) : Prop :=
  c.Legal st ∧ ∃ r, c.perform st = some (r, st')

/-- What `k` calls keep: the counter exceeds the number of free slots by at most `k`. -/
structure Tracks (k : Nat) (st : Files) : Prop where
  least : LeastFree st st.nextFd
  enough : freeSlots st ≤ st.nrAvailFd
  drift : st.nrAvailFd ≤ freeSlots st + k

/-! ## The search -/

lemma freeSlots_le (st : Files) : freeSlots st ≤ nrOpen := slotCount_le _ _ _

variable {st : Files} {i k : Nat}

lemma freeSlots_pos (hi : i < nrOpen) (h : st.fd i = none) :
    0 < freeSlots st :=
  slotCount_pos hi (by rw [h, isNone_none])

/-- Filling a free slot takes one away. -/
lemma freeSlots_fill (hi : i < nrOpen) (hfree : st.fd i = none) (f : FilePtr) :
    slotCount nrOpen (update st.fd i (some f)) isNone + 1 = freeSlots st := by
  have h := slotCount_update st.fd isNone (some f) hi
  simpa only [hfree, isNone_none, isNone_some, if_true, Bool.false_eq_true, if_false,
    add_zero, freeSlots] using h

/-- Clearing a used slot adds one. -/
lemma freeSlots_clear {f : FilePtr} (hi : i < nrOpen) (hused : st.fd i = some f) :
    slotCount nrOpen (update st.fd i none) isNone = freeSlots st + 1 := by
  have h := slotCount_update st.fd isNone none hi
  simpa only [hused, isNone_none, isNone_some, if_true, Bool.false_eq_true, if_false,
    add_zero, freeSlots] using h

/-- A least free descriptor of a table with a free slot is in range. -/
lemma LeastFree.lt {n : Nat} (h : LeastFree st n) (hi : i < nrOpen) (hfree : st.fd i = none) :
    n < nrOpen := by
  by_contra hge
  exact h.below i (by omega) hfree

lemma LeastFree.unique {m n : Nat} (hm : LeastFree st m) (hn : LeastFree st n) :
    m = n := by
  rcases lt_trichotomy m n with h | h | h
  · exact absurd (hm.free (by have := hn.le; omega)) (hn.below m h)
  · exact h
  · exact absurd (hn.free (by have := hm.le; omega)) (hm.below n h)

/-- `find_avail_fd` finds the least free descriptor, provided that the counter is zero in a
full table only. -/
lemma findAvailFd_least (h : freeSlots st ≤ st.nrAvailFd) :
    LeastFree (findAvailFd st) (findAvailFd st).nextFd := by
  unfold findAvailFd
  split_ifs with hzero
  · refine ⟨le_rfl, fun m hm hfree => ?_, fun hlt => absurd hlt (lt_irrefl _)⟩
    have hpos : 0 < freeSlots st := freeSlots_pos hm hfree
    omega
  · cases hfind : (List.range nrOpen).find? fun fd => (st.fd fd).isNone with
    | none =>
      have hused := List.find?_range_eq_none.mp hfind
      refine ⟨le_rfl, fun m hm hfree => ?_, fun hlt => absurd hlt (lt_irrefl _)⟩
      have hm := hused m hm
      rw [hfree] at hm
      exact absurd hm (by decide)
    | some n =>
      obtain ⟨hn, hmem, hbelow⟩ := List.find?_range_eq_some.mp hfind
      refine ⟨(List.mem_range.mp hmem).le, fun m hm hfree => ?_, fun _ => by simpa using hn⟩
      have hm := hbelow m hm
      rw [hfree] at hm
      exact absurd hm (by decide)

@[simp] lemma findAvailFd_fd (st : Files) : (findAvailFd st).fd = st.fd := by
  unfold findAvailFd
  split_ifs <;> rfl

@[simp] lemma findAvailFd_nrAvailFd (st : Files) : (findAvailFd st).nrAvailFd = st.nrAvailFd := by
  unfold findAvailFd
  split_ifs <;> rfl

@[simp] lemma release_fd (st : Files) : (release st).fd = st.fd := rfl

@[simp] lemma release_nextFd (st : Files) : (release st).nextFd = st.nextFd := rfl

@[simp] lemma release_nrAvailFd (st : Files) : (release st).nrAvailFd = st.nrAvailFd := rfl

/-- The search ends a call: what it finds is right for every table with the same slots. -/
lemma Tracks.of_findAvailFd (st : Files) {st' : Files} (hsearch : freeSlots st ≤ st.nrAvailFd)
    (hfd : st'.fd = st.fd) (hnext : st'.nextFd = (findAvailFd st).nextFd)
    (henough : freeSlots st ≤ st'.nrAvailFd) (hdrift : st'.nrAvailFd ≤ freeSlots st + k) :
    Tracks k st' := by
  have hcount : freeSlots st' = freeSlots st := by
    unfold freeSlots
    rw [hfd]
  have hleast := findAvailFd_least hsearch
  refine ⟨⟨?_, ?_, ?_⟩, ?_, ?_⟩
  · rw [hnext]
    exact hleast.le
  · intro m hm
    rw [hnext] at hm
    rw [hfd, ← findAvailFd_fd]
    exact hleast.below m hm
  · intro hlt
    rw [hnext] at hlt
    rw [hnext, hfd, ← findAvailFd_fd]
    exact hleast.free hlt
  · rw [hcount]
    exact henough
  · rw [hcount]
    exact hdrift

/-! ## The three calls -/

lemma Tracks.mono {k' : Nat} (h : Tracks k st) (hk : k ≤ k') : Tracks k' st :=
  ⟨h.least, h.enough, by have := h.drift; omega⟩

/-- The lock is no part of what is tracked. -/
lemma Tracks.lock (h : Tracks k st) (b : Bool) :
    Tracks k { st with locked := b } :=
  ⟨⟨h.least.le, h.least.below, h.least.free⟩, h.enough, h.drift⟩

/-- The table with a slot filled, in the middle of a call. -/
def fill (i : Nat) (f : FilePtr) (st : Files) : Files :=
  { st with locked := true, fd := update st.fd i (some f) }

/-- `fd_alloc` on a table that is not full: the search comes before the counter goes down. -/
lemma fdAlloc_next (f : FilePtr) (st : Files) (hlock : st.locked = false)
    (hlt : st.nextFd < nrOpen) (hfree : st.fd st.nextFd = none) :
    ∃ st', fdAlloc (some f) st = some ((st.nextFd : Int), st') ∧
      st'.fd = update st.fd st.nextFd (some f) ∧
      st'.nextFd = (findAvailFd (fill st.nextFd f st)).nextFd ∧
      st'.nrAvailFd = (st.nrAvailFd + (2 ^ 32 - 1)) % 2 ^ 32 := by
  have hfull : ¬ nrOpen ≤ st.nextFd := by omega
  have hused : ¬ (st.fd st.nextFd).isSome = true := by simp [hfree]
  have hfd : (fill st.nextFd f st).fd = update st.fd st.nextFd (some f) := rfl
  obtain ⟨n, heq, _⟩ := findAvailFd_eq (fill st.nextFd f st)
  refine ⟨release (fileGet f { fill st.nextFd f st with
    nextFd := n, nrAvailFd := (st.nrAvailFd + (2 ^ 32 - 1)) % 2 ^ 32 }), ?_, hfd, ?_, rfl⟩
  · simp only [fill] at heq
    simp only [fdAlloc, acquire, hlock, Bool.false_eq_true, if_false, bind_eq_bind,
      bind_some, hfull, hused, fill, heq]
  · rw [heq]
    rfl

/-- `fd_alloc` returns the least free descriptor, or `-1` when the table is full. -/
lemma Tracks.fdAlloc (h : Tracks k st) (hk : k < 2 ^ 31) (f : FilePtr) :
    ∃ r st', fdAlloc (some f) (release st) = some (r, st') ∧ Tracks k st' ∧
      (st.nextFd < nrOpen → r = st.nextFd ∧ st'.fd = update st.fd st.nextFd (some f)) ∧
      (nrOpen ≤ st.nextFd → r = -1 ∧ st'.fd = st.fd) := by
  by_cases hfull : nrOpen ≤ st.nextFd
  · refine ⟨-1, { st with locked := true }, ?_, h.lock true, fun hlt => by omega, fun _ => ⟨rfl, rfl⟩⟩
    simp [File.fdAlloc, acquire, release, hfull]
  · have hlt : st.nextFd < nrOpen := by omega
    have hfree := h.least.free hlt
    have hcount : freeSlots (fill st.nextFd f (release st)) + 1 = freeSlots st :=
      freeSlots_fill hlt hfree f
    have hle := freeSlots_le st
    have henough := h.enough
    have hdrift := h.drift
    have havail : (fill st.nextFd f (release st)).nrAvailFd = st.nrAvailFd := rfl
    have hwrap : (st.nrAvailFd + (2 ^ 32 - 1)) % 2 ^ 32 + 1 = st.nrAvailFd := by
      unfold nrOpen at hle
      omega
    obtain ⟨st', hrun, hfd, hnext, hleft⟩ := fdAlloc_next f (release st) rfl hlt hfree
    rw [release_nrAvailFd] at hleft
    refine ⟨_, st', hrun, ?_, fun _ => ⟨rfl, hfd⟩, fun hge => absurd hge hfull⟩
    apply of_findAvailFd (fill st.nextFd f (release st)) _ hfd hnext
    all_goals omega

/-- `file_put` leaves the table alone. -/
lemma filePut_table (f : FilePtr) (closeRet : Int) (st : Files) :
    (filePut f closeRet st).2.fd = st.fd ∧ (filePut f closeRet st).2.nrAvailFd = st.nrAvailFd := by
  simp only [filePut]
  split_ifs <;> exact ⟨rfl, rfl⟩

/-- `fd_free` clears the slot. -/
lemma Tracks.fdFree (h : Tracks k st) (hk : k < 2 ^ 31) {fd : Nat} (hfd : fd < nrOpen)
    (closeRet : Int) :
    ∃ st', fdFree fd closeRet (release st) = some st' ∧ Tracks k st' ∧
      st'.fd = update st.fd fd none := by
  have hrange : ¬ ((fd : Int) < 0 ∨ (nrOpen : Int) ≤ fd) := by omega
  cases hslot : st.fd fd with
  | none =>
    refine ⟨release st, ?_, h.lock false, ?_⟩
    · simp [File.fdFree, acquire, release, hslot]
    · rw [← hslot, update_eq_self]
      rfl
  | some f =>
    have hcount := freeSlots_clear hfd hslot
    have hle := freeSlots_le st
    have henough := h.enough
    have hdrift := h.drift
    have hwrap : (st.nrAvailFd + 1) % 2 ^ 32 = st.nrAvailFd + 1 := by
      unfold nrOpen at hle
      omega
    generalize hmid : ({ (filePut f closeRet { st with locked := true }).2 with
      fd := update st.fd fd none
      nrAvailFd := st.nrAvailFd + 1 } : Files) = mid
    have hmidFd : mid.fd = update st.fd fd none := by rw [← hmid]
    have hmidAvail : mid.nrAvailFd = st.nrAvailFd + 1 := by rw [← hmid]
    have hmidCount : freeSlots mid = freeSlots st + 1 := by
      rw [freeSlots, hmidFd]
      exact hcount
    refine ⟨release (findAvailFd mid), ?_, ?_, ?_⟩
    · simp only [File.fdFree, acquire, release, hrange, if_false, Bool.false_eq_true,
        bind_eq_bind, bind_some, Int.toNat_natCast, hslot, filePut_table, hwrap, hmid]
    · exact of_findAvailFd mid (by omega) (by simp) (by simp)
        (by simp; omega) (by simp; omega)
    · rw [release_fd, findAvailFd_fd, hmidFd]

/-- `fd_clone` refuses an empty slot; otherwise it fills its target, which is the least free
descriptor when none was named. The counter stays. -/
lemma Tracks.fdClone (h : Tracks k st) (oldFd : Nat) {newFd : Option Nat}
    (hnew : ∀ n, newFd = some n → n < nrOpen ∧ st.fd n = none)
    (hany : newFd = none → ∃ i < nrOpen, st.fd i = none) :
    ∃ r st', fdClone oldFd newFd (release st) = some (r, st') ∧ Tracks (k + 1) st' ∧
      (∀ f, st.fd oldFd = some f → r = cloneTarget newFd st ∧
        st'.fd = update st.fd (cloneTarget newFd st) (some f)) ∧
      (st.fd oldFd = none → r = -1 ∧ st'.fd = st.fd) := by
  have htarget : cloneTarget newFd st < nrOpen ∧ st.fd (cloneTarget newFd st) = none := by
    cases newFd with
    | some n => exact hnew n rfl
    | none =>
      obtain ⟨i, hi, hfree⟩ := hany rfl
      have hlt := h.least.lt hi hfree
      exact ⟨hlt, h.least.free hlt⟩
  have hsame : cloneTarget newFd { st with locked := true } = cloneTarget newFd st := rfl
  have hused : slotUsed { st with locked := true } (cloneTarget newFd st) = false := by
    simp [slotUsed, htarget]
  cases hslot : st.fd oldFd with
  | none =>
    refine ⟨-1, { st with locked := true }, ?_, (h.lock true).mono (by omega),
      fun f hf => absurd hf (by simp), fun _ => ⟨rfl, rfl⟩⟩
    simp [File.fdClone, acquire, release, hslot]
  | some f =>
    have hcount := freeSlots_fill htarget.1 htarget.2 f
    have henough := h.enough
    have hdrift := h.drift
    generalize hmid : ({ st with
      locked := true, fd := update st.fd (cloneTarget newFd st) (some f) } : Files) = mid
    have hmidFd : mid.fd = update st.fd (cloneTarget newFd st) (some f) := by rw [← hmid]
    have hmidAvail : mid.nrAvailFd = st.nrAvailFd := by rw [← hmid]
    have hmidCount : freeSlots mid + 1 = freeSlots st := by
      rw [freeSlots, hmidFd]
      exact hcount
    refine ⟨cloneTarget newFd st, release (findAvailFd mid), ?_, ?_, ?_,
      fun hnone => absurd hnone (by simp)⟩
    · simp only [File.fdClone, acquire, release, Bool.false_eq_true, if_false, bind_eq_bind,
        bind_some, hsame, hused, hslot, isNone_some, Bool.or_false, hmid]
    · exact of_findAvailFd mid (by omega) (by simp) (by simp)
        (by simp; omega) (by simp; omega)
    · intro g hg
      cases hg
      exact ⟨rfl, by rw [release_fd, findAvailFd_fd, hmidFd]⟩

/-! ## Runs -/

lemma fdtInit_tracks : Tracks 0 fdtInit := by
  have hcount : freeSlots fdtInit = nrOpen - 3 := by decide +kernel
  refine ⟨⟨by decide, ?_, fun _ => rfl⟩, hcount.le, ?_⟩
  · intro m hm
    match m, hm with
    | 0, _ => exact some_ne_none _
    | 1, _ => exact some_ne_none _
    | 2, _ => exact some_ne_none _
  · rw [hcount]
    exact le_rfl

/-- A legal call from a tracked state returns, and the state after it is tracked. -/
lemma Tracks.perform (h : Tracks k st) (hk : k < 2 ^ 31) {c : Call} (hc : c.Legal st) :
    ∃ r st', c.perform st = some (r, st') ∧ Tracks (k + 1) st' := by
  cases c with
  | fdAlloc file =>
    cases file with
    | none => exact ⟨-1, release st, rfl, (h.lock false).mono (by omega)⟩
    | some f =>
      obtain ⟨r, st', hrun, hst', _⟩ := h.fdAlloc hk f
      exact ⟨r, st', hrun, hst'.mono (by omega)⟩
  | fdFree fd closeRet =>
    obtain ⟨st', hrun, hst', _⟩ := h.fdFree hk hc closeRet
    refine ⟨0, st', ?_, hst'.mono (by omega)⟩
    simp only [Call.perform, hrun, map_some]
  | fdClone oldFd newFd =>
    obtain ⟨r, st', hrun, hst', _⟩ := h.fdClone oldFd hc.2.1 hc.2.2
    exact ⟨r, st', hrun, hst'⟩

/-- Induction over the run: `k` calls leave a state that is tracked with drift at most `k`. -/
lemma tracks_of_run {ts : List (Transition Files Call)} (hr : Run CallStep fdtInit ts st)
    (hlen : ts.length < 2 ^ 31) : Tracks ts.length st := by
  induction hr with
  | nil => exact fdtInit_tracks
  | @snoc ts s s' c _ hs ih =>
    rw [List.length_append, List.length_singleton] at hlen ⊢
    have hbefore := ih (by omega)
    obtain ⟨hlegal, r, hrun⟩ := hs
    obtain ⟨r', st', hrun', hst'⟩ := hbefore.perform (by omega) hlegal
    rw [hrun] at hrun'
    cases hrun'
    exact hst'

/-- After every run of fewer than `2 ^ 31` calls, `next_fd` is the least free descriptor. The
next call fails no assertion; `fd_alloc` and `fd_clone` to any slot return the least free
descriptor and fill its slot. -/
theorem nextFd_leastFree {ts : List (Transition Files Call)} {st : Files}
    (hr : Run CallStep fdtInit ts st) (hlen : ts.length < 2 ^ 31) :
    LeastFree st st.nextFd ∧
      (∀ c : Call, c.Legal st → ∃ r st', c.perform st = some (r, st')) ∧
      (∀ f n r st', LeastFree st n → Call.perform (.fdAlloc (some f)) st = some (r, st') →
        if n < nrOpen then r = n ∧ st'.fd = update st.fd n (some f)
        else r = -1 ∧ st'.fd = st.fd) ∧
      (∀ oldFd f n r st', Call.Legal st (.fdClone oldFd none) → st.fd oldFd = some f →
        LeastFree st n → Call.perform (.fdClone oldFd none) st = some (r, st') →
        r = n ∧ st'.fd = update st.fd n (some f)) := by
  have h := tracks_of_run hr hlen
  refine ⟨h.least, ?_, ?_, ?_⟩
  · intro c hc
    obtain ⟨r, st', hrun, _⟩ := h.perform hlen hc
    exact ⟨r, st', hrun⟩
  · intro f n r st' hn hrun
    obtain ⟨r', st'', hrun', _, hfill, hfull⟩ := h.fdAlloc hlen f
    have heq : (r, st') = (r', st'') := some.inj (hrun.symm.trans hrun')
    cases heq
    rw [hn.unique h.least]
    split_ifs with hlt
    · exact hfill hlt
    · exact hfull (by omega)
  · intro oldFd f n r st' hlegal hslot hn hrun
    obtain ⟨r', st'', hrun', _, hfill, _⟩ := h.fdClone oldFd hlegal.2.1 hlegal.2.2
    have heq : (r, st') = (r', st'') := some.inj (hrun.symm.trans hrun')
    cases heq
    rw [hn.unique h.least]
    exact hfill f hslot

/-- A file is opened at 3, duplicated to 4 and closed: 3 is the next descriptor again, while
the counter is one more than the number of free slots. -/
theorem nextFd_leastFree_reuse :
    ∃ ts st, Run CallStep fdtInit ts st ∧
      ts.map Transition.label = [.fdAlloc (some (.heap 0)), .fdClone 3 none, .fdFree 3 0] ∧
      st.nrAvailFd = 1021 ∧ freeSlots st = 1020 ∧ st.nextFd = 3 ∧ LeastFree st 3 := by
  have hrun : (((Call.perform (.fdAlloc (some (.heap 0))) fdtInit).bind fun p =>
      Call.perform (.fdClone 3 none) p.2).bind fun p => Call.perform (.fdFree 3 0) p.2).map
        (fun p => (p.2.nrAvailFd, freeSlots p.2, p.2.nextFd)) = some (1021, 1020, 3) := by
    decide +kernel
  obtain ⟨⟨r3, st3⟩, hst3, hfinal⟩ := map_eq_some_iff.mp hrun
  obtain ⟨⟨r2, st2⟩, hst2, hfree⟩ := bind_eq_some_iff.mp hst3
  obtain ⟨⟨r1, st1⟩, hst1, hclone⟩ := bind_eq_some_iff.mp hst2
  obtain ⟨havail, hrest⟩ := Prod.mk.inj hfinal
  obtain ⟨hfree3, hnext⟩ := Prod.mk.inj hrest
  have h1 : CallStep fdtInit (.fdAlloc (some (.heap 0))) st1 := ⟨trivial, r1, hst1⟩
  have hslot : st1.fd 5 = none := by
    have hfd : (Call.perform (.fdAlloc (some (.heap 0))) fdtInit).map (fun p => p.2.fd 5) =
        some none := by decide +kernel
    rw [hst1] at hfd
    exact some.inj hfd
  have hnone : ∀ n, (none : Option Nat) = some n → n < nrOpen ∧ st1.fd n = none := by
    intro n hn
    cases hn
  have h2 : CallStep st1 (.fdClone 3 none) st2 :=
    ⟨⟨by decide, hnone, fun _ => ⟨5, by decide, hslot⟩⟩, r2, hclone⟩
  have h3 : CallStep st2 (.fdFree 3 0) st3 := ⟨by simp [Call.Legal, nrOpen], r3, hfree⟩
  have hr : Run CallStep fdtInit [⟨fdtInit, .fdAlloc (some (.heap 0)), st1⟩,
      ⟨st1, .fdClone 3 none, st2⟩, ⟨st2, .fdFree 3 0, st3⟩] st3 :=
    ((Run.nil.snoc h1).snoc h2).snoc h3
  have hleast := (nextFd_leastFree hr (by simp)).1
  rw [hnext] at hleast
  exact ⟨_, _, hr, rfl, havail, hfree3, hnext, hleast⟩

end Hana.File
