import Mathlib.Data.List.Induction
import Mathlib.Data.List.Nodup
import Hana.Lib.Run
import Hana.Fs.Path

/-!
# The table of mount points

`mountpoint_find`, `mountpoint_add` and `mountpoint_remove`, and the system calls over them. The
table is the list behind `mp_listhead`, first entry first. `mplst_lock` is part of the state, since
two of the functions return without releasing it; to acquire it again fails an assertion, which is
`none`. What the file systems answer to `mount` and `umount` is a parameter of the call.
-/

namespace Hana.Mount

open Lib Hana.Path List Option

/-- The entries of `filesys`. -/
inductive Fs
  | devfs
  | ext4
  deriving Repr, DecidableEq

/-- A `struct mountpoint`; `priv` says whether its `private` pointer is set. -/
structure Mountpoint where
  id : Nat
  mountpoint : List Char
  fs : Fs
  device : Option Nat
  priv : Bool
  deriving Repr, DecidableEq

structure Sys where
  table : List Mountpoint
  locked : Bool
  next : Nat
  deriving Repr, DecidableEq

/-- What a call reports: the text of its last `error`, or success. -/
inductive Reply
  | mounted
  | umounted
  | specialPath
  | noSpecial
  | noBlkdev
  | dirPath
  | alreadyUsed
  | mountFailed
  | notFound
  | umountFailed
  deriving Repr, DecidableEq

def Reply.ret : Reply → Int
  | .mounted => 0
  | .umounted => 0
  | _ => -1

/-- `str_match_prefix`: the first position at which the two differ. -/
def strMatchPrefix : List Char → List Char → Nat
  | c :: str, d :: pre => if d = c then strMatchPrefix str pre + 1 else 0
  | _, _ => 0

/-- One turn of the loop of `mountpoint_find`, on `max_len` and `res`. -/
def findTurn (path : List Char) (acc : Int × Option Mountpoint) (mp : Mountpoint) :
    Int × Option Mountpoint :=
  let len : Int := strMatchPrefix path mp.mountpoint - 1
  if len + 1 = mp.mountpoint.length ∧ len > acc.1 then (len, some mp) else acc

def mountpointFind (path : List Char) (s : Sys) : Option (Option Mountpoint) :=
  if s.locked then none else some (s.table.foldl (findTurn path) (-1, none)).2

/-- `mountpoint_add` of an entry with a file system: an entry with the same path makes it return
with the lock held. -/
def mountpointAdd (mp : Mountpoint) (s : Sys) : Option Sys :=
  if s.locked then none
  else if s.table.any fun i => mp.mountpoint == i.mountpoint then some { s with locked := true }
  else some { s with table := mp :: s.table }

/-- `mountpoint_remove`, which returns with the lock held when it has removed an entry. -/
def mountpointRemove (mountpoint : List Char) (s : Sys) : Option Sys :=
  if s.locked then none
  else if s.table.any fun mp => mp.mountpoint == mountpoint then
    some { s with table := s.table.eraseP fun mp => mp.mountpoint == mountpoint, locked := true }
  else some s

def filesysFind (fstype : List Char) : Option Fs :=
  if fstype = ['d', 'e', 'v', 'f', 's'] then some .devfs
  else if fstype = ['e', 'x', 't', '4'] then some .ext4
  else none

/-- The `mount` operation of the file system; `devfs` has none. -/
def fsMount (ok : Bool) (mp : Mountpoint) (s : Sys) : Reply × Sys :=
  match mp.fs with
  | .devfs => (.mountFailed, s)
  | .ext4 =>
    if ok then
      (.mounted, { s with
        table := s.table.map fun m => if m.id = mp.id then { m with priv := true } else m })
    else (.mountFailed, s)

/-- The `umount` operation: `devfs` has none, and `ext4_fs_umount` asserts that `private` is set. -/
def fsUmount (ok : Bool) (mp : Mountpoint) : Option Int :=
  match mp.fs with
  | .devfs => some (-1)
  | .ext4 => if mp.priv then some (if ok then 0 else -1) else none

/-- The entry that a call fills in before it adds it. -/
def newMountpoint (device : Nat) (dir : List Char) (fs : Fs) (s : Sys) : Mountpoint :=
  ⟨s.next, dir, fs, some device, false⟩

/-- The end of `sys_mount` and of `kernel_mount`, once the device and the directory are known. An
unknown file system is a null pointer, and `strdup` asks `kalloc` for the length of the path, which
must not be zero. -/
def mountAt (device : Nat) (dir : List Char) (fs : Option Fs) (ok : Bool) (s : Sys) :
    Option (Reply × Sys) := do
  let found ← mountpointFind dir s
  if found.isSome then some (.alreadyUsed, s)
  else if dir = [] then none
  else do
    let fs ← fs
    let mp := newMountpoint device dir fs s
    let s ← mountpointAdd mp { s with next := s.next + 1 }
    some (fsMount ok mp s)

/-- The end of `sys_umount2`, on the resolved path. -/
def umountAt (path : List Char) (ok : Bool) (s : Sys) : Option (Reply × Sys) := do
  match ← mountpointFind path s with
  | none => some (.notFound, s)
  | some mp => do
    let ret ← fsUmount ok mp
    if ret < 0 then some (.umountFailed, s)
    else do
      let s ← mountpointRemove mp.mountpoint s
      some (.umounted, s)

/-- The block devices of `devfs` by path, and the paths of the open descriptors. -/
structure Env where
  blkdev : List Char → Option Nat
  fPath : Int → Option (List Char)

def devDir : List Char := ['/', 'd', 'e', 'v', '/']

def sysMount (E : Env) (cwd special dir fstype : List Char) (ok : Bool) (s : Sys) :
    Option (Reply × Sys) := do
  let (ret, fullPathSp) ← getAbsolutePath cwd E.fPath special atFdcwd
  if ret < 0 then some (.specialPath, s)
  else if strMatchPrefix fullPathSp devDir ≠ 5 then some (.noSpecial, s)
  else match E.blkdev fullPathSp with
    | none => some (.noBlkdev, s)
    | some blkdev => do
      let (ret, fullPathDir) ← getAbsolutePath cwd E.fPath dir atFdcwd
      if ret < 0 then some (.dirPath, s)
      else mountAt blkdev fullPathDir (filesysFind fstype) ok s

def kernelMount (E : Env) (special dir fstype : List Char) (ok : Bool) (s : Sys) :
    Option (Reply × Sys) :=
  if strMatchPrefix special devDir ≠ 5 then some (.noSpecial, s)
  else match E.blkdev special with
    | none => some (.noBlkdev, s)
    | some blkdev => mountAt blkdev dir (filesysFind fstype) ok s

def sysUmount2 (E : Env) (cwd special : List Char) (ok : Bool) (s : Sys) : Option (Reply × Sys) := do
  let (ret, fullPathSp) ← getAbsolutePath cwd E.fPath special atFdcwd
  if ret < 0 then some (.specialPath, s) else umountAt fullPathSp ok s

/-- The entry that `devfs_init` fills in. -/
def devEntry : Mountpoint := ⟨0, ['/', 'd', 'e', 'v'], .devfs, none, false⟩

/-- The table after `vfilesys_init`. -/
def start : Sys where
  table := [devEntry]
  locked := false
  next := 1

inductive Call
  | mount (cwd special dir fstype : List Char) (ok : Bool)
  | kernelMount (special dir fstype : List Char) (ok : Bool)
  | umount2 (cwd special : List Char) (ok : Bool)

def exec (E : Env) (s : Sys) : Call → Option (Reply × Sys)
  | .mount cwd special dir fstype ok => sysMount E cwd special dir fstype ok s
  | .kernelMount special dir fstype ok => Mount.kernelMount E special dir fstype ok s
  | .umount2 cwd special ok => sysUmount2 E cwd special ok s

/-- What a call asks for, once its paths are resolved. -/
inductive Request
  | mount (device : Nat) (dir : List Char) (fs : Fs) (ok : Bool)
  | umount (path : List Char) (ok : Bool)

def serve (s : Sys) : Request → Option (Reply × Sys)
  | .mount device dir fs ok => mountAt device dir (some fs) ok s
  | .umount path ok => umountAt path ok s

/-- The call names a block device and a known file system, and its paths are resolved. -/
inductive Asks (E : Env) : Call → Request → Prop
  | mount {cwd special dir fstype fullPathSp fullPathDir : List Char} {ok : Bool} {device : Nat}
      {fs : Fs} (hsp : getAbsolutePath cwd E.fPath special atFdcwd = some (0, fullPathSp))
      (hdev : strMatchPrefix fullPathSp devDir = 5) (hblk : E.blkdev fullPathSp = some device)
      (hdir : getAbsolutePath cwd E.fPath dir atFdcwd = some (0, fullPathDir))
      (hfs : filesysFind fstype = some fs) :
      Asks E (.mount cwd special dir fstype ok) (.mount device fullPathDir fs ok)
  | kernelMount {special dir fstype : List Char} {ok : Bool} {device : Nat} {fs : Fs}
      (hdev : strMatchPrefix special devDir = 5) (hblk : E.blkdev special = some device)
      (hfs : filesysFind fstype = some fs) :
      Asks E (.kernelMount special dir fstype ok) (.mount device dir fs ok)
  | umount2 {cwd special fullPathSp : List Char} {ok : Bool}
      (hsp : getAbsolutePath cwd E.fPath special atFdcwd = some (0, fullPathSp)) :
      Asks E (.umount2 cwd special ok) (.umount fullPathSp ok)

def paths (s : Sys) : List (List Char) := s.table.map (·.mountpoint)

/-- What the table should be after a request: the call returns, the paths are distinct, and it has
changed only as asked. -/
def Meets (s : Sys) (r : Request) (res : Option (Reply × Sys)) : Prop :=
  ∃ reply s', res = some (reply, s') ∧ (paths s').Nodup ∧
    match r with
    | .mount _ dir _ _ =>
      (reply = .alreadyUsed → dir ∈ paths s) ∧
      (reply = .mounted → ∃ mp, mp.mountpoint = dir ∧ s'.table = mp :: s.table) ∧
      (reply ≠ .mounted → s'.table = s.table)
    | .umount path _ =>
      (reply = .umounted → path ∈ paths s ∧ s'.table = s.table.filter (·.mountpoint ≠ path)) ∧
      (reply = .notFound → path ∉ paths s) ∧
      (reply ≠ .umounted → s'.table = s.table)

/-- The requests that are served as they should be. The lock is free, so no entry has been removed
before. A directory is not the empty path, and it is mounted on already, or no mount point is above
it and the operation succeeds. A path that is given up is a mount point, or the longest mount point
above it belongs to a file system that refuses. -/
def Careful (s : Sys) : Request → Prop
  | .mount _ dir fs ok => s.locked = false ∧ dir ≠ [] ∧ (dir ∉ paths s →
      (fs = .ext4 ∧ ok = true) ∧ ∀ m ∈ paths s, m ≠ [] → ¬ m <+: dir)
  | .umount path ok => s.locked = false ∧
      if path ∈ paths s then path ≠ []
      else ok = false ∨ ∀ mp ∈ s.table, mp.fs = .ext4 → mp.mountpoint ≠ [] →
        mp.mountpoint <+: path → ∃ m ∈ paths s, m <+: path ∧ mp.mountpoint.length < m.length

structure Inv (s : Sys) : Prop where
  nodup : (paths s).Nodup
  priv : ∀ mp ∈ s.table, mp.fs = .ext4 → mp.priv = true
  id : ∀ mp ∈ s.table, mp.id < s.next

section

variable {E : Env} {s s' : Sys} {c : Call} {r : Request} {path pre : List Char} {mp : Mountpoint}

lemma Asks.exec_eq (h : Asks E c r) (s : Sys) : exec E s c = serve s r := by
  cases h with
  | mount hsp hdev hblk hdir hfs => simp [exec, sysMount, serve, hsp, hdev, hblk, hdir, hfs]
  | kernelMount hdev hblk hfs =>
    simp [exec, Mount.kernelMount, serve, hdev, hblk, hfs]
  | umount2 hsp => simp [exec, sysUmount2, serve, hsp]

/-! ## The longest prefix -/

lemma strMatchPrefix_eq_length_iff : strMatchPrefix path pre = pre.length ↔ pre <+: path := by
  induction path generalizing pre with
  | nil =>
    cases pre with
    | nil => exact iff_of_true rfl (prefix_refl [])
    | cons d pre => exact iff_of_false (by simp [strMatchPrefix]) (by simp)
  | cons c path ih =>
    cases pre with
    | nil => exact iff_of_true (by simp [strMatchPrefix]) nil_prefix
    | cons d pre =>
      rw [cons_prefix_cons, ← ih, strMatchPrefix]
      by_cases hd : d = c
      · simp [hd]
      · simp [hd]

/-- A longest mount point above the path. -/
structure Nearest (path : List Char) (l : List Mountpoint) (mp : Mountpoint) : Prop where
  mem : mp ∈ l
  ne_nil : mp.mountpoint ≠ []
  above : mp.mountpoint <+: path
  longest : ∀ m ∈ l, m.mountpoint <+: path → m.mountpoint.length ≤ mp.mountpoint.length

lemma findTurn_foldl (path : List Char) (l : List Mountpoint) :
    (l.foldl (findTurn path) (-1, none) = (-1, none) ∧
        ∀ m ∈ l, m.mountpoint ≠ [] → ¬ m.mountpoint <+: path) ∨
      ∃ mp, l.foldl (findTurn path) (-1, none) = ((mp.mountpoint.length : Int) - 1, some mp) ∧
        Nearest path l mp := by
  induction l using reverseRecOn with
  | nil => exact .inl ⟨rfl, nofun⟩
  | append_singleton l x ih =>
    rw [foldl_append, foldl_cons, foldl_nil]
    have hturn : ∀ acc : Int × Option Mountpoint, findTurn path acc x =
        if x.mountpoint <+: path ∧ acc.1 < (x.mountpoint.length : Int) - 1 then
          ((x.mountpoint.length : Int) - 1, some x) else acc := by
      intro acc
      unfold findTurn
      by_cases hpre : x.mountpoint <+: path
      · simp [strMatchPrefix_eq_length_iff.mpr hpre, hpre]
      · have hne := mt strMatchPrefix_eq_length_iff.mp hpre
        rw [if_neg (by omega), if_neg (by simp [hpre])]
    rcases ih with ⟨hfold, hnone⟩ | ⟨mp, hfold, hmp⟩
    · rw [hfold, hturn]
      by_cases hx : x.mountpoint <+: path ∧ x.mountpoint ≠ []
      · have hpos := length_pos_iff.mpr hx.2
        rw [if_pos ⟨hx.1, by omega⟩]
        refine .inr ⟨x, rfl, by simp, hx.2, hx.1, fun m hm hpre => ?_⟩
        rcases mem_append.mp hm with hm | hm
        · by_cases hnil : m.mountpoint = []
          · rw [hnil]
            exact Nat.zero_le _
          · exact absurd hpre (hnone m hm hnil)
        · exact Nat.le_of_eq (by rw [mem_singleton.mp hm])
      · have hzero : x.mountpoint <+: path → x.mountpoint.length = 0 := by
          intro hpre
          rw [not_not.mp fun hne => hx ⟨hpre, hne⟩]
          rfl
        rw [if_neg fun hc => by
          have hlen := hzero hc.1
          omega]
        refine .inl ⟨rfl, fun m hm hne hpre => ?_⟩
        rcases mem_append.mp hm with hm | hm
        · exact hnone m hm hne hpre
        · rw [mem_singleton.mp hm] at hne hpre
          exact hx ⟨hpre, hne⟩
    · rw [hfold, hturn]
      by_cases hx : x.mountpoint <+: path ∧ mp.mountpoint.length < x.mountpoint.length
      · rw [if_pos ⟨hx.1, by omega⟩]
        refine .inr ⟨x, rfl, by simp, ?_, hx.1, fun m hm hpre => ?_⟩
        · exact length_pos_iff.mp (by omega)
        · rcases mem_append.mp hm with hm | hm
          · exact Nat.le_of_lt (Nat.lt_of_le_of_lt (hmp.longest m hm hpre) hx.2)
          · exact Nat.le_of_eq (by rw [mem_singleton.mp hm])
      · rw [if_neg fun hc => hx ⟨hc.1, by omega⟩]
        refine .inr ⟨mp, rfl, mem_append_left _ hmp.mem, hmp.ne_nil, hmp.above,
          fun m hm hpre => ?_⟩
        rcases mem_append.mp hm with hm | hm
        · exact hmp.longest m hm hpre
        · rw [mem_singleton.mp hm] at hpre ⊢
          exact Nat.not_lt.mp fun hlt => hx ⟨hpre, hlt⟩

/-- What `mountpoint_find` returns while the lock is free. -/
lemma mountpointFind_cases (hlock : s.locked = false) (path : List Char) :
    (mountpointFind path s = some none ∧ ∀ m ∈ paths s, m ≠ [] → ¬ m <+: path) ∨
      ∃ mp, mountpointFind path s = some (some mp) ∧ Nearest path s.table mp := by
  unfold mountpointFind
  rw [hlock]
  rcases findTurn_foldl path s.table with ⟨hfold, hnone⟩ | ⟨mp, hfold, hmp⟩
  · refine .inl ⟨by rw [hfold]; rfl, fun m hm => ?_⟩
    obtain ⟨mp, hmp, rfl⟩ := mem_map.mp hm
    exact hnone mp hmp
  · exact .inr ⟨mp, by rw [hfold]; rfl, hmp⟩

lemma mountpointFind_locked (hlock : s.locked = true) (path : List Char) :
    mountpointFind path s = none := by
  rw [mountpointFind, if_pos hlock]

/-- A mount point on the path itself is the longest. -/
lemma Nearest.eq_path (h : Nearest path s.table mp) (hmem : path ∈ paths s) :
    mp.mountpoint = path := by
  obtain ⟨m, hm, hpath⟩ := mem_map.mp hmem
  have hle := h.longest m hm ⟨[], (append_nil _).trans hpath⟩
  rw [hpath] at hle
  exact h.above.eq_of_length_le hle

/-! ## Requests -/

variable {ok : Bool} {device : Nat} {dir : List Char} {fs : Fs}

lemma fsMount_of_ok (mp : Mountpoint) (hop : mp.fs = .ext4 ∧ ok = true) (s : Sys) :
    fsMount ok mp s = (.mounted, { s with
      table := s.table.map fun m => if m.id = mp.id then { m with priv := true } else m }) := by
  simp [fsMount, hop.1, hop.2]

lemma fsMount_of_not (mp : Mountpoint) (hop : ¬ (mp.fs = .ext4 ∧ ok = true)) (s : Sys) :
    fsMount ok mp s = (.mountFailed, s) := by
  unfold fsMount
  cases hfs : mp.fs with
  | devfs => rfl
  | ext4 => rw [if_neg fun hok => hop ⟨hfs, hok⟩]

lemma mountpointAdd_eq (hlock : s.locked = false) (mp : Mountpoint) :
    mountpointAdd mp s = some (if mp.mountpoint ∈ paths s then { s with locked := true }
      else { s with table := mp :: s.table }) := by
  have hany : (s.table.any fun i => mp.mountpoint == i.mountpoint) = true ↔ mp.mountpoint ∈ paths s := by
    simp only [List.any_eq_true, beq_iff_eq, paths, List.mem_map, eq_comm (a := mp.mountpoint)]
  rw [mountpointAdd, if_neg (by rw [hlock]; exact Bool.false_ne_true)]
  by_cases hdir : mp.mountpoint ∈ paths s
  · rw [if_pos (hany.mpr hdir), if_pos hdir]
  · rw [if_neg (mt hany.mp hdir), if_neg hdir]

/-- A directory that is not found is not in the table, unless it is the empty path. -/
lemma mountAt_eq (hlock : s.locked = false) (hfind : mountpointFind dir s = some none)
    (hfree : ∀ m ∈ paths s, m ≠ [] → ¬ m <+: dir) :
    mountAt device dir (some fs) ok s = if dir = [] then none else
      some (fsMount ok (newMountpoint device dir fs s)
        { s with next := s.next + 1, table := newMountpoint device dir fs s :: s.table }) := by
  rw [mountAt, hfind]
  show (if dir = [] then none else
    (mountpointAdd (newMountpoint device dir fs s) { s with next := s.next + 1 }).bind _) = _
  by_cases hne : dir = []
  · rw [if_pos hne, if_pos hne]
  · have hdir : (newMountpoint device dir fs s).mountpoint ∉ paths { s with next := s.next + 1 } :=
      fun hdir => hfree dir hdir hne (prefix_refl dir)
    rw [if_neg hne, if_neg hne, mountpointAdd_eq (s := { s with next := s.next + 1 }) hlock,
      if_neg hdir]
    rfl

lemma map_setPrivate (h : ∀ m ∈ s.table, m.id < s.next) :
    s.table.map (fun m => if m.id = s.next then { m with priv := true } else m) = s.table := by
  refine (map_congr_left fun m hm => ?_).trans (map_id' s.table)
  exact if_neg (Nat.ne_of_lt (h m hm))

/-- A mount on a free directory whose operation succeeds adds one entry. -/
lemma mountAt_added (h : Inv s) (hlock : s.locked = false)
    (hfind : mountpointFind dir s = some none) (hfree : ∀ m ∈ paths s, m ≠ [] → ¬ m <+: dir)
    (hne : dir ≠ []) (hop : fs = .ext4 ∧ ok = true) :
    mountAt device dir (some fs) ok s = some (.mounted, { s with
      next := s.next + 1, table := ⟨s.next, dir, fs, some device, true⟩ :: s.table }) := by
  rw [mountAt_eq hlock hfind hfree, if_neg hne, fsMount_of_ok (newMountpoint device dir fs s) hop]
  simp only [newMountpoint, map_cons, if_true]
  exact congrArg (fun t => some (Reply.mounted,
    (⟨⟨s.next, dir, fs, some device, true⟩ :: t, s.locked, s.next + 1⟩ : Sys))) (map_setPrivate h.id)

lemma mount_meets_iff (h : Inv s) :
    Meets s (.mount device dir fs ok) (serve s (.mount device dir fs ok)) ↔
      Careful s (.mount device dir fs ok) := by
  by_cases hlock : s.locked = false
  swap
  · have hnone : serve s (.mount device dir fs ok) = none := by
      rw [serve, mountAt, mountpointFind_locked (Bool.not_eq_false _ |>.mp hlock)]
      rfl
    refine iff_of_false ?_ fun hc => hlock hc.1
    rintro ⟨reply, s', hres, -⟩
    rw [hnone] at hres
    cases hres
  rcases mountpointFind_cases hlock dir with ⟨hfind, hfree⟩ | ⟨mp, hfind, hmp⟩
  · by_cases hne : dir = []
    · have hserve : serve s (.mount device dir fs ok) = none := by
        rw [serve, mountAt_eq hlock hfind hfree, if_pos hne]
      refine iff_of_false ?_ fun hc => hc.2.1 hne
      rintro ⟨reply, s', hres, -⟩
      rw [hserve] at hres
      cases hres
    have hdir : dir ∉ paths s := fun hdir => hfree dir hdir hne (prefix_refl dir)
    by_cases hop : fs = .ext4 ∧ ok = true
    · refine iff_of_true ?_ ⟨hlock, hne, fun _ => ⟨hop, hfree⟩⟩
      have hserve : serve s (.mount device dir fs ok) = _ := mountAt_added h hlock hfind hfree hne hop
      rw [hserve]
      exact ⟨_, _, rfl, nodup_cons.mpr ⟨hdir, h.nodup⟩, fun hc => absurd hc (by decide),
        fun _ => ⟨_, rfl, rfl⟩, fun hc => absurd rfl hc⟩
    · refine iff_of_false ?_ fun hc => hop (hc.2.2 hdir).1
      rintro ⟨reply, s', hres, -, -, -, hsame⟩
      have hserve : serve s (.mount device dir fs ok) = _ := mountAt_eq hlock hfind hfree
      rw [hserve, if_neg hne, fsMount_of_not (newMountpoint device dir fs s) hop] at hres
      obtain ⟨rfl, rfl⟩ := Prod.mk.inj (some.inj hres)
      have hlen := congrArg length (hsame (by decide))
      simp at hlen
  · have hserve : serve s (.mount device dir fs ok) = some (.alreadyUsed, s) := by
      rw [serve, mountAt, hfind]
      rfl
    have hmeets : Meets s (.mount device dir fs ok) (serve s (.mount device dir fs ok)) ↔
        dir ∈ paths s := by
      rw [hserve]
      constructor
      · rintro ⟨reply, s', hres, -, hused, -⟩
        cases hres
        exact hused rfl
      · intro hdir
        exact ⟨_, s, rfl, h.nodup, fun _ => hdir, fun hc => absurd hc (by decide), fun _ => rfl⟩
    rw [hmeets]
    constructor
    · intro hdir
      refine ⟨hlock, fun hnil => hmp.ne_nil ?_, fun hno => absurd hdir hno⟩
      rw [← prefix_nil, ← hnil]
      exact hmp.above
    · intro hc
      by_contra hdir
      exact (hc.2.2 hdir).2 _ (mem_map.mpr ⟨mp, hmp.mem, rfl⟩) hmp.ne_nil hmp.above

lemma fsUmount_of_ok (hpriv : mp.fs = .ext4 → mp.priv = true) (hop : mp.fs = .ext4 ∧ ok = true) :
    fsUmount ok mp = some 0 := by
  simp [fsUmount, hop.1, hop.2, hpriv hop.1]

lemma fsUmount_of_not (hpriv : mp.fs = .ext4 → mp.priv = true)
    (hop : ¬ (mp.fs = .ext4 ∧ ok = true)) : fsUmount ok mp = some (-1) := by
  unfold fsUmount
  cases hfs : mp.fs with
  | devfs => rfl
  | ext4 =>
    have hok : ok = false := Bool.eq_false_iff.mpr fun hok => hop ⟨hfs, hok⟩
    simp [hpriv hfs, hok]

/-- Distinct paths: the first entry with a path is the only one. -/
lemma eraseP_eq_filter {l : List Mountpoint} (h : (l.map (·.mountpoint)).Nodup) (path : List Char) :
    l.eraseP (fun mp => mp.mountpoint == path) = l.filter (·.mountpoint ≠ path) := by
  induction l with
  | nil => rfl
  | cons m l ih =>
    obtain ⟨hm, hl⟩ := nodup_cons.mp h
    by_cases hpath : m.mountpoint = path
    · have hnone : ∀ x ∈ l, x.mountpoint ≠ path := by
        intro x hx heq
        exact hm (mem_map.mpr ⟨x, hx, heq.trans hpath.symm⟩)
      rw [eraseP_cons_of_pos (by simpa using hpath), filter_cons_of_neg (by simpa using hpath),
        filter_eq_self.mpr fun x hx => decide_eq_true (hnone x hx)]
    · rw [eraseP_cons_of_neg (by simpa using hpath), filter_cons_of_pos (by simpa using hpath),
        ih hl]

lemma mountpointRemove_eq (h : Inv s) (hlock : s.locked = false) (hmem : mp ∈ s.table) :
    mountpointRemove mp.mountpoint s = some { s with
      table := s.table.filter (·.mountpoint ≠ mp.mountpoint), locked := true } := by
  have hany : (s.table.any fun m => m.mountpoint == mp.mountpoint) = true :=
    any_eq_true.mpr ⟨mp, hmem, beq_self_eq_true _⟩
  rw [mountpointRemove, if_neg (by rw [hlock]; exact Bool.false_ne_true), if_pos hany,
    eraseP_eq_filter h.nodup]

lemma umountAt_removed (h : Inv s) (hlock : s.locked = false)
    (hfind : mountpointFind path s = some (some mp)) (hmem : mp ∈ s.table)
    (hop : mp.fs = .ext4 ∧ ok = true) :
    umountAt path ok s = some (.umounted, { s with
      table := s.table.filter (·.mountpoint ≠ mp.mountpoint), locked := true }) := by
  simp only [umountAt, hfind, bind_eq_bind, bind_some,
    fsUmount_of_ok (h.priv mp hmem) hop, mountpointRemove_eq h hlock hmem]
  rfl

lemma umountAt_refused (h : Inv s) (hfind : mountpointFind path s = some (some mp))
    (hmem : mp ∈ s.table) (hop : ¬ (mp.fs = .ext4 ∧ ok = true)) :
    umountAt path ok s = some (.umountFailed, s) := by
  simp [umountAt, hfind, fsUmount_of_not (h.priv mp hmem) hop]

lemma nodup_filter (h : (paths s).Nodup) (p : Mountpoint → Bool) :
    ((s.table.filter p).map (·.mountpoint)).Nodup :=
  h.sublist (filter_sublist.map _)

lemma umount_meets_iff (h : Inv s) :
    Meets s (.umount path ok) (serve s (.umount path ok)) ↔ Careful s (.umount path ok) := by
  by_cases hlock : s.locked = false
  swap
  · have hnone : serve s (.umount path ok) = none := by
      rw [serve, umountAt, mountpointFind_locked (Bool.not_eq_false _ |>.mp hlock)]
      rfl
    refine iff_of_false ?_ fun hc => hlock hc.1
    rintro ⟨reply, s', hres, -⟩
    rw [hnone] at hres
    cases hres
  rcases mountpointFind_cases hlock path with ⟨hfind, hfree⟩ | ⟨mp, hfind, hmp⟩
  · have hserve : serve s (.umount path ok) = some (.notFound, s) := by
      rw [serve, umountAt, hfind]
      rfl
    rw [hserve, Careful]
    by_cases hpath : path ∈ paths s
    · have hnil : path = [] := not_not.mp fun hne => hfree path hpath hne (prefix_refl path)
      rw [if_pos hpath]
      refine iff_of_false ?_ fun hc => hc.2 hnil
      rintro ⟨reply, s', hres, -, -, hnot, -⟩
      cases hres
      exact hnot rfl hpath
    · rw [if_neg hpath]
      refine iff_of_true ?_ ⟨hlock, .inr fun m hm _ hne hpre => ?_⟩
      · exact ⟨_, s, rfl, h.nodup, fun hc => absurd hc (by decide), fun _ => hpath, fun _ => rfl⟩
      · exact absurd hpre (hfree _ (mem_map.mpr ⟨m, hm, rfl⟩) hne)
  · by_cases hop : mp.fs = .ext4 ∧ ok = true
    · have hserve : serve s (.umount path ok) = _ := umountAt_removed h hlock hfind hmp.mem hop
      rw [hserve, Careful]
      by_cases hpath : path ∈ paths s
      · have heq := hmp.eq_path hpath
        rw [if_pos hpath]
        refine iff_of_true ?_ ⟨hlock, heq ▸ hmp.ne_nil⟩
        exact ⟨_, _, rfl, nodup_filter h.nodup _, fun _ => ⟨hpath, by rw [heq]⟩,
          fun hc => absurd hc (by decide), fun hc => absurd rfl hc⟩
      · rw [if_neg hpath]
        refine iff_of_false ?_ fun hc => ?_
        · rintro ⟨reply, s', hres, -, humounted, -⟩
          obtain ⟨rfl, -⟩ := Prod.mk.inj (some.inj hres)
          exact hpath (humounted rfl).1
        · rcases hc.2 with hok | hhidden
          · rw [hop.2] at hok
            cases hok
          · obtain ⟨m, hm, hpre, hlt⟩ := hhidden mp hmp.mem hop.1 hmp.ne_nil hmp.above
            obtain ⟨x, hx, rfl⟩ := mem_map.mp hm
            exact absurd (hmp.longest x hx hpre) (Nat.not_le.mpr hlt)
    · have hserve : serve s (.umount path ok) = _ := umountAt_refused h hfind hmp.mem hop
      rw [hserve, Careful]
      refine iff_of_true ⟨_, s, rfl, h.nodup, fun hc => absurd hc (by decide),
        fun hc => absurd hc (by decide), fun _ => rfl⟩ ⟨hlock, ?_⟩
      by_cases hpath : path ∈ paths s
      · rw [if_pos hpath, ← hmp.eq_path hpath]
        exact hmp.ne_nil
      · rw [if_neg hpath]
        cases ok with
        | false => exact .inl rfl
        | true =>
          refine .inr fun m hm hext hne hpre => ⟨_, mem_map.mpr ⟨mp, hmp.mem, rfl⟩, hmp.above, ?_⟩
          refine Nat.lt_of_le_of_ne (hmp.longest m hm hpre) fun hlen => ?_
          -- two prefixes of one length are one mount point
          have hsame : m.mountpoint = mp.mountpoint :=
            (prefix_of_prefix_length_le hpre hmp.above (Nat.le_of_eq hlen)).eq_of_length hlen
          have hmm := inj_on_of_nodup_map h.nodup hm hmp.mem hsame
          exact hop ⟨hmm ▸ hext, rfl⟩

lemma meets_iff (h : Inv s) (r : Request) : Meets s r (serve s r) ↔ Careful s r := by
  cases r with
  | mount device dir fs ok => exact mount_meets_iff h
  | umount path ok => exact umount_meets_iff h

lemma Inv.added (h : Inv s) (hdir : dir ∉ paths s) :
    Inv { s with next := s.next + 1, table := ⟨s.next, dir, fs, some device, true⟩ :: s.table } := by
  refine ⟨nodup_cons.mpr ⟨hdir, h.nodup⟩, fun m hm hfs => ?_, fun m hm => ?_⟩
  · rcases mem_cons.mp hm with rfl | hm
    · rfl
    · exact h.priv m hm hfs
  · rcases mem_cons.mp hm with rfl | hm
    · exact Nat.lt_succ_self _
    · exact Nat.lt_succ_of_lt (h.id m hm)

lemma Inv.serve (h : Inv s) (hc : Careful s r) {reply : Reply}
    (hserve : Mount.serve s r = some (reply, s')) : Inv s' := by
  cases r with
  | mount device dir fs ok =>
    rcases mountpointFind_cases hc.1 dir with ⟨hfind, hfree⟩ | ⟨mp, hfind, hmp⟩
    · have hdir : dir ∉ paths s := fun hdir => hfree dir hdir hc.2.1 (prefix_refl dir)
      rw [Mount.serve, mountAt_added h hc.1 hfind hfree hc.2.1 (hc.2.2 hdir).1] at hserve
      obtain ⟨-, rfl⟩ := Prod.mk.inj (some.inj hserve)
      exact h.added hdir
    · rw [Mount.serve, mountAt, hfind] at hserve
      obtain ⟨-, rfl⟩ := Prod.mk.inj (some.inj hserve)
      exact h
  | umount path ok =>
    rcases mountpointFind_cases hc.1 path with ⟨hfind, -⟩ | ⟨mp, hfind, hmp⟩
    · rw [Mount.serve, umountAt, hfind] at hserve
      obtain ⟨-, rfl⟩ := Prod.mk.inj (some.inj hserve)
      exact h
    · by_cases hop : mp.fs = .ext4 ∧ ok = true
      · rw [Mount.serve, umountAt_removed h hc.1 hfind hmp.mem hop] at hserve
        obtain ⟨-, rfl⟩ := Prod.mk.inj (some.inj hserve)
        exact ⟨nodup_filter h.nodup _, fun m hm => h.priv m (mem_of_mem_filter hm),
          fun m hm => h.id m (mem_of_mem_filter hm)⟩
      · rw [Mount.serve, umountAt_refused h hfind hmp.mem hop] at hserve
        obtain ⟨-, rfl⟩ := Prod.mk.inj (some.inj hserve)
        exact h

end

/-- One call with a block device and a known file system. A kernel that has stopped stays where
it is. -/
def Step (E : Env) (s : Sys) (c : Call) (s' : Sys) : Prop :=
  (∃ r, Asks E c r) ∧ s' = ((exec E s c).map Prod.snd).getD s

lemma inv_start : Inv start := by
  refine ⟨by decide, by decide, by decide⟩

/-- The calls of a run do to the table what they should exactly when each of them is careful. -/
theorem mount_table_iff {E : Env} {ts : List (Transition Sys Call)} {s : Sys}
    (hr : Run (Step E) start ts s) :
    (∀ t ∈ ts, ∀ r, Asks E t.label r → Meets t.source r (exec E t.source t.label)) ↔
      ∀ t ∈ ts, ∀ r, Asks E t.label r → Careful t.source r := by
  have hexact : ∀ s c s', Inv s → Step E s c s' →
      ((∀ r, Asks E c r → Meets s r (exec E s c)) ↔ ∀ r, Asks E c r → Careful s r) := by
    intro s c s' h _
    refine forall_congr' fun r => forall_congr' fun hr => ?_
    rw [hr.exec_eq]
    exact meets_iff h r
  have hstep : ∀ s c s', Inv s → (∀ r, Asks E c r → Careful s r) → Step E s c s' → Inv s' := by
    rintro s c s' h hc ⟨⟨r, hasks⟩, rfl⟩
    rw [hasks.exec_eq]
    cases hserve : serve s r with
    | none => exact h
    | some x => exact h.serve (hc r hasks) hserve
  exact hr.forall_iff inv_start hstep hexact

/-! ## The entry of `/dev` -/

/-- `devfs` has no `umount` operation, and no other entry can get its path. -/
structure DevHeld (s : Sys) : Prop where
  mem : devEntry ∈ s.table
  only : ∀ mp ∈ s.table, mp.mountpoint = devEntry.mountpoint → mp = devEntry
  first : ∀ mp ∈ s.table, mp.id = devEntry.id → mp = devEntry
  next : 0 < s.next

section

variable {E : Env} {s s' : Sys} {reply : Reply}

lemma DevHeld.mountAt {device : Nat} {dir : List Char} {fs : Fs} {ok : Bool} (h : DevHeld s)
    (hmount : mountAt device dir (some fs) ok s = some (reply, s')) : DevHeld s' := by
  by_cases hlock : s.locked = false
  swap
  · rw [Mount.mountAt, mountpointFind_locked (Bool.not_eq_false _ |>.mp hlock)] at hmount
    cases hmount
  rcases mountpointFind_cases hlock dir with ⟨hfind, hfree⟩ | ⟨mp, hfind, -⟩
  swap
  · rw [Mount.mountAt, hfind] at hmount
    obtain ⟨-, rfl⟩ := Prod.mk.inj (some.inj hmount)
    exact h
  have hdir : dir ≠ devEntry.mountpoint := by
    rintro rfl
    exact hfree _ (mem_map.mpr ⟨devEntry, h.mem, rfl⟩) (by decide) (prefix_refl _)
  rw [mountAt_eq hlock hfind hfree] at hmount
  split at hmount
  · cases hmount
  have hadd : DevHeld
      { s with next := s.next + 1, table := newMountpoint device dir fs s :: s.table } := by
    refine ⟨mem_cons_of_mem _ h.mem, fun mp hmp hpath => ?_, fun mp hmp hid => ?_, Nat.succ_pos _⟩
    · rcases mem_cons.mp hmp with rfl | hmp
      · exact absurd hpath hdir
      · exact h.only mp hmp hpath
    · rcases mem_cons.mp hmp with rfl | hmp
      · exact absurd hid (Nat.ne_of_gt h.next)
      · exact h.first mp hmp hid
  by_cases hop : fs = .ext4 ∧ ok = true
  · rw [fsMount_of_ok (newMountpoint device dir fs s) hop] at hmount
    obtain ⟨-, rfl⟩ := Prod.mk.inj (some.inj hmount)
    have hid : ¬ devEntry.id = (newMountpoint device dir fs s).id := Nat.ne_of_lt h.next
    refine ⟨mem_map.mpr ⟨devEntry, hadd.mem, if_neg hid⟩, fun mp hmp hpath => ?_,
      fun mp hmp hfirst => ?_, hadd.next⟩
    · obtain ⟨m, hm, rfl⟩ := mem_map.mp hmp
      have hpath' : m.mountpoint = devEntry.mountpoint := by
        split at hpath <;> exact hpath
      rw [hadd.only m hm hpath', if_neg hid]
    · obtain ⟨m, hm, rfl⟩ := mem_map.mp hmp
      have hfirst' : m.id = devEntry.id := by
        split at hfirst <;> exact hfirst
      rw [hadd.first m hm hfirst', if_neg hid]
  · rw [fsMount_of_not (newMountpoint device dir fs s) hop] at hmount
    obtain ⟨-, rfl⟩ := Prod.mk.inj (some.inj hmount)
    exact hadd

lemma DevHeld.umountAt {path : List Char} {ok : Bool} (h : DevHeld s)
    (humount : umountAt path ok s = some (reply, s')) : DevHeld s' := by
  by_cases hlock : s.locked = false
  swap
  · rw [Mount.umountAt, mountpointFind_locked (Bool.not_eq_false _ |>.mp hlock)] at humount
    cases humount
  rcases mountpointFind_cases hlock path with ⟨hfind, -⟩ | ⟨mp, hfind, hmp⟩
  · rw [Mount.umountAt, hfind] at humount
    obtain ⟨-, rfl⟩ := Prod.mk.inj (some.inj humount)
    exact h
  simp only [Mount.umountAt, hfind, bind_eq_bind, bind_some] at humount
  obtain ⟨ret, hret, humount⟩ := bind_eq_some_iff.mp humount
  by_cases hneg : ret < 0
  · rw [if_pos hneg] at humount
    obtain ⟨-, rfl⟩ := Prod.mk.inj (some.inj humount)
    exact h
  · rw [if_neg hneg] at humount
    obtain ⟨s1, hremove, humount⟩ := bind_eq_some_iff.mp humount
    obtain ⟨-, rfl⟩ := Prod.mk.inj (some.inj humount)
    -- an entry that is given up is not the one of `/dev`
    have hne : mp.mountpoint ≠ devEntry.mountpoint := by
      intro hpath
      rw [h.only mp hmp.mem hpath] at hret
      cases hret
      exact hneg (by decide)
    unfold mountpointRemove at hremove
    rw [if_neg (by rw [hlock]; exact Bool.false_ne_true)] at hremove
    split at hremove
    · cases hremove
      refine ⟨?_, fun m hm => h.only m (mem_of_mem_eraseP hm),
        fun m hm => h.first m (mem_of_mem_eraseP hm), h.next⟩
      exact (mem_eraseP_of_neg (by simpa using Ne.symm hne)).mpr h.mem
    · cases hremove
      exact h

end

/-- The table always holds the entry of `/dev`. -/
lemma devHeld_of_run {E : Env} {ts : List (Transition Sys Call)} {s : Sys}
    (hr : Run (Step E) start ts s) : DevHeld s := by
  have hstart : DevHeld start := ⟨by decide, by decide, by decide, by decide⟩
  have hstep : ∀ s c s', DevHeld s → Step E s c s' → DevHeld s' := by
    rintro s c s' h ⟨⟨r, hasks⟩, rfl⟩
    rw [hasks.exec_eq]
    cases hserve : serve s r with
    | none => exact h
    | some x =>
      cases r with
      | mount device dir fs ok => exact h.mountAt hserve
      | umount path ok => exact h.umountAt hserve
  exact hr.invariant hstart hstep

def sda : List Char := ['/', 'd', 'e', 'v', '/', 's', 'd', 'a']

/-- One disk and no open descriptors. -/
def oneDisk : Env where
  blkdev := fun p => if p = sda then some 0 else none
  fPath := fun _ => none

def ext4Name : List Char := ['e', 'x', 't', '4']

/-- The first mount of the root. -/
theorem mount_table_root : ∃ ts s, Run (Step oneDisk) start ts s ∧ paths s = [['/'], ['/', 'd', 'e', 'v']] ∧
    ∀ t ∈ ts, ∀ r, Asks oneDisk t.label r → Meets t.source r (exec oneDisk t.source t.label) := by
  have hasks : Asks oneDisk (.kernelMount sda ['/'] ext4Name true) (.mount 0 ['/'] .ext4 true) :=
    .kernelMount (by decide) (by decide) (by decide)
  have hr : Run (Step oneDisk) start ([] ++ [⟨start, .kernelMount sda ['/'] ext4Name true, _⟩])
      (((exec oneDisk start (.kernelMount sda ['/'] ext4Name true)).map Prod.snd).getD start) :=
    Run.nil.snoc ⟨⟨_, hasks⟩, rfl⟩
  refine ⟨_, _, hr, by decide, (mount_table_iff hr).mpr ?_⟩
  intro t ht r hr'
  rw [nil_append, mem_singleton] at ht
  subst ht
  cases hr' with
  | kernelMount hdev hblk hfs =>
    cases hfs
    exact ⟨rfl, by decide, fun _ => ⟨⟨rfl, rfl⟩, by decide⟩⟩

/-- A directory whose name begins like `/dev` cannot be mounted on; a mount that fails leaves its
entry in the table; and `umount2` of a path below a mount point removes the mount point. -/
theorem mount_prefix_taken :
    exec oneDisk start (.mount ['/'] sda ['/', 'd', 'e', 'v', 'x'] ext4Name true) =
      some (.alreadyUsed, start) ∧ ['/', 'd', 'e', 'v', 'x'] ∉ paths start ∧
    (∃ s, exec oneDisk start (.mount ['/'] sda ['/', 'm'] ext4Name false) = some (.mountFailed, s) ∧
      paths s = [['/', 'm'], ['/', 'd', 'e', 'v']]) ∧
    ∃ s s', exec oneDisk start (.mount ['/'] sda ['/', 'm'] ext4Name true) = some (.mounted, s) ∧
      exec oneDisk s (.umount2 ['/'] ['/', 'm', '/', 'x'] true) = some (.umounted, s') ∧
      paths s' = [['/', 'd', 'e', 'v']] ∧
      exec oneDisk s' (.umount2 ['/'] ['/', 'd', 'e', 'v'] true) = none := by
  refine ⟨by decide, by decide, ⟨_, rfl, by decide⟩, _, _, rfl, rfl, by decide, by decide⟩

end Hana.Mount
