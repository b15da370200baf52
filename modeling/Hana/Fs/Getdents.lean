import Mathlib.Data.List.Perm.Basic
import Mathlib.Tactic.IntervalCases
import Hana.Fs.Mount

/-!
# Reading a directory

`sys_getdents64` and the operations of `devfs` and `ext4` under it. A record is written at a
position of the zeroed kernel buffer, so the character behind its name is the terminator.
`ext4_dir_entry_next` yields each entry once, and the cursor of an open directory is the list of
the entries that it has not yielded yet. The mount points are those of `Hana.Mount`.
-/

namespace Hana.Getdents

open Lib Hana.Mount List Option

/-- An entry of an ext4 directory, with `next_off` as it is after the entry. -/
structure Dentry where
  inode : Nat
  inodeType : Nat
  name : List Char
  nextOff : Int
  deriving Repr, DecidableEq

structure Device where
  name : List Char
  ino : Nat
  fileType : Nat
  deriving Repr, DecidableEq

/-- A `struct dirent` and where it stands in the buffer. -/
structure Rec where
  pos : Nat
  dIno : Nat
  dOff : Int
  dReclen : Nat
  dType : Nat
  dName : List Char
  deriving Repr, DecidableEq

def sizeofDirent : Nat := 24

/-- The offset of the flexible array `d_name`. -/
def offsetofName : Nat := 19

def sIfmt : Nat := 0o170000
def sIfblk : Nat := 0o060000
def sIfdir : Nat := 0o040000
def sIfchr : Nat := 0o020000

def ftDir : Nat := 2
def ftChrdev : Nat := 3
def ftBlkdev : Nat := 4

/-- `fs_ftype_to_dtype` -/
def fsFtypeToDtype (filetype : Nat) : Nat := [0, 8, 4, 2, 6, 1, 12, 10].getD filetype 0

/-- `fs_umode_to_ftype` -/
def fsUmodeToFtype (mode : Nat) : Nat :=
  [0, 5, 3, 0, 2, 0, 4, 0, 1, 0, 7, 0, 6, 0, 0, 0].getD ((mode &&& sIfmt) >>> 12) 0

/-- `fs_umode_to_dtype` -/
def fsUmodeToDtype (mode : Nat) : Nat := fsFtypeToDtype (fsUmodeToFtype mode)

/-- The size of the record for a name. -/
def recSize (name : List Char) : Nat := sizeofDirent + name.length + 1

/-- The kernel as far as directories go: the mount points, `devfs_list`, and the inode number and
the mode that `ext4_getattr` finds. -/
structure Kernel where
  mounts : Mount.Sys
  devices : List Device
  ext4Getattr : List Char → Option (Nat × Nat)

/-- An open file. `dir` says whether its inode is a directory. -/
structure File where
  fPath : List Char
  iMp : Mountpoint
  oDirectory : Bool
  dir : Bool
  rest : List Dentry
  deriving Repr, DecidableEq

/-- The loop of `devfs_getdents64`, which starts at the head of the list in every call. -/
def devfsLoop : List Device → Nat → Nat → List Rec
  | [], _, _ => []
  | device :: devices, pos, len =>
    let size := recSize device.name
    if len < size then []
    else ⟨pos, device.ino, 0, size % 2 ^ 16, fsFtypeToDtype device.fileType, device.name⟩ ::
      devfsLoop devices (pos + size) (len - size)

/-- The loop of `ext4_getdents64`, with the cursor it leaves. An entry that does not fit has been
taken from the cursor. -/
def ext4Loop : List Dentry → Nat → Nat → List Rec × List Dentry
  | [], _, _ => ([], [])
  | dentry :: rest, pos, len =>
    if dentry.inode = 0 then ext4Loop rest pos len
    else
      let size := recSize dentry.name
      if len < size then ([], rest)
      else
        let (recs, rest) := ext4Loop rest (pos + size) (len - size)
        (⟨pos, dentry.inode, dentry.nextOff, size % 2 ^ 16, fsFtypeToDtype dentry.inodeType,
          dentry.name⟩ :: recs, rest)

/-- `get_name_pos_from_path` -/
def getNamePosFromPath (path : List Char) : Int :=
  if path.take 4 ≠ ['/', 'd', 'e', 'v'] then -1
  else if path.length = 4 then 0
  else if path.drop 4 |>.head? |> (· ≠ some '/') then -1
  else
    let name := (path.drop 4).dropWhile (· == '/')
    if name.any (· == '/') then -1
    else if name = [] then 0
    else (path.length - name.length : Nat)

def devNameMaxLen : Nat := 64

/-- `devfs_getattr`: the inode number and the mode. -/
def devfsGetattr (K : Kernel) (path : List Char) : Option (Nat × Nat) :=
  let pos := getNamePosFromPath path
  if pos < 0 then none
  else if pos = 0 then some (1, sIfdir)
  else do
    let device ← K.devices.find? fun d =>
      (path.drop pos.toNat).take devNameMaxLen == d.name.take devNameMaxLen
    if device.fileType = ftBlkdev then some (device.ino, sIfblk)
    else if device.fileType = ftChrdev then some (device.ino, sIfchr)
    else none

def getattr (K : Kernel) (mp : Mountpoint) : Option (Nat × Nat) :=
  match mp.fs with
  | .devfs => devfsGetattr K mp.mountpoint
  | .ext4 => K.ext4Getattr mp.mountpoint

/-- The name under which a mount point is listed: what follows the common prefix of its path and
the path of the directory, unless that has a second component. -/
def mpName (fPath mountpoint : List Char) : Option (List Char) :=
  let posl := strMatchPrefix mountpoint fPath
  let name := (mountpoint.drop posl).dropWhile (· == '/')
  if ((name.dropWhile (· != '/')).dropWhile (· == '/')) ≠ [] then none else some name

/-- The record of a mount point, if it is listed in the directory. -/
def mpRecord (K : Kernel) (f : File) (pos : Nat) (mp : Mountpoint) : Option Rec :=
  if mp.id = f.iMp.id then none
  else do
    let name ← mpName f.fPath mp.mountpoint
    let (ino, mode) ← getattr K mp
    some ⟨pos, ino, 0, recSize name % 2 ^ 16, fsUmodeToDtype mode, name⟩

/-- The loop over the mount points. -/
def mpLoop (K : Kernel) (f : File) : List Mountpoint → Nat → Nat → List Rec
  | [], _, _ => []
  | mp :: mps, pos, len =>
    match mpRecord K f pos mp with
    | none => mpLoop K f mps pos len
    | some r =>
      let size := recSize r.dName
      if len < size then [] else r :: mpLoop K f mps (pos + size) (len - size)

def total (recs : List Rec) : Nat := (recs.map fun r => recSize r.dName).sum

/-- The operation of the file system, with the cursor it leaves. -/
def fsGetdents64 (K : Kernel) (f : File) (len : Nat) : Option (List Rec × List Dentry) :=
  if f.dir = false then none
  else match f.iMp.fs with
    | .devfs => some (devfsLoop K.devices 0 len, f.rest)
    | .ext4 => some (ext4Loop f.rest 0 len)

/-- `sys_getdents64` on an open file, with a buffer that can be allocated and written: the value
returned, the records, and the file. The iteration over the mount points takes their lock. -/
def sysGetdents64 (K : Kernel) (f : File) (len : Nat) : Option (Int × List Rec × File) :=
  if f.oDirectory = false then some (-1, [], f)
  else match fsGetdents64 K f len with
    | none => some (-1, [], f)
    | some (recs, rest) =>
      if K.mounts.locked then none
      else
        let recs := recs ++ mpLoop K f K.mounts.table (total recs) (len - total recs)
        some (total recs, recs, { f with rest := rest })

/-- The file after the first calls of a sequence, with buffers of the given lengths. -/
def after (K : Kernel) (f : File) (lens : Nat → Nat) : Nat → Option File
  | 0 => some f
  | n + 1 => do
    let f ← after K f lens n
    let (_, _, f) ← sysGetdents64 K f (lens n)
    some f

/-- What the call with a number returns. -/
def reply (K : Kernel) (f : File) (lens : Nat → Nat) (n : Nat) : Option (Int × List Rec) := do
  let f ← after K f lens n
  let (ret, recs, _) ← sysGetdents64 K f (lens n)
  some (ret, recs)

/-- The names in a directory. -/
def names (K : Kernel) (f : File) : List (List Char) :=
  match f.iMp.fs with
  | .devfs => K.devices.map (·.name)
  | .ext4 => (f.rest.filter (·.inode ≠ 0)).map (·.name)

/-- The records follow each other, and each name ends inside of its record. -/
inductive Laid : Nat → List Rec → Prop
  | nil (pos : Nat) : Laid pos []
  | cons {pos : Nat} {r : Rec} {recs : List Rec} (hpos : r.pos = pos)
      (hname : offsetofName + r.dName.length < r.dReclen) (htail : Laid (pos + r.dReclen) recs) :
      Laid pos (r :: recs)

/-- The calls list the directory: their records are well formed and have every name once, and then
a call returns zero. -/
def Enumerates (K : Kernel) (f : File) (lens : Nat → Nat) : Prop :=
  ∃ n, ∃ recs : List (List Rec), reply K f lens n = some (0, []) ∧ recs.length = n ∧
    (∀ k (r : List Rec), recs[k]? = some r →
      (∃ ret, reply K f lens k = some (ret, r)) ∧ Laid 0 r) ∧
    (recs.flatten.map (·.dName)).Perm (names K f)

variable {pos : Nat} {mp : Mountpoint} {mps : List Mountpoint}

section

variable {K : Kernel} {f f' : File} {lens : Nat → Nat} {n len : Nat} {ret : Int} {recs : List Rec}

/-! ## Layout -/

/-- Every record has the length that it says: names are shorter than a path. -/
def Named (K : Kernel) (f : File) : Prop :=
  (∀ d ∈ K.devices, recSize d.name < 2 ^ 16) ∧ (∀ d ∈ f.rest, recSize d.name < 2 ^ 16) ∧
    ∀ mp ∈ K.mounts.table, recSize mp.mountpoint < 2 ^ 16

lemma laid_append {recs recs' : List Rec} (h : Laid pos recs)
    (hsize : ∀ r ∈ recs, r.dReclen = recSize r.dName) (h' : Laid (pos + total recs) recs') :
    Laid pos (recs ++ recs') := by
  induction h with
  | nil pos => exact h'
  | @cons pos r recs hpos hname htail ih =>
    refine .cons hpos hname (ih (fun r hr => hsize r (mem_cons_of_mem _ hr)) ?_)
    rw [hsize r mem_cons_self, add_assoc]
    exact h'

/-- A record made for a name that is not too long. -/
lemma reclen_of_lt {name : List Char} (h : recSize name < 2 ^ 16) :
    recSize name % 2 ^ 16 = recSize name ∧ offsetofName + name.length < recSize name := by
  refine ⟨Nat.mod_eq_of_lt h, ?_⟩
  show 19 + name.length < 24 + name.length + 1
  omega

lemma devfsLoop_laid {devices : List Device} (h : ∀ d ∈ devices, recSize d.name < 2 ^ 16)
    (pos len : Nat) : Laid pos (devfsLoop devices pos len) ∧
      ∀ r ∈ devfsLoop devices pos len, r.dReclen = recSize r.dName := by
  induction devices generalizing pos len with
  | nil => exact ⟨.nil pos, nofun⟩
  | cons d devices ih =>
    simp only [devfsLoop]
    split
    · exact ⟨.nil pos, nofun⟩
    · obtain ⟨hlen, hname⟩ := reclen_of_lt (h d mem_cons_self)
      obtain ⟨htail, hall⟩ := ih (fun d hd => h d (mem_cons_of_mem _ hd)) (pos + recSize d.name)
        (len - recSize d.name)
      rw [hlen]
      refine ⟨.cons rfl hname htail, fun r hr => ?_⟩
      rcases mem_cons.mp hr with rfl | hr
      · rfl
      · exact hall r hr

lemma ext4Loop_laid {rest : List Dentry} (h : ∀ d ∈ rest, recSize d.name < 2 ^ 16) (pos len : Nat) :
    Laid pos (ext4Loop rest pos len).1 ∧
      ∀ r ∈ (ext4Loop rest pos len).1, r.dReclen = recSize r.dName := by
  induction rest generalizing pos len with
  | nil => exact ⟨.nil pos, nofun⟩
  | cons d rest ih =>
    have ih := ih fun d hd => h d (mem_cons_of_mem _ hd)
    simp only [ext4Loop]
    split
    · exact ih pos len
    · split
      · exact ⟨.nil pos, nofun⟩
      · obtain ⟨hlen, hname⟩ := reclen_of_lt (h d mem_cons_self)
        obtain ⟨htail, hall⟩ := ih (pos + recSize d.name) (len - recSize d.name)
        rw [hlen]
        refine ⟨.cons rfl hname htail, fun r hr => ?_⟩
        rcases mem_cons.mp hr with rfl | hr
        · rfl
        · exact hall r hr

lemma mpName_length {fPath mountpoint name : List Char} (h : mpName fPath mountpoint = some name) :
    name.length ≤ mountpoint.length := by
  simp only [mpName] at h
  split at h
  · cases h
  · cases h
    refine le_trans (dropWhile_suffix _).length_le ?_
    rw [length_drop]
    exact Nat.sub_le _ _

lemma mpRecord_cases {r : Rec} (h : mpRecord K f pos mp = some r) :
    r.pos = pos ∧ r.dReclen = recSize r.dName % 2 ^ 16 ∧ mpName f.fPath mp.mountpoint = some r.dName := by
  unfold mpRecord at h
  split at h
  · cases h
  · obtain ⟨name, hname, h⟩ := bind_eq_some_iff.mp h
    obtain ⟨⟨ino, mode⟩, -, h⟩ := bind_eq_some_iff.mp h
    cases h
    exact ⟨rfl, rfl, hname⟩

lemma mpLoop_laid (h : ∀ mp ∈ mps, recSize mp.mountpoint < 2 ^ 16)
    (pos len : Nat) : Laid pos (mpLoop K f mps pos len) := by
  induction mps generalizing pos len with
  | nil => exact .nil pos
  | cons mp mps ih =>
    have ih := ih fun mp hmp => h mp (mem_cons_of_mem _ hmp)
    unfold mpLoop
    cases hrec : mpRecord K f pos mp with
    | none => exact ih pos len
    | some r =>
      obtain ⟨hpos, hreclen, hname⟩ := mpRecord_cases hrec
      have hshort : recSize r.dName < 2 ^ 16 := by
        refine lt_of_le_of_lt ?_ (h mp mem_cons_self)
        exact Nat.succ_le_succ (Nat.add_le_add_left (mpName_length hname) _)
      obtain ⟨hlen, hends⟩ := reclen_of_lt hshort
      rw [hlen] at hreclen
      dsimp only
      split
      · exact .nil pos
      · refine .cons hpos (by rwa [hreclen]) ?_
        rw [hreclen]
        exact ih _ _

/-- Whatever a call returns is well formed. -/
lemma sysGetdents64_laid (h : Named K f) (hcall : sysGetdents64 K f len = some (ret, recs, f')) :
    Laid 0 recs := by
  have hfs : ∀ recs0 rest, fsGetdents64 K f len = some (recs0, rest) →
      Laid 0 recs0 ∧ ∀ r ∈ recs0, r.dReclen = recSize r.dName := by
    intro recs0 rest hop
    unfold fsGetdents64 at hop
    split at hop
    · cases hop
    · split at hop
      · cases hop
        exact devfsLoop_laid h.1 0 len
      · have heq := some.inj hop
        have hlaid := ext4Loop_laid h.2.1 0 len
        rwa [heq] at hlaid
  unfold sysGetdents64 at hcall
  split at hcall
  · cases hcall
    exact .nil 0
  · split at hcall
    · cases hcall
      exact .nil 0
    next recs0 rest hop =>
      split at hcall
      · cases hcall
      · cases hcall
        obtain ⟨hlaid, hsize⟩ := hfs recs0 rest hop
        refine laid_append hlaid hsize ?_
        rw [zero_add]
        exact mpLoop_laid h.2.2 _ _

/-! ## No call returns zero -/

/-- The buffer has room for any one record of the directory, and for that of any mount point. -/
def Fits (K : Kernel) (f : File) (len : Nat) : Prop :=
  (∀ name ∈ names K f, recSize name ≤ len) ∧
    ∀ mp ∈ K.mounts.table, ∀ name, mpName f.fPath mp.mountpoint = some name → recSize name ≤ len

lemma recSize_pos (name : List Char) : 0 < recSize name := Nat.succ_pos _

lemma total_pos {recs : List Rec} (h : recs ≠ []) : 0 < total recs := by
  cases recs with
  | nil => exact absurd rfl h
  | cons r recs =>
    exact lt_of_lt_of_le (recSize_pos _) (Nat.le_add_right _ _)

lemma mpLoop_ne_nil (hmem : mp ∈ mps) (hrec : (mpRecord K f pos mp).isSome)
    (hfits : ∀ mp ∈ mps, ∀ name, mpName f.fPath mp.mountpoint = some name → recSize name ≤ len) :
    mpLoop K f mps pos len ≠ [] := by
  induction mps with
  | nil => cases hmem
  | cons m mps ih =>
    unfold mpLoop
    cases hm : mpRecord K f pos m with
    | none =>
      refine ih ?_ fun mp hmp => hfits mp (mem_cons_of_mem _ hmp)
      refine (mem_cons.mp hmem).resolve_left ?_
      rintro rfl
      rw [hm] at hrec
      cases hrec
    | some r =>
      have hroom := hfits m mem_cons_self _ (mpRecord_cases hm).2.2
      dsimp only
      rw [if_neg (not_lt.mpr hroom)]
      exact cons_ne_nil _ _

lemma strMatchPrefix_le (str pre : List Char) : strMatchPrefix str pre ≤ str.length := by
  induction str generalizing pre with
  | nil => exact Nat.le_refl 0
  | cons c str ih =>
    cases pre with
    | nil => exact Nat.zero_le _
    | cons d pre =>
      unfold strMatchPrefix
      split
      · exact Nat.succ_le_succ (ih pre)
      · exact Nat.zero_le _

/-- Every directory outside of `/dev` lists `/dev`, whatever its path is. -/
lemma mpRecord_dev (hid : f.iMp.id ≠ 0) (pos : Nat) : (mpRecord K f pos devEntry).isSome := by
  have hname : ∃ name, mpName f.fPath devEntry.mountpoint = some name := by
    unfold mpName
    have hle := strMatchPrefix_le devEntry.mountpoint f.fPath
    generalize strMatchPrefix devEntry.mountpoint f.fPath = posl at hle
    have hle' : posl ≤ 4 := hle
    interval_cases posl <;> exact ⟨_, rfl⟩
  obtain ⟨name, hname⟩ := hname
  have hattr : getattr K devEntry = some (1, sIfdir) := rfl
  have hother : devEntry.id ≠ f.iMp.id := Ne.symm hid
  rw [mpRecord, if_neg hother, hname, hattr]
  rfl

/-- The mount table at boot time and after it, and a list of devices that is not empty. -/
structure Booted (K : Kernel) : Prop where
  dev : DevHeld K.mounts
  devices : K.devices ≠ []

lemma sysGetdents64_ne_zero (hK : Booted K) (hmp : f.iMp ∈ K.mounts.table) (hfits : Fits K f len)
    (hcall : sysGetdents64 K f len = some (ret, recs, f')) : ret ≠ 0 := by
  unfold sysGetdents64 at hcall
  split at hcall
  · cases hcall
    decide
  · split at hcall
    · cases hcall
      decide
    next recs0 rest hop =>
      split at hcall
      · cases hcall
      · obtain ⟨rfl, -, -⟩ := hcall
        refine Int.ne_of_gt (Int.natCast_pos.mpr (total_pos fun hnil => ?_))
        obtain ⟨hfs, hrest⟩ := append_eq_nil_iff.mp hnil
        rw [hfs] at hrest
        unfold fsGetdents64 at hop
        split at hop
        · cases hop
        · cases hkind : f.iMp.fs with
          | devfs =>
            -- the first device fits
            rw [hkind] at hop
            obtain ⟨hdev, -⟩ := Prod.mk.inj (some.inj hop)
            obtain ⟨d, ds, hds⟩ := exists_cons_of_ne_nil hK.devices
            have hroom : recSize d.name ≤ len := by
              refine hfits.1 d.name ?_
              rw [names, hkind, hds]
              exact mem_cons_self
            rw [hds, devfsLoop, if_neg (not_lt.mpr hroom), hfs] at hdev
            cases hdev
          | ext4 =>
            have hid : f.iMp.id ≠ 0 := by
              intro hzero
              rw [hK.dev.first f.iMp hmp hzero] at hkind
              cases hkind
            exact mpLoop_ne_nil hK.dev.mem (mpRecord_dev hid _) hfits.2 hrest

lemma ext4Loop_suffix (rest : List Dentry) (pos len : Nat) :
    (ext4Loop rest pos len).2 <:+ rest := by
  induction rest generalizing pos len with
  | nil => exact suffix_refl []
  | cons d rest ih =>
    simp only [ext4Loop]
    split
    · exact (ih pos len).trans (suffix_cons d rest)
    · split
      · exact suffix_cons d rest
      · exact (ih _ _).trans (suffix_cons d rest)

/-- A call moves the cursor forward and leaves the rest of the file alone. -/
lemma sysGetdents64_file (hcall : sysGetdents64 K f len = some (ret, recs, f')) :
    f'.iMp = f.iMp ∧ f'.fPath = f.fPath ∧ f'.rest <:+ f.rest := by
  unfold sysGetdents64 at hcall
  split at hcall
  · cases hcall
    exact ⟨rfl, rfl, suffix_refl _⟩
  · split at hcall
    · cases hcall
      exact ⟨rfl, rfl, suffix_refl _⟩
    next recs0 rest hop =>
      split at hcall
      · cases hcall
      · cases hcall
        refine ⟨rfl, rfl, ?_⟩
        unfold fsGetdents64 at hop
        split at hop
        · cases hop
        · split at hop
          · cases hop
            exact suffix_refl _
          · have heq : (ext4Loop f.rest 0 len).2 = rest := congrArg Prod.snd (some.inj hop)
            rw [← heq]
            exact ext4Loop_suffix f.rest 0 len

lemma after_file (h : after K f lens n = some f') :
    f'.iMp = f.iMp ∧ f'.fPath = f.fPath ∧ f'.rest <:+ f.rest := by
  induction n generalizing f' with
  | zero =>
    cases h
    exact ⟨rfl, rfl, suffix_refl _⟩
  | succ n ih =>
    obtain ⟨f1, hafter, h⟩ := bind_eq_some_iff.mp h
    obtain ⟨⟨ret, recs, f2⟩, hcall, h⟩ := bind_eq_some_iff.mp h
    cases h
    obtain ⟨hmp, hpath, hrest⟩ := ih hafter
    obtain ⟨hmp', hpath', hrest'⟩ := sysGetdents64_file hcall
    exact ⟨hmp'.trans hmp, hpath'.trans hpath, hrest'.trans hrest⟩

/-- Whatever the calls on a directory report is a sequence of records one behind the other, each
with its name in it. -/
theorem replies_laid (h : Named K f) (hreply : reply K f lens n = some (ret, recs)) : Laid 0 recs := by
  obtain ⟨f1, hafter, hreply⟩ := bind_eq_some_iff.mp hreply
  obtain ⟨⟨ret, recs, f2⟩, hcall, heq⟩ := bind_eq_some_iff.mp hreply
  cases heq
  have hrest := (after_file hafter).2.2
  exact sysGetdents64_laid ⟨h.1, fun d hd => h.2.1 d (hrest.subset hd), h.2.2⟩ hcall

lemma Fits.mono (h : Fits K f len) (hmp : f'.iMp = f.iMp) (hpath : f'.fPath = f.fPath)
    (hrest : f'.rest <:+ f.rest) : Fits K f' len := by
  refine ⟨fun name hname => h.1 name ?_, by rw [hpath]; exact h.2⟩
  unfold names at hname ⊢
  rw [hmp] at hname
  split at hname
  · exact hname
  · obtain ⟨d, hd, rfl⟩ := mem_map.mp hname
    obtain ⟨hd, hne⟩ := mem_filter.mp hd
    exact mem_map.mpr ⟨d, mem_filter.mpr ⟨hrest.subset hd, hne⟩, rfl⟩

end

/-- With buffers that hold any one record, the calls on a directory never come to an end: `devfs`
starts again in every call, and every call on an ext4 directory lists `/dev`. -/
theorem listing_never_ends {E : Env} {ms : List (Transition Mount.Sys Mount.Call)} {K : Kernel}
    {f : File} {lens : Nat → Nat} (hr : Run (Mount.Step E) Mount.start ms K.mounts)
    (hdevices : K.devices ≠ []) (hmp : f.iMp ∈ K.mounts.table) (hlens : ∀ n, Fits K f (lens n)) :
    ¬ Enumerates K f lens := by
  rintro ⟨n, recs, hreply, -⟩
  obtain ⟨f1, hafter, hreply⟩ := bind_eq_some_iff.mp hreply
  obtain ⟨⟨ret, recs1, f2⟩, hcall, hreply⟩ := bind_eq_some_iff.mp hreply
  obtain ⟨hmp1, hpath, hrest⟩ := after_file hafter
  have hne := sysGetdents64_ne_zero ⟨devHeld_of_run hr, hdevices⟩ (hmp1 ▸ hmp)
    ((hlens n).mono hmp1 hpath hrest) hcall
  exact hne (congrArg Prod.fst (some.inj hreply))

/-- The root of an ext4 file system, mounted over the table of boot time. -/
def rootEntry : Mountpoint := ⟨1, ['/'], .ext4, some 0, true⟩

def smallKernel : Kernel where
  mounts := ⟨[rootEntry, devEntry], false, 2⟩
  devices := [⟨['s', 't', 'd', 'i', 'n'], 0, ftChrdev⟩]
  ext4Getattr := fun _ => none

/-- An open root directory with three entries. -/
def rootDir : File where
  fPath := ['/']
  iMp := rootEntry
  oDirectory := true
  dir := true
  rest := [⟨2, ftDir, ['.'], 12⟩, ⟨2, ftDir, ['.', '.'], 24⟩, ⟨11, 1, ['a'], 1024⟩]

/-- The calls on the root directory do not list it. -/
theorem listing_root_never_ends : smallKernel.devices ≠ [] ∧ rootDir.iMp ∈ smallKernel.mounts.table ∧
    ¬ Enumerates smallKernel rootDir fun _ => 64 := by
  have hasks : Asks oneDisk (.kernelMount sda ['/'] ext4Name true) (.mount 0 ['/'] .ext4 true) :=
    .kernelMount (by decide) (by decide) (by decide)
  have hr : Run (Mount.Step oneDisk) Mount.start
      ([] ++ [⟨Mount.start, .kernelMount sda ['/'] ext4Name true, _⟩]) smallKernel.mounts :=
    Run.nil.snoc ⟨⟨_, hasks⟩, rfl⟩
  have hfits : Fits smallKernel rootDir 64 := by
    refine ⟨by decide, fun mp hmp name hname => ?_⟩
    have hlen := mpName_length hname
    have hall : ∀ mp ∈ smallKernel.mounts.table, mp.mountpoint.length ≤ 4 := by decide
    have hmp := hall mp hmp
    show 24 + name.length + 1 ≤ 64
    omega
  exact ⟨by decide, by decide, listing_never_ends hr (by decide) (by decide) fun _ => hfits⟩

/-- With buffers of 64 bytes the entry `a` is lost, and `dev` is listed again and again; a second
call on `/dev` lists it anew. -/
theorem listing_loses_entry :
    (reply smallKernel rootDir (fun _ => 64) 0).map (fun x => (x.1, x.2.map (·.dName))) =
      some (53, [['.'], ['.', '.']]) ∧
    (reply smallKernel rootDir (fun _ => 64) 1).map (fun x => (x.1, x.2.map (·.dName))) =
      some (28, [['d', 'e', 'v']]) ∧
    (reply smallKernel rootDir (fun _ => 64) 2).map (fun x => (x.1, x.2.map (·.dName))) =
      some (28, [['d', 'e', 'v']]) ∧
    (reply smallKernel { rootDir with iMp := devEntry, fPath := devEntry.mountpoint }
      (fun _ => 64) 1).map (fun x => (x.1, x.2.map (·.dName))) =
      some (30, [['s', 't', 'd', 'i', 'n']]) := by
  decide

/-- The first call on the root directory. -/
theorem replies_laid_root : ∃ ret recs, reply smallKernel rootDir (fun _ => 200) 0 = some (ret, recs) ∧
    recs.length = 4 ∧ Laid 0 recs := by
  have hnamed : Named smallKernel rootDir := by
    unfold Named
    decide
  have hreply : reply smallKernel rootDir (fun _ => 200) 0 = some (_, _) := rfl
  exact ⟨_, _, hreply, by decide, replies_laid hnamed hreply⟩

end Hana.Getdents
