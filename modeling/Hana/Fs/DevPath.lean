import Mathlib.Tactic.Common

/-!
# The paths of devices

`get_name_pos_from_path` and `devfs_get_by_path` of `fs/devfs/devfs.c`. A pointer into a string is
the list of the characters from there on, with a NUL behind them. A loop that goes on to the next
character does so on a character that is not the NUL, so that the NUL is the last one that is read.
-/

namespace Hana.Devfs

open List Option

def strncmp : (s1 s2 : List Char) → (n : Nat) → Int
  | _, _, 0 => 0
  | c1 :: s1, c2 :: s2, n + 1 =>
    if c1 = c2 then strncmp s1 s2 n else (c1.toNat : Int) - c2.toNat
  | s1, s2, _ + 1 => ((s1.headD '\x00').toNat : Int) - (s2.headD '\x00').toNat

def dev : List Char := ['/', 'd', 'e', 'v']

/-- The character at `i`, which is the NUL at the length; there is nothing to read behind it. -/
def charAt (path : List Char) (i : Nat) : Option Char := (path ++ ['\x00'])[i]?

/-- The loop that passes the slashes; `n` is `len - pos`. -/
def skipSlashes (path : List Char) : (n pos : Nat) → Option Nat
  | 0, pos => some pos
  | n + 1, pos => do
    if (← charAt path pos) = '/' then skipSlashes path n (pos + 1) else some pos

/-- The loop that looks for a slash in the name. -/
def hasSlash (path : List Char) : (n pos : Nat) → Option Bool
  | 0, _ => some false
  | n + 1, pos => do
    if (← charAt path pos) = '/' then some true else hasSlash path n (pos + 1)

def getNamePosFromPath (path : List Char) : Option Int := do
  if strncmp path dev 4 ≠ 0 then return -1
  let len := path.length
  if len = 4 then return 0
  if (← charAt path 4) ≠ '/' then return -1
  let ret ← skipSlashes path (len - 4) 4
  if ← hasSlash path (len - ret) ret then return -1
  if ret = len then return 0
  return ret

def devNameMaxLen : Nat := 64

/-- The first device of the list with this name. -/
def devfsGetByName (devices : List (List Char)) (name : List Char) : Option (List Char) :=
  devices.find? fun device => strncmp name device devNameMaxLen = 0

def devfsGetByPath (devices : List (List Char)) (path : List Char) : Option (Option (List Char)) := do
  let pos ← getNamePosFromPath path
  if pos ≤ 0 then return none
  return devfsGetByName devices (path.drop pos.toNat)

/-- `/dev` and slashes. -/
def IsDir (path : List Char) : Prop := ∃ k, path = dev ++ replicate k '/'

/-- `/dev`, slashes and a name at `pos`. -/
def IsDevice (path : List Char) (pos : Nat) : Prop :=
  ∃ k name, 0 < k ∧ name ≠ [] ∧ '/' ∉ name ∧ path = dev ++ (replicate k '/' ++ name) ∧ pos = 4 + k

/-- What the result says about the path. -/
structure Accepts (path : List Char) (r : Int) : Prop where
  dir : r = 0 ↔ IsDir path
  device : ∀ pos : Nat, 0 < pos → (r = pos ↔ IsDevice path pos)
  refused : r = -1 ∨ 0 ≤ r

section

variable {s rest name path : List Char} {k : Nat}

lemma strncmp_eq_zero_iff (hs : '\x00' ∉ s) : strncmp path s s.length = 0 ↔ s <+: path := by
  induction s generalizing path with
  | nil => simp [strncmp]
  | cons c s ih =>
    have hc : c ≠ '\x00' := fun heq => hs (heq ▸ mem_cons_self)
    cases path with
    | nil =>
      have hne : ('\x00'.toNat : Int) - c.toNat ≠ 0 := fun h0 => hc (Char.toNat_inj.mp (by omega))
      simpa [strncmp] using hne
    | cons d path =>
      rw [length_cons, strncmp, cons_prefix_cons]
      by_cases hdc : d = c
      · rw [if_pos hdc, ih fun h => hs (mem_cons_of_mem _ h), and_iff_right hdc.symm]
      · have hne : (d.toNat : Int) - c.toNat ≠ 0 := fun h0 => hdc (Char.toNat_inj.mp (by omega))
        simp [if_neg hdc, hne, Ne.symm hdc]

/-- The slashes and what follows them. -/
lemma exists_slashes (rest : List Char) :
    ∃ k name, rest = replicate k '/' ++ name ∧ name.head? ≠ some '/' := by
  induction rest with
  | nil => exact ⟨0, [], rfl, nofun⟩
  | cons c rest ih =>
    by_cases hc : c = '/'
    · obtain ⟨k, name, hrest, hname⟩ := ih
      exact ⟨k + 1, name, by rw [hc, hrest]; rfl, hname⟩
    · exact ⟨0, c :: rest, rfl, by simpa using hc⟩

lemma slashes_unique {k' : Nat} {name' : List Char}
    (h : replicate k '/' ++ name = replicate k' '/' ++ name') (hn : name.head? ≠ some '/')
    (hn' : name'.head? ≠ some '/') : k = k' ∧ name = name' := by
  induction k generalizing k' with
  | zero =>
    cases k' with
    | zero => exact ⟨rfl, h⟩
    | succ k' => exact absurd (congrArg head? h) hn
  | succ k ih =>
    cases k' with
    | zero => exact absurd (congrArg head? h).symm hn'
    | succ k' =>
      obtain ⟨rfl, hname⟩ := ih (List.cons.inj h).2
      exact ⟨rfl, hname⟩

lemma charAt_of_drop {i : Nat} {c : Char} (h : path.drop i = c :: rest) : charAt path i = some c := by
  have hi : i < path.length := by
    by_contra hle
    rw [drop_eq_nil_of_le (Nat.not_lt.mp hle)] at h
    exact absurd h nofun
  rw [charAt, getElem?_append_left hi, ← head?_drop, h]
  rfl

lemma skipSlashes_eq {pos : Nat} (h : path.drop pos = replicate k '/' ++ name)
    (hname : name.head? ≠ some '/') :
    skipSlashes path (k + name.length) pos = some (pos + k) := by
  induction k generalizing pos with
  | zero =>
    cases name with
    | nil => rfl
    | cons c name =>
      have hc : c ≠ '/' := fun heq => hname (heq ▸ rfl)
      simp [skipSlashes, charAt_of_drop h, hc]
  | succ k ih =>
    have hnext : path.drop (pos + 1) = replicate k '/' ++ name := by
      rw [← drop_drop, h]
      rfl
    rw [Nat.add_right_comm, skipSlashes, charAt_of_drop h, bind_eq_bind, bind_some,
      if_pos rfl, ih hnext, Nat.add_right_comm]
    rfl

lemma hasSlash_eq {pos : Nat} (h : path.drop pos = name) :
    hasSlash path name.length pos = some (decide ('/' ∈ name)) := by
  induction name generalizing pos with
  | nil => rfl
  | cons c name ih =>
    have hnext : path.drop (pos + 1) = name := by
      rw [← drop_drop, h]
      rfl
    rw [length_cons, hasSlash, charAt_of_drop h, bind_eq_bind, bind_some, ih hnext]
    by_cases hc : c = '/'
    · simp [hc]
    · simp [hc, Ne.symm hc]

/-- The result for `/dev`, slashes and what follows them. -/
lemma getNamePosFromPath_eq (hname : name.head? ≠ some '/') :
    getNamePosFromPath (dev ++ (replicate k '/' ++ name)) =
      some (if name = [] then 0 else if k = 0 ∨ '/' ∈ name then -1 else ↑(4 + k)) := by
  generalize h : dev ++ (replicate k '/' ++ name) = path
  have hdev : strncmp path dev 4 = 0 := (strncmp_eq_zero_iff (by decide)).mpr ⟨_, h⟩
  have hlen : path.length = 4 + (k + name.length) := by
    rw [← h, length_append, length_append, length_replicate]
    rfl
  have hfour : path.drop 4 = replicate k '/' ++ name := by
    rw [← h]
    rfl
  have hdrop : path.drop (4 + k) = name := by
    rw [← drop_drop, hfour]
    simp
  unfold getNamePosFromPath
  simp only [hdev, hlen, ne_eq, not_true_eq_false, if_false]
  by_cases hk : k = 0
  · subst hk
    cases name with
    | nil => rfl
    | cons c name =>
      have hc : c ≠ '/' := fun heq => hname (heq ▸ rfl)
      simp [charAt_of_drop hfour, hc]
  · have hslash : charAt path 4 = some '/' := by
      obtain ⟨k, rfl⟩ := Nat.exists_eq_succ_of_ne_zero hk
      exact charAt_of_drop hfour
    have hskip := skipSlashes_eq hfour hname
    have hhas := hasSlash_eq hdrop
    rw [Nat.add_sub_cancel_left, hslash]
    simp only [bind_eq_bind, bind_some, hskip, ← Nat.add_assoc, Nat.add_sub_cancel_left, hhas]
    have hfar : 4 + k + name.length ≠ 4 := by omega
    by_cases hnil : name = []
    · simp [hnil, hk]
    · by_cases hin : '/' ∈ name
      · simp [hnil, hin, hfar]
      · simp [hnil, hin, hk, hfar]

lemma isDir_iff (hname : name.head? ≠ some '/') :
    IsDir (dev ++ (replicate k '/' ++ name)) ↔ name = [] := by
  constructor
  · rintro ⟨k', hk'⟩
    rw [← append_nil (replicate k' '/')] at hk'
    exact (slashes_unique (append_cancel_left hk') hname nofun).2
  · rintro rfl
    exact ⟨k, by rw [append_nil]⟩

lemma isDevice_iff (hname : name.head? ≠ some '/') {pos : Nat} :
    IsDevice (dev ++ (replicate k '/' ++ name)) pos ↔
      (0 < k ∧ name ≠ [] ∧ '/' ∉ name) ∧ pos = 4 + k := by
  constructor
  · rintro ⟨k', name', hk', hne, hno, hpath, rfl⟩
    have hhead : name'.head? ≠ some '/' := fun hh => hno (mem_of_mem_head? hh)
    obtain ⟨rfl, rfl⟩ := slashes_unique (append_cancel_left hpath) hname hhead
    exact ⟨⟨hk', hne, hno⟩, rfl⟩
  · rintro ⟨⟨hk, hne, hno⟩, rfl⟩
    exact ⟨k, name, hk, hne, hno, rfl, rfl⟩

/-- Nought is returned for `/dev` with slashes behind it, a position for a name below `/dev`, and -1 for
every other string. -/
lemma getNamePosFromPath_accepts (path : List Char) :
    ∃ r, getNamePosFromPath path = some r ∧ Accepts path r := by
  by_cases hdev : dev <+: path
  · obtain ⟨rest, rfl⟩ := hdev
    obtain ⟨k, name, rfl, hname⟩ := exists_slashes rest
    refine ⟨_, getNamePosFromPath_eq hname, ?_, fun pos hpos => ?_, ?_⟩
    · rw [isDir_iff hname]
      split_ifs with hnil hbad
      · simp [hnil]
      · simp [hnil]
      · simp only [hnil, iff_false]
        omega
    · rw [isDevice_iff hname]
      split_ifs with hnil hbad
      · exact ⟨fun h0 => absurd h0 (by omega), fun h => absurd hnil h.1.2.1⟩
      · refine ⟨nofun, fun h => ?_⟩
        exact absurd hbad (not_or.mpr ⟨Nat.ne_of_gt h.1.1, h.1.2.2⟩)
      · rw [not_or] at hbad
        refine ⟨fun heq => ⟨⟨Nat.pos_of_ne_zero hbad.1, hnil, hbad.2⟩, by omega⟩, ?_⟩
        rintro ⟨-, rfl⟩
        rfl
    · split_ifs <;> omega
  · have hne : strncmp path dev 4 ≠ 0 := fun h0 => hdev ((strncmp_eq_zero_iff (by decide)).mp h0)
    refine ⟨-1, if_pos hne, ⟨nofun, ?_⟩, fun pos _ => ⟨nofun, ?_⟩, .inl rfl⟩
    · rintro ⟨k, rfl⟩
      exact absurd (prefix_append _ _) hdev
    · rintro ⟨k, name, -, -, -, rfl, -⟩
      exact absurd (prefix_append _ _) hdev

/-- The same, and a device is found by its path only if the path has the second form. Nothing behind the
NUL is read. -/
theorem devfs_paths_accepted (path : List Char) :
    ∃ r, getNamePosFromPath path = some r ∧ Accepts path r ∧ ∀ devices,
      ∃ device, devfsGetByPath devices path = some device ∧
        (device ≠ none → ∃ pos, IsDevice path pos) := by
  obtain ⟨r, hr, hacc⟩ := getNamePosFromPath_accepts path
  refine ⟨r, hr, hacc, fun devices => ?_⟩
  rw [devfsGetByPath, hr, bind_eq_bind, bind_some]
  by_cases hpos : r ≤ 0
  · exact ⟨none, if_pos hpos, fun h => absurd rfl h⟩
  · have htoNat : ((r.toNat : Nat) : Int) = r := Int.toNat_of_nonneg (by omega)
    exact ⟨_, if_neg hpos, fun _ => ⟨r.toNat, (hacc.device _ (by omega)).mp htoNat.symm⟩⟩

end

end Hana.Devfs
