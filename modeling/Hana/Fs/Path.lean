import Mathlib.Data.List.Basic
import Mathlib.Tactic.Common

/-!
# Path resolution

`get_absolute_path` and `fullpath_connect` of `fs/fs.c`. A C string is the list of its characters
without the terminator. `full_path` is a memory of `MAX_PATH_LEN` characters with the cursor `i_f`,
a signed integer that nothing keeps above zero; a store outside of the buffer is `none`, and so is
the dereference of a null pointer. The cursor `i_path` is the rest of `path` from there on.
-/

namespace Hana.Path

open List

def maxPathLen : Nat := 1024

def atFdcwd : Int := -100

structure Buf where
  fullPath : Nat → Char
  iF : Int

/-- `full_path[i_f++] = c` -/
def Buf.put (c : Char) (b : Buf) : Option Buf :=
  if 0 ≤ b.iF ∧ b.iF < maxPathLen then
    some ⟨Function.update b.fullPath b.iF.toNat c, b.iF + 1⟩
  else none

/-- `while (i_f > 0 && full_path[i_f - 1] != '/') i_f--` -/
def backUp (fullPath : Nat → Char) : Nat → Nat
  | 0 => 0
  | n + 1 => if fullPath n ≠ '/' then backUp fullPath n else n + 1

/-- The branch for `..`. -/
def Buf.dotdot (b : Buf) : Buf :=
  let iF := b.iF - 1
  let iF := if 0 < iF then (backUp b.fullPath iF.toNat : Int) else iF
  let iF := if 0 < iF then iF - 1 else iF
  { b with iF := iF }

/-- The loop of the branch for a name, with what is left of `path`. -/
def copyName : List Char → Buf → Option (List Char × Buf)
  | [], b => some ([], b)
  | c :: path, b =>
    if c ≠ '/' ∧ b.iF < maxPathLen then do
      let b ← b.put c
      copyName path b
    else some (c :: path, b)

/-- `"../"` or `"..\0"` -/
def isDotdot : List Char → Bool
  | '.' :: '.' :: [] => true
  | '.' :: '.' :: '/' :: _ => true
  | _ => false

/-- `"./"` -/
def isDot : List Char → Bool
  | '.' :: '/' :: _ => true
  | _ => false

/-- The outer loop. A turn takes at least one character of `path`, so its length bounds the turns. -/
def connectLoop : Nat → List Char → Buf → Option (List Char × Buf)
  | 0, path, b => if path ≠ [] ∧ b.iF < maxPathLen then none else some (path, b)
  | fuel + 1, path, b =>
    if path ≠ [] ∧ b.iF < maxPathLen then
      let path := path.dropWhile (· == '/')
      if isDotdot path then connectLoop fuel (path.drop 2) b.dotdot
      else if isDot path then connectLoop fuel (path.drop 1) b
      else do
        let (path, b) ← copyName path b
        connectLoop fuel path b
    else some (path, b)

/-- `strcpy(full_path, s)`, with the cursor behind the copy. -/
def strcpy (s : List Char) : Option Buf :=
  if s.length < maxPathLen then some ⟨fun k => s.getD k '\x00', s.length⟩ else none

/-- The string that the terminator at the cursor ends. -/
def Buf.text (b : Buf) : List Char := (List.range b.iF.toNat).map b.fullPath

/-- `fullpath_connect` on a `full_path` that holds the base: the value returned and the path. -/
def fullpathConnect (path : List Char) (b : Buf) : Option (Int × List Char) :=
  if path.head? = some '/' then some (-1, b.text)
  else if b.iF ≤ 0 then none
  else do
    let b ← (if b.fullPath (b.iF - 1).toNat ≠ '/' then b.put '/' else some b)
    let (rest, b) ← connectLoop path.length path b
    if rest ≠ [] then some (-1, b.text)
    else if 0 ≤ b.iF ∧ b.iF < maxPathLen then some (b.iF, b.text)
    else none

/-- `get_absolute_path` in a process with the working directory `cwd`, where `fPath` gives the
`f_path` of the open descriptors. -/
def getAbsolutePath (cwd : List Char) (fPath : Int → Option (List Char)) (path : List Char)
    (dirfd : Int) : Option (Int × List Char) :=
  if path.head? = some '/' then do
    let b ← strcpy path
    some (0, b.text)
  else do
    let base ← (if dirfd = atFdcwd then some cwd else fPath dirfd)
    let b ← strcpy base
    let (ret, fullPath) ← fullpathConnect path b
    some (if ret < 0 then -1 else 0, fullPath)

/-! ## Paths as lists of names -/

/-- What stands between the slashes. -/
def components (p : List Char) : List (List Char) := (p.splitOn '/').filter (· ≠ [])

/-- A component that is not empty. -/
def Plain (c : List Char) : Prop := c ≠ [] ∧ '/' ∉ c

/-- A component that names an entry of a directory. -/
def IsName (c : List Char) : Prop := Plain c ∧ c ≠ ['.'] ∧ c ≠ ['.', '.']

def joined (cs : List (List Char)) : List Char := cs.flatMap fun c => '/' :: c

/-- The canonical text of a list of names. -/
def render (cs : List (List Char)) : List Char := if cs = [] then ['/'] else joined cs

def Canonical (p : List Char) : Prop := ∃ cs, (∀ c ∈ cs, IsName c) ∧ p = render cs

def resolveOne (cs : List (List Char)) (c : List Char) : List (List Char) :=
  if c = ['.'] then cs else if c = ['.', '.'] then cs.dropLast else cs ++ [c]

/-- The components of a path taken one after the other from a directory. -/
def resolve (cs : List (List Char)) (path : List (List Char)) : List (List Char) :=
  path.foldl resolveOne cs

section

variable {p q n rest : List Char} {cs ds : List (List Char)} {c : List Char}

lemma splitOn_slash (p : List Char) : ('/' :: p).splitOn '/' = [] :: p.splitOn '/' := by
  rfl

lemma splitOn_append (hn : '/' ∉ n) (p : List Char) :
    (n ++ '/' :: p).splitOn '/' = n :: p.splitOn '/' := by
  have hne : ∀ x ∈ n, (x == '/') = false := fun x hx =>
    beq_eq_false_iff_ne.mpr (ne_of_mem_of_not_mem hx hn)
  exact splitOnP_append_cons_of_forall_mem hne '/' (beq_self_eq_true _) p

lemma components_slash (p : List Char) : components ('/' :: p) = components p := by
  simp [components, splitOn_slash]

lemma components_append (hn : Plain n) (p : List Char) :
    components (n ++ '/' :: p) = n :: components p := by
  simp [components, splitOn_append hn.2, hn.1]

lemma components_plain (hn : Plain n) : components n = [n] := by
  simp [components, splitOn_eq_singleton hn.2, hn.1]

@[simp] lemma joined_nil : joined [] = [] := rfl

@[simp] lemma joined_cons : joined (c :: cs) = '/' :: c ++ joined cs := rfl

lemma joined_append : joined (cs ++ ds) = joined cs ++ joined ds := flatMap_append

lemma components_joined (h : ∀ c ∈ cs, Plain c) : components (joined cs) = cs := by
  induction cs with
  | nil => rfl
  | cons c cs ih =>
    have hc := h c mem_cons_self
    have ih := ih fun d hd => h d (mem_cons_of_mem _ hd)
    rw [joined_cons, cons_append, components_slash]
    cases cs with
    | nil =>
      rw [joined_nil, append_nil]
      exact components_plain hc
    | cons d cs =>
      rw [joined_cons, cons_append] at ih ⊢
      rw [components_append hc, ← components_slash, ih]

lemma components_render (h : ∀ c ∈ cs, Plain c) : components (render cs) = cs := by
  unfold render
  split
  next hnil =>
    rw [hnil]
    rfl
  next => exact components_joined h

lemma render_of_ne_nil (h : cs ≠ []) : render cs = joined cs := if_neg h

lemma head?_render (cs : List (List Char)) : (render cs).head? = some '/' := by
  cases cs with
  | nil => rfl
  | cons c cs => rfl

lemma slash_notMem_of_mem_splitOn (h : c ∈ p.splitOn '/') : '/' ∉ c := by
  induction p generalizing c with
  | nil =>
    rw [mem_singleton.mp h]
    exact not_mem_nil
  | cons x p ih =>
    rw [splitOn, splitOnP_cons_eq_if_modifyHead] at h
    split at h
    next =>
      rcases mem_cons.mp h with rfl | h
      · exact not_mem_nil
      · exact ih h
    next hx =>
      obtain ⟨l, ls, hls⟩ := exists_cons_of_ne_nil (splitOn_ne_nil '/' p)
      rw [hls] at ih
      rw [← splitOn, hls] at h
      rcases mem_cons.mp h with rfl | h
      · intro hmem
        rcases mem_cons.mp hmem with heq | hmem
        · exact hx (beq_iff_eq.mpr heq.symm)
        · exact ih mem_cons_self hmem
      · exact ih (mem_cons_of_mem _ h)

lemma mem_components_plain (h : c ∈ components p) : Plain c := by
  obtain ⟨hc, hne⟩ := mem_filter.mp h
  exact ⟨of_decide_eq_true hne, slash_notMem_of_mem_splitOn hc⟩

lemma resolveOne_plain (hcs : ∀ c ∈ cs, Plain c) (hc : Plain c) : ∀ d ∈ resolveOne cs c, Plain d := by
  intro d hd
  unfold resolveOne at hd
  split_ifs at hd
  · exact hcs d hd
  · exact hcs d (dropLast_subset _ hd)
  · rcases mem_append.mp hd with hd | hd
    · exact hcs d hd
    · exact mem_singleton.mp hd ▸ hc

lemma resolve_names (hcs : ∀ c ∈ cs, IsName c) (hds : ∀ c ∈ ds, Plain c) :
    ∀ d ∈ resolve cs ds, IsName d := by
  induction ds generalizing cs with
  | nil => exact hcs
  | cons c ds ih =>
    refine ih ?_ fun d hd => hds d (mem_cons_of_mem _ hd)
    intro d hd
    unfold resolveOne at hd
    split_ifs at hd with hdot hup
    · exact hcs d hd
    · exact hcs d (dropLast_subset _ hd)
    · rcases mem_append.mp hd with hd | hd
      · exact hcs d hd
      · rw [mem_singleton.mp hd]
        exact ⟨hds c mem_cons_self, hdot, hup⟩

/-- A text is canonical with the right components exactly when it is their canonical text. -/
lemma canonical_and_components_iff (h : ∀ c ∈ cs, IsName c) :
    Canonical p ∧ components p = cs ↔ p = render cs := by
  constructor
  · rintro ⟨⟨ds, hds, rfl⟩, hcomp⟩
    rw [components_render fun c hc => (hds c hc).1] at hcomp
    rw [hcomp]
  · rintro rfl
    exact ⟨⟨cs, h, rfl⟩, components_render fun c hc => (h c hc).1⟩

end

end Hana.Path
