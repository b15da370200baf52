import Hana.Fs.PathResolve
import Hana.Lib.Run
import Hana.Mm.Vm.Copyin

/-!
# The working directory

`sys_chdir` copies the path from the user into a buffer on the kernel stack, frees the string
behind `p->cwd` and puts a duplicate of the buffer in its place. `get_absolute_path` starts from
this string when a path is relative.

A run is a sequence of `chdir` calls of one process, with arbitrary work of the rest of the kernel
between them that does not touch the process's own string. Beside the program's state it carries
the directory that the successful calls have selected so far, as a list of names.

* The string stays allocated and terminated: it is freed only after the copy has succeeded, and
  the page that was freed is enough for the new one.
* It is stored as it was given. So it is the absolute path of the directory exactly as long as
  every path that is accepted is absolute and canonical, and it is an absolute path to the
  directory exactly as long as every such path is absolute.
* The empty path makes `strdup` ask `kalloc` for no bytes, which stops the kernel.
-/

namespace Hana.Chdir

open Lib Vm Hana.Path List Option

variable {A : Type}

/-! ## Strings in memory -/

def strlenLoop (m : Mem A) (s : Nat) : (fuel i : Nat) → Option Nat
  | 0, _ => none
  | fuel + 1, i => if m.byte (s + i) = 0 then some i else strlenLoop m s fuel (i + 1)

/-- `strlen`, whose counter is an `int`. -/
def strlen (m : Mem A) (s : Nat) : Option Nat := strlenLoop m s (2 ^ 31) 0

/-- The loop of `strncpy`, with the place behind the last byte. -/
def strncpyLoop : (n dst src : Nat) → Mem A → Nat × Mem A
  | 0, dst, _, m => (dst, m)
  | n + 1, dst, src, m =>
    let c := m.byte src
    let m := writeBytes dst [c] m
    if c ≠ 0 then strncpyLoop n (dst + 1) (src + 1) m else (dst + 1, m)

/-- `strncpy`, which adds a NUL behind the bytes that it copies. -/
def strncpy (dst src n : Nat) (m : Mem A) : Mem A :=
  let (dst, m) := strncpyLoop n dst src m
  writeBytes dst [0] m

/-- `strdup` asks for the length of the string, without the NUL. -/
def strdup (E : Env A) (str : Nat) (m : Mem A) : Option (Nat × Mem A) := do
  let len ← strlen m str
  let (dst, m) ← kalloc E len m
  some (dst, strncpy dst str len m)

/-! ## The call -/

/-- The memory and the pointer `p->cwd`. -/
structure Proc (A : Type) where
  mem : Mem A
  cwd : Nat

def sysChdir (E : Env A) (pagetable buf path : Nat) (p : Proc A) : Option (Int × Proc A) := do
  let (res, m) ← copyFromUserStr E pagetable buf path maxPathLen p.mem
  if res < 0 then some (-1, { p with mem := m })
  else do
    let m ← kfree E p.cwd m
    let (cwd, m) ← strdup E buf m
    some (if cwd = 0 then -1 else 0, ⟨m, cwd⟩)

/-! ## Runs -/

/-- What stays the same for a process: its page table, and the block of its kernel stack with the
buffer of `sys_chdir`. -/
structure Ctx (A : Type) where
  E : Env A
  pagetable : Nat
  stack : Nat
  stackPages : Nat
  buf : Nat

/-- The text of `n` bytes. -/
def textAt (m : Mem A) (p n : Nat) : List Char :=
  (List.range n).map fun i => Char.ofNat (m.byte (p + i))

/-- The text of `n` bytes at an address of the user. -/
def userText (m : Mem A) (r va n : Nat) : List Char :=
  (List.range n).map fun i => Char.ofNat (m.byte (phys m r (wrap64 (va + i))))

/-- The directory that a path selects, taken from `dir`. -/
def nextDir (dir : List (List Char)) (p : List Char) : List (List Char) :=
  resolve (if p.head? = some '/' then [] else dir) (components p)

/-- A process, with the directory that its successful calls have selected. -/
structure St (A : Type) where
  proc : Proc A
  dir : List (List Char)

/-- A call with the path of `len` bytes at `path`; `none` where the kernel stops. -/
def exec (C : Ctx A) (s : St A) (path len : Nat) : Option (St A) := do
  let (ret, p) ← sysChdir C.E C.pagetable C.buf path s.proc
  some ⟨p, if ret = 0 then nextDir s.dir (userText s.proc.mem C.pagetable path len) else s.dir⟩

inductive Call
  | chdir (path len : Nat)
  | other

/-- A string of the user starts at `path`, in a page that is not the kernel's stack. -/
structure Readable (C : Ctx A) (s : St A) (path len : Nat) : Prop where
  lt : path < 2 ^ 64
  string : StringAt s.proc.mem C.pagetable path len
  apart : ∀ i < maxPathLen, ∀ j, path % 4096 + j < 4096 →
    C.buf + i ≠ phys s.proc.mem C.pagetable path + j

section

variable (Inv : A → Prop) (Held : A → Nat → Nat → Prop)

/-- The process has a block for its stack and another one for its string. -/
structure Owned (C : Ctx A) (p : Proc A) : Prop where
  alloc : Inv p.mem.alloc
  stack : Held p.mem.alloc C.stack C.stackPages
  buf : C.stack ≤ C.buf ∧ C.buf + maxPathLen ≤ C.stack + 4096 * C.stackPages
  cwd : ∃ n, Held p.mem.alloc p.cwd n
  apart : p.cwd ≠ C.stack

/-- The string of the process is left alone. -/
structure Keeps (p p' : Proc A) : Prop where
  cwd : p'.cwd = p.cwd
  held : ∀ n, Held p.mem.alloc p.cwd n → Held p'.mem.alloc p.cwd n
  bytes : ∀ n, Held p.mem.alloc p.cwd n → ∀ x, p.cwd ≤ x → x < p.cwd + 4096 * n →
    p'.mem.byte x = p.mem.byte x

inductive Step (C : Ctx A) : St A → Call → St A → Prop
  | chdir {s s' : St A} {path len : Nat} (hread : Readable C s path len)
      (h : exec C s path len = some s') : Step C s (.chdir path len) s'
  | other {s : St A} {p' : Proc A} (hown : Owned Inv Held C p') (h : Keeps Held s.proc p') :
      Step C s .other ⟨p', s.dir⟩

/-- `p->cwd` is an allocated block that holds a terminated string, and the string stands for the
directory. -/
def Usable (Names : List Char → List (List Char) → Prop) (s : St A) : Prop :=
  ∃ n len, Held s.proc.mem.alloc s.proc.cwd n ∧ len < 4096 * n ∧ NulAt s.proc.mem s.proc.cwd len ∧
    Names (textAt s.proc.mem s.proc.cwd len) s.dir

end

/-- The text is the absolute path of the directory. -/
def IsPath (p : List Char) (dir : List (List Char)) : Prop := p = render dir

/-- The text is an absolute path that leads to the directory. -/
def LeadsTo (p : List Char) (dir : List (List Char)) : Prop :=
  p.head? = some '/' ∧ resolve [] (components p) = dir

def Absolute (p : List Char) : Prop := p.head? = some '/'

/-- A path that is accepted, since it ends in its first page and fits the buffer, is of the given
kind. -/
def Selects (Ok : List Char → Prop) (C : Ctx A) (s : St A) : Call → Prop
  | .chdir path len => path % pgSize + len < pgSize → len < maxPathLen →
      Ok (userText s.proc.mem C.pagetable path len)
  | .other => True

/-! ## Copying strings -/

variable {k str n path len : Nat}

section

variable {E : Env A} {m m' : Mem A} {C : Ctx A} {s s' : St A} {p p' : Proc A}
variable {lo hi : Nat} {Inv : A → Prop} {Held : A → Nat → Nat → Prop}

lemma strlenLoop_eq (h : NulAt m str k) {fuel i : Nat} (hle : i ≤ k) (hlt : k < i + fuel) :
    strlenLoop m str fuel i = some k := by
  induction fuel generalizing i with
  | zero => omega
  | succ fuel ih =>
    unfold strlenLoop
    rcases eq_or_lt_of_le hle with rfl | hlt'
    · rw [if_pos h.2]
    · rw [if_neg (h.1 i hlt')]
      exact ih hlt' (by omega)

lemma strlen_eq (h : NulAt m str k) (hk : k < 2 ^ 31) :
    strlen m str = some k := strlenLoop_eq h (Nat.zero_le k) (by omega)

/-- Bytes without a NUL are copied one after the other. -/
lemma strncpyLoop_spec (dst src : Nat) (m : Mem A) (hchars : ∀ i < n, m.byte (src + i) ≠ 0)
    (hapart : ∀ i < n, ∀ j < n, dst + i ≠ src + j) :
    ∃ m', strncpyLoop n dst src m = (dst + n, m') ∧ m' = { m with byte := m'.byte } ∧
      (∀ i < n, m'.byte (dst + i) = m.byte (src + i)) ∧
      ∀ x, x < dst ∨ dst + n ≤ x → m'.byte x = m.byte x := by
  induction n generalizing dst src m with
  | zero => exact ⟨m, rfl, rfl, nofun, fun _ _ => rfl⟩
  | succ n ih =>
    have hbyte : ∀ x, (writeBytes dst [m.byte src] m).byte x =
        if x = dst then m.byte src else m.byte x := by
      intro x
      rw [writeBytes_byte, length_singleton]
      by_cases hx : x = dst
      · rw [if_pos (by omega), if_pos hx, hx, Nat.sub_self]
        rfl
      · rw [if_neg (by omega), if_neg hx]
    have hsrc : ∀ i < n, (writeBytes dst [m.byte src] m).byte (src + 1 + i) =
        m.byte (src + (i + 1)) := by
      intro i hi
      have hne := hapart 0 (Nat.succ_pos n) (i + 1) (by omega)
      rw [hbyte, if_neg (by omega)]
      congr 1
      omega
    obtain ⟨m', hloop, hrest, hcopy, hother⟩ := ih (dst + 1) (src + 1) (writeBytes dst [m.byte src] m)
      (fun i hi => by rw [hsrc i hi]; exact hchars (i + 1) (by omega))
      (fun i hi j hj => by have hne := hapart (i + 1) (by omega) (j + 1) (by omega); omega)
    have hfirst := hchars 0 (Nat.succ_pos n)
    rw [add_zero] at hfirst
    refine ⟨m', ?_, hrest, ?_, ?_⟩
    · rw [strncpyLoop, if_pos hfirst, hloop, add_assoc, add_comm 1 n]
    · intro i hi
      cases i with
      | zero => rw [hother _ (by omega), hbyte, if_pos (add_zero dst), add_zero]
      | succ i =>
        have heq : dst + (i + 1) = dst + 1 + i := by omega
        rw [heq, hcopy i (by omega), hsrc i (by omega)]
    · intro x hx
      rw [hother x (by omega), hbyte, if_neg (by omega)]

/-- A string is copied with its NUL. -/
lemma strncpy_spec {dst src : Nat} (hchars : ∀ i < n, m.byte (src + i) ≠ 0)
    (hapart : ∀ i < n, ∀ j < n, dst + i ≠ src + j) :
    strncpy dst src n m = { m with byte := (strncpy dst src n m).byte } ∧
      NulAt (strncpy dst src n m) dst n ∧
      ∀ i < n, (strncpy dst src n m).byte (dst + i) = m.byte (src + i) := by
  obtain ⟨m', hloop, hrest, hcopy, _⟩ := strncpyLoop_spec dst src m hchars hapart
  have heq : strncpy dst src n m = writeBytes (dst + n) [0] m' := by
    unfold strncpy
    rw [hloop]
  have hbyte : ∀ i < n, (writeBytes (dst + n) [0] m').byte (dst + i) = m.byte (src + i) := by
    intro i hi
    rw [writeBytes_byte, if_neg (by omega), hcopy i hi]
  rw [heq]
  refine ⟨?_, ⟨fun i hi => ?_, ?_⟩, hbyte⟩
  · unfold writeBytes
    rw [hrest]
  · rw [hbyte i hi]
    exact hchars i hi
  · rw [writeBytes_byte, length_singleton, if_pos (by omega), Nat.sub_self]
    rfl

/-! ## Where strncpy stores -/

/-- The addresses that `strncpy` stores to: one in every turn of its loop, and the one of the last NUL. -/
def strncpyStores (dst src n : Nat) (m : Mem A) : List Nat :=
  List.range' dst ((strncpyLoop n dst src m).1 + 1 - dst)

def StoresIn (dst src n : Nat) (m : Mem A) : Prop :=
  ∀ x ∈ strncpyStores dst src n m, dst ≤ x ∧ x < dst + n

lemma strncpyLoop_end {dst src : Nat} (h : NulAt m src k)
    (hapart : ∀ i < n, ∀ j ≤ k, dst + i ≠ src + j) :
    (strncpyLoop n dst src m).1 = dst + min n (k + 1) := by
  induction n generalizing dst src k m with
  | zero => simp [strncpyLoop]
  | succ n ih =>
    rw [strncpyLoop]
    cases k with
    | zero =>
      have hnul : m.byte src = 0 := h.2
      simp [hnul]
    | succ k =>
      have hbyte : ∀ j ≤ k, (writeBytes dst [m.byte src] m).byte (src + 1 + j) = m.byte (src + (j + 1)) := by
        intro j hj
        have hne := hapart 0 (Nat.succ_pos n) (j + 1) (by omega)
        rw [writeBytes_byte, length_singleton, if_neg (by omega)]
        congr 1
        omega
      have hrest : NulAt (writeBytes dst [m.byte src] m) (src + 1) k := by
        refine ⟨fun j hj => ?_, ?_⟩
        · rw [hbyte j hj.le]
          exact h.1 (j + 1) (by omega)
        · rw [hbyte k le_rfl]
          exact h.2
      have hfirst : m.byte src ≠ 0 := h.1 0 (Nat.succ_pos k)
      rw [if_pos hfirst, ih hrest fun i hi j hj => ?_]
      · omega
      · have hne := hapart (i + 1) (by omega) (j + 1) (by omega)
        omega

/-- `strncpy` stays inside its buffer exactly if this has room for one byte behind the NUL; `strdup` stores
behind the bytes that it asks for. -/
theorem copies_inside_iff {src k : Nat} (h : NulAt m src k) (hk : k < 2 ^ 31) :
    (∀ n dst, (∀ i < n, ∀ j ≤ k, dst + i ≠ src + j) → (StoresIn dst src n m ↔ k + 2 ≤ n)) ∧
      ∀ p m', strdup E src m = some (p, m') → ∃ m₁, kalloc E k m = some (p, m₁) ∧
        m' = strncpy p src k m₁ ∧ ((∀ i < k, ∀ j ≤ k, p + i ≠ src + j) → ¬ StoresIn p src k m₁) := by
  have hiff : ∀ (m : Mem A) n dst, NulAt m src k → (∀ i < n, ∀ j ≤ k, dst + i ≠ src + j) →
      (StoresIn dst src n m ↔ k + 2 ≤ n) := by
    intro m n dst h hapart
    unfold StoresIn strncpyStores
    rw [strncpyLoop_end h hapart]
    simp only [mem_range'_1]
    constructor
    · intro hall
      have hlast := hall (dst + min n (k + 1)) (by omega)
      omega
    · intro hle x hx
      omega
  refine ⟨fun n dst => hiff m n dst h, fun p m' hdup => ?_⟩
  simp only [strdup, strlen_eq h hk, bind_eq_bind, bind_some] at hdup
  obtain ⟨⟨p', m₁⟩, halloc, heq⟩ := bind_eq_some_iff.mp hdup
  cases heq
  refine ⟨m₁, halloc, rfl, fun hapart hin => ?_⟩
  obtain ⟨⟨_, a⟩, _, heq⟩ := bind_eq_some_iff.mp halloc
  cases heq
  have hle := (hiff { m with alloc := a } k _ h hapart).mp hin
  omega

/-- A memory with the string `ab` at 100. -/
def twoChars : Mem Unit := writeBytes 100 [97, 98] ⟨(), fun _ => 0, fun _ => 0, fun _ => 0, []⟩

theorem copies_inside_four : StoresIn 200 100 4 twoChars :=
  ((copies_inside_iff (E := ⟨⟨fun _ _ => none, fun _ _ => none⟩, 0, 0⟩)
    (⟨by decide, rfl⟩ : NulAt twoChars 100 2) (by decide)).1 4 200 (by omega)).mpr (by decide)

/-- With room for the two characters, or for them and the NUL, there is a store behind the buffer. -/
theorem strncpy_overruns :
    strncpyStores 200 100 2 twoChars = [200, 201, 202] ∧
      strncpyStores 200 100 3 twoChars = [200, 201, 202, 203] := by
  decide

/-! ## One call -/

lemma toInt64_small (h : n < 2 ^ 63) : toInt64 n = n := by
  unfold toInt64
  split_ifs <;> omega

/-- A string of the user that ends in its first page and fits the buffer is copied as it is; any
other one is refused. -/
lemma copy_cases (hr : C.pagetable ≠ C.E.kernelPagetable) (h : Readable C s path len) :
    ∃ m', m' = { s.proc.mem with byte := m'.byte } ∧
      (∀ x, x < C.buf ∨ C.buf + maxPathLen ≤ x → m'.byte x = s.proc.mem.byte x) ∧
      ((path % pgSize + len < pgSize ∧ len < maxPathLen ∧
        copyFromUserStr C.E C.pagetable C.buf path maxPathLen s.proc.mem = some (↑(len + 1), m') ∧
        NulAt m' C.buf len ∧
        textAt m' C.buf len = userText s.proc.mem C.pagetable path len) ∨
      (¬ (path % pgSize + len < pgSize ∧ len < maxPathLen) ∧
        copyFromUserStr C.E C.pagetable C.buf path maxPathLen s.proc.mem = some (-1, m'))) := by
  obtain ⟨res, m', hcopy, hrest, hother, hspec⟩ := copyinstr_spec hr h.lt fun _ => h.apart
  refine ⟨m', hrest, hother, ?_⟩
  unfold copyFromUserStr
  rw [hcopy, bind_eq_bind, bind_some]
  dsimp only
  have huser : accepts s.proc.mem C.pagetable path = true := by
    have hfirst := h.string.user 0 (Nat.zero_le len)
    rw [add_zero, wrap64_of_lt h.lt] at hfirst
    exact accepts_of_userPage hfirst
  rcases hspec with ⟨k, hk, hpage, _, hnul, hres, hbytes⟩ | ⟨hres, hnone⟩
  · left
    have hkl : k = len := by
      by_cases hfits : path % 4096 + len < 4096
      · exact hnul.unique ((stringAt_iff h.lt hfits).mp h.string).2
      · have hchar := h.string.chars k (by omega)
        rw [phys_add h.lt hpage] at hchar
        exact absurd hnul.2 hchar
    subst hkl
    have hres' : toInt64 res = (k + 1 : Nat) := by
      rw [hres]
      exact toInt64_small (by unfold maxPathLen at hk; omega)
    refine ⟨hpage, hk, by rw [hres'], ⟨fun i hi => ?_, ?_⟩, ?_⟩
    · rw [hbytes i (by omega)]
      exact hnul.1 i hi
    · rw [hbytes k (Nat.le_refl k)]
      exact hnul.2
    · refine map_congr_left fun i hi => ?_
      have hlt := mem_range.mp hi
      rw [hbytes i (by omega), phys_add h.lt (by omega)]
  · right
    refine ⟨fun ⟨hpage, hlt⟩ => ?_, by rw [hres]; rfl⟩
    exact hnone len hlt hpage huser ((stringAt_iff h.lt hpage).mp h.string).2

section

variable (hal : C.E.al.Lawful lo hi Inv Held)
include hal

/-- A path that is refused changes nothing but the buffer. -/
lemma exec_refused (hr : C.pagetable ≠ C.E.kernelPagetable) (hown : Owned Inv Held C s.proc)
    (h : Readable C s path len) (hlong : ¬ (path % pgSize + len < pgSize ∧ len < maxPathLen)) :
    ∃ p', exec C s path len = some ⟨p', s.dir⟩ ∧ Owned Inv Held C p' ∧ Keeps Held s.proc p' := by
  obtain ⟨m', hrest, hother, ⟨hpage, hlt, _⟩ | ⟨_, hcopy⟩⟩ := copy_cases hr h
  · exact absurd ⟨hpage, hlt⟩ hlong
  have halloc : m'.alloc = s.proc.mem.alloc := by rw [hrest]
  refine ⟨{ s.proc with mem := m' }, ?_, ?_, ⟨rfl, fun n hn => ?_, fun n hn x hlo hhi => ?_⟩⟩
  · unfold exec sysChdir
    rw [hcopy]
    rfl
  · obtain ⟨n, hn⟩ := hown.cwd
    refine ⟨?_, ?_, hown.buf, ⟨n, ?_⟩, hown.apart⟩
    · rw [halloc]
      exact hown.alloc
    · rw [halloc]
      exact hown.stack
    · rw [halloc]
      exact hn
  · rw [halloc]
    exact hn
  · refine hother x ?_
    have hbuf := hown.buf
    rcases hal.apart hown.alloc hn hown.stack with ⟨heq, _⟩ | hbelow | habove
    · exact absurd heq hown.apart
    · omega
    · omega

/-- A path that is copied costs the process its string before the new one is allocated. -/
lemma exec_copied (hr : C.pagetable ≠ C.E.kernelPagetable)
    (hown : Owned Inv Held C s.proc) (hn : Held s.proc.mem.alloc s.proc.cwd n)
    (h : Readable C s path len) (hpage : path % pgSize + len < pgSize) (hlt : len < maxPathLen) :
    ∃ m2, C.E.al.kfree s.proc.cwd s.proc.mem.alloc = some m2.alloc ∧ Inv m2.alloc ∧
      (∀ q k, Held m2.alloc q k ↔ Held s.proc.mem.alloc q k ∧ ¬ (q = s.proc.cwd ∧ k = n)) ∧
      NulAt m2 C.buf len ∧ textAt m2 C.buf len = userText s.proc.mem C.pagetable path len ∧
      exec C s path len = (kalloc C.E len m2).map fun x =>
        ⟨⟨strncpy x.1 C.buf len x.2, x.1⟩,
          if x.1 = 0 then s.dir else nextDir s.dir (userText s.proc.mem C.pagetable path len)⟩ := by
  obtain ⟨m', hrest, _, ⟨_, _, hcopy, hnul, htext⟩ | ⟨hlong, _⟩⟩ := copy_cases hr h
  swap
  · exact absurd ⟨hpage, hlt⟩ hlong
  obtain ⟨a, hfree, hinv, hheld⟩ := hal.kfree_spec hown.alloc hn
  have halloc : m'.alloc = s.proc.mem.alloc := by rw [hrest]
  have hkfree : kfree C.E s.proc.cwd m' =
      some { m' with alloc := a, kfreed := m'.kfreed ++ [s.proc.cwd] } := by
    unfold kfree
    rw [halloc, hfree]
    rfl
  refine ⟨{ m' with alloc := a, kfreed := m'.kfreed ++ [s.proc.cwd] }, hfree, hinv, hheld, hnul, htext,
    ?_⟩
  have hlen : strlen { m' with alloc := a, kfreed := m'.kfreed ++ [s.proc.cwd] } C.buf = some len :=
    strlen_eq hnul (by unfold maxPathLen at hlt; omega)
  have hret : ¬ ((len + 1 : Nat) : Int) < 0 := by omega
  unfold exec sysChdir
  rw [hcopy]
  simp only [bind_eq_bind, bind_some, if_neg hret, hkfree, strdup, hlen]
  cases hal : kalloc C.E len { m' with alloc := a, kfreed := m'.kfreed ++ [s.proc.cwd] } with
  | none => rfl
  | some x =>
    by_cases hzero : x.1 = 0
    · simp [hzero]
    · simp [hzero]

/-- The empty path stops the kernel. -/
lemma exec_empty (hrefill : C.E.al.Refills Inv Held) (hr : C.pagetable ≠ C.E.kernelPagetable)
    (hown : Owned Inv Held C s.proc) (h : Readable C s path 0) : exec C s path 0 = none := by
  obtain ⟨n, hn⟩ := hown.cwd
  have hpage : path % pgSize + 0 < pgSize := Nat.mod_lt _ (by decide)
  obtain ⟨m2, _, _, _, _, _, hexec⟩ := exec_copied hal hr hown hn h hpage (by decide)
  rw [hexec, kalloc, hrefill.zero]
  rfl

/-- A path that is accepted becomes the string of the process. -/
lemma exec_accepted (hlo : 0 < lo)
    (hrefill : C.E.al.Refills Inv Held) (hr : C.pagetable ≠ C.E.kernelPagetable)
    (hown : Owned Inv Held C s.proc) (h : Readable C s path len) (hpos : 0 < len)
    (hpage : path % pgSize + len < pgSize) (hlt : len < maxPathLen) :
    ∃ p', exec C s path len =
        some ⟨p', nextDir s.dir (userText s.proc.mem C.pagetable path len)⟩ ∧
      Owned Inv Held C p' ∧ Held p'.mem.alloc p'.cwd 1 ∧ NulAt p'.mem p'.cwd len ∧
      textAt p'.mem p'.cwd len = userText s.proc.mem C.pagetable path len := by
  obtain ⟨n, hn⟩ := hown.cwd
  obtain ⟨m2, hfree, hinv, hheld, hnul, htext, hexec⟩ := exec_copied hal hr hown hn h hpage hlt
  have hsize : len ≤ 4096 := by
    unfold maxPathLen at hlt
    omega
  obtain ⟨⟨dst, a⟩, halloc⟩ := hrefill.page hown.alloc hn hfree hpos hsize
  obtain ⟨hinv', n', _, hone, hfresh, hheld'⟩ :=
    hal.kalloc_spec hinv hpos (hsize.trans (by decide)) halloc
  have hnew : Held a dst 1 := (hheld' dst 1).mpr (.inl ⟨rfl, (hone hsize).symm⟩)
  have hne : dst ≠ 0 := by
    have hrange := hal.range hinv' hnew
    omega
  -- the stack is still allocated, so that the new block is not part of it
  have hstack2 : Held m2.alloc C.stack C.stackPages :=
    (hheld _ _).mpr ⟨hown.stack, fun heq => hown.apart heq.1.symm⟩
  have hstack : Held a C.stack C.stackPages := (hheld' _ _).mpr (.inr hstack2)
  have happart := hfresh _ _ hstack2
  have hbuf := hown.buf
  have hdisjoint : ∀ i < len, ∀ j < len, dst + i ≠ C.buf + j := by
    intro i hi j hj
    omega
  obtain ⟨hcopy, hnul', hbytes⟩ := strncpy_spec (m := { m2 with alloc := a }) hnul.1 hdisjoint
  refine ⟨⟨strncpy dst C.buf len { m2 with alloc := a }, dst⟩, ?_, ?_, ?_, hnul', ?_⟩
  · rw [hexec, kalloc, halloc]
    simp [hne]
  · refine ⟨?_, ?_, hown.buf, ⟨1, ?_⟩, ?_⟩
    · rw [hcopy]
      exact hinv'
    · rw [hcopy]
      exact hstack
    · rw [hcopy]
      exact hnew
    · show dst ≠ C.stack
      omega
  · rw [hcopy]
    exact hnew
  · rw [← htext]
    refine map_congr_left fun i hi => ?_
    rw [hbytes i (mem_range.mp hi)]

end

/-! ## Runs -/

lemma nextDir_names {dir : List (List Char)} (h : ∀ c ∈ dir, IsName c) (text : List Char) :
    ∀ c ∈ nextDir dir text, IsName c := by
  refine resolve_names ?_ fun c hc => mem_components_plain hc
  split_ifs
  · exact nofun
  · exact h

lemma Usable.keeps {Names : List Char → List (List Char) → Prop} (h : Usable Held Names s)
    (hkeep : Keeps Held s.proc p') : Usable Held Names ⟨p', s.dir⟩ := by
  obtain ⟨n, len, hn, hlen, hnul, hnames⟩ := h
  have hbytes : ∀ i ≤ len, p'.mem.byte (p'.cwd + i) = s.proc.mem.byte (s.proc.cwd + i) := by
    intro i hi
    rw [hkeep.cwd]
    exact hkeep.bytes n hn _ (by omega) (by omega)
  have htext : textAt p'.mem p'.cwd len = textAt s.proc.mem s.proc.cwd len := by
    refine map_congr_left fun i hi => ?_
    rw [hbytes i (mem_range.mp hi).le]
  refine ⟨n, len, ?_, hlen, ⟨fun i hi => ?_, ?_⟩, ?_⟩
  · rw [hkeep.cwd]
    exact hkeep.held n hn
  · rw [hbytes i hi.le]
    exact hnul.1 i hi
  · rw [hbytes len (Nat.le_refl len)]
    exact hnul.2
  · rw [htext]
    exact hnames

/-- What holds between the calls of a run. -/
structure Ready (Inv : A → Prop) (Held : A → Nat → Nat → Prop)
    (Names : List Char → List (List Char) → Prop) (C : Ctx A) (s : St A) : Prop where
  owned : Owned Inv Held C s.proc
  names : ∀ c ∈ s.dir, IsName c
  usable : Usable Held Names s

section

variable {Names : List Char → List (List Char) → Prop} {Ok : List Char → Prop}
variable (hal : C.E.al.Lawful lo hi Inv Held) (hlo : 0 < lo) (hrefill : C.E.al.Refills Inv Held)
variable (hr : C.pagetable ≠ C.E.kernelPagetable)
variable (hexact : ∀ dir text, (∀ c ∈ dir, IsName c) → (Names text (nextDir dir text) ↔ Ok text))
variable (hnil : ¬ Ok [])

include hal hlo hrefill hr hexact hnil

section

variable (h : Ready Inv Held Names C s)
include h

/-- A call leaves a usable string exactly if it refuses the path or the path is of the right kind. -/
lemma call_cases (hread : Readable C s path len) :
    (¬ Selects Ok C s (.chdir path len) ∧ ∀ s', exec C s path len = some s' → ¬ Usable Held Names s') ∨
      (Selects Ok C s (.chdir path len) ∧ ∃ s', exec C s path len = some s' ∧ Ready Inv Held Names C s') := by
  by_cases hfits : path % pgSize + len < pgSize ∧ len < maxPathLen
  · rcases Nat.eq_zero_or_pos len with rfl | hpos
    · left
      refine ⟨fun hsel => hnil (hsel hfits.1 hfits.2), fun s' hs' => ?_⟩
      rw [exec_empty hal hrefill hr h.owned hread] at hs'
      cases hs'
    · obtain ⟨p', hexec, hown, hheld, hnul, htext⟩ :=
        exec_accepted hal hlo hrefill hr h.owned hread hpos hfits.1 hfits.2
      have hiff := hexact s.dir (userText s.proc.mem C.pagetable path len) h.names
      by_cases hok : Ok (userText s.proc.mem C.pagetable path len)
      · right
        refine ⟨fun _ _ => hok, _, hexec, hown, nextDir_names h.names _, 1, len, hheld, ?_, hnul, ?_⟩
        · have hlt := hfits.2
          unfold maxPathLen at hlt
          omega
        · rw [htext]
          exact hiff.mpr hok
      · left
        refine ⟨fun hsel => hok (hsel hfits.1 hfits.2), fun s' hs' husable => hok (hiff.mp ?_)⟩
        rw [hexec, some.injEq] at hs'
        subst hs'
        obtain ⟨_, len', _, _, hnul', hnames⟩ := husable
        rw [hnul'.unique hnul] at hnames
        rwa [htext] at hnames
  · right
    obtain ⟨p', hexec, hown, hkeep⟩ := exec_refused hal hr h.owned hread hfits
    exact ⟨fun hpage hlt => absurd ⟨hpage, hlt⟩ hfits, _, hexec, hown, h.names, h.usable.keeps hkeep⟩

lemma call_iff (hread : Readable C s path len) :
    (∃ s', exec C s path len = some s' ∧ Usable Held Names s') ↔ Selects Ok C s (.chdir path len) := by
  rcases call_cases hal hlo hrefill hr hexact hnil h hread with ⟨hsel, hno⟩ | ⟨hsel, s', hexec, hready⟩
  · exact ⟨fun ⟨s', hs', husable⟩ => absurd husable (hno s' hs'), fun hyes => absurd hyes hsel⟩
  · exact ⟨fun _ => hsel, fun _ => ⟨s', hexec, hready.usable⟩⟩

lemma Ready.step {c : Call} (hsel : Selects Ok C s c)
    (hs : Step Inv Held C s c s') : Ready Inv Held Names C s' := by
  cases hs with
  | chdir hread hexec =>
    rcases call_cases hal hlo hrefill hr hexact hnil h hread with ⟨hno, _⟩ | ⟨_, s'', hs'', hready⟩
    · exact absurd hsel hno
    · rw [hexec, some.injEq] at hs''
      exact hs'' ▸ hready
  | other hown hkeep => exact ⟨hown, h.names, h.usable.keeps hkeep⟩

lemma usable_iff {c : Call} (hs : Step Inv Held C s c s') :
    Usable Held Names s' ↔ Selects Ok C s c := by
  cases hs with
  | chdir hread hexec =>
    rw [← call_iff hal hlo hrefill hr hexact hnil h hread, hexec]
    exact ⟨fun husable => ⟨_, rfl, husable⟩, fun ⟨_, heq, husable⟩ => some.inj heq ▸ husable⟩
  | other _ hkeep => exact ⟨fun _ => trivial, fun _ => h.usable.keeps hkeep⟩

end

/-- The string is usable along a whole run exactly if every call of it selects a path of the right
kind. -/
lemma usable_run_iff {ts : List (Transition (St A) Call)} {start : St A}
    (hstart : Ready Inv Held Names C start) (hrun : Run (Step Inv Held C) start ts s) :
    ((∀ t ∈ ts, Usable Held Names t.target) ↔ ∀ t ∈ ts, Selects Ok C t.source t.label) ∧
      ((∀ t ∈ ts, Selects Ok C t.source t.label) → Ready Inv Held Names C s) := by
  have hstep : ∀ s c s', Ready Inv Held Names C s → Selects Ok C s c → Step Inv Held C s c s' →
      Ready Inv Held Names C s' :=
    fun _ _ _ h hsel hs => h.step hal hlo hrefill hr hexact hnil hsel hs
  have hexact' : ∀ s c s', Ready Inv Held Names C s → Step Inv Held C s c s' →
      (Usable Held Names s' ↔ Selects Ok C s c) :=
    fun _ _ _ h hs => usable_iff hal hlo hrefill hr hexact hnil h hs
  exact ⟨hrun.forall_iff hstart hstep hexact', fun hsel => hrun.invariant_of_forall hstart hsel hstep⟩

end

/-- A text is the path of the directory that it selects exactly if it is canonical. -/
lemma isPath_nextDir_iff (dir : List (List Char)) (text : List Char) (h : ∀ c ∈ dir, IsName c) :
    IsPath text (nextDir dir text) ↔ Canonical text := by
  constructor
  · intro htext
    exact ⟨_, nextDir_names h text, htext⟩
  · rintro ⟨cs, hcs, rfl⟩
    have habs : nextDir dir (render cs) = cs := by
      rw [nextDir, if_pos (head?_render cs), components_render fun c hc => (hcs c hc).1,
        resolve_of_names hcs, nil_append]
    rw [IsPath, habs]

lemma leadsTo_nextDir_iff (dir : List (List Char)) (text : List Char) (_ : ∀ c ∈ dir, IsName c) :
    LeadsTo text (nextDir dir text) ↔ Absolute text := by
  refine ⟨fun h => h.1, fun h => ⟨h, ?_⟩⟩
  have hhead : text.head? = some '/' := h
  rw [nextDir, if_pos hhead]

lemma not_canonical_nil : ¬ Canonical [] := by
  rintro ⟨cs, _, hnil⟩
  have hhead := head?_render cs
  rw [← hnil] at hhead
  cases hhead

/-- The path of a directory leads to it. -/
lemma Ready.leadsTo (h : Ready Inv Held IsPath C s) : Ready Inv Held LeadsTo C s := by
  obtain ⟨n, len, hn, hlen, hnul, htext⟩ := h.usable
  refine ⟨h.owned, h.names, n, len, hn, hlen, hnul, ?_⟩
  have hpath : textAt s.proc.mem s.proc.cwd len = render s.dir := htext
  rw [hpath]
  exact ⟨head?_render s.dir, by rw [components_render fun c hc => (h.names c hc).1,
    resolve_of_names h.names, nil_append]⟩

/-- Along a run `p->cwd` is always an allocated and terminated string that is the absolute path of the
directory selected so far, exactly if every path that is accepted is canonical; and it is always
such a string that leads to this directory, exactly if every path that is accepted is absolute. In a
state reached by canonical paths a call returns with a usable string under the same condition. -/
theorem chdir_usable_iff (hal : C.E.al.Lawful lo hi Inv Held) (hlo : 0 < lo)
    (hrefill : C.E.al.Refills Inv Held) (hr : C.pagetable ≠ C.E.kernelPagetable)
    {ts : List (Transition (St A) Call)} {start : St A} (hstart : Ready Inv Held IsPath C start)
    (hrun : Run (Step Inv Held C) start ts s) :
    ((∀ t ∈ ts, Usable Held IsPath t.target) ↔ ∀ t ∈ ts, Selects Canonical C t.source t.label) ∧
      ((∀ t ∈ ts, Usable Held LeadsTo t.target) ↔ ∀ t ∈ ts, Selects Absolute C t.source t.label) ∧
      ((∀ t ∈ ts, Selects Canonical C t.source t.label) →
        ∀ path len, Readable C s path len →
          ((∃ s', exec C s path len = some s' ∧ Usable Held IsPath s') ↔
            Selects Canonical C s (.chdir path len))) := by
  have habsNil : ¬ Absolute [] := nofun
  obtain ⟨hiff, hready⟩ := usable_run_iff hal hlo hrefill hr isPath_nextDir_iff not_canonical_nil
    hstart hrun
  obtain ⟨hiff', _⟩ := usable_run_iff hal hlo hrefill hr leadsTo_nextDir_iff habsNil
    hstart.leadsTo hrun
  refine ⟨hiff, hiff', fun hsel path len hread => ?_⟩
  exact call_iff hal hlo hrefill hr isPath_nextDir_iff not_canonical_nil (hready hsel) hread

end

/-! ## A small process -/

/-- A process in `/` with the bytes `path` in the only page of its user memory, at `0x1000`. Its page
table and the page are below the memory of the allocator. -/
def bootProc (path : List Nat) : Option (Ctx Buddy.Pool × St Buddy.Pool) := do
  let (E, m) ← bootSmall
  let (stack, m) ← kalloc E pgSize m
  let m := ((m.setPte 0x1000 (pa2pte 0x2000 ||| pteV)).setPte 0x2000 (pa2pte 0x3000 ||| pteV)).setPte
    0x3008 (pa2pte 0x80201000 ||| (pteV ||| pteU ||| pteRw))
  let m := writeBytes 0x80200100 [47, 0] (writeBytes 0x80201000 path m)
  let (cwd, m) ← strdup E 0x80200100 m
  some (⟨E, 0x1000, stack, 1, stack⟩, ⟨⟨m, cwd⟩, []⟩)

/-- A small block that is allocated is a page of its own. -/
lemma kalloc_small {E : Env A} {lo hi : Nat} {Inv : A → Prop} {Held : A → Nat → Nat → Prop}
    (hal : E.al.Lawful lo hi Inv Held) {m m' : Mem A} {sz p : Nat} (hinv : Inv m.alloc) (hpos : 0 < sz)
    (hsz : sz ≤ 4096) (h : kalloc E sz m = some (p, m')) :
    m' = { m with alloc := m'.alloc } ∧ Inv m'.alloc ∧ Held m'.alloc p 1 ∧
      ∀ q k, Held m.alloc q k → Held m'.alloc q k ∧ (p + 4096 ≤ q ∨ q + 4096 * k ≤ p) := by
  obtain ⟨⟨_, a⟩, halloc, heq⟩ := bind_eq_some_iff.mp h
  cases heq
  obtain ⟨hinv', n, _, hone, hapart, hheld⟩ := hal.kalloc_spec hinv hpos (hsz.trans (by decide)) halloc
  rw [hone hsz] at hapart hheld
  exact ⟨rfl, hinv', (hheld p 1).mpr (.inl ⟨rfl, rfl⟩),
    fun q k hq => ⟨(hheld q k).mpr (.inr hq), hapart q k hq⟩⟩

/-- The process owns its stack and its string, which is `/`. -/
lemma bootProc_ready {path : List Nat} {C : Ctx Buddy.Pool}
    {s : St Buddy.Pool} (h : bootProc path = some (C, s)) :
    (C.E.al.Lawful (bootLo 0x80300000 0x80310000) (pgRoundDown 0x80310000)
        (bootInv 0x80250000 0x80300000 0x80310000) Buddy.held ∧
      C.E.al.Refills (bootInv 0x80250000 0x80300000 0x80310000) Buddy.held ∧
      C.pagetable ≠ C.E.kernelPagetable) ∧
      Ready (bootInv 0x80250000 0x80300000 0x80310000) Buddy.held IsPath C s := by
  simp only [bootProc, strdup, bind_eq_bind, bind_eq_some_iff, Prod.exists,
    some.injEq, Prod.mk.injEq] at h
  obtain ⟨E, m, hboot, stack, m1, hstack, cwd, m2, ⟨len, hlen, dst, m3, hdup, rfl, rfl⟩, rfl, rfl⟩ := h
  obtain ⟨hE, hs⟩ := bootSmall_ok hboot
  have hkernel : E.kernelPagetable = 0 := by
    unfold bootSmall bootCleared kmemInit at hboot
    obtain ⟨st, _, heq⟩ := bind_eq_some_iff.mp hboot
    cases heq
    rfl
  refine ⟨⟨hE.lawful, bootSmall_refills hboot, ?_⟩, ?_⟩
  · show 0x1000 ≠ E.kernelPagetable
    rw [hkernel]
    decide
  obtain ⟨_, hinv1, hheld1, _⟩ := kalloc_small hE.lawful hs.alloc (by decide) (by decide) hstack
  generalize hm : writeBytes 0x80200100 [47, 0] _ = m' at hlen hdup
  have halloc : m'.alloc = m1.alloc := by
    rw [← hm]
    rfl
  -- the text of the constant in the kernel image
  have hslash : m'.byte 0x80200100 = 47 ∧ m'.byte 0x80200101 = 0 := by
    rw [← hm]
    constructor
    · rfl
    · rfl
  have hnul' : NulAt m' 0x80200100 1 := by
    refine ⟨fun i hi => ?_, hslash.2⟩
    have hi : i = 0 := by omega
    rw [hi, add_zero, hslash.1]
    decide
  rw [strlen_eq hnul' (by decide), some.injEq] at hlen
  subst hlen
  rw [← halloc] at hinv1 hheld1
  obtain ⟨hrest, hinv3, hheld3, hkept⟩ :=
    kalloc_small hE.lawful hinv1 (by decide : 0 < 1) (by decide : 1 ≤ 4096) hdup
  obtain ⟨hstack3, happart⟩ := hkept stack 1 hheld1
  have hlo : 0x80301000 ≤ dst := by
    have hrange := hE.lawful.range hinv3 hheld3
    have hboot : bootLo 0x80300000 0x80310000 = 0x80301000 := by decide
    omega
  have hbytes3 : ∀ i < 1, m3.byte (0x80200100 + i) = 47 := by
    intro i hi
    have hi : i = 0 := by omega
    rw [hi, add_zero, hrest]
    exact hslash.1
  obtain ⟨hcopy, hnul, hbytes⟩ := strncpy_spec (m := m3)
    (fun i hi => by rw [hbytes3 i hi]; decide) (fun i hi j hj => by omega : ∀ i < 1, ∀ j < 1,
      dst + i ≠ 0x80200100 + j)
  refine ⟨⟨?_, ?_, ⟨le_rfl, ?_⟩, ⟨1, ?_⟩, ?_⟩, ?_, 1, 1, ?_, by decide, hnul, ?_⟩
  · rw [hcopy]
    exact hinv3
  · rw [hcopy]
    exact hstack3
  · show stack + maxPathLen ≤ stack + 4096 * 1
    unfold maxPathLen
    omega
  · rw [hcopy]
    exact hheld3
  · show dst ≠ stack
    omega
  · exact nofun
  · rw [hcopy]
    exact hheld3
  · have hfirst := (hbytes 0 (by decide)).trans (hbytes3 0 (by decide))
    simp only [textAt, range_one, map_cons, map_nil, hfirst]
    rfl

/-- The path `/a` is canonical, and the string is `/a` after the call. -/
theorem chdir_usable_absolute :
    ∃ C s s', bootProc [47, 97, 0] = some (C, s) ∧ exec C s 0x1000 2 = some s' ∧
      Selects Canonical C s (.chdir 0x1000 2) ∧ Usable Buddy.held IsPath s' := by
  have hrun : ((bootProc [47, 97, 0]).bind fun x => (exec x.1 x.2 0x1000 2).map fun _ =>
      decide (StringAt x.2.proc.mem x.1.pagetable 0x1000 2 ∧
        phys x.2.proc.mem x.1.pagetable 0x1000 = 0x80201000 ∧ 0x80301000 ≤ x.1.buf ∧
        userText x.2.proc.mem x.1.pagetable 0x1000 2 = ['/', 'a'])) = some true := by
    decide +kernel
  obtain ⟨⟨C, s⟩, hboot, hrun⟩ := bind_eq_some_iff.mp hrun
  obtain ⟨s', hexec, hfacts⟩ := map_eq_some_iff.mp hrun
  obtain ⟨hstring, hphys, hbuf, htext⟩ := of_decide_eq_true hfacts
  have hbuf : 0x80301000 ≤ C.buf := hbuf
  have hread : Readable C s 0x1000 2 := by
    refine ⟨by decide, hstring, fun i _ j hj => ?_⟩
    rw [show phys s.proc.mem C.pagetable 0x1000 = 0x80201000 from hphys]
    omega
  have hsel : Selects Canonical C s (.chdir 0x1000 2) := by
    intro _ _
    rw [show userText s.proc.mem C.pagetable 0x1000 2 = ['/', 'a'] from htext]
    exact ⟨[['a']], by simp [IsName, Plain], rfl⟩
  obtain ⟨⟨hal, hrefill, hr⟩, hready⟩ := bootProc_ready hboot
  have hone : Run (Step (bootInv 0x80250000 0x80300000 0x80310000) Buddy.held C) s
      [⟨s, .chdir 0x1000 2, s'⟩] s' :=
    Run.nil.snoc (Step.chdir hread hexec)
  have husable := (chdir_usable_iff hal (by decide) hrefill hr hready hone).1.mpr fun t ht => by
    rw [mem_singleton.mp ht]
    exact hsel
  exact ⟨C, s, s', hboot, hexec, hsel, husable _ mem_cons_self⟩

/-- The relative path `a` becomes the string as it is, and the empty path stops the kernel. -/
theorem chdir_keeps_relative :
    (∃ C s p', bootProc [97, 0] = some (C, s) ∧ StringAt s.proc.mem C.pagetable 0x1000 1 ∧
      sysChdir C.E C.pagetable C.buf 0x1000 s.proc = some (0, p') ∧
      NulAt p'.mem p'.cwd 1 ∧ textAt p'.mem p'.cwd 1 = ['a'] ∧ nextDir s.dir ['a'] = [['a']]) ∧
      ∃ C s, bootProc [0] = some (C, s) ∧ StringAt s.proc.mem C.pagetable 0x1000 0 ∧
        sysChdir C.E C.pagetable C.buf 0x1000 s.proc = none := by
  constructor
  · have hrun : ((bootProc [97, 0]).bind fun x =>
        (sysChdir x.1.E x.1.pagetable x.1.buf 0x1000 x.2.proc).map fun y =>
          decide (StringAt x.2.proc.mem x.1.pagetable 0x1000 1 ∧ x.2.dir = [] ∧ y.1 = 0 ∧
            y.2.mem.byte y.2.cwd = 97 ∧ y.2.mem.byte (y.2.cwd + 1) = 0)) = some true := by
      decide +kernel
    obtain ⟨⟨C, s⟩, hboot, hrun⟩ := bind_eq_some_iff.mp hrun
    obtain ⟨⟨ret, p'⟩, hcall, hfacts⟩ := map_eq_some_iff.mp hrun
    obtain ⟨hstring, hdir, hret, hchar, hnul⟩ := of_decide_eq_true hfacts
    subst hret
    refine ⟨C, s, p', hboot, hstring, hcall, ⟨fun i hi => ?_, hnul⟩, ?_, ?_⟩
    · have hi : i = 0 := by omega
      rw [hi, add_zero, hchar]
      decide
    · have htext : textAt p'.mem p'.cwd 1 = [Char.ofNat (p'.mem.byte (p'.cwd + 0))] := rfl
      rw [htext, add_zero, hchar]
    · rw [hdir]
      decide
  · have hrun : ((bootProc [0]).map fun x =>
        decide (StringAt x.2.proc.mem x.1.pagetable 0x1000 0 ∧
          (sysChdir x.1.E x.1.pagetable x.1.buf 0x1000 x.2.proc).isNone)) = some true := by
      decide +kernel
    obtain ⟨⟨C, s⟩, hboot, hfacts⟩ := map_eq_some_iff.mp hrun
    obtain ⟨hstring, hnone⟩ := of_decide_eq_true hfacts
    exact ⟨C, s, hboot, hstring, isNone_iff_eq_none.mp hnone⟩

end Hana.Chdir
