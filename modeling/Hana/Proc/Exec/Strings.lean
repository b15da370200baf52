import Hana.Proc.Exec.Space

/-!
# The strings of execve

`copyStrings` lays the strings out behind one another, each in a slot of a multiple of eight
bytes, and puts the offsets of the slots into the array of pointers. A string is copied exactly
if it ends in its page (`Copyable`); the first one that does not ends the loop.

The specifications are for every contents of user memory. What is written is the block for the
strings, the array and, by `pushStrings`, the next part of the stack page.
-/

namespace Hana.Exec

open Lib Vm Proc List Option

variable {A : Type}

/-- The room for a string of length `k`. -/
def slot (k : Nat) : Nat := align8 (k + 1)

/-- The room for strings of the given lengths. -/
def extent (ks : List Nat) : Nat := (ks.map slot).sum

/-- The place of the string with the number `j`. -/
def offset (ks : List Nat) (j : Nat) : Nat := extent (ks.take j)

/-- The byte is among the `n` bytes from `a` on. -/
abbrev InRange (a n x : Nat) : Prop := a ≤ x ∧ x < a + n

/-- The pointer with the number `i` of an array. -/
def argPtr (m : Mem A) (arr i : Nat) : Nat := leWord m.byte (arr + 8 * i) 8

/-- A string of length `k` at `p` that `copyinstr` finds: it ends in its page and is short enough. -/
structure Copyable (m : Mem A) (o p k : Nat) : Prop where
  lt : k < maxArgStrlen
  page : p % 4096 + k < 4096
  found : accepts m o p = true
  nul : NulAt m (phys m o p) k

variable {i dst p mem len : Nat} {src : List Nat}

section

variable {ks : List Nat} {k j : Nat}

lemma slot_bounds (hk : k < maxArgStrlen) : k + 1 ≤ slot k ∧ slot k ≤ maxArgStrlen := by
  unfold slot align8 maxArgStrlen at *
  omega

lemma extent_cons (k : Nat) (ks : List Nat) : extent (k :: ks) = slot k + extent ks := by
  rw [extent, extent, map_cons, sum_cons]

lemma offset_zero (ks : List Nat) : offset ks 0 = 0 := rfl

lemma offset_cons_succ (k : Nat) (ks : List Nat) (j : Nat) :
    offset (k :: ks) (j + 1) = slot k + offset ks j := by
  rw [offset, offset, take_succ_cons, extent_cons]

lemma offset_add_slot_le (hj : j < ks.length) : offset ks j + slot (ks.getD j 0) ≤ extent ks := by
  induction ks generalizing j with
  | nil => exact absurd hj (Nat.not_lt_zero j)
  | cons k ks ih =>
    cases j with
    | zero =>
      rw [offset_zero, extent_cons, getD_cons_zero]
      omega
    | succ j =>
      have hle := ih (Nat.lt_of_succ_lt_succ hj)
      rw [offset_cons_succ, extent_cons, getD_cons_succ]
      omega

/-! ## Words in memory -/

lemma length_leBytes (n v : Nat) : (leBytes n v).length = n := by
  rw [leBytes, length_map, length_range]

lemma leBytes_getD {n : Nat} (v : Nat) (hi : i < n) :
    (leBytes n v).getD i 0 = v / 256 ^ i % 256 := by
  rw [leBytes, getD_eq_getElem?_getD, List.getElem?_map, List.getElem?_range hi]
  rfl

variable {m m' m1 m0 : Mem A} {a v x : Nat}

lemma writeBytes_out (hx : ¬ InRange a src.length x) :
    (writeBytes a src m).byte x = m.byte x := if_neg hx

lemma writeBytes_in (hi : i < src.length) :
    (writeBytes a src m).byte (a + i) = src.getD i 0 := by
  have hin : a ≤ a + i ∧ a + i < a + src.length := ⟨Nat.le_add_right _ _, by omega⟩
  simp only [writeBytes, if_pos hin, Nat.add_sub_cancel_left]

lemma storeWord_out (hx : ¬ InRange a 8 x) : (storeWord a v m).byte x = m.byte x := by
  refine writeBytes_out ?_
  exact hx

lemma storeWord_word (a v : Nat) (m : Mem A) :
    leWord (storeWord a v m).byte a 8 = v % 2 ^ 64 := by
  refine leWord_bytes fun i hi => ?_
  rw [storeWord, writeBytes_in (by rw [length_leBytes]; exact hi), leBytes_getD v hi]

lemma moveBytes_out {src n : Nat} (hx : ¬ InRange dst n x) :
    (moveBytes dst src n m).byte x = m.byte x := if_neg hx

lemma moveBytes_in {src n : Nat} (hi : i < n) :
    (moveBytes dst src n m).byte (dst + i) = m.byte (src + i) := by
  have hin : dst ≤ dst + i ∧ dst + i < dst + n := ⟨Nat.le_add_right _ _, by omega⟩
  simp only [moveBytes, if_pos hin, Nat.add_sub_cancel_left]

/-! ## Copying the strings -/

variable {E : Env A} {o : Nat}

lemma phys_of_pte (hpte : m'.pte = m.pte) (o va : Nat) : phys m' o va = phys m o va := by
  simp only [phys, leaf_of_pte hpte]

lemma Copyable.unique {k' : Nat} (h : Copyable m o p k) (h' : Copyable m o p k') : k = k' :=
  h.nul.unique h'.nul

/-- Whether a string can be copied depends on the table and on the bytes of its page. -/
lemma Copyable.congr (h : Copyable m o p k) (hpte : m'.pte = m.pte)
    (hbyte : ∀ t, p % 4096 + t < 4096 → m'.byte (phys m o p + t) = m.byte (phys m o p + t)) :
    Copyable m' o p k := by
  have hpage := h.page
  refine ⟨h.lt, hpage, ?_, ?_, ?_⟩
  · rw [accepts_of_pte hpte]
    exact h.found
  · intro i hi
    rw [phys_of_pte hpte, hbyte i (by omega)]
    exact h.nul.1 i hi
  · rw [phys_of_pte hpte, hbyte k hpage]
    exact h.nul.2

/-- The pages that a copy can reach share no byte with the block for the strings and the array. -/
def PagesApart (m : Mem A) (o : Nat) (W : Nat → Prop) : Prop :=
  ∀ va, accepts m o va = true → ∀ j < 4096, ¬ W (pte2pa (leaf m o (va >>> 12)) + j)

lemma PagesApart.phys {W : Nat → Prop} {t : Nat} (h : PagesApart m o W)
    (hacc : accepts m o p = true) (ht : p % 4096 + t < 4096) : ¬ W (phys m o p + t) := by
  have hout := h p hacc (p % 4096 + t) ht
  rw [← add_assoc] at hout
  exact hout

/-- One string: it is copied to `dst`, or the call fails. -/
lemma copyinstr_string (hr : o ≠ E.kernelPagetable) (hp : p < 2 ^ 64)
    (hpages : PagesApart m o (InRange dst maxArgStrlen)) :
    ∃ size m', copyinstr E o dst p maxArgStrlen m = some (size, m') ∧
      m' = { m with byte := m'.byte } ∧
      (∀ x, ¬ InRange dst maxArgStrlen x → m'.byte x = m.byte x) ∧
      ((∃ k, Copyable m o p k ∧ toInt32 size = k + 1 ∧
        ∀ t ≤ k, m'.byte (dst + t) = m.byte (phys m o p + t)) ∨
      (toInt32 size < 0 ∧ ∀ k, ¬ Copyable m o p k)) := by
  have hbeyond : accepts m o p = true → ∀ i < maxArgStrlen, ∀ j, p % 4096 + j < 4096 →
      dst + i ≠ Vm.phys m o p + j := by
    intro hacc i hi j hj heq
    refine hpages.phys hacc hj ?_
    rw [← heq]
    exact ⟨Nat.le_add_right _ _, by omega⟩
  obtain ⟨size, m', hcopy, hrest, hother, hcases⟩ := copyinstr_spec hr hp hbeyond
  refine ⟨size, m', hcopy, hrest, fun x hx => hother x ?_, ?_⟩
  · omega
  · rcases hcases with ⟨k, hlt, hpage, hacc, hnul, rfl, hbytes⟩ | ⟨rfl, hnone⟩
    · refine .inl ⟨k, ⟨hlt, hpage, hacc, hnul⟩, ?_, hbytes⟩
      unfold toInt32
      omega
    · exact .inr ⟨by decide, fun k hk => hnone k hk.lt hk.page hk.found hk.nul⟩

/-- What `copyStrings` leaves behind for `todo` strings, the first of which has the number `i` and
the place `nbytes`. -/
structure Copied (o mem arr i nbytes : Nat) (ks : List Nat) (m m' : Mem A) : Prop where
  strings : ∀ j < ks.length, Copyable m o (argPtr m arr (i + j)) (ks.getD j 0)
  offsets : ∀ j < ks.length, argPtr m' arr (i + j) = nbytes + offset ks j
  bytes : ∀ j < ks.length, ∀ t ≤ ks.getD j 0, m'.byte (mem + (nbytes + offset ks j) + t) =
    m.byte (phys m o (argPtr m arr (i + j)) + t)

lemma copyStrings_spec (hr : o ≠ E.kernelPagetable) {arr n : Nat} (hn : n ≤ argSlots)
    (hapart : mem + maxArgStrlen * n ≤ arr ∨ arr + 8 * n ≤ mem) :
    ∀ (todo i nbytes : Nat) (m : Mem A), i + todo = n → nbytes ≤ maxArgStrlen * i →
      PagesApart m o (InRange mem (maxArgStrlen * n)) → PagesApart m o (InRange arr (8 * n)) →
      ∃ res m', copyStrings E o mem arr todo i nbytes m = some (res, m') ∧
        m' = { m with byte := m'.byte } ∧
        (∀ x, ¬ InRange (mem + nbytes) (maxArgStrlen * todo) x → ¬ InRange (arr + 8 * i) (8 * todo) x →
          m'.byte x = m.byte x) ∧
        ((∃ ks, ks.length = todo ∧ res = some (nbytes + extent ks) ∧ Copied o mem arr i nbytes ks m m') ∨
        (res = none ∧ ∃ j < todo, ∀ k, ¬ Copyable m o (argPtr m arr (i + j)) k)) := by
  intro todo
  induction todo with
  | zero =>
    intro i nbytes m _ _ _ _
    refine ⟨some nbytes, m, rfl, rfl, fun _ _ _ => rfl, .inl ⟨[], rfl, rfl, ?_, ?_, ?_⟩⟩
    · exact nofun
    · exact nofun
    · exact nofun
  | succ todo ih =>
    intro i nbytes m hi hnb hpmem hparr
    have hmul : maxArgStrlen * n = maxArgStrlen * i + maxArgStrlen * (todo + 1) := by
      rw [← hi, mul_add]
    have hmul' : maxArgStrlen * (todo + 1) = maxArgStrlen * todo + maxArgStrlen := Nat.mul_succ _ _
    have hptr : argPtr m arr i < 2 ^ 64 := leWord_lt _ _ 8
    have hpslot : PagesApart m o (InRange (mem + nbytes) maxArgStrlen) := by
      intro va hacc j hj hin
      refine hpmem va hacc j hj ?_
      omega
    obtain ⟨size, m1, hcopy, hrest, hother, hcases⟩ := copyinstr_string hr hptr hpslot
    obtain ⟨b, rfl⟩ : ∃ b, m1 = { m with byte := b } := ⟨_, hrest⟩
    rcases hcases with ⟨k, hk, hsize, hbytes⟩ | ⟨hneg, hnone⟩
    · have hslot := slot_bounds hk.lt
      have hstep : copyStrings E o mem arr (todo + 1) i nbytes m =
          copyStrings E o mem arr todo (i + 1) (nbytes + slot k)
            (storeWord (arr + 8 * i) nbytes { m with byte := b }) := by
        rw [copyStrings]
        have hnat : (toInt32 size).toNat = k + 1 := by
          omega
        have hge : ¬ toInt32 size < 0 := by
          omega
        have hcopy' : copyinstr E o (mem + nbytes) (leWord m.byte (arr + 8 * i) 8) maxArgStrlen m =
            some (size, { m with byte := b }) := hcopy
        simp only [hcopy', bind_eq_bind, bind_some, if_neg hge, hnat]
        rfl
      -- a turn writes one slot of the block and one element of the array
      have hchange : ∀ x, ¬ InRange (mem + nbytes) maxArgStrlen x → ¬ InRange (arr + 8 * i) 8 x →
          (storeWord (arr + 8 * i) nbytes { m with byte := b }).byte x = m.byte x := by
        intro x hx hx'
        rw [storeWord_out hx', hother x hx]
      obtain ⟨res, m', hrun, hrest', hother', hcases'⟩ := ih (i + 1) (nbytes + slot k)
        (storeWord (arr + 8 * i) nbytes { m with byte := b }) (by omega) (by
          rw [Nat.mul_succ]
          omega) hpmem hparr
      have hptr' : ∀ j, j < todo → argPtr (storeWord (arr + 8 * i) nbytes { m with byte := b }) arr
          (i + 1 + j) = argPtr m arr (i + (j + 1)) := by
        intro j hj
        rw [show i + 1 + j = i + (j + 1) by omega]
        refine leWord_congr fun t ht => hchange _ ?_ ?_
        · omega
        · omega
      have hpagebyte : ∀ p t, accepts m o p = true → p % 4096 + t < 4096 →
          (storeWord (arr + 8 * i) nbytes { m with byte := b }).byte (phys m o p + t) =
            m.byte (phys m o p + t) := by
        intro p t hacc ht
        have hmem := hpmem.phys hacc ht
        have harr := hparr.phys hacc ht
        refine hchange _ ?_ ?_
        · omega
        · omega
      refine ⟨res, m', hstep.trans hrun, hrest', ?_, ?_⟩
      · intro x hx hx'
        rw [hother' x ?_ ?_, hchange x ?_ ?_]
        · omega
        · omega
        · omega
        · omega
      · rcases hcases' with ⟨ks, hlen, rfl, hcop⟩ | ⟨rfl, j, hj, hno⟩
        · refine .inl ⟨k :: ks, by rw [length_cons, hlen], ?_, ?_, ?_, ?_⟩
          · rw [extent_cons, add_assoc]
          · intro j hj
            cases j with
            | zero => exact hk
            | succ j =>
              have hj' : j < ks.length := Nat.lt_of_succ_lt_succ hj
              have hstr := hcop.strings j hj'
              rw [hptr' j (by omega)] at hstr
              exact hstr.congr rfl fun t ht => (hpagebyte _ t hstr.found ht).symm
          · intro j hj
            cases j with
            | zero =>
              rw [offset_zero, add_zero, add_zero]
              have hword : argPtr m' arr i =
                  argPtr (storeWord (arr + 8 * i) nbytes { m with byte := b }) arr i := by
                refine leWord_congr fun t ht => hother' _ ?_ ?_
                · omega
                · omega
              rw [hword, argPtr, storeWord_word]
              unfold argSlots maxArgs at hn
              unfold maxArgStrlen at hnb
              omega
            | succ j =>
              have hoff := hcop.offsets j (Nat.lt_of_succ_lt_succ hj)
              rw [show i + (j + 1) = i + 1 + j by omega, hoff, offset_cons_succ]
              omega
          · intro j hj t ht
            cases j with
            | zero =>
              rw [getD_cons_zero] at ht
              have hout : ¬ InRange (arr + 8 * i) 8 (mem + nbytes + t) := by
                omega
              rw [offset_zero, add_zero, add_zero, hother' _ ?_ ?_, storeWord_out hout,
                hbytes t ht]
              · omega
              · omega
            | succ j =>
              have hj' : j < ks.length := Nat.lt_of_succ_lt_succ hj
              rw [getD_cons_succ] at ht
              have hb := hcop.bytes j hj' t ht
              have hstr := hcop.strings j hj'
              rw [hptr' j (by omega)] at hb hstr
              have hpage := hstr.page
              rw [offset_cons_succ, show nbytes + (slot k + offset ks j) = nbytes + slot k + offset ks j by
                omega, hb]
              exact hpagebyte _ t hstr.found (by omega)
        · refine .inr ⟨rfl, j + 1, by omega, fun k' hk' => hno k' ?_⟩
          rw [hptr' j hj]
          exact hk'.congr rfl fun t ht => hpagebyte _ t hk'.found ht
    · refine ⟨none, _, ?_, hrest, ?_, .inr ⟨rfl, 0, Nat.succ_pos _, hnone⟩⟩
      · have hcopy' : copyinstr E o (mem + nbytes) (leWord m.byte (arr + 8 * i) 8) maxArgStrlen m =
            some (size, { m with byte := b }) := hcopy
        rw [copyStrings]
        simp only [hcopy', bind_eq_bind, bind_some, if_pos hneg]
      · intro x hx _
        refine hother x ?_
        omega

end

/-! ## Moving them to the stack -/

/-- A part of the work on the stack: no table changes, the blocks that were allocated stay so, and
of the bytes that were taken only those in `W` are written. -/
structure Works (Inv : A → Prop) (Held : A → Nat → Nat → Prop) (lo hi : Nat) (W : Nat → Prop)
    (m m' : Mem A) : Prop where
  pte : m'.pte = m.pte
  inv : Inv m'.alloc
  held : ∀ {q k}, Held m.alloc q k → Held m'.alloc q k
  bytes : ∀ x, Taken Held lo hi m.alloc x → ¬ W x → m'.byte x = m.byte x

/-- The places that the work on the stack uses: the array `arr` is in the block of the kernel stack,
the page at `ustack` is another block, and the pages that a copy can reach are neither. -/
structure Desk (E : Env A) (Inv : A → Prop) (Held : A → Nat → Nat → Prop)
    (lo hi stack pages o arr ustack : Nat) (m : Mem A) : Prop where
  inv : Inv m.alloc
  user : o ≠ E.kernelPagetable
  block : Held m.alloc stack pages
  array : stack ≤ arr ∧ arr + 8 * argSlots ≤ stack + 4096 * pages
  page : Held m.alloc ustack 1
  apart : ustack + 4096 ≤ stack ∨ stack + 4096 * pages ≤ ustack
  frames : ∀ va, accepts m o va = true → ∀ j < 4096,
    Taken Held lo hi m.alloc (pte2pa (leaf m o (va >>> 12)) + j) ∧
      ¬ InBlock stack pages (pte2pa (leaf m o (va >>> 12)) + j) ∧
      ¬ InRange ustack 4096 (pte2pa (leaf m o (va >>> 12)) + j)

/-- The strings behind the pointers of the array can be copied, and these are their lengths. -/
def StringsAt (m : Mem A) (o arr : Nat) (ks : List Nat) : Prop :=
  ∀ j < ks.length, Copyable m o (argPtr m arr j) (ks.getD j 0)

/-- The strings stand on the stack at the page offset `4096 - used`, and their offsets are in the
array. -/
structure Moved (o arr ustack used : Nat) (ks : List Nat) (m m' : Mem A) : Prop where
  offsets : ∀ j < ks.length, argPtr m' arr j = offset ks j
  bytes : ∀ j < ks.length, ∀ t ≤ ks.getD j 0,
    m'.byte (ustack + (4096 - used) + offset ks j + t) = m.byte (phys m o (argPtr m arr j) + t)

section

variable {Inv : A → Prop} {Held : A → Nat → Nat → Prop} {lo hi stack pages : Nat} {E : Env A}
variable {m m1 m' : Mem A} {W W' : Nat → Prop} {o arr ustack used n : Nat} {ks : List Nat}

lemma Works.refl (hinv : Inv m.alloc) : Works Inv Held lo hi W m m :=
  ⟨rfl, hinv, fun h => h, fun _ _ _ => rfl⟩

lemma Works.trans (h : Works Inv Held lo hi W m m1) (h' : Works Inv Held lo hi W' m1 m') :
    Works Inv Held lo hi (fun x => W x ∨ W' x) m m' := by
  refine ⟨h'.pte.trans h.pte, h'.inv, fun hq => h'.held (h.held hq), fun x hx hW => ?_⟩
  rw [h'.bytes x (hx.mono h.held) fun hw => hW (.inr hw), h.bytes x hx fun hw => hW (.inl hw)]

lemma Works.mono (h : Works Inv Held lo hi W m m') (hW : ∀ x, W x → W' x) :
    Works Inv Held lo hi W' m m' :=
  ⟨h.pte, h.inv, h.held, fun x hx hno => h.bytes x hx fun hw => hno (hW x hw)⟩

lemma works_bytes (hinv : Inv m.alloc) {b : Nat → Nat} (hb : ∀ x, ¬ W x → b x = m.byte x) :
    Works Inv Held lo hi W m { m with byte := b } :=
  ⟨rfl, hinv, fun h => h, fun x _ hx => hb x hx⟩

section

variable (h : Desk E Inv Held lo hi stack pages o arr ustack m)
include h

lemma Desk.works
    (hw : Works Inv Held lo hi W m m') : Desk E Inv Held lo hi stack pages o arr ustack m' := by
  refine ⟨hw.inv, h.user, hw.held h.block, h.array, hw.held h.page, h.apart, ?_⟩
  intro va hacc j hj
  rw [accepts_of_pte hw.pte] at hacc
  rw [leaf_of_pte hw.pte]
  obtain ⟨htaken, hother⟩ := h.frames va hacc j hj
  exact ⟨htaken.mono hw.held, hother⟩

lemma Desk.taken_array {x : Nat}
    (hx : InRange arr (8 * argSlots) x) : Taken Held lo hi m.alloc x := by
  have harr := h.array
  exact .inl ⟨stack, pages, h.block, by omega, by omega⟩

lemma Desk.taken_page {x : Nat} (hx : InRange ustack 4096 x) : Taken Held lo hi m.alloc x := by
  exact .inl ⟨ustack, 1, h.page, by omega, by omega⟩

lemma Desk.array_page {x : Nat}
    (hx : InRange arr (8 * argSlots) x) : ¬ InRange ustack 4096 x := by
  have harr := h.array
  have hapart := h.apart
  omega

end

lemma stackMove_eq {src : Nat} (h : used ≤ 4096) :
    stackMove ustack used src len m = some (moveBytes (ustack + (4096 - used)) src len m) := if_pos h

lemma stackMove_none {src : Nat} (h : 4096 < used) :
    stackMove ustack used src len m = none := if_neg (Nat.not_le_of_lt h)

lemma stackStore_eq (h : used ≤ 4096) :
    stackStore ustack used src m = some (writeBytes (ustack + (4096 - used)) src m) := if_pos h

lemma stackStore_none (h : 4096 < used) :
    stackStore ustack used src m = none := if_neg (Nat.not_le_of_lt h)

/-- A block that is not taken is beside a range of bytes that are. -/
lemma apart_of_taken {a : A} {n : Nat} (b len : Nat) (hlen : 0 < len) (hn : 0 < n)
    (hfree : ∀ x, InRange p n x → ¬ Taken Held lo hi a x)
    (htaken : ∀ x, InRange b len x → Taken Held lo hi a x) : p + n ≤ b ∨ b + len ≤ p := by
  by_contra hno
  by_cases hpb : p ≤ b
  · exact hfree b ⟨hpb, by omega⟩ (htaken b ⟨le_rfl, by omega⟩)
  · exact hfree p ⟨le_rfl, by omega⟩ (htaken p ⟨by omega, by omega⟩)

/-- The outcomes of `moveStrings` when there is a block for the strings. -/
lemma moveStrings_spec (used : Nat) (hE : E.Ok lo hi Inv Held)
    (h : Desk E Inv Held lo hi stack pages o arr ustack m) (hn : n ≤ argSlots)
    (hk : buddyAlloc E (n * maxArgStrlen) m = some (mem, m1)) :
    (∃ ks, ks.length = n ∧ StringsAt m o arr ks ∧
      (used + extent ks ≤ 4096 → ∃ m',
        moveStrings E o arr ustack used n m = some (some (used + extent ks), m') ∧
        E.al.kfree mem m1.alloc = some m'.alloc ∧
        Works Inv Held lo hi (fun x => InRange arr (8 * argSlots) x ∨
          InRange (ustack + (4096 - (used + extent ks))) (extent ks) x) m m' ∧
        Moved o arr ustack (used + extent ks) ks m m') ∧
      (4096 < used + extent ks → moveStrings E o arr ustack used n m = none)) ∨
    ((∃ j < n, ∀ k, ¬ Copyable m o (argPtr m arr j) k) ∧ ∃ m',
      moveStrings E o arr ustack used n m = some (none, m') ∧
      Works Inv Held lo hi (InRange arr (8 * argSlots)) m m') := by
  obtain ⟨hpos, hle, hkalloc⟩ := buddyAlloc_cases hk
  have hn0 : 0 < n := by
    by_contra hno
    have hzero : n = 0 := by omega
    rw [hzero, zero_mul] at hpos
    exact absurd hpos (lt_irrefl 0)
  obtain ⟨hm1, hinv1, nb, hnb, _, hheld, hfree, howned, _⟩ :=
    kalloc_not_taken hE h.inv hpos hle hkalloc
  obtain ⟨a, rfl⟩ : ∃ a, m1 = { m with alloc := a } := ⟨_, hm1⟩
  have hblock : ∀ x, InRange mem (maxArgStrlen * n) x → ¬ Taken Held lo hi m.alloc x := by
    intro x hx
    refine hfree x ⟨hx.1, ?_⟩
    have hlt := hx.2
    rw [mul_comm] at hlt
    omega
  have harr : ∀ x, InRange arr (8 * n) x → InRange arr (8 * argSlots) x := by
    intro x hx
    omega
  have hapart := apart_of_taken arr (8 * n) (by omega) (by unfold maxArgStrlen; omega) hblock
    fun x hx => h.taken_array (harr x hx)
  have hpages : PagesApart m o (InRange mem (maxArgStrlen * n)) := by
    intro va hacc j hj hin
    exact hblock _ hin (h.frames va hacc j hj).1
  have hparr : PagesApart m o (InRange arr (8 * n)) := by
    intro va hacc j hj hin
    have hblk := (h.frames va hacc j hj).2.1
    have hstack := h.array
    have hin' := harr _ hin
    refine hblk ?_
    exact ⟨by omega, by omega⟩
  obtain ⟨res, m2, hcopy, hrest2, hother2, hcases⟩ := copyStrings_spec (n := n) h.user hn hapart n 0 0
    { m with alloc := a } (zero_add n) (Nat.zero_le _) hpages hparr
  obtain ⟨b, rfl⟩ : ∃ b, m2 = { m with alloc := a, byte := b } := ⟨_, hrest2⟩
  have hmem2 : Held a mem nb := (hheld mem nb).mpr (.inl ⟨rfl, rfl⟩)
  -- what the block holds is not seen by anybody else, and it is freed in the end
  have hquiet2 : ∀ x, Taken Held lo hi m.alloc x → ¬ InRange arr (8 * argSlots) x →
      b x = m.byte x := by
    intro x hx hno
    refine hother2 x ?_ ?_
    · exact fun hin => hblock x hin hx
    · exact fun hin => hno (harr x hin)
  have hdrop : ∀ {q k}, Held m.alloc q k → ¬ (q = mem ∧ k = nb) := by
    rintro q k hq ⟨rfl, rfl⟩
    exact howned ⟨q, k, hq, le_rfl, by omega⟩
  rcases hcases with ⟨ks, hlen, rfl, hcopied⟩ | ⟨rfl, j, hj, hno⟩
  · refine .inl ⟨ks, hlen, ?_, ?_, ?_⟩
    · intro j hj
      have hstr := hcopied.strings j hj
      rw [zero_add] at hstr
      exact { hstr with }
    · intro hfit
      rw [zero_add] at hcopy
      obtain ⟨a', hkfree, hinv', hheld'⟩ := hE.lawful.kfree_spec hinv1 hmem2
      refine ⟨{ moveBytes (ustack + (4096 - (used + extent ks))) mem (extent ks)
        { m with alloc := a, byte := b } with alloc := a', kfreed := m.kfreed ++ [mem] }, ?_, hkfree, ?_, ?_⟩
      · simp only [moveStrings, hk, hcopy, bind_eq_bind, bind_some, stackMove_eq hfit, kfree, moveBytes,
          hkfree]
      · refine ⟨rfl, hinv', fun hq => ?_, fun x hx hno => ?_⟩
        · exact (hheld' _ _).mpr ⟨(hheld _ _).mpr (.inr hq), hdrop hq⟩
        · rw [moveBytes_out fun hin => hno (.inr hin)]
          exact hquiet2 x hx fun hin => hno (.inl hin)
      · have hupage : ∀ x, InRange arr (8 * argSlots) x →
            ¬ InRange (ustack + (4096 - (used + extent ks))) (extent ks) x := by
          intro x hx hin
          refine h.array_page hx ?_
          omega
        refine ⟨fun j hj => ?_, fun j hj t ht => ?_⟩
        · have hoff := hcopied.offsets j hj
          rw [zero_add, zero_add] at hoff
          rw [← hoff]
          refine leWord_congr fun t ht => moveBytes_out (hupage _ ?_)
          omega
        · have hslot := offset_add_slot_le hj
          have hk1 := (slot_bounds (hcopied.strings j hj).lt).1
          have hb := hcopied.bytes j hj t ht
          rw [zero_add, zero_add] at hb
          refine Eq.trans ?_ hb
          rw [show ustack + (4096 - (used + extent ks)) + offset ks j + t =
            ustack + (4096 - (used + extent ks)) + (offset ks j + t) by omega, moveBytes_in (by omega),
            add_assoc mem]
    · intro hfull
      rw [zero_add] at hcopy
      simp only [moveStrings, hk, hcopy, bind_eq_bind, bind_some,
        stackMove_none hfull, bind_none]
  · refine .inr ⟨⟨j, hj, fun k hk' => hno k ?_⟩, ?_⟩
    · rw [zero_add]
      exact { hk' with }
    · obtain ⟨a', hkfree, hinv', hheld'⟩ := hE.lawful.kfree_spec hinv1 hmem2
      refine ⟨{ m with alloc := a', byte := b, kfreed := m.kfreed ++ [mem] }, ?_, rfl, hinv', fun hq => ?_,
        fun x hx hno => hquiet2 x hx hno⟩
      · simp only [moveStrings, hk, hcopy, bind_eq_bind, bind_some, kfree, hkfree]
      · exact (hheld' _ _).mpr ⟨(hheld _ _).mpr (.inr hq), hdrop hq⟩

end

end Hana.Exec
