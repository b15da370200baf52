import Hana.Proc.Exec.Strings

/-!
# The parts of the stack

The specifications of the functions that `buildStack` consists of: the stack page is mapped, the
pointers are fetched and the strings are copied to the page, and the vector and the arrays of
pointers follow. `ArgVec` is what a caller passes as `argv` or `envp`. A string of it that
crosses the end of a page cannot be copied, which is the only way to `execve_bad`.
-/

namespace Hana.Exec

open Lib Vm Proc List Option

variable {A : Type}

/-- An argument: the address of the string, and its length. -/
structure Arg where
  ptr : Nat
  len : Nat

/-- The user reads the word `w` at `va`. -/
def UserWord (m : Mem A) (r va w : Nat) : Prop :=
  (∀ b < 8, userPage m r (va + b) = true) ∧ leWord (fun x => m.byte (phys m r x)) va 8 = w

instance (m : Mem A) (r va w : Nat) : Decidable (UserWord m r va w) :=
  inferInstanceAs (Decidable (_ ∧ _))

/-- An array of pointers in user memory, with the strings behind them. -/
structure ArgArray (m : Mem A) (o uarr : Nat) (args : List Arg) : Prop where
  few : args.length < maxArgs
  ptr : ∀ i (hi : i < args.length), UserWord m o (uarr + 8 * i) args[i].ptr
  ne_zero : ∀ a ∈ args, a.ptr ≠ 0
  null : UserWord m o (uarr + 8 * args.length) 0
  string : ∀ a ∈ args, StringAt m o a.ptr a.len ∧ a.len < maxArgStrlen

/-- `argv` or `envp` as it is passed: `NULL` or an array. -/
def ArgVec (m : Mem A) (o uarr : Nat) (args : List Arg) : Prop :=
  uarr = 0 ∧ args = [] ∨ uarr ≠ 0 ∧ ArgArray m o uarr args

def lengths (args : List Arg) : List Nat := args.map Arg.len

/-- A string does not end in the page in which it starts. -/
def Crosses (args : List Arg) : Prop := ∃ a ∈ args, 4096 ≤ a.ptr % 4096 + a.len

/-- There is a block for the strings, and one of them cannot be copied. -/
def Blocked (al : Allocator A) (args : List Arg) (a : A) : Prop :=
  Crosses args ∧ ∃ p a₁, al.kalloc (args.length * maxArgStrlen) a = some (p, a₁)

/-- The strings come to the stack, of which `used` bytes are used, and the allocator goes over
to `a'`. -/
def Passed (al : Allocator A) (used uarr : Nat) (args : List Arg) (a a' : A) : Prop :=
  uarr = 0 ∧ a' = a ∨ uarr ≠ 0 ∧ args ≠ [] ∧ ¬ Crosses args ∧ used + extent (lengths args) ≤ 4096 ∧
    ∃ p a₁, al.kalloc (args.length * maxArgStrlen) a = some (p, a₁) ∧ al.kfree p a₁ = some a'

variable {w j stackTop : Nat}

section

variable {Inv : A → Prop} {Held : A → Nat → Nat → Prop} {lo hi stack pages : Nat} {E : Env A}
variable {m m1 m' : Mem A} {tab : Nat → Option Place} {o r arr ustack used n : Nat} {ks : List Nat}

/-! ## The stack page -/

variable {va p a used' str b : Nat} {W : Nat → Prop}

/-- An address whose page has an entry for the user. -/
lemma userPage_entry {pa flags : Nat} (hpa : pa < 2 ^ 64) (hflags : flags < 2 ^ 10)
    (hu : has (flags ||| pteV) pteU = true) (hframe : frameOf pa ≠ 0)
    (h : leaf m r (va >>> 12) = pa2pte pa ||| flags ||| pteV) :
    userPage m r va = decide (va < maxVa) ∧ phys m r va = frameOf pa + va % 4096 := by
  have hvalid := has_or_pteV (pa2pte pa ||| flags)
  have huser : has (pa2pte pa ||| flags ||| pteV) pteU = true :=
    (has_entry (i := 4) (by decide)).trans hu
  have hpa' := pte2pa_entry hpa hflags
  refine ⟨?_, ?_⟩
  · simp only [userPage, h, hvalid, huser, hpa', Bool.and_true, ne_eq, hframe, not_false_eq_true,
      decide_true]
  · rw [phys, h, hpa']

def stackFlags : Nat := pteU ||| pteRw

/-- The stack page is a new page of the allocator, and the entry for it is the only one that is
written. -/
lemma mapUserStack_spec (hE : E.Ok lo hi Inv Held) (hs : Shaped Inv Held m tab)
    (hr : tab r = some (rootPlace r)) (hdvd : 4096 ∣ va) (hva : va < 2 ^ 64)
    (h : mapUserStack E r va m = some (ustack, m')) :
    ∃ tab' a, E.al.kalloc pgSize m.alloc = some (ustack, a) ∧ Shaped Inv Held m' tab' ∧
      Builds Held r m tab m' tab' ∧ m'.byte = m.byte ∧ Held m'.alloc ustack 1 ∧
      (∀ x, InRange ustack 4096 x → ¬ Taken Held lo hi m.alloc x) ∧ 0 < ustack ∧ ustack < 2 ^ 64 ∧
      4096 ∣ ustack ∧
      ∀ vpn, leaf m' r vpn = if vpn % 2 ^ 27 = (va >>> 12) % 2 ^ 27
        then pa2pte ustack ||| stackFlags ||| pteV else leaf m r vpn := by
  simp only [mapUserStack, walk_noalloc, bind_eq_bind, bind_some,
    bind_eq_some_iff, Prod.exists, some.injEq, Prod.mk.injEq] at h
  obtain ⟨page, m1, hk, m2, hmap, pte, hpte, hustack, rfl⟩ := h
  obtain ⟨hs1, hb1⟩ := kalloc_builds (r := r) hE hs (by decide) (by decide) hk
  obtain ⟨hm1, _, n, _, hone, hheld, hfree, _, hpdvd, hlo, hhi⟩ :=
    kalloc_not_taken hE hs.alloc (by decide) (by decide) hk
  obtain rfl := hone (by decide)
  have hpos := hE.lo_pos
  have htop := hE.hi_lt
  obtain ⟨tab2, hs2, hb2⟩ := mappages_builds hE hs1 hr hmap
  obtain ⟨_, _, hbeside⟩ := mappages_beside hE hs1 hr hmap
  have hstored := mappages_stored hE hs1 hr (by omega) hmap
  have hcount : mapCount va pgSize = 1 := by
    rw [mapCount_eq hva (by decide) (by decide), pgSize]
    omega
  rw [hcount] at hstored
  have hhit : leaf m2 r (va >>> 12) = pa2pte page ||| stackFlags ||| pteV := by
    have hentry := hstored.hit 0 Nat.one_pos fun j hj hlt => by omega
    rw [zero_mul, add_zero, wrap64_of_lt (by omega)] at hentry
    exact hentry
  have hframe : ustack = page := by
    have hword : m2.pte pte = leaf m2 r (va >>> 12) := by rw [leaf, hpte]
    rw [← hustack, hword, hhit, pte2pa_entry (by omega) (by decide), frameOf]
    omega
  subst hframe
  obtain ⟨⟨q, a⟩, halloc, heq⟩ := bind_eq_some_iff.mp hk
  cases heq
  refine ⟨tab2, a, halloc, hs2, hb1.trans hb2, ?_, ?_, ?_, by omega, by omega, hpdvd, ?_⟩
  · rw [hbeside.byte]
  · exact hb2.held ((hheld _ _).mpr (.inl ⟨rfl, rfl⟩))
  · intro x hx
    refine hfree x ⟨hx.1, ?_⟩
    have hlt := hx.2
    omega
  · intro vpn
    split_ifs with hvpn
    · rw [leaf_eq_of_mod_eq m2 r hvpn, hhit]
    · refine hstored.miss vpn fun i hi => ?_
      obtain rfl : i = 0 := by omega
      exact hvpn

lemma stackVa_dvd (v : Vars A) : 4096 ∣ stackVa v := by
  have hdvd := pgRoundUp_dvd v.sz
  unfold stackVa wrap64 pgSize
  omega

lemma stackVa_lt (v : Vars A) : stackVa v < 2 ^ 64 := wrap64_lt _

/-- The places for the work on the stack, for either array. -/
lemma Running.desk {K : Kernel A} {v : Vars A} {tab' : Nat → Option Place}
    (h : Running K Inv Held lo hi stack pages v tab) (hs : Shaped Inv Held m tab')
    (hb : Builds Held v.pgtbl v.mem tab m tab') (hpage : Held m.alloc ustack 1)
    (hfree : ∀ x, InRange ustack 4096 x → ¬ Taken Held lo hi v.mem.alloc x) {arr : Nat}
    (harr : stack ≤ arr ∧ arr + 8 * argSlots ≤ stack + 4096 * pages) :
    Desk K.env Inv Held lo hi stack pages v.proc.pagetable arr ustack m := by
  have hslots : 0 < 8 * argSlots := by decide
  refine ⟨hs.alloc, h.user, hb.held h.block, harr, hpage, ?_, ?_⟩
  · refine apart_of_taken stack (4096 * pages) (by omega) (by decide) hfree fun x hx => ?_
    exact .inl ⟨stack, pages, h.block, hx.1, hx.2⟩
  · intro va hacc j hj
    have hleaf := hb.leaf h.root h.ne
    rw [hleaf]
    have hacc' : accepts v.mem v.proc.pagetable va = true := by
      simp only [accepts, hleaf] at hacc
      exact hacc
    obtain ⟨htaken, hblock⟩ := h.frames va hacc' j hj
    exact ⟨htaken.mono hb.held, hblock, fun hin => hfree _ hin htaken⟩

/-! ## Fetching the pointers -/

lemma countArgs_eq_some_iff (m : Mem A) (arr n i j : Nat) : countArgs m arr n i = some j ↔
    i ≤ j ∧ j < i + n ∧ argPtr m arr j = 0 ∧ ∀ t, i ≤ t → t < j → argPtr m arr t ≠ 0 := by
  induction n generalizing i with
  | zero =>
    simp only [countArgs, reduceCtorEq, false_iff]
    omega
  | succ n ih =>
    rw [countArgs]
    by_cases hzero : leWord m.byte (arr + 8 * i) 8 = 0
    · rw [if_pos hzero, some.injEq]
      constructor
      · rintro rfl
        exact ⟨le_rfl, by omega, hzero, fun t ht hlt => absurd hlt (not_lt.mpr ht)⟩
      · rintro ⟨hle, _, _, hpos⟩
        by_contra hne
        exact hpos i le_rfl (by omega) hzero
    · rw [if_neg hzero, ih]
      constructor
      · rintro ⟨hle, hlt, hj, hpos⟩
        refine ⟨by omega, by omega, hj, fun t ht htj => ?_⟩
        rcases eq_or_lt_of_le ht with rfl | ht
        · exact hzero
        · exact hpos t ht htj
      · rintro ⟨hle, hlt, hj, hpos⟩
        have hne : i ≠ j := by
          rintro rfl
          exact hzero hj
        exact ⟨by omega, by omega, hj, fun t ht htj => hpos t (by omega) htj⟩

lemma fetchArgs_eq (hE : E.Ok lo hi Inv Held)
    (h : Desk E Inv Held lo hi stack pages o arr ustack m) {uarr : Nat} (hu : uarr < 2 ^ 64) :
    ∃ k m1, FoundTo m o uarr (maxArgs * 8) k ∧ Fetched o arr uarr k m m1 ∧
      Works Inv Held lo hi (InRange arr (8 * argSlots)) m m1 ∧
      fetchArgs E o uarr arr m = (countArgs m1 arr argSlots 0).map fun n => (n, m1) := by
  have hrange := hE.lawful.range h.inv h.block
  have hlo := hE.lo_pos
  have harr := h.array
  have hbeyond : Beyond m o arr uarr (maxArgs * 8) := by
    intro i hi j hj hacc heq
    refine (h.frames _ hacc (wrap64 (uarr + j) % 4096) (Nat.mod_lt _ (by decide))).2.1 ?_
    have hphys : arr + i = pte2pa (leaf m o (wrap64 (uarr + j) >>> 12)) + wrap64 (uarr + j) % 4096 := heq
    unfold argSlots at harr
    exact ⟨by omega, by omega⟩
  obtain ⟨k, m1, hfound, hfetched, hcopy⟩ :=
    copyin_spec (E := E) h.user (by omega) hu (by decide) hbeyond
  have hle := hfound.le
  refine ⟨k, m1, hfound, hfetched, ?_, ?_⟩
  · rw [hfetched.rest]
    refine works_bytes h.inv fun x hx => hfetched.other x ?_
    unfold argSlots at hx
    omega
  · simp only [fetchArgs, hcopy, bind_eq_bind, bind_some]
    cases countArgs m1 arr argSlots 0 with
    | none => rfl
    | some n => rfl

/-! ## The strings -/

variable {args : List Arg} {uarr k : Nat}

lemma userPage_lt (h : userPage m o va = true) : va < maxVa := by
  simp only [userPage, Bool.and_eq_true, decide_eq_true_eq] at h
  exact h.1.1

lemma userPage_of_leaf (hleaf : ∀ vpn, leaf m' o vpn = leaf m o vpn) (va : Nat) :
    userPage m' o va = userPage m o va := by
  simp only [userPage, hleaf]

lemma phys_of_leaf (hleaf : ∀ vpn, leaf m' o vpn = leaf m o vpn) (va : Nat) :
    phys m' o va = phys m o va := by
  simp only [phys, hleaf]

lemma UserWord.congr (h : UserWord m o va w) (hleaf : ∀ vpn, leaf m' o vpn = leaf m o vpn)
    (hbyte : ∀ va, userPage m o va = true → m'.byte (phys m o va) = m.byte (phys m o va)) :
    UserWord m' o va w := by
  refine ⟨fun b hb => ?_, ?_⟩
  · rw [userPage_of_leaf hleaf]
    exact h.1 b hb
  · rw [← h.2]
    refine leWord_congr fun b hb => ?_
    rw [phys_of_leaf hleaf]
    exact hbyte _ (h.1 b hb)

lemma stringAt_congr (h : StringAt m o p k) (hleaf : ∀ vpn, leaf m' o vpn = leaf m o vpn)
    (hbyte : ∀ va, userPage m o va = true → m'.byte (phys m o va) = m.byte (phys m o va)) :
    StringAt m' o p k := by
  refine ⟨fun i hi => ?_, fun i hi => ?_, ?_⟩
  · rw [userPage_of_leaf hleaf]
    exact h.user i hi
  · rw [phys_of_leaf hleaf, hbyte _ (h.user i (le_of_lt hi))]
    exact h.chars i hi
  · rw [phys_of_leaf hleaf, hbyte _ (h.user k le_rfl)]
    exact h.nul

/-- The arguments depend on the table and the user's pages only. -/
lemma ArgVec.congr (h : ArgVec m o uarr args) (hleaf : ∀ vpn, leaf m' o vpn = leaf m o vpn)
    (hbyte : ∀ va, userPage m o va = true → m'.byte (phys m o va) = m.byte (phys m o va)) :
    ArgVec m' o uarr args := by
  rcases h with h | ⟨hne, h⟩
  · exact .inl h
  · exact .inr ⟨hne, h.few, fun i hi => (h.ptr i hi).congr hleaf hbyte, h.ne_zero,
      h.null.congr hleaf hbyte,
      fun a ha => ⟨stringAt_congr (h.string a ha).1 hleaf hbyte, (h.string a ha).2⟩⟩

lemma ArgArray.lt (h : ArgArray m o uarr args) : uarr < 2 ^ 64 := by
  have hfirst : userPage m o uarr = true := by
    cases hargs : args with
    | nil =>
      have hnull := h.null.1 0 (by decide)
      rw [hargs] at hnull
      exact hnull
    | cons a as => exact (h.ptr 0 (by rw [hargs]; exact Nat.succ_pos _)).1 0 (by decide)
  have hlt := (userPage_lt hfirst)
  unfold maxVa at hlt
  omega

lemma ArgVec.lt (h : ArgVec m o uarr args) : uarr < 2 ^ 64 := by
  rcases h with ⟨rfl, _⟩ | ⟨_, h⟩
  · decide
  · exact h.lt

lemma ArgArray.ptr_lt (h : ArgArray m o uarr args) {a : Arg} (ha : a ∈ args) : a.ptr < 2 ^ 64 := by
  obtain ⟨i, hi, rfl⟩ := getElem_of_mem ha
  rw [← (h.ptr i hi).2]
  exact leWord_lt _ _ 8

/-- The whole array is fetched, up to the null pointer. -/
lemma ArgArray.fetched (h : ArgArray m o uarr args) (hf : FoundTo m o uarr (maxArgs * 8) k)
    (hb : Fetched o arr uarr k m m1) {i : Nat} (hi : i ≤ args.length)
    (hw : UserWord m o (uarr + 8 * i) w) : argPtr m1 arr i = w := by
  have hle : ∀ j ≤ args.length, ∀ b < 8, userPage m o (uarr + 8 * j + b) = true := by
    intro j hj
    rcases eq_or_lt_of_le hj with rfl | hlt
    · exact h.null.1
    · exact (h.ptr j hlt).1
  have hreach : 8 * (args.length + 1) ≤ k := by
    by_contra hno
    have hfew := h.few
    have hacc := hle (k / 8) (by omega) (k % 8) (Nat.mod_lt _ (by decide))
    rw [show uarr + 8 * (k / 8) + k % 8 = uarr + k by omega] at hacc
    have hmax := userPage_lt hacc
    unfold maxVa at hmax
    have hstop := hf.stop (by omega)
    rw [wrap64_of_lt (by omega), accepts_of_userPage hacc] at hstop
    cases hstop
  rw [← hw.2]
  refine leWord_congr fun b hb' => ?_
  have hmax := userPage_lt (hw.1 b hb')
  unfold maxVa at hmax
  rw [show arr + 8 * i + b = arr + (8 * i + b) by omega, hb.bytes _ (by omega),
    wrap64_of_lt (by omega), show uarr + (8 * i + b) = uarr + 8 * i + b by omega]

lemma ArgArray.countArgs (h : ArgArray m o uarr args) (hf : FoundTo m o uarr (maxArgs * 8) k)
    (hb : Fetched o arr uarr k m m1) : countArgs m1 arr argSlots 0 = some args.length := by
  have hfew := h.few
  refine (countArgs_eq_some_iff m1 arr argSlots 0 args.length).mpr ⟨Nat.zero_le _, ?_, ?_, ?_⟩
  · unfold argSlots
    omega
  · exact h.fetched hf hb le_rfl h.null
  · intro t _ ht
    rw [h.fetched hf hb (le_of_lt ht) (h.ptr t ht)]
    exact h.ne_zero _ (getElem_mem ht)

lemma copyable_of_stringAt (h : StringAt m o p k) (hk : k < maxArgStrlen) (hp : p < 2 ^ 64)
    (hpage : p % 4096 + k < 4096) : Copyable m o p k := by
  obtain ⟨huser, hnul⟩ := (stringAt_iff hp hpage).mp h
  exact ⟨hk, hpage, accepts_of_userPage huser, hnul⟩

/-- The search for the end of the string stops with the page. -/
lemma not_copyable_of_crosses (h : StringAt m o p k) (hp : p < 2 ^ 64)
    (hpage : 4096 ≤ p % 4096 + k) (k' : Nat) : ¬ Copyable m o p k' := by
  intro hc
  have hpage' := hc.page
  refine h.chars k' (by omega) ?_
  rw [phys_add hp hpage']
  exact hc.nul.2

/-- The user's pages are not written by the work on the stack. -/
lemma Desk.user_byte (h : Desk E Inv Held lo hi stack pages o arr ustack m)
    (hw : Works Inv Held lo hi W m m')
    (hW : ∀ x, W x → InBlock stack pages x ∨ InRange ustack 4096 x) (va : Nat)
    (huser : userPage m o va = true) : m'.byte (phys m o va) = m.byte (phys m o va) := by
  obtain ⟨htaken, hblock, hpage⟩ :=
    h.frames va (accepts_of_userPage huser) (va % 4096) (Nat.mod_lt _ (by decide))
  refine hw.bytes _ htaken fun hin => ?_
  rcases hW _ hin with hin | hin
  · exact hblock hin
  · exact hpage hin

lemma Desk.array_block (h : Desk E Inv Held lo hi stack pages o arr ustack m) {x : Nat}
    (hx : InRange arr (8 * argSlots) x) : InBlock stack pages x := by
  have harr := h.array
  exact ⟨by omega, by omega⟩

lemma ArgVec.works (ha : ArgVec m o uarr args)
    (h : Desk E Inv Held lo hi stack pages o arr ustack m) (hw : Works Inv Held lo hi W m m')
    (hW : ∀ x, W x → InBlock stack pages x ∨ InRange ustack 4096 x) : ArgVec m' o uarr args :=
  ha.congr (leaf_of_pte hw.pte o) (h.user_byte hw hW)

/-- The strings can be copied exactly if none crosses the end of its page. -/
lemma ArgArray.copyable (h : ArgArray m o uarr args) (hno : ¬ Crosses args) {a : Arg}
    (ha : a ∈ args) : Copyable m o a.ptr a.len := by
  obtain ⟨hstr, hlen⟩ := h.string a ha
  refine copyable_of_stringAt hstr hlen (h.ptr_lt ha) ?_
  by_contra hpage
  exact hno ⟨a, ha, by omega⟩

/-- The strings that were copied are those of the arguments: the length of a string is where its
first NUL is. -/
lemma ArgArray.lengths_eq (h : ArgArray m o uarr args)
    (hptr : ∀ j (hj : j < args.length), argPtr m arr j = args[j].ptr) (hlen : ks.length = args.length)
    (hstr : StringsAt m o arr ks) : ks = lengths args ∧
      ∀ j (hj : j < args.length), args[j].ptr % 4096 + args[j].len < 4096 := by
  have hpage : ∀ j (hj : j < args.length), args[j].ptr % 4096 + args[j].len < 4096 := by
    intro j hj
    have hcop := hstr j (by omega)
    rw [hptr j hj] at hcop
    have hmem := getElem_mem hj
    by_contra hno
    exact not_copyable_of_crosses (h.string _ hmem).1 (h.ptr_lt hmem) (by omega) _ hcop
  refine ⟨ext_getElem (by rw [lengths, length_map]; exact hlen) fun j hj hj' => ?_, hpage⟩
  rw [lengths, length_map] at hj'
  have hcop := hstr j hj
  rw [hptr j hj', getD_eq_getElem ks 0 hj] at hcop
  have hmem := getElem_mem hj'
  have hcop' := copyable_of_stringAt (h.string _ hmem).1 (h.string _ hmem).2 (h.ptr_lt hmem)
    (hpage j hj')
  simp only [lengths, getElem_map]
  exact hcop.unique hcop'

lemma lengths_getD (hj : j < args.length) : (lengths args).getD j 0 = args[j].len := by
  rw [getD_eq_getElem _ 0 (by rw [lengths, length_map]; exact hj)]
  simp only [lengths, getElem_map]

lemma pushStrings_eq (ustack used : Nat) (hne : uarr ≠ 0)
    (hf : fetchArgs E o uarr arr m = (countArgs m1 arr argSlots 0).map fun n => (n, m1)) :
    pushStrings E o uarr arr ustack used m = (countArgs m1 arr argSlots 0).bind fun n =>
      (moveStrings E o arr ustack used n m1).map fun res => (res.1.map fun used => (n, used), res.2) := by
  rw [pushStrings, if_neg hne, hf]
  cases countArgs m1 arr argSlots 0 with
  | none => rfl
  | some n =>
    cases hmove : moveStrings E o arr ustack used n m1 with
    | none => simp only [map_some, bind_eq_bind, bind_some, hmove,
        bind_none, map_none]
    | some res => simp only [map_some, bind_eq_bind, bind_some, hmove]

/-- The strings are on the stack, whatever they are; and they are those of the arguments. -/
lemma pushStrings_next (hE : E.Ok lo hi Inv Held)
    (h : Desk E Inv Held lo hi stack pages o arr ustack m) (hu : uarr < 2 ^ 64)
    (hused : used ≤ 4096) (hp : pushStrings E o uarr arr ustack used m = some (some (n, used'), m')) :
    ∃ ks, ks.length = n ∧ n ≤ argSlots ∧ (uarr ≠ 0 → 0 < n) ∧ used' = used + extent ks ∧
      used' ≤ 4096 ∧
      Works Inv Held lo hi (fun x => InRange arr (8 * argSlots) x ∨
        InRange (ustack + (4096 - used')) (extent ks) x) m m' ∧
      (∀ j < n, argPtr m' arr j = offset ks j) ∧
      ∀ args, ArgVec m o uarr args → ks = lengths args ∧
        ∀ j (hj : j < args.length), args[j].ptr % 4096 + args[j].len < 4096 ∧
          ∀ t ≤ args[j].len, m'.byte (ustack + (4096 - used') + offset ks j + t) =
            m.byte (phys m o args[j].ptr + t) := by
  by_cases hnull : uarr = 0
  · rw [pushStrings, if_pos hnull, some.injEq, Prod.mk.injEq, some.injEq,
      Prod.mk.injEq] at hp
    obtain ⟨⟨rfl, rfl⟩, rfl⟩ := hp
    refine ⟨[], rfl, Nat.zero_le _, fun hne => absurd hnull hne, rfl, hused, Works.refl h.inv,
      nofun, ?_⟩
    intro args hargs
    rcases hargs with ⟨_, rfl⟩ | ⟨hne, _⟩
    · exact ⟨rfl, nofun⟩
    · exact absurd hnull hne
  · obtain ⟨k, m1, hfound, hfetched, hw1, hfetch⟩ := fetchArgs_eq hE h hu
    rw [pushStrings_eq ustack used hnull hfetch] at hp
    obtain ⟨n', hcount, hp⟩ := bind_eq_some_iff.mp hp
    obtain ⟨⟨res, m2⟩, hmove, hres⟩ := map_eq_some_iff.mp hp
    rw [Prod.mk.injEq, map_eq_some_iff] at hres
    obtain ⟨⟨used1, hsome, heq⟩, rfl⟩ := hres
    cases hsome
    cases heq
    have hslots := (countArgs_eq_some_iff _ _ _ _ _).mp hcount
    have h1 := h.works hw1
    obtain ⟨⟨mem, m3⟩, halloc, _⟩ := bind_eq_some_iff.mp hmove
    have hpos : 0 < n := Nat.pos_of_mul_pos_right (buddyAlloc_cases halloc).1
    rcases moveStrings_spec used hE h1 (by omega) halloc with
        ⟨ks, hlen, hstr, hfit, hfull⟩ | ⟨_, m4, hnone, _⟩
    · by_cases hle : used + extent ks ≤ 4096
      · obtain ⟨m4, hmove', _, hw2, hmoved⟩ := hfit hle
        rw [hmove] at hmove'
        cases hmove'
        refine ⟨ks, hlen, by omega, fun _ => hpos, rfl, hle, (hw1.trans hw2).mono ?_,
          fun j hj => hmoved.offsets j (by omega), ?_⟩
        · rintro x (hx | hx)
          · exact .inl hx
          · exact hx
        · intro args hargs
          have hargs1 := hargs.works h hw1 fun x hx => .inl (h.array_block hx)
          obtain ⟨_, ha⟩ := hargs.resolve_left fun hand => hnull hand.1
          obtain ⟨_, ha1⟩ := hargs1.resolve_left fun hand => hnull hand.1
          rw [ha.countArgs hfound hfetched, some.injEq] at hcount
          have hptr : ∀ j (hj : j < args.length), argPtr m1 arr j = args[j].ptr :=
            fun j hj => ha.fetched hfound hfetched (le_of_lt hj) (ha.ptr j hj)
          obtain ⟨hks, hpage⟩ := ha1.lengths_eq hptr (by omega) hstr
          refine ⟨hks, fun j hj => ⟨hpage j hj, fun t ht => ?_⟩⟩
          have hlenj : ks.getD j 0 = args[j].len := by
            rw [hks]
            exact lengths_getD hj
          rw [hmoved.bytes j (by omega) t (by rw [hlenj]; exact ht), hptr j hj, phys_of_pte hw1.pte]
          have hmem := getElem_mem hj
          have hpg := hpage j hj
          rw [← phys_add (ha.ptr_lt hmem) (by omega)]
          exact h.user_byte hw1 (fun x hx => .inl (h.array_block hx)) _
            ((ha.string _ hmem).1.user t ht)
      · rw [hfull (by omega)] at hmove
        cases hmove
    · rw [hmove] at hnone
      cases hnone

/-- The other array can still be fetched when the strings of one are on the stack. -/
lemma pushStrings_after (hE : E.Ok lo hi Inv Held)
    (h : Desk E Inv Held lo hi stack pages o arr ustack m) {arr' : Nat}
    (h' : Desk E Inv Held lo hi stack pages o arr' ustack m) (hu : uarr < 2 ^ 64)
    (hused : used ≤ 4096) (hp : pushStrings E o uarr arr ustack used m = some (some (n, used'), m')) :
    Desk E Inv Held lo hi stack pages o arr' ustack m' ∧
      ∀ {u args}, ArgVec m o u args → ArgVec m' o u args := by
  obtain ⟨ks, _, _, _, huse, hle, hw, _⟩ := pushStrings_next hE h hu hused hp
  refine ⟨h'.works hw, fun ha => ha.works h hw fun x hx => ?_⟩
  rcases hx with hx | hx
  · exact .inl (h.array_block hx)
  · refine .inr ?_
    omega

/-- The outcomes for an array of arguments, when there is a block for the strings. -/
lemma pushStrings_outcome (used : Nat) (hE : E.Ok lo hi Inv Held)
    (h : Desk E Inv Held lo hi stack pages o arr ustack m) (hne : uarr ≠ 0)
    (ha : ArgArray m o uarr args) :
    pushStrings E o uarr arr ustack used m = none ∧
      (∀ p a, args ≠ [] → E.al.kalloc (args.length * maxArgStrlen) m.alloc = some (p, a) →
        ¬ Crosses args ∧ 4096 < used + extent (lengths args)) ∨
    ∃ p a, args ≠ [] ∧ E.al.kalloc (args.length * maxArgStrlen) m.alloc = some (p, a) ∧
      ((Crosses args ∧ ∃ m', pushStrings E o uarr arr ustack used m = some (none, m')) ∨
      (¬ Crosses args ∧ used + extent (lengths args) ≤ 4096 ∧ ∃ m',
        pushStrings E o uarr arr ustack used m =
          some (some (args.length, used + extent (lengths args)), m') ∧
        E.al.kfree p a = some m'.alloc)) := by
  obtain ⟨k, m1, hfound, hfetched, hw1, hfetch⟩ := fetchArgs_eq hE h ha.lt
  have hrun := pushStrings_eq ustack used hne hfetch
  rw [ha.countArgs hfound hfetched, bind_some] at hrun
  have halloc1 : m1.alloc = m.alloc := by rw [hfetched.rest]
  have hptr : ∀ j (hj : j < args.length), argPtr m1 arr j = args[j].ptr :=
    fun j hj => ha.fetched hfound hfetched (le_of_lt hj) (ha.ptr j hj)
  have hargs1 := ArgVec.works (.inr ⟨hne, ha⟩) h hw1 fun x hx => .inl (h.array_block hx)
  obtain ⟨_, ha1⟩ := hargs1.resolve_left fun hand => hne hand.1
  have hfew := ha.few
  cases hblock : buddyAlloc E (args.length * maxArgStrlen) m1 with
  | none =>
    refine .inl ⟨?_, fun p a hnil halloc => ?_⟩
    · rw [hrun, moveStrings, hblock]
      rfl
    · have hpos : 0 < args.length := length_pos_iff.mpr hnil
      rw [buddyAlloc, if_neg (by unfold maxArgStrlen; unfold maxArgs at hfew; omega), kalloc, halloc1,
        halloc] at hblock
      cases hblock
  | some res =>
    obtain ⟨p, m2⟩ := res
    obtain ⟨hpos, _, hk⟩ := buddyAlloc_cases hblock
    obtain ⟨⟨p', a⟩, halloc, heq⟩ := bind_eq_some_iff.mp hk
    cases heq
    rw [halloc1] at halloc
    have hnil : args ≠ [] := by
      rintro rfl
      exact absurd hpos (lt_irrefl 0)
    rcases moveStrings_spec used hE (h.works hw1)
        (by unfold argSlots; omega) hblock with ⟨ks, hlen, hstr, hfit, hfull⟩ | ⟨⟨j, hj, hno⟩, m3, hnone, _⟩
    · obtain ⟨rfl, hpage⟩ := ha1.lengths_eq hptr hlen hstr
      have hcross : ¬ Crosses args := by
        rintro ⟨b, hb, hout⟩
        obtain ⟨j, hj, rfl⟩ := getElem_of_mem hb
        have hin := hpage j hj
        omega
      by_cases hle : used + extent (lengths args) ≤ 4096
      · obtain ⟨m3, hmove, hfree, _⟩ := hfit hle
        refine .inr ⟨p, a, hnil, halloc, .inr ⟨hcross, hle, m3, ?_, hfree⟩⟩
        rw [hrun, hmove]
        rfl
      · refine .inl ⟨?_, fun _ _ _ _ => ⟨hcross, by omega⟩⟩
        rw [hrun, hfull (by omega)]
        rfl
    · refine .inr ⟨p, a, hnil, halloc, .inl ⟨?_, m3, ?_⟩⟩
      · by_contra hcross
        have hcop := ha1.copyable hcross (getElem_mem hj)
        rw [← hptr j hj] at hcop
        exact hno _ hcop
      · rw [hrun, hnone]
        rfl

lemma crosses_ne_nil (h : Crosses args) : args ≠ [] := by
  obtain ⟨a, ha, _⟩ := h
  exact ne_nil_of_mem ha

/-- The jump to `execve_bad`. -/
lemma pushStrings_bad_iff (used : Nat) (hE : E.Ok lo hi Inv Held)
    (h : Desk E Inv Held lo hi stack pages o arr ustack m) (ha : ArgVec m o uarr args) :
    (∃ m', pushStrings E o uarr arr ustack used m = some (none, m')) ↔ Blocked E.al args m.alloc := by
  rcases ha with ⟨rfl, rfl⟩ | ⟨hne, ha⟩
  · constructor
    · rintro ⟨m', hp⟩
      cases hp
    · rintro ⟨hcross, _⟩
      exact absurd rfl (crosses_ne_nil hcross)
  · rcases pushStrings_outcome used hE h hne ha with
        ⟨hnone, hfull⟩ | ⟨p, a, _, halloc, ⟨hcross, hbad⟩ | ⟨hcross, _, m', hnext, _⟩⟩
    · constructor
      · rintro ⟨m', hp⟩
        rw [hnone] at hp
        cases hp
      · rintro ⟨hcross, p, a, halloc⟩
        exact absurd hcross (hfull p a (crosses_ne_nil hcross) halloc).1
    · exact ⟨fun _ => ⟨hcross, p, a, halloc⟩, fun _ => hbad⟩
    · constructor
      · rintro ⟨m1, hp⟩
        rw [hnext] at hp
        cases hp
      · rintro ⟨hcross', _⟩
        exact absurd hcross' hcross

lemma pushStrings_next_iff (hE : E.Ok lo hi Inv Held)
    (h : Desk E Inv Held lo hi stack pages o arr ustack m) (ha : ArgVec m o uarr args) (a' : A) :
    (∃ m', m'.alloc = a' ∧ pushStrings E o uarr arr ustack used m =
      some (some (args.length, used + extent (lengths args)), m')) ↔
    Passed E.al used uarr args m.alloc a' := by
  rcases ha with ⟨rfl, rfl⟩ | ⟨hne, ha⟩
  · constructor
    · rintro ⟨m', rfl, hp⟩
      cases hp
      exact .inl ⟨rfl, rfl⟩
    · rintro (⟨_, rfl⟩ | ⟨hne, _⟩)
      · exact ⟨m, rfl, rfl⟩
      · exact absurd rfl hne
  · rcases pushStrings_outcome used hE h hne ha with
        ⟨hnone, hfull⟩ | ⟨p, a, hnil, halloc, ⟨hcross, m', hbad⟩ | ⟨hcross, hle, m', hnext, hfree⟩⟩
    · constructor
      · rintro ⟨m', _, hp⟩
        rw [hnone] at hp
        cases hp
      · rintro (⟨hnull, _⟩ | ⟨_, hnil, _, hle, p, a, halloc, _⟩)
        · exact absurd hnull hne
        · have hlt := (hfull p a hnil halloc).2
          omega
    · constructor
      · rintro ⟨m1, _, hp⟩
        rw [hbad] at hp
        cases hp
      · rintro (⟨hnull, _⟩ | ⟨_, _, hno, _⟩)
        · exact absurd hnull hne
        · exact absurd hcross hno
    · constructor
      · rintro ⟨m1, rfl, hp⟩
        rw [hnext] at hp
        cases hp
        exact .inr ⟨hne, hnil, hcross, hle, p, a, halloc, hfree⟩
      · rintro (⟨hnull, _⟩ | ⟨_, _, _, _, q, a1, halloc', hfree'⟩)
        · exact absurd hnull hne
        · rw [halloc] at halloc'
          cases halloc'
          rw [hfree] at hfree'
          cases hfree'
          exact ⟨m', rfl, hnext⟩

/-! ## The arrays on the stack -/

lemma pushPointers_spec (h : pushPointers ustack arr str n used m = some (used', m'))
    (hapart : ∀ x, InRange arr (8 * n) x → ¬ InRange ustack 4096 x) :
    used' = used + 8 * n ∧ (0 < n → used' ≤ 4096) ∧ m' = { m with byte := m'.byte } ∧
      (∀ x, ¬ InRange (ustack + (4096 - used')) (8 * n) x → m'.byte x = m.byte x) ∧
      ∀ i < n, leWord m'.byte (ustack + (4096 - used') + 8 * i) 8 =
        wrap64 (str + argPtr m arr i) % 2 ^ 64 := by
  induction n generalizing used m with
  | zero =>
    cases h
    exact ⟨rfl, fun hpos => absurd hpos (lt_irrefl 0), rfl, fun _ _ => rfl,
      nofun⟩
  | succ n ih =>
    obtain ⟨m1, hstore, h⟩ := bind_eq_some_iff.mp h
    by_cases hfit : used + 8 ≤ 4096
    · rw [stackStore_eq hfit, some.injEq] at hstore
      obtain ⟨hused, hle, hrest, hother, hwords⟩ := ih h fun x hx => hapart x (by
        omega)
      have hstored : ∀ x, ¬ InRange (ustack + (4096 - (used + 8))) 8 x → m1.byte x = m.byte x := by
        intro x hx
        rw [← hstore]
        refine writeBytes_out ?_
        exact hx
      have hused' : used' = used + 8 * (n + 1) := by omega
      have hfit' : used' ≤ 4096 := by
        by_cases hn : 0 < n
        · exact hle hn
        · omega
      refine ⟨hused', fun _ => hfit', ?_, ?_, ?_⟩
      · rw [hrest, ← hstore]
        rfl
      · intro x hx
        rw [hother x ?_, hstored x ?_]
        · omega
        · omega
      · intro i hi
        rcases Nat.lt_succ_iff_lt_or_eq.mp hi with hlt | rfl
        · rw [hwords i hlt]
          have hsame : argPtr m1 arr i = argPtr m arr i := by
            refine leWord_congr fun t ht => hstored _ fun hin => ?_
            refine hapart (arr + 8 * i + t) ?_ ?_
            · omega
            · omega
          rw [hsame]
        · have hword : leWord m'.byte (ustack + (4096 - used') + 8 * i) 8 =
              leWord m1.byte (ustack + (4096 - (used + 8))) 8 := by
            refine leWord_congr fun t ht => ?_
            rw [show ustack + (4096 - used') + 8 * i + t = ustack + (4096 - (used + 8)) + t by omega]
            refine hother _ ?_
            omega
          rw [hword, ← hstore]
          exact storeWord_word _ _ _
    · rw [stackStore_none (by omega)] at hstore
      cases hstore

/-- Of the stack page, only what is between the uses `used` and `used'` is written. -/
def PageWrites (ustack used used' : Nat) (m m' : Mem A) : Prop :=
  ∀ x, InRange ustack 4096 x → ¬ (ustack + (4096 - used') ≤ x ∧ x < ustack + (4096 - used)) →
    m'.byte x = m.byte x

lemma PageWrites.trans {c : Nat} (h : PageWrites ustack a b m m1)
    (h' : PageWrites ustack b c m1 m') (hab : a ≤ b) (hbc : b ≤ c) :
    PageWrites ustack a c m m' := by
  intro x hx hno
  rw [h' x hx (by omega), h x hx (by omega)]

lemma PageWrites.mono {a' b' : Nat} (h : PageWrites ustack a b m m') (ha : a' ≤ a) (hb : b ≤ b') :
    PageWrites ustack a' b' m m' :=
  fun x hx hno => h x hx (by omega)

/-- A word outside of what is written. -/
lemma PageWrites.word (h : PageWrites ustack a b m m') (hp : p + 8 ≤ 4096)
    (hout : p + 8 ≤ 4096 - b ∨ 4096 - a ≤ p) :
    leWord m'.byte (ustack + p) 8 = leWord m.byte (ustack + p) 8 := by
  refine leWord_congr fun t ht => h _ ?_ ?_
  · omega
  · omega

lemma Works.pageWrites (h : Desk E Inv Held lo hi stack pages o arr ustack m)
    (hw : Works Inv Held lo hi (fun x => InRange arr (8 * argSlots) x ∨
      InRange (ustack + (4096 - used')) (used' - used) x) m m')
    (hab : used ≤ used') (hle : used' ≤ 4096) :
    PageWrites ustack used used' m m' := by
  intro x hx hno
  refine hw.bytes x (h.taken_page hx) ?_
  rintro (hin | hin)
  · exact h.array_page hin hx
  · refine hno ⟨hin.1, ?_⟩
    have hlt := hin.2
    omega

lemma Works.shaped (hw : Works Inv Held lo hi W m m') (hs : Shaped Inv Held m tab) :
    Shaped Inv Held m' tab := by
  have hs' : Shaped Inv Held { m with pte := m'.pte } tab := shaped_of_same hs rfl hw.pte
  exact ⟨{ hs'.tables with }, hw.inv, fun ht => hw.held (hs.held ht)⟩

lemma Works.builds (hw : Works Inv Held lo hi W m m') :
    Builds Held r m tab m' tab := by
  refine ⟨fun h => h, fun h => .inl h, fun h _ => h, hw.held, ?_, fun _ _ => leaf_of_pte hw.pte _⟩
  rw [hw.pte]
  exact fun _ _ _ => rfl

/-- An array that is not written keeps its words. -/
lemma Works.argPtr (h : Desk E Inv Held lo hi stack pages o arr ustack m)
    (hw : Works Inv Held lo hi W m m') (hW : ∀ x, InRange arr (8 * argSlots) x → ¬ W x)
    (hj : j < argSlots) : argPtr m' arr j = argPtr m arr j := by
  refine leWord_congr fun t ht => ?_
  have hin : InRange arr (8 * argSlots) (arr + 8 * j + t) := by
    omega
  exact hw.bytes _ (h.taken_array hin) (hW _ hin)

lemma works_page (hinv : Inv m.alloc) (hrest : m' = { m with byte := m'.byte })
    (hb : ∀ x, ¬ (ustack + (4096 - b) ≤ x ∧ x < ustack + (4096 - a)) → m'.byte x = m.byte x) :
    Works Inv Held lo hi (InRange ustack 4096) m m' ∧ PageWrites ustack a b m m' := by
  refine ⟨?_, fun x _ hno => hb x hno⟩
  rw [hrest]
  refine works_bytes hinv fun x hx => hb x fun hin => hx ?_
  omega

/-- The bytes that the vector for the interpreter takes. -/
def auxUse (hasInterp : Bool) : Nat := if hasInterp then 96 else 0

/-- The bytes that an array of `n` pointers takes, with the word above it. -/
def arrayUse (uarr n : Nat) : Nat := if uarr = 0 then 0 else 8 + 8 * n

lemma pushAuxv_spec {hasInterp : Bool} {elf : Ehdr} (hused : used ≤ 4096)
    (h : pushAuxv hasInterp elf ustack used m = some (used', m')) :
    used' = used + auxUse hasInterp ∧ used' ≤ 4096 ∧ m' = { m with byte := m'.byte } ∧
      ∀ x, ¬ (ustack + (4096 - used') ≤ x ∧ x < ustack + (4096 - used)) → m'.byte x = m.byte x := by
  have hlen : (auxv elf).length = 96 := by
    rfl
  cases hasInterp with
  | false =>
    cases h
    exact ⟨rfl, hused, rfl, fun _ _ => rfl⟩
  | true =>
    obtain ⟨m1, hstore, heq⟩ := map_eq_some_iff.mp h
    cases heq
    by_cases hfit : used + 96 ≤ 4096
    · rw [stackStore_eq hfit, some.injEq] at hstore
      subst hstore
      refine ⟨rfl, hfit, rfl, fun x hx => writeBytes_out ?_⟩
      omega
    · rw [stackStore_none (by omega)] at hstore
      cases hstore

lemma pushPointers_used (h : pushPointers ustack arr str n used m = some (used', m')) :
    used' = used + 8 * n := by
  induction n generalizing used m with
  | zero =>
    cases h
    rfl
  | succ n ih =>
    obtain ⟨m1, _, h⟩ := bind_eq_some_iff.mp h
    rw [ih h]
    omega

lemma pushArray_used (h : pushArray uarr ustack arr str n stackTop used m = some (p, used', m')) :
    used' = used + arrayUse uarr n := by
  unfold pushArray at h
  by_cases hnull : uarr = 0
  · rw [if_pos hnull] at h
    cases h
    rw [arrayUse, if_pos hnull, add_zero]
  · rw [if_neg hnull] at h
    obtain ⟨⟨used1, m1⟩, hpush, heq⟩ := bind_eq_some_iff.mp h
    cases heq
    rw [pushPointers_used hpush, arrayUse, if_neg hnull]
    omega

lemma pushArray_spec (hn : uarr ≠ 0 → 0 < n) (hused : used ≤ 4096)
    (hapart : ∀ x, InRange arr (8 * n) x → ¬ InRange ustack 4096 x)
    (h : pushArray uarr ustack arr str n stackTop used m = some (p, used', m')) :
    used' = used + arrayUse uarr n ∧ used' ≤ 4096 ∧
      p = (if uarr = 0 then 0 else stackPtr stackTop used') ∧ m' = { m with byte := m'.byte } ∧
      (∀ x, ¬ (ustack + (4096 - used') ≤ x ∧
        x < ustack + (4096 - (used' - if uarr = 0 then 0 else 8 * n))) → m'.byte x = m.byte x) ∧
      (uarr ≠ 0 → ∀ i < n, leWord m'.byte (ustack + (4096 - used') + 8 * i) 8 =
        wrap64 (str + argPtr m arr i) % 2 ^ 64) := by
  unfold pushArray at h
  by_cases hnull : uarr = 0
  · rw [if_pos hnull] at h
    cases h
    exact ⟨by rw [arrayUse, if_pos hnull, add_zero], hused, by rw [if_pos hnull], rfl,
      fun _ _ => rfl, fun hne => absurd hnull hne⟩
  · rw [if_neg hnull] at h
    obtain ⟨⟨used1, m1⟩, hpush, heq⟩ := bind_eq_some_iff.mp h
    cases heq
    obtain ⟨rfl, hle, hrest, hother, hwords⟩ := pushPointers_spec hpush hapart
    have hfit := hle (hn hnull)
    rw [if_neg hnull, if_neg hnull, arrayUse, if_neg hnull]
    refine ⟨by omega, hfit, rfl, hrest, fun x hx => hother x ?_, fun _ => hwords⟩
    omega

end

end Hana.Exec
