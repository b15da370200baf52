import Hana.Mm.Vm.Copyin
import Hana.Proc.Brk

/-!
# Frames that are not the user's

A user table maps frames that the process must not read: `uvmmake` puts the trapframe and
the trampoline into it, without `PTE_U`. `copyin` and `copyinstr` keep them apart if on two
memories that differ only in such frames they return the same and leave the same bytes in
the buffer (`SameCopy`).

`CHECK_PTE(pte, PTE_V | PTE_U)` passes if one of the flags is set, so a page that is valid
and not the user's is found like any other. `copy_blind_iff` says for each call when this
does no harm: no page that the call reaches is in a frame of the kernel. `copyin` reaches
the pages up to the first one that is not found, `copyinstr` the page of its first byte.
-/

namespace Hana.Proc

open Vm Option

variable {A : Type}

/-- The frame at `f` is mapped by the table, and by no entry that is valid and for the user. -/
structure KernelOnly (m : Mem A) (r f : Nat) : Prop where
  mapped : ∃ vpn, leaf m r vpn ≠ 0 ∧ pte2pa (leaf m r vpn) = f
  hidden : ∀ vpn, pte2pa (leaf m r vpn) = f →
    ¬ (has (leaf m r vpn) pteV = true ∧ has (leaf m r vpn) pteU = true)

/-- The memories differ at most in the bytes of the frames `K`. -/
structure AgreeBut (K : Nat → Prop) (m m₂ : Mem A) : Prop where
  rest : m₂ = { m with byte := m₂.byte }
  bytes : ∀ x, ¬ K (frameOf x) → m₂.byte x = m.byte x

/-- The buffer that `copyin` fills: the one it is given, or a new one in place of `NULL`. -/
def Buffer (E : Env A) (len : Nat) (m : Mem A) (dst buf : Nat) : Prop :=
  buf ≠ 0 ∧ (dst = buf ∨ dst = 0 ∧ ∃ m₁, kalloc E len m = some (buf, m₁))

/-- Two calls give the same result and the same bytes of the buffer. -/
def SameCopy {R : Type} (buf len : Nat) (call call₂ : Option (R × Mem A)) : Prop :=
  ∃ res m' m₂', call = some (res, m') ∧ call₂ = some (res, m₂') ∧
    ∀ i < len, m₂'.byte (buf + i) = m'.byte (buf + i)

/-- The pages from the start of the range to its byte `i` are found. -/
def Reaches (m : Mem A) (r srcva i : Nat) : Prop :=
  ∀ j ≤ i, accepts m r (wrap64 (srcva + j)) = true

/-- The frame of an address. -/
def frameAt (m : Mem A) (r va : Nat) : Nat := pte2pa (leaf m r (va >>> 12))

section

variable {E : Env A} {K : Nat → Prop} {m m₂ m' : Mem A} {r dst buf srcva len i : Nat}
variable {fuel cnt n p x : Nat} {res : Int}

lemma frameOf_phys (m : Mem A) (r va : Nat) : frameOf (phys m r va) = frameAt m r va := by
  have hdvd := pte2pa_dvd (leaf m r (va >>> 12))
  unfold frameOf phys frameAt
  omega

lemma frameOf_phys_add {va i : Nat} (h : va % 4096 + i < 4096) :
    frameOf (phys m r va + i) = frameAt m r va := by
  have hdvd := pte2pa_dvd (leaf m r (va >>> 12))
  unfold frameOf phys frameAt
  omega

/-! ## Two runs that agree -/

section

variable (h : AgreeBut K m m₂)
include h

lemma AgreeBut.pte : m₂.pte = m.pte := by
  rw [h.rest]

lemma AgreeBut.leaf (r vpn : Nat) : leaf m₂ r vpn = leaf m r vpn := by
  simp only [Vm.leaf, h.pte]

lemma AgreeBut.accepts (r va : Nat) : accepts m₂ r va = accepts m r va := by
  simp only [Vm.accepts, h.leaf]

lemma AgreeBut.phys (r va : Nat) : phys m₂ r va = phys m r va := by
  simp only [Vm.phys, h.leaf]

/-- Bytes that are moved out of other frames are the same. -/
lemma AgreeBut.moveBytes {src n : Nat} (hsrc : ∀ i < n, ¬ K (frameOf (src + i))) :
    AgreeBut K (moveBytes dst src n m) (moveBytes dst src n m₂) := by
  refine ⟨?_, ?_⟩
  · rw [h.rest]
    rfl
  · intro x hx
    simp only [Vm.moveBytes]
    split_ifs with hin
    · exact h.bytes _ (hsrc _ (by omega))
    · exact h.bytes x hx

lemma AgreeBut.writeByte (dst v : Nat) :
    AgreeBut K (writeBytes dst [v] m) (writeBytes dst [v] m₂) := by
  refine ⟨?_, ?_⟩
  · rw [h.rest]
    rfl
  · intro x hx
    rw [writeBytes_byte, writeBytes_byte, h.bytes x hx]

end

lemma copyinLoop_agree (hr : r ≠ E.kernelPagetable) (hva : srcva < 2 ^ 64) (hlen : len < 2 ^ 64)
    (hfuel : len ≤ fuel) (hagree : AgreeBut K m m₂)
    (hopen : ∀ i < len, Reaches m r srcva i → ¬ K (frameAt m r (wrap64 (srcva + i)))) :
    ∃ res m' m2', copyinLoop E r fuel dst srcva len (toInt32 cnt) m = some (res, m') ∧
      copyinLoop E r fuel dst srcva len (toInt32 cnt) m₂ = some (res, m2') ∧ AgreeBut K m' m2' := by
  induction fuel generalizing dst srcva len cnt m m₂ with
  | zero => exact ⟨0, m, m₂, rfl, rfl, hagree⟩
  | succ fuel ih =>
    by_cases hzero : len = 0
    · subst hzero
      exact ⟨0, m, m₂, rfl, rfl, hagree⟩
    · rw [copyinLoop_turn hr hva hzero, copyinLoop_turn hr hva hzero, hagree.accepts, hagree.phys]
      generalize hn : min (4096 - srcva % 4096) len = n
      cases hacc : accepts m r srcva with
      | false =>
        exact ⟨_, m, m₂, rfl, rfl, hagree⟩
      | true =>
        have hnext := wrap64_next_page hn
        have hpage : ∀ i < n, accepts m r (wrap64 (srcva + i)) = true := by
          intro i hi
          rw [accepts_same_page hva (by omega), hacc]
        have hfirst : ¬ K (frameAt m r srcva) := by
          have hbyte := hopen 0 (by omega) (by
            intro j hj
            exact hpage j (by omega))
          rwa [add_zero, wrap64_of_lt hva] at hbyte
        refine ih (wrap64_lt _) (by omega) (by omega) (hagree.moveBytes ?_) ?_
        · intro i hi
          rw [frameOf_phys_add (by omega)]
          exact hfirst
        · -- the bytes behind the first page are reached through it
          intro i hi hreach
          have hi' := hnext (n + i) (by omega) (by omega)
          rw [Nat.add_sub_cancel_left] at hi'
          rw [hi']
          refine hopen (n + i) (by omega) fun j hj => ?_
          by_cases hjn : j < n
          · exact hpage j hjn
          · rw [← hnext j (by omega) (by omega)]
            exact hreach (j - n) (by omega)

lemma copyinstrPage_agree {s s2 : StrCopy A} (hagree : AgreeBut K s.mem s2.mem)
    (hsame : s2 = { s with mem := s2.mem }) (hopen : ∀ i < n, ¬ K (frameOf (p + i))) :
    AgreeBut K (copyinstrPage n p s).mem (copyinstrPage n p s2).mem ∧
      copyinstrPage n p s2 = { copyinstrPage n p s with mem := (copyinstrPage n p s2).mem } := by
  induction n generalizing p s s2 with
  | zero => exact ⟨hagree, hsame⟩
  | succ n ih =>
    have hbyte : s2.mem.byte p = s.mem.byte p := hagree.bytes p (hopen 0 (by omega))
    have hdst : s2.dst = s.dst := by rw [hsame]
    rw [copyinstrPage, copyinstrPage]
    simp only [hbyte, hdst]
    by_cases hnul : s.mem.byte p = 0
    · simp only [hnul, if_true]
      refine ⟨hagree.writeByte _ _, ?_⟩
      rw [hsame]
    · simp only [hnul, if_false]
      refine ih (hagree.writeByte _ _) ?_ ?_
      · rw [hsame]
      · intro i hi
        have hi' := hopen (i + 1) (by omega)
        rwa [← add_assoc, add_right_comm] at hi'

lemma copyinstrLoop_agree (hr : r ≠ E.kernelPagetable) (hva : srcva < 2 ^ 64) (s s2 : StrCopy A)
    (hagree : AgreeBut K s.mem s2.mem) (hsame : s2 = { s with mem := s2.mem })
    (hopen : accepts s.mem r srcva = true → ¬ K (frameAt s.mem r srcva)) :
    ∃ res m' m2', copyinstrLoop E r srcva fuel s = some (res, m') ∧
      copyinstrLoop E r srcva fuel s2 = some (res, m2') ∧ AgreeBut K m' m2' := by
  induction fuel generalizing s s2 with
  | zero => exact ⟨_, s.mem, s2.mem, rfl, rfl, hagree⟩
  | succ fuel ih =>
    have hnull2 : s2.gotNull = s.gotNull := by rw [hsame]
    have hmax2 : s2.max = s.max := by rw [hsame]
    have hcnt2 : s2.cnt = s.cnt := by rw [hsame]
    cases hnull : s.gotNull with
    | true =>
      refine ⟨s.cnt, s.mem, s2.mem, ?_, ?_, hagree⟩
      · rw [copyinstrLoop, hnull, if_pos rfl]
      · rw [copyinstrLoop, hnull2, hnull, if_pos rfl, hcnt2]
    | false =>
      by_cases hmax : s.max = 0
      · refine ⟨2 ^ 64 - 1, s.mem, s2.mem, ?_, ?_, hagree⟩
        · rw [copyinstrLoop, hnull, if_neg Bool.false_ne_true, if_pos hmax]
        · rw [copyinstrLoop, hnull2, hnull, if_neg Bool.false_ne_true, hmax2, if_pos hmax]
      · rw [copyinstrLoop_turn hr hva hnull hmax,
          copyinstrLoop_turn hr hva (hnull2.trans hnull) (by rw [hmax2]; exact hmax),
          hagree.accepts, hagree.phys, hmax2]
        cases hacc : accepts s.mem r srcva with
        | false =>
          exact ⟨_, s.mem, s2.mem, rfl, rfl, hagree⟩
        | true =>
          obtain ⟨hagree', hsame'⟩ := copyinstrPage_agree (n := min (4096 - srcva % 4096) s.max)
            (p := Vm.phys s.mem r srcva) hagree hsame (by
              intro i hi
              rw [frameOf_phys_add (by omega)]
              exact hopen hacc)
          refine ih _ _ hagree' hsame' ?_
          have hpte := congrArg Mem.pte (copyinstrPage_rest (min (4096 - srcva % 4096) s.max)
            (Vm.phys s.mem r srcva) s)
          simp only [Vm.accepts, frameAt, Vm.leaf, hpte] at hopen ⊢
          exact hopen

/-! ## What a byte of the buffer comes from -/

/-- The loop of `copyin` writes to its buffer only. -/
lemma copyinLoop_other (hr : r ≠ E.kernelPagetable) (hva : srcva < 2 ^ 64)
    (h : copyinLoop E r fuel dst srcva len (toInt32 cnt) m = some (res, m'))
    (hx : x < dst ∨ dst + len ≤ x) : m'.byte x = m.byte x := by
  induction fuel generalizing dst srcva len cnt m with
  | zero =>
    cases h
    rfl
  | succ fuel ih =>
    by_cases hzero : len = 0
    · subst hzero
      cases h
      rfl
    · rw [copyinLoop_turn hr hva hzero] at h
      generalize hn : min (4096 - srcva % 4096) len = n at h
      split_ifs at h with hacc
      · rw [ih (wrap64_lt _) h (by omega)]
        exact if_neg (by omega)
      · cases h
        rfl

/-- A byte of the buffer is the one that stood in the page, unless the buffer covers it. -/
lemma copyinLoop_byte (hr : r ≠ E.kernelPagetable) (hva : srcva < 2 ^ 64) (hlen : len < 2 ^ 64)
    (hfuel : len ≤ fuel) (hi : i < len) (hreach : Reaches m r srcva i)
    (hapart : ∀ j < len, dst + j ≠ phys m r (wrap64 (srcva + i)))
    (h : copyinLoop E r fuel dst srcva len (toInt32 cnt) m = some (res, m')) :
    m'.byte (dst + i) = m.byte (phys m r (wrap64 (srcva + i))) := by
  induction fuel generalizing dst srcva len cnt m i with
  | zero => omega
  | succ fuel ih =>
    have hacc : accepts m r srcva = true := by
      have hfirst := hreach 0 (Nat.zero_le _)
      rwa [add_zero, wrap64_of_lt hva] at hfirst
    rw [copyinLoop_turn hr hva (by omega), hacc, if_pos rfl] at h
    generalize hn : min (4096 - srcva % 4096) len = n at h
    by_cases hin : i < n
    · rw [copyinLoop_other hr (wrap64_lt _) h (.inl (by omega)),
        phys_add hva (by omega)]
      simp only [moveBytes]
      rw [if_pos (by omega), Nat.add_sub_cancel_left]
    · have hnext := wrap64_next_page hn
      have hbyte := ih (i := i - n) (wrap64_lt _) (by omega) (by omega) (by omega) (by
          intro j hj
          have hj' := hnext (n + j) (by omega) (by omega)
          rw [Nat.add_sub_cancel_left] at hj'
          rw [hj']
          exact hreach (n + j) (by omega)) (by
          intro j hj
          rw [hnext i (by omega) hi, add_assoc]
          exact hapart (n + j) (by omega)) h
      rw [hnext i (by omega) hi, add_assoc, Nat.add_sub_cancel' (by omega)] at hbyte
      rw [hbyte]
      refine if_neg fun hand => ?_
      have hphys : phys (moveBytes dst (phys m r srcva) n m) r (wrap64 (srcva + i)) =
        phys m r (wrap64 (srcva + i)) := rfl
      have hne := hapart (phys m r (wrap64 (srcva + i)) - dst) (by omega)
      omega

/-- The first byte that `copyinstr` stores stays where it is. -/
lemma copyinstrPage_below (n p : Nat) (s : StrCopy A) (hx : x < s.dst) :
    (copyinstrPage n p s).mem.byte x = s.mem.byte x ∧ s.dst ≤ (copyinstrPage n p s).dst := by
  induction n generalizing p s with
  | zero => exact ⟨rfl, le_rfl⟩
  | succ n ih =>
    rw [copyinstrPage]
    by_cases hnul : s.mem.byte p = 0
    · simp only [hnul, if_true]
      refine ⟨?_, le_rfl⟩
      rw [writeBytes_byte, if_neg (by omega)]
    · simp only [hnul, if_false]
      obtain ⟨hbyte, hle⟩ := ih (p + 1) { s with
        cnt := s.cnt + 1
        mem := writeBytes s.dst [s.mem.byte p] s.mem
        max := s.max - 1
        dst := s.dst + 1 } (by simp only; omega)
      simp only at hbyte hle
      refine ⟨?_, by omega⟩
      rw [hbyte, writeBytes_byte, if_neg (by omega)]

lemma copyinstrLoop_below (hr : r ≠ E.kernelPagetable) (hva : srcva < 2 ^ 64) {s : StrCopy A}
    {res : Nat} (hx : x < s.dst) (h : copyinstrLoop E r srcva fuel s = some (res, m')) :
    m'.byte x = s.mem.byte x := by
  induction fuel generalizing s with
  | zero =>
    cases h
    rfl
  | succ fuel ih =>
    cases hnull : s.gotNull with
    | true =>
      rw [copyinstrLoop, hnull, if_pos rfl] at h
      cases h
      rfl
    | false =>
      by_cases hmax : s.max = 0
      · rw [copyinstrLoop, hnull, if_neg Bool.false_ne_true, if_pos hmax] at h
        cases h
        rfl
      · rw [copyinstrLoop_turn hr hva hnull hmax] at h
        split_ifs at h with hacc
        · obtain ⟨hbyte, hle⟩ :=
            copyinstrPage_below (min (4096 - srcva % 4096) s.max) (phys s.mem r srcva) s hx
          rw [ih (by omega) h, hbyte]
        · cases h
          rfl

/-- The first byte of the buffer after `copyinstr` is the first byte of the string. -/
lemma copyinstr_first (hr : r ≠ E.kernelPagetable) (hva : srcva < 2 ^ 64) {max res : Nat}
    (hmax : max ≠ 0) (hacc : accepts m r srcva = true)
    (h : copyinstr E r dst srcva max m = some (res, m')) :
    m'.byte dst = m.byte (phys m r srcva) := by
  rw [copyinstr, copyinstrLoop_turn hr hva rfl hmax, hacc, if_pos rfl] at h
  obtain ⟨n, hn⟩ : ∃ n, min (4096 - srcva % 4096) max = n + 1 :=
    ⟨min (4096 - srcva % 4096) max - 1, by omega⟩
  simp only [hn] at h
  rw [copyinstrPage] at h
  by_cases hnul : m.byte (phys m r srcva) = 0
  · simp only [hnul, if_true] at h
    obtain ⟨fuel, rfl⟩ : ∃ fuel, max = fuel + 1 := ⟨max - 1, by omega⟩
    cases h
    rw [writeBytes_byte, List.length_singleton, if_pos (by omega), Nat.sub_self, hnul]
    rfl
  · simp only [hnul, if_false] at h
    obtain ⟨hbyte, hle⟩ := copyinstrPage_below (x := dst) n (phys m r srcva + 1)
      { gotNull := false
        cnt := 0 + 1
        max := max - 1
        dst := dst + 1
        mem := writeBytes dst [m.byte (phys m r srcva)] m } (by simp only; omega)
    simp only at hbyte hle
    rw [copyinstrLoop_below hr hva (x := dst) (by omega) h, hbyte, writeBytes_byte,
      List.length_singleton, if_pos (by omega), Nat.sub_self]
    rfl

/-! ## When the calls are blind -/

/-- The memory with another value of one byte. -/
def flip (p : Nat) (m : Mem A) : Mem A :=
  writeBytes p [if m.byte p = 0 then 1 else 0] m

lemma flip_byte (p : Nat) (m : Mem A) : (flip p m).byte p ≠ m.byte p := by
  unfold flip
  rw [writeBytes_byte, List.length_singleton, if_pos (by omega), Nat.sub_self]
  by_cases h : m.byte p = 0
  · simp [h]
  · simp only [h, if_false]
    exact Ne.symm h

lemma flip_agree {p : Nat} (h : K (frameOf p)) : AgreeBut K m (flip p m) := by
  refine ⟨rfl, fun x hx => ?_⟩
  unfold flip
  rw [writeBytes_byte, List.length_singleton, if_neg ?_]
  intro hand
  have hxp : x = p := by omega
  exact hx (by rwa [hxp])

/-- The part of `copyin` in front of its loop. -/
lemma copyin_eq_loop (r srcva : Nat) (hbuf : Buffer E len m dst buf) (hagree : AgreeBut K m m₂) :
    ∃ a, copyin E r dst srcva len m = copyinLoop E r len buf srcva len (toInt32 0) { m with alloc := a } ∧
      copyin E r dst srcva len m₂ =
        copyinLoop E r len buf srcva len (toInt32 0) { m₂ with alloc := a } := by
  have hzero : toInt32 0 = 0 := by decide
  have halloc : m₂.alloc = m.alloc := by rw [hagree.rest]
  obtain ⟨hne, rfl | ⟨rfl, m1, hk⟩⟩ := hbuf
  · refine ⟨m.alloc, ?_, ?_⟩
    · simp only [copyin, if_neg hne, bind_eq_bind, bind_some, hzero]
    · simp only [copyin, if_neg hne, bind_eq_bind, bind_some, hzero, ← halloc]
  · obtain ⟨⟨p, a⟩, hal, heq⟩ := bind_eq_some_iff.mp hk
    cases heq
    refine ⟨a, ?_, ?_⟩
    · simp only [copyin, if_true, kalloc, hal, bind_eq_bind, bind_some, if_neg hne, hzero]
    · simp only [copyin, if_true, kalloc, halloc, hal, bind_eq_bind, bind_some,
        if_neg hne, hzero]

/-- `copyin` and `copyinstr` do not tell memories apart that differ only in frames of the kernel,
exactly when no page that they reach is in such a frame. -/
theorem copy_blind_iff (hr : r ≠ E.kernelPagetable) (hva : srcva < 2 ^ 64) (hlen : len < 2 ^ 64)
    (hbuf : Buffer E len m dst buf) (hapart : ∀ i < len, ¬ KernelOnly m r (frameOf (buf + i))) :
    ((∀ m₂, AgreeBut (KernelOnly m r) m m₂ → SameCopy buf len
        (copyin E r dst srcva len m) (copyin E r dst srcva len m₂)) ↔
      ∀ i < len, Reaches m r srcva i → ¬ KernelOnly m r (frameAt m r (wrap64 (srcva + i)))) ∧
    ((∀ m₂, AgreeBut (KernelOnly m r) m m₂ → SameCopy buf len
        (copyinstr E r buf srcva len m) (copyinstr E r buf srcva len m₂)) ↔
      (0 < len → Reaches m r srcva 0 → ¬ KernelOnly m r (frameAt m r srcva))) := by
  refine ⟨⟨?_, ?_⟩, ⟨?_, ?_⟩⟩
  · -- the byte at which the page of the kernel is reached shows up in the buffer
    intro hblind i hi hreach hkernel
    have hframe := frameOf_phys m r (wrap64 (srcva + i))
    have hagree : AgreeBut (KernelOnly m r) m (flip (phys m r (wrap64 (srcva + i))) m) :=
      flip_agree (by rw [hframe]; exact hkernel)
    obtain ⟨res, m', m2', hcopy, hcopy2, hsame⟩ := hblind _ hagree
    obtain ⟨a, heq, heq2⟩ := copyin_eq_loop r srcva hbuf hagree
    rw [heq] at hcopy
    rw [heq2] at hcopy2
    have houtside : ∀ j < len, buf + j ≠ phys m r (wrap64 (srcva + i)) := by
      intro j hj heq'
      refine hapart j hj ?_
      rw [heq', hframe]
      exact hkernel
    have hbyte := copyinLoop_byte (m := { m with alloc := a }) hr hva hlen le_rfl hi hreach houtside hcopy
    have hbyte2 := copyinLoop_byte hr hva hlen le_rfl hi
      (m := { flip (phys m r (wrap64 (srcva + i))) m with alloc := a }) hreach houtside hcopy2
    refine flip_byte (phys m r (wrap64 (srcva + i))) m ?_
    exact hbyte2.symm.trans ((hsame i hi).trans hbyte)
  · intro hopen m₂ hagree
    obtain ⟨a, heq, heq2⟩ := copyin_eq_loop r srcva hbuf hagree
    have hagree' : AgreeBut (KernelOnly m r) { m with alloc := a } { m₂ with alloc := a } := by
      refine ⟨?_, hagree.bytes⟩
      rw [hagree.rest]
    obtain ⟨res, m', m2', hloop, hloop2, hend⟩ := copyinLoop_agree hr hva hlen le_rfl
      hagree' hopen
    refine ⟨res, m', m2', ?_, ?_, fun i hi => hend.bytes _ (hapart i hi)⟩
    · rw [heq, hloop]
    · rw [heq2, hloop2]
  · intro hblind hpos hreach hkernel
    have hacc : accepts m r srcva = true := by
      have hfirst := hreach 0 le_rfl
      rwa [add_zero, wrap64_of_lt hva] at hfirst
    have hagree : AgreeBut (KernelOnly m r) m (flip (phys m r srcva) m) :=
      flip_agree (by rw [frameOf_phys]; exact hkernel)
    obtain ⟨res, m', m2', hcopy, hcopy2, hsame⟩ := hblind _ hagree
    have hbyte := copyinstr_first hr hva (ne_of_gt hpos) hacc hcopy
    have hbyte2 := copyinstr_first hr hva (ne_of_gt hpos) ((hagree.accepts r srcva).trans hacc) hcopy2
    refine flip_byte (phys m r srcva) m ?_
    exact hbyte2.symm.trans ((hsame 0 hpos).trans hbyte)
  · intro hopen m₂ hagree
    by_cases hpos : 0 < len
    · obtain ⟨res, m', m2', hloop, hloop2, hend⟩ := copyinstrLoop_agree hr hva
        ⟨false, 0, len, buf, m⟩ ⟨false, 0, len, buf, m₂⟩ hagree rfl (by
          intro hacc
          refine hopen hpos fun j hj => ?_
          obtain rfl : j = 0 := by omega
          rw [add_zero, wrap64_of_lt hva]
          exact hacc)
      exact ⟨res, m', m2', hloop, hloop2, fun i hi => hend.bytes _ (hapart i hi)⟩
    · obtain rfl : len = 0 := by omega
      exact ⟨_, m, m₂, rfl, rfl, nofun⟩

end

/-! ## A page of the user beside the trapframe -/

/-- A space with one page of the user, at `0x1000`. -/
def bootReader : Option (Env Buddy.Pool × Nat × BuddyMem) := do
  let (E, _, r, m) ← bootSpace
  let (f, m) ← kalloc E pgSize m
  let m ← mappages E r 0x1000 f pgSize (pteU ||| pteRw) m
  some (E, r, m)

lemma bootReader_leaf {E : Env Buddy.Pool} {r : Nat} {m : BuddyMem}
    (h : bootReader = some (E, r, m)) :
    ∃ f, 0x80300000 ≤ f ∧ f < 2 ^ 63 ∧ 4096 ∣ f ∧ ∀ vpn, leaf m r vpn =
      if vpn % 2 ^ 27 = 1 then pa2pte f ||| (pteU ||| pteRw) ||| pteV
      else if vpn % 2 ^ 27 = trapframeVa / 4096 then pa2pte 0x80201000 ||| (pteR ||| pteW) ||| pteV
      else if vpn % 2 ^ 27 = trampolineVa / 4096 then pa2pte 0x80200000 ||| (pteR ||| pteX) ||| pteV
      else 0 := by
  simp only [bootReader, bind_eq_bind, bind_eq_some_iff, Prod.exists,
    some.injEq, Prod.mk.injEq] at h
  obtain ⟨E', m0, r', m1, hboot, f, m₂, hk, m3, hmap, rfl, rfl, rfl⟩ := h
  obtain ⟨hsmall, hmake⟩ := bootSpace_cases hboot
  obtain ⟨hE, hs⟩ := bootSmall_ok hsmall
  obtain ⟨tab1, hs1, hr1, hleaf1⟩ := uvmmake_leaf hE hs (by decide) (by decide) hmake
  obtain ⟨_, hdvd, hlo, hhi, _, _, hm2, _⟩ := kalloc_page hE hs1 hk
  obtain ⟨hs2, _⟩ := kalloc_shaped hE hs1 (by decide) (by decide) hk
  have hbound : bootLo 0x80300000 0x80310000 = 0x80301000 := by decide
  have htop : pgRoundDown 0x80310000 = 0x80310000 := by decide
  obtain ⟨tab3, _, hp3⟩ :=
    mappages_page hE hs2 hr1 (by decide) (by decide) (by omega) hmap
  refine ⟨f, by omega, by omega, hdvd, fun vpn => ?_⟩
  have hpage : (0x1000 >>> 12) % 2 ^ 27 = 1 := by decide
  have hsame : leaf m₂ r' vpn = leaf m1 r' vpn := by
    rw [hm2]
    rfl
  rw [hp3.leaf hr1, hsame, hleaf1]
  simp only [hpage, true_and]

/-- The frames of the table are those of its three pages. -/
lemma bootReader_frames {E : Env Buddy.Pool} {r : Nat} {m : BuddyMem}
    (h : bootReader = some (E, r, m)) :
    (∀ f, KernelOnly m r f → f = 0x80201000 ∨ f = 0x80200000) ∧ KernelOnly m r 0x80201000 := by
  obtain ⟨f, hlo, hhi, hdvd, hleaf⟩ := bootReader_leaf h
  have huser : pte2pa (pa2pte f ||| (pteU ||| pteRw) ||| pteV) = f := by
    rw [pte2pa_entry (by omega) (by decide), frameOf_of_dvd hdvd]
  have hframe : pte2pa (pa2pte 0x80201000 ||| (pteR ||| pteW) ||| pteV) = 0x80201000 := by decide
  have hcode : pte2pa (pa2pte 0x80200000 ||| (pteR ||| pteX) ||| pteV) = 0x80200000 := by decide
  have hflags : has (pa2pte f ||| (pteU ||| pteRw) ||| pteV) pteV = true ∧
      has (pa2pte f ||| (pteU ||| pteRw) ||| pteV) pteU = true :=
    ⟨has_entry (i := 0) (by decide), has_entry (i := 4) (by decide)⟩
  constructor
  · rintro g ⟨⟨vpn, hne, heq⟩, hhidden⟩
    have hno := hhidden vpn heq
    rw [hleaf] at hne heq hno
    split_ifs at hne heq hno
    · exact absurd hflags hno
    · exact .inl (heq.symm.trans hframe)
    · exact .inr (heq.symm.trans hcode)
    · exact absurd rfl hne
  · refine ⟨⟨trapframeVa / 4096, ?_, ?_⟩, ?_⟩
    · rw [hleaf, if_neg (by decide), if_pos (by decide)]
      decide
    · rw [hleaf, if_neg (by decide), if_pos (by decide), hframe]
    · intro vpn heq
      rw [hleaf] at heq ⊢
      split_ifs at heq ⊢
      · omega
      · decide
      · decide
      · decide

/-- Four bytes of the user's page. -/
theorem copy_blind_user_page :
    ∃ E r m, bootReader = some (E, r, m) ∧ KernelOnly m r 0x80201000 ∧
      ∀ m₂, AgreeBut (KernelOnly m r) m m₂ →
        SameCopy 0x2000 4 (copyin E r 0x2000 0x1000 4 m) (copyin E r 0x2000 0x1000 4 m₂) ∧
        SameCopy 0x2000 4 (copyinstr E r 0x2000 0x1000 4 m) (copyinstr E r 0x2000 0x1000 4 m₂) := by
  have hrun : (bootReader.map fun x => decide (x.2.1 ≠ x.1.kernelPagetable)) = some true := by
    decide +kernel
  obtain ⟨⟨E, r, m⟩, hboot, heq⟩ := map_eq_some_iff.mp hrun
  have hr : r ≠ E.kernelPagetable := of_decide_eq_true heq
  obtain ⟨hframes, hkernel⟩ := bootReader_frames hboot
  obtain ⟨f, hlo, hhi, hdvd, hleaf⟩ := bootReader_leaf hboot
  have hva : 0x1000 < 2 ^ 64 := by decide
  have hlen : 4 < 2 ^ 64 := by decide
  have hbuf : Buffer E 4 m 0x2000 0x2000 := ⟨by decide, .inl rfl⟩
  have hapart : ∀ i < 4, ¬ KernelOnly m r (frameOf (0x2000 + i)) := by
    intro i hi hk
    have := hframes _ hk
    unfold frameOf at this
    omega
  have hopen : ∀ i < 4, ¬ KernelOnly m r (frameAt m r (wrap64 (0x1000 + i))) := by
    intro i hi hk
    have hpage : wrap64 (0x1000 + i) >>> 12 = 1 := by
      rw [wrap64_of_lt (by omega), Nat.shiftRight_eq_div_pow]
      omega
    have hf : frameAt m r (wrap64 (0x1000 + i)) = f := by
      rw [frameAt, hpage, hleaf, if_pos (by decide), pte2pa_entry (by omega) (by decide),
        frameOf_of_dvd hdvd]
    have := hframes _ hk
    omega
  obtain ⟨hin, hstr⟩ := copy_blind_iff (m := m) hr hva hlen hbuf hapart
  refine ⟨E, r, m, hboot, hkernel, fun m₂ hagree => ⟨hin.mpr (fun i hi _ => hopen i hi) m₂ hagree,
    hstr.mpr (fun _ _ => ?_) m₂ hagree⟩⟩
  exact hopen 0 (by decide)

/-- The trapframe can be read: with another first byte in it, `copyin` of eight bytes and
`copyinstr` leave another byte in the buffer. -/
theorem copy_reads_trapframe :
    ∃ E r m m₂ res m' m₂' res₁ m₁' res₂ m₃', bootReader = some (E, r, m) ∧
      KernelOnly m r 0x80201000 ∧ AgreeBut (KernelOnly m r) m m₂ ∧
      copyin E r 0x2000 trapframeVa 8 m = some (res, m') ∧
      copyin E r 0x2000 trapframeVa 8 m₂ = some (res, m₂') ∧ m₂'.byte 0x2000 ≠ m'.byte 0x2000 ∧
      copyinstr E r 0x2000 trapframeVa 8 m = some (res₁, m₁') ∧
      copyinstr E r 0x2000 trapframeVa 8 m₂ = some (res₂, m₃') ∧
      m₃'.byte 0x2000 ≠ m₁'.byte 0x2000 := by
  have hrun : (bootReader.bind fun x =>
      (copyin x.1 x.2.1 0x2000 trapframeVa 8 x.2.2).bind fun c =>
        (copyin x.1 x.2.1 0x2000 trapframeVa 8 (flip 0x80201000 x.2.2)).bind fun d =>
          (copyinstr x.1 x.2.1 0x2000 trapframeVa 8 x.2.2).bind fun e =>
            (copyinstr x.1 x.2.1 0x2000 trapframeVa 8 (flip 0x80201000 x.2.2)).map fun f =>
              decide (d.1 = c.1 ∧ d.2.byte 0x2000 ≠ c.2.byte 0x2000 ∧
                f.2.byte 0x2000 ≠ e.2.byte 0x2000)) = some true := by
    decide +kernel
  simp only [bind_eq_some_iff, map_eq_some_iff, Prod.exists] at hrun
  obtain ⟨E, r, m, hboot, res, m', hcopy, res', m₂', hcopy2, res₁, m₁', hstr, res₂, m₃', hstr2,
    heq⟩ := hrun
  obtain ⟨hres, hne, hne'⟩ := of_decide_eq_true heq
  obtain rfl : res' = res := hres
  obtain ⟨_, hkernel⟩ := bootReader_frames hboot
  exact ⟨E, r, m, flip 0x80201000 m, res', m', m₂', res₁, m₁', res₂, m₃', hboot, hkernel,
    flip_agree hkernel, hcopy, hcopy2, hne, hstr, hstr2, hne'⟩

end Hana.Proc
