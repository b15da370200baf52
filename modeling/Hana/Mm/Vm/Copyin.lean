import Hana.Mm.Vm.Boot
import Hana.Mm.Vm.Copyout

/-!
# Fetching from user memory

`walkaddr`, `copyin`, `copyinstr` and the wrappers `copy_from_user` and
`copy_from_user_str`. Whether a page is there is decided by `CHECK_PTE(pte, PTE_V | PTE_U)`,
which passes if one of the flags is set (`accepts`); a page of the user has both
(`userPage`).

* `copyin` stops at the first page that is not accepted and returns the number of bytes up
  to there, in an `int`. So the result is zero also if nothing was copied, and it is
  negative only for counts that do not fit.
* The outer loop of `copyinstr` does not move on to the next page: if there is no NUL in
  the first one, its bytes are copied again and again until the buffer is full.
-/

namespace Hana.Vm

open Option

variable {A : Type}

/-- The value of a `size_t` returned as a `ssize_t`. -/
def toInt64 (n : Nat) : Int :=
  if n % 2 ^ 64 < 2 ^ 63 then (n % 2 ^ 64 : Nat) else (n % 2 ^ 64 : Nat) - (2 ^ 64 : Nat)

/-- `CHECK_PTE`. -/
def checkPte (pte : Option Nat) (flags : Nat) (m : Mem A) : Bool :=
  match pte with
  | none => false
  | some p => has (m.pte p) flags

/-- `walkaddr`, with zero for an address that is not mapped. -/
def walkaddr (E : Env A) (pgtbl va : Nat) (m : Mem A) : Option Nat :=
  if maxVa ≤ va then some 0
  else if pgtbl = E.kernelPagetable then some va
  else do
    let (pte, m) ← walk E pgtbl va false m
    if !checkPte pte (pteV ||| pteU) m then some 0
    else
      let pte ← pte
      let offset := va &&& (pgSize - 1)
      some (pte2pa (m.pte pte) ||| offset)

/-- `memmove(dst, src, n)`. -/
def moveBytes (dst src n : Nat) (m : Mem A) : Mem A :=
  { m with byte := fun x => if dst ≤ x ∧ x < dst + n then m.byte (src + (x - dst)) else m.byte x }

/-! ## copyin -/

/-- The loop of `copyin`; every turn copies at least one byte. -/
def copyinLoop (E : Env A) (pagetable : Nat) :
    (fuel dst srcva len : Nat) → (cnt : Int) → Mem A → Option (Int × Mem A)
  | 0, _, _, _, _, m => some (0, m)
  | fuel + 1, dst, srcva, len, cnt, m =>
    if len = 0 then some (0, m)
    else do
      let va0 := pgRoundDown srcva
      let pa0 ← walkaddr E pagetable va0 m
      if pa0 = 0 then some (cnt, m)
      else
        let offset := srcva - va0
        let n := min (pgSize - offset) len
        let m := moveBytes dst (pa0 + offset) n m
        copyinLoop E pagetable fuel (dst + n) (wrap64 (va0 + pgSize)) (len - n)
          (toInt32 ((cnt + n) % 2 ^ 32).toNat) m

def copyin (E : Env A) (pagetable dst srcva len : Nat) (m : Mem A) : Option (Int × Mem A) := do
  let (dst, m) ← if dst = 0 then kalloc E len m else some (dst, m)
  if dst = 0 then some (-1, m) else copyinLoop E pagetable len dst srcva len 0 m

/-- `copy_from_user` of a process with the given table. -/
def copyFromUser (E : Env A) (pagetable dst src n : Nat) (m : Mem A) : Option (Int × Mem A) := do
  let (res, m) ← copyin E pagetable dst src n m
  if res < 0 then some (-1, m) else some (toInt64 n, m)

/-! ## copyinstr -/

/-- The variables of `copyinstr` that its loops change, and the memory. -/
structure StrCopy (A : Type) where
  gotNull : Bool
  cnt : Nat
  max : Nat
  dst : Nat
  mem : Mem A

/-- The inner loop of `copyinstr`, with `n` bytes of the page to go. -/
def copyinstrPage : (n p : Nat) → StrCopy A → StrCopy A
  | 0, _, s => s
  | n + 1, p, s =>
    let s := { s with cnt := s.cnt + 1 }
    if s.mem.byte p = 0 then
      { s with mem := writeBytes s.dst [0] s.mem, gotNull := true }
    else copyinstrPage n (p + 1) { s with
      mem := writeBytes s.dst [s.mem.byte p] s.mem, max := s.max - 1, dst := s.dst + 1 }

/-- The outer loop of `copyinstr`; a turn copies at least one byte or finds the NUL. The `size_t`
`-1` stands for a failure. -/
def copyinstrLoop (E : Env A) (pagetable srcva : Nat) :
    (fuel : Nat) → StrCopy A → Option (Nat × Mem A)
  | 0, s => some (2 ^ 64 - 1, s.mem)
  | fuel + 1, s =>
    if s.gotNull then some (s.cnt, s.mem)
    else if s.max = 0 then some (2 ^ 64 - 1, s.mem)
    else do
      let va0 := pgRoundDown srcva
      let pa0 ← walkaddr E pagetable va0 s.mem
      if pa0 = 0 then some (2 ^ 64 - 1, s.mem)
      else
        let n := min (pgSize - (srcva - va0)) s.max
        copyinstrLoop E pagetable srcva fuel (copyinstrPage n (pa0 + (srcva - va0)) s)

def copyinstr (E : Env A) (pagetable dst srcva max : Nat) (m : Mem A) : Option (Nat × Mem A) :=
  copyinstrLoop E pagetable srcva (max + 1) ⟨false, 0, max, dst, m⟩

/-- `copy_from_user_str` of a process with the given table. -/
def copyFromUserStr (E : Env A) (pagetable dst src max : Nat) (m : Mem A) :
    Option (Int × Mem A) := do
  let (res, m) ← copyinstr E pagetable dst src max m
  some (toInt64 res, m)

/-! ## Pages of the user -/

/-- The page of the address is one that `walkaddr` finds. -/
def accepts (m : Mem A) (r va : Nat) : Bool :=
  decide (va < maxVa) && (has (leaf m r (va >>> 12)) pteV || has (leaf m r (va >>> 12)) pteU) &&
    decide (pte2pa (leaf m r (va >>> 12)) ≠ 0)

/-- The page of the address is mapped for the user. -/
def userPage (m : Mem A) (r va : Nat) : Bool :=
  decide (va < maxVa) && (has (leaf m r (va >>> 12)) pteV && has (leaf m r (va >>> 12)) pteU) &&
    decide (pte2pa (leaf m r (va >>> 12)) ≠ 0)

variable {va i k' n fuel p : Nat}

section

variable {E : Env A} {m m' : Mem A} {r dst srcva len max k : Nat} {res res' : Int}

lemma accepts_of_userPage (h : userPage m r va = true) : accepts m r va = true := by
  simp only [userPage, accepts, Bool.and_eq_true, Bool.or_eq_true] at h ⊢
  exact ⟨⟨h.1.1, .inl h.1.2.1⟩, h.2⟩

lemma has_pteV_or_pteU (pte : Nat) : has pte (pteV ||| pteU) = (has pte pteV || has pte pteU) := by
  simp only [has, Nat.and_or_distrib_left]
  rw [Bool.eq_iff_iff, Bool.or_eq_true, bne_iff_ne, bne_iff_ne, bne_iff_ne, Ne, Nat.or_eq_zero_iff]
  exact not_and_or

/-- The lookup that both functions make, at the start of a page. -/
lemma walkaddr_eq (hr : r ≠ E.kernelPagetable) (hva : va < 2 ^ 64) (m : Mem A) :
    walkaddr E r (pgRoundDown va) m =
      some (if accepts m r va then pte2pa (leaf m r (va >>> 12)) else 0) := by
  have hdown := pgRoundDown_eq hva
  have hmax : maxVa ≤ pgRoundDown va ↔ maxVa ≤ va := by
    rw [hdown, maxVa]
    omega
  have hoff : pgRoundDown va &&& (pgSize - 1) = 0 := by
    have hmod : pgRoundDown va &&& (pgSize - 1) = pgRoundDown va % 2 ^ 12 :=
      Nat.and_two_pow_sub_one_eq_mod _ 12
    omega
  unfold walkaddr
  by_cases hlt : va < maxVa
  · rw [if_neg (by rw [hmax]; omega), if_neg hr, walk_noalloc, pgRoundDown_shiftRight hva]
    simp only [bind_eq_bind, bind_some, hoff, Nat.or_zero, accepts, hlt,
      decide_true, Bool.true_and]
    cases he : entryAddr m.pte r (va >>> 12) with
    | none =>
      have hleaf : leaf m r (va >>> 12) = 0 := by
        simp only [leaf, he]
      simp [checkPte, hleaf, has_zero]
    | some e =>
      have hleaf : leaf m r (va >>> 12) = m.pte e := by
        simp only [leaf, he]
      simp only [checkPte, hleaf, has_pteV_or_pteU, bind_some]
      cases hflag : has (m.pte e) pteV || has (m.pte e) pteU with
      | false => simp
      | true =>
        by_cases hpa : pte2pa (m.pte e) = 0
        · simp [hpa]
        · simp [hpa]
  · rw [if_pos (by rw [hmax]; omega)]
    simp [accepts, hlt]

lemma accepts_ne_zero (h : accepts m r va = true) :
    pte2pa (leaf m r (va >>> 12)) ≠ 0 := by
  simp only [accepts, Bool.and_eq_true, decide_eq_true_eq] at h
  exact h.2

lemma sub_pgRoundDown (hva : va < 2 ^ 64) : va - pgRoundDown va = va % 4096 := by
  rw [pgRoundDown_eq hva]
  omega

/-- Two addresses of one page. -/
lemma same_page (hva : va < 2 ^ 64) (hi : va % 4096 + i < 4096) :
    (wrap64 (va + i) < maxVa ↔ va < maxVa) ∧ wrap64 (va + i) >>> 12 = va >>> 12 := by
  have hlt : va + i < 2 ^ 64 := by omega
  rw [wrap64_of_lt hlt, Nat.shiftRight_eq_div_pow, Nat.shiftRight_eq_div_pow, maxVa]
  omega

lemma accepts_same_page (hva : va < 2 ^ 64) (hi : va % 4096 + i < 4096) :
    accepts m r (wrap64 (va + i)) = accepts m r va := by
  obtain ⟨hmax, hpage⟩ := same_page hva hi
  simp only [accepts, hpage, hmax]

lemma userPage_same_page (hva : va < 2 ^ 64) (hi : va % 4096 + i < 4096) :
    userPage m r (wrap64 (va + i)) = userPage m r va := by
  obtain ⟨hmax, hpage⟩ := same_page hva hi
  simp only [userPage, hpage, hmax]

/-! ## What copyin does -/

/-- The first `k` bytes of the range are fetched, and the rest of memory is as before. -/
structure Fetched (r dst srcva k : Nat) (m m' : Mem A) : Prop where
  rest : m' = { m with byte := m'.byte }
  bytes : ∀ i < k, m'.byte (dst + i) = m.byte (phys m r (wrap64 (srcva + i)))
  other : ∀ x, x < dst ∨ dst + k ≤ x → m'.byte x = m.byte x

/-- The buffer of the kernel shares no byte with the pages that are found in the range. -/
def Beyond (m : Mem A) (r dst srcva len : Nat) : Prop :=
  ∀ i < len, ∀ j < len, accepts m r (wrap64 (srcva + j)) = true →
    dst + i ≠ phys m r (wrap64 (srcva + j))

/-- The range is found up to the byte `k`, which is its end or on a page that is not found. -/
structure FoundTo (m : Mem A) (r srcva len k : Nat) : Prop where
  le : k ≤ len
  found : ∀ i < k, accepts m r (wrap64 (srcva + i)) = true
  stop : k < len → accepts m r (wrap64 (srcva + k)) = false

lemma FoundTo.unique (h : FoundTo m r srcva len k) (h' : FoundTo m r srcva len k') :
    k = k' := by
  have hle := h.le
  have hle' := h'.le
  rcases lt_trichotomy k k' with hlt | heq | hlt
  · have hfound := h'.found k hlt
    rw [h.stop (by omega)] at hfound
    cases hfound
  · exact heq
  · have hfound := h.found k' hlt
    rw [h'.stop (by omega)] at hfound
    cases hfound

lemma toInt32_add (a b : Nat) : toInt32 ((toInt32 a + b) % 2 ^ 32).toNat = toInt32 (a + b) := by
  unfold toInt32
  split_ifs <;> omega

lemma Fetched.cons (hva : srcva < 2 ^ 64) (hn : srcva % 4096 + n ≤ 4096)
    (hbeyond : ∀ i < n, ∀ j, n ≤ j → j < k → dst + i ≠ phys m r (wrap64 (srcva + j))) (hnk : n ≤ k)
    (hnext : ∀ i, n ≤ i → i < k → wrap64 (wrap64 (srcva / 4096 * 4096 + 4096) + (i - n)) = wrap64 (srcva + i))
    (h : Fetched r (dst + n) (wrap64 (srcva / 4096 * 4096 + 4096)) (k - n)
      (moveBytes dst (phys m r srcva) n m) m') :
    Fetched r dst srcva k m m' := by
  have hphys : ∀ va, phys (moveBytes dst (phys m r srcva) n m) r va = phys m r va := fun _ => rfl
  refine ⟨?_, ?_, ?_⟩
  · rw [h.rest]
    rfl
  · intro i hi
    by_cases hin : i < n
    · -- a byte of the first page, in front of what the later turns write
      rw [h.other _ (.inl (by omega)), phys_add hva (by omega)]
      simp only [moveBytes]
      rw [if_pos (by omega), Nat.add_sub_cancel_left]
    · have hbyte := h.bytes (i - n) (by omega)
      rw [hphys, hnext i (by omega) hi, add_assoc, Nat.add_sub_cancel' (by omega)] at hbyte
      rw [hbyte]
      refine if_neg fun hand => ?_
      have hne := hbeyond (phys m r (wrap64 (srcva + i)) - dst) (by omega) i (by omega) hi
      omega
  · intro x hx
    rw [h.other x (by omega)]
    refine if_neg ?_
    omega

/-- One turn of the loop. -/
lemma copyinLoop_turn (hr : r ≠ E.kernelPagetable) {cnt : Nat} (hva : srcva < 2 ^ 64)
    (hlen : len ≠ 0) :
    copyinLoop E r (fuel + 1) dst srcva len (toInt32 cnt) m =
      if accepts m r srcva then copyinLoop E r fuel (dst + min (4096 - srcva % 4096) len)
          (wrap64 (srcva / 4096 * 4096 + 4096)) (len - min (4096 - srcva % 4096) len)
          (toInt32 (cnt + min (4096 - srcva % 4096) len))
          (moveBytes dst (phys m r srcva) (min (4096 - srcva % 4096) len) m)
      else some (toInt32 cnt, m) := by
  rw [copyinLoop, if_neg hlen]
  simp only [walkaddr_eq hr hva, bind_eq_bind, bind_some]
  cases hacc : accepts m r srcva with
  | false => simp
  | true =>
    have hpa := accepts_ne_zero hacc
    simp only [if_true, hpa, if_false, toInt32_add, sub_pgRoundDown hva]
    rw [pgRoundDown_eq hva]
    rfl

/-- The loop goes on at the next page. -/
lemma wrap64_next_page {n : Nat} (hn : min (4096 - srcva % 4096) len = n) (i : Nat) (hni : n ≤ i)
    (hi : i < len) :
    wrap64 (wrap64 (srcva / 4096 * 4096 + 4096) + (i - n)) = wrap64 (srcva + i) := by
  unfold wrap64
  omega

lemma FoundTo.nil : FoundTo m r srcva 0 0 :=
  ⟨le_rfl, nofun, fun hlt => absurd hlt (lt_irrefl 0)⟩

lemma Fetched.nil : Fetched r dst srcva 0 m m :=
  ⟨rfl, nofun, fun _ _ => rfl⟩

lemma copyinLoop_spec (hr : r ≠ E.kernelPagetable) (dst len cnt : Nat) (hva : srcva < 2 ^ 64)
    (hlen : len < 2 ^ 64) (hfuel : len ≤ fuel) (hbeyond : Beyond m r dst srcva len) :
    ∃ k m', FoundTo m r srcva len k ∧ Fetched r dst srcva k m m' ∧
      copyinLoop E r fuel dst srcva len (toInt32 cnt) m =
        some (if k = len then 0 else toInt32 (cnt + k), m') := by
  induction fuel generalizing dst srcva len cnt m with
  | zero =>
    obtain rfl : len = 0 := by omega
    exact ⟨0, m, FoundTo.nil, Fetched.nil, rfl⟩
  | succ fuel ih =>
    by_cases hzero : len = 0
    · subst hzero
      exact ⟨0, m, FoundTo.nil, Fetched.nil, rfl⟩
    · have hfirst : accepts m r (wrap64 (srcva + 0)) = accepts m r srcva := by
        rw [add_zero, wrap64_of_lt hva]
      rw [copyinLoop_turn hr hva hzero]
      generalize hn : min (4096 - srcva % 4096) len = n
      cases hacc : accepts m r srcva with
      | false =>
        refine ⟨0, m, ⟨Nat.zero_le _, nofun, fun _ => ?_⟩,
          Fetched.nil, ?_⟩
        · rw [hfirst, hacc]
        · rw [if_neg (Ne.symm hzero)]
          rfl
      | true =>
        have hnext := wrap64_next_page hn
        have hpage : ∀ i < n, accepts m r (wrap64 (srcva + i)) = true := by
          intro i hi
          rw [accepts_same_page hva (by omega), hacc]
        obtain ⟨k, m', hfound, hfetched, hloop⟩ := ih (dst + n) (len - n) (cnt + n)
          (m := moveBytes dst (phys m r srcva) n m) (wrap64_lt _) (by omega) (by omega) (by
            intro i hi j hj hacc'
            have hj' := hnext (n + j) (by omega) (by omega)
            rw [Nat.add_sub_cancel_left] at hj'
            rw [hj'] at hacc' ⊢
            have hne := hbeyond (n + i) (by omega) (n + j) (by omega) hacc'
            rw [← add_assoc] at hne
            exact hne)
        have hle := hfound.le
        refine ⟨n + k, m', ⟨by omega, ?_, ?_⟩, ?_, ?_⟩
        · intro i hi
          by_cases hin : i < n
          · exact hpage i hin
          · rw [← hnext i (by omega) (by omega)]
            exact hfound.found (i - n) (by omega)
        · intro hlt
          rw [← hnext (n + k) (by omega) hlt, Nat.add_sub_cancel_left]
          exact hfound.stop (by omega)
        · refine Fetched.cons hva (by omega) ?_ (by omega) (fun i hni hi => hnext i hni (by omega)) ?_
          · intro i hi j hnj hj
            refine hbeyond i (by omega) j (by omega) ?_
            rw [← hnext j hnj (by omega)]
            exact hfound.found (j - n) (by omega)
          · rw [Nat.add_sub_cancel_left]
            exact hfetched
        · rw [if_pos rfl, hloop, add_assoc]
          congr 2
          by_cases hk : k = len - n
          · rw [if_pos hk, if_pos (by omega)]
          · rw [if_neg hk, if_neg (by omega)]

lemma copyin_spec (hr : r ≠ E.kernelPagetable) (hdst : dst ≠ 0) (hva : srcva < 2 ^ 64)
    (hlen : len < 2 ^ 64) (hbeyond : Beyond m r dst srcva len) :
    ∃ k m', FoundTo m r srcva len k ∧ Fetched r dst srcva k m m' ∧
      copyin E r dst srcva len m = some (if k = len then 0 else toInt32 k, m') := by
  obtain ⟨k, m', hfound, hfetched, hloop⟩ :=
    copyinLoop_spec hr dst len 0 hva hlen le_rfl hbeyond
  have hzero : toInt32 0 = 0 := by decide
  rw [hzero, zero_add] at hloop
  refine ⟨k, m', hfound, hfetched, ?_⟩
  simp only [copyin, if_neg hdst, bind_eq_bind, bind_some, hloop]

/-! ## What the callers rely on -/

/-- The whole range is mapped for the user, and its bytes are in the buffer. -/
def AllCopied (r dst srcva len : Nat) (m m' : Mem A) : Prop :=
  ∀ i < len, userPage m r (wrap64 (srcva + i)) = true ∧
    m'.byte (dst + i) = m.byte (phys m r (wrap64 (srcva + i)))

/-- The results `res` of `copyin` and `res'` of `copy_from_user` tell whether all was copied. -/
structure Reports (r dst srcva len : Nat) (m : Mem A) (res res' : Int) (m' : Mem A) : Prop where
  copyin : res = 0 ↔ AllCopied r dst srcva len m m'
  copyFromUser : res' = toInt64 len ↔ AllCopied r dst srcva len m m'
  unmapped : (∃ i < len, userPage m r (wrap64 (srcva + i)) = false) → res < 0 ∧ res' < 0

/-- The whole range is mapped for the user, or the bytes in front of the first page that is not
found are so many that their number is negative as an `int`. -/
def ReportsWhen (m : Mem A) (r srcva len : Nat) : Prop :=
  (∀ i < len, userPage m r (wrap64 (srcva + i)) = true) ∨
    ∃ k < len, FoundTo m r srcva len k ∧ 2 ^ 31 ≤ k % 2 ^ 32 ∧ len ≠ 2 ^ 64 - 1

lemma toInt32_neg_iff (n : Nat) : toInt32 n < 0 ↔ 2 ^ 31 ≤ n % 2 ^ 32 := by
  unfold toInt32
  split_ifs <;> omega

lemma toInt64_eq_neg_one (h : n < 2 ^ 64) : -1 = toInt64 n ↔ n = 2 ^ 64 - 1 := by
  unfold toInt64
  by_cases hlt : n < 2 ^ 63
  · omega
  · omega

/-- `copyin` and `copy_from_user` report what they did exactly in these cases. -/
theorem copyin_reports_iff (hr : r ≠ E.kernelPagetable) (hdst : dst ≠ 0) (hva : srcva < 2 ^ 64)
    (hlen : len < 2 ^ 64) (hbeyond : Beyond m r dst srcva len) :
    ∃ res res' m', copyin E r dst srcva len m = some (res, m') ∧
      copyFromUser E r dst srcva len m = some (res', m') ∧
      (Reports r dst srcva len m res res' m' ↔ ReportsWhen m r srcva len) := by
  obtain ⟨k, m', hfound, hfetched, hcopy⟩ := copyin_spec hr hdst hva hlen hbeyond
  have hle := hfound.le
  have hshort : k < len → ¬ AllCopied r dst srcva len m m' := by
    intro hlt hall
    have hacc := accepts_of_userPage (hall k hlt).1
    rw [hfound.stop hlt] at hacc
    cases hacc
  have hwhen : k < len → (ReportsWhen m r srcva len ↔ 2 ^ 31 ≤ k % 2 ^ 32 ∧ len ≠ 2 ^ 64 - 1) := by
    intro hlt
    constructor
    · rintro (huser | ⟨k', _, hfound', hk'⟩)
      · have hacc := accepts_of_userPage (huser k hlt)
        rw [hfound.stop hlt] at hacc
        cases hacc
      · rw [hfound.unique hfound']
        exact hk'
    · intro hk
      exact .inr ⟨k, hlt, hfound, hk⟩
  have hmissing : k < len → ∃ i < len, userPage m r (wrap64 (srcva + i)) = false := by
    intro hlt
    refine ⟨k, hlt, Bool.eq_false_iff.mpr fun huser => ?_⟩
    have hacc := accepts_of_userPage huser
    rw [hfound.stop hlt] at hacc
    cases hacc
  by_cases hk : k = len
  · -- all pages are found, but some may not be the user's
    rw [if_pos hk] at hcopy
    subst hk
    refine ⟨0, toInt64 k, m', hcopy, ?_, ?_⟩
    · simp only [copyFromUser, hcopy, bind_eq_bind, bind_some, Int.lt_irrefl, if_false]
    · constructor
      · intro hrep
        exact .inl fun i hi => (hrep.copyin.mp rfl i hi).1
      · rintro (huser | ⟨k', hlt, hfound', _⟩)
        · have hall : AllCopied r dst srcva k m m' :=
            fun i hi => ⟨huser i hi, hfetched.bytes i hi⟩
          refine ⟨⟨fun _ => hall, fun _ => rfl⟩, ⟨fun _ => hall, fun _ => rfl⟩, ?_⟩
          rintro ⟨i, hi, hno⟩
          rw [huser i hi] at hno
          cases hno
        · have heq := hfound.unique hfound'
          omega
  · have hlt : k < len := by omega
    rw [if_neg hk] at hcopy
    rw [hwhen hlt]
    by_cases hneg : toInt32 k < 0
    · refine ⟨toInt32 k, -1, m', hcopy, ?_, ?_⟩
      · simp only [copyFromUser, hcopy, bind_eq_bind, bind_some, if_pos hneg]
      · constructor
        · intro hrep
          refine ⟨(toInt32_neg_iff k).mp hneg, fun hmax => hshort hlt ?_⟩
          exact hrep.copyFromUser.mp ((toInt64_eq_neg_one hlen).mpr hmax)
        · rintro ⟨_, hmax⟩
          refine ⟨⟨fun heq => absurd heq (by omega), fun hall => absurd hall (hshort hlt)⟩,
            ⟨fun heq => ?_, fun hall => absurd hall (hshort hlt)⟩, fun _ => ⟨hneg, by decide⟩⟩
          exact absurd ((toInt64_eq_neg_one hlen).mp heq) hmax
    · refine ⟨toInt32 k, toInt64 len, m', hcopy, ?_, ?_⟩
      · simp only [copyFromUser, hcopy, bind_eq_bind, bind_some, if_neg hneg]
      · constructor
        · intro hrep
          exact absurd (hrep.unmapped (hmissing hlt)).1 hneg
        · rintro ⟨hbig, _⟩
          exact absurd ((toInt32_neg_iff k).mpr hbig) hneg

/-! ## What copyinstr does -/

/-- A string of length `k` stands at the physical address `p`. -/
def NulAt (m : Mem A) (p k : Nat) : Prop := (∀ i < k, m.byte (p + i) ≠ 0) ∧ m.byte (p + k) = 0

lemma NulAt.unique (h : NulAt m p k) (h' : NulAt m p k') : k = k' := by
  rcases lt_trichotomy k k' with hlt | heq | hlt
  · exact absurd h.2 (h'.1 k hlt)
  · exact heq
  · exact absurd h'.2 (h.1 k' hlt)

lemma exists_nulAt (h : m.byte (p + i) = 0) : ∃ k ≤ i, NulAt m p k := by
  classical
  have hex : ∃ k, m.byte (p + k) = 0 := ⟨i, h⟩
  exact ⟨Nat.find hex, Nat.find_min' hex h, fun j hj => Nat.find_min hex hj, Nat.find_spec hex⟩

/-- A byte stored first and the others after it are one move. -/
lemma moveBytes_succ (h : ∀ j < n, dst ≠ p + 1 + j) :
    moveBytes (dst + 1) (p + 1) n (writeBytes dst [m.byte p] m) = moveBytes dst p (n + 1) m := by
  have hbyte : ∀ x, (writeBytes dst [m.byte p] m).byte x = if x = dst then m.byte p else m.byte x := by
    intro x
    rw [writeBytes_byte, List.length_singleton]
    by_cases hx : x = dst
    · rw [if_pos (by omega), if_pos hx, hx, Nat.sub_self]
      rfl
    · rw [if_neg (by omega), if_neg hx]
  simp only [moveBytes, hbyte]
  congr 1
  funext x
  by_cases hx : x = dst
  · rw [if_neg (by omega), if_pos hx, if_pos (by omega), hx, Nat.sub_self, add_zero]
  · by_cases hin : dst + 1 ≤ x ∧ x < dst + 1 + n
    · have hne := h (x - (dst + 1)) (by omega)
      rw [if_pos hin, if_neg (Ne.symm hne), if_pos (by omega)]
      congr 1
      omega
    · rw [if_neg hin, if_neg hx, if_neg (by omega)]

/-- The inner loop copies the string with its NUL, or all bytes of the page. -/
lemma copyinstrPage_spec (n p : Nat) (s : StrCopy A) (hbeyond : ∀ i < n, ∀ j < n, s.dst + i ≠ p + j) :
    (∃ k < n, NulAt s.mem p k ∧ copyinstrPage n p s =
      ⟨true, s.cnt + k + 1, s.max - k, s.dst + k, moveBytes s.dst p (k + 1) s.mem⟩) ∨
    ((∀ i < n, s.mem.byte (p + i) ≠ 0) ∧ copyinstrPage n p s =
      ⟨s.gotNull, s.cnt + n, s.max - n, s.dst + n, moveBytes s.dst p n s.mem⟩) := by
  induction n generalizing p s with
  | zero =>
    refine .inr ⟨nofun, ?_⟩
    have hsame : moveBytes s.dst p 0 s.mem = s.mem := by
      unfold moveBytes
      congr 1
      funext x
      exact if_neg (by omega)
    rw [hsame]
    rfl
  | succ n ih =>
    rw [copyinstrPage]
    by_cases hnul : s.mem.byte p = 0
    · refine .inl ⟨0, by omega, ⟨nofun, hnul⟩, ?_⟩
      have hmove : moveBytes s.dst p (0 + 1) s.mem = writeBytes s.dst [0] s.mem := by
        rw [← moveBytes_succ fun j hj => absurd hj (Nat.not_lt_zero j), hnul]
        unfold moveBytes
        congr 1
        funext x
        exact if_neg (by omega)
      rw [hmove]
      simp only [hnul, if_true]
      rfl
    · have hmove : ∀ k ≤ n, moveBytes (s.dst + 1) (p + 1) k (writeBytes s.dst [s.mem.byte p] s.mem) =
          moveBytes s.dst p (k + 1) s.mem := by
        intro k hk
        refine moveBytes_succ fun j hj => ?_
        have hne := hbeyond 0 (by omega) (j + 1) (by omega)
        omega
      have hkept : ∀ i < n, (writeBytes s.dst [s.mem.byte p] s.mem).byte (p + 1 + i) =
          s.mem.byte (p + (i + 1)) := by
        intro i hi
        have hne := hbeyond 0 (by omega) (i + 1) (by omega)
        rw [writeBytes_byte, List.length_singleton, if_neg (by omega)]
        congr 1
        omega
      simp only [hnul, if_false]
      rcases ih (p + 1) ⟨s.gotNull, s.cnt + 1, s.max - 1, s.dst + 1,
          writeBytes s.dst [s.mem.byte p] s.mem⟩ (by
            intro i hi j hj
            have hne := hbeyond (i + 1) (by omega) (j + 1) (by omega)
            simp only
            omega) with ⟨k, hk, ⟨hbefore, hend⟩, heq⟩ | ⟨hnone, heq⟩
      · refine .inl ⟨k + 1, by omega, ⟨?_, ?_⟩, ?_⟩
        · intro i hi
          cases i with
          | zero => exact hnul
          | succ i =>
            rw [← hkept i (by omega)]
            exact hbefore i (by omega)
        · rw [← hkept k (by omega)]
          exact hend
        · rw [heq, hmove (k + 1) (by omega)]
          simp only [StrCopy.mk.injEq, true_and, and_true]
          omega
      · refine .inr ⟨?_, ?_⟩
        · intro i hi
          cases i with
          | zero => exact hnul
          | succ i =>
            rw [← hkept i (by omega)]
            exact hnone i (by omega)
        · rw [heq, hmove n le_rfl]
          simp only [StrCopy.mk.injEq, true_and, and_true]
          omega

lemma copyinstrLoop_turn (hr : r ≠ E.kernelPagetable) (hva : srcva < 2 ^ 64)
    {s : StrCopy A} (hnull : s.gotNull = false) (hmax : s.max ≠ 0) :
    copyinstrLoop E r srcva (fuel + 1) s =
      if accepts s.mem r srcva then copyinstrLoop E r srcva fuel
        (copyinstrPage (min (4096 - srcva % 4096) s.max) (phys s.mem r srcva) s)
      else some (2 ^ 64 - 1, s.mem) := by
  rw [copyinstrLoop, hnull, if_neg Bool.false_ne_true, if_neg hmax]
  simp only [walkaddr_eq hr hva, bind_eq_bind, bind_some, sub_pgRoundDown hva]
  cases hacc : accepts s.mem r srcva with
  | false => simp
  | true =>
    have hpa := accepts_ne_zero hacc
    simp only [if_true, hpa, if_false]
    rfl

/-- Without a NUL in the page, its bytes are copied until the buffer is full. -/
lemma copyinstrLoop_repeats (hr : r ≠ E.kernelPagetable) (hva : srcva < 2 ^ 64) (s : StrCopy A)
    (hnull : s.gotNull = false) (hfuel : s.max < fuel) (hacc : accepts s.mem r srcva = true)
    (hbytes : ∀ i, srcva % 4096 + i < 4096 → i < s.max → s.mem.byte (phys s.mem r srcva + i) ≠ 0)
    (hbeyond : ∀ i < s.max, ∀ j, srcva % 4096 + j < 4096 → s.dst + i ≠ phys s.mem r srcva + j) :
    ∃ m', copyinstrLoop E r srcva fuel s = some (2 ^ 64 - 1, m') ∧
      m' = { s.mem with byte := m'.byte } ∧
      ∀ x, x < s.dst ∨ s.dst + s.max ≤ x → m'.byte x = s.mem.byte x := by
  induction fuel generalizing s with
  | zero => exact absurd hfuel (Nat.not_lt_zero _)
  | succ fuel ih =>
    by_cases hmax : s.max = 0
    · refine ⟨s.mem, ?_, rfl, fun _ _ => rfl⟩
      rw [copyinstrLoop, hnull, if_neg Bool.false_ne_true, if_pos hmax]
    · rw [copyinstrLoop_turn hr hva hnull hmax, hacc, if_pos rfl]
      generalize hn : min (4096 - srcva % 4096) s.max = n
      rcases copyinstrPage_spec n (phys s.mem r srcva) s (by
          intro i hi j hj
          exact hbeyond i (by omega) j (by omega)) with ⟨k, hk, hnul, _⟩ | ⟨_, heq⟩
      · exact absurd hnul.2 (hbytes k (by omega) (by omega))
      · rw [heq]
        have hphys : phys (moveBytes s.dst (phys s.mem r srcva) n s.mem) r srcva =
            phys s.mem r srcva := rfl
        have hkept : ∀ i, srcva % 4096 + i < 4096 →
            (moveBytes s.dst (phys s.mem r srcva) n s.mem).byte (phys s.mem r srcva + i) =
              s.mem.byte (phys s.mem r srcva + i) := by
          intro i hi
          refine if_neg fun hin => ?_
          have hne := hbeyond (phys s.mem r srcva + i - s.dst) (by omega) i hi
          omega
        obtain ⟨m', hloop, hrest, hother⟩ := ih ⟨s.gotNull, s.cnt + n, s.max - n, s.dst + n,
          moveBytes s.dst (phys s.mem r srcva) n s.mem⟩ hnull (by simp only; omega) hacc (by
            intro i hi hlt
            simp only at hlt
            simp only [hphys, hkept i hi]
            exact hbytes i hi (by omega)) (by
            intro i hi j hj
            simp only at hi
            have hne := hbeyond (n + i) (by omega) j hj
            simp only [hphys]
            omega)
        refine ⟨m', hloop, hrest, fun x hx => ?_⟩
        simp only at hother
        rw [hother x (by omega)]
        refine if_neg ?_
        omega

/-- The first page ends the search: there is a NUL in it, or the call fails. -/
lemma copyinstr_spec (hr : r ≠ E.kernelPagetable) (hva : srcva < 2 ^ 64)
    (hbeyond : accepts m r srcva = true → ∀ i < max, ∀ j, srcva % 4096 + j < 4096 →
      dst + i ≠ phys m r srcva + j) :
    ∃ res m', copyinstr E r dst srcva max m = some (res, m') ∧ m' = { m with byte := m'.byte } ∧
      (∀ x, x < dst ∨ dst + max ≤ x → m'.byte x = m.byte x) ∧
      ((∃ k < max, srcva % 4096 + k < 4096 ∧ accepts m r srcva = true ∧ NulAt m (phys m r srcva) k ∧
        res = k + 1 ∧ ∀ i ≤ k, m'.byte (dst + i) = m.byte (phys m r srcva + i)) ∨
      (res = 2 ^ 64 - 1 ∧ ∀ k < max, srcva % 4096 + k < 4096 → accepts m r srcva = true →
        ¬ NulAt m (phys m r srcva) k)) := by
  unfold copyinstr
  by_cases hmax : max = 0
  · subst hmax
    exact ⟨_, m, rfl, rfl, fun _ _ => rfl, .inr ⟨rfl, nofun⟩⟩
  · cases hacc : accepts m r srcva with
    | false =>
      refine ⟨2 ^ 64 - 1, m, ?_, rfl, fun _ _ => rfl,
        .inr ⟨rfl, fun _ _ _ hacc' => absurd hacc' nofun⟩⟩
      rw [copyinstrLoop_turn hr hva rfl hmax, hacc, if_neg Bool.false_ne_true]
    | true =>
      have hdisjoint := hbeyond hacc
      by_cases hnul : ∃ k < max, srcva % 4096 + k < 4096 ∧ NulAt m (phys m r srcva) k
      · obtain ⟨k, hk, hpage, hnul⟩ := hnul
        rw [copyinstrLoop_turn hr hva rfl hmax, hacc, if_pos rfl]
        rcases copyinstrPage_spec (min (4096 - srcva % 4096) max) (phys m r srcva)
            ⟨false, 0, max, dst, m⟩ (by
              intro i hi j hj
              exact hdisjoint i (by omega) j (by omega)) with ⟨k', hk', hnul', heq⟩ | ⟨hnone, _⟩
        · obtain rfl := hnul.unique hnul'
          obtain ⟨fuel, rfl⟩ : ∃ fuel, max = fuel + 1 := ⟨max - 1, by omega⟩
          refine ⟨k + 1, moveBytes dst (phys m r srcva) (k + 1) m, ?_, rfl, ?_,
            .inl ⟨k, hk, hpage, rfl, hnul, rfl, ?_⟩⟩
          · rw [heq, copyinstrLoop, if_pos rfl]
            simp only [zero_add]
          · intro x hx
            refine if_neg ?_
            omega
          · intro i hi
            simp only [moveBytes]
            rw [if_pos (by omega), Nat.add_sub_cancel_left]
        · exact absurd hnul.2 (hnone k (by omega))
      · obtain ⟨m', hloop, hrest, hother⟩ := copyinstrLoop_repeats hr hva
          ⟨false, 0, max, dst, m⟩ rfl (Nat.lt_succ_self _) hacc (by
            intro i hi hlt hzero
            obtain ⟨k, hk, hat⟩ := exists_nulAt hzero
            exact hnul ⟨k, lt_of_le_of_lt hk hlt, by omega, hat⟩) hdisjoint
        exact ⟨_, m', hloop, hrest, hother,
          .inr ⟨rfl, fun k hk hpage _ hat => hnul ⟨k, hk, hpage, hat⟩⟩⟩

lemma copyinstrPage_rest (n p : Nat) (s : StrCopy A) :
    (copyinstrPage n p s).mem = { s.mem with byte := (copyinstrPage n p s).mem.byte } := by
  induction n generalizing p s with
  | zero => rfl
  | succ n ih =>
    rw [copyinstrPage]
    by_cases hnul : s.mem.byte p = 0
    · rw [if_pos hnul]
      rfl
    · rw [if_neg hnul]
      exact ih _ _

/-- Whatever the string is, only bytes change. -/
lemma copyinstr_rest {res : Nat} (h : copyinstr E r dst srcva max m = some (res, m')) :
    m' = { m with byte := m'.byte } := by
  have hloop : ∀ (fuel : Nat) (s : StrCopy A), copyinstrLoop E r srcva fuel s = some (res, m') →
      m' = { s.mem with byte := m'.byte } := by
    intro fuel
    induction fuel with
    | zero =>
      intro s h
      cases h
      rfl
    | succ fuel ih =>
      intro s h
      rw [copyinstrLoop] at h
      split_ifs at h
      · cases h
        rfl
      · cases h
        rfl
      · obtain ⟨pa0, _, h⟩ := bind_eq_some_iff.mp h
        split_ifs at h
        · cases h
          rfl
        · rw [ih _ h, copyinstrPage_rest]
  exact hloop _ _ h

/-! ## Strings of the user -/

/-- A string of length `k` stands at the address in pages of the user. -/
structure StringAt (m : Mem A) (r srcva k : Nat) : Prop where
  user : ∀ i ≤ k, userPage m r (wrap64 (srcva + i)) = true
  chars : ∀ i < k, m.byte (phys m r (wrap64 (srcva + i))) ≠ 0
  nul : m.byte (phys m r (wrap64 (srcva + k))) = 0

instance (m : Mem A) (r srcva k : Nat) : Decidable (StringAt m r srcva k) :=
  decidable_of_iff ((∀ i < k + 1, userPage m r (wrap64 (srcva + i)) = true) ∧
      (∀ i < k, m.byte (phys m r (wrap64 (srcva + i))) ≠ 0) ∧
      m.byte (phys m r (wrap64 (srcva + k))) = 0)
    ⟨fun h => ⟨fun i hi => h.1 i (Nat.lt_succ_of_le hi), h.2.1, h.2.2⟩,
      fun h => ⟨fun i hi => h.user i (Nat.le_of_lt_succ hi), h.chars, h.nul⟩⟩

/-- The string is in the buffer and its size is the result, or there is none and the call fails;
nothing is written behind the buffer. -/
structure CopiesString (r dst srcva max : Nat) (m : Mem A) (res : Nat) (m' : Mem A) : Prop where
  found : ∀ k, k + 1 ≤ max → StringAt m r srcva k → res = k + 1 ∧
    (∀ i < k, m'.byte (dst + i) = m.byte (phys m r (wrap64 (srcva + i)))) ∧ m'.byte (dst + k) = 0
  missing : (¬ ∃ k, k + 1 ≤ max ∧ StringAt m r srcva k) → res = 2 ^ 64 - 1
  bounded : ∀ x, x < dst ∨ dst + max ≤ x → m'.byte x = m.byte x

/-- The string ends in its first page, and a page that is found and holds one is the user's. -/
structure CopiesStringWhen (m : Mem A) (r srcva max : Nat) : Prop where
  onePage : ∀ k, k + 1 ≤ max → StringAt m r srcva k → srcva % pgSize + k < pgSize
  user : accepts m r srcva = true → userPage m r srcva = false →
    ∀ i < max, srcva % pgSize + i < pgSize → m.byte (phys m r srcva + i) ≠ 0

/-- Strings of the user are short of the whole address space. -/
lemma StringAt.lt (hva : srcva < 2 ^ 64) (h : StringAt m r srcva k) : k < maxVa := by
  by_contra hge
  have hfirst := h.user 0 (Nat.zero_le _)
  simp only [userPage, Bool.and_eq_true, decide_eq_true_eq, add_zero, wrap64_of_lt hva] at hfirst
  have hend := h.user (maxVa - srcva) (by omega)
  have hwrap : wrap64 (srcva + (maxVa - srcva)) = maxVa := by
    unfold wrap64 maxVa at *
    omega
  simp only [userPage, hwrap, lt_irrefl, decide_false, Bool.false_and] at hend
  cases hend

lemma stringAt_iff (hva : srcva < 2 ^ 64) (hpage : srcva % 4096 + k < 4096) :
    StringAt m r srcva k ↔ userPage m r srcva = true ∧ NulAt m (phys m r srcva) k := by
  constructor
  · intro h
    refine ⟨?_, ?_, ?_⟩
    · rw [← userPage_same_page hva hpage]
      exact h.user k le_rfl
    · intro i hi
      rw [← phys_add hva (by omega)]
      exact h.chars i hi
    · rw [← phys_add hva hpage]
      exact h.nul
  · rintro ⟨huser, hnul⟩
    refine ⟨?_, ?_, ?_⟩
    · intro i hi
      rw [userPage_same_page hva (by omega)]
      exact huser
    · intro i hi
      rw [phys_add hva (by omega)]
      exact hnul.1 i hi
    · rw [phys_add hva hpage]
      exact hnul.2

/-- `copyinstr` copies strings exactly in these cases. -/
theorem copyinstr_copies_iff (hr : r ≠ E.kernelPagetable) (hva : srcva < 2 ^ 64)
    (hbeyond : accepts m r srcva = true → ∀ i < max, ∀ j, srcva % pgSize + j < pgSize →
      dst + i ≠ phys m r srcva + j) :
    ∃ res m', copyinstr E r dst srcva max m = some (res, m') ∧
      (CopiesString r dst srcva max m res m' ↔ CopiesStringWhen m r srcva max) := by
  obtain ⟨res, m', hcopy, _, hother, hspec⟩ := copyinstr_spec hr hva hbeyond
  refine ⟨res, m', hcopy, ?_, ?_⟩
  · intro h
    constructor
    · intro k hk hstring
      have hlt := hstring.lt hva
      have hres := (h.found k hk hstring).1
      rcases hspec with ⟨k', _, hpage, _, _, hres', _⟩ | ⟨hres', _⟩
      · have hkk : k = k' := by omega
        rw [hkk]
        exact hpage
      · unfold maxVa at hlt
        omega
    · intro hacc hno i hi hpage hzero
      have hres := h.missing fun ⟨k, _, hstring⟩ => by
        have hfirst := hstring.user 0 (Nat.zero_le _)
        rw [add_zero, wrap64_of_lt hva, hno] at hfirst
        cases hfirst
      rcases hspec with ⟨k', _, hpage', _, _, hres', _⟩ | ⟨_, hnone⟩
      · omega
      · obtain ⟨k, hk, hnul⟩ := exists_nulAt hzero
        unfold pgSize at hpage
        exact hnone k (by omega) (by omega) hacc hnul
  · intro h
    refine ⟨?_, ?_, hother⟩
    · intro k hk hstring
      have hpage : srcva % 4096 + k < 4096 := h.onePage k hk hstring
      obtain ⟨huser, hnul⟩ := (stringAt_iff hva hpage).mp hstring
      rcases hspec with ⟨k', _, _, _, hnul', hres, hbytes⟩ | ⟨_, hnone⟩
      · obtain rfl := hnul.unique hnul'
        refine ⟨hres, fun i hi => ?_, ?_⟩
        · rw [phys_add hva (by omega)]
          exact hbytes i (by omega)
        · rw [hbytes k le_rfl]
          exact hnul.2
      · exact absurd hnul (hnone k (by omega) hpage (accepts_of_userPage huser))
    · intro hmissing
      rcases hspec with ⟨k, hk, hpage, hacc, hnul, _⟩ | ⟨hres, _⟩
      · have huser : userPage m r srcva = true := by
          by_contra hno
          exact h.user hacc (Bool.eq_false_iff.mpr hno) k hk hpage hnul.2
        exact absurd ⟨k, hk, (stringAt_iff hva hpage).mpr ⟨huser, hnul⟩⟩ hmissing
      · exact hres

end

/-! ## Small ranges -/

/-- A table with two pages of the user, at `0x1000`, and the bytes `src` from `va` on. -/
def bootUser (va : Nat) (src : List Nat) : Option (Env Buddy.Pool × Nat × Mem Buddy.Pool) := do
  let (E, m) ← bootSmall
  let (r, m) ← allocPagetable E m
  let (f, m) ← kalloc E (2 * pgSize) m
  let m ← mappages E r 0x1000 f (2 * pgSize) (pteU ||| pteRw) m
  let (_, m) ← copyout E r va src m
  some (E, r, m)

/-- Three bytes of mapped pages. -/
theorem copyin_reports_mapped :
    ∃ E r m res res' m', bootUser 0x1fff [1, 2, 3] = some (E, r, m) ∧
      copyin E r 0x2000 0x1fff 3 m = some (res, m') ∧
      copyFromUser E r 0x2000 0x1fff 3 m = some (res', m') ∧
      Reports r 0x2000 0x1fff 3 m res res' m' := by
  have hrun : ((bootUser 0x1fff [1, 2, 3]).map fun x =>
      decide (x.2.1 ≠ x.1.kernelPagetable ∧
        (∀ i < 3, ∀ j < 3, 0x2000 + i ≠ phys x.2.2 x.2.1 (wrap64 (0x1fff + j))) ∧
        ∀ i < 3, userPage x.2.2 x.2.1 (wrap64 (0x1fff + i)) = true)) = some true := by
    decide +kernel
  obtain ⟨⟨E, r, m⟩, hboot, heq⟩ := map_eq_some_iff.mp hrun
  obtain ⟨hr, hbeyond, huser⟩ := of_decide_eq_true heq
  obtain ⟨res, res', m', hcopy, hcopy', hiff⟩ := copyin_reports_iff (m := m) hr
    (by decide : 0x2000 ≠ 0) (by decide : 0x1fff < 2 ^ 64) (by decide : 3 < 2 ^ 64)
    fun i hi j hj _ => hbeyond i hi j hj
  exact ⟨E, r, m, res, res', m', hboot, hcopy, hcopy', hiff.mpr (.inl huser)⟩

/-- A range whose first page is not mapped, and one whose second page is not: nothing or half of
it is copied, and both calls report success. -/
theorem copyin_reports_missing_page :
    ∃ E r m m₁ m₂ m₃, bootUser 0x2ffe [1, 2] = some (E, r, m) ∧
      userPage m r 0x3000 = false ∧
      copyin E r 0x4000 0x3000 4 m = some (0, m₁) ∧
      copyFromUser E r 0x4000 0x3000 4 m = some (4, m₂) ∧ m₂.byte 0x4000 = m.byte 0x4000 ∧
      copyFromUser E r 0x4000 0x2ffe 4 m = some (4, m₃) := by
  have hrun : ((bootUser 0x2ffe [1, 2]).bind fun x =>
      (copyin x.1 x.2.1 0x4000 0x3000 4 x.2.2).bind fun c =>
        (copyFromUser x.1 x.2.1 0x4000 0x3000 4 x.2.2).bind fun d =>
          (copyFromUser x.1 x.2.1 0x4000 0x2ffe 4 x.2.2).map fun e =>
            decide (userPage x.2.2 x.2.1 0x3000 = false ∧ c.1 = 0 ∧ d.1 = 4 ∧
              d.2.byte 0x4000 = x.2.2.byte 0x4000 ∧ e.1 = 4)) = some true := by
    decide +kernel
  simp only [bind_eq_some_iff, map_eq_some_iff, Prod.exists] at hrun
  obtain ⟨E, r, m, hboot, res1, m₁, hcopy1, res2, m₂, hcopy2, res3, m₃, hcopy3, heq⟩ := hrun
  obtain ⟨hpage, hres1, hres2, hbyte, hres3⟩ := of_decide_eq_true heq
  refine ⟨E, r, m, m₁, m₂, m₃, hboot, hpage, ?_, ?_, hbyte, ?_⟩
  · rw [hcopy1]
    exact congrArg (fun n => some (n, m₁)) hres1
  · rw [hcopy2]
    exact congrArg (fun n => some (n, m₂)) hres2
  · rw [hcopy3]
    exact congrArg (fun n => some (n, m₃)) hres3

/-- The string `"AB"` at the end of a page. -/
theorem copyinstr_copies_in_page :
    ∃ E r m res m', bootUser 0x1ffd [65, 66, 0] = some (E, r, m) ∧
      copyinstr E r 0x2000 0x1ffd 8 m = some (res, m') ∧ StringAt m r 0x1ffd 2 ∧
      CopiesString r 0x2000 0x1ffd 8 m res m' := by
  have hrun : ((bootUser 0x1ffd [65, 66, 0]).map fun x =>
      decide ((x.2.1 ≠ x.1.kernelPagetable ∧ 0x3000 ≤ phys x.2.2 x.2.1 0x1ffd) ∧
        StringAt x.2.2 x.2.1 0x1ffd 2)) = some true := by
    decide +kernel
  obtain ⟨⟨E, r, m⟩, hboot, heq⟩ := map_eq_some_iff.mp hrun
  obtain ⟨⟨hr, hphys⟩, hstring⟩ := of_decide_eq_true heq
  have hphys : 0x3000 ≤ phys m r 0x1ffd := hphys
  have hva : 0x1ffd < 2 ^ 64 := by decide
  have hbeyond : accepts m r 0x1ffd = true → ∀ i < 8, ∀ j, 0x1ffd % pgSize + j < pgSize →
      0x2000 + i ≠ phys m r 0x1ffd + j := by
    intro _ i hi j _
    omega
  obtain ⟨res, m', hcopy, hiff⟩ := copyinstr_copies_iff hr hva hbeyond
  refine ⟨E, r, m, res, m', hboot, hcopy, hstring, hiff.mpr ⟨?_, ?_⟩⟩
  · intro k _ hk
    by_contra hpage
    have hchar := hk.chars 2 (by unfold pgSize at hpage; omega)
    exact hchar hstring.nul
  · intro _ hno
    have huser := hstring.user 0 (Nat.zero_le _)
    have hzero : wrap64 (0x1ffd + 0) = 0x1ffd := by decide
    rw [hzero, hno] at huser
    cases huser

/-- The string `"AB"` over the end of a page: the second turn reads the first byte again. -/
theorem copyinstr_stays_on_page :
    ∃ E r m m', bootUser 0x1fff [65, 66, 0] = some (E, r, m) ∧ StringAt m r 0x1fff 2 ∧
      copyinstr E r 0x3000 0x1fff 8 m = some (2 ^ 64 - 1, m') ∧
      m'.byte 0x3000 = 65 ∧ m'.byte 0x3001 = 65 := by
  have hrun : ((bootUser 0x1fff [65, 66, 0]).bind fun x =>
      (copyinstr x.1 x.2.1 0x3000 0x1fff 8 x.2.2).map fun c =>
        decide ((c.1 = 2 ^ 64 - 1 ∧ c.2.byte 0x3000 = 65 ∧ c.2.byte 0x3001 = 65) ∧
        StringAt x.2.2 x.2.1 0x1fff 2)) = some true := by
    decide +kernel
  obtain ⟨⟨E, r, m⟩, hboot, hrun⟩ := bind_eq_some_iff.mp hrun
  obtain ⟨⟨res, m'⟩, hcopy, heq⟩ := map_eq_some_iff.mp hrun
  obtain ⟨⟨hres, hfirst, hsecond⟩, hstring⟩ := of_decide_eq_true heq
  refine ⟨E, r, m, m', hboot, hstring, ?_, hfirst, hsecond⟩
  rw [hcopy]
  exact congrArg (fun n => some (n, m')) hres

end Hana.Vm
