import Hana.Mm.Vm.RefCount

/-!
# The bytes that copyout writes

`copyout` goes through the table it is given: the byte for the address `va` is stored at
`phys m r va`. `Wrote` says which bytes of memory these are, and that no other byte, no table
and no block changes, as long as no page on the way is marked for copying.
-/

namespace Hana.Vm

open List

variable {A : Type}

/-- The physical address behind a virtual one. -/
def phys (m : Mem A) (r va : Nat) : Nat := pte2pa (leaf m r (va >>> 12)) + va % 4096

/-- The bytes `src` stand at `dstva` in the table of `r`, and the rest of memory is as before. -/
structure Wrote (r dstva : Nat) (src : List Nat) (m m' : Mem A) : Prop where
  rest : m' = { m with byte := m'.byte }
  bytes : ∀ i < src.length, m'.byte (phys m r (wrap64 (dstva + i))) = src.getD i 0
  other : ∀ x, (∀ i < src.length, x ≠ phys m r (wrap64 (dstva + i))) → m'.byte x = m.byte x

section

variable {E : Env A} {m m' : Mem A} {r dstva : Nat} {src : List Nat} {res : Int}

lemma phys_mod (m : Mem A) (r va : Nat) : phys m r va % 4096 = va % 4096 := by
  have hdvd := pte2pa_dvd (leaf m r (va >>> 12))
  unfold phys
  omega

/-- Bytes of one page follow each other in memory. -/
lemma phys_add {va i : Nat} (hva : va < 2 ^ 64) (hi : va % 4096 + i < 4096) :
    phys m r (wrap64 (va + i)) = phys m r va + i := by
  have hlt : va + i < 2 ^ 64 := by omega
  have hpage : (va + i) >>> 12 = va >>> 12 := by
    omega
  have hmod : (va + i) % 4096 = va % 4096 + i := by omega
  rw [wrap64_of_lt hlt, phys, phys, hpage, hmod, add_assoc]

lemma readByte_eq (m : Mem A) (r va : Nat) :
    readByte m r va = if has (leaf m r (va >>> 12)) pteV then some (m.byte (phys m r va)) else none :=
  rfl

lemma writeBytes_byte (a : Nat) (src : List Nat) (m : Mem A) (x : Nat) :
    (writeBytes a src m).byte x =
      if a ≤ x ∧ x < a + src.length then src.getD (x - a) 0 else m.byte x := rfl

/-- Offsets in a page tell the bytes of a short buffer apart. -/
lemma phys_ne {va i j : Nat} (hij : i < j) (hj : j < i + 4096) :
    phys m r (wrap64 (va + i)) ≠ phys m r (wrap64 (va + j)) := by
  intro heq
  have hi := phys_mod m r (wrap64 (va + i))
  have hj := phys_mod m r (wrap64 (va + j))
  rw [heq] at hi
  unfold wrap64 at hi hj
  omega

/-- One page of the buffer, and then the pages after it. -/
lemma Wrote.cons {n : Nat} (hva : dstva < 2 ^ 64) (hlen : src.length ≤ 4096)
    (hn : n = min (4096 - dstva % 4096) src.length)
    (h : Wrote r (wrap64 (dstva / 4096 * 4096 + 4096)) (src.drop n)
      (writeBytes (phys m r dstva) (src.take n) m) m') :
    Wrote r dstva src m m' := by
  have hnext : ∀ i, i < src.length → n ≤ i →
      wrap64 (wrap64 (dstva / 4096 * 4096 + 4096) + (i - n)) = wrap64 (dstva + i) := by
    intro i hi hni
    unfold wrap64
    omega
  have hphys : ∀ va, phys (writeBytes (phys m r dstva) (src.take n) m) r va = phys m r va :=
    fun _ => rfl
  have hlater : ∀ x, (∀ i < src.length, n ≤ i → x ≠ phys m r (wrap64 (dstva + i))) →
      m'.byte x = (writeBytes (phys m r dstva) (src.take n) m).byte x := by
    intro x hx
    refine h.other x fun i hi => ?_
    rw [length_drop] at hi
    have hi' := hx (n + i) (by omega) (by omega)
    rw [hphys, ← Nat.add_sub_cancel_left n i, hnext (n + i) (by omega) (by omega)]
    exact hi'
  refine ⟨?_, ?_, ?_⟩
  · rw [h.rest]
    rfl
  · intro i hi
    by_cases hni : i < n
    · -- this byte is on the first page, and the later pages do not touch it
      have hfirst := phys_add (m := m) (r := r) hva (i := i) (by omega)
      rw [hlater _ fun j hj hnj => phys_ne (by omega) (by omega), hfirst]
      have hin : phys m r dstva ≤ phys m r dstva + i ∧
          phys m r dstva + i < phys m r dstva + (src.take n).length := by
        rw [length_take]
        omega
      rw [writeBytes_byte, if_pos hin, Nat.add_sub_cancel_left, getD_eq_getElem?_getD,
        getD_eq_getElem?_getD, List.getElem?_take_of_lt hni]
    · have hbyte := h.bytes (i - n) (by rw [length_drop]; omega)
      rw [hphys, hnext i hi (by omega)] at hbyte
      rw [hbyte, getD_eq_getElem?_getD, getD_eq_getElem?_getD, List.getElem?_drop]
      congr 2
      omega
  · intro x hx
    rw [hlater x fun i hi _ => hx i hi, writeBytes_byte]
    refine if_neg fun hin => ?_
    rw [length_take] at hin
    have hne := hx (x - phys m r dstva) (by omega)
    rw [phys_add hva (by omega)] at hne
    omega

lemma copyoutLoop_wrote {fuel : Nat} (hva : dstva < 2 ^ 64) (hfuel : src.length ≤ fuel)
    (hlen : src.length ≤ 4096) (hcow : ∀ vpn, has (leaf m r vpn) pteCow = false) (hres : 0 ≤ res)
    (h : copyoutLoop E r fuel dstva src m = some (res, m')) : Wrote r dstva src m m' := by
  induction fuel generalizing dstva src m with
  | zero =>
    have hsrc : src = [] := length_eq_zero_iff.mp (by omega)
    subst hsrc
    cases h
    exact ⟨rfl, nofun, fun _ _ => rfl⟩
  | succ fuel ih =>
    by_cases hsrc : src = []
    · subst hsrc
      cases h
      exact ⟨rfl, nofun, fun _ _ => rfl⟩
    · rcases copyoutLoop_turn hsrc (hcow _) h with ⟨_, hneg⟩ | ⟨n, hn, h⟩
      · omega
      · have hdown := pgRoundDown_eq hva
        have haddr : pte2pa (leaf m r (pgRoundDown dstva >>> 12)) + dstva - pgRoundDown dstva =
            phys m r dstva := by
          rw [pgRoundDown_shiftRight hva, hdown, phys]
          omega
        rw [haddr, hdown] at h
        unfold pgSize at hn h
        refine Wrote.cons hva hlen (by omega) (ih (wrap64_lt _) ?_ ?_ hcow h)
        · rw [length_drop]
          omega
        · rw [length_drop]
          omega

/-- A successful `copyout` of at most a page. -/
lemma copyout_wrote (hva : dstva < 2 ^ 64) (hlen : src.length ≤ 4096)
    (hcow : ∀ vpn, has (leaf m r vpn) pteCow = false) (hres : 0 ≤ res)
    (h : copyout E r dstva src m = some (res, m')) : Wrote r dstva src m m' :=
  copyoutLoop_wrote hva le_rfl hlen hcow hres h

/-! ## What the tables read afterwards -/

/-- In the table of `q` the address `va` is mapped, to the byte that `va'` has in that of `r`. -/
def Aliases (m : Mem A) (q va r va' : Nat) : Prop :=
  has (leaf m q (va >>> 12)) pteV = true ∧ phys m q va = phys m r va'

variable {q va i : Nat}

section

variable (h : Wrote r dstva src m m')
include h

lemma Wrote.leaf (q vpn : Nat) : leaf m' q vpn = leaf m q vpn := by
  rw [h.rest]
  rfl

lemma Wrote.phys (q va : Nat) : phys m' q va = phys m q va := by
  rw [h.rest]
  rfl

lemma Wrote.readByte_alias (hi : i < src.length)
    (ha : Aliases m q va r (wrap64 (dstva + i))) : readByte m' q va = some (src.getD i 0) := by
  rw [readByte_eq, h.leaf, if_pos ha.1, h.phys, ha.2, h.bytes i hi]

lemma Wrote.readByte_other (hno : ∀ i < src.length, ¬ Aliases m q va r (wrap64 (dstva + i))) :
    readByte m' q va = readByte m q va := by
  rw [readByte_eq, readByte_eq, h.leaf, h.phys]
  split_ifs with hv
  · rw [h.other _ fun i hi heq => hno i hi ⟨hv, heq⟩]
  · rfl

/-- The bytes are there for the table of `q` if they were, or if the two tables lead to the same
memory. -/
lemma Wrote.readBytes_iff (hlen : src.length ≤ 4096) :
    (∀ i < src.length, readByte m' q (wrap64 (dstva + i)) = some (src.getD i 0)) ↔
      ∀ i < src.length, Aliases m q (wrap64 (dstva + i)) r (wrap64 (dstva + i)) ∨
        readByte m q (wrap64 (dstva + i)) = some (src.getD i 0) := by
  have hturn : ∀ i < src.length, readByte m' q (wrap64 (dstva + i)) = some (src.getD i 0) ↔
      Aliases m q (wrap64 (dstva + i)) r (wrap64 (dstva + i)) ∨
        readByte m q (wrap64 (dstva + i)) = some (src.getD i 0) := by
    intro i hi
    by_cases ha : Aliases m q (wrap64 (dstva + i)) r (wrap64 (dstva + i))
    · exact ⟨fun _ => .inl ha, fun _ => h.readByte_alias hi ha⟩
    · -- a byte at another place of the buffer has another offset in its page
      have hno : ∀ j < src.length, ¬ Aliases m q (wrap64 (dstva + i)) r (wrap64 (dstva + j)) := by
        intro j hj haj
        have hmod := congrArg (· % 4096) haj.2
        have hij : i ≠ j := fun heq => ha (heq ▸ haj)
        simp only [phys_mod] at hmod
        unfold wrap64 at hmod
        omega
      rw [h.readByte_other hno]
      exact ⟨.inr, fun hor => hor.resolve_left ha⟩
  exact ⟨fun hall i hi => (hturn i hi).mp (hall i hi), fun hall i hi => (hturn i hi).mpr (hall i hi)⟩

/-- A table reads what it read before if the bytes that it shares had their values. -/
lemma Wrote.readByte_same_iff :
    (∀ va, readByte m' q va = readByte m q va) ↔ ∀ va, ∀ i < src.length,
      Aliases m q va r (wrap64 (dstva + i)) → readByte m q va = some (src.getD i 0) := by
  constructor
  · intro hsame va i hi ha
    rw [← hsame va]
    exact h.readByte_alias hi ha
  · intro hall va
    by_cases ha : ∃ i < src.length, Aliases m q va r (wrap64 (dstva + i))
    · obtain ⟨i, hi, ha⟩ := ha
      rw [h.readByte_alias hi ha, hall va i hi ha]
    · exact h.readByte_other fun i hi hai => ha ⟨i, hi, hai⟩

end

end

end Hana.Vm
