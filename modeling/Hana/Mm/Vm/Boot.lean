import Hana.Mm.Vm.Frames

/-!
# The memory after boot

`kmem_init` puts the array `pages` at the start of the free memory, clears it and hands the
rest to the buddy allocator. The state it leaves satisfies what the other modules assume of
a running kernel: the allocator is lawful, there is no page table yet and no frame is in
use.
-/

namespace Hana.Vm

/-- The number of bytes of the array `pages`, whole pages; a `struct page` takes two bytes. -/
def npagesSize (vaStart vaEnd : Nat) : Nat :=
  pgRoundUp ((wrap64 (pgRoundDown vaEnd + (2 ^ 64 - pgRoundUp vaStart)) >>> pgShift) * 2)

/-- `kmem_init`, on a memory with arbitrary contents. -/
def kmemInit (zone kernelPagetable vaStart vaEnd : Nat) (st : Buddy.Kmem)
    (pte byte cnt : Nat → Nat) :
    Option (Env Buddy.Pool × Mem Buddy.Pool) := do
  let s := pgRoundUp vaStart
  let e := pgRoundDown vaEnd
  let npages := wrap64 (e + (2 ^ 64 - s)) >>> pgShift
  let L : Buddy.Layout := ⟨zone, s⟩
  let st ← Buddy.buddyInit L (wrap64 (s + npagesSize vaStart vaEnd)) e st
  some (⟨Buddy.allocator L, s, kernelPagetable⟩,
    ⟨(st, []), pte, byte, fun i => if i < npages then 0 else cnt i, []⟩)

section

variable {zone kernelPagetable vaStart vaEnd : Nat} {st : Buddy.Kmem} {pte byte cnt : Nat → Nat}
variable {E : Env Buddy.Pool} {m : Mem Buddy.Pool}

/-- The allocator states that `kmem_init` can lead to. -/
def bootInv (zone vaStart vaEnd : Nat) (a : Buddy.Pool) : Prop :=
  Buddy.Reach ⟨zone, pgRoundUp vaStart⟩
    (wrap64 (pgRoundUp vaStart + npagesSize vaStart vaEnd)) (pgRoundDown vaEnd) a.1 a.2

/-- The memory that the allocator manages begins behind the array `pages`. -/
def bootLo (vaStart vaEnd : Nat) : Nat :=
  pgRoundUp (wrap64 (pgRoundUp vaStart + npagesSize vaStart vaEnd))

lemma npagesSize_lt (hle : pgRoundUp vaStart ≤ pgRoundDown vaEnd) (hend : vaEnd ≤ physTop) :
    npagesSize vaStart vaEnd < 2 ^ 33 := by
  have hdown := pgRoundDown_le vaEnd
  unfold physTop at hend
  have hcount : (wrap64 (pgRoundDown vaEnd + (2 ^ 64 - pgRoundUp vaStart)) >>> pgShift) * 2 <
      2 ^ 32 := by
    unfold wrap64 pgShift
    omega
  unfold npagesSize
  rw [pgRoundUp_eq (by omega)]
  omega

lemma bootLo_eq (hle : pgRoundUp vaStart ≤ pgRoundDown vaEnd) (hend : vaEnd ≤ physTop) :
    bootLo vaStart vaEnd = pgRoundUp vaStart + npagesSize vaStart vaEnd := by
  have hsize := npagesSize_lt hle hend
  have hdown := pgRoundDown_le vaEnd
  have hs := pgRoundUp_dvd vaStart
  have hn : 4096 ∣ npagesSize vaStart vaEnd := pgRoundUp_dvd _
  unfold physTop at hend
  unfold bootLo
  rw [wrap64_of_lt (by omega), pgRoundUp_eq (by omega)]
  omega

lemma pgRoundDown_boot (hend : vaEnd ≤ physTop) :
    pgRoundDown (pgRoundDown vaEnd) = pgRoundDown vaEnd ∧ pgRoundDown vaEnd < 2 ^ 64 := by
  have hdown := pgRoundDown_le vaEnd
  have htop : physTop < 2 ^ 64 := by decide
  have hdvd := pgRoundDown_dvd (a := vaEnd) (by omega)
  refine ⟨?_, by omega⟩
  rw [pgRoundDown_eq (by omega)]
  omega

/-- The zone is outside of the memory that the allocator manages. -/
lemma boot_region (hend : vaEnd ≤ physTop)
    (hzone : zone + 40 * Buddy.maxOrder ≤ bootLo vaStart vaEnd ∨ pgRoundDown vaEnd ≤ zone) :
    (⟨zone, pgRoundUp vaStart⟩ : Buddy.Layout).Region (bootLo vaStart vaEnd)
      (pgRoundDown (pgRoundDown vaEnd)) := by
  obtain ⟨hidem, hlt⟩ := pgRoundDown_boot hend
  rw [hidem]
  exact ⟨pgRoundUp_dvd _, hlt, hzone⟩

/-- After `kmem_init` the allocator is lawful, and there is no table yet. -/
lemma kmemInit_ok (hpos : 0 < pgRoundUp vaStart)
    (hle : pgRoundUp vaStart ≤ pgRoundDown vaEnd) (hend : vaEnd ≤ physTop)
    (hzone : zone + 40 * Buddy.maxOrder ≤ bootLo vaStart vaEnd ∨ pgRoundDown vaEnd ≤ zone)
    (hmagic : ∀ x, 4096 ∣ x → st.magic x ≠ Buddy.buddyMagic)
    (h : kmemInit zone kernelPagetable vaStart vaEnd st pte byte cnt = some (E, m)) :
    E.Ok (bootLo vaStart vaEnd) (pgRoundDown vaEnd) (bootInv zone vaStart vaEnd) Buddy.held ∧
      Shaped (bootInv zone vaStart vaEnd) Buddy.held m fun _ => none := by
  obtain ⟨st', hinit, heq⟩ := Option.bind_eq_some_iff.mp h
  cases heq
  have hlo := bootLo_eq hle hend
  have hdown := pgRoundDown_le vaEnd
  obtain ⟨hidem, hlt⟩ := pgRoundDown_boot hend
  have hlawful := Buddy.allocator_lawful (boot_region hend hzone)
  rw [hidem] at hlawful
  have hpages : pgRoundUp vaStart ≤ bootLo vaStart vaEnd := by omega
  refine ⟨⟨hlawful, by omega, by omega, hpages, pgRoundUp_dvd _⟩, ⟨?_, ?_, ?_⟩⟩
  · exact Tables.empty
  · exact Buddy.Reach.init hmagic hinit
  · intro t pl ht
    cases ht

/-- After `kmem_init` a page that is freed can be allocated again. -/
lemma kmemInit_refills (hend : vaEnd ≤ physTop)
    (hzone : zone + 40 * Buddy.maxOrder ≤ bootLo vaStart vaEnd ∨ pgRoundDown vaEnd ≤ zone)
    (h : kmemInit zone kernelPagetable vaStart vaEnd st pte byte cnt = some (E, m)) :
    E.al.Refills (bootInv zone vaStart vaEnd) Buddy.held := by
  obtain ⟨st', hinit, heq⟩ := Option.bind_eq_some_iff.mp h
  cases heq
  exact Buddy.allocator_refills (boot_region hend hzone)

/-- `kmem_init` clears the counters of the managed frames. -/
lemma kmemInit_cnt (hle : pgRoundUp vaStart ≤ pgRoundDown vaEnd) (hend : vaEnd ≤ physTop)
    (h : kmemInit zone kernelPagetable vaStart vaEnd st pte byte cnt = some (E, m)) {f : Nat}
    (hf : Managed (bootLo vaStart vaEnd) (pgRoundDown vaEnd) f) : m.cnt (pageIndex E f) = 0 := by
  obtain ⟨st', hinit, heq⟩ := Option.bind_eq_some_iff.mp h
  cases heq
  obtain ⟨hdvd, hlo, hhi⟩ := hf
  rw [bootLo_eq hle hend] at hlo
  have hdown := pgRoundDown_le vaEnd
  have htop : physTop < 2 ^ 64 := by decide
  have hdvd' := pgRoundDown_dvd (a := vaEnd) (by omega)
  refine if_pos ?_
  unfold pageIndex wrap64 pgShift
  have hf' : (f + (2 ^ 64 - pgRoundUp vaStart)) % 2 ^ 64 = f - pgRoundUp vaStart := by omega
  have he' : (pgRoundDown vaEnd + (2 ^ 64 - pgRoundUp vaStart)) % 2 ^ 64 =
      pgRoundDown vaEnd - pgRoundUp vaStart := by omega
  simp only [hf', he']
  omega

end

/-! ## Small kernels -/

/-- A kernel on cleared memory, which ends at `vaEnd`. -/
def bootCleared (vaEnd : Nat) : Option (Env Buddy.Pool × Mem Buddy.Pool) :=
  kmemInit 0x80250000 0 0x80300000 vaEnd
    ⟨fun _ => 0, fun _ => 0, fun _ => 0, fun _ => 0, fun _ => 0, fun _ => 0⟩
    (fun _ => 0) (fun _ => 0) (fun _ => 0)

/-- A kernel with fifteen pages for the allocator. -/
def bootSmall : Option (Env Buddy.Pool × Mem Buddy.Pool) := bootCleared 0x80310000

section

variable {E : Env Buddy.Pool} {m : Mem Buddy.Pool} {vaEnd : Nat}

lemma bootCleared_ok (h : bootCleared vaEnd = some (E, m))
    (hle : 0x80300000 ≤ pgRoundDown vaEnd) (hend : vaEnd ≤ physTop) :
    E.Ok (bootLo 0x80300000 vaEnd) (pgRoundDown vaEnd) (bootInv 0x80250000 0x80300000 vaEnd)
        Buddy.held ∧
      Shaped (bootInv 0x80250000 0x80300000 vaEnd) Buddy.held m fun _ => none := by
  have hstart : pgRoundUp 0x80300000 = 0x80300000 := by decide
  have hmagic : 0 ≠ Buddy.buddyMagic := by decide
  have hlo := bootLo_eq (hstart ▸ hle) hend
  refine kmemInit_ok (by decide) (hstart ▸ hle) hend (.inl ?_) (fun _ _ => hmagic) h
  unfold Buddy.maxOrder
  omega

lemma bootSmall_ok (h : bootSmall = some (E, m)) :
    E.Ok (bootLo 0x80300000 0x80310000) (pgRoundDown 0x80310000)
        (bootInv 0x80250000 0x80300000 0x80310000) Buddy.held ∧
      Shaped (bootInv 0x80250000 0x80300000 0x80310000) Buddy.held m fun _ => none :=
  bootCleared_ok h (by decide) (by decide)

lemma bootSmall_refills (h : bootSmall = some (E, m)) :
    E.al.Refills (bootInv 0x80250000 0x80300000 0x80310000) Buddy.held :=
  kmemInit_refills (by decide) (.inl (by decide)) h

end

end Hana.Vm
