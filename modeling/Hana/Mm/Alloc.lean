import Hana.Mm.Buddy.Run

/-!
# The allocator as its clients see it

The rest of the memory management uses `kalloc` and `kfree` only. `Allocator` is that
interface, and `Lawful` says what a client can rely on: `Held a p n` means that the block
of `n` pages at `p` is allocated; an allocation returns a block that no held block
overlaps, and a held block can be freed.

The buddy allocator is such an allocator: its state is carried together with the list of
live blocks of the run that led to it.
-/

namespace Hana

open Lib List

structure Allocator (A : Type) where
  kalloc : Nat → A → Option (Nat × A)
  kfree : Nat → A → Option A

/-- `lo` and `hi` bound the memory that the allocator manages. -/
structure Allocator.Lawful {A : Type} (al : Allocator A) (lo hi : Nat) (Inv : A → Prop)
    (Held : A → Nat → Nat → Prop) : Prop where
  range : ∀ {a p n}, Inv a → Held a p n → 4096 ∣ p ∧ 0 < n ∧ lo ≤ p ∧ p + 4096 * n ≤ hi
  apart : ∀ {a p n q k}, Inv a → Held a p n → Held a q k →
    (p = q ∧ n = k) ∨ p + 4096 * n ≤ q ∨ q + 4096 * k ≤ p
  kalloc_spec : ∀ {a a' sz p}, Inv a → 0 < sz → sz ≤ 4 * 2 ^ 20 → al.kalloc sz a = some (p, a') →
    Inv a' ∧ ∃ n, sz ≤ 4096 * n ∧ (sz ≤ 4096 → n = 1) ∧
      (∀ q k, Held a q k → p + 4096 * n ≤ q ∨ q + 4096 * k ≤ p) ∧
      ∀ q k, Held a' q k ↔ (q = p ∧ k = n) ∨ Held a q k
  kfree_spec : ∀ {a p n}, Inv a → Held a p n → ∃ a', al.kfree p a = some a' ∧ Inv a' ∧
    ∀ q k, Held a' q k ↔ Held a q k ∧ ¬ (q = p ∧ k = n)

/-- What a client sees at the limits: a request of no bytes stops the kernel, and after a block has
been freed there is a page. -/
structure Allocator.Refills {A : Type} (al : Allocator A) (Inv : A → Prop)
    (Held : A → Nat → Nat → Prop) : Prop where
  zero : ∀ a, al.kalloc 0 a = none
  page : ∀ {a a' p n sz}, Inv a → Held a p n → al.kfree p a = some a' → 0 < sz → sz ≤ 4096 →
    ∃ r, al.kalloc sz a' = some r

namespace Buddy

/-- The state of the buddy allocator with the list of live blocks, which no operation reads. -/
abbrev Pool := Kmem × List Block

def allocator (L : Layout) : Allocator Pool where
  kalloc sz a := (kalloc L sz a.1).map fun r => (r.1, (r.2, ⟨r.1, requestOrder sz⟩ :: a.2))
  kfree p a := (kfree L p a.1).map fun st =>
    (st, a.2.filter fun b => b.addr != p)

def held (a : Pool) (p n : Nat) : Prop :=
  ∃ b ∈ a.2, b.addr = p ∧ 2 ^ b.order = n

lemma blockSize_eq_mul (k : Nat) : blockSize k = 4096 * 2 ^ k := by
  rw [blockSize_eq, Nat.pow_add]

variable {L : Layout} {s e start end_ : Nat} {F : Nat → List Nat} {live : List Block}

/-- Live blocks are known by their addresses. -/
lemma Partition.live_pairwise {st : Kmem} (h : Partition L s e st F live []) :
    live.Pairwise fun b c => b.span.Apart c.span := by
  have happart := h.consistent.apart
  rw [pairwise_append] at happart
  exact pairwise_map.mp happart.2.1

variable {b c : Block}

lemma addr_ne_of_apart (h : b.span.Apart c.span) : c.addr ≠ b.addr := by
  have hb := blockSize_pos b.order
  have hc := blockSize_pos c.order
  simp only [Span.Apart, Span.stop, Block.span] at h
  omega

/-- Taking out the block at an address is erasing it. -/
lemma filter_addr_eq_erase (h : live.Pairwise fun b c => b.span.Apart c.span) (hb : b ∈ live) :
    (live.filter fun c => c.addr != b.addr) = live.erase b := by
  induction live with
  | nil => cases hb
  | cons c live ih =>
    obtain ⟨hc, hl⟩ := pairwise_cons.mp h
    by_cases hcb : c = b
    · subst hcb
      rw [erase_cons_head]
      simp only [filter_cons, bne_self_eq_false, Bool.false_eq_true, if_false]
      refine filter_eq_self.mpr fun d hd => ?_
      simpa using addr_ne_of_apart (hc d hd)
    · have hb : b ∈ live := (mem_cons.mp hb).resolve_left fun he => hcb he.symm
      have hne : (c.addr != b.addr) = true := by
        simpa using (addr_ne_of_apart (hc b hb)).symm
      rw [erase_cons_tail (by simpa using hcb), filter_cons, if_pos hne, ih hl hb]

lemma Partition.live_apart_of_ne {st : Kmem} (h : Partition L s e st F live []) (hb : b ∈ live)
    (hc : c ∈ live) (hne : b ≠ c) : b.span.Apart c.span := by
  have hpair := h.live_pairwise
  have hsymm : Std.Symm fun b c : Block => b.span.Apart c.span := ⟨fun _ _ => Or.symm⟩
  exact hpair.forall hb hc hne

lemma requestOrder_page {sz : Nat} (hpos : 0 < sz) (hsz : sz ≤ 4096) : requestOrder sz = 0 := by
  have hround : pgRoundUp sz = 4096 := by
    rw [pgRoundUp_eq (by omega)]
    omega
  rw [requestOrder, hround]
  rfl

lemma allocator_lawful (hL : L.Region (pgRoundUp start) (pgRoundDown end_)) :
    (allocator L).Lawful (pgRoundUp start) (pgRoundDown end_)
      (fun a => Reach L start end_ a.1 a.2) held := by
  refine ⟨?_, ?_, ?_, ?_⟩
  · rintro a p n hr ⟨b, hb, rfl, rfl⟩
    obtain ⟨F, hp⟩ := hr.partition hL
    have hrange := hp.live_range hb
    rw [blockSize_eq_mul] at hrange
    exact ⟨hp.live_dvd b hb, Nat.two_pow_pos _, hrange⟩
  · rintro a p n q k hr ⟨b, hb, rfl, rfl⟩ ⟨c, hc, rfl, rfl⟩
    obtain ⟨F, hp⟩ := hr.partition hL
    by_cases hbc : b = c
    · subst hbc
      exact .inl ⟨rfl, rfl⟩
    · right
      rw [← blockSize_eq_mul, ← blockSize_eq_mul]
      exact hp.live_apart_of_ne hb hc hbc
  · intro a a' sz p hr hpos hsz h
    obtain ⟨⟨p, st⟩, halloc, heq⟩ := Option.map_eq_some_iff.mp h
    cases heq
    have hr' := Reach.kalloc hr hpos hsz halloc
    obtain ⟨F, hp⟩ := hr'.partition hL
    refine ⟨hr', 2 ^ requestOrder sz, ?_, ?_, ?_, ?_⟩
    · rw [← blockSize_eq_mul]
      exact (requestOrder_spec hsz).2
    · intro hpage
      rw [requestOrder_page hpos hpage]
      rfl
    · rintro q k ⟨c, hc, rfl, rfl⟩
      have happart := hp.live_apart hc
      rw [← blockSize_eq_mul, ← blockSize_eq_mul]
      exact happart
    · intro q k
      constructor
      · rintro ⟨c, hc, rfl, rfl⟩
        rcases mem_cons.mp hc with rfl | hc
        · exact .inl ⟨rfl, rfl⟩
        · exact .inr ⟨c, hc, rfl, rfl⟩
      · rintro (⟨rfl, rfl⟩ | ⟨c, hc, rfl, rfl⟩)
        · exact ⟨_, mem_cons_self, rfl, rfl⟩
        · exact ⟨c, mem_cons_of_mem _ hc, rfl, rfl⟩
  · rintro a p n hr ⟨b, hb, rfl, rfl⟩
    obtain ⟨F, hp⟩ := hr.partition hL
    obtain ⟨st', F', hfree, _⟩ := kfree_spec hL hp hb
    have herase := filter_addr_eq_erase hp.live_pairwise hb
    refine ⟨(st', a.2.filter fun c => c.addr != b.addr), ?_, ?_, ?_⟩
    · show (kfree L b.addr a.1).map _ = _
      rw [hfree]
      rfl
    · rw [herase]
      exact Reach.kfree hr hb hfree
    · intro q k
      constructor
      · rintro ⟨c, hc, rfl, rfl⟩
        obtain ⟨hc, hne⟩ := mem_filter.mp hc
        refine ⟨⟨c, hc, rfl, rfl⟩, fun he => ?_⟩
        simp [he.1] at hne
      · rintro ⟨⟨c, hc, rfl, rfl⟩, hne⟩
        refine ⟨c, mem_filter.mpr ⟨hc, ?_⟩, rfl, rfl⟩
        by_cases hcb : c = b
        · subst hcb
          exact absurd ⟨rfl, rfl⟩ hne
        · simpa using (addr_ne_of_apart (hp.live_apart_of_ne hc hb hcb)).symm

/-- The block that `kfree` puts on a list can serve a request for a page. -/
lemma allocator_refills (hL : L.Region (pgRoundUp start) (pgRoundDown end_)) :
    (allocator L).Refills (fun a => Reach L start end_ a.1 a.2) held := by
  refine ⟨fun a => rfl, ?_⟩
  rintro a a' p n sz hr ⟨b, hb, rfl, rfl⟩ hfree hpos hsz
  obtain ⟨F, hp⟩ := hr.partition hL
  obtain ⟨st', F', x, k, hst', hp', hput⟩ := kfree_cases hL hp hb
  obtain ⟨st, hst, rfl⟩ := Option.map_eq_some_iff.mp hfree
  rw [hst', Option.some.injEq] at hst
  subst hst
  have hmax : sz ≤ maxRequest := hsz.trans (by decide)
  rcases kalloc_spec hL hp' hpos hmax with ⟨_, hempty⟩ | ⟨addr, st1, _, hsome, _⟩
  · have hnil := hempty k (by rw [requestOrder_page hpos hsz]; exact Nat.zero_le k) hput.order_lt
    have hmem := hput.mem
    rw [hnil] at hmem
    cases hmem
  · exact ⟨_, Option.map_eq_some_iff.mpr ⟨_, hsome, rfl⟩⟩

end Buddy

end Hana
