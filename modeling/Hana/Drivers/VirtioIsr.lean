import Mathlib.Data.List.Range
import Hana.Lib.Bits
import Hana.Drivers.Descriptors

/-!
# The interrupt handler of the virtio block driver

`virtio_blk_isr` walks the used ring from `seen_used` to the index of the device, hands every
entry to `virtio_blk_handle_used`, and stores the index in `seen_used`. The device runs beside it
and may append an entry between any two reads of the driver. Here each step of the handler makes
one read of `used->idx` at most. The handler reads the index once more after the loop has ended,
and an entry that arrives just before this read is passed without having been handled.

The machine counts the entries of the used ring from zero on, which neither side does: `serial`
says which entry a slot of the ring holds, `handed` lists the entries that the driver has handled,
and `passed` is the number of entries up to the index that was stored in `seen_used` last.
-/

namespace Hana.Virtio.Isr

open Function List Option Lib

/-- Where `virtio_blk_isr` stands. -/
inductive Pc
  | idle
  /-- The condition of the loop is read next. -/
  | test (i : Nat)
  | handle (i : Nat)
  /-- The loop has ended, and `seen_used` is written next. -/
  | store
  | ack
  deriving Repr, DecidableEq

structure Machine where
  blk : VirtioBlk
  interruptStatus : Bool
  pc : Pc
  appended : Nat
  serial : Nat → Nat
  handed : List Nat
  passed : Nat

inductive Event
  /-- The device completes the chain at `head`: it appends an entry and increments `used->idx`. -/
  | append (head status : Nat)
  /-- The device raises its interrupt. -/
  | raise
  /-- A process submits a request. -/
  | submit (hdr : Nat) (req : Blkreq)
  /-- The interrupt is taken. -/
  | enter
  /-- The handler goes on. -/
  | run
  deriving Repr, DecidableEq

/-- The next statement of `virtio_blk_isr`. -/
def advance (m : Machine) : Option Machine :=
  let info := m.blk.info
  match m.pc with
  | .idle => none
  | .test i =>
    if i ≠ info.virtq.usedIdx % info.queueSize then some { m with pc := .handle i }
    else some { m with pc := .store }
  | .handle i => do
    let blk ← virtioBlkHandleUsed i m.blk
    some { m with
      blk, pc := .test (wrap (i + 1) info.queueSize), handed := m.handed ++ [m.serial i] }
  | .store =>
    let seenUsed := info.virtq.usedIdx % info.queueSize
    some { m with
      blk := { m.blk with info := { info with seenUsed } }, pc := .ack, passed := m.appended }
  | .ack => some { m with interruptStatus := false, pc := .idle }

/-- The device keeps fewer than `queue_size` entries that the driver has not handled. The handler
runs with interrupts off, so no process submits a request while it does. -/
def step (m : Machine) : Event → Option Machine
  | .append head status =>
    let info := m.blk.info
    if m.appended + 1 - m.handed.length < info.queueSize then
      some { m with
        blk := deviceReturn head status m.blk
        appended := m.appended + 1
        serial := update m.serial (info.virtq.usedIdx % info.queueSize) m.appended }
    else
      none
  | .raise => some { m with interruptStatus := true }
  | .submit hdr req =>
    if m.pc = .idle then do
      let blk ← virtioBlkSubmit hdr (m.blk.setReq hdr fun r => { r with blkreq := req })
      some { m with blk }
    else
      none
  | .enter => if m.pc = .idle then some { m with pc := .test m.blk.info.seenUsed } else none
  | .run => advance m

/-- Every entry that `seen_used` has passed was handled once, and none was handled twice. -/
def HandledOnce (m : Machine) : Prop :=
  (∀ n, n < m.passed → m.handed.count n = 1) ∧ ∀ n, m.handed.count n ≤ 1

/-- No entry arrives between the read of `used->idx` that ends the loop and the one that
`seen_used` is stored from. -/
def calm (m : Machine) : Event → Bool
  | .append _ _ => m.pc != .store
  | _ => true

/-! ## What the driver leaves alone -/

/-- The side of the queue that the handler reads is the same. -/
structure SameUsed (info info' : VirtqInfo) : Prop where
  queueSize : info'.queueSize = info.queueSize
  usedIdx : info'.virtq.usedIdx = info.virtq.usedIdx
  seenUsed : info'.seenUsed = info.seenUsed

lemma SameUsed.refl (info : VirtqInfo) : SameUsed info info := ⟨rfl, rfl, rfl⟩

lemma SameUsed.trans {info1 info2 info3 : VirtqInfo} (h : SameUsed info1 info2)
    (h' : SameUsed info2 info3) : SameUsed info1 info3 :=
  ⟨h'.queueSize.trans h.queueSize, h'.usedIdx.trans h.usedIdx, h'.seenUsed.trans h.seenUsed⟩

lemma virtqAllocDesc_sameUsed {info info' : VirtqInfo} {addr d : Nat}
    (h : virtqAllocDesc info addr = some (info', d)) : SameUsed info info' := by
  by_cases hd : info.freeDesc < info.queueSize
  · rw [virtqAllocDesc_eq addr rfl hd] at h
    cases h
    exact ⟨rfl, rfl, rfl⟩
  · rw [virtqAllocDesc, if_neg hd] at h
    cases h

lemma fill_sameUsed (info : VirtqInfo) (d len flags : Nat) :
    SameUsed info (info.fill d len flags) := ⟨rfl, rfl, rfl⟩

lemma virtqFreeDesc_sameUsed {info info' : VirtqInfo} {d : Nat}
    (h : virtqFreeDesc info d = some info') : SameUsed info info' := by
  by_cases hd : d < info.queueSize
  · rw [virtqFreeDesc_eq hd] at h
    cases h
    exact ⟨rfl, rfl, rfl⟩
  · rw [virtqFreeDesc, if_neg hd] at h
    cases h

lemma virtioBlkSubmit_sameUsed {hdr : Nat} {s s' : VirtioBlk}
    (h : virtioBlkSubmit hdr s = some s') : SameUsed s.info s'.info := by
  by_cases hsize : (s.reqs hdr).blkreq.size &&& (virtioBlkSectorSize - 1) ≠ 0
  · rw [virtioBlkSubmit, if_pos hsize] at h
    cases h
    exact SameUsed.refl _
  · rw [virtioBlkSubmit, if_neg hsize] at h
    simp only [bind_eq_bind, bind_eq_some_iff, Prod.exists, some.injEq] at h
    obtain ⟨info1, d1, h1, info2, d2, h2, info3, d3, h3, rfl⟩ := h
    have hfirst := virtqAllocDesc_sameUsed h1
    have hsecond := (fill_sameUsed _ _ _ _).trans (virtqAllocDesc_sameUsed h2)
    have hthird := (fill_sameUsed _ _ _ _).trans (virtqAllocDesc_sameUsed h3)
    exact ((hfirst.trans hsecond).trans hthird).trans ⟨rfl, rfl, rfl⟩

lemma virtioBlkHandleUsed_sameUsed {usedidx : Nat} {s s' : VirtioBlk}
    (h : virtioBlkHandleUsed usedidx s = some s') : SameUsed s.info s'.info := by
  simp only [virtioBlkHandleUsed, bind_eq_bind, bind_eq_some_iff] at h
  obtain ⟨e1, _, h⟩ := h
  -- a malformed chain is reported, and nothing changes
  by_cases h1 : e1.flags &&& virtqDescFNext = 0
  · rw [if_pos h1] at h
    cases h
    exact SameUsed.refl _
  rw [if_neg h1] at h
  obtain ⟨e2, _, h⟩ := bind_eq_some_iff.mp h
  by_cases h2 : e2.flags &&& virtqDescFNext = 0
  · rw [if_pos h2] at h
    cases h
    exact SameUsed.refl _
  rw [if_neg h2] at h
  obtain ⟨e3, _, h⟩ := bind_eq_some_iff.mp h
  by_cases h3 : e1.len ≠ virtioBlkReqHeaderSize ∨ e3.len ≠ virtioBlkReqFooterSize
  · rw [if_pos h3] at h
    cases h
    exact SameUsed.refl _
  rw [if_neg h3] at h
  simp only [bind_eq_some_iff] at h
  obtain ⟨info1, hf1, info2, hf2, info3, hf3, h⟩ := h
  split_ifs at h
  obtain ⟨status, _, h⟩ := bind_eq_some_iff.mp h
  cases h
  exact ((virtqFreeDesc_sameUsed hf1).trans (virtqFreeDesc_sameUsed hf2)).trans
    (virtqFreeDesc_sameUsed hf3)

/-! ## The ring and its indices -/

lemma mod_ring {k : Nat} (hk : k ≤ 16) (n : Nat) : n % 2 ^ 16 % 2 ^ k = n % 2 ^ k :=
  Nat.mod_mod_of_dvd n (Nat.pow_dvd_pow 2 hk)

/-- `wrap` steps through the ring when its size is a power of two. -/
lemma wrap_succ {k n : Nat} (hk : k ≤ 16) : wrap (n % 2 ^ k + 1) (2 ^ k) = (n + 1) % 2 ^ k := by
  have hpow : 2 ^ k ≤ 2 ^ 16 := Nat.pow_le_pow_right Nat.two_pos hk
  have hsucc : (n + 1) % 2 ^ k = (n % 2 ^ k + 1) % 2 ^ k := (Nat.mod_add_mod n (2 ^ k) 1).symm
  rw [wrap, and_clear_two_pow (by omega) (by omega), hsucc]
  rcases Nat.lt_or_ge (n % 2 ^ k + 1) (2 ^ k) with hin | hout
  · rw [Nat.testBit_lt_two_pow hin, Nat.mod_eq_of_lt hin]
    rfl
  · -- the last slot of the ring
    have hlast : n % 2 ^ k + 1 = 2 ^ k := by omega
    rw [hlast, Nat.testBit_two_pow_self, if_pos rfl, Nat.xor_self, Nat.mod_self]

/-! ## One step -/

/-- The driver has handled the first entries of the ring in order, and the ring still holds those
that it has not handled. -/
structure Inv (k : Nat) (m : Machine) : Prop where
  size : m.blk.info.queueSize = 2 ^ k
  idx : m.blk.info.virtq.usedIdx = m.appended % 2 ^ 16
  handed : m.handed = List.range m.handed.length
  le : m.handed.length ≤ m.appended
  room : m.appended < m.handed.length + 2 ^ k
  slots : ∀ n, m.handed.length ≤ n → n < m.appended → m.serial (n % 2 ^ k) = n
  passed : m.passed ≤ m.handed.length
  pc : match m.pc with
    | .idle | .ack => m.passed = m.handed.length ∧ m.blk.info.seenUsed = m.handed.length % 2 ^ k
    | .test i => i = m.handed.length % 2 ^ k
    | .handle i => i = m.handed.length % 2 ^ k ∧ m.handed.length < m.appended
    | .store => m.handed.length = m.appended

section

variable {k : Nat} {m m' : Machine}

/-- Two entries that wait in the ring at the same time have different slots. -/
lemma slot_ne {a b c : Nat} (hab : a ≤ b) (hbc : b < c) (hc : c < a + 2 ^ k) :
    b % 2 ^ k ≠ c % 2 ^ k := by
  intro heq
  have hdvd : 2 ^ k ∣ c - b := Nat.dvd_of_mod_eq_zero (Nat.sub_mod_eq_zero_of_mod_eq heq.symm)
  have hle := Nat.le_of_dvd (by omega) hdvd
  omega

lemma Inv.append (h : Inv k m) (hk : k ≤ 16) {head status : Nat} (hpc : m.pc ≠ .store)
    (hs : step m (.append head status) = some m') : Inv k m' := by
  simp only [step] at hs
  split_ifs at hs with hroom
  cases hs
  rw [h.size] at hroom
  have hslot : m.blk.info.virtq.usedIdx % m.blk.info.queueSize = m.appended % 2 ^ k := by
    rw [h.size, h.idx, mod_ring hk]
  have hle := h.le
  refine ⟨h.size, ?_, h.handed, ?_, ?_, ?_, h.passed, ?_⟩
  · show wrap16 (m.blk.info.virtq.usedIdx + 1) = (m.appended + 1) % 2 ^ 16
    rw [wrap16, h.idx, Nat.mod_add_mod]
  · exact Nat.le_succ_of_le hle
  · show m.appended + 1 < m.handed.length + 2 ^ k
    omega
  · intro n hn hlt
    show update m.serial _ m.appended (n % 2 ^ k) = n
    rw [hslot]
    rcases Nat.lt_succ_iff_lt_or_eq.mp hlt with hlt | rfl
    · rw [update_of_ne (slot_ne hn hlt h.room), h.slots n hn hlt]
    · rw [update_self]
  · have hstate := h.pc
    show match m.pc with
      | .idle | .ack => m.passed = m.handed.length ∧ m.blk.info.seenUsed = m.handed.length % 2 ^ k
      | .test i => i = m.handed.length % 2 ^ k
      | .handle i => i = m.handed.length % 2 ^ k ∧ m.handed.length < m.appended + 1
      | .store => m.handed.length = m.appended + 1
    cases hp : m.pc with
    | idle =>
      rw [hp] at hstate
      exact hstate
    | test i =>
      rw [hp] at hstate
      exact hstate
    | handle i =>
      rw [hp] at hstate
      exact ⟨hstate.1, Nat.lt_succ_of_lt hstate.2⟩
    | store => exact absurd hp hpc
    | ack =>
      rw [hp] at hstate
      exact hstate

/-- A change that keeps the used side of the queue. -/
lemma Inv.same {blk : VirtioBlk} (h : Inv k m) (hsame : SameUsed m.blk.info blk.info) :
    Inv k { m with blk } := by
  refine ⟨hsame.queueSize.trans h.size, hsame.usedIdx.trans h.idx, h.handed, h.le, h.room, h.slots,
    h.passed, ?_⟩
  have hstate := h.pc
  show match m.pc with
    | .idle | .ack => m.passed = m.handed.length ∧ blk.info.seenUsed = m.handed.length % 2 ^ k
    | .test i => i = m.handed.length % 2 ^ k
    | .handle i => i = m.handed.length % 2 ^ k ∧ m.handed.length < m.appended
    | .store => m.handed.length = m.appended
  rw [hsame.seenUsed]
  exact hstate

lemma Inv.advance (h : Inv k m) (hk : k ≤ 16) (hs : advance m = some m') : Inv k m' := by
  have hstate := h.pc
  have hidx : m.blk.info.virtq.usedIdx % m.blk.info.queueSize = m.appended % 2 ^ k := by
    rw [h.size, h.idx, mod_ring hk]
  cases hp : m.pc with
  | idle =>
    simp only [Isr.advance, hp] at hs
    cases hs
  | test i =>
    rw [hp] at hstate
    have hi : i = m.handed.length % 2 ^ k := hstate
    simp only [Isr.advance, hp, hidx] at hs
    have hle := h.le
    split_ifs at hs with hne
    · -- an index that differs from the device's shows that an entry waits
      cases hs
      refine ⟨h.size, h.idx, h.handed, h.le, h.room, h.slots, h.passed, hi, ?_⟩
      refine lt_of_le_of_ne hle fun heq => hne ?_
      rw [hi, heq]
    · cases hs
      refine ⟨h.size, h.idx, h.handed, h.le, h.room, h.slots, h.passed, ?_⟩
      by_contra hlen
      refine slot_ne le_rfl (lt_of_le_of_ne hle hlen) h.room ?_
      rw [← hi]
      exact not_not.mp hne
  | handle i =>
    rw [hp] at hstate
    obtain ⟨hi, hlt⟩ : i = m.handed.length % 2 ^ k ∧ m.handed.length < m.appended := hstate
    simp only [Isr.advance, hp, bind_eq_bind, bind_eq_some_iff, some.injEq] at hs
    obtain ⟨blk, hblk, rfl⟩ := hs
    have hsame := virtioBlkHandleUsed_sameUsed hblk
    have hserial : m.serial i = m.handed.length := by rw [hi, h.slots _ le_rfl hlt]
    have hlen : (m.handed ++ [m.serial i]).length = m.handed.length + 1 := by
      rw [length_append, length_singleton]
    have hroom := h.room
    refine ⟨hsame.queueSize.trans h.size, hsame.usedIdx.trans h.idx, ?_, ?_, ?_, ?_, ?_, ?_⟩
    · rw [hlen, range_succ, hserial, ← h.handed]
    · rw [hlen]
      exact hlt
    · show m.appended < (m.handed ++ [m.serial i]).length + 2 ^ k
      omega
    · intro n hn hn'
      have hn'' : m.handed.length + 1 ≤ n := hlen ▸ hn
      exact h.slots n (by omega) hn'
    · rw [hlen]
      exact Nat.le_succ_of_le h.passed
    · rw [hlen, h.size, hi, wrap_succ hk]
  | store =>
    rw [hp] at hstate
    have hall : m.handed.length = m.appended := hstate
    simp only [Isr.advance, hp] at hs
    cases hs
    refine ⟨h.size, h.idx, h.handed, h.le, h.room, h.slots, ?_, ?_, ?_⟩
    · exact le_of_eq hall.symm
    · exact hall.symm
    · rw [hidx, hall]
  | ack =>
    rw [hp] at hstate
    simp only [Isr.advance, hp] at hs
    cases hs
    exact ⟨h.size, h.idx, h.handed, h.le, h.room, h.slots, h.passed, hstate⟩

lemma Inv.step (h : Inv k m) (hk : k ≤ 16) {e : Event} (hc : calm m e = true)
    (hs : step m e = some m') : Inv k m' := by
  cases e with
  | append head status =>
    refine h.append hk ?_ hs
    simpa [calm] using hc
  | raise =>
    cases hs
    exact ⟨h.size, h.idx, h.handed, h.le, h.room, h.slots, h.passed, h.pc⟩
  | submit hdr req =>
    simp only [Isr.step] at hs
    split_ifs at hs with hp
    simp only [bind_eq_bind, bind_eq_some_iff, some.injEq] at hs
    obtain ⟨blk, hblk, rfl⟩ := hs
    have hsame := virtioBlkSubmit_sameUsed hblk
    exact h.same hsame
  | enter =>
    simp only [Isr.step] at hs
    split_ifs at hs with hp
    cases hs
    have hstate := h.pc
    rw [hp] at hstate
    exact ⟨h.size, h.idx, h.handed, h.le, h.room, h.slots, h.passed, hstate.2⟩
  | run => exact h.advance hk hs

lemma Inv.handledOnce (h : Inv k m) : HandledOnce m := by
  have hnodup : m.handed.Nodup := by
    rw [h.handed]
    exact nodup_range
  refine ⟨fun n hn => ?_, fun n => nodup_iff_count_le_one.mp hnodup n⟩
  refine count_eq_one_of_mem hnodup ?_
  rw [h.handed, mem_range]
  exact lt_of_lt_of_le hn h.passed

/-! ## Whole runs -/

/-- The driver has set up its queue of `2 ^ k` entries, and nothing has happened yet. -/
structure Start (k : Nat) (m : Machine) : Prop where
  queue : ∃ info queueNumMax queueSel,
    virtqAddToDevice info 0 queueNumMax queueSel (2 ^ k) = some m.blk.info
  pc : m.pc = .idle
  appended : m.appended = 0
  handed : m.handed = []
  passed : m.passed = 0

lemma Start.inv (h : Start k m) : Inv k m := by
  obtain ⟨info, queueNumMax, queueSel, hadd⟩ := h.queue
  unfold virtqAddToDevice virtqCreate at hadd
  split_ifs at hadd
  have hinfo := some.inj hadd
  have hlen : m.handed.length = 0 := by rw [h.handed, length_nil]
  refine ⟨?_, ?_, ?_, ?_, ?_, ?_, ?_, ?_⟩
  · rw [← hinfo]
  · rw [← hinfo, h.appended, Nat.zero_mod]
  · rw [hlen, h.handed]
    rfl
  · rw [hlen]
    exact Nat.zero_le _
  · rw [hlen, h.appended]
    have := Nat.two_pow_pos k
    omega
  · intro n _ hn
    rw [h.appended] at hn
    exact absurd hn (Nat.not_lt_zero n)
  · rw [h.passed]
    exact Nat.zero_le _
  · rw [h.pc]
    refine ⟨?_, ?_⟩
    · rw [h.passed, hlen]
    · rw [← hinfo, hlen, Nat.zero_mod]

/-- A run in which no entry arrives at the end of the loop handles every passed entry once. -/
theorem completions_handled_once (hk : k ≤ 16) (hstart : Start k m)
    {ts : List (Transition Machine Event)} (hr : Run (fun m e m' => step m e = some m') m ts m')
    (hcalm : ∀ t ∈ ts, calm t.source t.label = true) : HandledOnce m' := by
  have hstep : ∀ m e m', Inv k m → calm m e = true → step m e = some m' → Inv k m' := by
    intro m e m' h hc hs
    exact h.step hk hc hs
  exact (hr.invariant_of_forall hstart.inv hcalm hstep).handledOnce

end

/-- The driver with a new queue of eight entries. -/
def newMachine : Option Machine := do
  let info ← virtqAddToDevice smallInfo 0 256 0 8
  let blk : VirtioBlk := ⟨info, fun _ => ⟨0, 0, 0, ⟨.read, 0, 0, 0, .init⟩⟩, fun _ => 0, []⟩
  some ⟨blk, false, .idle, 0, fun _ => 0, [], 0⟩

lemma newMachine_start {m : Machine} (h : newMachine = some m) : Start 3 m := by
  simp only [newMachine, bind_eq_bind, bind_eq_some_iff, some.injEq] at h
  obtain ⟨info, hadd, rfl⟩ := h
  exact ⟨⟨smallInfo, 256, 0, hadd⟩, rfl, rfl, rfl, rfl⟩

/-- Two requests are submitted, and the device completes the first one. -/
def twoRequests : List Event :=
  [.submit 0x1000 ⟨.read, 0, 512, 0x8000, .init⟩, .submit 0x2000 ⟨.read, 1, 512, 0x9000, .init⟩,
    .append 0 0, .raise, .enter]

/-- A schedule as a function, with the condition on its steps. -/
def follow (evs : List Event) : Option (Bool × Machine) := do
  let m ← newMachine
  evs.foldlM (fun x e => (step x.2 e).map fun m => (x.1 && calm x.2 e, m)) (true, m)

lemma follow_run {evs : List Event} {b : Bool} {m' : Machine} (h : follow evs = some (b, m')) :
    ∃ m ts, newMachine = some m ∧ Run (fun m e m' => step m e = some m') m ts m' ∧
      (b = true → ∀ t ∈ ts, calm t.source t.label = true) := by
  simp only [follow, bind_eq_bind, bind_eq_some_iff] at h
  obtain ⟨m, hnew, hrun⟩ := h
  obtain ⟨ts, hr, hcalm⟩ := Run.exists_of_foldlM Run.nil nofun hrun
  exact ⟨m, ts, hnew, hr, hcalm⟩

/-- The second entry arrives while the handler is at the first one. -/
theorem completions_handled_once_two : ∃ m ts m', newMachine = some m ∧
    Run (fun m e m' => step m e = some m') m ts m' ∧ m'.passed = 2 ∧ m'.handed = [0, 1] ∧
    m'.blk.ended = [0x1000, 0x2000] ∧ HandledOnce m' := by
  have hrun : (follow (twoRequests ++ [.run, .append 3 0] ++ replicate 6 .run)).map
      (fun x => (x.1, x.2.passed, x.2.handed, x.2.blk.ended)) =
      some (true, 2, [0, 1], [0x1000, 0x2000]) := by
    decide +kernel
  obtain ⟨⟨b, m'⟩, hf, hview⟩ := map_eq_some_iff.mp hrun
  simp only [Prod.mk.injEq] at hview
  obtain ⟨hb, hpassed, hhanded, hended⟩ := hview
  obtain ⟨m, ts, hnew, hr, hcalm⟩ := follow_run hf
  exact ⟨m, ts, m', hnew, hr, hpassed, hhanded, hended,
    completions_handled_once (by decide) (newMachine_start hnew) hr (hcalm hb)⟩

/-- The second entry arrives when the loop has ended. `seen_used` passes it, and another run of the
handler finds nothing: the second request never ends. -/
theorem completion_skipped : ∃ m ts m', newMachine = some m ∧
    Run (fun m e m' => step m e = some m') m ts m' ∧ m'.pc = .idle ∧ m'.passed = 2 ∧
    m'.blk.ended = [0x1000] ∧ ¬ HandledOnce m' := by
  have hrun : (follow (twoRequests ++ replicate 3 .run ++ [.append 3 0, .raise] ++
      replicate 2 .run ++ [.enter] ++ replicate 3 .run)).map
      (fun x => (x.2.pc, x.2.passed, x.2.handed, x.2.blk.ended)) =
      some (.idle, 2, [0], [0x1000]) := by
    decide +kernel
  obtain ⟨⟨b, m'⟩, hf, hview⟩ := map_eq_some_iff.mp hrun
  simp only [Prod.mk.injEq] at hview
  obtain ⟨hpc, hpassed, hhanded, hended⟩ := hview
  obtain ⟨m, ts, hnew, hr, _⟩ := follow_run hf
  refine ⟨m, ts, m', hnew, hr, hpc, hpassed, hended, fun h => ?_⟩
  have hone := h.1 1 (by rw [hpassed]; decide)
  rw [hhanded] at hone
  exact absurd hone (by decide)

end Hana.Virtio.Isr
