import Hana.Io.Blk

/-!
# The request list of a block device

`blkdev_free_all` unlinks what it frees, but `blockdev_bread` and `blockdev_bwrite` free their
request and leave it on the list. For operations one after the other, the list has only live
requests exactly as long as no operation of ext4 has come back from its wait.
-/

namespace Hana.Blk

open Lib Hana.Block List

/-- One operation after the other, of any processes. -/
def SerialStep (s : Sys) (e : Event) (s' : Sys) : Prop :=
  Step s e s' ∧ ∀ p op, e = .call p op → ∀ q, (s.proc q).pc = .idle

/-- The requests on the list are distinct and not freed. -/
structure Linked (s : Sys) : Prop where
  nodup : s.rqList.Nodup
  live : ∀ r ∈ s.rqList, s.live r = true

/-- The step is not the `blkreq_free` of `blockdev_bread` or `blockdev_bwrite`. -/
def keepsRequest (s : Sys) : Event → Bool
  | .step p _ =>
    match (s.proc p).pc with
    | .wake _ => false
    | _ => true
  | _ => true

/-- The request that `blockdev_bread` or `blockdev_bwrite` is going to free. -/
def holds : Pc → Option Nat
  | .sleep r => some r
  | .wake r => some r
  | _ => none

structure ListInv (s : Sys) : Prop where
  linked : Linked s
  bound : ∀ r ∈ s.rqList, r < s.next
  alone : ∀ p q, (s.proc p).pc ≠ .idle → (s.proc q).pc ≠ .idle → p = q
  held : ∀ p r, holds (s.proc p).pc = some r → r ∈ s.rqList

namespace ListInv

variable {s s' : Sys} {p : Nat}

lemma start : ListInv start where
  linked := ⟨nodup_nil, fun r hr => by cases hr⟩
  bound r hr := by cases hr
  alone p q hp := absurd rfl hp
  held p r hr := by cases hr

section

variable (h : ListInv s)
include h

/-- A step of the only process that is in an operation. -/
lemma of_move {t : Sys} {pc : Pc} (hpc : (s.proc p).pc ≠ .idle)
    (hlinked : Linked t) (hbound : ∀ r ∈ t.rqList, r < t.next)
    (hproc : ∀ q, (t.proc q).pc = (s.proc q).pc) (hheld : ∀ r, holds pc = some r → r ∈ t.rqList) :
    ListInv (t.goto p pc) := by
  have hidle : ∀ q, q ≠ p → ((t.goto p pc).proc q).pc = .idle := by
    intro q hq
    rw [goto_proc_of_ne p t pc hq, hproc]
    by_contra hne
    exact hq (h.alone q p hne hpc)
  refine ⟨⟨hlinked.nodup, hlinked.live⟩, hbound, ?_, ?_⟩
  · intro x y hx hy
    have hx' : x = p := by_contra fun hne => hx (hidle x hne)
    have hy' : y = p := by_contra fun hne => hy (hidle y hne)
    rw [hx', hy']
  · intro x r hr
    by_cases hx : x = p
    · subst hx
      rw [goto_pc_self] at hr
      exact hheld r hr
    · rw [hidle x hx] at hr
      cases hr

/-- A step that leaves the list alone. -/
lemma goto {t : Sys} {pc pc' : Pc} (hpc : (s.proc p).pc = pc) (hne : pc ≠ .idle)
    (hproc : ∀ q, (t.proc q).pc = (s.proc q).pc) (hheld : holds pc' = none ∨ holds pc' = holds pc)
    (hlist : t.rqList = s.rqList) (hlive : t.live = s.live) (hnext : t.next = s.next) :
    ListInv (t.goto p pc') := by
  subst hpc
  refine h.of_move hne ⟨hlist ▸ h.linked.nodup, ?_⟩ ?_ hproc ?_
  · rw [hlist, hlive]
    exact h.linked.live
  · rw [hlist, hnext]
    exact h.bound
  · intro r hr
    rw [hlist]
    rcases hheld with hn | heq
    · exact absurd (hn.symm.trans hr) nofun
    · exact h.held p r (heq ▸ hr)

lemma submit (hpc : (s.proc p).pc ≠ .idle) {pc : Pc}
    (hheld : ∀ r, holds pc = some r → r = s.next) : ListInv ((s.submit p).goto p pc) := by
  have hnew : s.next ∉ s.rqList := fun hmem => (h.bound _ hmem).false
  refine h.of_move hpc ⟨nodup_cons.mpr ⟨hnew, h.linked.nodup⟩, ?_⟩ ?_
    (fun q => submit_pc p q s) ?_
  · intro r hr
    change Function.update s.live s.next true r = true
    rcases mem_cons.mp hr with rfl | hr
    · rw [Function.update_self]
    · rw [Function.update_of_ne (ne_of_mem_of_not_mem hr hnew)]
      exact h.linked.live r hr
  · intro r hr
    rcases mem_cons.mp hr with rfl | hr
    · exact Nat.lt_succ_self _
    · exact (h.bound r hr).trans (Nat.lt_succ_self _)
  · intro r hr
    exact hheld r hr ▸ mem_cons_self

lemma freeAll (hpc : (s.proc p).pc ≠ .idle) :
    ListInv (s.freeAll.goto p .returned) := by
  refine h.of_move hpc ⟨h.linked.nodup.filter _, ?_⟩ ?_ (fun _ => rfl) fun r hr => by cases hr
  · intro r hr
    obtain ⟨hmem, hne⟩ := mem_filter.mp hr
    change (if r ∈ s.rqList ∧ s.status r = .ok then false else s.live r) = true
    rw [if_neg fun hc => (bne_iff_ne.mp hne) hc.2]
    exact h.linked.live r hmem
  · exact fun r hr => h.bound r (mem_of_mem_filter hr)

/-- The state of the processes and of the device other than the list does not matter. -/
lemma congr (hlist : s'.rqList = s.rqList) (hlive : s'.live = s.live)
    (hnext : s'.next = s.next) (hproc : ∀ q, (s'.proc q).pc = (s.proc q).pc) : ListInv s' := by
  refine ⟨⟨hlist ▸ h.linked.nodup, ?_⟩, ?_, ?_, ?_⟩
  · rw [hlist, hlive]
    exact h.linked.live
  · rw [hlist, hnext]
    exact h.bound
  · simp only [hproc]
    exact h.alone
  · simp only [hproc, hlist]
    exact h.held

/-- Every step but the `blkreq_free` of ext4 keeps the list. -/
lemma moves (hm : Moves p s s') (hk : ∀ r, (s.proc p).pc ≠ .wake r) : ListInv s' := by
  cases hm with
  | issued hpc => exact h.goto hpc nofun (fun _ => rfl) (.inl rfl) rfl rfl rfl
  | noMemory hpc => exact h.goto hpc nofun (fun q => note_pc p q s true) (.inl rfl) rfl rfl rfl
  | issue hpc => exact h.submit (by rw [hpc]; exact nofun) fun r hr => by cases hr
  | rqListLockHeld _ _ => exact h.congr rfl rfl rfl fun _ => rfl
  | waitAll hpc _ => exact h.goto hpc nofun (fun _ => rfl) (.inl rfl) rfl rfl rfl
  | waited hpc => exact h.goto hpc nofun (fun _ => rfl) (.inl rfl) rfl rfl rfl
  | @waitSleep r _ hpc _ => exact h.goto hpc nofun (fun q => sleepOn_pc p q s r) (.inl rfl) rfl rfl rfl
  | waitNext hpc _ => exact h.goto hpc nofun (fun q => note_pc p q s _) (.inl rfl) rfl rfl rfl
  | waitWake hpc => exact h.goto hpc nofun (fun q => note_pc p q s _) (.inl rfl) rfl rfl rfl
  | freeAll hpc => exact h.freeAll (by rw [hpc]; exact nofun)
  | devLockHeld _ _ => exact h.congr rfl rfl rfl fun _ => rfl
  | lock hpc _ => exact h.goto hpc nofun (fun _ => rfl) (.inl rfl) rfl rfl rfl
  | noRequest hpc => exact h.goto hpc nofun (fun q => note_pc p q s true) (.inl rfl) rfl rfl rfl
  | submitWait hpc =>
    exact h.submit (by rw [hpc]; exact nofun) fun r hr => (Option.some.inj hr).symm
  | @sleep r hpc => exact h.goto hpc nofun (fun q => sleepOn_pc p q s r) (.inr rfl) rfl rfl rfl
  | wake hpc => exact absurd hpc (hk _)
  | unlock hpc => exact h.goto hpc nofun (fun _ => rfl) (.inl rfl) rfl rfl rfl
  | returned hpc => exact h.goto hpc nofun (fun _ => rfl) (.inl rfl) rfl rfl rfl

lemma call (hidle : ∀ q, (s.proc q).pc = .idle) (op : Op) :
    ListInv (s.call p op) := by
  have hother : ∀ q, q ≠ p → ((s.call p op).proc q).pc = .idle := by
    intro q hq
    simp [Sys.call, hq, hidle]
  have hself : holds ((s.call p op).proc p).pc = none := by
    cases op <;> simp [Sys.call, Op.pc, holds]
  refine ⟨⟨h.linked.nodup, h.linked.live⟩, h.bound, ?_, ?_⟩
  · intro x y hx hy
    have hx' : x = p := by_contra fun hne => hx (hother x hne)
    have hy' : y = p := by_contra fun hne => hy (hother y hne)
    rw [hx', hy']
  · intro x r hr
    by_cases hx : x = p
    · rw [hx, hself] at hr
      cases hr
    · rw [hother x hx] at hr
      cases hr

lemma step {e : Event} (hc : keepsRequest s e = true) (hs : SerialStep s e s') :
    ListInv s' := by
  obtain ⟨hs, hserial⟩ := hs
  obtain ⟨p, op, rfl, -, -, rfl⟩ | ⟨p, avail, rfl, -, -, hm⟩ | ⟨r, ok, rfl, -, -, rfl⟩ |
    ⟨p, rfl, -, rfl⟩ := step_cases hs
  · exact h.call (hserial p op rfl) op
  · refine h.moves hm fun r hpc => ?_
    simp [keepsRequest, hpc] at hc
  · refine h.congr rfl rfl rfl fun q => ?_
    change ((s.proc q).wakeup r).pc = _
    unfold Proc.wakeup
    split_ifs <;> rfl
  · refine h.congr rfl rfl rfl fun q => ?_
    by_cases hq : q = p
    · subst hq
      simp [Sys.kill]
    · simp [Sys.kill, hq]

/-- The `blkreq_free` of ext4 leaves a freed request on the list. -/
lemma wake_not_linked {r : Nat} (hpc : (s.proc p).pc = .wake r) (hm : Moves p s s') :
    ¬ Linked s' := by
  have hmem : r ∈ s.rqList := h.held p r (by rw [hpc]; rfl)
  have hfreed : s'.live r = false ∧ s'.rqList = s.rqList := by
    cases hm with
    | @wake r' hpc' =>
      obtain rfl : r' = r := Pc.wake.inj (hpc'.symm.trans hpc)
      exact ⟨Function.update_self _ _ _, rfl⟩
    | rqListLockHeld ht _ =>
      rw [hpc] at ht
      cases ht
    | _ => simp_all
  intro hl
  exact absurd ((hl.live r (hfreed.2 ▸ hmem)).symm.trans hfreed.1) nofun

lemma linked_iff {e : Event} (hs : SerialStep s e s') :
    Linked s' ↔ keepsRequest s e = true := by
  refine ⟨fun hl => ?_, fun hc => (h.step hc hs).linked⟩
  obtain ⟨p, op, rfl, -, -, rfl⟩ | ⟨p, avail, rfl, -, -, hm⟩ | ⟨r, ok, rfl, -, -, rfl⟩ |
    ⟨p, rfl, -, rfl⟩ := step_cases hs.1
  · rfl
  · cases hpc : (s.proc p).pc with
    | wake r => exact absurd hl (h.wake_not_linked hpc hm)
    | _ => simp [keepsRequest, hpc]
  · rfl
  · rfl

end

end ListInv

/-- For operations one after the other, the list has distinct live requests after every step exactly
if no `blockdev_bread` or `blockdev_bwrite` comes to its `blkreq_free`. -/
theorem list_live_iff {ts : List (Transition Sys Event)} {s : Sys} (hr : Run SerialStep start ts s) :
    (∀ t ∈ ts, Linked t.target) ↔ ∀ t ∈ ts, keepsRequest t.source t.label = true := by
  have hstep : ∀ s e s', ListInv s → keepsRequest s e = true → SerialStep s e s' → ListInv s' :=
    fun _ _ _ hi hc hs => hi.step hc hs
  have hexact : ∀ s e s', ListInv s → SerialStep s e s' → (Linked s' ↔ keepsRequest s e = true) :=
    fun _ _ _ hi hs => hi.linked_iff hs
  exact hr.forall_iff ListInv.start hstep hexact

/-! ## The requests with their data -/

/-- The requests are those of `io`. -/
structure Sees (s : Sys) (io : Io) : Prop where
  rqList : s.rqList = io.rqList
  status : ∀ r, s.status r = (io.request r).status
  next : s.next = io.next

section

variable {s : Sys} {io : Io} (h : Sees s io)
include h

lemma Sees.submit (p : Nat) (write : Bool) (sectorSta : Nat) (ptr : Ptr) :
    Sees (s.submit p) (Block.submit write sectorSta ptr io) := by
  refine ⟨congrArg₂ cons h.next h.rqList, fun r => ?_, congrArg (· + 1) h.next⟩
  simp only [Sys.submit, Block.submit, h.next, Function.update_apply, h.status]
  split <;> rfl

lemma Sees.freeAll : Sees s.freeAll (blkdevFreeAll io) :=
  ⟨by simp only [Sys.freeAll, blkdevFreeAll, h.rqList, h.status], h.status, h.next⟩

/-- The requests in flight are completed one after the other. -/
theorem Sees.complete (D : Device) :
    Sees ((pending io).foldl (fun s r => s.complete r !D.err r) s) (Block.complete D io) := by
  have hfold : ∀ (l : List Nat) (s : Sys), ∃ flight proc, l.foldl (fun s r => s.complete r !D.err r) s =
      { s with flight, proc, status := fun r => if r ∈ l then if D.err r then .err else .ok else s.status r } := by
    intro l
    induction l with
    | nil => exact fun s => ⟨s.flight, s.proc, by simp⟩
    | cons r l ih =>
      intro s
      obtain ⟨flight, proc, hl⟩ := ih (s.complete r !D.err r)
      refine ⟨flight, proc, hl.trans ?_⟩
      simp only [Sys.complete, Function.update_apply, mem_cons]
      congr
      funext q
      grind
  obtain ⟨flight, proc, hl⟩ := hfold (pending io) s
  obtain ⟨hlist, hnext⟩ := complete_rqList D io
  rw [hl]
  refine ⟨h.rqList.trans hlist.symm, fun r => ?_, h.next.trans hnext.symm⟩
  rw [complete_status, ← h.status]

end

def Event.isCall : Event → Bool
  | .call _ _ => true
  | _ => false

/-- The steps of an operation that has been called make a run. -/
lemma serial_run (op : Op) (evs : List Event) (P : Bool → Sys → Bool)
    (h : (!evs.any Event.isCall && (evs.foldlM (fun x e => (step x.2 e).map fun s =>
      (x.1 && keepsRequest x.2 e, s)) (true, start.call 0 op)).any fun x => P x.1 x.2) = true) :
    ∃ ts b s, Run SerialStep start ts s ∧
      (b = true → ∀ t ∈ ts, keepsRequest t.source t.label = true) ∧ P b s = true := by
  rw [Bool.and_eq_true, Bool.not_eq_true'] at h
  obtain ⟨⟨b, s⟩, hs, hP⟩ := Option.any_eq_true .. |>.mp h.2
  have hcall : SerialStep start (.call 0 op) (start.call 0 op) := ⟨rfl, fun _ _ _ _ => rfl⟩
  have hsteps : ∀ e ∈ evs, ∀ s s', Blk.step s e = some s' → SerialStep s e s' := by
    refine fun e he s s' hs => ⟨hs, ?_⟩
    rintro p op rfl
    exact absurd (any_eq_false.mp h.1 _ he) nofun
  have hfirst : ∀ t ∈ [(⟨start, .call 0 op, start.call 0 op⟩ : Transition Sys Event)],
      keepsRequest t.source t.label = true := by
    intro t ht
    rw [mem_singleton.mp ht]
    rfl
  obtain ⟨ts, hr, hc⟩ := (Run.nil.snoc hcall).exists_of_foldlM_step hsteps (fun _ => hfirst) hs
  exact ⟨ts, b, s, hr, hc, hP⟩

/-- A read of devfs of one block, up to the end. -/
theorem list_live_one : ∃ ts s, Run SerialStep start ts s ∧ ((s.proc 0).own = [0] ∧
    (s.proc 0).pc = .returned ∧ s.rqList = [] ∧ s.live 0 = false) ∧ ∀ t ∈ ts, Linked t.target := by
  obtain ⟨ts, b, s, hr, hc, hP⟩ := serial_run (.block 1) [.step 0 true, .complete 0 true, .step 0 true,
    .step 0 true, .step 0 true, .step 0 true, .step 0 true] (fun b s => b && decide ((s.proc 0).own = [0] ∧
    (s.proc 0).pc = .returned ∧ s.rqList = [] ∧ s.live 0 = false)) (by decide)
  rw [Bool.and_eq_true] at hP
  exact ⟨ts, s, hr, of_decide_eq_true hP.2, (list_live_iff hr).mpr (hc hP.1)⟩

/-- A read of ext4 that succeeds leaves its request on the list. -/
theorem list_freed : ∃ ts s, Run SerialStep start ts s ∧ (s.proc 0).pc = .unlock ∧
    s.status 0 = .ok ∧ 0 ∈ s.rqList ∧ s.live 0 = false ∧ ¬ Linked s := by
  obtain ⟨ts, b, s, hr, -, hP⟩ := serial_run .blockdev [.step 0 true, .step 0 true, .step 0 true,
    .complete 0 true, .step 0 true] (fun _ s => decide ((s.proc 0).pc = .unlock ∧ s.status 0 = .ok ∧
    0 ∈ s.rqList ∧ s.live 0 = false)) (by decide)
  obtain ⟨hpc, hok, hmem, hfreed⟩ := of_decide_eq_true hP
  refine ⟨ts, s, hr, hpc, hok, hmem, hfreed, fun hl => ?_⟩
  exact absurd ((hl.live 0 hmem).symm.trans hfreed) nofun

end Hana.Blk
