import Mathlib.Data.List.Perm.Basic
import Mathlib.Data.List.Perm.Subperm
import Hana.Drivers.VirtioBlk

/-!
# Accounting for the descriptors of a block queue

At every point of a run each descriptor of the queue is either on the free list or in the chain
of exactly one outstanding request. Requests complete in any order, so the free list becomes an
arbitrary arrangement of the free descriptors; the invariant `Tracks` keeps the list beside the
chains and says that together they are the whole table.
-/

namespace Hana.Virtio

open Function List Option Lib

/-- The descriptors of all outstanding requests. -/
def Queue.owned (s : Queue) : List Nat := s.out.flatMap fun p => s.blk.info.triple p.head

/-- The free list is `free`, and every descriptor is either on it or in one chain. -/
structure Tracks (s : Queue) (free : List Nat) : Prop where
  size : s.blk.info.queueSize < 2 ^ 16
  list : NextList s.blk.info.next s.blk.info.queueSize s.blk.info.freeDesc free
  nodup : (free ++ s.owned).Nodup
  mem : ∀ d, d ∈ free ++ s.owned ↔ d < s.blk.info.queueSize
  virt : ∀ d, s.blk.info.descVirt d ≠ 0 ↔ d ∈ s.owned
  chained : ∀ p ∈ s.out, Chained s.blk.info p

/-! ## Chains and the rest of the table -/

variable {head d d1 d2 d3 hdr : Nat}

section

variable {info info' : VirtqInfo} {p : Posted}

lemma triple_congr (h : ∀ d ∈ info.triple head, info'.virtq.desc d = info.virtq.desc d) :
    info'.triple head = info.triple head := by
  have h1 : info'.next head = info.next head := by
    exact congrArg VirtqueueDesc.next (h head mem_cons_self)
  have h2 : info'.next (info.next head) = info.next (info.next head) := by
    have h2 := h _ (mem_cons_of_mem _ mem_cons_self)
    exact congrArg VirtqueueDesc.next h2
  rw [VirtqInfo.triple, h1, h2, VirtqInfo.triple]

lemma Chained.congr (hc : Chained info p)
    (h : ∀ d ∈ info.triple p.head, info'.virtq.desc d = info.virtq.desc d)
    (hv : info'.descVirt p.head = info.descVirt p.head) : Chained info' p := by
  have ht := triple_congr h
  simp only [VirtqInfo.triple, cons.injEq, true_and, and_true] at ht
  obtain ⟨h1, h2⟩ := ht
  have e1 := h p.head mem_cons_self
  have e2 := h (info.next p.head) (mem_cons_of_mem _ mem_cons_self)
  have e3 := h (info.next (info.next p.head))
    (mem_cons_of_mem _ (mem_cons_of_mem _ mem_cons_self))
  refine ⟨?_, ?_, ?_, ?_, ?_, ?_, hc.hdr⟩
  · rw [e1]
    exact hc.flags1
  · rw [h1, e2]
    exact hc.flags2
  · rw [e1]
    exact hc.len1
  · rw [h2, e3]
    exact hc.len3
  · rw [h2, e3]
    exact hc.footer
  · rw [hv]
    exact hc.virt

end

variable {blk' : VirtioBlk}

section

variable {s s' : Queue} {free : List Nat} {p : Posted}

lemma Queue.triple_subset (hp : p ∈ s.out) (hd : d ∈ s.blk.info.triple p.head) :
    d ∈ s.owned := mem_flatMap.mpr ⟨p, hp, hd⟩

lemma Queue.owned_length (s : Queue) : s.owned.length = 3 * s.out.length := by
  rw [owned]
  induction s.out with
  | nil => rfl
  | cons p out ih =>
    rw [flatMap_cons, length_append, ih, length_cons]
    simp only [VirtqInfo.triple, length_cons, length_nil]
    omega

/-- The chains stay the same when their descriptors do. -/
lemma flatMap_triple_congr {info info' : VirtqInfo} {out : List Posted}
    (h : ∀ d ∈ out.flatMap (fun p => info.triple p.head), info'.virtq.desc d = info.virtq.desc d) :
    out.flatMap (fun p => info'.triple p.head) = out.flatMap (fun p => info.triple p.head) := by
  refine flatMap_congr fun p hp => ?_
  exact triple_congr fun d hd => h d (mem_flatMap.mpr ⟨p, hp, hd⟩)

lemma Tracks.length (h : Tracks s free) : free.length + 3 * s.out.length = s.blk.info.queueSize := by
  have hperm : (free ++ s.owned).Perm (range s.blk.info.queueSize) := by
    refine (perm_ext_iff_of_nodup h.nodup nodup_range).mpr fun d => ?_
    rw [h.mem, mem_range]
  have hlen := hperm.length_eq
  rw [length_append, s.owned_length, length_range] at hlen
  exact hlen

/-- The first three free descriptors, when there is room for a request. -/
lemma Tracks.three (h : Tracks s free) (hroom : s.out.length < s.blk.info.queueSize / 3) :
    ∃ d1 d2 d3 rest, free = d1 :: d2 :: d3 :: rest := by
  have hlen := h.length
  match free, hlen with
  | [], hlen => exact absurd hlen (by simp only [length_nil]; omega)
  | [_], hlen => exact absurd hlen (by simp only [length_cons, length_nil]; omega)
  | [_, _], hlen => exact absurd hlen (by simp only [length_cons, length_nil]; omega)
  | d1 :: d2 :: d3 :: rest, _ => exact ⟨d1, d2, d3, rest, rfl⟩

lemma Tracks.lt (h : Tracks s free) (hd : d ∈ free) : d < s.blk.info.queueSize :=
  (h.mem d).mp (mem_append_left _ hd)

lemma Tracks.freeDesc_le (h : Tracks s free) : s.blk.info.freeDesc ≤ s.blk.info.queueSize := by
  cases free with
  | nil => exact le_of_eq h.list
  | cons d rest =>
    rw [h.list.1]
    exact le_of_lt (h.lt mem_cons_self)

/-! ## Submissions -/

/-- A submitted request moves the first three free descriptors to a chain of its own. -/
lemma Tracks.submitted {rest : List Nat}
    (h : Tracks s (d1 :: d2 :: d3 :: rest)) (hsub : Submitted hdr d1 d2 d3 s.blk blk') :
    Tracks ⟨blk', ⟨d1, hdr⟩ :: s.out⟩ rest := by
  have hnodup := h.nodup
  simp only [cons_append, nodup_cons, mem_cons, mem_append, not_or] at hnodup
  obtain ⟨⟨_, _, hr1, ho1⟩, ⟨_, hr2, ho2⟩, ⟨hr3, ho3⟩, hrest⟩ := hnodup
  have hkeep : ∀ d ∈ s.owned, blk'.info.virtq.desc d = s.blk.info.virtq.desc d := fun d hd =>
    hsub.desc d (fun he => ho1 (he ▸ hd)) (fun he => ho2 (he ▸ hd)) fun he => ho3 (he ▸ hd)
  have hkeepFree : ∀ d ∈ rest, blk'.info.virtq.desc d = s.blk.info.virtq.desc d := fun d hd =>
    hsub.desc d (fun he => hr1 (he ▸ hd)) (fun he => hr2 (he ▸ hd)) fun he => hr3 (he ▸ hd)
  have howned : Queue.owned ⟨blk', ⟨d1, hdr⟩ :: s.out⟩ = [d1, d2, d3] ++ s.owned := by
    show blk'.info.triple d1 ++ s.out.flatMap (fun p => blk'.info.triple p.head) = _
    rw [hsub.triple, flatMap_triple_congr hkeep]
    rfl
  have hperm : (rest ++ ([d1, d2, d3] ++ s.owned)).Perm (d1 :: d2 :: d3 :: rest ++ s.owned) :=
    perm_append_comm_assoc rest [d1, d2, d3] s.owned
  refine ⟨?_, ?_, ?_, ?_, ?_, ?_⟩
  · rw [hsub.queueSize]
    exact h.size
  · rw [hsub.queueSize, hsub.freeDesc]
    refine NextList.congr ?_ fun d hd => congrArg VirtqueueDesc.next (hkeepFree d hd)
    exact h.list.2.2.2.2.2.2
  · rw [howned]
    exact hperm.nodup_iff.mpr h.nodup
  · intro d
    rw [howned, hperm.mem_iff, h.mem, hsub.queueSize]
  · intro d
    rw [howned, mem_append]
    by_cases hd : d = d1 ∨ d = d2 ∨ d = d3
    · have hmem : d ∈ [d1, d2, d3] := by simpa only [mem_cons, not_mem_nil, or_false] using hd
      exact ⟨fun _ => .inl hmem, fun _ => hsub.owned d hd⟩
    · have hmem : d ∉ [d1, d2, d3] := by simpa only [mem_cons, not_mem_nil, or_false] using hd
      simp only [not_or] at hd
      rw [hsub.virt d hd.1 hd.2.1 hd.2.2, h.virt]
      exact ⟨.inr, fun ho => ho.resolve_left hmem⟩
  · intro p hp
    rcases mem_cons.mp hp with rfl | hp
    · exact hsub.chained
    · have hin : ∀ d ∈ s.blk.info.triple p.head, d ∈ s.owned := fun d => Queue.triple_subset hp
      have hhead := hin p.head mem_cons_self
      refine (h.chained p hp).congr (fun d hd => hkeep d (hin d hd)) ?_
      exact hsub.virt _ (fun he => ho1 (he ▸ hhead)) (fun he => ho2 (he ▸ hhead)) fun he =>
        ho3 (he ▸ hhead)

/-! ## Completions -/

lemma Tracks.returned (h : Tracks s free) (head status : Nat) :
    Tracks ⟨deviceReturn head status s.blk, s.out⟩ free :=
  ⟨h.size, h.list, h.nodup, h.mem, h.virt, fun p hp => (h.chained p hp).congr (fun _ _ => rfl) rfl⟩

/-- The descriptors of an outstanding request and what is left without it. -/
lemma Queue.owned_perm (hp : p ∈ s.out) : s.owned.Perm
    (s.blk.info.triple p.head ++ (s.out.erase p).flatMap fun p => s.blk.info.triple p.head) :=
  (perm_cons_erase hp).flatMap_right _

section

variable (h : Tracks s free)
include h

/-- A completion moves the chain of its request to the front of the free list. -/
lemma Tracks.released (hp : p ∈ s.out) (htriple : s.blk.info.triple p.head = [d1, d2, d3])
    (hinfo : blk'.info = s.blk.info.unchain d1 d2 d3) :
    Tracks ⟨blk', s.out.erase p⟩ (d3 :: d2 :: d1 :: free) := by
  have howned := Queue.owned_perm hp
  rw [htriple] at howned
  generalize hrest : (s.out.erase p).flatMap (fun p => s.blk.info.triple p.head) = others at howned
  have hperm : (d3 :: d2 :: d1 :: free ++ others).Perm (free ++ s.owned) := by
    have hrev : ([d3, d2, d1] ++ (free ++ others)).Perm ([d1, d2, d3] ++ (free ++ others)) :=
      (reverse_perm [d1, d2, d3]).append_right _
    have hswap : (free ++ ([d1, d2, d3] ++ others)).Perm ([d1, d2, d3] ++ (free ++ others)) :=
      perm_append_comm_assoc free [d1, d2, d3] others
    exact hrev.trans (hswap.symm.trans (howned.symm.append_left free))
  have hnodup := hperm.nodup_iff.mpr h.nodup
  have hlt : ∀ d ∈ [d1, d2, d3], d < s.blk.info.queueSize := by
    intro d hd
    refine (h.mem d).mp (mem_append_right _ (howned.mem_iff.mpr ?_))
    exact mem_append_left _ hd
  simp only [cons_append, nodup_cons, mem_cons, mem_append, not_or] at hnodup
  obtain ⟨⟨h32, h31, hf3, ho3⟩, ⟨h21, hf2, ho2⟩, ⟨hf1, ho1⟩, _⟩ := hnodup
  have hkeep : ∀ d, d ∈ others ∨ d ∈ free → blk'.info.virtq.desc d = s.blk.info.virtq.desc d := by
    intro d hd
    rw [hinfo]
    refine unchain_desc_of_ne _ ?_ ?_ ?_
    · exact fun he => hd.elim (fun hm => ho1 (he ▸ hm)) fun hm => hf1 (he ▸ hm)
    · exact fun he => hd.elim (fun hm => ho2 (he ▸ hm)) fun hm => hf2 (he ▸ hm)
    · exact fun he => hd.elim (fun hm => ho3 (he ▸ hm)) fun hm => hf3 (he ▸ hm)
  have hsize : blk'.info.queueSize = s.blk.info.queueSize := by
    rw [hinfo]
    rfl
  have howned' : Queue.owned ⟨blk', s.out.erase p⟩ = others := by
    rw [← hrest]
    refine flatMap_triple_congr fun d hd => hkeep d (.inl ?_)
    rw [← hrest]
    exact hd
  have h1 := hlt d1 mem_cons_self
  have h2 := hlt d2 (mem_cons_of_mem _ mem_cons_self)
  have h3 := hlt d3 (mem_cons_of_mem _ (mem_cons_of_mem _ mem_cons_self))
  have hnext := unchain_next s.blk.info (Ne.symm h21) (Ne.symm h31) (Ne.symm h32)
  refine ⟨?_, ?_, ?_, ?_, ?_, ?_⟩
  · rw [hsize]
    exact h.size
  · have hstart : blk'.info.freeDesc = d3 := by
      rw [hinfo]
      rfl
    have hn3 : blk'.info.next d3 = d2 := by
      rw [hinfo, hnext, if_neg h31, if_neg h32, if_pos rfl, wrap16_of_lt (lt_trans h2 h.size)]
    have hn2 : blk'.info.next d2 = d1 := by
      rw [hinfo, hnext, if_neg h21, if_pos rfl, wrap16_of_lt (lt_trans h1 h.size)]
    have hn1 : blk'.info.next d1 = s.blk.info.freeDesc := by
      rw [hinfo, hnext, if_pos rfl, wrap16_of_lt (lt_of_le_of_lt h.freeDesc_le h.size)]
    rw [hsize, hstart]
    refine ⟨rfl, ne_of_lt h3, hn3, ne_of_lt h2, hn2, ne_of_lt h1, ?_⟩
    rw [hn1]
    exact h.list.congr fun d hd => congrArg VirtqueueDesc.next (hkeep d (.inr hd))
  · rw [howned']
    exact hperm.nodup_iff.mpr h.nodup
  · intro d
    rw [howned', hperm.mem_iff, h.mem]
    exact hsize ▸ Iff.rfl
  · intro d
    rw [howned', hinfo, unchain_descVirt]
    split_ifs with hd
    · have hout : d ∉ others := by
        rcases hd with rfl | rfl | rfl
        · exact ho1
        · exact ho2
        · exact ho3
      exact ⟨fun hne => absurd rfl hne, fun hmem => absurd hmem hout⟩
    · rw [h.virt, howned.mem_iff, mem_append]
      have hmem : d ∉ [d1, d2, d3] := by simpa only [mem_cons, not_mem_nil, or_false] using hd
      exact ⟨fun ho => ho.resolve_left hmem, .inr⟩
  · intro p' hp'
    have hin : ∀ d ∈ s.blk.info.triple p'.head, d ∈ others := by
      intro d hd
      rw [← hrest]
      exact mem_flatMap.mpr ⟨p', hp', hd⟩
    have hhead := hin p'.head mem_cons_self
    refine (h.chained p' (mem_of_mem_erase hp')).congr (fun d hd => hkeep d (.inl (hin d hd))) ?_
    rw [hinfo, unchain_descVirt, if_neg]
    rintro (he | he | he)
    · exact ho1 (he ▸ hhead)
    · exact ho2 (he ▸ hhead)
    · exact ho3 (he ▸ hhead)

/-- The request at `hdr` after a completion has reported `status` to it. -/
def reported (s : VirtioBlk) (hdr : Nat) (status : BlkreqStatus) : Nat → VirtioBlkReq :=
  update s.reqs hdr { s.reqs hdr with blkreq := { (s.reqs hdr).blkreq with status } }

/-- The driver's answer when the device returns an outstanding request. -/
lemma Tracks.handleUsed (hp : p ∈ s.out) (status : Nat) :
    virtioBlkHandleUsed (s.blk.info.virtq.usedIdx % s.blk.info.queueSize)
        (deviceReturn p.head status s.blk) =
      (reportedStatus status).map fun st =>
        { info := (deviceReturn p.head status s.blk).info.unchain p.head (s.blk.info.next p.head)
            (s.blk.info.next (s.blk.info.next p.head))
          reqs := reported s.blk p.hdr st
          byte := (deviceReturn p.head status s.blk).byte
          ended := s.blk.ended ++ [p.hdr] } := by
  have hlt : ∀ d ∈ s.blk.info.triple p.head, d < s.blk.info.queueSize := fun d hd =>
    (h.mem d).mp (mem_append_right _ (Queue.triple_subset hp hd))
  have hid : ((deviceReturn p.head status s.blk).info.virtq.usedRing
      (s.blk.info.virtq.usedIdx % s.blk.info.queueSize)).id = p.head := by
    simp only [deviceReturn, update_self]
  have hbyte : (deviceReturn p.head status s.blk).byte (virtToPhys (p.hdr + virtioBlkReqHeaderSize)) =
      status := by
    rw [← (h.chained p hp).footer]
    exact update_self ..
  have hrun := virtioBlkHandleUsed_eq hid ((h.returned p.head status).chained p hp) rfl
    (hlt _ mem_cons_self) (hlt _ (mem_cons_of_mem _ mem_cons_self))
    (hlt _ (mem_cons_of_mem _ (mem_cons_of_mem _ mem_cons_self)))
  rw [hbyte] at hrun
  exact hrun

/-- The completion of an outstanding request; on an unknown status byte the driver panics. -/
lemma Tracks.complete (status : Nat) (hfind : s.out.find? (fun p => p.head = head) = some p) :
    (reportedStatus status = none ∧ step s (.complete head status) = none) ∨
      ∃ st blk free', reportedStatus status = some st ∧
        step s (.complete head status) = some ⟨blk, s.out.erase p⟩ ∧
        Tracks ⟨blk, s.out.erase p⟩ free' ∧ blk.reqs = reported s.blk p.hdr st ∧
        blk.ended = s.blk.ended ++ [p.hdr] := by
  have hp := mem_of_find?_eq_some hfind
  have hhead : p.head = head := by simpa using find?_some hfind
  subst hhead
  have hrun := h.handleUsed hp status
  cases hst : reportedStatus status with
  | none =>
    refine .inl ⟨rfl, ?_⟩
    rw [hst, map_none] at hrun
    simp only [step, hfind, hrun, bind_eq_bind, bind_none]
  | some st =>
    rw [hst, map_some] at hrun
    obtain ⟨blk, hblk, hinfo, hreqs, hended⟩ : ∃ blk, virtioBlkHandleUsed
        (s.blk.info.virtq.usedIdx % s.blk.info.queueSize) (deviceReturn p.head status s.blk) = some blk ∧
        blk.info = (deviceReturn p.head status s.blk).info.unchain p.head (s.blk.info.next p.head)
          (s.blk.info.next (s.blk.info.next p.head)) ∧
        blk.reqs = reported s.blk p.hdr st ∧ blk.ended = s.blk.ended ++ [p.hdr] :=
      ⟨_, hrun, rfl, rfl, rfl⟩
    refine .inr ⟨st, blk, _, rfl, ?_, (h.returned p.head status).released hp rfl hinfo, hreqs, hended⟩
    simp only [step, hfind, hblk, bind_eq_bind, bind_some]

/-- The submission of a request when there is room for one. -/
lemma Tracks.submit {req : Blkreq} (hhdr : hdr ≠ 0)
    (hbuffer : req.buffer ≠ 0) (hroom : s.out.length < s.blk.info.queueSize / 3) :
    ∃ s' free', step s (.submit hdr req) = some s' ∧ Tracks s' free' := by
  have hset : Tracks ⟨s.blk.setReq hdr fun r => { r with blkreq := req }, s.out⟩ free :=
    ⟨h.size, h.list, h.nodup, h.mem, h.virt, h.chained⟩
  have hreq : ((s.blk.setReq hdr fun r => { r with blkreq := req }).reqs hdr).blkreq = req := by
    simp only [VirtioBlk.setReq, update_self]
  generalize hbefore : (s.blk.setReq hdr fun r => { r with blkreq := req }) = before at hset hreq
  by_cases hsize : req.size &&& (virtioBlkSectorSize - 1) = 0
  · obtain ⟨d1, d2, d3, rest, rfl⟩ := h.three hroom
    have hlist := hset.list
    obtain ⟨h1, -, rfl, -, rfl, -, -⟩ := hlist
    have hnodup := hset.list.nodup
    simp only [nodup_cons, mem_cons, not_or] at hnodup
    obtain ⟨⟨h12, h13, _⟩, ⟨h23, _⟩, _⟩ := hnodup
    obtain ⟨after, hrun, hsub⟩ := virtioBlkSubmit_spec hhdr (by rw [hreq]; exact hbuffer)
      (by rw [hreq]; exact hsize) hset.size h1 rfl rfl (hset.lt mem_cons_self)
      (hset.lt (mem_cons_of_mem _ mem_cons_self))
      (hset.lt (mem_cons_of_mem _ (mem_cons_of_mem _ mem_cons_self))) h12 h13 h23
    refine ⟨⟨after, ⟨d1, hdr⟩ :: s.out⟩, rest, ?_, hset.submitted hsub⟩
    simp only [step, hbefore]
    rw [if_pos ⟨hhdr, hbuffer, hroom⟩, hrun]
    simp only [bind_eq_bind, bind_some, hsub.posted]
    rfl
  · -- the request is refused, and the device finds nothing new
    have hrun : virtioBlkSubmit hdr before = some before := by
      rw [virtioBlkSubmit, hreq, if_pos hsize]
    refine ⟨⟨before, s.out⟩, free, ?_, hset⟩
    simp only [step, hbefore]
    rw [if_pos ⟨hhdr, hbuffer, hroom⟩, hrun]
    simp only [bind_eq_bind, bind_some, postedHead, if_true]
    rfl

/-- One step. -/
lemma Tracks.step {e : Event} (hs : step s e = some s') :
    ∃ free', Tracks s' free' := by
  cases e with
  | submit hdr req =>
    by_cases hreq : hdr ≠ 0 ∧ req.buffer ≠ 0 ∧ s.out.length < s.blk.info.queueSize / 3
    · obtain ⟨s'', free', hrun, h'⟩ := h.submit hreq.1 hreq.2.1 hreq.2.2
      rw [hrun] at hs
      cases hs
      exact ⟨free', h'⟩
    · simp only [Virtio.step] at hs
      rw [if_neg hreq] at hs
      cases hs
  | complete head status =>
    cases hfind : s.out.find? fun p => p.head = head with
    | none =>
      simp only [Virtio.step, hfind] at hs
      cases hs
    | some p =>
      rcases h.complete status hfind with ⟨_, hnone⟩ | ⟨st, blk, free', _, hrun, h', _⟩
      · rw [hnone] at hs
        cases hs
      · rw [hrun] at hs
        cases hs
        exact ⟨free', h'⟩

/-! ## Whole runs -/

/-- What a reader of the queue's memory can say at any point of a run. -/
structure Accounted (s : Queue) : Prop where
  /-- The free list ends at `queue_size` without a cycle, and holds the descriptors that belong to no
  outstanding request. -/
  free : ∃ free, NextList s.blk.info.next s.blk.info.queueSize s.blk.info.freeDesc free ∧
    free.Nodup ∧ ∀ d, d ∈ free ↔ d < s.blk.info.queueSize ∧ d ∉ s.owned
  triples : ∀ p ∈ s.out, (s.blk.info.triple p.head).Nodup
  apart : s.out.Pairwise fun p p' => (s.blk.info.triple p.head).Disjoint (s.blk.info.triple p'.head)
  virt : ∀ d, s.blk.info.descVirt d ≠ 0 ↔ d ∈ s.owned
  /-- The device may return any outstanding request next. Its status goes to the request that was
  submitted with the head, and to no other. -/
  completes : ∀ p ∈ s.out, ∀ status st, reportedStatus status = some st →
    ∃ s', step s (.complete p.head status) = some s' ∧ s'.out = s.out.erase p ∧
      s'.blk.reqs = reported s.blk p.hdr st ∧ s'.blk.ended = s.blk.ended ++ [p.hdr]
  /-- There are descriptors for every request within the bound. -/
  accepts : ∀ hdr req, hdr ≠ 0 → req.buffer ≠ 0 → s.out.length < s.blk.info.queueSize / 3 →
    ∃ s', step s (.submit hdr req) = some s'

lemma Tracks.find (hp : p ∈ s.out) :
    s.out.find? (fun q => q.head = p.head) = some p := by
  cases hfind : s.out.find? fun q => q.head = p.head with
  | none =>
    have hne := find?_eq_none.mp hfind p hp
    simp at hne
  | some q =>
    have hq := mem_of_find?_eq_some hfind
    have hhead : q.head = p.head := by simpa using find?_some hfind
    by_cases hqp : q = p
    · rw [hqp]
    · -- two requests with one head would own it twice
      have hmem : p ∈ s.out.erase q := (mem_erase_of_ne (Ne.symm hqp)).mpr hp
      have hnodup := (Queue.owned_perm hq).nodup_iff.mp (nodup_append.mp h.nodup).2.1
      have hother : p.head ∈ (s.out.erase q).flatMap fun p => s.blk.info.triple p.head :=
        mem_flatMap.mpr ⟨p, hmem, mem_cons_self⟩
      have hown : p.head ∈ s.blk.info.triple q.head := by
        rw [← hhead]
        exact mem_cons_self
      exact absurd rfl ((nodup_append.mp hnodup).2.2 _ hown _ hother)

lemma Tracks.accounted : Accounted s := by
  obtain ⟨hfree, howned, hdisj⟩ := nodup_append.mp h.nodup
  obtain ⟨htriples, hapart⟩ := nodup_flatMap.mp howned
  refine ⟨⟨free, h.list, hfree, ?_⟩, htriples, hapart, h.virt, ?_, ?_⟩
  · intro d
    rw [← h.mem, mem_append]
    constructor
    · exact fun hd => ⟨.inl hd, fun ho => hdisj d hd d ho rfl⟩
    · exact fun hd => hd.1.resolve_right hd.2
  · intro p hp status st hst
    rcases h.complete status (h.find hp) with ⟨hnone, _⟩ | ⟨st', blk, _, hst', hrun, _, hreqs, hended⟩
    · rw [hnone] at hst
      cases hst
    · rw [hst'] at hst
      cases hst
      exact ⟨_, hrun, rfl, hreqs, hended⟩
  · intro hdr req hhdr hbuffer hroom
    obtain ⟨s', _, hrun, _⟩ := h.submit hhdr hbuffer hroom
    exact ⟨s', hrun⟩

end

/-- A new queue has all of its descriptors on the free list, in order. -/
lemma virtqCreate_tracks {info : VirtqInfo} (hcreate : virtqCreate info = some s.blk.info)
    (hfree : info.freeDesc = 0) (hsize : info.queueSize < 2 ^ 16) (hout : s.out = []) :
    Tracks s (range' 0 info.queueSize) := by
  unfold virtqCreate at hcreate
  split_ifs at hcreate with hzero
  have hinfo := some.inj hcreate
  have howned : s.owned = [] := by rw [Queue.owned, hout, flatMap_nil]
  have hq : s.blk.info.queueSize = info.queueSize := by rw [← hinfo]
  have hnext : ∀ d, s.blk.info.next d = if d < info.queueSize then wrap16 (d + 1) else 0 := by
    rw [← hinfo]
    exact fun _ => rfl
  refine ⟨hq ▸ hsize, ?_, ?_, ?_, ?_, ?_⟩
  · have hstart : s.blk.info.freeDesc = 0 := by
      rw [← hinfo]
      exact hfree
    have hlist : NextList s.blk.info.next (0 + info.queueSize) 0 (range' 0 info.queueSize) := by
      refine nextList_range' fun i _ hi => ?_
      rw [zero_add] at hi
      rw [hnext, if_pos hi, wrap16_of_lt (by omega)]
    rw [hq, hstart]
    rwa [zero_add] at hlist
  · rw [howned, append_nil]
    exact nodup_range'
  · intro d
    rw [howned, append_nil, mem_range'_1, hq]
    omega
  · intro d
    rw [howned, ← hinfo]
    exact ⟨fun hne => absurd rfl hne, fun hd => absurd hd not_mem_nil⟩
  · intro p hp
    rw [hout] at hp
    cases hp

/-- The accounts of a queue hold after every run that starts when the queue is created. -/
theorem descriptors_accounted {info : VirtqInfo} (hcreate : virtqCreate info = some s.blk.info)
    (hfree : info.freeDesc = 0) (hsize : info.queueSize < 2 ^ 16) (hout : s.out = [])
    {ts : List (Transition Queue Event)} (hr : Run (fun s e s' => step s e = some s') s ts s') :
    Accounted s' := by
  have hstart : ∃ free, Tracks s free := ⟨_, virtqCreate_tracks hcreate hfree hsize hout⟩
  have hstep : ∀ s e s', (∃ free, Tracks s free) → step s e = some s' → ∃ free, Tracks s' free := by
    intro s e s' ⟨free, h⟩ hs
    exact h.step hs
  obtain ⟨free, h⟩ := hr.invariant hstart hstep
  exact h.accounted

end

/-- A queue of eight descriptors before `virtq_create`. -/
def smallInfo : VirtqInfo where
  seenUsed := 0
  freeDesc := 0
  virtq := ⟨fun _ => ⟨0, 0, 0, 0⟩, 0, fun _ => 0, 0, fun _ => ⟨0, 0⟩⟩
  descVirt := fun _ => 0
  queueNum := 0
  queueSize := 8

/-- The driver of a new queue, with no request in memory yet. -/
def newQueue (info : VirtqInfo) : Option Queue := do
  let info ← virtqCreate info
  some ⟨⟨info, fun _ => ⟨0, 0, 0, ⟨.read, 0, 0, 0, .init⟩⟩, fun _ => 0, []⟩, []⟩

/-- The first of two requests is returned, a third one takes its descriptors in the opposite order,
and the second one fails. -/
theorem descriptors_accounted_three : ∃ s ts s', newQueue smallInfo = some s ∧
    Run (fun s e s' => step s e = some s') s ts s' ∧ s'.out = [⟨2, 0x3000⟩] ∧
    s'.blk.ended = [0x1000, 0x2000] ∧ Accounted s' := by
  have hrun : ((newQueue smallInfo).bind fun s =>
      [Event.submit 0x1000 ⟨.read, 0, 512, 0x8000, .init⟩, .submit 0x2000 ⟨.write, 1, 512, 0x9000, .init⟩,
        .complete 0 0, .submit 0x3000 ⟨.read, 2, 1024, 0xa000, .init⟩, .complete 3 1].foldlM
        (fun x e => (step x.2 e).map fun s => (x.1 && true, s)) (true, s)).map
        (fun x => (x.2.out, x.2.blk.ended)) = some ([⟨2, 0x3000⟩], [0x1000, 0x2000]) := by
    decide +kernel
  obtain ⟨⟨b, s'⟩, hrun, hview⟩ := map_eq_some_iff.mp hrun
  obtain ⟨s, hnew, hrun⟩ := bind_eq_some_iff.mp hrun
  obtain ⟨hout, hended⟩ := Prod.mk.inj hview
  obtain ⟨ts, hr, _⟩ := Run.exists_of_foldlM (c := fun _ _ => true) Run.nil
    nofun hrun
  have hnew' := hnew
  simp only [newQueue, bind_eq_bind, bind_eq_some_iff, some.injEq] at hnew'
  obtain ⟨info, hcreate, rfl⟩ := hnew'
  have hsize : smallInfo.queueSize < 2 ^ 16 := by decide
  exact ⟨_, ts, s', hnew, hr, hout, hended, descriptors_accounted hcreate rfl hsize rfl hr⟩

/-! ## Too few descriptors -/

/-- The submission of the request at `hdr` stays within the table, and the avail ring and the chains of
the outstanding requests are as before. -/
def Refused (s : Queue) (hdr : Nat) : Prop :=
  ∃ blk, virtioBlkSubmit hdr s.blk = some blk ∧
    blk.info.virtq.availIdx = s.blk.info.virtq.availIdx ∧
    blk.info.virtq.availRing = s.blk.info.virtq.availRing ∧
    ∀ d ∈ s.owned, blk.info.virtq.desc d = s.blk.info.virtq.desc d

lemma virtqAllocDesc_end {info : VirtqInfo} (addr : Nat) (h : info.freeDesc = info.queueSize) :
    virtqAllocDesc info addr = none := if_neg (not_lt.mpr (le_of_eq h.symm))

/-- With fewer than three free descriptors, a request of whole sectors runs into the end of the list. -/
lemma virtioBlkSubmit_end {s : VirtioBlk} {free : List Nat}
    (hlist : NextList s.info.next s.info.queueSize s.info.freeDesc free)
    (hlt : ∀ d ∈ free, d < s.info.queueSize) (hfew : free.length < 3)
    (hsize : (s.reqs hdr).blkreq.size &&& (virtioBlkSectorSize - 1) = 0) :
    virtioBlkSubmit hdr s = none := by
  rw [virtioBlkSubmit, if_neg (not_not_intro hsize)]
  rcases free with _ | ⟨d1, _ | ⟨d2, free⟩⟩
  · simp [VirtioBlk.setReq, virtqAllocDesc_end _ hlist]
  · obtain ⟨h1, _, hend⟩ := hlist
    simp only [VirtioBlk.setReq, virtqAllocDesc_eq _ h1 (hlt d1 mem_cons_self), bind_eq_bind, bind_some]
    rw [virtqAllocDesc_end _ (by exact hend)]
    rfl
  · obtain rfl : free = [] := eq_nil_of_length_eq_zero (by simp at hfew; omega)
    obtain ⟨h1, _, h2, _, hend⟩ := hlist
    simp only [VirtioBlk.setReq, virtqAllocDesc_eq _ h1 (hlt d1 mem_cons_self), bind_eq_bind, bind_some]
    rw [virtqAllocDesc_eq (s.reqs hdr).blkreq.buffer (d := d2) (by exact h2)
      (by exact hlt d2 (mem_cons_of_mem _ mem_cons_self))]
    simp only [bind_some]
    rw [virtqAllocDesc_end]
    · rfl
    · show ((s.info.take d1 hdr).fill d1 virtioBlkReqHeaderSize virtqDescFNext).next d2 = s.info.queueSize
      rw [VirtqInfo.fill_next, VirtqInfo.take_next, hend]

/-- A queue with fewer than three free descriptors refuses a request exactly if its size is no multiple
of the sector size. -/
theorem exhausted_refused_iff {s : Queue} {free : List Nat} {hdr : Nat}
    (hlist : NextList s.blk.info.next s.blk.info.queueSize s.blk.info.freeDesc free)
    (hlt : ∀ d ∈ free, d < s.blk.info.queueSize) (hfew : free.length < 3) :
    Refused s hdr ↔ (s.blk.reqs hdr).blkreq.size &&& (virtioBlkSectorSize - 1) ≠ 0 := by
  constructor
  · rintro ⟨blk, hrun, -⟩ hsize
    rw [virtioBlkSubmit_end hlist hlt hfew hsize] at hrun
    cases hrun
  · intro hsize
    exact ⟨s.blk, if_pos hsize, rfl, rfl, fun _ _ => rfl⟩

/-- Two requests leave two of eight descriptors. -/
def twoRequests : Option Queue := do
  [Event.submit 0x1000 ⟨.read, 0, 512, 0x8000, .init⟩,
    .submit 0x2000 ⟨.read, 1, 512, 0x8200, .init⟩].foldlM step (← newQueue smallInfo)

/-- The request at `0x3000` is for `size` bytes. -/
def thirdRequest (size : Nat) (s : Queue) : Queue :=
  { s with blk := s.blk.setReq 0x3000 fun r => { r with blkreq := ⟨.read, 2, size, 0x8400, .init⟩ } }

/-- A third request for a part of a sector. -/
theorem exhausted_refused_odd : ∃ s, twoRequests = some s ∧ s.out.length = 2 ∧
    Refused (thirdRequest 100 s) 0x3000 := by
  have hview : twoRequests.map (fun s => (s.out.length, s.blk.info.queueSize, s.blk.info.freeDesc,
      s.blk.info.next 6, s.blk.info.next 7)) = some (2, 8, 6, 7, 8) := by decide +kernel
  obtain ⟨s, hs, hview⟩ := map_eq_some_iff.mp hview
  obtain ⟨hout, hq, hfree, h6, h7⟩ := by simpa only [Prod.mk.injEq] using hview
  refine ⟨s, hs, hout, (@exhausted_refused_iff (thirdRequest 100 s) [6, 7] 0x3000 ?_ ?_ (by decide)).mpr ?_⟩
  · show NextList s.blk.info.next s.blk.info.queueSize s.blk.info.freeDesc [6, 7]
    rw [hq]
    exact ⟨hfree, by decide, h6, by decide, h7⟩
  · show ∀ d ∈ [6, 7], d < s.blk.info.queueSize
    rw [hq]
    decide
  · simp [thirdRequest, VirtioBlk.setReq, virtioBlkSectorSize]

/-- A third request for a sector takes these and goes on at `desc[8]`. -/
theorem exhausted_out_of_table : (twoRequests.map fun s =>
    (s.out.length, (virtioBlkSubmit 0x3000 (thirdRequest 512 s).blk).isNone)) = some (2, true) := by
  decide +kernel

end Hana.Virtio
