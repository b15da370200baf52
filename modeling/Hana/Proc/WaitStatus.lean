import Hana.Mm.Vm.Copyout
import Hana.Proc.Wait

/-!
# The exit status in wait4

`Delivered` says what a call of `wait4` that returns a pid is for. The call stores the exit
status through the page table of the child and then frees that table. So the caller finds it
at `status` only where the two tables lead to the same byte of memory, or where the byte was
there before (`StatusSeen`).
-/

namespace Hana.Wait

open Function List Option Lib Vm Proc

variable {A : Type}

/-- A kernel whose processes have a page table each. The tables of the zombies are as `fork` makes
them: nothing stale above the leaves, and no page marked for copying. -/
structure Ready (Inv : A → Prop) (Held : A → Nat → Nat → Prop) (k : Kernel A)
    (tab : Nat → Option Place) (xs : List Nat) : Prop where
  chain : Chain k xs
  pids : ∀ p ∈ xs, ∀ q ∈ xs, (k.task p).pid = (k.task q).pid → p = q
  pidLt : ∀ p ∈ xs, (k.task p).pid < k.nextPid
  shaped : Shaped Inv Held k.mem tab
  table : ∀ p ∈ xs, tab (k.root p) = some (rootPlace (k.root p))
  own : ∀ p ∈ xs, ∀ q ∈ xs, k.root p = k.root q → p = q
  zombie : ∀ p ∈ xs, (k.task p).state = .zombie → Clean (k.root p) k.mem tab ∧ NoCow (k.root p) k.mem

/-- The byte with number `i` of the exit status of `p`. -/
def statusByte (k : Kernel A) (p i : Nat) : Nat := (leBytes 4 (k.task p).status).getD i 0

/-- What a call that returns the pid `c` is for; `xs` is the list before it. -/
structure Delivered (E : Env A) (cur status : Nat) (c : Int) (xs : List Nat) (k k' : Kernel A) :
    Prop where
  child : ∃ p ∈ xs, (k.task p).pid = c ∧ (k.task p).parent = cur ∧ (k.task p).state = .zombie ∧
    Chain k' (xs.erase p) ∧
    (status ≠ 0 → ∀ i < 4,
      readByte k'.mem (k'.root cur) (wrap64 (status + i)) = some (statusByte k p i)) ∧
    ∀ q ∈ xs, q ≠ cur → q ≠ p → ∀ va,
      readByte k'.mem (k'.root q) va = readByte k.mem (k.root q) va
  once : ∀ ts k'', Run (step E) k' ts k'' →
    ∀ t ∈ ts, ∀ cur' status' options', t.label ≠ .wait4 cur' status' options' c

/-- The child that is found does not have to deliver a status, or the caller sees it anyway: every
byte of the `int` is in both tables the same byte of memory, or it has its value already. No other
process shares a byte that changes. -/
def StatusSeen (cur status : Nat) (xs : List Nat) (k : Kernel A) : Prop :=
  ∀ p, xs.find? (reapable k cur) = some p → status ≠ 0 →
    (∀ i < 4, Aliases k.mem (k.root cur) (wrap64 (status + i)) (k.root p) (wrap64 (status + i)) ∨
      readByte k.mem (k.root cur) (wrap64 (status + i)) = some (statusByte k p i)) ∧
    ∀ q ∈ xs, q ≠ cur → q ≠ p → ∀ va, ∀ i < 4,
      Aliases k.mem (k.root q) va (k.root p) (wrap64 (status + i)) →
        readByte k.mem (k.root q) va = some (statusByte k p i)

section

variable {Inv : A → Prop} {Held : A → Nat → Nat → Prop} {lo hi : Nat} {E : Env A}
variable {tab : Nat → Option Place} {k k' : Kernel A} {xs : List Nat} {p cur status : Nat} {c : Int}

/-- Freeing a zombie leaves what the others read alone. -/
lemma Freed.reads (hE : E.Ok lo hi Inv Held) (hs : Shaped Inv Held k.mem tab)
    (hclean : Clean (k.root p) k.mem tab) (hroot : tab (k.root p) = some (rootPlace (k.root p)))
    (h : Freed E p k k') {q : Nat} (hq : tab (k.root q) = some (rootPlace (k.root q)))
    (hne : k.root q ≠ k.root p) (va : Nat) :
    readByte k'.mem (k'.root q) va = readByte k.mem (k.root q) va := by
  obtain ⟨m, hm, hfree⟩ := h.mem
  obtain ⟨a, _, hmem⟩ := bind_eq_some_iff.mp hfree
  have hk' : k'.mem = { m with alloc := a, kfreed := m.kfreed ++ [p] } := (some.inj hmem).symm
  have hmread : readByte m (k.root q) va = readByte k.mem (k.root q) va := by
    rcases hm with rfl | hwalk
    · rfl
    · obtain ⟨_, hbyte, hleaf⟩ := freewalk_keeps hE hs hclean hroot hwalk
      rw [readByte_eq, readByte_eq, phys, phys, hleaf hq hne, hbyte]
  rw [h.root, hk']
  exact hmread

/-- The memory in which the child is freed: `copyout` has gone through the child's table. -/
lemma reap_wrote (h : Ready Inv Held k tab xs) (hp : p ∈ xs) (hz : (k.task p).state = .zombie)
    (hstatus : status < 2 ^ 64) {res : Int} {m : Mem A} (hres : 0 ≤ res)
    (hcopy : status = 0 ∧ res = 0 ∧ m = k.mem ∨ status ≠ 0 ∧
      copyout E (k.root p) status (leBytes 4 (k.task p).status) k.mem = some (res, m)) :
    m = { k.mem with byte := m.byte } ∧ (status = 0 → m = k.mem) ∧
      (status ≠ 0 → Wrote (k.root p) status (leBytes 4 (k.task p).status) k.mem m) := by
  rcases hcopy with ⟨hnull, _, rfl⟩ | ⟨hnull, hcopy⟩
  · exact ⟨rfl, fun _ => rfl, fun hne => absurd hnull hne⟩
  · have hwrote := copyout_wrote hstatus (by simp [leBytes]) (h.zombie p hp hz).2 hres hcopy
    exact ⟨hwrote.rest, fun heq => absurd heq hnull, fun _ => hwrote⟩

/-- What the processes read after the call that reaps `p`. -/
lemma reap_readByte (hE : E.Ok lo hi Inv Held) (h : Ready Inv Held k tab xs) (hp : p ∈ xs)
    (hz : (k.task p).state = .zombie) {m : Mem A} (hm : m = { k.mem with byte := m.byte })
    (hfreed : Freed E p ({ k with mem := m }.setTask p { k.task p with waited := true }) k')
    {q : Nat} (hq : q ∈ xs) (hne : q ≠ p) (va : Nat) :
    readByte k'.mem (k'.root q) va = readByte m (k.root q) va := by
  have hroot : ∀ a, ({ k with mem := m }.setTask p { k.task p with waited := true }).root a =
      k.root a := by
    intro a
    rw [Kernel.root, setTask_task]
    split_ifs with ha
    · rw [ha]
      rfl
    · rfl
  have hs : Shaped Inv Held m tab := by
    rw [hm]
    exact (kept_bytes (R := fun _ => False) h.shaped m.byte).1
  have hclean : Clean (k.root p) m tab := by
    rw [hm]
    exact (h.zombie p hp hz).1
  have hread := Freed.reads hE hs (by rw [hroot]; exact hclean)
    (by rw [hroot]; exact h.table p hp) hfreed (q := q) (by rw [hroot]; exact h.table q hq)
    (by rw [hroot, hroot]; exact fun heq => hne (h.own q hq p hp heq)) va
  rw [hread, hroot]
  rfl

/-- The state after a call that reaps `p`, as far as the caller and the others see it. -/
structure Reaped (E : Env A) (status p : Nat) (xs : List Nat) (k k' : Kernel A) : Prop where
  chain : Chain k' (xs.erase p)
  spent : Spent (k.task p).pid k'
  null : status = 0 → ∀ q ∈ xs, q ≠ p → ∀ va,
    readByte k'.mem (k'.root q) va = readByte k.mem (k.root q) va
  wrote : status ≠ 0 → ∃ res m,
    copyout E (k.root p) status (leBytes 4 (k.task p).status) k.mem = some (res, m) ∧
    Wrote (k.root p) status (leBytes 4 (k.task p).status) k.mem m ∧
    ∀ q ∈ xs, q ≠ p → ∀ va, readByte k'.mem (k'.root q) va = readByte m (k.root q) va

lemma reap_reaped (hE : E.Ok lo hi Inv Held) (h : Ready Inv Held k tab xs)
    (hstatus : status < 2 ^ 64) (hp : p ∈ xs) (hz : (k.task p).state = .zombie)
    (hreap : reap E status p k = some (.ret c k')) :
    c = -1 ∧ k'.task = k.task ∧ k'.procList = k.procList ∨
      c = (k.task p).pid ∧ Reaped E status p xs k k' := by
  obtain ⟨res, m, hcopy, ⟨_, hc, rfl⟩ | ⟨hres, hpid, hfree⟩⟩ := reap_cases hreap
  · exact .inl ⟨hc, rfl, rfl⟩
  · obtain ⟨hm, hnull, hwrote⟩ := reap_wrote h hp hz hstatus hres hcopy
    have hmem : SameList k { k with mem := m } := ⟨rfl, rfl, fun _ => ⟨rfl, rfl, rfl⟩⟩
    have hsame : SameList k ({ k with mem := m }.setTask p { k.task p with waited := true }) := by
      refine hmem.trans ?_
      exact sameList_setTask rfl rfl rfl
    have hnodup := h.chain.nodup
    obtain ⟨l1, l2, hxs⟩ := append_of_mem hp
    rw [hxs] at hnodup
    have hpl : p ∉ l1 ++ l2 := (nodup_middle.mp hnodup).notMem
    have herase : xs.erase p = l1 ++ l2 := by
      rw [hxs, erase_append_right _ fun hin => hpl (mem_append_left _ hin),
        erase_cons_head]
    have hchain := hsame.chain h.chain
    rw [hxs] at hchain
    obtain ⟨hfreed, hc'⟩ := freeproc_freed hchain hfree
    have hread := fun q (hq : q ∈ xs) (hne : q ≠ p) va => reap_readByte hE h hp hz hm hfreed hq hne va
    refine .inr ⟨hpid, ⟨by rw [herase]; exact hc', ⟨?_, l1 ++ l2, hc', ?_⟩, ?_, ?_⟩⟩
    · rw [hfreed.nextPid, hsame.nextPid]
      exact h.pidLt p hp
    · intro q hq
      have hqx : q ∈ xs := by
        rw [hxs]
        exact mem_append.mpr ((mem_append.mp hq).imp_right (mem_cons_of_mem _))
      rw [hfreed.pid, (hsame.task q).1]
      exact fun heq => hpl (h.pids q hqx p hp heq ▸ hq)
    · intro heq q hq hne va
      rw [hread q hq hne va, hnull heq]
    · intro hne
      refine ⟨res, m, ?_, hwrote hne, hread⟩
      exact (hcopy.resolve_left fun hn => hne hn.1).2

/-- The two parts of the property that depend on the store of the status. -/
lemma Reaped.seen_iff (h : Reaped E status p xs k k') (hcur : cur ∈ xs) (hne : cur ≠ p) :
    ((status ≠ 0 → ∀ i < 4,
        readByte k'.mem (k'.root cur) (wrap64 (status + i)) = some (statusByte k p i)) ∧
      ∀ q ∈ xs, q ≠ cur → q ≠ p → ∀ va,
        readByte k'.mem (k'.root q) va = readByte k.mem (k.root q) va) ↔
    (status ≠ 0 →
      (∀ i < 4, Aliases k.mem (k.root cur) (wrap64 (status + i)) (k.root p) (wrap64 (status + i)) ∨
        readByte k.mem (k.root cur) (wrap64 (status + i)) = some (statusByte k p i)) ∧
      ∀ q ∈ xs, q ≠ cur → q ≠ p → ∀ va, ∀ i < 4,
        Aliases k.mem (k.root q) va (k.root p) (wrap64 (status + i)) →
          readByte k.mem (k.root q) va = some (statusByte k p i)) := by
  by_cases hnull : status = 0
  · have hread := h.null hnull
    exact ⟨fun _ hno => absurd hnull hno,
      fun _ => ⟨fun hno => absurd hnull hno, fun q hq _ hqp => hread q hq hqp⟩⟩
  · obtain ⟨_, m, _, hwrote, hread⟩ := h.wrote hnull
    have hlen : (leBytes 4 (k.task p).status).length = 4 := by simp [leBytes]
    have hcaller := hwrote.readBytes_iff (q := k.root cur) (by rw [hlen]; decide)
    have hother := fun q => hwrote.readByte_same_iff (q := k.root q)
    constructor
    · rintro ⟨hstatus, hsame⟩ _
      refine ⟨hcaller.mp fun i hi => ?_, fun q hq hqc hqp => (hother q).mp fun va => ?_⟩
      · rw [← hread cur hcur hne]
        exact hstatus hnull i hi
      · rw [← hread q hq hqp]
        exact hsame q hq hqc hqp va
    · intro hseen
      obtain ⟨hstatus, hsame⟩ := hseen hnull
      refine ⟨fun _ i hi => ?_, fun q hq hqc hqp va => ?_⟩
      · rw [hread cur hcur hne]
        exact hcaller.mpr hstatus i hi
      · rw [hread q hq hqp]
        exact (hother q).mpr (hsame q hq hqc hqp) va

/-- How a call of a running process ends that returns. -/
lemma sysWait4_cases (hE : E.Ok lo hi Inv Held) (h : Ready Inv Held k tab xs)
    (hrun : (k.task cur).state = .running) (hstatus : status < 2 ^ 64) {fuel options : Nat}
    (hret : sysWait4 E fuel cur status options k = some (.ret c k')) :
    (c = -1 ∨ c = 0) ∧ k'.task = k.task ∧ k'.procList = k.procList ∨
      ∃ p, xs.find? (reapable k cur) = some p ∧ p ∈ xs ∧ cur ≠ p ∧ (k.task p).parent = cur ∧
        (k.task p).state = .zombie ∧ c = (k.task p).pid ∧ Reaped E status p xs k k' := by
  rcases scan_cases h.chain hret with ⟨hres, rfl⟩ | ⟨p, hfind, hreap⟩
  · exact .inl ⟨hres, rfl, rfl⟩
  · have hp := mem_of_find?_eq_some hfind
    have hz := find?_some hfind
    simp only [reapable, Bool.and_eq_true, decide_eq_true_eq] at hz
    rcases reap_reaped hE h hstatus hp hz.2 hreap with ⟨hc, hsame⟩ | ⟨hc, hreaped⟩
    · exact .inl ⟨.inl hc, hsame⟩
    · refine .inr ⟨p, hfind, hp, ?_, hz.1.1, hz.2, hc, hreaped⟩
      rintro rfl
      rw [hrun] at hz
      cases hz.2

lemma Reaped.delivered_iff (h : Ready Inv Held k tab xs) (hcur : cur ∈ xs)
    (hfind : xs.find? (reapable k cur) = some p) (hp : p ∈ xs) (hne : cur ≠ p)
    (hparent : (k.task p).parent = cur) (hz : (k.task p).state = .zombie) (hpos : 0 < (k.task p).pid)
    (hr : Reaped E status p xs k k') :
    Delivered E cur status (k.task p).pid xs k k' ↔ StatusSeen cur status xs k := by
  have hiff := hr.seen_iff hcur hne
  constructor
  · intro hd p' hfind' hnull
    obtain ⟨p1, hp1, hpid, _, _, _, hstat, hsame⟩ := hd.child
    have hp1' : p1 = p := h.pids p1 hp1 p hp (Int.ofNat_inj.mp hpid)
    have hp' : p' = p := some.inj (hfind'.symm.trans hfind)
    subst hp1' hp'
    exact hiff.mp ⟨hstat, hsame⟩ hnull
  · intro hseen
    obtain ⟨hstat, hsame⟩ := hiff.mpr (hseen p hfind)
    exact ⟨⟨p, hp, rfl, hparent, hz, hr.chain, hstat, hsame⟩, fun ts k'' hrun => run_spent hpos hr.spent hrun⟩

/-- A call that returns a pid does what it is for exactly if the caller sees the status without the
store through its own table. A call that returns `-1` leaves every zombie to be reaped. As in all
results over `Ready`, no live page imitates a free block. -/
theorem wait4_delivers_iff (hE : E.Ok lo hi Inv Held) (h : Ready Inv Held k tab xs) (hcur : cur ∈ xs)
    (hrun : (k.task cur).state = .running) (hstatus : status < 2 ^ 64) {fuel options : Nat}
    (hret : sysWait4 E fuel cur status options k = some (.ret c k')) :
    (0 < c → (Delivered E cur status c xs k k' ↔ StatusSeen cur status xs k)) ∧
      (c = -1 → Chain k' xs ∧ ∀ p ∈ xs, reapable k cur p = true → reapable k' cur p = true) := by
  rcases sysWait4_cases hE h hrun hstatus hret with
    ⟨hc, htask, hfirst⟩ | ⟨p, hfind, hp, hne, hparent, hz, rfl, hreaped⟩
  · refine ⟨fun hpos => by omega, fun _ => ⟨?_, fun q _ hq => ?_⟩⟩
    · unfold Chain
      rw [htask, hfirst]
      exact h.chain
    · unfold reapable
      rw [htask]
      exact hq
  · refine ⟨fun hpos => ?_, fun hneg => by omega⟩
    exact Reaped.delivered_iff h hcur hfind hp hne hparent hz (by omega) hreaped

/-! ## The call returns -/

lemma scan_find {fuel b a options : Nat} {ys : List Nat} {hasChild : Bool} (hl : ChainFrom k b a ys)
    (hlen : ys.length < fuel) (hfind : ys.find? (reapable k cur) = some p) :
    scan E cur status options fuel a hasChild k = reap E status p k := by
  induction fuel generalizing b a ys hasChild with
  | zero => exact absurd hlen (Nat.not_lt_zero _)
  | succ fuel ih =>
    cases ys with
    | nil => cases hfind
    | cons y ys =>
      obtain ⟨rfl, hne, _, hl⟩ := hl
      have hlen' : ys.length < fuel := Nat.lt_of_succ_lt_succ hlen
      rw [scan, if_neg hne]
      by_cases hz : reapable k cur a = true
      · rw [find?_cons_of_pos hz] at hfind
        cases hfind
        rw [reapable, Bool.and_eq_true, decide_eq_true_iff] at hz
        rw [if_pos hz.1, if_pos hz.2]
      · rw [find?_cons_of_neg hz] at hfind
        split_ifs with hchild hstate
        · refine absurd ?_ hz
          rw [reapable, Bool.and_eq_true, decide_eq_true_iff]
          exact ⟨hchild, hstate⟩
        · exact ih hl hlen' hfind
        · exact ih hl hlen' hfind

/-- A zombie that can be freed: it is not the first process and not the only one, its record is a
block of its own, and its areas start at pages. -/
structure Freeable (Held : A → Nat → Nat → Prop) (k : Kernel A) (tab : Nat → Option Place) (p : Nat) :
    Prop where
  init : p ≠ k.initProc
  next : p = k.procList → (k.task p).next ≠ 0
  held : Held k.mem.alloc p 1
  table : tab p = none
  areas : ∀ vma ∈ (k.task p).vmaList, 4096 ∣ vma.start

lemma procFreePagetable_returns (hE : E.Ok lo hi Inv Held) (hs : Shaped Inv Held k.mem tab)
    (hclean : Clean (k.root p) k.mem tab) (hroot : tab (k.root p) = some (rootPlace (k.root p)))
    (h : Freeable Held k tab p) :
    ∃ k', procFreePagetable E p k = some k' ∧ Inv k'.mem.alloc ∧ Held k'.mem.alloc p 1 ∧
      k'.task = k.task ∧ k'.procList = k.procList := by
  obtain ⟨m', freed, hwalk, hrel, _, hmem⟩ := freewalk_spec hE hs hclean hroot
  have hheld : Held m'.alloc p 1 := by
    refine (hrel.held p 1).mpr ⟨h.held, fun hin => ?_⟩
    obtain ⟨pl, hpl, _⟩ := (hmem p).mp hin.2
    rw [h.table] at hpl
    cases hpl
  have hframe := uvmunmap_eq E (k.root p) 1 true k.mem trapframeVa_page.1
  have htramp := uvmunmap_eq E (k.root p) 1 false k.mem trampolineVa_page.1
  have hfree : freePgtbl E (k.root p) (k.task p).vmaList k.mem = some m' := by
    simp only [freePgtbl, hframe, htramp, bind_eq_bind, bind_some,
      uvmfreeVma_eq h.areas, hwalk]
  simp only [procFreePagetable]
  split_ifs
  · exact ⟨_, rfl, hs.alloc, h.held, rfl, rfl⟩
  · rw [Kernel.root] at hfree
    simp only [Kernel.root, update_self, bind_eq_bind, hfree, bind_some]
    exact ⟨_, rfl, hrel.alloc, hheld, rfl, rfl⟩

lemma freeproc_returns (hE : E.Ok lo hi Inv Held) (hs : Shaped Inv Held k.mem tab)
    (hclean : Clean (k.root p) k.mem tab) (hroot : tab (k.root p) = some (rootPlace (k.root p)))
    (h : Freeable Held k tab p) : ∃ k', freeproc E p k = some k' := by
  have htable : ∃ k1, (if (k.task p).pagetable ≠ 0 then procFreePagetable E p k else some k) =
      some k1 ∧ Inv k1.mem.alloc ∧ Held k1.mem.alloc p 1 ∧ k1.task = k.task ∧
      k1.procList = k.procList := by
    split_ifs
    · exact procFreePagetable_returns hE hs hclean hroot h
    · exact ⟨k, rfl, hs.alloc, h.held, rfl, rfl⟩
  obtain ⟨k1, hk1, hinv, hheld, htask, hfirst⟩ := htable
  have hremove : ∃ k2, removeProc p k1 = some k2 ∧ k2.mem = k1.mem := by
    unfold removeProc
    rw [hfirst, htask]
    split_ifs with hp hnext
    · exact absurd hnext (h.next hp)
    · exact ⟨_, rfl, by rw [relink_rest]⟩
    · exact ⟨_, rfl, by rw [relink_rest]⟩
  obtain ⟨k2, hk2, hmem⟩ := hremove
  obtain ⟨a, hfree, _⟩ := hE.lawful.kfree_spec hinv hheld
  refine ⟨{ k2 with mem := { k1.mem with alloc := a, kfreed := k1.mem.kfreed ++ [p] } }, ?_⟩
  rw [freeproc, if_neg h.init, hk1, bind_eq_bind, bind_some, hk2, bind_eq_bind,
    bind_some, hmem, kfree, hfree]
  rfl

/-- A caller with a child that is a zombie gets its pid, if the status can be stored. -/
lemma sysWait4_returns (hE : E.Ok lo hi Inv Held) (h : Ready Inv Held k tab xs)
    (hstatus : status < 2 ^ 64) (hfind : xs.find? (reapable k cur) = some p)
    (hfree : Freeable Held k tab p) {m : Mem A}
    (hcopy : status = 0 ∧ m = k.mem ∨
      status ≠ 0 ∧ (k.task p).pagetable ≠ 0 ∧
        copyout E (k.root p) status (leBytes 4 (k.task p).status) k.mem = some (0, m))
    {fuel options : Nat} (hfuel : xs.length < fuel) :
    ∃ k', sysWait4 E fuel cur status options k = some (.ret (k.task p).pid k') := by
  have hp := mem_of_find?_eq_some hfind
  have hz := find?_some hfind
  simp only [reapable, Bool.and_eq_true, decide_eq_true_eq] at hz
  have hstore : (if status ≠ 0 then if (k.task p).pagetable = 0 then none
      else copyout E (k.root p) status (leBytes 4 (k.task p).status) k.mem
      else some (0, k.mem)) = some (0, m) := by
    rcases hcopy with ⟨hnull, rfl⟩ | ⟨hnull, htable, hcopy⟩
    · rw [if_neg (not_not_intro hnull)]
    · rw [if_pos hnull, if_neg htable, hcopy]
  have hwrote := reap_wrote h hp hz.2 hstatus (Int.le_refl 0) (m := m) (E := E)
    (hcopy.imp (fun hn => ⟨hn.1, rfl, hn.2⟩) fun hn => ⟨hn.1, hn.2.2⟩)
  obtain ⟨hm, _⟩ := hwrote
  have hroot := h.table p hp
  have hclean := (h.zombie p hp hz.2).1
  have hrootSet : ({ k with mem := m }.setTask p { k.task p with waited := true }).root p =
      k.root p := by
    rw [Kernel.root, setTask_task, if_pos rfl]
    rfl
  have hfreeable : Freeable Held ({ k with mem := m }.setTask p { k.task p with waited := true }) tab
      p := by
    refine ⟨hfree.init, ?_, ?_, hfree.table, ?_⟩
    · rw [setTask_task, if_pos rfl]
      exact hfree.next
    · rw [hm]
      exact hfree.held
    · rw [setTask_task, if_pos rfl]
      exact hfree.areas
  have hs : Shaped Inv Held m tab := by
    rw [hm]
    exact (kept_bytes (R := fun _ => False) h.shaped m.byte).1
  obtain ⟨k', hk'⟩ := freeproc_returns hE
    (k := { k with mem := m }.setTask p { k.task p with waited := true }) hs
    (by rw [hrootSet]; exact clean_of_pte (by show m.pte = _; rw [hm]) hclean)
    (by rw [hrootSet]; exact hroot) hfreeable
  refine ⟨k', ?_⟩
  have hpid : (({ k with mem := m }.setTask p { k.task p with waited := true }).task p).pid =
      (k.task p).pid := by
    rw [setTask_task, if_pos rfl]
  rw [sysWait4, scan_find h.chain hfuel hfind, reap, hstore, bind_eq_bind,
    bind_some]
  simp only [Int.lt_irrefl, if_false, hk', bind_eq_bind, bind_some, hpid]

/-- The table that `fork` makes for a child. -/
lemma sysFork_table (hE : E.Ok lo hi Inv Held) {trampoline : Nat} {parent child : Process}
    {s s' : Sys A} (hs : Shaped Inv Held s.mem tab) (hp : parent.Ok E tab)
    (hprot : ∀ v ∈ parent.vmaList, has v.prot pteCow = false)
    (h : sysFork E trampoline parent s = some (child, s')) :
    ∃ tab', Shaped Inv Held s'.mem tab' ∧ (∀ {t pl}, tab t = some pl → tab' t = some pl) ∧
      tab child.pagetable = none ∧ tab' child.pagetable = some (rootPlace child.pagetable) ∧
      Clean child.pagetable s'.mem tab' ∧ NoCow child.pagetable s'.mem ∧
      ∀ {q n}, Held s.mem.alloc q n → Held s'.mem.alloc q n := by
  obtain ⟨_, _, _, _, _, _, hnone, tab', hs', hkept, hroot, hclean, hcow, _⟩ :=
    sysFork_spec hE hs hp.kernel hprot hp.trapframe hp.cwd h
  exact ⟨tab', hs', hkept.le, hnone, hroot, hclean, hcow, hkept.held⟩

end

/-! ## A parent and its child -/

/-- The list with the child before its parent. -/
def familyTasks (parent child : Nat) (pstate cstate : ProcState) (status : Nat) : Nat → Task := fun a =>
  if a = child then ⟨2, cstate, 2, false, 0, status, false, parent, parent, 0, []⟩
  else if a = parent then ⟨1, pstate, 1, false, 0, 0, false, 0, 0, child, []⟩
  else ⟨0, .init, 0, false, 0, 0, false, 0, 0, 0, []⟩

/-- The two processes with the tables `ptable` and `ctable`. -/
def family (m : Mem A) (parent child ptable ctable : Nat) (pstate cstate : ProcState) (status : Nat) :
    Kernel A :=
  ⟨m, familyTasks parent child pstate cstate status, fun u => ⟨if u = 2 then ctable else ptable, 1⟩,
    child, parent, 3⟩

/-- What the scheduler does with the record of the process that it picks. -/
def schedule (p : Nat) (k : Kernel A) : Kernel A := k.setTask p { k.task p with state := .running }

/-- A running parent and a zombie with the status 7, both with an empty table. -/
def bootFamily : Option (Env Buddy.Pool × Kernel Buddy.Pool × Nat × Nat) := do
  let (E, m) ← bootCleared 0x80340000
  let (ptable, m) ← allocPagetable E m
  let (ctable, m) ← allocPagetable E m
  let (parent, m) ← kalloc E sizeofProc m
  let (child, m) ← kalloc E sizeofProc m
  some (E, family m parent child ptable ctable .running .zombie 7, parent, child)

/-- A parent with one page of memory, and a running child that `fork` has made. -/
def forkFamily : Option (Env Buddy.Pool × Kernel Buddy.Pool × Nat × Nat) := do
  let (E, s, p) ← bootProcessPage
  let (parent, m) ← kalloc E sizeofProc s.mem
  let (c, s) ← sysFork E 0x80200000 p { s with mem := m }
  let (child, m) ← kalloc E sizeofProc s.mem
  some (E, family m parent child p.pagetable c.pagetable .runnable .running 0, parent, child)

section

variable {E : Env A} {m : Mem A} {parent child ptable ctable status : Nat} {pstate cstate : ProcState}

lemma family_child : (family m parent child ptable ctable pstate cstate status).task child =
    ⟨2, cstate, 2, false, 0, status, false, parent, parent, 0, []⟩ := if_pos rfl

lemma family_parent (hne : parent ≠ child) :
    (family m parent child ptable ctable pstate cstate status).task parent =
      ⟨1, pstate, 1, false, 0, 0, false, 0, 0, child, []⟩ :=
  (if_neg hne).trans (if_pos rfl)

lemma family_root_child :
    (family m parent child ptable ctable pstate cstate status).root child = ctable := by
  rw [Kernel.root, family_child]
  rfl

lemma family_root_parent (hne : parent ≠ child) :
    (family m parent child ptable ctable pstate cstate status).root parent = ptable := by
  rw [Kernel.root, family_parent hne]
  rfl

/-- The child exits, and then its parent runs. -/
lemma family_exit (hp : parent ≠ 0) (hc : child ≠ 0) (hne : parent ≠ child) :
    ∃ k, doExit 8 child 7 (family m parent child ptable ctable .runnable .running 0) = some k ∧
      schedule parent k = family m parent child ptable ctable .running .zombie 7 := by
  refine ⟨family m parent child ptable ctable .runnable .zombie 7, ?_, ?_⟩
  · -- neither of the two is a child of the child, and the parent does not sleep
    simp only [doExit, reparentLoop, wakeup, eachProc, wakeTask, family, familyTasks, hp, hc, hne,
      hc.symm, if_true, if_false, bind_eq_bind, bind_some, reduceCtorEq, false_and,
      and_false, Kernel.setTask, some.injEq, Kernel.mk.injEq, true_and, and_true]
    funext a
    simp only [update_apply, familyTasks]
    split_ifs <;> rfl
  · simp only [schedule, family, familyTasks, Kernel.setTask, hne, if_true, if_false, Kernel.mk.injEq,
      true_and, and_true]
    funext a
    simp only [update_apply, familyTasks]
    split_ifs <;> simp_all

/-- A family with its tables is ready. -/
lemma family_ready {Inv : A → Prop} {Held : A → Nat → Nat → Prop} {tab : Nat → Option Place}
    (hp : parent ≠ 0) (hc : child ≠ 0) (hne : parent ≠ child) (hs : Shaped Inv Held m tab)
    (hptable : tab ptable = some (rootPlace ptable)) (hctable : tab ctable = some (rootPlace ctable))
    (htables : ptable ≠ ctable) (hclean : Clean ctable m tab) (hcow : NoCow ctable m) :
    Ready Inv Held (family m parent child ptable ctable .running .zombie status) tab
      [child, parent] := by
  have hchain : Chain (family m parent child ptable ctable .running .zombie status)
      [child, parent] := by
    simp only [Chain, NullList, family_child, family_parent hne, ne_eq, hc, hp, not_false_eq_true,
      and_self, and_true]
    rfl
  refine ⟨hchain, ?_, ?_, hs, ?_, ?_, ?_⟩
  all_goals simp only [mem_cons, not_mem_nil, or_false, forall_eq_or_imp, forall_eq]
  · simp [family_child, family_parent hne]
  · rw [family_child, family_parent hne]
    exact ⟨Nat.lt_succ_self 2, Nat.lt_succ_of_lt (Nat.lt_succ_self 1)⟩
  · rw [family_root_child, family_root_parent hne]
    exact ⟨hctable, hptable⟩
  · rw [family_root_child, family_root_parent hne]
    exact ⟨⟨fun _ => trivial, fun heq => absurd heq.symm htables⟩, fun heq => absurd heq htables,
      fun _ => trivial⟩
  · rw [family_root_child, family_parent hne]
    exact ⟨fun _ => ⟨hclean, hcow⟩, fun hz => by cases hz⟩

/-- The child of a ready family is reaped, if its status can be stored. -/
lemma family_wait4 {Inv : A → Prop} {Held : A → Nat → Nat → Prop} {lo hi : Nat}
    {tab : Nat → Option Place} (hE : E.Ok lo hi Inv Held) (hp : parent ≠ 0) (hne : parent ≠ child)
    (hready : Ready Inv Held (family m parent child ptable ctable .running .zombie 7) tab [child, parent])
    {m0 : Mem A} (hs : Shaped Inv Held m0 tab) (hfresh : Fresh Held child m0 m) {addr : Nat}
    (haddr : addr < 2 ^ 64) {m' : Mem A}
    (hcopy : addr = 0 ∧ m' = m ∨ addr ≠ 0 ∧ copyout E ctable addr (leBytes 4 7) m = some (0, m')) :
    ∃ k', sysWait4 E 8 parent addr 0 (family m parent child ptable ctable .running .zombie 7) =
      some (.ret 2 k') := by
  have htable : tab child = none := by
    cases htab : tab child with
    | none => rfl
    | some pl => exact absurd rfl (hfresh.ne (hs.held htab))
  have hfree : Freeable Held (family m parent child ptable ctable .running .zombie 7) tab child := by
    refine ⟨hne.symm, fun _ => ?_, hfresh.held, htable, ?_⟩
    · rw [family_child]
      exact hp
    · rw [family_child]
      exact nofun
  have hfind : [child, parent].find?
      (reapable (family m parent child ptable ctable .running .zombie 7) parent) = some child := by
    refine find?_cons_of_pos ?_
    simp only [reapable, family_child, decide_true, Bool.not_false, Bool.and_self]
  have hlen : [child, parent].length < 8 := Nat.le_of_ble_eq_true rfl
  have hret : ∃ k', sysWait4 E 8 parent addr 0 (family m parent child ptable ctable .running .zombie 7) =
      some (.ret ((family m parent child ptable ctable .running .zombie 7).task child).pid k') := by
    refine sysWait4_returns hE hready haddr hfind hfree (m := m') ?_ hlen
    rw [family_child, family_root_child]
    exact hcopy.imp_right fun hn => ⟨hn.1, Nat.succ_ne_zero 1, hn.2⟩
  rw [family_child] at hret
  exact hret

end

/-- Without an address for the status the parent gets the pid of its child. -/
theorem wait4_delivers_null :
    ∃ E k parent child k', bootFamily = some (E, k, parent, child) ∧
      sysWait4 E 8 parent 0 0 k = some (.ret 2 k') ∧
      Delivered E parent 0 2 [child, parent] k k' := by
  have hrun : (bootFamily.map fun x =>
      (decide (x.2.2.1 = 0), decide (x.2.2.2 = 0), decide (x.2.2.1 = x.2.2.2))) =
      some (false, false, false) := by
    decide +kernel
  obtain ⟨⟨E, k, parent, child⟩, hboot, hres⟩ := map_eq_some_iff.mp hrun
  simp only [Prod.mk.injEq, decide_eq_false_iff_not] at hres
  obtain ⟨hp, hc, hne⟩ := hres
  have hboot' := hboot
  simp only [bootFamily, bind_eq_bind, bind_eq_some_iff, Prod.exists, some.injEq,
    Prod.mk.injEq] at hboot'
  obtain ⟨E0, m0, hinit, ptable, m1, hk1, ctable, m2, hk2, pp, m3, hk3, cp, m4, hk4, rfl, rfl, rfl, rfl⟩ :=
    hboot'
  obtain ⟨hE, hs0⟩ := bootCleared_ok hinit (by decide) (by decide)
  let R : Nat → Prop := fun _ => False
  obtain ⟨tab1, hs1, _, hroot1, _, _⟩ := allocPagetable_kept hE (R := R) hs0 hk1
  obtain ⟨tab2, hs2, hnone, hroot2, hkept2, hzero⟩ := allocPagetable_kept hE (R := R) hs1 hk2
  have hclean := allocPagetable_clean hk2 hs2.tables hroot2
  obtain ⟨hs3, _, hpte3⟩ := kalloc_kept hE (R := R) hs2 (by decide) (by decide) hk3
  obtain ⟨hs4, _, hpte4⟩ := kalloc_kept hE (R := R) hs3 (by decide) (by decide) hk4
  have hfresh := kalloc_fresh hE hs3 (by decide) (by decide) hk4
  have hpte : m4.pte = m2.pte := hpte4.trans hpte3
  have htables : ptable ≠ ctable := by
    rintro rfl
    rw [hroot1] at hnone
    cases hnone
  have hcow : NoCow ctable m4 := by
    intro vpn
    rw [leaf_of_pte hpte, hzero]
    rfl
  have hready : Ready _ _ (family m4 pp cp ptable ctable .running .zombie 7) tab2 [cp, pp] :=
    family_ready hp hc hne hs4 (hkept2.le hroot1) hroot2 htables (clean_of_pte hpte hclean) hcow
  have hnull : (0 : Nat) < 2 ^ 64 := by decide
  obtain ⟨k', hret⟩ := family_wait4 hE hp hne hready hs3 hfresh hnull (.inl ⟨rfl, rfl⟩)
  have hiff := wait4_delivers_iff hE hready (mem_cons_of_mem _ mem_cons_self)
    (by rw [family_parent hne]) (by decide) hret
  exact ⟨E0, _, pp, cp, k', hboot, hret, (hiff.1 (by decide)).mpr fun _ _ hnull => absurd rfl hnull⟩

/-- The kernel in which a process has forked. -/
lemma forkFamily_ready {E : Env Buddy.Pool} {k : Kernel Buddy.Pool} {parent child : Nat}
    (h : forkFamily = some (E, k, parent, child)) (hp : parent ≠ 0) (hc : child ≠ 0)
    (hne : parent ≠ child) :
    ∃ m ptable ctable lo hi Inv tab m0, k = family m parent child ptable ctable .runnable .running 0 ∧
      E.Ok lo hi Inv Buddy.held ∧ Shaped Inv Buddy.held m0 tab ∧ Fresh Buddy.held child m0 m ∧
      Ready Inv Buddy.held (family m parent child ptable ctable .running .zombie 7) tab
        [child, parent] := by
  simp only [forkFamily, bootProcessPage, bootProcess, bind_eq_bind, bind_eq_some_iff,
    Prod.exists, some.injEq, Prod.mk.injEq] at h
  obtain ⟨E', s1, p, ⟨E1, s0, p0, ⟨E0, m0, hinit, kpgtbl, m1, hk1, upgtbl, m2, hk2, tf, m3, hk3, rfl, rfl,
    rfl⟩, page, m4, hk4, m5, hmap5, m6, hmap6, rfl, rfl, rfl⟩, pp, m7, hk7, c, s8, hfork, cp, m9, hk9, rfl,
    rfl, rfl, rfl⟩ := h
  obtain ⟨hE0, hs0⟩ := bootCleared_ok hinit (by decide) (by decide)
  obtain ⟨tab1, hs1, _, hroot1, _⟩ := allocPagetable_spec hE0 hs0 hk1
  have hE : Env.Ok { E0 with kernelPagetable := kpgtbl } _ _ _ _ :=
    ⟨hE0.lawful, hE0.lo_pos, hE0.hi_le, hE0.pages_le, hE0.pages_dvd⟩
  let R : Nat → Prop := fun r => r = upgtbl
  obtain ⟨tab2, hs2, hnone, hroot2, hkept2, _⟩ := allocPagetable_kept hE (R := R) hs1 hk2
  obtain ⟨hs3, _, _⟩ := kalloc_kept hE (R := R) hs2 (by decide) (by decide) hk3
  have hfreshTf := kalloc_fresh hE hs2 (by decide) (by decide) hk3
  obtain ⟨hs4, _, _⟩ := kalloc_kept hE (R := R) hs3 (by decide) (by decide) hk4
  have hbytes := kept_bytes (R := R) hs4 (writeBytes page [42] m4).byte
  obtain ⟨tab5, hs5, hkept5, _⟩ := mappages_kept hE (R := R) hbytes.1 hroot2 rfl hmap5
  obtain ⟨tab6, hs6, hkept6, _⟩ := mappages_kept hE (R := R) hs5 (hkept5.le hroot2) rfl hmap6
  obtain ⟨hs7, _, _⟩ := kalloc_kept hE (R := R) hs6 (by decide) (by decide) hk7
  have hparent := hkept6.le (hkept5.le hroot2)
  have hkernel := hkept6.le (hkept5.le (hkept2.le hroot1))
  have hown : upgtbl ≠ kpgtbl := by
    rintro rfl
    rw [hroot1] at hnone
    cases hnone
  have hcwd : ['/'].length < 1024 := by decide
  have hcow : has (pteU ||| pteRw ||| pteX) pteCow = false := by decide
  obtain ⟨tab8, hs8, hle8, hnone8, hroot8, hclean8, hcow8, _⟩ := sysFork_table hE hs7
    ⟨hkernel, hparent, hown, hfreshTf.le, hcwd⟩ (fun v hv => by rw [mem_singleton.mp hv]; exact hcow)
    hfork
  obtain ⟨hs9, _, hpte9⟩ := kalloc_kept hE (R := R) hs8 (by decide) (by decide) hk9
  have hfresh := kalloc_fresh hE hs8 (by decide) (by decide) hk9
  have htables : upgtbl ≠ c.pagetable := by
    intro heq
    rw [← heq, hparent] at hnone8
    cases hnone8
  exact ⟨m9, upgtbl, c.pagetable, _, _, _, tab8, s8.mem, rfl, hE, hs8, hfresh,
    family_ready hp hc hne hs9 (hle8 hparent) hroot8 htables (clean_of_pte hpte9 hclean8)
      (hcow8.of_pte hpte9)⟩

/-- The child exits with the status 7. Its parent, whose three open files have inodes, gets the pid
and reads the 0 that was there. -/
theorem wait4_status_lost :
    ∃ E k parent child k₁ k₂, forkFamily = some (E, k, parent, child) ∧
      doExit 8 child 7 k = some k₁ ∧ sysWait4 E 8 parent 0x100 0 (schedule parent k₁) = some (.ret 2 k₂) ∧
      readByte k₂.mem (k₂.root parent) 0x100 = some 0 ∧
      ¬ Delivered E parent 0x100 2 [child, parent] (schedule parent k₁) k₂ := by
  have hrun : (forkFamily.bind fun x => (copyout x.1 (x.2.1.root x.2.2.2) 0x100 (leBytes 4 7)
      x.2.1.mem).map fun y => (decide (x.2.2.1 = 0), decide (x.2.2.2 = 0), decide (x.2.2.1 = x.2.2.2),
        y.1, readByte y.2 (x.2.1.root x.2.2.1) 0x100)) =
      some (false, false, false, 0, some 0) := by
    decide +kernel
  obtain ⟨⟨E, k, parent, child⟩, hboot, hrun⟩ := bind_eq_some_iff.mp hrun
  obtain ⟨⟨res, m'⟩, hcopy, hres⟩ := map_eq_some_iff.mp hrun
  simp only [Prod.mk.injEq, decide_eq_false_iff_not] at hres
  obtain ⟨hp, hc, hne, rfl, hread⟩ := hres
  obtain ⟨m, ptable, ctable, lo, hi, Inv, tab, m0, rfl, hE, hs, hfresh, hready⟩ :=
    forkFamily_ready hboot hp hc hne
  simp only [family_root_child, family_root_parent hne] at hcopy hread
  obtain ⟨k₁, hexit, hk1⟩ : ∃ k, doExit 8 child 7
      (family m parent child ptable ctable .runnable .running 0) = some k ∧
      schedule parent k = family m parent child ptable ctable .running .zombie 7 :=
    family_exit hp hc hne
  have haddr : 0x100 < 2 ^ 64 := by decide
  obtain ⟨k₂, hret⟩ := family_wait4 hE hp hne hready hs hfresh haddr (.inr ⟨by decide, hcopy⟩)
  have hparent : parent ∈ [child, parent] := mem_cons_of_mem _ mem_cons_self
  rcases sysWait4_cases hE hready (by rw [family_parent hne]) (by decide) hret with
    ⟨hbad, _⟩ | ⟨p, _, hpmem, hpne, _, _, _, hreaped⟩
  · rcases hbad with hbad | hbad <;> cases hbad
  have hpc : p = child := by
    rcases mem_cons.mp hpmem with rfl | hpmem
    · rfl
    · exact absurd (mem_singleton.mp hpmem).symm hpne
  subst hpc
  -- the byte that the parent reads is the one that `copyout` left there
  have hafter : readByte k₂.mem (k₂.root parent) 0x100 = some 0 := by
    obtain ⟨res, m1, hcopy1, _, hsame⟩ := hreaped.wrote (by decide)
    rw [family_child, family_root_child] at hcopy1
    have hm1 : some ((0 : Int), m') = some (res, m1) := hcopy.symm.trans hcopy1
    cases hm1
    rw [hsame parent hparent hpne, family_root_parent hne, hread]
  refine ⟨E, _, parent, p, k₁, k₂, hboot, hexit, by rw [hk1]; exact hret, hafter, fun hd => ?_⟩
  rw [hk1] at hd
  obtain ⟨q, hq, hpid, _, _, _, hstat, _⟩ := hd.child
  have hqp : q = p := by
    refine hready.pids q hq p hpmem (Int.ofNat_inj.mp ?_)
    rw [family_child]
    exact hpid
  subst hqp
  have hbyte := hstat (by decide) 0 (by decide)
  rw [statusByte, family_child] at hbyte
  have hzero : wrap64 (0x100 + 0) = 0x100 := by decide
  have hseven : (leBytes 4 7).getD 0 0 = 7 := by decide
  rw [hzero, hafter, hseven] at hbyte
  cases hbyte

end Hana.Wait
