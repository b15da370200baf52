import Hana.Lib.Run
import Hana.Mm.Vm.Boot
import Hana.Mm.Vm.Teardown

/-!
# Every table page is freed once

A page table starts as an empty root and grows by `walk` and `mappages`, while the rest of
the kernel goes on with its work (`buildStep`). `freewalk` of such a table passes exactly
its table pages to `kfree`, each once, and the log of its accesses has no read of a table
behind the place where that table is freed.

The statement is about every way to free pages that does to the allocator what `kfree` does
and writes what it likes into pages that are not allocated. The list headers of the buddy
allocator are such writes: `kfreeWrites` puts them into the words of the freed pages, and a
page that stays allocated is not among the pages whose header changes.
-/

namespace Hana.Vm

open Lib Option

variable {A : Type}

/-- The table at `u` hangs below the root `r`, `l` levels above the leaf tables. -/
inductive TableBelow (m : Mem A) (r : Nat) : (l u : Nat) → Prop
  | root : TableBelow m r 2 r
  | child {l t i : Nat} (h : TableBelow m r (l + 1) t) (hi : i < 512)
      (hv : has (m.pte (t + 8 * i)) pteV = true) : TableBelow m r l (pte2pa (m.pte (t + 8 * i)))

/-- What happens while a table is built. -/
inductive BuildOp where
  | walk (va : Nat)
  | mappages (va pa sz flags : Nat)
  | other

/-- The rest of the kernel keeps the tables allocated and writes to leaf entries only. -/
structure KeepsTables (Inv : A → Prop) (Held : A → Nat → Nat → Prop) (r : Nat) (m m' : Mem A) :
    Prop where
  alloc : Inv m'.alloc
  held : ∀ {l u}, TableBelow m r l u → Held m.alloc u 1 → Held m'.alloc u 1
  pte : ∀ {l u}, TableBelow m r (l + 1) u → ∀ k < 512, m'.pte (u + 8 * k) = m.pte (u + 8 * k)

def buildStep (E : Env A) (Inv : A → Prop) (Held : A → Nat → Nat → Prop) (r : Nat) (m : Mem A) :
    BuildOp → Mem A → Prop
  | .walk va, m' => ∃ pte, walk E r va true m = some (pte, m')
  | .mappages va pa sz flags, m' => mappages E r va pa sz flags m = some m'
  | .other, m' => KeepsTables Inv Held r m m'

/-- The pages in the log are the tables of the root `r` in `m`: each is freed once, no other page is
freed, and each is read before it is freed only, with the entries that stand in `m`. -/
structure FreesTables (m : Mem A) (r : Nat) (m' : Mem A) (log : List Event) : Prop where
  kfreed : m'.kfreed = m.kfreed ++ log.filterMap Event.freed
  once : (log.filterMap Event.freed).Nodup
  tables : ∀ u, .free u ∈ log ↔ ∃ l, TableBelow m r l u
  frames : ∀ vpn, (∀ l, ¬ TableBelow m r l (pte2pa (leaf m r vpn))) →
    .free (pte2pa (leaf m r vpn)) ∉ log
  reads : ∀ t i pte, .read t i pte ∈ log →
    (∃ l, TableBelow m r l t) ∧ i < 512 ∧ pte = m.pte (t + 8 * i)
  order : log.Pairwise fun a b => ∀ t i pte, a = .free t → b ≠ .read t i pte

/-- A table that is being built: there is no other root, and entries that are not valid are zero. -/
structure Built (Inv : A → Prop) (Held : A → Nat → Nat → Prop) (r : Nat) (m : Mem A)
    (tab : Nat → Option Place) : Prop where
  shaped : Shaped Inv Held m tab
  root : tab r = some (rootPlace r)
  clean : Clean r m tab
  alone : ∀ {t pl}, tab t = some pl → pl.root = r

section

variable {Inv : A → Prop} {Held : A → Nat → Nat → Prop} {lo hi : Nat} {E : Env A}
variable {m m₀ m₁ m' : Mem A} {tab : Nat → Option Place} {r : Nat}

/-! ## Tables by their entries -/

lemma TableBelow.place (ht : Tables m tab) (hr : tab r = some (rootPlace r)) {l u : Nat}
    (h : TableBelow m r l u) : ∃ i, tab u = some ⟨r, l, i⟩ := by
  induction h with
  | root => exact ⟨0, hr⟩
  | child _ hi hv ih =>
    obtain ⟨i, hplace⟩ := ih
    exact ⟨_, ht.child hplace hi hv⟩

/-- A table is named by an entry of the table above it. -/
lemma Tables.tableBelow (ht : Tables m tab) {l i u : Nat} (hu : tab u = some ⟨r, l, i⟩) :
    TableBelow m r l u := by
  have hdown : ∀ {l i u}, (∀ {i t}, tab t = some ⟨r, l + 1, i⟩ → TableBelow m r (l + 1) t) → l < 2 →
      tab u = some ⟨r, l, i⟩ → TableBelow m r l u := by
    intro l i u habove hl hu
    obtain ⟨t, hparent⟩ := ht.parent hu hl
    have hlt : i % 512 < 512 := Nat.mod_lt _ (by decide)
    have hidx : 512 * (i / 512) + i % 512 = i := Nat.div_add_mod i 512
    cases hv : has (m.pte (t + 8 * (i % 512))) pteV with
    | false =>
      refine absurd hu ?_
      have hno := ht.nochild hparent hlt hv u
      rwa [hidx] at hno
    | true =>
      have hchild := ht.child hparent hlt hv
      rw [hidx] at hchild
      rw [ht.unique hu hchild]
      exact .child (habove hparent) hlt hv
  have htop : ∀ {i u}, tab u = some ⟨r, 2, i⟩ → TableBelow m r 2 u := by
    intro i u hu
    obtain ⟨rfl, -⟩ := ht.root hu
    exact .root
  have hmiddle : ∀ {i u}, tab u = some ⟨r, 1, i⟩ → TableBelow m r 1 u := hdown htop (by decide)
  have hlevel : l ≤ 2 := ht.level hu
  obtain rfl | rfl | rfl : l = 0 ∨ l = 1 ∨ l = 2 := by omega
  · exact hdown hmiddle (by decide) hu
  · exact hmiddle hu
  · exact htop hu

lemma Tables.tableBelow_iff (ht : Tables m tab) (hr : tab r = some (rootPlace r)) {u : Nat} :
    (∃ l, TableBelow m r l u) ↔ ∃ pl, tab u = some pl ∧ pl.root = r := by
  constructor
  · rintro ⟨l, hu⟩
    obtain ⟨i, hplace⟩ := hu.place ht hr
    exact ⟨_, hplace, rfl⟩
  · rintro ⟨⟨_, l, i⟩, hplace, rfl⟩
    exact ⟨l, ht.tableBelow hplace⟩

/-! ## Building -/

lemma Built.start (hE : E.Ok lo hi Inv Held) (hinv : Inv m.alloc)
    (halloc : allocPagetable E m = some (r, m₀)) : ∃ tab, Built Inv Held r m₀ tab := by
  have hs : Shaped Inv Held m fun _ => none := ⟨.empty, hinv, fun ht => by cases ht⟩
  obtain ⟨tab, hs0, -, hr, -, -, -, honly, -⟩ := allocPagetable_spec hE hs halloc
  refine ⟨tab, hs0, hr, allocPagetable_clean halloc hs0.tables hr, fun {t pl} ht => ?_⟩
  rcases honly (hs0.tables.root_isSome ht) with heq | hnone
  · exact heq
  · cases hnone

/-- The tables stay where they are when only leaf entries are written. -/
lemma Built.other (h : Built Inv Held r m tab) (hk : KeepsTables Inv Held r m m') :
    Built Inv Held r m' tab := by
  have ht := h.shaped.tables
  have hpte : ∀ {t r' l i k}, tab t = some ⟨r', l + 1, i⟩ → k < 512 →
      m'.pte (t + 8 * k) = m.pte (t + 8 * k) := by
    intro t r' l i k hplace hlt
    obtain rfl : r' = r := h.alone hplace
    exact hk.pte (ht.tableBelow hplace) k hlt
  refine ⟨⟨ht.congr hpte, hk.alloc, ?_⟩, h.root, ?_, h.alone⟩
  · rintro t ⟨r', l, i⟩ hplace
    obtain rfl : r' = r := h.alone hplace
    exact hk.held (ht.tableBelow hplace) (h.shaped.held hplace)
  · intro t l i k hplace hlt hv
    rw [hpte hplace hlt] at hv ⊢
    exact h.clean t l i k hplace hlt hv

lemma Built.step (hE : E.Ok lo hi Inv Held) {op : BuildOp} (h : ∃ tab, Built Inv Held r m tab)
    (hs : buildStep E Inv Held r m op m') : ∃ tab, Built Inv Held r m' tab := by
  obtain ⟨tab, h⟩ := h
  have halone : ∀ {tab' : Nat → Option Place},
      (∀ {t pl}, tab' t = some pl → pl.root ≠ r → tab t = some pl) →
      ∀ {t pl}, tab' t = some pl → pl.root = r := by
    intro tab' hother t pl ht
    by_contra hne
    exact hne (h.alone (hother ht hne))
  cases op with
  | walk va =>
    obtain ⟨pte, hw⟩ := hs
    obtain ⟨p, tab', -, hs', hg, -⟩ := walk_alloc hE h.shaped h.root hw
    exact ⟨tab', hs', hg.le h.root, hg.clean h.clean, halone hg.other⟩
  | mappages va pa sz flags =>
    obtain ⟨tab', hs', hb, -⟩ := mappages_entries hE h.shaped h.root hs
    exact ⟨tab', hs', hb.le h.root, hb.clean h.clean, halone hb.other⟩
  | other => exact ⟨tab, h.other hs⟩

/-! ## Taking the table down -/

lemma Built.frees (hE : E.Ok lo hi Inv Held) {free : Nat → Mem A → Option (Mem A)}
    (hfree : Frees E Inv Held (fun a u => Held a u 1) free) (h : Built Inv Held r m tab) :
    ∃ m' log, freewalkLog free 3 r (m, []) = some (m', log) ∧ FreesTables m r m' log := by
  obtain ⟨m', freed, log, hm', hrel, hnd, hmem, hlog⟩ := freewalkLog_spec hE hfree
    (fun _ _ hheld => hheld) h.shaped h.clean h.root []
  have htables : ∀ u, u ∈ freed ↔ ∃ l, TableBelow m r l u := by
    intro u
    rw [hmem, h.shaped.tables.tableBelow_iff h.root]
  refine ⟨m', log, hm', ?_, ?_, fun u => ?_, fun vpn hno hin => ?_, fun t i pte hin => ?_, hlog.order⟩
  · rw [hlog.frees, hrel.kfreed]
  · rw [hlog.frees]
    exact hnd
  · rw [hlog.mem_iff, htables]
  · obtain ⟨l, htable⟩ := (htables _).mp (hlog.mem_iff.mp hin)
    exact hno l htable
  · obtain ⟨hwhere, hread⟩ := hlog.reads t i pte hin
    exact ⟨(htables t).mp (hwhere.resolve_left id), hread⟩

/-- `freewalk` of a table that was built by `walk` and `mappages` returns; it frees the table pages,
each once, no other page, and reads no table that it has freed. -/
theorem freewalk_frees_tables (hE : E.Ok lo hi Inv Held) {free : Nat → Mem A → Option (Mem A)}
    (hfree : Frees E Inv Held (fun a u => Held a u 1) free) (hinv : Inv m.alloc)
    (halloc : allocPagetable E m = some (r, m₀)) {ts : List (Transition (Mem A) BuildOp)}
    (hr : Run (buildStep E Inv Held r) m₀ ts m₁) :
    ∃ m' log, freewalkLog free 3 r (m₁, []) = some (m', log) ∧ FreesTables m₁ r m' log := by
  have hstart := Built.start hE hinv halloc
  have hstep : ∀ m op m', (∃ tab, Built Inv Held r m tab) → buildStep E Inv Held r m op m' →
      ∃ tab, Built Inv Held r m' tab := fun m op m' h hs => Built.step hE h hs
  obtain ⟨tab, h⟩ := hr.invariant hstart hstep
  exact h.frees hE hfree

end

/-! ## The headers of the buddy allocator -/

/-- The word at `x` in a page that starts with a `struct block`; `order` is an `int` before the links. -/
def headerWord (st : Buddy.Kmem) (pte : Nat → Nat) (x : Nat) : Nat :=
  match x % 4096 with
  | 0 => st.magic x
  | 8 => pte x / 2 ^ 32 * 2 ^ 32 + (st.order (x - 8) % 2 ^ 32).toNat
  | 16 => st.prev (x - 16)
  | 24 => st.next (x - 24)
  | _ => pte x

/-- `kfree`, with the headers that it writes in the words of the pages. -/
def kfreeWrites (E : Env Buddy.Pool) (t : Nat) (m : Mem Buddy.Pool) : Option (Mem Buddy.Pool) := do
  let m' ← kfree E t m
  some { m' with pte := fun x =>
    if Buddy.SameHeader m.alloc.1 m'.alloc.1 (x - x % 4096) then m.pte x
    else headerWord m'.alloc.1 m.pte x }

/-- The headers go to pages that are not allocated. -/
lemma kfreeWrites_frees {L : Buddy.Layout} {start end_ : Nat}
    (hL : L.Region (pgRoundUp start) (pgRoundDown end_)) {E : Env Buddy.Pool}
    (hal : E.al = Buddy.allocator L) :
    Frees E (fun a => Buddy.Reach L start end_ a.1 a.2) Buddy.held (fun a u => Buddy.held a u 1)
      (kfreeWrites E) where
  free {t m m₁} hreach hheld hfree := by
    obtain ⟨a, ha, heq⟩ := bind_eq_some_iff.mp hfree
    cases heq
    rw [hal] at ha
    obtain ⟨st, hst, rfl⟩ := map_eq_some_iff.mp ha
    refine ⟨_, bind_eq_some_iff.mpr ⟨_, hfree, rfl⟩, rfl, rfl, ?_⟩
    rintro u ⟨c, hc, rfl, -⟩ k hk
    obtain ⟨F, hp⟩ := hreach.partition hL
    obtain ⟨b, hb, rfl, -⟩ := hheld
    have herase := Buddy.filter_addr_eq_erase hp.live_pairwise hb
    simp only [herase] at hc
    have hdvd := hp.live_dvd c (List.mem_of_mem_erase hc)
    have hpage : c.addr + 8 * k - (c.addr + 8 * k) % 4096 = c.addr := by omega
    have hsame : Buddy.SameHeader m.alloc.1 st c.addr := by
      refine Buddy.kfree_sameHeader hL hp hb hst hc ?_
      have hpos := Buddy.blockSize_pos c.order
      simp only [Span.Has, Span.stop, Buddy.Block.span]
      omega
    simp only [hpage, if_pos hsame]
  safe hle hu := hle _ _ hu

lemma kmemInit_frees {zone kernelPagetable vaStart vaEnd : Nat} {st : Buddy.Kmem}
    {pte byte cnt : Nat → Nat} {E : Env Buddy.Pool}
    {m : Mem Buddy.Pool} (hend : vaEnd ≤ physTop)
    (hzone : zone + 40 * Buddy.maxOrder ≤ bootLo vaStart vaEnd ∨ pgRoundDown vaEnd ≤ zone)
    (h : kmemInit zone kernelPagetable vaStart vaEnd st pte byte cnt = some (E, m)) :
    Frees E (bootInv zone vaStart vaEnd) Buddy.held (fun a u => Buddy.held a u 1) (kfreeWrites E) := by
  obtain ⟨st', -, heq⟩ := bind_eq_some_iff.mp h
  cases heq
  exact kfreeWrites_frees (boot_region hend hzone) rfl

-- the first word of a freed page is the mark of the allocator
example : (bootSmall.bind fun x => (allocPagetable x.1 x.2).bind fun y =>
    (kfreeWrites x.1 y.1 y.2).map fun m => m.pte y.1) = some Buddy.buddyMagic := by decide +kernel

/-- A page table with one mapped page, built and taken down on a small kernel. -/
theorem freewalk_frees_tables_small :
    ∃ E m r m₀ m₁ m' log, bootSmall = some (E, m) ∧ allocPagetable E m = some (r, m₀) ∧
      mappages E r 0x1000 0x80305000 4096 (pteR ||| pteU) m₀ = some m₁ ∧
      freewalkLog (kfreeWrites E) 3 r (m₁, []) = some (m', log) ∧ FreesTables m₁ r m' log := by
  have hrun : (bootSmall.bind fun x => (allocPagetable x.1 x.2).bind fun y =>
      mappages x.1 y.1 0x1000 0x80305000 4096 (pteR ||| pteU) y.2).isSome = true := by decide +kernel
  obtain ⟨m₁, hrun⟩ := isSome_iff_exists.mp hrun
  obtain ⟨⟨E, m⟩, hboot, hrun⟩ := bind_eq_some_iff.mp hrun
  obtain ⟨⟨r, m₀⟩, halloc, hmap⟩ := bind_eq_some_iff.mp hrun
  obtain ⟨hE, hs⟩ := bootSmall_ok hboot
  have hfree : Frees E (bootInv 0x80250000 0x80300000 0x80310000) Buddy.held
      (fun a u => Buddy.held a u 1) (kfreeWrites E) :=
    kmemInit_frees (by decide) (.inl (by decide)) hboot
  have hstep : buildStep E (bootInv 0x80250000 0x80300000 0x80310000) Buddy.held r m₀
      (.mappages 0x1000 0x80305000 4096 (pteR ||| pteU)) m₁ := hmap
  obtain ⟨m', log, hwalk, hfrees⟩ := freewalk_frees_tables hE hfree hs.alloc halloc (Run.nil.snoc hstep)
  exact ⟨E, m, r, m₀, m₁, m', log, hboot, halloc, hmap, hwalk, hfrees⟩

end Hana.Vm
