import Hana.Mm.Vm.MapRange
import Hana.Proc.Exec.Model

/-!
# What execve keeps

While a new table is built, the kernel allocates blocks, makes tables and entries below the new
root, and frees blocks that the call allocated itself (`Builds`). So the old table, the kernel
stack and the pages of the caller are there until the call gives them up: `Ready` is what is
assumed about the caller, and `Running` is what holds when the image is loaded.

`Taken` bytes are those that the allocator cannot hand out.
-/

namespace Hana.Exec

open Function Option Lib Vm Proc

variable {A : Type}

/-- The byte lies in an allocated block, or it is not memory of the allocator. -/
def Taken (Held : A → Nat → Nat → Prop) (lo hi : Nat) (a : A) (x : Nat) : Prop :=
  Owned Held a x ∨ x < lo ∨ hi ≤ x

/-- The byte is in the block of `n` pages at `p`. -/
def InBlock (p n x : Nat) : Prop := p ≤ x ∧ x < p + 4096 * n

/-- `m'` comes from `m` by new blocks, and by new tables and entries below the root `r`. -/
structure Builds (Held : A → Nat → Nat → Prop) (r : Nat) (m : Mem A) (tab : Nat → Option Place)
    (m' : Mem A) (tab' : Nat → Option Place) : Prop where
  le : ∀ {t pl}, tab t = some pl → tab' t = some pl
  new : ∀ {t pl}, tab' t = some pl → tab t = some pl ∨ ¬ Owned Held m.alloc t
  other : ∀ {t pl}, tab' t = some pl → pl.root ≠ r → tab t = some pl
  held : ∀ {q k}, Held m.alloc q k → Held m'.alloc q k
  words : ∀ {t pl k}, tab t = some pl → pl.root ≠ r → k < 512 →
    m'.pte (t + 8 * k) = m.pte (t + 8 * k)
  leaf : ∀ {q}, tab q = some (rootPlace q) → q ≠ r → ∀ vpn, leaf m' q vpn = leaf m q vpn

/-- A page that the call has allocated for an object of its own. -/
structure Mine (Held : A → Nat → Nat → Prop) (m₀ m : Mem A) (tab : Nat → Option Place) (q : Nat) :
    Prop where
  held : Held m.alloc q 1
  notTable : tab q = none
  fresh : ¬ Owned Held m₀.alloc q

/-- The caller: `stack` is the block of the kernel stack, which has `pages` pages. The pages that a
copy from the user can reach are allocated, and they are not the kernel stack. -/
structure Ready (K : Kernel A) (Inv : A → Prop) (Held : A → Nat → Nat → Prop)
    (lo hi stack pages : Nat) (s : State A) (tab : Nat → Option Place) : Prop where
  shaped : Shaped Inv Held s.mem tab
  root : tab s.proc.pagetable = some (rootPlace s.proc.pagetable)
  clean : Clean s.proc.pagetable s.mem tab
  user : s.proc.pagetable ≠ K.env.kernelPagetable
  block : Held s.mem.alloc stack pages
  argv : stack ≤ K.locals.argv ∧ K.locals.argv + 8 * argSlots ≤ stack + 4096 * pages
  envp : stack ≤ K.locals.envp ∧ K.locals.envp + 8 * argSlots ≤ stack + 4096 * pages
  apart : K.locals.argv + 8 * argSlots ≤ K.locals.envp ∨ K.locals.envp + 8 * argSlots ≤ K.locals.argv
  frames : ∀ va, accepts s.mem s.proc.pagetable va = true → ∀ j < 4096,
    Taken Held lo hi s.mem.alloc (pte2pa (leaf s.mem s.proc.pagetable (va >>> 12)) + j) ∧
      ¬ InBlock stack pages (pte2pa (leaf s.mem s.proc.pagetable (va >>> 12)) + j)

variable {p va nr n users : Nat}

section

variable {Inv : A → Prop} {Held : A → Nat → Nat → Prop} {lo hi stack pages : Nat} {E : Env A}
variable {K : Kernel A} {m m₀ m1 m' : Mem A} {tab tab₀ tab1 tab' : Nat → Option Place} {r : Nat}

lemma Taken.mono {a a' : A} {x : Nat} (hheld : ∀ {q k}, Held a q k → Held a' q k)
    (h : Taken Held lo hi a x) : Taken Held lo hi a' x := by
  rcases h with ⟨q, k, hq, hx⟩ | h
  · exact .inl ⟨q, k, hheld hq, hx⟩
  · exact .inr h

variable {sz q : Nat}

/-- What an allocation returns does not overlap with bytes that were taken. -/
lemma kalloc_not_taken (hE : E.Ok lo hi Inv Held) (hinv : Inv m.alloc) (hpos : 0 < sz)
    (hsz : sz ≤ 4 * 2 ^ 20) (hk : kalloc E sz m = some (p, m')) :
    m' = { m with alloc := m'.alloc } ∧ Inv m'.alloc ∧ ∃ n, sz ≤ 4096 * n ∧ (sz ≤ 4096 → n = 1) ∧
      (∀ q k, Held m'.alloc q k ↔ (q = p ∧ k = n) ∨ Held m.alloc q k) ∧
      (∀ x, InBlock p n x → ¬ Taken Held lo hi m.alloc x) ∧ ¬ Owned Held m.alloc p ∧
      4096 ∣ p ∧ lo ≤ p ∧ p + 4096 * n ≤ hi := by
  obtain ⟨⟨p', a⟩, halloc, heq⟩ := bind_eq_some_iff.mp hk
  cases heq
  obtain ⟨hinv', n, hle, hone, hapart, hheld⟩ := hE.lawful.kalloc_spec hinv hpos hsz halloc
  obtain ⟨hdvd, hn, hlo, hhi⟩ := hE.lawful.range hinv' ((hheld p n).mpr (.inl ⟨rfl, rfl⟩))
  have hfree : ∀ x, InBlock p n x → ¬ Taken Held lo hi m.alloc x := by
    rintro x ⟨hpx, hxp⟩ (⟨q, k, hq, hqx, hxq⟩ | hout)
    · have := hapart q k hq
      omega
    · omega
  exact ⟨rfl, hinv', n, hle, hone, hheld, hfree,
    fun howned => hfree p ⟨le_rfl, by omega⟩ (.inl howned), hdvd, hlo, hhi⟩

lemma accepts_of_pte (hpte : m'.pte = m.pte) (o va : Nat) : accepts m' o va = accepts m o va := by
  simp only [accepts, leaf_of_pte hpte]

/-! ## Building -/

lemma Builds.trans (h : Builds Held r m tab m1 tab1) (h' : Builds Held r m1 tab1 m' tab') :
    Builds Held r m tab m' tab' := by
  refine ⟨fun ht => h'.le (h.le ht), ?_, fun ht hne => h.other (h'.other ht hne) hne,
    fun hq => h'.held (h.held hq), ?_, ?_⟩
  · intro t pl ht
    rcases h'.new ht with ht | hfree
    · exact h.new ht
    · exact .inr fun howned => hfree (howned.mono h.held)
  · intro t pl k ht hne hk
    rw [h'.words (h.le ht) hne hk, h.words ht hne hk]
  · intro q hq hne vpn
    rw [h'.leaf (h.le hq) hne, h.leaf hq hne]

lemma Builds.clean (h : Builds Held r m tab m' tab') (hne : q ≠ r) (hc : Clean q m tab) :
    Clean q m' tab' := by
  intro t l i k ht hk hv
  have ht0 := h.other ht hne
  have hword := h.words ht0 hne hk
  rw [hword] at hv ⊢
  exact hc t l i k ht0 hk hv

/-- Tables and blocks depend on the words of the tables and on the allocator. -/
lemma shaped_of_same (hs : Shaped Inv Held m tab) (halloc : m'.alloc = m.alloc)
    (hpte : m'.pte = m.pte) : Shaped Inv Held m' tab := by
  refine ⟨hs.tables.congr fun _ _ => by rw [hpte], ?_, ?_⟩
  · rw [halloc]
    exact hs.alloc
  · rw [halloc]
    exact hs.held

lemma builds_of_same (halloc : m'.alloc = m.alloc) (hpte : m'.pte = m.pte) :
    Builds Held r m tab m' tab := by
  refine ⟨fun h => h, fun h => .inl h, fun h _ => h, ?_, ?_, ?_⟩
  · rw [halloc]
    exact fun h => h
  · rw [hpte]
    exact fun _ _ _ => rfl
  · exact fun _ _ vpn => leaf_of_pte hpte _ vpn

lemma kalloc_builds (hE : E.Ok lo hi Inv Held) (hs : Shaped Inv Held m tab)
    (hpos : 0 < sz) (hsz : sz ≤ 4 * 2 ^ 20) (hk : kalloc E sz m = some (p, m')) :
    Shaped Inv Held m' tab ∧ Builds Held r m tab m' tab := by
  obtain ⟨hs', _⟩ := kalloc_shaped hE hs hpos hsz hk
  obtain ⟨hm', _, n, _, _, hheld, _⟩ := kalloc_not_taken hE hs.alloc hpos hsz hk
  refine ⟨hs', fun h => h, fun h => .inl h, fun h _ => h, fun hq => (hheld _ _).mpr (.inr hq),
    ?_, ?_⟩
  · rw [hm']
    exact fun _ _ _ => rfl
  · rw [hm']
    exact fun _ _ _ => rfl

lemma mappages_builds (hE : E.Ok lo hi Inv Held) (hs : Shaped Inv Held m tab)
    (hr : tab r = some (rootPlace r)) {pa flags : Nat}
    (hm : mappages E r va pa sz flags m = some m') :
    ∃ tab', Shaped Inv Held m' tab' ∧ Builds Held r m tab m' tab' := by
  obtain ⟨tab', hs', ht⟩ := mappages_tablesOnly hE hs hr hm
  exact ⟨tab', hs', ht.le, ht.new, ht.other, ht.held, mappages_words hE hs hr hm, ht.leaf⟩

lemma allocPagetable_builds (hE : E.Ok lo hi Inv Held) (hs : Shaped Inv Held m tab)
    (hk : allocPagetable E m = some (r, m')) :
    ∃ tab', Shaped Inv Held m' tab' ∧ Builds Held r m tab m' tab' ∧
      tab' r = some (rootPlace r) ∧ ¬ Owned Held m.alloc r := by
  obtain ⟨hnew, hs', hwords, hleaf, _, hnotowned, hheld⟩ := allocPagetable_update hE hs hk
  refine ⟨_, hs', ⟨fun ht => new_keeps hnew ht, ?_, ?_, fun hq => (hheld _ _).mpr (.inr hq),
    fun ht _ hk => hwords ht hk, fun hq _ => hleaf hq⟩, update_self _ _ _, hnotowned⟩
  · intro t pl ht
    rcases new_cases ht with ⟨rfl, _⟩ | ht
    · exact .inr hnotowned
    · exact .inl ht
  · intro t pl ht hroot
    rcases new_cases ht with ⟨_, rfl⟩ | ht
    · exact absurd rfl hroot
    · exact ht

/-- Freeing a page of one's own takes nothing from the caller. -/
lemma Builds.kfree (hE : E.Ok lo hi Inv Held) (hs : Shaped Inv Held m tab)
    (h : Builds Held r m₀ tab₀ m tab) (hq : Mine Held m₀ m tab q) (hk : kfree E q m = some m') :
    Shaped Inv Held m' tab ∧ Builds Held r m₀ tab₀ m' tab ∧
      (∀ p, p ≠ q → Mine Held m₀ m tab p → Mine Held m₀ m' tab p) ∧ m'.pte = m.pte ∧
      m'.byte = m.byte ∧ ∀ p k, Held m'.alloc p k ↔ Held m.alloc p k ∧ ¬ (p = q ∧ k = 1) := by
  obtain ⟨a, hfree, heq⟩ := bind_eq_some_iff.mp hk
  cases heq
  obtain ⟨a', hfree', hinv, hheld⟩ := hE.lawful.kfree_spec hs.alloc hq.held
  rw [hfree] at hfree'
  cases hfree'
  have hs' : Shaped Inv Held { m with alloc := a, kfreed := m.kfreed ++ [q] } tab := by
    refine ⟨{ hs.tables with }, hinv, fun ht => (hheld _ _).mpr ⟨hs.held ht, ?_⟩⟩
    rintro ⟨rfl, _⟩
    rw [hq.notTable] at ht
    cases ht
  refine ⟨hs', ⟨h.le, h.new, h.other, fun hp => (hheld _ _).mpr ⟨h.held hp, ?_⟩, h.words, h.leaf⟩,
    fun p hne hp => ⟨(hheld _ _).mpr ⟨hp.held, fun heq => hne heq.1⟩, hp.notTable, hp.fresh⟩, rfl,
    rfl, hheld⟩
  rintro ⟨rfl, rfl⟩
  exact hq.fresh ⟨_, 1, hp, le_rfl, by omega⟩

lemma Mine.builds (hq : Mine Held m₀ m tab q) (h : Builds Held r m tab m' tab') :
    Mine Held m₀ m' tab' q := by
  refine ⟨h.held hq.held, ?_, hq.fresh⟩
  cases hpl : tab' q with
  | none => rfl
  | some pl =>
    rcases h.new hpl with hold | hfree
    · rw [hq.notTable] at hold
      cases hold
    · exact absurd ⟨q, 1, hq.held, le_rfl, by omega⟩ hfree

lemma kalloc_mine (hE : E.Ok lo hi Inv Held) (hs : Shaped Inv Held m tab)
    (h : Builds Held r m₀ tab₀ m tab) (hpos : 0 < sz) (hsz : sz ≤ 4096)
    (hk : kalloc E sz m = some (q, m')) :
    Shaped Inv Held m' tab ∧ Builds Held r m₀ tab₀ m' tab ∧ Mine Held m₀ m' tab q ∧
      ∀ p, Mine Held m₀ m tab p → p ≠ q ∧ Mine Held m₀ m' tab p := by
  obtain ⟨hs', hb⟩ := kalloc_builds (r := r) hE hs hpos (by omega) hk
  obtain ⟨_, _, n, _, hone, hheld, _, hfree, _⟩ :=
    kalloc_not_taken hE hs.alloc hpos (by omega) hk
  obtain rfl := hone hsz
  refine ⟨hs', h.trans hb, ⟨(hheld _ _).mpr (.inl ⟨rfl, rfl⟩), ?_,
    fun howned => hfree (howned.mono h.held)⟩, ?_⟩
  · cases hpl : tab q with
    | none => rfl
    | some pl => exact absurd ⟨q, 1, hs.held hpl, le_rfl, by omega⟩ hfree
  · intro p hp
    refine ⟨?_, hp.builds hb⟩
    rintro rfl
    exact hfree ⟨p, 1, hp.held, le_rfl, by omega⟩

end

/-! ## The parts of the call -/

/-- The variables differ in the contents of memory and in what is read from the file only. -/
structure Vars.Like (v v' : Vars A) : Prop where
  mem : SameTables v.mem v'.mem
  pgtbl : v'.pgtbl = v.pgtbl
  caller : v'.proc = { v.proc with vmaList := v'.proc.vmaList }
  addr : v'.file.addr = v.file.addr
  inode : v'.file.inode = v.file.inode

/-- The new table is being built since the call began in `s₀`. -/
structure Loaded (Inv : A → Prop) (Held : A → Nat → Nat → Prop) (s₀ : State A)
    (tab₀ : Nat → Option Place) (v : Vars A) (tab : Nat → Option Place) : Prop where
  shaped : Shaped Inv Held v.mem tab
  builds : Builds Held v.pgtbl s₀.mem tab₀ v.mem tab
  root : tab v.pgtbl = some (rootPlace v.pgtbl)
  fresh : ¬ Owned Held s₀.mem.alloc v.pgtbl
  caller : v.proc = { s₀.proc with vmaList := v.proc.vmaList }

/-- The same, with a file that is open. -/
structure Loading (Inv : A → Prop) (Held : A → Nat → Nat → Prop) (s₀ : State A)
    (tab₀ : Nat → Option Place) (v : Vars A) (tab : Nat → Option Place) : Prop
    extends Loaded Inv Held s₀ tab₀ v tab where
  file : Mine Held s₀.mem v.mem tab v.file.addr
  inode : Mine Held s₀.mem v.mem tab v.file.inode
  apart : v.file.inode ≠ v.file.addr

/-- What the caller still has when the stack is built, beside the new table. -/
structure Running (K : Kernel A) (Inv : A → Prop) (Held : A → Nat → Nat → Prop)
    (lo hi stack pages : Nat) (v : Vars A) (tab : Nat → Option Place) : Prop
    extends Ready K Inv Held lo hi stack pages v.toState tab where
  new : tab v.pgtbl = some (rootPlace v.pgtbl)
  ne : v.proc.pagetable ≠ v.pgtbl

section

variable {Inv : A → Prop} {Held : A → Nat → Nat → Prop} {lo hi stack pages : Nat}
variable {K : Kernel A} {m m' : Mem A} {tab tab₀ tab' : Nat → Option Place}
variable {s₀ s s' : State A} {v v1 v' : Vars A}

lemma kernelRead_same (fs : Fs) (buf size : Nat) (f : File) (m : Mem A) :
    SameTables m (kernelRead fs buf size f m).2.2 ∧
      (kernelRead fs buf size f m).2.1.addr = f.addr ∧
      (kernelRead fs buf size f m).2.1.inode = f.inode := by
  unfold kernelRead
  split_ifs <;> exact ⟨⟨rfl, rfl⟩, rfl, rfl⟩

lemma kernelLseek_same (offset : Int) (f : File) :
    (kernelLseek offset f).addr = f.addr ∧ (kernelLseek offset f).inode = f.inode := by
  unfold kernelLseek
  dsimp only
  split_ifs <;> exact ⟨rfl, rfl⟩

lemma Vars.Like.trans (h : v.Like v1) (h' : v1.Like v') : v.Like v' := by
  refine ⟨⟨h'.mem.1.trans h.mem.1, h'.mem.2.trans h.mem.2⟩, h'.pgtbl.trans h.pgtbl, ?_,
    h'.addr.trans h.addr, h'.inode.trans h.inode⟩
  rw [h'.caller, h.caller]

lemma readPhdr_like (K : Kernel A) (size : Nat) (off : Int) (v : Vars A) :
    v.Like (readPhdr K size off v) := by
  obtain ⟨hmem, haddr, hinode⟩ := kernelRead_same K.fs K.locals.phdr size (kernelLseek off v.file) v.mem
  obtain ⟨haddr', hinode'⟩ := kernelLseek_same off v.file
  exact ⟨hmem, rfl, rfl, haddr.trans haddr', hinode.trans hinode'⟩

lemma readPart_like (K : Kernel A) (buf offset size : Nat) (v : Vars A) :
    v.Like (readPart K buf offset size v) := by
  obtain ⟨hmem, haddr, hinode⟩ :=
    kernelRead_same K.fs buf size (kernelLseek (toInt64 offset) v.file) v.mem
  obtain ⟨haddr', hinode'⟩ := kernelLseek_same (toInt64 offset) v.file
  exact ⟨hmem, rfl, rfl, haddr.trans haddr', hinode.trans hinode'⟩

lemma readInterp_like (K : Kernel A) (ph : Phdr) (v : Vars A) : v.Like (readInterp K ph v) := by
  have h := readPart_like K K.locals.interpPath ph.offset (wrap64 (ph.filesz + 1)) v
  exact ⟨h.mem, h.pgtbl, h.caller, h.addr, h.inode⟩

lemma linkArea_like (loadStart loadEnd perms : Nat) (v : Vars A) :
    v.Like (linkArea loadStart loadEnd perms v) :=
  ⟨⟨rfl, rfl⟩, rfl, rfl, rfl, rfl⟩

lemma Loaded.like (h : Loaded Inv Held s₀ tab₀ v tab) (hl : v.Like v') :
    Loaded Inv Held s₀ tab₀ v' tab := by
  have hb : Builds Held v.pgtbl v.mem tab v'.mem tab := builds_of_same hl.mem.1 hl.mem.2
  refine ⟨shaped_of_same h.shaped hl.mem.1 hl.mem.2, ?_, ?_, ?_, ?_⟩
  · rw [hl.pgtbl]
    exact h.builds.trans hb
  · rw [hl.pgtbl]
    exact h.root
  · rw [hl.pgtbl]
    exact h.fresh
  · rw [hl.caller, h.caller]

lemma Loading.like (h : Loading Inv Held s₀ tab₀ v tab) (hl : v.Like v') :
    Loading Inv Held s₀ tab₀ v' tab := by
  have hb : Builds Held v.pgtbl v.mem tab v'.mem tab := builds_of_same hl.mem.1 hl.mem.2
  refine ⟨h.toLoaded.like hl, ?_, ?_, ?_⟩
  · rw [hl.addr]
    exact h.file.builds hb
  · rw [hl.inode]
    exact h.inode.builds hb
  · rw [hl.addr, hl.inode]
    exact h.apart

/-- More blocks and entries. -/
lemma Loading.builds_mem (h : Loading Inv Held s₀ tab₀ v tab)
    (hb : Builds Held v.pgtbl v.mem tab m' tab') (hs : Shaped Inv Held m' tab') :
    Loading Inv Held s₀ tab₀ { v with mem := m' } tab' :=
  ⟨⟨hs, h.builds.trans hb, hb.le h.root, h.fresh, h.caller⟩, h.file.builds hb, h.inode.builds hb,
    h.apart⟩

/-! ### Opening -/

variable {E : Env A} {sz upath : Nat} {off : Int}

lemma kcalloc_cases (h : kcalloc E nr sz m = some (p, m')) :
    ∃ m1, kalloc E (nr * sz) m = some (p, m1) ∧ m' = zeroBytes p (nr * sz) m1 := by
  obtain ⟨⟨q, m1⟩, hk, heq⟩ := bind_eq_some_iff.mp h
  cases heq
  exact ⟨m1, hk, rfl⟩

lemma kcalloc_mine {r : Nat} {m₀ : Mem A} (hE : E.Ok lo hi Inv Held) (hs : Shaped Inv Held m tab)
    (h : Builds Held r m₀ tab₀ m tab) {q : Nat} (hpos : 0 < nr * sz) (hsz : nr * sz ≤ 4096)
    (hk : kcalloc E nr sz m = some (q, m')) :
    Shaped Inv Held m' tab ∧ Builds Held r m₀ tab₀ m' tab ∧ Mine Held m₀ m' tab q ∧
      ∀ p, Mine Held m₀ m tab p → p ≠ q ∧ Mine Held m₀ m' tab p := by
  obtain ⟨m1, hk1, rfl⟩ := kcalloc_cases hk
  obtain ⟨hs1, hb1, hmine, hothers⟩ := kalloc_mine hE hs h hpos hsz hk1
  have hz : Builds Held r m1 tab (zeroBytes q (nr * sz) m1) tab := builds_of_same rfl rfl
  exact ⟨shaped_of_same hs1 rfl rfl, hb1.trans hz, hmine.builds hz,
    fun p hp => ⟨(hothers p hp).1, (hothers p hp).2.builds hz⟩⟩

/-- A file that was opened, in pages of its own. -/
lemma kernelOpen_mine {r path : Nat} {m₀ : Mem A} {f : File} (hE : K.env.Ok lo hi Inv Held)
    (hs : Shaped Inv Held s.mem tab) (h : Builds Held r m₀ tab₀ s.mem tab)
    (hopen : kernelOpen K path s = some (.file f, s')) :
    Shaped Inv Held s'.mem tab ∧ Builds Held r m₀ tab₀ s'.mem tab ∧ s'.proc = s.proc ∧
      Mine Held m₀ s'.mem tab f.addr ∧ Mine Held m₀ s'.mem tab f.inode ∧ f.inode ≠ f.addr ∧
      K.fs.lookup (fun i => s.mem.byte (path + i)) = .found f.content ∧ f.fpos = 0 := by
  unfold kernelOpen at hopen
  split at hopen
  · cases hopen
  · cases hopen
  · simp only [bind_eq_bind, bind_eq_some_iff, some.injEq, Prod.mk.injEq,
      reduceCtorEq, false_and, and_false, exists_false] at hopen
  · rename_i content hlook
    simp only [bind_eq_bind, bind_eq_some_iff, some.injEq, Prod.mk.injEq,
      Prod.exists, FilePtr.file.injEq] at hopen
    obtain ⟨file, m1, hfile, inode, m2, hinode, priv, m3, hpriv, rfl, rfl⟩ := hopen
    obtain ⟨hs1, hb1, hmine1, _⟩ := kcalloc_mine hE hs h (by decide) (by decide) hfile
    obtain ⟨hs2, hb2, hmine2, hothers2⟩ := kcalloc_mine hE hs1 hb1 (by decide) (by decide) hinode
    obtain ⟨hs3, hb3, _, hothers3⟩ := kalloc_mine hE hs2 hb2 (by decide) (by decide) hpriv
    obtain ⟨hne, hmine1⟩ := hothers2 file hmine1
    exact ⟨hs3, hb3, rfl, (hothers3 file hmine1).2, (hothers3 inode hmine2).2, hne.symm, hlook, rfl⟩

lemma uvmmake_builds {trampoline trapframe r : Nat} (hE : E.Ok lo hi Inv Held)
    (hs : Shaped Inv Held m tab) (h : uvmmake E trampoline trapframe m = some (r, m')) :
    ∃ tab', Shaped Inv Held m' tab' ∧ Builds Held r m tab m' tab' ∧
      tab' r = some (rootPlace r) ∧ ¬ Owned Held m.alloc r := by
  obtain ⟨m1, m2, halloc, hmap, hmap'⟩ := uvmmake_cases h
  obtain ⟨tab1, hs1, hb1, hr1, hfresh⟩ := allocPagetable_builds hE hs halloc
  obtain ⟨tab2, hs2, hb2⟩ := mappages_builds hE hs1 hr1 hmap
  obtain ⟨tab3, hs3, hb3⟩ := mappages_builds hE hs2 (hb2.le hr1) hmap'
  exact ⟨tab3, hs3, (hb1.trans hb2).trans hb3, hb3.le (hb2.le hr1), hfresh⟩

/-- What there is when the loop over the program headers starts. -/
lemma readHeader_next {f : File} (h : readHeader K f s = some (.next v)) :
    ∃ pgtbl m1 vma m2, (ehdrAt (kernelRead K.fs K.locals.elf sizeofEhdr f s.mem).2.2.byte
        K.locals.elf).magic = elfMagic ∧
      uvmmake K.env K.trampoline s.proc.trapframe (zeroBytes K.locals.phdr sizeofPhdr
        (kernelRead K.fs K.locals.elf sizeofEhdr f s.mem).2.2) = some (pgtbl, m1) ∧
      kalloc K.env sizeofVmArea m1 = some (vma, m2) ∧
      v = {
        proc := { s.proc with vmaList := vma }
        mem := storeWord (vma + areaNext) 0 m2
        opened := s.opened
        file := (kernelRead K.fs K.locals.elf sizeofEhdr f s.mem).2.1
        elf := ehdrAt (kernelRead K.fs K.locals.elf sizeofEhdr f s.mem).2.2.byte K.locals.elf
        pgtbl := pgtbl
        vma := vma
        vmaPt := 0
        sz := 0
        hasInterp := false
        ldEntry := 0
        headers := [(K.locals.elf, (kernelRead K.fs K.locals.elf sizeofEhdr f s.mem).1)] } := by
  simp only [readHeader] at h
  split_ifs at h with hmagic
  · simp only [some.injEq, reduceCtorEq] at h
  · simp only [bind_eq_bind, bind_eq_some_iff, Prod.exists, some.injEq,
      Flow.next.injEq] at h
    obtain ⟨pgtbl, m1, hmake, vma, m2, hvma, rfl⟩ := h
    exact ⟨pgtbl, m1, vma, m2, not_not.mp hmagic, hmake, hvma, rfl⟩

lemma openImage_next (h : openImage K upath s = some (.next v)) :
    ∃ m f s1, upath ≠ 0 ∧ fetchPath K upath s = some m ∧
      kernelOpen K K.locals.path { s with mem := m } = some (.file f, s1) ∧
      readHeader K f s1 = some (.next v) := by
  unfold openImage at h
  split_ifs at h with hnull
  · simp only [some.injEq, reduceCtorEq] at h
  · obtain ⟨m, hpath, h⟩ := bind_eq_some_iff.mp h
    obtain ⟨⟨file, s1⟩, hopen, h⟩ := bind_eq_some_iff.mp h
    cases file with
    | null => cases h
    | error => cases h
    | file f => exact ⟨m, f, s1, hnull, hpath, hopen, h⟩

lemma fetchPath_same (h : fetchPath K upath s = some m) : SameTables s.mem m := by
  obtain ⟨⟨res, m1⟩, hcopy, h⟩ := bind_eq_some_iff.mp h
  cases h
  have hrest := copyinstr_rest hcopy
  exact ⟨by rw [zeroBytes, hrest]; rfl, by rw [zeroBytes, hrest]; rfl⟩

lemma openImage_loading (hE : K.env.Ok lo hi Inv Held) (hs : Shaped Inv Held s.mem tab)
    (h : openImage K upath s = some (.next v)) :
    ∃ tab', Loading Inv Held s tab v tab' := by
  obtain ⟨m, f, s1, _, hpath, hopen, hhead⟩ := openImage_next h
  obtain ⟨pgtbl, m1, vma, m2, _, hmake, hvma, rfl⟩ := readHeader_next hhead
  have hsame := fetchPath_same hpath
  have hs0 : Shaped Inv Held m tab := shaped_of_same hs hsame.1 hsame.2
  have hb0 : Builds Held pgtbl s.mem tab m tab := builds_of_same hsame.1 hsame.2
  obtain ⟨hs1, hb1, hproc, hfile, hinode, hne, _⟩ :=
    kernelOpen_mine (s := { s with mem := m }) hE hs0 hb0 hopen
  obtain ⟨hread, haddr, hino⟩ := kernelRead_same K.fs K.locals.elf sizeofEhdr f s1.mem
  have hz : SameTables s1.mem (zeroBytes K.locals.phdr sizeofPhdr
      (kernelRead K.fs K.locals.elf sizeofEhdr f s1.mem).2.2) := hread
  obtain ⟨tab2, hs2, hb2, hroot, hfresh⟩ := uvmmake_builds hE (shaped_of_same hs1 hz.1 hz.2) hmake
  have hb3 : Builds Held pgtbl s1.mem tab m1 tab2 := (builds_of_same hz.1 hz.2).trans hb2
  obtain ⟨hs4, hb4⟩ := kalloc_builds (r := pgtbl) hE hs2 (by decide) (by decide) hvma
  have hb5 : Builds Held pgtbl s1.mem tab (storeWord (vma + areaNext) 0 m2) tab2 :=
    (hb3.trans hb4).trans (builds_of_same rfl rfl)
  refine ⟨tab2, ⟨shaped_of_same hs4 rfl rfl, hb1.trans hb5, hroot, ?_, ?_⟩, ?_, ?_, ?_⟩
  · intro howned
    refine hfresh ?_
    rw [hz.1]
    exact howned.mono hb1.held
  · rw [hproc]
  · rw [haddr]
    exact hfile.builds hb5
  · rw [hino]
    exact hinode.builds hb5
  · show (kernelRead K.fs K.locals.elf sizeofEhdr f s1.mem).2.1.inode ≠
      (kernelRead K.fs K.locals.elf sizeofEhdr f s1.mem).2.1.addr
    rw [haddr, hino]
    exact hne

/-! ### Loading -/

lemma buddyAlloc_cases (h : buddyAlloc E sz m = some (p, m')) :
    0 < sz ∧ sz ≤ 4 * 2 ^ 20 ∧ kalloc E sz m = some (p, m') := by
  unfold buddyAlloc at h
  split_ifs at h with hsz
  exact ⟨by omega, by omega, h⟩

lemma loadSegment_cases {ph : Phdr} (h : loadSegment K ph v = some v') :
    ∃ mem m1 m2, buddyAlloc K.env (loadSize ph) v.mem = some (mem, m1) ∧
      mappages K.env v.pgtbl ph.vaddr mem ph.memsz loadPerms m1 = some m2 ∧
      v' = readPart K (mem + (ph.vaddr - loadStart ph)) ph.offset ph.filesz
        (linkArea (loadStart ph) (loadEnd ph) loadPerms
          { v with mem := m2, sz := max v.sz (loadEnd ph) }) := by
  simp only [loadSegment, bind_eq_bind, bind_eq_some_iff, Prod.exists,
    some.injEq] at h
  obtain ⟨mem, m1, halloc, m2, hmap, rfl⟩ := h
  exact ⟨mem, m1, m2, halloc, hmap, rfl⟩

/-- The ways through one turn of the loop. -/
lemma loadTurn_next (h : loadTurn K off v = some (.next v')) :
    (phdrAt (readPhdr K sizeofEhdr off v).mem.byte K.locals.phdr).type = ptInterp ∧
      v' = readInterp K (phdrAt (readPhdr K sizeofEhdr off v).mem.byte K.locals.phdr)
        (readPhdr K sizeofEhdr off v) ∨
    (phdrAt (readPhdr K sizeofEhdr off v).mem.byte K.locals.phdr).type ≠ ptInterp ∧
      (phdrAt (readPhdr K sizeofEhdr off v).mem.byte K.locals.phdr).type ≠ ptLoad ∧
      v' = readPhdr K sizeofEhdr off v ∨
    (phdrAt (readPhdr K sizeofEhdr off v).mem.byte K.locals.phdr).type = ptLoad ∧
      loadSegment K (phdrAt (readPhdr K sizeofEhdr off v).mem.byte K.locals.phdr)
        (readPhdr K sizeofEhdr off v) = some v' := by
  simp only [loadTurn] at h
  split_ifs at h with hinterp hload
  · cases h
    exact .inl ⟨hinterp, rfl⟩
  · cases h
    exact .inr (.inl ⟨hinterp, hload, rfl⟩)
  · simp only [some.injEq, reduceCtorEq] at h
  · simp only [some.injEq, reduceCtorEq] at h
  · obtain ⟨v1, hseg, heq⟩ := map_eq_some_iff.mp h
    cases heq
    exact .inr (.inr ⟨not_not.mp hload, hseg⟩)

lemma buddyAlloc_map_loading (hE : K.env.Ok lo hi Inv Held) (h : Loading Inv Held s₀ tab₀ v tab)
    {mem len perms : Nat} (halloc : buddyAlloc K.env sz v.mem = some (mem, m))
    (hmap : mappages K.env v.pgtbl va mem len perms m = some m') :
    ∃ tab', Loading Inv Held s₀ tab₀ { v with mem := m' } tab' := by
  obtain ⟨hpos, hsz, hk⟩ := buddyAlloc_cases halloc
  obtain ⟨hs1, hb1⟩ := kalloc_builds (r := v.pgtbl) hE h.shaped hpos hsz hk
  obtain ⟨tab2, hs2, hb2⟩ := mappages_builds hE hs1 h.root hmap
  exact ⟨tab2, h.builds_mem (hb1.trans hb2) hs2⟩

lemma loadTurn_loading (hE : K.env.Ok lo hi Inv Held) (h : Loading Inv Held s₀ tab₀ v tab)
    (hturn : loadTurn K off v = some (.next v')) :
    ∃ tab', Loading Inv Held s₀ tab₀ v' tab' := by
  have hread := h.like (readPhdr_like K sizeofEhdr off v)
  rcases loadTurn_next hturn with ⟨_, rfl⟩ | ⟨_, _, rfl⟩ | ⟨_, hseg⟩
  · exact ⟨tab, hread.like (readInterp_like _ _ _)⟩
  · exact ⟨tab, hread⟩
  · obtain ⟨mem, m1, m2, halloc, hmap, rfl⟩ := loadSegment_cases hseg
    obtain ⟨tab', h'⟩ := buddyAlloc_map_loading hE hread halloc hmap
    refine ⟨tab', h'.like (Vars.Like.trans ?_ ((linkArea_like _ _ _ _).trans
      (readPart_like _ _ _ _ _)))⟩
    exact ⟨⟨rfl, rfl⟩, rfl, rfl, rfl, rfl⟩

lemma loadLoop_loading (hE : K.env.Ok lo hi Inv Held)
    (h : Loading Inv Held s₀ tab₀ v tab) (hloop : loadLoop K n off v = some (.next v')) :
    ∃ tab', Loading Inv Held s₀ tab₀ v' tab' := by
  induction n generalizing off v tab with
  | zero =>
    cases hloop
    exact ⟨tab, h⟩
  | succ n ih =>
    obtain ⟨v1, hturn, hloop⟩ := andThen_eq_next hloop
    obtain ⟨tab1, h1⟩ := loadTurn_loading hE h hturn
    exact ih h1 hloop

lemma kernelClose_cases {f : File} (h : kernelClose K f s = some s') :
    ∃ m1 m2, kfree K.env f.inode s.mem = some m1 ∧ kfree K.env f.addr m1 = some m2 ∧
      s' = { s with mem := m2, opened := s.opened.erase f.addr } := by
  simp only [kernelClose, bind_eq_bind, bind_eq_some_iff, some.injEq] at h
  obtain ⟨m1, h1, m2, h2, rfl⟩ := h
  exact ⟨m1, m2, h1, h2, rfl⟩

section

variable (hE : K.env.Ok lo hi Inv Held)
include hE

lemma kernelClose_loaded (h : Loading Inv Held s₀ tab₀ v tab)
    (hclose : kernelClose K v.file v.toState = some s') :
    Loaded Inv Held s₀ tab₀ { v with toState := s' } tab ∧ s'.mem.pte = v.mem.pte ∧
      s'.mem.byte = v.mem.byte ∧ s'.proc = v.proc ∧
      ∀ p k, Held v.mem.alloc p k → ¬ (p = v.file.inode ∧ k = 1) → ¬ (p = v.file.addr ∧ k = 1) →
        Held s'.mem.alloc p k := by
  obtain ⟨m1, m2, hfree1, hfree2, rfl⟩ := kernelClose_cases hclose
  obtain ⟨hs1, hb1, hothers, hpte1, hbyte1, hheld1⟩ := h.builds.kfree hE h.shaped h.inode hfree1
  have hfile := hothers _ h.apart.symm h.file
  obtain ⟨hs2, hb2, _, hpte2, hbyte2, hheld2⟩ := hb1.kfree hE hs1 hfile hfree2
  exact ⟨⟨hs2, hb2, h.root, h.fresh, h.caller⟩, hpte2.trans hpte1, hbyte2.trans hbyte1, rfl,
    fun p k hp hi ha => (hheld2 p k).mpr ⟨(hheld1 p k).mpr ⟨hp, hi⟩, ha⟩⟩

lemma ldTurn_loading (h : Loading Inv Held s₀ tab₀ v tab) (hturn : ldTurn K off v = some v') :
    ∃ tab', Loading Inv Held s₀ tab₀ v' tab' := by
  have hread := h.like (readPhdr_like K sizeofPhdr off v)
  simp only [ldTurn] at hturn
  split_ifs at hturn
  · cases hturn
    exact ⟨tab, hread⟩
  · simp only [bind_eq_bind, bind_eq_some_iff, Prod.exists, some.injEq] at hturn
    obtain ⟨mem, m1, halloc, m2, hmap, rfl⟩ := hturn
    obtain ⟨tab', h'⟩ := buddyAlloc_map_loading hE hread halloc hmap
    exact ⟨tab', h'.like (readPart_like _ _ _ _ _)⟩

lemma ldLoop_loading (h : Loading Inv Held s₀ tab₀ v tab) (hloop : ldLoop K n off v = some v') :
    ∃ tab', Loading Inv Held s₀ tab₀ v' tab' := by
  induction n generalizing off v tab with
  | zero =>
    cases hloop
    exact ⟨tab, h⟩
  | succ n ih =>
    obtain ⟨v1, hturn, hloop⟩ := bind_eq_some_iff.mp hloop
    obtain ⟨tab1, h1⟩ := ldTurn_loading hE h hturn
    exact ih h1 hloop

lemma loadInterp_loaded (h : Loaded Inv Held s₀ tab₀ v tab)
    (hload : loadInterp K v = some (.next v')) : ∃ tab', Loaded Inv Held s₀ tab₀ v' tab' := by
  unfold loadInterp at hload
  split_ifs at hload
  · obtain ⟨⟨file, s1⟩, hopen, hload⟩ := bind_eq_some_iff.mp hload
    cases file with
    | null => cases hload
    | error => cases hload
    | file f =>
      dsimp only at hload
      split_ifs at hload
      · simp only [some.injEq, reduceCtorEq] at hload
      · obtain ⟨v1, hloop, hload⟩ := bind_eq_some_iff.mp hload
        obtain ⟨s2, hclose, hload⟩ := bind_eq_some_iff.mp hload
        cases hload
        have hz : SameTables v.mem (zeroBytes K.locals.ldElf sizeofEhdr v.mem) := ⟨rfl, rfl⟩
        obtain ⟨hs1, hb1, hproc, hfile, hinode, hne, _⟩ :=
          kernelOpen_mine (s := { v.toState with mem := zeroBytes K.locals.ldElf sizeofEhdr v.mem }) hE
            (shaped_of_same h.shaped hz.1 hz.2) (h.builds.trans (builds_of_same hz.1 hz.2)) hopen
        obtain ⟨hread, haddr, hino⟩ := kernelRead_same K.fs K.locals.ldElf sizeofEhdr f s1.mem
        have hb2 : Builds Held v.pgtbl s1.mem tab
            (kernelRead K.fs K.locals.ldElf sizeofEhdr f s1.mem).2.2 tab :=
          builds_of_same hread.1 hread.2
        have hloading : Loading Inv Held s₀ tab₀ { v with
            proc := s1.proc
            mem := (kernelRead K.fs K.locals.ldElf sizeofEhdr f s1.mem).2.2
            opened := s1.opened
            file := (kernelRead K.fs K.locals.ldElf sizeofEhdr f s1.mem).2.1
            headers := v.headers ++ [(K.locals.ldElf,
              (kernelRead K.fs K.locals.ldElf sizeofEhdr f s1.mem).1)] } tab := by
          refine ⟨⟨shaped_of_same hs1 hread.1 hread.2, hb1.trans hb2, h.root, h.fresh, ?_⟩, ?_, ?_, ?_⟩
          · rw [hproc]
            exact h.caller
          · rw [haddr]
            exact hfile.builds hb2
          · rw [hino]
            exact hinode.builds hb2
          · rw [haddr, hino]
            exact hne
        obtain ⟨tab', h'⟩ := ldLoop_loading hE hloading hloop
        have hdone := (kernelClose_loaded hE h' hclose).1
        exact ⟨tab', hdone.shaped, hdone.builds, hdone.root, hdone.fresh, hdone.caller⟩
  · cases hload
    exact ⟨tab, h⟩

lemma loadImage_loaded (h : Loading Inv Held s₀ tab₀ v tab)
    (hload : loadImage K v = some (.next v')) : ∃ tab', Loaded Inv Held s₀ tab₀ v' tab' := by
  obtain ⟨v1, hloop, hload⟩ := andThen_eq_next hload
  obtain ⟨s1, hclose, hload⟩ := bind_eq_some_iff.mp hload
  obtain ⟨tab1, h1⟩ := loadLoop_loading hE h hloop
  exact loadInterp_loaded hE (kernelClose_loaded hE h1 hclose).1 hload

/-- Up to the stack, the call keeps what the caller has. -/
lemma prepare_loaded (hs : Shaped Inv Held s.mem tab)
    (h : prepare K upath s = some (.next v)) : ∃ tab', Loaded Inv Held s tab v tab' := by
  obtain ⟨v1, hopen, hload⟩ := andThen_eq_next h
  obtain ⟨tab1, h1⟩ := openImage_loading hE hs hopen
  exact loadImage_loaded hE h1 hload

end

lemma Ready.running (h : Ready K Inv Held lo hi stack pages s tab)
    (hl : Loaded Inv Held s tab v tab') : Running K Inv Held lo hi stack pages v tab' := by
  have hold : v.proc.pagetable = s.proc.pagetable := by rw [hl.caller]
  have hne : s.proc.pagetable ≠ v.pgtbl := by
    intro heq
    refine hl.fresh ?_
    rw [← heq]
    exact ⟨_, 1, h.shaped.held h.root, le_rfl, by omega⟩
  have hleaf := hl.builds.leaf h.root hne
  refine ⟨⟨hl.shaped, ?_, ?_, ?_, hl.builds.held h.block, h.argv, h.envp, h.apart, ?_⟩, hl.root, ?_⟩
  · rw [hold]
    exact hl.builds.le h.root
  · rw [hold]
    exact hl.builds.clean hne h.clean
  · rw [hold]
    exact h.user
  · intro va hacc j hj
    rw [hold] at hacc ⊢
    rw [hleaf]
    have hacc' : accepts s.mem s.proc.pagetable va = true := by
      simp only [accepts, hleaf] at hacc
      exact hacc
    obtain ⟨htaken, hblock⟩ := h.frames va hacc' j hj
    exact ⟨htaken.mono hl.builds.held, hblock⟩
  · rw [hold]
    exact hne

end

/-! ### The small caller -/

lemma bootCaller_fs {fs : Fs} {src : List Nat} {K : Kernel Buddy.Pool} {s : State Buddy.Pool}
    (h : bootCaller users fs src = some (K, s)) : K.fs = fs := by
  simp only [bootCaller, bind_eq_bind, bind_eq_some_iff, Prod.exists,
    some.injEq, Prod.mk.injEq] at h
  obtain ⟨E, s₀, _, r, m1, _, p, m2, _, m3, _, stack, m4, _, tf, m5, _, rfl, rfl⟩ := h
  rfl

/-- The one page of the small caller is what a copy can reach. -/
lemma bootCaller_ready {fs : Fs} {src : List Nat} {K : Kernel Buddy.Pool}
    {s : State Buddy.Pool} (h : bootCaller users fs src = some (K, s)) :
    K.env.Ok (bootLo 0x80300000 0x80380000) (pgRoundDown 0x80380000)
        (bootInv 0x80250000 0x80300000 0x80380000) Buddy.held ∧
      ∃ stack pages tab, Ready K (bootInv 0x80250000 0x80300000 0x80380000) Buddy.held
        (bootLo 0x80300000 0x80380000) (pgRoundDown 0x80380000) stack pages s tab := by
  simp only [bootCaller, bind_eq_bind, bind_eq_some_iff, Prod.exists,
    some.injEq, Prod.mk.injEq] at h
  obtain ⟨E, s₀, hboot, r, m1, hr, p, m2, hp, m3, hmap, stack, m4, hstack, tf, m5, htf, rfl, rfl⟩ := h
  obtain ⟨hE, tab₀, hs0, hk0⟩ := bootKernel_ok hboot
  obtain ⟨tab1, hs1, hnew, hroot1, hle1, hleaf1, _⟩ := allocPagetable_spec hE hs0 hr
  obtain ⟨hs2, hm2⟩ := kalloc_shaped hE hs1 (by decide) (by decide) hp
  obtain ⟨_, _, n2, _, hone, hheld2, _, _, hdvd, hlo, hhi⟩ :=
    kalloc_not_taken hE hs1.alloc (by decide) (by decide) hp
  obtain rfl := hone (by decide)
  have hbound : p + 4096 ≤ 2 ^ 64 := by
    have htop := hE.hi_lt
    omega
  obtain ⟨tab3, hs3, hpage⟩ := mappages_page hE hs2 hroot1 (by decide) (by decide) hbound hmap
  have hs3' : Shaped _ _ (writeBytes p src m3) tab3 := shaped_of_same hs3 rfl rfl
  obtain ⟨hs4, hb4⟩ := kalloc_builds (r := 0) hE hs3' (by decide) (by decide) hstack
  obtain ⟨hm4, _, pages, hpages, _, hheld4, hfree4, _⟩ :=
    kalloc_not_taken hE hs3'.alloc (by decide) (by decide) hstack
  obtain ⟨hs5, hb5⟩ := kalloc_builds (r := 0) hE hs4 (by decide) (by decide) htf
  obtain ⟨hm5, _⟩ := kalloc_not_taken hE hs4.alloc (by decide) (by decide) htf
  have hroot3 := hpage.le hroot1
  have hpte : m5.pte = m3.pte := by
    rw [hm5, hm4]
    rfl
  have hpheld : Buddy.held m3.alloc p 1 := hpage.held ((hheld2 p 1).mpr (.inl ⟨rfl, rfl⟩))
  -- the table has an entry for one page only
  have hleaf : ∀ va, accepts m5 r va = true → pte2pa (leaf m5 r (va >>> 12)) = p := by
    intro va hacc
    rw [accepts_of_pte hpte] at hacc
    have hne := accepts_ne_zero hacc
    rw [leaf_of_pte hpte]
    rw [hpage.leaf hroot1] at hne ⊢
    split_ifs at hne ⊢ with hvpn
    · rw [pte2pa_entry (by omega) (by decide), frameOf]
      omega
    · rw [hm2] at hne
      rw [show leaf { m1 with alloc := m2.alloc } r (va >>> 12) = leaf m1 r (va >>> 12) from rfl,
        hleaf1] at hne
      exact absurd rfl hne
  refine ⟨hE, stack, pages, tab3, hs5, hroot3, ?_, ?_, ?_, ?_, ?_, ?_, ?_⟩
  · have hclean2 : Clean r m2 tab1 := by
      have hclean1 : Clean r m1 tab1 := allocPagetable_clean hr hs1.tables hroot1
      rw [hm2]
      exact hclean1
    have hclean := hpage.clean hclean2
    intro t l i k ht hk hv
    rw [hpte] at hv ⊢
    exact hclean t l i k ht hk hv
  · rintro rfl
    rw [hnew] at hk0
    cases hk0
  · exact hb5.held ((hheld4 _ _).mpr (.inl ⟨rfl, rfl⟩))
  · exact ⟨Nat.le_add_right _ _, by simp only [localsAt, argSlots, maxArgs]; omega⟩
  · have hsize : 4 * 4096 ≤ 4096 * pages := hpages
    exact ⟨Nat.le_add_right _ _, by simp only [localsAt, argSlots, maxArgs]; omega⟩
  · exact .inl (by simp only [localsAt, argSlots, maxArgs]; omega)
  · intro va hacc j hj
    show Taken _ _ _ m5.alloc (pte2pa (leaf m5 r (va >>> 12)) + j) ∧
      ¬ InBlock stack pages (pte2pa (leaf m5 r (va >>> 12)) + j)
    rw [hleaf va hacc]
    have htaken : Taken Buddy.held (bootLo 0x80300000 0x80380000) (pgRoundDown 0x80380000) m3.alloc
        (p + j) := .inl ⟨p, 1, hpheld, by omega, by omega⟩
    exact ⟨htaken.mono fun hq => hb5.held (hb4.held hq), fun hin => hfree4 _ hin htaken⟩

end Hana.Exec
