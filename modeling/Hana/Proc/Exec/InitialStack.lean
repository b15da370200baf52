import Hana.Proc.Exec.Layout

/-!
# The initial stack

What a new program finds on its stack: `argc` at the stack pointer, and in the registers `a1` and
`a2` the addresses of two arrays of pointers to its arguments and its environment, each with a
null pointer at the end. A call that succeeds leaves such a stack exactly if

* neither `argv` nor `envp` is `NULL`: for `NULL` the register is zero;
* the page that the allocator hands out for the stack happens to be zero in the two words above
  the arrays, which are skipped and not written;
* the stack is below the end of the address space.

Contents that do not fit in the page are not noticed. The call fails then only if a string
crosses the end of a page of the caller.
-/

namespace Hana.Exec

open Lib Vm Proc Option

variable {A : Type}

/-- The string at `p` of the table `r` is a copy of the argument. -/
def CopyOf (m' : Mem A) (r p : Nat) (m : Mem A) (o : Nat) (a : Arg) : Prop :=
  StringAt m' r p a.len ∧
    ∀ t ≤ a.len, m'.byte (phys m' r (wrap64 (p + t))) = m.byte (phys m o (wrap64 (a.ptr + t)))

/-- The register points to pointers to copies of the arguments and a null pointer. -/
structure PointsTo (m' : Mem A) (r reg : Nat) (m : Mem A) (o : Nat) (args : List Arg) : Prop where
  ne_zero : reg ≠ 0
  ptr : ∀ i (hi : i < args.length), ∃ p, UserWord m' r (reg + 8 * i) p ∧ CopyOf m' r p m o args[i]
  null : UserWord m' r (reg + 8 * args.length) 0

/-- The stack of the new program. Nothing in use is written but the two arrays of the kernel. -/
structure StackRight (K : Kernel A) (Held : A → Nat → Nat → Prop) (lo hi : Nat) (v : Vars A)
    (envs args : List Arg) (argc : Nat) (s' : State A) : Prop where
  argc : argc = args.length
  sp : UserWord s'.mem s'.proc.pagetable s'.proc.regs.sp args.length
  argv : PointsTo s'.mem s'.proc.pagetable s'.proc.regs.a1 v.mem v.proc.pagetable args
  envp : PointsTo s'.mem s'.proc.pagetable s'.proc.regs.a2 v.mem v.proc.pagetable envs
  only : ∀ x, Taken Held lo hi v.mem.alloc x → ¬ InRange K.locals.argv (8 * argSlots) x →
    ¬ InRange K.locals.envp (8 * argSlots) x → s'.mem.byte x = v.mem.byte x

/-- The layout for given arguments. -/
def layoutOf (v : Vars A) (uenvp uargv : Nat) (envs args : List Arg) : Layout :=
  ⟨v.hasInterp, uenvp, uargv, lengths envs, lengths args⟩

/-- The page that is next to be handed out is zero in the words above the arrays. -/
def ZeroAbove (al : Allocator A) (v : Vars A) (L : Layout) : Prop :=
  ∀ ustack a, al.kalloc pgSize v.mem.alloc = some (ustack, a) →
    leWord v.mem.byte (ustack + (4096 - (L.gap + 8))) 8 = 0 ∧
      leWord v.mem.byte (ustack + (4096 - (L.envArr + 8))) 8 = 0

/-- The call goes to `execve_bad` while the stack is built. -/
def Refuses (K : Kernel A) (uargv uenvp : Nat) (v : Vars A) : Prop :=
  ∃ pgtbl sz s', buildStack K uargv uenvp v = some (.bad pgtbl sz s')

/-- A string crosses the end of a page, and the code gets to it: the stack page can be mapped, and
the strings before it fit. -/
def Refused (K : Kernel A) (uenvp : Nat) (v : Vars A) (envs args : List Arg) : Prop :=
  ∃ ustack m, mapUserStack K.env v.pgtbl (stackVa v) v.mem = some (ustack, m) ∧
    (Blocked K.env.al envs m.alloc ∨
      ∃ a, Passed K.env.al leaveSpace uenvp envs m.alloc a ∧ Blocked K.env.al args a)

variable {x str u : Nat} {args envs : List Arg}

section

variable {Inv : A → Prop} {Held : A → Nat → Nat → Prop} {lo hi stack pages : Nat}
variable {K : Kernel A} {v : Vars A} {st : Stack A} {tab : Nat → Option Place} {uargv uenvp : Nat}
variable {L : Layout} {ustack : Nat} {s' : State A}

/-! ## Reading the stack page -/

lemma stackAt_page (v : Vars A) (hx : x < 4096) :
    (stackVa v + x) >>> 12 = stackVa v >>> 12 ∧ (stackVa v + x) % 4096 = x ∧
      (stackVa v + x < maxVa ↔ stackVa v < maxVa) := by
  have hdvd := stackVa_dvd v
  rw [Nat.shiftRight_eq_div_pow, Nat.shiftRight_eq_div_pow, maxVa]
  omega

section

variable (h : Built K Inv Held lo hi v tab L ustack st)
variable (hleaf : ∀ vpn, Vm.leaf s'.mem v.pgtbl vpn = Vm.leaf st.mem v.pgtbl vpn)
include h hleaf

/-- The user finds the bytes of the stack page. -/
lemma Built.user (hx : x < 4096) :
    (userPage s'.mem v.pgtbl (stackVa v + x) = true ↔ stackVa v < maxVa) ∧
      phys s'.mem v.pgtbl (stackVa v + x) = ustack + x := by
  obtain ⟨hvpn, hmod, hmax⟩ := stackAt_page v hx
  obtain ⟨hpos, hlt, hdvd⟩ := h.range
  have hframe : frameOf ustack = ustack := by
    unfold frameOf
    omega
  have hentry : Vm.leaf s'.mem v.pgtbl ((stackVa v + x) >>> 12) =
      pa2pte ustack ||| stackFlags ||| pteV := by
    rw [hleaf, h.leaf, hvpn, if_pos rfl]
  obtain ⟨huser, hphys⟩ := userPage_entry hlt (by decide) (by decide)
    (by rw [hframe]; omega) hentry
  rw [huser, hphys, hframe, hmod, decide_eq_true_eq]
  exact ⟨hmax, rfl⟩

section

variable (hbyte : s'.mem.byte = st.mem.byte)
include hbyte

/-- A word of the stack page, read by the user. -/
lemma Built.userWord_iff {w : Nat} (hx : x + 8 ≤ 4096) :
    UserWord s'.mem v.pgtbl (stackVa v + x) w ↔
      stackVa v < maxVa ∧ leWord st.mem.byte (ustack + x) 8 = w := by
  have hword : leWord (fun y => s'.mem.byte (phys s'.mem v.pgtbl y)) (stackVa v + x) 8 =
      leWord st.mem.byte (ustack + x) 8 := by
    refine leWord_congr fun b hb => ?_
    rw [add_assoc, (h.user hleaf (x := x + b) (by omega)).2, hbyte, add_assoc]
  rw [UserWord, hword]
  constructor
  · rintro ⟨huser, hw⟩
    have hfirst := huser 0 (by decide)
    rw [add_zero] at hfirst
    exact ⟨(h.user hleaf (by omega)).1.mp hfirst, hw⟩
  · rintro ⟨hmax, hw⟩
    refine ⟨fun b hb => ?_, hw⟩
    rw [add_assoc]
    exact (h.user hleaf (by omega)).1.mpr hmax

/-- The strings on the page are copies of the arguments. -/
lemma StringsOn.copyOf (hmax : stackVa v < maxVa)
    (ha : ArgVec v.mem v.proc.pagetable u args) (hstr : extent (lengths args) ≤ str)
    (hle : str ≤ 4096) (hs : StringsOn v ustack str args st.mem) {j : Nat} (hj : j < args.length) :
    CopyOf s'.mem v.pgtbl (stackAt v str + offset (lengths args) j) v.mem v.proc.pagetable
      args[j] := by
  obtain ⟨_, harr⟩ := ha.resolve_left fun hand => by
    rw [hand.2] at hj
    exact Nat.not_lt_zero j hj
  have hmem := List.getElem_mem hj
  obtain ⟨hstring, _⟩ := harr.string _ hmem
  obtain ⟨hpage, hbytes⟩ := hs j hj
  have hmaxVa : maxVa = 2 ^ 38 := rfl
  have hplace : ∀ t ≤ args[j].len, userPage s'.mem v.pgtbl
      (wrap64 (stackAt v str + offset (lengths args) j + t)) = true ∧
      s'.mem.byte (phys s'.mem v.pgtbl (wrap64 (stackAt v str + offset (lengths args) j + t))) =
        v.mem.byte (phys v.mem v.proc.pagetable (wrap64 (args[j].ptr + t))) := by
    intro t ht
    have hlt := lt_slot_of_lengths hj ht
    have hx : 4096 - str + offset (lengths args) j + t < 4096 := by omega
    have haddr : wrap64 (stackAt v str + offset (lengths args) j + t) =
        stackVa v + (4096 - str + offset (lengths args) j + t) := by
      unfold stackAt
      rw [wrap64_of_lt (by omega)]
      omega
    obtain ⟨huser, hphys⟩ := h.user hleaf hx
    rw [haddr, hphys, hbyte, phys_add (harr.ptr_lt hmem) (by omega), ← hbytes t ht]
    refine ⟨huser.mpr hmax, ?_⟩
    congr 1
    omega
  refine ⟨⟨fun t ht => (hplace t ht).1, fun t ht => ?_, ?_⟩, fun t ht => (hplace t ht).2⟩
  · rw [(hplace t (le_of_lt ht)).2]
    exact hstring.chars t ht
  · rw [(hplace _ le_rfl).2]
    exact hstring.nul

/-- One register: the array is complete exactly if the word above it is zero. -/
lemma Built.pointsTo_iff (hmax : stackVa v < maxVa) {arr reg : Nat}
    (hreg : reg = if u = 0 then 0 else stackAt v arr) (ha : ArgVec v.mem v.proc.pagetable u args)
    (hstr : extent (lengths args) ≤ str) (hstrle : str ≤ 4096)
    (harr : u ≠ 0 → 8 + 8 * args.length ≤ arr) (hle : arr < 4096)
    (hon : u ≠ 0 → ArrayOn v ustack arr str (lengths args) v.mem st.mem)
    (hs : StringsOn v ustack str args st.mem) :
    PointsTo s'.mem v.pgtbl reg v.mem v.proc.pagetable args ↔
      u ≠ 0 ∧ leWord v.mem.byte (ustack + (4096 - (arr - 8 * args.length))) 8 = 0 := by
  have hlen : (lengths args).length = args.length := List.length_map _
  by_cases hu : u = 0
  · rw [if_pos hu] at hreg
    constructor
    · intro hp
      exact absurd hreg hp.ne_zero
    · rintro ⟨hne, _⟩
      exact absurd hu hne
  · rw [if_neg hu, stackAt] at hreg
    obtain ⟨hptr, habove⟩ := hon hu
    rw [hlen] at hptr habove
    have hplace : ∀ i ≤ args.length, ∀ w, UserWord s'.mem v.pgtbl (reg + 8 * i) w ↔
        leWord st.mem.byte (ustack + (4096 - arr) + 8 * i) 8 = w := by
      intro i hi w
      rw [hreg, add_assoc, h.userWord_iff hleaf hbyte (by omega), add_assoc]
      exact and_iff_right hmax
    have hnull : ustack + (4096 - arr) + 8 * args.length =
        ustack + (4096 - (arr - 8 * args.length)) := by omega
    constructor
    · intro hp
      have hzero := (hplace _ le_rfl 0).mp hp.null
      rw [habove, hnull] at hzero
      exact ⟨hu, hzero⟩
    · rintro ⟨_, hzero⟩
      refine ⟨?_, fun i hi => ⟨stackAt v str + offset (lengths args) i, ?_, ?_⟩, ?_⟩
      · omega
      · exact (hplace i (le_of_lt hi) _).mpr (hptr i hi)
      · exact hs.copyOf h hleaf hbyte hmax ha hstr hstrle hi
      · refine (hplace _ le_rfl 0).mpr ?_
        rw [habove, hnull]
        exact hzero

/-- A successful call leaves the right stack under the conditions above. -/
lemma Built.stackRight_iff {argc : Nat}
    (htable : s'.proc.pagetable = v.pgtbl) (hsp : s'.proc.regs.sp = st.sp)
    (ha1 : s'.proc.regs.a1 = st.pArgv) (ha2 : s'.proc.regs.a2 = st.pEnvp) (hargc : argc = st.argc)
    (henvs : ArgVec v.mem v.proc.pagetable L.uenvp envs)
    (hargs : ArgVec v.mem v.proc.pagetable L.uargv args) :
    StackRight K Held lo hi v envs args argc s' ↔
      stackVa v < maxVa ∧ L.uargv ≠ 0 ∧ L.uenvp ≠ 0 ∧
        leWord v.mem.byte (ustack + (4096 - (L.gap + 8))) 8 = 0 ∧
        leWord v.mem.byte (ustack + (4096 - (L.envArr + 8))) 8 = 0 := by
  obtain ⟨henvLens, henvOn⟩ := h.envStrings envs henvs
  obtain ⟨hargLens, hargOn⟩ := h.argStrings args hargs
  have henvLen : L.envLens.length = envs.length := by rw [henvLens, lengths, List.length_map]
  have hargLen : L.argLens.length = args.length := by rw [hargLens, lengths, List.length_map]
  have hfits := h.fits
  have huse : L.use = L.argArr + 8 := rfl
  have hargArr : L.argArr = L.envArr + arrayUse L.uargv L.argLens.length := rfl
  have henvArr : L.envArr = L.gap + arrayUse L.uenvp L.envLens.length := rfl
  have hgap : L.gap = L.argStr + auxUse L.hasInterp + 8 := rfl
  have hargStr : L.argStr = L.envStr + extent L.argLens := rfl
  have henvStr : L.envStr = leaveSpace + extent L.envLens := rfl
  have henvUse : L.uenvp ≠ 0 → arrayUse L.uenvp L.envLens.length = 8 + 8 * envs.length := by
    intro hne
    rw [arrayUse, if_neg hne, henvLen]
  have hargUse : L.uargv ≠ 0 → arrayUse L.uargv L.argLens.length = 8 + 8 * args.length := by
    intro hne
    rw [arrayUse, if_neg hne, hargLen]
  have henvp : stackVa v < maxVa → (PointsTo s'.mem v.pgtbl s'.proc.regs.a2 v.mem v.proc.pagetable envs ↔
      L.uenvp ≠ 0 ∧ leWord v.mem.byte (ustack + (4096 - (L.envArr - 8 * envs.length))) 8 = 0) := by
    intro hmax
    refine h.pointsTo_iff hleaf hbyte hmax (ha2.trans h.pEnvp) henvs ?_ ?_ ?_ ?_ ?_ henvOn
    · rw [← henvLens]
      omega
    · omega
    · intro hne
      omega
    · omega
    · rw [← henvLens]
      exact h.envp
  have hargv : stackVa v < maxVa → (PointsTo s'.mem v.pgtbl s'.proc.regs.a1 v.mem v.proc.pagetable args ↔
      L.uargv ≠ 0 ∧ leWord v.mem.byte (ustack + (4096 - (L.argArr - 8 * args.length))) 8 = 0) := by
    intro hmax
    refine h.pointsTo_iff hleaf hbyte hmax (ha1.trans h.pArgv) hargs ?_ ?_ ?_ ?_ ?_ hargOn
    · rw [← hargLens]
      omega
    · omega
    · intro hne
      omega
    · omega
    · rw [← hargLens]
      exact h.argv
  have hword : UserWord s'.mem v.pgtbl s'.proc.regs.sp args.length ↔ stackVa v < maxVa := by
    rw [hsp, h.sp, stackAt, h.userWord_iff hleaf hbyte (by omega), h.argcWord, hargLen]
    exact and_iff_left rfl
  constructor
  · rintro ⟨_, hsp', hargv', henvp', _⟩
    rw [htable] at hsp' hargv' henvp'
    have hmax := hword.mp hsp'
    obtain ⟨hargNe, hargZero⟩ := (hargv hmax).mp hargv'
    obtain ⟨henvNe, henvZero⟩ := (henvp hmax).mp henvp'
    rw [show L.argArr - 8 * args.length = L.envArr + 8 by omega] at hargZero
    rw [show L.envArr - 8 * envs.length = L.gap + 8 by omega] at henvZero
    exact ⟨hmax, hargNe, henvNe, henvZero, hargZero⟩
  · rintro ⟨hmax, hargNe, henvNe, henvZero, hargZero⟩
    rw [show L.envArr + 8 = L.argArr - 8 * args.length by omega] at hargZero
    rw [show L.gap + 8 = L.envArr - 8 * envs.length by omega] at henvZero
    refine ⟨by rw [hargc, h.argc, hargLen], ?_, ?_, ?_, ?_⟩
    · rw [htable]
      exact hword.mpr hmax
    · rw [htable]
      exact (hargv hmax).mpr ⟨hargNe, hargZero⟩
    · rw [htable]
      exact (henvp hmax).mpr ⟨henvNe, henvZero⟩
    · intro x hx hno hno'
      rw [hbyte]
      exact h.bytes x hx hno hno'

end

end

/-! ## The way to `execve_bad` -/

lemma buildStack_refuses_iff (hE : K.env.Ok lo hi Inv Held)
    (h : Running K Inv Held lo hi stack pages v tab)
    (henvs : ArgVec v.mem v.proc.pagetable uenvp envs)
    (hargs : ArgVec v.mem v.proc.pagetable uargv args) :
    Refuses K uargv uenvp v ↔ Refused K uenvp v envs args := by
  constructor
  · rintro ⟨pgtbl, sz, s1, hbad⟩
    obtain ⟨⟨ustack, m0⟩, hmap, hbad⟩ := bind_eq_some_iff.mp hbad
    obtain ⟨tab0, a, _, hs0, hb0, hbyte0, hheld0, hfree, _⟩ :=
      mapUserStack_spec hE h.shaped h.new (stackVa_dvd v) (stackVa_lt v) hmap
    have hready := h.pageReady hs0 hb0 hbyte0 hheld0 hfree
    refine ⟨ustack, m0, hmap, ?_⟩
    obtain ⟨⟨env, m2⟩, henv, hbad⟩ := bind_eq_some_iff.mp hbad
    cases env with
    | none =>
      exact .inl ((pushStrings_bad_iff leaveSpace hE hready.env (hready.argVec henvs)).mp ⟨m2, henv⟩)
    | some env =>
      obtain ⟨envc, envUsed⟩ := env
      obtain ⟨es, rfl, _, _, rfl, hle, _, _, hes⟩ :=
        pushStrings_next hE hready.env henvs.lt (by decide) henv
      obtain ⟨rfl, _⟩ := hes envs (hready.argVec henvs)
      obtain ⟨hdesk, hafter⟩ := pushStrings_after hE hready.env hready.arg henvs.lt (by decide) henv
      rw [lengths, List.length_map, ← lengths] at henv
      refine .inr ⟨m2.alloc, ?_, ?_⟩
      · exact (pushStrings_next_iff hE hready.env (hready.argVec henvs) m2.alloc).mp ⟨m2, rfl, henv⟩
      · obtain ⟨⟨res, m3⟩, harg, hbad⟩ := bind_eq_some_iff.mp hbad
        cases res with
        | none => exact (pushStrings_bad_iff _ hE hdesk (hafter (hready.argVec hargs))).mp ⟨m3, harg⟩
        | some res =>
          obtain ⟨⟨used, m4⟩, _, hbad⟩ := bind_eq_some_iff.mp hbad
          obtain ⟨⟨pEnvp, used1, m5⟩, _, hbad⟩ := bind_eq_some_iff.mp hbad
          obtain ⟨⟨pArgv, used2, m6⟩, _, hbad⟩ := bind_eq_some_iff.mp hbad
          obtain ⟨m7, _, hbad⟩ := bind_eq_some_iff.mp hbad
          cases hbad
  · rintro ⟨ustack, m0, hmap, hcases⟩
    obtain ⟨tab0, a, _, hs0, hb0, hbyte0, hheld0, hfree, _⟩ :=
      mapUserStack_spec hE h.shaped h.new (stackVa_dvd v) (stackVa_lt v) hmap
    have hready := h.pageReady hs0 hb0 hbyte0 hheld0 hfree
    rcases hcases with hblocked | ⟨a, hpassed, hblocked⟩
    · obtain ⟨m2, henv⟩ := (pushStrings_bad_iff leaveSpace hE hready.env
        (hready.argVec henvs)).mpr hblocked
      refine ⟨some v.pgtbl, wrap64 (stackVa v + pgSize), { v.toState with mem := m2 }, ?_⟩
      simp only [buildStack, hmap, henv, bind_eq_bind, bind_some]
    · obtain ⟨m2, rfl, henv⟩ := (pushStrings_next_iff hE hready.env (hready.argVec henvs) a).mpr hpassed
      obtain ⟨hdesk, hafter⟩ := pushStrings_after hE hready.env hready.arg henvs.lt (by decide) henv
      obtain ⟨m3, harg⟩ := (pushStrings_bad_iff (leaveSpace + extent (lengths envs)) hE hdesk
        (hafter (hready.argVec hargs))).mpr hblocked
      refine ⟨some v.pgtbl, wrap64 (stackVa v + pgSize), { v.toState with mem := m3 }, ?_⟩
      simp only [buildStack, hmap, henv, harg, bind_eq_bind, bind_some]

/-- The stack of a successful call, and the failure of one whose contents do not fit. -/
theorem execve_stack_iff {envs args : List Arg} {s : State A} {fuel upath : Nat}
    (hE : K.env.Ok lo hi Inv Held) (hready : Ready K Inv Held lo hi stack pages s tab)
    (hprep : prepare K upath s = some (.next v))
    (henvs : ArgVec v.mem v.proc.pagetable uenvp envs)
    (hargs : ArgVec v.mem v.proc.pagetable uargv args) :
    (∀ argc headers s', sysExecve K fuel upath uargv uenvp s = some (.runs argc headers s') →
      (StackRight K Held lo hi v envs args argc s' ↔
        stackVa v < maxVa ∧ uargv ≠ 0 ∧ uenvp ≠ 0 ∧
          ZeroAbove K.env.al v (layoutOf v uenvp uargv envs args))) ∧
    (4096 < (layoutOf v uenvp uargv envs args).use →
      (Refuses K uargv uenvp v ↔ Refused K uenvp v envs args)) := by
  obtain ⟨tab', hloaded⟩ := prepare_loaded hE hready.shaped hprep
  refine ⟨fun argc headers s' hrun => ?_,
    fun _ => buildStack_refuses_iff hE (hready.running hloaded) henvs hargs⟩
  obtain ⟨v', tab1, L, ustack, st, hprep', _, hinterp, rfl, rfl, hbuilt, hargc, _, hbyte, htable, hleaf,
    hsp, ha1, ha2⟩ := execve_entered hE hready hargs.lt henvs.lt hrun
  rw [hprep] at hprep'
  cases hprep'
  have hL : layoutOf v L.uenvp L.uargv envs args = L := by
    rw [layoutOf, ← hinterp, ← (hbuilt.envStrings envs henvs).1, ← (hbuilt.argStrings args hargs).1]
  obtain ⟨a, halloc⟩ := hbuilt.page
  have hzero : ZeroAbove K.env.al v L ↔
      leWord v.mem.byte (ustack + (4096 - (L.gap + 8))) 8 = 0 ∧
        leWord v.mem.byte (ustack + (4096 - (L.envArr + 8))) 8 = 0 := by
    constructor
    · intro h
      exact h ustack a halloc
    · intro h ustack' a' halloc'
      rw [halloc] at halloc'
      cases halloc'
      exact h
  rw [hL, hzero]
  exact hbuilt.stackRight_iff hleaf hbyte htable hsp ha1 ha2 hargc henvs hargs

end

/-! ## A small program -/

/-- The user page of a caller with one argument: the string `/a`, and an array of one pointer to it
at `0x1010`. -/
def argPage : List Nat := [47, 97, 0, 0] ++ leBytes 12 0 ++ leBytes 8 0x1000 ++ leBytes 8 0

/-- A file without segments. -/
def emptyImage : Fs := ⟨fun _ => .found (elfFile 0x10000 []), 0⟩

/-- One argument, and a page of zeros for the stack. -/
theorem execve_stack_right :
    ∃ K s v argc headers s', bootCaller 2 emptyImage argPage = some (K, s) ∧
      prepare K 0x1000 s = some (.next v) ∧
      sysExecve K 8 0x1000 0x1010 0x1010 s = some (.runs argc headers s') ∧
      StackRight K Buddy.held (bootLo 0x80300000 0x80380000) (pgRoundDown 0x80380000) v
        [⟨0x1000, 2⟩] [⟨0x1000, 2⟩] argc s' := by
  have hrun : ((bootCaller 2 emptyImage argPage).bind fun x => (prepare x.1 0x1000 x.2).bind fun
      | .bad _ _ _ => none
      | .next v => (sysExecve x.1 8 0x1000 0x1010 0x1010 x.2).bind fun
        | .fails _ _ => none
        | .runs _ _ _ => (x.1.env.al.kalloc pgSize v.mem.alloc).map
          fun (y : Nat × Buddy.Pool) => decide (stackVa v < maxVa ∧
            leWord v.mem.byte (y.1 + (4096 -
              ((layoutOf v 0x1010 0x1010 [⟨0x1000, 2⟩] [⟨0x1000, 2⟩]).gap + 8))) 8 = 0 ∧
            leWord v.mem.byte (y.1 + (4096 -
              ((layoutOf v 0x1010 0x1010 [⟨0x1000, 2⟩] [⟨0x1000, 2⟩]).envArr + 8))) 8 = 0 ∧
            UserWord v.mem v.proc.pagetable 0x1010 0x1000 ∧ UserWord v.mem v.proc.pagetable 0x1018 0 ∧
            StringAt v.mem v.proc.pagetable 0x1000 2)) = some true := by
    decide +kernel
  obtain ⟨⟨K, s⟩, hboot, hrun⟩ := bind_eq_some_iff.mp hrun
  obtain ⟨flow, hprep, hrun⟩ := bind_eq_some_iff.mp hrun
  cases flow with
  | bad pgtbl sz s1 => cases hrun
  | next v =>
    obtain ⟨res, hexec, hrun⟩ := bind_eq_some_iff.mp hrun
    cases res with
    | fails image s1 => cases hrun
    | runs argc headers s' =>
      obtain ⟨⟨ustack, a⟩, halloc, hres⟩ := map_eq_some_iff.mp hrun
      obtain ⟨hmax, henvZero, hargZero, hptr, hnull, hstr⟩ := of_decide_eq_true hres
      obtain ⟨hE, stack, pages, tab, hready⟩ := bootCaller_ready hboot
      have hargs : ArgVec v.mem v.proc.pagetable 0x1010 [⟨0x1000, 2⟩] := by
        refine .inr ⟨by decide, by decide, ?_, ?_, hnull, ?_⟩
        · intro i hi
          obtain rfl : i = 0 := Nat.lt_one_iff.mp hi
          exact hptr
        · intro b hb
          cases List.mem_singleton.mp hb
          decide
        · intro b hb
          cases List.mem_singleton.mp hb
          exact ⟨hstr, by decide⟩
      refine ⟨K, s, v, argc, headers, s', hboot, hprep, hexec, ?_⟩
      refine ((execve_stack_iff hE hready hprep hargs hargs).1 argc headers s' hexec).mpr
        ⟨hmax, by decide, by decide, ?_⟩
      intro ustack' a' halloc'
      rw [halloc] at halloc'
      cases halloc'
      exact ⟨henvZero, hargZero⟩

/-- The same call, by a process whose page table has two users, when the pages of the allocator hold
old contents: the word behind the pointer of `argv` is not zero. -/
theorem execve_argv_unterminated :
    ∃ K s v argc headers s', (bootCaller 2 emptyImage argPage).map (fun x => (x.1, { x.2 with
        mem.byte := fun a => if InRange (phys x.2.mem x.2.proc.pagetable 0x1000) 4096 a
          then x.2.mem.byte a else 1 })) = some (K, s) ∧
      prepare K 0x1000 s = some (.next v) ∧
      sysExecve K 8 0x1000 0x1010 0x1010 s = some (.runs argc headers s') ∧ argc = 1 ∧
      ¬ UserWord s'.mem s'.proc.pagetable (s'.proc.regs.a1 + 8) 0 ∧
      ¬ StackRight K Buddy.held (bootLo 0x80300000 0x80380000) (pgRoundDown 0x80380000) v
        [⟨0x1000, 2⟩] [⟨0x1000, 2⟩] argc s' := by
  have hrun : (((bootCaller 2 emptyImage argPage).map (fun x => (x.1, { x.2 with
      mem.byte := fun a => if InRange (phys x.2.mem x.2.proc.pagetable 0x1000) 4096 a
        then x.2.mem.byte a else 1 }))).bind fun x => (prepare x.1 0x1000 x.2).bind fun
      | .bad _ _ _ => none
      | .next _ => (sysExecve x.1 8 0x1000 0x1010 0x1010 x.2).map fun
        | .fails _ _ => false
        | .runs argc _ s' => decide (argc = 1 ∧
            ¬ UserWord s'.mem s'.proc.pagetable (s'.proc.regs.a1 + 8) 0)) = some true := by
    decide +kernel
  obtain ⟨⟨K, s⟩, hboot, hrun⟩ := bind_eq_some_iff.mp hrun
  obtain ⟨flow, hprep, hrun⟩ := bind_eq_some_iff.mp hrun
  cases flow with
  | bad pgtbl sz s1 => cases hrun
  | next v =>
    obtain ⟨res, hexec, hres⟩ := map_eq_some_iff.mp hrun
    cases res with
    | fails image s1 => cases hres
    | runs argc headers s' =>
      obtain ⟨hargc, hnull⟩ := of_decide_eq_true hres
      exact ⟨K, s, v, argc, headers, s', hboot, hprep, hexec, hargc, hnull,
        fun hright => hnull hright.argv.null⟩

end Hana.Exec
