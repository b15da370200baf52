import Hana.Proc.Exec.Stack

/-!
# The layout of the initial stack

`Layout` says where things stand on the stack page, and `Built` what `buildStack` leaves behind
for any arguments. From the top of the page downwards each part is written below the one before
(`PageWrites`), so that what is there stays until the process enters the image
(`execve_entered`).
-/

namespace Hana.Exec

open Lib Vm Proc Option

variable {A : Type}

/-- What determines where things stand on the stack page. -/
structure Layout where
  hasInterp : Bool
  uenvp : Nat
  uargv : Nat
  envLens : List Nat
  argLens : List Nat

namespace Layout

/-! How much of the page is used, from the top: the strings of `envp` and of `argv`, the vector
for the interpreter with a word below it, the arrays of `envp` and of `argv`, and the word
`argc`. -/

def envStr (L : Layout) : Nat := leaveSpace + extent L.envLens

def argStr (L : Layout) : Nat := L.envStr + extent L.argLens

def gap (L : Layout) : Nat := L.argStr + auxUse L.hasInterp + 8

def envArr (L : Layout) : Nat := L.gap + arrayUse L.uenvp L.envLens.length

def argArr (L : Layout) : Nat := L.envArr + arrayUse L.uargv L.argLens.length

def use (L : Layout) : Nat := L.argArr + 8

variable (L : Layout)

lemma envArr_bounds (h : L.uenvp ≠ 0) :
    L.argStr + 8 + 8 * L.envLens.length ≤ L.envArr ∧ L.envArr ≤ L.use := by
  have hlen : arrayUse L.uenvp L.envLens.length = 8 + 8 * L.envLens.length := if_neg h
  unfold use argArr envArr gap
  omega

lemma argArr_bounds (h : L.uargv ≠ 0) :
    L.argStr + 8 + 8 * L.argLens.length ≤ L.argArr ∧ L.argArr ≤ L.use := by
  have hlen : arrayUse L.uargv L.argLens.length = 8 + 8 * L.argLens.length := if_neg h
  unfold use argArr envArr gap
  omega

end Layout

/-- The address of the user for the use `used`. -/
def stackAt (v : Vars A) (used : Nat) : Nat := stackVa v + (4096 - used)

/-- The array at the use `arr` points to strings from the use `str` on; the word above it is the
one of `m`. -/
structure ArrayOn (v : Vars A) (ustack arr str : Nat) (ks : List Nat) (m m' : Mem A) : Prop where
  ptr : ∀ i < ks.length, leWord m'.byte (ustack + (4096 - arr) + 8 * i) 8 = stackAt v str + offset ks i
  above : leWord m'.byte (ustack + (4096 - arr) + 8 * ks.length) 8 =
    leWord m.byte (ustack + (4096 - arr) + 8 * ks.length) 8

/-- The strings of the arguments stand on the page from the use `str` on. -/
def StringsOn (v : Vars A) (ustack str : Nat) (args : List Arg) (m' : Mem A) : Prop :=
  ∀ j (hj : j < args.length), args[j].ptr % 4096 + args[j].len < 4096 ∧
    ∀ t ≤ args[j].len, m'.byte (ustack + (4096 - str) + offset (lengths args) j + t) =
      v.mem.byte (phys v.mem v.proc.pagetable args[j].ptr + t)

/-- What `buildStack` leaves behind. -/
structure Built (K : Kernel A) (Inv : A → Prop) (Held : A → Nat → Nat → Prop) (lo hi : Nat)
    (v : Vars A) (tab : Nat → Option Place) (L : Layout) (ustack : Nat) (st : Stack A) : Prop where
  page : ∃ a, K.env.al.kalloc pgSize v.mem.alloc = some (ustack, a)
  range : 0 < ustack ∧ ustack < 2 ^ 64 ∧ 4096 ∣ ustack
  free : ∀ x, InRange ustack 4096 x → ¬ Taken Held lo hi v.mem.alloc x
  tables : ∃ tab', Shaped Inv Held st.mem tab' ∧ Builds Held v.pgtbl v.mem tab st.mem tab'
  leaf : ∀ vpn, leaf st.mem v.pgtbl vpn = if vpn % 2 ^ 27 = (stackVa v >>> 12) % 2 ^ 27
    then pa2pte ustack ||| stackFlags ||| pteV else leaf v.mem v.pgtbl vpn
  fits : L.use ≤ 4096
  bytes : ∀ x, Taken Held lo hi v.mem.alloc x → ¬ InRange K.locals.argv (8 * argSlots) x →
    ¬ InRange K.locals.envp (8 * argSlots) x → st.mem.byte x = v.mem.byte x
  argc : st.argc = L.argLens.length
  sp : st.sp = stackAt v L.use
  pEnvp : st.pEnvp = if L.uenvp = 0 then 0 else stackAt v L.envArr
  pArgv : st.pArgv = if L.uargv = 0 then 0 else stackAt v L.argArr
  argcWord : leWord st.mem.byte (ustack + (4096 - L.use)) 8 = L.argLens.length
  envp : L.uenvp ≠ 0 → ArrayOn v ustack L.envArr L.envStr L.envLens v.mem st.mem
  argv : L.uargv ≠ 0 → ArrayOn v ustack L.argArr L.argStr L.argLens v.mem st.mem
  envStrings : ∀ envs, ArgVec v.mem v.proc.pagetable L.uenvp envs →
    L.envLens = lengths envs ∧ StringsOn v ustack L.envStr envs st.mem
  argStrings : ∀ args, ArgVec v.mem v.proc.pagetable L.uargv args →
    L.argLens = lengths args ∧ StringsOn v ustack L.argStr args st.mem

variable {used j t o argc arr b a u fuel upath : Nat} {E : Env A} {headers : List (Nat × Nat)}

section

variable {Inv : A → Prop} {Held : A → Nat → Nat → Prop} {lo hi stack pages : Nat}
variable {K : Kernel A} {v : Vars A} {st : Stack A} {tab : Nat → Option Place} {uargv uenvp : Nat}

/-! ## Building -/

lemma stackPtr_eq (v : Vars A) (hpos : 0 < used) (hle : used ≤ 4096) :
    stackPtr (wrap64 (stackVa v + pgSize)) used = stackAt v used := by
  have hlt := stackVa_lt v
  have hdvd := stackVa_dvd v
  unfold stackPtr stackAt wrap64 pgSize
  omega

/-- The parts of the work when it is complete. -/
lemma buildStack_next (h : buildStack K uargv uenvp v = some (.next st)) :
    ∃ ustack m₀ envc envUsed m2 argc argUsed m3 auxUsed m4 pEnvp envArr m5 pArgv argArr m6 m7,
      mapUserStack K.env v.pgtbl (stackVa v) v.mem = some (ustack, m₀) ∧
      pushStrings K.env v.proc.pagetable uenvp K.locals.envp ustack leaveSpace
        (zeroBytes (ustack + (pgSize - leaveSpace)) leaveSpace m₀) = some (some (envc, envUsed), m2) ∧
      pushStrings K.env v.proc.pagetable uargv K.locals.argv ustack envUsed m2 =
        some (some (argc, argUsed), m3) ∧
      pushAuxv v.hasInterp v.elf ustack argUsed m3 = some (auxUsed, m4) ∧
      pushArray uenvp ustack K.locals.envp (stackPtr (wrap64 (stackVa v + pgSize)) envUsed) envc
        (wrap64 (stackVa v + pgSize)) (auxUsed + 8) m4 = some (pEnvp, envArr, m5) ∧
      pushArray uargv ustack K.locals.argv (stackPtr (wrap64 (stackVa v + pgSize)) argUsed) argc
        (wrap64 (stackVa v + pgSize)) envArr m5 = some (pArgv, argArr, m6) ∧
      stackStore ustack (argArr + 8) (leBytes 8 argc) m6 = some m7 ∧
      st = ⟨m7, argc, stackPtr (wrap64 (stackVa v + pgSize)) (argArr + 8), pArgv, pEnvp⟩ := by
  obtain ⟨⟨ustack, m₀⟩, hmap, h⟩ := bind_eq_some_iff.mp h
  obtain ⟨⟨env, m2⟩, henv, h⟩ := bind_eq_some_iff.mp h
  cases env with
  | none => cases h
  | some env =>
    obtain ⟨envc, envUsed⟩ := env
    obtain ⟨⟨args, m3⟩, hargs, h⟩ := bind_eq_some_iff.mp h
    cases args with
    | none => cases h
    | some args =>
      obtain ⟨argc, argUsed⟩ := args
      obtain ⟨⟨auxUsed, m4⟩, haux, h⟩ := bind_eq_some_iff.mp h
      obtain ⟨⟨pEnvp, envArr, m5⟩, henvArr, h⟩ := bind_eq_some_iff.mp h
      obtain ⟨⟨pArgv, argArr, m6⟩, hargArr, h⟩ := bind_eq_some_iff.mp h
      obtain ⟨m7, hstore, h⟩ := bind_eq_some_iff.mp h
      cases h
      exact ⟨ustack, m₀, envc, envUsed, m2, argc, argUsed, m3, auxUsed, m4, pEnvp, envArr, m5, pArgv,
        argArr, m6, m7, hmap, henv, hargs, haux, henvArr, hargArr, hstore, rfl⟩

/-- The strings of both arrays are on the stack: `m` is the memory before and `m'` the one after. -/
structure BothStrings (K : Kernel A) (Inv : A → Prop) (Held : A → Nat → Nat → Prop) (lo hi : Nat)
    (o : Nat) (L : Layout) (ustack : Nat) (m m' : Mem A) : Prop where
  fits : L.argStr ≤ 4096
  envCount : L.envLens.length ≤ argSlots ∧ (L.uenvp ≠ 0 → 0 < L.envLens.length)
  argCount : L.argLens.length ≤ argSlots ∧ (L.uargv ≠ 0 → 0 < L.argLens.length)
  works : Works Inv Held lo hi (fun x => (InRange K.locals.envp (8 * argSlots) x ∨
    InRange K.locals.argv (8 * argSlots) x) ∨ InRange ustack 4096 x) m m'
  page : PageWrites ustack leaveSpace L.argStr m m'
  envOffsets : ∀ j < L.envLens.length, argPtr m' K.locals.envp j = offset L.envLens j
  argOffsets : ∀ j < L.argLens.length, argPtr m' K.locals.argv j = offset L.argLens j
  envStrings : ∀ envs, ArgVec m o L.uenvp envs → L.envLens = lengths envs ∧
    ∀ j (hj : j < envs.length), envs[j].ptr % 4096 + envs[j].len < 4096 ∧
      ∀ t ≤ envs[j].len, m'.byte (ustack + (4096 - L.envStr) + offset L.envLens j + t) =
        m.byte (phys m o envs[j].ptr + t)
  argStrings : ∀ args, ArgVec m o L.uargv args → L.argLens = lengths args ∧
    ∀ j (hj : j < args.length), args[j].ptr % 4096 + args[j].len < 4096 ∧
      ∀ t ≤ args[j].len, m'.byte (ustack + (4096 - L.argStr) + offset L.argLens j + t) =
        m.byte (phys m o args[j].ptr + t)

variable {args : List Arg} {ustack str : Nat} {m m' m₁ m₀ : Mem A} {ks : List Nat}

lemma lt_slot_of_lengths (hj : j < args.length) (ht : t ≤ args[j].len) :
    offset (lengths args) j + t < extent (lengths args) := by
  have hlen : j < (lengths args).length := by
    rw [lengths, List.length_map]
    exact hj
  have hslot := offset_add_slot_le hlen
  rw [lengths_getD hj] at hslot
  unfold slot align8 at hslot
  omega

lemma pushStrings_both {envc envUsed argUsed : Nat} {m2 m3 : Mem A} (hasInterp : Bool)
    (hE : K.env.Ok lo hi Inv Held)
    (henv : Desk K.env Inv Held lo hi stack pages o K.locals.envp ustack m)
    (harg : Desk K.env Inv Held lo hi stack pages o K.locals.argv ustack m)
    (hapart : K.locals.argv + 8 * argSlots ≤ K.locals.envp ∨ K.locals.envp + 8 * argSlots ≤ K.locals.argv)
    (hu : uargv < 2 ^ 64) (hu' : uenvp < 2 ^ 64)
    (h2 : pushStrings K.env o uenvp K.locals.envp ustack leaveSpace m = some (some (envc, envUsed), m2))
    (h3 : pushStrings K.env o uargv K.locals.argv ustack envUsed m2 = some (some (argc, argUsed), m3)) :
    ∃ L : Layout, L.hasInterp = hasInterp ∧ L.uenvp = uenvp ∧ L.uargv = uargv ∧
      L.envLens.length = envc ∧ L.argLens.length = argc ∧ L.envStr = envUsed ∧ L.argStr = argUsed ∧
      BothStrings K Inv Held lo hi o L ustack m m3 := by
  obtain ⟨es, hes, hslots2, hpos2, huse2, hle2, hw2, hoff2, hstr2⟩ :=
    pushStrings_next hE henv hu' (by decide) h2
  have harg2 := harg.works hw2
  have henv2 := henv.works hw2
  obtain ⟨ls, hls, hslots3, hpos3, huse3, hle3, hw3, hoff3, hstr3⟩ :=
    pushStrings_next hE harg2 hu hle2 h3
  have hpage2 : PageWrites ustack leaveSpace envUsed m m2 :=
    Works.pageWrites henv (hw2.mono fun x hx => by
      rcases hx with hx | hx
      · exact .inl hx
      · refine .inr ?_
        omega) (by omega) hle2
  have hpage3 : PageWrites ustack envUsed argUsed m2 m3 :=
    Works.pageWrites harg2 (hw3.mono fun x hx => by
      rcases hx with hx | hx
      · exact .inl hx
      · refine .inr ?_
        omega) (by omega) hle3
  refine ⟨⟨hasInterp, uenvp, uargv, es, ls⟩, rfl, rfl, rfl, hes, hls, huse2.symm, ?_, ?_⟩
  · rw [Layout.argStr, Layout.envStr, huse3, huse2]
  · have henvStr : Layout.envStr ⟨hasInterp, uenvp, uargv, es, ls⟩ = envUsed := huse2.symm
    have hargStr : Layout.argStr ⟨hasInterp, uenvp, uargv, es, ls⟩ = argUsed := by
      rw [Layout.argStr, henvStr, huse3]
    refine ⟨by rw [hargStr]; exact hle3, ⟨hes.trans_le hslots2, by rw [hes]; exact hpos2⟩,
      ⟨hls.trans_le hslots3, by rw [hls]; exact hpos3⟩, ?_, ?_, ?_, ?_, ?_, ?_⟩
    · refine (hw2.trans hw3).mono fun x hx => ?_
      rcases hx with (hx | hx) | (hx | hx)
      · exact .inl (.inl hx)
      · refine .inr ?_
        omega
      · exact .inl (.inr hx)
      · refine .inr ?_
        omega
    · rw [hargStr]
      exact hpage2.trans hpage3 (by omega) (by omega)
    · intro j hj
      rw [hes] at hj
      rw [Works.argPtr henv2 hw3 ?_ (by omega), hoff2 j hj]
      rintro x hx (hin | hin)
      · omega
      · refine henv2.array_page hx ?_
        omega
    · intro j hj
      rw [hls] at hj
      exact hoff3 j hj
    · intro envs henvs
      obtain ⟨rfl, hcopy⟩ := hstr2 envs henvs
      refine ⟨rfl, fun j hj => ⟨(hcopy j hj).1, fun t ht => ?_⟩⟩
      have hlt := lt_slot_of_lengths hj ht
      rw [henvStr, ← (hcopy j hj).2 t ht]
      dsimp only
      refine hpage3 _ ?_ ?_
      · omega
      · omega
    · intro args hargs
      have hkeep : ∀ x, (InRange K.locals.envp (8 * argSlots) x ∨
          InRange (ustack + (4096 - envUsed)) (extent es) x) →
          InBlock stack pages x ∨ InRange ustack 4096 x := by
        rintro x (hx | hx)
        · exact .inl (henv.array_block hx)
        · refine .inr ?_
          omega
      obtain ⟨rfl, hcopy⟩ := hstr3 args (hargs.works harg hw2 hkeep)
      refine ⟨rfl, fun j hj => ⟨(hcopy j hj).1, fun t ht => ?_⟩⟩
      obtain ⟨_, ha⟩ := hargs.resolve_left fun hand => by
        rw [hand.2] at hj
        exact Nat.not_lt_zero j hj
      have hmem := List.getElem_mem hj
      have hpg := (hcopy j hj).1
      rw [hargStr, (hcopy j hj).2 t ht, phys_of_pte hw2.pte, ← phys_add (ha.ptr_lt hmem) (by omega)]
      exact harg.user_byte hw2 hkeep _ ((ha.string _ hmem).1.user t ht)

/-- An address of the user in the stack page does not wrap around. -/
lemma wrap64_stackAt (v : Vars A) {i : Nat} (hi : i < ks.length) (hstr : extent ks ≤ str)
    (hle : str ≤ 4096) :
    wrap64 (stackAt v str + offset ks i) % 2 ^ 64 = stackAt v str + offset ks i := by
  have hlt := stackVa_lt v
  have hdvd := stackVa_dvd v
  have hoff := offset_add_slot_le hi
  have hslot : 8 ≤ slot (ks.getD i 0) := by
    unfold slot align8
    omega
  unfold stackAt wrap64
  omega

/-- One array: its words, and what is not written. -/
lemma pushArray_on {uarr p used' : Nat} (v : Vars A)
    (hd : Desk E Inv Held lo hi stack pages o arr ustack m) (hslots : ks.length ≤ argSlots)
    (hpos : uarr ≠ 0 → 0 < ks.length) (hoff : ∀ j < ks.length, argPtr m arr j = offset ks j)
    (hstr : extent ks < str) (hsu : str ≤ used) (hused : used ≤ 4096)
    (h : pushArray uarr ustack arr (stackPtr (wrap64 (stackVa v + pgSize)) str) ks.length
      (wrap64 (stackVa v + pgSize)) used m = some (p, used', m')) :
    used' = used + arrayUse uarr ks.length ∧ used' ≤ 4096 ∧
      p = (if uarr = 0 then 0 else stackAt v used') ∧
      Works Inv Held lo hi (InRange ustack 4096) m m' ∧ PageWrites ustack used used' m m' ∧
      (uarr ≠ 0 → ArrayOn v ustack used' str ks m m') := by
  have hapart : ∀ x, InRange arr (8 * ks.length) x → ¬ InRange ustack 4096 x := by
    intro x hx
    refine hd.array_page ?_
    omega
  obtain ⟨rfl, hle, hp, hrest, hother, hwords⟩ := pushArray_spec hpos hused hapart h
  obtain ⟨hworks, hpage⟩ := works_page hd.inv hrest hother
  have huse : arrayUse uarr ks.length = if uarr = 0 then 0 else 8 + 8 * ks.length := rfl
  refine ⟨rfl, hle, ?_, hworks, hpage.mono ?_ le_rfl, fun hne => ⟨fun i hi => ?_, ?_⟩⟩
  · rw [hp, stackPtr_eq v (by omega) hle]
  · split_ifs at huse ⊢ <;> omega
  · rw [hwords hne i hi, hoff i hi, stackPtr_eq v (by omega) (by omega),
      wrap64_stackAt v hi (by omega) (by omega)]
  · rw [if_neg hne] at huse hpage
    rw [add_assoc]
    exact hpage.word (by omega) (.inr (by omega))

/-- What is written to the page later is not in the array. -/
lemma ArrayOn.after (h : ArrayOn v ustack arr str ks m m₁)
    (hp : PageWrites ustack arr b m₁ m') (hle : 8 + 8 * ks.length ≤ arr) (harr : arr ≤ 4096) :
    ArrayOn v ustack arr str ks m m' := by
  refine ⟨fun i hi => ?_, ?_⟩
  · rw [← h.ptr i hi, add_assoc]
    exact hp.word (by omega) (.inr (by omega))
  · rw [← h.above, add_assoc]
    exact hp.word (by omega) (.inr (by omega))

/-- What was written to the page before is above the array. -/
lemma ArrayOn.before (hp : PageWrites ustack a b m m₁)
    (h : ArrayOn v ustack arr str ks m₁ m') (hle : b + 8 + 8 * ks.length ≤ arr) (harr : arr ≤ 4096) :
    ArrayOn v ustack arr str ks m m' := by
  refine ⟨h.ptr, ?_⟩
  rw [h.above, add_assoc]
  exact hp.word (by omega) (.inl (by omega))

lemma stackStore_word {w : Nat} (hinv : Inv m.alloc) (hw : w < 2 ^ 64)
    (h : stackStore ustack (used + 8) (leBytes 8 w) m = some m') :
    used + 8 ≤ 4096 ∧ Works Inv Held lo hi (InRange ustack 4096) m m' ∧
      PageWrites ustack used (used + 8) m m' ∧ leWord m'.byte (ustack + (4096 - (used + 8))) 8 = w := by
  by_cases hfit : used + 8 ≤ 4096
  · rw [stackStore_eq hfit, some.injEq] at h
    have hother : ∀ x, ¬ (ustack + (4096 - (used + 8)) ≤ x ∧ x < ustack + (4096 - used)) →
        m'.byte x = m.byte x := by
      intro x hx
      rw [← h]
      refine writeBytes_out ?_
      rw [length_leBytes]
      omega
    obtain ⟨hworks, hpage⟩ := works_page hinv (by rw [← h]; rfl) hother
    refine ⟨hfit, hworks, hpage, ?_⟩
    have hword := storeWord_word (ustack + (4096 - (used + 8))) w m
    rw [Nat.mod_eq_of_lt hw] at hword
    rw [← h]
    exact hword
  · rw [stackStore_none (by omega)] at h
    cases h

/-- What is below the strings. -/
structure BothArrays (Inv : A → Prop) (Held : A → Nat → Nat → Prop) (lo hi : Nat) (v : Vars A)
    (L : Layout) (ustack pEnvp pArgv : Nat) (m m' : Mem A) : Prop where
  fits : L.use ≤ 4096
  works : Works Inv Held lo hi (InRange ustack 4096) m m'
  page : PageWrites ustack L.argStr L.use m m'
  pEnvp : pEnvp = if L.uenvp = 0 then 0 else stackAt v L.envArr
  pArgv : pArgv = if L.uargv = 0 then 0 else stackAt v L.argArr
  argcWord : leWord m'.byte (ustack + (4096 - L.use)) 8 = L.argLens.length
  envp : L.uenvp ≠ 0 → ArrayOn v ustack L.envArr L.envStr L.envLens m m'
  argv : L.uargv ≠ 0 → ArrayOn v ustack L.argArr L.argStr L.argLens m m'

lemma pushArrays_both {auxUsed pEnvp envArr pArgv argArr : Nat} {L : Layout}
    {m3 m4 m5 m6 m7 : Mem A}
    (henv : Desk K.env Inv Held lo hi stack pages o K.locals.envp ustack m3)
    (harg : Desk K.env Inv Held lo hi stack pages o K.locals.argv ustack m3)
    (hboth : BothStrings K Inv Held lo hi o L ustack m₁ m3)
    (h4 : pushAuxv L.hasInterp v.elf ustack L.argStr m3 = some (auxUsed, m4))
    (h5 : pushArray L.uenvp ustack K.locals.envp (stackPtr (wrap64 (stackVa v + pgSize)) L.envStr)
      L.envLens.length (wrap64 (stackVa v + pgSize)) (auxUsed + 8) m4 = some (pEnvp, envArr, m5))
    (h6 : pushArray L.uargv ustack K.locals.argv (stackPtr (wrap64 (stackVa v + pgSize)) L.argStr)
      L.argLens.length (wrap64 (stackVa v + pgSize)) envArr m5 = some (pArgv, argArr, m6))
    (h7 : stackStore ustack (argArr + 8) (leBytes 8 L.argLens.length) m6 = some m7) :
    argArr + 8 = L.use ∧ BothArrays Inv Held lo hi v L ustack pEnvp pArgv m3 m7 := by
  have henvStr : L.envStr = leaveSpace + extent L.envLens := rfl
  have hargStr : L.argStr = L.envStr + extent L.argLens := rfl
  have hleave : leaveSpace = 128 := rfl
  obtain ⟨haux, _, hrest4, hother4⟩ := pushAuxv_spec hboth.fits h4
  have hgap : auxUsed + 8 = L.gap := by rw [haux, Layout.gap]
  rw [hgap] at h5
  obtain rfl : envArr = L.envArr := pushArray_used h5
  obtain rfl : argArr = L.argArr := pushArray_used h6
  have huse : L.use = L.argArr + 8 := rfl
  have hargUse : L.argArr = L.envArr + arrayUse L.uargv L.argLens.length := rfl
  have henvUse : L.envArr = L.gap + arrayUse L.uenvp L.envLens.length := rfl
  -- the last store bounds everything that is above it
  have hfits : L.use ≤ 4096 := by
    by_contra hno
    rw [stackStore_none (by omega)] at h7
    cases h7
  obtain ⟨henvCount, henvPos⟩ := hboth.envCount
  obtain ⟨hargCount, hargPos⟩ := hboth.argCount
  obtain ⟨hw4, hpage4⟩ : Works Inv Held lo hi (InRange ustack 4096) m3 m4 ∧ _ :=
    works_page henv.inv hrest4 hother4
  have henv4 := henv.works hw4
  have harg4 := harg.works hw4
  have henvOff : ∀ j < L.envLens.length, argPtr m4 K.locals.envp j = offset L.envLens j := by
    intro j hj
    rw [Works.argPtr henv hw4 (fun x hx => henv.array_page hx) (by omega), hboth.envOffsets j hj]
  obtain ⟨_, _, hpEnvp, hw5, hpage5, henvArr⟩ := pushArray_on v henv4 henvCount henvPos henvOff
    (by omega) (by omega) (by omega) h5
  have harg5 := harg4.works hw5
  have hargOff : ∀ j < L.argLens.length, argPtr m5 K.locals.argv j = offset L.argLens j := by
    intro j hj
    rw [Works.argPtr harg4 hw5 (fun x hx => harg4.array_page hx) (by omega),
      Works.argPtr harg hw4 (fun x hx => harg.array_page hx) (by omega), hboth.argOffsets j hj]
  obtain ⟨_, _, hpArgv, hw6, hpage6, hargArr⟩ := pushArray_on v harg5 hargCount hargPos hargOff
    (by omega) (by omega) (by omega) h6
  have hargc : L.argLens.length < 2 ^ 64 := by
    unfold argSlots maxArgs at hargCount
    omega
  obtain ⟨_, hw7, hpage7, hargcWord⟩ : _ ∧ Works Inv Held lo hi (InRange ustack 4096) m6 m7 ∧ _ :=
    stackStore_word hw6.inv hargc h7
  have hpage5' : PageWrites ustack L.argStr L.envArr m3 m5 :=
    (hpage4.mono le_rfl (by omega : auxUsed ≤ L.gap)).trans hpage5 (by omega) (by omega)
  have hpage7' : PageWrites ustack L.envArr L.use m5 m7 :=
    hpage6.trans hpage7 (by omega) (by omega)
  refine ⟨rfl, hfits, ?_, hpage5'.trans hpage7' (by omega) (by omega), hpEnvp, hpArgv, hargcWord,
    fun hne => ?_, fun hne => ?_⟩
  · refine (((hw4.trans hw5).trans hw6).trans hw7).mono fun x hx => ?_
    rcases hx with ((hx | hx) | hx) | hx <;> exact hx
  · have hlen : arrayUse L.uenvp L.envLens.length = 8 + 8 * L.envLens.length := if_neg hne
    refine ArrayOn.before hpage4 ((henvArr hne).after hpage7' ?_ ?_) ?_ ?_ <;> omega
  · have hlen : arrayUse L.uargv L.argLens.length = 8 + 8 * L.argLens.length := if_neg hne
    refine ArrayOn.before hpage5' ((hargArr hne).after hpage7 ?_ ?_) ?_ ?_ <;> omega

/-- The stack page is mapped and its top is cleared: `m₁` is the memory when the strings are
pushed. -/
structure PageReady (K : Kernel A) (Inv : A → Prop) (Held : A → Nat → Nat → Prop)
    (lo hi stack pages : Nat) (v : Vars A) (ustack : Nat) (m₀ m₁ : Mem A) : Prop where
  env : Desk K.env Inv Held lo hi stack pages v.proc.pagetable K.locals.envp ustack m₁
  arg : Desk K.env Inv Held lo hi stack pages v.proc.pagetable K.locals.argv ustack m₁
  works : Works Inv Held lo hi (InRange ustack 4096) m₀ m₁
  page : PageWrites ustack 0 leaveSpace v.mem m₁
  leaf : ∀ vpn, leaf m₁ v.proc.pagetable vpn = leaf v.mem v.proc.pagetable vpn
  user : ∀ va, userPage v.mem v.proc.pagetable va = true →
    m₁.byte (phys v.mem v.proc.pagetable va) = v.mem.byte (phys v.mem v.proc.pagetable va)

lemma Running.pageReady (h : Running K Inv Held lo hi stack pages v tab)
    {tab0 : Nat → Option Place} (hs0 : Shaped Inv Held m₀ tab0)
    (hb0 : Builds Held v.pgtbl v.mem tab m₀ tab0) (hbyte0 : m₀.byte = v.mem.byte)
    (hheld0 : Held m₀.alloc ustack 1)
    (hfree : ∀ x, InRange ustack 4096 x → ¬ Taken Held lo hi v.mem.alloc x) :
    PageReady K Inv Held lo hi stack pages v ustack m₀
      (zeroBytes (ustack + (pgSize - leaveSpace)) leaveSpace m₀) := by
  have henv0 := h.desk hs0 hb0 hheld0 hfree h.envp
  have harg0 := h.desk hs0 hb0 hheld0 hfree h.argv
  have hzero : ∀ x, ¬ (ustack + (4096 - leaveSpace) ≤ x ∧ x < ustack + (4096 - 0)) →
      (zeroBytes (ustack + (pgSize - leaveSpace)) leaveSpace m₀).byte x = m₀.byte x := by
    intro x hx
    refine if_neg ?_
    unfold pgSize leaveSpace at *
    omega
  obtain ⟨hw1, hpage1⟩ : Works Inv Held lo hi (InRange ustack 4096) m₀ _ ∧ _ :=
    works_page hs0.alloc rfl hzero
  have hleaf := hb0.leaf h.root h.ne
  refine ⟨henv0.works hw1, harg0.works hw1, hw1, ?_, ?_, ?_⟩
  · intro x hx hno
    rw [hpage1 x hx hno, hbyte0]
  · intro vpn
    exact hleaf vpn
  · intro va huser
    rw [← userPage_of_leaf hleaf] at huser
    rw [← phys_of_leaf hleaf, ← hbyte0]
    exact henv0.user_byte hw1 (fun x hx => .inr hx) va huser

section

variable (h : PageReady K Inv Held lo hi stack pages v ustack m₀ m₁)
include h

lemma PageReady.argVec
    (ha : ArgVec v.mem v.proc.pagetable u args) : ArgVec m₁ v.proc.pagetable u args :=
  ha.congr h.leaf h.user

/-- The strings are those of the caller when the call began to build the stack. -/
lemma PageReady.string (ha : ArgVec v.mem v.proc.pagetable u args) (hj : j < args.length)
    (hpage : args[j].ptr % 4096 + args[j].len < 4096) (ht : t ≤ args[j].len) :
    m₁.byte (phys m₁ v.proc.pagetable args[j].ptr + t) =
      v.mem.byte (phys v.mem v.proc.pagetable args[j].ptr + t) := by
  obtain ⟨_, harr⟩ := ha.resolve_left fun hand => by
    rw [hand.2] at hj
    exact Nat.not_lt_zero j hj
  have hmem := List.getElem_mem hj
  rw [phys_of_leaf h.leaf, ← phys_add (harr.ptr_lt hmem) (by omega)]
  exact h.user _ ((harr.string _ hmem).1.user t ht)

/-- What is on the page from the use `str` on is there to the end. -/
lemma StringsOn.of_page {m3 : Mem A}
    (ha : ArgVec v.mem v.proc.pagetable u args) (hp : PageWrites ustack a b m3 m')
    (hle : str ≤ a) (hstr : extent (lengths args) ≤ str) (hstrle : str ≤ 4096)
    (hcopy : ∀ j (hj : j < args.length), args[j].ptr % 4096 + args[j].len < 4096 ∧
      ∀ t ≤ args[j].len, m3.byte (ustack + (4096 - str) + offset (lengths args) j + t) =
        m₁.byte (phys m₁ v.proc.pagetable args[j].ptr + t)) :
    StringsOn v ustack str args m' := by
  intro j hj
  obtain ⟨hpage, hbytes⟩ := hcopy j hj
  refine ⟨hpage, fun t ht => ?_⟩
  have hlt := lt_slot_of_lengths hj ht
  rw [← h.string ha hj hpage ht, ← hbytes t ht]
  refine hp _ ?_ ?_
  · omega
  · omega

end

/-- Everything that `buildStack` does, for any arguments. -/
lemma buildStack_built (hE : K.env.Ok lo hi Inv Held)
    (h : Running K Inv Held lo hi stack pages v tab) (hu : uargv < 2 ^ 64) (hu' : uenvp < 2 ^ 64)
    (hb : buildStack K uargv uenvp v = some (.next st)) :
    ∃ (L : Layout) (ustack : Nat), L.hasInterp = v.hasInterp ∧ L.uenvp = uenvp ∧ L.uargv = uargv ∧
      Built K Inv Held lo hi v tab L ustack st := by
  obtain ⟨ustack, m₀, envc, envUsed, m2, argc, argUsed, m3, auxUsed, m4, pEnvp, envArr, m5, pArgv,
    argArr, m6, m7, hmap, h2, h3, h4, h5, h6, h7, rfl⟩ := buildStack_next hb
  obtain ⟨tab0, a, halloc, hs0, hb0, hbyte0, hheld0, hfree, hpos, hlt, hdvd, hleaf0⟩ :=
    mapUserStack_spec hE h.shaped h.new (stackVa_dvd v) (stackVa_lt v) hmap
  have hready := h.pageReady hs0 hb0 hbyte0 hheld0 hfree
  obtain ⟨L, hinterp, rfl, rfl, rfl, rfl, rfl, rfl, hboth⟩ :=
    pushStrings_both v.hasInterp hE hready.env hready.arg h.apart hu hu' h2 h3
  rw [← hinterp] at h4
  obtain ⟨huse, harrays⟩ := pushArrays_both (hready.env.works hboth.works)
    (hready.arg.works hboth.works) hboth h4 h5 h6 h7
  have hw := (hready.works.trans hboth.works).trans harrays.works
  have henvStr : L.envStr = leaveSpace + extent L.envLens := rfl
  have hargStr : L.argStr = L.envStr + extent L.argLens := rfl
  have hfits := hboth.fits
  have hpage3 : PageWrites ustack 0 L.argStr v.mem m3 :=
    hready.page.trans hboth.page (Nat.zero_le _) (by omega)
  refine ⟨L, ustack, hinterp, rfl, rfl, ⟨a, halloc⟩, ⟨hpos, hlt, hdvd⟩, hfree,
    ⟨tab0, hw.shaped hs0, hb0.trans hw.builds⟩, ?_, harrays.fits, ?_, rfl, ?_, harrays.pEnvp,
    harrays.pArgv, harrays.argcWord, fun hne => ?_, fun hne => ?_, fun envs henvs => ?_,
    fun args hargs => ?_⟩
  · intro vpn
    rw [← hleaf0 vpn]
    exact leaf_of_pte hw.pte _ vpn
  · intro x hx harg henv
    have hnot : ¬ InRange ustack 4096 x := fun hin => hfree x hin hx
    rw [hw.bytes x (hx.mono hb0.held) ?_, hbyte0]
    rintro ((hin | (hin | hin) | hin) | hin)
    · exact hnot hin
    · exact henv hin
    · exact harg hin
    · exact hnot hin
    · exact hnot hin
  · rw [huse, stackPtr_eq v (by rw [← huse]; omega) harrays.fits]
  · obtain ⟨hlow, hhigh⟩ := L.envArr_bounds hne
    have huse' := harrays.fits
    exact ArrayOn.before hpage3 (harrays.envp hne) hlow (by omega)
  · obtain ⟨hlow, hhigh⟩ := L.argArr_bounds hne
    have huse' := harrays.fits
    exact ArrayOn.before hpage3 (harrays.argv hne) hlow (by omega)
  · obtain ⟨hlens, hcopy⟩ := hboth.envStrings envs (hready.argVec henvs)
    rw [hlens] at hcopy henvStr
    exact ⟨hlens, StringsOn.of_page hready henvs harrays.page (by omega) (by omega) (by omega) hcopy⟩
  · obtain ⟨hlens, hcopy⟩ := hboth.argStrings args (hready.argVec hargs)
    rw [hlens] at hcopy hargStr
    exact ⟨hlens, StringsOn.of_page hready hargs harrays.page (by omega) (by omega) (by omega) hcopy⟩

/-! ## Entering the image -/

lemma uvmfreeVma_freewalk {r : Nat} {vmas : List VmArea}
    (h : uvmfreeVma E r vmas m = some m') : freewalk E 3 r m = some m' := by
  obtain ⟨m₁, hloop, hwalk⟩ := bind_eq_some_iff.mp h
  have hsame : m₁ = m := foldlM_invariant (P := fun m₁ => m₁ = m) rfl
    (fun m₁ vma m2 heq hturn => (uvmunmap_same hturn).trans heq) hloop
  rw [← hsame]
  exact hwalk

/-- The old table is given up; the new one and the contents of memory stay. -/
lemma procFreePagetable_keeps {p : Caller} (hE : E.Ok lo hi Inv Held)
    (hs : Shaped Inv Held m tab) (hroot : tab p.pagetable = some (rootPlace p.pagetable))
    (hc : Clean p.pagetable m tab) (h : procFreePagetable E fuel p m = some m') :
    m'.byte = m.byte ∧ ∀ {q}, tab q = some (rootPlace q) → q ≠ p.pagetable →
      ∀ vpn, leaf m' q vpn = leaf m q vpn := by
  unfold procFreePagetable at h
  split_ifs at h
  · cases h
    exact ⟨rfl, fun _ _ _ => rfl⟩
  · simp only [bind_eq_bind, bind_eq_some_iff] at h
    obtain ⟨m₁, hun1, m2, hun2, vmas, _, h⟩ := h
    obtain rfl := uvmunmap_same hun1
    obtain rfl := uvmunmap_same hun2
    exact (freewalk_keeps hE hs hc hroot (uvmfreeVma_freewalk h)).2

lemma sysExecve_runs {s s' : State A}
    (h : sysExecve K fuel upath uargv uenvp s = some (.runs argc headers s')) :
    ∃ v st m₁ up m2, prepare K upath s = some (.next v) ∧
      buildStack K uargv uenvp v = some (.next st) ∧
      procFreePagetable K.env fuel v.proc st.mem = some m₁ ∧
      kalloc K.env sizeofUpagetable m₁ = some (up, m2) ∧ argc = st.argc ∧ headers = v.headers ∧
      s'.mem = m2 ∧ s'.proc.pagetable = v.pgtbl ∧ s'.proc.regs.sp = st.sp ∧
      s'.proc.regs.a1 = st.pArgv ∧ s'.proc.regs.a2 = st.pEnvp := by
  obtain ⟨flow, hflow, h⟩ := bind_eq_some_iff.mp h
  cases flow with
  | bad pgtbl sz s1 =>
    obtain ⟨s2, _, h⟩ := bind_eq_some_iff.mp h
    cases h
  | next vst =>
    obtain ⟨v, st⟩ := vst
    obtain ⟨v1, hprep, hflow⟩ := andThen_eq_next hflow
    obtain ⟨st1, hstack, hflow⟩ := andThen_eq_next hflow
    cases hflow
    simp only [enterImage, bind_eq_bind, bind_eq_some_iff, Prod.exists,
      some.injEq, Result.runs.injEq] at h
    obtain ⟨m₁, hfree, up, m2, hup, rfl, rfl, rfl⟩ := h
    exact ⟨v, st, m₁, up, m2, hprep, hstack, hfree, hup, rfl, rfl, rfl, rfl, rfl, rfl, rfl⟩

/-- The image when the process enters it: the stack is what `buildStack` left, and nothing that
the new table reaches has changed since. -/
lemma execve_entered {s s' : State A} (hE : K.env.Ok lo hi Inv Held)
    (hready : Ready K Inv Held lo hi stack pages s tab) (hu : uargv < 2 ^ 64) (hu' : uenvp < 2 ^ 64)
    (h : sysExecve K fuel upath uargv uenvp s = some (.runs argc headers s')) :
    ∃ v tab' L ustack st, prepare K upath s = some (.next v) ∧
      Running K Inv Held lo hi stack pages v tab' ∧ L.hasInterp = v.hasInterp ∧ L.uenvp = uenvp ∧
      L.uargv = uargv ∧ Built K Inv Held lo hi v tab' L ustack st ∧ argc = st.argc ∧
      headers = v.headers ∧ s'.mem.byte = st.mem.byte ∧ s'.proc.pagetable = v.pgtbl ∧
      (∀ vpn, leaf s'.mem v.pgtbl vpn = leaf st.mem v.pgtbl vpn) ∧ s'.proc.regs.sp = st.sp ∧
      s'.proc.regs.a1 = st.pArgv ∧ s'.proc.regs.a2 = st.pEnvp := by
  obtain ⟨v, st, m₁, up, m2, hprep, hstack, hfree, hup, hargc, hheaders, hmem, htable, hsp, ha1, ha2⟩ :=
    sysExecve_runs h
  obtain ⟨tab', hloaded⟩ := prepare_loaded hE hready.shaped hprep
  have hrunning := hready.running hloaded
  obtain ⟨L, ustack, hinterp, henv, harg, hbuilt⟩ := buildStack_built hE hrunning hu hu' hstack
  obtain ⟨tab1, hs1, hb1⟩ := hbuilt.tables
  obtain ⟨hbyte, hleaf⟩ := procFreePagetable_keeps hE hs1 (hb1.le hrunning.root)
    (hb1.clean hrunning.ne hrunning.clean) hfree
  obtain ⟨⟨q, a⟩, _, heq⟩ := bind_eq_some_iff.mp hup
  cases heq
  refine ⟨v, tab', L, ustack, st, hprep, hrunning, hinterp, henv, harg, hbuilt, hargc, hheaders, ?_,
    htable, ?_, hsp, ha1, ha2⟩
  · rw [hmem, ← hbyte]
  · intro vpn
    rw [hmem, ← hleaf (hb1.le hrunning.new) hrunning.ne.symm]
    rfl

end

end Hana.Exec
