import Hana.Fs.Path
import Mathlib.Data.Nat.SuccPred

/-!
# What path resolution leaves in the buffer

The loop of `fullpath_connect` does not write a slash between two names, and the branch for `..`
takes the slash in front of the name with it. So the buffer ends with a slash only until the first
component has been taken. From then on it holds the text of a list of components of which every
further name changes only the last one.
-/

namespace Hana.Path

open Function List Option

section

variable {p n rest st : List Char} {cs ds : List (List Char)} {c : List Char} {b b' : Buf}
  {fuel : Nat}

/-! ## The text below the cursor -/

/-- The buffer holds a text that ends at the cursor. -/
structure Holds (b : Buf) (st : List Char) : Prop where
  length : b.iF = st.length
  text : ∀ k < st.length, st[k]? = some (b.fullPath k)

lemma Holds.text_eq (h : Holds b st) : b.text = st := by
  apply ext_getElem?
  intro k
  have hat : b.iF.toNat = st.length := by
    rw [h.length]
    rfl
  rw [Buf.text, hat, getElem?_map]
  by_cases hk : k < st.length
  · rw [getElem?_range hk, h.text k hk]
    rfl
  · rw [getElem?_eq_none (by rw [length_range]; omega), getElem?_eq_none (by omega)]
    rfl

lemma holds_text (h : 0 ≤ b.iF) : Holds b b.text := by
  have hlen : b.text.length = b.iF.toNat := by simp [Buf.text]
  refine ⟨by omega, fun k hk => ?_⟩
  rw [Buf.text, getElem?_map, getElem?_range (by omega)]
  rfl

lemma Holds.put (h : Holds b st) (hlt : st.length < maxPathLen) (x : Char) :
    ∃ b', b.put x = some b' ∧ Holds b' (st ++ [x]) := by
  have hbound : 0 ≤ b.iF ∧ b.iF < maxPathLen := by
    rw [h.length]
    omega
  have hat : b.iF.toNat = st.length := by
    rw [h.length]
    rfl
  refine ⟨_, if_pos hbound, by simp [h.length], fun k hk => ?_⟩
  rw [length_append, length_singleton] at hk
  show _ = some (update b.fullPath b.iF.toNat x k)
  rw [hat]
  by_cases hlast : k = st.length
  · rw [hlast, getElem?_concat_length, update_self]
  · have hk' : k < st.length := by omega
    rw [update_of_ne hlast, getElem?_append_left hk']
    exact h.text k hk'

lemma Holds.copyName (h : Holds b st) (hn : '/' ∉ n) (hrest : rest = [] ∨ rest.head? = some '/')
    (hlt : st.length + n.length < maxPathLen) :
    ∃ b', copyName (n ++ rest) b = some (rest, b') ∧ Holds b' (st ++ n) := by
  induction n generalizing b st with
  | nil =>
    refine ⟨b, ?_, by rwa [append_nil]⟩
    cases rest with
    | nil => rfl
    | cons x rest =>
      have hx : x = '/' := by simpa using hrest
      simp [Path.copyName, hx]
  | cons x n ih =>
    rw [length_cons] at hlt
    obtain ⟨b1, hput, h1⟩ := h.put (by omega) x
    obtain ⟨b', hcopy, h'⟩ := ih h1 (fun hm => hn (mem_cons_of_mem _ hm)) (by
      rw [length_append, length_singleton]
      omega)
    have hcond : x ≠ '/' ∧ b.iF < maxPathLen := by
      refine ⟨fun heq => hn (heq ▸ mem_cons_self), ?_⟩
      rw [h.length]
      omega
    refine ⟨b', ?_, by rwa [append_assoc] at h'⟩
    rw [cons_append, Path.copyName, if_pos hcond, hput]
    exact hcopy

/-- Going back stops behind the last slash. -/
lemma backUp_eq {full : Nat → Char} {k d : Nat} (hslash : full k = '/')
    (hrest : ∀ i, k < i → i < k + 1 + d → full i ≠ '/') : backUp full (k + 1 + d) = k + 1 := by
  induction d with
  | zero => simp [backUp, hslash]
  | succ d ih =>
    rw [← Nat.add_assoc, backUp, if_pos (hrest (k + 1 + d) (by omega) (by omega))]
    exact ih fun i hi hi' => hrest i hi (by omega)

/-- The branch for `..` takes the last character, the name in front of it, and its slash. -/
lemma Holds.dotdot {d : List Char} {x : Char} (h : Holds b (joined cs ++ '/' :: d ++ [x]))
    (hd : '/' ∉ d) : Holds b.dotdot (joined cs) := by
  have hlen : b.iF = ((joined cs).length + 1 + d.length : Nat) + 1 := by
    rw [h.length]
    simp
    omega
  have hat : ∀ k < (joined cs).length + 1 + d.length,
      (joined cs ++ '/' :: d)[k]? = some (b.fullPath k) := by
    intro k hk
    have hk' : k < (joined cs ++ '/' :: d).length := by
      simp
      omega
    rw [← h.text k (by rw [length_append]; omega), getElem?_append_left hk']
  have hback : backUp b.fullPath ((joined cs).length + 1 + d.length) = (joined cs).length + 1 := by
    refine backUp_eq ?_ fun i hi hi' => ?_
    · have hslash := hat (joined cs).length (by omega)
      rw [getElem?_append_right (Nat.le_refl _), Nat.sub_self] at hslash
      exact (some.inj hslash).symm
    · have hname := hat i hi'
      obtain ⟨j, hj⟩ : ∃ j, i - (joined cs).length = j + 1 := ⟨i - (joined cs).length - 1, by omega⟩
      rw [getElem?_append_right (by omega), hj, getElem?_cons_succ] at hname
      exact ne_of_mem_of_not_mem (mem_of_getElem? hname) hd
  have hcursor : b.dotdot.iF = (joined cs).length := by
    simp only [Buf.dotdot, hlen, Int.add_sub_cancel, Int.toNat_natCast, hback]
    omega
  refine ⟨hcursor, fun k hk => ?_⟩
  have hleft : (joined cs ++ '/' :: d)[k]? = (joined cs)[k]? := getElem?_append_left hk
  rw [← hleft]
  exact hat k (by omega)

/-! ## The cursor -/

lemma backUp_le (full : Nat → Char) (k : Nat) : backUp full k ≤ k := by
  induction k with
  | zero => exact Nat.le_refl 0
  | succ k ih =>
    unfold backUp
    split
    · exact Nat.le_succ_of_le ih
    · exact Nat.le_refl _

lemma dotdot_le (b : Buf) : b.dotdot.iF ≤ b.iF := by
  have hback := backUp_le b.fullPath (b.iF - 1).toNat
  simp only [Buf.dotdot]
  by_cases hpos : 0 < b.iF - 1
  · split <;> omega
  · omega

lemma copyName_le (h : copyName p b = some (rest, b')) :
    b'.iF + rest.length ≤ b.iF + p.length := by
  induction p generalizing b with
  | nil =>
    cases h
    exact Int.le_refl _
  | cons x p ih =>
    unfold copyName at h
    split at h
    next hcond =>
      obtain ⟨b1, hput, hcopy⟩ := bind_eq_some_iff.mp h
      obtain ⟨-, heq⟩ := ite_none_right_eq_some.mp hput
      have hcur : b1.iF = b.iF + 1 := by rw [← some.inj heq]
      have hle := ih hcopy
      rw [length_cons]
      omega
    next =>
      cases h
      exact Int.le_refl _

/-- The loop writes at most one character for each that it takes. -/
lemma connectLoop_le (h : connectLoop fuel p b = some (rest, b')) :
    b'.iF + rest.length ≤ b.iF + p.length := by
  induction fuel generalizing p b with
  | zero =>
    unfold connectLoop at h
    split at h
    · cases h
    · cases h
      exact Int.le_refl _
  | succ fuel ih =>
    have hdrop := (dropWhile_suffix (l := p) (· == '/')).length_le
    simp only [connectLoop] at h
    split at h
    · split at h
      · have hle := ih h
        have hup := dotdot_le b
        rw [length_drop] at hle
        omega
      · split at h
        · have hle := ih h
          rw [length_drop] at hle
          omega
        · obtain ⟨⟨q, b1⟩, hcopy, hloop⟩ := bind_eq_some_iff.mp h
          have hle : b'.iF + rest.length ≤ b1.iF + q.length := ih hloop
          have hname := copyName_le hcopy
          omega
    · cases h
      exact Int.le_refl _

/-! ## A buffer that has lost its first slash -/

/-- The cursor is at the start of the buffer or before it, or the text does not start with a
slash. -/
def Lost (b : Buf) : Prop := b.iF ≤ 0 ∨ b.fullPath 0 ≠ '/'

lemma Lost.not_holds (h : Lost b) (hst : st.head? = some '/') : ¬ Holds b st := by
  intro hh
  cases st with
  | nil => cases hst
  | cons x st =>
    have hx : x = '/' := by simpa using hst
    rcases h with h | h
    · have hlen := hh.length
      rw [length_cons] at hlen
      omega
    · have hfirst := hh.text 0 (Nat.zero_lt_succ _)
      exact h ((some.inj hfirst).symm.trans hx)

lemma Lost.dotdot (h : Lost b) : Lost b.dotdot := by
  rcases h with h | h
  · left
    simp only [Buf.dotdot]
    omega
  · exact .inr h

lemma Lost.put {x : Char} (h : Lost b) (hx : x ≠ '/') (hput : b.put x = some b') : Lost b' := by
  obtain ⟨⟨hlow, -⟩, heq⟩ := ite_none_right_eq_some.mp hput
  rw [← some.inj heq]
  right
  show update b.fullPath b.iF.toNat x 0 ≠ '/'
  by_cases hzero : b.iF.toNat = 0
  · rw [hzero, update_self]
    exact hx
  · rw [update_of_ne (Ne.symm hzero)]
    exact h.resolve_left (by omega)

lemma Lost.copyName (h : Lost b) (hcopy : copyName p b = some (rest, b')) : Lost b' := by
  induction p generalizing b with
  | nil =>
    cases hcopy
    exact h
  | cons x p ih =>
    unfold Path.copyName at hcopy
    split at hcopy
    next hcond =>
      obtain ⟨b1, hput, hcopy⟩ := bind_eq_some_iff.mp hcopy
      exact ih (h.put hcond.1 hput) hcopy
    next =>
      cases hcopy
      exact h

lemma Lost.connectLoop (h : Lost b) (hloop : connectLoop fuel p b = some (rest, b')) : Lost b' := by
  induction fuel generalizing b p with
  | zero =>
    unfold Path.connectLoop at hloop
    split at hloop
    · cases hloop
    · cases hloop
      exact h
  | succ fuel ih =>
    simp only [Path.connectLoop] at hloop
    split at hloop
    · split at hloop
      · exact ih h.dotdot hloop
      · split at hloop
        · exact ih h hloop
        · obtain ⟨⟨q, b1⟩, hcopy, hloop⟩ := bind_eq_some_iff.mp hloop
          exact ih (h.copyName hcopy) hloop
    · cases hloop
      exact h

/-! ## One turn of the loop -/

/-- The path ends in a `.` that no slash follows. -/
def endsInDot (p : List Char) : Bool := (p.splitOn '/').getLast? == some ['.']

/-- The components that matter. -/
def moves (p : List Char) : List (List Char) := (components p).filter (· ≠ ['.'])

/-- The path goes on with the component `n` behind its slashes. -/
structure Comp (p n rest : List Char) : Prop where
  drop : p.dropWhile (· == '/') = n ++ rest
  plain : Plain n
  next : rest = [] ∨ rest.head? = some '/'
  comps : components p = n :: components rest
  length : n.length + rest.length ≤ p.length
  dot : endsInDot p = if rest = [] then n == ['.'] else endsInDot rest

/-- What a turn of the loop finds. -/
inductive View (p : List Char) : Prop
  | blank (h : p.dropWhile (· == '/') = []) (hcomp : components p = []) (hdot : endsInDot p = false)
  | comp (n rest : List Char) (h : Comp p n rest)

lemma endsInDot_slash (p : List Char) : endsInDot ('/' :: p) = endsInDot p := by
  obtain ⟨l, ls, hls⟩ := exists_cons_of_ne_nil (splitOn_ne_nil '/' p)
  rw [endsInDot, endsInDot, splitOn_slash, hls, getLast?_cons_cons]

lemma endsInDot_append (hn : '/' ∉ n) (p : List Char) : endsInDot (n ++ '/' :: p) = endsInDot p := by
  obtain ⟨l, ls, hls⟩ := exists_cons_of_ne_nil (splitOn_ne_nil '/' p)
  rw [endsInDot, endsInDot, splitOn_append hn, hls, getLast?_cons_cons]

lemma endsInDot_plain (hn : '/' ∉ n) : endsInDot n = (n == ['.']) := by
  rw [endsInDot, splitOn_eq_singleton hn]
  rfl

lemma view (p : List Char) : View p := by
  induction p with
  | nil => exact .blank rfl rfl rfl
  | cons x p ih =>
    by_cases hx : x = '/'
    · subst hx
      -- a slash is skipped
      cases ih with
      | blank h hcomp hdot =>
        exact .blank h ((components_slash p).trans hcomp) ((endsInDot_slash p).trans hdot)
      | comp n rest h =>
        exact .comp n rest ⟨h.drop, h.plain, h.next, (components_slash p).trans h.comps,
          Nat.le_succ_of_le h.length, (endsInDot_slash p).trans h.dot⟩
    · have hdrop : (x :: p).dropWhile (· == '/') = x :: p :=
        dropWhile_cons_of_neg (by simpa using hx)
      have hsplit := takeWhile_append_dropWhile (p := (· != '/')) (l := x :: p)
      have hn : Plain ((x :: p).takeWhile (· != '/')) := by
        refine ⟨?_, fun hm => ?_⟩
        · rw [takeWhile_cons_of_pos (by simpa using hx)]
          exact cons_ne_nil _ _
        · have hall := all_eq_true.mp all_takeWhile _ hm
          simp at hall
      have hlen := congrArg length hsplit
      rw [length_append] at hlen
      have hhead : (x :: p).dropWhile (· != '/') = [] ∨
          ∃ r, (x :: p).dropWhile (· != '/') = '/' :: r := by
        rcases hr : (x :: p).dropWhile (· != '/') with _ | ⟨y, r⟩
        · exact .inl rfl
        · have hy := head_dropWhile_not (p := (· != '/')) (l := x :: p) (by simp [hr])
          simp only [hr, head_cons, bne_eq_false_iff_eq] at hy
          exact .inr ⟨r, by rw [hy]⟩
      generalize (x :: p).takeWhile (· != '/') = n at hsplit hn hlen
      generalize (x :: p).dropWhile (· != '/') = rest at hsplit hhead hlen
      rcases hhead with rfl | ⟨r, rfl⟩
      · rw [append_nil] at hsplit
        subst hsplit
        refine .comp (x :: p) [] ⟨by rw [append_nil]; exact hdrop, hn, .inl rfl,
          components_plain hn, Nat.le_of_eq hlen, ?_⟩
        exact endsInDot_plain hn.2
      · refine .comp n ('/' :: r) ⟨by rw [hsplit]; exact hdrop, hn, .inr rfl, ?_,
          Nat.le_of_eq hlen, ?_⟩
        · rw [← hsplit, components_append hn, components_slash]
        · rw [if_neg (cons_ne_nil _ _), ← hsplit, endsInDot_append hn.2, endsInDot_slash]

/-- The loop ends, and the buffer then holds the canonical text of what the path leads to. -/
def Right (fuel : Nat) (p : List Char) (b : Buf) (cs : List (List Char)) : Prop :=
  ∃ b', connectLoop fuel p b = some ([], b') ∧ Holds b' (render (resolve cs (components p)))

lemma connectLoop_nil (fuel : Nat) (b : Buf) : connectLoop fuel [] b = some ([], b) := by
  cases fuel <;> rfl

lemma right_nil : Right fuel [] b cs ↔ Holds b (render cs) := by
  constructor
  · rintro ⟨b', hloop, h⟩
    rw [connectLoop_nil] at hloop
    cases hloop
    exact h
  · intro h
    exact ⟨b, connectLoop_nil fuel b, h⟩

lemma Lost.not_right (h : Lost b) : ¬ Right fuel p b cs := by
  rintro ⟨b', hloop, hh⟩
  exact (h.connectLoop hloop).not_holds (head?_render _) hh

lemma isDotdot_append (hn : Plain n) (hrest : rest = [] ∨ rest.head? = some '/') :
    isDotdot (n ++ rest) = (n == ['.', '.']) := by
  obtain ⟨hne, hslash⟩ := hn
  rcases n with _ | ⟨x, _ | ⟨y, _ | ⟨z, n⟩⟩⟩
  · exact absurd rfl hne
  · rcases rest with _ | ⟨r, rest⟩
    · simp [isDotdot]
    · have hr : r = '/' := by simpa using hrest
      simp [isDotdot, hr]
  · rcases rest with _ | ⟨r, rest⟩
    · by_cases hx : x = '.' <;> by_cases hy : y = '.' <;> simp [isDotdot, hx, hy]
    · have hr : r = '/' := by simpa using hrest
      by_cases hx : x = '.' <;> by_cases hy : y = '.' <;> simp [isDotdot, hr, hx, hy]
  · have hz : z ≠ '/' := fun heq => hslash (by simp [heq])
    by_cases hx : x = '.' <;> by_cases hy : y = '.' <;> simp [isDotdot, hx, hy, hz]

lemma isDot_append (hn : Plain n) (hrest : rest = [] ∨ rest.head? = some '/') :
    isDot (n ++ rest) = (n == ['.'] && rest != []) := by
  obtain ⟨hne, hslash⟩ := hn
  rcases n with _ | ⟨x, _ | ⟨y, n⟩⟩
  · exact absurd rfl hne
  · rcases rest with _ | ⟨r, rest⟩
    · simp [isDot]
    · have hr : r = '/' := by simpa using hrest
      by_cases hx : x = '.' <;> simp [isDot, hr, hx]
  · have hy : y ≠ '/' := fun heq => hslash (by simp [heq])
    by_cases hx : x = '.' <;> simp [isDot, hx, hy]

lemma Comp.ne_nil (h : Comp p n rest) : p ≠ [] := by
  rintro rfl
  exact h.plain.1 (append_eq_nil_iff.mp h.drop.symm).1

lemma Comp.connectLoop (h : Comp p n rest) (hlt : b.iF < maxPathLen) :
    connectLoop (fuel + 1) p b =
      if n = ['.', '.'] then connectLoop fuel rest b.dotdot
      else if n = ['.'] ∧ rest ≠ [] then connectLoop fuel rest b
      else (copyName (n ++ rest) b).bind fun x => connectLoop fuel x.1 x.2 := by
  rw [Path.connectLoop, if_pos ⟨h.ne_nil, hlt⟩]
  simp only [h.drop, isDotdot_append h.plain h.next, isDot_append h.plain h.next]
  by_cases hup : n = ['.', '.']
  · simp [hup]
  · by_cases hhere : n = ['.'] ∧ rest ≠ []
    · simp [hhere.1, hhere.2]
    · rw [if_neg (by simpa using hup), if_neg hup, if_neg (by simpa using hhere), if_neg hhere]
      rfl

lemma Comp.right_up (h : Comp p n rest) (hn : n = ['.', '.']) (hlt : b.iF < maxPathLen) :
    Right (fuel + 1) p b cs ↔ Right fuel rest b.dotdot cs.dropLast := by
  unfold Right
  rw [h.connectLoop hlt, if_pos hn, h.comps, hn]
  rfl

lemma Comp.right_here (h : Comp p n rest) (hn : n = ['.']) (hrest : rest ≠ [])
    (hlt : b.iF < maxPathLen) : Right (fuel + 1) p b cs ↔ Right fuel rest b cs := by
  unfold Right
  rw [h.connectLoop hlt, if_neg (by simp [hn]), if_pos ⟨hn, hrest⟩, h.comps, hn]
  rfl

lemma Comp.right_name (h : Comp p n rest) (hup : n ≠ ['.', '.']) (hhere : n = ['.'] → rest = [])
    (hb : Holds b st) (hlt : st.length + n.length < maxPathLen) (fuel : Nat) (cs : List (List Char)) :
    ∃ b', Holds b' (st ++ n) ∧ (Right (fuel + 1) p b cs ↔ Right fuel rest b' (resolveOne cs n)) := by
  obtain ⟨b', hcopy, hb'⟩ := hb.copyName h.plain.2 h.next hlt
  refine ⟨b', hb', ?_⟩
  have hcur : b.iF < maxPathLen := by
    rw [hb.length]
    omega
  unfold Right
  rw [h.connectLoop hcur, if_neg hup, if_neg (fun hc => hc.2 (hhere hc.1)), hcopy, h.comps]
  rfl

lemma right_blank (h : p.dropWhile (· == '/') = []) (hcomp : components p = [])
    (hlt : b.iF < maxPathLen) : Right (fuel + 1) p b cs ↔ Holds b (render cs) := by
  have hloop : connectLoop (fuel + 1) p b = some ([], b) := by
    by_cases hp : p = []
    · rw [hp, connectLoop_nil]
    · rw [Path.connectLoop, if_pos ⟨hp, hlt⟩]
      simp only [h]
      exact connectLoop_nil fuel b
  unfold Right
  rw [hloop, hcomp]
  constructor
  · rintro ⟨b', heq, hh⟩
    cases heq
    exact hh
  · intro hh
    exact ⟨b, rfl, hh⟩

/-! ## The two phases -/

lemma Holds.unique {st' : List Char} (h : Holds b st) (h' : Holds b st') : st = st' :=
  h.text_eq.symm.trans h'.text_eq

lemma Holds.ne_render (h : Holds b (joined cs)) (hcs : ∀ c ∈ cs, Plain c) (hds : ∀ c ∈ ds, Plain c)
    (hne : cs ≠ ds) : ¬ Holds b (render ds) := by
  intro h'
  apply hne
  rw [← components_joined hcs, h.unique h', components_render hds]

lemma length_joined_concat (cs : List (List Char)) (c : List Char) :
    (joined (cs ++ [c])).length = (joined cs).length + 1 + c.length := by
  simp [joined_append]
  omega

/-- A name taken by a text that does not end with a slash changes the last component. -/
lemma joined_concat_append (cs : List (List Char)) (c n : List Char) :
    joined (cs ++ [c]) ++ n = joined (cs ++ [c ++ n]) := by
  simp [joined_append]

lemma lost_of_holds_nil (h : Holds b []) : Lost b := .inl (Int.le_of_eq h.length)

lemma plain_append (hc : Plain c) (hn : Plain n) : Plain (c ++ n) := by
  refine ⟨fun h => hc.1 (append_eq_nil_iff.mp h).1, fun hm => ?_⟩
  rcases mem_append.mp hm with hm | hm
  · exact hc.2 hm
  · exact hn.2 hm

lemma plain_concat (hcs : ∀ c ∈ cs, Plain c) (hn : Plain n) : ∀ c ∈ cs ++ [n], Plain c := by
  intro c hc
  rcases mem_append.mp hc with hc | hc
  · exact hcs c hc
  · exact mem_singleton.mp hc ▸ hn

lemma plain_of_concat (h : ∀ d ∈ cs ++ [c], Plain d) : (∀ d ∈ cs, Plain d) ∧ Plain c :=
  ⟨fun d hd => h d (mem_append_left _ hd), h c mem_concat_self⟩

/-- The branch for `..` on a text without a slash at its end. -/
lemma Holds.dotdot_concat (h : Holds b (joined (cs ++ [c]))) (hc : Plain c) :
    Holds b.dotdot (joined cs) := by
  obtain ⟨d, x, rfl⟩ := (eq_nil_or_concat' c).resolve_left hc.1
  have htext : joined (cs ++ [d ++ [x]]) = joined cs ++ '/' :: d ++ [x] := by
    simp [joined_append]
  rw [htext] at h
  exact h.dotdot fun hm => hc.2 (mem_append_left _ hm)

/-- Once the text has fewer components than it should have, it stays so. -/
lemma not_right_of_length_lt (hcs : ∀ c ∈ cs, Plain c) (hds : ∀ c ∈ ds, Plain c)
    (hlt : cs.length < ds.length) (hb : Holds b (joined cs)) (hfuel : p.length ≤ fuel)
    (hbound : (joined cs).length + p.length < maxPathLen) : ¬ Right fuel p b ds := by
  induction fuel generalizing p b cs ds with
  | zero =>
    rw [length_eq_zero_iff.mp (Nat.le_zero.mp hfuel), right_nil]
    exact hb.ne_render hcs hds fun heq => absurd hlt (by rw [heq]; omega)
  | succ fuel ih =>
    rcases eq_nil_or_concat' cs with rfl | ⟨cs0, c, rfl⟩
    · exact (lost_of_holds_nil hb).not_right
    have hcur : b.iF < maxPathLen := by
      rw [hb.length]
      omega
    obtain ⟨hcs0, hc⟩ := plain_of_concat hcs
    have hlen := length_joined_concat cs0 c
    rw [length_append, length_singleton] at hlt
    cases view p with
    | blank h hcomp _ =>
      rw [right_blank h hcomp hcur]
      exact hb.ne_render hcs hds fun heq => absurd hlt (by rw [← heq]; simp)
    | comp n rest h =>
      have hlen' := h.length
      have hpos := length_pos_iff.mpr h.plain.1
      by_cases hup : n = ['.', '.']
      · rw [h.right_up hup hcur]
        exact ih hcs0 (fun d hd => hds d (dropLast_subset _ hd))
          (by rw [length_dropLast]; omega) (hb.dotdot_concat hc) (by omega) (by omega)
      by_cases hhere : n = ['.'] ∧ rest ≠ []
      · rw [h.right_here hhere.1 hhere.2 hcur]
        exact ih hcs hds (by rwa [length_append]) hb (by omega) (by omega)
      obtain ⟨b', hb', hright⟩ := h.right_name hup
        (fun heq => not_not.mp fun hne => hhere ⟨heq, hne⟩) hb (by omega) fuel ds
      rw [hright]
      rw [joined_concat_append] at hb'
      have hle : ds.length ≤ (resolveOne ds n).length := by
        unfold resolveOne
        split
        · exact Nat.le_refl _
        · simp
      refine ih (plain_concat hcs0 (plain_append hc h.plain)) (resolveOne_plain hds h.plain) ?_ hb'
        (by omega) ?_
      · rw [length_append, length_singleton]
        omega
      · have hjoin : (joined (cs0 ++ [c ++ n])).length = (joined (cs0 ++ [c])).length + n.length := by
          rw [← joined_concat_append, length_append]
        omega

lemma Comp.moves_here (h : Comp p n rest) (hn : n = ['.']) : moves p = moves rest := by
  rw [moves, h.comps, filter_cons_of_neg (by simp [hn])]
  rfl

lemma Comp.moves_of_ne (h : Comp p n rest) (hn : n ≠ ['.']) : moves p = n :: moves rest := by
  rw [moves, h.comps, filter_cons_of_pos (by simpa using hn)]
  rfl

lemma Comp.endsInDot_eq (h : Comp p n rest) (hn : n = ['.'] → rest ≠ []) :
    endsInDot p = endsInDot rest := by
  rw [h.dot]
  split
  next hrest =>
    rw [hrest, beq_eq_false_iff_ne.mpr fun heq => hn heq hrest]
    rfl
  next => rfl

/-- Nothing but steps up is left, and fewer of them than there are components. -/
def UpsBelow (k : Nat) (p : List Char) : Prop :=
  endsInDot p = false ∧ (∀ c ∈ moves p, c = ['.', '.']) ∧ (moves p).length < k

/-- After the first component the text is right exactly when only steps up follow that do not
lead to the root. -/
lemma right_iff_upsBelow (hcs : ∀ c ∈ cs, Plain c) (hne : cs ≠ []) (hb : Holds b (joined cs))
    (hfuel : p.length ≤ fuel) (hbound : (joined cs).length + p.length < maxPathLen) :
    Right fuel p b cs ↔ UpsBelow cs.length p := by
  induction fuel generalizing p b cs with
  | zero =>
    rw [length_eq_zero_iff.mp (Nat.le_zero.mp hfuel), right_nil, render_of_ne_nil hne]
    exact iff_of_true hb ⟨rfl, nofun, length_pos_iff.mpr hne⟩
  | succ fuel ih =>
    have hcur : b.iF < maxPathLen := by
      rw [hb.length]
      omega
    obtain ⟨cs0, c, rfl⟩ := (eq_nil_or_concat' cs).resolve_left hne
    obtain ⟨hcs0, hc⟩ := plain_of_concat hcs
    have hlen := length_joined_concat cs0 c
    cases view p with
    | blank h hcomp hdot =>
      have hmoves : moves p = [] := by rw [moves, hcomp, filter_nil]
      rw [right_blank h hcomp hcur, render_of_ne_nil hne, UpsBelow, hmoves]
      exact iff_of_true hb ⟨hdot, nofun, length_pos_iff.mpr hne⟩
    | comp n rest h =>
      have hlen' := h.length
      have hpos := length_pos_iff.mpr h.plain.1
      by_cases hup : n = ['.', '.']
      · have hdot := h.endsInDot_eq fun heq => absurd (hup.symm.trans heq) (by decide)
        have hmoves := h.moves_of_ne fun heq => absurd (hup.symm.trans heq) (by decide)
        rw [h.right_up hup hcur, dropLast_concat, UpsBelow, hdot, hmoves]
        by_cases hroot : cs0 = []
        · refine iff_of_false ?_ fun hc => ?_
          · subst hroot
            exact (lost_of_holds_nil (hb.dotdot_concat hc)).not_right
          · simp [hroot] at hc
        · rw [ih hcs0 hroot (hb.dotdot_concat hc) (by omega) (by omega), UpsBelow]
          simp [hup]
      by_cases hhere : n = ['.'] ∧ rest ≠ []
      · rw [h.right_here hhere.1 hhere.2 hcur, ih hcs hne hb (by omega) (by omega), UpsBelow, UpsBelow,
          h.moves_here hhere.1, h.endsInDot_eq fun _ => hhere.2]
      have hlast : n = ['.'] → rest = [] := fun heq => not_not.mp fun hne => hhere ⟨heq, hne⟩
      obtain ⟨b', hb', hright⟩ := h.right_name hup hlast hb (by omega) fuel (cs0 ++ [c])
      rw [hright]
      rw [joined_concat_append] at hb'
      have hcs' := plain_concat hcs0 (plain_append hc h.plain)
      by_cases hdot : n = ['.']
      · -- the last `.` is taken for a name
        refine iff_of_false ?_ fun hc => ?_
        · rw [hlast hdot, right_nil, resolveOne, if_pos hdot]
          refine hb'.ne_render hcs' hcs fun heq => ?_
          have hcn := append_cancel_left heq
          simp [h.plain.1] at hcn
        · have hfalse := hc.1
          rw [h.dot, if_pos (hlast hdot), hdot] at hfalse
          cases hfalse
      · refine iff_of_false ?_ fun hc => hup (hc.2.1 n ?_)
        · rw [resolveOne, if_neg hdot, if_neg hup]
          have hjoin : (joined (cs0 ++ [c ++ n])).length = (joined (cs0 ++ [c])).length + n.length := by
            rw [← joined_concat_append, length_append]
          exact not_right_of_length_lt hcs' (plain_concat hcs h.plain) (by simp) hb' (by omega) (by omega)
        · rw [h.moves_of_ne hdot]
          exact mem_cons_self

/-- The relative paths that are resolved as they should be, from a directory with the components
`base`: apart from `.` they are steps up that do not reach the root, or one name and then steps
up that leave a component. -/
def Supported (base : List (List Char)) (p : List Char) : Prop :=
  endsInDot p = false ∧
    match moves p with
    | [] => base = []
    | c :: cs => (∀ d ∈ cs, d = ['.', '.']) ∧
        if c = ['.', '.'] then cs.length + 1 < base.length else cs.length ≤ base.length

lemma right_iff_supported (hcs : ∀ c ∈ cs, Plain c) (hb : Holds b (joined cs ++ ['/']))
    (hfuel : p.length ≤ fuel) (hbound : (joined cs).length + 1 + p.length < maxPathLen) :
    Right fuel p b cs ↔ Supported cs p := by
  have hstart : Holds b (render cs) ↔ cs = [] := by
    constructor
    · intro h
      by_contra hne
      have htext := hb.unique h
      rw [render_of_ne_nil hne] at htext
      simp at htext
    · rintro rfl
      exact hb
  induction fuel generalizing p b with
  | zero =>
    rw [length_eq_zero_iff.mp (Nat.le_zero.mp hfuel), right_nil, hstart]
    exact ⟨fun h => ⟨rfl, h⟩, fun h => h.2⟩
  | succ fuel ih =>
    have hcur : b.iF < maxPathLen := by
      rw [hb.length, length_append, length_singleton]
      omega
    cases view p with
    | blank h hcomp hdot =>
      have hmoves : moves p = [] := by rw [moves, hcomp, filter_nil]
      rw [right_blank h hcomp hcur, hstart, Supported, hmoves]
      exact ⟨fun h => ⟨hdot, h⟩, fun h => h.2⟩
    | comp n rest h =>
      have hlen' := h.length
      have hpos := length_pos_iff.mpr h.plain.1
      by_cases hup : n = ['.', '.']
      · have hdot := h.endsInDot_eq fun heq => absurd (hup.symm.trans heq) (by decide)
        have hmoves := h.moves_of_ne fun heq => absurd (hup.symm.trans heq) (by decide)
        rw [h.right_up hup hcur, Supported, hdot, hmoves]
        simp only [hup, if_true]
        rcases eq_nil_or_concat' cs with rfl | ⟨cs0, c, rfl⟩
        · refine iff_of_false (Lost.not_right ?_) fun hc => absurd hc.2.2 (Nat.not_lt_zero _)
          left
          simp [Buf.dotdot, hb.length]
        obtain ⟨hcs0, hc⟩ := plain_of_concat hcs
        have hb' : Holds b.dotdot (joined cs0) := by
          have htext : joined (cs0 ++ [c]) ++ ['/'] = joined cs0 ++ '/' :: c ++ ['/'] := by
            simp [joined_append]
          rw [htext] at hb
          exact hb.dotdot hc.2
        have hlen := length_joined_concat cs0 c
        rw [dropLast_concat]
        by_cases hroot : cs0 = []
        · subst hroot
          refine iff_of_false (lost_of_holds_nil hb').not_right fun hc => ?_
          have hfew := hc.2.2
          simp at hfew
        · rw [right_iff_upsBelow hcs0 hroot hb' (by omega) (by omega), UpsBelow]
          simp
      by_cases hhere : n = ['.'] ∧ rest ≠ []
      · have hrest : Right fuel rest b cs ↔ Supported cs rest :=
          ih hb (by omega) (by omega) hstart
        rw [h.right_here hhere.1 hhere.2 hcur, hrest, Supported, Supported, h.moves_here hhere.1,
          h.endsInDot_eq fun _ => hhere.2]
      have hlast : n = ['.'] → rest = [] := fun heq => not_not.mp fun hne => hhere ⟨heq, hne⟩
      obtain ⟨b', hb', hright⟩ := h.right_name hup hlast hb (by
        rw [length_append, length_singleton]
        omega) fuel cs
      have htext : joined cs ++ ['/'] ++ n = joined (cs ++ [n]) := by
        simp [joined_append]
      rw [htext] at hb'
      rw [hright]
      have hcs' := plain_concat hcs h.plain
      by_cases hdot : n = ['.']
      · refine iff_of_false ?_ fun hc => ?_
        · rw [hlast hdot, right_nil, resolveOne, if_pos hdot]
          exact hb'.ne_render hcs' hcs (by simp)
        · have hfalse := hc.1
          rw [h.dot, if_pos (hlast hdot), hdot] at hfalse
          cases hfalse
      · have hjoin := length_joined_concat cs n
        rw [resolveOne, if_neg hdot, if_neg hup,
          right_iff_upsBelow hcs' (by simp) hb' (by omega) (by omega), UpsBelow, Supported,
          h.moves_of_ne hdot, h.endsInDot_eq fun heq => absurd heq hdot]
        simp [hup]

/-! ## The two functions -/

lemma holds_strcpy (h : st.length < maxPathLen) : ∃ b, strcpy st = some b ∧ Holds b st := by
  refine ⟨_, if_pos h, rfl, fun k hk => ?_⟩
  show st[k]? = some (st[k]?.getD _)
  rw [getElem?_eq_getElem hk]
  rfl

lemma resolve_of_names (hds : ∀ c ∈ ds, IsName c) : resolve cs ds = cs ++ ds := by
  induction ds generalizing cs with
  | nil => exact (append_nil cs).symm
  | cons d ds ih =>
    have hd := hds d mem_cons_self
    show resolve (resolveOne cs d) ds = _
    rw [ih fun c hc => hds c (mem_cons_of_mem _ hc), resolveOne, if_neg hd.2.1, if_neg hd.2.2,
      append_assoc]
    rfl

/-- The buffer after the slash between the base and the path. -/
lemma holds_base (hcs : ∀ c ∈ cs, Plain c) (hb : Holds b (render cs))
    (hlt : (render cs).length < maxPathLen) :
    0 < b.iF ∧ ∃ b', (if b.fullPath (b.iF - 1).toNat ≠ '/' then b.put '/' else some b) = some b' ∧
      Holds b' (joined cs ++ ['/']) := by
  rcases eq_nil_or_concat' cs with rfl | ⟨cs0, c, rfl⟩
  · have hslash := hb.text 0 (Nat.zero_lt_succ _)
    have hlen : b.iF = 1 := hb.length
    refine ⟨by omega, b, if_neg ?_, hb⟩
    rw [hlen]
    exact not_not.mpr (some.inj hslash).symm
  · rw [render_of_ne_nil (by simp)] at hb hlt
    have hc := (plain_of_concat hcs).2
    obtain ⟨d, x, rfl⟩ := (eq_nil_or_concat' c).resolve_left hc.1
    have htext : joined (cs0 ++ [d ++ [x]]) = joined cs0 ++ '/' :: d ++ [x] := by
      simp [joined_append]
    have hlen : (joined (cs0 ++ [d ++ [x]])).length = (joined cs0 ++ '/' :: d).length + 1 := by
      rw [htext, length_append, length_singleton]
    have hlast : b.fullPath (b.iF - 1).toNat = x := by
      have hx := hb.text (joined cs0 ++ '/' :: d).length (by omega)
      rw [htext, getElem?_concat_length] at hx
      have hcur : (b.iF - 1).toNat = (joined cs0 ++ '/' :: d).length := by
        rw [hb.length, hlen]
        omega
      rw [hcur]
      exact (some.inj hx).symm
    obtain ⟨b', hput, hb'⟩ := hb.put hlt '/'
    refine ⟨by rw [hb.length]; omega, b', ?_, hb'⟩
    rw [if_pos, hput]
    rw [hlast]
    exact ne_of_mem_of_not_mem (mem_append.mpr (.inr (mem_singleton_self x))) hc.2

/-- `fullpath_connect` succeeds with the canonical text exactly when the loop is right. -/
lemma fullpathConnect_iff (hcs : ∀ c ∈ cs, Plain c) (hb : Holds b (render cs))
    (hrel : p.head? ≠ some '/') (hbound : (joined cs).length + 1 + p.length < maxPathLen) :
    (∃ ret, fullpathConnect p b = some (ret, render (resolve cs (components p))) ∧ 0 ≤ ret) ↔
      Supported cs p := by
  have hlt : (render cs).length < maxPathLen := by
    unfold render
    split
    · exact (by decide : 1 < 1024)
    · omega
  obtain ⟨hpos, b1, hslash, hb1⟩ := holds_base hcs hb hlt
  rw [← right_iff_supported hcs hb1 (Nat.le_refl _) hbound]
  have hfun : fullpathConnect p b = (connectLoop p.length p b1).bind fun x =>
      if x.1 ≠ [] then some (-1, x.2.text)
      else if 0 ≤ x.2.iF ∧ x.2.iF < maxPathLen then some (x.2.iF, x.2.text) else none := by
    rw [fullpathConnect, if_neg hrel, if_neg (Int.not_le.mpr hpos), hslash]
    rfl
  rw [hfun]
  constructor
  · rintro ⟨ret, hret, hnn⟩
    obtain ⟨⟨rest, b'⟩, hloop, hret⟩ := bind_eq_some_iff.mp hret
    by_cases hrest : rest = []
    · rw [if_neg (not_not.mpr hrest)] at hret
      obtain ⟨⟨hlow, -⟩, heq⟩ := ite_none_right_eq_some.mp hret
      obtain ⟨-, htext⟩ := Prod.mk.inj (some.inj heq)
      refine ⟨b', by rw [hloop, hrest], ?_⟩
      rw [← htext]
      exact holds_text hlow
    · rw [if_pos hrest] at hret
      obtain ⟨hneg, -⟩ := Prod.mk.inj (some.inj hret)
      omega
  · rintro ⟨b', hloop, hh⟩
    have hcur : 0 ≤ b'.iF ∧ b'.iF < maxPathLen := by
      have hle := connectLoop_le hloop
      have hstart := hb1.length
      rw [length_append, length_singleton] at hstart
      rw [hh.length] at hle ⊢
      omega
    refine ⟨b'.iF, ?_, hcur.1⟩
    rw [hloop, bind_some, if_neg (not_not.mpr rfl), if_pos hcur, hh.text_eq]

end

/-- The path as a text: the base, a slash where it needs one, and the path. -/
def joinPath (base path : List Char) : List Char :=
  if path.head? = some '/' then path
  else if base = ['/'] then base ++ path else base ++ '/' :: path

/-- A path is resolved to the canonical text of what it leads to exactly when it is absolute and
canonical already, or relative and one of the supported forms. -/
theorem path_canonical_iff {cwd base path : List Char} {fPath : Int → Option (List Char)} {dirfd : Int}
    (hdir : (if dirfd = atFdcwd then some cwd else fPath dirfd) = some base) (hbase : Canonical base)
    (hfit : (joinPath base path).length ≤ maxPathLen - 1) :
    (∃ full, getAbsolutePath cwd fPath path dirfd = some (0, full) ∧ Canonical full ∧
      components full =
        resolve (if path.head? = some '/' then [] else components base) (components path)) ↔
    if path.head? = some '/' then Canonical path else Supported (components base) path := by
  by_cases habs : path.head? = some '/'
  · have hlt : path.length < maxPathLen := by
      rw [joinPath, if_pos habs] at hfit
      exact Nat.lt_of_le_of_lt hfit (by decide)
    obtain ⟨b, hcpy, hb⟩ := holds_strcpy hlt
    have hfun : getAbsolutePath cwd fPath path dirfd = some (0, path) := by
      rw [getAbsolutePath, if_pos habs, hcpy]
      exact congrArg (fun t => some (0, t)) hb.text_eq
    simp only [hfun, if_pos habs]
    constructor
    · rintro ⟨full, hfull, hcan, -⟩
      cases hfull
      exact hcan
    · rintro ⟨cs, hcs, rfl⟩
      refine ⟨_, rfl, ⟨cs, hcs, rfl⟩, ?_⟩
      rw [components_render fun c hc => (hcs c hc).1, resolve_of_names hcs, nil_append]
  · obtain ⟨cs, hcs, rfl⟩ := hbase
    have hplain : ∀ c ∈ cs, Plain c := fun c hc => (hcs c hc).1
    have hbound : (joined cs).length + 1 + path.length < maxPathLen := by
      rw [joinPath, if_neg habs] at hfit
      by_cases hroot : cs = []
      · rw [hroot] at hfit ⊢
        have hlen : 1 + path.length ≤ 1023 := by
          rw [Nat.add_comm]
          exact hfit
        show 0 + 1 + path.length < 1024
        omega
      · rw [if_neg, render_of_ne_nil hroot, length_append, length_cons] at hfit
        · have hfit' : (joined cs).length + (path.length + 1) ≤ 1023 := hfit
          omega
        · rw [render_of_ne_nil hroot]
          intro heq
          have hcomp := congrArg components heq
          rw [components_joined hplain] at hcomp
          exact hroot hcomp
    have hlt : (render cs).length < maxPathLen := by
      unfold render
      split
      · exact (by decide : 1 < 1024)
      · omega
    obtain ⟨b, hcpy, hb⟩ := holds_strcpy hlt
    have hfun : getAbsolutePath cwd fPath path dirfd =
        (fullpathConnect path b).map fun x => (if x.1 < 0 then -1 else 0, x.2) := by
      rw [getAbsolutePath, if_neg habs, hdir]
      show (strcpy (render cs)).bind _ = _
      rw [hcpy, bind_some]
      cases fullpathConnect path b <;> rfl
    have hnames : ∀ d ∈ resolve cs (components path), IsName d :=
      resolve_names hcs fun c hc => mem_components_plain hc
    simp only [hfun, if_neg habs, components_render hplain]
    rw [← fullpathConnect_iff hplain hb habs hbound]
    constructor
    · rintro ⟨full, hmap, hcan⟩
      obtain ⟨⟨ret, full'⟩, hconn, heq⟩ := map_eq_some_iff.mp hmap
      obtain ⟨hret, htext⟩ := Prod.mk.inj heq
      have hfull : full' = render (resolve cs (components path)) :=
        htext.trans ((canonical_and_components_iff hnames).mp hcan)
      refine ⟨ret, by rw [hconn, hfull], ?_⟩
      by_contra hneg
      rw [if_pos (Int.not_le.mp hneg)] at hret
      exact absurd hret (by decide)
    · rintro ⟨ret, hconn, hret⟩
      refine ⟨_, ?_, (canonical_and_components_iff hnames).mpr rfl⟩
      rw [hconn, map_some, if_neg (Int.not_lt.mpr hret)]

/-- In `/a/b` the path `./x/..` leads back to it. -/
theorem path_canonical_back : ∃ full,
    getAbsolutePath ['/', 'a', '/', 'b'] (fun _ => none) ['.', '/', 'x', '/', '.', '.'] atFdcwd =
      some (0, full) ∧ Canonical full ∧ components full = [['a'], ['b']] := by
  have hbase : Canonical ['/', 'a', '/', 'b'] :=
    ⟨[['a'], ['b']], by simp [IsName, Plain], rfl⟩
  have hsupported : Supported [['a'], ['b']] ['.', '/', 'x', '/', '.', '.'] := by
    refine ⟨by decide, ?_⟩
    show (∀ d ∈ [['.', '.']], d = ['.', '.']) ∧ if ['x'] = ['.', '.'] then 2 < 2 else 1 ≤ 2
    decide
  exact (path_canonical_iff (if_pos rfl) hbase (by decide)).mpr hsupported

/-- In the root the path `x/y` leads to `/xy`. -/
theorem path_names_merged :
    getAbsolutePath ['/'] (fun _ => none) ['x', '/', 'y'] atFdcwd = some (0, ['/', 'x', 'y']) ∧
    Canonical ['/'] ∧ resolve (components ['/']) (components ['x', '/', 'y']) = [['x'], ['y']] ∧
    components ['/', 'x', 'y'] = [['x', 'y']] := by
  refine ⟨by decide, ⟨[], nofun, rfl⟩, by decide, by decide⟩

end Hana.Path
