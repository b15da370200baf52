import Hana.Lib.Run
import Hana.Mm.Vm.Boot
import Hana.Mm.Vm.Copy

/-!
# Copy on write

After `uvmcopy` a parent and a child store through their own tables: directly where the entry
is writable, and through the branch of `copyout` or of the store fault handler where it is
marked `PTE_COW`. `Apart` says that no frame is writable in one table while the other table
maps it; as long as that holds, no store is seen through the other table.

`uvmcopy` marks the child's entries only and reads the parent's entry through a null pointer
where there is no leaf table. So it returns with the tables apart exactly when the parent
has leaf tables for the whole range and can not store to the frames that are copied
(`CowReady`).
-/

namespace Hana.Vm

open Lib List Option

variable {A : Type}

/-! ## Stores -/

/-- A store of one byte through the table `r`. A page that is not writable but marked is given a
frame of its own first, by the handler (`handler = true`) or by `copyout`. -/
def store (E : Env A) (r va value : Nat) (handler : Bool) (m : Mem A) : Option (Mem A) :=
  let pte := leaf m r (va >>> 12)
  if has pte pteV && has pte pteW then some (writeBytes (pte2pa pte + va % pgSize) [value] m)
  else if has pte pteV && has pte pteCow then do
    let e ← entryAddr m.pte r (va >>> 12)
    let (mem, m) ← breakCow E handler e m
    some (writeBytes (mem + va % pgSize) [value] m)
  else none

structure StoreOp where
  child : Bool
  va : Nat
  value : Nat
  handler : Bool

/-- The table of the child or of the parent. -/
def tableOf (c p : Nat) (child : Bool) : Nat := if child then c else p

def storeStep (E : Env A) (c p : Nat) (m : Mem A) (op : StoreOp) (m' : Mem A) : Prop :=
  store E (tableOf c p op.child) op.va op.value op.handler m = some m'

/-- The other table reads what it read before. -/
def Unseen (c p : Nat) (m : Mem A) (op : StoreOp) (m' : Mem A) : Prop :=
  ∀ a, readByte m' (tableOf c p !op.child) a = readByte m (tableOf c p !op.child) a

/-- No frame is writable in one of the tables while the other one maps it. -/
def Apart (c p : Nat) (m : Mem A) : Prop :=
  ∀ child f vpn vpn', mapsFrame f (leaf m (tableOf c p child) vpn) = true →
    has (leaf m (tableOf c p child) vpn) pteW = true →
    mapsFrame f (leaf m (tableOf c p !child) vpn') = false

/-- The entry is valid, not writable and marked as shared. -/
def marked (pte : Nat) : Bool := has pte pteV && !has pte pteW && has pte pteCow

/-- The store is to an allocated page, while no such page looks like a free block, and it gives up
the last reference of a frame only if the frame is an allocated page of its own. -/
def StoreCond (E : Env A) (Held : A → Nat → Nat → Prop) (c p : Nat) (m : Mem A) (op : StoreOp) :
    Prop :=
  Unforged Held m ∧ Owned Held m.alloc (pte2pa (leaf m (tableOf c p op.child) (op.va >>> 12))) ∧
    (marked (leaf m (tableOf c p op.child) (op.va >>> 12)) = true →
      lastRef E m (pte2pa (leaf m (tableOf c p op.child) (op.va >>> 12))) = true →
      Held m.alloc (pte2pa (leaf m (tableOf c p op.child) (op.va >>> 12))) 1)

/-- A parent's table that `uvmcopy` can copy. -/
structure CowReady (m : Mem A) (p sz : Nat) : Prop where
  size : sz ≤ 2 ^ 64 - pgSize
  tables : ∀ vpn < copyCount sz, (entryAddr m.pte p vpn).isSome
  readOnly : ∀ vpn < copyCount sz, pte2pa (leaf m p vpn) ≠ 0 →
    ∀ vpn', mapsFrame (pte2pa (leaf m p vpn)) (leaf m p vpn') = true →
      has (leaf m p vpn') pteW = false

/-- What the kernel keeps about the parent's frames: they are allocated and hold no table, and the
frames that are or will be shared are counted. -/
structure Frames (E : Env A) (lo hi : Nat) (Held : A → Nat → Nat → Prop)
    (tab : Nat → Option Place) (m : Mem A) (c p sz : Nat) : Prop where
  backed : ∀ vpn, Managed lo hi (pte2pa (leaf m p vpn)) →
    Owned Held m.alloc (pte2pa (leaf m p vpn)) ∧ tab (pte2pa (leaf m p vpn)) = none
  counted : ∀ f, Managed lo hi f →
    (∃ vpn, mapsFrame f (leaf m p vpn) = true ∧ marked (leaf m p vpn) = true) ∨
      0 < copiesOf m p 0 (copyCount sz) f →
    refs m [c, p] f ≤ m.cnt (pageIndex E f) ∧
      m.cnt (pageIndex E f) + copiesOf m p 0 (copyCount sz) f < 256

/-- What holds between the stores. -/
structure CowInv (E : Env A) (lo hi : Nat) (Inv : A → Prop) (Held : A → Nat → Nat → Prop)
    (tab : Nat → Option Place) (c p : Nat) (m : Mem A) : Prop where
  shaped : Shaped Inv Held m tab
  apart : Apart c p m
  backed : ∀ child vpn f, Managed lo hi f → mapsFrame f (leaf m (tableOf c p child) vpn) = true →
    Owned Held m.alloc f ∧ tab f = none
  counted : ∀ child vpn f, Managed lo hi f → mapsFrame f (leaf m (tableOf c p child) vpn) = true →
    marked (leaf m (tableOf c p child) vpn) = true →
    refs m [c, p] f ≤ m.cnt (pageIndex E f) ∧ m.cnt (pageIndex E f) < 256

section

variable {Inv : A → Prop} {Held : A → Nat → Nat → Prop} {lo hi : Nat} {E : Env A}
variable {m m' m1 : Mem A} {tab tab' : Nat → Option Place} {c p r sz n vpn f flags va value : Nat}
variable {pte mem : Nat} {child count : Bool} {op : StoreOp}

lemma store_cases {va value : Nat} {handler : Bool} (h : store E r va value handler m = some m') :
    (has (leaf m r (va >>> 12)) pteV = true ∧ has (leaf m r (va >>> 12)) pteW = true ∧
      m' = writeBytes (pte2pa (leaf m r (va >>> 12)) + va % pgSize) [value] m) ∨
    (marked (leaf m r (va >>> 12)) = true ∧ ∃ e mem m1,
      entryAddr m.pte r (va >>> 12) = some e ∧ breakCow E handler e m = some (mem, m1) ∧
      m' = writeBytes (mem + va % pgSize) [value] m1) := by
  simp only [store] at h
  split_ifs at h with hw hcow
  · rw [Bool.and_eq_true] at hw
    exact .inl ⟨hw.1, hw.2, (some.inj h).symm⟩
  · rw [Bool.and_eq_true] at hcow
    rw [hcow.1, Bool.true_and, Bool.not_eq_true] at hw
    obtain ⟨e, he, h⟩ := bind_eq_some_iff.mp h
    obtain ⟨⟨mem, m1⟩, hbreak, h⟩ := bind_eq_some_iff.mp h
    refine .inr ⟨?_, e, mem, m1, he, hbreak, (some.inj h).symm⟩
    rw [marked, hcow.1, hw, hcow.2]
    rfl

/-- Writing into one frame is not seen through a table that does not map it. -/
lemma readByte_of_outside {f : Nat} (hf : 4096 ∣ f)
    (hno : ∀ vpn, mapsFrame f (leaf m r vpn) = false) (hleaf : ∀ vpn, leaf m' r vpn = leaf m r vpn)
    (hbyte : ∀ x, x < f ∨ f + 4096 ≤ x → m'.byte x = m.byte x) (a : Nat) :
    readByte m' r a = readByte m r a := by
  simp only [readByte, hleaf]
  split_ifs with hv
  · have hframe := hno (a >>> 12)
    rw [mapsFrame_of_valid hv, decide_eq_false_iff_not] at hframe
    have hdvd := pte2pa_dvd (leaf m r (a >>> 12))
    rw [hbyte _ (by omega)]
  · rfl

lemma writeBytes_outside {f off value x : Nat} (hoff : off < 4096) (hx : x < f ∨ f + 4096 ≤ x) :
    (writeBytes (f + off) [value] m).byte x = m.byte x := by
  refine if_neg ?_
  rw [length_singleton]
  omega

/-! ## One store -/

lemma tableOf_mem (c p : Nat) (child : Bool) : tableOf c p child ∈ [c, p] := by
  cases child with
  | true => exact mem_cons_self
  | false => exact mem_cons_of_mem _ mem_cons_self

lemma tableOf_ne (hne : p ≠ c) (child : Bool) : tableOf c p (!child) ≠ tableOf c p child := by
  cases child with
  | true => exact hne
  | false => exact hne.symm

lemma tableOf_root (hc : tab c = some (rootPlace c)) (hp : tab p = some (rootPlace p))
    (child : Bool) : tab (tableOf c p child) = some (rootPlace (tableOf c p child)) := by
  cases child with
  | true => exact hc
  | false => exact hp

lemma marked_valid (h : marked pte = true) : has pte pteV = true := by
  rw [marked, Bool.and_eq_true, Bool.and_eq_true] at h
  exact h.1.1

lemma has_own_pteW : has (pa2pte mem ||| ownFlags pte) pteW = true := by
  have hor : has (pa2pte mem ||| ownFlags pte) (1 <<< 2) = has (ownFlags pte) (1 <<< 2) :=
    has_or (by decide)
  exact hor.trans (has_ownFlags_pteW pte)

lemma marked_own : marked (pa2pte mem ||| ownFlags pte) = false := by
  rw [marked, has_own_pteW, Bool.not_true, Bool.and_false, Bool.false_and]

/-- The contents of memory do not matter for the invariant. -/
lemma CowInv.writeBytes (h : CowInv E lo hi Inv Held tab c p m) (a : Nat) (src : List Nat) :
    CowInv E lo hi Inv Held tab c p (Vm.writeBytes a src m) :=
  ⟨⟨{ h.shaped.tables with }, h.shaped.alloc, h.shaped.held⟩, h.apart, h.backed, h.counted⟩

/-- A frame that is not allocated is mapped by neither table. -/
lemma CowInv.not_maps (h : CowInv E lo hi Inv Held tab c p m) {f : Nat} (hf : Managed lo hi f)
    (hfree : ¬ Owned Held m.alloc f) (child : Bool) (vpn : Nat) :
    mapsFrame f (leaf m (tableOf c p child) vpn) = false :=
  Bool.eq_false_iff.mpr fun hmaps => hfree (h.backed child vpn f hf hmaps).1

/-- Giving a page a frame of its own keeps the invariant. -/
lemma CowInv.broken (hE : E.Ok lo hi Inv Held) (h : CowInv E lo hi Inv Held tab c p m)
    (hc : tab c = some (rootPlace c)) (hp : tab p = some (rootPlace p)) (hne : p ≠ c)
    {vpn : Nat} (hmarked : marked (leaf m (tableOf c p child) vpn) = true)
    (hs' : Shaped Inv Held m' tab) (hnext : NextPage E m mem)
    (hlast : lastRef E (countNew E count mem m) (pte2pa (leaf m (tableOf c p child) vpn)) =
      lastRef E m (pte2pa (leaf m (tableOf c p child) vpn)))
    (hb : Broken E Held count (tableOf c p child) vpn mem m tab m') :
    CowInv E lo hi Inv Held tab c p m' := by
  have hv := marked_valid hmarked
  obtain ⟨hnoTable, hmem, hmemhi, hfresh⟩ := hnext.spec hE h.shaped
  have htop := hE.hi_lt
  have hmemLt : mem < 2 ^ 64 := by omega
  have hnone := h.not_maps hmem hfresh
  -- an entry is the new one, or what it was
  have hcases : ∀ child' vpn', (child' = child ∧ leaf m' (tableOf c p child') vpn' =
      pa2pte mem ||| ownFlags (leaf m (tableOf c p child) vpn)) ∨
      leaf m' (tableOf c p child') vpn' = leaf m (tableOf c p child') vpn' := by
    intro child' vpn'
    rw [hb.leaf (tableOf_root hc hp child')]
    by_cases hsame : child' = child
    · by_cases hmod : vpn' % 2 ^ 27 = vpn % 2 ^ 27
      · exact .inl ⟨hsame, if_pos ⟨by rw [hsame], hmod⟩⟩
      · exact .inr (if_neg fun hand => hmod hand.2)
    · have hnot : child' = !child := by
        cases child' <;> cases child <;> first | rfl | exact absurd rfl hsame
      rw [hnot]
      exact .inr (if_neg fun hand => tableOf_ne hne child hand.1)
  generalize hpte : leaf m (tableOf c p child) vpn = pte at *
  generalize hfr : pte2pa pte = old at *
  have hmapsNew : ∀ f, mapsFrame f (pa2pte mem ||| ownFlags pte) = decide (mem = f) :=
    fun f => mapsFrame_own hmemLt hmem.1 hv
  have hmapsOld : mapsFrame old (leaf m (tableOf c p child) vpn) = true := by
    rw [hpte, mapsFrame_of_valid hv]
    exact decide_eq_true hfr
  have hom : old ≠ mem := by
    rintro rfl
    rw [hnone] at hmapsOld
    cases hmapsOld
  have holdLt : old < 2 ^ 64 := by
    rw [← hfr]
    exact wrap64_lt _
  have holdDvd : 4096 ∣ old := by
    rw [← hfr]
    exact pte2pa_dvd _
  have hrefs : ∀ f, refs m' [c, p] f + (if old = f then 1 else 0) =
      refs m [c, p] f + if mem = f then 1 else 0 := by
    intro f
    have hnd : [c, p].Nodup := by simp [hne.symm]
    have hroots : ∀ r' ∈ [c, p], tab r' = some (rootPlace r') := by
      intro r' hr'
      simp only [mem_cons, not_mem_nil, or_false] at hr'
      rcases hr' with rfl | rfl
      · exact hc
      · exact hp
    have hupdate := refs_update hnd (tableOf_mem c p child)
      (fun r' hr' => hb.leaf (hroots r' hr')) f
    rw [hpte, hmapsNew, mapsFrame_of_valid hv, hfr] at hupdate
    simpa using hupdate
  have hcnt : ∀ f, Managed lo hi f → f ≠ mem → m'.cnt (pageIndex E f) =
      if old = f then (m.cnt (pageIndex E f) + 255) % 256 else m.cnt (pageIndex E f) := by
    intro f hf hfm
    have hframe : frameOf old = old := frameOf_of_dvd holdDvd
    have hframe' : frameOf f = f := frameOf_of_dvd hf.1
    have hidx : pageIndex E f ≠ pageIndex E mem := by
      intro heq
      have hlt : f < 2 ^ 64 := by
        have := hf.2.2
        omega
      have hcf := ((pageIndex_eq_iff hE hf hlt).mpr hframe').1
      have := (pageIndex_eq_iff hE hmem hlt).mp ⟨hcf, heq⟩
      omega
    rw [hb.cnt, hpte, hfr, cnt_pageRefDec hE hf holdLt, hframe, countNew_of_ne hidx]
  refine ⟨hs', ?_, ?_, ?_⟩
  · intro child' f vpn1 vpn2 hmaps hw
    refine Bool.eq_false_iff.mpr fun hmaps' => ?_
    rcases hcases child' vpn1 with ⟨heq, hnew⟩ | hsame
    · rw [hnew, hmapsNew, decide_eq_true_eq] at hmaps
      rcases hcases (!child') vpn2 with ⟨heq', _⟩ | hsame'
      · rw [heq] at heq'
        cases child <;> cases heq'
      · rw [hsame', ← hmaps, hnone] at hmaps'
        cases hmaps'
    · rw [hsame] at hmaps hw
      rcases hcases (!child') vpn2 with ⟨_, hnew⟩ | hsame'
      · rw [hnew, hmapsNew, decide_eq_true_eq] at hmaps'
        rw [← hmaps', hnone] at hmaps
        cases hmaps
      · rw [hsame', h.apart child' f vpn1 vpn2 hmaps hw] at hmaps'
        cases hmaps'
  · intro child' vpn' f hf hmaps
    have hpos : 0 < refs m' [c, p] f := refs_pos (tableOf_mem c p child') hmaps
    rcases hcases child' vpn' with ⟨_, hnew⟩ | hsame
    · rw [hnew, hmapsNew, decide_eq_true_eq] at hmaps
      subst hmaps
      refine ⟨⟨mem, 1, (hb.held mem 1).mpr ⟨.inl ⟨rfl, rfl⟩, ?_⟩, le_rfl, by omega⟩,
        hnoTable⟩
      rintro ⟨_, heq, _⟩
      rw [hpte, hfr] at heq
      exact hom heq.symm
    · rw [hsame] at hmaps
      obtain ⟨⟨q, k, hq, hlo, hhi⟩, hno⟩ := h.backed child' vpn' f hf hmaps
      refine ⟨⟨q, k, (hb.held q k).mpr ⟨.inr hq, ?_⟩, hlo, hhi⟩, hno⟩
      rintro ⟨hl, hqo, hk⟩
      rw [hpte, hfr] at hl hqo
      rw [hlast] at hl
      -- the freed frame had one mapping, which is gone
      have hfo : f = old := by
        have := hf.1
        omega
      subst hfo
      obtain ⟨hle, _⟩ := h.counted child vpn f hf hmapsOld (by rw [hpte]; exact hmarked)
      rw [lastRef_managed hE hf] at hl
      have hrf := hrefs f
      rw [if_pos rfl, if_neg (Ne.symm hom)] at hrf
      omega
  · intro child' vpn' f hf hmaps hm'
    rcases hcases child' vpn' with ⟨_, hnew⟩ | hsame
    · rw [hnew, marked_own] at hm'
      cases hm'
    · rw [hsame] at hmaps hm'
      obtain ⟨hle, hlt⟩ := h.counted child' vpn' f hf hmaps hm'
      have hfm : f ≠ mem := by
        rintro rfl
        rw [hnone] at hmaps
        cases hmaps
      have hrf := hrefs f
      rw [if_neg (Ne.symm hfm)] at hrf
      rw [hcnt f hf hfm]
      by_cases hof : old = f
      · rw [if_pos hof] at hrf ⊢
        omega
      · rw [if_neg hof] at hrf ⊢
        omega

/-- The branch for marked pages, from a state that satisfies the invariant. -/
lemma CowInv.breakCow_broken (hE : E.Ok lo hi Inv Held) (h : CowInv E lo hi Inv Held tab c p m)
    (hc : tab c = some (rootPlace c)) (hp : tab p = some (rootPlace p))
    {vpn e : Nat} (hmarked : marked (leaf m (tableOf c p child) vpn) = true)
    (hold : lastRef E m (pte2pa (leaf m (tableOf c p child) vpn)) = true →
      Held m.alloc (pte2pa (leaf m (tableOf c p child) vpn)) 1)
    (he : entryAddr m.pte (tableOf c p child) vpn = some e)
    (hbreak : breakCow E count e m = some (mem, m')) :
    Shaped Inv Held m' tab ∧ Broken E Held count (tableOf c p child) vpn mem m tab m' ∧
      NextPage E m mem ∧
      lastRef E (countNew E count mem m) (pte2pa (leaf m (tableOf c p child) vpn)) =
        lastRef E m (pte2pa (leaf m (tableOf c p child) vpn)) := by
  have hmapsOld : mapsFrame (pte2pa (leaf m (tableOf c p child) vpn))
      (leaf m (tableOf c p child) vpn) = true := by
    rw [mapsFrame_of_valid (marked_valid hmarked)]
    exact decide_eq_true rfl
  have hdvd := pte2pa_dvd (leaf m (tableOf c p child) vpn)
  have hlt := pte2pa_lt (leaf m (tableOf c p child) vpn)
  generalize hfr : pte2pa (leaf m (tableOf c p child) vpn) = old at *
  have hsame : NextPage E m mem → lastRef E (countNew E count mem m) old = lastRef E m old := by
    intro hnext
    obtain ⟨_, hmem, _, hfresh⟩ := hnext.spec hE h.shaped
    refine lastRef_countNew hE hmem hlt hdvd ?_
    rintro rfl
    rw [h.not_maps hmem hfresh] at hmapsOld
    cases hmapsOld
  obtain ⟨hs', hb, hnext⟩ := breakCow_spec hE h.shaped (tableOf_root hc hp child) he (by
    rw [hfr]
    intro hnext hl
    rw [hsame hnext] at hl
    have hheld := hold hl
    obtain ⟨_, _, hlo, hhi⟩ := hE.lawful.range h.shaped.alloc hheld
    exact ⟨hheld, (h.backed _ _ old ⟨hdvd, hlo, by omega⟩ hmapsOld).2⟩) hbreak
  exact ⟨hs', hb, hnext, hsame hnext⟩

lemma store_inv (hE : E.Ok lo hi Inv Held) (hc : tab c = some (rootPlace c))
    (hp : tab p = some (rootPlace p)) (hne : p ≠ c) (h : CowInv E lo hi Inv Held tab c p m)
    (hcond : StoreCond E Held c p m op) (hstep : storeStep E c p m op m') :
    CowInv E lo hi Inv Held tab c p m' ∧ Unseen c p m op m' := by
  have hoff : op.va % pgSize < 4096 := Nat.mod_lt _ (by decide)
  rcases store_cases hstep with ⟨hv, hw, rfl⟩ | ⟨hmarked, e, mem, m1, he, hbreak, rfl⟩
  · refine ⟨h.writeBytes _ _, readByte_of_outside (pte2pa_dvd _) (fun vpn => ?_) (fun _ => rfl)
      fun _ => writeBytes_outside hoff⟩
    refine h.apart op.child _ (op.va >>> 12) vpn ?_ hw
    rw [mapsFrame_of_valid hv]
    exact decide_eq_true rfl
  · obtain ⟨hs', hb, hnext, hlast⟩ :=
      h.breakCow_broken hE hc hp hmarked (hcond.2.2 hmarked) he hbreak
    have hinv := h.broken hE hc hp hne hmarked hs' hnext hlast hb
    obtain ⟨_, hmem, _, hfresh⟩ := hnext.spec hE h.shaped
    refine ⟨hinv.writeBytes _ _, readByte_of_outside hmem.1 (h.not_maps hmem hfresh _) (fun vpn => ?_)
      fun x hx => ?_⟩
    · refine (hb.leaf (tableOf_root hc hp _) vpn).trans (if_neg fun hand => ?_)
      exact tableOf_ne hne op.child hand.1
    · rw [writeBytes_outside hoff hx, hb.byte]
      exact if_neg (by unfold pgSize; omega)

/-! ## The copy -/

lemma mapsFrame_copyEntry (f pte : Nat) :
    mapsFrame f (copyEntry pte) = decide (pte2pa pte = f) := by
  rw [copyEntry, mapsFrame_entry (pte2pa_lt _) (copyFlags_lt pte), frameOf_pte2pa]

lemma has_copyEntry_pteW (pte : Nat) : has (copyEntry pte) pteW = false := by
  have hor : has (copyFlags pte ||| pteV) (1 <<< 2) =
      (has (copyFlags pte) (1 <<< 2) || has pteV (1 <<< 2)) := has_or_flag
  have hentry : has (copyEntry pte) pteW = has (copyFlags pte ||| pteV) pteW :=
    has_entry (i := 2) (by decide)
  rw [hentry]
  exact hor.trans (by rw [Bool.or_eq_false_iff]; exact ⟨has_copyFlags_pteW pte, rfl⟩)

/-- The tables are apart after the copy exactly when the parent can not store to what was
copied. -/
lemma CopyPages.apart_iff (hne : p ≠ c) (hc : tab c = some (rootPlace c))
    (hp : tab p = some (rootPlace p)) (hempty : ∀ vpn, leaf m c vpn = 0)
    (h : CopyPages E Inv Held c p n 0 m tab m' tab') :
    Apart c p m' ↔ ∀ vpn < n, pte2pa (leaf m p vpn) ≠ 0 →
      ∀ vpn', mapsFrame (pte2pa (leaf m p vpn)) (leaf m p vpn') = true →
        has (leaf m p vpn') pteW = false := by
  have hparent : ∀ vpn, leaf m' p vpn = leaf m p vpn := h.tablesOnly.leaf hp hne
  have hchild := fun vpn => h.leaf_child_cases hne vpn hc hp
  constructor
  · intro hapart vpn hvpn hpa vpn' hmaps
    refine Bool.eq_false_iff.mpr fun hw => ?_
    have hsame : leaf m' (tableOf c p false) vpn' = leaf m p vpn' := hparent vpn'
    have hno : mapsFrame (pte2pa (leaf m p vpn)) (leaf m' c vpn) = false :=
      hapart false _ vpn' vpn (by rw [hsame]; exact hmaps) (by rw [hsame]; exact hw)
    rw [h.leaf_copied hne hc hp (Nat.zero_le _) (by omega) hpa, mapsFrame_copyEntry] at hno
    exact absurd rfl (of_decide_eq_false hno)
  · intro hread child f vpn vpn' hmaps hw
    refine Bool.eq_false_iff.mpr fun hmaps' => ?_
    cases child with
    | true =>
      simp only [tableOf, if_true] at hmaps hw
      rcases hchild vpn with hsame | ⟨_, _, hcopy⟩
      · rw [hsame, hempty] at hmaps
        cases hmaps
      · rw [hcopy, has_copyEntry_pteW] at hw
        cases hw
    | false =>
      simp only [tableOf, Bool.false_eq_true, if_false, Bool.not_false, if_true] at hmaps hw hmaps'
      rw [hparent] at hmaps hw
      rcases hchild vpn' with hsame | ⟨⟨i, _, hi, hmod⟩, hpa, hcopy⟩
      · rw [hsame, hempty] at hmaps'
        cases hmaps'
      · rw [hcopy, mapsFrame_copyEntry, decide_eq_true_eq] at hmaps'
        rw [← leaf_eq_of_mod_eq m p hmod] at hmaps' hpa
        rw [← hmaps'] at hmaps
        rw [hread i (by omega) hpa vpn hmaps] at hw
        cases hw

/-- New mappings of a frame, when the child's entries may be overwritten. -/
lemma CopyPages.refs_le {f vpn : Nat} {roots : List Nat} (hne : p ≠ c) (hnd : roots.Nodup)
    (hc : c ∈ roots) (h : CopyPages E Inv Held c p n vpn m tab m' tab') :
    (∀ r ∈ roots, tab r = some (rootPlace r)) → tab p = some (rootPlace p) →
    refs m' roots f ≤ refs m roots f + copiesOf m p vpn n f := by
  induction h with
  | nil =>
    intro _ _
    exact Nat.le_add_right _ _
  | @skip n vpn m m' tab tab' _ _ _ ih =>
    intro hroots hp
    rw [copiesOf_succ]
    have hrest := ih hroots hp
    omega
  | @copy n vpn m m1 m' tab tab1 tab' _ _ hmap _ _ ih =>
    intro hroots hp
    have hupdate := refs_update hnd hc (fun r' hr' => hmap.leaf (hroots r' hr')) f
    rw [mapsFrame_entry (pte2pa_lt _) (copyFlags_lt _), frameOf_pte2pa] at hupdate
    simp only [decide_eq_true_eq] at hupdate
    have hrest := ih (fun r hr => hmap.le (hroots r hr)) (hmap.le hp)
    rw [copiesOf_congr (hmap.tablesOnly.leaf hp hne)] at hrest
    rw [copiesOf_succ]
    omega

/-- The invariant of the stores holds after the copy. -/
lemma CopyPages.cowInv (hE : E.Ok lo hi Inv Held) (hne : p ≠ c) (hc : tab c = some (rootPlace c))
    (hp : tab p = some (rootPlace p)) (hempty : ∀ vpn, leaf m c vpn = 0)
    (hfr : Frames E lo hi Held tab m c p sz) (hapart : Apart c p m') (hs' : Shaped Inv Held m' tab')
    (h : CopyPages E Inv Held c p (copyCount sz) 0 m tab m' tab') :
    CowInv E lo hi Inv Held tab' c p m' := by
  have honly := h.tablesOnly
  have hparent : ∀ vpn, leaf m' p vpn = leaf m p vpn := honly.leaf hp hne
  -- whatever is mapped now has an entry in the parent
  have hentry : ∀ child vpn f, mapsFrame f (leaf m' (tableOf c p child) vpn) = true →
      (child = false ∧ leaf m' (tableOf c p child) vpn = leaf m p vpn) ∨
      (∃ i < copyCount sz, leaf m p i = leaf m p vpn) ∧ pte2pa (leaf m p vpn) = f := by
    intro child vpn f hmaps
    cases child with
    | false => exact .inl ⟨rfl, hparent vpn⟩
    | true =>
      simp only [tableOf, if_true] at hmaps
      rcases h.leaf_child_cases hne vpn hc hp with hsame | ⟨⟨i, _, hi, hmod⟩, _, hcopy⟩
      · rw [hsame, hempty] at hmaps
        cases hmaps
      · rw [hcopy, mapsFrame_copyEntry, decide_eq_true_eq] at hmaps
        exact .inr ⟨⟨i, by omega, leaf_eq_of_mod_eq m p hmod⟩, hmaps⟩
  have hframe : ∀ child vpn f, mapsFrame f (leaf m' (tableOf c p child) vpn) = true →
      pte2pa (leaf m p vpn) = f := by
    intro child vpn f hmaps
    rcases hentry child vpn f hmaps with ⟨_, hsame⟩ | ⟨_, hpa⟩
    · rw [hsame, mapsFrame, Bool.and_eq_true, decide_eq_true_eq] at hmaps
      exact hmaps.2
    · exact hpa
  refine ⟨hs', hapart, ?_, ?_⟩
  · intro child vpn f hf hmaps
    have hpa := hframe child vpn f hmaps
    subst hpa
    obtain ⟨⟨q, k, hq, hlo, hhi⟩, hno⟩ := hfr.backed vpn hf
    refine ⟨⟨q, k, honly.held hq, hlo, hhi⟩, ?_⟩
    cases htab : tab' (pte2pa (leaf m p vpn)) with
    | none => rfl
    | some pl =>
      rcases honly.new htab with hold | hfree
      · rw [hno] at hold
        cases hold
      · exact absurd ⟨q, k, hq, hlo, hhi⟩ hfree
  · intro child vpn f hf hmaps hmarked
    have hshared : (∃ vpn, mapsFrame f (leaf m p vpn) = true ∧ marked (leaf m p vpn) = true) ∨
        0 < copiesOf m p 0 (copyCount sz) f := by
      rcases hentry child vpn f hmaps with ⟨_, hsame⟩ | ⟨⟨i, hi, hleaf⟩, hpa⟩
      · rw [hsame] at hmaps hmarked
        exact .inl ⟨vpn, hmaps, hmarked⟩
      · refine .inr (slotCount_pos hi ?_)
        rw [zero_add, hleaf]
        exact decide_eq_true hpa
    obtain ⟨hle, hlt⟩ := hfr.counted f hf hshared
    have hcnt := h.cnt hE hne hf hp hlt
    have hnodup : [c, p].Nodup := by simp [hne.symm]
    have hrefs := h.refs_le (f := f) hne hnodup
      mem_cons_self (by
        intro r hr
        simp only [mem_cons, not_mem_nil, or_false] at hr
        rcases hr with rfl | rfl
        · exact hc
        · exact hp) hp
    omega

/-! ## Stores are what the kernel does -/

lemma entryAddr_of_valid (h : has (leaf m r vpn) pteV = true) :
    ∃ e, entryAddr m.pte r vpn = some e ∧ leaf m r vpn = m.pte e := by
  cases he : entryAddr m.pte r vpn with
  | none =>
    simp only [leaf, he, has_zero] at h
    cases h
  | some e => exact ⟨e, rfl, by simp only [leaf, he]⟩

/-- `copyout` of one byte to a page of the user that is marked. -/
lemma copyout_eq_store (hva : va < 2 ^ 64) (hmarked : marked (leaf m r (va >>> 12)) = true)
    (huser : has (leaf m r (va >>> 12)) pteU = true) (hpa : pte2pa (leaf m r (va >>> 12)) ≠ 0) :
    copyout E r va [value] m = (store E r va value false m).map fun m' => ((0 : Int), m') := by
  rw [marked, Bool.and_eq_true, Bool.and_eq_true, Bool.not_eq_true'] at hmarked
  obtain ⟨⟨hv, hw⟩, hcow⟩ := hmarked
  obtain ⟨e, he, hleaf⟩ := entryAddr_of_valid hv
  have hshift := pgRoundDown_shiftRight hva
  have hdown : pgRoundDown va = va / 4096 * 4096 := pgRoundDown_eq hva
  have hlen : min (pgSize - (va - pgRoundDown va)) 1 = 1 := by
    unfold pgSize
    omega
  have hcond : (!has (m.pte e) pteV || !has (m.pte e) pteU) = false := by
    rw [← hleaf, hv, huser]
    rfl
  simp only [copyout, length_singleton, copyoutLoop, walk_noalloc, hshift, he,
    bind_eq_bind, bind_some, hcond, hlen, store, hw]
  rw [← hleaf, hv, hcow]
  simp only [reduceCtorEq, if_false, if_true, Bool.false_eq_true, hpa, Bool.and_true,
    Bool.and_false, take_succ_cons, take_zero]
  cases hbreak : breakCow E false e m with
  | none => rfl
  | some x =>
    have haddr : x.1 + va - pgRoundDown va = x.1 + va % pgSize := by
      unfold pgSize
      omega
    simp only [bind_some, map_some, haddr]

/-- The fault handler, after which the store succeeds directly. -/
lemma store_after_fault (hE : E.Ok lo hi Inv Held) (hc : tab c = some (rootPlace c))
    (hp : tab p = some (rootPlace p)) (hva : op.va < 2 ^ 64)
    (h : CowInv E lo hi Inv Held tab c p m) (hcond : StoreCond E Held c p m op)
    (hmarked : marked (leaf m (tableOf c p op.child) (op.va >>> 12)) = true)
    (hfault : storePageFault E (tableOf c p op.child) op.va m = some m1) :
    store E (tableOf c p op.child) op.va op.value op.handler m1 =
      store E (tableOf c p op.child) op.va op.value true m := by
  have hshift := pgRoundDown_shiftRight hva
  obtain ⟨e, mem, he, -, -, hbreak⟩ := storePageFault_cases hfault
  rw [hshift] at he
  obtain ⟨_, hb, hnext, _⟩ := h.breakCow_broken hE hc hp hmarked (hcond.2.2 hmarked) he hbreak
  obtain ⟨_, hmem, _, _⟩ := hnext.spec hE h.shaped
  have hlt : mem < 2 ^ 64 := by
    have htop := hE.hi_lt
    omega
  have hnew := hb.leaf (tableOf_root hc hp op.child) (op.va >>> 12)
  rw [if_pos ⟨rfl, rfl⟩] at hnew
  -- the entry that the handler has written is valid and writable and names the new frame
  have hmaps := (mapsFrame_own (f := mem) hlt hmem.1 (marked_valid hmarked)).trans
    (decide_eq_true rfl)
  rw [mapsFrame, Bool.and_eq_true, decide_eq_true_iff] at hmaps
  obtain ⟨hv', hframe⟩ := hmaps
  rw [marked, Bool.and_eq_true, Bool.and_eq_true, Bool.not_eq_true'] at hmarked
  obtain ⟨⟨hv, hw⟩, hcow⟩ := hmarked
  simp only [store, hnew, hv', has_own_pteW, hframe, hv, hw, hcow, he, hbreak, Bool.and_true,
    Bool.and_false, if_true, Bool.false_eq_true, if_false, bind_eq_bind, bind_some]

/-! ## Runs of stores -/

lemma uvmcopy_cases (hE : E.Ok lo hi Inv Held) (hs : Shaped Inv Held m tab)
    (hc : tab c = some (rootPlace c)) (h : uvmcopy E c p sz m = some m') :
    sz ≤ 2 ^ 64 - pgSize ∧ ∃ tab', Shaped Inv Held m' tab' ∧
      CopyPages E Inv Held c p (copyCount sz) 0 m tab m' tab' := by
  have hsize : sz ≤ 2 ^ 64 - pgSize := by
    by_contra hlt
    rw [uvmcopy, if_pos (by omega)] at h
    cases h
  rw [uvmcopy_eq hsize] at h
  have hn : copyCount sz < 2 ^ 52 := by
    unfold copyCount pgSize at *
    omega
  exact ⟨hsize, uvmcopyLoop_spec hE 0 (by omega) hs hc h⟩

/-- With enough memory, `uvmcopy` returns with the tables apart exactly for the parents that are
ready. -/
lemma uvmcopy_apart_iff (hE : E.Ok lo hi Inv Held) (hs : Shaped Inv Held m tab)
    (hc : tab c = some (rootPlace c)) (hp : tab p = some (rootPlace p)) (hne : p ≠ c)
    (hempty : ∀ vpn, leaf m c vpn = 0) (hroom : Room E.al (4 * copyCount sz) m.alloc) :
    (∃ m', uvmcopy E c p sz m = some m' ∧ Apart c p m') ↔ CowReady m p sz := by
  constructor
  · rintro ⟨m', hcopy, hapart⟩
    obtain ⟨hsize, tab', _, hpages⟩ := uvmcopy_cases hE hs hc hcopy
    refine ⟨hsize, ?_, (hpages.apart_iff hne hc hp hempty).mp hapart⟩
    intro vpn hvpn
    exact hpages.entry_isSome hne hs.tables hp vpn (Nat.zero_le _) (by omega)
  · intro hready
    have hsize := hready.size
    have hn : copyCount sz < 2 ^ 52 := by
      unfold copyCount pgSize at *
      omega
    obtain ⟨m', hcopy⟩ := uvmcopyLoop_room hE hne 0 (by omega) hs hc hp hroom
      fun k _ hk => hready.tables k (by omega)
    rw [← uvmcopy_eq hsize] at hcopy
    obtain ⟨_, tab', _, hpages⟩ := uvmcopy_cases hE hs hc hcopy
    exact ⟨m', hcopy, (hpages.apart_iff hne hc hp hempty).mpr hready.readOnly⟩

/-- Copy on write isolates parent and child exactly as far as `uvmcopy` sets it up. -/
theorem cow_isolation (hE : E.Ok lo hi Inv Held) (hs : Shaped Inv Held m tab)
    (hc : tab c = some (rootPlace c)) (hp : tab p = some (rootPlace p)) (hne : p ≠ c)
    (hempty : ∀ vpn, leaf m c vpn = 0) :
    (Room E.al (4 * copyCount sz) m.alloc →
      ((∃ m', uvmcopy E c p sz m = some m' ∧ Apart c p m') ↔ CowReady m p sz)) ∧
    (CowReady m p sz → Frames E lo hi Held tab m c p sz → ∀ m', uvmcopy E c p sz m = some m' →
      ∀ ts s, Run (storeStep E c p) m' ts s →
        (∀ t ∈ ts, StoreCond E Held c p t.source t.label) →
        Apart c p s ∧ ∀ t ∈ ts, Unseen c p t.source t.label t.target) := by
  refine ⟨uvmcopy_apart_iff hE hs hc hp hne hempty, ?_⟩
  intro hready hframes m' hcopy ts s hr hcond
  obtain ⟨_, tab', hs', hpages⟩ := uvmcopy_cases hE hs hc hcopy
  have hapart := (hpages.apart_iff hne hc hp hempty).mpr hready.readOnly
  have hstart := hpages.cowInv hE hne hc hp hempty hframes hapart hs'
  have hle := hpages.tablesOnly
  have hstep : ∀ m op m', CowInv E lo hi Inv Held tab' c p m → StoreCond E Held c p m op →
      storeStep E c p m op m' → CowInv E lo hi Inv Held tab' c p m' ∧ Unseen c p m op m' :=
    fun m op m' hinv hcond hst => store_inv hE (hle.le hc) (hle.le hp) hne hinv hcond hst
  have hend := hr.invariant_of_forall hstart hcond fun m op m' hinv hc' hst =>
    (hstep m op m' hinv hc' hst).1
  exact ⟨hend.apart, hr.forall_of_forall hstart hcond hstep⟩

/-! ## One page -/

/-- The leaf entries of a table in which a single page is mapped. -/
lemma MapPage.leaf_single (h : MapPage E Held p vpn f flags m tab m' tab')
    (hp : tab p = some (rootPlace p)) (hempty : ∀ vpn', Vm.leaf m p vpn' = 0) (vpn' : Nat) :
    Vm.leaf m' p vpn' = pa2pte f ||| flags ||| pteV ∨ Vm.leaf m' p vpn' = 0 := by
  rw [h.leaf hp]
  split_ifs
  · exact .inl rfl
  · exact .inr (hempty vpn')

/-- A parent with one page, which is not writable, is ready. -/
lemma MapPage.cowReady (h : MapPage E Held p vpn f flags m tab m' tab')
    (hp : tab p = some (rootPlace p)) (hempty : ∀ vpn', Vm.leaf m p vpn' = 0)
    (hw : has (flags ||| pteV) pteW = false) (hsz : sz ≤ 2 ^ 64 - pgSize)
    (htables : ∀ vpn < copyCount sz, (entryAddr m'.pte p vpn).isSome) : CowReady m' p sz := by
  refine ⟨hsz, htables, ?_⟩
  intro _ _ _ vpn' hmaps
  rcases h.leaf_single hp hempty vpn' with hentry | hzero
  · rw [hentry]
    have hor : has (pa2pte f ||| flags ||| pteV) (1 <<< 2) = has (flags ||| pteV) (1 <<< 2) :=
      has_entry (by decide)
    exact hor.trans hw
  · rw [hzero, has_zero]

/-- A newly allocated frame that is mapped once is kept as `Frames` asks for. -/
lemma MapPage.frames (hE : E.Ok lo hi Inv Held) (h : MapPage E Held p vpn f flags m tab m' tab')
    (hp : tab p = some (rootPlace p)) (hc : tab c = some (rootPlace c)) (hne : p ≠ c)
    (hempty : ∀ r ∈ [c, p], ∀ vpn', Vm.leaf m r vpn' = 0) (hflags : flags < 2 ^ 10)
    (hf : 4096 ∣ f) (hlt : f < 2 ^ 64) (howned : Owned Held m'.alloc f) (htab : tab' f = none)
    (hcnt : ∀ g, Managed lo hi g → m.cnt (pageIndex E g) = 0) (hn : copyCount sz < 255) :
    Frames E lo hi Held tab' m' c p sz := by
  have hp0 : ∀ vpn', Vm.leaf m p vpn' = 0 := hempty p (mem_cons_of_mem _ mem_cons_self)
  have hframe : frameOf f = f := frameOf_of_dvd hf
  have hlo := hE.lo_pos
  constructor
  · intro vpn' hm
    rcases h.leaf_single hp hp0 vpn' with hentry | hzero
    · rw [hentry, pte2pa_entry hlt hflags, hframe]
      exact ⟨howned, htab⟩
    · have hpos := hm.2.1
      rw [hzero] at hpos
      have hnull : pte2pa 0 = 0 := by decide
      omega
  · intro g hg _
    have hroots : ∀ r ∈ [c, p], tab r = some (rootPlace r) := by
      intro r hr
      simp only [mem_cons, not_mem_nil, or_false] at hr
      rcases hr with rfl | rfl
      · exact hc
      · exact hp
    have hnodup : [c, p].Nodup := by simp [hne.symm]
    have hrefs := h.refs_eq (f := g) hroots hnodup (mem_cons_of_mem _ mem_cons_self) hlt
      hflags (by rw [hp0, mapsFrame_zero])
    have hzero : refs m [c, p] g = 0 :=
      refs_eq_zero fun r hr vpn' => by rw [hempty r hr, mapsFrame_zero]
    have hcount := h.cnt_managed hE hg hlt
    rw [hcnt g hg] at hcount
    have hcopies : copiesOf m' p 0 (copyCount sz) g ≤ copyCount sz := slotCount_le _ _ _
    split_ifs at hrefs hcount <;> omega

end

/-- The allocated blocks are made of pages, none of which starts with the magic word. -/
def unforged (m : Mem Buddy.Pool) : Bool :=
  m.alloc.2.all fun b => decide (4096 ∣ b.addr) && (List.range (2 ^ b.order)).all fun i =>
    leWord m.byte (b.addr + 4096 * i) 8 != Buddy.buddyMagic &&
      m.pte (b.addr + 4096 * i) != Buddy.buddyMagic

lemma unforged_spec {m : Mem Buddy.Pool} (h : unforged m = true) :
    Unforged Buddy.held m := by
  rintro x hx ⟨-, -, ⟨b, hb, rfl, rfl⟩, hlo, hhi⟩
  obtain ⟨haddr, hpages⟩ := Bool.and_eq_true_iff.mp (List.all_eq_true.mp h b hb)
  rw [decide_eq_true_eq] at haddr
  obtain ⟨i, hi, rfl⟩ : ∃ i < 2 ^ b.order, x = b.addr + 4096 * i :=
    ⟨(x - b.addr) / 4096, by omega, by omega⟩
  simpa using List.all_eq_true.mp hpages i (mem_range.mpr hi)

/-- The parent's page is marked, the child stores to it through the fault handler. -/
theorem cow_isolation_marked_page :
    ∃ E m₀ p c m m' s ts, bootSmall = some (E, m₀) ∧ CowReady m p 0x2000 ∧
      uvmcopy E c p 0x2000 m = some m' ∧
      Run (storeStep E c p) m' ts s ∧ ts.map Transition.label = [⟨true, 0x1000, 7, true⟩] ∧
      Apart c p m' ∧ Apart c p s ∧ ∀ t ∈ ts, Unseen c p t.source t.label t.target := by
  have hrun : (bootSmall.bind fun x => (allocPagetable x.1 x.2).bind fun p =>
      (allocPagetable x.1 p.2).bind fun c => (kalloc x.1 pgSize c.2).bind fun f =>
        (mappages x.1 p.1 0x1000 f.1 pgSize (pteU ||| pteR ||| pteCow) f.2).bind fun m =>
          (uvmcopy x.1 c.1 p.1 0x2000 m).bind fun m' =>
            (store x.1 c.1 0x1000 7 true m').map fun _ =>
              ((entryAddr m.pte p.1 0).isSome, (entryAddr m.pte p.1 1).isSome,
                lastRef x.1 m' (pte2pa (leaf m' c.1 1)), decide (p.1 = c.1), unforged m',
                decide (⟨pte2pa (leaf m' c.1 1), 0⟩ ∈ m'.alloc.2))) =
      some (true, true, false, false, true, true) := by
    decide +kernel
  simp only [bind_eq_some_iff, map_eq_some_iff, Prod.exists] at hrun
  obtain ⟨E, m, hboot, p, m1, hp, c, m2, hc, f, m3, hf, m4, hmap, m5, hcopy, m6, hstore, heq⟩ := hrun
  simp only [Prod.mk.injEq, decide_eq_false_iff_not, decide_eq_true_eq] at heq
  obtain ⟨htable0, htable1, hlast, hne, hunforged, hframe⟩ := heq
  obtain ⟨hE, hs⟩ := bootSmall_ok hboot
  obtain ⟨tab1, hs1, _, hp1, _, hp0, _, _, hm1, _⟩ := allocPagetable_spec hE hs hp
  obtain ⟨tab2, hs2, _, hc2, hle, hc0, hold, _, hm2, _⟩ := allocPagetable_spec hE hs1 hc
  obtain ⟨htab, hdvd, _, hhi, _, _, hm3, hheld⟩ := kalloc_page hE hs2 hf
  obtain ⟨hs3, _⟩ := kalloc_shaped hE hs2 (by decide) (by decide) hf
  have hp2 := hle hp1
  have hflt : f + 4096 ≤ 2 ^ 64 := by
    have htop := hE.hi_lt
    omega
  obtain ⟨tab4, hs4, hpage⟩ := mappages_page hE hs3 hp2 (by decide) (by decide) hflt hmap
  have hempty : ∀ r ∈ [c, p], ∀ vpn, leaf m3 r vpn = 0 := by
    intro r hr vpn
    rw [hm3]
    simp only [mem_cons, not_mem_nil, or_false] at hr
    rcases hr with rfl | rfl
    · exact hc0 vpn
    · exact (hold hp1 vpn).trans (hp0 vpn)
  have hcnt : m3.cnt = m.cnt := by
    rw [hm3, hm2, hm1]
  have hcount : copyCount 0x2000 = 2 := by decide
  have hready : CowReady m4 p 0x2000 := by
    refine hpage.cowReady hp2 (hempty p (by simp)) (by decide) (by decide) ?_
    intro vpn hvpn
    have hcases : vpn = 0 ∨ vpn = 1 := by omega
    rcases hcases with rfl | rfl
    · exact htable0
    · exact htable1
  have hheld3 : Buddy.held m3.alloc f 1 := (hheld f 1).mpr (.inl ⟨rfl, rfl⟩)
  have howned : Owned Buddy.held m4.alloc f :=
    ⟨f, 1, hpage.held hheld3, le_rfl, by omega⟩
  have htab4 : tab4 f = none := by
    cases ht : tab4 f with
    | none => rfl
    | some pl =>
      rcases hpage.new ht with hold | hfree
      · rw [htab] at hold
        cases hold
      · exact absurd ⟨f, 1, hheld3, le_rfl, by omega⟩ hfree
  have hframes : Frames E (bootLo 0x80300000 0x80310000) (pgRoundDown 0x80310000) Buddy.held tab4
      m4 c p 0x2000 := by
    refine hpage.frames hE hp2 hc2 hne hempty (by decide) hdvd (by omega) howned htab4 ?_
      (by rw [hcount]; decide)
    intro g hg
    rw [hcnt]
    exact kmemInit_cnt (by decide) (by decide) hboot hg
  have hempty4 : ∀ vpn, leaf m4 c vpn = 0 := by
    intro vpn
    rw [hpage.leaf hc2, if_neg fun hand => hne hand.1.symm]
    exact hempty c mem_cons_self vpn
  have hstart : Run (storeStep E c p) m5 [] m5 := Run.nil
  have hstep : storeStep E c p m5 ⟨true, 0x1000, 7, true⟩ m6 := hstore
  have hcow := (cow_isolation hE hs4 (hpage.le hc2) (hpage.le hp2) hne hempty4).2
    hready hframes m5 hcopy
  refine ⟨E, m, p, c, m4, m5, m6, _, hboot, hready, hcopy, hstart.snoc hstep, rfl,
    (hcow [] m5 hstart (by simp)).1, hcow _ m6 (hstart.snoc hstep) ?_⟩
  intro t ht
  rw [nil_append, mem_singleton] at ht
  subst ht
  have hva : (0x1000 : Nat) >>> 12 = 1 := by decide
  refine ⟨unforged_spec hunforged, ?_, fun _ hl => ?_⟩
  · have hheld5 : Buddy.held m5.alloc (pte2pa (leaf m5 c 1)) 1 := ⟨_, hframe, rfl, rfl⟩
    simp only [tableOf, if_true, hva]
    exact ⟨_, 1, hheld5, le_rfl, by omega⟩
  · simp only [tableOf, if_true, hva, hlast] at hl
    cases hl

/-- A page that the parent can store to stays writable for it, and its stores are seen by the
child. -/
theorem uvmcopy_parent_store_seen :
    ∃ E m₀ p c m m' s, bootSmall = some (E, m₀) ∧ uvmcopy E c p 0x2000 m = some m' ∧
      storeStep E c p m' ⟨false, 0x1000, 7, false⟩ s ∧ ¬ Apart c p m' ∧
      ¬ Unseen c p m' ⟨false, 0x1000, 7, false⟩ s := by
  have hrun : (bootSmall.bind fun x => (allocPagetable x.1 x.2).bind fun p =>
      (allocPagetable x.1 p.2).bind fun c => (kalloc x.1 pgSize c.2).bind fun f =>
        (mappages x.1 p.1 0x1000 f.1 pgSize (pteU ||| pteRw) f.2).bind fun m =>
          (uvmcopy x.1 c.1 p.1 0x2000 m).bind fun m' =>
            (store x.1 p.1 0x1000 7 false m').map fun s =>
              (mapsFrame f.1 (leaf m' p.1 1), has (leaf m' p.1 1) pteW,
                mapsFrame f.1 (leaf m' c.1 1), readByte m' c.1 0x1000, readByte s c.1 0x1000)) =
      some (true, true, true, some 0, some 7) := by
    decide +kernel
  simp only [bind_eq_some_iff, map_eq_some_iff, Prod.exists] at hrun
  obtain ⟨E, m, hboot, p, m1, hp, c, m2, hc, f, m3, hf, m4, hmap, m5, hcopy, m6, hstore, heq⟩ := hrun
  simp only [Prod.mk.injEq] at heq
  obtain ⟨hparent, hw, hchild, hbefore, hafter⟩ := heq
  refine ⟨E, m, p, c, m4, m5, m6, hboot, hcopy, hstore, fun hapart => ?_, fun hunseen => ?_⟩
  · have hno : mapsFrame f (leaf m5 c 1) = false := hapart false f 1 1 hparent hw
    rw [hchild] at hno
    cases hno
  · have hread : readByte m6 c 0x1000 = readByte m5 c 0x1000 := hunseen 0x1000
    rw [hbefore, hafter] at hread
    exact absurd hread (by decide)

end Hana.Vm
