import Hana.Mm.Alloc
import Hana.Mm.Vm.Pte

/-!
# Virtual memory

`walk` of the RISC-V `mm.c`, the frame counters of `page.c` and the functions of `vm.c`
that build, copy and take down user page tables. The kernel maps physical memory one to
one, so a table is known by its address. `pte` holds the words of the page tables and
`byte` the contents of the frames behind them; `cnt` holds the `cnt` fields of the array
`pages`, and `kfreed` lists what was passed to `kfree`. In memory these are the same words as
those in which the allocator keeps the headers of its free blocks; what is proved here is about
memories in which no allocated page looks like a free block.

`none` stands for a stop of the kernel or of the calling process: a failed assertion, the
end of memory, the use of a null pointer or `EXIT_IF`.
-/

namespace Hana.Vm

structure Mem (A : Type) where
  alloc : A
  pte : Nat → Nat
  byte : Nat → Nat
  cnt : Nat → Nat
  kfreed : List Nat

/-- What does not change while the kernel runs. -/
structure Env (A : Type) where
  al : Allocator A
  pages : Nat
  kernelPagetable : Nat

variable {A : Type}

def Mem.setPte (p v : Nat) (m : Mem A) : Mem A := { m with pte := Function.update m.pte p v }

def kalloc (E : Env A) (sz : Nat) (m : Mem A) : Option (Nat × Mem A) := do
  let (p, a) ← E.al.kalloc sz m.alloc
  some (p, { m with alloc := a })

def kfree (E : Env A) (p : Nat) (m : Mem A) : Option (Mem A) := do
  let a ← E.al.kfree p m.alloc
  some { m with alloc := a, kfreed := m.kfreed ++ [p] }

/-! ## Frame counters -/

/-- The index of `GET_PAGE`. -/
def pageIndex (E : Env A) (pa : Nat) : Nat := wrap64 (pa + (2 ^ 64 - E.pages)) >>> pgShift

/-- `page_ref_inc` and `page_ref_dec` leave addresses outside of this range alone. -/
def counted (E : Env A) (pa : Nat) : Bool := decide (E.pages ≤ pa) && decide (pa ≤ physTop)

def pageRefInc (E : Env A) (pa : Nat) (m : Mem A) : Mem A :=
  if counted E pa then
    { m with cnt := Function.update m.cnt (pageIndex E pa) ((m.cnt (pageIndex E pa) + 1) % 256) }
  else m

/-- `page_ref_dec`, with the old value of the counter or `-1`. -/
def pageRefDec (E : Env A) (pa : Nat) (m : Mem A) : Int × Mem A :=
  if counted E pa then
    (m.cnt (pageIndex E pa), { m with
      cnt := Function.update m.cnt (pageIndex E pa) ((m.cnt (pageIndex E pa) + 255) % 256) })
  else (-1, m)

/-- The pattern `if (page_ref_dec(pa) == 1) kfree(pa)`. -/
def dropFrame (E : Env A) (pa : Nat) (m : Mem A) : Option (Mem A) :=
  let (old, m) := pageRefDec E pa m
  if old = 1 then kfree E pa m else some m

/-! ## Page tables -/

/-- `memset(pgtbl, 0, PGSIZE)`. -/
def clearTable (t : Nat) (m : Mem A) : Mem A :=
  { m with pte := fun p => if t ≤ p ∧ p < t + pgSize then 0 else m.pte p }

def allocPagetable (E : Env A) (m : Mem A) : Option (Nat × Mem A) := do
  let (t, m) ← kalloc E pgSize m
  some (t, clearTable t m)

/-- One turn of the loop of `walk`: the next table, if there is one or one is made. -/
def walkStep (E : Env A) (alloc : Bool) (pte : Nat) (m : Mem A) : Option (Option Nat × Mem A) :=
  if has (m.pte pte) pteV then some (some (pte2pa (m.pte pte)), m)
  else if alloc then do
    let (t, m) ← allocPagetable E m
    let m := m.setPte pte (pa2pte t)
    if pa2pte t ≠ 0 then
      let m := m.setPte pte (m.pte pte ||| pteV)
      some (some (pte2pa (m.pte pte)), m)
    else some (none, m)
  else some (none, m)

def walkLoop (E : Env A) (alloc : Bool) (va : Nat) :
    (shifts : List Nat) → (pgtbl : Nat) → Mem A → Option (Option Nat × Mem A)
  | [], pgtbl, m => some (some (pgtbl + 8 * (va &&& 0x1ff)), m)
  | shift :: shifts, pgtbl, m => do
    let (next, m) ← walkStep E alloc (pgtbl + 8 * ((va >>> shift) &&& 0x1ff)) m
    match next with
    | none => some (none, m)
    | some pgtbl => walkLoop E alloc va shifts pgtbl m

/-- The address of the entry for `va`, with `none` for `NULL`. -/
def walk (E : Env A) (pgtbl va : Nat) (alloc : Bool) (m : Mem A) : Option (Option Nat × Mem A) :=
  walkLoop E alloc (va >>> 12) [18, 9] pgtbl m

/-- The number of pages that `mappages` maps; it is kept in an `int`. -/
def mapCount (va sz : Nat) : Nat :=
  let startVa := pgRoundDown va
  let endVa := pgRoundUp (wrap64 (va + sz + (2 ^ 64 - 1)))
  (toInt32 (wrap64 (endVa + (2 ^ 64 - startVa)) >>> pgShift)).toNat

/-- `va + nr_mapped * PGSIZE`; the product is an `int`. -/
def offsetVa (va nrMapped : Nat) : Nat :=
  (((va : Int) + toInt32 (nrMapped * pgSize)) % (2 ^ 64 : Int)).toNat

/-- The loop of `mappages`, with `n` pages to go and `nrMapped` pages mapped. -/
def mappagesLoop (E : Env A) (pgtbl va flags : Nat) :
    (n nrMapped pte pa : Nat) → Mem A → Option (Mem A)
  | 0, _, _, _, m => some m
  | n + 1, nrMapped, pte, pa, m => do
    let m := m.setPte pte (pa2pte pa ||| flags ||| pteV)
    let m := pageRefInc E pa m
    if isPgAligned (pte + 8) then
      let (pte, m) ← walk E pgtbl (offsetVa va (nrMapped + 1)) true m
      let pte ← pte
      mappagesLoop E pgtbl va flags n (nrMapped + 1) pte (wrap64 (pa + pgSize)) m
    else mappagesLoop E pgtbl va flags n (nrMapped + 1) (pte + 8) (wrap64 (pa + pgSize)) m

def mappages (E : Env A) (pgtbl va pa sz flags : Nat) (m : Mem A) : Option (Mem A) := do
  let (pte, m) ← walk E pgtbl va true m
  let pte ← pte
  mappagesLoop E pgtbl va flags (mapCount va sz) 0 pte pa m

/-! ## Copying an address space -/

/-- The complement of a flag, in 64 bits. -/
def complement (flag : Nat) : Nat := 2 ^ 64 - 1 - flag

/-- The flags that `uvmcopy` gives the child's entry. -/
def copyFlags (pte : Nat) : Nat :=
  let flags := pteFlags pte
  if has pte pteW then (flags &&& complement pteW) ||| pteCow else flags

/-- The loop of `uvmcopy`, with `n` pages to go. -/
def uvmcopyLoop (E : Env A) (cpgtbl ppgtbl : Nat) : (n va : Nat) → Mem A → Option (Mem A)
  | 0, _, m => some m
  | n + 1, va, m => do
    let (ppte, m) ← walk E ppgtbl va false m
    let ppte ← ppte
    let pa := pte2pa (m.pte ppte)
    let m ← if pa ≠ 0 then mappages E cpgtbl va pa pgSize (copyFlags (m.pte ppte)) m else some m
    uvmcopyLoop E cpgtbl ppgtbl n (va + pgSize) m

/-- `uvmcopy`. If `va` can wrap around below `sz`, the loop does not end. -/
def uvmcopy (E : Env A) (cpgtbl ppgtbl sz : Nat) (m : Mem A) : Option (Mem A) :=
  if 2 ^ 64 - pgSize < sz then none
  else uvmcopyLoop E cpgtbl ppgtbl ((sz + (pgSize - 1)) / pgSize) 0 m

/-- The fields of a `struct vm_area` that say what it maps. -/
structure VmArea where
  start : Nat
  end_ : Nat
  prot : Nat
deriving DecidableEq, Repr

/-- The loop of `uvmcopy_alloc` over the pages of one area, with `n` pages to go. -/
def uvmcopyAllocPages (E : Env A) (cpgtbl perms : Nat) : (n va : Nat) → Mem A → Option (Mem A)
  | 0, _, m => some m
  | n + 1, va, m => do
    let (p, m) ← kalloc E pgSize m
    let m ← mappages E cpgtbl va p pgSize perms m
    uvmcopyAllocPages E cpgtbl perms n (va + pgSize) m

/-- `uvmcopy_alloc`, which takes the parent's table and does not use it. -/
def uvmcopyAlloc (E : Env A) (cpgtbl _ppgtbl : Nat) : List VmArea → Mem A → Option (Mem A)
  | [], m => some m
  | vma :: vmas, m => do
    let n := (vma.end_ - vma.start + (pgSize - 1)) / pgSize
    let m ← if 2 ^ 64 ≤ vma.start + n * pgSize then none
      else uvmcopyAllocPages E cpgtbl vma.prot n vma.start m
    uvmcopyAlloc E cpgtbl _ppgtbl vmas m

/-! ## Stores -/

/-- `memmove(mem, pa, PGSIZE)`. -/
def copyFrame (mem pa : Nat) (m : Mem A) : Mem A :=
  { m with byte := fun x => if mem ≤ x ∧ x < mem + pgSize then m.byte (pa + (x - mem))
      else m.byte x }

def writeBytes (a : Nat) (src : List Nat) (m : Mem A) : Mem A :=
  { m with byte := fun x => if a ≤ x ∧ x < a + src.length then src.getD (x - a) 0
      else m.byte x }

/-- The branch that gives the entry at `pte` a frame of its own. `copyout` and the store fault
handler share it but for one line: only the handler counts the new mapping. -/
def breakCow (E : Env A) (count : Bool) (pte : Nat) (m : Mem A) : Option (Nat × Mem A) := do
  let (mem, m) ← kalloc E pgSize m
  let pa := pte2pa (m.pte pte)
  let m := copyFrame mem pa m
  let flags := (pteFlags (m.pte pte) &&& complement pteCow) ||| pteW
  let m := m.setPte pte (pa2pte mem ||| flags)
  let m := if count then pageRefInc E mem m else m
  let m ← dropFrame E pa m
  some (mem, m)

/-- The loop of `copyout`; every turn copies at least one byte. -/
def copyoutLoop (E : Env A) (pgtbl : Nat) :
    (fuel dstva : Nat) → List Nat → Mem A → Option (Int × Mem A)
  | 0, _, _, m => some (0, m)
  | fuel + 1, dstva, src, m =>
    if src = [] then some (0, m)
    else do
      let va0 := pgRoundDown dstva
      let (pte, m) ← walk E pgtbl va0 false m
      let pte ← pte
      if !has (m.pte pte) pteV || !has (m.pte pte) pteU then none
      else
        let pa0 := pte2pa (m.pte pte)
        if pa0 = 0 then some (-1, m)
        else
          let (pa0, m) ← if has (m.pte pte) pteCow then breakCow E false pte m else some (pa0, m)
          let n := min (pgSize - (dstva - va0)) src.length
          let m := writeBytes (pa0 + dstva - va0) (src.take n) m
          copyoutLoop E pgtbl fuel (wrap64 (va0 + pgSize)) (src.drop n) m

def copyout (E : Env A) (pgtbl dstva : Nat) (src : List Nat) (m : Mem A) :
    Option (Int × Mem A) :=
  copyoutLoop E pgtbl src.length dstva src m

/-- The store fault handler on a given table. -/
def storePageFault (E : Env A) (pgtbl badv : Nat) (m : Mem A) : Option (Mem A) := do
  let va := pgRoundDown badv
  let (pte, m) ← walk E pgtbl va false m
  let pte ← pte
  if m.pte pte = 0 || !has (m.pte pte) pteV || !has (m.pte pte) pteCow then none
  else
    let (_, m) ← breakCow E true pte m
    some m

/-- `store_page_fault_handler`, which looks the address up in the kernel's own table. -/
def storePageFaultHandler (E : Env A) (badv : Nat) (m : Mem A) : Option (Mem A) :=
  storePageFault E E.kernelPagetable badv m

/-! ## Unmapping -/

/-- The innermost loop body of `uvmunmap`. -/
def unmapEntry (E : Env A) (doFree : Bool) (p : Nat) (m : Mem A) : Option (Mem A) :=
  let pa := pte2pa (m.pte p)
  if pa ≠ 0 then do
    let m ← if doFree then dropFrame E pa m else some m
    some (m.setPte p 0)
  else some m

/-- `uvmunmap`. The parentheses of the first test are those of the source. -/
def uvmunmap (E : Env A) (pagetable va _npages : Nat) (doFree : Bool) (m : Mem A) :
    Option (Mem A) :=
  if !isPgAligned va then none
  else
    (List.range 511).foldlM (fun m i =>
      if pte2pa (if m.pte (pagetable + 8 * i) ≠ 0 then 1 else 0) ≠ 0 then
        let pgtbl1 := pa2pte (m.pte (pagetable + 8 * i))
        (List.range 512).foldlM (fun m j =>
          if pte2pa (m.pte (pgtbl1 + 8 * j)) ≠ 0 then
            let pgtbl2 := pa2pte (m.pte (pgtbl1 + 8 * j))
            (List.range 512).foldlM (fun m k => unmapEntry E doFree (pgtbl2 + 8 * k) m) m
          else some m) m
      else some m) m

/-- `freewalk(pgtbl, level)` with `n = 3 - level`. The entries of a leaf table are followed to
level 3, where the call returns at once. -/
def freewalk (E : Env A) : (n pgtbl : Nat) → Mem A → Option (Mem A)
  | 0, _, m => some m
  | n + 1, pgtbl, m => do
    let m ← (List.range 512).foldlM (fun m i => do
      let child := pte2pa (m.pte (pgtbl + 8 * i))
      let m ← (if child ≠ 0 then freewalk E n child m else some m)
      some (m.setPte (pgtbl + 8 * i) 0)) m
    kfree E pgtbl m

def uvmfree (E : Env A) (pgtbl sz : Nat) (m : Mem A) : Option (Mem A) := do
  let m ← if 0 < sz then uvmunmap E pgtbl 0 (pgRoundUp sz >>> pgShift) true m else some m
  freewalk E 3 pgtbl m

def uvmfreeVma (E : Env A) (pgtbl : Nat) (vmaList : List VmArea) (m : Mem A) : Option (Mem A) := do
  let m ← vmaList.foldlM (fun m vma =>
    uvmunmap E pgtbl vma.start ((vma.end_ - vma.start) >>> pgShift) true m) m
  freewalk E 3 pgtbl m

/-! ## The view of a table -/

/-- The entry address that `walk` finds without making tables; `vpn` is `va >> 12`. -/
def entryAddr (pte : Nat → Nat) (pgtbl vpn : Nat) : Option Nat :=
  let p2 := pgtbl + 8 * ((vpn >>> 18) &&& 0x1ff)
  if has (pte p2) pteV then
    let p1 := pte2pa (pte p2) + 8 * ((vpn >>> 9) &&& 0x1ff)
    if has (pte p1) pteV then some (pte2pa (pte p1) + 8 * (vpn &&& 0x1ff)) else none
  else none

/-- The leaf entry of a page, zero where there is no leaf table. -/
def leaf (m : Mem A) (pgtbl vpn : Nat) : Nat :=
  match entryAddr m.pte pgtbl vpn with
  | some p => m.pte p
  | none => 0

/-- The entry maps the frame at `f`. -/
def mapsFrame (f pte : Nat) : Bool := has pte pteV && decide (pte2pa pte = f)

/-- User code can store through the entry. -/
def userWritable (pte : Nat) : Bool := has pte pteV && has pte pteU && has pte pteW

/-- The byte that a load through the table reads. -/
def readByte (m : Mem A) (pgtbl va : Nat) : Option Nat :=
  let pte := leaf m pgtbl (va >>> 12)
  if has pte pteV then some (m.byte (pte2pa pte + va % 4096)) else none

end Hana.Vm
