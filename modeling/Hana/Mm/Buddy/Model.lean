import Hana.Common

/-!
# The buddy allocator

`kernel/mm/buddy.c` and the two entry points of `kernel/mm/kalloc.c`. The headers that the
allocator keeps inside the pages (`struct block`) are four maps from addresses to field
values; the heads of the free lists are `struct block`s inside `zone`, at addresses fixed
by a `Layout`. `nrFree` holds the `nr_free` fields of `zone` and `pageOrder` the `order`
bit field of the `pages` array.

A function whose source can stop in `assert`, `panic` or `TODO` returns an `Option`, with
`none` for the stop.
-/

namespace Hana.Buddy

open Function

def maxOrder : Nat := 11

def buddyMagic : Nat := 0x42554459

/-- The addresses of the global `zone` and of the array `pages`. -/
structure Layout where
  zone : Nat
  pages : Nat

/-- `&zone.free_area[k].free_list`; a `struct free_area` takes 40 bytes. -/
def Layout.freeList (L : Layout) (k : Nat) : Nat := L.zone + 40 * k

def Layout.pageIndex (L : Layout) (addr : Nat) : Nat :=
  wrap64 (addr + (2 ^ 64 - L.pages)) >>> pgShift

structure Kmem where
  magic : Nat → Nat
  order : Nat → Int
  prev : Nat → Nat
  next : Nat → Nat
  nrFree : Nat → Nat
  pageOrder : Nat → Nat

def blockSize (order : Nat) : Nat := pgSize <<< order

def blockNpages (order : Nat) : Nat := 1 <<< order

def buddyBlock (addr order : Nat) : Nat := addr ^^^ (pgSize <<< order)

/-- `BUDDY_LOW`, with the complement taken in 64 bits. -/
def buddyLow (addr order : Nat) : Nat := addr &&& (2 ^ 64 - 1 - (pgSize <<< order))

/-! ## Free lists -/

def addFirst (L : Layout) (addr order : Nat) (st : Kmem) : Option Kmem :=
  if isPgAligned addr then
    let head := L.freeList order
    let first := st.next head
    some { st with
      order := update st.order addr order
      next := update (update st.next head addr) addr first
      prev := update (update st.prev addr head) first addr
      nrFree := update st.nrFree order (wrap64 (st.nrFree order + 1)) }
  else none

def addLast (L : Layout) (addr order : Nat) (st : Kmem) : Option Kmem :=
  if isPgAligned addr then
    let head := L.freeList order
    let last := st.prev head
    some { st with
      order := update st.order addr order
      magic := update st.magic addr buddyMagic
      prev := update (update st.prev head addr) addr last
      next := update (update st.next addr head) last addr
      nrFree := update st.nrFree order (wrap64 (st.nrFree order + 1)) }
  else none

def remove (block : Nat) (st : Kmem) : Kmem :=
  let prevBlock := st.prev block
  let nextBlock := st.next block
  let k := (st.order block).toNat
  { st with
    next := update st.next prevBlock nextBlock
    prev := update st.prev nextBlock prevBlock
    nrFree := update st.nrFree k (wrap64 (st.nrFree k + (2 ^ 64 - 1)))
    order := update st.order block (-1)
    magic := update st.magic block 0 }

/-! ## Allocation -/

/-- `(uint64) (1 << order)`: the shift is made in `int`. -/
def intOneShl (order : Nat) : Nat := if order < 31 then 2 ^ order else 2 ^ 64 - 2 ^ 31

/-- `(uint64) (PGSIZE << order)`: the shift is made in `int`. -/
def intPageShl (order : Nat) : Nat :=
  if order < 19 then pgSize * 2 ^ order else if order = 19 then 2 ^ 64 - 2 ^ 31 else 0

/-- The loop of `get_order`. It stops at order 31 at the latest, where `intOneShl` exceeds
every page count. -/
def getOrderLoop (size : Nat) : (fuel order : Nat) → Nat
  | 0, order => order
  | fuel + 1, order =>
    if intOneShl order < size then getOrderLoop size fuel (order + 1) else order

def getOrder (size : Nat) : Nat := getOrderLoop (size >>> pgShift) 31 0

/-- The inner loop of `require`, for `j = order + n - 1` down to `order`. -/
def requireSplit (L : Layout) (order : Nat) : (n addr : Nat) → Kmem → Option (Nat × Kmem)
  | 0, addr, st => some (addr, st)
  | n + 1, addr, st => do
    let st ← addFirst L addr (order + n) st
    requireSplit L order n (addr + blockSize (order + n)) st

/-- `require`, with `none` also for the result `NULL`. -/
def require (L : Layout) (order : Nat) (st : Kmem) : Option (Nat × Kmem) :=
  match (List.range' (order + 1) (maxOrder - (order + 1))).find? fun i => st.nrFree i != 0 with
  | none => none
  | some i =>
    let freeBlock := st.prev (L.freeList i)
    requireSplit L order (i - order) freeBlock (remove freeBlock st)

/-- `SET_PAGE_ORDER`; the bit field has four bits. -/
def setPageOrder (L : Layout) (addr order : Nat) (st : Kmem) : Kmem :=
  { st with pageOrder := update st.pageOrder (L.pageIndex addr) (order % 16) }

def buddyAlloc (L : Layout) (sz : Nat) (st : Kmem) : Option (Nat × Kmem) :=
  if sz = 0 then none
  else
    let size := pgRoundUp sz
    let order := getOrder size
    if intPageShl order < sz then none
    else if st.nrFree order ≠ 0 then
      let freeBlock := st.prev (L.freeList order)
      some (freeBlock, setPageOrder L freeBlock order (remove freeBlock st))
    else do
      let (addr, st) ← require L order st
      if addr = 0 then none else some (addr, setPageOrder L addr order st)

def kalloc (L : Layout) (sz : Nat) (st : Kmem) : Option (Nat × Kmem) :=
  if sz = 0 then none else buddyAlloc L sz st

/-! ## Freeing -/

/-- The test of `buddy_free_helper`: the buddy carries the mark and the order of a free
block, and its links point into RAM. -/
def canMerge (addr order : Nat) (st : Kmem) : Bool :=
  let buddy := buddyBlock addr order
  decide (order < maxOrder - 1) && st.magic buddy == buddyMagic && st.order buddy == order &&
    inRam (st.prev buddy) && inRam (st.next buddy)

/-- `buddy_free_helper`. The recursion raises the order, so that `fuel = MAX_ORDER - 1 - order`
is zero exactly where the test fails for its first condition. -/
def buddyFreeHelper (L : Layout) : (fuel addr order : Nat) → Kmem → Option Kmem
  | 0, addr, order, st => addLast L addr order st
  | fuel + 1, addr, order, st =>
    if canMerge addr order st then
      buddyFreeHelper L fuel (buddyLow addr order) (order + 1)
        (remove (buddyBlock addr order) st)
    else addLast L addr order st

def buddyFree (L : Layout) (addr order : Nat) (st : Kmem) : Option Kmem :=
  buddyFreeHelper L (maxOrder - 1 - order) addr order (setPageOrder L addr 0 st)

def kfree (L : Layout) (addr : Nat) (st : Kmem) : Option Kmem :=
  buddyFree L addr (st.pageOrder (L.pageIndex addr)) st

/-! ## Initialisation -/

/-- The loop of `buddy_init` over `i = n - 1` down to `0` that distributes the pages. -/
def initCountsLoop : (n npages : Nat) → (nrFree : Nat → Nat) → Nat → Nat
  | 0, _, nrFree => nrFree
  | i + 1, npages, nrFree =>
    initCountsLoop i (npages &&& (1 <<< i - 1))
      (update nrFree i (wrap64 (nrFree i + npages >>> i)))

/-- The first part of `buddy_init`: the number of blocks of each order. -/
def initCounts (npages : Nat) : Nat → Nat :=
  let squareNpages := maxOrder * blockNpages (maxOrder - 1)
  if squareNpages < npages then
    initCountsLoop maxOrder (npages - squareNpages) fun i => 1 <<< (maxOrder - 1 - i)
  else initCountsLoop maxOrder npages fun _ => 0

/-- The inner loop that lays out `n` blocks of one order from `s` on. -/
def layBlocks (L : Layout) (order : Nat) : (n s : Nat) → Kmem → Option (Nat × Kmem)
  | 0, s, st => some (s, st)
  | n + 1, s, st => do
    let st ← addLast L s order st
    layBlocks L order n (s + blockSize order) st

/-- The outer loop that lays out the blocks, over the remaining orders. -/
def layOrders (L : Layout) : (orders : List Nat) → (s : Nat) → Kmem → Option (Nat × Kmem)
  | [], s, st => some (s, st)
  | i :: orders, s, st => do
    let nrAlloc := (toInt32 (st.nrFree i)).toNat
    let (s, st) ← layBlocks L i nrAlloc s
      { st with nrFree := update st.nrFree i 0 }
    layOrders L orders s st

/-- The zone after the list heads have been linked to themselves. -/
def initZone (L : Layout) (nrFree : Nat → Nat) (st : Kmem) : Kmem :=
  let isHead : Nat → Bool := fun a => (List.range maxOrder).any fun k => a == L.freeList k
  { st with
    magic := fun a => if isHead a then 0 else st.magic a
    order := fun a => if isHead a then 0 else st.order a
    prev := fun a => if isHead a then a else st.prev a
    next := fun a => if isHead a then a else st.next a
    nrFree := nrFree }

def buddyInit (L : Layout) (start end_ : Nat) (st : Kmem) : Option Kmem :=
  let s := pgRoundUp start
  let e := pgRoundDown end_
  let npages := wrap64 (e + (2 ^ 64 - s)) >>> pgShift
  if e < s then none
  else
    let counts := initCounts npages
    let total := ((List.range maxOrder).map fun i => blockNpages i * counts i).sum
    if wrap64 (npages + (2 ^ 64 - wrap64 total)) ≠ 0 then none
    else do
      let (s, st) ← layOrders L (List.range maxOrder) s (initZone L counts st)
      if s = e then some st else none

end Hana.Buddy
