import RTThread.Lib.Dll

set_option autoImplicit false

/-! # The memheap allocator (`memheap.c`)

A pool is a stretch of memory tiled by blocks. Every block starts with a header
(`struct rt_memheap_item`, six words); headers are linked by address through `next` and
`prev`, and the headers of free blocks also through `next_free` and `prev_free`, a circular
list whose head `free_header` lies in the heap object.

Memory is a map from the address of a word to its contents, and a header field is the word at
the field's offset, so headers may overlap payload bytes, and the header built by an in-place
growth may overlap the one it replaces. Pointers and sizes are 32-bit words: natural numbers
with the wrap-around written out (`u32`, `sub32`).

A function returns `none` where the code does not return: a failed `RT_ASSERT`, a semaphore
taken for ever, or a search that never ends.
-/

namespace RTThread.Memheap

/-! ## Words -/

/-- A 32-bit result. -/
def u32 (x : Nat) : Nat := x % 4294967296

/-- 32-bit subtraction. -/
def sub32 (x y : Nat) : Nat := u32 (x + (4294967296 - u32 y))

def RT_ALIGN_SIZE : Nat := 4

/-- `RT_ALIGN(size, RT_ALIGN_SIZE)`: the alignment is a power of two, so masking the low bits
is rounding down to a multiple. -/
def rtAlign (size : Nat) : Nat := u32 (size + (RT_ALIGN_SIZE - 1)) / RT_ALIGN_SIZE * RT_ALIGN_SIZE

/-- `RT_ALIGN_DOWN(size, RT_ALIGN_SIZE)`. -/
def rtAlignDown (size : Nat) : Nat := size / RT_ALIGN_SIZE * RT_ALIGN_SIZE

def RT_MEMHEAP_MAGIC : Nat := 0x1ea01ea0
def RT_MEMHEAP_MASK : Nat := 0xfffffffe
def RT_MEMHEAP_USED : Nat := 0x01
def RT_MEMHEAP_MINIALLOC : Nat := 12

/-- `RT_ALIGN(sizeof(struct rt_memheap_item), RT_ALIGN_SIZE)`: six words. -/
def RT_MEMHEAP_SIZE : Nat := 24

/-! ## Memory and headers -/

/-- The contents of the word at an address. -/
abbrev Mem := Nat → Nat

/-- The fields of `struct rt_memheap_item`. -/
inductive Field
  | magic | poolPtr | next | prev | nextFree | prevFree
  deriving DecidableEq, Repr

/-- The offset of a field in the header. -/
def Field.off : Field → Nat
  | .magic => 0
  | .poolPtr => 4
  | .next => 8
  | .prev => 12
  | .nextFree => 16
  | .prevFree => 20

/-- `item->f`. -/
def Mem.get (m : Mem) (f : Field) (item : Nat) : Nat := m (item + f.off)

/-- `item->f = v`. -/
def Mem.set (m : Mem) (f : Field) (item v : Nat) : Mem :=
  fun a => if a = item + f.off then v else m a

/-- `rt_memcpy(dst, src, n)` on ranges that do not overlap. -/
def Mem.copy (m : Mem) (dst src n : Nat) : Mem :=
  fun a => if dst ≤ a ∧ a < dst + n then m (src + (a - dst)) else m a

/-- `RT_MEMHEAP_IS_USED(item)`. -/
def isUsed (m : Mem) (item : Nat) : Prop := m.get .magic item &&& RT_MEMHEAP_USED ≠ 0

instance (m : Mem) (item : Nat) : Decidable (isUsed m item) := instDecidableNot

/-- `MEMITEM_SIZE(item)`. -/
def memitemSize (m : Mem) (item : Nat) : Nat :=
  sub32 (sub32 (m.get .next item) item) RT_MEMHEAP_SIZE

/-- The fields of `struct rt_memheap`, the address of the embedded `free_header` and the value
of the semaphore `lock`. -/
structure RtMemheap where
  startAddr : Nat
  poolSize : Nat
  availableSize : Nat
  maxUsedSize : Nat
  blockList : Nat
  freeList : Nat
  freeHeader : Nat
  lock : Nat

/-- One heap object and the memory. -/
structure Pool where
  mem : Mem
  heap : RtMemheap

/-- The memory and the heap objects, by address. -/
structure State where
  mem : Mem
  heap : Nat → RtMemheap

/-- Run a function of one heap. -/
def State.withHeap {α : Type} (s : State) (heap : Nat) (f : Pool → Option (α × Pool)) :
    Option (α × State) :=
  (f ⟨s.mem, s.heap heap⟩).map fun r =>
    (r.1, ⟨r.2.mem, Function.update s.heap heap r.2.heap⟩)

/-- Change the memory. -/
def Pool.store (p : Pool) (f : Field) (item v : Nat) : Pool := { p with mem := p.mem.set f item v }

def Pool.setAvailable (p : Pool) (v : Nat) : Pool :=
  { p with heap := { p.heap with availableSize := v } }

@[simp] theorem Pool.setAvailable_mem (p : Pool) (v : Nat) : (p.setAvailable v).mem = p.mem := rfl

@[simp] theorem Pool.setAvailable_availableSize (p : Pool) (v : Nat) :
    (p.setAvailable v).heap.availableSize = v := rfl

@[simp] theorem Pool.setAvailable_lock (p : Pool) (v : Nat) :
    (p.setAvailable v).heap.lock = p.heap.lock := rfl

/-- `if (pool_size - available_size > max_used_size) max_used_size = pool_size - available_size`. -/
def Pool.updateMaxUsed (p : Pool) : Pool :=
  if p.heap.maxUsedSize < sub32 p.heap.poolSize p.heap.availableSize then
    { p with heap := { p.heap with maxUsedSize := sub32 p.heap.poolSize p.heap.availableSize } }
  else p

/-- `rt_sem_take(&(heap->lock), RT_WAITING_FOREVER)`: without another thread to release it, a
semaphore of value `0` is waited for for ever. -/
def Pool.lockTake (p : Pool) : Option Pool :=
  if p.heap.lock = 0 then none
  else some { p with heap := { p.heap with lock := p.heap.lock - 1 } }

/-- `rt_sem_release(&(heap->lock))`. -/
def Pool.lockRelease (p : Pool) : Pool :=
  { p with heap := { p.heap with lock := p.heap.lock + 1 } }

/-! ## The pieces the functions share

The functions edit the two lists with the same few groups of statements. -/

/-- Remove an item from the free list. -/
def unlinkFree (m : Mem) (item : Nat) : Mem :=
  let m := m.set .prevFree (m.get .nextFree item) (m.get .prevFree item)
  m.set .nextFree (m.get .prevFree item) (m.get .nextFree item)

/-- Insert an item at the front of the free list. -/
def pushFree (m : Mem) (freeList item : Nat) : Mem :=
  let m := m.set .nextFree item (m.get .nextFree freeList)
  let m := m.set .prevFree item freeList
  let m := m.set .prevFree (m.get .nextFree freeList) item
  m.set .nextFree freeList item

/-- Build the header of a free block at `new` behind the block `header`. -/
def splitBlock (m : Mem) (heap header new : Nat) : Mem :=
  let m := m.set .magic new RT_MEMHEAP_MAGIC
  let m := m.set .poolPtr new heap
  let m := m.set .prev new header
  let m := m.set .next new (m.get .next header)
  let m := m.set .prev (m.get .next header) new
  m.set .next header new

/-- Merge a block with its right neighbour, which is free. -/
def absorbNext (m : Mem) (header : Nat) : Mem :=
  let item := m.get .next header
  let m := m.set .prev (m.get .next item) header
  let m := m.set .next header (m.get .next item)
  unlinkFree m item

/-- Merge a block into its left neighbour. -/
def absorbIntoPrev (m : Mem) (header : Nat) : Mem :=
  let m := m.set .next (m.get .prev header) (m.get .next header)
  m.set .prev (m.get .next header) (m.get .prev header)

/-- Take a free block out of both lists. -/
def removeItem (m : Mem) (item : Nat) : Mem :=
  let m := unlinkFree m item
  let m := m.set .prev (m.get .next item) (m.get .prev item)
  m.set .next (m.get .prev item) (m.get .next item)

/-- `header->next_free = header->prev_free = RT_NULL`, in the order of `rt_memheap_alloc`. -/
def clearFree (m : Mem) (header : Nat) : Mem :=
  (m.set .nextFree header 0).set .prevFree header 0

/-! ## `rt_memheap_init` -/

def rtMemheapInit (mem : Mem) (heap freeHeader startAddr size : Nat) : Pool :=
  let poolSize := rtAlignDown size
  let availableSize := sub32 poolSize (2 * RT_MEMHEAP_SIZE)
  -- the free list header
  let m := mem.set .magic freeHeader RT_MEMHEAP_MAGIC
  let m := m.set .poolPtr freeHeader heap
  let m := m.set .next freeHeader 0
  let m := m.set .prev freeHeader 0
  let m := m.set .nextFree freeHeader freeHeader
  let m := m.set .prevFree freeHeader freeHeader
  -- the first big memory block
  let item := startAddr
  let m := m.set .magic item RT_MEMHEAP_MAGIC
  let m := m.set .poolPtr item heap
  let m := m.set .next item 0
  let m := m.set .prev item 0
  let m := m.set .nextFree item item
  let m := m.set .prevFree item item
  let m := m.set .next item (u32 (item + availableSize + RT_MEMHEAP_SIZE))
  let m := m.set .prev item (m.get .next item)
  let m := pushFree m freeHeader item
  -- the small tailer block
  let item := m.get .next item
  let m := m.set .magic item (RT_MEMHEAP_MAGIC ||| RT_MEMHEAP_USED)
  let m := m.set .poolPtr item heap
  let m := m.set .next item startAddr
  let m := m.set .prev item startAddr
  let m := m.set .prevFree item 0
  let m := m.set .nextFree item 0
  ⟨m, { startAddr, poolSize, availableSize
        maxUsedSize := sub32 poolSize availableSize
        blockList := startAddr, freeList := freeHeader, freeHeader, lock := 1 }⟩

/-! ## `rt_memheap_alloc` -/

/-- The search loop: `fuel` bounds the number of items looked at. -/
def searchFree (m : Mem) (freeList size : Nat) : Nat → Nat → Nat → Option (Nat × Nat)
  | 0, _, _ => none
  | fuel + 1, headerPtr, freeSize =>
      if headerPtr ≠ freeList ∧ freeSize < size then
        let freeSize := memitemSize m headerPtr
        if freeSize < size then searchFree m freeList size fuel (m.get .nextFree headerPtr) freeSize
        else searchFree m freeList size fuel headerPtr freeSize
      else some (headerPtr, freeSize)

/-- The block found is split. -/
def allocSplit (p : Pool) (heap headerPtr size : Nat) : Pool :=
  let newPtr := u32 (headerPtr + size + RT_MEMHEAP_SIZE)
  let m := splitBlock p.mem heap headerPtr newPtr
  let m := clearFree (unlinkFree m headerPtr) headerPtr
  let m := pushFree m p.heap.freeList newPtr
  let p := { p with mem := m }
  (p.setAvailable (sub32 (sub32 p.heap.availableSize size) RT_MEMHEAP_SIZE)).updateMaxUsed

/-- The block found is taken whole. -/
def allocWhole (p : Pool) (headerPtr freeSize : Nat) : Pool :=
  let p := (p.setAvailable (sub32 p.heap.availableSize freeSize)).updateMaxUsed
  { p with mem := clearFree (unlinkFree p.mem headerPtr) headerPtr }

/-- `size` rounded up as `rt_memheap_alloc` and `rt_memheap_realloc` do. -/
def roundSize (size : Nat) : Nat :=
  if rtAlign size < RT_MEMHEAP_MINIALLOC then RT_MEMHEAP_MINIALLOC else rtAlign size

def rtMemheapAlloc (heap size : Nat) (p : Pool) : Option (Nat × Pool) :=
  let size := roundSize size
  if size < p.heap.availableSize then do
    let p ← p.lockTake
    let (headerPtr, freeSize) ← searchFree p.mem p.heap.freeList size (2 * p.heap.poolSize + 2)
      (p.mem.get .nextFree p.heap.freeList) 0
    if freeSize ≥ size then
      let p :=
        if freeSize ≥ u32 (size + RT_MEMHEAP_SIZE + RT_MEMHEAP_MINIALLOC) then
          allocSplit p heap headerPtr size
        else allocWhole p headerPtr freeSize
      -- mark the allocated block as not available
      let p := p.store .magic headerPtr (p.mem.get .magic headerPtr ||| RT_MEMHEAP_USED)
      some (u32 (headerPtr + RT_MEMHEAP_SIZE), p.lockRelease)
    else some (0, p.lockRelease)
  else some (0, p)

/-! ## `rt_memheap_free` -/

/-- Merge with the previous neighbour when it is free; the second component is
`insert_header`. -/
def mergeLeft (p : Pool) (headerPtr : Nat) : Nat × Bool × Pool :=
  if ¬ isUsed p.mem (p.mem.get .prev headerPtr) then
    let p := p.setAvailable (u32 (p.heap.availableSize + RT_MEMHEAP_SIZE))
    let p := { p with mem := absorbIntoPrev p.mem headerPtr }
    (p.mem.get .prev headerPtr, false, p)
  else (headerPtr, true, p)

/-- Merge with the next neighbour when it is free. -/
def mergeRight (p : Pool) (headerPtr : Nat) : Pool :=
  if ¬ isUsed p.mem (p.mem.get .next headerPtr) then
    let p := p.setAvailable (u32 (p.heap.availableSize + RT_MEMHEAP_SIZE))
    { p with mem := absorbNext p.mem headerPtr }
  else p

/-- `rt_memheap_free` once the heap is known from the header. -/
def freeBlock (headerPtr : Nat) (p : Pool) : Option (Unit × Pool) := do
  let p ← p.lockTake
  let p := p.store .magic headerPtr (p.mem.get .magic headerPtr &&& RT_MEMHEAP_MASK)
  let p := p.setAvailable (u32 (p.heap.availableSize + memitemSize p.mem headerPtr))
  let (headerPtr, insertHeader, p) := mergeLeft p headerPtr
  let p := mergeRight p headerPtr
  let p := if insertHeader then { p with mem := pushFree p.mem p.heap.freeList headerPtr } else p
  some ((), p.lockRelease)

def rtMemheapFree (ptr : Nat) (s : State) : Option State :=
  if ptr = 0 then some s
  else
    let headerPtr := sub32 ptr RT_MEMHEAP_SIZE
    -- the three assertions on the magic numbers, and `RT_ASSERT(heap)`
    if s.mem.get .magic headerPtr &&& RT_MEMHEAP_MASK = RT_MEMHEAP_MAGIC ∧
        isUsed s.mem headerPtr ∧
        s.mem.get .magic (s.mem.get .next headerPtr) &&& RT_MEMHEAP_MASK = RT_MEMHEAP_MAGIC ∧
        s.mem.get .poolPtr headerPtr ≠ 0 then
      (s.withHeap (s.mem.get .poolPtr headerPtr) (freeBlock headerPtr)).map (·.2)
    else none

/-! ## `rt_memheap_realloc` -/

/-- The following free block is big enough: give up its header and build a new one. -/
def growInPlace (p : Pool) (heap ptr headerPtr newsize oldsize : Nat) : Pool :=
  let nextPtr := p.mem.get .next headerPtr
  let p := (p.setAvailable (sub32 p.heap.availableSize (sub32 newsize oldsize))).updateMaxUsed
  let m := removeItem p.mem nextPtr
  -- build a new one on the right place
  let nextPtr := u32 (ptr + newsize)
  let m := splitBlock m heap headerPtr nextPtr
  { p with mem := pushFree m p.heap.freeList nextPtr }

/-- Can the block grow into its right neighbour? `nextsize` is signed in the source and converts
back to unsigned in the sum. -/
def canGrow (m : Mem) (headerPtr newsize oldsize : Nat) : Prop :=
  ¬ isUsed m (m.get .next headerPtr) ∧
    u32 (memitemSize m (m.get .next headerPtr) + oldsize) > u32 (newsize + RT_MEMHEAP_MINIALLOC)

instance (m : Mem) (headerPtr newsize oldsize : Nat) :
    Decidable (canGrow m headerPtr newsize oldsize) := instDecidableAnd

/-- Merge the block cut off by a shrink with its right neighbour when that is free. -/
def mergeFreed (p : Pool) (newPtr : Nat) : Pool :=
  if ¬ isUsed p.mem (p.mem.get .next newPtr) then
    let freePtr := p.mem.get .next newPtr
    let p := p.setAvailable (sub32 p.heap.availableSize (memitemSize p.mem freePtr))
    { p with mem := absorbNext p.mem newPtr }
  else p

/-- Insert the block cut off by a shrink into the free list. -/
def insertFreed (p : Pool) (newPtr : Nat) : Pool :=
  let p := { p with mem := pushFree p.mem p.heap.freeList newPtr }
  p.setAvailable (u32 (p.heap.availableSize + memitemSize p.mem newPtr))

/-- Cut off the end of a block. -/
def shrinkBlock (heap headerPtr newsize : Nat) (p : Pool) : Option (Unit × Pool) := do
  let p ← p.lockTake
  let newPtr := u32 (headerPtr + newsize + RT_MEMHEAP_SIZE)
  let p := { p with mem := splitBlock p.mem heap headerPtr newPtr }
  some ((), (insertFreed (mergeFreed p newPtr) newPtr).lockRelease)

/-- Take the lock and grow into the following block. -/
def growBlock (heap ptr headerPtr newsize oldsize : Nat) (p : Pool) : Option (Nat × Pool) := do
  let p ← p.lockTake
  some (ptr, (growInPlace p heap ptr headerPtr newsize oldsize).lockRelease)

/-- Allocate a new block, copy the payload and free the old block. -/
def moveBlock (heap ptr newsize oldsize : Nat) (s : State) : Option (Nat × State) := do
  let (newPtr, s) ← s.withHeap heap (rtMemheapAlloc heap newsize)
  if newPtr ≠ 0 then
    let s := { s with
      mem := s.mem.copy newPtr ptr (if oldsize < newsize then oldsize else newsize) }
    let s ← rtMemheapFree ptr s
    some (newPtr, s)
  else some (newPtr, s)

def rtMemheapRealloc (heap ptr newsize : Nat) (s : State) : Option (Nat × State) :=
  if newsize = 0 then (rtMemheapFree ptr s).map ((0, ·))
  else
    let newsize := roundSize newsize
    if ptr = 0 then s.withHeap heap (rtMemheapAlloc heap newsize)
    else
      let headerPtr := sub32 ptr RT_MEMHEAP_SIZE
      let oldsize := memitemSize s.mem headerPtr
      if newsize > oldsize then
        if (s.heap heap).lock = 0 then none
        -- `RT_ASSERT(next_ptr > header_ptr)`: the block is not the tail
        else if ¬ s.mem.get .next headerPtr > headerPtr then none
        else if canGrow s.mem headerPtr newsize oldsize then
          s.withHeap heap (growBlock heap ptr headerPtr newsize oldsize)
        else moveBlock heap ptr newsize oldsize s
      else if u32 (newsize + RT_MEMHEAP_SIZE + RT_MEMHEAP_MINIALLOC) ≥ oldsize then some (ptr, s)
      else (s.withHeap heap (shrinkBlock heap headerPtr newsize)).map fun r => (ptr, r.2)

end RTThread.Memheap
