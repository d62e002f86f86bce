import RTThread.Lib.Fields
import RTThread.Memheap.Model

set_option autoImplicit false

/-! # The small-memory allocator (`mem.c`)

One region of memory is tiled by blocks. Every block starts with a header (`struct heap_mem`), whose
`next` and `prev` are byte offsets from `heap_ptr`; `heap_end` is a last header, always in use. The
model names a header by its offset from `heap_ptr`, as `next` and `prev` do, also where the source
has a pointer to it (`lfree`, `heap_end`, `mem`); the pointers of the callers are addresses.

The memory of the region is a map from the offset of a field to its contents, and what the callers
store is part of it: a header may be built over old payload.

A function returns `none` where the code does not return: a failed `RT_ASSERT`, a semaphore taken
for ever, or a search that never ends.
-/

namespace RTThread.SmallMem

open Memheap (u32 sub32 rtAlign rtAlignDown RT_ALIGN_SIZE)

def HEAP_MAGIC : Nat := 0x1ea0
def MIN_SIZE : Nat := 12

/-- `RT_ALIGN(MIN_SIZE, RT_ALIGN_SIZE)`. -/
def MIN_SIZE_ALIGNED : Nat := 12

/-- `RT_ALIGN(sizeof(struct heap_mem), RT_ALIGN_SIZE)`: two halfwords and two words. -/
def SIZEOF_STRUCT_MEM : Nat := 12

/-! ## The heap -/

/-- The contents of the field at an offset. -/
abbrev Mem := Nat → Nat

/-- The fields of `struct heap_mem`. -/
inductive Field
  | magic | used | next | prev
  deriving DecidableEq, Repr

def Field.off : Field → Nat
  | .magic => 0
  | .used => 2
  | .next => 4
  | .prev => 8

/-- `mem->f`. -/
abbrev Mem.get (m : Mem) (f : Field) (mem : Nat) : Nat := Fields.get Field.off m f mem

/-- `mem->f = v`. -/
abbrev Mem.set (m : Mem) (f : Field) (mem v : Nat) : Mem := Fields.set Field.off m f mem v

/-- `rt_memcpy(dst, src, n)` on ranges that do not overlap. -/
def Mem.copy (m : Mem) (dst src n : Nat) : Mem :=
  fun a => if dst ≤ a ∧ a < dst + n then m (src + (a - dst)) else m a

/-- The memory of the region and the static variables. `usedLog` is not in the source: it keeps the
values `used_mem` has had, the last one first. -/
structure Heap where
  mem : Mem
  heapPtr : Nat
  heapEnd : Nat
  lfree : Nat
  memSizeAligned : Nat
  heapSem : Nat
  usedMem : Nat
  maxMem : Nat
  usedLog : List Nat

/-- `used_mem = v`. -/
def Heap.setUsed (h : Heap) (v : Nat) : Heap := { h with usedMem := v, usedLog := v :: h.usedLog }

/-- `if (max_mem < used_mem) max_mem = used_mem`. -/
def Heap.updateMax (h : Heap) : Heap :=
  if h.maxMem < h.usedMem then { h with maxMem := h.usedMem } else h

/-- `rt_sem_take(&heap_sem, RT_WAITING_FOREVER)`. -/
def Heap.semTake (h : Heap) : Option Heap :=
  if h.heapSem = 0 then none else some { h with heapSem := h.heapSem - 1 }

/-- `rt_sem_release(&heap_sem)`. -/
def Heap.semRelease (h : Heap) : Heap := { h with heapSem := h.heapSem + 1 }

/-! ## `plug_holes` -/

/-- Combine the block `pmem` with the block `mem` behind it. -/
def combine (h : Heap) (pmem mem : Nat) : Heap :=
  let h := if h.lfree = mem then { h with lfree := pmem } else h
  let m := h.mem.set .next pmem (h.mem.get .next mem)
  { h with mem := m.set .prev (m.get .next mem) pmem }

/-- Plug the hole forward. -/
def plugForward (h : Heap) (mem : Nat) : Heap :=
  let nmem := h.mem.get .next mem
  if mem ≠ nmem ∧ h.mem.get .used nmem = 0 ∧ nmem ≠ h.heapEnd then combine h mem nmem else h

/-- Plug the hole backward. -/
def plugBackward (h : Heap) (mem : Nat) : Heap :=
  let pmem := h.mem.get .prev mem
  if pmem ≠ mem ∧ h.mem.get .used pmem = 0 then combine h pmem mem else h

def plugHoles (h : Heap) (mem : Nat) : Option Heap :=
  -- the assertions; an offset is never below `heap_ptr`
  if mem < h.heapEnd ∧ h.mem.get .used mem = 0 then
    some (plugBackward (plugForward h mem) mem)
  else none

/-! ## `rt_system_heap_init` -/

/-- The region is accepted. -/
def InitAccepts (beginAddr endAddr : Nat) : Prop :=
  rtAlignDown endAddr > 2 * SIZEOF_STRUCT_MEM ∧
    sub32 (rtAlignDown endAddr) (2 * SIZEOF_STRUCT_MEM) ≥ rtAlign beginAddr

instance (beginAddr endAddr : Nat) : Decidable (InitAccepts beginAddr endAddr) := instDecidableAnd

/-- The heap over a region with the contents `mem`; `none` is the error path, which initialises
nothing. -/
def rtSystemHeapInit (mem : Mem) (beginAddr endAddr : Nat) : Option Heap :=
  let beginAlign := rtAlign beginAddr
  let endAlign := rtAlignDown endAddr
  if InitAccepts beginAddr endAddr then
    let memSizeAligned := sub32 (sub32 endAlign beginAlign) (2 * SIZEOF_STRUCT_MEM)
    -- the start of the heap
    let m := mem.set .magic 0 HEAP_MAGIC
    let m := m.set .next 0 (u32 (memSizeAligned + SIZEOF_STRUCT_MEM))
    let m := m.set .prev 0 0
    let m := m.set .used 0 0
    -- the end of the heap
    let heapEnd := m.get .next 0
    let m := m.set .magic heapEnd HEAP_MAGIC
    let m := m.set .used heapEnd 1
    let m := m.set .next heapEnd (u32 (memSizeAligned + SIZEOF_STRUCT_MEM))
    let m := m.set .prev heapEnd (u32 (memSizeAligned + SIZEOF_STRUCT_MEM))
    some { mem := m, heapPtr := beginAlign, heapEnd, lfree := 0, memSizeAligned, heapSem := 1
           usedMem := 0, maxMem := 0, usedLog := [] }
  else none

/-! ## `rt_malloc` -/

/-- The search loop: `fuel` bounds the number of blocks looked at. -/
def searchFree (h : Heap) (size : Nat) : Nat → Nat → Option (Option Nat)
  | 0, _ => none
  | fuel + 1, ptr =>
      if ptr < sub32 h.memSizeAligned size then
        if h.mem.get .used ptr = 0 ∧
            sub32 (h.mem.get .next ptr) (u32 (ptr + SIZEOF_STRUCT_MEM)) ≥ size then
          some (some ptr)
        else searchFree h size fuel (h.mem.get .next ptr)
      else some none

/-- Find the next free block and update the lowest free pointer. -/
def nextFree (h : Heap) : Nat → Nat → Option Nat
  | 0, _ => none
  | fuel + 1, lfree =>
      if h.mem.get .used lfree ≠ 0 ∧ lfree ≠ h.heapEnd then
        nextFree h fuel (h.mem.get .next lfree)
      else some lfree

/-- A number of steps no walk along the blocks exceeds. -/
def Heap.steps (h : Heap) : Nat := h.memSizeAligned + 2

/-- Build a free block at `ptr2` and insert it behind `mem`. -/
def carve (m : Mem) (mem ptr2 : Nat) : Mem :=
  let m := m.set .magic ptr2 HEAP_MAGIC
  let m := m.set .used ptr2 0
  let m := m.set .next ptr2 (m.get .next mem)
  let m := m.set .prev ptr2 mem
  m.set .next mem ptr2

/-- The block behind a new block points back to it, except for the end of the heap. -/
def linkBack (h : Heap) (ptr2 : Nat) : Heap :=
  if h.mem.get .next ptr2 ≠ u32 (h.memSizeAligned + SIZEOF_STRUCT_MEM) then
    { h with mem := h.mem.set .prev (h.mem.get .next ptr2) ptr2 }
  else h

/-- The block found is split. -/
def mallocSplit (h : Heap) (mem size : Nat) : Heap :=
  let ptr2 := u32 (mem + SIZEOF_STRUCT_MEM + size)
  let h := { h with mem := (carve h.mem mem ptr2).set .used mem 1 }
  let h := linkBack h ptr2
  (h.setUsed (u32 (h.usedMem + (size + SIZEOF_STRUCT_MEM)))).updateMax

/-- The block found is taken whole. -/
def mallocWhole (h : Heap) (mem : Nat) : Heap :=
  let h := { h with mem := h.mem.set .used mem 1 }
  (h.setUsed (u32 (h.usedMem + sub32 (h.mem.get .next mem) mem))).updateMax

/-- Take the block `mem`. -/
def takeBlock (h : Heap) (mem size : Nat) : Option Heap := do
  let h :=
    if sub32 (h.mem.get .next mem) (u32 (mem + SIZEOF_STRUCT_MEM)) ≥
        u32 (size + SIZEOF_STRUCT_MEM + MIN_SIZE_ALIGNED) then
      mallocSplit h mem size
    else mallocWhole h mem
  -- set memory block magic
  let h := { h with mem := h.mem.set .magic mem HEAP_MAGIC }
  if mem = h.lfree then
    let lfree ← nextFree h h.steps h.lfree
    let h := { h with lfree }
    if h.lfree = h.heapEnd ∨ h.mem.get .used h.lfree = 0 then some h else none
  else some h

/-- `size` as the search uses it. -/
def mallocSize (size : Nat) : Nat :=
  if rtAlign size < MIN_SIZE_ALIGNED then MIN_SIZE_ALIGNED else rtAlign size

def rtMalloc (size : Nat) (h : Heap) : Option (Nat × Heap) :=
  if size = 0 then some (0, h)
  else if rtAlign size > h.memSizeAligned then some (0, h)
  else do
    let size := mallocSize size
    let h ← h.semTake
    match ← searchFree h size h.steps h.lfree with
    | none => some (0, h.semRelease)
    | some mem => do
        let h ← takeBlock h mem size
        let h := h.semRelease
        if h.heapPtr + mem + SIZEOF_STRUCT_MEM + size ≤ h.heapPtr + h.heapEnd ∧
            (h.heapPtr + mem + SIZEOF_STRUCT_MEM) % RT_ALIGN_SIZE = 0 ∧
            (h.heapPtr + mem) % RT_ALIGN_SIZE = 0 then
          some (u32 (h.heapPtr + mem + SIZEOF_STRUCT_MEM), h)
        else none

/-! ## `rt_free` -/

/-- The header of the payload at `rmem`, as an offset. -/
def headerOf (h : Heap) (rmem : Nat) : Nat := sub32 (sub32 rmem SIZEOF_STRUCT_MEM) h.heapPtr

def rtFree (rmem : Nat) (h : Heap) : Option Heap :=
  if rmem = 0 then some h
  else if rmem % RT_ALIGN_SIZE = 0 ∧ h.heapPtr ≤ rmem ∧ rmem < h.heapPtr + h.heapEnd then do
    let mem := headerOf h rmem
    let h ← h.semTake
    if h.mem.get .used mem ≠ 0 ∧ h.mem.get .magic mem = HEAP_MAGIC then
      let h := { h with mem := (h.mem.set .used mem 0).set .magic mem HEAP_MAGIC }
      let h := if mem < h.lfree then { h with lfree := mem } else h
      let h := h.setUsed (sub32 h.usedMem (sub32 (h.mem.get .next mem) mem))
      let h ← plugHoles h mem
      some h.semRelease
    else none
  else none

/-! ## `rt_realloc` -/

/-- Cut off the end of the block `mem`, whose payload has `size` bytes. -/
def shrinkBlock (h : Heap) (mem size newsize : Nat) : Option Heap :=
  let h := h.setUsed (sub32 h.usedMem (sub32 size newsize))
  let ptr2 := u32 (mem + SIZEOF_STRUCT_MEM + newsize)
  let h := { h with mem := carve h.mem mem ptr2 }
  plugHoles (linkBack h ptr2) ptr2

def rtRealloc (rmem newsize : Nat) (h : Heap) : Option (Nat × Heap) :=
  let newsize := rtAlign newsize
  if newsize > h.memSizeAligned then some (0, h)
  else if newsize = 0 then (rtFree rmem h).map ((0, ·))
  else if rmem = 0 then rtMalloc newsize h
  else do
    let h ← h.semTake
    if rmem < h.heapPtr ∨ rmem ≥ h.heapPtr + h.heapEnd then
      -- illegal memory
      some (rmem, h.semRelease)
    else
      let mem := headerOf h rmem
      let size := sub32 (sub32 (h.mem.get .next mem) mem) SIZEOF_STRUCT_MEM
      if size = newsize then some (rmem, h.semRelease)
      else if u32 (newsize + SIZEOF_STRUCT_MEM + MIN_SIZE) < size then do
        let h ← shrinkBlock h mem size newsize
        some (rmem, h.semRelease)
      else do
        -- expand memory
        let (nmem, h) ← rtMalloc newsize h.semRelease
        if nmem ≠ 0 then
          let n := if size < newsize then size else newsize
          let h := { h with mem := h.mem.copy (sub32 nmem h.heapPtr) (sub32 rmem h.heapPtr) n }
          let h ← rtFree rmem h
          some (nmem, h)
        else some (nmem, h)

end RTThread.SmallMem
