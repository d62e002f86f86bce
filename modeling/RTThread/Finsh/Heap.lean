import RTThread.Lib.Fields
import RTThread.Lib.Sll

set_option autoImplicit false

/-! # The heap of the shell (`finsh_heap.c`)

The array `finsh_heap` is tiled by blocks. A block starts with a header (`struct finsh_block_header`) of
8 bytes, the length of its data and a link; free blocks and allocated blocks are kept in two lists. A
block that is allocated is always split, so that what is left of it, even if it has room for no data, is
a free block behind it. When no free block is found, the allocated blocks that no variable of the shell
points to are released.

The memory is a map from the address of a field to its contents. Lengths and sizes are far below 2 to the
32. A function returns `none` where a loop does not end.
-/

namespace RTThread.FinshHeap

open Sll (search)

def FINSH_HEAP_MAX : Nat := 128

/-- The contents of the field at an address. -/
abbrev Mem := Nat → Nat

/-- The fields of `struct finsh_block_header`. -/
inductive Field
  | length | next
  deriving DecidableEq, Repr

def Field.off : Field → Nat
  | .length => 0
  | .next => 4

abbrev Mem.get (m : Mem) (f : Field) (header : Nat) : Nat := Fields.get Field.off m f header

abbrev Mem.set (m : Mem) (f : Field) (header v : Nat) : Mem := Fields.set Field.off m f header v

/-- `memset(data, 0, size)` -/
def Mem.clear (m : Mem) (data size : Nat) : Mem :=
  fun a => if data ≤ a ∧ a < data + size then 0 else m a

/-- The memory, the address of `finsh_heap`, and the two lists. -/
structure Heap where
  mem : Mem
  base : Nat
  freeList : Nat
  allocateList : Nat

/-- `HEAP_ALIGN_SIZE` -/
def heapAlignSize (size : Nat) : Nat := (size + 3) % 2 ^ 32 / 4 * 4

/-- More than the number of blocks. -/
def steps : Nat := FINSH_HEAP_MAX

def finshHeapInit (mem : Mem) (base : Nat) : Heap :=
  let m := mem.clear base FINSH_HEAP_MAX
  let m := m.set .length base (FINSH_HEAP_MAX - 8)
  let m := m.set .next base 0
  { mem := m, base, freeList := base, allocateList := 0 }

/-- Insert a block into the list: the memory, and the head of the list. -/
def finshBlockInsert (m : Mem) (list header : Nat) : Option (Mem × Nat) :=
  if list = 0 then some (m, header)
  else if header < list then some (m.set .next header list, header)
  else
    -- find out insert point
    (search (m.get .next)
      (fun node => header < m.get .next node || m.get .next node = 0) steps list).map fun node =>
    let m := if m.get .next node ≠ 0 then m.set .next header (m.get .next node) else m
    (m.set .next node header, list)

/-- Remove a block from the list. Its own link is reset only if it was the first one. -/
def finshBlockRemove (m : Mem) (list header : Nat) : Option (Mem × Nat) :=
  if list = header then some (m.set .next header 0, m.get .next header)
  else
    (search (m.get .next) (fun node => m.get .next node = header) steps list).map fun node =>
    (if node ≠ 0 then m.set .next node (m.get .next header) else m, list)

def finshBlockSplit (m : Mem) (header size : Nat) : Mem :=
  let next := header + 8 + size
  let m := m.set .length next (m.get .length header - 8 - size)
  let m := m.set .length header size
  let m := m.set .next next (m.get .next header)
  m.set .next header next

/-- Merge a block of the list with its neighbours, the previous one being known. -/
def mergeWith (m : Mem) (prev header : Nat) : Mem :=
  let next := m.get .next header
  if prev ≠ 0 ∧ prev + m.get .length prev + 8 = header then
    if next ≠ 0 ∧ header + m.get .length header + 8 = next then
      -- merge three nodes
      let m := m.set .length prev
        (m.get .length prev + (m.get .length header + m.get .length next + 2 * 8))
      m.set .next prev (m.get .next next)
    else
      let m := m.set .length prev (m.get .length prev + (m.get .length header + 8))
      m.set .next prev (m.get .next header)
  else if next ≠ 0 ∧ header + m.get .length header + 8 = next then
    let m := m.set .length header (m.get .length header + (m.get .length next + 8))
    m.set .next header (m.get .next next)
  else m

def finshBlockMerge (m : Mem) (list header : Nat) : Option Mem :=
  if list = header then some (mergeWith m 0 header)
  else
    -- find out the previous header
    (search (m.get .next) (fun node => m.get .next node = header) steps list).map fun prev =>
    mergeWith m prev header

def finshHeapFree (h : Heap) (ptr : Nat) : Option Heap :=
  let header := ptr - 8
  (finshBlockRemove h.mem h.allocateList header).bind fun r =>
  (finshBlockInsert r.1 h.freeList header).bind fun r' =>
  (finshBlockMerge r'.1 r'.2 header).map fun m =>
  { h with mem := m, freeList := r'.2, allocateList := r.2 }

/-- The loop of `finsh_heap_gc`; `refs` are the pointers in the variables that are in use. -/
def gcLoop (refs : List Nat) : Nat → Nat → Heap → Option Heap
  | 0, _, _ => none
  | n + 1, header, h =>
    if header = 0 then some h
    else
      let next := h.mem.get .next header
      if header + 8 ∈ refs then gcLoop refs n next h
      else
        -- this block is an unused block, release it
        (finshHeapFree h (header + 8)).bind fun h => gcLoop refs n next h

def finshHeapGc (refs : List Nat) (h : Heap) : Option Heap :=
  gcLoop refs steps h.allocateList h

/-- The end of `finsh_heap_allocate`, when a free block has been found. -/
def takeBlock (h : Heap) (header size : Nat) : Option (Nat × Heap) :=
  (finshBlockRemove (finshBlockSplit h.mem header size) h.freeList header).bind fun r =>
  (finshBlockInsert (r.1.set .next header 0) h.allocateList header).map fun r' =>
  (header + 8, { h with
    mem := r'.1.clear (header + 8) size
    freeList := r.2
    allocateList := r'.2 })

/-- The result is the address of the data, or 0. -/
def finshHeapAllocate (refs : List Nat) (h : Heap) (size : Nat) : Option (Nat × Heap) :=
  let size := heapAlignSize size
  -- find the first fit block
  (search (h.mem.get .next) (fun header => ¬ h.mem.get .length header ≤ size + 8) steps
    h.freeList).bind fun header =>
  if header ≠ 0 then takeBlock h header size
  else
    (finshHeapGc refs h).bind fun h =>
    (search (h.mem.get .next) (fun header => ¬ h.mem.get .length header < size + 8) steps
      h.freeList).bind fun header =>
    -- there is no memory
    if header = 0 then some (0, h) else takeBlock h header size

end RTThread.FinshHeap
