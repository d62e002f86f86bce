import RTThread.Lib.Fields
import RTThread.Memheap.Model

set_option autoImplicit false

/-! # The page allocator of the slab heap (`slab.c`)

The free pages are a list of runs. The first page of a run holds a `struct rt_page_head`: the next run
and the number of pages. The structure is as large as a page, so that pointer arithmetic counts pages.

Addresses are byte addresses, and the memory is a map from the address of a field to its contents;
what the owners of the pages store is part of it. A list is walked with a pointer to the pointer to
the current run (`prev`): the address of `rt_page_list`, or that of the field `next` of a run.

A function returns `none` where the code does not return: a failed `RT_ASSERT`, or the semaphore taken
for ever.
-/

namespace RTThread.Slab

def RT_MM_PAGE_BITS : Nat := 12

def RT_MM_PAGE_SIZE : Nat := 4096

/-- The contents of the field at an address. -/
abbrev Mem := Nat → Nat

/-- The fields of `struct rt_page_head`. -/
inductive PageField
  | next | page
  deriving DecidableEq, Repr

def PageField.off : PageField → Nat
  | .next => 0
  | .page => 4

/-- `b->f`. -/
abbrev Mem.head (m : Mem) (f : PageField) (b : Nat) : Nat := Fields.get PageField.off m f b

/-- `b->f = v`. -/
abbrev Mem.setHead (m : Mem) (f : PageField) (b v : Nat) : Mem := Fields.set PageField.off m f b v

/-- The memory, and the static variables of the page allocator. -/
structure PageHeap where
  mem : Mem
  pageList : Nat
  heapSem : Nat
  heapStart : Nat
  heapEnd : Nat

/-- `rt_sem_take(&heap_sem, RT_WAITING_FOREVER)`. -/
def PageHeap.semTake (h : PageHeap) : Option PageHeap :=
  if h.heapSem = 0 then none else some { h with heapSem := h.heapSem - 1 }

/-- `rt_sem_release(&heap_sem)`. -/
def PageHeap.semRelease (h : PageHeap) : PageHeap := { h with heapSem := h.heapSem + 1 }

/-- Where `prev` points to. -/
inductive Prev
  | list
  | next (b : Nat)
  deriving DecidableEq, Repr

/-- `*prev`. -/
def PageHeap.deref (h : PageHeap) : Prev → Nat
  | .list => h.pageList
  | .next b => h.mem.head .next b

/-- `*prev = v`. -/
def PageHeap.assign (h : PageHeap) (prev : Prev) (v : Nat) : PageHeap :=
  match prev with
  | .list => { h with pageList := v }
  | .next b => { h with mem := h.mem.setHead .next b v }

/-- `b->f = v` in the heap. -/
def PageHeap.setHead (h : PageHeap) (f : PageField) (b v : Nat) : PageHeap :=
  { h with mem := h.mem.setHead f b v }

/-- A number of runs no walk along the list exceeds. -/
def PageHeap.steps (h : PageHeap) : Nat := (h.heapEnd - h.heapStart) / RT_MM_PAGE_SIZE + 1

/-! ## `rt_page_alloc` -/

/-- The loop: `fuel` bounds the number of runs looked at. -/
def pageAllocLoop (npages : Nat) : Nat → Prev → PageHeap → Option (Nat × PageHeap)
  | 0, _, _ => none
  | fuel + 1, prev, h =>
      let b := h.deref prev
      if b = 0 then some (0, h)
      else if h.mem.head .page b > npages then
        -- split the pages
        let n := b + npages * RT_MM_PAGE_SIZE
        let h := h.setHead .next n (h.mem.head .next b)
        let h := h.setHead .page n (h.mem.head .page b - npages)
        some (b, h.assign prev n)
      else if h.mem.head .page b = npages then
        -- this node fits, remove it
        some (b, h.assign prev (h.mem.head .next b))
      else pageAllocLoop npages fuel (.next b) h

def rtPageAlloc (npages : Nat) (h : PageHeap) : Option (Nat × PageHeap) :=
  if npages = 0 then some (0, h)
  else do
    let h ← h.semTake
    let (b, h) ← pageAllocLoop npages h.steps .list h
    some (b, h.semRelease)

/-! ## `rt_page_free` -/

/-- The statements behind the loop. -/
def pageInsert (n npages : Nat) (prev : Prev) (b : Nat) (h : PageHeap) : PageHeap :=
  ((h.setHead .page n npages).setHead .next n b).assign prev n

def pageFreeLoop (n npages : Nat) : Nat → Prev → PageHeap → Option PageHeap
  | 0, _, _ => none
  | fuel + 1, prev, h =>
      let b := h.deref prev
      if b = 0 then some (pageInsert n npages prev b h)
      else if h.mem.head .page b > 0 ∧
          (b > n ∨ b + h.mem.head .page b * RT_MM_PAGE_SIZE ≤ n) then
        if b + h.mem.head .page b * RT_MM_PAGE_SIZE = n then
          let h := h.setHead .page b (h.mem.head .page b + npages)
          let c := h.mem.head .next b
          if b + h.mem.head .page b * RT_MM_PAGE_SIZE = c then
            let h := h.setHead .page b (h.mem.head .page b + h.mem.head .page c)
            some (h.setHead .next b (h.mem.head .next c))
          else some h
        else if b = n + npages * RT_MM_PAGE_SIZE then
          let h := h.setHead .page n (h.mem.head .page b + npages)
          let h := h.setHead .next n (h.mem.head .next b)
          some (h.assign prev n)
        else if b > n + npages * RT_MM_PAGE_SIZE then some (pageInsert n npages prev b h)
        else pageFreeLoop n npages fuel (.next b) h
      else none

def rtPageFree (addr npages : Nat) (h : PageHeap) : Option PageHeap :=
  if addr ≠ 0 ∧ addr % RT_MM_PAGE_SIZE = 0 ∧ npages ≠ 0 then do
    let h ← h.semTake
    let h ← pageFreeLoop addr npages h.steps .list h
    some h.semRelease
  else none

/-- `rt_page_init`. -/
def rtPageInit (addr npages : Nat) (h : PageHeap) : Option PageHeap :=
  if addr ≠ 0 ∧ npages ≠ 0 then rtPageFree addr npages { h with pageList := 0 } else none

/-- `RT_ALIGN(begin_addr, RT_MM_PAGE_SIZE)`. -/
def pageAlign (x : Nat) : Nat :=
  Memheap.u32 (x + (RT_MM_PAGE_SIZE - 1)) / RT_MM_PAGE_SIZE * RT_MM_PAGE_SIZE

/-- `RT_ALIGN_DOWN(end_addr, RT_MM_PAGE_SIZE)`. -/
def pageAlignDown (x : Nat) : Nat := x / RT_MM_PAGE_SIZE * RT_MM_PAGE_SIZE

/-- The statements of `rt_system_heap_init` that set up the pages; `none` is the error path. -/
def pagesInit (mem : Mem) (beginAddr endAddr : Nat) : Option PageHeap :=
  let heapStart := pageAlign beginAddr
  let heapEnd := pageAlignDown endAddr
  if heapStart ≥ heapEnd then none
  else rtPageInit heapStart ((heapEnd - heapStart) / RT_MM_PAGE_SIZE)
    { mem, pageList := 0, heapSem := 1, heapStart, heapEnd }

end RTThread.Slab
