import RTThread.Memheap.Model

set_option autoImplicit false

/-! # The allocation interface over several heaps (`memheap.c`)

With the memheap as the system heap, `rt_malloc` allocates from `_heap` and, when that is full, from
the other heap objects in the order of the object list. `rt_free` and `rt_realloc` find the heap of
a block in its header. A reallocation that fails in the block's own heap allocates elsewhere and
copies.

`rt_memcpy` and `rt_memset` are called here with sizes that are no multiple of a word, so this
module reads the words of memory as bytes, the low byte of a word at the low address.
-/

namespace RTThread.Memheap

/-! ## Bytes -/

/-- The byte at an address. -/
def byte (m : Mem) (a : Nat) : Nat := m (a / 4 * 4) / 256 ^ (a % 4) % 256

/-- Byte `i` of the word at `a` once the bytes of `f` are stored in `[dst, dst + n)`. -/
def storedByte (m : Mem) (dst n : Nat) (f : Nat → Nat) (a i : Nat) : Nat :=
  if dst ≤ a + i ∧ a + i < dst + n then f (a + i - dst) % 256 else m a / 256 ^ i % 256

/-- Store the bytes `f 0, …, f (n - 1)` from `dst` on. A word that is hit in part keeps its other
bytes. -/
def Mem.storeBytes (m : Mem) (dst n : Nat) (f : Nat → Nat) : Mem := fun a =>
  if dst / 4 * 4 ≤ a ∧ a < dst + n then
    storedByte m dst n f a 0 + 256 * storedByte m dst n f a 1 +
      65536 * storedByte m dst n f a 2 + 16777216 * storedByte m dst n f a 3
  else m a

/-- `rt_memcpy(dst, src, n)`, byte by byte. -/
def Mem.copyBytes (m : Mem) (dst src n : Nat) : Mem :=
  m.storeBytes dst n fun i => byte m (src + i)

/-- `rt_memset(dst, c, n)`. -/
def Mem.setBytes (m : Mem) (dst c n : Nat) : Mem := m.storeBytes dst n fun _ => c

theorem storedByte_lt (m : Mem) (dst n : Nat) (f : Nat → Nat) (a i : Nat) :
    storedByte m dst n f a i < 256 := by
  unfold storedByte
  split <;> exact Nat.mod_lt _ (by decide)

/-- A store changes the bytes it is given and no other. -/
theorem byte_storeBytes (m : Mem) (dst n : Nat) (f : Nat → Nat) (a : Nat) :
    byte (m.storeBytes dst n f) a =
      if dst ≤ a ∧ a < dst + n then f (a - dst) % 256 else byte m a := by
  have ha : a / 4 * 4 + a % 4 = a := by omega
  have hr : a % 4 < 4 := Nat.mod_lt _ (by decide)
  unfold byte Mem.storeBytes
  by_cases hin : dst / 4 * 4 ≤ a / 4 * 4 ∧ a / 4 * 4 < dst + n
  · rw [if_pos hin]
    have hdigit : ∀ b₀ b₁ b₂ b₃ i : Nat, b₀ < 256 → b₁ < 256 → b₂ < 256 → b₃ < 256 → i < 4 →
        (b₀ + 256 * b₁ + 65536 * b₂ + 16777216 * b₃) / 256 ^ i % 256 =
          (match i with | 0 => b₀ | 1 => b₁ | 2 => b₂ | _ => b₃) := by
      intro b₀ b₁ b₂ b₃ i h0 h1 h2 h3 hi
      interval_cases i <;> simp only [Nat.reducePow] <;> omega
    have hstored : (match a % 4 with
        | 0 => storedByte m dst n f (a / 4 * 4) 0
        | 1 => storedByte m dst n f (a / 4 * 4) 1
        | 2 => storedByte m dst n f (a / 4 * 4) 2
        | _ => storedByte m dst n f (a / 4 * 4) 3) = storedByte m dst n f (a / 4 * 4) (a % 4) := by
      generalize a % 4 = i at hr
      interval_cases i <;> rfl
    rw [hdigit _ _ _ _ _ (storedByte_lt ..) (storedByte_lt ..) (storedByte_lt ..)
      (storedByte_lt ..) hr, hstored, storedByte, ha]
  · -- the word is outside the range, and so is every byte of it
    rw [if_neg hin, if_neg]
    omega

/-- The words a store leaves alone. -/
theorem storeBytes_of_notMem {m : Mem} {dst n : Nat} {f : Nat → Nat} {a : Nat}
    (h : ¬ (dst / 4 * 4 ≤ a ∧ a < dst + n)) : m.storeBytes dst n f a = m a := if_neg h

/-- Memories that agree on the words from `a` to `b` agree on the bytes. -/
theorem byte_congr {m m' : Mem} {lo hi a : Nat} (hlo : lo % 4 = 0)
    (h : ∀ x, lo ≤ x → x < hi → m' x = m x) (h₁ : lo ≤ a) (h₂ : a < hi) : byte m' a = byte m a := by
  unfold byte
  rw [h _ (by omega) (by omega)]

/-! ## `rt_malloc` -/

/-- The loop over the object list. -/
def mallocOther (sysHeap size : Nat) : List Nat → State → Option (Nat × State)
  | [], s => some (0, s)
  | heap :: node, s =>
      -- not allocate in the default system heap
      if heap = sysHeap then mallocOther sysHeap size node s
      else do
        let (ptr, s) ← s.withHeap heap (rtMemheapAlloc heap size)
        if ptr ≠ 0 then some (ptr, s) else mallocOther sysHeap size node s

def rtMalloc (sysHeap : Nat) (objectList : List Nat) (size : Nat) (s : State) :
    Option (Nat × State) := do
  let (ptr, s) ← s.withHeap sysHeap (rtMemheapAlloc sysHeap size)
  if ptr = 0 then mallocOther sysHeap size objectList s else some (ptr, s)

/-! ## `rt_free`, `rt_realloc` and `rt_calloc` -/

def rtFree (rmem : Nat) (s : State) : Option State := rtMemheapFree rmem s

def rtRealloc (sysHeap : Nat) (objectList : List Nat) (rmem newsize : Nat) (s : State) :
    Option (Nat × State) :=
  if rmem = 0 then rtMalloc sysHeap objectList newsize s
  else if newsize = 0 then (rtFree rmem s).map ((0, ·))
  else do
    let headerPtr := sub32 rmem RT_MEMHEAP_SIZE
    let (newPtr, s) ← rtMemheapRealloc (s.mem.get .poolPtr headerPtr) rmem newsize s
    if newPtr = 0 ∧ newsize ≠ 0 then
      -- allocate memory block from other memheap
      let (newPtr, s) ← rtMalloc sysHeap objectList newsize s
      if newPtr ≠ 0 ∧ rmem ≠ 0 then
        let oldsize := memitemSize s.mem headerPtr
        let s := { s with
          mem := s.mem.copyBytes newPtr rmem (if newsize > oldsize then oldsize else newsize) }
        let s ← rtFree rmem s
        some (newPtr, s)
      else some (newPtr, s)
    else some (newPtr, s)

def rtCalloc (sysHeap : Nat) (objectList : List Nat) (count size : Nat) (s : State) :
    Option (Nat × State) := do
  let totalSize := u32 (count * size)
  let (ptr, s) ← rtMalloc sysHeap objectList totalSize s
  if ptr ≠ 0 then some (ptr, { s with mem := s.mem.setBytes ptr 0 totalSize })
  else some (ptr, s)

end RTThread.Memheap
