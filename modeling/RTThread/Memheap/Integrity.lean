import RTThread.Lib.Run
import RTThread.Memheap.Realloc

set_option autoImplicit false

/-! # Integrity of a pool over whole runs

A run starts with `rt_memheap_init` and goes on with allocations, reallocations and releases of
live pointers, and stores into live payloads, in any order. Every state of a run satisfies `Inv`,
and from `Inv` the four structures of the pool are read off in their own terms (`Integrity`).
-/

namespace RTThread.Memheap

/-! ## The initial pool -/

/-- The arguments of `rt_memheap_init`: an aligned start, room for two headers and the smallest
payload, and a heap object outside the pool. -/
structure InitArgs where
  heap : Nat
  freeHeader : Nat
  startAddr : Nat
  size : Nat
  heap_ne : heap ≠ 0
  aligned : startAddr % RT_ALIGN_SIZE = 0
  room : 2 * RT_MEMHEAP_SIZE + RT_MEMHEAP_MINIALLOC ≤ rtAlignDown size
  size_lt : size < 4294967296
  end_le : startAddr + rtAlignDown size ≤ 4294967296
  apart : freeHeader + RT_MEMHEAP_SIZE ≤ startAddr ∨ startAddr + rtAlignDown size ≤ freeHeader

/-- The address of the tail header. -/
def InitArgs.tail (A : InitArgs) : Nat := A.startAddr + rtAlignDown A.size - RT_MEMHEAP_SIZE

theorem InitArgs.tail_add (A : InitArgs) :
    A.tail + RT_MEMHEAP_SIZE = A.startAddr + rtAlignDown A.size := by
  have h := A.room
  unfold InitArgs.tail RT_MEMHEAP_SIZE at *
  omega

theorem rtAlignDown_le (size : Nat) : rtAlignDown size ≤ size ∧ rtAlignDown size % 4 = 0 := by
  unfold rtAlignDown RT_ALIGN_SIZE
  omega

/-- Where the pool lies. -/
def InitArgs.layout (A : InitArgs) : Layout where
  heap := A.heap
  start := A.startAddr
  tail := A.tail
  freeHeader := A.freeHeader
  heap_ne := A.heap_ne
  start_lt := by
    have h1 := A.room
    have h2 := A.tail_add
    omega
  start_aligned := A.aligned
  tail_aligned := by
    have h1 := (rtAlignDown_le A.size).2
    have h2 := A.tail_add
    have h3 := A.aligned
    unfold RT_MEMHEAP_SIZE at h2
    unfold RT_ALIGN_SIZE at h3
    omega
  tail_le := by
    rw [A.tail_add]
    exact A.end_le
  pool_lt := by
    have h1 := (rtAlignDown_le A.size).1
    have h2 := A.size_lt
    rw [A.tail_add]
    omega
  apart := by
    rw [A.tail_add]
    exact A.apart

/-- The pool `rt_memheap_init` builds. -/
def InitArgs.pool (A : InitArgs) (mem : Mem) : Pool :=
  rtMemheapInit mem A.heap A.freeHeader A.startAddr A.size

/-- The address the code computes for the tail header. -/
theorem InitArgs.u32_tail (A : InitArgs) :
    u32 (A.startAddr + sub32 (rtAlignDown A.size) (2 * RT_MEMHEAP_SIZE) + RT_MEMHEAP_SIZE) =
      A.tail := by
  have h1 := A.room
  have h2 := A.tail_add
  have h3 := (rtAlignDown_le A.size).1
  have h4 := A.size_lt
  have h5 := A.end_le
  rw [sub32_eq (by omega) (by omega)]
  unfold u32 RT_MEMHEAP_SIZE at *
  omega

theorem InitArgs.free_apart_start (A : InitArgs) : Apart A.freeHeader A.startAddr := by
  have h1 := A.room
  rcases A.apart with h | h
  · exact Or.inl h
  · refine Or.inr ?_
    omega

theorem InitArgs.start_apart_tail (A : InitArgs) : Apart A.startAddr A.tail := by
  have h1 := A.room
  have h2 := A.tail_add
  refine Or.inl ?_
  omega

theorem InitArgs.free_apart_tail (A : InitArgs) : Apart A.freeHeader A.tail := by
  have h1 := A.room
  have h2 := A.tail_add
  rcases A.apart with h | h
  · refine Or.inl ?_
    omega
  · refine Or.inr ?_
    omega

theorem Mem.get_set_self (m : Mem) (f g : Field) (a v : Nat) :
    (m.set f a v).get g a = if g = f then v else m.get g a := by
  rw [Mem.get_set (Or.inl rfl)]
  simp

theorem Mem.get_set_of_apart {a b : Nat} (hab : Apart a b) (m : Mem) (f g : Field) (v : Nat) :
    (m.set f a v).get g b = m.get g b := by
  rw [Mem.get_set (Or.inr hab)]
  simp [hab.ne.symm]

/-- The fields the initialisation stores, at each of the three headers. -/
theorem InitArgs.get_pool (A : InitArgs) (mem : Mem) (f : Field) :
    (A.pool mem).mem.get f A.freeHeader =
      (match f with
        | .magic => RT_MEMHEAP_MAGIC | .poolPtr => A.heap | .next => 0 | .prev => 0
        | .nextFree => A.startAddr | .prevFree => A.startAddr) ∧
    (A.pool mem).mem.get f A.startAddr =
      (match f with
        | .magic => RT_MEMHEAP_MAGIC | .poolPtr => A.heap | .next => A.tail | .prev => A.tail
        | .nextFree => A.freeHeader | .prevFree => A.freeHeader) ∧
    (A.pool mem).mem.get f A.tail =
      (match f with
        | .magic => RT_MEMHEAP_MAGIC ||| RT_MEMHEAP_USED | .poolPtr => A.heap
        | .next => A.startAddr | .prev => A.startAddr | .nextFree => 0 | .prevFree => 0) := by
  have h1 := Mem.get_set_of_apart A.free_apart_start
  have h2 := Mem.get_set_of_apart A.free_apart_start.symm
  have h3 := Mem.get_set_of_apart A.start_apart_tail.symm
  have h4 := Mem.get_set_of_apart A.free_apart_tail.symm
  cases f <;>
    simp [InitArgs.pool, rtMemheapInit, pushFree, Mem.get_set_self, h1, h2, h3, h4, A.u32_tail]

/-- The initialisation stores into the pool and the free list head only. -/
theorem InitArgs.pool_frame (A : InitArgs) (mem : Mem) {a : Nat} (ha : Outside A.layout a) :
    (A.pool mem).mem a = mem a := by
  have hset : ∀ {m : Mem} {f : Field} {x v : Nat}, a < x ∨ x + RT_MEMHEAP_SIZE ≤ a →
      (m.set f x v) a = m a := fun {m f x v} h => by
    have hoff := f.off_lt
    exact if_neg (by omega)
  obtain ⟨hp, hf⟩ := ha
  change a < A.startAddr ∨ A.tail + RT_MEMHEAP_SIZE ≤ a at hp
  have hst := A.layout.start_lt
  change A.startAddr + RT_MEMHEAP_SIZE + RT_MEMHEAP_MINIALLOC ≤ A.tail at hst
  have h1 : a < A.freeHeader ∨ A.freeHeader + RT_MEMHEAP_SIZE ≤ a := hf
  have h2 : a < A.startAddr ∨ A.startAddr + RT_MEMHEAP_SIZE ≤ a := by omega
  have h3 : a < A.tail ∨ A.tail + RT_MEMHEAP_SIZE ≤ a := by omega
  -- the addresses the code reads back are the three headers
  have h4 := Mem.get_set_of_apart A.free_apart_start
  have h5 := Mem.get_set_of_apart A.free_apart_start.symm
  simp only [InitArgs.pool, rtMemheapInit, pushFree, Mem.get_set_self, h4, h5, A.u32_tail,
    reduceCtorEq, if_false, if_true]
  simp only [hset h1, hset h2, hset h3]

/-- The first header, the tail and the free list head do not overlap. -/
theorem InitArgs.bounds (A : InitArgs) :
    A.startAddr + RT_MEMHEAP_SIZE + RT_MEMHEAP_MINIALLOC ≤ A.tail ∧
      (A.freeHeader + RT_MEMHEAP_SIZE ≤ A.startAddr ∨ A.tail + RT_MEMHEAP_SIZE ≤ A.freeHeader) :=
  ⟨A.layout.start_lt, A.layout.apart⟩

theorem InitArgs.isUsed_iff (A : InitArgs) (mem : Mem) :
    ¬ isUsed (A.pool mem).mem A.startAddr ∧ isUsed (A.pool mem).mem A.tail := by
  have h1 : (A.pool mem).mem.get .magic A.startAddr = RT_MEMHEAP_MAGIC := (A.get_pool mem _).2.1
  have h2 : (A.pool mem).mem.get .magic A.tail = RT_MEMHEAP_MAGIC ||| RT_MEMHEAP_USED :=
    (A.get_pool mem _).2.2
  unfold isUsed
  rw [h1, h2]
  decide

/-- The initialised pool is one free block in front of the tail. -/
theorem InitArgs.wf (A : InitArgs) (mem : Mem) :
    Wf A.layout (A.pool mem).mem [A.tail] [A.startAddr] := by
  have hget := A.get_pool mem
  obtain ⟨hst, hap⟩ := A.bounds
  unfold RT_MEMHEAP_SIZE at hst hap
  have hblock : ∀ a ∈ A.layout.start :: [A.tail], a = A.startAddr ∨ a = A.tail := by
    intro a ha
    simpa [InitArgs.layout] using ha
  have hnext : (A.pool mem).mem.get .next A.startAddr = A.tail := (hget _).2.1
  have hsep : Sep (A.layout.headers [A.tail] [A.startAddr]) := by
    have h1 : ∀ a ∈ A.layout.headers [A.tail] [A.startAddr],
        a = A.freeHeader ∨ a = A.startAddr ∨ a = A.tail := by
      intro a ha
      simp only [Layout.headers, List.mem_cons, List.mem_append, List.not_mem_nil, or_false] at ha
      rcases ha with h | h | h | h
      · exact Or.inl h
      · exact Or.inr (Or.inl h)
      · exact Or.inr (Or.inr h)
      · exact Or.inr (Or.inl h)
    intro a ha b hb
    have h2 := h1 a ha
    have h3 := h1 b hb
    unfold Apart RT_MEMHEAP_SIZE
    omega
  have hne₁ : A.startAddr ≠ A.tail := by omega
  have hne₂ : A.freeHeader ≠ A.startAddr := by omega
  refine ⟨⟨Dll.singleton hne₁ hnext (hget _).2.2 (hget _).2.1 (hget _).2.2,
    Dll.singleton hne₂ (hget _).1 (hget _).2.1 (hget _).1 (hget _).2.1, hsep⟩,
    by simp [InitArgs.layout], (hget _).2.2, ?_, ?_, ?_, ?_, ?_⟩
  · intro a ha hat
    rw [(hblock a ha).resolve_right hat, hnext]
    unfold RT_MEMHEAP_SIZE
    omega
  · intro a ha b hb hlt
    rcases hblock a ha with rfl | rfl <;> rcases hblock b hb with rfl | rfl <;> omega
  · intro a ha
    have h1 := A.layout.start_aligned
    have h2 := A.layout.tail_aligned
    change A.startAddr ≤ a ∧ a ≤ A.tail ∧ a % 4 = 0
    change A.startAddr % 4 = 0 at h1
    change A.tail % 4 = 0 at h2
    rcases hblock a ha with rfl | rfl <;> omega
  · intro a ha
    rcases hblock a ha with rfl | rfl
    · exact Or.inl (hget _).2.1
    · exact Or.inr (hget _).2.2
  · intro a ha
    rcases hblock a ha with rfl | rfl
    · exact (hget _).2.1
    · exact (hget _).2.2

theorem InitArgs.inv (A : InitArgs) (mem : Mem) :
    Inv A.layout (A.pool mem) [A.tail] [A.startAddr] ∧ (A.pool mem).heap.lock = 1 := by
  have hu := A.isUsed_iff mem
  have hr := A.room
  have hps := (rtAlignDown_le A.size).1
  have hlt := A.size_lt
  have hnext : (A.pool mem).mem.get .next A.startAddr = A.tail := (A.get_pool mem _).2.1
  have hav : (A.pool mem).heap.availableSize = rtAlignDown A.size - 2 * RT_MEMHEAP_SIZE :=
    sub32_eq (by omega) (by omega)
  have hle : (A.pool mem).heap.availableSize ≤ rtAlignDown A.size := by
    rw [hav]
    omega
  have hmax : (A.pool mem).heap.maxUsedSize = rtAlignDown A.size - (A.pool mem).heap.availableSize :=
    sub32_eq hle (by omega)
  have htot : total (A.pool mem).mem [A.startAddr] = A.tail - A.startAddr - RT_MEMHEAP_SIZE := by
    simp [total, blockSize, hnext]
  have hsize := A.tail_add
  refine ⟨⟨⟨A.wf mem, hu.2, ?_, ?_⟩, ?_, ?_, rfl, ?_, rfl, rfl⟩, rfl⟩
  · intro a
    rw [List.mem_singleton]
    constructor
    · rintro rfl
      exact ⟨by simp [InitArgs.layout], hu.1⟩
    · rintro ⟨h1, h2⟩
      rcases List.mem_cons.mp h1 with rfl | h1
      · rfl
      · rw [List.mem_singleton] at h1
        exact absurd (h1 ▸ hu.2) h2
  · intro a ha
    rw [List.mem_singleton.mp ha, hnext]
    exact hu.2
  · rw [hav, htot]
    omega
  · rw [hmax]
    exact Nat.le_refl _
  · change rtAlignDown A.size = A.tail + RT_MEMHEAP_SIZE - A.startAddr
    omega

/-! ## Runs -/

/-- The memory and the heap objects, and the pointers the callers hold. -/
structure Sys where
  state : State
  live : Finset Nat

/-- What a caller does. -/
inductive Op
  | alloc (size : Nat)
  | realloc (ptr newsize : Nat)
  | free (ptr : Nat)
  | store (addr v : Nat)

/-- A caller passes live pointers or `NULL` and sizes that do not wrap, and stores only into the
payloads it holds. -/
def Op.Allowed (s : Sys) : Op → Prop
  | .alloc size => NoWrap size
  | .realloc ptr newsize => (ptr = 0 ∨ ptr ∈ s.live) ∧ NoWrap newsize
  | .free ptr => ptr = 0 ∨ ptr ∈ s.live
  | .store addr _ => ∃ ptr ∈ s.live, InPayload s.state.mem (ptr - RT_MEMHEAP_SIZE) addr

/-- The sizes may be any at all, except that a growth next to a free block does not wrap. -/
def Op.Regular (s : Sys) : Op → Prop
  | .alloc _ => True
  | .realloc ptr newsize => ptr = 0 ∨ ptr ∈ s.live ∧ Regrows s.state.mem ptr newsize
  | .free ptr => ptr = 0 ∨ ptr ∈ s.live
  | .store addr _ => ∃ ptr ∈ s.live, InPayload s.state.mem (ptr - RT_MEMHEAP_SIZE) addr

theorem Op.Allowed.regular {s : Sys} {op : Op} (h : op.Allowed s) : op.Regular s := by
  cases op with
  | alloc size => exact True.intro
  | realloc ptr newsize => exact h.1.imp_right fun hp => ⟨hp, h.2.regrows _ _⟩
  | free ptr => exact h
  | store addr v => exact h

/-- The pointers held after a call that gave up `ptr` and returned `r`; `NULL` says that the call
changed nothing. -/
def held (live : Finset Nat) (ptr r : Nat) : Finset Nat :=
  if r = 0 then live else insert r (live.erase ptr)

def Op.exec (heap : Nat) (s : Sys) : Op → Option Sys
  | .alloc size =>
      (s.state.withHeap heap (rtMemheapAlloc heap size)).map fun r => ⟨r.2, held s.live 0 r.1⟩
  | .realloc ptr newsize =>
      (rtMemheapRealloc heap ptr newsize s.state).map fun r =>
        ⟨r.2, if newsize = 0 then s.live.erase ptr else held s.live ptr r.1⟩
  | .free ptr => (rtMemheapFree ptr s.state).map fun state => ⟨state, s.live.erase ptr⟩
  | .store addr v => some ⟨{ s.state with mem := Function.update s.state.mem addr v }, s.live⟩

/-- The initial state: the pool is initialised, over any memory. -/
def InitArgs.Init (A : InitArgs) (s : Sys) : Prop :=
  (∃ mem, s.state.pool A.heap = A.pool mem) ∧ s.live = ∅

def InitArgs.Step (A : InitArgs) (s : Sys) (op : Op) (s' : Sys) : Prop :=
  op.Allowed s ∧ op.exec A.heap s = some s'

def InitArgs.RegularStep (A : InitArgs) (s : Sys) (op : Op) (s' : Sys) : Prop :=
  op.Regular s ∧ op.exec A.heap s = some s'

/-- The invariant of a run: the live pointers are the payloads of the blocks in use. -/
structure SysInv (A : InitArgs) (s : Sys) (rest fl : List Nat) : Prop where
  inv : Inv A.layout (s.state.pool A.heap) rest fl
  lock : (s.state.heap A.heap).lock = 1
  live : ∀ ptr, ptr ∈ s.live ↔
    ∃ b, ptr = b + RT_MEMHEAP_SIZE ∧ Used A.layout s.state.mem rest b ∧ b ≠ A.tail

theorem InitArgs.sysInv (A : InitArgs) {s : Sys} (h : A.Init s) :
    SysInv A s [A.tail] [A.startAddr] := by
  obtain ⟨⟨mem, hp⟩, hlive⟩ := h
  obtain ⟨hi, hl⟩ := A.inv mem
  rw [← hp] at hi hl
  refine ⟨hi, hl, fun ptr => ?_⟩
  rw [hlive]
  refine iff_of_false (by simp) ?_
  rintro ⟨b, -, ⟨hb, hu⟩, hbt⟩
  -- the only block in front of the tail is free
  rcases List.mem_cons.mp hb with rfl | hb
  · have h1 : s.state.mem = (A.pool mem).mem := congrArg Pool.mem hp
    rw [h1] at hu
    exact (A.isUsed_iff mem).1 hu
  · exact hbt (List.mem_singleton.mp hb)

namespace SysInv

variable {A : InitArgs} {s : Sys} {rest fl : List Nat} {ptr size : Nat}

/-- A live pointer is the payload of a block in use. -/
theorem exists_block (hs : SysInv A s rest fl) (hp : ptr ∈ s.live) :
    ∃ b, ptr = b + RT_MEMHEAP_SIZE ∧ Used A.layout s.state.mem rest b ∧ b ≠ A.tail :=
  (hs.live ptr).mp hp

theorem notMem_zero (hs : SysInv A s rest fl) : 0 ∉ s.live := by
  intro h
  obtain ⟨b, hb, -⟩ := hs.exists_block h
  unfold RT_MEMHEAP_SIZE at hb
  omega

/-- The live pointers after a call whose effect on the blocks in use is known. -/
theorem of_used {state : State} {live : Finset Nat} {rest' fl' : List Nat}
    (i : Inv A.layout (state.pool A.heap) rest' fl') (hl : (state.heap A.heap).lock = 1)
    (h : ∀ b, b ≠ A.tail → (b + RT_MEMHEAP_SIZE ∈ live ↔ Used A.layout state.mem rest' b))
    (hge : ∀ ptr ∈ live, ∃ b, ptr = b + RT_MEMHEAP_SIZE ∧ b ≠ A.tail) :
    SysInv A ⟨state, live⟩ rest' fl' := by
  refine ⟨i, hl, fun ptr => ?_⟩
  constructor
  · intro hp
    obtain ⟨b, rfl, hb⟩ := hge ptr hp
    exact ⟨b, rfl, (h b hb).mp hp, hb⟩
  · rintro ⟨b, rfl, hu, hb⟩
    exact (h b hb).mpr hu

theorem mem_iff (hs : SysInv A s rest fl) {b : Nat} (hb : b ≠ A.tail) :
    b + RT_MEMHEAP_SIZE ∈ s.live ↔ Used A.layout s.state.mem rest b := by
  rw [hs.live]
  constructor
  · rintro ⟨b', he, hu, -⟩
    rwa [Nat.add_right_cancel he]
  · exact fun hu => ⟨b, rfl, hu, hb⟩

/-- Releasing a live pointer. -/
theorem free (hs : SysInv A s rest fl) (hp : ptr ∈ s.live) :
    ∃ state rest' fl', rtMemheapFree ptr s.state = some state ∧
      SysInv A ⟨state, s.live.erase ptr⟩ rest' fl' := by
  obtain ⟨h, rfl, hu, hne⟩ := hs.exists_block hp
  obtain ⟨state, rest', fl', hfree, i', hl', hused, -⟩ := hs.inv.rtMemheapFree hs.lock hu hne
  refine ⟨state, rest', fl', hfree, of_used i' hl' ?_ ?_⟩
  · intro b hb
    rw [Finset.mem_erase, hs.mem_iff hb, (hused b).1, and_comm]
    simp
  · intro ptr hptr
    obtain ⟨b, hb, -, hbt⟩ := hs.exists_block (Finset.mem_of_mem_erase hptr)
    exact ⟨b, hb, hbt⟩

/-- A call that gave up `ptr` and returned `r`: either nothing changed, or the block of `r`
replaces the one of `ptr`. -/
theorem held (hs : SysInv A s rest fl) {state : State} {rest' fl' : List Nat} {r : Nat}
    (i : Inv A.layout (state.pool A.heap) rest' fl') (hl : (state.heap A.heap).lock = 1)
    (h : (r = 0 ∧ ∀ b, Used A.layout state.mem rest' b ↔ Used A.layout s.state.mem rest b) ∨
      ∃ b', r = b' + RT_MEMHEAP_SIZE ∧ b' ≠ A.tail ∧ ∀ b, Used A.layout state.mem rest' b ↔
        (Used A.layout s.state.mem rest b ∧ b + RT_MEMHEAP_SIZE ≠ ptr) ∨ b = b') :
    SysInv A ⟨state, Memheap.held s.live ptr r⟩ rest' fl' := by
  unfold Memheap.held
  rcases h with ⟨rfl, hsame⟩ | ⟨b', rfl, hb', hused⟩
  · rw [if_pos rfl]
    refine of_used i hl (fun b hb => ?_) fun q hq => ?_
    · rw [hs.mem_iff hb, hsame]
    · obtain ⟨b, hb, -, hbt⟩ := hs.exists_block hq
      exact ⟨b, hb, hbt⟩
  · have hnz : b' + RT_MEMHEAP_SIZE ≠ 0 := by
      unfold RT_MEMHEAP_SIZE
      omega
    rw [if_neg hnz]
    refine of_used i hl (fun b hb => ?_) fun q hq => ?_
    · rw [Finset.mem_insert, Finset.mem_erase, hs.mem_iff hb, hused, Nat.add_right_cancel_iff]
      tauto
    · rcases Finset.mem_insert.mp hq with rfl | hq
      · exact ⟨b', rfl, hb'⟩
      · obtain ⟨b, hb, -, hbt⟩ := hs.exists_block (Finset.mem_of_mem_erase hq)
        exact ⟨b, hb, hbt⟩

/-- Allocating. -/
theorem alloc (hs : SysInv A s rest fl) (size : Nat) :
    ∃ r state rest' fl', s.state.withHeap A.heap (rtMemheapAlloc A.heap size) = some (r, state) ∧
      SysInv A ⟨state, Memheap.held s.live 0 r⟩ rest' fl' := by
  obtain ⟨r, p', rest', fl', halloc, i', hl', hor, -⟩ := hs.inv.rtMemheapAlloc hs.lock size
  obtain ⟨state, hst, rfl, -⟩ := State.withHeap_eq halloc
  refine ⟨r, state, rest', fl', hst, hs.held i' hl' ?_⟩
  rcases hor with ⟨hr, hsame⟩ | ⟨h, hr, htaken, -⟩
  · exact Or.inl ⟨hr, fun b => (hsame b).1⟩
  · refine Or.inr ⟨h, hr, htaken.ne_tail, fun b => (htaken.used b).trans ?_⟩
    have hnz : b + RT_MEMHEAP_SIZE ≠ 0 := by
      unfold RT_MEMHEAP_SIZE
      omega
    simp only [hnz, not_false_eq_true, and_true, ne_eq]
    exact Iff.rfl

/-- Reallocating a live pointer. -/
theorem realloc (hs : SysInv A s rest fl) (hp : ptr ∈ s.live) (hsize : Regrows s.state.mem ptr size)
    (hpos : size ≠ 0) :
    ∃ r state rest' fl', rtMemheapRealloc A.heap ptr size s.state = some (r, state) ∧
      SysInv A ⟨state, Memheap.held s.live ptr r⟩ rest' fl' := by
  obtain ⟨h, rfl, hu, hne⟩ := hs.exists_block hp
  obtain ⟨r, state, hre, rest', fl', i', hl', hor, -⟩ :=
    hs.inv.rtMemheapRealloc hs.lock hu hne hsize hpos
  refine ⟨r, state, rest', fl', hre, hs.held i' hl' ?_⟩
  have hcancel : ∀ b, b + RT_MEMHEAP_SIZE ≠ h + RT_MEMHEAP_SIZE ↔ b ≠ h := fun b =>
    not_congr Nat.add_right_cancel_iff
  rcases hor with ⟨rfl | rfl, hsame⟩ | ⟨h', rfl, hne', -, hused⟩
  · exact Or.inl ⟨rfl, hsame⟩
  · refine Or.inr ⟨h, rfl, hne, fun b => ?_⟩
    rw [hsame, hcancel]
    constructor
    · intro hb
      by_cases hbh : b = h
      · exact Or.inr hbh
      · exact Or.inl ⟨hb, hbh⟩
    · rintro (⟨hb, -⟩ | rfl)
      · exact hb
      · exact hu
  · refine Or.inr ⟨h', rfl, hne', fun b => ?_⟩
    rw [hused, hcancel]

/-- **The step lemma**: an allowed call returns, and keeps the invariant. -/
theorem exec (hs : SysInv A s rest fl) {op : Op} (hop : op.Regular s) :
    ∃ s' rest' fl', op.exec A.heap s = some s' ∧ SysInv A s' rest' fl' := by
  cases op with
  | alloc size =>
      obtain ⟨r, state, rest', fl', ha, hs'⟩ := hs.alloc size
      exact ⟨_, rest', fl', by simp only [Op.exec, ha, Option.map_some], hs'⟩
  | free ptr =>
      rcases hop with rfl | hp
      · refine ⟨s, rest, fl, ?_, hs⟩
        simp [Op.exec, rtMemheapFree, hs.notMem_zero]
      · obtain ⟨state, rest', fl', hf, hs'⟩ := hs.free hp
        exact ⟨_, rest', fl', by simp only [Op.exec, hf, Option.map_some], hs'⟩
  | realloc ptr size =>
      by_cases hz : size = 0
      · subst hz
        rcases hop with rfl | ⟨hp, -⟩
        · refine ⟨s, rest, fl, ?_, hs⟩
          simp [Op.exec, rtMemheapRealloc, rtMemheapFree, hs.notMem_zero]
        · obtain ⟨state, rest', fl', hf, hs'⟩ := hs.free hp
          refine ⟨_, rest', fl', ?_, hs'⟩
          simp [Op.exec, rtMemheapRealloc, hf]
      · rcases hop with rfl | ⟨hp, hsize⟩
        · -- `NULL` is reallocated by an allocation
          obtain ⟨r, state, rest', fl', ha, hs'⟩ := hs.alloc (roundSize size)
          refine ⟨_, rest', fl', ?_, hs'⟩
          simp [Op.exec, rtMemheapRealloc, hz, ha]
        · obtain ⟨r, state, rest', fl', hr, hs'⟩ := hs.realloc hp hsize hz
          refine ⟨_, rest', fl', ?_, hs'⟩
          simp [Op.exec, hr, hz]
  | store addr v =>
      obtain ⟨ptr, hp, hin⟩ := hop
      obtain ⟨h, rfl, hu, hne⟩ := hs.exists_block hp
      rw [Nat.add_sub_cancel] at hin
      have hsame : SameHeaders A.layout rest fl s.state.mem (Function.update s.state.mem addr v) := by
        refine hs.inv.sameHeaders hu.1 hne fun a ha => ?_
        have hne : a ≠ addr := fun e => ha (e ▸ hin)
        exact Function.update_of_ne hne _ _
      refine ⟨_, rest, fl, rfl, of_used (hs.inv.congr hsame) hs.lock (fun b hb => ?_) fun q hq => ?_⟩
      · rw [hs.mem_iff hb]
        exact ((hsame.sameBlocks.sameUsed b).1).symm
      · obtain ⟨b, hb, -, hbt⟩ := hs.exists_block hq
        exact ⟨b, hb, hbt⟩

/-- **The run lemma**: every state of a run satisfies the invariant. -/
theorem of_run (h : Trans.Reachable A.Init A.RegularStep s) : ∃ rest fl, SysInv A s rest fl := by
  refine h.invariant (I := fun s => ∃ rest fl, SysInv A s rest fl)
    (fun s hs => ⟨_, _, A.sysInv hs⟩) ?_
  rintro s op s' - ⟨rest, fl, hs⟩ ⟨hop, hexec⟩
  obtain ⟨s'', rest', fl', he, hs'⟩ := hs.exec hop
  rw [hexec] at he
  exact ⟨rest', fl', Option.some.inj he ▸ hs'⟩

end SysInv

/-! ## Integrity -/

/-- The four structures of a pool agree. `r` are the headers between the first block and the
tail, `fl` the members of the free list. -/
structure Integrity (A : InitArgs) (s : State) (r fl : List Nat) : Prop where
  /-- `next` leads from `block_list` through `r` to the tail and back. -/
  next : Dll.Path (s.mem.get .next) (s.heap A.heap).blockList r A.tail ∧
    s.mem.get .next A.tail = (s.heap A.heap).blockList
  start : (s.heap A.heap).blockList = A.startAddr
  tail_used : isUsed s.mem A.tail
  sorted : ((s.heap A.heap).blockList :: (r ++ [A.tail])).Pairwise (· < ·)
  /-- Each block ends where the next one starts. -/
  tiles : ∀ a ∈ (s.heap A.heap).blockList :: r,
    a + RT_MEMHEAP_SIZE + memitemSize s.mem a = s.mem.get .next a
  prev : ∀ a ∈ (s.heap A.heap).blockList :: (r ++ [A.tail]),
    s.mem.get .prev (s.mem.get .next a) = a
  no_adjacent : ∀ a ∈ (s.heap A.heap).blockList :: r,
    isUsed s.mem a ∨ isUsed s.mem (s.mem.get .next a)
  /-- `next_free` and `prev_free` link `fl` both ways, without repetition. -/
  free_list : Dll (s.mem.get .nextFree) (s.mem.get .prevFree) (s.heap A.heap).freeList fl
  free_iff : ∀ a, a ∈ fl ↔ a ∈ (s.heap A.heap).blockList :: (r ++ [A.tail]) ∧ ¬ isUsed s.mem a
  available : (s.heap A.heap).availableSize = (fl.map (memitemSize s.mem)).sum
  max_used : (s.heap A.heap).poolSize - (s.heap A.heap).availableSize ≤
    (s.heap A.heap).maxUsedSize

theorem Inv.integrity {A : InitArgs} {s : State} {rest fl : List Nat}
    (i : Inv A.layout (s.pool A.heap) rest fl) :
    ∃ r, rest = r ++ [A.tail] ∧ Integrity A s r fl := by
  obtain ⟨r, rfl, hp⟩ := i.wf.exists_chain
  have hbl : (s.heap A.heap).blockList = A.startAddr := i.heap.blockList
  have hmem : ∀ a ∈ A.startAddr :: r, a ∈ A.startAddr :: (r ++ [A.tail]) ∧ a ≠ A.tail := by
    intro a ha
    have hnd : ((A.startAddr :: r) ++ [A.tail]).Nodup := i.wf.links.blocks.nodup
    refine ⟨List.mem_append_left [A.tail] ha, ?_⟩
    rintro rfl
    exact (List.nodup_append.mp hnd).2.2 _ ha _ (by simp) rfl
  have hsize : ∀ a ∈ A.startAddr :: (r ++ [A.tail]), a ≠ A.tail →
      memitemSize s.mem a = blockSize s.mem a := fun a ha hat => i.wf.memitemSize_eq ha hat
  refine ⟨r, rfl, ⟨?_, i.wf.next_tail.trans hbl.symm⟩, hbl, i.tail_used, ?_, ?_, ?_, ?_, ?_, ?_, ?_,
    i.maxUsed⟩
  · rw [hbl]
    exact hp
  · rw [hbl]
    refine hp.pairwise_lt fun a ha => ?_
    have h1 := i.wf.gap a (hmem a ha).1 (hmem a ha).2
    unfold RT_MEMHEAP_SIZE at h1
    omega
  · intro a ha
    rw [hbl] at ha
    rw [hsize a (hmem a ha).1 (hmem a ha).2]
    exact (i.wf.next_eq (hmem a ha).1 (hmem a ha).2).symm
  · intro a ha
    rw [hbl] at ha
    exact i.wf.prev_next ha
  · intro a ha
    rw [hbl] at ha
    by_cases hu : isUsed s.mem a
    · exact Or.inl hu
    · exact Or.inr (i.no_adjacent a ((i.free_iff a).mpr ⟨(hmem a ha).1, hu⟩))
  · have h1 : (s.heap A.heap).freeList = A.freeHeader := i.heap.freeList
    rw [h1]
    exact i.wf.links.frees
  · rw [hbl]
    exact i.free_iff
  · refine i.available.trans ?_
    unfold total
    refine congrArg List.sum (List.map_congr_left fun a ha => ?_)
    exact (hsize a (i.block ha).1 (i.block ha).2).symm

/-- With every block freed, the pool is one free block of the initial size. -/
theorem Integrity.all_free {A : InitArgs} {s : State} {r fl : List Nat} (h : Integrity A s r fl)
    (hfree : ∀ a ∈ A.startAddr :: r, ¬ isUsed s.mem a) :
    r = [] ∧ fl = [A.startAddr] ∧
      (s.heap A.heap).availableSize = sub32 (rtAlignDown A.size) (2 * RT_MEMHEAP_SIZE) := by
  have hst := h.start
  have hr : r = [] := by
    cases r with
    | nil => rfl
    | cons b r =>
        -- the first two blocks would be free neighbours
        have h1 : s.mem.get .next A.startAddr = b := hst ▸ h.next.1.1
        have h2 := h.no_adjacent A.startAddr (by simp [hst])
        rw [h1] at h2
        rcases h2 with h2 | h2
        · exact absurd h2 (hfree _ (by simp))
        · exact absurd h2 (hfree b (by simp))
  subst hr
  have hne : A.startAddr ≠ A.tail := by
    have h1 := A.bounds.1
    unfold RT_MEMHEAP_SIZE at h1
    omega
  have hfl : fl = [A.startAddr] := by
    have hmem : ∀ a, a ∈ fl ↔ a = A.startAddr := by
      intro a
      rw [h.free_iff, hst]
      constructor
      · rintro ⟨h1, h2⟩
        rcases List.mem_cons.mp h1 with h1 | h1
        · exact h1
        · rw [List.nil_append, List.mem_singleton] at h1
          exact absurd (h1 ▸ h.tail_used) h2
      · rintro rfl
        exact ⟨by simp, hfree _ (by simp)⟩
    have hnd := (List.nodup_cons.mp h.free_list.nodup).2
    exact List.perm_singleton.mp ((List.perm_ext_iff_of_nodup hnd (by simp)).mpr fun a => by
      rw [hmem, List.mem_singleton])
  refine ⟨rfl, hfl, ?_⟩
  have h1 := h.tiles A.startAddr (by simp [hst])
  have h2 : s.mem.get .next A.startAddr = A.tail := hst ▸ h.next.1
  have h3 := A.tail_add
  have h4 := A.room
  have h5 := (rtAlignDown_le A.size).1
  have h6 := A.size_lt
  have h7 : sub32 (rtAlignDown A.size) (2 * RT_MEMHEAP_SIZE) =
      rtAlignDown A.size - 2 * RT_MEMHEAP_SIZE := sub32_eq (by omega) (by omega)
  have h8 : (s.heap A.heap).availableSize = memitemSize s.mem A.startAddr := by
    rw [h.available, hfl, List.map_singleton, List.sum_singleton]
  rw [h2] at h1
  omega

/-- **Integrity of a pool.** In every state of every run the four structures agree; once no
pointer is live the pool is one free block again; and every allowed call returns. -/
theorem pool_integrity (A : InitArgs) {s : Sys} (h : Trans.Reachable A.Init A.Step s) :
    (∃ r fl, Integrity A s.state r fl ∧
      (s.live = ∅ → r = [] ∧ fl = [A.startAddr] ∧
        (s.state.heap A.heap).availableSize = sub32 (rtAlignDown A.size) (2 * RT_MEMHEAP_SIZE))) ∧
    ∀ op : Op, op.Allowed s → ∃ s', op.exec A.heap s = some s' := by
  obtain ⟨rest, fl, hs⟩ := SysInv.of_run (h.mono fun _ _ _ hstep => ⟨hstep.1.regular, hstep.2⟩)
  obtain ⟨r, rfl, hi⟩ := hs.inv.integrity
  refine ⟨⟨r, fl, hi, fun hlive => hi.all_free fun a ha hu => ?_⟩, fun op hop => ?_⟩
  · have hne : a ≠ A.tail := by
      rintro rfl
      have hnd : ((A.startAddr :: r) ++ [A.tail]).Nodup := hs.inv.wf.links.blocks.nodup
      exact (List.nodup_append.mp hnd).2.2 _ ha _ (by simp) rfl
    have h1 := (hs.mem_iff hne).mpr ⟨List.mem_append_left [A.tail] ha, hu⟩
    rw [hlive] at h1
    exact absurd h1 (by simp)
  · obtain ⟨s', -, -, he, -⟩ := hs.exec hop.regular
    exact ⟨s', he⟩

/-- A pool of one kilobyte. -/
def smallPool : InitArgs where
  heap := 4096
  freeHeader := 4128
  startAddr := 8192
  size := 1024
  heap_ne := by decide
  aligned := by decide
  room := by decide
  size_lt := by decide
  end_le := by decide
  apart := by decide

/-- Its initial state, over cleared memory. -/
def smallPoolInit : Sys :=
  ⟨⟨(smallPool.pool fun _ => 0).mem, fun _ => (smallPool.pool fun _ => 0).heap⟩, ∅⟩

theorem pool_integrity_smallPool : ∃ s : Sys, s.live = {8216} ∧ ∃ r fl,
    Integrity smallPool s.state r fl := by
  have hrun : (Op.exec smallPool.heap smallPoolInit (.alloc 100)).map Sys.live = some {8216} := by
    decide +kernel
  obtain ⟨s, hexec, hlive⟩ := Option.map_eq_some_iff.mp hrun
  have hinit : smallPool.Init smallPoolInit := ⟨⟨fun _ => 0, rfl⟩, rfl⟩
  have hallowed : Op.Allowed smallPoolInit (.alloc 100) := by
    show NoWrap 100
    decide
  obtain ⟨⟨r, fl, hi, -⟩, -⟩ := pool_integrity smallPool ((Trans.Reachable.init hinit).step
    (show smallPool.Step smallPoolInit (.alloc 100) s from ⟨hallowed, hexec⟩))
  exact ⟨s, hlive, r, fl, hi⟩

end RTThread.Memheap
