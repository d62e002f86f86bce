import RTThread.Ipc.Model
import RTThread.Memheap.Model
import RTThread.Lib.Run

set_option autoImplicit false

/-! # Memory pools (`mempool.c`)

A pool is a region cut into blocks of one size. The word in front of a block links it to the next free
block, or points to the pool while the block is allocated; the memory holds these words and those that
the callers store in their blocks. As in `Ipc/Model.lean` a call is a sequence of sections that run
with interrupts disabled, and a failed assertion is `none`.
-/

namespace RTThread.Mp

open Memheap (u32 rtAlign rtAlignDown)

/-- The contents of the word at an address. -/
abbrev Mem := Nat → Nat

/-- `struct rt_mempool`. -/
structure Mempool where
  startAddress : Nat
  size : Nat
  blockSize : Nat
  blockList : Nat
  blockTotalCount : Nat
  blockFreeCount : Nat
  suspendThread : List ThreadId

/-- `block_size + sizeof(rt_uint8_t *)`. -/
def stride (blockSize : Nat) : Nat := u32 (blockSize + 4)

/-- The free block list is initialised: a link in front of each block, and none in front of the last. -/
def initBlockList (start stride total : Nat) (mem : Mem) : Mem :=
  let mem := (List.range total).foldl
    (fun mem offset => Function.update mem (start + offset * stride) (start + (offset + 1) * stride)) mem
  Function.update mem (start + (total - 1) * stride) 0

/-- The memory, and the pool. -/
def rtMpInit (start size blockSize : Nat) (mem : Mem) : Mem × Mempool :=
  let size := rtAlignDown size
  -- align the block size
  let blockSize := rtAlign blockSize
  let total := size / stride blockSize
  (initBlockList start (stride blockSize) total mem,
    { startAddress := start, size, blockSize, blockList := start, blockTotalCount := total
      blockFreeCount := total, suspendThread := [] })

/-- `rt_mp_create`, with the memory at `start` that `rt_malloc` has returned. -/
def rtMpCreate (start blockCount blockSize : Nat) (mem : Mem) : Mem × Mempool :=
  let blockSize := rtAlign blockSize
  (initBlockList start (stride blockSize) blockCount mem,
    { startAddress := start, size := u32 (stride blockSize * blockCount), blockSize, blockList := start
      blockTotalCount := blockCount, blockFreeCount := blockCount, suspendThread := [] })

/-- Where a thread is between two sections: in no call, behind `rt_schedule` in `rt_mp_alloc` with the
time it still waits, or at the return of a call with this pointer. -/
inductive MpPc
  | idle
  | wait (time : Int)
  | ret (block : Nat)
  deriving DecidableEq

/-- The result of a section of `rt_mp_alloc`. -/
structure MpSection where
  mem : Mem
  mp : Mempool
  pc : MpPc
  /-- is the error code of the thread reset? -/
  reset : Bool

/-- `rt_mp_alloc` from the test of its loop, for the pool at the address `addr`. -/
def rtMpAlloc (addr : Nat) (mem : Mem) (mp : Mempool) (t : ThreadId) (time : Int) :
    Option MpSection :=
  if mp.blockFreeCount = 0 then
    -- memory block is unavailable
    if time = 0 then some ⟨mem, mp, .ret 0, false⟩
    else some ⟨mem, { mp with suspendThread := t :: mp.suspendThread }, .wait time, true⟩
  else
    let blockPtr := mp.blockList
    if blockPtr = 0 then none
    else
      -- set up the next free node, and point to the memory pool
      some ⟨Function.update mem blockPtr addr,
        { mp with blockFreeCount := mp.blockFreeCount - 1, blockList := mem blockPtr },
        .ret (blockPtr + 4), false⟩

/-- `rt_mp_free` of a block of the pool: the memory, the pool, and the thread that is resumed. -/
def rtMpFree (addr : Nat) (mem : Mem) (mp : Mempool) (block : Nat) :
    Option (Mem × Mempool × Option ThreadId) :=
  if block = 0 then some (mem, mp, none)
  else
    let blockPtr := block - 4
    -- get the control block of pool which the block belongs to
    if mem blockPtr ≠ addr then none
    else
      -- link the block into the block list
      some (Function.update mem blockPtr mp.blockList,
        { mp with
          blockFreeCount := mp.blockFreeCount + 1
          blockList := blockPtr
          suspendThread := mp.suspendThread.tail },
        mp.suspendThread.head?)

/-! ## Threads -/

/-- The pool at `addr` and its threads. `handed` are the blocks that calls have returned and that were
not freed since, with the threads that got them; `resumed` are the threads that `rt_mp_free` has
resumed and that have not been back in `rt_mp_alloc` since. -/
structure MpSys where
  addr : Nat
  mem : Mem
  mp : Mempool
  error : ThreadId → Err
  pc : ThreadId → MpPc
  handed : List (Nat × ThreadId)
  resumed : List ThreadId

/-- An interrupt handler that calls is a thread of its own, which never waits. -/
inductive MpAction
  | alloc (t : ThreadId) (time : Int)
  /-- the thread was woken and runs again, `delta` ticks after it was suspended -/
  | again (t : ThreadId) (delta : Nat)
  | free (t : ThreadId) (block : Nat)
  /-- the call returns -/
  | ret (t : ThreadId)
  /-- the timer of a waiting thread, or other code, wakes it -/
  | wake (t : ThreadId) (e : Err)
  /-- the holder of a block stores a word in it -/
  | store (block i v : Nat)

namespace MpSys

/-- The pointer that a section returns goes to the thread. -/
def hand (handed : List (Nat × ThreadId)) (t : ThreadId) : MpPc → List (Nat × ThreadId)
  | .ret block => if block = 0 then handed else (block, t) :: handed
  | _ => handed

/-- The state after a section of `rt_mp_alloc`. -/
def after (s : MpSys) (t : ThreadId) (x : MpSection) : MpSys :=
  { addr := s.addr
    mem := x.mem
    mp := x.mp
    error := if x.reset then Function.update s.error t .ok else s.error
    pc := Function.update s.pc t x.pc
    handed := hand s.handed t x.pc
    resumed := s.resumed.erase t }

/-- The pointer is given back. -/
def giveBack (handed : List (Nat × ThreadId)) (block : Nat) : List (Nat × ThreadId) :=
  handed.eraseP fun h => h.1 = block

/-- The state after `rt_mp_free`. -/
def afterFree (s : MpSys) (block : Nat) (r : Mem × Mempool × Option ThreadId) : MpSys :=
  { addr := s.addr
    mem := r.1
    mp := r.2.1
    error := r.2.2.elim s.error fun u => Function.update s.error u .ok
    pc := s.pc
    handed := giveBack s.handed block
    resumed := r.2.2.elim s.resumed fun u => u :: s.resumed }

/-- A block that was handed out may be freed, by any thread. -/
def exec (s : MpSys) : MpAction → Option MpSys
  | .alloc t time =>
      match s.pc t with
      | .idle => (rtMpAlloc s.addr s.mem s.mp t time).map (s.after t)
      | _ => none
  | .again t delta =>
      match s.pc t with
      | .wait time =>
          if t ∈ s.mp.suspendThread then none
          else if s.error t ≠ .ok then some { s with pc := Function.update s.pc t (.ret 0) }
          else (rtMpAlloc s.addr s.mem s.mp t (Ipc.remaining time delta)).map (s.after t)
      | _ => none
  | .free t block =>
      match s.pc t with
      | .idle =>
          if block = 0 ∨ block ∈ s.handed.map Prod.fst then
            (rtMpFree s.addr s.mem s.mp block).map (s.afterFree block)
          else none
      | _ => none
  | .ret t =>
      match s.pc t with
      | .ret _ => some { s with pc := Function.update s.pc t .idle }
      | _ => none
  | .wake t e =>
      if t ∈ s.mp.suspendThread then
        some { s with
          mp := { s.mp with suspendThread := s.mp.suspendThread.erase t }
          error := Function.update s.error t e }
      else none
  | .store block i v =>
      if block ∈ s.handed.map Prod.fst ∧ i < s.mp.blockSize then
        some { s with mem := Function.update s.mem (block + i) v }
      else none

/-- A new pool with a block at least, in memory that holds all its blocks. -/
def Init (s : MpSys) : Prop :=
  (∃ start blockSize mem, start ≠ 0 ∧
    ((∃ size, start + size ≤ 4294967296 ∧ (s.mem, s.mp) = rtMpInit start size blockSize mem) ∨
      ∃ count, start + stride (rtAlign blockSize) * count ≤ 4294967296 ∧
        stride (rtAlign blockSize) ≠ 0 ∧
        (s.mem, s.mp) = rtMpCreate start count blockSize mem)) ∧
    1 ≤ s.mp.blockTotalCount ∧ (∀ t, s.pc t = .idle) ∧ s.handed = [] ∧ s.resumed = []

end MpSys

end RTThread.Mp
