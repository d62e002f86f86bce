import RTThread.Lib.Bitmap
import RTThread.Lib.Levels
import RTThread.Mempool.Conservation

set_option autoImplicit false

/-! # The priority queue of the VBus (`prio_queue.c`)

The items are blocks of a memory pool: the word `next`, and the data behind it. A thread that pushes waits for
the pool, one that pops waits for an item. The calls go on in steps between two critical sections, over the
memory and the threads of the pool.
-/

namespace RTThread.Vbus

open Mp

def RT_PRIO_QUEUE_PRIO_MAX : Nat := 32

/-- `sizeof(struct rt_prio_queue_item)`: the data is behind it. -/
def itemHeader : Nat := 4

/-- `struct rt_prio_queue`, without its pool. -/
structure PrioQueue where
  bitmap : BitVec 32
  head : Nat → Nat
  tail : Nat → Nat
  suspendedPopList : List ThreadId
  itemSz : Nat

/-- `rt_memcpy` of these bytes to `dst`. -/
def memcpy (mem : Mem) (dst : Nat) (data : List Nat) : Mem := fun a =>
  if dst ≤ a ∧ a < dst + data.length then data.getD (a - dst) 0 else mem a

/-- The data of an item, of `n` bytes. -/
def itemData (mem : Mem) (n item : Nat) : List Nat := (List.range n).map fun i => mem (item + itemHeader + i)

def doPush (que : PrioQueue) (mem : Mem) (prio item : Nat) : Option (PrioQueue × Mem) :=
  if que.head prio = 0 then
    some ({ que with
      head := Function.update que.head prio item
      bitmap := Bitmap.set que.bitmap prio
      tail := Function.update que.tail prio item }, mem)
  else if que.tail prio = 0 then none
  else
    some ({ que with tail := Function.update que.tail prio item },
      Function.update mem (que.tail prio) item)

/-- The item, or `0`, and the queue without it. -/
def doPop (que : PrioQueue) (mem : Mem) : Option (Nat × PrioQueue) :=
  let ffs := Bitmap.ffs que.bitmap
  if ffs = 0 then some (0, que)
  else
    let ffs := ffs - 1
    let item := que.head ffs
    if item = 0 then none
    else
      let que' := { que with head := Function.update que.head ffs (mem item) }
      some (item, if que'.head ffs = 0 then { que' with bitmap := Bitmap.clear que.bitmap ffs } else que')

/-- What a call returns. -/
inductive PqResult
  | ok
  /-- `-RT_ERROR`, for a priority that is out of range -/
  | error
  | enomem
  | etimeout
  /-- `thread->error` -/
  | woken (e : Err)
  /-- `RT_EOK`, with the data -/
  | popped (data : List Nat)

/-- Where a thread is between two steps. -/
inductive PqPc
  | idle
  /-- in `rt_mp_alloc` -/
  | alloc (prio : Nat) (data : List Nat)
  /-- before the section of a push, with the item it has filled -/
  | filled (prio : Nat) (data : List Nat) (item : Nat)
  /-- behind `rt_schedule` in a pop -/
  | wait (timeout : Int)
  /-- behind the loop of a pop, with the item -/
  | taken (item : Nat)
  /-- behind `rt_memcpy` in a pop -/
  | copied (item : Nat) (data : List Nat)
  | ret (r : PqResult)

/-- What happens to the contents of the queue. -/
inductive PqEvent
  | push (prio : Nat) (data : List Nat)
  /-- a pop takes an item -/
  | take (t : ThreadId)
  /-- a pop finds none -/
  | empty
  /-- a pop copies the data of the item it took -/
  | fetch (t : ThreadId) (data : List Nat)
  deriving DecidableEq

/-- A queue and its threads. `resumed` are those that a push has resumed and that have not been back in
`rt_prio_queue_pop` since, and `log` is what has happened. -/
structure PqSys where
  pool : MpSys
  que : PrioQueue
  pc : ThreadId → PqPc
  resumed : List ThreadId
  log : List PqEvent

/-- An interrupt handler that calls is a thread of its own, which never waits. -/
inductive PqAction
  | push (t : ThreadId) (prio : Nat) (data : List Nat) (timeout : Int)
  /-- the thread that waits for a block runs again, after `delta` ticks -/
  | allocAgain (t : ThreadId) (delta : Nat)
  /-- `rt_mp_alloc` has returned, and the item is filled -/
  | fill (t : ThreadId)
  /-- the section of a push -/
  | enqueue (t : ThreadId)
  | pop (t : ThreadId) (timeout : Int)
  /-- the thread that waits for an item runs again -/
  | popAgain (t : ThreadId)
  | fetch (t : ThreadId)
  /-- `rt_mp_free` of the item -/
  | release (t : ThreadId)
  | ret (t : ThreadId)
  /-- the timer of a thread that waits for a block, or other code, wakes it -/
  | wakeAlloc (t : ThreadId) (e : Err)
  /-- the same for an item -/
  | wakePop (t : ThreadId) (e : Err)

namespace PqSys

def setPc (s : PqSys) (t : ThreadId) (p : PqPc) : PqSys := { s with pc := Function.update s.pc t p }

/-- `rt_prio_queue_pop` from the test of its loop. -/
def loopPop (s : PqSys) (t : ThreadId) (timeout : Int) : Option PqSys :=
  (doPop s.que s.pool.mem).map fun r =>
    let s := { s with que := r.2, resumed := s.resumed.erase t }
    if r.1 = 0 then
      let s := { s with log := s.log ++ [PqEvent.empty] }
      if timeout = 0 then s.setPc t (.ret .etimeout)
      else
        -- the error code is reset, and the thread is suspended behind the others
        { s with
          pool := { s.pool with error := Function.update s.pool.error t .ok }
          que := { s.que with suspendedPopList := s.que.suspendedPopList ++ [t] } }.setPc t (.wait timeout)
    else { s with log := s.log ++ [PqEvent.take t] }.setPc t (.taken r.1)

/-- The critical section of `rt_prio_queue_push`. -/
def sectionPush (s : PqSys) (t : ThreadId) (prio : Nat) (data : List Nat) (item : Nat) : Option PqSys :=
  (doPush s.que s.pool.mem prio item).map fun r =>
    { s with
      pool := { s.pool with mem := r.2 }
      -- the first thread that is suspended is resumed
      que := { r.1 with suspendedPopList := r.1.suspendedPopList.tail }
      resumed := r.1.suspendedPopList.head?.elim s.resumed fun u => u :: s.resumed
      log := s.log ++ [PqEvent.push prio data] }.setPc t (.ret .ok)

/-- `data` is of `item_sz` bytes and `prio` a byte. -/
def exec (s : PqSys) : PqAction → Option PqSys
  | .push t prio data timeout =>
      match s.pc t with
      | .idle =>
          if prio < 256 ∧ data.length = s.que.itemSz then
            if RT_PRIO_QUEUE_PRIO_MAX ≤ prio then some (s.setPc t (.ret .error))
            else (s.pool.exec (.alloc t timeout)).map fun pool =>
              { s with pool := pool }.setPc t (.alloc prio data)
          else none
      | _ => none
  | .allocAgain t delta =>
      match s.pc t with
      | .alloc _ _ => (s.pool.exec (.again t delta)).map fun pool => { s with pool := pool }
      | _ => none
  | .fill t =>
      match s.pc t, s.pool.pc t with
      | .alloc prio data, .ret item =>
          (s.pool.exec (.ret t)).map fun pool =>
            if item = 0 then { s with pool := pool }.setPc t (.ret .enomem)
            else
              let mem := Function.update (memcpy pool.mem (item + itemHeader) data) item 0
              { s with pool := { pool with mem := mem } }.setPc t (.filled prio data item)
      | _, _ => none
  | .enqueue t =>
      match s.pc t with
      | .filled prio data item => s.sectionPush t prio data item
      | _ => none
  | .pop t timeout =>
      match s.pc t with
      | .idle => s.loopPop t timeout
      | _ => none
  | .popAgain t =>
      match s.pc t with
      | .wait timeout =>
          if t ∈ s.que.suspendedPopList then none
          else if s.pool.error t ≠ .ok then some (s.setPc t (.ret (.woken (s.pool.error t))))
          else s.loopPop t timeout
      | _ => none
  | .fetch t =>
      match s.pc t with
      | .taken item =>
          let data := itemData s.pool.mem s.que.itemSz item
          some ({ s with log := s.log ++ [PqEvent.fetch t data] }.setPc t (.copied item data))
      | _ => none
  | .release t =>
      match s.pc t with
      | .copied item data => (s.pool.exec (.free t item)).map fun pool =>
          { s with pool := pool }.setPc t (.ret (.popped data))
      | _ => none
  | .ret t =>
      match s.pc t with
      | .ret _ => some (s.setPc t .idle)
      | _ => none
  | .wakeAlloc t e => (s.pool.exec (.wake t e)).map fun pool => { s with pool := pool }
  | .wakePop t e =>
      if t ∈ s.que.suspendedPopList then
        some { s with
          pool := { s.pool with error := Function.update s.pool.error t e }
          que := { s.que with suspendedPopList := s.que.suspendedPopList.erase t } }
      else none

/-- `rt_prio_queue_init` of a queue for items of `itemSz` bytes, in memory that holds its blocks; the size of
an item is no more than a word holds. -/
def Init (s : PqSys) : Prop :=
  s.que = { bitmap := 0, head := fun _ => 0, tail := fun _ => 0, suspendedPopList := []
            itemSz := s.que.itemSz } ∧
    (∃ start size mem, start ≠ 0 ∧ start + size ≤ 4294967296 ∧
      (s.pool.mem, s.pool.mp) = rtMpInit start size (itemHeader + s.que.itemSz) mem) ∧
    itemHeader + s.que.itemSz + 3 < 4294967296 ∧ 1 ≤ s.pool.mp.blockTotalCount ∧
    (∀ t, s.pool.pc t = .idle) ∧ s.pool.handed = [] ∧ s.pool.resumed = [] ∧ (∀ t, s.pc t = .idle) ∧
    s.resumed = [] ∧ s.log = []

end PqSys

end RTThread.Vbus
