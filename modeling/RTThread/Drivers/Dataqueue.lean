import RTThread.Lib.Run
import RTThread.Kernel.Model

set_option autoImplicit false

/-! # The data queue (`dataqueue.c`)

A queue of pairs of a pointer and a size. The two indices are halfwords that only go up; the code
compares them as signed integers. A call is a sequence of sections that run with interrupts disabled,
as in `Ipc/Model.lean`: the first one, and one after each `rt_schedule` of a call that had to wait.
Whether a waiting thread is woken by a call, by its timer or by other code makes a difference in
`thread->error` only. The notification of events is left out.
-/

namespace RTThread.Drivers

/-- `struct rt_data_item`. -/
structure DataItem where
  dataPtr : Nat
  dataSize : Nat
  deriving DecidableEq, Repr

/-- `struct rt_data_queue`. -/
structure DataQueue where
  size : Nat
  lwm : Nat
  getIndex : Nat
  putIndex : Nat
  queue : Nat → DataItem
  suspendedPushList : List ThreadId
  suspendedPopList : List ThreadId

/-- Arithmetic of halfwords. -/
def u16 (x : Nat) : Nat := x % 65536

/-- The memory of the items is not initialised. -/
def rtDataQueueInit (size lwm : Nat) (mem : Nat → DataItem) : DataQueue :=
  { size, lwm, getIndex := 0, putIndex := 0, queue := mem, suspendedPushList := []
    suspendedPopList := [] }

/-- A call that a thread can make. -/
inductive DqCall
  | push (item : DataItem) (timeout : Int)
  | pop (timeout : Int)
  | peak
  deriving DecidableEq

/-- Where a thread is between two sections: in no call, behind `rt_schedule` in the loop of a call,
or at its return. -/
inductive DqPc
  | idle
  | wait (c : DqCall)
  | pushed (e : Err)
  /-- with what is stored at `data_ptr` and `size` -/
  | popped (e : Err) (item : Option DataItem)
  /-- `none` for `-RT_EEMPTY` -/
  | peaked (item : Option DataItem)
  deriving DecidableEq

/-- The result of a section. -/
structure DqSection where
  queue : DataQueue
  pc : DqPc
  /-- is the error code of the thread reset? -/
  reset : Bool

/-- `rt_data_queue_push` from the test of its loop. -/
def rtDataQueuePush (q : DataQueue) (t : ThreadId) (item : DataItem) (timeout : Int) : DqSection :=
  if (q.putIndex : Int) - q.getIndex = q.size then
    -- queue is full
    if timeout = 0 then ⟨q, .pushed .etimeout, false⟩
    else
      ⟨{ q with suspendedPushList := q.suspendedPushList ++ [t] }, .wait (.push item timeout), true⟩
  else
    -- the first thread of the pop list is resumed
    ⟨{ q with
        queue := Function.update q.queue (q.putIndex % q.size) item
        putIndex := u16 (q.putIndex + 1)
        suspendedPopList := q.suspendedPopList.tail }, .pushed .ok, false⟩

/-- `rt_data_queue_pop` from the test of its loop. -/
def rtDataQueuePop (q : DataQueue) (t : ThreadId) (timeout : Int) : DqSection :=
  if q.getIndex = q.putIndex then
    -- queue is empty
    if timeout = 0 then ⟨q, .popped .etimeout none, false⟩
    else ⟨{ q with suspendedPopList := q.suspendedPopList ++ [t] }, .wait (.pop timeout), true⟩
  else
    let item := q.queue (q.getIndex % q.size)
    let q := { q with getIndex := u16 (q.getIndex + 1) }
    if (q.putIndex : Int) - q.getIndex ≤ q.lwm then
      -- the first thread of the push list is resumed
      ⟨{ q with suspendedPushList := q.suspendedPushList.tail }, .popped .ok (some item), false⟩
    else ⟨q, .popped .ok (some item), false⟩

def rtDataQueuePeak (q : DataQueue) : DqSection :=
  if q.getIndex = q.putIndex then ⟨q, .peaked none, false⟩
  else ⟨q, .peaked (some (q.queue (q.getIndex % q.size))), false⟩

/-- The sections of a call that begin at the test of its loop. -/
def DqCall.section (q : DataQueue) (t : ThreadId) : DqCall → DqSection
  | .push item timeout => rtDataQueuePush q t item timeout
  | .pop timeout => rtDataQueuePop q t timeout
  | .peak => rtDataQueuePeak q

/-- The return of a waiting call with an error. -/
def DqCall.fail (e : Err) : DqCall → DqPc
  | .push _ _ => .pushed e
  | .pop _ => .popped e none
  | .peak => .peaked none

/-! ## Threads -/

/-- The queue and its threads, with the items of the calls that returned `RT_EOK`, in the order of
their last sections. -/
structure DqSys where
  queue : DataQueue
  error : ThreadId → Err
  pc : ThreadId → DqPc
  pushed : List DataItem
  popped : List DataItem

/-- An interrupt handler that calls is a thread of its own, which never waits. -/
inductive DqAction
  | call (t : ThreadId) (c : DqCall)
  /-- the thread was woken and runs again -/
  | resumed (t : ThreadId)
  /-- the call returns -/
  | ret (t : ThreadId)
  /-- the timer of a waiting thread, or other code, wakes it -/
  | wake (t : ThreadId) (e : Err)

namespace DqSys

/-- A thread that waits. -/
def Waits (s : DqSys) (t : ThreadId) : Prop :=
  t ∈ s.queue.suspendedPushList ∨ t ∈ s.queue.suspendedPopList

instance (s : DqSys) (t : ThreadId) : Decidable (s.Waits t) := inferInstanceAs (Decidable (_ ∨ _))

/-- The state after a section of a thread. -/
def after (s : DqSys) (t : ThreadId) (x : DqSection) : DqSys :=
  { queue := x.queue
    error := if x.reset then Function.update s.error t .ok else s.error
    pc := Function.update s.pc t x.pc
    pushed := s.pushed
    popped := s.popped }

/-- The items a call with this item moved, if it returns `RT_EOK`. -/
def log (s : DqSys) (c : DqCall) : DqPc → DqSys
  | .pushed .ok =>
      match c with
      | .push item _ => { s with pushed := s.pushed ++ [item] }
      | _ => s
  | .popped .ok (some item) => { s with popped := s.popped ++ [item] }
  | _ => s

/-- A section of a call that begins at the test of its loop. -/
def run (s : DqSys) (t : ThreadId) (c : DqCall) : DqSys :=
  (s.after t (c.section s.queue t)).log c (c.section s.queue t).pc

def exec (s : DqSys) : DqAction → Option DqSys
  | .call t c =>
      match s.pc t with
      | .idle => some (s.run t c)
      | _ => none
  | .resumed t =>
      match s.pc t with
      | .wait c =>
          if s.Waits t then none
          else if s.error t ≠ .ok then
            some { s with pc := Function.update s.pc t (c.fail (s.error t)) }
          else some (s.run t c)
      | _ => none
  | .ret t =>
      match s.pc t with
      | .idle => none
      | .wait _ => none
      | _ => some { s with pc := Function.update s.pc t .idle }
  | .wake t e =>
      if s.Waits t then
        some { s with
          queue := { s.queue with
            suspendedPushList := s.queue.suspendedPushList.erase t
            suspendedPopList := s.queue.suspendedPopList.erase t }
          error := Function.update s.error t e }
      else none

/-- A new queue; nobody has called. -/
def Init (s : DqSys) : Prop :=
  (∃ size lwm mem, 1 ≤ size ∧ size ≤ 65535 ∧ s.queue = rtDataQueueInit size lwm mem) ∧
    (∀ t, s.pc t = .idle) ∧ s.pushed = [] ∧ s.popped = []

end DqSys

end RTThread.Drivers
