import RTThread.Lib.Bitmap

set_option autoImplicit false

/-! # Threads and the scheduler (`thread.c`, `scheduler.c`)

The scheduler of one processor. A thread has one list node, `tlist`, and is linked through it into
at most one list: a ready list, the wait list of an IPC object, or the list of defunct threads.
The kernel state keeps, for each list head, the threads linked behind it in order; `Kernel/List.lean`
shows that the pointer operations of `rt_list_t` act on these lists as the functions below do.

A function returns `none` where the code stops or leaves what C defines: a failed `RT_ASSERT`, a
use of the current thread before the scheduler has started, or a list entry of an empty list.
Every function runs with interrupts disabled.
-/

namespace RTThread

/-- The configuration of the kernel. -/
class RtConfig where
  /-- `RT_THREAD_PRIORITY_MAX` -/
  priorityMax : Nat
  pos : 0 < priorityMax
  le : priorityMax ≤ 256

/-- Error codes (`rt_err_t`). -/
inductive Err
  | ok | error | etimeout | efull | eintr
  deriving DecidableEq, Repr

abbrev ThreadId := Nat

namespace Kernel

/-- `thread->stat & RT_THREAD_STAT_MASK` -/
inductive Stat
  | init | ready | suspend | running | close
  deriving DecidableEq, Repr

/-- The fields of `struct rt_thread` the kernel functions use. `yield` is the flag
`RT_THREAD_STAT_YIELD` of `stat`, `timer` says that `thread_timer` is running, and `static` and
`cleanup` say that the thread is a system object and that it has a cleanup function. -/
structure Thread where
  stat : Stat
  yield : Bool
  currentPriority : Nat
  initPriority : Nat
  number : Nat
  numberMask : BitVec 32
  highMask : BitVec 8
  error : Err
  timer : Bool
  eventSet : BitVec 32
  eventInfo : BitVec 8
  static : Bool
  cleanup : Bool

/-- The IPC objects, by kind. -/
inductive Obj
  | sem (i : Nat) | mutex (i : Nat) | event (i : Nat) | mb (i : Nat) | mq (i : Nat)
  deriving DecidableEq, Repr

/-- The list heads a thread can be linked behind. -/
inductive ListHead
  /-- `rt_thread_priority_table[p]` -/
  | ready (p : Nat)
  /-- `rt_thread_defunct` -/
  | defunct
  /-- `obj->parent.suspend_thread` -/
  | suspend (obj : Obj)
  /-- `obj->suspend_sender_thread` -/
  | suspendSender (obj : Obj)
  deriving DecidableEq, Repr

end Kernel

open Kernel

/-- The global state of the kernel. -/
structure Kernel where
  thread : ThreadId → Thread
  lists : ListHead → List ThreadId
  /-- `rt_thread_ready_priority_group` -/
  group : BitVec 32
  /-- `rt_thread_ready_table`, of 32 bytes -/
  table : Nat → BitVec 8
  /-- `rt_current_thread` -/
  current : Option ThreadId
  /-- `rt_scheduler_lock_nest` -/
  lockNest : Nat

namespace Kernel

/-! ## Threads and lists -/

/-- Change the fields of a thread. -/
def modify (k : Kernel) (t : ThreadId) (f : Thread → Thread) : Kernel :=
  { k with thread := Function.update k.thread t (f (k.thread t)) }

/-- `thread->stat = s | (thread->stat & ~RT_THREAD_STAT_MASK)` -/
def setStat (k : Kernel) (t : ThreadId) (s : Stat) : Kernel :=
  k.modify t fun th => { th with stat := s }

/-- `thread->stat = s` -/
def resetStat (k : Kernel) (t : ThreadId) (s : Stat) : Kernel :=
  k.modify t fun th => { th with stat := s, yield := false }

def setError (k : Kernel) (t : ThreadId) (e : Err) : Kernel :=
  k.modify t fun th => { th with error := e }

def setYield (k : Kernel) (t : ThreadId) (b : Bool) : Kernel :=
  k.modify t fun th => { th with yield := b }

/-- `rt_current_thread = thread` -/
def setCurrent (k : Kernel) (t : ThreadId) : Kernel := { k with current := some t }

/-- `rt_timer_start` and `rt_timer_stop` of the thread's timer. -/
def setTimer (k : Kernel) (t : ThreadId) (b : Bool) : Kernel :=
  k.modify t fun th => { th with timer := b }

/-- `rt_list_remove(&(thread->tlist))` -/
def rtListRemove (k : Kernel) (t : ThreadId) : Kernel :=
  { k with lists := fun h => (k.lists h).erase t }

/-- `rt_list_insert_before(head, &(thread->tlist))` -/
def rtListInsertBefore (k : Kernel) (h : ListHead) (t : ThreadId) : Kernel :=
  { k with lists := Function.update k.lists h (k.lists h ++ [t]) }

/-- `rt_list_insert_after(head, &(thread->tlist))` -/
def rtListInsertAfter (k : Kernel) (h : ListHead) (t : ThreadId) : Kernel :=
  { k with lists := Function.update k.lists h (t :: k.lists h) }

section

variable {k : Kernel} {t u : ThreadId} {h : ListHead}

@[simp] theorem modify_self (f : Thread → Thread) : (k.modify t f).thread t = f (k.thread t) :=
  Function.update_self ..

theorem modify_of_ne (f : Thread → Thread) (hu : u ≠ t) : (k.modify t f).thread u = k.thread u :=
  Function.update_of_ne hu ..

@[simp] theorem setError_self {e : Err} :
    (k.setError t e).thread t = { k.thread t with error := e } :=
  modify_self _

theorem setError_of_ne {e : Err} (hu : u ≠ t) : (k.setError t e).thread u = k.thread u :=
  modify_of_ne _ hu

@[simp] theorem modify_lists (f : Thread → Thread) : (k.modify t f).lists = k.lists := rfl
@[simp] theorem modify_current (f : Thread → Thread) : (k.modify t f).current = k.current := rfl
@[simp] theorem modify_lockNest (f : Thread → Thread) : (k.modify t f).lockNest = k.lockNest := rfl
@[simp] theorem modify_group (f : Thread → Thread) : (k.modify t f).group = k.group := rfl
@[simp] theorem modify_table (f : Thread → Thread) : (k.modify t f).table = k.table := rfl

@[simp] theorem setCurrent_thread : (k.setCurrent t).thread = k.thread := rfl
@[simp] theorem setCurrent_lists : (k.setCurrent t).lists = k.lists := rfl
@[simp] theorem setCurrent_current : (k.setCurrent t).current = some t := rfl
@[simp] theorem setCurrent_lockNest : (k.setCurrent t).lockNest = k.lockNest := rfl

@[simp] theorem rtListRemove_lists : (k.rtListRemove t).lists h = (k.lists h).erase t := rfl
@[simp] theorem rtListRemove_thread : (k.rtListRemove t).thread = k.thread := rfl
@[simp] theorem rtListRemove_current : (k.rtListRemove t).current = k.current := rfl

/-- The state of a thread that is inserted: the current thread runs on. -/
def insertedStat (k : Kernel) (t : ThreadId) : Stat :=
  if k.current = some t then .running else .ready

end

variable [RtConfig]

/-- The priority attributes: two levels for more than 32 priorities. -/
def setPriority (th : Thread) (p : Nat) : Thread :=
  if 32 < RtConfig.priorityMax then
    { th with
      currentPriority := p
      number := p >>> 3
      numberMask := 1#32 <<< (p >>> 3)
      highMask := 1#8 <<< (p &&& 7) }
  else { th with currentPriority := p, numberMask := 1#32 <<< p }

/-! ## `scheduler.c` -/

/-- `_get_highest_priority_thread`: the thread and its priority. -/
def getHighestPriorityThread (k : Kernel) : Option (ThreadId × Nat) :=
  let highestReadyPriority :=
    if 32 < RtConfig.priorityMax then
      let number := Bitmap.ffs k.group - 1
      (number <<< 3) + Bitmap.ffs (k.table number) - 1
    else Bitmap.ffs k.group - 1
  match k.lists (.ready highestReadyPriority) with
  | t :: _ => some (t, highestReadyPriority)
  | [] => none

/-- Set the priority mask of a thread. -/
def setReadyBit (k : Kernel) (th : Thread) : Kernel :=
  let k :=
    if 32 < RtConfig.priorityMax then
      { k with table := Function.update k.table th.number (k.table th.number ||| th.highMask) }
    else k
  { k with group := k.group ||| th.numberMask }

/-- Clear the priority mask of a thread, in two levels for more than 32 priorities. -/
def clearReadyBit (k : Kernel) (th : Thread) : Kernel :=
  if 32 < RtConfig.priorityMax then
    let k := { k with
      table := Function.update k.table th.number (k.table th.number &&& ~~~th.highMask) }
    if k.table th.number = 0 then { k with group := k.group &&& ~~~th.numberMask } else k
  else { k with group := k.group &&& ~~~th.numberMask }

def rtScheduleInsertThread (k : Kernel) (t : ThreadId) : Kernel :=
  -- it's current thread, it should be RUNNING thread
  if k.current = some t then k.setStat t .running
  else
    let k := k.setStat t .ready
    let k := k.rtListInsertBefore (.ready (k.thread t).currentPriority) t
    k.setReadyBit (k.thread t)

def rtScheduleRemoveThread (k : Kernel) (t : ThreadId) : Kernel :=
  let k := k.rtListRemove t
  if k.lists (.ready (k.thread t).currentPriority) = [] then k.clearReadyBit (k.thread t) else k

/-- The part of `rt_schedule` that switches from one thread to another. -/
def switchTo (k : Kernel) (fromThread toThread : ThreadId) (needInsertFromThread : Bool) : Kernel :=
  let k := k.setCurrent toThread
  let k := if needInsertFromThread then k.rtScheduleInsertThread fromThread else k
  (k.rtScheduleRemoveThread toThread).setStat toThread .running

/-- The decision of `rt_schedule`: does the current thread, which is running, stay? -/
def staysCurrent (th : Thread) (highestReadyPriority : Nat) : Prop :=
  th.currentPriority < highestReadyPriority ∨
    th.currentPriority = highestReadyPriority ∧ th.yield = false

instance (th : Thread) (p : Nat) : Decidable (staysCurrent th p) := instDecidableOr

def rtSchedule (k : Kernel) : Option Kernel :=
  if k.lockNest = 0 then
    if k.group ≠ 0 then do
      let (toThread, highestReadyPriority) ← k.getHighestPriorityThread
      let cur ← k.current
      let (toThread, k, needInsertFromThread) :=
        if (k.thread cur).stat = .running then
          if staysCurrent (k.thread cur) highestReadyPriority then (cur, k, false)
          else (toThread, k.setYield cur false, true)
        else (toThread, k, false)
      if toThread ≠ cur then some (k.switchTo cur toThread needInsertFromThread)
      else some ((k.rtScheduleRemoveThread cur).setStat cur .running)
    else some k
  else some k

/-- `rt_tick_increase` at the end of the time slice of the current thread; `rt_thread_yield` is
`rt_schedule`. -/
def rtTickIncrease (k : Kernel) : Option Kernel := do
  let t ← k.current
  (k.setYield t true).rtSchedule

/-- `rt_system_scheduler_start` -/
def rtSystemSchedulerStart (k : Kernel) : Option Kernel := do
  let (toThread, _) ← k.getHighestPriorityThread
  let k := k.setCurrent toThread
  some ((k.rtScheduleRemoveThread toThread).resetStat toThread .running)

/-- `rt_system_scheduler_init` -/
def rtSystemSchedulerInit (k : Kernel) : Kernel :=
  { k with
    lists := fun
      | .ready _ | .defunct => []
      | h => k.lists h
    group := 0
    table := fun _ => 0
    lockNest := 0 }

/-! ## `thread.c` -/

/-- `_rt_thread_init`, of a thread object with the fields `th`. -/
def rtThreadInit (th : Thread) (priority : Nat) : Option Thread :=
  if priority < RtConfig.priorityMax then
    some { th with
      stat := .init
      yield := false
      currentPriority := priority
      initPriority := priority
      number := 0
      numberMask := 0
      highMask := 0
      error := .ok
      timer := false
      cleanup := false }
  else none

/-- `rt_thread_suspend`. The second assertion: only the current thread suspends itself while it
is running. -/
def rtThreadSuspend (k : Kernel) (t : ThreadId) : Option (Err × Kernel) :=
  let stat := (k.thread t).stat
  if stat ≠ .ready ∧ stat ≠ .running then some (.error, k)
  else if stat = .running ∧ k.current ≠ some t then none
  else some (.ok, ((k.rtScheduleRemoveThread t).setStat t .suspend).setTimer t false)

def rtThreadResume (k : Kernel) (t : ThreadId) : Err × Kernel :=
  if (k.thread t).stat ≠ .suspend then (.error, k)
  else (.ok, ((k.rtListRemove t).setTimer t false).rtScheduleInsertThread t)

/-- `rt_thread_timeout` up to the schedule. The timer has expired, so it is not running. -/
def threadTimeout (k : Kernel) (t : ThreadId) : Option Kernel :=
  if (k.thread t).stat = .suspend then
    some ((((k.setTimer t false).setError t .etimeout).rtListRemove t).rtScheduleInsertThread t)
  else none

def rtThreadTimeout (k : Kernel) (t : ThreadId) : Option Kernel :=
  (k.threadTimeout t).bind rtSchedule

/-- `rt_thread_control` with the command `RT_THREAD_CTRL_CHANGE_PRIORITY`. -/
def rtThreadControl (k : Kernel) (t : ThreadId) (priority : Nat) : Kernel :=
  if (k.thread t).stat = .ready then
    ((k.rtScheduleRemoveThread t).modify t (setPriority · priority)).rtScheduleInsertThread t
  else k.modify t (setPriority · priority)

def rtThreadStartup (k : Kernel) (t : ThreadId) : Option Kernel :=
  if (k.thread t).stat = .init then
    let k := k.modify t fun th => setPriority th th.initPriority
    let k := (k.resetStat t .suspend).rtThreadResume t
    if k.2.current = none then some k.2 else k.2.rtSchedule
  else none

/-- The end of `rt_thread_exit`, `rt_thread_detach` and `rt_thread_delete`: a static thread without
a cleanup function is detached at once, any other waits in the list of defunct threads. -/
def closeThread (k : Kernel) (t : ThreadId) (detached : Bool) : Kernel :=
  let k := (k.setTimer t false).resetStat t .close
  if detached then k else k.rtListInsertAfter .defunct t

def rtThreadExit (k : Kernel) : Option Kernel := do
  let t ← k.current
  let detached := (k.thread t).static && !(k.thread t).cleanup
  ((k.rtScheduleRemoveThread t).closeThread t detached).rtSchedule

def rtThreadDetach (k : Kernel) (t : ThreadId) : Option Kernel :=
  if (k.thread t).static then
    let detached := (k.thread t).static && !(k.thread t).cleanup
    let k := if (k.thread t).stat ≠ .init then k.rtScheduleRemoveThread t else k
    some (k.closeThread t detached)
  else none

def rtThreadDelete (k : Kernel) (t : ThreadId) : Option Kernel :=
  if (k.thread t).static then none
  else
    let k := if (k.thread t).stat ≠ .init then k.rtScheduleRemoveThread t else k
    some (k.closeThread t false)

/-! ## What the functions leave alone

For each function: the fields of the thread it is about, the other threads, and the lists. -/

section Frame

variable {k : Kernel} {t u : ThreadId} {h : ListHead}

@[simp] theorem setPriority_currentPriority (th : Thread) (p : Nat) :
    (setPriority th p).currentPriority = p := by
  unfold setPriority
  split <;> rfl

@[simp] theorem setPriority_stat (th : Thread) (p : Nat) : (setPriority th p).stat = th.stat := by
  unfold setPriority
  split <;> rfl

@[simp] theorem setPriority_initPriority (th : Thread) (p : Nat) :
    (setPriority th p).initPriority = th.initPriority := by
  unfold setPriority
  split <;> rfl

@[simp] theorem setPriority_error (th : Thread) (p : Nat) :
    (setPriority th p).error = th.error := by
  unfold setPriority
  split <;> rfl

@[simp] theorem setPriority_timer (th : Thread) (p : Nat) :
    (setPriority th p).timer = th.timer := by
  unfold setPriority
  split <;> rfl

@[simp] theorem setReadyBit_thread (th : Thread) : (k.setReadyBit th).thread = k.thread := by
  unfold setReadyBit
  split <;> rfl

@[simp] theorem setReadyBit_lists (th : Thread) : (k.setReadyBit th).lists = k.lists := by
  unfold setReadyBit
  split <;> rfl

@[simp] theorem setReadyBit_current (th : Thread) : (k.setReadyBit th).current = k.current := by
  unfold setReadyBit
  split <;> rfl

@[simp] theorem setReadyBit_lockNest (th : Thread) : (k.setReadyBit th).lockNest = k.lockNest := by
  unfold setReadyBit
  split <;> rfl

@[simp] theorem clearReadyBit_thread (th : Thread) : (k.clearReadyBit th).thread = k.thread := by
  unfold clearReadyBit
  dsimp only
  split_ifs <;> rfl

@[simp] theorem clearReadyBit_lists (th : Thread) : (k.clearReadyBit th).lists = k.lists := by
  unfold clearReadyBit
  dsimp only
  split_ifs <;> rfl

@[simp] theorem clearReadyBit_current (th : Thread) :
    (k.clearReadyBit th).current = k.current := by
  unfold clearReadyBit
  dsimp only
  split_ifs <;> rfl

@[simp] theorem clearReadyBit_lockNest (th : Thread) :
    (k.clearReadyBit th).lockNest = k.lockNest := by
  unfold clearReadyBit
  dsimp only
  split_ifs <;> rfl

theorem rtScheduleInsertThread_thread :
    (k.rtScheduleInsertThread t).thread = (k.setStat t (insertedStat k t)).thread := by
  unfold rtScheduleInsertThread insertedStat
  split
  · rfl
  · rw [setReadyBit_thread]
    rfl

@[simp] theorem rtScheduleInsertThread_current :
    (k.rtScheduleInsertThread t).current = k.current := by
  unfold rtScheduleInsertThread
  split
  · rfl
  · rw [setReadyBit_current]
    rfl

@[simp] theorem rtScheduleInsertThread_lockNest :
    (k.rtScheduleInsertThread t).lockNest = k.lockNest := by
  unfold rtScheduleInsertThread
  split
  · rfl
  · rw [setReadyBit_lockNest]
    rfl

theorem rtScheduleInsertThread_lists :
    (k.rtScheduleInsertThread t).lists = if k.current = some t then k.lists else
      Function.update k.lists (.ready (k.thread t).currentPriority)
        (k.lists (.ready (k.thread t).currentPriority) ++ [t]) := by
  unfold rtScheduleInsertThread
  split
  · rfl
  · rw [setReadyBit_lists]
    simp [setStat, rtListInsertBefore]

@[simp] theorem rtScheduleRemoveThread_thread : (k.rtScheduleRemoveThread t).thread = k.thread := by
  unfold rtScheduleRemoveThread
  dsimp only
  split_ifs <;> simp

@[simp] theorem rtScheduleRemoveThread_current :
    (k.rtScheduleRemoveThread t).current = k.current := by
  unfold rtScheduleRemoveThread
  dsimp only
  split_ifs <;> simp

@[simp] theorem rtScheduleRemoveThread_lockNest :
    (k.rtScheduleRemoveThread t).lockNest = k.lockNest := by
  unfold rtScheduleRemoveThread
  dsimp only
  split_ifs
  · rw [clearReadyBit_lockNest]
    rfl
  · rfl

@[simp] theorem rtScheduleRemoveThread_lists :
    (k.rtScheduleRemoveThread t).lists h = (k.lists h).erase t := by
  unfold rtScheduleRemoveThread
  dsimp only
  split_ifs <;> simp

end Frame

end Kernel

end RTThread
