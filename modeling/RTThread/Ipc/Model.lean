import RTThread.Kernel.Scheduler

set_option autoImplicit false

/-! # Inter-process communication (`ipc.c`)

Semaphores, mutexes, events, mailboxes and message queues over the kernel. A function of `ipc.c` is
a sequence of sections that run with interrupts disabled; between two sections any other thread or
an interrupt handler may run. Each section is one definition. It returns the new state, what the
thread does next (`Pc`), and whether it calls `rt_schedule` before that; `none` stands for a failed
`RT_ASSERT` or for behaviour C does not define.
-/

namespace RTThread

/-- `RT_IPC_FLAG_FIFO` and `RT_IPC_FLAG_PRIO` -/
inductive Flag
  | fifo | prio
  deriving DecidableEq, Repr

/-- `struct rt_semaphore` -/
structure Sem where
  /-- of 16 bits -/
  value : Nat
  flag : Flag

/-- `struct rt_mutex` -/
structure Mutex where
  /-- of 16 bits -/
  value : Nat
  owner : Option ThreadId
  /-- of 8 bits -/
  originalPriority : Nat
  /-- of 8 bits -/
  hold : Nat
  flag : Flag

/-- `struct rt_event` -/
structure Event where
  set : BitVec 32
  flag : Flag

/-- `struct rt_mailbox`; the counters are of 16 bits. -/
structure Mailbox where
  msgPool : Nat → BitVec 32
  size : Nat
  entry : Nat
  inOffset : Nat
  outOffset : Nat
  flag : Flag

/-- `struct rt_messagequeue`, with the memory of its pool: a message block is its address, with
the word `next` at this address and the message behind it. `msgSize`, `maxMsgs` and `entry` are of
16 bits. -/
structure MsgQueue where
  msgPool : Nat
  msgSize : Nat
  maxMsgs : Nat
  entry : Nat
  head : Option Nat
  tail : Option Nat
  free : Option Nat
  next : Nat → Option Nat
  bytes : Nat → BitVec 8
  flag : Flag

/-- The kernel with its IPC objects. -/
structure Ipc where
  kernel : Kernel
  sem : Nat → Sem
  mutex : Nat → Mutex
  event : Nat → Event
  mb : Nat → Mailbox
  mq : Nat → MsgQueue

namespace Ipc

open Kernel

/-! ## Calls -/

/-- A call, with its arguments; a blocked call has its remaining time in the place of `timeout`. -/
inductive Call
  | semTake (i : Nat) (time : Int)
  | semRelease (i : Nat)
  | semReset (i : Nat) (value : Nat)
  | mutexTake (i : Nat) (time : Int)
  | mutexRelease (i : Nat)
  | eventSend (i : Nat) (set : BitVec 32)
  | eventRecv (i : Nat) (set : BitVec 32) (option : BitVec 8) (timeout : Int)
  | eventReset (i : Nat)
  | mbSend (i : Nat) (value : BitVec 32) (timeout : Int)
  | mbRecv (i : Nat) (timeout : Int)
  | mbReset (i : Nat)
  | mqSend (i : Nat) (buffer : List (BitVec 8)) (timeout : Int)
  | mqUrgent (i : Nat) (buffer : List (BitVec 8))
  | mqRecv (i : Nat) (size : Nat) (timeout : Int)
  | mqReset (i : Nat)
  deriving DecidableEq

/-- The object of a call. -/
def Call.obj : Call → Obj
  | semTake i _ | semRelease i | semReset i _ => .sem i
  | mutexTake i _ | mutexRelease i => .mutex i
  | eventSend i _ | eventRecv i _ _ _ | eventReset i => .event i
  | mbSend i _ _ | mbRecv i _ | mbReset i => .mb i
  | mqSend i _ _ | mqUrgent i _ | mqRecv i _ _ | mqReset i => .mq i

/-- The list a blocked call waits in. -/
def Call.waitsOn : Call → Option ListHead
  | semTake i _ => some (.suspend (.sem i))
  | mutexTake i _ => some (.suspend (.mutex i))
  | eventRecv i _ _ _ => some (.suspend (.event i))
  | mbSend i _ _ => some (.suspendSender (.mb i))
  | mbRecv i _ => some (.suspend (.mb i))
  | mqSend i _ _ => some (.suspendSender (.mq i))
  | mqRecv i _ _ => some (.suspend (.mq i))
  | _ => none

/-- What a call stores through its pointer argument. -/
inductive Reply
  | none
  | event (set : BitVec 32)
  | mail (value : BitVec 32)
  | msg (bytes : List (BitVec 8))
  deriving DecidableEq

/-- Where a thread is between two sections. -/
inductive Pc
  /-- in no call -/
  | idle
  /-- after the `rt_schedule` of a call that had to wait -/
  | wait (c : Call)
  /-- before the copy of a message into or out of its block -/
  | copy (c : Call) (msg : Nat)
  /-- after the copy, before the last section -/
  | copied (c : Call) (msg : Nat) (r : Reply)
  /-- about to return -/
  | ret (c : Call) (e : Err) (r : Reply)
  deriving DecidableEq

/-- The result of a section. -/
structure Section where
  ipc : Ipc
  pc : Pc
  sched : Bool

variable [RtConfig]

/-! ## Wait lists -/

/-- The loop of `rt_ipc_list_suspend` for `RT_IPC_FLAG_PRIO`. -/
def prioInsert (k : Kernel) (t : ThreadId) : List ThreadId → List ThreadId
  | [] => [t]
  | u :: l =>
    if (k.thread t).currentPriority < (k.thread u).currentPriority then t :: u :: l
    else u :: prioInsert k t l

def rtIpcListSuspend (k : Kernel) (h : ListHead) (t : ThreadId) (flag : Flag) : Option Kernel := do
  let (_, k) ← k.rtThreadSuspend t
  match flag with
  | .fifo => some (k.rtListInsertBefore h t)
  | .prio => some { k with lists := Function.update k.lists h (prioInsert k t (k.lists h)) }

def rtIpcListResume (k : Kernel) (h : ListHead) : Option Kernel :=
  match k.lists h with
  | t :: _ => some (k.rtThreadResume t).2
  | [] => none

/-- The loop of `rt_ipc_list_resume_all`, for at most `n` threads. -/
def resumeAll (h : ListHead) : Nat → Kernel → Kernel
  | 0, k => k
  | n + 1, k =>
    match k.lists h with
    | t :: _ => resumeAll h n ((k.setError t .error).rtThreadResume t).2
    | [] => k

/-- Each round takes the first thread out of the list, so its length is enough. -/
def rtIpcListResumeAll (k : Kernel) (h : ListHead) : Kernel := resumeAll h (k.lists h).length k

/-- Suspend the thread in a wait list; start its timer when there is a waiting time. -/
def block (k : Kernel) (h : ListHead) (t : ThreadId) (flag : Flag) (time : Int) :
    Option Kernel := do
  let k ← rtIpcListSuspend k h t flag
  some (if 0 < time then k.setTimer t true else k)

/-- The time left after `delta` ticks: `timeout` is a signed and `tick_delta` an unsigned word. -/
def remaining (timeout : Int) (delta : Nat) : Int :=
  if 0 < timeout then max 0 ((timeout - delta).bmod (2 ^ 32)) else timeout

def setSem (s : Ipc) (i : Nat) (x : Sem) : Ipc := { s with sem := Function.update s.sem i x }

def setMutex (s : Ipc) (i : Nat) (x : Mutex) : Ipc :=
  { s with mutex := Function.update s.mutex i x }

def setEvent (s : Ipc) (i : Nat) (x : Event) : Ipc :=
  { s with event := Function.update s.event i x }

def setMb (s : Ipc) (i : Nat) (x : Mailbox) : Ipc := { s with mb := Function.update s.mb i x }

def setMq (s : Ipc) (i : Nat) (x : MsgQueue) : Ipc := { s with mq := Function.update s.mq i x }

def setKernel (s : Ipc) (k : Kernel) : Ipc := { s with kernel := k }

/-! ## Semaphores -/

def rtSemTake (s : Ipc) (t : ThreadId) (i : Nat) (time : Int) : Option Section :=
  let sem := s.sem i
  if 0 < sem.value then
    some ⟨s.setSem i { sem with value := sem.value - 1 }, .ret (.semTake i time) .ok .none, false⟩
  else if time = 0 then some ⟨s, .ret (.semTake i time) .etimeout .none, false⟩
  else do
    let k ← block (s.kernel.setError t .ok) (.suspend (.sem i)) t sem.flag time
    some ⟨s.setKernel k, .wait (.semTake i time), true⟩

/-- `rt_sem_take` after its `rt_schedule`. -/
def rtSemTakeResumed (s : Ipc) (t : ThreadId) (i : Nat) (time : Int) : Option Section :=
  some ⟨s, .ret (.semTake i time) (s.kernel.thread t).error .none, false⟩

def rtSemRelease (s : Ipc) (i : Nat) : Option Section :=
  let sem := s.sem i
  if s.kernel.lists (.suspend (.sem i)) ≠ [] then do
    let k ← rtIpcListResume s.kernel (.suspend (.sem i))
    some ⟨s.setKernel k, .ret (.semRelease i) .ok .none, true⟩
  else
    some ⟨s.setSem i { sem with value := (sem.value + 1) % 2 ^ 16 },
      .ret (.semRelease i) .ok .none, false⟩

/-- `rt_sem_control` with `RT_IPC_CMD_RESET`. -/
def rtSemReset (s : Ipc) (i : Nat) (value : Nat) : Option Section :=
  let k := rtIpcListResumeAll s.kernel (.suspend (.sem i))
  some ⟨(s.setKernel k).setSem i { s.sem i with value := value % 2 ^ 16 },
    .ret (.semReset i value) .ok .none, true⟩

/-! ## Mutexes -/

/-- `rt_mutex_take` from its label `__again`. -/
def rtMutexTakeAgain (s : Ipc) (t : ThreadId) (i : Nat) (time : Int) : Option Section :=
  let mutex := s.mutex i
  if 0 < mutex.value then
    some ⟨s.setMutex i { mutex with
        value := mutex.value - 1
        owner := some t
        originalPriority := (s.kernel.thread t).currentPriority
        hold := (mutex.hold + 1) % 2 ^ 8 }, .ret (.mutexTake i time) .ok .none, false⟩
  else if time = 0 then
    some ⟨s.setKernel (s.kernel.setError t .etimeout),
      .ret (.mutexTake i time) .etimeout .none, false⟩
  else do
    let owner ← mutex.owner
    let priority := (s.kernel.thread t).currentPriority
    -- change the owner thread priority of mutex
    let k := if priority < (s.kernel.thread owner).currentPriority
      then s.kernel.rtThreadControl owner priority else s.kernel
    let k ← block k (.suspend (.mutex i)) t mutex.flag time
    some ⟨s.setKernel k, .wait (.mutexTake i time), true⟩

def rtMutexTake (s : Ipc) (t : ThreadId) (i : Nat) (time : Int) : Option Section :=
  let s := s.setKernel (s.kernel.setError t .ok)
  let mutex := s.mutex i
  if mutex.owner = some t then
    some ⟨s.setMutex i { mutex with hold := (mutex.hold + 1) % 2 ^ 8 },
      .ret (.mutexTake i time) .ok .none, false⟩
  else s.rtMutexTakeAgain t i time

/-- `rt_mutex_take` after its `rt_schedule`. -/
def rtMutexTakeResumed (s : Ipc) (t : ThreadId) (i : Nat) (time : Int) : Option Section :=
  if (s.kernel.thread t).error = .eintr then s.rtMutexTakeAgain t i time
  else some ⟨s, .ret (.mutexTake i time) (s.kernel.thread t).error .none, false⟩

def rtMutexRelease (s : Ipc) (t : ThreadId) (i : Nat) : Option Section :=
  let mutex := s.mutex i
  if mutex.owner ≠ some t then
    some ⟨s.setKernel (s.kernel.setError t .error), .ret (.mutexRelease i) .error .none, false⟩
  else
    let hold := (mutex.hold + 255) % 2 ^ 8
    if hold = 0 then
      -- change the owner thread to original priority
      let k := if mutex.originalPriority ≠ (s.kernel.thread t).currentPriority
        then s.kernel.rtThreadControl t mutex.originalPriority else s.kernel
      match k.lists (.suspend (.mutex i)) with
      | u :: _ => do
        let k' ← rtIpcListResume k (.suspend (.mutex i))
        some ⟨(s.setKernel k').setMutex i { mutex with
            owner := some u
            originalPriority := (k.thread u).currentPriority
            hold := (hold + 1) % 2 ^ 8 }, .ret (.mutexRelease i) .ok .none, true⟩
      | [] =>
        some ⟨(s.setKernel k).setMutex i { mutex with
            value := (mutex.value + 1) % 2 ^ 16
            owner := none
            originalPriority := 0xff
            hold := hold }, .ret (.mutexRelease i) .ok .none, false⟩
    else
      some ⟨s.setMutex i { mutex with hold := hold }, .ret (.mutexRelease i) .ok .none, false⟩

/-! ## Events -/

def RT_EVENT_FLAG_AND : BitVec 8 := 0x01#8
def RT_EVENT_FLAG_OR : BitVec 8 := 0x02#8
def RT_EVENT_FLAG_CLEAR : BitVec 8 := 0x04#8

/-- Does a waiting thread receive from the set? The events that it receives. -/
def eventMatch (th : Thread) (set : BitVec 32) : Option (BitVec 32) :=
  if th.eventInfo &&& RT_EVENT_FLAG_AND ≠ 0 then
    if th.eventSet &&& set = th.eventSet then some th.eventSet else none
  else if th.eventInfo &&& RT_EVENT_FLAG_OR ≠ 0 then
    if th.eventSet &&& set ≠ 0 then some (th.eventSet &&& set) else none
  else none

/-- The loop of `rt_event_send`: the kernel, the event set, and whether a thread was resumed. -/
def eventSendLoop : List ThreadId → Kernel → BitVec 32 → Bool → Kernel × BitVec 32 × Bool
  | [], k, set, needSchedule => (k, set, needSchedule)
  | t :: l, k, set, needSchedule =>
    match eventMatch (k.thread t) set with
    | some eventSet =>
      let set := if (k.thread t).eventInfo &&& RT_EVENT_FLAG_CLEAR ≠ 0 then set &&& ~~~eventSet
        else set
      let k := k.modify t fun th => { th with eventSet := eventSet }
      eventSendLoop l (k.rtThreadResume t).2 set true
    | none => eventSendLoop l k set needSchedule

def rtEventSend (s : Ipc) (i : Nat) (set : BitVec 32) : Option Section :=
  if set = 0 then some ⟨s, .ret (.eventSend i set) .error .none, false⟩
  else
    let event := s.event i
    let (k, left, needSchedule) :=
      eventSendLoop (s.kernel.lists (.suspend (.event i))) s.kernel (event.set ||| set) false
    some ⟨(s.setKernel k).setEvent i { event with set := left },
      .ret (.eventSend i set) .ok .none, needSchedule⟩

/-- The test of `rt_event_recv`: is the event received at once? -/
def eventReady (set wanted : BitVec 32) (option : BitVec 8) : Prop :=
  if option &&& RT_EVENT_FLAG_AND ≠ 0 then set &&& wanted = wanted else set &&& wanted ≠ 0

instance (set wanted : BitVec 32) (option : BitVec 8) :
    Decidable (eventReady set wanted option) := by
  unfold eventReady
  infer_instance

def rtEventRecv (s : Ipc) (t : ThreadId) (i : Nat) (set : BitVec 32) (option : BitVec 8)
    (timeout : Int) : Option Section :=
  if set = 0 then some ⟨s, .ret (.eventRecv i set option timeout) .error .none, false⟩
  else
    let s := s.setKernel (s.kernel.setError t .ok)
    let event := s.event i
    -- either RT_EVENT_FLAG_AND or RT_EVENT_FLAG_OR should be set
    if option &&& RT_EVENT_FLAG_AND = 0 ∧ option &&& RT_EVENT_FLAG_OR = 0 then none
    else if eventReady event.set set option then
      let left := if option &&& RT_EVENT_FLAG_CLEAR ≠ 0 then event.set &&& ~~~set else event.set
      some ⟨s.setEvent i { event with set := left },
        .ret (.eventRecv i set option timeout) .ok (.event (event.set &&& set)), false⟩
    else if timeout = 0 then
      some ⟨s.setKernel (s.kernel.setError t .etimeout),
        .ret (.eventRecv i set option timeout) .etimeout .none, false⟩
    else do
      let k := s.kernel.modify t fun th => { th with eventSet := set, eventInfo := option }
      let k ← block k (.suspend (.event i)) t event.flag timeout
      some ⟨s.setKernel k, .wait (.eventRecv i set option timeout), true⟩

/-- `rt_event_recv` after its `rt_schedule`. -/
def rtEventRecvResumed (s : Ipc) (t : ThreadId) (i : Nat) (set : BitVec 32) (option : BitVec 8)
    (timeout : Int) : Option Section :=
  let th := s.kernel.thread t
  some ⟨s, .ret (.eventRecv i set option timeout) th.error
    (if th.error = .ok then .event th.eventSet else .none), false⟩

/-- `rt_event_control` with `RT_IPC_CMD_RESET`. -/
def rtEventReset (s : Ipc) (i : Nat) : Option Section :=
  let k := rtIpcListResumeAll s.kernel (.suspend (.event i))
  some ⟨(s.setKernel k).setEvent i { s.event i with set := 0 }, .ret (.eventReset i) .ok .none, true⟩

/-! ## Mailboxes -/

/-- `++ offset; if (offset >= size) offset = 0;` -/
def nextOffset (offset size : Nat) : Nat :=
  let offset := (offset + 1) % 2 ^ 16
  if size ≤ offset then 0 else offset

/-- The end of a section that may have made a waiting thread runnable: resume the first thread of
the list, if there is one, and schedule. -/
def resumeFirst (s : Ipc) (h : ListHead) (pc : Pc) : Option Section :=
  if s.kernel.lists h ≠ [] then do
    let k ← rtIpcListResume s.kernel h
    some ⟨s.setKernel k, pc, true⟩
  else some ⟨s, pc, false⟩

/-- The loop of `rt_mb_send_wait`, from the test of its condition. -/
def mbSendLoop (s : Ipc) (t : ThreadId) (i : Nat) (value : BitVec 32) (timeout : Int) :
    Option Section :=
  let mb := s.mb i
  if mb.entry = mb.size then
    let s := s.setKernel (s.kernel.setError t .ok)
    if timeout = 0 then some ⟨s, .ret (.mbSend i value timeout) .efull .none, false⟩
    else do
      let k ← block s.kernel (.suspendSender (.mb i)) t mb.flag timeout
      some ⟨s.setKernel k, .wait (.mbSend i value timeout), true⟩
  else
    (s.setMb i { mb with
      msgPool := Function.update mb.msgPool mb.inOffset value
      inOffset := nextOffset mb.inOffset mb.size
      entry := (mb.entry + 1) % 2 ^ 16 }).resumeFirst (.suspend (.mb i))
        (.ret (.mbSend i value timeout) .ok .none)

def rtMbSendWait (s : Ipc) (t : ThreadId) (i : Nat) (value : BitVec 32) (timeout : Int) :
    Option Section :=
  -- for non-blocking call
  if (s.mb i).entry = (s.mb i).size ∧ timeout = 0 then
    some ⟨s, .ret (.mbSend i value timeout) .efull .none, false⟩
  else s.mbSendLoop t i value timeout

/-- `rt_mb_send_wait` after its `rt_schedule`. -/
def rtMbSendWaitResumed (s : Ipc) (t : ThreadId) (i : Nat) (value : BitVec 32) (timeout : Int)
    (delta : Nat) : Option Section :=
  if (s.kernel.thread t).error ≠ .ok then
    some ⟨s, .ret (.mbSend i value timeout) (s.kernel.thread t).error .none, false⟩
  else s.mbSendLoop t i value (remaining timeout delta)

/-- The loop of `rt_mb_recv`, from the test of its condition. -/
def mbRecvLoop (s : Ipc) (t : ThreadId) (i : Nat) (timeout : Int) : Option Section :=
  let mb := s.mb i
  if mb.entry = 0 then
    let s := s.setKernel (s.kernel.setError t .ok)
    if timeout = 0 then
      some ⟨s.setKernel (s.kernel.setError t .etimeout), .ret (.mbRecv i timeout) .etimeout .none,
        false⟩
    else do
      let k ← block s.kernel (.suspend (.mb i)) t mb.flag timeout
      some ⟨s.setKernel k, .wait (.mbRecv i timeout), true⟩
  else
    (s.setMb i { mb with
      outOffset := nextOffset mb.outOffset mb.size
      entry := mb.entry - 1 }).resumeFirst (.suspendSender (.mb i))
        (.ret (.mbRecv i timeout) .ok (.mail (mb.msgPool mb.outOffset)))

def rtMbRecv (s : Ipc) (t : ThreadId) (i : Nat) (timeout : Int) : Option Section :=
  -- for non-blocking call
  if (s.mb i).entry = 0 ∧ timeout = 0 then
    some ⟨s, .ret (.mbRecv i timeout) .etimeout .none, false⟩
  else s.mbRecvLoop t i timeout

/-- `rt_mb_recv` after its `rt_schedule`. -/
def rtMbRecvResumed (s : Ipc) (t : ThreadId) (i : Nat) (timeout : Int) (delta : Nat) :
    Option Section :=
  if (s.kernel.thread t).error ≠ .ok then
    some ⟨s, .ret (.mbRecv i timeout) (s.kernel.thread t).error .none, false⟩
  else s.mbRecvLoop t i (remaining timeout delta)

/-- `rt_mb_control` with `RT_IPC_CMD_RESET`. -/
def rtMbReset (s : Ipc) (i : Nat) : Option Section :=
  let k := rtIpcListResumeAll s.kernel (.suspend (.mb i))
  let k := rtIpcListResumeAll k (.suspendSender (.mb i))
  some ⟨(s.setKernel k).setMb i { s.mb i with entry := 0, inOffset := 0, outOffset := 0 },
    .ret (.mbReset i) .ok .none, true⟩

/-! ## Message queues -/

/-- `sizeof(struct rt_mq_message)` -/
def mqHeader : Nat := 4

/-- `RT_ALIGN(size, RT_ALIGN_SIZE)`, of a `rt_size_t` assigned to 16 bits. -/
def mqAlign (size : Nat) : Nat := (size + 3) % 2 ^ 32 / 4 * 4 % 2 ^ 16

/-- The message blocks of a pool with nothing in the queue: the loop links each block in front of
the free list. -/
def mqLinkFree (q : MsgQueue) : Nat → MsgQueue
  | 0 => q
  | temp + 1 =>
    let q := mqLinkFree q temp
    let head := q.msgPool + temp * (q.msgSize + mqHeader)
    { q with next := Function.update q.next head q.free, free := some head }

/-- The initialisation that `rt_mq_init` and `rt_mq_create` share. -/
def mqBuild (q : MsgQueue) (msgpool msgSize maxMsgs : Nat) (flag : Flag) : MsgQueue :=
  mqLinkFree { q with
    msgPool := msgpool
    msgSize := msgSize
    maxMsgs := maxMsgs
    entry := 0
    head := none
    tail := none
    free := none
    flag := flag } maxMsgs

def rtMqInit (q : MsgQueue) (msgpool msgSize poolSize : Nat) (flag : Flag) : MsgQueue :=
  mqBuild q msgpool (mqAlign msgSize) (poolSize / (mqAlign msgSize + mqHeader) % 2 ^ 16) flag

/-- `rt_mq_create`, with the pool it has allocated. -/
def rtMqCreate (q : MsgQueue) (msgpool msgSize maxMsgs : Nat) (flag : Flag) : MsgQueue :=
  mqBuild q msgpool (mqAlign msgSize) (maxMsgs % 2 ^ 16) flag

/-- `rt_memcpy(msg + 1, buffer, size)` -/
def mqWrite (bytes : Nat → BitVec 8) (msg : Nat) (buffer : List (BitVec 8)) : Nat → BitVec 8 :=
  fun a => if msg + mqHeader ≤ a then buffer.getD (a - (msg + mqHeader)) (bytes a) else bytes a

/-- `rt_memcpy(buffer, msg + 1, size)` -/
def mqRead (bytes : Nat → BitVec 8) (msg : Nat) (size : Nat) : List (BitVec 8) :=
  (List.range size).map fun j => bytes (msg + mqHeader + j)

/-- The loop of `rt_mq_send_wait`, from the test of its condition. -/
def mqSendLoop (s : Ipc) (t : ThreadId) (i : Nat) (buffer : List (BitVec 8)) (timeout : Int) :
    Option Section :=
  let mq := s.mq i
  match mq.free with
  | none =>
    let s := s.setKernel (s.kernel.setError t .ok)
    if timeout = 0 then some ⟨s, .ret (.mqSend i buffer timeout) .efull .none, false⟩
    else do
      let k ← block s.kernel (.suspendSender (.mq i)) t mq.flag timeout
      some ⟨s.setKernel k, .wait (.mqSend i buffer timeout), true⟩
  | some msg =>
    some ⟨s.setMq i { mq with free := mq.next msg }, .copy (.mqSend i buffer timeout) msg, false⟩

def rtMqSendWait (s : Ipc) (t : ThreadId) (i : Nat) (buffer : List (BitVec 8)) (timeout : Int) :
    Option Section :=
  if buffer = [] then none
  -- greater than one message size
  else if (s.mq i).msgSize < buffer.length then
    some ⟨s, .ret (.mqSend i buffer timeout) .error .none, false⟩
  else if (s.mq i).free = none ∧ timeout = 0 then
    some ⟨s, .ret (.mqSend i buffer timeout) .efull .none, false⟩
  else s.mqSendLoop t i buffer timeout

/-- `rt_mq_send_wait` after its `rt_schedule`. -/
def rtMqSendWaitResumed (s : Ipc) (t : ThreadId) (i : Nat) (buffer : List (BitVec 8))
    (timeout : Int) (delta : Nat) : Option Section :=
  if (s.kernel.thread t).error ≠ .ok then
    some ⟨s, .ret (.mqSend i buffer timeout) (s.kernel.thread t).error .none, false⟩
  else s.mqSendLoop t i buffer (remaining timeout delta)

/-- The last section of `rt_mq_send_wait`: link the message at the end. -/
def mqSendLink (s : Ipc) (i : Nat) (buffer : List (BitVec 8)) (timeout : Int) (msg : Nat) :
    Option Section :=
  let mq := s.mq i
  (s.setMq i { mq with
    next := match mq.tail with
      | some tail => Function.update mq.next tail (some msg)
      | none => mq.next
    tail := some msg
    head := if mq.head = none then some msg else mq.head
    entry := (mq.entry + 1) % 2 ^ 16 }).resumeFirst (.suspend (.mq i))
      (.ret (.mqSend i buffer timeout) .ok .none)

def rtMqUrgent (s : Ipc) (i : Nat) (buffer : List (BitVec 8)) : Option Section :=
  let mq := s.mq i
  if buffer = [] then none
  else if mq.msgSize < buffer.length then
    some ⟨s, .ret (.mqUrgent i buffer) .error .none, false⟩
  else match mq.free with
    | none => some ⟨s, .ret (.mqUrgent i buffer) .efull .none, false⟩
    | some msg =>
      some ⟨s.setMq i { mq with free := mq.next msg }, .copy (.mqUrgent i buffer) msg, false⟩

/-- The last section of `rt_mq_urgent`: link the message at the beginning. -/
def mqUrgentLink (s : Ipc) (i : Nat) (buffer : List (BitVec 8)) (msg : Nat) : Option Section :=
  let mq := s.mq i
  (s.setMq i { mq with
    next := Function.update mq.next msg mq.head
    head := some msg
    tail := if mq.tail = none then some msg else mq.tail
    entry := (mq.entry + 1) % 2 ^ 16 }).resumeFirst (.suspend (.mq i))
      (.ret (.mqUrgent i buffer) .ok .none)

/-- The loop of `rt_mq_recv`, from the test of its condition. -/
def mqRecvLoop (s : Ipc) (t : ThreadId) (i : Nat) (size : Nat) (timeout : Int) : Option Section :=
  let mq := s.mq i
  if mq.entry = 0 then
    let s := s.setKernel (s.kernel.setError t .ok)
    if timeout = 0 then
      some ⟨s.setKernel (s.kernel.setError t .etimeout),
        .ret (.mqRecv i size timeout) .etimeout .none, false⟩
    else do
      let k ← block s.kernel (.suspend (.mq i)) t mq.flag timeout
      some ⟨s.setKernel k, .wait (.mqRecv i size timeout), true⟩
  else do
    let msg ← mq.head
    some ⟨s.setMq i { mq with
      head := mq.next msg
      tail := if mq.tail = some msg then none else mq.tail
      entry := mq.entry - 1 }, .copy (.mqRecv i size timeout) msg, false⟩

def rtMqRecv (s : Ipc) (t : ThreadId) (i : Nat) (size : Nat) (timeout : Int) : Option Section :=
  if size = 0 then none
  -- for non-blocking call
  else if (s.mq i).entry = 0 ∧ timeout = 0 then
    some ⟨s, .ret (.mqRecv i size timeout) .etimeout .none, false⟩
  else s.mqRecvLoop t i size timeout

/-- `rt_mq_recv` after its `rt_schedule`. -/
def rtMqRecvResumed (s : Ipc) (t : ThreadId) (i : Nat) (size : Nat) (timeout : Int)
    (delta : Nat) : Option Section :=
  if (s.kernel.thread t).error ≠ .ok then
    some ⟨s, .ret (.mqRecv i size timeout) (s.kernel.thread t).error .none, false⟩
  else s.mqRecvLoop t i size (remaining timeout delta)

/-- The last section of `rt_mq_recv`: put the block to the free list. -/
def mqRecvFree (s : Ipc) (i : Nat) (size : Nat) (timeout : Int) (msg : Nat) (r : Reply) :
    Option Section :=
  let mq := s.mq i
  (s.setMq i { mq with
    next := Function.update mq.next msg mq.free
    free := some msg }).resumeFirst (.suspendSender (.mq i))
      (.ret (.mqRecv i size timeout) .ok r)

/-- The loop of `rt_mq_control` over the queue, for at most `n` messages. -/
def mqDrain : Nat → MsgQueue → MsgQueue
  | 0, q => q
  | n + 1, q =>
    match q.head with
    | some msg => mqDrain n { q with
        head := q.next msg
        tail := if q.tail = some msg then none else q.tail
        next := Function.update q.next msg q.free
        free := some msg }
    | none => q

/-- `rt_mq_control` with `RT_IPC_CMD_RESET`. A queue has at most `maxMsgs` messages. -/
def rtMqReset (s : Ipc) (i : Nat) : Option Section :=
  let k := rtIpcListResumeAll s.kernel (.suspend (.mq i))
  let k := rtIpcListResumeAll k (.suspendSender (.mq i))
  some ⟨(s.setKernel k).setMq i { mqDrain (s.mq i).maxMsgs (s.mq i) with entry := 0 },
    .ret (.mqReset i) .ok .none, true⟩

/-! ## The sections of a call -/

/-- The first section. -/
def call (s : Ipc) (t : ThreadId) : Call → Option Section
  | .semTake i time => s.rtSemTake t i time
  | .semRelease i => s.rtSemRelease i
  | .semReset i value => s.rtSemReset i value
  | .mutexTake i time => s.rtMutexTake t i time
  | .mutexRelease i => s.rtMutexRelease t i
  | .eventSend i set => s.rtEventSend i set
  | .eventRecv i set option timeout => s.rtEventRecv t i set option timeout
  | .eventReset i => s.rtEventReset i
  | .mbSend i value timeout => s.rtMbSendWait t i value timeout
  | .mbRecv i timeout => s.rtMbRecv t i timeout
  | .mbReset i => s.rtMbReset i
  | .mqSend i buffer timeout => s.rtMqSendWait t i buffer timeout
  | .mqUrgent i buffer => s.rtMqUrgent i buffer
  | .mqRecv i size timeout => s.rtMqRecv t i size timeout
  | .mqReset i => s.rtMqReset i

/-- The section after the `rt_schedule` of a call that had to wait; `delta` ticks have passed. -/
def resumed (s : Ipc) (t : ThreadId) (delta : Nat) : Call → Option Section
  | .semTake i time => s.rtSemTakeResumed t i time
  | .mutexTake i time => s.rtMutexTakeResumed t i time
  | .eventRecv i set option timeout => s.rtEventRecvResumed t i set option timeout
  | .mbSend i value timeout => s.rtMbSendWaitResumed t i value timeout delta
  | .mbRecv i timeout => s.rtMbRecvResumed t i timeout delta
  | .mqSend i buffer timeout => s.rtMqSendWaitResumed t i buffer timeout delta
  | .mqRecv i size timeout => s.rtMqRecvResumed t i size timeout delta
  | _ => none

/-- The copy between the two sections of a message queue call, with interrupts enabled. -/
def copy (s : Ipc) (msg : Nat) : Call → Option Section
  | .mqSend i buffer timeout =>
    let mq := s.mq i
    some ⟨s.setMq i { mq with
        next := Function.update mq.next msg none
        bytes := mqWrite mq.bytes msg buffer },
      .copied (.mqSend i buffer timeout) msg .none, false⟩
  | .mqUrgent i buffer =>
    let mq := s.mq i
    some ⟨s.setMq i { mq with bytes := mqWrite mq.bytes msg buffer },
      .copied (.mqUrgent i buffer) msg .none, false⟩
  | .mqRecv i size timeout =>
    let mq := s.mq i
    some ⟨s, .copied (.mqRecv i size timeout) msg
      (.msg (mqRead mq.bytes msg (if mq.msgSize < size then mq.msgSize else size))), false⟩
  | _ => none

/-- The section after the copy. -/
def finish (s : Ipc) (msg : Nat) (r : Reply) : Call → Option Section
  | .mqSend i buffer timeout => s.mqSendLink i buffer timeout msg
  | .mqUrgent i buffer => s.mqUrgentLink i buffer msg
  | .mqRecv i size timeout => s.mqRecvFree i size timeout msg r
  | _ => none

end Ipc

end RTThread
