import RTThread.Drivers.RingbufferFifo

set_option autoImplicit false

/-! # Pipes (`pipe.c`) and wait queues (`waitqueue.c`)

A pipe has a ring buffer, which lives from the first open to the last close, counts its readers and writers
in bytes, and has a wait queue for each of the two. Any number of threads read, write, open and close.

What a thread does with the mutex of the pipe is one step, except `pipe_fops_close`, whose wake-ups are
steps of their own while it holds the mutex; what it does without the mutex, the tests at the start of
`pipe_fops_read` and `pipe_fops_write` and the two functions of a wait queue, are steps too. A read that got
bytes wakes a writer up before it releases the mutex; that belongs to its step, since nothing else looks at
the buffer in between.
-/

namespace RTThread.Pipes

open Drivers

abbrev TId := Nat

/-- `flags & O_ACCMODE`. -/
inductive AccMode
  | rdonly | wronly | rdwr | other
  deriving DecidableEq, Repr

/-- The threads that read, and those that write. -/
inductive Side
  | reader | writer
  deriving DecidableEq, Repr

def Side.opposite : Side → Side
  | .reader => .writer
  | .writer => .reader

/-- `rt_wqueue_t`. -/
structure WQueue where
  /-- `flag` is `RT_WQ_FLAG_WAKEUP`. -/
  flag : Bool
  waitingList : List TId

/-- `struct rt_pipe_device`, without its mutex. The counters are bytes. -/
structure Pipe where
  isNamed : Bool
  fifo : Option Ringbuffer
  bufsz : UInt16
  readers : Nat
  writers : Nat
  refCount : Nat
  /-- `reader_queue` and `writer_queue`. -/
  queue : Side → WQueue

/-- A halfword. -/
def u16 (x : Nat) : Nat := x % 65536

/-- A byte that is incremented. -/
def inc (x : Nat) : Nat := (x + 1) % 256

/-- A byte that is decremented. -/
def dec (x : Nat) : Nat := (x + 255) % 256

/-- `rt_ringbuffer_create`, with the memory that `rt_malloc` gives, if it gives some. There is no result
where an assertion fails. The size becomes a signed halfword for `rt_ringbuffer_init`. -/
def rtRingbufferCreate (size : UInt16) (pool : Option (Nat → Byte)) : Option (Option Ringbuffer) :=
  if size.toNat > 0 then
    let size := Memheap.rtAlignDown size.toNat
    match pool with
    | none => some none
    | some pool =>
        (rtRingbufferInit pool (if size < 32768 then size else (size : Int) - 65536)).map some
  else none

/-- What `pipe_fops_read` and `pipe_fops_write` return: a number of bytes, `-EAGAIN` or `-EPIPE`. -/
inductive Ret
  | bytes (n : Nat)
  | again
  | pipe
  deriving DecidableEq, Repr

/-- A call in its loop. A write keeps what is left of its buffer, `count - ret` bytes. -/
inductive Op
  | read (count : Nat) (nonblock : Bool)
  | write (pbuf : List Byte) (ret : Nat) (nonblock wakeup : Bool)
  deriving DecidableEq

def Op.side : Op → Side
  | .read .. => .reader
  | .write .. => .writer

/-! ## Passes of the loops, with the mutex -/

/-- How a pass of the loop of `pipe_fops_read` ends. -/
inductive ReadPass
  /-- No writer: end of file. -/
  | out
  | got (len : Nat) (bytes : List Byte) (fifo : Ringbuffer)
  | again
  /-- The buffer is empty: the mutex is released, and the reader waits. -/
  | empty

/-- There is no result where an assertion fails. -/
def readPass (p : Pipe) (count : Nat) (nonblock : Bool) : Option ReadPass :=
  if p.writers = 0 then some .out
  else
    match p.fifo with
    | none => none
    | some rb =>
        let x := rtRingbufferGet rb (u16 count)
        if x.1 > 0 then some (.got x.1 x.2.1 x.2.2)
        else if nonblock then some .again
        else some .empty

/-- How a pass of the loop of `pipe_fops_write` ends: the loop is left with a result, and the readers are
woken up or not; or the mutex is released, and the writer waits. -/
inductive WritePass
  | out (ret : Ret) (wakeup : Bool)
  | put (len : Nat) (fifo : Ringbuffer) (out : Option Ret)

def writePass (p : Pipe) (pbuf : List Byte) (ret : Nat) (nonblock wakeup : Bool) : Option WritePass :=
  if p.readers = 0 then some (.out (if ret = 0 then .pipe else .bytes ret) wakeup)
  else
    match p.fifo with
    | none => none
    | some rb =>
        let length := u16 pbuf.length
        let x := rtRingbufferPut rb (pbuf.take length) length
        let out :=
          -- everything is written
          if x.1 = pbuf.length then some (.bytes (ret + x.1))
          else if nonblock then some (if ret + x.1 = 0 then .again else .bytes (ret + x.1))
          else none
        some (.put x.1 x.2 out)

/-! ## The system -/

/-- Where a call is in a round of its loop: in front of the mutex, of the wake-up of the other side and of
`rt_wqueue_wait`; suspended there, and resumed. -/
inductive Stage
  | take | wake | wait | sleep | woken
  deriving DecidableEq, Repr

/-- Where a thread is. -/
inductive Pc
  | idle
  | inside (stage : Stage) (op : Op)
  /-- In front of the wake-up of the readers behind the loop of `pipe_fops_write`. -/
  | written (ret : Ret)
  /-- In `pipe_fops_close`, with the wake-ups that are still to come. -/
  | closing (readers writers : Bool)
  /-- Behind the release of the mutex in `pipe_fops_close`. -/
  | closed
  deriving DecidableEq

/-- The bytes that went through one ring buffer. -/
structure Life where
  accepted : List Byte
  returned : List Byte

/-- The pipe, its mutex and its callers, and the history: the results of the calls, what went through each
ring buffer, the last one first, and for each end of file the number of open descriptors that can write,
and the bytes that were not read. -/
structure PipeSys where
  pipe : Pipe
  lock : Option TId
  pc : TId → Pc
  /-- `rt_pipe_delete` has freed the pipe. -/
  deleted : Bool
  /-- The open descriptors. -/
  fds : AccMode → Nat
  results : List (TId × Ret)
  lives : List Life
  eofs : List (Nat × List Byte)

inductive PipeAction
  /-- `pipe_fops_open`, with the memory for a ring buffer. -/
  | openFd (mode : AccMode) (pool : Option (Nat → Byte))
  /-- `pipe_fops_close` up to the tests of the counters. -/
  | closeFd (t : TId) (mode : AccMode)
  /-- The first test of `pipe_fops_read`. -/
  | read (t : TId) (count : Nat) (nonblock : Bool)
  /-- The first tests of `pipe_fops_write`. -/
  | write (t : TId) (buf : List Byte) (nonblock : Bool)
  /-- The next step of a call. -/
  | step (t : TId)

/-- A sleeping thread is resumed. -/
def Pc.resume : Pc → Pc
  | .inside .sleep op => .inside .woken op
  | pc => pc

namespace PipeSys

/-- The number of open descriptors that can read or write. -/
def users (s : PipeSys) : Side → Nat
  | .reader => s.fds .rdonly + s.fds .rdwr
  | .writer => s.fds .wronly + s.fds .rdwr

/-- The bytes in the ring buffer. -/
def unread (s : PipeSys) : List Byte :=
  match s.pipe.fifo with
  | none => []
  | some rb => rb.contents

def setPc (s : PipeSys) (t : TId) (pc : Pc) : PipeSys := { s with pc := Function.update s.pc t pc }

def setFifo (s : PipeSys) (fifo : Option Ringbuffer) : PipeSys :=
  { s with pipe := { s.pipe with fifo } }

def setQueue (s : PipeSys) (σ : Side) (q : WQueue) : PipeSys :=
  { s with pipe := { s.pipe with queue := Function.update s.pipe.queue σ q } }

/-- A call returns. -/
def finish (s : PipeSys) (t : TId) (ret : Ret) : PipeSys :=
  { s.setPc t .idle with results := (t, ret) :: s.results }

/-- A read returns 0. -/
def eof (s : PipeSys) (t : TId) : PipeSys :=
  { s.finish t (.bytes 0) with eofs := (s.users .writer, s.unread) :: s.eofs }

/-- Bytes go in. -/
def accept (s : PipeSys) (bytes : List Byte) : PipeSys :=
  { s with
    lives :=
      match s.lives with
      | [] => []
      | l :: ls => { l with accepted := l.accepted ++ bytes } :: ls }

/-- Bytes go out. -/
def deliver (s : PipeSys) (bytes : List Byte) : PipeSys :=
  { s with
    lives :=
      match s.lives with
      | [] => []
      | l :: ls => { l with returned := l.returned ++ bytes } :: ls }

/-- `rt_wqueue_wakeup`. -/
def rtWqueueWakeup (s : PipeSys) (σ : Side) : PipeSys :=
  match (s.pipe.queue σ).waitingList with
  | [] => s.setQueue σ ⟨true, []⟩
  | t :: ts => (s.setQueue σ ⟨true, ts⟩).setPc t (s.pc t).resume

/-- `rt_wqueue_wait` up to `rt_schedule`. -/
def rtWqueueWait (s : PipeSys) (t : TId) (op : Op) : PipeSys :=
  let q := s.pipe.queue op.side
  -- already wakeup
  if q.flag then (s.setQueue op.side { q with flag := false }).setPc t (.inside .take op)
  else
    (s.setQueue op.side { q with waitingList := q.waitingList ++ [t] }).setPc t (.inside .sleep op)

/-- `rt_wqueue_wait` after `rt_schedule`. -/
def rtWqueueWoken (s : PipeSys) (t : TId) (op : Op) : PipeSys :=
  (s.setQueue op.side { s.pipe.queue op.side with flag := false }).setPc t (.inside .take op)

/-- The counters behind `pipe->readers ++` and its like. -/
def count (f : Nat → Nat) (mode : AccMode) (p : Pipe) : Pipe :=
  match mode with
  | .rdonly => { p with readers := f p.readers }
  | .wronly => { p with writers := f p.writers }
  | .rdwr => { p with readers := f p.readers, writers := f p.writers }
  | .other => p

/-- `pipe_fops_open` behind the creation of the ring buffer. -/
def opened (s : PipeSys) (mode : AccMode) : PipeSys :=
  let p := count inc mode s.pipe
  { s with
    pipe := { p with refCount := inc p.refCount }
    fds := Function.update s.fds mode (s.fds mode + 1) }

def pipeFopsOpen (s : PipeSys) (mode : AccMode) (pool : Option (Nat → Byte)) : Option PipeSys :=
  if s.pipe.refCount = 0 then
    match rtRingbufferCreate s.pipe.bufsz pool with
    | none => none
    -- `-RT_ENOMEM`
    | some none => some (s.setFifo none)
    | some (some rb) => some ({ s.setFifo (some rb) with lives := ⟨[], []⟩ :: s.lives }.opened mode)
  else some (s.opened mode)

/-- `pipe_fops_close` up to the tests of the counters. -/
def pipeFopsClose (s : PipeSys) (t : TId) (mode : AccMode) : PipeSys :=
  let p := count dec mode s.pipe
  { s with
    pipe := p
    lock := some t
    pc := Function.update s.pc t (.closing (decide (p.writers = 0)) (decide (p.readers = 0)))
    fds := Function.update s.fds mode (s.fds mode - 1) }

/-- `pipe_fops_close` behind the wake-ups, up to the release of the mutex. -/
def closeEnd (s : PipeSys) (t : TId) : PipeSys :=
  let fifo := if s.pipe.refCount = 1 then none else s.pipe.fifo
  { s.setPc t .closed with
    pipe := { s.pipe with fifo, refCount := dec s.pipe.refCount }
    lock := none }

/-- A pass of a loop. -/
def pass (s : PipeSys) (t : TId) : Op → Option PipeSys
  | .read count nonblock =>
      (readPass s.pipe count nonblock).map fun
        | .out => s.eof t
        | .got len bytes rb =>
            (((s.setFifo (some rb)).deliver bytes).rtWqueueWakeup .writer).finish t (.bytes len)
        | .again => s.finish t .again
        | .empty => s.setPc t (.inside .wake (.read count nonblock))
  | .write pbuf ret nonblock wakeup =>
      (writePass s.pipe pbuf ret nonblock wakeup).map fun
        | .out r wakeup => if wakeup then s.setPc t (.written r) else s.finish t r
        | .put len rb out =>
            let s := (s.setFifo (some rb)).accept (pbuf.take len)
            match out with
            | some r => s.setPc t (.written r)
            | none =>
                s.setPc t (.inside .wake (.write (pbuf.drop len) (ret + len) nonblock true))

/-- The next step of a call. -/
def step (s : PipeSys) (t : TId) : Option PipeSys :=
  match s.pc t with
  | .idle => none
  | .inside .take op => if s.lock = none then s.pass t op else none
  | .inside .wake op => some ((s.rtWqueueWakeup op.side.opposite).setPc t (.inside .wait op))
  | .inside .wait op => some (s.rtWqueueWait t op)
  | .inside .sleep _ => none
  | .inside .woken op => some (s.rtWqueueWoken t op)
  | .written r => some ((s.rtWqueueWakeup .reader).finish t r)
  | .closing true w => some ((s.rtWqueueWakeup .reader).setPc t (.closing false w))
  | .closing false true => some ((s.rtWqueueWakeup .writer).setPc t (.closing false false))
  | .closing false false => some (s.closeEnd t)
  -- delete the unnamed pipe
  | .closed =>
      some { s.setPc t .idle with deleted := decide (s.pipe.refCount = 0 ∧ s.pipe.isNamed = false) }

def exec (s : PipeSys) (a : PipeAction) : Option PipeSys :=
  if s.deleted then none
  else
    match a with
    | .openFd mode pool => if s.lock = none then s.pipeFopsOpen mode pool else none
    | .closeFd t mode =>
        if s.lock = none ∧ s.pc t = .idle ∧ 0 < s.fds mode then some (s.pipeFopsClose t mode)
        else none
    | .read t count nonblock =>
        if s.pc t = .idle then
          if s.pipe.writers = 0 then some (s.eof t)
          else some (s.setPc t (.inside .take (.read count nonblock)))
        else none
    | .write t buf nonblock =>
        if s.pc t = .idle then
          if s.pipe.readers = 0 then some (s.finish t .pipe)
          else if buf = [] then some (s.finish t (.bytes 0))
          else some (s.setPc t (.inside .take (.write buf 0 nonblock false)))
        else none
    | .step t => s.step t

/-- `rt_pipe_create`. -/
def Init (s : PipeSys) : Prop :=
  s = ⟨⟨s.pipe.isNamed, none, s.pipe.bufsz, 0, 0, 0, fun _ => ⟨false, []⟩⟩, none, fun _ => .idle,
    false, fun _ => 0, [], [], []⟩

/-- A pipe that was just created. -/
def start (isNamed : Bool) (bufsz : UInt16) : PipeSys :=
  ⟨⟨isNamed, none, bufsz, 0, 0, 0, fun _ => ⟨false, []⟩⟩, none, fun _ => .idle, false, fun _ => 0, [],
    [], []⟩

theorem init_start {isNamed : Bool} {bufsz : UInt16} : (start isNamed bufsz).Init := rfl

end PipeSys

end RTThread.Pipes
