import RTThread.Ipc.Start

set_option autoImplicit false

/-! # Signals (`signal.c`)

A signal is made pending by `rt_thread_kill` and delivered by `_signal_deliver`, which resumes a
thread that waits. The handler runs in the thread itself, when it is next switched to or at once,
and leaves `-RT_EINTR` in its error field. A handler is code of the application; here it returns and
changes nothing.

The functions run in sections with interrupts disabled. `rt_thread_handle_sig` handles each signal
in a section of its own, since interrupts are enabled while a handler runs.
-/

namespace RTThread

/-- The signal fields of `struct rt_thread`. -/
structure SigThread where
  sigMask : BitVec 32
  sigPending : BitVec 32
  /-- the signal numbers of `si_list` -/
  siList : List Nat
  /-- `RT_THREAD_STAT_SIGNAL` of `stat` -/
  signal : Bool
  /-- `RT_THREAD_STAT_SIGNAL_PENDING` of `stat` -/
  signalPending : Bool
  /-- `RT_THREAD_STAT_SIGNAL_WAIT` of `stat` -/
  signalWait : Bool
  /-- `sig_ret` is set: the stack pointer is at a frame of `_signal_entry` -/
  sigRet : Bool

/-- `sig_mask(sig_no)` -/
def sigBit (sig : Nat) : BitVec 32 := 1#32 <<< sig

/-- `tid->sig_pending & tid->sig_mask` is not zero. -/
def SigThread.Wanted (x : SigThread) : Prop := x.sigPending &&& x.sigMask ≠ 0

instance (x : SigThread) : Decidable x.Wanted := instDecidableNot

/-- The system with its signals. -/
structure SigSys where
  sys : Ipc.Sys
  sig : ThreadId → SigThread
  /-- the free nodes of `_rt_siginfo_pool` -/
  siginfo : Nat

namespace SigSys

open Kernel Ipc

/-- `RT_SIG_MAX` -/
def RT_SIG_MAX : Nat := 32

def setSig (s : SigSys) (t : ThreadId) (x : SigThread) : SigSys :=
  { s with sig := Function.update s.sig t x }

def setKernel (s : SigSys) (k : Kernel) : SigSys := { s with sys := s.sys.setKernel k }

/-- `rt_thread_kill` up to the delivery: a signal that is pending already only has its information
updated. -/
def rtThreadKill (s : SigSys) (tid : ThreadId) (sig : Nat) : Option SigSys :=
  let x := s.sig tid
  if RT_SIG_MAX ≤ sig then none
  else if x.sigPending &&& sigBit sig ≠ 0 ∧ sig ∈ x.siList then some s
  else if 0 < s.siginfo then
    some { s.setSig tid { x with
      siList := x.siList ++ [sig]
      sigPending := x.sigPending ||| sigBit sig } with siginfo := s.siginfo - 1 }
  -- the allocation of the signal information has failed
  else some s

variable [RtConfig]

/-- `_signal_deliver` up to the schedule. -/
def signalDeliver (s : SigSys) (tid : ThreadId) : SigSys :=
  let x := s.sig tid
  let k := s.sys.ipc.kernel
  -- thread is not interested in pended signals
  if ¬ x.Wanted then s
  else if (k.thread tid).stat = .suspend then
    -- resume thread to handle signal
    (s.setKernel (k.rtThreadResume tid).2).setSig tid { x with signal := true, signalPending := true }
  else if k.current = some tid then s.setSig tid { x with signal := true }
  else if x.signal = false then
    -- point to the signal handle entry
    s.setSig tid { x with signal := true, signalPending := false, sigRet := true }
  else s

/-- One round of the loop of `rt_thread_handle_sig`. -/
def rtThreadHandleSig (s : SigSys) (tid : ThreadId) : Option SigSys :=
  let x := s.sig tid
  if x.Wanted ∧ x.signalWait = false then
    match x.siList with
    | signo :: l =>
      some { (s.setKernel (s.sys.ipc.kernel.setError tid .eintr)).setSig tid { x with
        siList := l
        sigPending := x.sigPending &&& ~~~sigBit signo } with siginfo := s.siginfo + 1 }
    | [] => none
  else none

/-- The end of `rt_thread_handle_sig` and of `_signal_entry`: back to the thread. -/
def signalReturn (s : SigSys) (tid : ThreadId) : SigSys :=
  s.setSig tid { s.sig tid with signal := false, signalPending := false, sigRet := false }

end SigSys

/-! ## Steps -/

/-- What happens next. -/
inductive SigAction
  | sys (a : Ipc.Action)
  /-- a thread or an interrupt handler calls `rt_thread_kill` -/
  | kill (t : ThreadId) (sig : Nat)
  | deliver (t : ThreadId)
  /-- the thread runs the handler of a signal -/
  | handle (t : ThreadId)
  /-- all its signals are handled -/
  | handled (t : ThreadId)

namespace SigSys

open Kernel Ipc

section

variable [RtConfig]

/-- A thread whose stack pointer is at a frame of `_signal_entry` does not go on yet. -/
def Free (s : SigSys) : Ipc.Action → Prop
  | .run t _ | .ret t => (s.sig t).sigRet = false
  | _ => True

instance (s : SigSys) (a : Ipc.Action) : Decidable (s.Free a) := by
  cases a <;> unfold Free <;> infer_instance

/-- A thread handles its signals when it runs and `RT_THREAD_STAT_SIGNAL` is set. If it was resumed
for them it may also go on without: `rt_schedule` looks at `RT_THREAD_STAT_SIGNAL_PENDING` only after
it has switched to another thread and back, and a thread that was resumed before its own
`rt_schedule` need not switch. -/
def exec (s : SigSys) : SigAction → Option SigSys
  | .sys a => if s.Free a then (s.sys.exec a).map fun q => { s with sys := q } else none
  | .kill t sig => s.rtThreadKill t sig
  | .deliver t => some (s.signalDeliver t)
  | .handle t =>
    if s.sys.Runs t ∧ (s.sig t).signal = true then s.rtThreadHandleSig t else none
  | .handled t =>
    if s.sys.Runs t ∧ (s.sig t).signal = true ∧ s.rtThreadHandleSig t = none then
      some (s.signalReturn t)
    else none

def Step (s : SigSys) (a : SigAction) (s' : SigSys) : Prop := s.exec a = some s'

/-- Threads whose handlers are installed and not masked, and no signal yet. -/
structure Init (s : SigSys) : Prop where
  sys : s.sys.Init
  mask : ∀ t, (s.sig t).sigMask = BitVec.allOnes 32
  pending : ∀ t, (s.sig t).sigPending = 0 ∧ (s.sig t).siList = []
  flags : ∀ t, (s.sig t).signal = false ∧ (s.sig t).signalPending = false ∧
    (s.sig t).signalWait = false ∧ (s.sig t).sigRet = false

/-- A system whose threads have installed handlers, with no signal yet. -/
def withHandlers (q : Sys) : SigSys :=
  ⟨q, fun _ => ⟨BitVec.allOnes 32, 0, [], false, false, false, false⟩, 10⟩

theorem withHandlers_init {q : Sys} (h : q.Init) : (withHandlers q).Init :=
  ⟨h, fun _ => rfl, fun _ => ⟨rfl, rfl⟩, fun _ => ⟨rfl, rfl, rfl, rfl⟩⟩

end

section

attribute [local instance] config32

/-- Threads 1, 2 and 3, the first with the highest priority, and semaphores that are empty. -/
def threeThreads : Option Sys :=
  startSys (fun t => 10 + t % 4) [1, 2, 3] (fun _ => ⟨0, .fifo⟩) fun _ => .fifo

theorem threeThreads_init {q : Sys} (h : threeThreads = some q) : q.Init := by
  refine startSys_init (fun t => ?_) (fun _ => by decide) h
  have hlt : t % 4 < 4 := Nat.mod_lt t (by decide)
  exact (Nat.add_lt_add_left hlt 10).trans (by decide)

end

end SigSys

end RTThread
