import RTThread.Drivers.CanRx

set_option autoImplicit false

/-! # The transmit mailboxes of a CAN device (`can.c`)

In normal mode a writer takes a mailbox from `freelist`, under a semaphore; in private mode it takes the one that
the message names, if the result word of this is `RT_CAN_SND_RESULT_OK`. `RT_CAN_CMD_SET_PRIV` changes the mode
and then looks at one mailbox after the other.
-/

namespace RTThread.Can

/-- The list nodes: the head of `freelist`, and one in each mailbox. -/
inductive TxLink
  | freelist
  | box (no : Nat)
  deriving DecidableEq

inductive SndResult
  | ok | err | wait
  deriving DecidableEq

/-- `struct rt_can_sndbxinx_list`, without its list node. -/
structure SndBox where
  result : SndResult
  /-- `completion.flag` -/
  flag : Bool
  /-- the thread in `completion.suspended_list` -/
  waiter : Option ThreadId
  /-- the controller has a message that `ops->sendmsg` has given to it -/
  inflight : Bool
  deriving DecidableEq

/-- The messages that a call of `rt_can_write` has still to send, and the number of those it has sent. -/
structure Job where
  msgs : List RtCanMsg
  sent : Nat
  deriving DecidableEq

def Job.next (j : Job) : Job := ⟨j.msgs.tail, j.sent + 1⟩

/-- Why a thread waits for the completion of a mailbox: for its own message, in one of the modes, or because the
mailbox is in use. -/
inductive Why
  | normal | priv | busy
  deriving DecidableEq

/-- Where a thread is between two steps. -/
inductive TxPc
  | idle
  /-- at the loop of `_can_int_tx` -/
  | loop (j : Job)
  /-- suspended in `rt_sem_take` -/
  | queued (j : Job)
  /-- behind `rt_sem_take` -/
  | taken (j : Job)
  /-- with a mailbox, before its result word is set -/
  | mark (j : Job) (no : Nat)
  /-- before `ops->sendmsg` -/
  | send (priv : Bool) (j : Job) (no : Nat)
  /-- behind a refused `ops->sendmsg`, in normal mode -/
  | refused (j : Job) (no : Nat)
  /-- before `rt_sem_release` behind that -/
  | again (j : Job)
  /-- before `rt_completion_wait` -/
  | wait (w : Why) (j : Job) (no : Nat)
  /-- suspended there -/
  | suspended (w : Why) (j : Job) (no : Nat)
  /-- resumed by `rt_completion_done` -/
  | woken (w : Why) (j : Job) (no : Nat)
  /-- behind `rt_completion_wait` -/
  | done (w : Why) (j : Job) (no : Nat)
  /-- before `rt_sem_release`, with the result of the transmission -/
  | release (j : Job) (result : SndResult)
  /-- at the loop of `_can_int_tx_priv` -/
  | privLoop (j : Job)
  /-- in `RT_CAN_CMD_SET_PRIV`, before `ops->control` -/
  | control (priv : Bool)
  /-- behind it -/
  | controlled
  /-- in the loop over the mailboxes, for this mode -/
  | switch (priv : Bool) (i : Nat)
  /-- at the return of a call that has sent `sent` messages -/
  | ret (sent : Nat)
  deriving DecidableEq

/-- The transmit side of a device, and its threads; `active` are the threads in a call. -/
structure TxSys where
  sndboxnumber : Nat
  privmode : Bool
  links : Links TxLink
  box : Nat → SndBox
  sem : Nat
  /-- the threads that are suspended on the semaphore -/
  semQueue : List ThreadId
  pc : ThreadId → TxPc
  active : List ThreadId

inductive TxAction
  /-- `rt_can_write` -/
  | write (t : ThreadId) (msgs : List RtCanMsg)
  /-- `RT_CAN_CMD_SET_PRIV` -/
  | setPriv (t : ThreadId) (priv : Bool)
  /-- the next step of a call; `ok` is the answer of `ops->sendmsg` or `ops->control` -/
  | step (t : ThreadId) (ok : Bool)
  /-- `RT_CAN_EVENT_TX_DONE`, or `RT_CAN_EVENT_TX_FAIL`, of a message in flight -/
  | event (no : Nat) (ok : Bool)

namespace TxSys

def setPc (s : TxSys) (t : ThreadId) (p : TxPc) : TxSys := { s with pc := Function.update s.pc t p }

def setBox (s : TxSys) (no : Nat) (b : SndBox) : TxSys := { s with box := Function.update s.box no b }

def setLinks (s : TxSys) (l : Links TxLink) : TxSys := { s with links := l }

/-- The call returns. -/
def leave (s : TxSys) (t : ThreadId) (j : Job) : TxSys := s.setPc t (.ret j.sent)

/-- A thread that was suspended in `rt_sem_take` goes on. -/
def resume : TxPc → TxPc
  | .queued j => .taken j
  | p => p

/-- `rt_sem_release`. -/
def semRelease (s : TxSys) : TxSys :=
  match s.semQueue with
  | [] => { s with sem := s.sem + 1 }
  | u :: q => { s with semQueue := q, pc := Function.update s.pc u (resume (s.pc u)) }

/-- `rt_sem_take`, with no timeout. -/
def semTake (s : TxSys) (t : ThreadId) (j : Job) : TxSys :=
  if 0 < s.sem then { s with sem := s.sem - 1 }.setPc t (.taken j)
  else { s with semQueue := s.semQueue ++ [t] }.setPc t (.queued j)

/-- `rt_completion_wait`, with no timeout: one thread can wait only. -/
def completionWait (s : TxSys) (t : ThreadId) (w : Why) (j : Job) (no : Nat) : Option TxSys :=
  if (s.box no).flag then some ((s.setBox no { s.box no with flag := false }).setPc t (.done w j no))
  else if (s.box no).waiter = none then
    some ((s.setBox no { s.box no with waiter := some t }).setPc t (.suspended w j no))
  else none

/-- A thread that was suspended in `rt_completion_wait` goes on. -/
def wake : TxPc → TxPc
  | .suspended w j no => .woken w j no
  | p => p

/-- `rt_completion_done`. -/
def completionDone (s : TxSys) (no : Nat) : TxSys :=
  if (s.box no).flag then s
  else
    match (s.box no).waiter with
    | none => s.setBox no { s.box no with flag := true }
    | some u => (s.setBox no { s.box no with flag := true, waiter := none }).setPc u (wake (s.pc u))

/-- Is the mailbox in `freelist`? -/
def listed (s : TxSys) (no : Nat) : Prop := s.links.next (.box no) ≠ .box no

instance (s : TxSys) (no : Nat) : Decidable (s.listed no) := inferInstanceAs (Decidable (_ ≠ _))

/-- The round of `RT_CAN_CMD_SET_PRIV` for a mailbox. -/
def switchBox (s : TxSys) (priv : Bool) (i : Nat) : TxSys :=
  if priv then
    if s.listed i then s.setLinks (s.links.remove (.box i)) else s.semRelease
  else if (s.box i).result = .ok then s.setLinks (s.links.insertBefore .freelist (.box i))
  else s

/-- The next step of a thread. -/
def step (s : TxSys) (t : ThreadId) (ok : Bool) : Option TxSys :=
  match s.pc t with
  | .idle => none
  | .loop j => if j.msgs = [] then some (s.leave t j) else some (s.semTake t j)
  | .queued _ => none
  | .taken j =>
      match s.links.next .freelist with
      | .box no => some ((s.setLinks (s.links.remove (.box no))).setPc t (.mark j no))
      | .freelist => none
  | .mark j no => some ((s.setBox no { s.box no with result := .wait }).setPc t (.send false j no))
  | .send priv j no =>
      if ok then
        some ((s.setBox no { s.box no with inflight := true }).setPc t
          (.wait (if priv then .priv else .normal) j no))
      else some (s.setPc t (if priv then .privLoop j else .refused j no))
  | .refused j no => some ((s.setLinks (s.links.insertAfter .freelist (.box no))).setPc t (.again j))
  | .again j => some (s.semRelease.setPc t (.loop j))
  | .wait w j no => s.completionWait t w j no
  | .suspended _ _ _ => none
  | .woken w j no => some ((s.setBox no { s.box no with flag := false }).setPc t (.done w j no))
  | .done .normal j no =>
      let links := if s.listed no then s.links.remove (.box no) else s.links
      some ((s.setLinks (links.insertBefore .freelist (.box no))).setPc t (.release j (s.box no).result))
  | .done .priv j no =>
      if (s.box no).result = .ok then some (s.setPc t (.privLoop j.next)) else some (s.leave t j)
  | .done .busy j _ => some (s.setPc t (.privLoop j))
  | .release j result =>
      if result = .ok then some (s.semRelease.setPc t (.loop j.next)) else some (s.semRelease.leave t j)
  | .privLoop j =>
      match j.msgs with
      | [] => some (s.leave t j)
      | msg :: _ =>
          if s.sndboxnumber ≤ msg.priv then some (s.leave t j)
          else if (s.box msg.priv).result ≠ .ok then some (s.setPc t (.wait .busy j msg.priv))
          else
            some ((s.setBox msg.priv { s.box msg.priv with result := .wait }).setPc t (.send true j msg.priv))
  | .control priv => if ok then some ({ s with privmode := priv }.setPc t .controlled) else some (s.setPc t (.ret 0))
  | .controlled => some (s.setPc t (.switch s.privmode 0))
  | .switch priv i =>
      if i < s.sndboxnumber then some ((s.switchBox priv i).setPc t (.switch priv (i + 1)))
      else some (s.setPc t (.ret 0))
  | .ret _ => some { s.setPc t .idle with active := s.active.erase t }

def exec (s : TxSys) : TxAction → Option TxSys
  | .write t msgs =>
      match s.pc t with
      | .idle =>
          let j : Job := ⟨msgs, 0⟩
          some { s.setPc t (if s.privmode then .privLoop j else .loop j) with active := t :: s.active }
      | _ => none
  | .setPriv t priv =>
      match s.pc t with
      | .idle =>
          some { s.setPc t (if priv ≠ s.privmode then .control priv else .ret 0) with active := t :: s.active }
      | _ => none
  | .step t ok => s.step t ok
  | .event no ok =>
      if (s.box no).inflight then
        some ((s.setBox no { s.box no with
          inflight := false, result := if ok then .ok else .err }).completionDone no)
      else none

/-- A device that was just opened, in normal mode. -/
def Init (s : TxSys) : Prop :=
  s = { sndboxnumber := s.sndboxnumber
        privmode := false
        links := (List.range s.sndboxnumber).foldl (fun m i => m.insertBefore .freelist (.box i))
          (Links.alone TxLink)
        box := fun _ => ⟨.ok, false, none, false⟩
        sem := s.sndboxnumber
        semQueue := []
        pc := fun _ => .idle
        active := [] }

end TxSys

end RTThread.Can
