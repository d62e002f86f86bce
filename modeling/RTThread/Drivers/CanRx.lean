import RTThread.Kernel.Model
import RTThread.Lib.Carried
import RTThread.Lib.Rings
import RTThread.Lib.Run

set_option autoImplicit false

/-! # The receive lists of a CAN device (`can.c`, with `RT_CAN_USING_HDR`)

Each message node is in `freelist`, in `uselist`, or with the reader or the interrupt handler that took it. A node
in `uselist` may be in the list of a filter bank too, which it then has as its owner.
-/

namespace RTThread.Can

/-- `struct rt_can_msg`. -/
structure RtCanMsg where
  id : Nat
  ide : Nat
  rtr : Nat
  len : Nat
  priv : Nat
  hdr : Int
  data : List Nat
  deriving DecidableEq

/-- The list nodes: the heads, and the two of each message node. -/
inductive RxLink
  | freelist
  | uselist
  /-- the list of a bank -/
  | bank (h : Nat)
  | list (n : Nat)
  | hdrlist (n : Nat)
  deriving DecidableEq

/-- What the receive path has of `struct rt_can_device`: the configuration, the node lists, and the banks. -/
structure RxFifo where
  msgboxsz : Nat
  maxhdr : Nat
  links : Links RxLink
  owner : Nat → Option Nat
  data : Nat → RtCanMsg
  freenumbers : Nat
  /-- is the bank connected? -/
  connected : Nat → Bool
  msgs : Nat → Nat
  rcvpkg : Nat
  dropedrcvpkg : Nat

namespace RxFifo

/-- Take a node out of both lists; `bank` has a message less. -/
def detach (s : RxFifo) (n : Nat) (bank : Option Nat) : RxFifo :=
  { s with
    links := (s.links.remove (.list n)).remove (.hdrlist n)
    msgs := bank.elim s.msgs fun h => Function.update s.msgs h (s.msgs h - 1)
    owner := Function.update s.owner n none }

/-- The first section of `_can_int_rx`: the node, if there is one. -/
def rxTake (s : RxFifo) (hdr : Int) : Option (Option Nat × RxFifo) :=
  if 0 ≤ hdr ∧ hdr < s.maxhdr ∧ s.links.next (.bank hdr.toNat) ≠ .bank hdr.toNat then
    match s.links.next (.bank hdr.toNat) with
    | .hdrlist n => some (some n, s.detach n (some hdr.toNat))
    | _ => none
  else if hdr = -1 ∧ s.links.next .uselist ≠ .uselist then
    match s.links.next .uselist with
    | .list n => some (some n, s.detach n (s.owner n))
    | _ => none
  else some (none, s)

/-- The second section of `_can_int_rx`. -/
def rxGive (s : RxFifo) (n : Nat) : Option RxFifo :=
  if s.freenumbers + 1 ≤ s.msgboxsz then
    some { s with links := s.links.insertBefore .freelist (.list n), freenumbers := s.freenumbers + 1 }
  else none

/-- The first section of `rt_hw_can_isr` for a message. -/
def isrTake (s : RxFifo) : Option (Option Nat × RxFifo) :=
  let s := { s with rcvpkg := s.rcvpkg + 1 }
  if s.links.next .freelist ≠ .freelist then
    match s.links.next .freelist with
    | .list n =>
        if 0 < s.freenumbers then
          some (some n, { s.detach n (s.owner n) with freenumbers := s.freenumbers - 1 })
        else none
    | _ => none
  else if s.links.next .uselist ≠ .uselist then
    -- the oldest message is dropped
    match s.links.next .uselist with
    | .list n => some (some n, { s.detach n (s.owner n) with dropedrcvpkg := s.dropedrcvpkg + 1 })
    | _ => none
  else some (none, s)

/-- The second section of `rt_hw_can_isr`, for a message of the bank `hdr`. -/
def isrPut (s : RxFifo) (n : Nat) (hdr : Int) : Option RxFifo :=
  let s := { s with links := s.links.insertBefore .uselist (.list n) }
  if hdr < s.maxhdr ∧ 0 ≤ hdr then
    if s.connected hdr.toNat then
      some { s with
        links := s.links.insertBefore (.bank hdr.toNat) (.hdrlist n)
        owner := Function.update s.owner n (some hdr.toNat)
        msgs := Function.update s.msgs hdr.toNat (s.msgs hdr.toNat + 1) }
    else some s
  else none

/-- The second section of an activation in `rt_can_control`. -/
def connect (s : RxFifo) (h : Nat) : RxFifo :=
  { s with
    connected := Function.update s.connected h true
    msgs := Function.update s.msgs h 0
    links := s.links.init (.bank h) }

/-- The section of a deactivation of a connected bank: the first node is taken out of its list. -/
def disconnect (s : RxFifo) (h : Nat) : RxFifo :=
  { s with
    connected := Function.update s.connected h false
    msgs := Function.update s.msgs h 0
    links :=
      if s.links.next (.bank h) ≠ .bank h then s.links.remove (s.links.next (.bank h)) else s.links }

/-- `rt_can_open`: all nodes are free. -/
def openRx (msgboxsz maxhdr : Nat) (data : Nat → RtCanMsg) : RxFifo where
  msgboxsz := msgboxsz
  maxhdr := maxhdr
  links := (List.range msgboxsz).foldl (fun m i => m.insertBefore .freelist (.list i)) (Links.alone RxLink)
  owner _ := none
  data := data
  freenumbers := msgboxsz
  connected _ := false
  msgs _ := 0
  rcvpkg := 0
  dropedrcvpkg := 0

end RxFifo

/-! ## Threads and interrupts -/

/-- Where a thread or an interrupt handler is between two steps. -/
inductive RxPc
  | idle
  /-- in `_can_int_rx` with a node, before `rt_memcpy` -/
  | taken (n : Nat)
  /-- behind it -/
  | copied (n : Nat)
  /-- in `rt_hw_can_isr` with a node, before `rt_memcpy` -/
  | accepted (n : Nat) (msg : RtCanMsg)
  /-- behind it -/
  | filled (n : Nat) (msg : RtCanMsg)
  /-- in the loop over the items of `RT_CAN_CMD_SET_FILTER` -/
  | filter (actived : Bool) (items : List Int)
  /-- between the two sections of an activation -/
  | connect (h : Nat) (items : List Int)

/-- What happens to the messages. -/
inductive RxEvent
  /-- a free node is taken for a message -/
  | accept
  /-- the oldest message is dropped, and its node is taken -/
  | drop
  /-- there is no node for a message -/
  | lost
  | arrive (msg : RtCanMsg)
  /-- a read takes a message of a bank, or any -/
  | take (t : ThreadId) (bank : Option Nat)
  /-- a read copies the message it took -/
  | fetch (t : ThreadId) (msg : RtCanMsg)
  /-- a node is free again -/
  | give
  | connect (h : Nat)
  | disconnect (h : Nat)
  deriving DecidableEq

structure RxSys where
  fifo : RxFifo
  pc : ThreadId → RxPc
  log : List RxEvent

inductive RxAction
  /-- a round of the loop of `_can_int_rx`, with the `hdr` in the buffer -/
  | read (t : ThreadId) (hdr : Int)
  | copy (t : ThreadId)
  | give (t : ThreadId)
  /-- `RT_CAN_EVENT_RX_IND`, with the message that `ops->recvmsg` has returned -/
  | rxInd (t : ThreadId) (msg : RtCanMsg)
  | fill (t : ThreadId)
  | put (t : ThreadId)
  /-- `RT_CAN_CMD_SET_FILTER` with the banks of the items -/
  | setFilter (t : ThreadId) (actived : Bool) (items : List Int)
  /-- the next item, or the return -/
  | item (t : ThreadId)
  | connect (t : ThreadId)

namespace RxSys

def setPc (s : RxSys) (t : ThreadId) (p : RxPc) : RxSys := { s with pc := Function.update s.pc t p }

/-- The bank that a read takes from. -/
def bankOf (hdr : Int) : Option Nat := if hdr = -1 then none else some hdr.toNat

/-- The event of an interrupt, by the heads of the lists. -/
def isrEvent (fifo : RxFifo) : RxEvent :=
  if fifo.links.next .freelist ≠ .freelist then .accept
  else if fifo.links.next .uselist ≠ .uselist then .drop
  else .lost

def exec (s : RxSys) : RxAction → Option RxSys
  | .read t hdr =>
      match s.pc t with
      | .idle => (s.fifo.rxTake hdr).map fun r =>
          match r.1 with
          | some n => { s with fifo := r.2, log := s.log ++ [RxEvent.take t (bankOf hdr)] }.setPc t (.taken n)
          | none => s
      | _ => none
  | .copy t =>
      match s.pc t with
      | .taken n => some ({ s with log := s.log ++ [RxEvent.fetch t (s.fifo.data n)] }.setPc t (.copied n))
      | _ => none
  | .give t =>
      match s.pc t with
      | .copied n => (s.fifo.rxGive n).map fun fifo =>
          { s with fifo := fifo, log := s.log ++ [RxEvent.give] }.setPc t .idle
      | _ => none
  | .rxInd t msg =>
      match s.pc t with
      | .idle => s.fifo.isrTake.map fun r =>
          { s with fifo := r.2, log := s.log ++ [isrEvent s.fifo] }.setPc t
            (r.1.elim .idle fun n => .accepted n msg)
      | _ => none
  | .fill t =>
      match s.pc t with
      | .accepted n msg =>
          some ({ s with fifo := { s.fifo with data := Function.update s.fifo.data n msg } }.setPc t
            (.filled n msg))
      | _ => none
  | .put t =>
      match s.pc t with
      | .filled n msg => (s.fifo.isrPut n msg.hdr).map fun fifo =>
          { s with fifo := fifo, log := s.log ++ [RxEvent.arrive msg] }.setPc t .idle
      | _ => none
  | .setFilter t actived items =>
      match s.pc t with
      | .idle => some (s.setPc t (.filter actived items))
      | _ => none
  | .item t =>
      match s.pc t with
      | .filter _ [] => some (s.setPc t .idle)
      | .filter actived (hdr :: items) =>
          if hdr < 0 ∨ s.fifo.maxhdr ≤ hdr then some (s.setPc t (.filter actived items))
          else if actived then
            if s.fifo.connected hdr.toNat then some (s.setPc t (.filter actived items))
            else some (s.setPc t (.connect hdr.toNat items))
          else if s.fifo.connected hdr.toNat then
            some ({ s with
              fifo := s.fifo.disconnect hdr.toNat
              log := s.log ++ [RxEvent.disconnect hdr.toNat] }.setPc t (.filter actived items))
          else some (s.setPc t (.filter actived items))
      | _ => none
  | .connect t =>
      match s.pc t with
      | .connect h items =>
          some ({ s with fifo := s.fifo.connect h, log := s.log ++ [RxEvent.connect h] }.setPc t
            (.filter true items))
      | _ => none

/-- A device that was just opened. -/
def Init (s : RxSys) : Prop :=
  (∃ msgboxsz maxhdr data, s.fifo = RxFifo.openRx msgboxsz maxhdr data) ∧ (∀ t, s.pc t = .idle) ∧ s.log = []

end RxSys

end RTThread.Can
