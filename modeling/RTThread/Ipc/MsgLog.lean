import RTThread.Lib.Graph
import RTThread.Ipc.Model

set_option autoImplicit false

/-! # What a message queue is for

An abstract message queue: messages are linked at its end, or at its front if they are urgent, and
taken from the front; each one that is taken is in the hand of one thread until this has received
it. The log keeps all the messages that were ever linked, so it can be told that none is received
twice.
-/

namespace RTThread.Ipc

open Kernel

/-- A message that was linked, the `id`th of its queue. -/
structure Message where
  id : Nat
  urgent : Bool
  buffer : List (BitVec 8)
  deriving DecidableEq

/-- What a call that may take `size` bytes has received. -/
structure Reception where
  msg : Message
  size : Nat
  bytes : List (BitVec 8)

structure MsgLog where
  /-- all messages, in the order in which they were linked -/
  linked : List Message
  /-- the queue, first message first -/
  queue : List Message
  /-- the messages taken out of the queue, in this order -/
  taken : List Message
  /-- the messages that were in the queue at a reset -/
  discarded : List Message
  hand : ThreadId → Option Message
  received : List Reception

namespace MsgLog

def empty : MsgLog := ⟨[], [], [], [], fun _ => none, []⟩

/-- A message is linked at the end. -/
def send (g : MsgLog) (buffer : List (BitVec 8)) : MsgLog :=
  let m : Message := ⟨g.linked.length, false, buffer⟩
  { g with linked := g.linked ++ [m], queue := g.queue ++ [m] }

/-- A message is linked ahead of all in the queue. -/
def urgent (g : MsgLog) (buffer : List (BitVec 8)) : MsgLog :=
  let m : Message := ⟨g.linked.length, true, buffer⟩
  { g with linked := g.linked ++ [m], queue := m :: g.queue }

/-- A thread takes the first message. -/
def take (g : MsgLog) (t : ThreadId) : MsgLog :=
  match g.queue with
  | m :: queue => { g with
      queue := queue
      taken := g.taken ++ [m]
      hand := Function.update g.hand t (some m) }
  | [] => g

/-- A thread has received what it has in its hand. -/
def receive (g : MsgLog) (t : ThreadId) (size : Nat) (bytes : List (BitVec 8)) : MsgLog :=
  match g.hand t with
  | some m => { g with
      hand := Function.update g.hand t none
      received := g.received ++ [⟨m, size, bytes⟩] }
  | none => g

/-- The queue is emptied. -/
def reset (g : MsgLog) : MsgLog :=
  { g with queue := [], discarded := g.discarded ++ g.queue }

/-- The messages that are not urgent were taken, and will be, in the order in which they were
linked. -/
def InOrder (g : MsgLog) : Prop :=
  (((g.taken ++ g.queue).filter fun m => !m.urgent).map (·.id)).Pairwise (· < ·)

/-- No message is lost or there twice. -/
structure Ok (g : MsgLog) : Prop where
  ids : g.linked.map (·.id) = List.range g.linked.length
  /-- a message was taken, or discarded by a reset, or is in the queue -/
  conserved : (g.taken ++ g.queue ++ g.discarded).Perm g.linked
  /-- one that was taken is received, or in one hand -/
  hands : ∃ l, IsGraph g.hand l ∧ (g.received.map (·.msg) ++ l.map (·.2)).Perm g.taken
  order : g.InOrder

variable {g : MsgLog} {t : ThreadId} {m : Message} {buffer bytes : List (BitVec 8)} {size : Nat}

theorem Ok.empty : empty.Ok :=
  ⟨rfl, List.Perm.refl _, ⟨[], .nil fun _ => rfl, List.Perm.refl _⟩, List.Pairwise.nil⟩

/-- Messages are told apart by their numbers. -/
theorem Ok.nodup (h : g.Ok) : ((g.taken ++ g.queue ++ g.discarded).map (·.id)).Nodup := by
  apply (h.conserved.map _).nodup_iff.mpr
  rw [h.ids]
  exact List.nodup_range

theorem Ok.id_lt (h : g.Ok) (hm : m ∈ g.taken ++ g.queue) : m.id < g.linked.length := by
  have hl : m ∈ g.linked := h.conserved.subset (List.mem_append_left _ hm)
  have hid : m.id ∈ g.linked.map (·.id) := List.mem_map_of_mem hl
  rwa [h.ids, List.mem_range] at hid

/-- **No message is received twice.** -/
theorem Ok.received_nodup (h : g.Ok) : (g.received.map (·.msg.id)).Nodup := by
  obtain ⟨l, -, hp⟩ := h.hands
  have htaken : (g.taken.map (·.id)).Nodup := by
    refine h.nodup.sublist (List.Sublist.map _ ?_)
    rw [List.append_assoc]
    exact List.sublist_append_left _ _
  have hboth := (hp.map (·.id)).nodup_iff.mpr htaken
  rw [List.map_append, List.map_map] at hboth
  exact hboth.of_append_left

theorem Ok.ids_append (h : g.Ok) (hm : m.id = g.linked.length) :
    (g.linked ++ [m]).map (·.id) = List.range (g.linked ++ [m]).length := by
  rw [List.map_append, h.ids, List.length_append, List.length_singleton, List.range_succ]
  simp [hm]

theorem Ok.send (h : g.Ok) : (g.send buffer).Ok := by
  refine ⟨h.ids_append rfl, ?_, h.hands, ?_⟩
  · set m : Message := ⟨g.linked.length, false, buffer⟩
    show (g.taken ++ (g.queue ++ [m]) ++ g.discarded).Perm (g.linked ++ [m])
    calc g.taken ++ (g.queue ++ [m]) ++ g.discarded
        = (g.taken ++ g.queue) ++ (m :: g.discarded) := by simp
      List.Perm _ (m :: (g.taken ++ g.queue ++ g.discarded)) := List.perm_middle
      List.Perm _ (m :: g.linked) := h.conserved.cons m
      List.Perm _ (g.linked ++ [m]) := (List.perm_append_singleton _ _).symm
  · have hlt := fun m hm => h.id_lt (m := m) hm
    show (((g.taken ++ (g.queue ++ [_])).filter _).map _).Pairwise _
    rw [← List.append_assoc, List.filter_append, List.map_append, List.pairwise_append]
    refine ⟨h.order, by simp, fun a ha b hb => ?_⟩
    obtain ⟨m, hm, rfl⟩ := List.mem_map.mp ha
    obtain rfl : b = g.linked.length := by simpa using hb
    exact hlt m (List.mem_of_mem_filter hm)

theorem Ok.urgent (h : g.Ok) : (g.urgent buffer).Ok := by
  refine ⟨h.ids_append rfl, ?_, h.hands, ?_⟩
  · set m : Message := ⟨g.linked.length, true, buffer⟩
    show (g.taken ++ (m :: g.queue) ++ g.discarded).Perm (g.linked ++ [m])
    calc g.taken ++ (m :: g.queue) ++ g.discarded
        = g.taken ++ (m :: (g.queue ++ g.discarded)) := by simp
      List.Perm _ (m :: (g.taken ++ (g.queue ++ g.discarded))) := List.perm_middle
      _ = m :: (g.taken ++ g.queue ++ g.discarded) := by simp
      List.Perm _ (m :: g.linked) := h.conserved.cons m
      List.Perm _ (g.linked ++ [m]) := (List.perm_append_singleton _ _).symm
  · have horder := h.order
    unfold InOrder at horder ⊢
    rw [List.filter_append] at horder
    show (((g.taken ++ (_ :: g.queue)).filter _).map _).Pairwise _
    rw [List.filter_append, List.filter_cons_of_neg (by simp)]
    exact horder

theorem Ok.take (h : g.Ok) (ht : g.hand t = none) : (g.take t).Ok := by
  unfold MsgLog.take
  cases hq : g.queue with
  | nil => exact h
  | cons m queue =>
      have happ : g.taken ++ [m] ++ queue = g.taken ++ g.queue := by simp [hq]
      refine ⟨h.ids, ?_, ?_, ?_⟩
      · show (g.taken ++ [m] ++ queue ++ g.discarded).Perm g.linked
        rw [happ]
        exact h.conserved
      · obtain ⟨l, hl, hp⟩ := h.hands
        refine ⟨(t, m) :: l, hl.set ht (Function.update_self ..)
          fun u hu => Function.update_of_ne hu .., ?_⟩
        show (g.received.map (·.msg) ++ (m :: l.map (·.2))).Perm (g.taken ++ [m])
        calc List.Perm (g.received.map (·.msg) ++ (m :: l.map (·.2)))
              (m :: (g.received.map (·.msg) ++ l.map (·.2))) := List.perm_middle
          List.Perm _ (m :: g.taken) := hp.cons m
          List.Perm _ (g.taken ++ [m]) := (List.perm_append_singleton _ _).symm
      · unfold InOrder
        show (((g.taken ++ [m] ++ queue).filter _).map _).Pairwise _
        rw [happ]
        exact h.order

theorem Ok.receive (h : g.Ok) : (g.receive t size bytes).Ok := by
  unfold MsgLog.receive
  cases ht : g.hand t with
  | none => exact h
  | some m =>
      refine ⟨h.ids, h.conserved, ?_, h.order⟩
      obtain ⟨l, hl, hp⟩ := h.hands
      obtain ⟨l', hperm, hl'⟩ := hl.unset ht (g := Function.update g.hand t none)
        (Function.update_self ..) fun u hu => Function.update_of_ne hu ..
      refine ⟨l', hl', ?_⟩
      have hsnd : (l.map (·.2)).Perm (m :: l'.map (·.2)) := hperm.map _
      calc ((g.received ++ [(⟨m, size, bytes⟩ : Reception)]).map Reception.msg ++ l'.map (·.2))
          = g.received.map (·.msg) ++ (m :: l'.map (·.2)) := by simp
        List.Perm _ (g.received.map (·.msg) ++ l.map (·.2)) := hsnd.symm.append_left _
        List.Perm _ g.taken := hp

theorem Ok.reset (h : g.Ok) : g.reset.Ok := by
  refine ⟨h.ids, ?_, h.hands, ?_⟩
  · show (g.taken ++ [] ++ (g.discarded ++ g.queue)).Perm g.linked
    calc (g.taken ++ [] ++ (g.discarded ++ g.queue))
        = g.taken ++ (g.discarded ++ g.queue) := by simp
      List.Perm _ (g.taken ++ (g.queue ++ g.discarded)) :=
          List.Perm.append_left _ List.perm_append_comm
      _ = g.taken ++ g.queue ++ g.discarded := by simp
      List.Perm _ g.linked := h.conserved
  · have horder := h.order
    unfold InOrder at horder ⊢
    rw [List.filter_append, List.map_append, List.pairwise_append] at horder
    show (((g.taken ++ []).filter _).map _).Pairwise _
    rw [List.append_nil]
    exact horder.1

end MsgLog

end RTThread.Ipc
