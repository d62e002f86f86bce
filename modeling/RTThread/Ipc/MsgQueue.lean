import RTThread.Ipc.MsgLog
import RTThread.Ipc.MsgPool
import RTThread.Ipc.Start

set_option autoImplicit false

/-! # Messages in order

A message queue refines the abstract queue of `MsgLog`. A call has two sections, and between them
its thread owns a block that is in no list; `PlaceOk` says what this block holds at each place of
the call. The other threads, and resets, may come in between.
-/

namespace RTThread.Ipc

open Kernel Trans Sll

/-! ## What one section does to a queue -/

/-- A call that sends the message. -/
def Sends (i : Nat) (buffer : List (BitVec 8)) (c : Call) : Prop :=
  (∃ timeout, c = .mqSend i buffer timeout) ∨ c = .mqUrgent i buffer

/-- The message of a waiting call is not greater than a block. -/
def Fits (q : MsgQueue) : Call → Prop
  | .mqSend _ buffer _ => buffer.length ≤ q.msgSize
  | _ => True

/-- A place in front of the first section of a call, or of one that looks again. -/
def Enters (p : Pc) : Prop := p = .idle ∨ ∃ c, p = .wait c

/-- From one place of a call to the next, with the queue after it. -/
inductive MsgSection (i : Nat) (q : MsgQueue) : Pc → Pc → MsgQueue → Prop
  | wait {p : Pc} {c : Call} (hp : Enters p) (hc : c.obj = .mq i) (hf : Fits q c) :
      MsgSection i q p (.wait c) q
  | fail {p : Pc} {c : Call} {e : Err} {r : Reply} (hp : Enters p) (hc : c.obj = .mq i)
      (hw : c ≠ .mqReset i) (he : e ≠ .ok) : MsgSection i q p (.ret c e r) q
  /-- a sender takes a free block -/
  | alloc {p : Pc} {c : Call} {buffer : List (BitVec 8)} {msg : Nat} (hp : Enters p)
      (hc : Sends i buffer c) (hl : buffer.length ≤ q.msgSize) (hf : q.free = some msg) :
      MsgSection i q p (.copy c msg) { q with free := q.next msg }
  /-- a receiver takes the first message -/
  | take {p : Pc} {size msg : Nat} {timeout : Int} (hp : Enters p) (hh : q.head = some msg) :
      MsgSection i q p (.copy (.mqRecv i size timeout) msg) { q with
        head := q.next msg
        tail := if q.tail = some msg then none else q.tail
        entry := q.entry - 1 }
  | write {buffer : List (BitVec 8)} {timeout : Int} {msg : Nat} :
      MsgSection i q (.copy (.mqSend i buffer timeout) msg)
        (.copied (.mqSend i buffer timeout) msg .none) { q with
          next := Function.update q.next msg none
          bytes := mqWrite q.bytes msg buffer }
  | writeUrgent {buffer : List (BitVec 8)} {msg : Nat} :
      MsgSection i q (.copy (.mqUrgent i buffer) msg) (.copied (.mqUrgent i buffer) msg .none)
        { q with bytes := mqWrite q.bytes msg buffer }
  | read {size msg : Nat} {timeout : Int} :
      MsgSection i q (.copy (.mqRecv i size timeout) msg) (.copied (.mqRecv i size timeout) msg
        (.msg (mqRead q.bytes msg (if q.msgSize < size then q.msgSize else size)))) q
  | link {buffer : List (BitVec 8)} {timeout : Int} {msg : Nat} {r : Reply} :
      MsgSection i q (.copied (.mqSend i buffer timeout) msg r)
        (.ret (.mqSend i buffer timeout) .ok .none) { q with
          next := match q.tail with
            | some tail => Function.update q.next tail (some msg)
            | none => q.next
          tail := some msg
          head := if q.head = none then some msg else q.head
          entry := (q.entry + 1) % 2 ^ 16 }
  | linkUrgent {buffer : List (BitVec 8)} {msg : Nat} {r : Reply} :
      MsgSection i q (.copied (.mqUrgent i buffer) msg r) (.ret (.mqUrgent i buffer) .ok .none)
        { q with
          next := Function.update q.next msg q.head
          head := some msg
          tail := if q.tail = none then some msg else q.tail
          entry := (q.entry + 1) % 2 ^ 16 }
  | release {size msg : Nat} {timeout : Int} {r : Reply} :
      MsgSection i q (.copied (.mqRecv i size timeout) msg r) (.ret (.mqRecv i size timeout) .ok r)
        { q with next := Function.update q.next msg q.free, free := some msg }
  | reset : MsgSection i q .idle (.ret (.mqReset i) .ok .none)
      { mqDrain q.maxMsgs q with entry := 0 }

section

variable [RtConfig] {s : Ipc} {x : Section} {t : ThreadId} {i size msg : Nat}
  {buffer : List (BitVec 8)} {timeout : Int} {c : Call} {delta : Nat} {p : Pc} {r : Reply}

theorem resumeFirst_mq {h : ListHead} (hx : s.resumeFirst h p = some x) :
    x.pc = p ∧ x.ipc.mq = s.mq := by
  unfold resumeFirst at hx
  split_ifs at hx
  · obtain ⟨k, -, hx⟩ := Option.bind_eq_some_iff.mp hx
    obtain rfl := Option.some.inj hx
    exact ⟨rfl, rfl⟩
  · obtain rfl := Option.some.inj hx
    exact ⟨rfl, rfl⟩

theorem mqSendLoop_msg (hp : Enters p) (hl : buffer.length ≤ (s.mq i).msgSize)
    (hx : s.mqSendLoop t i buffer timeout = some x) :
    MsgSection i (s.mq i) p x.pc (x.ipc.mq i) := by
  unfold mqSendLoop at hx
  dsimp only at hx
  split at hx
  · split_ifs at hx with ht
    · obtain rfl := Option.some.inj hx
      exact .fail hp rfl (by simp) (by simp)
    · obtain ⟨k, -, hx⟩ := Option.bind_eq_some_iff.mp hx
      obtain rfl := Option.some.inj hx
      exact .wait hp rfl hl
  · rename_i msg hf
    obtain rfl := Option.some.inj hx
    rw [setMq_self]
    exact .alloc hp (Or.inl ⟨timeout, rfl⟩) hl hf

theorem mqRecvLoop_msg (hp : Enters p) (hx : s.mqRecvLoop t i size timeout = some x) :
    MsgSection i (s.mq i) p x.pc (x.ipc.mq i) := by
  unfold mqRecvLoop at hx
  dsimp only at hx
  by_cases he : (s.mq i).entry = 0
  · rw [if_pos he] at hx
    split_ifs at hx with ht
    · obtain rfl := Option.some.inj hx
      exact .fail hp rfl (by simp) (by simp)
    · obtain ⟨k, -, hx⟩ := Option.bind_eq_some_iff.mp hx
      obtain rfl := Option.some.inj hx
      exact .wait hp rfl trivial
  · rw [if_neg he] at hx
    obtain ⟨msg, hh, hx⟩ := Option.bind_eq_some_iff.mp hx
    obtain rfl := Option.some.inj hx
    rw [setMq_self]
    exact .take hp hh

/-- The first section. -/
theorem call_msg (hx : s.call t c = some x) (hc : c.obj = .mq i) :
    MsgSection i (s.mq i) .idle x.pc (x.ipc.mq i) := by
  cases c with
  | mqSend m buffer timeout =>
      obtain rfl : m = i := Obj.mq.inj hc
      simp only [call, rtMqSendWait] at hx
      split_ifs at hx with hb hl hf
      · obtain rfl := Option.some.inj hx
        exact .fail (Or.inl rfl) rfl (by simp) (by simp)
      · obtain rfl := Option.some.inj hx
        exact .fail (Or.inl rfl) rfl (by simp) (by simp)
      · exact mqSendLoop_msg (Or.inl rfl) (Nat.le_of_not_lt hl) hx
  | mqUrgent m buffer =>
      obtain rfl : m = i := Obj.mq.inj hc
      obtain ⟨e, he, -, rfl⟩ | ⟨hl, msg, hf, rfl⟩ := rtMqUrgent_cases hx
      · exact .fail (Or.inl rfl) rfl (by simp) he
      · rw [setMq_self]
        exact .alloc (Or.inl rfl) (Or.inr rfl) hl hf
  | mqRecv m size timeout =>
      obtain rfl : m = i := Obj.mq.inj hc
      simp only [call, rtMqRecv] at hx
      split_ifs at hx
      · obtain rfl := Option.some.inj hx
        exact .fail (Or.inl rfl) rfl (by simp) (by simp)
      · exact mqRecvLoop_msg (Or.inl rfl) hx
  | mqReset m =>
      obtain rfl : m = i := Obj.mq.inj hc
      obtain rfl := Option.some.inj hx
      rw [setMq_self]
      exact .reset
  | _ => simp [Call.obj] at hc

/-- The section after `rt_schedule`: the call looks again, or fails. -/
theorem resumed_msg (hf : Fits (s.mq i) c) (hx : s.resumed t delta c = some x)
    (hc : c.obj = .mq i) : MsgSection i (s.mq i) (.wait c) x.pc (x.ipc.mq i) := by
  cases c with
  | mqSend m buffer timeout =>
      obtain rfl : m = i := Obj.mq.inj hc
      simp only [resumed, rtMqSendWaitResumed] at hx
      split_ifs at hx with he
      · obtain rfl := Option.some.inj hx
        exact .fail (Or.inr ⟨_, rfl⟩) rfl (by simp) he
      · exact mqSendLoop_msg (Or.inr ⟨_, rfl⟩) hf hx
  | mqRecv m size timeout =>
      obtain rfl : m = i := Obj.mq.inj hc
      simp only [resumed, rtMqRecvResumed] at hx
      split_ifs at hx with he
      · obtain rfl := Option.some.inj hx
        exact .fail (Or.inr ⟨_, rfl⟩) rfl (by simp) he
      · exact mqRecvLoop_msg (Or.inr ⟨_, rfl⟩) hx
  | mqUrgent | mqReset => cases hx
  | _ => simp [Call.obj] at hc

omit [RtConfig] in
theorem copy_msg (hx : s.copy msg c = some x) (hc : c.obj = .mq i) :
    MsgSection i (s.mq i) (.copy c msg) x.pc (x.ipc.mq i) := by
  cases c with
  | mqSend m buffer timeout =>
      obtain rfl : m = i := Obj.mq.inj hc
      obtain rfl := Option.some.inj hx
      rw [setMq_self]
      exact .write
  | mqUrgent m buffer =>
      obtain rfl : m = i := Obj.mq.inj hc
      obtain rfl := Option.some.inj hx
      rw [setMq_self]
      exact .writeUrgent
  | mqRecv m size timeout =>
      obtain rfl : m = i := Obj.mq.inj hc
      obtain rfl := Option.some.inj hx
      exact .read
  | mqReset => cases hx
  | _ => simp [Call.obj] at hc

theorem finish_msg (hx : s.finish msg r c = some x) (hc : c.obj = .mq i) :
    MsgSection i (s.mq i) (.copied c msg r) x.pc (x.ipc.mq i) := by
  cases c with
  | mqSend m buffer timeout =>
      obtain rfl : m = i := Obj.mq.inj hc
      obtain ⟨hp, hm⟩ := resumeFirst_mq hx
      rw [hp, hm, setMq_self]
      exact .link
  | mqUrgent m buffer =>
      obtain rfl : m = i := Obj.mq.inj hc
      obtain ⟨hp, hm⟩ := resumeFirst_mq hx
      rw [hp, hm, setMq_self]
      exact .linkUrgent
  | mqRecv m size timeout =>
      obtain rfl : m = i := Obj.mq.inj hc
      obtain ⟨hp, hm⟩ := resumeFirst_mq hx
      rw [hp, hm, setMq_self]
      exact .release
  | mqReset => cases hx
  | _ => simp [Call.obj] at hc

end

/-! ## The abstract queue -/

/-- The operation of the abstract queue when a section goes from one place to another. -/
def logStep (i : Nat) (t : ThreadId) (p p' : Pc) (g : MsgLog) : MsgLog :=
  match p, p' with
  | .copied (.mqSend j buffer _) _ _, _ => if j = i then g.send buffer else g
  | .copied (.mqUrgent j buffer) _ _, _ => if j = i then g.urgent buffer else g
  | .copied (.mqRecv j size _) _ (.msg bytes), _ => if j = i then g.receive t size bytes else g
  | _, .copy (.mqRecv j _ _) _ => if j = i then g.take t else g
  | _, .ret (.mqReset j) _ _ => if j = i then g.reset else g
  | _, _ => g

/-- The block that a thread at this place owns. -/
def ownedBlock (i : Nat) : Pc → Option Nat
  | .copy c b | .copied c b _ => if c.obj = .mq i then some b else none
  | _ => none

/-- What the thread has at each place of a call: nothing in its hand before it has taken a message,
and its block holds the message from the copy on. -/
inductive PlaceOk (i : Nat) (q : MsgQueue) (g : MsgLog) (t : ThreadId) : Pc → Prop
  | away {p : Pc} (hp : p.obj ≠ some (.mq i)) (hh : g.hand t = none) : PlaceOk i q g t p
  | wait {c : Call} (hf : Fits q c) (hh : g.hand t = none) : PlaceOk i q g t (.wait c)
  | alloc {c : Call} {buffer : List (BitVec 8)} {b : Nat} (hc : Sends i buffer c)
      (hl : buffer.length ≤ q.msgSize) (hh : g.hand t = none) : PlaceOk i q g t (.copy c b)
  | written {buffer : List (BitVec 8)} {timeout : Int} {b : Nat} {r : Reply}
      (hn : q.next b = none) (hb : HoldsMsg q b buffer) (hh : g.hand t = none) :
      PlaceOk i q g t (.copied (.mqSend i buffer timeout) b r)
  | writtenUrgent {buffer : List (BitVec 8)} {b : Nat} {r : Reply} (hb : HoldsMsg q b buffer)
      (hh : g.hand t = none) : PlaceOk i q g t (.copied (.mqUrgent i buffer) b r)
  | taken {size b : Nat} {timeout : Int} {m : Message} (hb : HoldsMsg q b m.buffer)
      (hh : g.hand t = some m) : PlaceOk i q g t (.copy (.mqRecv i size timeout) b)
  | read {size b : Nat} {timeout : Int} {m : Message} {bytes : List (BitVec 8)}
      (hb : Intact q.msgSize size bytes m.buffer) (hh : g.hand t = some m) :
      PlaceOk i q g t (.copied (.mqRecv i size timeout) b (.msg bytes))
  | received {size : Nat} {timeout : Int} {m : Message} {bytes : List (BitVec 8)}
      (hm : ⟨m, size, bytes⟩ ∈ g.received) (hh : g.hand t = none) :
      PlaceOk i q g t (.ret (.mqRecv i size timeout) .ok (.msg bytes))
  | returns {c : Call} {e : Err} {r : Reply} (hc : ∀ size timeout, c ≠ .mqRecv i size timeout ∨
      e ≠ .ok) (hh : g.hand t = none) : PlaceOk i q g t (.ret c e r)

/-- The queue refines the abstract one: its message list holds the messages of the abstract queue,
and every other block is free or owned by one thread. -/
structure MqInv (i : Nat) (q : MsgQueue) (pc : ThreadId → Pc) (g : MsgLog) (free msgs : List Nat)
    (owners : List (ThreadId × Nat)) : Prop where
  pool : Pool q free msgs (owners.map (·.2))
  owners : IsGraph (fun t => ownedBlock i (pc t)) owners
  contents : List.Forall₂ (fun b m => HoldsMsg q b m.buffer) msgs (MsgLog.queue g)
  log : g.Ok
  places : ∀ t, PlaceOk i q g t (pc t)
  received : ∀ r ∈ g.received, Intact q.msgSize r.size r.bytes r.msg.buffer
  max : q.maxMsgs < 2 ^ 16

section

variable {i : Nat} {q q' : MsgQueue} {pc pc' : ThreadId → Pc} {g g' : MsgLog} {t u : ThreadId}
  {p p' : Pc} {free msgs : List Nat} {owners : List (ThreadId × Nat)} {b : Nat}

theorem Enters.owned (hp : Enters p) : ownedBlock i p = none := by
  rcases hp with rfl | ⟨c, rfl⟩ <;> rfl

/-- What the abstract queue does at a first section. -/
theorem Enters.logStep_eq (hp : Enters p) :
    (∀ c, logStep i t p (.wait c) g = g) ∧
    (∀ c e r, c ≠ .mqReset i → logStep i t p (.ret c e r) g = g) ∧
    (∀ buffer c b, Sends i buffer c → logStep i t p (.copy c b) g = g) ∧
    ∀ size timeout b, logStep i t p (.copy (.mqRecv i size timeout) b) g = g.take t := by
  rcases hp with rfl | ⟨c₀, rfl⟩
  all_goals
    refine ⟨fun c => rfl, fun c e r hc => ?_, fun buffer c b hc => ?_, fun size timeout b => ?_⟩
    · cases c with
      | mqReset j => exact if_neg fun h => hc (by rw [h])
      | _ => rfl
    · rcases hc with ⟨timeout, rfl⟩ | rfl <;> rfl
    · exact if_pos rfl

/-- A change that leaves the thread, its block and what was received alone. -/
theorem PlaceOk.congr (h : PlaceOk i q g t p) (hs : q'.msgSize = q.msgSize)
    (hn : ∀ b, ownedBlock i p = some b → q'.next b = q.next b)
    (hb : ∀ b buffer, ownedBlock i p = some b → HoldsMsg q b buffer → HoldsMsg q' b buffer)
    (hh : g'.hand t = g.hand t) (hr : ∀ r ∈ g.received, r ∈ g'.received) :
    PlaceOk i q' g' t p := by
  cases h with
  | away hp h0 => exact .away hp (hh.trans h0)
  | @wait c hf h0 =>
      refine .wait ?_ (hh.trans h0)
      unfold Fits at hf ⊢
      rw [hs]
      exact hf
  | alloc hc hl h0 => exact .alloc hc (by rw [hs]; exact hl) (hh.trans h0)
  | written hnull hm h0 =>
      exact .written ((hn _ (if_pos rfl)).trans hnull) (hb _ _ (if_pos rfl) hm) (hh.trans h0)
  | writtenUrgent hm h0 => exact .writtenUrgent (hb _ _ (if_pos rfl) hm) (hh.trans h0)
  | taken hm h0 => exact .taken (hb _ _ (if_pos rfl) hm) (hh.trans h0)
  | read hi h0 => exact .read (by rw [hs]; exact hi) (hh.trans h0)
  | received hm h0 => exact .received (hr _ hm) (hh.trans h0)
  | returns hc h0 => exact .returns hc (hh.trans h0)

/-- A thread at a place that enters has nothing in its hand. -/
theorem PlaceOk.enters (h : PlaceOk i q g t p) (hp : Enters p) : g.hand t = none := by
  rcases hp with rfl | ⟨c, rfl⟩ <;> cases h <;> assumption

namespace MqInv

variable (h : MqInv i q pc g free msgs owners)

include h

theorem owned (hb : ownedBlock i (pc t) = some b) : b ∈ owners.map (·.2) :=
  List.mem_map.mpr ⟨(t, b), (h.owners.mem_iff t b).mpr hb, rfl⟩

/-- Two threads do not own one block. -/
theorem owner_unique (ht : ownedBlock i (pc t) = some b) (hu : ownedBlock i (pc u) = some b) :
    t = u := by
  have hnd := (List.nodup_append.mp h.pool.nodup).2.1
  have hinj := List.inj_on_of_nodup_map hnd ((h.owners.mem_iff t b).mpr ht)
    ((h.owners.mem_iff u b).mpr hu) rfl
  exact congrArg Prod.fst hinj

/-- The blocks of another thread and of the message list are not the thread's own. -/
theorem ne_of_owned {b' : Nat} (ht : ownedBlock i (pc t) = some b) :
    (u ≠ t → ownedBlock i (pc u) = some b' → b' ≠ b) ∧ (b' ∈ msgs → b' ≠ b) := by
  refine ⟨?_, ?_⟩
  · rintro hne hu rfl
    exact hne (h.owner_unique hu ht)
  · rintro hm rfl
    exact (h.pool.not_mem (h.owned ht)).2 hm

theorem mem_blocks_owned (hb : ownedBlock i (pc t) = some b) : b ∈ blocks q :=
  h.pool.mem_blocks (List.mem_append_right _ (h.owned hb))

theorem mem_blocks_msgs (hb : b ∈ msgs) : b ∈ blocks q :=
  h.pool.mem_blocks (List.mem_append_left _ (List.mem_append_right _ hb))

omit h in
/-- The places after a section of one thread: its own new place, and the others as before. -/
theorem places_update (hself : PlaceOk i q' g' t p')
    (hother : ∀ u, u ≠ t → PlaceOk i q' g' u (pc u)) :
    ∀ u, PlaceOk i q' g' u (Function.update pc t p' u) := by
  intro u
  by_cases hu : u = t
  · rw [hu, Function.update_self]
    exact hself
  · rw [Function.update_of_ne hu]
    exact hother u hu

omit h in
theorem ownedBlock_update (hu : u ≠ t) :
    ownedBlock i (Function.update pc t p' u) = ownedBlock i (pc u) := by
  rw [Function.update_of_ne hu]

/-- The thread owns the same block, or still none. -/
theorem owners_same (hp : ownedBlock i p' = ownedBlock i (pc t)) :
    IsGraph (fun u => ownedBlock i (Function.update pc t p' u)) owners := by
  apply h.owners.congr
  intro u
  by_cases hu : u = t
  · rw [hu, Function.update_self, hp]
  · exact ownedBlock_update hu

/-- The thread takes a block. -/
theorem owners_take (hp : ownedBlock i (pc t) = none) (hp' : ownedBlock i p' = some b) :
    IsGraph (fun u => ownedBlock i (Function.update pc t p' u)) ((t, b) :: owners) :=
  h.owners.set hp (by rw [Function.update_self]; exact hp') fun u hu => ownedBlock_update hu

/-- The thread gives its block back. -/
theorem owners_give (p' : Pc) (hp : ownedBlock i (pc t) = some b) (hp' : ownedBlock i p' = none) :
    ∃ owners', (owners.map (·.2)).Perm (b :: owners'.map (·.2)) ∧
      IsGraph (fun u => ownedBlock i (Function.update pc t p' u)) owners' := by
  obtain ⟨owners', hperm, hg⟩ := h.owners.unset hp
    (g := fun u => ownedBlock i (Function.update pc t p' u))
    (by rw [Function.update_self]; exact hp') fun u hu => ownedBlock_update hu
  exact ⟨owners', hperm.map _, hg⟩

/-- Nothing changes but the place of the thread. -/
theorem still (hown : ownedBlock i p' = ownedBlock i (pc t)) (hself : PlaceOk i q g t p') :
    MqInv i q (Function.update pc t p') g free msgs owners :=
  ⟨h.pool, h.owners_same hown, h.contents, h.log, places_update hself fun u _ => h.places u,
    h.received, h.max⟩

omit h in
/-- The bytes of the messages in the queue are the same. -/
theorem contents_congr {queue : List Message} {l : List Nat}
    (hc : List.Forall₂ (fun b m => HoldsMsg q b m.buffer) l queue) (hs : q'.msgSize = q.msgSize)
    (hb : q'.bytes = q.bytes) : List.Forall₂ (fun b m => HoldsMsg q' b m.buffer) l queue :=
  hc.imp fun _ _ hm => hm.congr hs fun j _ => by rw [hb]

/-- A sender takes a free block. -/
theorem alloc {c : Call} {buffer : List (BitVec 8)} (hp : Enters (pc t)) (hc : Sends i buffer c)
    (hl : buffer.length ≤ q.msgSize) (hf : q.free = some b) : ∃ free' owners',
    MqInv i { q with free := q.next b } (Function.update pc t (.copy c b)) g free' msgs
      owners' := by
  obtain ⟨free', -, hpool⟩ := h.pool.alloc hf
  have hobj : c.obj = .mq i := by
    rcases hc with ⟨timeout, rfl⟩ | rfl <;> rfl
  refine ⟨free', (t, b) :: owners, hpool, h.owners_take hp.owned (if_pos hobj), ?_, h.log, ?_,
    h.received, h.max⟩
  · exact contents_congr h.contents rfl rfl
  · have hhand := (h.places t).enters hp
    exact places_update (.alloc hc hl hhand) fun u _ =>
      (h.places u).congr rfl (fun _ _ => rfl) (fun _ _ _ hm => hm.congr rfl fun _ _ => rfl) rfl
        fun _ hr => hr

/-- A receiver takes the first message. -/
theorem take {size : Nat} {timeout : Int} (hp : Enters (pc t)) (hh : q.head = some b) :
    ∃ msgs' owners', MqInv i { q with
      head := q.next b
      tail := if q.tail = some b then none else q.tail
      entry := q.entry - 1 } (Function.update pc t (.copy (.mqRecv i size timeout) b)) (g.take t)
      free msgs' owners' := by
  obtain ⟨msgs', rfl, hpool⟩ := h.pool.takeFirst hh
  have hhand := (h.places t).enters hp
  have hlog := h.log.take hhand
  have hcont := h.contents
  unfold MsgLog.take at hlog ⊢
  cases hq : g.queue with
  | nil =>
      rw [hq] at hcont
      cases hcont
  | cons m queue =>
      rw [hq] at hcont hlog
      dsimp only at hlog ⊢
      obtain ⟨hm, hrest⟩ := List.forall₂_cons.mp hcont
      refine ⟨msgs', (t, b) :: owners, hpool, h.owners_take hp.owned (if_pos rfl), ?_, hlog, ?_,
        h.received, h.max⟩
      · exact contents_congr hrest rfl rfl
      · refine places_update (.taken (hm.congr rfl fun _ _ => rfl) (Function.update_self ..))
          fun u hu => (h.places u).congr rfl (fun _ _ => rfl)
            (fun _ _ _ hm => hm.congr rfl fun _ _ => rfl) ?_ fun _ hr => hr
        exact Function.update_of_ne hu ..

/-- A sender copies its message into its block; only `rt_mq_send_wait` writes the pointer of the
block. -/
theorem write {buffer : List (BitVec 8)} {next : Nat → Option Nat}
    (hown : ownedBlock i (pc t) = some b) (hown' : ownedBlock i p' = some b)
    (hl : buffer.length ≤ q.msgSize) (hn : next = q.next ∨ next = Function.update q.next b none)
    (hself : PlaceOk i { q with next := next, bytes := mqWrite q.bytes b buffer } g t p') :
    MqInv i { q with next := next, bytes := mqWrite q.bytes b buffer }
      (Function.update pc t p') g free msgs owners := by
  have hb := h.mem_blocks_owned hown
  refine ⟨?_, h.owners_same (hown'.trans hown.symm), ?_, h.log, ?_, h.received, h.max⟩
  · rcases hn with rfl | rfl
    · exact ⟨h.pool.freeList, h.pool.msgList, h.pool.tail, h.pool.entry, h.pool.all⟩
    · exact h.pool.write (h.owned hown)
  · have hboth := (List.forall₂_and_left (p := fun b' => b' ∈ msgs) msgs g.queue).mpr
      ⟨fun _ hm => hm, h.contents⟩
    refine hboth.imp fun b' m hm => ?_
    have hne := (h.ne_of_owned (u := t) hown).2 hm.1
    exact hm.2.other rfl rfl hl (h.mem_blocks_msgs hm.1) hb hne
  · refine places_update hself fun u hu => ?_
    have hne : ∀ b', ownedBlock i (pc u) = some b' → b' ≠ b := fun b' hb' =>
      (h.ne_of_owned hown).1 hu hb'
    refine (h.places u).congr rfl (fun b' hb' => ?_) (fun b' buffer' hb' hm => ?_) rfl
      fun _ hr => hr
    · rcases hn with rfl | rfl
      · rfl
      · exact Function.update_of_ne (hne b' hb') ..
    · exact hm.other rfl rfl hl (h.mem_blocks_owned hb') hb (hne b' hb')

/-- A message is linked at the end. -/
theorem link {buffer : List (BitVec 8)} (p' : Pc) (hown : ownedBlock i (pc t) = some b)
    (hown' : ownedBlock i p' = none) (hnull : q.next b = none) (hm : HoldsMsg q b buffer)
    (hself : ∀ q', PlaceOk i q' (g.send buffer) t p') : ∃ owners', MqInv i { q with
      next := match q.tail with
        | some tail => Function.update q.next tail (some b)
        | none => q.next
      tail := some b
      head := if q.head = none then some b else q.head
      entry := (q.entry + 1) % 2 ^ 16 } (Function.update pc t p') (g.send buffer) free
      (msgs ++ [b]) owners' := by
  obtain ⟨owners', hperm, hg⟩ := h.owners_give p' hown hown'
  have hpool := (h.pool.perm hperm.symm).linkLast rfl hnull h.max
  refine ⟨owners', hpool, hg, ?_, h.log.send, places_update (hself _) fun u hu => ?_, h.received,
    h.max⟩
  · have hnew : HoldsMsg q b (⟨g.linked.length, false, buffer⟩ : Message).buffer := hm
    exact contents_congr (List.rel_append h.contents (.cons hnew .nil)) rfl rfl
  · refine (h.places u).congr rfl (fun b' hb' => ?_)
      (fun _ _ _ hm => hm.congr rfl fun _ _ => rfl) rfl fun _ hr => hr
    -- the last message is not a block that a thread owns
    show (match q.tail with | some tail => _ | none => q.next) b' = q.next b'
    cases htail : q.tail with
    | none => rfl
    | some tail =>
        have hmem : tail ∈ msgs := List.mem_of_getLast? (h.pool.tail.symm.trans htail)
        have hne := (h.ne_of_owned (u := u) hb').2 hmem
        exact Function.update_of_ne hne.symm ..

/-- A message is linked at the beginning. -/
theorem linkUrgent {buffer : List (BitVec 8)} (p' : Pc) (hown : ownedBlock i (pc t) = some b)
    (hown' : ownedBlock i p' = none) (hm : HoldsMsg q b buffer)
    (hself : ∀ q', PlaceOk i q' (g.urgent buffer) t p') : ∃ owners', MqInv i { q with
      next := Function.update q.next b q.head
      head := some b
      tail := if q.tail = none then some b else q.tail
      entry := (q.entry + 1) % 2 ^ 16 } (Function.update pc t p') (g.urgent buffer) free
      (b :: msgs) owners' := by
  obtain ⟨owners', hperm, hg⟩ := h.owners_give p' hown hown'
  have hpool := (h.pool.perm hperm.symm).linkFirst rfl h.max
  refine ⟨owners', hpool, hg, ?_, h.log.urgent, places_update (hself _) fun u hu => ?_,
    h.received, h.max⟩
  · have hnew : HoldsMsg q b (⟨g.linked.length, true, buffer⟩ : Message).buffer := hm
    exact contents_congr (.cons hnew h.contents) rfl rfl
  · refine (h.places u).congr rfl (fun b' hb' => ?_)
      (fun _ _ _ hm => hm.congr rfl fun _ _ => rfl) rfl fun _ hr => hr
    exact Function.update_of_ne ((h.ne_of_owned hown).1 hu hb') ..

/-- A receiver puts its block back. -/
theorem release {size : Nat} (timeout : Int) {bytes : List (BitVec 8)} {m : Message}
    (hown : ownedBlock i (pc t) = some b) (hi : Intact q.msgSize size bytes m.buffer)
    (hhand : g.hand t = some m) : ∃ owners', MqInv i { q with
      next := Function.update q.next b q.free
      free := some b } (Function.update pc t (.ret (.mqRecv i size timeout) .ok (.msg bytes)))
      (g.receive t size bytes) (b :: free) msgs owners' := by
  obtain ⟨owners', hperm, hg⟩ :=
    h.owners_give (.ret (.mqRecv i size timeout) .ok (.msg bytes)) hown rfl
  have hpool := (h.pool.perm hperm.symm).release rfl
  have hlog : (g.receive t size bytes).Ok := h.log.receive
  unfold MsgLog.receive at hlog ⊢
  rw [hhand] at hlog ⊢
  dsimp only at hlog ⊢
  refine ⟨owners', hpool, hg, contents_congr h.contents rfl rfl, hlog, ?_, fun r hr => ?_, h.max⟩
  · refine places_update (.received (m := m) (by simp) (Function.update_self ..)) fun u hu => ?_
    refine (h.places u).congr rfl (fun b' hb' => ?_)
      (fun _ _ _ hm => hm.congr rfl fun _ _ => rfl) (Function.update_of_ne hu ..)
      fun _ hr => List.mem_append_left _ hr
    exact Function.update_of_ne ((h.ne_of_owned hown).1 hu hb') ..
  · rcases List.mem_append.mp hr with hr | hr
    · exact h.received r hr
    · obtain rfl := List.mem_singleton.mp hr
      exact hi

/-- A reset. -/
theorem reset (hown : ownedBlock i (pc t) = none) (hhand : g.hand t = none) :
    MqInv i { mqDrain q.maxMsgs q with entry := 0 }
      (Function.update pc t (.ret (.mqReset i) .ok .none)) g.reset (msgs.reverse ++ free) []
      owners := by
  obtain ⟨hpool, hnext⟩ := h.pool.reset
  have hsame := mqDrain_same q.maxMsgs q
  refine ⟨hpool, h.owners_same (by rw [hown]; rfl), .nil, h.log.reset, ?_, fun r hr => ?_, ?_⟩
  · refine places_update (.returns (fun _ _ => Or.inl (by simp)) hhand) fun u hu => ?_
    refine (h.places u).congr hsame.msgSize (fun b' hb' => hnext b' (h.owned hb'))
      (fun b' buffer _ hm => hm.congr hsame.msgSize fun j _ => ?_) rfl fun _ hr => hr
    show (mqDrain q.maxMsgs q).bytes _ = _
    rw [hsame.bytes]
  · show Intact (mqDrain q.maxMsgs q).msgSize _ _ _
    rw [hsame.msgSize]
    exact h.received r hr
  · show (mqDrain q.maxMsgs q).maxMsgs < _
    rw [hsame.maxMsgs]
    exact h.max

/-- **Every section keeps the invariant**, with the operation of the abstract queue. -/
theorem section_inv (hp : pc t = p) (m : MsgSection i q p p' q') : ∃ free' msgs' owners',
    MqInv i q' (Function.update pc t p') (logStep i t p p' g) free' msgs' owners' := by
  have hplace := h.places t
  rw [hp] at hplace
  have hself : ∀ {b}, ownedBlock i p = some b → ownedBlock i (pc t) = some b := fun hb => by
    rw [hp]
    exact hb
  cases m with
  | wait he hc hf =>
      rw [he.logStep_eq.1]
      have hown : ownedBlock i (pc t) = none := by rw [hp, he.owned]
      exact ⟨_, _, _, h.still (by rw [hown]; rfl) (.wait hf (hplace.enters he))⟩
  | fail he hc hw herr =>
      rw [he.logStep_eq.2.1 _ _ _ hw]
      have hown : ownedBlock i (pc t) = none := by rw [hp, he.owned]
      exact ⟨_, _, _, h.still (by rw [hown]; rfl)
        (.returns (fun _ _ => Or.inr herr) (hplace.enters he))⟩
  | alloc he hc hl hf =>
      rw [he.logStep_eq.2.2.1 _ _ _ hc]
      obtain ⟨free', owners', h'⟩ := h.alloc (t := t) (hp ▸ he) hc hl hf
      exact ⟨_, _, _, h'⟩
  | take he hh =>
      rw [he.logStep_eq.2.2.2]
      obtain ⟨msgs', owners', h'⟩ := h.take (t := t) (hp ▸ he) hh
      exact ⟨_, _, _, h'⟩
  | @write buffer timeout msg =>
      cases hplace with
      | away h1 => exact absurd rfl h1
      | alloc hc hl hh =>
          rcases hc with ⟨_, hc⟩ | hc <;> cases hc
          refine ⟨_, _, _, h.write (hself (if_pos rfl)) (if_pos rfl) hl (Or.inr rfl) ?_⟩
          exact .written (Function.update_self ..) (.write hl rfl) hh
  | @writeUrgent buffer msg =>
      cases hplace with
      | away h1 => exact absurd rfl h1
      | alloc hc hl hh =>
          rcases hc with ⟨_, hc⟩ | hc <;> cases hc
          refine ⟨_, _, _, h.write (hself (if_pos rfl)) (if_pos rfl) hl (Or.inl rfl) ?_⟩
          exact .writtenUrgent (.write hl rfl) hh
  | read =>
      cases hplace with
      | away h1 => exact absurd rfl h1
      | alloc hc => rcases hc with ⟨_, hc⟩ | hc <;> cases hc
      | taken hm hh =>
          exact ⟨_, _, _, h.still (by rw [hp]; rfl) (.read (hm.read _) hh)⟩
  | @link buffer timeout msg r =>
      cases hplace with
      | away h1 => exact absurd rfl h1
      | written hn hm hh =>
          have hlog : logStep i t (.copied (.mqSend i buffer timeout) msg r)
              (.ret (.mqSend i buffer timeout) .ok .none) g = g.send buffer := if_pos rfl
          rw [hlog]
          obtain ⟨owners', h'⟩ := h.link (.ret (.mqSend i buffer timeout) .ok .none)
            (hself (if_pos rfl)) rfl hn hm
            fun q' => .returns (fun _ _ => Or.inl (by simp)) hh
          exact ⟨_, _, _, h'⟩
  | @linkUrgent buffer msg r =>
      cases hplace with
      | away h1 => exact absurd rfl h1
      | writtenUrgent hm hh =>
          have hlog : logStep i t (.copied (.mqUrgent i buffer) msg r)
              (.ret (.mqUrgent i buffer) .ok .none) g = g.urgent buffer := if_pos rfl
          rw [hlog]
          obtain ⟨owners', h'⟩ := h.linkUrgent (.ret (.mqUrgent i buffer) .ok .none)
            (hself (if_pos rfl)) rfl hm
            fun q' => .returns (fun _ _ => Or.inl (by simp)) hh
          exact ⟨_, _, _, h'⟩
  | @release size msg timeout r =>
      cases hplace with
      | away h1 => exact absurd rfl h1
      | @read _ _ _ m bytes hi hh =>
          have hlog : logStep i t (.copied (.mqRecv i size timeout) msg (.msg bytes))
              (.ret (.mqRecv i size timeout) .ok (.msg bytes)) g = g.receive t size bytes :=
            if_pos rfl
          rw [hlog]
          obtain ⟨owners', h'⟩ := h.release timeout (hself (if_pos rfl)) hi hh
          exact ⟨_, _, _, h'⟩
  | reset =>
      have hlog : logStep i t .idle (.ret (.mqReset i) .ok .none) g = g.reset := if_pos rfl
      rw [hlog]
      exact ⟨_, _, _, h.reset (by rw [hp]; rfl) (hplace.enters (Or.inl rfl))⟩

end MqInv

end

/-! ## Runs -/

/-- A run with the abstract queue. -/
structure MqRun where
  sys : Sys
  log : MsgLog

section

variable [RtConfig] {i : Nat} {s s' : Sys} {S S' : MqRun} {a : Action} {t u : ThreadId}

def MqRun.Init (S : MqRun) : Prop := S.sys.Init ∧ S.log = MsgLog.empty

/-- The operations of the abstract queue are the sections of threads. -/
def stepLog (i : Nat) (s s' : Sys) (g : MsgLog) : Action → MsgLog
  | .run t _ => logStep i t (s.pc t) (s'.pc t) g
  | _ => g

def MqRun.exec (i : Nat) (S : MqRun) (a : Action) : Option MqRun :=
  (S.sys.exec a).map fun s' => ⟨s', stepLog i S.sys s' S.log a⟩

def MqRun.Step (i : Nat) (S : MqRun) (a : Action) (S' : MqRun) : Prop := S.exec i a = some S'

/-- The queue refines the abstract one, with some lists of blocks. -/
def MqOk (i : Nat) (S : MqRun) : Prop :=
  ∃ free msgs owners, MqInv i (S.sys.ipc.mq i) S.sys.pc S.log free msgs owners

theorem MqRun.exec_cases (h : S.exec i a = some S') :
    S.sys.Step a S'.sys ∧ S'.log = stepLog i S.sys S'.sys S.log a := by
  obtain ⟨s', hs, rfl⟩ := Option.map_eq_some_iff.mp h
  exact ⟨hs, rfl⟩

theorem MqRun.reachable_sys (h : Reachable MqRun.Init (MqRun.Step i) S) :
    Reachable Sys.Init Sys.Step S.sys := by
  induction h with
  | init h => exact .init h.1
  | step _ hs ih => exact ih.step (MqRun.exec_cases hs).1

theorem MqRun.Init.ok (h : S.Init) : MqOk i S := by
  obtain ⟨h, hlog⟩ := h
  have hbuild : ∃ q msgpool msgSize n flag, n < 2 ^ 16 ∧
      S.sys.ipc.mq i = mqBuild q msgpool msgSize n flag := by
    obtain ⟨q, msgpool, msgSize, n, flag, he | he⟩ := h.mq i
    · exact ⟨q, msgpool, _, _, flag, Nat.mod_lt _ (by decide), he⟩
    · exact ⟨q, msgpool, _, _, flag, Nat.mod_lt _ (by decide), he⟩
  obtain ⟨q, msgpool, msgSize, n, flag, hn, he⟩ := hbuild
  obtain ⟨hpool, hmax⟩ := pool_mqBuild q msgpool msgSize n flag
  unfold MqOk
  rw [he, hlog]
  refine ⟨_, [], [], hpool, .nil fun t => ?_, .nil, .empty, fun t => ?_, fun r hr => ?_, ?_⟩
  · rw [h.idle t]
    rfl
  · rw [h.idle t]
    exact .away (by simp [Pc.obj]) rfl
  · cases hr
  · rw [hmax]
    exact hn

omit [RtConfig] in
/-- A section at another object is no operation of the abstract queue. -/
theorem logStep_elsewhere {p p' : Pc} {g : MsgLog} (hp : p.obj ≠ some (.mq i))
    (hp' : p'.obj ≠ some (.mq i)) : logStep i t p p' g = g := by
  have hj : ∀ {j}, p.obj = some (.mq j) → j ≠ i := by
    rintro j h rfl
    exact hp h
  have hj' : ∀ {j}, p'.obj = some (.mq j) → j ≠ i := by
    rintro j h rfl
    exact hp' h
  unfold logStep
  split
  · exact if_neg (hj rfl)
  · exact if_neg (hj rfl)
  · exact if_neg (hj rfl)
  · exact if_neg (hj' rfl)
  · exact if_neg (hj' rfl)
  · rfl

/-- A step that is no section at the queue, for each thread: it stays, or it is elsewhere, or its
call returns. -/
inductive Aside (i : Nat) (a : Action) (t : ThreadId) (p p' : Pc) : Prop
  | stays (hp : p' = p) (ha : ∀ r, a ≠ .run t r)
  | elsewhere (hp : p.obj ≠ some (.mq i)) (hp' : p'.obj ≠ some (.mq i))
  | returns {c : Call} {e : Err} {r : Reply} (hp : p = .ret c e r) (hp' : p' = .idle)
      (ha : a = .ret t)

/-- **What a step does to the queue**: a section on it, or nothing at all. -/
theorem step_section (hs : s.Step a s') (j : SysInv s) (hf : ∀ t c, s.pc t = .wait c →
    c.obj = .mq i → Fits (s.ipc.mq i) c) :
    (∃ t r p, a = .run t r ∧ MsgSection i (s.ipc.mq i) (s.pc t) p (s'.ipc.mq i) ∧
      s'.pc = Function.update s.pc t p) ∨
    (s'.ipc.mq i = s.ipc.mq i ∧ ∀ t, Aside i a t (s.pc t) (s'.pc t)) := by
  obtain ⟨t, r, x, rfl, hr, hx, rfl⟩ | ⟨t, c, e, r, rfl, hr, hpc, rfl⟩ |
    ⟨c, t, x, rfl, hc, ht, hx, rfl⟩ | ⟨t, k', rfl, ht, hk, rfl⟩ | ⟨t, p, rfl, hp, rfl⟩ |
    ⟨k', rfl, hk, rfl⟩ := Step.cases hs
  · obtain ⟨o, ho, ok⟩ := sect_ok j hr hx
    by_cases hoi : o = .mq i
    · subst hoi
      refine Or.inl ⟨t, r, x.pc, rfl, ?_, rfl⟩
      obtain ⟨c, rfl, hp, hx⟩ | ⟨delta, c, rfl, hp, hx⟩ | ⟨c, msg, m, rfl, hp, hm, hx⟩ |
        ⟨c, msg, r', m, rfl, hp, hm, hx⟩ := sect_cases hx
      · rw [hp]
        exact call_msg hx (Option.some.inj ho)
      · have hobj : c.obj = .mq i := by simpa [Sys.actObj, hp, Pc.obj] using ho
        rw [hp]
        exact resumed_msg (hf t c hp hobj) hx hobj
      · rw [hp]
        exact copy_msg hx (by simpa [Sys.actObj, hp, Pc.obj] using ho)
      · rw [hp]
        exact finish_msg hx (by simpa [Sys.actObj, hp, Pc.obj] using ho)
    · refine Or.inr ⟨ok.others _ fun e => hoi e.symm, fun u => ?_⟩
      by_cases hu : u = t
      · subst hu
        refine .elsewhere (fun h => ?_) ?_
        · obtain ⟨c, rfl, hp, -⟩ | ⟨delta, c, rfl, hp, -⟩ | ⟨c, msg, m, rfl, hp, -⟩ |
            ⟨c, msg, r', m, rfl, hp, -⟩ := sect_cases hx
          · rw [hp] at h
            cases h
          all_goals exact hoi (Option.some.inj (ho.symm.trans h))
        · show (Function.update s.pc u x.pc u).obj ≠ _
          rw [Function.update_self, ok.obj]
          exact fun h => hoi (Option.some.inj h)
      · exact .stays (Function.update_of_ne hu ..) fun r' h => hu (Action.run.inj h).1.symm
  · refine Or.inr ⟨rfl, fun u => ?_⟩
    by_cases hu : u = t
    · subst hu
      exact .returns hpc (Function.update_self ..) rfl
    · exact .stays (Function.update_of_ne hu ..) (by simp)
  · have hne : Obj.mq i ≠ c.obj := by
      intro he
      cases c <;> first | exact hc | cases he
    exact Or.inr ⟨(isr_ok j hc hx).others _ hne, fun u => .stays rfl (by simp)⟩
  · exact Or.inr ⟨rfl, fun u => .stays rfl (by simp)⟩
  · exact Or.inr ⟨rfl, fun u => .stays rfl (by simp)⟩
  · exact Or.inr ⟨rfl, fun u => .stays rfl (by simp)⟩

omit [RtConfig] in
theorem ownedBlock_of_obj {p : Pc} (hp : p.obj ≠ some (.mq i)) : ownedBlock i p = none := by
  unfold ownedBlock
  split
  · exact if_neg fun hc => hp (congrArg some hc)
  · exact if_neg fun hc => hp (congrArg some hc)
  · rfl

omit [RtConfig] in
theorem Aside.place {q : MsgQueue} {g : MsgLog} {p p' : Pc} (h : Aside i a t p p')
    (hp : PlaceOk i q g t p) :
    PlaceOk i q g t p' ∧ ownedBlock i p' = ownedBlock i p := by
  cases h with
  | stays he =>
      subst he
      exact ⟨hp, rfl⟩
  | elsewhere h1 h2 =>
      refine ⟨.away h2 ?_, by rw [ownedBlock_of_obj h1, ownedBlock_of_obj h2]⟩
      cases hp with
      | away _ hh | wait _ hh | alloc _ _ hh | returns _ hh | received _ hh => exact hh
      | written | writtenUrgent | taken | read => exact absurd rfl h1
  | returns he he' =>
      subst he he'
      refine ⟨.away (by simp [Pc.obj]) ?_, rfl⟩
      cases hp with
      | away _ hh | returns _ hh | received _ hh => exact hh

theorem step_mqOk (hs : S.exec i a = some S') (j : SysInv S.sys) (h : MqOk i S) : MqOk i S' := by
  obtain ⟨hs', hlog⟩ := MqRun.exec_cases hs
  obtain ⟨free, msgs, owners, inv⟩ := h
  have hf : ∀ t c, S.sys.pc t = .wait c → c.obj = .mq i → Fits (S.sys.ipc.mq i) c := by
    intro t c hp hc
    have hplace := inv.places t
    rw [hp] at hplace
    cases hplace with
    | away h1 => exact absurd (congrArg some hc) h1
    | wait hf => exact hf
  obtain ⟨t, r, p, rfl, m, hpc⟩ | ⟨hq, hpc⟩ := step_section (i := i) hs' j hf
  · obtain ⟨free', msgs', owners', inv'⟩ := inv.section_inv rfl m
    refine ⟨free', msgs', owners', ?_⟩
    have hend : S'.sys.pc t = p := by rw [hpc, Function.update_self]
    rw [hlog]
    show MqInv i _ _ (logStep i t (S.sys.pc t) (S'.sys.pc t) S.log) _ _ _
    rw [hend, hpc]
    exact inv'
  · have hsame : S'.log = S.log := by
      rw [hlog]
      unfold stepLog
      split
      · rename_i t r
        cases hpc t with
        | stays _ ha => exact absurd rfl (ha r)
        | elsewhere h1 h2 => exact logStep_elsewhere h1 h2
        | returns _ _ ha => cases ha
      · rfl
    refine ⟨free, msgs, owners, ?_⟩
    rw [hq, hsame]
    exact ⟨inv.pool, inv.owners.congr fun t => ((hpc t).place (inv.places t)).2, inv.contents,
      inv.log, fun t => ((hpc t).place (inv.places t)).1, inv.received, inv.max⟩

theorem mqOk_of_reachable (h : Reachable MqRun.Init (MqRun.Step i) S) : MqOk i S := by
  refine h.invariant (I := MqOk i) (fun _ hi => hi.ok) fun S a S' hr hi hs => ?_
  exact step_mqOk hs (sysInv_of_reachable (MqRun.reachable_sys hr)) hi

/-- **Integrity of a message queue**, in every state of every run. Each block is in one of the free
list, the message list, or owned by one thread, and there are `max_msgs`; the counter and the tail
belong to the message list, which holds the messages of the abstract queue; and what was received
are different messages, each with its bytes. -/
theorem msg_queue_integrity (h : Reachable MqRun.Init (MqRun.Step i) S) :
    ∃ free msgs owners, MqInv i (S.sys.ipc.mq i) S.sys.pc S.log free msgs owners ∧
      free.length + msgs.length + owners.length = (S.sys.ipc.mq i).maxMsgs ∧
      (free ++ msgs ++ owners.map (·.2)).Nodup ∧
      (S.sys.ipc.mq i).entry = msgs.length ∧
      (S.sys.ipc.mq i).tail = msgs.getLast? ∧ ((S.sys.ipc.mq i).tail = none ↔ msgs = []) ∧
      (S.log.received.map (·.msg.id)).Nodup ∧ ∀ r ∈ S.log.received,
        r.msg ∈ S.log.linked ∧ Intact (S.sys.ipc.mq i).msgSize r.size r.bytes r.msg.buffer := by
  obtain ⟨free, msgs, owners, inv⟩ := mqOk_of_reachable h
  have hpool := inv.pool
  refine ⟨free, msgs, owners, inv, ?_, hpool.nodup, hpool.entry, hpool.tail, ?_,
    inv.log.received_nodup, fun r hr => ⟨?_, inv.received r hr⟩⟩
  · have ht := hpool.total
    rwa [List.length_map] at ht
  · rw [hpool.tail, List.getLast?_eq_none_iff]
  · obtain ⟨l, -, hp⟩ := inv.log.hands
    have htaken : r.msg ∈ S.log.taken :=
      hp.subset (List.mem_append_left _ (List.mem_map_of_mem hr))
    exact inv.log.conserved.subset (by simp [htaken])

end

/-! ## One message -/

attribute [local instance] config32

/-- Thread 1 sends a message of two bytes, and receives it with room for four. -/
theorem msg_queue_integrity_one : ∃ s S, startSys (fun _ => 10) [1] (fun _ => ⟨0, .fifo⟩)
      (fun _ => .fifo) = some s ∧
    runList (MqRun.exec 0) ⟨s, MsgLog.empty⟩
      [.run 1 (.call (.mqSend 0 [7, 8] 0)), .run 1 .copy, .run 1 .finish, .ret 1,
        .run 1 (.call (.mqRecv 0 4 0)), .run 1 .copy, .run 1 .finish] = some S ∧
    (S.log.received.map (·.msg.id)).Nodup ∧ S.log.received.map (·.bytes) = [[7, 8, 0, 0]] := by
  obtain ⟨s, hs⟩ : ∃ s, startSys (fun _ => 10) [1] (fun _ => ⟨0, .fifo⟩) (fun _ => .fifo) = some s :=
    ⟨_, rfl⟩
  have hi : MqRun.Init ⟨s, MsgLog.empty⟩ :=
    ⟨startSys_init (fun _ => by decide) (fun _ => by decide) hs, rfl⟩
  obtain ⟨S, hS, hbytes⟩ : ∃ S, runList (MqRun.exec 0) ⟨s, MsgLog.empty⟩
      [.run 1 (.call (.mqSend 0 [7, 8] 0)), .run 1 .copy, .run 1 .finish, .ret 1,
        .run 1 (.call (.mqRecv 0 4 0)), .run 1 .copy, .run 1 .finish] = some S ∧
      S.log.received.map (·.bytes) = [[7, 8, 0, 0]] := by
    obtain rfl := Option.some.inj hs
    exact ⟨_, rfl, rfl⟩
  obtain ⟨-, -, -, -, -, -, -, -, -, hnd, -⟩ :=
    msg_queue_integrity (reachable_of_runList (.init hi) hS)
  exact ⟨s, S, hs, hS, hnd, hbytes⟩

end RTThread.Ipc
