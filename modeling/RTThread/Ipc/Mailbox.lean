import RTThread.Lib.RingBuffer
import RTThread.Ipc.Start

set_option autoImplicit false

/-! # Mails in order

A mailbox is a bounded queue in a ring buffer. `MailSection` says what one section of a call can do
to the mailbox: nothing at all as long as the call waits or fails, one mail at its end. Which
threads wait and who is woken plays no part in it.
-/

namespace RTThread.Ipc

open Kernel Trans

/-! ## What one section does to a mailbox -/

/-- From one mailbox to another, with the place of the call after it. -/
inductive MailSection (i : Nat) (mb : Mailbox) : Pc → Mailbox → Prop
  /-- the call waits for room or for a mail -/
  | wait {c : Call} (hc : c.obj = .mb i) : MailSection i mb (.wait c) mb
  | fail {c : Call} {e : Err} {r : Reply} (hc : c.obj = .mb i) (hw : c.waitsOn ≠ none)
      (he : e ≠ .ok) :
      MailSection i mb (.ret c e r) mb
  | send {value : BitVec 32} {timeout : Int} (he : mb.entry ≠ mb.size) :
      MailSection i mb (.ret (.mbSend i value timeout) .ok .none) { mb with
        msgPool := Function.update mb.msgPool mb.inOffset value
        inOffset := nextOffset mb.inOffset mb.size
        entry := (mb.entry + 1) % 2 ^ 16 }
  | recv {timeout : Int} (he : mb.entry ≠ 0) :
      MailSection i mb (.ret (.mbRecv i timeout) .ok (.mail (mb.msgPool mb.outOffset))) { mb with
        outOffset := nextOffset mb.outOffset mb.size
        entry := mb.entry - 1 }
  | reset : MailSection i mb (.ret (.mbReset i) .ok .none)
      { mb with entry := 0, inOffset := 0, outOffset := 0 }

section

variable [RtConfig] {s : Ipc} {x : Section} {t : ThreadId} {i : Nat} {value : BitVec 32}
  {timeout : Int} {c : Call} {delta : Nat}

omit [RtConfig] in
theorem MailSection.obj {mb mb' : Mailbox} {p : Pc} (m : MailSection i mb p mb') :
    p.obj = some (.mb i) := by
  cases m with
  | wait hc | fail hc => exact congrArg some hc
  | send | recv | reset => rfl

theorem resumeFirst_mb {h : ListHead} {p : Pc} (hx : s.resumeFirst h p = some x) :
    x.pc = p ∧ x.ipc.mb = s.mb := by
  unfold resumeFirst at hx
  split_ifs at hx
  · obtain ⟨k, -, hx⟩ := Option.bind_eq_some_iff.mp hx
    obtain rfl := Option.some.inj hx
    exact ⟨rfl, rfl⟩
  · obtain rfl := Option.some.inj hx
    exact ⟨rfl, rfl⟩

theorem Loops.mail (hl : Loops s t x c) (hc : c.obj = .mb i) :
    MailSection i (s.mb i) x.pc (x.ipc.mb i) := by
  cases hl with
  | mbSend hx =>
      obtain rfl := Obj.mb.inj hc
      unfold mbSendLoop at hx
      dsimp only at hx
      split_ifs at hx with he ht
      · obtain rfl := Option.some.inj hx
        exact .fail rfl (by simp [Call.waitsOn]) (by simp)
      · obtain ⟨k, -, hx⟩ := Option.bind_eq_some_iff.mp hx
        obtain rfl := Option.some.inj hx
        exact .wait rfl
      · obtain ⟨hp, hm⟩ := resumeFirst_mb hx
        rw [hp, hm, setMb_self]
        exact .send he
  | mbRecv hx =>
      obtain rfl := Obj.mb.inj hc
      unfold mbRecvLoop at hx
      dsimp only at hx
      split_ifs at hx with he ht
      · obtain rfl := Option.some.inj hx
        exact .fail rfl (by simp [Call.waitsOn]) (by simp)
      · obtain ⟨k, -, hx⟩ := Option.bind_eq_some_iff.mp hx
        obtain rfl := Option.some.inj hx
        exact .wait rfl
      · obtain ⟨hp, hm⟩ := resumeFirst_mb hx
        rw [hp, hm, setMb_self]
        exact .recv he
  | mqSend | mqRecv => cases hc

/-- The first section. -/
theorem call_mail (hx : s.call t c = some x) (hc : c.obj = .mb i) :
    MailSection i (s.mb i) x.pc (x.ipc.mb i) := by
  cases c with
  | mbSend | mbRecv =>
      obtain ⟨e, he, rfl⟩ | hl := call_loops hx trivial
      · exact .fail hc (by simp [Call.waitsOn]) he
      · exact hl.mail hc
  | mbReset m =>
      obtain rfl : m = i := Obj.mb.inj hc
      obtain rfl := Option.some.inj hx
      simp only [setMb_self]
      exact .reset
  | _ => simp [Call.obj] at hc

/-- The section after `rt_schedule`: the call looks again, or fails. -/
theorem resumed_mail (hx : s.resumed t delta c = some x) (hc : c.obj = .mb i) :
    MailSection i (s.mb i) x.pc (x.ipc.mb i) := by
  cases c with
  | mbSend | mbRecv =>
      obtain ⟨r, he, rfl⟩ | ⟨_, _, hm, -⟩ | hl := resumed_cases hx
      · exact .fail hc (by simp [Call.waitsOn]) (he trivial)
      · cases hm
      · exact hl.mail hc
  | mbReset => cases hx
  | _ => simp [Call.obj] at hc

end

/-! ## The queue of a mailbox -/

/-- The mailbox holds the queue. -/
structure HoldsMails {n : Nat} (mb : Mailbox) (q : RingBuffer (BitVec 32) n) : Prop where
  size : mb.size = n
  pool : mb.msgPool = q.pool
  entry : mb.entry = q.count
  outOffset : mb.outOffset = q.head
  inOffset : mb.inOffset = q.tail

/-- The undelivered mails, oldest first. -/
def mails (mb : Mailbox) : List (BitVec 32) :=
  (List.range mb.entry).map fun j => mb.msgPool ((mb.outOffset + j) % mb.size)

section

variable {n : Nat} {mb mb' : Mailbox} {q : RingBuffer (BitVec 32) n}

theorem HoldsMails.mails_eq (h : HoldsMails mb q) : mails mb = q.toList := by
  unfold mails RingBuffer.toList
  rw [h.size, h.pool, h.entry, h.outOffset]

theorem nextOffset_eq {o n : Nat} (ho : o < n) (hn : n < 2 ^ 16) :
    nextOffset o n = (o + 1) % n := by
  have hlt : o + 1 < 2 ^ 16 := by omega
  unfold nextOffset
  rw [Nat.mod_eq_of_lt hlt]
  dsimp only
  split_ifs with hle
  · have heq : o + 1 = n := by omega
    rw [heq, Nat.mod_self]
  · rw [Nat.mod_eq_of_lt (by omega)]

theorem HoldsMails.send (h : HoldsMails mb q) (hn : n < 2 ^ 16) (value : BitVec 32)
    (he : mb.entry ≠ mb.size) : HoldsMails { mb with
      msgPool := Function.update mb.msgPool mb.inOffset value
      inOffset := nextOffset mb.inOffset mb.size
      entry := (mb.entry + 1) % 2 ^ 16 } (q.push value (by rw [← h.entry, ← h.size]; exact he)) := by
  have hcount : q.count ≠ n := by rwa [← h.entry, ← h.size]
  have hle := q.count_le
  refine ⟨h.size, ?_, ?_, h.outOffset, ?_⟩
  · show Function.update mb.msgPool mb.inOffset value = Function.update q.pool q.tail value
    rw [h.pool, h.inOffset]
  · show (mb.entry + 1) % 2 ^ 16 = q.count + 1
    rw [h.entry]
    omega
  · show nextOffset mb.inOffset mb.size = _
    have htail : q.tail < n := Nat.mod_lt _ (Nat.zero_lt_of_lt q.head_lt)
    rw [q.tail_push value hcount, h.inOffset, ← nextOffset_eq htail hn]
    exact congrArg (nextOffset q.tail) h.size

theorem HoldsMails.recv (h : HoldsMails mb q) (hn : n < 2 ^ 16) (he : mb.entry ≠ 0) :
    HoldsMails { mb with
      outOffset := nextOffset mb.outOffset mb.size
      entry := mb.entry - 1 } q.pop := by
  have hcount : q.count ≠ 0 := by rwa [← h.entry]
  refine ⟨h.size, h.pool, ?_, ?_, ?_⟩
  · show mb.entry - 1 = q.count - 1
    rw [h.entry]
  · show nextOffset mb.outOffset mb.size = (q.head + 1) % n
    rw [h.outOffset, h.size, nextOffset_eq q.head_lt hn]
  · show mb.inOffset = _
    rw [h.inOffset, q.tail_pop hcount]

theorem HoldsMails.reset (h : HoldsMails mb q) :
    HoldsMails { mb with entry := 0, inOffset := 0, outOffset := 0 }
      (RingBuffer.empty q.pool (Nat.zero_lt_of_lt q.head_lt)) := by
  refine ⟨h.size, h.pool, rfl, rfl, ?_⟩
  rw [RingBuffer.tail_empty]

end

/-! ## Runs -/

/-- The place at which the section of a step ends. -/
def endPlace [RtConfig] (s s' : Sys) : Action → Option Pc
  | .run t _ => some (s'.pc t)
  | .isr c => (s.ipc.kernel.current.bind fun t => s.ipc.call t c).map (·.pc)
  | _ => none

/-- The mails sent since the last reset, after a section that ends at this place. -/
def logSent (i : Nat) (log : List (BitVec 32)) : Pc → List (BitVec 32)
  | .ret (.mbSend j value _) .ok _ => if j = i then log ++ [value] else log
  | .ret (.mbReset j) _ _ => if j = i then [] else log
  | _ => log

/-- The mails delivered since the last reset, after a section that ends at this place. -/
def logDelivered (i : Nat) (log : List (BitVec 32)) : Pc → List (BitVec 32)
  | .ret (.mbRecv j _) .ok (.mail value) => if j = i then log ++ [value] else log
  | .ret (.mbReset j) _ _ => if j = i then [] else log
  | _ => log

/-- A run that records the mails sent and delivered since the last reset, in the order of the
sections, and how many mails the call of each thread has moved. -/
structure MbRun where
  sys : Sys
  sent : List (BitVec 32)
  delivered : List (BitVec 32)
  moved : ThreadId → Nat

section

variable [RtConfig] {i n : Nat} {s s' : Sys} {S S' : MbRun} {a : Action} {t v : ThreadId}
  {c : Call} {e : Err} {r : Reply} {p : Pc} {x : Section}

def MbRun.Init (i n : Nat) (S : MbRun) : Prop :=
  S.sys.Init ∧ 1 ≤ n ∧ (S.sys.ipc.mb i).size = n ∧ S.sent = [] ∧ S.delivered = [] ∧
    ∀ t, S.moved t = 0

/-- The mails moved by the call of a thread; its return ends the count. -/
def countMoved (i : Nat) (s s' : Sys) (moved : ThreadId → Nat) : Action → ThreadId → Nat
  | .run t _ => Function.update moved t
      (moved t + if (s'.ipc.mb i).entry = (s.ipc.mb i).entry then 0 else 1)
  | .ret t => Function.update moved t 0
  | _ => moved

def MbRun.exec (i : Nat) (S : MbRun) (a : Action) : Option MbRun :=
  (S.sys.exec a).map fun s' => {
    sys := s'
    sent := (endPlace S.sys s' a).elim S.sent (logSent i S.sent)
    delivered := (endPlace S.sys s' a).elim S.delivered (logDelivered i S.delivered)
    moved := countMoved i S.sys s' S.moved a }

def MbRun.Step (i : Nat) (S : MbRun) (a : Action) (S' : MbRun) : Prop := S.exec i a = some S'

/-- A bounded queue of the mails that were sent and not yet delivered. -/
structure Fifo (i n : Nat) (S : MbRun) : Prop where
  size : (S.sys.ipc.mb i).size = n
  order : S.sent = S.delivered ++ mails (S.sys.ipc.mb i)
  entry : S.delivered.length + (S.sys.ipc.mb i).entry = S.sent.length
  bound : (S.sys.ipc.mb i).entry ≤ n
  offsets : (S.sys.ipc.mb i).inOffset =
    ((S.sys.ipc.mb i).outOffset + (S.sys.ipc.mb i).entry) % n
  outOffset : (S.sys.ipc.mb i).outOffset < n

/-- What the call of a thread at this place has moved: nothing as long as it waits, nothing if it
fails, and one mail if it returns RT_EOK. -/
def MovedOk (i : Nat) : Pc → Nat → Prop
  | .idle, n => n = 0
  | .wait c, n => c.obj = .mb i → n = 0
  | .ret c e _, n => c.obj = .mb i → c.waitsOn ≠ none → n = if e = .ok then 1 else 0
  | _, _ => True

/-- The queue behind the mailbox. -/
def Queued (mb : Mailbox) (n : Nat) (sent delivered : List (BitVec 32)) : Prop :=
  n < 2 ^ 16 ∧ ∃ q : RingBuffer (BitVec 32) n, HoldsMails mb q ∧ sent = delivered ++ q.toList

omit [RtConfig] in
theorem Queued.fifo (h : Queued (S.sys.ipc.mb i) n S.sent S.delivered) : Fifo i n S := by
  obtain ⟨-, q, hq, ho⟩ := h
  refine ⟨hq.size, by rw [ho, hq.mails_eq], ?_, by rw [hq.entry]; exact q.count_le, ?_, ?_⟩
  · rw [ho, hq.entry, List.length_append, q.length_toList]
  · rw [hq.inOffset, hq.outOffset, hq.entry]
    rfl
  · rw [hq.outOffset]
    exact q.head_lt

/-! ### One step -/

/-- A call of an interrupt handler ends at its object. -/
theorem isr_place (j : SysInv s) (hc : c.FromIsr) (hx : s.ipc.call t c = some x) :
    x.pc.obj = some c.obj := by
  cases c with
  | semTake m time =>
      obtain rfl : time = 0 := hc
      simp only [call, rtSemTake, if_true] at hx
      split_ifs at hx <;> obtain rfl := Option.some.inj hx <;> rfl
  | semRelease m =>
      obtain ⟨u, l, k', -, -, rfl⟩ | ⟨-, rfl⟩ := rtSemRelease_cases j.wait.sched hx <;> rfl
  | eventSend m set =>
      simp only [call, rtEventSend] at hx
      split_ifs at hx <;> obtain rfl := Option.some.inj hx <;> rfl
  | mbSend m value timeout => exact (call_mail hx rfl).obj
  | mbRecv m timeout => exact (call_mail hx rfl).obj
  | semReset | mutexTake | mutexRelease | eventRecv | eventReset | mbReset | mqSend | mqUrgent |
    mqRecv | mqReset => exact absurd hc (by simp [Call.FromIsr])

/-- **What a step does to the mailbox**: a section on it, or nothing at all. -/
theorem step_mail (hs : s.Step a s') (j : SysInv s) :
    (∃ p, endPlace s s' a = some p ∧ MailSection i (s.ipc.mb i) p (s'.ipc.mb i)) ∨
    (s'.ipc.mb i = s.ipc.mb i ∧ ∀ p, endPlace s s' a = some p →
      p.obj ≠ some (.mb i) ∧ p ≠ .idle) := by
  by_cases ha : s.actObj a = some (.mb i)
  · obtain ⟨t, r, x, rfl, hr, hx, rfl⟩ | ⟨t, c, e, r, rfl, hr, hpc, rfl⟩ |
      ⟨c, t, x, rfl, hc, ht, hx, rfl⟩ | ⟨t, k', rfl, ht, hk, rfl⟩ | ⟨t, p, rfl, hp, rfl⟩ |
      ⟨k', rfl, hk, rfl⟩ := Step.cases hs
    · refine Or.inl ⟨x.pc, by simp [endPlace], ?_⟩
      obtain ⟨c, rfl, hobj, -, hx⟩ | ⟨delta, c, rfl, hobj, -, hx⟩ :=
        sect_cases_of_ne hx ha (by simp)
      · exact call_mail hx hobj
      · exact resumed_mail hx hobj
    · exact Or.inr ⟨rfl, fun p hp => by cases hp⟩
    · refine Or.inl ⟨x.pc, by simp [endPlace, ht, hx], call_mail hx (Option.some.inj ha)⟩
    · exact Or.inr ⟨rfl, fun p hp => by cases hp⟩
    · cases ha
    · cases ha
  · refine Or.inr ⟨(Step.frame hs j ha).same, fun p hp => ?_⟩
    have hne : p.obj ≠ some (.mb i) ∧ p.obj ≠ none := by
      obtain ⟨t, r, x, rfl, hr, hx, rfl⟩ | ⟨t, c, e, r, rfl, -⟩ | ⟨c, t, x, rfl, hc, ht, hx, rfl⟩ |
        ⟨t, k', rfl, -⟩ | ⟨t, p, rfl, -⟩ | ⟨k', rfl, -⟩ := Step.cases hs
      · obtain ⟨o, ho, ok⟩ := sect_ok j hr hx
        obtain rfl : x.pc = p := by simpa [endPlace] using hp
        rw [ok.obj, ← ho]
        exact ⟨ha, by rw [ho]; simp⟩
      · cases hp
      · obtain rfl : x.pc = p := by simpa [endPlace, ht, hx] using hp
        rw [isr_place j hc hx]
        exact ⟨ha, by simp⟩
      · cases hp
      · cases hp
      · cases hp
    refine ⟨hne.1, fun he => hne.2 ?_⟩
    rw [he]
    rfl

omit [RtConfig] in
/-- A section elsewhere is not recorded. -/
theorem log_elsewhere (log : List (BitVec 32)) (hp : p.obj ≠ some (.mb i)) :
    logSent i log p = log ∧ logDelivered i log p = log := by
  have hj : ∀ {j}, p.obj = some (.mb j) → j ≠ i := by
    rintro j h rfl
    exact hp h
  constructor
  · unfold logSent
    split
    · exact if_neg (hj rfl)
    · exact if_neg (hj rfl)
    · rfl
  · unfold logDelivered
    split
    · exact if_neg (hj rfl)
    · exact if_neg (hj rfl)
    · rfl

omit [RtConfig] in
/-- A section keeps the queue. -/
theorem Queued.section {mb mb' : Mailbox} {sent delivered : List (BitVec 32)}
    (h : Queued mb n sent delivered) (m : MailSection i mb p mb') :
    Queued mb' n (logSent i sent p) (logDelivered i delivered p) := by
  obtain ⟨hn, q, hq, ho⟩ := h
  refine ⟨hn, ?_⟩
  cases m with
  | wait => exact ⟨q, hq, ho⟩
  | @fail c e r hc hw he =>
      have hlog : logSent i sent (.ret c e r) = sent ∧
          logDelivered i delivered (.ret c e r) = delivered := by
        cases e <;> cases c <;> first
          | exact absurd rfl he
          | exact absurd rfl hw
          | exact ⟨rfl, rfl⟩
      exact ⟨q, hq, by rw [hlog.1, hlog.2, ho]⟩
  | @send value timeout he =>
      refine ⟨_, hq.send hn value he, ?_⟩
      have hs : logSent i sent (.ret (.mbSend i value timeout) .ok .none) = sent ++ [value] :=
        if_pos rfl
      rw [hs, RingBuffer.toList_push, ho, List.append_assoc]
      rfl
  | @recv timeout he =>
      refine ⟨_, hq.recv hn he, ?_⟩
      have hcount : q.count ≠ 0 := by rwa [← hq.entry]
      have hd : logDelivered i delivered (.ret (.mbRecv i timeout) .ok
          (.mail (mb.msgPool mb.outOffset))) = delivered ++ [mb.msgPool mb.outOffset] := if_pos rfl
      calc sent = delivered ++ q.toList := ho
        _ = delivered ++ ([q.pool q.head] ++ q.pop.toList) := by rw [q.toList_pop hcount]; rfl
        _ = delivered ++ [q.pool q.head] ++ q.pop.toList := by rw [List.append_assoc]
        _ = _ := by rw [hd, hq.pool, hq.outOffset]
  | reset =>
      refine ⟨_, hq.reset, ?_⟩
      have hs : logSent i sent (.ret (.mbReset i) .ok .none) = [] := if_pos rfl
      have hd : logDelivered i delivered (.ret (.mbReset i) .ok .none) = [] := if_pos rfl
      rw [hs, hd, RingBuffer.toList_empty]
      rfl

omit [RtConfig] in
/-- A section of a call that had moved nothing. -/
theorem MailSection.moved {mb mb' : Mailbox} (m : MailSection i mb p mb') (hb : mb.entry < 2 ^ 16) :
    MovedOk i p (if mb'.entry = mb.entry then 0 else 1) := by
  cases m with
  | wait hc => exact fun _ => if_pos rfl
  | fail hc hw he =>
      intro _ _
      rw [if_pos rfl, if_neg he]
  | send he =>
      intro _ _
      rw [if_neg (by dsimp only; omega), if_pos rfl]
  | recv he =>
      intro _ _
      rw [if_neg (by dsimp only; omega), if_pos rfl]
  | reset => exact fun _ hw => absurd rfl hw

/-- A section begins before its call has moved anything. -/
theorem moved_zero {r : Run} (hx : s.sect t r = some x) (ha : s.actObj (.run t r) = some (.mb i))
    (h : MovedOk i (s.pc t) n) : n = 0 := by
  obtain ⟨c, -, -, hp, -⟩ | ⟨delta, c, -, hobj, hp, -⟩ := sect_cases_of_ne hx ha (by simp)
  · rw [hp] at h
    exact h
  · rw [hp] at h
    exact h hobj

/-! ### Every run -/

theorem MbRun.exec_cases (h : S.exec i a = some S') : S.sys.Step a S'.sys ∧
    S'.sent = (endPlace S.sys S'.sys a).elim S.sent (logSent i S.sent) ∧
    S'.delivered = (endPlace S.sys S'.sys a).elim S.delivered (logDelivered i S.delivered) ∧
    S'.moved = countMoved i S.sys S'.sys S.moved a := by
  obtain ⟨s', hs, rfl⟩ := Option.map_eq_some_iff.mp h
  exact ⟨hs, rfl, rfl, rfl⟩

theorem MbRun.reachable_sys (h : Reachable (MbRun.Init i n) (MbRun.Step i) S) :
    Reachable Sys.Init Sys.Step S.sys := by
  induction h with
  | init h => exact .init h.1
  | step _ hs ih => exact ih.step (MbRun.exec_cases hs).1

/-- The queue behind the mailbox, and the calls at it. -/
def MbInv (i n : Nat) (S : MbRun) : Prop :=
  Queued (S.sys.ipc.mb i) n S.sent S.delivered ∧ ∀ t, MovedOk i (S.sys.pc t) (S.moved t)

theorem MbRun.Init.mbInv (h : S.Init i n) : MbInv i n S := by
  obtain ⟨h, hn, hsize, h1, h2, h3⟩ := h
  obtain ⟨pool, size, flag, hlt, hm⟩ := h.mb i
  rw [hm] at hsize
  obtain rfl : size = n := hsize
  refine ⟨⟨hlt, RingBuffer.empty pool hn, ?_, ?_⟩, fun t => ?_⟩
  · rw [hm]
    exact ⟨rfl, rfl, rfl, rfl, (RingBuffer.tail_empty pool hn).symm⟩
  · rw [h1, h2, RingBuffer.toList_empty]
    rfl
  · rw [h.idle t]
    exact h3 t

theorem step_queued (hs : S.exec i a = some S') (j : SysInv S.sys)
    (h : Queued (S.sys.ipc.mb i) n S.sent S.delivered) :
    Queued (S'.sys.ipc.mb i) n S'.sent S'.delivered := by
  obtain ⟨hs', h1, h2, -⟩ := MbRun.exec_cases hs
  rw [h1, h2]
  obtain ⟨p, hp, m⟩ | ⟨hm, hp⟩ := step_mail (i := i) hs' j
  · rw [hp]
    exact h.section m
  · rw [hm]
    cases hend : endPlace S.sys S'.sys a with
    | none => exact h
    | some p =>
        obtain ⟨h3, h4⟩ := log_elsewhere S.sent (hp p hend).1
        obtain ⟨-, h5⟩ := log_elsewhere S.delivered (hp p hend).1
        simp only [Option.elim_some]
        rw [h3, h5]
        exact h

theorem step_moved (hs : S.exec i a = some S') (j : SysInv S.sys) (hf : Fifo i n S)
    (hn : n < 2 ^ 16) (h : MovedOk i (S.sys.pc t) (S.moved t)) :
    MovedOk i (S'.sys.pc t) (S'.moved t) := by
  obtain ⟨hs', -, -, hmoved⟩ := MbRun.exec_cases hs
  rw [hmoved]
  have hb : (S.sys.ipc.mb i).entry < 2 ^ 16 := Nat.lt_of_le_of_lt hf.bound hn
  have hmail := step_mail (i := i) hs' j
  obtain ⟨u, r, x, rfl, hr, hx, he⟩ | ⟨u, c, e, r, rfl, hr, hpc, he⟩ |
    ⟨c, u, x, rfl, hc, ht, hx, he⟩ | ⟨u, k', rfl, ht, hk, he⟩ | ⟨u, p, rfl, hp, he⟩ |
    ⟨k', rfl, hk, he⟩ := Step.cases hs'
  · by_cases htu : t = u
    · subst htu
      simp only [countMoved, Function.update_self]
      obtain ⟨p, hp, m⟩ | ⟨hm, hp⟩ := hmail
      · obtain rfl : S'.sys.pc t = p := by simpa [endPlace] using hp
        have ha : S.sys.actObj (.run t r) = some (.mb i) := by
          obtain ⟨o, ho, ok⟩ := sect_ok j hr hx
          rw [ho, ← ok.obj, ← m.obj, he]
          simp
        rw [moved_zero hx ha h, Nat.zero_add]
        exact m.moved hb
      · obtain ⟨h1, h2⟩ := hp _ rfl
        cases hpc : S'.sys.pc t with
        | idle => exact absurd hpc h2
        | wait c =>
            rw [hpc] at h1
            exact fun hc => absurd (congrArg some hc) h1
        | ret c e r =>
            rw [hpc] at h1
            exact fun hc => absurd (congrArg some hc) h1
        | copy | copied => trivial
    · rw [he]
      simp only [countMoved, Function.update_of_ne htu]
      exact h
  · by_cases htu : t = u
    · subst htu
      rw [he]
      simp only [countMoved, Function.update_self, Sys.move]
      rfl
    · rw [he]
      simp only [countMoved, Function.update_of_ne htu, Sys.move]
      exact h
  all_goals
    rw [he]
    exact h

theorem mbInv_of_reachable (h : Reachable (MbRun.Init i n) (MbRun.Step i) S) : MbInv i n S := by
  refine h.invariant (I := MbInv i n) (fun _ hi => hi.mbInv) fun S a S' hr hi hs => ?_
  have j := sysInv_of_reachable (MbRun.reachable_sys hr)
  exact ⟨step_queued hs j hi.1, fun t => step_moved hs j hi.1.fifo hi.1.1 (hi.2 t)⟩

/-- **A mailbox is a bounded queue**, in every state of every run: the mails sent since the last
reset are those delivered, followed by those in the mailbox. A call that waits or fails moves no
mail, and one that returns RT_EOK moves one; a section that does not end a call with RT_EOK leaves
the mailbox as it is. -/
theorem mailbox_fifo (h : Reachable (MbRun.Init i n) (MbRun.Step i) S) :
    Fifo i n S ∧ (∀ t, MovedOk i (S.sys.pc t) (S.moved t)) ∧
    ∀ a S' p, S.exec i a = some S' → endPlace S.sys S'.sys a = some p →
      (∀ c r, p ≠ .ret c .ok r) → S'.sys.ipc.mb i = S.sys.ipc.mb i := by
  obtain ⟨hq, hm⟩ := mbInv_of_reachable h
  refine ⟨hq.fifo, hm, fun a S' p hs hp hne => ?_⟩
  have j := sysInv_of_reachable (MbRun.reachable_sys h)
  obtain ⟨p', hp', m⟩ | ⟨he, -⟩ := step_mail (i := i) (MbRun.exec_cases hs).1 j
  · obtain rfl : p' = p := Option.some.inj (hp'.symm.trans hp)
    generalize S.sys.ipc.mb i = mb, S'.sys.ipc.mb i = mb' at m
    cases m with
    | wait | fail => rfl
    | send | recv | reset => exact absurd rfl (hne _ _)
  · exact he

end

/-! ## A mailbox of one mail -/

attribute [local instance] config32

/-- Thread 1 sends a mail, and then has no room for another. -/
theorem mailbox_fifo_full : ∃ s S, startSys (fun _ => 10) [1] (fun _ => ⟨0, .fifo⟩)
      (fun _ => .fifo) = some s ∧
    runList (MbRun.exec 0) ⟨s, [], [], fun _ => 0⟩
      [.run 1 (.call (.mbSend 0 7 0)), .ret 1, .run 1 (.call (.mbSend 0 8 0))] = some S ∧
    Fifo 0 1 S ∧ S.sent = [7] ∧ S.moved 1 = 0 := by
  obtain ⟨s, hs⟩ : ∃ s, startSys (fun _ => 10) [1] (fun _ => ⟨0, .fifo⟩) (fun _ => .fifo) = some s :=
    ⟨_, rfl⟩
  have hsize : (s.ipc.mb 0).size = 1 := by
    obtain rfl := Option.some.inj hs
    rfl
  have hi : MbRun.Init 0 1 ⟨s, [], [], fun _ => 0⟩ :=
    ⟨startSys_init (fun _ => by decide) (fun _ => by decide) hs, by decide, hsize, rfl, rfl,
      fun _ => rfl⟩
  obtain ⟨S, hS, hsent, hmoved⟩ : ∃ S, runList (MbRun.exec 0) ⟨s, [], [], fun _ => 0⟩
      [.run 1 (.call (.mbSend 0 7 0)), .ret 1, .run 1 (.call (.mbSend 0 8 0))] = some S ∧
      S.sent = [7] ∧ S.moved 1 = 0 := by
    obtain rfl := Option.some.inj hs
    exact ⟨_, rfl, rfl, rfl⟩
  exact ⟨s, S, hs, hS, (mailbox_fifo (reachable_of_runList (.init hi) hS)).1, hsent, hmoved⟩

end RTThread.Ipc
