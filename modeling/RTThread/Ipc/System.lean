import RTThread.Lib.Run
import RTThread.Ipc.Sections

set_option autoImplicit false

/-! # Threads that call IPC functions

The system: any number of threads, each at a place in a call, over the kernel and its IPC objects.
A step is a section of the running thread, an interrupt handler, the timer of a thread, a change of
a priority by the application, or `rt_schedule`. The `rt_schedule` at the end of a section is a step
of its own, so that interrupts may come before it.

`SysInv` holds in every reachable state. `Step.frame` says what a step leaves alone at the objects
it is not about; with it each object is verified by its own sections only.
-/

namespace RTThread.Ipc

open Kernel Trans

/-- The kernel, its objects, and the places of the threads. -/
structure Sys where
  ipc : Ipc
  pc : ThreadId → Pc

namespace Sys

/-- `rt_thread_self()`, when it runs. -/
def Runs (s : Sys) (t : ThreadId) : Prop :=
  s.ipc.kernel.current = some t ∧ (s.ipc.kernel.thread t).stat = .running

instance (s : Sys) (t : ThreadId) : Decidable (s.Runs t) := instDecidableAnd

end Sys

/-- What the running thread does next. -/
inductive Run
  /-- it calls a function -/
  | call (c : Call)
  /-- it goes on after `rt_schedule`, `delta` ticks after it was suspended -/
  | resumed (delta : Nat)
  /-- it copies a message -/
  | copy
  /-- it goes on after the copy -/
  | finish

inductive Action
  | run (t : ThreadId) (r : Run)
  /-- the call of the thread returns -/
  | ret (t : ThreadId)
  /-- an interrupt handler calls a function -/
  | isr (c : Call)
  /-- the timer of the thread expires -/
  | timeout (t : ThreadId)
  /-- the application changes a priority -/
  | control (t : ThreadId) (priority : Nat)
  | schedule

/-- The calls that an interrupt handler may make: those that cannot wait. -/
def Call.FromIsr : Call → Prop
  | .semTake _ time => time = 0
  | .semRelease _ => True
  | .eventSend _ _ => True
  | .mbSend _ _ timeout => timeout = 0
  | .mbRecv _ timeout => timeout = 0
  | _ => False

instance (c : Call) : Decidable c.FromIsr := by
  cases c <;> unfold Call.FromIsr <;> infer_instance

variable [RtConfig]

namespace Sys

/-- The section the thread is at. -/
def sect (s : Sys) (t : ThreadId) : Run → Option Section
  | .call c => match s.pc t with
    | .idle => s.ipc.call t c
    | _ => none
  | .resumed delta => match s.pc t with
    | .wait c => s.ipc.resumed t delta c
    | _ => none
  | .copy => match s.pc t with
    | .copy c msg => s.ipc.copy msg c
    | _ => none
  | .finish => match s.pc t with
    | .copied c msg r => s.ipc.finish msg r c
    | _ => none

def setKernel (s : Sys) (k : Kernel) : Sys := { s with ipc := s.ipc.setKernel k }

def move (s : Sys) (t : ThreadId) (p : Pc) : Sys := { s with pc := Function.update s.pc t p }

def exec (s : Sys) : Action → Option Sys
  | .run t r =>
    if s.Runs t then (s.sect t r).map fun x => { ipc := x.ipc, pc := Function.update s.pc t x.pc }
    else none
  | .ret t =>
    if s.Runs t then match s.pc t with
      | .ret _ _ _ => some (s.move t .idle)
      | _ => none
    else none
  | .isr c =>
    if c.FromIsr then do
      let t ← s.ipc.kernel.current
      let x ← s.ipc.call t c
      some { s with ipc := x.ipc }
    else none
  | .timeout t =>
    if (s.ipc.kernel.thread t).timer = true then (s.ipc.kernel.threadTimeout t).map s.setKernel
    else none
  | .control t priority =>
    if priority < RtConfig.priorityMax then
      some (s.setKernel (s.ipc.kernel.rtThreadControl t priority))
    else none
  | .schedule => s.ipc.kernel.rtSchedule.map s.setKernel

def Step (s : Sys) (a : Action) (s' : Sys) : Prop := s.exec a = some s'

/-- A scheduler with threads that are in no call, and objects that are initialised. -/
structure Init (s : Sys) : Prop where
  sched : SchedInv s.ipc.kernel
  wait : ∀ h : ListHead, h.IsWait → s.ipc.kernel.lists h = []
  timer : ∀ t, (s.ipc.kernel.thread t).timer = false
  error : ∀ t, (s.ipc.kernel.thread t).error = .ok
  idle : ∀ t, s.pc t = .idle
  sem : ∀ i, (s.ipc.sem i).value < 2 ^ 16
  mutex : ∀ i, ∃ flag, s.ipc.mutex i = ⟨1, none, 0xff, 0, flag⟩
  mb : ∀ i, ∃ pool size flag, size < 2 ^ 16 ∧ s.ipc.mb i = ⟨pool, size, 0, 0, 0, flag⟩
  mq : ∀ i, ∃ q msgpool msgSize n flag, s.ipc.mq i = rtMqInit q msgpool msgSize n flag ∨
    s.ipc.mq i = rtMqCreate q msgpool msgSize n flag

end Sys

/-! ## What a section does -/

section

variable {s : Ipc} {k k' : Kernel} {pc : ThreadId → Pc} {t u v : ThreadId} {h : ListHead} {o : Obj}
  {x : Section} {c : Call} {i : Nat}

/-- The priority saved in a mutex is one. -/
def PrioOk (s : Ipc) : Prop :=
  ∀ i, (s.mutex i).owner ≠ none → (s.mutex i).originalPriority < RtConfig.priorityMax

/-- A chain of changes, and perhaps the suspension of the thread. -/
inductive Does (o : Obj) (t : ThreadId) (k : Kernel) (p : Pc) : Kernel → Prop
  | go {k' : Kernel} (hp : Prims o t k k') (hw : p.waitsOn = none) : Does o t k p k'
  | block {k₁ k' : Kernel} {h : ListHead} {flag : Flag} {time : Int} (hp : Prims o t k k₁)
      (hr : (k₁.thread t).stat = .running) (he : (k₁.thread t).error = .ok)
      (hw : p.waitsOn = some h) (hh : h.ofObj o) (b : Blocked k₁ h t flag time k') :
      Does o t k p k'

/-- What a section by `t` on `o` does. -/
structure SectOk (s : Ipc) (t : ThreadId) (o : Obj) (x : Section) : Prop where
  does : Does o t s.kernel x.pc x.ipc.kernel
  obj : x.pc.obj = some o
  others : ∀ o', o' ≠ o → SameObj o' s x.ipc
  prio : PrioOk x.ipc

theorem WakesFirst.prims {b : Bool} (w : WakesFirst k h k' b) (j : WaitInv k pc)
    (hh : h.ofObj o) : Prims o t k k' := by
  cases w with
  | none _ => exact .refl
  | first hl w => exact .woken j hh (by rw [hl]; exact List.mem_cons_self) w

theorem MayChange.prims {p : Nat} {q : Prop} (m : MayChange k u p q k') :
    Prims (.mutex i) t k k' := by
  cases m with
  | yes _ w => exact .single (.changed ⟨i, rfl⟩ w)
  | no _ => exact .refl

/-- A section that changes the kernel only. -/
theorem SectOk.fields (hp : PrioOk s) {p : Pc} {b : Bool} (hs : Prims o t s.kernel k')
    (hw : p.waitsOn = none) (ho : p.obj = some o) : SectOk s t o ⟨s.setKernel k', p, b⟩ :=
  ⟨.go hs hw, ho, fun o' _ => (SameObj.refl o' s).setKernel k', hp⟩

/-- A section that changes nothing. -/
theorem SectOk.nothing (hp : PrioOk s) {p : Pc} {b : Bool} (hw : p.waitsOn = none)
    (ho : p.obj = some o) : SectOk s t o ⟨s, p, b⟩ :=
  ⟨.go .refl hw, ho, fun o' _ => SameObj.refl o' s, hp⟩

/-- A section that ends with the suspension of the thread. -/
theorem SectOk.blocks (hp : PrioOk s) {k₁ : Kernel} {flag : Flag} {time : Int} {b : Bool}
    (hs : Prims c.obj t s.kernel k₁) (hr : (k₁.thread t).stat = .running)
    (he : (k₁.thread t).error = .ok) (hw : c.waitsOn = some h)
    (bl : Blocked k₁ h t flag time k') : SectOk s t c.obj ⟨s.setKernel k', .wait c, b⟩ :=
  ⟨.block hs hr he hw (Call.ofObj_waitsOn hw) bl, rfl,
    fun o' _ => (SameObj.refl o' s).setKernel k', hp⟩

/-- Suspension right after the error field was reset. -/
theorem SectOk.resets (hp : PrioOk s) {flag : Flag} {time : Int} {b : Bool}
    (hr : (s.kernel.thread t).stat = .running) (hw : c.waitsOn = some h)
    (bl : Blocked (s.kernel.setError t .ok) h t flag time k') :
    SectOk s t c.obj ⟨s.setKernel k', .wait c, b⟩ := by
  refine .blocks hp (.setError hr (by simp)) ?_ ?_ hw bl
  · rw [setError, modify_self]
    exact hr
  · rw [setError, modify_self]

/-- Two writes to the error field. -/
theorem Prims.setError₂ (hr : (k.thread t).stat = .running) {e e' : Err} (he : e ≠ .eintr)
    (he' : e' ≠ .eintr) : Prims o t k ((k.setError t e).setError t e') := by
  refine Relation.ReflTransGen.trans (Prims.setError hr he) (Prims.setError ?_ he')
  rw [Kernel.setError, modify_self]
  exact hr

section

variable (j : WaitInv s.kernel pc) (hp : PrioOk s) (hc : s.kernel.current = some t)
  (hr : (s.kernel.thread t).stat = .running)

include j hp hc hr

theorem rtSemTake_ok {time : Int} (hx : s.rtSemTake t i time = some x) :
    SectOk s t (.sem i) x := by
  obtain ⟨-, rfl⟩ | ⟨-, -, rfl⟩ | ⟨-, -, k', b, rfl⟩ := rtSemTake_cases j.sched hc hr hx
  · exact ⟨.go .refl rfl, rfl, fun o' ho => sameObj_setSem ho, hp⟩
  · exact .nothing hp rfl rfl
  · exact .resets (c := .semTake i time) hp hr rfl b

omit hc hr in
theorem rtSemRelease_ok (hx : s.rtSemRelease i = some x) : SectOk s t (.sem i) x := by
  obtain ⟨u, l, k', hl, w, rfl⟩ | ⟨-, rfl⟩ := rtSemRelease_cases j.sched hx
  · exact .fields hp (.woken j (Or.inl rfl) (by rw [hl]; exact List.mem_cons_self) w) rfl rfl
  · exact ⟨.go .refl rfl, rfl, fun o' ho => sameObj_setSem ho, hp⟩

omit hc hr in
theorem rtSemReset_ok {value : Nat} (hx : s.rtSemReset i value = some x) :
    SectOk s t (.sem i) x := by
  obtain rfl := Option.some.inj hx
  refine ⟨.go (Prims.resumeAll j (Or.inl rfl)).1 rfl, rfl, fun o' ho => ?_, hp⟩
  exact sameObj_setSem ho

theorem rtMutexTakeAgain_ok {time : Int} (he : (s.kernel.thread t).error = .ok)
    (hx : s.rtMutexTakeAgain t i time = some x) : SectOk s t (.mutex i) x := by
  obtain ⟨-, rfl⟩ | ⟨-, -, rfl⟩ | ⟨-, -, owner, k₁, k', ho, m, b, rfl⟩ :=
    rtMutexTakeAgain_cases j.sched hc hr hx
  · refine ⟨.go .refl rfl, rfl, fun o' ho => sameObj_setMutex ho, fun i' hi' => ?_⟩
    by_cases hii : i' = i
    · subst hii
      simp only [setMutex, Function.update_self]
      exact (j.sched.thread t).prio
    · simp only [setMutex, Function.update_of_ne hii] at hi' ⊢
      exact hp i' hi'
  · exact .fields hp (.setError hr (by simp)) rfl rfl
  · exact .blocks (c := .mutexTake i time) hp m.prims (m.fields.1.trans hr) (m.fields.2.1.trans he)
      rfl b

theorem rtMutexTake_ok {time : Int} (hx : s.rtMutexTake t i time = some x) :
    SectOk s t (.mutex i) x := by
  have hs : Prims (.mutex i) t s.kernel (s.kernel.setError t .ok) := .setError hr (by simp)
  unfold rtMutexTake at hx
  dsimp only at hx
  split_ifs at hx with ho
  · obtain rfl := Option.some.inj hx
    refine ⟨.go hs rfl, rfl, fun o' ho => sameObj_setMutex ho, fun i' hi' => ?_⟩
    by_cases hii : i' = i
    · subst hii
      simp only [setMutex, Function.update_self] at hi' ⊢
      exact hp i' hi'
    · simp only [setMutex, Function.update_of_ne hii] at hi' ⊢
      exact hp i' hi'
  · have hr' : ((s.kernel.setError t .ok).thread t).stat = .running := by
      rw [setError, modify_self]
      exact hr
    have hx' := rtMutexTakeAgain_ok (s := s.setKernel (s.kernel.setError t .ok))
      (hs.waitInv j) hp hc hr' (by rw [setKernel_kernel, setError, modify_self]) hx
    obtain ⟨hd, h2, h3, h4⟩ := hx'
    refine ⟨?_, h2, h3, h4⟩
    rcases hd with ⟨hp', hw⟩ | ⟨hp', hr₁, he, hw, hh, b⟩
    · exact .go (hs.trans hp') hw
    · exact .block (hs.trans hp') hr₁ he hw hh b

omit hc in
theorem rtMutexRelease_ok (hx : s.rtMutexRelease t i = some x) : SectOk s t (.mutex i) x := by
  have hset : ∀ {k' : Kernel} {a : Mutex} {p : Pc} {b : Bool}, Prims (.mutex i) t s.kernel k' →
      (a.owner ≠ none → a.originalPriority < RtConfig.priorityMax) → p.waitsOn = none →
      p.obj = some (.mutex i) → SectOk s t (.mutex i) ⟨(s.setKernel k').setMutex i a, p, b⟩ := by
    intro k' a p b hs ha hw ho
    refine ⟨.go hs hw, ho, fun o' ho => sameObj_setMutex ho, fun i' hi' => ?_⟩
    by_cases hii : i' = i
    · subst hii
      simp only [setMutex, Function.update_self] at hi' ⊢
      exact ha hi'
    · simp only [setMutex, Function.update_of_ne hii] at hi' ⊢
      exact hp i' hi'
  obtain ⟨-, rfl⟩ | ⟨-, -, rfl⟩ | ⟨-, -, k₁, m, hcase⟩ := rtMutexRelease_cases j.sched (hp i) hx
  · exact .fields hp (.setError hr (by simp)) rfl rfl
  · exact hset .refl (hp i) rfl rfl
  · have ms : Prims (.mutex i) t s.kernel k₁ := m.prims
    have j₁ : WaitInv k₁ pc := ms.waitInv j
    obtain ⟨u, l, k', hl, w, rfl⟩ | ⟨-, rfl⟩ := hcase
    · have hu : u ∈ k₁.lists (.suspend (.mutex i)) := by
        rw [hl]
        exact List.mem_cons_self
      exact hset (ms.trans (Prims.woken j₁ (Or.inl rfl) hu w))
        (fun _ => (j₁.sched.thread u).prio) rfl rfl
    · exact hset ms (fun ha => absurd rfl ha) rfl rfl

omit hc hr in
theorem rtEventSend_ok {set : BitVec 32} (hx : s.rtEventSend i set = some x) :
    SectOk s t (.event i) x := by
  unfold rtEventSend at hx
  split_ifs at hx with h0
  · obtain rfl := Option.some.inj hx
    exact .nothing hp rfl rfl
  · obtain rfl := Option.some.inj hx
    refine ⟨.go ?_ rfl, rfl, fun o' ho => sameObj_setEvent ho, hp⟩
    exact Prims.eventSend j (Or.inl rfl) _ (fun u hu => hu) (j.sched.nodup _) _ _

theorem rtEventRecv_ok {set : BitVec 32} {option : BitVec 8} {timeout : Int}
    (hx : s.rtEventRecv t i set option timeout = some x) : SectOk s t (.event i) x := by
  have hs : Prims (.event i) t s.kernel (s.kernel.setError t .ok) := .setError hr (by simp)
  obtain ⟨-, rfl⟩ | ⟨-, -, -, rfl⟩ | ⟨-, -, rfl⟩ | ⟨-, -, -, k', b, rfl⟩ :=
    rtEventRecv_cases j.sched hc hr hx
  · exact .nothing hp rfl rfl
  · exact ⟨.go hs rfl, rfl, fun o' ho => sameObj_setEvent ho, hp⟩
  · exact .fields hp (.setError₂ hr (by simp) (by simp)) rfl rfl
  · have hs' : Prims (.event i) t s.kernel (eventWaiter s.kernel t set option) := by
      refine hs.tail (.self _ ?_ rfl rfl rfl ?_) <;> rw [setError, modify_self]
      · exact hr
      · simp
    refine .blocks (c := .eventRecv i set option timeout) hp hs' ?_ ?_ rfl b
    · rw [eventWaiter, modify_self, setError, modify_self]
      exact hr
    · rw [eventWaiter, modify_self, setError, modify_self]

omit hc hr in
theorem rtEventReset_ok (hx : s.rtEventReset i = some x) : SectOk s t (.event i) x := by
  obtain rfl := Option.some.inj hx
  exact ⟨.go (Prims.resumeAll j (Or.inl rfl)).1 rfl, rfl, fun o' ho => sameObj_setEvent ho, hp⟩

/-- A pass of a loop. -/
theorem Loops.ok (hl : Loops s t x c) : SectOk s t c.obj x := by
  cases hl with
  | @mbSend i value _ timeout hx =>
      obtain ⟨-, -, rfl⟩ | ⟨-, -, k', b, rfl⟩ | ⟨-, k', b, w, rfl⟩ :=
        mbSendLoop_cases j.sched hc hr hx
      · exact .fields hp (.setError hr (by simp)) rfl rfl
      · exact .resets (c := .mbSend i value timeout) hp hr rfl b
      · exact ⟨.go (w.prims j (Or.inl rfl)) rfl, rfl,
          fun o' ho => (sameObj_setMb ho).setKernel k', hp⟩
  | @mbRecv i _ timeout hx =>
      obtain ⟨-, -, rfl⟩ | ⟨-, -, k', b, rfl⟩ | ⟨-, k', b, w, rfl⟩ :=
        mbRecvLoop_cases j.sched hc hr hx
      · exact .fields hp (.setError₂ hr (by simp) (by simp)) rfl rfl
      · exact .resets (c := .mbRecv i timeout) hp hr rfl b
      · exact ⟨.go (w.prims j (Or.inr rfl)) rfl, rfl,
          fun o' ho => (sameObj_setMb ho).setKernel k', hp⟩
  | @mqSend i buffer _ timeout hx =>
      obtain ⟨-, -, rfl⟩ | ⟨-, -, k', b, rfl⟩ | ⟨msg, -, rfl⟩ := mqSendLoop_cases j.sched hc hr hx
      · exact .fields hp (.setError hr (by simp)) rfl rfl
      · exact .resets (c := .mqSend i buffer timeout) hp hr rfl b
      · exact ⟨.go .refl rfl, rfl, fun o' ho => sameObj_setMq ho, hp⟩
  | @mqRecv i size _ timeout hx =>
      obtain ⟨-, -, rfl⟩ | ⟨-, -, k', b, rfl⟩ | ⟨-, msg, -, rfl⟩ :=
        mqRecvLoop_cases j.sched hc hr hx
      · exact .fields hp (.setError₂ hr (by simp) (by simp)) rfl rfl
      · exact .resets (c := .mqRecv i size timeout) hp hr rfl b
      · exact ⟨.go .refl rfl, rfl, fun o' ho => sameObj_setMq ho, hp⟩

omit hp hc hr in
/-- Both wait lists of an object are emptied. -/
theorem Prims.resetBoth (o : Obj) : Prims o t s.kernel
    (rtIpcListResumeAll (rtIpcListResumeAll s.kernel (.suspend o)) (.suspendSender o)) := by
  have h1 := (Prims.resumeAll (t := t) j (o := o) (h := .suspend o) (Or.inl rfl)).1
  exact h1.trans (Prims.resumeAll (h1.waitInv j) (Or.inr rfl)).1

omit hc hr in
theorem rtMbReset_ok (hx : s.rtMbReset i = some x) : SectOk s t (.mb i) x := by
  obtain rfl := Option.some.inj hx
  exact ⟨.go (Prims.resetBoth j (.mb i)) rfl, rfl, fun o' ho => sameObj_setMb ho, hp⟩

omit j hc hr in
theorem rtMqUrgent_ok {buffer : List (BitVec 8)} (hx : s.rtMqUrgent i buffer = some x) :
    SectOk s t (.mq i) x := by
  obtain ⟨e, -, -, rfl⟩ | ⟨-, msg, -, rfl⟩ := rtMqUrgent_cases hx
  · exact .nothing hp rfl rfl
  · exact ⟨.go .refl rfl, rfl, fun o' ho => sameObj_setMq ho, hp⟩

omit hc hr in
theorem rtMqReset_ok (hx : s.rtMqReset i = some x) : SectOk s t (.mq i) x := by
  obtain rfl := Option.some.inj hx
  exact ⟨.go (Prims.resetBoth j (.mq i)) rfl, rfl, fun o' ho => sameObj_setMq ho, hp⟩

/-! ### The sections of a call -/

/-- **The first section of every call.** -/
theorem call_ok (hx : s.call t c = some x) : SectOk s t c.obj x := by
  cases c with
  | semTake i time => exact rtSemTake_ok j hp hc hr hx
  | semRelease i => exact rtSemRelease_ok j hp hx
  | semReset i value => exact rtSemReset_ok j hp hx
  | mutexTake i time => exact rtMutexTake_ok j hp hc hr hx
  | mutexRelease i => exact rtMutexRelease_ok j hp hr hx
  | eventSend i set => exact rtEventSend_ok j hp hx
  | eventRecv i set option timeout => exact rtEventRecv_ok j hp hc hr hx
  | eventReset i => exact rtEventReset_ok j hp hx
  | mbSend | mbRecv | mqSend | mqRecv =>
      obtain ⟨e, -, rfl⟩ | hl := call_loops hx trivial
      · exact .nothing hp rfl rfl
      · exact hl.ok j hp hc hr
  | mbReset i => exact rtMbReset_ok j hp hx
  | mqUrgent i buffer => exact rtMqUrgent_ok hp hx
  | mqReset i => exact rtMqReset_ok j hp hx

/-- **The section after `rt_schedule`.** -/
theorem resumed_ok {delta : Nat} (hx : s.resumed t delta c = some x) : SectOk s t c.obj x := by
  obtain ⟨r, -, rfl⟩ | ⟨i, time, -, he, -⟩ | hl := resumed_cases hx
  · exact .nothing hp rfl rfl
  · exact absurd he (j.signal t)
  · exact hl.ok j hp hc hr

omit j hc hr in
/-- The copy of a message. -/
theorem copy_ok {msg : Nat} (hx : s.copy msg c = some x) : SectOk s t c.obj x := by
  cases c with
  | mqSend i buffer timeout =>
      obtain rfl := Option.some.inj hx
      exact ⟨.go .refl rfl, rfl, fun o' ho => sameObj_setMq ho, hp⟩
  | mqUrgent i buffer =>
      obtain rfl := Option.some.inj hx
      exact ⟨.go .refl rfl, rfl, fun o' ho => sameObj_setMq ho, hp⟩
  | mqRecv i size timeout =>
      obtain rfl := Option.some.inj hx
      exact .nothing hp rfl rfl
  | semTake | semRelease | semReset | mutexTake | mutexRelease | eventSend | eventRecv |
    eventReset | mbSend | mbRecv | mbReset | mqReset => cases hx

omit j hp hc hr [RtConfig] in
/-- Only the calls on a message queue copy. -/
theorem copy_obj {msg : Nat} (hx : s.copy msg c = some x) : ∃ i, c.obj = .mq i := by
  cases c <;> first | exact ⟨_, rfl⟩ | cases hx

omit j hp hc hr in
theorem finish_obj {msg : Nat} {r : Reply} (hx : s.finish msg r c = some x) :
    ∃ i, c.obj = .mq i := by
  cases c <;> first | exact ⟨_, rfl⟩ | cases hx

omit hc hr in
/-- The last section of a call on a message queue. -/
theorem mqFinish_ok {q : MsgQueue} (hh : h.ofObj (.mq i)) {p : Pc} (hw : p.waitsOn = none)
    (ho : p.obj = some (.mq i)) (hx : (s.setMq i q).resumeFirst h p = some x) :
    SectOk s t (.mq i) x := by
  obtain ⟨k', b, w, rfl⟩ := resumeFirst_cases (s := s.setMq i q) j.sched ⟨_, hh⟩ hx
  exact ⟨.go (w.prims j hh) hw, ho, fun o' ho => (sameObj_setMq ho).setKernel k', hp⟩

omit hc hr in
theorem finish_ok {msg : Nat} {r : Reply} (hx : s.finish msg r c = some x) :
    SectOk s t c.obj x := by
  cases c with
  | mqSend i buffer timeout => exact mqFinish_ok j hp (Or.inl rfl) rfl rfl hx
  | mqUrgent i buffer => exact mqFinish_ok j hp (Or.inl rfl) rfl rfl hx
  | mqRecv i size timeout => exact mqFinish_ok j hp (Or.inr rfl) rfl rfl hx
  | semTake | semRelease | semReset | mutexTake | mutexRelease | eventSend | eventRecv |
    eventReset | mbSend | mbRecv | mbReset | mqReset => cases hx

end

end

/-! ## Steps -/

section

variable {s s' : Sys} {a : Action} {t u v : ThreadId} {o : Obj} {h : ListHead} {c : Call}
  {x : Section} {r : Run}

structure SysInv (s : Sys) : Prop where
  wait : WaitInv s.ipc.kernel s.pc
  prio : PrioOk s.ipc

/-- The object a step is about. -/
def Sys.actObj (s : Sys) : Action → Option Obj
  | .run _ (.call c) => some c.obj
  | .run t _ => (s.pc t).obj
  | .ret t => (s.pc t).obj
  | .isr c => some c.obj
  | .timeout t => (s.pc t).obj
  | .control _ _ => none
  | .schedule => none

/-- Which section it is. -/
theorem sect_cases (hx : s.sect t r = some x) :
    (∃ c, r = .call c ∧ s.pc t = .idle ∧ s.ipc.call t c = some x) ∨
    (∃ delta c, r = .resumed delta ∧ s.pc t = .wait c ∧ s.ipc.resumed t delta c = some x) ∨
    (∃ c msg i, r = .copy ∧ s.pc t = .copy c msg ∧ c.obj = .mq i ∧ s.ipc.copy msg c = some x) ∨
    (∃ c msg r' i, r = .finish ∧ s.pc t = .copied c msg r' ∧ c.obj = .mq i ∧
      s.ipc.finish msg r' c = some x) := by
  cases r with
  | call c =>
      simp only [Sys.sect] at hx
      split at hx
      · rename_i hp
        exact Or.inl ⟨c, rfl, hp, hx⟩
      · cases hx
  | resumed delta =>
      simp only [Sys.sect] at hx
      split at hx
      · rename_i c hp
        exact Or.inr (Or.inl ⟨delta, c, rfl, hp, hx⟩)
      · cases hx
  | copy =>
      simp only [Sys.sect] at hx
      split at hx
      · rename_i c msg hp
        obtain ⟨i, hi⟩ := copy_obj hx
        exact Or.inr (Or.inr (Or.inl ⟨c, msg, i, rfl, hp, hi, hx⟩))
      · cases hx
  | finish =>
      simp only [Sys.sect] at hx
      split at hx
      · rename_i c msg r' hp
        obtain ⟨i, hi⟩ := finish_obj hx
        exact Or.inr (Or.inr (Or.inr ⟨c, msg, r', i, rfl, hp, hi, hx⟩))
      · cases hx

/-- **A section of the running thread**, whichever it is. -/
theorem sect_ok (i : SysInv s) (hr : s.Runs t) (hx : s.sect t r = some x) :
    ∃ o, s.actObj (.run t r) = some o ∧ SectOk s.ipc t o x := by
  obtain ⟨c, rfl, hp, hx⟩ | ⟨delta, c, rfl, hp, hx⟩ | ⟨c, msg, m, rfl, hp, -, hx⟩ |
    ⟨c, msg, r', m, rfl, hp, -, hx⟩ := sect_cases hx
  · exact ⟨c.obj, rfl, call_ok i.wait i.prio hr.1 hr.2 hx⟩
  · exact ⟨c.obj, by simp [Sys.actObj, hp, Pc.obj], resumed_ok i.wait i.prio hr.1 hr.2 hx⟩
  · exact ⟨c.obj, by simp [Sys.actObj, hp, Pc.obj], copy_ok i.prio hx⟩
  · exact ⟨c.obj, by simp [Sys.actObj, hp, Pc.obj], finish_ok i.wait i.prio hx⟩

/-- The section of a call on an object that is no message queue. -/
theorem sect_cases_of_ne (hx : s.sect t r = some x) (ha : s.actObj (.run t r) = some o)
    (ho : ∀ i, o ≠ .mq i) :
    (∃ c, r = .call c ∧ c.obj = o ∧ s.pc t = .idle ∧ s.ipc.call t c = some x) ∨
    (∃ delta c, r = .resumed delta ∧ c.obj = o ∧ s.pc t = .wait c ∧
      s.ipc.resumed t delta c = some x) := by
  obtain ⟨c, rfl, hp, hx⟩ | ⟨delta, c, rfl, hp, hx⟩ | ⟨c, msg, m, rfl, hp, hm, -⟩ |
    ⟨c, msg, r', m, rfl, hp, hm, -⟩ := sect_cases hx
  · exact Or.inl ⟨c, rfl, Option.some.inj ha, hp, hx⟩
  · exact Or.inr ⟨delta, c, rfl, by simpa [Sys.actObj, hp, Pc.obj] using ha, hp, hx⟩
  all_goals
    have hobj : c.obj = o := by simpa [Sys.actObj, hp, Pc.obj] using ha
    exact absurd (hobj.symm.trans hm) (ho m)

/-- A call of an interrupt handler ends in its first section, and changes no thread but those it
wakes. -/
structure IsrOk (s : Ipc) (o : Obj) (x : Section) : Prop where
  prims : ∀ t, Prims o t s.kernel x.ipc.kernel
  others : ∀ o', o' ≠ o → SameObj o' s x.ipc
  prio : PrioOk x.ipc

theorem isr_ok (i : SysInv s) (hc : c.FromIsr) (hx : s.ipc.call t c = some x) :
    IsrOk s.ipc c.obj x := by
  have hgo : ∀ {o : Obj} {x : Section}, (∀ t, SectOk s.ipc t o x) → x.pc.waitsOn = none →
      IsrOk s.ipc o x := by
    intro o x ok hw
    refine ⟨fun t => ?_, (ok t).others, (ok t).prio⟩
    have hd := (ok t).does
    cases hd with
    | go hp _ => exact hp
    | block _ _ _ hw' _ _ => simp [hw] at hw'
  cases c with
  | semTake k time =>
      obtain rfl : time = 0 := hc
      simp only [call, rtSemTake, if_true] at hx
      split_ifs at hx
      · obtain rfl := Option.some.inj hx
        exact ⟨fun _ => .refl, fun o' ho => sameObj_setSem ho, i.prio⟩
      · obtain rfl := Option.some.inj hx
        exact hgo (fun _ => .nothing i.prio rfl rfl) rfl
  | semRelease k =>
      refine hgo (fun _ => rtSemRelease_ok i.wait i.prio hx) ?_
      obtain ⟨u, l, k', -, -, rfl⟩ | ⟨-, rfl⟩ := rtSemRelease_cases i.wait.sched hx <;> rfl
  | eventSend k set =>
      refine hgo (fun _ => rtEventSend_ok i.wait i.prio hx) ?_
      simp only [call, rtEventSend] at hx
      split_ifs at hx <;> obtain rfl := Option.some.inj hx <;> rfl
  | mbSend k value timeout =>
      obtain rfl : timeout = 0 := hc
      simp only [call, rtMbSendWait, and_true] at hx
      split_ifs at hx with he
      · obtain rfl := Option.some.inj hx
        exact hgo (fun _ => .nothing i.prio rfl rfl) rfl
      · simp only [mbSendLoop, if_neg he] at hx
        obtain ⟨k', b, w, rfl⟩ := resumeFirst_cases (by exact i.wait.sched) ⟨_, Or.inl rfl⟩ hx
        exact ⟨fun _ => w.prims i.wait (Or.inl rfl),
          fun o' ho => (sameObj_setMb ho).setKernel k', i.prio⟩
  | mbRecv k timeout =>
      obtain rfl : timeout = 0 := hc
      simp only [call, rtMbRecv, and_true] at hx
      split_ifs at hx with he
      · obtain rfl := Option.some.inj hx
        exact hgo (fun _ => .nothing i.prio rfl rfl) rfl
      · simp only [mbRecvLoop, if_neg he] at hx
        obtain ⟨k', b, w, rfl⟩ := resumeFirst_cases (by exact i.wait.sched) ⟨_, Or.inr rfl⟩ hx
        exact ⟨fun _ => w.prims i.wait (Or.inr rfl),
          fun o' ho => (sameObj_setMb ho).setKernel k', i.prio⟩
  | semReset | mutexTake | mutexRelease | eventRecv | eventReset | mbReset | mqSend | mqUrgent |
    mqRecv | mqReset => exact absurd hc (by simp [Call.FromIsr])

/-- **What a step is.** -/
theorem Step.cases (hs : s.Step a s') :
    (∃ t r x, a = .run t r ∧ s.Runs t ∧ s.sect t r = some x ∧
      s' = { ipc := x.ipc, pc := Function.update s.pc t x.pc }) ∨
    (∃ t c e r, a = .ret t ∧ s.Runs t ∧ s.pc t = .ret c e r ∧ s' = s.move t .idle) ∨
    (∃ c t x, a = .isr c ∧ c.FromIsr ∧ s.ipc.kernel.current = some t ∧
      s.ipc.call t c = some x ∧ s' = { s with ipc := x.ipc }) ∨
    (∃ t k', a = .timeout t ∧ (s.ipc.kernel.thread t).timer = true ∧
      s.ipc.kernel.threadTimeout t = some k' ∧ s' = s.setKernel k') ∨
    (∃ t p, a = .control t p ∧ p < RtConfig.priorityMax ∧
      s' = s.setKernel (s.ipc.kernel.rtThreadControl t p)) ∨
    (∃ k', a = .schedule ∧ s.ipc.kernel.rtSchedule = some k' ∧ s' = s.setKernel k') := by
  unfold Sys.Step at hs
  cases a with
  | run t r =>
      simp only [Sys.exec] at hs
      split_ifs at hs with hr
      obtain ⟨x, hx, rfl⟩ := Option.map_eq_some_iff.mp hs
      exact Or.inl ⟨t, r, x, rfl, hr, hx, rfl⟩
  | ret t =>
      simp only [Sys.exec] at hs
      split_ifs at hs with hr
      split at hs
      · rename_i c e r hpc
        exact Or.inr (Or.inl ⟨t, c, e, r, rfl, hr, hpc, (Option.some.inj hs).symm⟩)
      · cases hs
  | isr c =>
      simp only [Sys.exec] at hs
      split_ifs at hs with hc
      obtain ⟨t, ht, hs⟩ := Option.bind_eq_some_iff.mp hs
      obtain ⟨x, hx, hs⟩ := Option.bind_eq_some_iff.mp hs
      exact Or.inr (Or.inr (Or.inl ⟨c, t, x, rfl, hc, ht, hx, (Option.some.inj hs).symm⟩))
  | timeout t =>
      simp only [Sys.exec] at hs
      split_ifs at hs with ht
      obtain ⟨k', hk, rfl⟩ := Option.map_eq_some_iff.mp hs
      exact Or.inr (Or.inr (Or.inr (Or.inl ⟨t, k', rfl, ht, hk, rfl⟩)))
  | control t p =>
      simp only [Sys.exec] at hs
      split_ifs at hs with hp
      exact Or.inr (Or.inr (Or.inr (Or.inr (Or.inl ⟨t, p, rfl, hp, (Option.some.inj hs).symm⟩))))
  | schedule =>
      obtain ⟨k', hk, rfl⟩ := Option.map_eq_some_iff.mp hs
      exact Or.inr (Or.inr (Or.inr (Or.inr (Or.inr ⟨k', rfl, hk, rfl⟩))))

theorem Does.waitInv {k k' : Kernel} {pc : ThreadId → Pc} {p : Pc} (d : Does o t k p k')
    (j : WaitInv k pc) (hr : (k.thread t).stat = .running) :
    WaitInv k' (Function.update pc t p) := by
  cases d with
  | go hp _ => exact (hp.waitInv j).move ((hp.frame j).self hr) p
  | block hp hr₁ he hw hh b => exact (hp.waitInv j).block ⟨o, hh⟩ hr₁ he hw b

/-- A timer runs only for a thread that waits in a list. -/
theorem timeout_woken (i : SysInv s) {k' : Kernel} (ht : (s.ipc.kernel.thread t).timer = true)
    (hk : s.ipc.kernel.threadTimeout t = some k') : ∃ h : ListHead, h.IsWait ∧
      t ∈ s.ipc.kernel.lists h ∧ (s.pc t).waitsOn = some h ∧
      Woken s.ipc.kernel t h .etimeout k' := by
  obtain ⟨h, hh, hm⟩ := i.wait.timer t ht
  exact ⟨h, hh, hm, i.wait.waits t h hh hm, Woken.of_timeout i.wait.sched hh hm hk⟩

/-- **One step keeps the invariant.** -/
theorem Step.sysInv (hs : s.Step a s') (i : SysInv s) : SysInv s' := by
  obtain ⟨t, r, x, rfl, hr, hx, rfl⟩ | ⟨t, c, e, r, rfl, hr, hpc, rfl⟩ |
    ⟨c, t, x, rfl, hc, ht, hx, rfl⟩ | ⟨t, k', rfl, ht, hk, rfl⟩ | ⟨t, p, rfl, hp, rfl⟩ |
    ⟨k', rfl, hk, rfl⟩ := Step.cases hs
  · obtain ⟨o, -, ok⟩ := sect_ok i hr hx
    exact ⟨ok.does.waitInv i.wait hr.2, ok.prio⟩
  · exact ⟨i.wait.move hr.2 .idle, i.prio⟩
  · have ok := isr_ok i hc hx
    exact ⟨(ok.prims t).waitInv i.wait, ok.prio⟩
  · obtain ⟨h, hh, hm, -, w⟩ := timeout_woken i ht hk
    exact ⟨i.wait.woken hm (by simp) w, i.prio⟩
  · exact ⟨i.wait.changed (Changed.of_control i.wait.sched hp), i.prio⟩
  · exact ⟨i.wait.schedule hk, i.prio⟩

theorem Sys.Init.sysInv (h : s.Init) : SysInv s := by
  refine ⟨⟨h.sched, fun t l hl ht => ?_, fun t ht => ?_, fun t l hl ht => ?_, fun t => ?_⟩,
    fun i hi => ?_⟩
  · rw [h.wait l hl] at ht
    cases ht
  · rw [h.timer t] at ht
    cases ht
  · rw [h.wait l hl] at ht
    cases ht
  · rw [h.error t]
    simp
  · obtain ⟨flag, he⟩ := h.mutex i
    rw [he] at hi
    exact absurd rfl hi

theorem sysInv_of_reachable (h : Reachable Sys.Init Sys.Step s) : SysInv s :=
  h.invariant (fun _ hi => hi.sysInv) fun _ _ _ _ i hs => Step.sysInv hs i

/-! ## What a step leaves alone -/

/-- Nothing changes at an object: its data, its wait lists, and the threads at it. -/
structure ObjFrame (o : Obj) (s s' : Sys) : Prop where
  same : SameObj o s.ipc s'.ipc
  lists : ∀ h : ListHead, h.ofObj o → s'.ipc.kernel.lists h = s.ipc.kernel.lists h
  pc : ∀ t, (s.pc t).obj = some o ∨ (s'.pc t).obj = some o → s'.pc t = s.pc t
  thread : ∀ t, (s.pc t).obj = some o →
    (s'.ipc.kernel.thread t).error = (s.ipc.kernel.thread t).error ∧
      (s'.ipc.kernel.thread t).eventSet = (s.ipc.kernel.thread t).eventSet

/-- A thread at an object is in no list of another. -/
theorem SysInv.not_mem {o' : Obj} (i : SysInv s) (hne : o' ≠ o) (hv : (s.pc v).obj = some o)
    (hh : h.ofObj o') : v ∉ s.ipc.kernel.lists h := by
  intro hm
  have h1 := i.wait.obj hh hm
  rw [hv] at h1
  exact hne (Option.some.inj h1).symm

/-- **Frame.** A step about one object changes nothing at another. -/
theorem Step.frame (hs : s.Step a s') (i : SysInv s) (ha : s.actObj a ≠ some o) :
    ObjFrame o s s' := by
  -- only the thread that moves changes its place
  have hmove : ∀ {t : ThreadId} {p : Pc} {v : ThreadId}, (s.pc t).obj ≠ some o →
      p.obj ≠ some o → (s.pc v).obj = some o ∨ (Function.update s.pc t p v).obj = some o →
      Function.update s.pc t p v = s.pc v := by
    intro t p v h1 h2 hv
    by_cases hvt : v = t
    · subst hvt
      rw [Function.update_self] at hv
      exact hv.elim (fun h => absurd h h1) fun h => absurd h h2
    · rw [Function.update_of_ne hvt]
  obtain ⟨t, r, x, rfl, hr, hx, rfl⟩ | ⟨t, c, e, r, rfl, hr, hpc, rfl⟩ |
    ⟨c, t, x, rfl, hc, ht, hx, rfl⟩ | ⟨t, k', rfl, ht, hk, rfl⟩ | ⟨t, p, rfl, hp, rfl⟩ |
    ⟨k', rfl, hk, rfl⟩ := Step.cases hs
  · obtain ⟨o', ho', ok⟩ := sect_ok i hr hx
    have hne : o' ≠ o := fun e => ha (by rw [ho', e])
    have hpt : (s.pc t).obj ≠ some o := by
      cases r with
      | call c =>
          simp only [Sys.sect] at hx
          split at hx
          · rename_i hidle
            rw [hidle]
            simp [Pc.obj]
          · cases hx
      | resumed _ | copy | finish => exact ha
    have hpc := fun v => hmove (v := v) hpt (p := x.pc)
      (by rw [ok.obj]; exact fun e => hne (Option.some.inj e))
    have hd := ok.does
    have hvt : ∀ {v}, (s.pc v).obj = some o → v ≠ t := fun hv e => hpt (e ▸ hv)
    have hl : ∀ {h : ListHead}, h.ofObj o → ¬ h.ofObj o' := fun h1 h2 => hne (ofObj_unique h2 h1)
    cases hd with
    | go hp _ =>
        have f := hp.frame i.wait
        exact ⟨ok.others o hne.symm, fun h hh => f.wait h ⟨o, hh⟩ (hl hh), hpc, fun v hv =>
          f.thread v (hvt hv) fun h hh => i.not_mem hne hv hh⟩
    | block hp hr₁ he hw hh b =>
        have f := hp.frame i.wait
        refine ⟨ok.others o hne.symm, fun h hh' => ?_, hpc, fun v hv => ?_⟩
        · exact (b.wait h ⟨o, hh'⟩ fun e => hl hh' (e ▸ hh)).trans (f.wait h ⟨o, hh'⟩ (hl hh'))
        · rw [b.thread v (hvt hv)]
          exact f.thread v (hvt hv) fun h hh => i.not_mem hne hv hh
  · have h1 : (s.pc t).obj ≠ some o := ha
    exact ⟨SameObj.refl o _, fun _ _ => rfl, fun v => hmove h1 (by simp [Pc.obj]),
      fun _ _ => ⟨rfl, rfl⟩⟩
  · have ok := isr_ok i hc hx
    have hne : c.obj ≠ o := fun e => ha (by rw [Sys.actObj, e])
    refine ⟨ok.others o hne.symm, fun h hh => ?_, fun v _ => rfl, fun v hv => ?_⟩
    · exact ((ok.prims t).frame i.wait).wait h ⟨o, hh⟩ fun hh' => hne (ofObj_unique hh' hh)
    · -- the handler is no thread, so any other thread may stand for it
      exact ((ok.prims (v + 1)).frame i.wait).thread v (Nat.succ_ne_self v).symm
        fun h hh => i.not_mem hne hv hh
  · obtain ⟨h, hh, hm, hw, w⟩ := timeout_woken i ht hk
    have h1 : (s.pc t).obj ≠ some o := ha
    refine ⟨SameObj.refl o _, fun h' hh' => ?_, fun _ _ => rfl, fun v hv => ?_⟩
    · refine w.wait h' ⟨o, hh'⟩ fun e => h1 ?_
      exact i.wait.obj hh' (e ▸ hm)
    · have hvt : v ≠ t := fun e => h1 (e ▸ hv)
      show (k'.thread v).error = _ ∧ (k'.thread v).eventSet = _
      rw [w.thread v hvt]
      exact ⟨rfl, rfl⟩
  · have ch := Changed.of_control (u := t) i.wait.sched hp
    refine ⟨SameObj.refl o _, fun h hh => ch.wait h ⟨o, hh⟩, fun _ _ => rfl, fun v _ => ?_⟩
    show ((s.ipc.kernel.rtThreadControl t p).thread v).error = _ ∧
      ((s.ipc.kernel.rtThreadControl t p).thread v).eventSet = _
    by_cases hv : v = t
    · rw [hv, ch.self]
      unfold setPriority
      split <;> exact ⟨rfl, rfl⟩
    · rw [ch.thread v hv]
      exact ⟨rfl, rfl⟩
  · refine ⟨SameObj.refl o _, fun h hh => rtSchedule_wait i.wait.sched hk ⟨o, hh⟩, fun _ _ => rfl,
      fun v _ => ?_⟩
    obtain ⟨st, b, he⟩ := rtSchedule_thread i.wait.sched hk v
    show (k'.thread v).error = _ ∧ (k'.thread v).eventSet = _
    rw [he]
    exact ⟨rfl, rfl⟩

/-! ## Calls about to return

For the calls that are done when they are woken: on semaphores, mutexes and events.
-/

/-- A call that may wait in `h` is about to return RT_EOK. -/
def Granted (h : ListHead) (s : Sys) (t : ThreadId) : Prop :=
  match s.pc t with
  | .wait c => c.waitsOn = some h ∧ t ∉ s.ipc.kernel.lists h ∧ (s.ipc.kernel.thread t).error = .ok
  | .ret c e _ => c.waitsOn = some h ∧ e = .ok
  | _ => False

/-- A call that may wait in `h` is about to return an error. -/
def Failed (h : ListHead) (s : Sys) (t : ThreadId) : Prop :=
  match s.pc t with
  | .wait c => c.waitsOn = some h ∧ t ∉ s.ipc.kernel.lists h ∧ (s.ipc.kernel.thread t).error ≠ .ok
  | .ret c e _ => c.waitsOn = some h ∧ e ≠ .ok
  | _ => False

omit [RtConfig] in
theorem granted_idle (hp : s.pc t = .idle) : ¬ Granted h s t ∧ ¬ Failed h s t := by
  unfold Granted Failed
  rw [hp]
  exact ⟨id, id⟩

omit [RtConfig] in
theorem granted_wait (hp : s.pc t = .wait c) :
    (Granted h s t ↔ c.waitsOn = some h ∧ t ∉ s.ipc.kernel.lists h ∧
      (s.ipc.kernel.thread t).error = .ok) ∧
    (Failed h s t ↔ c.waitsOn = some h ∧ t ∉ s.ipc.kernel.lists h ∧
      (s.ipc.kernel.thread t).error ≠ .ok) := by
  unfold Granted Failed
  rw [hp]
  exact ⟨Iff.rfl, Iff.rfl⟩

omit [RtConfig] in
theorem granted_ret {e : Err} {r : Reply} (hp : s.pc t = .ret c e r) :
    (Granted h s t ↔ c.waitsOn = some h ∧ e = .ok) ∧
      (Failed h s t ↔ c.waitsOn = some h ∧ e ≠ .ok) := by
  unfold Granted Failed
  rw [hp]
  exact ⟨Iff.rfl, Iff.rfl⟩

omit [RtConfig] in
theorem granted_congr {q : Sys} (hp : q.pc t = s.pc t)
    (hl : t ∈ q.ipc.kernel.lists h ↔ t ∈ s.ipc.kernel.lists h)
    (he : (q.ipc.kernel.thread t).error = (s.ipc.kernel.thread t).error) :
    (Granted h q t ↔ Granted h s t) ∧ (Failed h q t ↔ Failed h s t) := by
  unfold Granted Failed
  rw [hp]
  cases s.pc t with
  | wait c => simp only [hl, he, and_self]
  | _ => exact ⟨Iff.rfl, Iff.rfl⟩

omit [RtConfig] in
theorem granted_obj (hh : h.ofObj o) (hg : Granted h s t ∨ Failed h s t) :
    (s.pc t).obj = some o := by
  unfold Granted Failed at hg
  cases hp : s.pc t with
  | wait c =>
      rw [hp] at hg
      have hc : c.waitsOn = some h := hg.elim (·.1) (·.1)
      exact congrArg some (ofObj_unique (Call.ofObj_waitsOn hc) hh)
  | ret c e r =>
      rw [hp] at hg
      have hc : c.waitsOn = some h := hg.elim (·.1) (·.1)
      exact congrArg some (ofObj_unique (Call.ofObj_waitsOn hc) hh)
  | _ => simp [hp] at hg

omit [RtConfig] in
/-- A step that is not about the object changes nothing of this. -/
theorem ObjFrame.granted (f : ObjFrame o s s') (hh : h.ofObj o) (t : ThreadId) :
    (Granted h s' t ↔ Granted h s t) ∧ (Failed h s' t ↔ Failed h s t) := by
  by_cases hp : (s.pc t).obj = some o
  · exact granted_congr (f.pc t (Or.inl hp)) (by rw [f.lists h hh]) (f.thread t hp).1
  · have hback : Granted h s' t ∨ Failed h s' t → False := fun hg => by
      have h1 := granted_obj hh hg
      exact hp (f.pc t (Or.inr h1) ▸ h1)
    refine ⟨iff_of_false (fun hg => hback (Or.inl hg)) fun hg => hp (granted_obj hh (Or.inl hg)),
      iff_of_false (fun hg => hback (Or.inr hg)) fun hg => hp (granted_obj hh (Or.inr hg))⟩

omit [RtConfig] in
/-- Another thread is not affected by what a thread does without waking it. -/
theorem granted_other {ipc : Ipc} {p : Pc} (hv : v ≠ t)
    (hl : v ∈ ipc.kernel.lists h ↔ v ∈ s.ipc.kernel.lists h)
    (he : (ipc.kernel.thread v).error = (s.ipc.kernel.thread v).error) :
    (Granted h ⟨ipc, Function.update s.pc t p⟩ v ↔ Granted h s v) ∧
      (Failed h ⟨ipc, Function.update s.pc t p⟩ v ↔ Failed h s v) :=
  granted_congr (Function.update_of_ne hv ..) hl he

end

end RTThread.Ipc
