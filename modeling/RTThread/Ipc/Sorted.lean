import RTThread.Ipc.Inheritance

set_option autoImplicit false

/-! # Wait lists in the order of priority

A list of kind RT_IPC_FLAG_PRIO is ordered when a thread is linked in it, and by nothing else: a waiting
thread whose priority is changed stays where it is. `rt_thread_control` changes it, and so does
`rt_mutex_take` when the owner of the mutex waits for another object. The list stays in order, first come
first served among equals, exactly as long as such a thread keeps its place.
-/

namespace RTThread.Ipc

open Kernel Trans

/-! ## The kinds of the objects -/

/-- `parent.parent.flag` of an object. -/
def flagOf (s : Ipc) : Obj → Flag
  | .sem i => (s.sem i).flag
  | .mutex i => (s.mutex i).flag
  | .event i => (s.event i).flag
  | .mb i => (s.mb i).flag
  | .mq i => (s.mq i).flag

section

variable {s s' : Ipc} {k k' : Kernel} {o : Obj} {i : Nat}

theorem SameObj.flagOf_eq (h : SameObj o s s') : flagOf s' o = flagOf s o := by
  unfold SameObj at h
  cases o <;> exact congrArg (fun a => a.flag) h

/-- All objects but one are the same, and that one is of the same kind. -/
theorem flagOf_of_others (h : ∀ o', o' ≠ o → SameObj o' s s') (ho : flagOf s' o = flagOf s o) :
    flagOf s' = flagOf s := by
  funext o'
  by_cases he : o' = o
  · rw [he, ho]
  · exact (h o' he).flagOf_eq

@[simp] theorem flagOf_setKernel : flagOf (s.setKernel k) = flagOf s :=
  funext fun o => SameObj.flagOf_eq ((SameObj.refl o s).setKernel k)

theorem flagOf_setSem {a : Sem} (ha : a.flag = (s.sem i).flag) : flagOf (s.setSem i a) = flagOf s :=
  flagOf_of_others (o := .sem i) (fun _ => sameObj_setSem) (by simpa [flagOf] using ha)

theorem flagOf_setEvent {a : Event} (ha : a.flag = (s.event i).flag) :
    flagOf (s.setEvent i a) = flagOf s :=
  flagOf_of_others (o := .event i) (fun _ => sameObj_setEvent) (by simpa [flagOf] using ha)

theorem flagOf_setMb {a : Mailbox} (ha : a.flag = (s.mb i).flag) : flagOf (s.setMb i a) = flagOf s :=
  flagOf_of_others (o := .mb i) (fun _ => sameObj_setMb) (by simpa [flagOf] using ha)

theorem flagOf_setMq {a : MsgQueue} (ha : a.flag = (s.mq i).flag) : flagOf (s.setMq i a) = flagOf s :=
  flagOf_of_others (o := .mq i) (fun _ => sameObj_setMq) (by simpa [flagOf] using ha)

theorem mqDrain_flag (n : Nat) (q : MsgQueue) : (mqDrain n q).flag = q.flag := by
  induction n generalizing q with
  | zero => rfl
  | succ n ih =>
      unfold mqDrain
      split
      · exact ih _
      · rfl

end

/-! ## The sections that wait -/

section

variable [RtConfig] {s : Ipc} {k k' k₁ : Kernel} {pc : ThreadId → Pc} {t u v : ThreadId} {h : ListHead}
  {x : Section} {c : Call} {i : Nat} {time timeout : Int}

/-- A section keeps the kinds of the objects. If the thread has to wait, it is linked as the kind of the
object says. -/
structure Queues (s : Ipc) (t : ThreadId) (x : Section) : Prop where
  flag : flagOf x.ipc = flagOf s
  joins : ∀ c h, x.pc = .wait c → c.waitsOn = some h →
    x.ipc.kernel.lists h = waitInsert x.ipc.kernel t (flagOf s c.obj) (s.kernel.lists h)

omit [RtConfig] in
/-- A section at whose end the thread does not wait. -/
theorem Queues.goes (hf : flagOf x.ipc = flagOf s) (hw : x.pc.waitsOn = none) : Queues s t x := by
  refine ⟨hf, fun c h hc hwait => ?_⟩
  rw [hc] at hw
  exact absurd (hw.symm.trans hwait) (by simp)

/-- A section that ends with the suspension of the thread. -/
theorem Queues.blocks {b : Bool} (bl : Blocked k₁ h t (flagOf s c.obj) time k')
    (hl : k₁.lists h = s.kernel.lists h) (hw : c.waitsOn = some h) :
    Queues s t ⟨s.setKernel k', .wait c, b⟩ := by
  refine ⟨flagOf_setKernel, fun c' h' hc hwait => ?_⟩
  obtain rfl := Pc.wait.inj hc
  obtain rfl := Option.some.inj (hw.symm.trans hwait)
  show k'.lists h = _
  rw [bl.list, hl]
  exact (waitInsert_congr (fun v => bl.currentPriority.1) _ _).symm

section

variable (j : SchedInv s.kernel) (hc : s.kernel.current = some t) (hr : (s.kernel.thread t).stat = .running)

include j hc hr

theorem Loops.queues (hl : Loops s t x c) : Queues s t x := by
  cases hl with
  | @mbSend i value _ timeout hx =>
      obtain ⟨-, -, rfl⟩ | ⟨-, -, k', b, rfl⟩ | ⟨-, k', b, -, rfl⟩ := mbSendLoop_cases j hc hr hx
      · exact .goes flagOf_setKernel rfl
      · exact .blocks (c := .mbSend i value timeout) b rfl rfl
      · exact .goes (flagOf_setKernel.trans (flagOf_setMb rfl)) rfl
  | @mbRecv i _ timeout hx =>
      obtain ⟨-, -, rfl⟩ | ⟨-, -, k', b, rfl⟩ | ⟨-, k', b, -, rfl⟩ := mbRecvLoop_cases j hc hr hx
      · exact .goes flagOf_setKernel rfl
      · exact .blocks (c := .mbRecv i timeout) b rfl rfl
      · exact .goes (flagOf_setKernel.trans (flagOf_setMb rfl)) rfl
  | @mqSend i buffer _ timeout hx =>
      obtain ⟨-, -, rfl⟩ | ⟨-, -, k', b, rfl⟩ | ⟨msg, -, rfl⟩ := mqSendLoop_cases j hc hr hx
      · exact .goes flagOf_setKernel rfl
      · exact .blocks (c := .mqSend i buffer timeout) b rfl rfl
      · exact .goes (flagOf_setMq rfl) rfl
  | @mqRecv i size _ timeout hx =>
      obtain ⟨-, -, rfl⟩ | ⟨-, -, k', b, rfl⟩ | ⟨-, msg, -, rfl⟩ := mqRecvLoop_cases j hc hr hx
      · exact .goes flagOf_setKernel rfl
      · exact .blocks (c := .mqRecv i size timeout) b rfl rfl
      · exact .goes (flagOf_setMq rfl) rfl

omit j hc hr [RtConfig] in
/-- A section that changes nothing. -/
theorem Queues.nothing {p : Pc} {b : Bool} (hw : p.waitsOn = none) : Queues s t ⟨s, p, b⟩ := .goes rfl hw

/-- The first section of a call on an object that is no mutex. -/
theorem call_queues (hm : ∀ i, c.obj ≠ .mutex i) (hx : s.call t c = some x) : Queues s t x := by
  cases c with
  | semTake i time =>
      obtain ⟨-, rfl⟩ | ⟨-, -, rfl⟩ | ⟨-, -, k', b, rfl⟩ := rtSemTake_cases j hc hr hx
      · exact .goes (flagOf_setSem rfl) rfl
      · exact .nothing rfl
      · exact .blocks (c := .semTake i time) b rfl rfl
  | semRelease i =>
      obtain ⟨u, l, k', -, -, rfl⟩ | ⟨-, rfl⟩ := rtSemRelease_cases j hx
      · exact .goes flagOf_setKernel rfl
      · exact .goes (flagOf_setSem rfl) rfl
  | semReset i value =>
      obtain rfl := Option.some.inj hx
      exact .goes ((flagOf_setSem (by rfl)).trans flagOf_setKernel) rfl
  | mutexTake i | mutexRelease i => exact absurd rfl (hm i)
  | eventSend i set =>
      simp only [call, rtEventSend] at hx
      split_ifs at hx
      · obtain rfl := Option.some.inj hx
        exact .nothing rfl
      · obtain rfl := Option.some.inj hx
        exact .goes ((flagOf_setEvent (by rfl)).trans flagOf_setKernel) rfl
  | eventRecv i set option timeout =>
      obtain ⟨-, rfl⟩ | ⟨-, -, -, rfl⟩ | ⟨-, -, rfl⟩ | ⟨-, -, -, k', b, rfl⟩ :=
        rtEventRecv_cases j hc hr hx
      · exact .nothing rfl
      · exact .goes ((flagOf_setEvent (by rfl)).trans flagOf_setKernel) rfl
      · exact .goes flagOf_setKernel rfl
      · exact .blocks (c := .eventRecv i set option timeout) b rfl rfl
  | eventReset i =>
      obtain rfl := Option.some.inj hx
      exact .goes ((flagOf_setEvent (by rfl)).trans flagOf_setKernel) rfl
  | mbSend | mbRecv | mqSend | mqRecv =>
      obtain ⟨e, -, rfl⟩ | hl := call_loops hx trivial
      · exact .nothing rfl
      · exact hl.queues j hc hr
  | mbReset i =>
      obtain rfl := Option.some.inj hx
      exact .goes ((flagOf_setMb (by rfl)).trans flagOf_setKernel) rfl
  | mqUrgent i buffer =>
      obtain ⟨e, -, -, rfl⟩ | ⟨-, msg, -, rfl⟩ := rtMqUrgent_cases hx
      · exact .nothing rfl
      · exact .goes (flagOf_setMq rfl) rfl
  | mqReset i =>
      obtain rfl := Option.some.inj hx
      exact .goes ((flagOf_setMq (by exact mqDrain_flag _ _)).trans flagOf_setKernel) rfl

/-- The section after `rt_schedule`. -/
theorem resumed_queues {delta : Nat} (hm : ∀ i, c.obj ≠ .mutex i) (hx : s.resumed t delta c = some x) :
    Queues s t x := by
  obtain ⟨r, -, rfl⟩ | ⟨i, time, rfl, -, -⟩ | hl := resumed_cases hx
  · exact .nothing rfl
  · exact absurd rfl (hm i)
  · exact hl.queues j hc hr

omit j hc hr [RtConfig] in
/-- The sections around the copy of a message. -/
theorem copy_queues {msg : Nat} (hx : s.copy msg c = some x) : Queues s t x := by
  cases c with
  | mqSend | mqUrgent =>
      obtain rfl := Option.some.inj hx
      exact .goes (flagOf_setMq rfl) rfl
  | mqRecv =>
      obtain rfl := Option.some.inj hx
      exact .nothing rfl
  | semTake | semRelease | semReset | mutexTake | mutexRelease | eventSend | eventRecv |
    eventReset | mbSend | mbRecv | mbReset | mqReset => cases hx

omit hc hr in
theorem finish_queues {msg : Nat} {r : Reply} (hx : s.finish msg r c = some x) : Queues s t x := by
  have hlast : ∀ {i : Nat} {q : MsgQueue} {h : ListHead} {p : Pc},
      (s.setMq i q).resumeFirst h p = some x → q.flag = (s.mq i).flag → h.IsWait →
        p.waitsOn = none → Queues s t x := by
    intro i q h p hx hq hh hp
    obtain ⟨k', b, -, rfl⟩ := resumeFirst_cases (s := s.setMq i q) j hh hx
    exact .goes (flagOf_setKernel.trans (flagOf_setMq hq)) hp
  cases c with
  | mqSend | mqUrgent => exact hlast hx rfl ⟨_, Or.inl rfl⟩ rfl
  | mqRecv => exact hlast hx rfl ⟨_, Or.inr rfl⟩ rfl
  | semTake | semRelease | semReset | mutexTake | mutexRelease | eventSend | eventRecv |
    eventReset | mbSend | mbRecv | mbReset | mqReset => cases hx

omit hc hr in
/-- A call of an interrupt handler. -/
theorem isr_flag (hi : c.FromIsr) (hx : s.call t c = some x) : flagOf x.ipc = flagOf s := by
  cases c with
  | semTake i time =>
      obtain rfl : time = 0 := hi
      simp only [call, rtSemTake, if_true] at hx
      split_ifs at hx <;> obtain rfl := Option.some.inj hx
      · exact flagOf_setSem rfl
      · rfl
  | semRelease i =>
      obtain ⟨u, l, k', -, -, rfl⟩ | ⟨-, rfl⟩ := rtSemRelease_cases j hx
      · exact flagOf_setKernel
      · exact flagOf_setSem rfl
  | eventSend i set =>
      simp only [call, rtEventSend] at hx
      split_ifs at hx <;> obtain rfl := Option.some.inj hx
      · rfl
      · exact (flagOf_setEvent (by rfl)).trans flagOf_setKernel
  | mbSend i value timeout =>
      obtain rfl : timeout = 0 := hi
      simp only [call, rtMbSendWait, and_true] at hx
      split_ifs at hx with he
      · obtain rfl := Option.some.inj hx
        rfl
      · simp only [mbSendLoop, if_neg he] at hx
        obtain ⟨k', b, -, rfl⟩ := resumeFirst_cases (by exact j) ⟨_, Or.inl rfl⟩ hx
        exact flagOf_setKernel.trans (flagOf_setMb rfl)
  | mbRecv i timeout =>
      obtain rfl : timeout = 0 := hi
      simp only [call, rtMbRecv, and_true] at hx
      split_ifs at hx with he
      · obtain rfl := Option.some.inj hx
        rfl
      · simp only [mbRecvLoop, if_neg he] at hx
        obtain ⟨k', b, -, rfl⟩ := resumeFirst_cases (by exact j) ⟨_, Or.inr rfl⟩ hx
        exact flagOf_setKernel.trans (flagOf_setMb rfl)
  | semReset | mutexTake | mutexRelease | eventRecv | eventReset | mbReset | mqSend | mqUrgent |
    mqRecv | mqReset => exact absurd hi (by simp [Call.FromIsr])

end

end

/-! ## What a step does to a list -/

section

variable [RtConfig] {s s' : Sys} {k k' : Kernel} {pc : ThreadId → Pc} {a : Action} {t u v : ThreadId}
  {o : Obj} {h : ListHead} {x : Section} {c : Call} {r : Run} {p : Nat}

/-- A chain of changes links no thread in a list. -/
theorem Prims.sublist (p : Prims o t k k') (hh : h.IsWait) : (k'.lists h).Sublist (k.lists h) := by
  induction p with
  | refl => exact List.Sublist.refl _
  | tail _ hp ih =>
      refine List.Sublist.trans ?_ ih
      cases hp with
      | self | eventSet => exact List.Sublist.refl _
      | changed _ c => rw [c.wait h hh]
      | @woken _ u h' e _ hu _ w =>
          by_cases he : h = h'
          · rw [he, w.list]
            exact List.erase_sublist
          · rw [w.wait h hh he]

theorem sect_queues (i : SysInv s) (hr : s.Runs t) (hx : s.sect t r = some x)
    (hm : ∀ m, s.actObj (.run t r) ≠ some (.mutex m)) : Queues s.ipc t x := by
  obtain ⟨c, rfl, hp, hx⟩ | ⟨delta, c, rfl, hp, hx⟩ | ⟨c, msg, m, rfl, hp, -, hx⟩ |
    ⟨c, msg, r', m, rfl, hp, -, hx⟩ := sect_cases hx
  · exact call_queues i.wait.sched hr.1 hr.2 (fun m he => hm m (congrArg some he)) hx
  · refine resumed_queues i.wait.sched hr.1 hr.2 (fun m he => hm m ?_) hx
    show (s.pc t).obj = _
    rw [hp]
    exact congrArg some he
  · exact copy_queues hx
  · exact finish_queues i.wait.sched hx

/-- **No step changes the kind of an object.** -/
theorem Step.kind (hs : s.Step a s') (i : SysInv s) : flagOf s'.ipc = flagOf s.ipc := by
  funext o
  by_cases ha : s.actObj a = some o
  · by_cases hm : ∃ m, o = .mutex m
    · obtain ⟨m, rfl⟩ := hm
      exact Step.mutexFlag hs i
    · obtain ⟨t, r, x, rfl, hr, hx, rfl⟩ | ⟨t, c, e, r, rfl, hr, hpc, rfl⟩ |
        ⟨c, t, x, rfl, hc, ht, hx, rfl⟩ | ⟨t, k', rfl, ht, hk, rfl⟩ | ⟨t, p, rfl, hp, rfl⟩ |
        ⟨k', rfl, hk, rfl⟩ := Step.cases hs
      · have hne : ∀ m, s.actObj (.run t r) ≠ some (.mutex m) := fun m he =>
          hm ⟨m, Option.some.inj (ha.symm.trans he)⟩
        exact congrFun (sect_queues i hr hx hne).flag o
      · rfl
      · exact congrFun (isr_flag i.wait.sched hc hx) o
      all_goals exact congrFun flagOf_setKernel o
  · exact (Step.frame hs i ha).same.flagOf_eq

theorem Step.runs (hs : s.Step (.run t r) s') : s.Runs t := by
  by_contra hr
  simp [Sys.Step, Sys.exec, if_neg hr] at hs

/-- **What a step does to a list that calls wait in**: threads leave it, or the running thread is
linked as the kind of the object says. -/
theorem Step.list_cases (hs : s.Step a s') (i : SysInv s) (hw : c.waitsOn = some h) :
    (s'.ipc.kernel.lists h).Sublist (s.ipc.kernel.lists h) ∨
    ∃ t, s.Runs t ∧ s'.ipc.kernel.lists h =
      waitInsert s'.ipc.kernel t (flagOf s.ipc c.obj) (s.ipc.kernel.lists h) := by
  have hh : h.ofObj c.obj := Call.ofObj_waitsOn hw
  have hwait : h.IsWait := ⟨_, hh⟩
  by_cases ha : s.actObj a = some c.obj
  · by_cases hm : ∃ m, c.obj = .mutex m
    · obtain ⟨m, hm⟩ := hm
      obtain rfl : h = .suspend (.mutex m) := by
        cases c <;> simp_all [Call.obj, Call.waitsOn]
      rw [hm] at ha ⊢
      cases mutexEffect hs i ha with
      | quiet _ _ _ _ hl => exact .inl hl
      | take _ _ _ _ hl =>
          refine .inl ?_
          show (s'.waiters m).Sublist (s.waiters m)
          rw [hl]
      | wait _ _ _ _ _ hl => exact .inr ⟨_, Step.runs hs, hl⟩
      | handOver _ _ hq _ _ _ hl =>
          refine .inl ?_
          show (s'.waiters m).Sublist (s.waiters m)
          rw [hl, hq]
          exact List.sublist_cons_self _ _
      | free _ _ _ _ _ hl =>
          refine .inl ?_
          show (s'.waiters m).Sublist (s.waiters m)
          rw [hl]
          exact List.nil_sublist _
    · obtain ⟨t, r, x, rfl, hr, hx, rfl⟩ | ⟨t, c, e, r, rfl, hr, hpc, rfl⟩ |
        ⟨c, t, x, rfl, hc, ht, hx, rfl⟩ | ⟨t, k', rfl, ht, hk, rfl⟩ | ⟨t, p, rfl, hp, rfl⟩ |
        ⟨k', rfl, hk, rfl⟩ := Step.cases hs
      · obtain ⟨o, ho, ok⟩ := sect_ok i hr hx
        have hd := ok.does
        cases hd with
        | go hp _ => exact .inl (hp.sublist hwait)
        | @block k₁ _ h' _ _ hp hr₁ he hw' hh' b =>
            by_cases hne : h = h'
            · have hq := sect_queues i hr hx fun m he => hm ⟨m, Option.some.inj (ha.symm.trans he)⟩
              obtain ⟨c', hc', hcw⟩ : ∃ c', x.pc = .wait c' ∧ c'.waitsOn = some h' := by
                cases hpc : x.pc with
                | wait c' => exact ⟨c', rfl, by rwa [hpc] at hw'⟩
                | _ => simp [hpc, Pc.waitsOn] at hw'
              subst hne
              rw [← ofObj_unique (Call.ofObj_waitsOn hcw) hh]
              exact .inr ⟨t, hr, hq.joins c' h hc' hcw⟩
            · refine .inl ?_
              show (x.ipc.kernel.lists h).Sublist _
              rw [b.wait h hwait hne]
              exact hp.sublist hwait
      · exact .inl (List.Sublist.refl _)
      · exact .inl (((isr_ok i hc hx).prims t).sublist hwait)
      · obtain ⟨h', hh', hm', -, w⟩ := timeout_woken i ht hk
        exact .inl (Prims.sublist (t := t) (.single (.woken hh'.choose_spec hm' (by simp) w)) hwait)
      · refine .inl ?_
        show ((s.ipc.kernel.rtThreadControl t p).lists h).Sublist _
        rw [(Changed.of_control i.wait.sched hp).wait h hwait]
      · refine .inl ?_
        show (k'.lists h).Sublist _
        rw [rtSchedule_wait i.wait.sched hk hwait]
  · rw [(Step.frame hs i ha).lists h hh]
    exact .inl (List.Sublist.refl _)

/-! ## Priorities of threads that wait -/

/-- The step gives the thread this priority, perhaps while it waits. -/
inductive Sys.Sets (s : Sys) : Action → ThreadId → Nat → Prop
  /-- by `rt_thread_control` -/
  | control (u : ThreadId) (p : Nat) : Sys.Sets s (.control u p) u p
  /-- by `rt_mutex_take`, to the owner -/
  | boost {t u : ThreadId} {i : Nat} {time : Int} (htime : time ≠ 0) (ho : s.owner i = some u)
      (hlt : s.prio t < s.prio u) : Sys.Sets s (.run t (.call (.mutexTake i time))) u (s.prio t)

theorem Step.control_prio (hs : s.Step (.control u p) s') (i : SysInv s) :
    s'.prio = Function.update s.prio u p := by
  simp only [Sys.Step, Sys.exec] at hs
  split_ifs at hs with hp
  obtain rfl := Option.some.inj hs
  exact Ipc.Changed.currentPriority (Changed.of_control i.wait.sched hp)

/-- A call that does not wait raises nobody. -/
theorem Step.take_zero {m : Nat} (hs : s.Step (.run t (.call (.mutexTake m 0))) s') (i : SysInv s) :
    s'.prio = s.prio := by
  cases mutexStep hs i (i := m) rfl with
  | again | take => exact setError_prio
  | busy => exact setError_prio.trans setError_prio
  | wait _ _ _ _ _ htime => exact absurd rfl htime

theorem Step.sets (hs : s.Step a s') (i : SysInv s) (hd : ∀ m, Held m s) (hset : s.Sets a u p) :
    s'.prio = Function.update s.prio u p := by
  cases hset with
  | control => exact Step.control_prio hs i
  | @boost t u m time htime ho hlt =>
      cases mutexStep hs i (i := m) rfl with
      | again _ _ ho' =>
          obtain rfl : t = u := Option.some.inj (ho'.symm.trans ho)
          exact absurd hlt (lt_irrefl _)
      | take _ _ _ hv => exact absurd ((hd m).free_of_value hv).2.1 (by simp [ho])
      | busy => exact absurd rfl htime
      | @wait _ owner _ k k' _ _ _ ho' _ _ w b =>
          obtain rfl : owner = u := Option.some.inj (ho'.symm.trans ho)
          have hmin : min (s.prio owner) (s.prio t) = s.prio t := min_eq_right hlt.le
          exact (waiting_prio w b).trans (congrArg (Function.update s.prio owner) hmin)

/-- **No other step changes the priority of a thread that waits.** -/
theorem Step.prio_cases (hs : s.Step a s') (i : SysInv s)
    (hv : v ∈ s.ipc.kernel.lists h) : s'.prio v = s.prio v ∨ s.Sets a v (s'.prio v) := by
  by_cases hm : ∃ m, s.actObj a = some (.mutex m)
  · obtain ⟨m, hm⟩ := hm
    -- a thread that releases a mutex runs, so it is not `v`
    have hne : ∀ {t : ThreadId} {r : Run}, a = .run t r → v ≠ t := by
      rintro t r rfl rfl
      exact i.wait.sched.running_not_mem (Step.runs hs).2 hv
    cases mutexEffect hs i hm with
    | quiet _ _ _ _ _ hp => exact .inl (congrFun hp v)
    | take _ _ _ _ _ hp => exact .inl (congrFun hp v)
    | @wait t owner time _ _ hown _ _ _ _ hp =>
        rw [hp]
        by_cases hvo : v = owner
        · subst hvo
          rw [Function.update_self]
          by_cases hlt : s.prio t < s.prio v
          · rw [min_eq_right hlt.le]
            refine .inr (.boost (fun htime => ?_) hown hlt)
            subst htime
            have hq := congrFun ((Step.take_zero hs i).symm.trans hp) v
            rw [Function.update_self, min_eq_right hlt.le] at hq
            exact absurd hq hlt.ne'
          · exact .inl (min_eq_left (not_lt.mp hlt))
        · exact .inl (Function.update_of_ne hvo ..)
    | handOver _ _ _ _ _ _ _ hp =>
        rw [hp]
        exact .inl (Function.update_of_ne (hne rfl) ..)
    | free _ _ _ _ _ _ hp =>
        rw [hp]
        exact .inl (Function.update_of_ne (hne rfl) ..)
  · by_cases hc : ∃ t p, a = .control t p
    · obtain ⟨t, p, rfl⟩ := hc
      rw [Step.control_prio hs i]
      by_cases hvt : v = t
      · rw [hvt, Function.update_self]
        exact .inr (.control t p)
      · exact .inl (Function.update_of_ne hvt ..)
    · exact .inl (congrFun (Step.prio hs i (not_exists.mp hm) fun t p he => hc ⟨t, p, he⟩) v)

end

/-! ## The order of arrival -/

/-- The system, the number of the step, and for each thread the step in which it was linked in a list. -/
structure Watched where
  sys : Sys
  now : Nat
  came : ThreadId → Nat

/-- One thread in front of another: it is more urgent, or as urgent and it came first. -/
def Before (prio came : ThreadId → Nat) (u v : ThreadId) : Prop :=
  prio u < prio v ∨ prio u = prio v ∧ came u < came v

/-- With the priority `p` the thread `u` belongs between the threads of the two lists. -/
def FitsIn (prio came : ThreadId → Nat) (u : ThreadId) (p : Nat) (l₁ l₂ : List ThreadId) : Prop :=
  (∀ v ∈ l₁, prio v < p ∨ prio v = p ∧ came v < came u) ∧
    ∀ v ∈ l₂, p < prio v ∨ p = prio v ∧ came u < came v

/-- The order after one thread has got another priority. -/
theorem pairwise_update_iff {prio came : ThreadId → Nat} {l₁ l₂ : List ThreadId} {u : ThreadId} {p : Nat}
    (hnd : (l₁ ++ u :: l₂).Nodup) (h : (l₁ ++ u :: l₂).Pairwise (Before prio came)) :
    (l₁ ++ u :: l₂).Pairwise (Before (Function.update prio u p) came) ↔ FitsIn prio came u p l₁ l₂ := by
  obtain ⟨-, hnd₂, hapart⟩ := List.pairwise_append.mp hnd
  have hne₁ : ∀ v ∈ l₁, v ≠ u := fun v hv => hapart v hv u List.mem_cons_self
  have hne₂ : ∀ v ∈ l₂, v ≠ u := fun v hv => Ne.symm ((List.pairwise_cons.mp hnd₂).1 v hv)
  have hsame : ∀ {x y}, x ≠ u → y ≠ u → Before prio came x y →
      Before (Function.update prio u p) came x y := by
    intro x y hx hy hxy
    rwa [Before, Function.update_of_ne hx, Function.update_of_ne hy]
  rw [List.pairwise_append, List.pairwise_cons] at h ⊢
  obtain ⟨h₁, ⟨-, h₂⟩, h₁₂⟩ := h
  constructor
  · rintro ⟨-, ⟨hu, -⟩, hall⟩
    refine ⟨fun v hv => ?_, fun v hv => ?_⟩
    · have hvu := hall v hv u List.mem_cons_self
      rwa [Before, Function.update_self, Function.update_of_ne (hne₁ v hv)] at hvu
    · have huv := hu v hv
      rwa [Before, Function.update_self, Function.update_of_ne (hne₂ v hv)] at huv
  · rintro ⟨hfront, hbehind⟩
    refine ⟨h₁.imp_of_mem fun hx hy => hsame (hne₁ _ hx) (hne₁ _ hy), ⟨fun v hv => ?_, ?_⟩, ?_⟩
    · rw [Before, Function.update_self, Function.update_of_ne (hne₂ v hv)]
      exact hbehind v hv
    · exact h₂.imp_of_mem fun hx hy => hsame (hne₂ _ hx) (hne₂ _ hy)
    · intro x hx y hy
      obtain rfl | hy := List.mem_cons.mp hy
      · rw [Before, Function.update_self, Function.update_of_ne (hne₁ x hx)]
        exact hfront x hx
      · exact hsame (hne₁ x hx) (hne₂ y hy) (h₁₂ x hx y (List.mem_cons_of_mem u hy))

namespace Watched

def Init [RtConfig] (w : Watched) : Prop := w.sys.Init

/-- The threads in the list that is watched. -/
def list (w : Watched) (h : ListHead) : List ThreadId := w.sys.ipc.kernel.lists h

/-- The list is ordered by priority, first come first served among equals. -/
def Sorted (h : ListHead) (w : Watched) : Prop := (w.list h).Pairwise (Before w.sys.prio w.came)

/-- If the step gives a thread in the list another priority, the thread belongs where it is. -/
def KeepsPlace (h : ListHead) (w : Watched) (a : Action) : Prop :=
  ∀ u p l₁ l₂, w.sys.Sets a u p → w.list h = l₁ ++ u :: l₂ → FitsIn w.sys.prio w.came u p l₁ l₂

variable [RtConfig]

def exec (h : ListHead) (w : Watched) (a : Action) : Option Watched :=
  (w.sys.exec a).map fun s =>
    { sys := s
      now := w.now + 1
      came := fun u => if u ∈ s.ipc.kernel.lists h ∧ u ∉ w.list h then w.now else w.came u }

end Watched

section

variable [RtConfig] {w w' : Watched} {a : Action} {t u v : ThreadId} {h : ListHead} {c : Call} {p : Nat}

/-- What holds in every state besides the order. -/
structure WatchInv (h : ListHead) (w : Watched) : Prop where
  inv : SysInv w.sys
  held : ∀ m, Held m w.sys
  came : ∀ u ∈ w.list h, w.came u < w.now

theorem Watched.exec_cases (hx : w.exec h a = some w') : w.sys.Step a w'.sys ∧ w'.now = w.now + 1 ∧
    (∀ u ∈ w.list h, w'.came u = w.came u) ∧ ∀ u ∈ w'.list h, u ∉ w.list h → w'.came u = w.now := by
  obtain ⟨s, hs, rfl⟩ := Option.map_eq_some_iff.mp hx
  exact ⟨hs, rfl, fun u hu => if_neg fun hn => hn.2 hu, fun u hu hn => if_pos ⟨hu, hn⟩⟩

theorem WatchInv.step (i : WatchInv h w) (hx : w.exec h a = some w') : WatchInv h w' := by
  obtain ⟨hs, hnow, hold, hnew⟩ := Watched.exec_cases hx
  refine ⟨Step.sysInv hs i.inv, fun m => Step.held hs i.inv (i.held m), fun u hu => ?_⟩
  rw [hnow]
  by_cases hm : u ∈ w.list h
  · rw [hold u hm]
    exact Nat.lt_succ_of_lt (i.came u hm)
  · rw [hnew u hu hm]
    exact Nat.lt_succ_self _

/-- A step that gives a thread in the list another priority leaves the list alone. -/
theorem Step.list_of_sets {s s' : Sys} (hs : s.Step a s') (i : SysInv s) (hd : ∀ m, Held m s)
    (hh : h.IsWait) (hset : s.Sets a u p) (hu : u ∈ s.ipc.kernel.lists h) :
    s'.ipc.kernel.lists h = s.ipc.kernel.lists h := by
  obtain ⟨o, ho⟩ := hh
  refine (Step.frame hs i (o := o) fun ha => ?_).lists h ho
  cases hset with
  | control => cases ha
  | @boost t _ m time _ hown hlt =>
      obtain rfl : Obj.mutex m = o := Option.some.inj ha
      obtain rfl | rfl := ho
      · exact (hd m).not_mem hown hu
      · have hw := i.wait.waits u _ ⟨_, Or.inr rfl⟩ hu
        cases hpc : s.pc u with
        | wait c => cases c <;> simp [hpc, Pc.waitsOn, Call.waitsOn] at hw
        | _ => simp [hpc, Pc.waitsOn] at hw

/-- **One step** keeps a list of kind RT_IPC_FLAG_PRIO in order if and only if no thread in it gets a
priority with which it belongs elsewhere. -/
theorem Watched.Sorted.step_iff (hsort : w.Sorted h) (i : WatchInv h w) (hw : c.waitsOn = some h)
    (hf : flagOf w.sys.ipc c.obj = .prio) (hx : w.exec h a = some w') :
    w'.Sorted h ↔ w.KeepsPlace h a := by
  obtain ⟨hs, -, hold, hnew⟩ := Watched.exec_cases hx
  have hwait : h.IsWait := ⟨_, Call.ofObj_waitsOn hw⟩
  by_cases hset : ∃ u p, w.sys.Sets a u p ∧ u ∈ w.list h
  · obtain ⟨u, p, hset, hu⟩ := hset
    have hlist : w'.list h = w.list h := Step.list_of_sets hs i.inv i.held hwait hset hu
    have hprio : ∀ {u p}, w.sys.Sets a u p → w'.sys.prio = Function.update w.sys.prio u p :=
      fun hset => Step.sets hs i.inv i.held hset
    have hcame : w'.Sorted h ↔ (w.list h).Pairwise (Before w'.sys.prio w.came) := by
      unfold Watched.Sorted
      rw [hlist]
      refine List.Pairwise.iff_of_mem fun {u v} hu hv => ?_
      rw [Before, Before, hold u hu, hold v hv]
    have hplace : ∀ {u p l₁ l₂}, w.sys.Sets a u p → w.list h = l₁ ++ u :: l₂ →
        (w'.Sorted h ↔ FitsIn w.sys.prio w.came u p l₁ l₂) := by
      intro u p l₁ l₂ hset hl
      rw [hcame, hprio hset, hl]
      exact pairwise_update_iff (hl ▸ i.inv.wait.sched.nodup h) (hl ▸ hsort)
    constructor
    · intro hsort' u p l₁ l₂ hset hl
      exact (hplace hset hl).mp hsort'
    · intro hkeeps
      obtain ⟨l₁, l₂, hl⟩ := List.append_of_mem hu
      exact (hplace hset hl).mpr (hkeeps u p l₁ l₂ hset hl)
  · have hquiet : ∀ v ∈ w.list h, w'.sys.prio v = w.sys.prio v := fun v hv =>
      (Step.prio_cases hs i.inv hv).resolve_right fun hn => hset ⟨v, _, hn, hv⟩
    refine iff_of_true ?_ fun u p l₁ l₂ hs' hl => absurd ⟨u, p, hs', by simp [hl]⟩ hset
    have hkeep : (w.list h).Pairwise (Before w'.sys.prio w'.came) := by
      refine List.Pairwise.imp_of_mem (fun {u v} hu hv huv => ?_) hsort
      unfold Before
      rwa [hquiet u hu, hquiet v hv, hold u hu, hold v hv]
    obtain hl | ⟨t, hr, hl⟩ := Step.list_cases hs i.inv hw
    · exact hkeep.sublist hl
    · -- the thread is linked behind those that are as urgent, and it came last
      have ht : t ∉ w.list h := i.inv.wait.sched.running_not_mem hr.2
      have hlist : w'.list h = prioInsert w'.sys.ipc.kernel t (w.list h) := by
        rw [hf] at hl
        exact hl
      have htlast : w'.came t = w.now := by
        refine hnew t ?_ ht
        rw [hlist, (prioInsert_perm _ t _).mem_iff]
        exact List.mem_cons_self
      unfold Watched.Sorted
      rw [hlist]
      refine prioInsert_pairwise hkeep (fun u v hlt huv => ?_) fun u hu hge => ?_
      · have hlt' : w'.sys.prio t < w'.sys.prio u := hlt
        obtain rfl | huv | ⟨huv, -⟩ := huv
        · exact .inl hlt'
        · exact .inl (hlt'.trans huv)
        · exact .inl (huv ▸ hlt')
      · obtain hlt | heq := lt_or_eq_of_le (show w'.sys.prio u ≤ w'.sys.prio t from not_lt.mp hge)
        · exact .inl hlt
        · refine .inr ⟨heq, ?_⟩
          rw [hold u hu, htlast]
          exact i.came u hu

/-- A step after which no thread in the list is out of place. -/
def PlacedStep (h : ListHead) (w : Watched) (a : Action) (w' : Watched) : Prop :=
  w.exec h a = some w' ∧ w.KeepsPlace h a

theorem PlacedStep.reachable (hw : c.waitsOn = some h)
    (hr : Reachable Watched.Init (PlacedStep h) w) :
    WatchInv h w ∧ (flagOf w.sys.ipc c.obj = .prio → w.Sorted h) := by
  have hwait : h.IsWait := ⟨_, Call.ofObj_waitsOn hw⟩
  refine hr.invariant (I := fun w => WatchInv h w ∧ (flagOf w.sys.ipc c.obj = .prio → w.Sorted h))
    (fun w hi => ?_) fun w a w' _ hi hs => ⟨hi.1.step hs.1, fun hf => ?_⟩
  · have hnil : w.list h = [] := hi.wait h hwait
    refine ⟨⟨hi.sysInv, hi.held, fun u hu => ?_⟩, fun _ => ?_⟩
    · rw [hnil] at hu
      cases hu
    · unfold Watched.Sorted
      rw [hnil]
      exact List.Pairwise.nil
  · rw [Step.kind (Watched.exec_cases hs.1).1 hi.1.inv] at hf
    exact ((hi.2 hf).step_iff hi.1 hw hf hs.1).mpr hs.2

/-- **Wait lists of kind RT_IPC_FLAG_PRIO**, in every state of every run in which no thread that waits
gets a priority with which it belongs elsewhere: the list is ordered by priority, first come first
served among equals, and `rt_ipc_list_resume` wakes a thread of highest priority. From there a step
keeps the order if and only if it meets this condition. -/
theorem wait_list_sorted (hw : c.waitsOn = some h)
    (hr : Reachable Watched.Init (PlacedStep h) w) (hf : flagOf w.sys.ipc c.obj = .prio) :
    w.Sorted h ∧
    (∀ k', rtIpcListResume w.sys.ipc.kernel h = some k' → ∃ u l, w.list h = u :: l ∧
      k' = (w.sys.ipc.kernel.rtThreadResume u).2 ∧ ∀ v ∈ l, w.sys.prio u ≤ w.sys.prio v) ∧
    ∀ a w', w.exec h a = some w' → (w'.Sorted h ↔ w.KeepsPlace h a) := by
  obtain ⟨i, hsort⟩ := PlacedStep.reachable hw hr
  refine ⟨hsort hf, fun k' hk => ?_, fun a w' hx => (hsort hf).step_iff i hw hf hx⟩
  unfold rtIpcListResume at hk
  split at hk
  · rename_i u l hl
    refine ⟨u, l, hl, (Option.some.inj hk).symm, fun v hv => ?_⟩
    have hs : (u :: l).Pairwise (Before w.sys.prio w.came) := hl ▸ hsort hf
    obtain hlt | ⟨heq, -⟩ := (List.pairwise_cons.mp hs).1 v hv
    · exact hlt.le
    · exact heq.le
  · cases hk

end

/-! ## An owner that waits -/

attribute [local instance] config32

/-- The threads of `contenders`, and semaphores of kind RT_IPC_FLAG_PRIO without tokens. -/
def waitForSem : Option Sys := startSys contenders [1, 2, 3, 4] (fun _ => ⟨0, .prio⟩) fun _ => .prio

/-- The list of semaphore 0. -/
def semList : ListHead := .suspend (.sem 0)

/-- Thread 2 sleeps. Threads 1 and 3 wait for the semaphore, then thread 2. -/
def urgentLast : List Action :=
  [.run 2 (.call (.semTake 1 10)), .schedule, .run 1 (.call (.semTake 0 (-1))), .schedule,
    .run 3 (.call (.semTake 0 (-1))), .schedule,
    .timeout 2, .schedule, .run 2 (.resumed 10), .ret 2, .run 2 (.call (.semTake 0 (-1)))]

/-- Thread 2 sleeps. Thread 1 waits for the semaphore; thread 3 takes the mutex and waits behind it. Thread 2
waits for the mutex. -/
def ownerWaits : List Action :=
  [.run 2 (.call (.semTake 1 10)), .schedule, .run 1 (.call (.semTake 0 (-1))), .schedule,
    .run 3 (.call (.mutexTake 0 (-1))), .ret 3, .run 3 (.call (.semTake 0 (-1))), .schedule,
    .timeout 2, .schedule, .run 2 (.resumed 10), .ret 2, .run 2 (.call (.mutexTake 0 (-1)))]

/-- A step that gives no other thread a priority. -/
def Action.setsNone : Action → Bool
  | .control _ _ => false
  | .run _ (.call (.mutexTake _ _)) => false
  | _ => true

theorem placed_of_setsNone {h : ListHead} {w : Watched} {a : Action} (ha : a.setsNone = true) :
    w.KeepsPlace h a := by
  intro u p l₁ l₂ hset
  cases hset <;> cases ha

/-- What a run of such steps, or of any steps, leads to: the kind of the semaphore, its list and the
priorities of two threads. -/
def semListEnd (p : Action → Prop) [DecidablePred p] (as : List Action) :
    Option (Flag × List ThreadId × Nat × Nat) :=
  waitForSem.bind fun s => (runList (stepIf (Watched.exec semList) fun _ a => p a)
    ⟨s, 0, fun _ => 0⟩ as).map fun w =>
      (flagOf w.sys.ipc (.sem 0), w.list semList, w.sys.prio 1, w.sys.prio 3)

theorem semList_run {p : Action → Prop} [DecidablePred p] {as : List Action} {f : Flag}
    {l : List ThreadId} {m n : Nat} (h : semListEnd p as = some (f, l, m, n)) :
    ∃ w : Watched, Reachable Watched.Init (fun w a w' => w.exec semList a = some w' ∧ p a) w ∧
      flagOf w.sys.ipc (.sem 0) = f ∧ w.list semList = l ∧ w.sys.prio 1 = m ∧ w.sys.prio 3 = n := by
  obtain ⟨s, hs, h⟩ := Option.bind_eq_some_iff.mp h
  obtain ⟨w, hw, h⟩ := Option.map_eq_some_iff.mp h
  simp only [Prod.mk.injEq] at h
  have hinit : s.Init := by
    refine startSys_init (fun t => ?_) (fun _ => by norm_num) hs
    unfold contenders
    split <;> norm_num
  exact ⟨w, reachable_of_runList_stepIf (show Watched.Init ⟨s, 0, fun _ => 0⟩ from hinit) hw, h⟩

/-- The most urgent thread is linked in front. -/
theorem wait_list_sorted_urgent : ∃ w : Watched, w.list semList = [2, 1, 3] ∧ w.Sorted semList := by
  obtain ⟨w, hr, hf, hl, -⟩ := semList_run
    (by decide +kernel : semListEnd (fun a => a.setsNone = true) urgentLast = some (.prio, [2, 1, 3], 10, 20))
  refine ⟨w, hl, (wait_list_sorted (c := .semTake 0 (-1)) rfl (hr.mono fun _ _ _ hs => ?_) hf).1⟩
  exact ⟨hs.1, placed_of_setsNone hs.2⟩

/-- **An owner that waits is raised**: thread 3, with priority 5 then, stays behind thread 1, with priority
10, in the list of the semaphore. -/
theorem wait_list_unsorted : ∃ w : Watched, Reachable Watched.Init
      (fun w a w' => w.exec semList a = some w' ∧ True) w ∧
    flagOf w.sys.ipc (.sem 0) = .prio ∧ w.list semList = [1, 3] ∧ w.sys.prio 1 = 10 ∧
    w.sys.prio 3 = 5 ∧ ¬ w.Sorted semList := by
  obtain ⟨w, hr, hf, hl, h1, h3⟩ := semList_run
    (by decide +kernel : semListEnd (fun _ => True) ownerWaits = some (.prio, [1, 3], 10, 5))
  refine ⟨w, hr, hf, hl, h1, h3, fun hsort => ?_⟩
  rw [Watched.Sorted, hl] at hsort
  have hbefore := (List.pairwise_cons.mp hsort).1 3 (List.mem_singleton_self 3)
  rw [Before, h1, h3] at hbefore
  omega

end RTThread.Ipc
