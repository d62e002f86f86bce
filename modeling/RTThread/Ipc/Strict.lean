import RTThread.Ipc.Inheritance

set_option autoImplicit false

/-! # Strict priority

Each function decides by itself whether it calls `rt_schedule` at the end. Here a step includes the
`rt_schedule` that the function calls. If no READY thread is more urgent than the running one, a step
keeps it so, with one exception: a release of a mutex that nobody waits for puts the saved priority
of the owner back, and does not schedule.
-/

namespace RTThread.Ipc

open Kernel Trans

/-! ## Steps with their `rt_schedule` -/

namespace Sys

/-- **Strict priority**: no READY thread is more urgent than the running one. -/
def Strict (s : Sys) : Prop :=
  ∀ t u, s.ipc.kernel.current = some t → (s.ipc.kernel.thread u).stat = .ready →
    s.prio t ≤ s.prio u

/-- The owner of a mutex that nobody waits for releases it for the last time, while a READY thread is
more urgent than the priority that is put back. -/
def Lowers (s : Sys) (a : Action) : Prop :=
  ∃ i t, s.GivesUp i t a ∧ s.waiters i = [] ∧
    ∃ u, (s.ipc.kernel.thread u).stat = .ready ∧ s.prio u < s.savedPrio i

variable [RtConfig]

/-- The end of a function that schedules or does not. -/
def schedIf (s : Sys) (b : Bool) : Option Sys :=
  if b then s.ipc.kernel.rtSchedule.map s.setKernel else some s

/-- A step, with the `rt_schedule` that the function calls. -/
def complete (s : Sys) : Action → Option Sys
  | .run t r =>
    if s.Runs t then
      (s.sect t r).bind fun x => schedIf { ipc := x.ipc, pc := Function.update s.pc t x.pc } x.sched
    else none
  | .isr c =>
    if c.FromIsr then do
      let t ← s.ipc.kernel.current
      let x ← s.ipc.call t c
      schedIf { s with ipc := x.ipc } x.sched
    else none
  | .timeout t =>
    -- `rt_thread_timeout` ends with `rt_schedule`
    if (s.ipc.kernel.thread t).timer = true then
      (s.ipc.kernel.threadTimeout t).bind fun k => schedIf (s.setKernel k) true
    else none
  | .ret t => s.exec (.ret t)
  | .control t priority => s.exec (.control t priority)
  | .schedule => s.exec .schedule

end Sys

section

variable [RtConfig] {s s' : Sys} {k k' k₁ : Kernel} {a : Action} {t u v : ThreadId} {i : Nat}
  {c : Call} {x : Section} {h : ListHead}

/-! ## Sections that do not schedule -/

/-- Neither the current thread nor a state or a priority is changed. -/
structure Calm (k k' : Kernel) : Prop where
  current : k'.current = k.current
  thread : ∀ v, (k'.thread v).stat = (k.thread v).stat ∧
    (k'.thread v).currentPriority = (k.thread v).currentPriority

omit [RtConfig] in
theorem Calm.refl (k : Kernel) : Calm k k := ⟨rfl, fun _ => ⟨rfl, rfl⟩⟩

omit [RtConfig] in
theorem Calm.setError (k : Kernel) (t : ThreadId) (e : Err) : Calm k (k.setError t e) := by
  refine ⟨rfl, fun v => ?_⟩
  by_cases hv : v = t
  · rw [hv, setError_self]
    exact ⟨rfl, rfl⟩
  · rw [setError_of_ne hv]
    exact ⟨rfl, rfl⟩

omit [RtConfig] in
theorem Calm.trans (h₁ : Calm k k₁) (h₂ : Calm k₁ k') : Calm k k' :=
  ⟨h₂.current.trans h₁.current,
    fun v => ⟨(h₂.thread v).1.trans (h₁.thread v).1, (h₂.thread v).2.trans (h₁.thread v).2⟩⟩

/-- The section schedules, or there is no need to. -/
def Quiet (k : Kernel) (x : Section) : Prop := x.sched = true ∨ Calm k x.ipc.kernel

omit [RtConfig] in
theorem Quiet.same {ipc : Ipc} {p : Pc} {b : Bool} (hk : ipc.kernel = k) : Quiet k ⟨ipc, p, b⟩ :=
  .inr (hk ▸ Calm.refl k)

theorem WakesFirst.quiet {ipc : Ipc} {p : Pc} {b : Bool} (w : WakesFirst k h k' b)
    (hk : ipc.kernel = k') : Quiet k ⟨ipc, p, b⟩ := by
  cases w with
  | none _ => exact .same hk
  | first _ _ => exact .inl rfl

/-- A loop that resumes no thread changes nothing. -/
theorem eventSendLoop_calm {l : List ThreadId} {set : BitVec 32} {need : Bool}
    (hn : (eventSendLoop l k set need).2.2 = false) :
    need = false ∧ (eventSendLoop l k set need).1 = k := by
  induction l generalizing k set need with
  | nil => exact ⟨hn, rfl⟩
  | cons t l ih =>
      unfold eventSendLoop at hn ⊢
      cases hm : eventMatch (k.thread t) set with
      | some eventSet =>
          rw [hm] at hn
          obtain ⟨hneed, -⟩ := ih hn
          cases hneed
      | none =>
          rw [hm] at hn
          exact ih hn

section

variable {s : Ipc} (j : SchedInv s.kernel) (hc : s.kernel.current = some t)
  (hr : (s.kernel.thread t).stat = .running)

include j hc hr

theorem rtMutexTakeAgain_quiet {time : Int} (hx : s.rtMutexTakeAgain t i time = some x) :
    Quiet s.kernel x := by
  obtain ⟨-, rfl⟩ | ⟨-, -, rfl⟩ | ⟨-, -, owner, k₁, k', -, -, -, rfl⟩ :=
    rtMutexTakeAgain_cases j hc hr hx
  · exact .same rfl
  · exact .inr (Calm.setError _ _ _)
  · exact .inl rfl

theorem Loops.quiet (hl : Loops s t x c) : Quiet s.kernel x := by
  cases hl with
  | mbSend hx =>
      obtain ⟨-, -, rfl⟩ | ⟨-, -, k', -, rfl⟩ | ⟨-, k', b, w, rfl⟩ := mbSendLoop_cases j hc hr hx
      · exact .inr (Calm.setError _ _ _)
      · exact .inl rfl
      · exact w.quiet rfl
  | mbRecv hx =>
      obtain ⟨-, -, rfl⟩ | ⟨-, -, k', -, rfl⟩ | ⟨-, k', b, w, rfl⟩ := mbRecvLoop_cases j hc hr hx
      · exact .inr ((Calm.setError _ _ _).trans (Calm.setError _ _ _))
      · exact .inl rfl
      · exact w.quiet rfl
  | mqSend hx =>
      obtain ⟨-, -, rfl⟩ | ⟨-, -, k', -, rfl⟩ | ⟨msg, -, rfl⟩ := mqSendLoop_cases j hc hr hx
      · exact .inr (Calm.setError _ _ _)
      · exact .inl rfl
      · exact .same rfl
  | mqRecv hx =>
      obtain ⟨-, -, rfl⟩ | ⟨-, -, k', -, rfl⟩ | ⟨-, msg, -, rfl⟩ := mqRecvLoop_cases j hc hr hx
      · exact .inr ((Calm.setError _ _ _).trans (Calm.setError _ _ _))
      · exact .inl rfl
      · exact .same rfl

omit hc hr in
theorem resumeFirst_quiet {ipc : Ipc} {pc : Pc} (hx : ipc.resumeFirst h pc = some x)
    (hh : h.IsWait) (hk : ipc.kernel = s.kernel) : Quiet s.kernel x := by
  rw [← hk] at j ⊢
  obtain ⟨k', b, w, rfl⟩ := resumeFirst_cases j hh hx
  exact w.quiet rfl

omit j hc hr in
theorem rtEventSend_quiet {set : BitVec 32} (hx : s.rtEventSend i set = some x) :
    Quiet s.kernel x := by
  unfold rtEventSend at hx
  split_ifs at hx with h0
  · obtain rfl := Option.some.inj hx
    exact .same rfl
  · obtain rfl := Option.some.inj hx
    cases hneed : (eventSendLoop (s.kernel.lists (.suspend (.event i))) s.kernel
        ((s.event i).set ||| set) false).2.2 with
    | true => exact .inl rfl
    | false => exact .same (eventSendLoop_calm hneed).2

omit hc hr in
theorem rtSemRelease_quiet (hx : s.rtSemRelease i = some x) : Quiet s.kernel x := by
  obtain ⟨u, l, k', -, -, rfl⟩ | ⟨-, rfl⟩ := rtSemRelease_cases j hx
  · exact .inl rfl
  · exact .same rfl

/-- The first section of a call that is no release of a mutex. -/
theorem call_quiet (hn : ∀ i, c ≠ .mutexRelease i) (hx : s.call t c = some x) :
    Quiet s.kernel x := by
  cases c with
  | semTake i time =>
      obtain ⟨-, rfl⟩ | ⟨-, -, rfl⟩ | ⟨-, -, k', -, rfl⟩ := rtSemTake_cases j hc hr hx
      · exact .same rfl
      · exact .same rfl
      · exact .inl rfl
  | semRelease i => exact rtSemRelease_quiet j hx
  | semReset i value | eventReset i | mbReset i | mqReset i =>
      obtain rfl := Option.some.inj hx
      exact .inl rfl
  | mutexTake i time =>
      obtain ⟨j', hc', hr'⟩ := running_setError (e := .ok) j hc hr
      simp only [call, rtMutexTake] at hx
      split_ifs at hx with ho
      · obtain rfl := Option.some.inj hx
        exact .inr (Calm.setError _ _ _)
      · exact (rtMutexTakeAgain_quiet (s := s.setKernel (s.kernel.setError t .ok)) j' hc' hr' hx).imp
          id (Calm.setError _ _ _).trans
  | mutexRelease i => exact absurd rfl (hn i)
  | eventSend i set => exact rtEventSend_quiet hx
  | eventRecv i set option timeout =>
      obtain ⟨-, rfl⟩ | ⟨-, -, -, rfl⟩ | ⟨-, -, rfl⟩ | ⟨-, -, -, k', -, rfl⟩ :=
        rtEventRecv_cases j hc hr hx
      · exact .same rfl
      · exact .inr (Calm.setError _ _ _)
      · exact .inr ((Calm.setError _ _ _).trans (Calm.setError _ _ _))
      · exact .inl rfl
  | mbSend | mbRecv | mqSend | mqRecv =>
      obtain ⟨e, -, rfl⟩ | hl := call_loops hx trivial
      · exact .same rfl
      · exact hl.quiet j hc hr
  | mqUrgent i buffer =>
      obtain ⟨e, -, -, rfl⟩ | ⟨-, msg, -, rfl⟩ := rtMqUrgent_cases hx
      · exact .same rfl
      · exact .same rfl

/-- The section after the `rt_schedule` of a call that had to wait. -/
theorem resumed_quiet {delta : Nat} (hx : s.resumed t delta c = some x) : Quiet s.kernel x := by
  obtain ⟨r, -, rfl⟩ | ⟨i, time, -, -, hx⟩ | hl := resumed_cases hx
  · exact .same rfl
  · exact rtMutexTakeAgain_quiet j hc hr hx
  · exact hl.quiet j hc hr

omit [RtConfig] j hc hr in
theorem copy_quiet {msg : Nat} (hx : s.copy msg c = some x) : Quiet s.kernel x := by
  cases c with
  | mqSend | mqUrgent | mqRecv =>
      obtain rfl := Option.some.inj hx
      exact .same rfl
  | _ => cases hx

omit hc hr in
theorem finish_quiet {msg : Nat} {r : Reply} (hx : s.finish msg r c = some x) :
    Quiet s.kernel x := by
  cases c with
  | mqSend i buffer timeout =>
      simp only [finish, mqSendLink] at hx
      exact resumeFirst_quiet j hx ⟨_, Or.inl rfl⟩ rfl
  | mqUrgent i buffer =>
      simp only [finish, mqUrgentLink] at hx
      exact resumeFirst_quiet j hx ⟨_, Or.inl rfl⟩ rfl
  | mqRecv i size timeout =>
      simp only [finish, mqRecvFree] at hx
      exact resumeFirst_quiet j hx ⟨_, Or.inr rfl⟩ rfl
  | _ => cases hx

omit hc hr in
/-- A call of an interrupt handler. -/
theorem isr_quiet (hi : c.FromIsr) (hx : s.call t c = some x) : Quiet s.kernel x := by
  cases c with
  | semTake i time =>
      obtain rfl : time = 0 := hi
      simp only [call, rtSemTake, if_true] at hx
      split_ifs at hx
      · obtain rfl := Option.some.inj hx
        exact .same rfl
      · obtain rfl := Option.some.inj hx
        exact .same rfl
  | semRelease i => exact rtSemRelease_quiet j hx
  | eventSend i set => exact rtEventSend_quiet hx
  | mbSend i value timeout =>
      obtain rfl : timeout = 0 := hi
      simp only [call, rtMbSendWait, and_true] at hx
      split_ifs at hx with he
      · obtain rfl := Option.some.inj hx
        exact .same rfl
      · simp only [mbSendLoop, if_neg he] at hx
        exact resumeFirst_quiet j hx ⟨_, Or.inl rfl⟩ rfl
  | mbRecv i timeout =>
      obtain rfl : timeout = 0 := hi
      simp only [call, rtMbRecv, and_true] at hx
      split_ifs at hx with he
      · obtain rfl := Option.some.inj hx
        exact .same rfl
      · simp only [mbRecvLoop, if_neg he] at hx
        exact resumeFirst_quiet j hx ⟨_, Or.inr rfl⟩ rfl
  | semReset | mutexTake | mutexRelease | eventRecv | eventReset | mbReset | mqSend | mqUrgent |
    mqRecv | mqReset => exact absurd hi (by simp [Call.FromIsr])

end

/-! ## One step -/

theorem Step.lockNest (hs : s.Step a s') (i : SysInv s) :
    s'.ipc.kernel.lockNest = s.ipc.kernel.lockNest := by
  obtain ⟨t, r, x, rfl, hr, hx, rfl⟩ | ⟨t, c, e, r, rfl, hr, hpc, rfl⟩ |
    ⟨c, t, x, rfl, hc, ht, hx, rfl⟩ | ⟨t, k', rfl, ht, hk, rfl⟩ | ⟨t, p, rfl, hp, rfl⟩ |
    ⟨k', rfl, hk, rfl⟩ := Step.cases hs
  · obtain ⟨o, -, ok⟩ := sect_ok i hr hx
    have hd := ok.does
    cases hd with
    | go hp _ => exact (hp.frame i.wait).lockNest
    | block hp _ _ _ _ b => exact b.lockNest.trans (hp.frame i.wait).lockNest
  · rfl
  · exact (((isr_ok i hc hx).prims t).frame i.wait).lockNest
  · obtain ⟨h, hh, hm, -, w⟩ := timeout_woken i ht hk
    exact w.lockNest
  · exact (Changed.of_control i.wait.sched hp).lockNest
  · exact rtSchedule_lockNest i.wait.sched hk

/-- A step with its `rt_schedule` is a step, and perhaps the step `schedule`. -/
theorem complete_steps (hs : s.complete a = some s') :
    ∃ q b, s.Step a q ∧ q.schedIf b = some s' := by
  cases a with
  | run t r =>
      simp only [Sys.complete] at hs
      split_ifs at hs with hr
      obtain ⟨x, hx, hs⟩ := Option.bind_eq_some_iff.mp hs
      refine ⟨_, x.sched, ?_, hs⟩
      rw [Sys.Step, Sys.exec, if_pos hr, hx, Option.map_some]
  | isr c =>
      simp only [Sys.complete] at hs
      split_ifs at hs with hc
      obtain ⟨t, ht, hs⟩ := Option.bind_eq_some_iff.mp hs
      obtain ⟨x, hx, hs⟩ := Option.bind_eq_some_iff.mp hs
      refine ⟨_, x.sched, ?_, hs⟩
      rw [Sys.Step, Sys.exec, if_pos hc, ht]
      simp [hx]
  | timeout t =>
      simp only [Sys.complete] at hs
      split_ifs at hs with ht
      obtain ⟨k, hk, hs⟩ := Option.bind_eq_some_iff.mp hs
      refine ⟨_, true, ?_, hs⟩
      rw [Sys.Step, Sys.exec, if_pos ht, hk, Option.map_some]
  | ret t | control t p | schedule => exact ⟨s', false, hs, rfl⟩

theorem schedIf_inv {b : Bool} (hs : s.schedIf b = some s') (i : SysInv s) :
    SysInv s' ∧ s'.ipc.kernel.lockNest = s.ipc.kernel.lockNest := by
  cases b with
  | false =>
      cases hs
      exact ⟨i, rfl⟩
  | true =>
      have hstep : s.Step .schedule s' := hs
      exact ⟨Step.sysInv hstep i, Step.lockNest hstep i⟩

theorem complete_inv (hs : s.complete a = some s') (i : SysInv s) :
    SysInv s' ∧ s'.ipc.kernel.lockNest = s.ipc.kernel.lockNest := by
  obtain ⟨q, b, hstep, hend⟩ := complete_steps hs
  obtain ⟨i', hl⟩ := schedIf_inv hend (Step.sysInv hstep i)
  exact ⟨i', hl.trans (Step.lockNest hstep i)⟩

theorem schedule_strict (i : SysInv s) (hl : s.ipc.kernel.lockNest = 0)
    (hs : s.schedIf true = some s') : s'.Strict := by
  obtain ⟨k', hk, rfl⟩ := Option.map_eq_some_iff.mp hs
  intro t u ht hu
  exact rtSchedule_strict i.wait.sched hl hk ht hu

omit [RtConfig] in
theorem Calm.strict (h : Calm s.ipc.kernel s'.ipc.kernel) (hst : s.Strict) : s'.Strict := by
  intro t u ht hu
  rw [h.current] at ht
  rw [(h.thread u).1] at hu
  rw [Sys.prio, Sys.prio, (h.thread t).2, (h.thread u).2]
  exact hst t u ht hu

/-- A section that schedules when there is a need keeps strict priority. -/
theorem Quiet.strict {ipc : Ipc} {pc : ThreadId → Pc} {b : Bool}
    (q : b = true ∨ Calm s.ipc.kernel ipc.kernel) (hst : s.Strict) (i : SysInv ⟨ipc, pc⟩)
    (hl : ipc.kernel.lockNest = 0) (hs : Sys.schedIf ⟨ipc, pc⟩ b = some s') : s'.Strict := by
  cases b with
  | true => exact schedule_strict i hl hs
  | false =>
      cases hs
      exact (q.resolve_left Bool.false_ne_true).strict hst

omit [RtConfig] in
theorem not_lowers (hg : ∀ i t, a ≠ .run t (.call (.mutexRelease i))) : ¬ s.Lowers a := by
  rintro ⟨i, t, ⟨rfl, -⟩, -⟩
  exact hg i t rfl

/-- **A release of a mutex**: it keeps strict priority if and only if it does not lower the owner
below a READY thread. -/
theorem release_strict_iff (i : SysInv s) (hl : s.ipc.kernel.lockNest = 0) (hst : s.Strict)
    (hs : s.complete (.run t (.call (.mutexRelease u))) = some s') :
    s'.Strict ↔ ¬ s.Lowers (.run t (.call (.mutexRelease u))) := by
  obtain ⟨hinv, -⟩ := complete_inv hs i
  have hwl : (ListHead.suspend (.mutex u)).IsWait := ⟨_, Or.inl rfl⟩
  simp only [Sys.complete] at hs
  split_ifs at hs with hr
  obtain ⟨x, hx, hs⟩ := Option.bind_eq_some_iff.mp hs
  have hstep : s.Step (.run t (.call (.mutexRelease u)))
      { ipc := x.ipc, pc := Function.update s.pc t x.pc } := by
    rw [Sys.Step, Sys.exec, if_pos hr, hx, Option.map_some]
  have i₁ := Step.sysInv hstep i
  have hl₁ := (Step.lockNest hstep i).trans hl
  have hcall : s.ipc.rtMutexRelease t u = some x := by
    obtain ⟨c, hc, -, hx⟩ | ⟨delta, c, hc, -⟩ | ⟨c, msg, m, hc, -⟩ | ⟨c, msg, r', m, hc, -⟩ :=
      sect_cases hx
    · cases hc
      exact hx
    all_goals cases hc
  obtain ⟨ho, rfl⟩ | ⟨ho, hh, rfl⟩ | ⟨ho, hh, k₁, m, hcase⟩ :=
    rtMutexRelease_cases i.wait.sched (i.prio u) hcall
  · refine iff_of_true (Quiet.strict (.inr (Calm.setError _ _ _)) hst i₁ hl₁ hs) ?_
    rintro ⟨j, v, ⟨he, ho', -⟩, -⟩
    cases he
    exact ho ho'
  · refine iff_of_true (Quiet.strict ?_ hst i₁ hl₁ hs) ?_
    · exact .inr (Calm.refl s.ipc.kernel)
    · rintro ⟨j, v, ⟨he, -, hh'⟩, -⟩
      cases he
      exact hh hh'
  obtain ⟨v, l, k', hlist, w, rfl⟩ | ⟨hlist, rfl⟩ := hcase
  · refine iff_of_true (schedule_strict i₁ hl₁ hs) ?_
    rintro ⟨j, v', ⟨he, -⟩, hw, -⟩
    cases he
    rw [Sys.waiters, ← m.wait hwl, hlist] at hw
    cases hw
  · -- nobody waits, and the owner goes on with its saved priority
    cases hs
    have hprio : ∀ w, (k₁.thread w).currentPriority =
        Function.update s.prio t (s.savedPrio u) w := congrFun (restored_prio m)
    have hcur : k₁.current = some t := m.current.1.trans hr.1
    have hready : ∀ w, (k₁.thread w).stat = .ready ↔ (s.ipc.kernel.thread w).stat = .ready := by
      intro w
      rw [m.fields.1]
    have hne : ∀ w, (s.ipc.kernel.thread w).stat = .ready → w ≠ t := by
      rintro w hw rfl
      rw [hr.2] at hw
      cases hw
    constructor
    · rintro h ⟨j, v, ⟨he, -⟩, -, w, hw, hlt⟩
      cases he
      have hle : (k₁.thread t).currentPriority ≤ (k₁.thread w).currentPriority :=
        h t w hcur ((hready w).mpr hw)
      rw [hprio, hprio, Function.update_self, Function.update_of_ne (hne w hw)] at hle
      exact absurd hlt (Nat.not_lt.mpr hle)
    · intro h v w hv hw
      have hw' := (hready w).mp hw
      obtain rfl : t = v := Option.some.inj (hcur.symm.trans hv)
      show (k₁.thread t).currentPriority ≤ (k₁.thread w).currentPriority
      rw [hprio, hprio, Function.update_self, Function.update_of_ne (hne w hw')]
      by_contra hlt
      exact h ⟨u, t, ⟨rfl, ho, hh⟩, (m.wait hwl).symm.trans hlist, w, hw', Nat.lt_of_not_le hlt⟩

/-- **One step** keeps strict priority if and only if it is no such release. -/
theorem strict_iff (i : SysInv s) (hl : s.ipc.kernel.lockNest = 0) (hst : s.Strict)
    (hn : a.NoControl) (hs : s.complete a = some s') : s'.Strict ↔ ¬ s.Lowers a := by
  by_cases hrel : ∃ i t, a = .run t (.call (.mutexRelease i))
  · obtain ⟨u, t, rfl⟩ := hrel
    exact release_strict_iff i hl hst hs
  have hother : ∀ i t, a ≠ .run t (.call (.mutexRelease i)) := fun i t h => hrel ⟨i, t, h⟩
  refine iff_of_true ?_ (not_lowers hother)
  have hcomplete := hs
  obtain ⟨q, b, hstep, -⟩ := complete_steps hs
  have i₁ := Step.sysInv hstep i
  have hl₁ := (Step.lockNest hstep i).trans hl
  cases a with
  | run t r =>
      simp only [Sys.complete] at hs
      split_ifs at hs with hr
      obtain ⟨x, hx, hs⟩ := Option.bind_eq_some_iff.mp hs
      obtain rfl : ({ ipc := x.ipc, pc := Function.update s.pc t x.pc } : Sys) = q := by
        rw [Sys.Step, Sys.exec, if_pos hr, hx, Option.map_some] at hstep
        exact Option.some.inj hstep
      refine Quiet.strict ?_ hst i₁ hl₁ hs
      obtain ⟨c, rfl, -, hx⟩ | ⟨delta, c, rfl, -, hx⟩ | ⟨c, msg, m, rfl, -, -, hx⟩ |
        ⟨c, msg, r', m, rfl, -, -, hx⟩ := sect_cases hx
      · exact call_quiet i.wait.sched hr.1 hr.2 (fun j hc => hother j t (hc ▸ rfl)) hx
      · exact resumed_quiet i.wait.sched hr.1 hr.2 hx
      · exact copy_quiet hx
      · exact finish_quiet i.wait.sched hx
  | isr c =>
      simp only [Sys.complete] at hs
      split_ifs at hs with hc
      obtain ⟨t, ht, hs⟩ := Option.bind_eq_some_iff.mp hs
      obtain ⟨x, hx, hs⟩ := Option.bind_eq_some_iff.mp hs
      obtain rfl : ({ s with ipc := x.ipc } : Sys) = q := by
        rw [Sys.Step, Sys.exec, if_pos hc, ht] at hstep
        simpa [hx] using hstep
      exact Quiet.strict (isr_quiet i.wait.sched hc hx) hst i₁ hl₁ hs
  | timeout t =>
      simp only [Sys.complete] at hs
      split_ifs at hs with ht
      obtain ⟨k, hk, hs⟩ := Option.bind_eq_some_iff.mp hs
      obtain rfl : s.setKernel k = q := by
        rw [Sys.Step, Sys.exec, if_pos ht, hk, Option.map_some] at hstep
        exact Option.some.inj hstep
      exact schedule_strict i₁ hl₁ hs
  | ret t =>
      have hret : s.Step (.ret t) s' := hcomplete
      obtain ⟨_, _, _, ha, -⟩ | ⟨t', c, e, r, -, -, -, rfl⟩ | ⟨_, _, _, ha, -⟩ | ⟨_, _, ha, -⟩ |
        ⟨_, _, ha, -⟩ | ⟨_, ha, -⟩ := Step.cases hret
      case inr.inl => exact hst
      all_goals cases ha
  | control t p => exact absurd hn id
  | schedule => exact schedule_strict i hl hs

/-- **Strict priority is restored**: from every reachable state with strict priority and an unlocked
scheduler, the threads, interrupt handlers and timers keep it with every step, as long as no release
lowers the owner of a mutex below a READY thread without scheduling; and such a release breaks it. -/
theorem strict_restored (hr : Reachable Sys.Init Sys.Step s) (hl : s.ipc.kernel.lockNest = 0)
    (hst : s.Strict)
    (hq : Reachable (· = s) (fun q a q' => q.complete a = some q' ∧ a.NoControl ∧ ¬ q.Lowers a) s') :
    s'.Strict ∧ ∀ a q, s'.complete a = some q → a.NoControl → (q.Strict ↔ ¬ s'.Lowers a) := by
  have hinv : (SysInv s' ∧ s'.ipc.kernel.lockNest = 0) ∧ s'.Strict := by
    refine hq.invariant (I := fun q => (SysInv q ∧ q.ipc.kernel.lockNest = 0) ∧ q.Strict) ?_
      fun q a q' _ ih hs => ?_
    · rintro q rfl
      exact ⟨⟨sysInv_of_reachable hr, hl⟩, hst⟩
    · obtain ⟨⟨i, hl⟩, hst⟩ := ih
      obtain ⟨i', hl'⟩ := complete_inv hs.1 i
      exact ⟨⟨i', hl'.trans hl⟩, (strict_iff i hl hst hs.2.1 hs.1).mpr hs.2.2⟩
  exact ⟨hinv.2, fun a q hs hn => strict_iff hinv.1.1 hinv.1.2 hinv.2 hn hs⟩

end

/-! ## A release that does not schedule -/

attribute [local instance] config32

/-- Thread 1 has the mutex when thread 2, which is more urgent, begins to wait for it. -/
def waitedFor : List Action :=
  [.run 2 (.call (.semTake 0 10)), .schedule,
    .run 1 (.call (.mutexTake 0 (-1))), .ret 1,
    .timeout 2, .schedule, .run 2 (.resumed 10), .ret 2,
    .run 2 (.call (.mutexTake 0 10))]

/-- `rt_schedule` after a run from the start. -/
theorem strict_of_run {as : List Action} {s q q' : Sys} (hs : contend .fifo = some s)
    (hq : runList Sys.exec s as = some q) (hl : q.ipc.kernel.lockNest = 0)
    (hsched : q.exec .schedule = some q') : Reachable Sys.Init Sys.Step q' ∧ q'.Strict := by
  have hr := reachable_of_runList (.init (contend_init hs)) hq
  exact ⟨hr.step hsched, schedule_strict (sysInv_of_reachable hr) hl hsched⟩

/-- Thread 1 releases the mutex and thread 2, which waits for it, runs. -/
theorem strict_restored_handOver : ∃ s' : Sys, s'.ipc.kernel.current = some 2 ∧ s'.Strict := by
  have hrun : ((contend .fifo).bind fun s => (runList Sys.exec s waitedFor).bind fun q =>
      (q.exec .schedule).bind fun q' => (q'.complete (.run 1 (.call (.mutexRelease 0)))).map fun s' =>
        (q.ipc.kernel.lockNest, q'.ipc.kernel.lockNest, q'.waiters 0, s'.ipc.kernel.current)) =
      some (0, 0, [2], some 2) := by decide +kernel
  obtain ⟨s, hs, hrun⟩ := Option.bind_eq_some_iff.mp hrun
  obtain ⟨q, hq, hrun⟩ := Option.bind_eq_some_iff.mp hrun
  obtain ⟨q', hq', hrun⟩ := Option.bind_eq_some_iff.mp hrun
  obtain ⟨s', hs', hend⟩ := Option.map_eq_some_iff.mp hrun
  simp only [Prod.mk.injEq] at hend
  obtain ⟨hl, hl', hw, hcur⟩ := hend
  obtain ⟨hr, hst⟩ := strict_of_run hs hq hl hq'
  have hn : ¬ q'.Lowers (.run 1 (.call (.mutexRelease 0))) := by
    rintro ⟨i, t, ⟨he, -⟩, hnone, -⟩
    cases he
    rw [hw] at hnone
    cases hnone
  have h₀ : Reachable (· = q') (fun q a q' => q.complete a = some q' ∧ a.NoControl ∧ ¬ q.Lowers a)
      q' := .init rfl
  have hcall : (Action.run 1 (.call (.mutexRelease 0))).NoControl := trivial
  have hstep := h₀.step ⟨hs', hcall, hn⟩
  exact ⟨s', hcur, (strict_restored hr hl' hst hstep).1⟩

/-- The time of thread 2 is over, and then thread 1 releases the mutex: it goes on with priority 10,
while thread 2 is READY with priority 5. -/
theorem release_not_strict : ∃ s s' : Sys, Reachable Sys.Init Sys.Step s ∧
    s.ipc.kernel.lockNest = 0 ∧ s.Strict ∧
    s.complete (.run 1 (.call (.mutexRelease 0))) = some s' ∧ s'.ipc.kernel.current = some 1 ∧
    (s'.ipc.kernel.thread 2).stat = .ready ∧ s'.prio 1 = 10 ∧ s'.prio 2 = 5 ∧ ¬ s'.Strict := by
  have hrun : ((contend .fifo).bind fun s =>
      (runList Sys.exec s (waitedFor ++ [.schedule, .timeout 2])).bind fun q =>
      (q.exec .schedule).bind fun q' => (q'.complete (.run 1 (.call (.mutexRelease 0)))).map fun s' =>
        (q.ipc.kernel.lockNest, q'.ipc.kernel.lockNest, s'.ipc.kernel.current,
          (s'.ipc.kernel.thread 2).stat, s'.prio 1, s'.prio 2)) =
      some (0, 0, some 1, .ready, 10, 5) := by decide +kernel
  obtain ⟨s, hs, hrun⟩ := Option.bind_eq_some_iff.mp hrun
  obtain ⟨q, hq, hrun⟩ := Option.bind_eq_some_iff.mp hrun
  obtain ⟨q', hq', hrun⟩ := Option.bind_eq_some_iff.mp hrun
  obtain ⟨s', hs', hend⟩ := Option.map_eq_some_iff.mp hrun
  simp only [Prod.mk.injEq] at hend
  obtain ⟨hl, hl', hcur, hready, h1, h2⟩ := hend
  obtain ⟨hr, hst⟩ := strict_of_run hs hq hl hq'
  refine ⟨q', s', hr, hl', hst, hs', hcur, hready, h1, h2, fun h => ?_⟩
  have hle := h 1 2 hcur hready
  omega

end RTThread.Ipc
