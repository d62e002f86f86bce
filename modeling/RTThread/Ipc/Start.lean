import RTThread.Kernel.Agreement
import RTThread.Ipc.System

set_option autoImplicit false

/-! # Starting a system

From `rt_system_scheduler_init` to the first thread: the threads `1, …, n` are started in this
order, then the scheduler. Nothing waits for anything yet.
-/

namespace RTThread.Ipc

open Kernel Trans

section

variable [RtConfig] {k k' : Kernel} {t : ThreadId}

/-- Nothing waits, no timer runs, and every error field is RT_EOK. -/
structure Fresh (k : Kernel) : Prop where
  wait : ∀ h : ListHead, h.IsWait → k.lists h = []
  timer : ∀ t, (k.thread t).timer = false
  error : ∀ t, (k.thread t).error = .ok

omit [RtConfig] in
theorem Fresh.modify (h : Fresh k) {f : Thread → Thread}
    (hf : ∀ th, (f th).timer = th.timer ∧ (f th).error = th.error) : Fresh (k.modify t f) := by
  refine ⟨h.wait, fun u => ?_, fun u => ?_⟩
  all_goals
    by_cases hu : u = t
    · rw [hu, modify_self]
      first | rw [(hf _).1, h.timer] | rw [(hf _).2, h.error]
    · rw [modify_of_ne _ hu]
      first | exact h.timer u | exact h.error u

theorem Fresh.insert (h : Fresh k) : Fresh (k.rtScheduleInsertThread t) := by
  refine ⟨fun l hl => ?_, fun u => ?_, fun u => ?_⟩
  · rw [rtScheduleInsertThread_wait hl, h.wait l hl]
  all_goals
    by_cases hu : u = t
    · rw [hu, rtScheduleInsertThread_self]
      first | exact h.timer t | exact h.error t
    · rw [rtScheduleInsertThread_of_ne hu]
      first | exact h.timer u | exact h.error u

omit [RtConfig] in
theorem Fresh.listRemove (h : Fresh k) : Fresh (k.rtListRemove t) := by
  refine ⟨fun l hl => ?_, h.timer, h.error⟩
  rw [rtListRemove_lists, h.wait l hl, List.erase_nil]

/-- Before the first thread runs, a start does not schedule. -/
theorem rtThreadStartup_eq (hc : k.current = none) (hk : k.rtThreadStartup t = some k') :
    k' = ((((((k.modify t fun th => setPriority th th.initPriority).resetStat t .suspend).rtListRemove
      t).setTimer t false).rtScheduleInsertThread t)) ∧ k'.current = none := by
  have hresume : rtThreadResume ((k.modify t fun th => setPriority th th.initPriority).resetStat t
      .suspend) t = (.ok, ((((k.modify t fun th => setPriority th th.initPriority).resetStat t
        .suspend).rtListRemove t).setTimer t false).rtScheduleInsertThread t) := by
    unfold rtThreadResume
    rw [if_neg (by rw [resetStat, modify_self]; simp)]
  unfold rtThreadStartup at hk
  dsimp only at hk
  rw [hresume] at hk
  split_ifs at hk with hs hc'
  · obtain rfl := Option.some.inj hk
    exact ⟨rfl, hc'⟩
  · exact absurd (by simp [resetStat, setTimer, hc, rtListRemove]) hc'

theorem Fresh.startup (h : Fresh k) (hc : k.current = none) (hk : k.rtThreadStartup t = some k') :
    Fresh k' ∧ k'.current = none := by
  obtain ⟨rfl, hc'⟩ := rtThreadStartup_eq hc hk
  refine ⟨?_, hc'⟩
  have h1 : Fresh ((k.modify t fun th => setPriority th th.initPriority).resetStat t .suspend) :=
    (h.modify fun th => ⟨by simp, by simp⟩).modify fun th => ⟨rfl, rfl⟩
  have h2 : Fresh ((((k.modify t fun th => setPriority th th.initPriority).resetStat t
      .suspend).rtListRemove t).setTimer t false) := by
    refine ⟨h1.listRemove.wait, fun u => ?_, fun u => ?_⟩
    · by_cases hu : u = t
      · rw [hu, setTimer, modify_self]
      · rw [setTimer, modify_of_ne _ hu]
        exact h1.timer u
    · by_cases hu : u = t
      · rw [hu, setTimer, modify_self]
        exact h1.error t
      · rw [setTimer, modify_of_ne _ hu]
        exact h1.error u
  exact h2.insert

theorem Fresh.schedulerStart (h : Fresh k) (hk : k.rtSystemSchedulerStart = some k') :
    Fresh k' := by
  obtain ⟨⟨u, p⟩, -, hk⟩ := Option.bind_eq_some_iff.mp hk
  obtain rfl := Option.some.inj hk
  refine Fresh.modify ⟨fun l hl => ?_, fun v => ?_, fun v => ?_⟩ fun th => ⟨rfl, rfl⟩
  · rw [rtScheduleRemoveThread_lists]
    show (k.lists l).erase u = []
    rw [h.wait l hl, List.erase_nil]
  · rw [rtScheduleRemoveThread_thread]
    exact h.timer v
  · rw [rtScheduleRemoveThread_thread]
    exact h.error v

/-- Start the threads of a list, then the scheduler. -/
def startAll (k : Kernel) : List ThreadId → Option Kernel
  | [] => k.rtSystemSchedulerStart
  | t :: l => (k.rtThreadStartup t).bind fun k' => startAll k' l

theorem startAll_inv {l : List ThreadId} (i : SchedInv k) (h : Fresh k) (hc : k.current = none)
    (hk : startAll k l = some k') : SchedInv k' ∧ Fresh k' := by
  induction l generalizing k with
  | nil => exact ⟨i.schedulerStart hc hk, h.schedulerStart hk⟩
  | cons t l ih =>
      obtain ⟨k₁, h1, h2⟩ := Option.bind_eq_some_iff.mp hk
      obtain ⟨f, hc'⟩ := h.startup hc h1
      exact ih (i.startup h1) f hc' h2

/-- Every thread has its initial priority. -/
def Unraised (k : Kernel) : Prop := ∀ t, (k.thread t).currentPriority = (k.thread t).initPriority

omit [RtConfig] in
theorem Unraised.modify (h : Unraised k) {f : Thread → Thread}
    (hf : ∀ th, th.currentPriority = th.initPriority → (f th).currentPriority = (f th).initPriority) :
    Unraised (k.modify t f) := by
  intro u
  by_cases hu : u = t
  · rw [hu, modify_self]
    exact hf _ (h t)
  · rw [modify_of_ne _ hu]
    exact h u

theorem Unraised.insert (h : Unraised k) : Unraised (k.rtScheduleInsertThread t) := by
  intro u
  by_cases hu : u = t
  · rw [hu, rtScheduleInsertThread_self]
    exact h t
  · rw [rtScheduleInsertThread_of_ne hu]
    exact h u

theorem Unraised.startup (h : Unraised k) (hc : k.current = none)
    (hk : k.rtThreadStartup t = some k') : Unraised k' := by
  obtain ⟨rfl, -⟩ := rtThreadStartup_eq hc hk
  have h1 : Unraised (k.modify t fun th => setPriority th th.initPriority) :=
    h.modify fun th _ => by rw [setPriority_currentPriority, setPriority_initPriority]
  have h2 : Unraised ((k.modify t fun th => setPriority th th.initPriority).resetStat t .suspend) :=
    h1.modify (f := fun th => { th with stat := .suspend, yield := false }) fun _ hth => hth
  have h3 : Unraised ((((k.modify t fun th => setPriority th th.initPriority).resetStat t
      .suspend).rtListRemove t).setTimer t false) :=
    Unraised.modify (f := fun th => { th with timer := false }) h2 fun _ hth => hth
  exact h3.insert

theorem Unraised.schedulerStart (h : Unraised k) (hk : k.rtSystemSchedulerStart = some k') :
    Unraised k' := by
  obtain ⟨⟨u, p⟩, -, hk⟩ := Option.bind_eq_some_iff.mp hk
  obtain rfl := Option.some.inj hk
  refine Unraised.modify (fun v => ?_) fun _ hth => hth
  rw [rtScheduleRemoveThread_thread]
  exact h v

theorem startAll_unraised {l : List ThreadId} (h : Unraised k) (hc : k.current = none)
    (hk : startAll k l = some k') : Unraised k' := by
  induction l generalizing k with
  | nil => exact h.schedulerStart hk
  | cons t l ih =>
      obtain ⟨k₁, h1, h2⟩ := Option.bind_eq_some_iff.mp hk
      exact ih (h.startup hc h1) (rtThreadStartup_eq hc h1).2 h2

end

/-! ## A system with all objects -/

attribute [local instance] config32

/-- Objects as their `init` functions leave them, with some values of the semaphores and flags of
the mutexes. -/
def startIpc (k : Kernel) (sem : Nat → Sem) (flag : Nat → Flag) : Ipc where
  kernel := k
  sem := sem
  mutex := fun i => ⟨1, none, 0xff, 0, flag i⟩
  event := fun _ => ⟨0, .fifo⟩
  mb := fun _ => ⟨fun _ => 0, 1, 0, 0, 0, .fifo⟩
  mq := fun _ => rtMqInit ⟨0, 0, 0, 0, none, none, none, fun _ => none, fun _ => 0, .fifo⟩ 0 4 8
    .fifo

/-- The system after the start of some threads. -/
def startSys (priority : ThreadId → Nat) (l : List ThreadId) (sem : Nat → Sem)
    (flag : Nat → Flag) : Option Sys :=
  (startAll (bootKernel priority) l).map fun k => ⟨startIpc k sem flag, fun _ => .idle⟩

theorem startSys_init {priority : ThreadId → Nat} {l : List ThreadId} {sem : Nat → Sem}
    {flag : Nat → Flag} {s : Sys} (hp : ∀ t, priority t < 32) (hs : ∀ i, (sem i).value < 2 ^ 16)
    (h : startSys priority l sem flag = some s) : s.Init := by
  obtain ⟨k, hk, rfl⟩ := Option.map_eq_some_iff.mp h
  obtain ⟨i, f⟩ := startAll_inv (bootKernel_init hp).schedInv
    ⟨fun _ _ => rfl, fun _ => rfl, fun _ => rfl⟩ rfl hk
  exact ⟨i, f.wait, f.timer, f.error, fun _ => rfl, hs, fun i => ⟨flag i, rfl⟩,
    fun _ => ⟨fun _ => 0, 1, .fifo, by decide, rfl⟩, fun _ => ⟨_, 0, 4, 8, .fifo, Or.inl rfl⟩⟩

/-- No thread is raised at the start. -/
theorem startSys_unraised {priority : ThreadId → Nat} {l : List ThreadId} {sem : Nat → Sem}
    {flag : Nat → Flag} {s : Sys} (h : startSys priority l sem flag = some s) :
    Unraised s.ipc.kernel := by
  obtain ⟨k, hk, rfl⟩ := Option.map_eq_some_iff.mp h
  exact startAll_unraised (fun _ => rfl) rfl hk

end RTThread.Ipc
