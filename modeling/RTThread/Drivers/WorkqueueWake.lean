import RTThread.Drivers.Workqueue

set_option autoImplicit false

/-! # Work queues with suspended work threads

A submission resumes the work thread unless the thread executes a work. `rt_thread_resume` does nothing when
the thread is not suspended yet; the work thread suspends itself on a test of its list that it made before,
with interrupts enabled. A resumption between the two is lost.
-/

namespace RTThread.Workqueue

open Trans

/-- The work thread is past a test that found its list empty. -/
def Worker.Idle (pc : Worker) : Prop := pc = .tested ∨ pc = .suspended

instance Worker.Idle.decidable (pc : Worker) : Decidable pc.Idle :=
  inferInstanceAs (Decidable (pc = .tested ∨ pc = .suspended))

namespace WqSys

/-- **No work is forgotten**: while a suspended work thread has work, a caller is about to resume it. -/
def Remembered (s : WqSys) : Prop :=
  ∀ q, s.worker q = .suspended → s.list q ≠ [] → 0 < s.wakes q

/-- A work thread that has found its list empty, and has not suspended itself yet, is not resumed for a work
that came in the meantime, unless another caller is going to resume it too. -/
def Punctual (s : WqSys) : WqAction → Prop
  | .resume q => s.worker q = .tested → s.list q = [] ∨ 1 < s.wakes q
  | _ => True

instance Punctual.decidable (s : WqSys) (a : WqAction) : Decidable (Punctual s a) := by
  cases a <;> unfold Punctual <;> infer_instance

/-! ## The invariant -/

structure WakeInv (s : WqSys) : Prop where
  wakes : ∀ q, (s.worker q).Idle → s.list q ≠ [] → 0 < s.wakes q
  -- a submission sees no current work unless one is executed
  current : ∀ q, s.worker q ≠ .run → (s.wq.queue q).workCurrent = none

namespace WakeInv

variable {s s' : WqSys} {q : QId} {w : WId}

theorem init (h : s.Init) : WakeInv s := by
  obtain ⟨hqueue, hworker, -⟩ := h
  constructor
  case wakes =>
    intro q hq
    rw [hworker] at hq
    rcases hq with h | h <;> cases h
  case current =>
    intro q _
    rw [hqueue]

theorem remembered (i : WakeInv s) : Remembered s := fun q hq => i.wakes q (Or.inr hq)

theorem list_of_erase (h : (s.list q).erase w ≠ []) : s.list q ≠ [] := by
  intro hnil
  rw [hnil] at h
  exact h rfl

/-- Lists get shorter, and nothing else changes for the work threads. -/
theorem shrink (i : WakeInv s) (hworker : s'.worker = s.worker) (hwakes : s'.wakes = s.wakes)
    (hlist : ∀ q, s'.list q ≠ [] → s.list q ≠ [])
    (hcurrent : ∀ q, (s'.wq.queue q).workCurrent = (s.wq.queue q).workCurrent) : WakeInv s' := by
  constructor
  case wakes =>
    intro q hq hl
    rw [hworker] at hq
    rw [hwakes]
    exact i.wakes q hq (hlist q hl)
  case current =>
    intro q hq
    rw [hworker] at hq
    rw [hcurrent]
    exact i.current q hq

/-- **A work is submitted**: the caller goes on to resume the work thread if it is idle. -/
theorem submitted {r : Res × Bool × Wq} (i : WakeInv s)
    (h : r.1 = .ok → r.2.1 = decide ((s.wq.queue q).workCurrent = none) ∧ Relinked q w s.wq r.2.2) :
    WakeInv (s.submitted q w r) := by
  unfold WqSys.submitted
  by_cases hr : r.1 = .ok
  swap
  · rw [if_neg hr]
    exact i
  rw [if_pos hr]
  obtain ⟨hwake, hlink⟩ := h hr
  constructor
  case wakes =>
    intro q' hidle hl
    by_cases hq : q' = q
    · subst hq
      have hcur : (s.wq.queue q').workCurrent = none := by
        apply i.current q'
        intro hrun
        rcases hidle with h | h <;> cases hrun.symm.trans h
      have htrue : r.2.1 = true := by rw [hwake, hcur, decide_eq_true rfl]
      simp only [if_pos htrue, Function.update_self]
      exact Nat.succ_pos _
    · have hold : 0 < s.wakes q' := by
        apply i.wakes q' hidle
        change (r.2.2.queue q').workList ≠ [] at hl
        rw [hlink.list, if_neg hq] at hl
        exact list_of_erase hl
      by_cases htrue : r.2.1 = true
      · simp only [if_pos htrue, Function.update_of_ne hq]
        exact hold
      · simp only [if_neg htrue]
        exact hold
  case current =>
    intro q' hq'
    exact (hlink.current q').trans (i.current q' hq')

/-- A work thread moves on, and is not idle then. -/
theorem setWorker {pc : Worker} (i : WakeInv s) (hidle : pc.Idle → s.list q ≠ [] → 0 < s.wakes q)
    (hrun : s.worker q ≠ .run) : WakeInv (s.setWorker q pc) := by
  constructor
  case wakes =>
    intro q' hq' hl
    rw [worker_setWorker] at hq'
    by_cases h : q' = q
    · rw [if_pos h] at hq'
      subst h
      exact hidle hq' hl
    · rw [if_neg h] at hq'
      exact i.wakes q' hq' hl
  case current =>
    intro q' hq'
    rw [worker_setWorker] at hq'
    by_cases h : q' = q
    · subst h
      exact i.current q' hrun
    · rw [if_neg h] at hq'
      exact i.current q' hq'

/-- A work thread begins or ends the execution of a work. -/
theorem work {pc : Worker} {wq : Wq} {ticket : WId → Option Nat} {executed : List Nat} (i : WakeInv s)
    (hq : pc ≠ .run → (wq.queue q).workCurrent = none)
    (hcurrent : ∀ q', q' ≠ q → (wq.queue q').workCurrent = (s.wq.queue q').workCurrent)
    (hlist : ∀ q', (wq.queue q').workList ≠ [] → s.list q' ≠ []) (hidle : ¬ pc.Idle) :
    WakeInv { s.setWorker q pc with wq, ticket, executed } := by
  constructor
  case wakes =>
    intro q' hq' hl
    replace hq' := worker_setWorker ▸ hq'
    by_cases h : q' = q
    · rw [if_pos h] at hq'
      exact absurd hq' hidle
    · rw [if_neg h] at hq'
      exact i.wakes q' hq' (hlist q' hl)
  case current =>
    intro q' hq'
    replace hq' := worker_setWorker ▸ hq'
    by_cases h : q' = q
    · rw [if_pos h] at hq'
      exact h ▸ hq hq'
    · rw [if_neg h] at hq'
      exact (hcurrent q' h).trans (i.current q' hq')

/-- **A resumption**: it is not lost on a work thread that has tested its list. -/
theorem resume (i : WakeInv s) (hc : s.Punctual (.resume q)) (h : s.exec (.resume q) = some s') :
    WakeInv s' := by
  rw [exec] at h
  by_cases hw : s.wakes q = 0
  · rw [if_pos hw] at h
    cases h
  rw [if_neg hw] at h
  by_cases hs : s.worker q = .suspended
  · simp only [if_pos hs, Option.some.injEq] at h
    subst h
    constructor
    case wakes =>
      intro q' hq' hl
      replace hq' := worker_setWorker ▸ hq'
      by_cases h : q' = q
      · rw [if_pos h] at hq'
        rcases hq' with h | h <;> cases h
      · rw [if_neg h] at hq'
        exact (i.wakes q' hq' hl).trans_eq (Function.update_of_ne h _ _).symm
    case current =>
      intro q' hq'
      replace hq' := worker_setWorker ▸ hq'
      apply i.current q'
      by_cases h : q' = q
      · rw [h, hs]
        decide
      · rw [if_neg h] at hq'
        exact hq'
  · simp only [if_neg hs, Option.some.injEq] at h
    subst h
    refine { i with wakes := fun q' hq' hl => ?_ }
    by_cases h : q' = q
    · subst h
      have htested : s.worker q' = .tested := hq'.resolve_right hs
      have hmore : 1 < s.wakes q' := (hc htested).resolve_left hl
      simp only [Function.update_self]
      omega
    · simp only [Function.update_of_ne h]
      exact i.wakes q' hq' hl

/-- **A step of a work thread.** -/
theorem workerStep (i : WakeInv s) (h : s.workerStep q = some s') : WakeInv s' := by
  unfold WqSys.workerStep at h
  cases hpc : s.worker q with
  | test =>
    rw [hpc] at h
    cases h
    apply i.setWorker _ (by rw [hpc]; decide)
    intro hidle hl
    rw [if_neg hl] at hidle
    rcases hidle with h | h <;> cases h
  | tested =>
    rw [hpc] at h
    cases h
    apply i.setWorker _ (by rw [hpc]; decide)
    intro _ hl
    exact i.wakes q (Or.inl hpc) hl
  | suspended =>
    rw [hpc] at h
    cases h
  | take =>
    rw [hpc] at h
    unfold takeSection at h
    cases hl : (s.wq.queue q).workList with
    | nil =>
      simp only [hl, Option.some.injEq] at h
      subst h
      apply i.setWorker _ (by rw [hpc]; decide)
      intro hidle
      rcases hidle with h | h <;> cases h
    | cons w l =>
      simp only [hl, Option.some.injEq] at h
      subst h
      apply i.work
      · simp
      · intro q' hq'
        simp only [Wq.queue_setWork, Wq.workCurrent_setCurrent, if_neg hq', Wq.workCurrent_unlink]
      · intro q'
        simp only [Wq.queue_setWork, Wq.workList_setCurrent, Wq.workList_unlink]
        exact list_of_erase
      · decide
  | run =>
    rw [hpc] at h
    cases h
    apply i.work
    · exact fun _ => Wq.workCurrent_setCurrent.trans (if_pos rfl)
    · exact fun q' hq' => Wq.workCurrent_setCurrent.trans (if_neg hq')
    · exact fun q' => by rw [Wq.workList_setCurrent]; exact id
    · decide
  | done =>
    rw [hpc] at h
    cases h
    apply i.setWorker _ (by rw [hpc]; decide)
    intro hidle
    rcases hidle with h | h <;> cases h
  | lost =>
    rw [hpc] at h
    cases h

theorem step {a : WqAction} (i : WakeInv s) (h : s.exec a = some s') (hc : s.Punctual a) :
    WakeInv s' := by
  cases a with
  | submit q w =>
    cases h
    refine i.submitted fun hok => ?_
    obtain ⟨-, -, hwake, hlink⟩ := submitSection_ok hok
    exact ⟨hwake, hlink⟩
  | critical q w =>
    cases h
    refine i.submitted fun hok => ?_
    obtain ⟨-, hwake, hlink⟩ := criticalSection_ok hok
    exact ⟨hwake, hlink⟩
  | resume q => exact i.resume hc h
  | cancel q w =>
    cases h
    by_cases hok : (cancelSection q w s.wq).1 = .ok
    · obtain ⟨-, hwq⟩ := cancelSection_ok hok
      simp only [if_pos hok, hwq]
      exact i.shrink rfl rfl (fun _ => list_of_erase) fun _ => rfl
    · simp only [if_neg hok]
      exact i
  | cancelAll q w =>
    rw [exec] at h
    by_cases hm : w ∈ s.list q
    · rw [if_pos hm] at h
      cases h
      exact i.shrink rfl rfl (fun _ => list_of_erase) fun _ => rfl
    · rw [if_neg hm] at h
      cases h
  | cancelSync q w =>
    rw [exec] at h
    by_cases hcur : (s.wq.queue q).workCurrent = some w
    · rw [if_pos hcur] at h
      cases h
      exact i.shrink rfl rfl (fun _ => id) fun _ => rfl
    · rw [if_neg hcur] at h
      cases h
      exact i.shrink rfl rfl (fun _ => list_of_erase) fun _ => rfl
  | syncEnd w =>
    rw [exec] at h
    by_cases hm : w ∈ s.syncing
    · rw [if_pos hm] at h
      cases h
      exact i.shrink rfl rfl (fun _ => id) fun _ => rfl
    · rw [if_neg hm] at h
      cases h
  | detach w =>
    cases h
    exact i.shrink rfl rfl (fun _ => id) fun _ => rfl
  | delay w submitting delayed workqueue timer =>
    cases h
    exact i.shrink rfl rfl (fun _ => id) fun _ => rfl
  | worker q => exact i.workerStep h

end WakeInv

/-- **No work is forgotten** in a run in which no work thread is resumed between its test and its
suspension for a work that came in the meantime. -/
theorem no_work_forgotten {s : WqSys}
    (h : Reachable Init (fun s a s' => exec s a = some s' ∧ Punctual s a) s) : Remembered s := by
  have hinv : WakeInv s := by
    apply h.invariant (fun _ h => WakeInv.init h)
    intro s a s' _ hi ha
    exact hi.step ha.1 ha.2
  exact hinv.remembered

section Cases

/-- A work comes between the test and the suspension, and its caller resumes the work thread later. -/
theorem no_work_forgotten_late : ∃ s, Remembered s ∧ s.worker 0 = .suspended ∧ s.list 0 = [1] := by
  have hrun : ∃ s, runList (stepIf exec Punctual) start [.worker 0, .submit 0 1, .worker 0] = some s ∧
      s.worker 0 = .suspended ∧ s.list 0 = [1] := ⟨_, rfl, rfl, rfl⟩
  obtain ⟨s, hrun, hs, hl⟩ := hrun
  exact ⟨s, no_work_forgotten (reachable_of_runList_stepIf init_start hrun), hs, hl⟩

/-- A work is submitted between the test and the suspension, and so is the work thread resumed. -/
theorem work_forgotten :
    ¬ ∀ s, Reachable Init (fun s a s' => exec s a = some s') s → Remembered s := by
  intro hclaim
  have hrun : ∃ s, runList exec start [.worker 0, .submit 0 1, .resume 0, .worker 0] = some s ∧
      s.worker 0 = .suspended ∧ s.list 0 = [1] ∧ s.wakes 0 = 0 := ⟨_, rfl, rfl, rfl, rfl⟩
  obtain ⟨s, hrun, hs, hl, hwakes⟩ := hrun
  have h := hclaim s (reachable_of_runList (.init init_start) hrun) 0 hs (by rw [hl]; decide)
  rw [hwakes] at h
  exact lt_irrefl 0 h

end Cases

end WqSys

end RTThread.Workqueue
