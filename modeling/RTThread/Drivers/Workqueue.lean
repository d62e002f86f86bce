import RTThread.Lib.Run

set_option autoImplicit false

/-! # Work queues (`workqueue.c`)

A work queue has a list of work items and a thread that executes them. An item is linked in one list at
most; `rt_list_remove` takes it from whichever list it is in. The lists are given by their items, the
pointers to queues and items by numbers.

First come the sections of the code with interrupts disabled, and the functions made of them; a section that
submits work tells whether the caller goes on to resume the work thread. Then the system in which the
sections of all callers, and the steps of the work threads, follow each other in any order.
-/

namespace RTThread.Workqueue

abbrev QId := Nat

abbrev WId := Nat

/-- `RT_EOK`, `-RT_EBUSY`, `-RT_EINVAL`. -/
inductive Res
  | ok | busy | inval
  deriving DecidableEq, Repr

/-- `struct rt_work`, without its function. -/
structure Work where
  /-- `RT_WORK_STATE_PENDING`. -/
  pending : Bool
  /-- `RT_WORK_STATE_SUBMITTING`. -/
  submitting : Bool
  /-- `RT_WORK_TYPE_DELAYED`. -/
  delayed : Bool
  workqueue : Option QId
  /-- The delay timer runs. -/
  timer : Bool

/-- `struct rt_workqueue`, without its thread and its semaphore. -/
structure Queue where
  workList : List WId
  workCurrent : Option WId

/-- All work items and all queues. -/
structure Wq where
  work : WId → Work
  queue : QId → Queue

namespace Wq

def setWork (s : Wq) (w : WId) (x : Work) : Wq := { s with work := Function.update s.work w x }

def setCurrent (s : Wq) (q : QId) (current : Option WId) : Wq :=
  { s with queue := Function.update s.queue q { s.queue q with workCurrent := current } }

def setPending (s : Wq) (w : WId) (b : Bool) : Wq := s.setWork w { s.work w with pending := b }

/-- `rt_list_remove(&(work->list))`. -/
def unlink (s : Wq) (w : WId) : Wq :=
  { s with queue := fun q => { s.queue q with workList := (s.queue q).workList.erase w } }

/-- `rt_list_insert_after(queue->work_list.prev, &(work->list))`. -/
def link (s : Wq) (q : QId) (w : WId) : Wq :=
  { s with
    queue := Function.update s.queue q
      { s.queue q with workList := (s.queue q).workList ++ [w] } }

section Lemmas

variable {s : Wq} {q q' : QId} {w : WId} {x : Work} {b : Bool} {c : Option WId}

@[simp] theorem queue_setWork : (s.setWork w x).queue = s.queue := rfl

@[simp] theorem queue_setPending : (s.setPending w b).queue = s.queue := rfl

@[simp] theorem work_unlink : (s.unlink w).work = s.work := rfl

@[simp] theorem work_link : (s.link q w).work = s.work := rfl

@[simp] theorem work_setCurrent : (s.setCurrent q c).work = s.work := rfl

@[simp] theorem workList_unlink :
    ((s.unlink w).queue q).workList = (s.queue q).workList.erase w := rfl

@[simp] theorem workCurrent_unlink : ((s.unlink w).queue q).workCurrent = (s.queue q).workCurrent :=
  rfl

@[simp] theorem workList_setCurrent :
    ((s.setCurrent q c).queue q').workList = (s.queue q').workList := by
  by_cases h : q' = q
  · subst h
    simp [setCurrent]
  · simp [setCurrent, Function.update_of_ne h]

theorem workCurrent_setCurrent :
    ((s.setCurrent q c).queue q').workCurrent = if q' = q then c else (s.queue q').workCurrent := by
  by_cases h : q' = q
  · subst h
    simp [setCurrent]
  · simp [setCurrent, h]

theorem workList_link :
    ((s.link q w).queue q').workList =
      if q' = q then (s.queue q').workList ++ [w] else (s.queue q').workList := by
  by_cases h : q' = q
  · subst h
    simp [link]
  · simp [link, h]

@[simp] theorem workCurrent_link : ((s.link q w).queue q').workCurrent = (s.queue q').workCurrent := by
  by_cases h : q' = q
  · subst h
    simp [link]
  · simp [link, Function.update_of_ne h]

end Lemmas

end Wq

/-- A work is linked once at most. -/
structure Linked (list : QId → List WId) : Prop where
  nodup : ∀ q, (list q).Nodup
  apart : ∀ q q' w, w ∈ list q → w ∈ list q' → q = q'

namespace Linked

variable {list : QId → List WId} {q q' : QId} {v w : WId}

theorem mem_link :
    v ∈ (if q' = q then list q' ++ [w] else list q') ↔ v ∈ list q' ∨ v = w ∧ q' = q := by
  by_cases hq : q' = q
  · rw [if_pos hq, List.mem_append, List.mem_singleton]
    exact or_congr_right (and_iff_left hq).symm
  · rw [if_neg hq]
    exact (or_iff_left fun h => hq h.2).symm

theorem unlink (i : Linked list) : Linked fun q => (list q).erase w := by
  refine ⟨fun q => (i.nodup q).erase w, fun q q' v hq hq' => ?_⟩
  exact i.apart q q' v (List.mem_of_mem_erase hq) (List.mem_of_mem_erase hq')

/-- A work that is in no list is linked at the end of one. -/
theorem link (i : Linked list) (hw : ∀ q, w ∉ list q) :
    Linked fun q' => if q' = q then list q' ++ [w] else list q' := by
  constructor
  case nodup =>
    intro q'
    by_cases hq : q' = q
    · rw [if_pos hq]
      refine List.nodup_append.mpr ⟨i.nodup q', List.nodup_singleton w, ?_⟩
      rintro v hv u hu rfl
      exact hw q' (List.mem_singleton.mp hu ▸ hv)
    · rw [if_neg hq]
      exact i.nodup q'
  case apart =>
    intro q₁ q₂ v h₁ h₂
    rcases mem_link.mp h₁ with h₁ | ⟨hv, hq₁⟩
    · rcases mem_link.mp h₂ with h₂ | ⟨hv, -⟩
      · exact i.apart q₁ q₂ v h₁ h₂
      · exact absurd (hv ▸ h₁) (hw q₁)
    · rcases mem_link.mp h₂ with h₂ | ⟨-, hq₂⟩
      · exact absurd (hv ▸ h₂) (hw q₂)
      · exact hq₁.trans hq₂.symm

end Linked

/-! ## Sections -/

/-- The section of `_workqueue_submit_work`. -/
def submitSection (q : QId) (w : WId) (s : Wq) : Res × Bool × Wq :=
  if (s.work w).pending then (.busy, false, s)
  else if (s.queue q).workCurrent = some w then (.busy, false, s)
  else
    let s := ((s.unlink w).link q w).setPending w true
    -- whether the workqueue is doing work
    (.ok, decide ((s.queue q).workCurrent = none), s)

/-- The section of `rt_workqueue_critical_work`. -/
def criticalSection (q : QId) (w : WId) (s : Wq) : Res × Bool × Wq :=
  if (s.queue q).workCurrent = some w then (.busy, false, s)
  else
    let s := (s.unlink w).link q w
    (.ok, decide ((s.queue q).workCurrent = none), s)

/-- `_workqueue_cancel_work`. -/
def cancelSection (q : QId) (w : WId) (s : Wq) : Res × Wq :=
  if (s.queue q).workCurrent = some w then (.busy, s)
  else (.ok, (s.unlink w).setPending w false)

/-- The first section of `rt_workqueue_cancel_work_sync`, for a work that is not current; for the current
one the caller waits for the semaphore of the queue. -/
def cancelSyncSection (w : WId) (s : Wq) : Wq := (s.unlink w).setPending w false

/-- The last section of `_workqueue_cancel_delayed_work`: detach from workqueue. -/
def detachSection (w : WId) (s : Wq) : Wq :=
  s.setWork w { s.work w with workqueue := none, pending := false }

/-- The section of `_workqueue_thread_entry` that takes the first work, if there is one. -/
def takeSection (q : QId) (s : Wq) : Option (WId × Wq) :=
  match (s.queue q).workList with
  | [] => none
  | w :: _ =>
      let s := (s.unlink w).setCurrent q (some w)
      some (w, s.setWork w { s.work w with pending := false, workqueue := none })

/-- A section took the work from its list and linked it at the end of that of `q`. -/
structure Relinked (q : QId) (w : WId) (s s' : Wq) : Prop where
  list : ∀ q', (s'.queue q').workList =
    if q' = q then (s.queue q').workList.erase w ++ [w] else (s.queue q').workList.erase w
  current : ∀ q', (s'.queue q').workCurrent = (s.queue q').workCurrent

section Lemmas

variable {s : Wq} {q : QId} {w : WId}

theorem relinked_link : Relinked q w s ((s.unlink w).link q w) :=
  ⟨fun _ => Wq.workList_link, fun _ => Wq.workCurrent_link⟩

/-- **What a submission does.** -/
theorem submitSection_ok (h : (submitSection q w s).1 = .ok) :
    (s.work w).pending = false ∧ (s.queue q).workCurrent ≠ some w ∧
      (submitSection q w s).2.1 = decide ((s.queue q).workCurrent = none) ∧
      Relinked q w s (submitSection q w s).2.2 := by
  unfold submitSection at h ⊢
  by_cases hp : (s.work w).pending = true
  · rw [if_pos hp] at h
    cases h
  rw [if_neg hp] at h ⊢
  by_cases hc : (s.queue q).workCurrent = some w
  · rw [if_pos hc] at h
    cases h
  rw [if_neg hc]
  have hlink : Relinked q w s (((s.unlink w).link q w).setPending w true) :=
    ⟨relinked_link.list, relinked_link.current⟩
  refine ⟨by simpa using hp, hc, ?_, hlink⟩
  simp only [Wq.queue_setPending, Wq.workCurrent_link, Wq.workCurrent_unlink]

theorem criticalSection_ok (h : (criticalSection q w s).1 = .ok) :
    (s.queue q).workCurrent ≠ some w ∧
      (criticalSection q w s).2.1 = decide ((s.queue q).workCurrent = none) ∧
      Relinked q w s (criticalSection q w s).2.2 := by
  unfold criticalSection at h ⊢
  by_cases hc : (s.queue q).workCurrent = some w
  · rw [if_pos hc] at h
    cases h
  rw [if_neg hc]
  refine ⟨hc, ?_, relinked_link⟩
  simp only [Wq.workCurrent_link, Wq.workCurrent_unlink]

theorem cancelSection_ok (h : (cancelSection q w s).1 = .ok) :
    (s.queue q).workCurrent ≠ some w ∧ (cancelSection q w s).2 = (s.unlink w).setPending w false := by
  unfold cancelSection at h ⊢
  by_cases hc : (s.queue q).workCurrent = some w
  · rw [if_pos hc] at h
    cases h
  rw [if_neg hc]
  exact ⟨hc, rfl⟩

end Lemmas

/-! ## Functions -/

/-- `_workqueue_cancel_delayed_work`. -/
def cancelDelayedWork (w : WId) (s : Wq) : Res × Wq :=
  match (s.work w).workqueue with
  | none => (.inval, s)
  | some q =>
      let r :=
        -- Remove from the queue if already submitted
        if (s.work w).pending then cancelSection q w s
        else if (s.work w).submitting then
          (.ok, s.setWork w { s.work w with timer := false, submitting := false })
        else (.ok, s)
      if r.1 = .ok then (.ok, detachSection w r.2) else r

/-- `_workqueue_submit_delayed_work`. A running timer must not be initialised: there the function has no
result. -/
def submitDelayedWork (q : QId) (w : WId) (ticks : Nat) (s : Wq) : Option (Res × Wq) :=
  -- Work cannot be active in multiple queues
  if (s.work w).workqueue ≠ none ∧ (s.work w).workqueue ≠ some q then some (.inval, s)
  else
    -- Cancel if work has been submitted
    let r := if (s.work w).workqueue = some q then cancelDelayedWork w s else (.ok, s)
    if r.1 ≠ .ok then some r
    else
      -- Attach workqueue so the timeout callback can submit it
      let s := r.2.setWork w { r.2.work w with workqueue := some q }
      if ticks = 0 then
        let x := submitSection q w s
        some (x.1, x.2.2)
      else if (s.work w).timer then none
      else some (.ok, s.setWork w { s.work w with submitting := true, timer := true })

/-- `_delayed_work_timeout_handler`. The flag is tested before the queue is used, which must exist. -/
def delayedWorkTimeoutHandler (w : WId) (s : Wq) : Option Wq :=
  let s := s.setWork w { s.work w with timer := false, submitting := false, delayed := false }
  match (s.work w).workqueue with
  | some q => some (submitSection q w s).2.2
  | none => if (s.work w).pending then some s else none

def rtWorkqueueDowork (q : QId) (w : WId) (s : Wq) : Res × Wq :=
  let x := submitSection q w s
  (x.1, x.2.2)

def rtWorkqueueSubmitWork (q : QId) (w : WId) (time : Nat) (s : Wq) : Option (Res × Wq) :=
  let s := if time > 0 then s.setWork w { s.work w with delayed := true } else s
  if (s.work w).delayed then submitDelayedWork q w time s
  else some (rtWorkqueueDowork q w s)

def rtWorkqueueCriticalWork (q : QId) (w : WId) (s : Wq) : Res × Wq :=
  let x := criticalSection q w s
  (x.1, x.2.2)

def rtWorkqueueCancelWork (q : QId) (w : WId) (s : Wq) : Res × Wq :=
  if (s.work w).delayed then cancelDelayedWork w s else cancelSection q w s

/-- A round of the loop for each work in the list. -/
def rtWorkqueueCancelAllWork (q : QId) (s : Wq) : Wq :=
  (s.queue q).workList.foldl Wq.unlink s

/-! ## Interleaved sections -/

/-- Where a work thread is: at its test, behind a test that found the list empty, suspended, in front of
the section that takes the first work, in the function of the work, or behind it. `lost` is a thread that
took the head of the list for a work. -/
inductive Worker
  | test | tested | suspended | take | run | done | lost
  deriving DecidableEq, Repr

/-- The items and queues, the work threads, the callers that have yet to resume a work thread, and those
that wait for the end of a current work. A successful submission has a number, which the work keeps while it
is linked; the numbers of works that were executed, and of those that were removed before, are recorded. -/
structure WqSys where
  wq : Wq
  worker : QId → Worker
  wakes : QId → Nat
  syncing : List WId
  issued : Nat
  ticket : WId → Option Nat
  executed : List Nat
  dropped : List Nat

inductive WqAction
  /-- `rt_workqueue_dowork`, `rt_workqueue_submit_work` for a work without delay, and the submissions of
  `_workqueue_submit_delayed_work` and of the timer, up to the end of the section. -/
  | submit (q : QId) (w : WId)
  | critical (q : QId) (w : WId)
  /-- `rt_thread_resume(queue->work_thread)` behind a section that submitted work. -/
  | resume (q : QId)
  | cancel (q : QId) (w : WId)
  /-- A round of the loop of `rt_workqueue_cancel_all_work`. -/
  | cancelAll (q : QId) (w : WId)
  | cancelSync (q : QId) (w : WId)
  /-- The end of `rt_workqueue_cancel_work_sync` for a work that was current. -/
  | syncEnd (w : WId)
  /-- The end of `_workqueue_cancel_delayed_work`. -/
  | detach (w : WId)
  /-- What else the functions for delayed work, and the timers, store in a work. -/
  | delay (w : WId) (submitting delayed : Bool) (workqueue : Option QId) (timer : Bool)
  /-- The next step of the work thread. -/
  | worker (q : QId)
  deriving DecidableEq

namespace WqSys

def list (s : WqSys) (q : QId) : List WId := (s.wq.queue q).workList

/-- The number of a work that is no longer linked is recorded as that of a removed one. -/
def drop (s : WqSys) (w : WId) : WqSys :=
  { s with
    ticket := Function.update s.ticket w none
    dropped := (s.ticket w).toList ++ s.dropped }

/-- A submission succeeded. -/
def issue (s : WqSys) (w : WId) : WqSys :=
  { s with issued := s.issued + 1, ticket := Function.update s.ticket w (some s.issued) }

/-- A section that submits work. -/
def submitted (s : WqSys) (q : QId) (w : WId) (r : Res × Bool × Wq) : WqSys :=
  if r.1 = .ok then
    { (s.drop w).issue w with
      wq := r.2.2
      wakes := if r.2.1 then Function.update s.wakes q (s.wakes q + 1) else s.wakes }
  else s

/-- A section that removes a work. -/
def removed (s : WqSys) (w : WId) (wq : Wq) : WqSys := { s.drop w with wq }

def setWorker (s : WqSys) (q : QId) (pc : Worker) : WqSys :=
  { s with worker := Function.update s.worker q pc }

theorem worker_setWorker {s : WqSys} {q q' : QId} {pc : Worker} :
    (s.setWorker q pc).worker q' = if q' = q then pc else s.worker q' := by
  by_cases h : q' = q
  · subst h
    simp [setWorker]
  · simp [setWorker, h]

/-- The steps of `_workqueue_thread_entry`. -/
def workerStep (s : WqSys) (q : QId) : Option WqSys :=
  match s.worker q with
  | .test => some (s.setWorker q (if s.list q = [] then .tested else .take))
  -- `rt_thread_suspend`
  | .tested => some (s.setWorker q .suspended)
  | .suspended => none
  | .take =>
      match takeSection q s.wq with
      | none => some (s.setWorker q .lost)
      | some (w, wq) =>
          some
            { s.setWorker q .run with
              wq
              ticket := Function.update s.ticket w none
              executed := (s.ticket w).toList ++ s.executed }
  | .run => some { s.setWorker q .done with wq := s.wq.setCurrent q none }
  -- `_workqueue_work_completion`
  | .done => some (s.setWorker q .test)
  | .lost => none

def exec (s : WqSys) : WqAction → Option WqSys
  | .submit q w => some (s.submitted q w (submitSection q w s.wq))
  | .critical q w => some (s.submitted q w (criticalSection q w s.wq))
  | .resume q =>
      if s.wakes q = 0 then none
      else
        let s' := { s with wakes := Function.update s.wakes q (s.wakes q - 1) }
        some (if s.worker q = .suspended then s'.setWorker q .take else s')
  | .cancel q w =>
      let r := cancelSection q w s.wq
      some (if r.1 = .ok then s.removed w r.2 else s)
  | .cancelAll q w => if w ∈ s.list q then some (s.removed w (s.wq.unlink w)) else none
  | .cancelSync q w =>
      if (s.wq.queue q).workCurrent = some w then some { s with syncing := w :: s.syncing }
      else some (s.removed w (cancelSyncSection w s.wq))
  | .syncEnd w =>
      if w ∈ s.syncing then
        some { s with wq := s.wq.setPending w false, syncing := s.syncing.erase w }
      else none
  | .detach w => some { s with wq := detachSection w s.wq }
  | .delay w submitting delayed workqueue timer =>
      some
        { s with
          wq := s.wq.setWork w { s.wq.work w with submitting, delayed, workqueue, timer } }
  | .worker q => s.workerStep q

/-- No work is linked, and the work threads start. -/
def Init (s : WqSys) : Prop :=
  (∀ q, s.wq.queue q = ⟨[], none⟩) ∧ (∀ q, s.worker q = .test) ∧ (∀ q, s.wakes q = 0) ∧
    (∀ w, (s.wq.work w).pending = false) ∧ s.issued = 0 ∧ (∀ w, s.ticket w = none) ∧
    s.executed = [] ∧ s.dropped = []

/-- Queues and works that were just initialised. -/
def start : WqSys where
  wq := ⟨fun _ => ⟨false, false, false, none, false⟩, fun _ => ⟨[], none⟩⟩
  worker := fun _ => .test
  wakes := fun _ => 0
  syncing := []
  issued := 0
  ticket := fun _ => none
  executed := []
  dropped := []

theorem init_start : start.Init := by
  unfold Init
  exact ⟨fun _ => rfl, fun _ => rfl, fun _ => rfl, fun _ => rfl, rfl, fun _ => rfl, rfl, rfl⟩

end WqSys

end RTThread.Workqueue
