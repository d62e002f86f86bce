import RTThread.Drivers.Workqueue

set_option autoImplicit false

/-! # The flags of a work

`RT_WORK_STATE_PENDING` stands for a link in a list, and `RT_WORK_STATE_SUBMITTING` for a running timer. The
functions that link and unlink a work set and clear the first one, `rt_workqueue_critical_work`,
`rt_workqueue_cancel_all_work` and the end of `rt_workqueue_cancel_work_sync` apart; a work that keeps the
flag cannot be submitted again. The queue that a delayed work keeps binds it to that queue.
-/

namespace RTThread.Workqueue

open Trans

namespace Wq

/-- The work is in a list. -/
def IsQueued (s : Wq) (w : WId) : Prop := ∃ q, w ∈ (s.queue q).workList

/-- A work thread executes the work. -/
def IsCurrent (s : Wq) (w : WId) : Prop := ∃ q, (s.queue q).workCurrent = some w

/-- The work is neither queued nor delayed nor executing. -/
def IsIdle (s : Wq) (w : WId) : Prop :=
  ¬ s.IsQueued w ∧ (s.work w).timer = false ∧ ¬ s.IsCurrent w

end Wq

/-- The items and queues, the queues whose work thread has to acknowledge the end of a work, the callers of
`rt_workqueue_cancel_work_sync` that wait for it, and those that have to clear the flag after it. -/
structure FlagSys where
  wq : Wq
  acking : QId → Bool
  syncing : List (QId × WId)
  released : List WId

inductive FlagAction
  | dowork (q : QId) (w : WId)
  | submit (q : QId) (w : WId) (time : Nat)
  | critical (q : QId) (w : WId)
  | cancel (q : QId) (w : WId)
  | cancelSync (q : QId) (w : WId)
  /-- The end of `rt_workqueue_cancel_work_sync` for a work that was current. -/
  | syncEnd (w : WId)
  | cancelAll (q : QId)
  /-- The delay timer of the work expires. -/
  | expire (w : WId)
  /-- The work thread takes the first work. -/
  | take (q : QId)
  /-- The function of the current work is done. -/
  | finish (q : QId)
  /-- `_workqueue_work_completion`. -/
  | ack (q : QId)
  deriving DecidableEq

namespace FlagSys

def exec (s : FlagSys) : FlagAction → Option FlagSys
  | .dowork q w => some { s with wq := (rtWorkqueueDowork q w s.wq).2 }
  | .submit q w time => (rtWorkqueueSubmitWork q w time s.wq).map fun r => { s with wq := r.2 }
  | .critical q w => some { s with wq := (rtWorkqueueCriticalWork q w s.wq).2 }
  | .cancel q w => some { s with wq := (rtWorkqueueCancelWork q w s.wq).2 }
  | .cancelSync q w =>
      if (s.wq.queue q).workCurrent = some w then some { s with syncing := (q, w) :: s.syncing }
      else some { s with wq := cancelSyncSection w s.wq }
  | .syncEnd w =>
      if w ∈ s.released then
        some { s with wq := s.wq.setPending w false, released := s.released.erase w }
      else none
  | .cancelAll q => some { s with wq := rtWorkqueueCancelAllWork q s.wq }
  | .expire w =>
      if (s.wq.work w).timer then
        (delayedWorkTimeoutHandler w s.wq).map fun wq => { s with wq }
      else none
  | .take q =>
      if (s.wq.queue q).workCurrent = none ∧ s.acking q = false then
        (takeSection q s.wq).map fun r => { s with wq := r.2 }
      else none
  | .finish q =>
      if (s.wq.queue q).workCurrent = none then none
      else
        some
          { s with
            wq := s.wq.setCurrent q none
            acking := Function.update s.acking q true }
  | .ack q =>
      if s.acking q then
        some
          { s with
            acking := Function.update s.acking q false
            syncing := s.syncing.filter (·.1 ≠ q)
            released := (s.syncing.filter (·.1 = q)).map (·.2) ++ s.released }
      else none

/-- Queues and works were just initialised. -/
def Init (s : FlagSys) : Prop :=
  (∀ q, s.wq.queue q = ⟨[], none⟩) ∧ (∀ w, s.wq.work w = ⟨false, false, false, none, false⟩) ∧
    (∀ q, s.acking q = false) ∧ s.syncing = [] ∧ s.released = []

/-- A work that becomes idle keeps no queue: it has none, or its timer runs, or it is executing. -/
def Leaves (s : Wq) (w : WId) : Prop :=
  (s.work w).workqueue = none ∨ (s.work w).timer = true ∨ s.IsCurrent w

/-- The calls and steps that keep the flags true. -/
def Keeps (s : FlagSys) : FlagAction → Prop
  -- links the work and leaves its flag alone
  | .critical q w =>
      (s.wq.queue q).workCurrent = some w ∨ (s.wq.work w).pending = true
  -- leaves the flags of the works alone that it removes
  | .cancelAll q => (s.wq.queue q).workList = []
  -- clears the flag of a work that may have been submitted again
  | .syncEnd w => (s.wq.work w).pending = false
  -- leave the queue of the work alone
  | .cancel q w =>
      (s.wq.work w).delayed = false → (s.wq.queue q).workCurrent ≠ some w → Leaves s.wq w
  | .cancelSync q w => (s.wq.queue q).workCurrent ≠ some w → Leaves s.wq w
  | .finish q =>
      ∀ w, (s.wq.queue q).workCurrent = some w →
        (s.wq.work w).workqueue = none ∨ (s.wq.work w).timer = true ∨ s.wq.IsQueued w ∨
          ∃ q', q' ≠ q ∧ (s.wq.queue q').workCurrent = some w
  | _ => True

end FlagSys

/-! ## The invariant -/

structure FlagInv (s : Wq) : Prop where
  linked : Linked fun q => (s.queue q).workList
  pending : ∀ w, (s.work w).pending = true ↔ s.IsQueued w
  submitting : ∀ w, (s.work w).submitting = (s.work w).timer
  idle : ∀ w, s.IsIdle w → (s.work w).workqueue = none

namespace FlagInv

variable {s s' : Wq} {q : QId} {w : WId} {x : Work}

/-- A step changes one work, its links and who executes it. -/
theorem update (i : FlagInv s) (hwork : ∀ v, v ≠ w → s'.work v = s.work v)
    (hqueued : ∀ v, v ≠ w → (s'.IsQueued v ↔ s.IsQueued v))
    (hcurrent : ∀ v, v ≠ w → (s'.IsCurrent v ↔ s.IsCurrent v))
    (hlinked : Linked fun q => (s'.queue q).workList)
    (hpending : (s'.work w).pending = true ↔ s'.IsQueued w)
    (hsubmitting : (s'.work w).submitting = (s'.work w).timer)
    (hidle : s'.IsIdle w → (s'.work w).workqueue = none) : FlagInv s' := by
  constructor
  case linked => exact hlinked
  case pending =>
    intro v
    by_cases hv : v = w
    · exact hv ▸ hpending
    · rw [hwork v hv, hqueued v hv]
      exact i.pending v
  case submitting =>
    intro v
    by_cases hv : v = w
    · exact hv ▸ hsubmitting
    · rw [hwork v hv]
      exact i.submitting v
  case idle =>
    intro v
    by_cases hv : v = w
    · exact hv ▸ hidle
    · unfold Wq.IsIdle
      rw [hwork v hv, hqueued v hv, hcurrent v hv]
      exact i.idle v

theorem work_setWork_self : (s.setWork w x).work w = x := Function.update_self ..

theorem work_setWork_of_ne {v : WId} (h : v ≠ w) : (s.setWork w x).work v = s.work v :=
  Function.update_of_ne h ..

/-- The flags, the queue and the timer of a work change, its link does not. -/
theorem setWork (i : FlagInv s) (hpending : x.pending = (s.work w).pending)
    (hsubmitting : x.submitting = x.timer)
    (hidle : ¬ s.IsQueued w → x.timer = false → ¬ s.IsCurrent w → x.workqueue = none) :
    FlagInv (s.setWork w x) := by
  apply i.update (fun v hv => work_setWork_of_ne hv) (fun _ _ => Iff.rfl) (fun _ _ => Iff.rfl) i.linked
  · rw [work_setWork_self, hpending]
    exact i.pending w
  · rw [work_setWork_self]
    exact hsubmitting
  · rintro ⟨hq, ht, hc⟩
    rw [work_setWork_self] at ht ⊢
    exact hidle hq ht hc

/-- A work is taken from its list. -/
theorem unlink (i : FlagInv s) (hpending : x.pending = false) (hsubmitting : x.submitting = x.timer)
    (hidle : x.timer = false → ¬ s.IsCurrent w → x.workqueue = none) :
    FlagInv ((s.unlink w).setWork w x) := by
  have hout : ¬ ((s.unlink w).setWork w x).IsQueued w := by
    rintro ⟨q, hq⟩
    exact (i.linked.nodup q).not_mem_erase hq
  apply i.update (fun v hv => work_setWork_of_ne (s := s.unlink w) hv) _ (fun _ _ => Iff.rfl)
    i.linked.unlink
  · rw [work_setWork_self]
    exact iff_of_false (by rw [hpending]; decide) hout
  · rw [work_setWork_self]
    exact hsubmitting
  · rintro ⟨-, ht, hc⟩
    rw [work_setWork_self] at ht ⊢
    exact hidle ht hc
  · intro v hv
    exact exists_congr fun q => List.mem_erase_of_ne hv

/-- A work is linked at the end of a list. -/
theorem link (i : FlagInv s) (hpending : x.pending = true) (hsubmitting : x.submitting = x.timer) :
    FlagInv (((s.unlink w).link q w).setWork w x) := by
  have hout : ∀ q', w ∉ (s.queue q').workList.erase w := fun q' => (i.linked.nodup q').not_mem_erase
  have hlist : ∀ q', ((((s.unlink w).link q w).setWork w x).queue q').workList =
      if q' = q then (s.queue q').workList.erase w ++ [w] else (s.queue q').workList.erase w :=
    relinked_link.list
  have hin : (((s.unlink w).link q w).setWork w x).IsQueued w := by
    refine ⟨q, ?_⟩
    rw [hlist, if_pos rfl]
    exact List.mem_append_right _ (List.mem_singleton_self w)
  apply i.update (fun v hv => work_setWork_of_ne (s := (s.unlink w).link q w) hv)
  · intro v hv
    refine exists_congr fun q' => ?_
    rw [hlist]
    apply Linked.mem_link.trans
    rw [List.mem_erase_of_ne hv]
    exact or_iff_left fun h => hv h.1
  · intro v _
    simp only [Wq.IsCurrent, Wq.queue_setWork, Wq.workCurrent_link, Wq.workCurrent_unlink]
  · rw [funext hlist]
    exact i.linked.unlink.link hout
  · rw [work_setWork_self]
    exact iff_of_true hpending hin
  · rw [work_setWork_self]
    exact hsubmitting
  · exact fun h => absurd hin h.1

/-! ### Sections and functions -/

theorem setWork_setWork {y : Work} : (s.setWork w x).setWork w y = s.setWork w y := by
  simp only [Wq.setWork, Function.update_idem]

theorem setWork_eq_self : s.setWork w (s.work w) = s := by
  simp only [Wq.setWork, Function.update_eq_self]

/-- **The section that submits a work**, after any change of the rest of the work. -/
theorem submitSection (i : FlagInv s) (hpending : x.pending = (s.work w).pending)
    (hsubmitting : x.submitting = x.timer) :
    FlagInv (Workqueue.submitSection q w (s.setWork w x)).2.2 := by
  unfold Workqueue.submitSection
  rw [work_setWork_self, Wq.queue_setWork]
  by_cases hp : x.pending = true
  · -- refused, and linked
    rw [if_pos hp]
    refine i.setWork hpending hsubmitting fun hq => ?_
    rw [hpending] at hp
    exact absurd ((i.pending w).mp hp) hq
  rw [if_neg hp]
  by_cases hc : (s.queue q).workCurrent = some w
  · -- refused, and executing
    rw [if_pos hc]
    exact i.setWork hpending hsubmitting fun _ _ h => absurd ⟨q, hc⟩ h
  rw [if_neg hc]
  have hset : (((s.setWork w x).unlink w).link q w).setPending w true =
      ((s.unlink w).link q w).setWork w { x with pending := true } := by
    unfold Wq.setPending
    rw [Wq.work_link, Wq.work_unlink, work_setWork_self]
    exact setWork_setWork (s := (s.unlink w).link q w)
  simp only [hset]
  exact i.link rfl hsubmitting

theorem dowork (i : FlagInv s) : FlagInv (rtWorkqueueDowork q w s).2 := by
  have h := i.submitSection (q := q) (w := w) (x := s.work w) rfl (i.submitting w)
  rw [setWork_eq_self] at h
  exact h

/-- A critical work that has the flag keeps it. -/
theorem critical (i : FlagInv s)
    (hc : (s.queue q).workCurrent = some w ∨ (s.work w).pending = true) :
    FlagInv (rtWorkqueueCriticalWork q w s).2 := by
  unfold rtWorkqueueCriticalWork criticalSection
  by_cases hcur : (s.queue q).workCurrent = some w
  · rw [if_pos hcur]
    exact i
  · rw [if_neg hcur]
    have h := i.link (q := q) (w := w) (hc.resolve_left hcur) (i.submitting w)
    have hself : ((s.unlink w).link q w).setWork w (s.work w) = (s.unlink w).link q w :=
      setWork_eq_self (s := (s.unlink w).link q w)
    rw [hself] at h
    exact h

/-- **`_workqueue_cancel_delayed_work`** detaches what it removes. -/
theorem cancelDelayedWork (i : FlagInv s) : FlagInv (Workqueue.cancelDelayedWork w s).2 := by
  unfold Workqueue.cancelDelayedWork
  cases hq : (s.work w).workqueue with
  | none => exact i
  | some q =>
    simp only
    by_cases hp : (s.work w).pending = true
    · simp only [if_pos hp]
      unfold cancelSection
      by_cases hc : (s.queue q).workCurrent = some w
      · simp only [if_pos hc, reduceCtorEq, if_false]
        exact i
      · simp only [if_neg hc, if_true]
        unfold detachSection Wq.setPending
        rw [setWork_setWork, work_setWork_self]
        exact i.unlink rfl (i.submitting w) fun _ _ => rfl
    · simp only [if_neg hp]
      have hp' : (s.work w).pending = false := by simpa using hp
      by_cases hs : (s.work w).submitting = true
      · simp only [if_pos hs, if_true]
        unfold detachSection
        rw [setWork_setWork, work_setWork_self]
        exact i.setWork hp'.symm rfl fun _ _ _ => rfl
      · simp only [if_neg hs, if_true]
        exact i.setWork hp'.symm (i.submitting w) fun _ _ _ => rfl

/-- **`_workqueue_submit_delayed_work`**: the work is attached, and then linked, delayed or refused. -/
theorem submitDelayedWork {time : Nat} {r : Res × Wq} (i : FlagInv s)
    (h : Workqueue.submitDelayedWork q w time s = some r) : FlagInv r.2 := by
  unfold Workqueue.submitDelayedWork at h
  by_cases hq : (s.work w).workqueue ≠ none ∧ (s.work w).workqueue ≠ some q
  · rw [if_pos hq] at h
    cases h
    exact i
  rw [if_neg hq] at h
  simp only at h
  have hr : FlagInv
      (if (s.work w).workqueue = some q then Workqueue.cancelDelayedWork w s else (.ok, s)).2 := by
    split_ifs
    · exact i.cancelDelayedWork
    · exact i
  generalize (if (s.work w).workqueue = some q then Workqueue.cancelDelayedWork w s else (.ok, s)) = c
    at h hr
  by_cases hok : c.1 ≠ .ok
  · rw [if_pos hok] at h
    cases h
    exact hr
  rw [if_neg hok] at h
  by_cases ht : time = 0
  · rw [if_pos ht] at h
    cases h
    exact hr.submitSection rfl (hr.submitting w)
  rw [if_neg ht] at h
  split_ifs at h with htimer
  cases h
  rw [setWork_setWork, work_setWork_self]
  exact hr.setWork rfl rfl fun _ h => by cases h

theorem submit {time : Nat} {r : Res × Wq} (i : FlagInv s)
    (h : rtWorkqueueSubmitWork q w time s = some r) : FlagInv r.2 := by
  unfold rtWorkqueueSubmitWork at h
  have i' : FlagInv (if time > 0 then s.setWork w { s.work w with delayed := true } else s) := by
    split_ifs
    · exact i.setWork rfl (i.submitting w) fun hq ht hc => i.idle w ⟨hq, ht, hc⟩
    · exact i
  simp only at h
  generalize (if time > 0 then s.setWork w { s.work w with delayed := true } else s) = c at h i'
  by_cases hd : (c.work w).delayed = true
  · rw [if_pos hd] at h
    exact i'.submitDelayedWork h
  · rw [if_neg hd] at h
    cases h
    exact i'.dowork

theorem expire {wq : Wq} (i : FlagInv s) (h : delayedWorkTimeoutHandler w s = some wq) :
    FlagInv wq := by
  unfold delayedWorkTimeoutHandler at h
  cases hq : (s.work w).workqueue with
  | none =>
    simp only [work_setWork_self, hq] at h
    split_ifs at h
    cases h
    exact i.setWork rfl rfl fun _ _ _ => rfl
  | some q =>
    simp only [work_setWork_self, hq, Option.some.injEq] at h
    subst h
    exact i.submitSection rfl rfl

/-- A work without a delay is removed, and keeps no queue. -/
theorem removed (i : FlagInv s) (hw : FlagSys.Leaves s w) :
    FlagInv ((s.unlink w).setPending w false) := by
  refine i.unlink rfl (i.submitting w) fun ht hc => ?_
  change (s.work w).timer = false at ht
  rcases hw with h | h | h
  · exact h
  · rw [ht] at h
    cases h
  · exact absurd h hc

theorem cancel (i : FlagInv s)
    (hw : (s.work w).delayed = false → (s.queue q).workCurrent ≠ some w → FlagSys.Leaves s w) :
    FlagInv (rtWorkqueueCancelWork q w s).2 := by
  unfold rtWorkqueueCancelWork
  by_cases hd : (s.work w).delayed = true
  · rw [if_pos hd]
    exact i.cancelDelayedWork
  rw [if_neg hd]
  unfold cancelSection
  by_cases hc : (s.queue q).workCurrent = some w
  · rw [if_pos hc]
    exact i
  · rw [if_neg hc]
    exact i.removed (hw (by simpa using hd) hc)

theorem isCurrent_setCurrent {v : WId} {c : Option WId} :
    (s.setCurrent q c).IsCurrent v ↔
      c = some v ∨ ∃ q', q' ≠ q ∧ (s.queue q').workCurrent = some v := by
  constructor
  · rintro ⟨q', h⟩
    rw [Wq.workCurrent_setCurrent] at h
    by_cases hq : q' = q
    · rw [if_pos hq] at h
      exact Or.inl h
    · rw [if_neg hq] at h
      exact Or.inr ⟨q', hq, h⟩
  · rintro (h | ⟨q', hq, h⟩)
    · exact ⟨q, Wq.workCurrent_setCurrent.trans ((if_pos rfl).trans h)⟩
    · exact ⟨q', Wq.workCurrent_setCurrent.trans ((if_neg hq).trans h)⟩

/-- Who executes a work that `q` neither executed before nor executes now. -/
theorem isCurrent_setCurrent_of_ne {v : WId} {c : Option WId} (h : (s.queue q).workCurrent ≠ some v)
    (hc : c ≠ some v) : (s.setCurrent q c).IsCurrent v ↔ s.IsCurrent v := by
  rw [isCurrent_setCurrent, or_iff_right hc]
  constructor
  · rintro ⟨q', -, hq'⟩
    exact ⟨q', hq'⟩
  · rintro ⟨q', hq'⟩
    refine ⟨q', ?_, hq'⟩
    rintro rfl
    exact h hq'

/-- **The section that takes the first work.** -/
theorem take {r : WId × Wq} (i : FlagInv s) (hc : (s.queue q).workCurrent = none)
    (h : takeSection q s = some r) : FlagInv r.2 := by
  unfold takeSection at h
  cases hl : (s.queue q).workList with
  | nil =>
    simp only [hl] at h
    cases h
  | cons w l =>
    simp only [hl, Option.some.injEq] at h
    subst h
    have hlist : ∀ q', (((s.unlink w).setCurrent q (some w)).queue q').workList =
        (s.queue q').workList.erase w := fun _ => Wq.workList_setCurrent
    have hcurrent : ((s.unlink w).setCurrent q (some w)).IsCurrent w :=
      isCurrent_setCurrent.mpr (Or.inl rfl)
    apply i.update (fun v hv => work_setWork_of_ne (s := (s.unlink w).setCurrent q (some w)) hv)
    · intro v hv
      refine exists_congr fun q' => ?_
      rw [Wq.queue_setWork, hlist]
      exact List.mem_erase_of_ne hv
    · intro v hv
      refine (isCurrent_setCurrent_of_ne (s := s.unlink w) ?_ ?_)
      · rw [Wq.workCurrent_unlink, hc]
        exact (Option.some_ne_none v).symm
      · exact fun he => hv (Option.some.inj he).symm
    · simp only [Wq.queue_setWork, hlist]
      exact i.linked.unlink
    · rw [work_setWork_self]
      refine iff_of_false Bool.false_ne_true ?_
      rintro ⟨q', hq'⟩
      rw [Wq.queue_setWork, hlist] at hq'
      exact (i.linked.nodup q').not_mem_erase hq'
    · rw [work_setWork_self]
      exact i.submitting w
    · exact fun h => absurd hcurrent h.2.2

/-- **The current work is done**; it keeps no queue. -/
theorem finish (i : FlagInv s) (hcur : (s.queue q).workCurrent = some w)
    (hw : (s.work w).workqueue = none ∨ (s.work w).timer = true ∨ s.IsQueued w ∨
      ∃ q', q' ≠ q ∧ (s.queue q').workCurrent = some w) : FlagInv (s.setCurrent q none) := by
  have hqueued : ∀ v, (s.setCurrent q none).IsQueued v ↔ s.IsQueued v := by
    intro v
    simp only [Wq.IsQueued, Wq.workList_setCurrent]
  refine i.update (w := w) (fun _ _ => rfl) (fun v _ => hqueued v) ?_ ?_ ?_ ?_ ?_
  · intro v hv
    apply isCurrent_setCurrent_of_ne
    · rw [hcur]
      exact fun he => hv (Option.some.inj he).symm
    · exact (Option.some_ne_none v).symm
  · simp only [Wq.workList_setCurrent]
    exact i.linked
  · rw [hqueued]
    exact i.pending w
  · exact i.submitting w
  · rintro ⟨hq, ht, hc⟩
    rcases hw with h | h | h | h
    · exact h
    · exact absurd (ht.symm.trans h) (by decide)
    · exact absurd ((hqueued w).mpr h) hq
    · exact absurd (isCurrent_setCurrent.mpr (Or.inr h)) hc

end FlagInv

namespace FlagSys

variable {s s' : FlagSys} {a : FlagAction}

section Cases

def start : FlagSys where
  wq := ⟨fun _ => ⟨false, false, false, none, false⟩, fun _ => ⟨[], none⟩⟩
  acking := fun _ => false
  syncing := []
  released := []

theorem init_start : start.Init :=
  ⟨fun _ => rfl, fun _ => rfl, fun _ => rfl, rfl, rfl⟩

end Cases

end FlagSys

end RTThread.Workqueue
