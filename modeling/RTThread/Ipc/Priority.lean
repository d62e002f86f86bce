import RTThread.Ipc.MutexSteps

set_option autoImplicit false

/-! # What a step does to the priorities

Priorities change in two ways: by `rt_thread_control`, and at a mutex, where a taker that has to
wait raises the owner and a release puts the saved priority back. `MutexEffect` tells a step at a
mutex by its effect on the owner, the saved priority, the wait list and the priorities only; the
results on priority inheritance are by cases on it.
-/

namespace RTThread.Ipc

open Kernel

/-- The application changes no priority. -/
def Action.NoControl : Action → Prop
  | .control _ _ => False
  | _ => True

instance Action.NoControl.decidable : (a : Action) → Decidable a.NoControl
  | .control _ _ => isFalse id
  | .run _ _ | .ret _ | .isr _ | .timeout _ | .schedule => isTrue trivial

theorem Action.NoControl.ne_control {a : Action} (h : a.NoControl) (t : ThreadId) (p : Nat) :
    a ≠ .control t p := by
  rintro rfl
  exact h

/-! ## The priorities in a state -/

namespace Sys

/-- `thread->current_priority` -/
def prio (s : Sys) (t : ThreadId) : Nat := (s.ipc.kernel.thread t).currentPriority

/-- `thread->init_priority` -/
def initPrio (s : Sys) (t : ThreadId) : Nat := (s.ipc.kernel.thread t).initPriority

def owner (s : Sys) (i : Nat) : Option ThreadId := (s.ipc.mutex i).owner

/-- The priority that `rt_mutex_release` puts back. -/
def savedPrio (s : Sys) (i : Nat) : Nat := (s.ipc.mutex i).originalPriority

/-- The threads suspended on mutex `i`. -/
def waiters (s : Sys) (i : Nat) : List ThreadId := s.ipc.kernel.lists (.suspend (.mutex i))

/-- `rt_mutex_release` by the owner, for the last of its takes. -/
def GivesUp (i : Nat) (s : Sys) (t : ThreadId) (a : Action) : Prop :=
  a = .run t (.call (.mutexRelease i)) ∧ s.owner i = some t ∧
    ((s.ipc.mutex i).hold + 255) % 2 ^ 8 = 0

theorem GivesUp.actObj {i : Nat} {s : Sys} {t : ThreadId} {a : Action} (h : s.GivesUp i t a) :
    s.actObj a = some (.mutex i) := by
  obtain ⟨rfl, -⟩ := h
  rfl

end Sys

section

variable [RtConfig] {k k' : Kernel} {s s' : Sys} {a : Action} {t u v : ThreadId} {o : Obj}
  {h : ListHead} {i j : Nat} {p : Nat}

/-- Only the priority of `u` is changed. -/
theorem Changed.currentPriority (c : Changed k u p k') :
    (fun v => (k'.thread v).currentPriority) =
      Function.update (fun v => (k.thread v).currentPriority) u p := by
  funext v
  by_cases hv : v = u
  · rw [hv, c.self, Function.update_self, setPriority_currentPriority]
  · rw [c.thread v hv, Function.update_of_ne hv]

theorem Changed.initPriority (c : Changed k u p k') (v : ThreadId) :
    (k'.thread v).initPriority = (k.thread v).initPriority := by
  by_cases hv : v = u
  · rw [hv, c.self, setPriority_initPriority]
  · rw [c.thread v hv]

/-- The effect of a change that is made under a condition. -/
theorem MayChange.currentPriority {c : Prop} [Decidable c] (m : MayChange k u p c k') :
    (fun v => (k'.thread v).currentPriority) =
      Function.update (fun v => (k.thread v).currentPriority) u
        (if c then p else (k.thread u).currentPriority) := by
  cases m with
  | yes hc w => rw [if_pos hc, Changed.currentPriority w]
  | no hc => rw [if_neg hc, Function.update_eq_self]

/-! ## Chains of changes -/

theorem Prim.initPriority (c : Prim o t k k') (v : ThreadId) :
    (k'.thread v).initPriority = (k.thread v).initPriority := by
  cases c with
  | self f hr ha hs ht he =>
      by_cases hv : v = t
      · rw [hv, modify_self]
        exact congrArg (fun x => x.2.1) ha
      · rw [modify_of_ne _ hv]
  | @eventSet u h set hh hu =>
      by_cases hv : v = u
      · rw [hv, modify_self]
      · rw [modify_of_ne _ hv]
  | changed hm c => exact Changed.initPriority c v
  | woken hh hu he w => exact w.currentPriority.2

theorem Prims.initPriority (c : Prims o t k k') (v : ThreadId) :
    (k'.thread v).initPriority = (k.thread v).initPriority := by
  induction c with
  | refl => rfl
  | tail _ hp ih => exact (hp.initPriority v).trans ih

/-! ## Steps -/

theorem rtSchedule_prio (j : SchedInv k) (hk : k.rtSchedule = some k') (v : ThreadId) :
    (k'.thread v).currentPriority = (k.thread v).currentPriority ∧
      (k'.thread v).initPriority = (k.thread v).initPriority := by
  obtain ⟨st, b, he⟩ := rtSchedule_thread j hk v
  rw [he]
  exact ⟨rfl, rfl⟩

/-- No step changes the initial priority of a thread. -/
theorem Step.initPrio (hs : s.Step a s') (j : SysInv s) : s'.initPrio = s.initPrio := by
  funext v
  obtain ⟨t, r, x, rfl, hr, hx, rfl⟩ | ⟨t, c, e, r, rfl, hr, hpc, rfl⟩ |
    ⟨c, t, x, rfl, hc, ht, hx, rfl⟩ | ⟨t, k', rfl, ht, hk, rfl⟩ | ⟨t, p, rfl, hp, rfl⟩ |
    ⟨k', rfl, hk, rfl⟩ := Step.cases hs
  · obtain ⟨o, -, ok⟩ := sect_ok j hr hx
    have hd := ok.does
    cases hd with
    | go hp _ => exact hp.initPriority v
    | block hp _ _ _ _ b => exact b.currentPriority.2.trans (hp.initPriority v)
  · rfl
  · exact ((isr_ok j hc hx).prims t).initPriority v
  · obtain ⟨h, hh, hm, -, w⟩ := timeout_woken j ht hk
    exact w.currentPriority.2
  · exact Changed.initPriority (Changed.of_control j.wait.sched hp) v
  · exact (rtSchedule_prio j.wait.sched hk v).2

/-- A step that is at no mutex and no change by the application leaves all priorities alone. -/
theorem Step.prio (hs : s.Step a s') (j : SysInv s) (hm : ∀ i, s.actObj a ≠ some (.mutex i))
    (hc : ∀ t p, a ≠ .control t p) : s'.prio = s.prio := by
  funext v
  obtain ⟨t, r, x, rfl, hr, hx, rfl⟩ | ⟨t, c, e, r, rfl, hr, hpc, rfl⟩ |
    ⟨c, t, x, rfl, hc, ht, hx, rfl⟩ | ⟨t, k', rfl, ht, hk, rfl⟩ | ⟨t, p, rfl, hp, rfl⟩ |
    ⟨k', rfl, hk, rfl⟩ := Step.cases hs
  · obtain ⟨o, ho, ok⟩ := sect_ok j hr hx
    have hne : ∀ i, o ≠ .mutex i := fun i e => hm i (ho.trans (congrArg some e))
    have hd := ok.does
    cases hd with
    | go hp _ => exact hp.prio hne v
    | block hp _ _ _ _ b => exact b.currentPriority.1.trans (hp.prio hne v)
  · rfl
  · exact ((isr_ok j hc hx).prims t).prio (fun i e => hm i (congrArg some e)) v
  · obtain ⟨h, hh, hm, -, w⟩ := timeout_woken j ht hk
    exact w.currentPriority.1
  · exact absurd rfl (hc t p)
  · exact (rtSchedule_prio j.wait.sched hk v).1

/-! ## Steps at a mutex -/

/-- The effect of a step at mutex `i` on the owner, the saved priority, the wait list and the
priorities. -/
inductive MutexEffect (i : Nat) (s : Sys) : Action → Sys → Prop
  /-- the owner stays, and perhaps a thread stops waiting -/
  | quiet {a : Action} {s' : Sys} (hg : ∀ t, ¬ s.GivesUp i t a)
      (hv : (s'.ipc.mutex i).value = (s.ipc.mutex i).value)
      (ho : s'.owner i = s.owner i) (hs : s'.savedPrio i = s.savedPrio i)
      (hl : (s'.waiters i).Sublist (s.waiters i)) (hp : s'.prio = s.prio) :
      MutexEffect i s a s'
  /-- a thread takes the free mutex -/
  | take {t : ThreadId} {time : Int} {s' : Sys} (hv : 0 < (s.ipc.mutex i).value)
      (hv' : (s'.ipc.mutex i).value = (s.ipc.mutex i).value - 1) (ho : s'.owner i = some t)
      (hs : s'.savedPrio i = s.prio t) (hl : s'.waiters i = s.waiters i)
      (hp : s'.prio = s.prio) : MutexEffect i s (.run t (.call (.mutexTake i time))) s'
  /-- a thread waits, and raises the owner to its own priority -/
  | wait {t owner : ThreadId} {time : Int} {s' : Sys} (hne : owner ≠ t)
      (hown : s.owner i = some owner)
      (hv : (s'.ipc.mutex i).value = (s.ipc.mutex i).value) (ho : s'.owner i = s.owner i)
      (hs : s'.savedPrio i = s.savedPrio i)
      (hl : s'.waiters i = waitInsert s'.ipc.kernel t (s.ipc.mutex i).flag (s.waiters i))
      (hp : s'.prio = Function.update s.prio owner (min (s.prio owner) (s.prio t))) :
      MutexEffect i s (.run t (.call (.mutexTake i time))) s'
  /-- the owner gives the mutex to the first waiting thread -/
  | handOver {t u : ThreadId} {l : List ThreadId} {s' : Sys} (hown : s.owner i = some t)
      (hh : ((s.ipc.mutex i).hold + 255) % 2 ^ 8 = 0) (hw : s.waiters i = u :: l)
      (hv : (s'.ipc.mutex i).value = (s.ipc.mutex i).value) (ho : s'.owner i = some u)
      (hs : s'.savedPrio i = s'.prio u) (hl : s'.waiters i = l)
      (hp : s'.prio = Function.update s.prio t (s.savedPrio i)) :
      MutexEffect i s (.run t (.call (.mutexRelease i))) s'
  /-- the owner frees the mutex -/
  | free {t : ThreadId} {s' : Sys} (hown : s.owner i = some t)
      (hh : ((s.ipc.mutex i).hold + 255) % 2 ^ 8 = 0) (hw : s.waiters i = [])
      (hv : (s'.ipc.mutex i).value = ((s.ipc.mutex i).value + 1) % 2 ^ 16)
      (ho : s'.owner i = none) (hl : s'.waiters i = [])
      (hp : s'.prio = Function.update s.prio t (s.savedPrio i)) :
      MutexEffect i s (.run t (.call (.mutexRelease i))) s'

omit [RtConfig] in
/-- Neither the mutex nor a priority is changed. -/
theorem MutexEffect.same (hg : ∀ t, ¬ s.GivesUp i t a) (hm : s'.ipc.mutex i = s.ipc.mutex i)
    (hl : (s'.waiters i).Sublist (s.waiters i)) (hp : s'.prio = s.prio) :
    MutexEffect i s a s' :=
  .quiet hg (by rw [hm]) (congrArg Mutex.owner hm) (congrArg Mutex.originalPriority hm) hl hp

omit [RtConfig] in
theorem setError_prio {e : Err} : (fun v => ((k.setError t e).thread v).currentPriority) =
    fun v => (k.thread v).currentPriority := by
  funext v
  by_cases hv : v = t
  · rw [hv, setError_self]
  · rw [setError_of_ne hv]

/-- The restoring of the saved priority, whether it is changed by that or not. -/
theorem restored_prio
    (m : MayChange k t p (p ≠ (k.thread t).currentPriority) k') :
    (fun v => (k'.thread v).currentPriority) =
      Function.update (fun v => (k.thread v).currentPriority) t p := by
  rw [m.currentPriority]
  split_ifs with hc
  · rfl
  · rw [not_not.mp hc]

/-- The boost is the minimum of two priorities. -/
theorem boosted_prio {q : Nat}
    (m : MayChange k u q (q < (k.thread u).currentPriority) k') :
    (fun v => (k'.thread v).currentPriority) =
      Function.update (fun v => (k.thread v).currentPriority) u
        (min (k.thread u).currentPriority q) := by
  rw [m.currentPriority]
  congr 1
  split_ifs <;> omega

/-- The priorities after `rt_mutex_take` that waits. -/
theorem waiting_prio {q : Nat} {flag : Flag} {time : Int} {k₁ : Kernel}
    (m : MayChange (k.setError t .ok) u q (q < (k.thread u).currentPriority) k₁)
    (b : Blocked k₁ h t flag time k') : (fun v => (k'.thread v).currentPriority) =
      Function.update (fun v => (k.thread v).currentPriority) u (min (k.thread u).currentPriority q) := by
  have hcur : ∀ v, ((k.setError t .ok).thread v).currentPriority = (k.thread v).currentPriority :=
    congrFun setError_prio
  funext v
  rw [← hcur u] at m
  rw [b.currentPriority.1, congrFun (boosted_prio m) v, hcur u]
  exact congrFun (congrArg (Function.update · u _) (funext hcur)) v

/-- **The effect of a step at a mutex.** -/
theorem mutexEffect (hs : s.Step a s') (j : SysInv s) (ha : s.actObj a = some (.mutex i)) :
    MutexEffect i s a s' := by
  have hwl : (ListHead.suspend (.mutex i)).IsWait := ⟨_, Or.inl rfl⟩
  cases mutexStep hs j ha with
  | again hr hp ho =>
      refine .quiet ?_ ?_ ?_ ?_ (List.Sublist.refl _) setError_prio
      · simp [Sys.GivesUp]
      · simp
      · simp [Sys.owner]
      · simp [Sys.savedPrio]
  | @take t time hr hp ho hv =>
      refine .take (t := t) hv ?_ ?_ ?_ rfl setError_prio
      · simp
      · simp [Sys.owner]
      · simp [Sys.savedPrio, Sys.prio]
  | busy hr hp ho hv =>
      exact .same (by simp [Sys.GivesUp]) rfl (List.Sublist.refl _)
        (setError_prio.trans setError_prio)
  | @wait t owner time k k' hr hp hne ho hv htime m b =>
      refine .wait hne ho rfl rfl rfl ?_ ?_
      · show k'.lists _ = _
        rw [b.list, m.wait hwl]
        exact (waitInsert_congr (fun v => b.currentPriority.1) _ _).symm
      · exact waiting_prio m b
  | notOwner hr hp ho =>
      refine .same (fun u hg => ho ?_) rfl (List.Sublist.refl _) setError_prio
      obtain ⟨he, ho', -⟩ := hg
      cases he
      exact ho'
  | nested hr hp ho hh =>
      refine .quiet (fun u hg => hh hg.2.2) ?_ ?_ ?_ (List.Sublist.refl _) rfl
      · simp
      · simp [Sys.owner]
      · simp [Sys.savedPrio]
  | @handOver t u l k k' hr hp ho hh m hl w =>
      have hu : u ∈ k.lists (.suspend (.mutex i)) := by
        rw [m.wait hwl, hl]
        exact List.mem_cons_self
      refine .handOver ho hh hl ?_ ?_ ?_ ?_ ?_
      · simp
      · simp [Sys.owner]
      · simp only [Sys.savedPrio, setMutex_self]
        exact w.currentPriority.1.symm
      · show k'.lists _ = l
        rw [w.list, m.wait hwl, hl, List.erase_cons_head]
      · funext v
        exact (w.currentPriority.1.trans (congrFun (restored_prio m) v))
  | @free t k hr hp ho hh m hl =>
      refine .free ho hh hl ?_ ?_ ?_ (restored_prio m)
      · simp
      · simp [Sys.owner]
      · exact (m.wait hwl).trans hl
  | resumed hr hp => exact .same (by simp [Sys.GivesUp]) rfl (List.Sublist.refl _) rfl
  | ret hr hp hc => exact .same (by simp [Sys.GivesUp]) rfl (List.Sublist.refl _) rfl
  | @timeout t time k' hp hm w =>
      refine .same (by simp [Sys.GivesUp]) rfl ?_ (funext fun v => w.currentPriority.1)
      show (k'.lists _).Sublist _
      rw [w.list]
      exact List.erase_sublist

/-- A step at another object changes nothing of a mutex. -/
theorem Step.mutexFrame (hs : s.Step a s') (j : SysInv s) (ha : s.actObj a ≠ some (.mutex i)) :
    s'.ipc.mutex i = s.ipc.mutex i ∧ s'.waiters i = s.waiters i := by
  have f := Step.frame hs j ha
  exact ⟨f.same, f.lists _ (Or.inl rfl)⟩

/-! ## The owner does not wait -/

/-- A mutex is free and nobody waits for it, or it has an owner, who does not wait for it. -/
inductive Held (i : Nat) (s : Sys) : Prop
  | free (hv : (s.ipc.mutex i).value = 1) (ho : s.owner i = none) (hl : s.waiters i = [])
  | owned {t : ThreadId} (hv : (s.ipc.mutex i).value = 0) (ho : s.owner i = some t)
      (hl : t ∉ s.waiters i)

omit [RtConfig] in
theorem Held.not_mem (h : Held i s) (ho : s.owner i = some t) : t ∉ s.waiters i := by
  cases h with
  | free _ ho' _ => simp [ho'] at ho
  | owned _ ho' hl =>
      obtain rfl := Option.some.inj (ho'.symm.trans ho)
      exact hl

omit [RtConfig] in
theorem Held.free_of_value (h : Held i s) (hv : 0 < (s.ipc.mutex i).value) :
    (s.ipc.mutex i).value = 1 ∧ s.owner i = none ∧ s.waiters i = [] := by
  cases h with
  | free hv' ho hl => exact ⟨hv', ho, hl⟩
  | owned hv' _ _ => omega

omit [RtConfig] in
theorem Held.value_of_owner (h : Held i s) (ho : s.owner i = some t) :
    (s.ipc.mutex i).value = 0 := by
  cases h with
  | free _ ho' _ => simp [ho'] at ho
  | owned hv _ _ => exact hv

omit [RtConfig] in
theorem MutexEffect.held (e : MutexEffect i s a s') (h : Held i s)
    (hnd : (s.waiters i).Nodup) : Held i s' := by
  cases e with
  | quiet hg hv ho hs hl hp =>
      cases h with
      | free hv' ho' hl' => exact .free (hv.trans hv') (ho.trans ho') (List.sublist_nil.mp (hl' ▸ hl))
      | owned hv' ho' hl' => exact .owned (hv.trans hv') (ho.trans ho') fun hm => hl' (hl.subset hm)
  | @take t _ _ hv hv' ho hs hl hp =>
      obtain ⟨h1, -, hnil⟩ := h.free_of_value hv
      refine .owned (t := t) (by omega) ho ?_
      rw [hl, hnil]
      exact List.not_mem_nil
  | @wait t owner time _ hne hown hv ho hs hl hp =>
      refine .owned (hv.trans (h.value_of_owner hown)) (ho.trans hown) fun hm => ?_
      rw [hl, (waitInsert_perm _ t _ _).mem_iff, List.mem_cons] at hm
      exact hm.elim hne (h.not_mem hown)
  | @handOver t u l _ hown hh hw hv ho hs hl hp =>
      refine .owned (hv.trans (h.value_of_owner hown)) ho ?_
      rw [hl]
      rw [hw] at hnd
      exact (List.nodup_cons.mp hnd).1
  | free hown hh hw hv ho hl hp =>
      refine .free ?_ ho hl
      rw [hv, h.value_of_owner hown]
      norm_num

theorem Step.held (hs : s.Step a s') (j : SysInv s) (h : Held i s) : Held i s' := by
  by_cases ha : s.actObj a = some (.mutex i)
  · exact (mutexEffect hs j ha).held h (j.wait.sched.nodup _)
  · obtain ⟨hm, hl⟩ := Step.mutexFrame hs j ha
    cases h with
    | free hv ho hn => exact .free (hm ▸ hv) (by rw [Sys.owner, hm]; exact ho) (hl.trans hn)
    | owned hv ho hn =>
        exact .owned (hm ▸ hv) (by rw [Sys.owner, hm]; exact ho) (by rwa [hl])

theorem Sys.Init.held (h : s.Init) (i : Nat) : Held i s := by
  obtain ⟨flag, hm⟩ := h.mutex i
  exact .free (by rw [hm]) (by rw [Sys.owner, hm]) (h.wait _ ⟨_, Or.inl rfl⟩)

end

end RTThread.Ipc
