import RTThread.Ipc.MutexSteps
import RTThread.Ipc.Start

set_option autoImplicit false

/-! # Mutual exclusion

A mutex has at most one owner, and its hold counter is the number of takes of the owner that have
been granted, less its releases. A take is granted before it returns: the thread that releases the
mutex hands it to the first waiting thread, which may not have run yet.
-/

namespace RTThread.Ipc

open Kernel Trans

/-! ## Counting -/

/-- The step is the return of RT_EOK from an `rt_mutex_take` of the thread. -/
def takenBy (i : Nat) (s : Sys) (u : ThreadId) : Action → Bool
  | .ret t => match s.pc t with
    | .ret (.mutexTake j _) .ok _ => t = u && j = i
    | _ => false
  | _ => false

/-- The step is an `rt_mutex_release` of the thread, with the result RT_EOK. -/
def releasedBy (i : Nat) (s' : Sys) (u : ThreadId) : Action → Bool
  | .run t (.call (.mutexRelease j)) =>
    t = u && j = i && s'.pc t = .ret (.mutexRelease j) .ok .none
  | _ => false

/-- A run that counts, for each thread, the takes that have returned RT_EOK and the releases. -/
structure MutexRun where
  sys : Sys
  taken : ThreadId → Nat
  released : ThreadId → Nat

/-- A take by a thread that has taken the mutex 255 times. -/
def tooDeep (i : Nat) (S : MutexRun) : Action → Bool
  | .run t (.call (.mutexTake j _)) => j = i && S.released t + 255 ≤ S.taken t
  | _ => false

/-- What the thread holds of the mutex. -/
def holdOf (i : Nat) (s : Sys) (t : ThreadId) : Nat :=
  if (s.ipc.mutex i).owner = some t then (s.ipc.mutex i).hold else 0

section

variable [RtConfig] {i n n' m m' : Nat} {s s' : Sys} {S S' : MutexRun} {a : Action}
  {t u v : ThreadId} {taken released : ThreadId → Nat} {time : Int} {e : Err} {r : Reply}

def MutexRun.Init (S : MutexRun) : Prop := S.sys.Init ∧ ∀ t, S.taken t = 0 ∧ S.released t = 0

/-- Every step, with recursion depth at most 255. -/
def MutexRun.exec (i : Nat) (S : MutexRun) (a : Action) : Option MutexRun :=
  if tooDeep i S a then none
  else (S.sys.exec a).map fun s' => {
    sys := s'
    taken := fun t => S.taken t + if takenBy i S.sys t a then 1 else 0
    released := fun t => S.released t + if releasedBy i s' t a then 1 else 0 }

def MutexRun.Step (i : Nat) (S : MutexRun) (a : Action) (S' : MutexRun) : Prop :=
  S.exec i a = some S'

/-- Nobody owns the mutex. -/
structure Unlocked (i : Nat) (s : Sys) : Prop where
  value : (s.ipc.mutex i).value = 1
  owner : (s.ipc.mutex i).owner = none
  hold : (s.ipc.mutex i).hold = 0
  wait : s.ipc.kernel.lists (.suspend (.mutex i)) = []

/-- The thread owns the mutex. -/
structure Locked (i : Nat) (s : Sys) (t : ThreadId) : Prop where
  value : (s.ipc.mutex i).value = 0
  owner : (s.ipc.mutex i).owner = some t
  hold : 0 < (s.ipc.mutex i).hold ∧ (s.ipc.mutex i).hold ≤ 255

/-- A thread with `n` takes returned and `m` releases. -/
structure Holds (i : Nat) (s : Sys) (n m : Nat) (t : ThreadId) : Prop where
  /-- one take more is granted while it is about to return -/
  granting : Granted (.suspend (.mutex i)) s t → holdOf i s t + m = n + 1
  returned : ¬ Granted (.suspend (.mutex i)) s t → holdOf i s t + m = n
  granted : Granted (.suspend (.mutex i)) s t → (s.ipc.mutex i).owner = some t
  failed : Failed (.suspend (.mutex i)) s t → (s.ipc.mutex i).owner ≠ some t
  waiting : t ∈ s.ipc.kernel.lists (.suspend (.mutex i)) → (s.ipc.mutex i).owner ≠ some t

/-- At most one owner, and the counts of all threads. -/
structure Exclusive (i : Nat) (s : Sys) (taken released : ThreadId → Nat) : Prop where
  state : Unlocked i s ∨ ∃ t, Locked i s t
  holds : ∀ t, Holds i s (taken t) (released t) t

/-! ## One thread -/

section

omit [RtConfig]

theorem holdOf_owner (ho : (s.ipc.mutex i).owner = some t) :
    holdOf i s t = (s.ipc.mutex i).hold := if_pos ho

theorem holdOf_of_ne (ho : (s.ipc.mutex i).owner ≠ some t) : holdOf i s t = 0 := if_neg ho

/-- Nothing changes for the thread. -/
theorem Holds.congr (h : Holds i s n m t)
    (ho : (s'.ipc.mutex i).owner = some t ↔ (s.ipc.mutex i).owner = some t)
    (hh : (s.ipc.mutex i).owner = some t → (s'.ipc.mutex i).hold = (s.ipc.mutex i).hold)
    (hg : (Granted (.suspend (.mutex i)) s' t ↔ Granted (.suspend (.mutex i)) s t) ∧
      (Failed (.suspend (.mutex i)) s' t ↔ Failed (.suspend (.mutex i)) s t))
    (hl : t ∈ s'.ipc.kernel.lists (.suspend (.mutex i)) →
      t ∈ s.ipc.kernel.lists (.suspend (.mutex i))) : Holds i s' n m t := by
  have hhold : holdOf i s' t = holdOf i s t := by
    by_cases hown : (s.ipc.mutex i).owner = some t
    · rw [holdOf_owner hown, holdOf_owner (ho.mpr hown), hh hown]
    · rw [holdOf_of_ne hown, holdOf_of_ne fun h => hown (ho.mp h)]
  refine ⟨fun h1 => ?_, fun h1 => ?_, fun h1 => ?_, fun h1 => ?_, fun h1 => ?_⟩
  · rw [hhold]
    exact h.granting (hg.1.mp h1)
  · rw [hhold]
    exact h.returned fun h2 => h1 (hg.1.mpr h2)
  · exact ho.mpr (h.granted (hg.1.mp h1))
  · exact fun h2 => h.failed (hg.2.mp h1) (ho.mp h2)
  · exact fun h2 => h.waiting (hl h1) (ho.mp h2)

/-- The thread is granted the mutex. -/
theorem Holds.grant (hg : Granted (.suspend (.mutex i)) s t)
    (ho : (s.ipc.mutex i).owner = some t) (hn : (s.ipc.mutex i).hold + m = n + 1)
    (hl : t ∉ s.ipc.kernel.lists (.suspend (.mutex i))) : Holds i s n m t := by
  have hf : ¬ Failed (.suspend (.mutex i)) s t := fun hf => by
    unfold Granted at hg
    unfold Failed at hf
    cases hp : s.pc t <;> simp_all
  refine ⟨fun _ => ?_, fun h1 => absurd hg h1, fun _ => ho, fun h1 => absurd h1 hf,
    fun h1 => absurd h1 hl⟩
  rw [holdOf_owner ho]
  exact hn

/-- The thread is about to return nothing from `rt_mutex_take`. -/
theorem Holds.quiet (hg : ¬ Granted (.suspend (.mutex i)) s t)
    (hf : ¬ Failed (.suspend (.mutex i)) s t) (hn : holdOf i s t + m = n)
    (hl : t ∈ s.ipc.kernel.lists (.suspend (.mutex i)) → (s.ipc.mutex i).owner ≠ some t) :
    Holds i s n m t :=
  ⟨fun h1 => absurd h1 hg, fun _ => hn, fun h1 => absurd h1 hg, fun h1 => absurd h1 hf, hl⟩

/-- The thread does not own the mutex. -/
theorem Holds.outside (hg : ¬ Granted (.suspend (.mutex i)) s t)
    (ho : (s.ipc.mutex i).owner ≠ some t) (hn : m = n) : Holds i s n m t := by
  refine ⟨fun h1 => absurd h1 hg, fun _ => ?_, fun h1 => absurd h1 hg, fun _ => ho, fun _ => ho⟩
  rw [holdOf_of_ne ho]
  omega

theorem Holds.idle (h : Holds i s n m t) (hp : s.pc t = .idle) : holdOf i s t + m = n :=
  h.returned (granted_idle hp).1

/-- The owner of a mutex that is not free. -/
theorem Exclusive.locked (h : Exclusive i s taken released)
    (ho : (s.ipc.mutex i).owner = some t) : Locked i s t := by
  obtain h1 | ⟨u, h1⟩ := h.state
  · rw [h1.owner] at ho
    cases ho
  · obtain rfl : u = t := Option.some.inj (h1.owner.symm.trans ho)
    exact h1

theorem Exclusive.unlocked (h : Exclusive i s taken released) (hv : 0 < (s.ipc.mutex i).value) :
    Unlocked i s := by
  obtain h1 | ⟨u, h1⟩ := h.state
  · exact h1
  · rw [h1.value] at hv
    cases hv

/-- The state of the mutex is the same. -/
theorem Exclusive.state_congr (h : Exclusive i s taken released)
    (hm : s'.ipc.mutex i = s.ipc.mutex i)
    (hl : s.ipc.kernel.lists (.suspend (.mutex i)) = [] ∧ (s.ipc.mutex i).owner = none →
      s'.ipc.kernel.lists (.suspend (.mutex i)) = []) : Unlocked i s' ∨ ∃ t, Locked i s' t := by
  obtain h1 | ⟨u, h1⟩ := h.state
  · refine Or.inl ⟨?_, ?_, ?_, hl ⟨h1.wait, h1.owner⟩⟩ <;> rw [hm]
    · exact h1.value
    · exact h1.owner
    · exact h1.hold
  · refine Or.inr ⟨u, ?_, ?_, ?_⟩ <;> rw [hm]
    · exact h1.value
    · exact h1.owner
    · exact h1.hold

theorem takenBy_of_ne (hv : v ≠ t) : takenBy i s v (.ret t) = false := by
  unfold takenBy
  dsimp only
  split
  · simp [Ne.symm hv]
  · rfl

/-- A call takes the mutex when it returns with the mutex granted to its thread. -/
theorem takenBy_ret {c : Call} {e : Err} {r : Reply} (hp : s.pc t = .ret c e r) :
    takenBy i s t (.ret t) = true ↔ Granted (.suspend (.mutex i)) s t := by
  constructor
  · intro htaken
    refine (granted_ret hp).1.mpr ?_
    unfold takenBy at htaken
    dsimp only at htaken
    rw [hp] at htaken
    cases c <;> cases e <;> simp_all [Call.waitsOn]
  · intro hg
    obtain ⟨hw, rfl⟩ := (granted_ret hp).1.mp hg
    unfold takenBy
    dsimp only
    rw [hp]
    cases c <;> simp_all [Call.waitsOn]

end

/-! ## One step -/

/-- A step that is not about the mutex. -/
theorem frame_exclusive (hs : s.Step a s') (j : SysInv s) (ha : s.actObj a ≠ some (.mutex i))
    (h : Exclusive i s taken released) : Exclusive i s'
      (fun t => taken t + if takenBy i s t a then 1 else 0)
      (fun t => released t + if releasedBy i s' t a then 1 else 0) := by
  have f := Step.frame hs j ha
  have hm : s'.ipc.mutex i = s.ipc.mutex i := f.same
  have hlist := f.lists (.suspend (.mutex i)) (Or.inl rfl)
  have ht : ∀ t, takenBy i s t a = false := by
    intro t
    by_contra ht
    refine ha ?_
    unfold takenBy at ht
    split at ht
    · split at ht <;> simp_all [Sys.actObj, Pc.obj, Call.obj]
    · simp at ht
  have hr : ∀ t, releasedBy i s' t a = false := by
    intro t
    by_contra hr
    refine ha ?_
    unfold releasedBy at hr
    split at hr <;> simp_all [Sys.actObj, Call.obj]
  refine ⟨h.state_congr hm fun hl => by rw [hlist]; exact hl.1, fun v => ?_⟩
  simp only [ht, hr, Bool.false_eq_true, if_false, Nat.add_zero]
  exact (h.holds v).congr (by rw [hm]) (fun _ => by rw [hm]) (f.granted (Or.inl rfl) v)
    (by rw [hlist]; exact id)

/-- **One step.** -/
theorem step_exclusive (hs : s.Step a s') (j : SysInv s) (h : Exclusive i s taken released)
    (hd : tooDeep i ⟨s, taken, released⟩ a = false) : Exclusive i s'
      (fun t => taken t + if takenBy i s t a then 1 else 0)
      (fun t => released t + if releasedBy i s' t a then 1 else 0) := by
  by_cases ha : s.actObj a = some (.mutex i)
  swap
  · exact frame_exclusive hs j ha h
  have hwl : ListHead.IsWait (.suspend (.mutex i)) := ⟨_, Or.inl rfl⟩
  cases mutexStep hs j ha with
  | @again t time hr hp ho =>
      have l := h.locked ho
      have hidle := (h.holds t).idle hp
      rw [holdOf_owner ho] at hidle
      have hlt : (s.ipc.mutex i).hold + 1 < 2 ^ 8 := by
        simp [tooDeep] at hd
        omega
      refine ⟨Or.inr ⟨t, ?_⟩, fun v => ?_⟩
      · refine ⟨?_, ?_, ?_⟩ <;> simp only [setMutex_self, Nat.mod_eq_of_lt hlt]
        · exact l.value
        · exact ho
        · omega
      · simp only [takenBy, releasedBy, Bool.false_eq_true, if_false, Nat.add_zero]
        by_cases hv : v = t
        · subst hv
          refine .grant ((granted_ret (Function.update_self ..)).1.mpr ⟨rfl, rfl⟩) ?_ ?_ ?_
          · simpa using ho
          · simp only [setMutex_self, Nat.mod_eq_of_lt hlt]
            omega
          · exact j.wait.sched.running_not_mem hr.2
        · refine (h.holds v).congr (by simp) (fun h1 => ?_) (granted_other hv Iff.rfl ?_) id
          · exact absurd (Option.some.inj (h1.symm.trans ho)) hv
          · simp [setError, modify_of_ne _ hv]
  | @take t time hr hp ho hv =>
      have l := h.unlocked hv
      have hidle := (h.holds t).idle hp
      rw [holdOf_of_ne ho] at hidle
      refine ⟨Or.inr ⟨t, ?_⟩, fun v => ?_⟩
      · refine ⟨?_, ?_, ?_⟩ <;> simp [l.value, l.hold]
      · simp only [takenBy, releasedBy, Bool.false_eq_true, if_false, Nat.add_zero]
        by_cases hvt : v = t
        · subst hvt
          refine .grant ((granted_ret (Function.update_self ..)).1.mpr ⟨rfl, rfl⟩) ?_ ?_ ?_
          · simp
          · simp only [setMutex_self, l.hold]
            omega
          · exact j.wait.sched.running_not_mem hr.2
        · refine (h.holds v).congr ?_ (fun h1 => ?_) (granted_other hvt Iff.rfl ?_) id
          · rw [l.owner]
            simp [Ne.symm hvt]
          · rw [l.owner] at h1
            cases h1
          · simp [setError, modify_of_ne _ hvt]
  | @busy t hr hp ho hv =>
      have hidle := (h.holds t).idle hp
      rw [holdOf_of_ne ho] at hidle
      refine ⟨h.state_congr rfl fun hl => hl.1, fun v => ?_⟩
      simp only [takenBy, releasedBy, Bool.false_eq_true, if_false, Nat.add_zero]
      by_cases hvt : v = t
      · subst hvt
        refine .outside (fun hg => ?_) ho (by omega)
        have he := ((granted_ret (Function.update_self ..)).1.mp hg).2
        cases he
      · refine (h.holds v).congr Iff.rfl (fun _ => rfl) (granted_other hvt Iff.rfl ?_) id
        simp [setError, modify_of_ne _ hvt]
  | @wait t owner time k k' hr hp hne ho hv htime mc b =>
      have hnot : (s.ipc.mutex i).owner ≠ some t := fun h1 =>
        hne (Option.some.inj (ho.symm.trans h1))
      have hidle := (h.holds t).idle hp
      rw [holdOf_of_ne hnot] at hidle
      have hmem : ∀ v, v ∈ k'.lists (.suspend (.mutex i)) ↔
          v ∈ s.ipc.kernel.lists (.suspend (.mutex i)) ∨ v = t := by
        intro v
        rw [b.mem_iff hwl, mc.wait hwl]
        simp [setError]
      refine ⟨h.state_congr rfl fun hl => ?_, fun v => ?_⟩
      · rw [ho] at hl
        cases hl.2
      · simp only [takenBy, releasedBy, Bool.false_eq_true, if_false, Nat.add_zero]
        by_cases hvt : v = t
        · subst hvt
          refine .outside (fun hg => ?_) hnot (by omega)
          refine ((granted_wait (Function.update_self ..)).1.mp hg).2.1 ?_
          exact (hmem v).mpr (Or.inr rfl)
        · refine (h.holds v).congr Iff.rfl (fun _ => rfl)
            (granted_other hvt ((hmem v).trans (or_iff_left hvt)) ?_)
            fun h1 => ((hmem v).mp h1).resolve_right hvt
          show (k'.thread v).error = _
          rw [b.thread v hvt, mc.fields.2.1]
          simp [setError, modify_of_ne _ hvt]
  | @notOwner t hr hp ho =>
      have hidle := (h.holds t).idle hp
      rw [holdOf_of_ne ho] at hidle
      refine ⟨h.state_congr rfl fun hl => hl.1, fun v => ?_⟩
      by_cases hvt : v = t
      · subst hvt
        have hrel : releasedBy i ⟨s.ipc.setKernel (s.ipc.kernel.setError v .error),
            Function.update s.pc v (.ret (.mutexRelease i) .error .none)⟩ v
            (.run v (.call (.mutexRelease i))) = false := by
          simp [releasedBy]
        simp only [takenBy, hrel, Bool.false_eq_true, if_false, Nat.add_zero]
        refine .outside (fun hg => ?_) ho (by omega)
        have he := ((granted_ret (Function.update_self ..)).1.mp hg).2
        cases he
      · simp only [takenBy, releasedBy, Ne.symm hvt, decide_false, Bool.false_and,
          Bool.false_eq_true, if_false, Nat.add_zero]
        refine (h.holds v).congr Iff.rfl (fun _ => rfl) (granted_other hvt Iff.rfl ?_) id
        simp [setError, modify_of_ne _ hvt]
  | @nested t hr hp ho hh =>
      have l := h.locked ho
      have hidle := (h.holds t).idle hp
      rw [holdOf_owner ho] at hidle
      have hhold := l.hold
      refine ⟨Or.inr ⟨t, ?_⟩, fun v => ?_⟩
      · refine ⟨?_, ?_, ?_⟩ <;> simp only [setMutex_self]
        · exact l.value
        · exact ho
        · omega
      · by_cases hvt : v = t
        · subst hvt
          simp only [takenBy, releasedBy, Function.update_self, decide_true, Bool.and_self,
            Bool.false_eq_true, if_false, Nat.add_zero, if_true]
          refine .quiet (fun hg => ?_) (fun hf => ?_) ?_ fun hm => ?_
          · have hw := ((granted_ret (Function.update_self ..)).1.mp hg).1
            cases hw
          · have hw := ((granted_ret (Function.update_self ..)).2.mp hf).1
            cases hw
          · rw [holdOf_owner (by simpa using ho)]
            simp only [setMutex_self]
            omega
          · exact absurd hm (j.wait.sched.running_not_mem hr.2)
        · simp only [takenBy, releasedBy, Ne.symm hvt, decide_false, Bool.false_and,
            Bool.false_eq_true, if_false, Nat.add_zero]
          refine (h.holds v).congr (by simp) (fun h1 => ?_) (granted_other hvt Iff.rfl rfl) id
          exact absurd (Option.some.inj (h1.symm.trans ho)) hvt
  | @handOver t u l k k' hr hp ho hh mc hl w =>
      have lo := h.locked ho
      have hhold := lo.hold
      have hidle := (h.holds t).idle hp
      rw [holdOf_owner ho] at hidle
      have hu : u ∈ s.ipc.kernel.lists (.suspend (.mutex i)) := by
        rw [hl]
        exact List.mem_cons_self
      have hu' : u ∈ k.lists (.suspend (.mutex i)) := by rwa [mc.wait hwl]
      have hnot := (h.holds u).waiting hu
      have hut : u ≠ t := fun e => hnot (e ▸ ho)
      obtain ⟨time, hpu⟩ := mutexWaiter (j.wait.waits u _ hwl hu)
      have hng : ¬ Granted (.suspend (.mutex i)) s u := fun hg =>
        ((granted_wait hpu).1.mp hg).2.1 hu
      have hreturn := (h.holds u).returned hng
      rw [holdOf_of_ne hnot] at hreturn
      have hmem : ∀ v, v ∈ k'.lists (.suspend (.mutex i)) ↔
          v ∈ s.ipc.kernel.lists (.suspend (.mutex i)) ∧ v ≠ u := by
        intro v
        rw [w.mem_iff (mc.sched j.wait.sched) hwl hu', mc.wait hwl]
      have herr : ∀ v, (k'.thread v).error = (s.ipc.kernel.thread v).error := fun v =>
        (w.error (Or.inr rfl)).trans mc.fields.2.1
      refine ⟨Or.inr ⟨u, by simp [lo.value], by simp, by simp⟩, fun v => ?_⟩
      by_cases hvt : v = t
      · subst hvt
        simp only [takenBy, releasedBy, Function.update_self, decide_true, Bool.and_self,
          Bool.false_eq_true, if_false, Nat.add_zero, if_true]
        refine .outside (fun hg => ?_) (by simpa using hut) (by omega)
        have hw := ((granted_ret (Function.update_self ..)).1.mp hg).1
        cases hw
      · simp only [takenBy, releasedBy, Ne.symm hvt, decide_false, Bool.false_and,
          Bool.false_eq_true, if_false, Nat.add_zero]
        by_cases hvu : v = u
        · subst hvu
          refine .grant ?_ (by simp) (by simp only [setMutex_self]; omega) ?_
          · refine (granted_wait ((Function.update_of_ne hvt ..).trans hpu)).1.mpr
              ⟨rfl, fun hm => ((hmem v).mp hm).2 rfl, (herr v).trans ?_⟩
            exact j.wait.error v _ hwl hu
          · exact fun hm => ((hmem v).mp hm).2 rfl
        · refine (h.holds v).congr ?_ (fun h1 => ?_)
            (granted_other hvt ((hmem v).trans (and_iff_left hvu)) (herr v))
            fun hm => ((hmem v).mp hm).1
          · rw [ho]
            simp [Ne.symm hvu, Ne.symm hvt]
          · exact absurd (Option.some.inj (h1.symm.trans ho)) hvt
  | @free t k hr hp ho hh mc hl =>
      have lo := h.locked ho
      have hhold := lo.hold
      have hidle := (h.holds t).idle hp
      rw [holdOf_owner ho] at hidle
      refine ⟨Or.inl ⟨by simp [lo.value], by simp, by simp, ?_⟩, fun v => ?_⟩
      · exact (mc.wait hwl).trans hl
      · by_cases hvt : v = t
        · subst hvt
          simp only [takenBy, releasedBy, Function.update_self, decide_true, Bool.and_self,
            Bool.false_eq_true, if_false, Nat.add_zero, if_true]
          refine .outside (fun hg => ?_) (by simp) (by omega)
          have hw := ((granted_ret (Function.update_self ..)).1.mp hg).1
          cases hw
        · simp only [takenBy, releasedBy, Ne.symm hvt, decide_false, Bool.false_and,
            Bool.false_eq_true, if_false, Nat.add_zero]
          have hmem : v ∈ k.lists (.suspend (.mutex i)) ↔
              v ∈ s.ipc.kernel.lists (.suspend (.mutex i)) := by rw [mc.wait hwl]
          refine (h.holds v).congr ?_ (fun h1 => ?_) (granted_other hvt hmem mc.fields.2.1) hmem.mp
          · rw [ho]
            simp [Ne.symm hvt]
          · exact absurd (Option.some.inj (h1.symm.trans ho)) hvt
  | @resumed t time delta hr hp =>
      refine ⟨h.state_congr rfl fun hl => hl.1, fun v => ?_⟩
      simp only [takenBy, releasedBy, Bool.false_eq_true, if_false, Nat.add_zero]
      refine (h.holds v).congr Iff.rfl (fun _ => rfl) ?_ id
      by_cases hvt : v = t
      · subst hvt
        have hnot := j.wait.sched.running_not_mem (h := .suspend (.mutex i)) hr.2
        have hret := granted_ret (h := .suspend (.mutex i))
          (s := ⟨s.ipc, Function.update s.pc v (.ret (.mutexTake i time)
            (s.ipc.kernel.thread v).error .none)⟩) (Function.update_self ..)
        rw [hret.1, hret.2, (granted_wait hp).1, (granted_wait hp).2]
        simp [hnot]
      · exact granted_other hvt Iff.rfl rfl
  | @ret t c e r hr hp hc =>
      refine ⟨h.state_congr rfl fun hl => hl.1, fun v => ?_⟩
      simp only [releasedBy, Bool.false_eq_true, if_false, Nat.add_zero]
      by_cases hvt : v = t
      · subst hvt
        have hidle := granted_idle (s := s.move v .idle) (h := .suspend (.mutex i))
          (Function.update_self ..)
        refine .quiet hidle.1 hidle.2 ?_ fun hm => ?_
        · show holdOf i s v + released v = _
          by_cases hg : Granted (.suspend (.mutex i)) s v
          · rw [(takenBy_ret hp).mpr hg]
            exact (h.holds v).granting hg
          · rw [Bool.eq_false_of_not_eq_true fun ht => hg ((takenBy_ret hp).mp ht)]
            exact (h.holds v).returned hg
        · exact absurd hm (j.wait.sched.running_not_mem hr.2)
      · rw [takenBy_of_ne hvt]
        exact (h.holds v).congr Iff.rfl (fun _ => rfl) (granted_other hvt Iff.rfl rfl) id
  | @timeout t time k' hp hm w =>
      have hnot := (h.holds t).waiting hm
      have hng : ¬ Granted (.suspend (.mutex i)) s t := fun hg =>
        ((granted_wait hp).1.mp hg).2.1 hm
      have hreturn := (h.holds t).returned hng
      rw [holdOf_of_ne hnot] at hreturn
      have hmem : ∀ v, v ∈ k'.lists (.suspend (.mutex i)) ↔
          v ∈ s.ipc.kernel.lists (.suspend (.mutex i)) ∧ v ≠ t := fun v =>
        w.mem_iff j.wait.sched hwl hm
      refine ⟨h.state_congr rfl fun hl => ?_, fun v => ?_⟩
      · rw [hl.1] at hm
        cases hm
      · simp only [takenBy, releasedBy, Bool.false_eq_true, if_false, Nat.add_zero]
        by_cases hvt : v = t
        · subst hvt
          refine .outside (fun hg => ?_) hnot (by omega)
          have he := ((granted_wait (s := s.setKernel k') hp).1.mp hg).2.2
          rw [show ((s.setKernel k').ipc.kernel.thread v).error = .etimeout by
            show (k'.thread v).error = _
            rw [w.self]] at he
          cases he
        · refine (h.holds v).congr Iff.rfl (fun _ => rfl) ?_ fun h1 => ((hmem v).mp h1).1
          refine granted_congr (s := s) (q := s.setKernel k') rfl
            ((hmem v).trans (and_iff_left hvt)) ?_
          show (k'.thread v).error = _
          rw [w.thread v hvt]

/-! ## Runs -/

theorem MutexRun.exec_cases (h : S.exec i a = some S') :
    tooDeep i S a = false ∧ S.sys.Step a S'.sys ∧
      S'.taken = (fun t => S.taken t + if takenBy i S.sys t a then 1 else 0) ∧
      S'.released = fun t => S.released t + if releasedBy i S'.sys t a then 1 else 0 := by
  unfold MutexRun.exec at h
  by_cases hd : tooDeep i S a = true
  · rw [if_pos hd] at h
    cases h
  · rw [if_neg hd] at h
    obtain ⟨s', hs, rfl⟩ := Option.map_eq_some_iff.mp h
    exact ⟨by simpa using hd, hs, rfl, rfl⟩

theorem MutexRun.reachable_sys (h : Reachable MutexRun.Init (MutexRun.Step i) S) :
    Reachable Sys.Init Sys.Step S.sys := by
  induction h with
  | init h => exact .init h.1
  | step _ hs ih => exact ih.step (MutexRun.exec_cases hs).2.1

theorem MutexRun.Init.exclusive (h : S.Init) : Exclusive i S.sys S.taken S.released := by
  obtain ⟨flag, hm⟩ := h.1.mutex i
  have hl := h.1.wait (.suspend (.mutex i)) ⟨_, Or.inl rfl⟩
  refine ⟨Or.inl ⟨by rw [hm], by rw [hm], by rw [hm], hl⟩, fun t => ?_⟩
  refine .outside (granted_idle (h.1.idle t)).1 (by rw [hm]; simp) ?_
  rw [(h.2 t).1, (h.2 t).2]

theorem exclusive_of_reachable (h : Reachable MutexRun.Init (MutexRun.Step i) S) :
    Exclusive i S.sys S.taken S.released := by
  refine h.invariant (I := fun S => Exclusive i S.sys S.taken S.released)
    (fun _ hi => hi.exclusive) fun S a S' hr hi hs => ?_
  obtain ⟨hd, hs', h1, h2⟩ := MutexRun.exec_cases hs
  rw [h1, h2]
  exact step_exclusive hs' (sysInv_of_reachable (MutexRun.reachable_sys hr)) hi hd

/-- A take returns what its thread has. -/
theorem take_returns (h : Exclusive i s taken released)
    (hp : s.pc t = .ret (.mutexTake i time) e r) (hs : s.Step (.ret t) s') :
    (s'.ipc.mutex i).owner = some t ↔ e = .ok := by
  obtain ⟨t', r', x, ha, -⟩ | ⟨t', c, e', r', ha, -, -, he⟩ | ⟨c, t', x, ha, -⟩ |
    ⟨t', k', ha, -⟩ | ⟨t', p, ha, -⟩ | ⟨k', ha, -⟩ := Step.cases hs <;> cases ha
  have hm : s'.ipc.mutex i = s.ipc.mutex i := by
    rw [he]
    rfl
  rw [hm]
  constructor
  · intro ho
    by_contra hne
    exact (h.holds t).failed ((granted_ret hp).2.mpr ⟨rfl, hne⟩) ho
  · rintro rfl
    exact (h.holds t).granted ((granted_ret hp).1.mpr ⟨rfl, rfl⟩)

/-- A release by another thread than the owner changes nothing at the mutex. -/
theorem release_not_owner (j : SysInv s) (ho : (s.ipc.mutex i).owner ≠ some t)
    (hs : s.Step (.run t (.call (.mutexRelease i))) s') :
    s'.ipc.mutex i = s.ipc.mutex i ∧
      s'.ipc.kernel.lists (.suspend (.mutex i)) = s.ipc.kernel.lists (.suspend (.mutex i)) := by
  cases mutexStep hs j rfl with
  | notOwner => exact ⟨rfl, rfl⟩
  | nested _ _ h1 | handOver _ _ h1 | free _ _ h1 => exact absurd h1 ho

/-- **Mutual exclusion and hand-over**, in every state of every run: the mutex is free, or has one
owner and counts its takes; a take returns RT_EOK if and only if its thread is the owner; and a
release by another thread changes nothing. -/
theorem mutual_exclusion (h : Reachable MutexRun.Init (MutexRun.Step i) S) :
    Exclusive i S.sys S.taken S.released ∧
    (∀ t time e r S', S.sys.pc t = .ret (.mutexTake i time) e r →
      S.exec i (.ret t) = some S' → ((S'.sys.ipc.mutex i).owner = some t ↔ e = .ok)) ∧
    ∀ t S', (S.sys.ipc.mutex i).owner ≠ some t →
      S.exec i (.run t (.call (.mutexRelease i))) = some S' →
      S'.sys.ipc.mutex i = S.sys.ipc.mutex i ∧
        S'.sys.ipc.kernel.lists (.suspend (.mutex i)) =
          S.sys.ipc.kernel.lists (.suspend (.mutex i)) := by
  have hx := exclusive_of_reachable h
  have j := sysInv_of_reachable (MutexRun.reachable_sys h)
  refine ⟨hx, fun t time e r S' hp hs => ?_, fun t S' ho hs => ?_⟩
  · exact take_returns hx hp (MutexRun.exec_cases hs).2.1
  · exact release_not_owner j ho (MutexRun.exec_cases hs).2.1

end

/-! ## A mutex that is taken -/

attribute [local instance] config32

/-- Thread 1 runs, with mutexes of some kind. -/
def mutexThread (flag : Flag) : Option Sys :=
  startSys (fun _ => 10) [1] (fun _ => ⟨0, .fifo⟩) fun _ => flag

/-- The thread takes a mutex twice. -/
theorem mutual_exclusion_twice : ∃ s S, mutexThread .prio = some s ∧
    runList (MutexRun.exec 0) ⟨s, fun _ => 0, fun _ => 0⟩
      [.run 1 (.call (.mutexTake 0 (-1))), .ret 1, .run 1 (.call (.mutexTake 0 (-1)))] = some S ∧
    Exclusive 0 S.sys S.taken S.released ∧ (S.sys.ipc.mutex 0).hold = 2 := by
  obtain ⟨s, hs⟩ : ∃ s, mutexThread .prio = some s := ⟨_, rfl⟩
  have hi : MutexRun.Init ⟨s, fun _ => 0, fun _ => 0⟩ :=
    ⟨startSys_init (fun _ => by decide) (fun _ => by decide) hs, fun _ => ⟨rfl, rfl⟩⟩
  obtain ⟨S, hS, hhold⟩ : ∃ S, runList (MutexRun.exec 0) ⟨s, fun _ => 0, fun _ => 0⟩
      [.run 1 (.call (.mutexTake 0 (-1))), .ret 1, .run 1 (.call (.mutexTake 0 (-1)))] = some S ∧
      (S.sys.ipc.mutex 0).hold = 2 := by
    obtain rfl := Option.some.inj hs
    exact ⟨_, rfl, rfl⟩
  exact ⟨s, S, hs, hS, (mutual_exclusion (reachable_of_runList (.init hi) hS)).1, hhold⟩

end RTThread.Ipc
