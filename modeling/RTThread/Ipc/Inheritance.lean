import RTThread.Ipc.Priority
import RTThread.Ipc.Start

set_option autoImplicit false

/-! # Priority inheritance

With one mutex: while threads wait for it, its owner is at least as urgent as each of them. A taker
that has to wait raises the owner, so blocking keeps this. A release hands the mutex to the first
waiting thread and raises nobody: it keeps this exactly when no thread that goes on waiting is more
urgent than the first. A list ordered by priority is always such; a list in the order of arrival
need not be.
-/

namespace RTThread.Ipc

open Kernel Trans

section

variable [RtConfig]

/-- It is no mutex but `i`. -/
def NoOtherMutex (i : Nat) : Obj → Prop
  | .mutex j => j = i
  | .sem _ | .event _ | .mb _ | .mq _ => True

/-- The calls on mutexes are on `i`, and the application changes no priority. -/
def Action.OneMutex (i : Nat) : Action → Prop
  | .run _ (.call c) => NoOtherMutex i c.obj
  | .control _ _ => False
  | _ => True

namespace Sys

/-- The owner of the mutex is at least as urgent as every thread suspended on it. -/
def Inherits (i : Nat) (s : Sys) : Prop :=
  ∀ o v, s.owner i = some o → v ∈ s.waiters i → s.prio o ≤ s.prio v

/-- If the step hands the mutex over, the thread that gets it is at least as urgent as those behind
it in the wait list. -/
def FairHandOver (i : Nat) (s : Sys) (a : Action) : Prop :=
  ∀ t, s.GivesUp i t a → ∀ u ∈ (s.waiters i).head?, ∀ v ∈ s.waiters i, s.prio u ≤ s.prio v

end Sys

variable {s s' : Sys} {a : Action} {t u v : ThreadId} {i j : Nat}

/-- A step with one mutex. -/
def OneMutexStep (i : Nat) (s : Sys) (a : Action) (s' : Sys) : Prop := s.Step a s' ∧ a.OneMutex i

/-- A step with one mutex that is no unfair hand-over. -/
def InheritStep (i : Nat) (s : Sys) (a : Action) (s' : Sys) : Prop :=
  s.Step a s' ∧ a.OneMutex i ∧ s.FairHandOver i a

omit [RtConfig] in
/-- A step at another mutex does not change a priority. -/
theorem MutexEffect.prio_of_oneMutex (e : MutexEffect j s a s') (hne : j ≠ i)
    (h1 : a.OneMutex i) : s'.prio = s.prio := by
  cases e with
  | quiet _ _ _ _ _ hp => exact hp
  | take _ _ _ _ _ hp => exact hp
  | wait => exact absurd h1 hne
  | handOver => exact absurd h1 hne
  | free => exact absurd h1 hne

omit [RtConfig] in
theorem Action.OneMutex.ne_control (h1 : a.OneMutex i) (t : ThreadId) (p : Nat) :
    a ≠ .control t p := by
  rintro rfl
  exact h1

theorem Step.prio_of_oneMutex (hs : s.Step a s') (j : SysInv s) (h1 : a.OneMutex i)
    (ha : s.actObj a ≠ some (.mutex i)) : s'.prio = s.prio := by
  by_cases hm : ∃ m, s.actObj a = some (.mutex m)
  · obtain ⟨m, hm⟩ := hm
    have hne : m ≠ i := fun e => ha (e ▸ hm)
    exact (mutexEffect hs j hm).prio_of_oneMutex hne h1
  · exact Step.prio hs j (not_exists.mp hm) h1.ne_control

omit [RtConfig] in
/-- Threads that wait keep their priorities when the priority of the owner changes. -/
theorem prio_waiter {q : Nat} (hd : Held i s) (ho : s.owner i = some t) (hv : v ∈ s.waiters i) :
    Function.update s.prio t q v = s.prio v :=
  Function.update_of_ne (fun e : v = t => hd.not_mem ho (e ▸ hv)) ..

omit [RtConfig] in
/-- **A step at the mutex**: it keeps the owner urgent if and only if it is no unfair hand-over. -/
theorem MutexEffect.inherits_iff (e : MutexEffect i s a s') (hd : Held i s)
    (h : s.Inherits i) : s'.Inherits i ↔ s.FairHandOver i a := by
  have hno : (∀ t, ¬ s.GivesUp i t a) → s.FairHandOver i a := fun hg t ht => absurd ht (hg t)
  cases e with
  | quiet hg hv ho hs hl hp =>
      refine iff_of_true (fun o v ho' hv' => ?_) (hno hg)
      rw [hp]
      exact h o v (ho ▸ ho') (hl.subset hv')
  | take hv hv' ho hs hl hp =>
      refine iff_of_true (fun o v ho' hw => ?_) (hno (by simp [Sys.GivesUp]))
      rw [hl, (hd.free_of_value hv).2.2] at hw
      cases hw
  | @wait t owner time _ hne hown hv ho hs hl hp =>
      refine iff_of_true (fun o v ho' hw => ?_) (hno (by simp [Sys.GivesUp]))
      obtain rfl : owner = o := Option.some.inj (hown.symm.trans (ho ▸ ho'))
      rw [hl, (waitInsert_perm _ t _ _).mem_iff, List.mem_cons] at hw
      rw [hp, Function.update_self]
      obtain rfl | hw := hw
      · rw [Function.update_of_ne (Ne.symm hne)]
        exact min_le_right _ _
      · rw [prio_waiter hd hown hw]
        exact (min_le_left _ _).trans (h _ v hown hw)
  | @handOver t u l _ hown hh hw hv ho hs hl hp =>
      have hul : u ∈ s.waiters i ∧ ∀ v ∈ l, v ∈ s.waiters i := by
        rw [hw]
        exact ⟨List.mem_cons_self, fun v => List.mem_cons_of_mem u⟩
      have hprio : ∀ v ∈ s.waiters i, s'.prio v = s.prio v := fun v hv => by
        rw [hp, prio_waiter hd hown hv]
      constructor
      · intro h' t' hg u' hu' v hv'
        rw [hw] at hu' hv'
        obtain rfl : u = u' := Option.some.inj hu'
        obtain rfl | hv' := List.mem_cons.mp hv'
        · exact le_rfl
        · rw [← hprio u hul.1, ← hprio v (hul.2 v hv')]
          exact h' u v ho (hl ▸ hv')
      · intro hfair o v ho' hv'
        obtain rfl : u = o := Option.some.inj (ho.symm.trans ho')
        rw [hl] at hv'
        rw [hprio u hul.1, hprio v (hul.2 v hv')]
        exact hfair t ⟨rfl, hown, hh⟩ u (by rw [hw]; rfl) v (hul.2 v hv')
  | free hown hh hw hv ho hl hp =>
      refine iff_of_true (fun o v ho' => ?_) fun t hg u hu => ?_
      · rw [ho] at ho'
        cases ho'
      · rw [hw] at hu
        cases hu

/-- **One step** with one mutex. -/
theorem Step.inherits_iff (hs : s.Step a s') (j : SysInv s) (hd : Held i s)
    (h1 : a.OneMutex i) (h : s.Inherits i) : s'.Inherits i ↔ s.FairHandOver i a := by
  by_cases ha : s.actObj a = some (.mutex i)
  · exact (mutexEffect hs j ha).inherits_iff hd h
  · obtain ⟨hm, hl⟩ := Step.mutexFrame hs j ha
    refine iff_of_true (fun o v ho hv => ?_) fun t hg => ?_
    · rw [Step.prio_of_oneMutex hs j h1 ha]
      rw [Sys.owner, hm] at ho
      exact h o v ho (hl ▸ hv)
    · obtain ⟨rfl, -⟩ := hg
      exact absurd rfl ha

/-! ## Wait lists ordered by priority -/

/-- The wait list of the mutex is ordered by priority. -/
def Sys.Ordered (i : Nat) (s : Sys) : Prop :=
  (s.waiters i).Pairwise fun u v => s.prio u ≤ s.prio v

omit [RtConfig] in
theorem Sys.Ordered.fair (h : s.Ordered i) (a : Action) : s.FairHandOver i a := by
  intro t _ u hu v hv
  rw [Sys.Ordered] at h
  cases hw : s.waiters i with
  | nil =>
      rw [hw] at hu
      cases hu
  | cons w l =>
      rw [hw] at h hu hv
      obtain rfl : w = u := Option.some.inj hu
      obtain rfl | hv := List.mem_cons.mp hv
      · exact le_rfl
      · exact (List.pairwise_cons.mp h).1 v hv

/-- A mutex of kind RT_IPC_FLAG_PRIO keeps its list ordered. -/
theorem Step.ordered (hs : s.Step a s') (j : SysInv s) (hd : Held i s) (h1 : a.OneMutex i)
    (hf : (s.ipc.mutex i).flag = .prio) (h : s.Ordered i) : s'.Ordered i := by
  have hkeep : ∀ {l : List ThreadId}, l.Sublist (s.waiters i) →
      (∀ v ∈ s.waiters i, s'.prio v = s.prio v) →
      l.Pairwise fun u v => s'.prio u ≤ s'.prio v := by
    intro l hl hp
    refine (h.sublist hl).imp_of_mem fun {u v} hu hv huv => ?_
    rwa [hp u (hl.subset hu), hp v (hl.subset hv)]
  by_cases ha : s.actObj a = some (.mutex i)
  · cases mutexEffect hs j ha with
    | quiet hg hv ho hs hl hp => exact hkeep hl fun v _ => congrFun hp v
    | take hv hv' ho hs hl hp =>
        rw [Sys.Ordered, hl]
        exact hkeep (List.Sublist.refl _) fun v _ => congrFun hp v
    | @wait t owner time _ hne hown hv ho hs hl hp =>
        rw [Sys.Ordered, hl, hf]
        refine prioInsert_pairwise (hkeep (List.Sublist.refl _) fun v hv => ?_) (fun u v hlt huv => ?_)
          fun u hu hge => not_lt.mp hge
        · rw [hp, prio_waiter hd hown hv]
        · obtain rfl | huv := huv
          · exact hlt.le
          · exact hlt.le.trans huv
    | @handOver t u l _ hown hh hw hv ho hs hl hp =>
        rw [Sys.Ordered, hl]
        refine hkeep (by rw [hw]; exact List.sublist_cons_self u l) fun v hv => ?_
        rw [hp, prio_waiter hd hown hv]
    | free hown hh hw hv ho hl hp =>
        rw [Sys.Ordered, hl]
        exact List.Pairwise.nil
  · obtain ⟨-, hl⟩ := Step.mutexFrame hs j ha
    rw [Sys.Ordered, hl]
    exact hkeep (List.Sublist.refl _) fun v _ =>
      congrFun (Step.prio_of_oneMutex hs j h1 ha) v

theorem Step.mutexFlag (hs : s.Step a s') (j : SysInv s) :
    (s'.ipc.mutex i).flag = (s.ipc.mutex i).flag := by
  by_cases ha : s.actObj a = some (.mutex i)
  · cases mutexStep hs j ha <;> first | rfl | simp
  · rw [(Step.mutexFrame hs j ha).1]

/-! ## Runs -/

theorem OneMutexStep.reachable (h : Reachable Sys.Init (OneMutexStep i) s) :
    SysInv s ∧ Held i s := by
  refine h.invariant (I := fun s => SysInv s ∧ Held i s)
    (fun _ hi => ⟨hi.sysInv, hi.held i⟩) fun s a s' _ hi hs => ?_
  exact ⟨Step.sysInv hs.1 hi.1, Step.held hs.1 hi.1 hi.2⟩

theorem InheritStep.reachable (h : Reachable Sys.Init (InheritStep i) s) :
    Reachable Sys.Init (OneMutexStep i) s :=
  h.mono fun _ _ _ hs => ⟨hs.1, hs.2.1⟩

/-- A mutex of kind RT_IPC_FLAG_PRIO is ordered in every state. -/
theorem ordered_of_prio (h : Reachable Sys.Init (OneMutexStep i) s) :
    (s.ipc.mutex i).flag = .prio → s.Ordered i := by
  refine h.invariant (I := fun s => (s.ipc.mutex i).flag = .prio → s.Ordered i)
    (fun s hi _ => ?_) fun s a s' hr ih hs hf => ?_
  · rw [Sys.Ordered, Sys.waiters, hi.wait _ ⟨_, Or.inl rfl⟩]
    exact List.Pairwise.nil
  · obtain ⟨j, hd⟩ := OneMutexStep.reachable hr
    rw [Step.mutexFlag hs.1 j] at hf
    exact Step.ordered hs.1 j hd hs.2 hf (ih hf)

/-- No run with a mutex of this kind has an unfair hand-over. -/
theorem inheritStep_of_prio (h : Reachable Sys.Init (OneMutexStep i) s) :
    (s.ipc.mutex i).flag = .prio → Reachable Sys.Init (InheritStep i) s := by
  refine h.invariant (I := fun s => (s.ipc.mutex i).flag = .prio →
    Reachable Sys.Init (InheritStep i) s) (fun s hi _ => .init hi) fun s a s' hr ih hs hf => ?_
  rw [Step.mutexFlag hs.1 (OneMutexStep.reachable hr).1] at hf
  exact (ih hf).step ⟨hs.1, hs.2, (ordered_of_prio hr hf).fair a⟩

/-- **Priority inheritance while threads wait**, in every state of every run in which no hand-over
passes over a more urgent thread; from there a step keeps it if and only if it is no such hand-over.
A mutex of kind RT_IPC_FLAG_PRIO has none. -/
theorem inherits_while_waiting (h : Reachable Sys.Init (InheritStep i) s) :
    s.Inherits i ∧
    (∀ a s', s.Step a s' → a.OneMutex i → (s'.Inherits i ↔ s.FairHandOver i a)) ∧
    ((s.ipc.mutex i).flag = .prio → ∀ a, s.FairHandOver i a) := by
  have hin : s.Inherits i := by
    refine h.invariant (I := Sys.Inherits i) (fun s hi o v ho => ?_) fun s a s' hr ih hs => ?_
    · obtain ⟨flag, hm⟩ := hi.mutex i
      rw [Sys.owner, hm] at ho
      cases ho
    · obtain ⟨j, hd⟩ := OneMutexStep.reachable (InheritStep.reachable hr)
      exact (Step.inherits_iff hs.1 j hd hs.2.1 ih).mpr hs.2.2
  have hr := InheritStep.reachable h
  obtain ⟨j, hd⟩ := OneMutexStep.reachable hr
  exact ⟨hin, fun a s' hs h1 => Step.inherits_iff hs j hd h1 hin,
    fun hf => (ordered_of_prio hr hf).fair⟩

end

/-! ## A hand-over to the thread that came first -/

attribute [local instance] config32

instance NoOtherMutex.decidable (i : Nat) : (o : Obj) → Decidable (NoOtherMutex i o)
  | .mutex j => inferInstanceAs (Decidable (j = i))
  | .sem _ | .event _ | .mb _ | .mq _ => isTrue trivial

instance Action.OneMutex.decidable (i : Nat) : (a : Action) → Decidable (a.OneMutex i)
  | .run _ (.call c) => inferInstanceAs (Decidable (NoOtherMutex i c.obj))
  | .control _ _ => isFalse id
  | .run _ (.resumed _) | .run _ .copy | .run _ .finish | .ret _ | .isr _ | .timeout _ |
    .schedule => isTrue trivial

/-- Thread 1 is to take the mutex, thread 2 is the most urgent, and thread 4 is idle. -/
def contenders : ThreadId → Nat
  | 1 => 10
  | 2 => 5
  | 3 => 20
  | _ => 31

/-- Four threads and mutexes of some kind. -/
def contend (flag : Flag) : Option Sys :=
  startSys contenders [1, 2, 3, 4] (fun _ => ⟨0, .fifo⟩) fun _ => flag

/-- Thread 1 takes the mutex; thread 3 waits for it, then thread 2; thread 1 releases it. -/
def overtaken : List Action :=
  [.run 2 (.call (.semTake 0 10)), .schedule,
    .run 1 (.call (.mutexTake 0 (-1))), .ret 1, .run 1 (.call (.semTake 1 10)), .schedule,
    .run 3 (.call (.mutexTake 0 (-1))), .schedule,
    .timeout 2, .schedule, .run 2 (.resumed 10), .ret 2,
    .run 2 (.call (.mutexTake 0 (-1))), .schedule,
    .timeout 1, .schedule, .run 1 (.resumed 10), .ret 1, .run 1 (.call (.mutexRelease 0))]

theorem contend_init {flag : Flag} {s : Sys} (h : contend flag = some s) : s.Init := by
  refine startSys_init (fun t => ?_) (fun _ => by norm_num) h
  unfold contenders
  split <;> norm_num

/-- What this run leads to: the kind of the mutex, its owner, the threads that wait, and the
priorities of two threads. -/
def overtakenEnd (flag : Flag) : Option (Flag × Option ThreadId × List ThreadId × Nat × Nat) :=
  (contend flag).bind fun s => (runList (stepIf Sys.exec fun _ a => a.OneMutex 0) s overtaken).map
    fun q => ((q.ipc.mutex 0).flag, q.owner 0, q.waiters 0, q.prio 2, q.prio 3)

theorem overtaken_run {flag f : Flag} {o : Option ThreadId} {l : List ThreadId} {m n : Nat}
    (h : overtakenEnd flag = some (f, o, l, m, n)) : ∃ s q, contend flag = some s ∧
      runList (stepIf Sys.exec fun _ a => a.OneMutex 0) s overtaken = some q ∧
      Reachable Sys.Init (OneMutexStep 0) q ∧ (q.ipc.mutex 0).flag = f ∧ q.owner 0 = o ∧
      q.waiters 0 = l ∧ q.prio 2 = m ∧ q.prio 3 = n := by
  obtain ⟨s, hs, h⟩ := Option.bind_eq_some_iff.mp h
  obtain ⟨q, hq, h⟩ := Option.map_eq_some_iff.mp h
  simp only [Prod.mk.injEq] at h
  exact ⟨s, q, hs, hq, reachable_of_runList_stepIf (contend_init hs) hq, h⟩

/-- A list in the order of priority: the most urgent thread gets the mutex. -/
theorem inherits_while_waiting_prio : ∃ s q, contend .prio = some s ∧
    runList (stepIf Sys.exec fun _ a => a.OneMutex 0) s overtaken = some q ∧
    q.owner 0 = some 2 ∧ q.waiters 0 = [3] ∧ q.Inherits 0 := by
  obtain ⟨s, q, hs, hq, hr, hf, ho, hw, -⟩ := overtaken_run
    (by decide +kernel : overtakenEnd .prio = some (.prio, some 2, [3], 5, 20))
  exact ⟨s, q, hs, hq, ho, hw, (inherits_while_waiting (inheritStep_of_prio hr hf)).1⟩

/-- A list in the order of arrival: thread 3 gets the mutex, with priority 20, and thread 2 waits
behind it, with priority 5. -/
theorem inheritance_lost : ∃ s q, contend .fifo = some s ∧
    Reachable Sys.Init (OneMutexStep 0) q ∧
    runList (stepIf Sys.exec fun _ a => a.OneMutex 0) s overtaken = some q ∧
    q.owner 0 = some 3 ∧ q.waiters 0 = [2] ∧ q.prio 2 = 5 ∧ q.prio 3 = 20 ∧ ¬ q.Inherits 0 := by
  obtain ⟨s, q, hs, hq, hr, -, ho, hw, h2, h3⟩ := overtaken_run
    (by decide +kernel : overtakenEnd .fifo = some (.fifo, some 3, [2], 5, 20))
  refine ⟨s, q, hs, hr, hq, ho, hw, h2, h3, fun hin => ?_⟩
  have hle := hin 3 2 ho (by rw [hw]; exact List.mem_singleton_self 2)
  omega

end RTThread.Ipc
