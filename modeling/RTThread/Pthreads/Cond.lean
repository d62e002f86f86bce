import RTThread.Lib.Run
import RTThread.Kernel.Model

set_option autoImplicit false

/-! # Condition variables (`pthread_cond.c`)

A condition variable is a semaphore. `pthread_cond_wait` unlocks the mutex, takes the semaphore and
locks the mutex again: three steps, and between the first two the thread waits without being seen.
`pthread_cond_signal` releases the semaphore once. `pthread_cond_broadcast` releases it until it can
be taken: this wakes the threads that sleep, and leaves one token. A thread that has unlocked the
mutex but does not sleep yet is one of those the token is for, but when there are two of them one goes
to sleep, and a thread that comes later may take the token before them.

Signals and broadcasts are made with the mutex locked. Between threads, each function of the
semaphore is one step, and so is a broadcast, which runs with the scheduler locked.
-/

namespace RTThread.Pthreads

open Trans

/-- Where a thread is in `pthread_cond_wait`. -/
inductive CondPc
  /-- not in the function -/
  | idle
  /-- the mutex is unlocked, the semaphore is to be taken -/
  | unlocked
  /-- suspended in `rt_sem_take` -/
  | asleep
  /-- past the semaphore, the mutex is to be locked -/
  | past
  deriving DecidableEq

/-- The condition variable, its mutex and the threads. -/
structure CondSys where
  /-- `cond->sem.value`, of 16 bits -/
  value : Nat
  /-- `cond->sem.parent.suspend_thread` -/
  queue : List ThreadId
  pc : ThreadId → CondPc
  /-- `mutex->lock.owner` -/
  owner : Option ThreadId

inductive CondAction
  /-- `pthread_mutex_lock` -/
  | lock (t : ThreadId)
  /-- `pthread_mutex_unlock` -/
  | unlock (t : ThreadId)
  /-- `pthread_cond_wait` up to the semaphore -/
  | wait (t : ThreadId)
  /-- `rt_sem_take` in `pthread_cond_wait` -/
  | take (t : ThreadId)
  /-- the end of `pthread_cond_wait` -/
  | relock (t : ThreadId)
  /-- `pthread_cond_signal` -/
  | signal (t : ThreadId)
  /-- `pthread_cond_broadcast` -/
  | broadcast (t : ThreadId)
  deriving DecidableEq

namespace CondSys

def setPc (s : CondSys) (t : ThreadId) (p : CondPc) : CondSys :=
  { s with pc := Function.update s.pc t p }

/-- `rt_sem_release` -/
def rtSemRelease (s : CondSys) : CondSys :=
  match s.queue with
  | t :: q => { s.setPc t .past with queue := q }
  | [] => { s with value := (s.value + 1) % 2 ^ 16 }

/-- `rt_sem_take` without a time-out -/
def rtSemTake (s : CondSys) (t : ThreadId) : CondSys :=
  if 0 < s.value then { s.setPc t .past with value := s.value - 1 }
  else { s.setPc t .asleep with queue := s.queue ++ [t] }

/-- `rt_sem_trytake`: has it taken the semaphore? -/
def rtSemTrytake (s : CondSys) : Bool × CondSys :=
  if 0 < s.value then (true, { s with value := s.value - 1 }) else (false, s)

/-- The loop of `pthread_cond_broadcast`, for a number of rounds. -/
def broadcastLoop : Nat → CondSys → Option CondSys
  | 0, _ => none
  | n + 1, s => match s.rtSemTrytake with
    -- it's timeout, release this semaphore
    | (false, s) => broadcastLoop n s.rtSemRelease
    -- has taken this semaphore, release it
    | (true, s) => some s.rtSemRelease

/-- `pthread_cond_broadcast`: a round for each thread that sleeps, and two more at most. -/
def broadcast (s : CondSys) : Option CondSys := broadcastLoop (s.queue.length + 2) s

/-- The thread runs outside the condition variable, with the mutex locked. -/
def Runs (s : CondSys) (t : ThreadId) : Prop := s.pc t = .idle ∧ s.owner = some t

instance decidableRuns (s : CondSys) (t : ThreadId) : Decidable (s.Runs t) := instDecidableAnd

def exec (s : CondSys) : CondAction → Option CondSys
  | .lock t =>
    if s.pc t = .idle ∧ s.owner = none then some { s with owner := some t } else none
  | .unlock t => if s.Runs t then some { s with owner := none } else none
  | .wait t => if s.Runs t then some { s.setPc t .unlocked with owner := none } else none
  | .take t => if s.pc t = .unlocked then some (s.rtSemTake t) else none
  | .relock t =>
    if s.pc t = .past ∧ s.owner = none then some { s.setPc t .idle with owner := some t } else none
  | .signal t => if s.Runs t then some s.rtSemRelease else none
  | .broadcast t => if s.Runs t then s.broadcast else none

/-- After `pthread_cond_init` and `pthread_mutex_init`. -/
structure Init (s : CondSys) : Prop where
  value : s.value = 0
  queue : s.queue = []
  pc : ∀ t, s.pc t = .idle
  owner : s.owner = none

/-- The thread has unlocked the mutex in its wait and is not past the semaphore. -/
def Waiting (s : CondSys) (t : ThreadId) : Prop := s.pc t = .unlocked ∨ s.pc t = .asleep

/-- After a broadcast in `s`: until the end of its wait, a thread that was waiting does not sleep, and
none that was not waiting takes a token before it. -/
structure BroadcastReaches (s s' : CondSys) : Prop where
  awake : ∀ t, s.Waiting t → ∀ as s'', runList exec s' as = some s'' → .relock t ∉ as →
    s''.pc t ≠ .asleep
  first : ∀ u, ¬ s.Waiting u → ∀ as s'', runList exec s' as = some s'' → s''.pc u = .unlocked →
    0 < s''.value → ∀ t, s.Waiting t → .relock t ∉ as → s''.pc t ≠ .unlocked

/-- After a signal in `s`: the threads that were waiting, if any, do not all sleep before the end of
their waits. -/
def SignalReleases (s s' : CondSys) : Prop :=
  (∃ t, s.Waiting t) → ∀ as s'', runList exec s' as = some s'' →
    ∃ t, s.Waiting t ∧ (.relock t ∈ as ∨ s''.pc t ≠ .asleep)

/-- What holds in every run. -/
structure Inv (s : CondSys) : Prop where
  asleep : ∀ t, t ∈ s.queue ↔ s.pc t = .asleep
  nodup : s.queue.Nodup
  empty : 0 < s.value → s.queue = []
  bound : s.value < 2 ^ 16
  newcomers : ∃ n, ∀ t, n ≤ t → s.pc t = .idle ∧ s.owner ≠ some t

variable {s s' : CondSys} {a : CondAction} {as : List CondAction} {t u c : ThreadId} {p : CondPc}
  {q : List ThreadId}

/-! ## The semaphore -/

@[simp] theorem setPc_self : (s.setPc t p).pc t = p := Function.update_self ..

theorem setPc_of_ne (h : u ≠ t) : (s.setPc t p).pc u = s.pc u := Function.update_of_ne h ..

theorem rtSemRelease_cons (h : s.queue = t :: q) :
    s.rtSemRelease = { s.setPc t .past with queue := q } := by
  unfold rtSemRelease
  rw [h]

theorem rtSemRelease_nil (h : s.queue = []) :
    s.rtSemRelease = { s with value := (s.value + 1) % 2 ^ 16 } := by
  unfold rtSemRelease
  rw [h]

theorem rtSemTake_pos (h : 0 < s.value) :
    s.rtSemTake t = { s.setPc t .past with value := s.value - 1 } :=
  if_pos h

theorem rtSemTake_zero (h : s.value = 0) :
    s.rtSemTake t = { s.setPc t .asleep with queue := s.queue ++ [t] } :=
  if_neg (by omega)

/-! ## A broadcast -/

theorem broadcastLoop_pos {n : Nat} (hv : 0 < s.value) (hb : s.value < 2 ^ 16)
    (hq : s.queue = []) : broadcastLoop (n + 1) s = some s := by
  have htake : s.rtSemTrytake = (true, { s with value := s.value - 1 }) := if_pos hv
  have hback : (s.value - 1 + 1) % 2 ^ 16 = s.value := by
    rw [Nat.sub_add_cancel hv, Nat.mod_eq_of_lt hb]
  rw [broadcastLoop, htake]
  dsimp only
  rw [rtSemRelease_nil (s := { s with value := s.value - 1 }) hq]
  dsimp only
  rw [hback]

theorem broadcastLoop_zero {n : Nat} (hv : s.value = 0) :
    broadcastLoop (n + 1) s = broadcastLoop n s.rtSemRelease := by
  have htake : s.rtSemTrytake = (false, s) := if_neg (by omega)
  rw [broadcastLoop, htake]

/-- The loop wakes the threads that sleep, and leaves a token. -/
theorem broadcastLoop_eq (hq : s.queue = q) (hv : s.value = 0) :
    broadcastLoop (q.length + 2) s = some { s with
      value := 1
      queue := []
      pc := fun t => if t ∈ q then .past else s.pc t } := by
  induction q generalizing s with
  | nil =>
      rw [List.length_nil, broadcastLoop_zero hv, rtSemRelease_nil hq, hv,
        broadcastLoop_pos (s := { s with value := (0 + 1) % 2 ^ 16 }) Nat.one_pos
          (Nat.one_lt_two_pow (by decide)) hq]
      simp [hq]
  | cons t q ih =>
      rw [List.length_cons, broadcastLoop_zero hv, rtSemRelease_cons hq,
        ih (s := { s.setPc t .past with queue := q }) rfl hv]
      simp only [setPc, Option.some.injEq, CondSys.mk.injEq, true_and, and_true]
      funext u
      by_cases hut : u = t
      · simp [hut]
      · simp [hut]

/-- **What a broadcast does.** -/
theorem broadcast_eq (i : s.Inv) : s.broadcast = some { s with
    value := max s.value 1
    queue := []
    pc := fun t => if t ∈ s.queue then .past else s.pc t } := by
  unfold broadcast
  rcases Nat.eq_zero_or_pos s.value with hv | hv
  · rw [broadcastLoop_eq rfl hv, hv]
    rfl
  · have hq := i.empty hv
    rw [broadcastLoop_pos hv i.bound hq, Nat.max_eq_left hv]
    simp only [hq, List.not_mem_nil, if_false, Option.some.injEq]
    rw [← hq]

/-! ## Steps -/

/-- **What a step is.** -/
theorem exec_cases (h : s.exec a = some s') :
    (∃ t, a = .lock t ∧ s.pc t = .idle ∧ s.owner = none ∧ s' = { s with owner := some t }) ∨
    (∃ t, a = .unlock t ∧ s.Runs t ∧ s' = { s with owner := none }) ∨
    (∃ t, a = .wait t ∧ s.Runs t ∧ s' = { s.setPc t .unlocked with owner := none }) ∨
    (∃ t, a = .take t ∧ s.pc t = .unlocked ∧ s' = s.rtSemTake t) ∨
    (∃ t, a = .relock t ∧ s.pc t = .past ∧ s.owner = none ∧
      s' = { s.setPc t .idle with owner := some t }) ∨
    (∃ t, a = .signal t ∧ s.Runs t ∧ s' = s.rtSemRelease) ∨
    ∃ t, a = .broadcast t ∧ s.Runs t ∧ s.broadcast = some s' := by
  cases a with
  | lock t =>
      simp only [exec] at h
      split_ifs at h with hc
      exact .inl ⟨t, rfl, hc.1, hc.2, (Option.some.inj h).symm⟩
  | unlock t =>
      simp only [exec] at h
      split_ifs at h with hc
      exact .inr (.inl ⟨t, rfl, hc, (Option.some.inj h).symm⟩)
  | wait t =>
      simp only [exec] at h
      split_ifs at h with hc
      exact .inr (.inr (.inl ⟨t, rfl, hc, (Option.some.inj h).symm⟩))
  | take t =>
      simp only [exec] at h
      split_ifs at h with hc
      exact .inr (.inr (.inr (.inl ⟨t, rfl, hc, (Option.some.inj h).symm⟩)))
  | relock t =>
      simp only [exec] at h
      split_ifs at h with hc
      exact .inr (.inr (.inr (.inr (.inl ⟨t, rfl, hc.1, hc.2, (Option.some.inj h).symm⟩))))
  | signal t =>
      simp only [exec] at h
      split_ifs at h with hc
      exact .inr (.inr (.inr (.inr (.inr (.inl ⟨t, rfl, hc, (Option.some.inj h).symm⟩)))))
  | broadcast t =>
      simp only [exec] at h
      split_ifs at h with hc
      exact .inr (.inr (.inr (.inr (.inr (.inr ⟨t, rfl, hc, h⟩)))))

/-- A thread that leaves the queue, or is in no queue before and after. -/
theorem Inv.outside (i : s.Inv) (ht : s.pc t ≠ .asleep) (hp : p ≠ .asleep) :
    ∀ u, u ∈ s.queue ↔ (s.setPc t p).pc u = .asleep := by
  intro u
  rw [i.asleep]
  by_cases hu : u = t
  · subst hu
    rw [setPc_self]
    exact iff_of_false ht hp
  · rw [setPc_of_ne hu]

theorem newcomers_max {pc : ThreadId → CondPc} {o o' : Option ThreadId}
    (h : ∃ n, ∀ t, n ≤ t → pc t = .idle ∧ o ≠ some t) (u : ThreadId)
    (ho : ∀ t, o' = some t → o = some t ∨ t = u) :
    ∃ n, ∀ t, n ≤ t → Function.update pc u p t = .idle ∧ o' ≠ some t := by
  obtain ⟨n, hn⟩ := h
  refine ⟨max n (u + 1), fun t ht => ?_⟩
  have hle := Nat.le_trans (Nat.le_max_left ..) ht
  have hlt := Nat.le_trans (Nat.le_max_right ..) ht
  refine ⟨?_, fun he => ?_⟩
  · rw [Function.update_of_ne (Nat.ne_of_gt hlt)]
    exact (hn t hle).1
  · rcases ho t he with h' | h'
    · exact (hn t hle).2 h'
    · exact Nat.ne_of_gt hlt h'

theorem Inv.release (i : s.Inv) : s.rtSemRelease.Inv := by
  cases hq : s.queue with
  | nil =>
      rw [rtSemRelease_nil hq]
      exact ⟨i.asleep, i.nodup, fun _ => hq, Nat.mod_lt _ (by decide), i.newcomers⟩
  | cons t q =>
      have hnd := i.nodup
      rw [hq] at hnd
      obtain ⟨hnot, hnd'⟩ := List.nodup_cons.mp hnd
      rw [rtSemRelease_cons hq]
      refine ⟨fun u => ?_, hnd', fun hv => ?_, i.bound,
        newcomers_max i.newcomers t fun _ h => .inl h⟩
      · by_cases hu : u = t
        · subst hu
          simp [setPc, hnot]
        · simp only [setPc, Function.update_of_ne hu]
          rw [← i.asleep u, hq, List.mem_cons]
          exact ⟨.inr, fun h => h.resolve_left hu⟩
      · have hnil := i.empty hv
        rw [hq] at hnil
        cases hnil

theorem Inv.take (i : s.Inv) (h : s.pc t = .unlocked) : (s.rtSemTake t).Inv := by
  have hnot : t ∉ s.queue := fun hm => by
    rw [(i.asleep t).mp hm] at h
    cases h
  rcases Nat.eq_zero_or_pos s.value with hv | hv
  · rw [rtSemTake_zero hv]
    refine ⟨fun u => ?_, ?_, fun hpos => absurd (hv ▸ hpos) (Nat.lt_irrefl 0), i.bound,
      newcomers_max i.newcomers t fun _ h => .inl h⟩
    · dsimp only
      rw [List.mem_append, List.mem_singleton]
      by_cases hu : u = t
      · subst hu
        simp
      · rw [setPc_of_ne hu, ← i.asleep u]
        exact ⟨fun hm => hm.resolve_right hu, .inl⟩
    · dsimp only
      rw [List.nodup_append]
      exact ⟨i.nodup, List.nodup_singleton t, fun x hx y hy he => by
        rw [List.mem_singleton] at hy
        exact hnot (hy ▸ he ▸ hx)⟩
  · rw [rtSemTake_pos hv]
    refine ⟨i.outside (by rw [h]; simp) (by simp), i.nodup, fun _ => i.empty hv, ?_,
      newcomers_max i.newcomers t fun _ h => .inl h⟩
    have hb := i.bound
    dsimp only
    omega

/-- **One step keeps the invariant.** -/
theorem Inv.step (i : s.Inv) (h : s.exec a = some s') : s'.Inv := by
  obtain ⟨t, rfl, hp, -, rfl⟩ | ⟨t, rfl, -, rfl⟩ | ⟨t, rfl, hr, rfl⟩ | ⟨t, rfl, hp, rfl⟩ |
    ⟨t, rfl, hp, -, rfl⟩ | ⟨t, rfl, -, rfl⟩ | ⟨t, rfl, -, hb⟩ := exec_cases h
  · have hlock : ∀ u, some t = some u → s.owner = some u ∨ u = t := fun u hu =>
      .inr (Option.some.inj hu).symm
    obtain ⟨n, hn⟩ := newcomers_max (p := s.pc t) i.newcomers t hlock
    rw [Function.update_eq_self] at hn
    exact ⟨i.asleep, i.nodup, i.empty, i.bound, n, hn⟩
  · obtain ⟨n, hn⟩ := i.newcomers
    exact ⟨i.asleep, i.nodup, i.empty, i.bound, n, fun u hu => ⟨(hn u hu).1, by simp⟩⟩
  · exact ⟨i.outside (by rw [hr.1]; simp) (by simp), i.nodup, i.empty, i.bound,
      newcomers_max i.newcomers t fun _ h => by cases h⟩
  · exact i.take hp
  · exact ⟨i.outside (by rw [hp]; simp) (by simp), i.nodup, i.empty, i.bound,
      newcomers_max i.newcomers t fun u hu => .inr (Option.some.inj hu).symm⟩
  · exact i.release
  · rw [broadcast_eq i] at hb
    obtain rfl := Option.some.inj hb
    obtain ⟨n, hn⟩ := i.newcomers
    refine ⟨fun u => ?_, List.nodup_nil, fun _ => rfl, ?_, n, fun u hu => ⟨?_, (hn u hu).2⟩⟩
    · dsimp only
      split_ifs with hm
      · simp
      · rw [i.asleep] at hm
        simp [hm]
    · have hb := i.bound
      dsimp only
      omega
    · have hnot : u ∉ s.queue := fun hm => by
        have hidle := (hn u hu).1
        rw [(i.asleep u).mp hm] at hidle
        cases hidle
      dsimp only
      rw [if_neg hnot]
      exact (hn u hu).1

theorem Init.inv (h : s.Init) : s.Inv :=
  ⟨fun t => by simp [h.queue, h.pc t], by simp [h.queue], fun _ => h.queue, by simp [h.value], 0,
    fun t _ => ⟨h.pc t, by simp [h.owner]⟩⟩

theorem Inv.run (i : s.Inv) (h : runList exec s as = some s') : s'.Inv := by
  induction as generalizing s with
  | nil =>
      obtain rfl := Option.some.inj h
      exact i
  | cons a as ih =>
      obtain ⟨s₁, h₁, hrest⟩ := Option.bind_eq_some_iff.mp h
      exact ih (i.step h₁) hrest

/-! ## A thread that is past the semaphore -/

/-- It stays there until it locks the mutex. -/
theorem past_step (h : s.exec a = some s') (hi : s.Inv) (hp : s.pc t = .past)
    (hne : a ≠ .relock t) : s'.pc t = .past := by
  have hother : ∀ {u p}, s.pc u ≠ .past → (s.setPc u p).pc t = .past := fun hu => by
    rw [setPc_of_ne fun he => hu (by rw [← he]; exact hp)]
    exact hp
  obtain ⟨u, rfl, -, -, rfl⟩ | ⟨u, rfl, -, rfl⟩ | ⟨u, rfl, hr, rfl⟩ | ⟨u, rfl, hu, rfl⟩ |
    ⟨u, rfl, -, -, rfl⟩ | ⟨u, rfl, -, rfl⟩ | ⟨u, rfl, -, hb⟩ := exec_cases h
  · exact hp
  · exact hp
  · exact hother (by rw [hr.1]; simp)
  · unfold rtSemTake
    split_ifs
    · exact hother (by rw [hu]; simp)
    · exact hother (by rw [hu]; simp)
  · have hut : t ≠ u := fun he => hne (by rw [he])
    exact (setPc_of_ne hut).trans hp
  · unfold rtSemRelease
    split
    · by_cases hu : t = ‹ThreadId›
      · rw [hu]
        exact setPc_self
      · exact (setPc_of_ne hu).trans hp
    · exact hp
  · rw [broadcast_eq hi] at hb
    obtain rfl := Option.some.inj hb
    dsimp only
    split_ifs
    · rfl
    · exact hp

theorem past_run (h : runList exec s as = some s') (hi : s.Inv) (hp : s.pc t = .past)
    (hne : .relock t ∉ as) : s'.pc t = .past := by
  induction as generalizing s with
  | nil =>
      obtain rfl := Option.some.inj h
      exact hp
  | cons a as ih =>
      obtain ⟨s₁, h₁, hrest⟩ := Option.bind_eq_some_iff.mp h
      rw [List.mem_cons, not_or] at hne
      exact ih hrest (hi.step h₁) (past_step h₁ hi hp fun he => hne.1 he.symm) hne.2

/-! ## Threads that come later -/

/-- A newcomer takes a token. -/
theorem newcomer_takes (hi : s.Inv) (ho : s.owner = none) (hv : 0 < s.value) :
    ∃ u s', runList exec s [.lock u, .wait u, .take u] = some s' ∧ s.pc u = .idle ∧
      s'.value = s.value - 1 ∧ s'.owner = none ∧ s'.pc = Function.update s.pc u .past := by
  obtain ⟨u, hu⟩ := hi.newcomers
  have hidle := (hu u (le_refl u)).1
  have h₁ : s.exec (.lock u) = some { s with owner := some u } := if_pos ⟨hidle, ho⟩
  have h₂ : ({ s with owner := some u } : CondSys).exec (.wait u) =
      some { s.setPc u .unlocked with owner := none } := if_pos ⟨hidle, rfl⟩
  have hun : ({ s.setPc u .unlocked with owner := none } : CondSys).pc u = .unlocked := setPc_self
  have h₃ : ({ s.setPc u .unlocked with owner := none } : CondSys).exec (.take u) =
      some { ({ s.setPc u .unlocked with owner := none } : CondSys).setPc u .past with
        value := s.value - 1 } :=
    (if_pos hun).trans (congrArg some (if_pos hv))
  refine ⟨u, { ({ s.setPc u .unlocked with owner := none } : CondSys).setPc u .past with
    value := s.value - 1 }, ?_, hidle, rfl, rfl, ?_⟩
  · simp only [runList, h₁, h₂, h₃, Option.bind_some]
  · simp only [setPc, Function.update_idem]

/-- Newcomers take all tokens, before the threads that wait and have not taken one. -/
theorem drained (hi : s.Inv) (ho : s.owner = none) : ∃ as s', runList exec s as = some s' ∧
    (∀ t, .relock t ∉ as) ∧ s'.value = 0 ∧ ∀ t, s.pc t = .unlocked → s'.pc t = .unlocked := by
  induction hv : s.value generalizing s with
  | zero => exact ⟨[], s, rfl, by simp, hv, fun t h => h⟩
  | succ n ih =>
      obtain ⟨u, s₁, h₁, hidle, hv₁, ho₁, hpc₁⟩ := newcomer_takes hi ho (by omega)
      obtain ⟨as, s', h, hno, hv', hun⟩ := ih (hi.run h₁) ho₁ (by omega)
      refine ⟨[.lock u, .wait u, .take u] ++ as, s', ?_, fun t => ?_, hv', fun t ht => hun t ?_⟩
      · rw [runList_append, h₁]
        exact h
      · rw [List.mem_append, not_or]
        exact ⟨by simp, hno t⟩
      · have htu : t ≠ u := fun he => by
          rw [he, hidle] at ht
          cases ht
        rw [hpc₁, Function.update_of_ne htu]
        exact ht

/-- Without tokens, the threads that are to take one go to sleep. -/
theorem fall_asleep {l : List ThreadId} (hnd : l.Nodup) (hv : s.value = 0)
    (hl : ∀ t ∈ l, s.pc t = .unlocked) : ∃ s', runList exec s (l.map .take) = some s' ∧
      (∀ t ∈ l, s'.pc t = .asleep) ∧ ∀ t ∉ l, s'.pc t = s.pc t := by
  induction l generalizing s with
  | nil => exact ⟨s, rfl, fun t ht => absurd ht List.not_mem_nil, fun _ _ => rfl⟩
  | cons u l ih =>
      obtain ⟨hnot, hnd'⟩ := List.nodup_cons.mp hnd
      have h₁ : s.exec (.take u) = some { s.setPc u .asleep with queue := s.queue ++ [u] } :=
        (if_pos (hl u List.mem_cons_self)).trans (congrArg some (rtSemTake_zero hv))
      have hne : ∀ {t}, t ∈ l → t ≠ u := fun ht he => hnot (he ▸ ht)
      obtain ⟨s', h, hin, hout⟩ := ih (s := { s.setPc u .asleep with queue := s.queue ++ [u] }) hnd' hv
        fun t ht => (setPc_of_ne (hne ht)).trans (hl t (List.mem_cons_of_mem u ht))
      refine ⟨s', ?_, fun t ht => ?_, fun t ht => ?_⟩
      · rw [List.map_cons, runList, h₁]
        exact h
      · rcases List.mem_cons.mp ht with rfl | ht
        · exact (hout t hnot).trans setPc_self
        · exact hin t ht
      · rw [List.mem_cons, not_or] at ht
        exact (hout t ht.2).trans (setPc_of_ne ht.1)

/-- **The tokens may be taken by others**: from a state in which a thread runs, all threads that have
unlocked the mutex and not taken the semaphore can go to sleep. -/
theorem all_fall_asleep (hi : s.Inv) (hr : s.Runs c) : ∃ as s', runList exec s as = some s' ∧
    (∀ t, .relock t ∉ as) ∧ ∀ t, s.pc t = .unlocked → s'.pc t = .asleep := by
  have h₁ : s.exec (.unlock c) = some { s with owner := none } := if_pos hr
  obtain ⟨as, s₂, h₂, hno, hv, hun⟩ := drained (s := { s with owner := none }) (hi.step h₁) rfl
  obtain ⟨n, hn⟩ := hi.newcomers
  let l := (List.range n).filter fun t => s.pc t = .unlocked
  have hmem : ∀ t, t ∈ l ↔ s.pc t = .unlocked := by
    intro t
    simp only [l, List.mem_filter, List.mem_range, decide_eq_true_eq]
    refine ⟨fun h => h.2, fun h => ⟨?_, h⟩⟩
    by_contra hle
    rw [(hn t (Nat.le_of_not_lt hle)).1] at h
    cases h
  obtain ⟨s', h₃, hin, -⟩ := fall_asleep (l := l) (List.nodup_range.filter _) hv
    fun t ht => hun t ((hmem t).mp ht)
  refine ⟨.unlock c :: (as ++ l.map .take), s', ?_, fun t => ?_, fun t ht => hin t ((hmem t).mpr ht)⟩
  · rw [runList, h₁, Option.bind_some, runList_append, h₂]
    exact h₃
  · rw [List.mem_cons, List.mem_append, List.mem_map]
    rintro (h | h | ⟨u, -, h⟩)
    · cases h
    · exact hno t h
    · cases h

/-! ## Signals and broadcasts -/

/-- **A broadcast reaches every waiter** if and only if no thread is between the two steps. -/
theorem broadcastReaches_iff (hi : s.Inv) (h : s.exec (.broadcast c) = some s') :
    BroadcastReaches s s' ↔ ∀ t, s.pc t ≠ .unlocked := by
  have hi' := hi.step h
  obtain ⟨hr, hb⟩ : s.Runs c ∧ s.broadcast = some s' := by
    simp only [exec] at h
    split_ifs at h with hr
    exact ⟨hr, h⟩
  rw [broadcast_eq hi] at hb
  obtain rfl := Option.some.inj hb
  have hkeep : ∀ {t}, s.pc t ≠ .asleep → (if t ∈ s.queue then .past else s.pc t) = s.pc t := fun ht =>
    if_neg fun hm => ht ((hi.asleep _).mp hm)
  constructor
  · intro hreach t ht
    have hr' : CondSys.Runs { s with
        value := max s.value 1
        queue := []
        pc := fun t => if t ∈ s.queue then .past else s.pc t } c :=
      ⟨(hkeep (by rw [hr.1]; simp)).trans hr.1, hr.2⟩
    obtain ⟨as, s'', hrun, hno, hsleep⟩ := all_fall_asleep hi' hr'
    exact hreach.awake t (.inl ht) as s'' hrun (hno t)
      (hsleep t ((hkeep (by rw [ht]; simp)).trans ht))
  · intro hnone
    have hpast : ∀ {t}, s.Waiting t → (if t ∈ s.queue then CondPc.past else s.pc t) = .past :=
      fun hw => if_pos ((hi.asleep _).mpr (hw.resolve_left (hnone _)))
    refine ⟨fun t hw as s'' hrun hno => ?_, fun u _ as s'' hrun _ _ t hw hno => ?_⟩
    · rw [past_run hrun hi' (hpast hw) hno]
      simp
    · rw [past_run hrun hi' (hpast hw) hno]
      simp

/-- **A signal releases a waiter** if and only if one sleeps, or there is none. -/
theorem signalReleases_iff (hi : s.Inv) (h : s.exec (.signal c) = some s') :
    SignalReleases s s' ↔ (∃ t, s.pc t = .asleep) ∨ ∀ t, s.pc t ≠ .unlocked := by
  have hi' := hi.step h
  obtain ⟨hr, rfl⟩ : s.Runs c ∧ s' = s.rtSemRelease := by
    simp only [exec] at h
    split_ifs at h with hr
    exact ⟨hr, (Option.some.inj h).symm⟩
  cases hq : s.queue with
  | cons u q =>
      have hu : s.pc u = .asleep := (hi.asleep u).mp (hq ▸ List.mem_cons_self)
      refine iff_of_true (fun _ as s'' hrun => ⟨u, .inr hu, ?_⟩) (.inl ⟨u, hu⟩)
      by_cases hno : .relock u ∈ as
      · exact .inl hno
      · have hpast : s.rtSemRelease.pc u = .past := by
          rw [rtSemRelease_cons hq]
          exact setPc_self
        refine .inr ?_
        rw [past_run hrun hi' hpast hno]
        simp
  | nil =>
      have hawake : ∀ t, s.pc t ≠ .asleep := fun t ht => by
        have hm := (hi.asleep t).mpr ht
        rw [hq] at hm
        cases hm
      have hpc : s.rtSemRelease.pc = s.pc := by rw [rtSemRelease_nil hq]
      constructor
      · intro hrel
        refine .inr fun t ht => ?_
        obtain ⟨as, s'', hrun, hno, hsleep⟩ := all_fall_asleep hi' (c := c) (by
          rw [rtSemRelease_nil hq]
          exact hr)
        obtain ⟨u, hw, hu⟩ := hrel ⟨t, .inl ht⟩ as s'' hrun
        rcases hu with hu | hu
        · exact hno u hu
        · exact hu (hsleep u (by rw [hpc]; exact hw.resolve_right (hawake u)))
      · intro hnone hw
        obtain ⟨t, ht⟩ := hw
        rcases hnone with ⟨u, hu⟩ | hnone
        · exact absurd hu (hawake u)
        · exact (ht.elim (hnone t) (hawake t)).elim

/-- **What signals and broadcasts do for the waiting threads**, in every reachable state. A broadcast
returns; it reaches every thread that is waiting, and none that comes later takes a token before
one of these, if and only if no thread has unlocked the mutex and not taken the semaphore yet. A
signal releases one of the waiting threads if and only if one of them sleeps, or there are none. -/
theorem cond_wakes (h : Reachable Init (fun s a s' => s.exec a = some s') s) :
    (∀ c, s.Runs c → ∃ s', s.exec (.broadcast c) = some s') ∧
    (∀ c s', s.exec (.broadcast c) = some s' →
      (BroadcastReaches s s' ↔ ∀ t, s.pc t ≠ .unlocked)) ∧
    ∀ c s', s.exec (.signal c) = some s' →
      (SignalReleases s s' ↔ (∃ t, s.pc t = .asleep) ∨ ∀ t, s.pc t ≠ .unlocked) := by
  have hi : s.Inv := h.invariant (fun _ hi => hi.inv) fun _ _ _ _ hi hs => hi.step hs
  exact ⟨fun c hr => ⟨_, (if_pos hr).trans (broadcast_eq hi)⟩,
    fun c s' => broadcastReaches_iff hi, fun c s' => signalReleases_iff hi⟩

end CondSys

/-! ## Two threads that have unlocked the mutex -/

/-- After the initialization. -/
def freshCond : CondSys where
  value := 0
  queue := []
  pc := fun _ => .idle
  owner := none

theorem freshCond_init : freshCond.Init := ⟨rfl, rfl, fun _ => rfl, rfl⟩

/-- Threads 0 and 1 sleep, and thread 2 has locked the mutex. -/
def twoAsleep : List CondAction :=
  [.lock 0, .wait 0, .take 0, .lock 1, .wait 1, .take 1, .lock 2]

/-- A broadcast wakes both. -/
theorem cond_wakes_twoAsleep : ∃ s s', runList CondSys.exec freshCond twoAsleep = some s ∧
    s.exec (.broadcast 2) = some s' ∧ CondSys.BroadcastReaches s s' := by
  obtain ⟨s, hs⟩ : ∃ s, runList CondSys.exec freshCond twoAsleep = some s := ⟨_, rfl⟩
  obtain ⟨h₁, h₂, -⟩ := CondSys.cond_wakes (reachable_of_runList (.init freshCond_init) hs)
  have hruns : s.Runs 2 := by
    obtain rfl := Option.some.inj hs
    exact ⟨rfl, rfl⟩
  obtain ⟨s', hs'⟩ := h₁ 2 hruns
  refine ⟨s, s', hs, hs', (h₂ 2 s' hs').mpr fun t => ?_⟩
  obtain rfl := Option.some.inj hs
  by_cases h0 : t = 0
  · rw [h0]
    decide
  · by_cases h1 : t = 1
    · rw [h1]
      decide
    · simp [CondSys.setPc, freshCond, CondSys.rtSemTake, h0, h1]

/-- Threads 0 and 1 have unlocked the mutex, and thread 2 has locked it. -/
def twoUnlocked : List CondAction := [.lock 0, .wait 0, .lock 1, .wait 1, .lock 2]

/-- After the broadcast thread 0 takes the one token, and thread 1 goes to sleep: it needs another
signal. -/
theorem broadcast_misses : ∃ s s', Reachable CondSys.Init (fun s a s' => s.exec a = some s') s ∧
    s.pc 0 = .unlocked ∧ s.pc 1 = .unlocked ∧ s.exec (.broadcast 2) = some s' ∧ s'.value = 1 ∧
    (∃ s'', runList CondSys.exec s' [.take 0, .take 1] = some s'' ∧ s''.pc 1 = .asleep) ∧
    ¬ CondSys.BroadcastReaches s s' := by
  obtain ⟨s, hs⟩ : ∃ s, runList CondSys.exec freshCond twoUnlocked = some s := ⟨_, rfl⟩
  obtain ⟨s', hs'⟩ : ∃ s', s.exec (.broadcast 2) = some s' := by
    obtain rfl := Option.some.inj hs
    exact ⟨_, rfl⟩
  obtain ⟨s'', hs'', hsleep⟩ :
      ∃ s'', runList CondSys.exec s' [.take 0, .take 1] = some s'' ∧ s''.pc 1 = .asleep := by
    obtain rfl := Option.some.inj hs
    obtain rfl := Option.some.inj hs'
    exact ⟨_, rfl, rfl⟩
  have hview : s.pc 0 = .unlocked ∧ s.pc 1 = .unlocked ∧ s'.value = 1 := by
    obtain rfl := Option.some.inj hs
    obtain rfl := Option.some.inj hs'
    exact ⟨rfl, rfl, rfl⟩
  exact ⟨s, s', reachable_of_runList (.init freshCond_init) hs, hview.1, hview.2.1, hs', hview.2.2,
    ⟨s'', hs'', hsleep⟩, fun hreach =>
      hreach.awake 1 (.inl hview.2.1) _ s'' hs'' (by simp) hsleep⟩

end RTThread.Pthreads
