import RTThread.Lib.Run
import RTThread.Lib.Count
import RTThread.Kernel.Model

set_option autoImplicit false

/-! # Read-write locks (`pthread_rwlock.c`)

The lock counts its holders in `rw_refcount` (-1 for a writer) and the threads that wait in
`rw_nwaitreaders` and `rw_nwaitwriters`; these are read and written with `rw_mutex` locked. A reader
waits while a writer holds the lock and while a writer waits for it, so a writer that gives up may
have to wake readers: only `pthread_rwlock_unlock` does.

Between threads, one step runs a function from one operation on `rw_mutex` or on a condition variable
to the next. The condition variables lose no wake-up: to unlock the mutex and to wait is one step. A
thread may also wake without a signal, as one does that finds a token in the semaphore.
-/

namespace RTThread.Pthreads

open Trans

/-- What a thread locks for, and which of the two condition variables it waits on. -/
inductive RwMode
  | read
  | write
  deriving DecidableEq

/-- `result` -/
inductive RwResult
  | ok
  | ebusy
  | etimedout
  deriving DecidableEq

/-- Where a thread is. -/
inductive RwPc
  /-- in none of the functions -/
  | out
  /-- the mutex is locked -/
  | inside (result : RwResult)
  /-- waits on a condition variable, with a time-out or without -/
  | asleep (m : RwMode) (timed : Bool)
  /-- is to lock the mutex again -/
  | awake (m : RwMode) (timed : Bool) (result : RwResult)
  deriving DecidableEq

namespace RwPc

/-- The thread is counted among the waiting readers or writers. -/
def waits : RwPc → Option RwMode
  | asleep m _ => some m
  | awake m _ _ => some m
  | _ => none

/-- The condition variable on which the thread sleeps. -/
def sleeps : RwPc → Option RwMode
  | asleep m _ => some m
  | _ => none

/-- The thread has the mutex. -/
def locked : RwPc → Bool
  | inside _ => true
  | _ => false

/-- What a signal does to the thread. -/
def woken : RwPc → RwPc
  | asleep m timed => awake m timed .ok
  | p => p

end RwPc

/-- The lock and the threads. -/
structure RwSys where
  /-- `rw_refcount` -/
  refcount : Int
  /-- `rw_nwaitreaders` and `rw_nwaitwriters` -/
  nwait : RwMode → Nat
  /-- the threads that sleep on `rw_condreaders` and on `rw_condwriters` -/
  cond : RwMode → List ThreadId
  /-- `rw_mutex.lock.owner` -/
  owner : Option ThreadId
  pc : ThreadId → RwPc
  destroyed : Bool
  /-- who holds the lock for reading, as often as it was locked -/
  readers : List ThreadId
  /-- who holds the lock for writing -/
  writers : List ThreadId

inductive RwAction
  | rdlock (t : ThreadId)
  | timedrdlock (t : ThreadId)
  | tryrdlock (t : ThreadId)
  | wrlock (t : ThreadId)
  | timedwrlock (t : ThreadId)
  | trywrlock (t : ThreadId)
  | unlock (t : ThreadId)
  /-- `pthread_rwlock_destroy`, and whether it can take the semaphores of the condition variables -/
  | destroy (t : ThreadId) (readers writers : Bool)
  /-- the end of `pthread_cond_wait`, and the function up to the next operation -/
  | resume (t : ThreadId)
  /-- a timed wait ends -/
  | timeout (t : ThreadId)
  /-- a wait ends without a signal -/
  | spurious (t : ThreadId)
  /-- `pthread_mutex_unlock` at the end of a function -/
  | leave (t : ThreadId)
  deriving DecidableEq

namespace RwSys

def setPc (s : RwSys) (t : ThreadId) (p : RwPc) : RwSys :=
  { s with pc := Function.update s.pc t p }

/-- `pthread_mutex_lock` -/
def mutexLock (s : RwSys) (t : ThreadId) (result : RwResult) : RwSys :=
  { s.setPc t (.inside result) with owner := some t }

/-- `pthread_mutex_unlock` -/
def mutexUnlock (s : RwSys) (t : ThreadId) : RwSys := { s.setPc t .out with owner := none }

/-- `pthread_cond_wait` and `pthread_cond_timedwait` up to the semaphore. -/
def condWait (s : RwSys) (t : ThreadId) (m : RwMode) (timed : Bool) : RwSys :=
  { s.setPc t (.asleep m timed) with
    owner := none
    cond := Function.update s.cond m (s.cond m ++ [t]) }

/-- `pthread_cond_signal` -/
def condSignal (s : RwSys) (m : RwMode) : RwSys :=
  match s.cond m with
  | t :: q => { s.setPc t (s.pc t).woken with cond := Function.update s.cond m q }
  | [] => s

/-- `pthread_cond_broadcast` -/
def condBroadcast (s : RwSys) (m : RwMode) : RwSys :=
  { s with
    pc := fun t => if t ∈ s.cond m then (s.pc t).woken else s.pc t
    cond := Function.update s.cond m [] }

/-- Another thread keeps the lock from being locked. -/
def Blocked (s : RwSys) : RwMode → Prop
  | .read => s.refcount < 0 ∨ 0 < s.nwait .write
  | .write => s.refcount ≠ 0

instance decidableBlocked (s : RwSys) : (m : RwMode) → Decidable (s.Blocked m)
  | .read => instDecidableOr
  | .write => instDecidableNot

/-- `rw_refcount++` or `rw_refcount = -1` -/
def acquire (s : RwSys) (t : ThreadId) : RwMode → RwSys
  | .read => { s with refcount := s.refcount + 1, readers := t :: s.readers }
  | .write => { s with refcount := -1, writers := t :: s.writers }

/-- The loop of the locking functions, from the test to the next wait, or to the end. -/
def lockLoop (s : RwSys) (t : ThreadId) (m : RwMode) (timed : Bool) : RwSys :=
  if s.Blocked m then
    { s with nwait := Function.update s.nwait m (s.nwait m + 1) }.condWait t m timed
  else s.acquire t m

/-- The test of the functions that do not wait. -/
def tryLock (s : RwSys) (t : ThreadId) (m : RwMode) : RwSys :=
  if s.Blocked m then s.setPc t (.inside .ebusy) else s.acquire t m

def pthreadRwlockRdlock (s : RwSys) (t : ThreadId) : RwSys := s.lockLoop t .read false

def pthreadRwlockTimedrdlock (s : RwSys) (t : ThreadId) : RwSys := s.lockLoop t .read true

def pthreadRwlockTryrdlock (s : RwSys) (t : ThreadId) : RwSys := s.tryLock t .read

def pthreadRwlockWrlock (s : RwSys) (t : ThreadId) : RwSys := s.lockLoop t .write false

def pthreadRwlockTimedwrlock (s : RwSys) (t : ThreadId) : RwSys := s.lockLoop t .write true

def pthreadRwlockTrywrlock (s : RwSys) (t : ThreadId) : RwSys := s.tryLock t .write

/-- The thread gives back what it holds. -/
def release (s : RwSys) (t : ThreadId) : RwSys :=
  { s with
    refcount :=
      if 0 < s.refcount then s.refcount - 1 else if s.refcount = -1 then 0 else s.refcount
    readers := s.readers.erase t
    writers := if t ∈ s.readers then s.writers else s.writers.erase t }

/-- Give preference to waiting writers over waiting readers. -/
def wakeWaiters (s : RwSys) : RwSys :=
  if 0 < s.nwait .write then
    if s.refcount = 0 then s.condSignal .write else s
  else if 0 < s.nwait .read then s.condBroadcast .read
  else s

def pthreadRwlockUnlock (s : RwSys) (t : ThreadId) : RwSys := (s.release t).wakeWaiters

/-- Nobody holds the lock or waits for it. -/
def Idle (s : RwSys) : Prop := s.refcount = 0 ∧ s.nwait .read = 0 ∧ s.nwait .write = 0

instance decidableIdle (s : RwSys) : Decidable s.Idle := instDecidableAnd

/-- `pthread_rwlock_destroy`: a lock in use is not destroyed, and the mutex is not unlocked. -/
def pthreadRwlockDestroy (s : RwSys) (t : ThreadId) (readers writers : Bool) : RwSys :=
  if ¬ s.Idle then s.setPc t .out
  else if readers ∧ writers then { s with destroyed := true }
  else s.setPc t (.inside .ebusy)

/-- The thread calls a function. It does not come past `pthread_mutex_lock` when it owns the mutex
(`EDEADLK`), and waits while another does. -/
def call (s : RwSys) (t : ThreadId) (body : RwSys → RwSys) : Option RwSys :=
  if s.pc t = .out ∧ s.destroyed = false then
    if s.owner = none then some (body (s.mutexLock t .ok))
    else if s.owner = some t then some s
    else none
  else none

/-- The thread holds the lock. -/
def Holds (s : RwSys) (t : ThreadId) : Prop := t ∈ s.readers ∨ t ∈ s.writers

instance decidableHolds (s : RwSys) (t : ThreadId) : Decidable (s.Holds t) := instDecidableOr

/-- The thread has locked the mutex again after a wait: `rw_nwaitreaders--`, `rw_nwaitwriters--`. -/
def comeBack (s : RwSys) (t : ThreadId) (m : RwMode) (result : RwResult) : RwSys :=
  { s.mutexLock t result with nwait := Function.update s.nwait m (s.nwait m - 1) }

/-- A wait ends with a result. -/
def wakeUp (s : RwSys) (t : ThreadId) (m : RwMode) (timed : Bool) (result : RwResult) : RwSys :=
  { s.setPc t (.awake m timed result) with
    cond := Function.update s.cond m ((s.cond m).erase t) }

def exec (s : RwSys) : RwAction → Option RwSys
  | .rdlock t => s.call t fun s => s.pthreadRwlockRdlock t
  | .timedrdlock t => s.call t fun s => s.pthreadRwlockTimedrdlock t
  | .tryrdlock t => s.call t fun s => s.pthreadRwlockTryrdlock t
  | .wrlock t => s.call t fun s => s.pthreadRwlockWrlock t
  | .timedwrlock t => s.call t fun s => s.pthreadRwlockTimedwrlock t
  | .trywrlock t => s.call t fun s => s.pthreadRwlockTrywrlock t
  | .unlock t => if s.Holds t then s.call t fun s => s.pthreadRwlockUnlock t else none
  | .destroy t readers writers => s.call t fun s => s.pthreadRwlockDestroy t readers writers
  | .resume t => match s.pc t with
    | .awake m timed result =>
      if s.owner = none ∧ s.destroyed = false then
        -- a wait that fails ends the loop
        some (if result = .ok then (s.comeBack t m result).lockLoop t m timed
          else s.comeBack t m result)
      else none
    | _ => none
  | .timeout t => match s.pc t with
    | .asleep m true => some (s.wakeUp t m true .etimedout)
    | _ => none
  | .spurious t => match s.pc t with
    | .asleep m timed => some (s.wakeUp t m timed .ok)
    | _ => none
  | .leave t => match s.pc t with
    | .inside _ => some (s.mutexUnlock t)
    | _ => none

/-- After `pthread_rwlock_init`. -/
structure Init (s : RwSys) : Prop where
  refcount : s.refcount = 0
  nwait : ∀ m, s.nwait m = 0
  cond : ∀ m, s.cond m = []
  owner : s.owner = none
  pc : ∀ t, s.pc t = .out
  readers : s.readers = []
  writers : s.writers = []

/-! ## What is claimed -/

/-- `rw_refcount` is -1 with exactly one writer and no reader, or it is the number of readers. -/
def Counted (s : RwSys) : Prop :=
  (s.refcount = -1 ∧ (∃ t, s.writers = [t]) ∧ s.readers = []) ∨
    (s.refcount = s.readers.length ∧ s.writers = [])

/-- No thread runs inside a function. -/
def Quiet (s : RwSys) : Prop := ∀ t, s.pc t = .out ∨ ∃ m timed, s.pc t = .asleep m timed

/-- The mutex is free, a reader sleeps on account of a writer that holds the lock or waits for it, a
writer on account of a thread that holds the lock. -/
structure AtRest (s : RwSys) : Prop where
  owner : s.owner = none
  read : ∀ t timed, s.pc t = .asleep .read timed →
    s.writers ≠ [] ∨ ∃ u timed, s.pc u = .asleep .write timed
  write : ∀ t timed, s.pc t = .asleep .write timed → s.readers ≠ [] ∨ s.writers ≠ []

/-- Where a call of `pthread_rwlock_destroy` leads to: if it returns `EBUSY`, at once or when it has
unlocked the mutex, the lock is as before the call. -/
def UsableAfter (s : RwSys) (t : ThreadId) (s' : RwSys) : Prop :=
  (s'.pc t = .out → s' = s) ∧ (s'.pc t = .inside .ebusy → s'.exec (.leave t) = some s)

/-- A step that does not destroy a lock in use, and with which no last waiting writer gives up, with
readers asleep that could lock. -/
def Sound (s : RwSys) : RwAction → Prop
  | .destroy _ _ _ => s.Idle
  | .resume t => ∀ timed result, s.pc t = .awake .write timed result → result ≠ .ok →
      s.nwait .write = 1 → 0 ≤ s.refcount → s.cond .read = []
  | _ => True

/-- What holds in every run of such steps. -/
structure Inv (s : RwSys) : Prop where
  counted : s.Counted
  owner : ∀ t, s.owner = some t ↔ (s.pc t).locked = true
  cond : ∀ m t, t ∈ s.cond m ↔ (s.pc t).sleeps = some m
  nodup : ∀ m, (s.cond m).Nodup
  waits : ∀ m, Counts (fun t => (s.pc t).waits = some m) (s.nwait m)

/-- Readers sleep on account of writers. A writer sleeps on account of a holder, or another writer is
on its way. -/
structure Served (s : RwSys) : Prop where
  read : s.cond .read ≠ [] → s.Blocked .read
  write : s.cond .write ≠ [] → s.Blocked .write ∨ ∃ t timed, s.pc t = .awake .write timed .ok

variable {s s' : RwSys} {a : RwAction} {t u : ThreadId} {p : RwPc} {m : RwMode} {timed : Bool}
  {result : RwResult} {body : RwSys → RwSys}

/-! ## Places -/

@[simp] theorem setPc_self : (s.setPc t p).pc t = p := Function.update_self ..

theorem setPc_of_ne (h : u ≠ t) : (s.setPc t p).pc u = s.pc u := Function.update_of_ne h ..

/-- A thread that comes to another place, counted as before. -/
theorem Inv.waits_same (i : s.Inv) (h : p.waits = (s.pc t).waits) (m : RwMode) :
    Counts (fun u => ((s.setPc t p).pc u).waits = some m) (s.nwait m) := by
  refine (i.waits m).congr fun u => ?_
  by_cases hu : u = t
  · subst hu
    rw [setPc_self, h]
  · rw [setPc_of_ne hu]

/-- A thread that is counted now. -/
theorem Inv.waits_more (i : s.Inv) (ht : (s.pc t).waits = none) (hp : p.waits = some m)
    (m' : RwMode) : Counts (fun u => ((s.setPc t p).pc u).waits = some m')
      (Function.update s.nwait m (s.nwait m + 1) m') := by
  by_cases hm : m' = m
  · subst hm
    rw [Function.update_self]
    refine (i.waits m').gain (a := t) (by simp [ht]) (by simp [hp]) fun u hu => ?_
    rw [setPc_of_ne hu]
  · rw [Function.update_of_ne hm]
    refine (i.waits m').congr fun u => ?_
    by_cases hu : u = t
    · subst hu
      rw [setPc_self, ht, hp]
      simp [Ne.symm hm]
    · rw [setPc_of_ne hu]

/-- A thread that is counted no more. -/
theorem Inv.waits_less (i : s.Inv) (ht : (s.pc t).waits = some m) (hp : p.waits = none)
    (m' : RwMode) : Counts (fun u => ((s.setPc t p).pc u).waits = some m')
      (Function.update s.nwait m (s.nwait m - 1) m') := by
  by_cases hm : m' = m
  · subst hm
    have hpos := (i.waits m').pos ht
    rw [Function.update_self]
    refine Counts.leave (p := fun u => (s.pc u).waits = some m') (a := t) ?_ ht (by simp [hp])
      fun u hu => ?_
    · rw [Nat.sub_add_cancel hpos]
      exact i.waits m'
    · rw [setPc_of_ne hu]
  · rw [Function.update_of_ne hm]
    refine (i.waits m').congr fun u => ?_
    by_cases hu : u = t
    · subst hu
      rw [setPc_self, ht, hp]
      simp [Ne.symm hm]
    · rw [setPc_of_ne hu]

/-- A thread that does not sleep, before and after. -/
theorem Inv.cond_same (i : s.Inv) (ht : (s.pc t).sleeps = none) (hp : p.sleeps = none)
    (m : RwMode) (u : ThreadId) : u ∈ s.cond m ↔ ((s.setPc t p).pc u).sleeps = some m := by
  rw [i.cond]
  by_cases hu : u = t
  · subst hu
    rw [setPc_self, ht, hp]
  · rw [setPc_of_ne hu]

/-- The owner of the mutex is the thread that is inside, when one comes in. -/
theorem Inv.owner_in (i : s.Inv) (ho : s.owner = none) (hp : p.locked = true) (u : ThreadId) :
    some t = some u ↔ ((s.setPc t p).pc u).locked = true := by
  by_cases hu : u = t
  · subst hu
    rw [setPc_self]
    exact iff_of_true rfl hp
  · rw [setPc_of_ne hu, ← i.owner, ho]
    exact iff_of_false (fun h => hu (Option.some.inj h).symm) (by simp)

/-- Nobody has the mutex when its owner has unlocked it. -/
theorem Inv.owner_out (i : s.Inv) (ht : (s.pc t).locked = true) (hp : p.locked = false)
    (u : ThreadId) : none = some u ↔ ((s.setPc t p).pc u).locked = true := by
  by_cases hu : u = t
  · subst hu
    rw [setPc_self, hp]
    simp
  · rw [setPc_of_ne hu, ← i.owner, (i.owner t).mpr ht]
    exact iff_of_false (by simp) fun h => hu (Option.some.inj h).symm

/-- The owner does not change. -/
theorem Inv.owner_same (i : s.Inv) (h : p.locked = (s.pc t).locked) (u : ThreadId) :
    s.owner = some u ↔ ((s.setPc t p).pc u).locked = true := by
  rw [i.owner]
  by_cases hu : u = t
  · subst hu
    rw [setPc_self, h]
  · rw [setPc_of_ne hu]

/-! ## The parts of a step -/

theorem Inv.mutexLock (i : s.Inv) (ho : s.owner = none) (ht : s.pc t = .out) :
    (s.mutexLock t result).Inv :=
  ⟨i.counted, i.owner_in ho rfl, i.cond_same (by rw [ht]; rfl) rfl, i.nodup,
    i.waits_same (by rw [ht]; rfl)⟩

theorem Inv.comeBack (i : s.Inv) (ho : s.owner = none) (ht : s.pc t = .awake m timed result) :
    (s.comeBack t m result).Inv :=
  ⟨i.counted, i.owner_in ho rfl, i.cond_same (by rw [ht]; rfl) rfl, i.nodup,
    i.waits_less (by rw [ht]; rfl) rfl⟩

theorem Inv.setResult (i : s.Inv) (ht : (s.pc t).locked = true) :
    (s.setPc t (.inside result)).Inv := by
  obtain ⟨r, hr⟩ : ∃ r, s.pc t = .inside r := by
    cases hp : s.pc t with
    | inside r => exact ⟨r, rfl⟩
    | _ => rw [hp] at ht; cases ht
  exact ⟨i.counted, i.owner_same (by rw [hr]; rfl), i.cond_same (by rw [hr]; rfl) rfl, i.nodup,
    i.waits_same (by rw [hr]; rfl)⟩

theorem Inv.mutexUnlock (i : s.Inv) (ht : s.pc t = .inside result) : (s.mutexUnlock t).Inv :=
  ⟨i.counted, i.owner_out (by rw [ht]; rfl) rfl, i.cond_same (by rw [ht]; rfl) rfl, i.nodup,
    i.waits_same (by rw [ht]; rfl)⟩

/-- A thread goes to sleep. -/
theorem Inv.condWait (i : s.Inv) (ht : s.pc t = .inside result) :
    ({ s with nwait := Function.update s.nwait m (s.nwait m + 1) }.condWait t m timed).Inv := by
  have hnot : ∀ m', t ∉ s.cond m' := fun m' hm => by
    have hs := (i.cond m' t).mp hm
    rw [ht] at hs
    cases hs
  refine ⟨i.counted, i.owner_out (by rw [ht]; rfl) rfl, fun m' u => ?_, fun m' => ?_,
    i.waits_more (by rw [ht]; rfl) rfl⟩
  · change u ∈ Function.update s.cond m (s.cond m ++ [t]) m' ↔
      ((s.setPc t (.asleep m timed)).pc u).sleeps = some m'
    by_cases hu : u = t
    · subst hu
      rw [setPc_self]
      by_cases hm : m' = m
      · subst hm
        simp [RwPc.sleeps]
      · rw [Function.update_of_ne hm]
        exact iff_of_false (hnot m') (by simp [RwPc.sleeps, Ne.symm hm])
    · rw [setPc_of_ne hu, ← i.cond]
      by_cases hm : m' = m
      · subst hm
        simp [hu]
      · rw [Function.update_of_ne hm]
  · change (Function.update s.cond m (s.cond m ++ [t]) m').Nodup
    by_cases hm : m' = m
    · subst hm
      rw [Function.update_self]
      exact List.nodup_append.mpr ⟨i.nodup m', List.nodup_singleton t, fun x hx y hy he =>
        hnot m' (List.mem_singleton.mp hy ▸ he ▸ hx)⟩
    · rw [Function.update_of_ne hm]
      exact i.nodup m'

/-- A thread that sleeps wakes. -/
theorem Inv.wakeUp (i : s.Inv) (ht : s.pc t = .asleep m timed) :
    (s.wakeUp t m timed result).Inv := by
  refine ⟨i.counted, i.owner_same (by rw [ht]; rfl), fun m' u => ?_, fun m' => ?_,
    i.waits_same (by rw [ht]; rfl)⟩
  · change u ∈ Function.update s.cond m ((s.cond m).erase t) m' ↔
      ((s.setPc t (.awake m timed result)).pc u).sleeps = some m'
    by_cases hu : u = t
    · subst hu
      rw [setPc_self]
      refine iff_of_false (fun hmem => ?_) (by simp [RwPc.sleeps])
      by_cases hm : m' = m
      · subst hm
        rw [Function.update_self] at hmem
        exact (i.nodup m').not_mem_erase hmem
      · rw [Function.update_of_ne hm, i.cond, ht] at hmem
        exact hm (Option.some.inj hmem).symm
    · rw [setPc_of_ne hu, ← i.cond]
      by_cases hm : m' = m
      · subst hm
        rw [Function.update_self]
        exact List.mem_erase_of_ne hu
      · rw [Function.update_of_ne hm]
  · change (Function.update s.cond m ((s.cond m).erase t) m').Nodup
    by_cases hm : m' = m
    · subst hm
      rw [Function.update_self]
      exact (i.nodup m').erase t
    · rw [Function.update_of_ne hm]
      exact i.nodup m'

/-- A signal wakes the thread that has slept longest. -/
theorem Inv.condSignal_eq (i : s.Inv) {q : List ThreadId} (hq : s.cond m = t :: q) :
    ∃ timed, s.pc t = .asleep m timed ∧ s.condSignal m = s.wakeUp t m timed .ok := by
  have hs := (i.cond m t).mp (hq ▸ List.mem_cons_self)
  cases hp : s.pc t with
  | asleep m' timed =>
      rw [hp] at hs
      obtain rfl := Option.some.inj hs
      refine ⟨timed, rfl, ?_⟩
      rw [RwSys.condSignal, RwSys.wakeUp, hq]
      dsimp only
      rw [List.erase_cons_head, hp]
      rfl
  | _ => rw [hp] at hs; cases hs

theorem Inv.condSignal (i : s.Inv) : (s.condSignal m).Inv := by
  cases hq : s.cond m with
  | nil =>
      rw [RwSys.condSignal, hq]
      exact i
  | cons t q =>
      obtain ⟨timed, hp, he⟩ := i.condSignal_eq hq
      rw [he]
      exact i.wakeUp hp

/-- The threads that sleep wake. -/
theorem Inv.condBroadcast (i : s.Inv) : (s.condBroadcast m).Inv := by
  have hpc : ∀ u, (s.condBroadcast m).pc u = if u ∈ s.cond m then (s.pc u).woken else s.pc u :=
    fun u => rfl
  have hlocked : ∀ p : RwPc, p.woken.locked = p.locked := fun p => by cases p <;> rfl
  have hwaits : ∀ p : RwPc, p.woken.waits = p.waits := fun p => by cases p <;> rfl
  have hsleeps : ∀ p : RwPc, p.woken.sleeps = none := fun p => by cases p <;> rfl
  refine ⟨i.counted, fun u => ?_, fun m' u => ?_, fun m' => ?_, fun m' => ?_⟩
  · rw [hpc]
    refine (i.owner u).trans ?_
    split_ifs
    · rw [hlocked]
    · rfl
  · rw [hpc]
    change u ∈ Function.update s.cond m [] m' ↔ _
    by_cases hm : m' = m
    · subst hm
      rw [Function.update_self]
      refine iff_of_false (by simp) ?_
      split_ifs with hu
      · simp [hsleeps]
      · exact fun hs => hu ((i.cond m' u).mpr hs)
    · rw [Function.update_of_ne hm]
      split_ifs with hu
      · rw [i.cond, (i.cond m u).mp hu, hsleeps]
        simp [Ne.symm hm]
      · exact i.cond m' u
  · change (Function.update s.cond m [] m').Nodup
    by_cases hm : m' = m
    · subst hm
      rw [Function.update_self]
      exact List.nodup_nil
    · rw [Function.update_of_ne hm]
      exact i.nodup m'
  · refine (i.waits m').congr fun u => ?_
    rw [hpc]
    split_ifs
    · rw [hwaits]
    · rfl

theorem Inv.acquire (i : s.Inv) (hb : ¬ s.Blocked m) : (s.acquire t m).Inv := by
  cases m with
  | read =>
      refine ⟨.inr ?_, i.owner, i.cond, i.nodup, i.waits⟩
      obtain ⟨hr, -, -⟩ | ⟨hr, hw⟩ := i.counted
      · exact absurd (.inl (by omega)) hb
      · exact ⟨by simp [RwSys.acquire, hr], hw⟩
  | write =>
      refine ⟨.inl ?_, i.owner, i.cond, i.nodup, i.waits⟩
      have hzero : s.refcount = 0 := not_not.mp hb
      obtain ⟨hr, -, -⟩ | ⟨hr, hw⟩ := i.counted
      · omega
      · refine ⟨rfl, ⟨t, by simp [RwSys.acquire, hw]⟩, ?_⟩
        exact (List.length_eq_zero_iff (l := s.readers)).mp (by omega)

theorem Inv.release (i : s.Inv) (h : s.Holds t) : (s.release t).Inv := by
  refine ⟨?_, i.owner, i.cond, i.nodup, i.waits⟩
  obtain ⟨hr, ⟨w, hw⟩, hnil⟩ | ⟨hr, hw⟩ := i.counted
  · have ht : t = w := by
      rw [Holds, hnil, hw] at h
      simpa using h
    refine .inr ⟨?_, ?_⟩
    · simp [RwSys.release, hr, hnil]
    · simp [RwSys.release, hnil, hw, ht]
  · have ht : t ∈ s.readers := by
      rw [Holds, hw] at h
      simpa using h
    have hpos := List.length_pos_of_mem ht
    refine .inr ⟨?_, ?_⟩
    · simp only [RwSys.release, List.length_erase_of_mem ht]
      rw [if_pos (by omega)]
      omega
    · simp [RwSys.release, ht, hw]

theorem Inv.wakeWaiters (i : s.Inv) : s.wakeWaiters.Inv := by
  unfold RwSys.wakeWaiters
  split_ifs
  · exact i.condSignal
  · exact i
  · exact i.condBroadcast
  · exact i

theorem Inv.lockLoop (i : s.Inv) (ht : s.pc t = .inside result) : (s.lockLoop t m timed).Inv := by
  unfold RwSys.lockLoop
  split_ifs with hb
  · exact i.condWait ht
  · exact i.acquire hb

theorem Inv.tryLock (i : s.Inv) (ht : s.pc t = .inside result) : (s.tryLock t m).Inv := by
  unfold RwSys.tryLock
  split_ifs with hb
  · exact i.setResult (by rw [ht]; rfl)
  · exact i.acquire hb

/-! ## Who is served -/

/-- A thread that is not a writer on its way comes to another place. -/
theorem Served.setPc (h : s.Served) (ht : ∀ timed, s.pc t ≠ .awake .write timed .ok) :
    (s.setPc t p).Served := by
  refine ⟨h.read, fun hne => (h.write hne).imp_right ?_⟩
  rintro ⟨u, timed, hu⟩
  refine ⟨u, timed, (setPc_of_ne fun he => ?_).trans hu⟩
  exact ht timed (he ▸ hu)

theorem Served.mutexLock (h : s.Served) (ht : ∀ timed, s.pc t ≠ .awake .write timed .ok) :
    (s.mutexLock t result).Served :=
  ⟨h.read, (h.setPc (p := .inside result) ht).write⟩

theorem Served.mutexUnlock (h : s.Served) (ht : ∀ timed, s.pc t ≠ .awake .write timed .ok) :
    (s.mutexUnlock t).Served :=
  ⟨h.read, (h.setPc (p := .out) ht).write⟩

/-- A thread that does not go on in the loop comes back: as a writer, it must not be the last that
waits, unless a writer holds the lock or no reader sleeps. -/
theorem Served.comeBack (h : s.Served) (ht : ∀ timed, s.pc t ≠ .awake .write timed .ok)
    (hm : m = .write → s.nwait .write ≤ 1 → 0 ≤ s.refcount → s.cond .read = []) :
    (s.comeBack t m result).Served := by
  refine ⟨fun hne => ?_, (h.setPc ht).write⟩
  change s.refcount < 0 ∨ 0 < Function.update s.nwait m (s.nwait m - 1) .write
  cases m with
  | read => exact h.read hne
  | write =>
      rw [Function.update_self]
      by_contra hnot
      rw [not_or] at hnot
      exact hne (hm rfl (by omega) (by omega))

theorem Served.wakeUp (h : s.Served) (ht : s.pc t = .asleep m timed) :
    (s.wakeUp t m timed result).Served := by
  have hset := h.setPc (t := t) (p := .awake m timed result) (by simp [ht])
  have hcond : ∀ m', (s.wakeUp t m timed result).cond m' ≠ [] → s.cond m' ≠ [] := by
    intro m' hne he
    refine hne ?_
    change Function.update s.cond m ((s.cond m).erase t) m' = []
    by_cases hm : m' = m
    · subst hm
      rw [Function.update_self, he]
      rfl
    · rw [Function.update_of_ne hm]
      exact he
  exact ⟨fun hne => h.read (hcond _ hne), fun hne => hset.write (hcond _ hne)⟩

/-- When a writer locks, or goes to sleep, the threads that sleep do so on account of it or of the
holder. -/
theorem served_acquire_write : (s.acquire t .write).Served :=
  ⟨fun _ => .inl (by simp [RwSys.acquire]), fun _ => .inl (by simp [Blocked, RwSys.acquire])⟩

theorem served_lockLoop_write : (s.lockLoop t .write timed).Served := by
  unfold RwSys.lockLoop
  split_ifs with hb
  · exact ⟨fun _ => .inr (by simp [RwSys.condWait, RwSys.setPc]), fun _ => .inl hb⟩
  · exact served_acquire_write

/-- A reader locks when no reader sleeps. -/
theorem Served.acquire_read (h : s.Served) (hb : ¬ s.Blocked .read) :
    (s.acquire t .read).Served := by
  refine ⟨fun hne => absurd (h.read hne) hb, fun _ => .inl ?_⟩
  change s.refcount + 1 ≠ 0
  have hnonneg : ¬ s.refcount < 0 := fun hn => hb (.inl hn)
  omega

theorem Served.lockLoop_read (h : s.Served) (ht : s.pc t = .inside result) :
    (s.lockLoop t .read timed).Served := by
  unfold RwSys.lockLoop
  split_ifs with hb
  · have hset := h.setPc (t := t) (p := .asleep .read timed) (by simp [ht])
    exact ⟨fun _ => hb, hset.write⟩
  · exact h.acquire_read hb

theorem Served.lockLoop (h : s.Served) (ht : s.pc t = .inside result) :
    (s.lockLoop t m timed).Served := by
  cases m with
  | read => exact h.lockLoop_read ht
  | write => exact served_lockLoop_write

theorem Served.tryLock (h : s.Served) (ht : s.pc t = .inside result) : (s.tryLock t m).Served := by
  unfold RwSys.tryLock
  split_ifs with hb
  · exact h.setPc (by simp [ht])
  · cases m with
    | read => exact h.acquire_read hb
    | write => exact served_acquire_write

/-- The threads that sleep are counted. -/
theorem Inv.cond_nil (i : s.Inv) (h : s.nwait m = 0) : s.cond m = [] := by
  refine List.eq_nil_iff_forall_not_mem.mpr fun u hu => ?_
  have hs := (i.cond m u).mp hu
  have hw : (s.pc u).waits = some m := by
    cases hp : s.pc u with
    | asleep m' timed => rw [hp] at hs; exact hs
    | _ => rw [hp] at hs; cases hs
  exact Nat.ne_of_gt ((i.waits m).pos hw) h

/-- **An unlock leaves nobody asleep without a reason.** -/
theorem Inv.served_wakeWaiters (i : s.Inv) : s.wakeWaiters.Served := by
  unfold RwSys.wakeWaiters
  split_ifs with hw hz hr
  · cases hq : s.cond .write with
    | nil =>
        rw [RwSys.condSignal, hq]
        exact ⟨fun _ => .inr hw, fun hne => absurd hq hne⟩
    | cons t q =>
        obtain ⟨timed, -, he⟩ := i.condSignal_eq hq
        rw [he]
        exact ⟨fun _ => .inr hw, fun _ => .inr ⟨t, timed, setPc_self⟩⟩
  · exact ⟨fun _ => .inr hw, fun _ => .inl hz⟩
  · have hnil : (s.condBroadcast .read).cond .write = [] := i.cond_nil (by omega)
    exact ⟨fun hne => absurd rfl hne, fun hne => absurd hnil hne⟩
  · exact ⟨fun hne => absurd (i.cond_nil (by omega)) hne,
      fun hne => absurd (i.cond_nil (by omega)) hne⟩

/-! ## Steps -/

/-- A call comes past the mutex. -/
theorem Inv.call_cases (i : s.Inv) (h : s.call t body = some s') :
    s.pc t = .out ∧ s.owner = none ∧ s' = body (s.mutexLock t .ok) := by
  unfold RwSys.call at h
  split_ifs at h with hc ho he
  · exact ⟨hc.1, ho, (Option.some.inj h).symm⟩
  · have hl := (i.owner t).mp he
    rw [hc.1] at hl
    cases hl

/-- **What a step is.** -/
theorem exec_cases (h : s.exec a = some s') :
    (∃ t m timed, (s.call t fun s => s.lockLoop t m timed) = some s') ∨
    (∃ t m, (s.call t fun s => s.tryLock t m) = some s') ∨
    (∃ t, s.Holds t ∧ (s.call t fun s => s.pthreadRwlockUnlock t) = some s') ∨
    (∃ t r w, a = .destroy t r w ∧ (s.call t fun s => s.pthreadRwlockDestroy t r w) = some s') ∨
    (∃ t m timed result, a = .resume t ∧ s.pc t = .awake m timed result ∧ s.owner = none ∧
      s' = if result = .ok then (s.comeBack t m result).lockLoop t m timed
        else s.comeBack t m result) ∨
    (∃ t m timed result, s.pc t = .asleep m timed ∧ s' = s.wakeUp t m timed result) ∨
    ∃ t result, s.pc t = .inside result ∧ s' = s.mutexUnlock t := by
  cases a with
  | rdlock t => exact .inl ⟨t, .read, false, h⟩
  | timedrdlock t => exact .inl ⟨t, .read, true, h⟩
  | wrlock t => exact .inl ⟨t, .write, false, h⟩
  | timedwrlock t => exact .inl ⟨t, .write, true, h⟩
  | tryrdlock t => exact .inr (.inl ⟨t, .read, h⟩)
  | trywrlock t => exact .inr (.inl ⟨t, .write, h⟩)
  | unlock t =>
      simp only [exec] at h
      split_ifs at h with hh
      exact .inr (.inr (.inl ⟨t, hh, h⟩))
  | destroy t r w => exact .inr (.inr (.inr (.inl ⟨t, r, w, rfl, h⟩)))
  | resume t =>
      cases hp : s.pc t with
      | awake m timed result =>
          simp only [exec, hp] at h
          split at h
          · rename_i hc
            exact .inr (.inr (.inr (.inr (.inl
              ⟨t, m, timed, result, rfl, hp, hc.1, (Option.some.inj h).symm⟩))))
          · cases h
      | _ => simp only [exec, hp] at h; cases h
  | timeout t =>
      cases hp : s.pc t with
      | asleep m timed =>
          cases timed with
          | true =>
              simp only [exec, hp] at h
              exact .inr (.inr (.inr (.inr (.inr (.inl
                ⟨t, m, true, .etimedout, hp, (Option.some.inj h).symm⟩)))))
          | false => simp only [exec, hp] at h; cases h
      | _ => simp only [exec, hp] at h; cases h
  | spurious t =>
      cases hp : s.pc t with
      | asleep m timed =>
          simp only [exec, hp] at h
          exact .inr (.inr (.inr (.inr (.inr (.inl
            ⟨t, m, timed, .ok, hp, (Option.some.inj h).symm⟩)))))
      | _ => simp only [exec, hp] at h; cases h
  | leave t =>
      cases hp : s.pc t with
      | inside result =>
          simp only [exec, hp] at h
          exact .inr (.inr (.inr (.inr (.inr (.inr ⟨t, result, hp, (Option.some.inj h).symm⟩)))))
      | _ => simp only [exec, hp] at h; cases h

/-- **One step keeps both.** -/
theorem Inv.step (i : s.Inv) (hv : s.Served) (hs : s.Sound a) (h : s.exec a = some s') :
    s'.Inv ∧ s'.Served := by
  have henter : ∀ {t}, s.pc t = .out → s.owner = none →
      (s.mutexLock t .ok).Inv ∧ (s.mutexLock t .ok).Served ∧
        (s.mutexLock t .ok).pc t = .inside .ok := fun ht ho =>
    ⟨i.mutexLock ho ht, hv.mutexLock (by simp [ht]), setPc_self⟩
  obtain ⟨t, m, timed, hc⟩ | ⟨t, m, hc⟩ | ⟨t, hh, hc⟩ | ⟨t, r, w, rfl, hc⟩ |
    ⟨t, m, timed, result, rfl, hp, ho, rfl⟩ | ⟨t, m, timed, result, hp, rfl⟩ |
    ⟨t, result, hp, rfl⟩ := exec_cases h
  · obtain ⟨ht, ho, rfl⟩ := i.call_cases hc
    obtain ⟨i₁, hv₁, hp₁⟩ := henter ht ho
    exact ⟨i₁.lockLoop hp₁, hv₁.lockLoop hp₁⟩
  · obtain ⟨ht, ho, rfl⟩ := i.call_cases hc
    obtain ⟨i₁, hv₁, hp₁⟩ := henter ht ho
    exact ⟨i₁.tryLock hp₁, hv₁.tryLock hp₁⟩
  · obtain ⟨ht, ho, rfl⟩ := i.call_cases hc
    obtain ⟨i₁, -, -⟩ := henter ht ho
    have i₂ := i₁.release hh
    exact ⟨i₂.wakeWaiters, i₂.served_wakeWaiters⟩
  · obtain ⟨ht, ho, rfl⟩ := i.call_cases hc
    obtain ⟨i₁, hv₁, hp₁⟩ := henter ht ho
    unfold pthreadRwlockDestroy
    have hidle : (s.mutexLock t .ok).Idle := hs
    rw [if_neg (not_not.mpr hidle)]
    split_ifs
    · exact ⟨⟨i₁.counted, i₁.owner, i₁.cond, i₁.nodup, i₁.waits⟩, hv₁.read, hv₁.write⟩
    · exact ⟨i₁.setResult (by rw [hp₁]; rfl), hv₁.setPc (by simp [hp₁])⟩
  · have i₁ := i.comeBack ho hp
    have hp₁ : (s.comeBack t m result).pc t = .inside result := setPc_self
    split_ifs with hr
    · refine ⟨i₁.lockLoop hp₁, ?_⟩
      cases m with
      | read => exact (hv.comeBack (by simp [hp]) (by simp)).lockLoop hp₁
      | write => exact served_lockLoop_write
    · refine ⟨i₁, hv.comeBack (fun timed he => ?_) fun hm hle hnonneg => ?_⟩
      · rw [hp] at he
        cases he
        exact hr rfl
      · subst hm
        have hpos := (i.waits .write).pos (a := t) (by rw [hp]; rfl)
        exact hs timed result hp hr (by omega) hnonneg
  · exact ⟨i.wakeUp hp, hv.wakeUp hp⟩
  · exact ⟨i.mutexUnlock hp, hv.mutexUnlock (by simp [hp])⟩

theorem Init.inv (h : s.Init) : s.Inv :=
  ⟨.inr ⟨by simp [h.refcount, h.readers], h.writers⟩, fun t => by simp [h.owner, h.pc t, RwPc.locked],
    fun m t => by simp [h.cond m, h.pc t, RwPc.sleeps], fun m => by simp [h.cond m], fun m => by
      rw [h.nwait m]
      exact .zero fun t => by simp [h.pc t, RwPc.waits]⟩

theorem Init.served (h : s.Init) : s.Served :=
  ⟨fun hne => absurd (h.cond .read) hne, fun hne => absurd (h.cond .write) hne⟩

/-! ## Results -/

/-- Somebody holds a lock whose count is not zero. -/
theorem Inv.held (i : s.Inv) (h : s.refcount ≠ 0) : s.readers ≠ [] ∨ s.writers ≠ [] := by
  obtain ⟨-, ⟨w, hw⟩, -⟩ | ⟨hr, -⟩ := i.counted
  · exact .inr (by simp [hw])
  · refine .inl fun hnil => h ?_
    rw [hr, hnil]
    rfl

/-- A count below zero is that of a writer. -/
theorem Inv.writer_of_neg (i : s.Inv) (h : s.refcount < 0) : s.writers ≠ [] := by
  obtain ⟨-, ⟨w, hw⟩, -⟩ | ⟨hr, -⟩ := i.counted
  · simp [hw]
  · omega

/-- A thread that is counted. -/
theorem Inv.waiting (i : s.Inv) (h : 0 < s.nwait m) : ∃ t, (s.pc t).waits = some m := by
  by_contra hnone
  have hzero := (i.waits m).unique (.zero fun t ht => hnone ⟨t, ht⟩)
  omega

/-- **When no thread runs in a function**, the mutex is free and each thread that sleeps has a reason
to. -/
theorem Inv.atRest (i : s.Inv) (hv : s.Served) (hq : s.Quiet) : s.AtRest := by
  have hcond : ∀ {t m timed}, s.pc t = .asleep m timed → s.cond m ≠ [] := fun {t m timed} ht =>
    List.ne_nil_of_mem ((i.cond m t).mpr (by rw [ht]; rfl))
  refine ⟨?_, fun t timed ht => ?_, fun t timed ht => ?_⟩
  · cases ho : s.owner with
    | none => rfl
    | some t =>
        have hl := (i.owner t).mp ho
        rcases hq t with hp | ⟨m, timed, hp⟩
        · rw [hp] at hl; cases hl
        · rw [hp] at hl; cases hl
  · rcases hv.read (hcond ht) with hneg | hpos
    · exact .inl (i.writer_of_neg hneg)
    · obtain ⟨u, hu⟩ := i.waiting hpos
      rcases hq u with hp | ⟨m, timed, hp⟩
      · rw [hp] at hu
        cases hu
      · rw [hp] at hu
        obtain rfl := Option.some.inj hu
        exact .inr ⟨u, timed, hp⟩
  · rcases hv.write (hcond ht) with hb | ⟨u, timed', hu⟩
    · exact i.held hb
    · rcases hq u with hp | ⟨m, timed, hp⟩
      · rw [hp] at hu; cases hu
      · rw [hp] at hu; cases hu

/-- **A call of `pthread_rwlock_destroy` leaves the lock usable** if and only if nobody holds it or
waits for it. -/
theorem Inv.usableAfter_iff (i : s.Inv) {r w : Bool} (h : s.exec (.destroy t r w) = some s') :
    s.UsableAfter t s' ↔ s.Idle := by
  have hcall : (s.call t fun s => s.pthreadRwlockDestroy t r w) = some s' := h
  obtain ⟨ht, ho, rfl⟩ := i.call_cases hcall
  have hidle : (s.mutexLock t .ok).Idle ↔ s.Idle := Iff.rfl
  unfold pthreadRwlockDestroy
  constructor
  · intro hu
    by_contra hnot
    rw [if_pos (fun hi => hnot (hidle.mp hi))] at hu
    have he := congrArg RwSys.owner (hu.1 setPc_self)
    change some t = s.owner at he
    rw [ho] at he
    cases he
  · intro hi
    rw [if_neg (not_not.mpr (hidle.mpr hi))]
    split_ifs with hrw
    · refine ⟨fun hp => ?_, fun hp => ?_⟩
      · change (s.setPc t _).pc t = .out at hp
        rw [setPc_self] at hp
        cases hp
      · change (s.setPc t _).pc t = .inside .ebusy at hp
        rw [setPc_self] at hp
        cases hp
    · refine ⟨fun hp => ?_, fun hp => ?_⟩
      · rw [setPc_self] at hp
        cases hp
      · simp only [exec, hp]
        simp only [RwSys.mutexUnlock, RwSys.mutexLock, RwSys.setPc, Function.update_idem, ← ht,
          Function.update_eq_self, ← ho]

/-- **The read-write lock**, in every run whose steps are sound: the count is that of the holders;
when no thread runs in a function the mutex is free and each thread that sleeps has a reason to; and
a call of `pthread_rwlock_destroy` leaves the lock usable if and only if it is idle. -/
theorem rwlock_holds (h : Reachable Init (fun s a s' => s.Sound a ∧ s.exec a = some s') s) :
    s.Counted ∧ (s.Quiet → s.AtRest) ∧
    ∀ t r w s', s.exec (.destroy t r w) = some s' → (s.UsableAfter t s' ↔ s.Idle) := by
  obtain ⟨i, hv⟩ : s.Inv ∧ s.Served :=
    h.invariant (I := fun s => s.Inv ∧ s.Served) (fun _ hi => ⟨hi.inv, hi.served⟩)
      fun _ _ _ _ hi hs => hi.1.step hi.2 hs.1 hs.2
  exact ⟨i.counted, i.atRest hv, fun t r w s' => i.usableAfter_iff⟩

end RwSys

/-! ## A writer that gives up, and a lock in use that is destroyed -/

/-- After the initialization. -/
def freshRwlock : RwSys where
  refcount := 0
  nwait := fun _ => 0
  cond := fun _ => []
  owner := none
  pc := fun _ => .out
  destroyed := false
  readers := []
  writers := []

theorem freshRwlock_init : freshRwlock.Init :=
  ⟨rfl, fun _ => rfl, fun _ => rfl, rfl, fun _ => rfl, rfl, rfl⟩

/-- Thread 0 locks for reading and thread 1 waits to write. Thread 0 unlocks and thread 1 locks: all
steps are sound. -/
theorem rwlock_holds_handover : ∃ s, runList RwSys.exec freshRwlock
      [.rdlock 0, .leave 0, .wrlock 1, .unlock 0, .leave 0, .resume 1] = some s ∧
    s.writers = [1] ∧ s.Counted := by
  let step := fun (s : RwSys) a s' => s.Sound a ∧ s.exec a = some s'
  have h₀ : Reachable RwSys.Init step freshRwlock := .init freshRwlock_init
  have h₁ := h₀.step (a := RwAction.rdlock 0) ⟨trivial, rfl⟩
  have h₂ := h₁.step (a := RwAction.leave 0) ⟨trivial, rfl⟩
  have h₃ := h₂.step (a := RwAction.wrlock 1) ⟨trivial, rfl⟩
  have h₄ := h₃.step (a := RwAction.unlock 0) ⟨trivial, rfl⟩
  have h₅ := h₄.step (a := RwAction.leave 0) ⟨trivial, rfl⟩
  have h₆ := h₅.step (a := RwAction.resume 1) ⟨fun _ _ he hr => by cases he; exact absurd rfl hr, rfl⟩
  exact ⟨_, rfl, rfl, (RwSys.rwlock_holds h₆).1⟩

/-- Thread 0 has locked for reading, thread 1 waits to write and thread 2 to read; then thread 1 gives
up. -/
def givesUp : List RwAction :=
  [.rdlock 0, .leave 0, .timedwrlock 1, .rdlock 2, .timeout 1, .resume 1, .leave 1]

/-- Thread 1 tries to destroy a lock that thread 0 has locked for reading. -/
def destroyed : List RwAction := [.rdlock 0, .leave 0, .destroy 1 false false]

/-- Where the threads are after they came to places one after another. -/
def places (l : List (ThreadId × RwPc)) : ThreadId → RwPc :=
  l.foldl (fun f p => Function.update f p.1 p.2) fun _ => .out

/-- Thread 2 sleeps, and only a reader holds the lock; the mutex of the other lock stays locked, and
nobody else comes past it. -/
theorem rwlock_stuck :
    (∃ s, runList RwSys.exec freshRwlock givesUp = some s ∧ s.Quiet ∧
      s.pc 2 = .asleep .read false ∧ s.nwait .write = 0 ∧ s.readers = [0] ∧ ¬ s.AtRest) ∧
    ∃ s s', runList RwSys.exec freshRwlock destroyed = some s ∧ s.Quiet ∧ s.owner = some 1 ∧
      s.exec (.unlock 0) = none ∧ s' ∈ runList RwSys.exec freshRwlock (destroyed.take 2) ∧
      ¬ s'.UsableAfter 1 s ∧ ¬ s.AtRest := by
  constructor
  · obtain ⟨s, hs⟩ : ∃ s, runList RwSys.exec freshRwlock givesUp = some s := ⟨_, rfl⟩
    have hview : s.pc 2 = .asleep .read false ∧ s.nwait .write = 0 ∧ s.readers = [0] ∧
        s.writers = [] := by
      obtain rfl := Option.some.inj hs
      exact ⟨rfl, rfl, rfl, rfl⟩
    obtain ⟨h2, hw, hr, hnil⟩ := hview
    have hpc : s.pc = places [(0, .inside .ok), (0, .out), (1, .inside .ok), (1, .asleep .write true),
        (2, .inside .ok), (2, .asleep .read false), (1, .awake .write true .etimedout),
        (1, .inside .etimedout), (1, .out)] := by
      obtain rfl := Option.some.inj hs
      rfl
    have hout : ∀ t, t ≠ 2 → s.pc t = .out := by
      intro t ht
      rw [hpc]
      by_cases h1 : t = 1
      · rw [h1]; rfl
      · simp [places, h1, ht]
    refine ⟨s, hs, fun t => ?_, h2, hw, hr, fun hrest => ?_⟩
    · by_cases ht : t = 2
      · exact .inr ⟨.read, false, ht ▸ h2⟩
      · exact .inl (hout t ht)
    · rcases hrest.read 2 false h2 with hne | ⟨u, timed, hu⟩
      · exact hne hnil
      · by_cases hu2 : u = 2
        · rw [hu2, h2] at hu
          cases hu
        · rw [hout u hu2] at hu
          cases hu
  · obtain ⟨s', hs'⟩ : ∃ s', runList RwSys.exec freshRwlock (destroyed.take 2) = some s' := ⟨_, rfl⟩
    obtain ⟨s, hs⟩ : ∃ s, runList RwSys.exec freshRwlock destroyed = some s := ⟨_, rfl⟩
    have hview : s.pc = places [(0, .inside .ok), (0, .out), (1, .inside .ok), (1, .out)] ∧
        s.owner = some 1 ∧ s.exec (.unlock 0) = none ∧ s'.owner = none := by
      obtain rfl := Option.some.inj hs
      obtain rfl := Option.some.inj hs'
      exact ⟨rfl, rfl, rfl, rfl⟩
    obtain ⟨hpc, ho, hun, ho'⟩ := hview
    refine ⟨s, s', hs, fun t => .inl ?_, ho, hun, hs', fun hu => ?_, fun hrest => ?_⟩
    · rw [hpc]
      simp [places]
    · rw [← hu.1 (by rw [hpc]; rfl), ho] at ho'
      cases ho'
    · rw [hrest.owner] at ho
      cases ho

end RTThread.Pthreads
