import RTThread.Ipc.MutexSteps
import RTThread.Signal.System

set_option autoImplicit false

/-! # Mutexes and signals

A wait for a mutex that a signal interrupts goes back to `__again` in `rt_mutex_take`, with `-RT_EINTR`
still in the error field. A thread that was made owner in the meantime does the same when a handler
has run in it: it does not find the mutex free, and is suspended on its own mutex for ever. In the
runs in which no owner goes back there, no thread waits for a mutex it owns, and a take whose thread
was made owner by `rt_mutex_release` returns RT_EOK.

Interrupts stay enabled after the jump to `__again`. A step takes the code from there to the next
suspension or return as a whole, so the runs are those in which no interrupt comes in between.
-/

namespace RTThread.SigSys

open Kernel Ipc Trans

instance Takes.decidable : (c : Call) → Decidable (Takes c)
  | .semTake .. | .semRelease .. | .mutexTake .. | .mutexRelease .. => isTrue trivial
  | .semReset .. | .eventSend .. | .eventRecv .. | .eventReset .. | .mbSend .. | .mbRecv ..
  | .mbReset .. | .mqSend .. | .mqUrgent .. | .mqRecv .. | .mqReset .. => isFalse id

/-- The value and the owner of a mutex. -/
def lock (ipc : Ipc) (i : Nat) : Nat × Option ThreadId :=
  ((ipc.mutex i).value, (ipc.mutex i).owner)

section

variable [RtConfig] {i j : Nat} {q q' : Sys} {a : Action} {t u v : ThreadId} {x : Section}
  {ipc : Ipc} {pc : ThreadId → Pc} {time : Int} {c : Call}

/-! ## What a step does to the mutexes -/

omit [RtConfig] in
theorem lock_setMutex {a : Mutex} : lock (ipc.setMutex i a) i = (a.value, a.owner) ∧
    ∀ j, j ≠ i → lock (ipc.setMutex i a) j = lock ipc j := by
  refine ⟨by rw [lock, setMutex_self], fun j hj => ?_⟩
  unfold lock
  simp only [setMutex, Function.update_of_ne hj]

/-- No thread is added to the wait list of a mutex. -/
def Shrinks (k k' : Kernel) : Prop :=
  ∀ i v, v ∈ k'.lists (.suspend (.mutex i)) → v ∈ k.lists (.suspend (.mutex i))

/-- A section of thread `t`, as the mutexes see it. -/
inductive Move (ipc : Ipc) (t : ThreadId) (c : Call) (x : Section) : Prop
  | same (hm : ∀ i, lock x.ipc i = lock ipc i) (hl : Shrinks ipc.kernel x.ipc.kernel)
      (hp : ∀ i time, x.pc ≠ .wait (.mutexTake i time))
  /-- the mutex is free, and the thread takes it -/
  | take {i : Nat} (hc : ∃ time, c = .mutexTake i time) (hv : 0 < (ipc.mutex i).value)
      (hi : lock x.ipc i = ((ipc.mutex i).value - 1, some t))
      (hm : ∀ j, j ≠ i → lock x.ipc j = lock ipc j) (hl : Shrinks ipc.kernel x.ipc.kernel)
      (hp : x.pc = .ret c .ok .none)
  /-- the mutex is not free, and the thread waits -/
  | wait {i : Nat} {time : Int} (hc : c = .mutexTake i time) (htime : time ≠ 0)
      (hm : ∀ j, lock x.ipc j = lock ipc j) (hmem : t ∈ x.ipc.kernel.lists (.suspend (.mutex i)))
      (hl : ∀ j v, v ∈ x.ipc.kernel.lists (.suspend (.mutex j)) →
        v ∈ ipc.kernel.lists (.suspend (.mutex j)) ∨ v = t ∧ j = i)
      (hp : x.pc = .wait (.mutexTake i time))
  /-- the owner gives the mutex to thread `u` -/
  | hand {i : Nat} {u : ThreadId} (hc : c = .mutexRelease i) (ho : (ipc.mutex i).owner = some t)
      (hu : u ∈ ipc.kernel.lists (.suspend (.mutex i)))
      (hi : lock x.ipc i = ((ipc.mutex i).value, some u))
      (hm : ∀ j, j ≠ i → lock x.ipc j = lock ipc j)
      (hl : ∀ j v, v ∈ x.ipc.kernel.lists (.suspend (.mutex j)) →
        v ∈ ipc.kernel.lists (.suspend (.mutex j)) ∧ v ≠ u)
      (he : (x.ipc.kernel.thread u).error = (ipc.kernel.thread u).error)
      (hp : x.pc = .ret c .ok .none)
  /-- the owner releases the mutex -/
  | free {i : Nat} (hc : c = .mutexRelease i) (ho : (ipc.mutex i).owner = some t)
      (hi : lock x.ipc i = (((ipc.mutex i).value + 1) % 2 ^ 16, none))
      (hm : ∀ j, j ≠ i → lock x.ipc j = lock ipc j)
      (hnil : ipc.kernel.lists (.suspend (.mutex i)) = [])
      (hl : Shrinks ipc.kernel x.ipc.kernel) (hp : x.pc = .ret c .ok .none)

theorem MayChange.shrinks {p : Nat} {b : Prop} {k k' : Kernel} (m : MayChange k u p b k') :
    Shrinks k k' := fun i v hv => by
  rwa [m.wait ⟨_, Or.inl rfl⟩] at hv

/-- `rt_mutex_take` from `__again`: the mutex has to be free, also for its owner. -/
theorem again_move (i' : LinkInv ipc.kernel pc) (hc : ipc.kernel.current = some t)
    (hr : (ipc.kernel.thread t).stat = .running) (hx : ipc.rtMutexTakeAgain t i time = some x) :
    Move ipc t (.mutexTake i time) x ∧ ((ipc.mutex i).value = 0 → time ≠ 0 →
      x.pc = .wait (.mutexTake i time)) := by
  obtain ⟨hv, rfl⟩ | ⟨hv, ht, rfl⟩ | ⟨hv, ht, owner, k₁, k', ho, m, b, rfl⟩ :=
    rtMutexTakeAgain_cases i'.sched hc hr hx
  · refine ⟨.take ⟨time, rfl⟩ hv lock_setMutex.1 lock_setMutex.2 (fun _ _ h => h) rfl, ?_⟩
    intro h0
    omega
  · exact ⟨.same (fun _ => rfl) (fun _ _ h => h) (by simp), fun _ h => absurd ht h⟩
  · refine ⟨.wait rfl ht (fun _ => rfl) ?_ (fun j v hv => ?_) rfl, fun _ _ => rfl⟩
    · exact (b.mem_iff ⟨_, Or.inl rfl⟩).mpr (Or.inr ⟨rfl, rfl⟩)
    · rcases (b.mem_iff ⟨_, Or.inl rfl⟩).mp hv with hv | ⟨hv, he⟩
      · exact Or.inl (MayChange.shrinks m j v hv)
      · exact Or.inr ⟨hv, by simpa using he⟩

theorem take_move (i' : LinkInv ipc.kernel pc) (hc : ipc.kernel.current = some t)
    (hr : (ipc.kernel.thread t).stat = .running) (hx : ipc.rtMutexTake t i time = some x) :
    Move ipc t (.mutexTake i time) x ∧ (x.pc = .wait (.mutexTake i time) →
      (ipc.mutex i).owner ≠ some t) := by
  have i₀ := i'.setError hr .ok
  obtain ⟨-, hc₀, hr₀⟩ := running_setError (e := .ok) i'.sched hc hr
  unfold rtMutexTake at hx
  dsimp only at hx
  split_ifs at hx with ho
  · obtain rfl := Option.some.inj hx
    refine ⟨.same (fun j => ?_) (fun _ _ h => h) (by simp), fun h => by cases h⟩
    by_cases hj : j = i
    · subst hj
      exact lock_setMutex.1
    · exact lock_setMutex.2 j hj
  · refine ⟨?_, fun _ => ho⟩
    obtain ⟨m, -⟩ :=
      again_move (show LinkInv (ipc.setKernel (ipc.kernel.setError t .ok)).kernel _ from i₀)
        hc₀ hr₀ hx
    cases m with
    | same hm hl hp => exact .same hm hl hp
    | take hc hv hi hm hl hp => exact .take hc hv hi hm hl hp
    | wait hc ht hm hmem hl hp => exact .wait hc ht hm hmem hl hp
    | hand hc | free hc => cases hc

theorem release_move (i' : LinkInv ipc.kernel pc) (hp : PrioOk ipc)
    (hx : ipc.rtMutexRelease t i = some x) : Move ipc t (.mutexRelease i) x := by
  obtain ⟨-, rfl⟩ | ⟨-, -, rfl⟩ | ⟨ho, -, k₁, m, hcase⟩ := rtMutexRelease_cases i'.sched (hp i) hx
  · exact .same (fun _ => rfl) (fun _ _ h => h) (by simp)
  · refine .same (fun j => ?_) (fun _ _ h => h) (by simp)
    by_cases hj : j = i
    · subst hj
      exact lock_setMutex.1
    · exact lock_setMutex.2 j hj
  · have hlist := m.wait (h := .suspend (.mutex i)) ⟨_, Or.inl rfl⟩
    obtain ⟨u, l, k', hl, w, rfl⟩ | ⟨hl, rfl⟩ := hcase
    · have hu : u ∈ k₁.lists (.suspend (.mutex i)) := by
        rw [hl]
        exact List.mem_cons_self
      refine .hand rfl ho (hlist ▸ hu) lock_setMutex.1 lock_setMutex.2 (fun j v hv => ?_) ?_ rfl
      · obtain ⟨h1, h2⟩ := (w.mem_iff (m.sched i'.sched) ⟨_, Or.inl rfl⟩ hu).mp hv
        exact ⟨MayChange.shrinks m j v h1, h2⟩
      · show (k'.thread u).error = _
        rw [w.self]
        exact m.fields.2.1
    · exact .free rfl ho lock_setMutex.1 lock_setMutex.2 (hlist.symm.trans hl)
        (MayChange.shrinks m) rfl

theorem Shrinks.woken {h : ListHead} {e : Err} {k k' : Kernel} (hs : SchedInv k)
    (hu : u ∈ k.lists h) (w : Woken k u h e k') : Shrinks k k' :=
  fun _ _ hv => ((w.mem_iff hs ⟨_, Or.inl rfl⟩ hu).mp hv).1

theorem semRelease_shrinks (i' : LinkInv ipc.kernel pc) (hx : ipc.rtSemRelease i = some x) :
    (∀ j, lock x.ipc j = lock ipc j) ∧ Shrinks ipc.kernel x.ipc.kernel := by
  obtain ⟨u, l, k', hl, w, rfl⟩ | ⟨-, rfl⟩ := rtSemRelease_cases i'.sched hx
  · refine ⟨fun _ => rfl, .woken i'.sched ?_ w⟩
    rw [hl]
    exact List.mem_cons_self
  · exact ⟨fun _ => rfl, fun _ _ h => h⟩

/-- The first section of a call. A thread does not wait for a mutex it owns. -/
theorem call_move (i' : LinkInv ipc.kernel pc) (hp : PrioOk ipc)
    (hc : ipc.kernel.current = some t) (hr : (ipc.kernel.thread t).stat = .running) (ht : Takes c)
    (hx : ipc.call t c = some x) : Move ipc t c x ∧
      ∀ i time, x.pc = .wait (.mutexTake i time) → (ipc.mutex i).owner ≠ some t := by
  cases c with
  | semTake i time =>
      have hplace := (rtSemTake_link i' hp hc hr hx).place
      have hno : ∀ j time', x.pc ≠ .wait (.mutexTake j time') := fun j time' h => by
        rcases hplace with h1 | ⟨e, r, h1⟩ <;> rw [h1] at h <;> cases h
      refine ⟨.same ?_ ?_ hno, fun j time' h => absurd h (hno j time')⟩
      all_goals
        obtain ⟨-, rfl⟩ | ⟨-, -, rfl⟩ | ⟨-, -, k', b, rfl⟩ := rtSemTake_cases i'.sched hc hr hx
      · exact fun _ => rfl
      · exact fun _ => rfl
      · exact fun _ => rfl
      · exact fun _ _ h => h
      · exact fun _ _ h => h
      · intro j v hv
        exact ((b.mem_iff ⟨_, Or.inl rfl⟩).mp hv).resolve_right fun h => by simpa using h.2
  | semRelease i =>
      obtain ⟨h1, h2⟩ := semRelease_shrinks i' hx
      have hplace := (rtSemRelease_link i' hp hx).2.2.2
      refine ⟨.same h1 h2 fun j time h => ?_, fun j time h => ?_⟩ <;> rw [hplace] at h <;> cases h
  | mutexTake i time =>
      obtain ⟨m, ho⟩ := take_move i' hc hr hx
      refine ⟨m, fun j time' h => ?_⟩
      have hplace := (rtMutexTake_link i' hp hc hr hx).place
      rcases hplace with h1 | ⟨e, r, h1⟩ <;> rw [h1] at h
      · obtain ⟨rfl, rfl⟩ := Call.mutexTake.inj (Pc.wait.inj h)
        exact ho h1
      · cases h
  | mutexRelease i =>
      have hplace := (rtMutexRelease_link i' hp hr hx).place
      refine ⟨release_move i' hp hx, fun j time h => ?_⟩
      rcases hplace with h1 | ⟨e, r, h1⟩ <;> rw [h1] at h <;> cases h
  | _ => exact absurd ht id

/-- A step in which no thread runs changes no mutex, and no thread starts to wait. -/
theorem quiet_step (inv : SigInv Takes q) (ha : Only Takes a) (hs : q.Step a q')
    (hn : ∀ t r, a ≠ .run t r) :
    (∀ j, lock q'.ipc j = lock q.ipc j) ∧ Shrinks q.ipc.kernel q'.ipc.kernel := by
  obtain ⟨t, r, x, rfl, -⟩ | ⟨t, c, e, r, rfl, hr, hpc, rfl⟩ |
    ⟨c, t, x, rfl, hc, ht, hx, rfl⟩ | ⟨t, k', rfl, ht, hk, rfl⟩ | ⟨t, p, rfl, hp, rfl⟩ |
    ⟨k', rfl, hk, rfl⟩ := Ipc.Step.cases hs
  · exact absurd rfl (hn t r)
  · exact ⟨fun _ => rfl, fun _ _ h => h⟩
  · cases c with
    | semTake m time =>
        obtain rfl : time = 0 := hc
        simp only [call, rtSemTake, if_true] at hx
        split_ifs at hx
        all_goals
          obtain rfl := Option.some.inj hx
          exact ⟨fun _ => rfl, fun _ _ h => h⟩
    | semRelease m => exact semRelease_shrinks inv.link hx
    | mutexTake | mutexRelease => exact absurd hc id
    | _ => exact absurd ha id
  · obtain ⟨h, hh, hm⟩ := inv.link.timer t ht
    have w := Woken.of_timeout inv.link.sched hh hm hk
    exact ⟨fun _ => rfl, .woken inv.link.sched hm w⟩
  · have ch := Changed.of_control (u := t) inv.link.sched hp
    refine ⟨fun _ => rfl, fun j v hv => ?_⟩
    rwa [show (q.setKernel (q.ipc.kernel.rtThreadControl t p)).ipc.kernel.lists _ = _ from
      ch.wait _ ⟨_, Or.inl rfl⟩] at hv
  · refine ⟨fun _ => rfl, fun j v hv => ?_⟩
    rwa [show (q.setKernel k').ipc.kernel.lists _ = _ from
      rtSchedule_wait inv.link.sched hk ⟨_, Or.inl rfl⟩] at hv

end

/-! ## Runs -/

/-- A run that tells which threads were made owners. -/
structure MutexSigRun where
  state : SigSys
  /-- the mutex that `rt_mutex_release` gave to the thread, whose take has not returned yet -/
  handed : ThreadId → Option Nat

section

variable [RtConfig] {i j : Nat} {q q' : Sys} {a : Action} {b : SigAction} {S S' : MutexSigRun}
  {t u v : ThreadId} {x : Section} {r : Run}

/-- A release hands the mutex over if it makes another thread the owner. -/
def nextHanded (S : MutexSigRun) (q : Sys) : SigAction → ThreadId → Option Nat
  | .sys (.run _ (.call (.mutexRelease i))) =>
    match (q.ipc.mutex i).owner with
    | some u =>
      if (S.state.sys.ipc.mutex i).owner ≠ some u then Function.update S.handed u (some i)
      else S.handed
    | none => S.handed
  | .sys (.ret t) => Function.update S.handed t none
  | _ => S.handed

/-- Every step whose calls take or release a mutex or a semaphore. -/
def MutexSigRun.exec (S : MutexSigRun) (b : SigAction) : Option MutexSigRun :=
  if OnlyCalls Takes b then (S.state.exec b).map fun s' => ⟨s', nextHanded S s'.sys b⟩ else none

def MutexSigRun.Init (S : MutexSigRun) : Prop := S.state.Init ∧ S.handed = fun _ => none

/-- No thread is suspended on a mutex it owns, and a take whose thread was made owner returns
RT_EOK. -/
structure Kept (S : MutexSigRun) : Prop where
  own : ∀ t i, t ∈ S.state.sys.ipc.kernel.lists (.suspend (.mutex i)) →
    (S.state.sys.ipc.mutex i).owner ≠ some t
  handed : ∀ t i, S.handed t = some i → (∃ time, S.state.sys.pc t = .wait (.mutexTake i time)) ∨
    ∃ time r, S.state.sys.pc t = .ret (.mutexTake i time) .ok r

/-- A thread goes back to `__again` for a mutex it owns. -/
def Reenters (s : SigSys) : SigAction → Prop
  | .sys (.run t (.resumed _)) =>
    match s.sys.pc t with
    | .wait (.mutexTake i _) => (s.sys.ipc.kernel.thread t).error = .eintr ∧
      (s.sys.ipc.mutex i).owner = some t
    | _ => False
  | _ => False

instance {s : SigSys} : Decidable (Reenters s b) := by
  unfold Reenters
  split
  · split <;> infer_instance
  · infer_instance

def MutexSigRun.Step (S : MutexSigRun) (b : SigAction) (S' : MutexSigRun) : Prop :=
  S.exec b = some S' ∧ ¬ Reenters S.state b

/-- What holds in every run. -/
structure LockInv (q : Sys) : Prop where
  sig : SigInv Takes q
  locks : ∀ i, lock q.ipc i = (1, none) ∨ ∃ u, lock q.ipc i = (0, some u)
  time : ∀ t i time, q.pc t = .wait (.mutexTake i time) → time ≠ 0

theorem lock_owner (inv : LockInv q) (ho : (q.ipc.mutex i).owner = some t) :
    (q.ipc.mutex i).value = 0 := by
  rcases inv.locks i with h | ⟨u, h⟩
  · have h2 := (Prod.mk.inj h).2
    rw [ho] at h2
    cases h2
  · exact (Prod.mk.inj h).1

/-- **What the section of a running thread does.** -/
theorem run_move (inv : LockInv q) (hr : q.Runs t) (ha : Only Takes (.run t r))
    (hx : q.sect t r = some x) : ∃ c, Move q.ipc t c x ∧ (∀ c', r = .call c' → c = c') ∧
      (∀ c', q.pc t = .wait c' → c = c') ∧
      (∀ i time, x.pc = .wait (.mutexTake i time) →
        (q.ipc.mutex i).owner ≠ some t ∨ q.pc t = .wait (.mutexTake i time) ∧
          (q.ipc.kernel.thread t).error = .eintr ∧ ∃ delta, r = .resumed delta) ∧
      ∀ c', q.pc t = .wait c' → (q.ipc.kernel.thread t).error ≠ .eintr →
        x.pc = .ret c' (q.ipc.kernel.thread t).error .none := by
  cases r with
  | call c =>
      simp only [Sys.sect] at hx
      split at hx
      · rename_i hidle
        obtain ⟨m, ho⟩ := call_move inv.sig.link inv.sig.prio hr.1 hr.2 ha hx
        refine ⟨c, m, fun c' h => Run.call.inj h, fun c' h => ?_,
          fun i time h => Or.inl (ho i time h), fun c' h => ?_⟩ <;> rw [hidle] at h <;> cases h
      · cases hx
  | resumed delta =>
      obtain hp | ⟨c, hc, hp | ⟨e, r, hp⟩⟩ := inv.sig.calls t <;> simp only [Sys.sect, hp] at hx
      · cases hx
      · refine ⟨c, ?_, by simp, fun c' h => Pc.wait.inj (hp.symm.trans h), ?_⟩
        · cases c with
          | semTake i time =>
              obtain rfl := Option.some.inj hx
              exact .same (fun _ => rfl) (fun _ _ h => h) (by simp)
          | mutexTake i time =>
              simp only [resumed, rtMutexTakeResumed] at hx
              split_ifs at hx with he
              · exact (again_move inv.sig.link hr.1 hr.2 hx).1
              · obtain rfl := Option.some.inj hx
                exact .same (fun _ => rfl) (fun _ _ h => h) (by simp)
          | semRelease | mutexRelease => cases hx
          | _ => exact absurd hc id
        · cases c with
          | semTake i time =>
              obtain rfl := Option.some.inj hx
              refine ⟨by simp, fun c' h _ => ?_⟩
              rw [← Pc.wait.inj (hp.symm.trans h)]
          | mutexTake i time =>
              simp only [resumed, rtMutexTakeResumed] at hx
              split_ifs at hx with he
              · refine ⟨fun j time' h => Or.inr ⟨?_, he, delta, rfl⟩, fun _ _ h => absurd he h⟩
                have hplace := (rtMutexTakeAgain_link inv.sig.link inv.sig.prio hr.1 hr.2
                  (Or.inr ⟨he, i, rfl⟩) hx).place
                rcases hplace with h1 | ⟨e, r, h1⟩ <;> rw [h1] at h
                · rw [hp, h]
                · cases h
              · obtain rfl := Option.some.inj hx
                refine ⟨by simp, fun c' h _ => ?_⟩
                rw [← Pc.wait.inj (hp.symm.trans h)]
          | semRelease | mutexRelease => cases hx
          | _ => exact absurd hc id
      · cases hx
  | copy | finish =>
      obtain hp | ⟨c, hc, hp | ⟨e, r, hp⟩⟩ := inv.sig.calls t <;> simp only [Sys.sect, hp] at hx <;>
        cases hx

theorem MutexSigRun.exec_cases (h : S.exec b = some S') : OnlyCalls Takes b ∧
    S.state.Step b S'.state ∧ S'.handed = nextHanded S S'.state.sys b := by
  unfold MutexSigRun.exec at h
  split_ifs at h with ho
  obtain ⟨s', hs, rfl⟩ := Option.map_eq_some_iff.mp h
  exact ⟨ho, hs, rfl⟩

/-- What a step of thread `t` comes from. -/
theorem run_of_step (hs : q.Step (.run t r) q') : q.Runs t ∧ ∃ x, q.sect t r = some x ∧
    q' = ⟨x.ipc, Function.update q.pc t x.pc⟩ := by
  obtain ⟨t', r', x, h, hr, hx, rfl⟩ | ⟨_, _, _, _, h, -⟩ | ⟨_, _, _, h, -⟩ | ⟨_, _, h, -⟩ |
    ⟨_, _, h, -⟩ | ⟨_, h, -⟩ := Ipc.Step.cases hs <;> cases h
  exact ⟨hr, x, hx, rfl⟩

/-- The value and the owner of a mutex stay in step. -/
theorem LockInv.move {c : Call} (inv : LockInv q) (m : Move q.ipc t c x) :
    ∀ i, lock x.ipc i = (1, none) ∨ ∃ u, lock x.ipc i = (0, some u) := by
  intro i
  cases m with
  | same hm | wait _ _ hm =>
      rw [hm]
      exact inv.locks i
  | @take j hc hv hi hm =>
      by_cases hij : i = j
      · subst hij
        refine Or.inr ⟨t, ?_⟩
        rw [hi]
        rcases inv.locks i with h | ⟨u, h⟩ <;> rw [(Prod.mk.inj h).1]
      · rw [hm i hij]
        exact inv.locks i
  | @hand j u hc ho hu hi hm =>
      by_cases hij : i = j
      · subst hij
        refine Or.inr ⟨u, ?_⟩
        rw [hi, lock_owner inv ho]
      · rw [hm i hij]
        exact inv.locks i
  | @free j hc ho hi hm =>
      by_cases hij : i = j
      · subst hij
        refine Or.inl ?_
        rw [hi, lock_owner inv ho]
        rfl
      · rw [hm i hij]
        exact inv.locks i

theorem LockInv.step (inv : LockInv S.state.sys) (hx : S.exec b = some S') :
    LockInv S'.state.sys := by
  obtain ⟨ho, hs, -⟩ := MutexSigRun.exec_cases hx
  refine ⟨inv.sig.step (fun _ => id) ho hs, fun i => ?_, fun v i time hv => ?_⟩
  · obtain ⟨a, rfl, hsys, -⟩ | ⟨-, -, -, he⟩ | ⟨t, rfl, -, hst, he⟩ | ⟨t, rfl, hr, he⟩ := hs.cases
    · by_cases ha : ∃ t r, a = .run t r
      · obtain ⟨t, r, rfl⟩ := ha
        obtain ⟨hr, x, hx', he⟩ := run_of_step hsys
        obtain ⟨c, m, -⟩ := run_move inv hr ho hx'
        rw [he]
        exact inv.move m i
      · rw [(quiet_step inv.sig ho hsys fun t r h => ha ⟨t, r, h⟩).1 i]
        exact inv.locks i
    all_goals
      rw [he]
      exact inv.locks i
  · obtain ⟨a, rfl, hsys, -⟩ | ⟨-, -, -, he⟩ | ⟨t, rfl, -, hst, he⟩ | ⟨t, rfl, hr, he⟩ := hs.cases
    · by_cases ha : ∃ r, a = .run v r
      · obtain ⟨r, rfl⟩ := ha
        obtain ⟨hr, x, hx', he⟩ := run_of_step hsys
        obtain ⟨c, m, -⟩ := run_move inv hr ho hx'
        have hpc : x.pc = .wait (.mutexTake i time) := by
          rw [he] at hv
          exact (Function.update_self ..).symm.trans hv
        cases m with
        | same _ _ hp => exact absurd hpc (hp i time)
        | wait _ ht _ _ _ hp =>
            rw [hp] at hpc
            obtain ⟨-, rfl⟩ := Call.mutexTake.inj (Pc.wait.inj hpc)
            exact ht
        | take _ _ _ _ _ hp | hand _ _ _ _ _ _ _ hp | free _ _ _ _ _ _ hp =>
            rw [hp] at hpc
            cases hpc
      · by_cases hret : a = .ret v
        · subst hret
          obtain ⟨_, _, _, h, -⟩ | ⟨t, c', e, r, h, -, hp, he⟩ | ⟨_, _, _, h, -⟩ | ⟨_, _, h, -⟩ |
            ⟨_, _, h, -⟩ | ⟨_, h, -⟩ := Ipc.Step.cases hsys <;> cases h
          rw [he] at hv
          have hidle : (Pc.idle : Pc) = .wait (.mutexTake i time) :=
            (Function.update_self ..).symm.trans hv
          cases hidle
        · rw [pc_of_step hsys (fun r h => ha ⟨r, h⟩) hret] at hv
          exact inv.time v i time hv
    all_goals
      rw [he] at hv
      exact inv.time v i time hv

/-- No thread waits for a mutex it owns. -/
def NotOwn (q : Sys) : Prop :=
  ∀ t i, t ∈ q.ipc.kernel.lists (.suspend (.mutex i)) → (q.ipc.mutex i).owner ≠ some t

/-- No thread starts to wait for its own mutex, unless it reenters. -/
theorem NotOwn.run {c : Call} (h : NotOwn q) (hr : q.Runs t) (inv : LockInv q)
    (m : Move q.ipc t c x) (hw : ∀ i time, x.pc = .wait (.mutexTake i time) →
      (q.ipc.mutex i).owner ≠ some t) : NotOwn ⟨x.ipc, Function.update q.pc t x.pc⟩ := by
  have howner : ∀ {i j}, lock x.ipc j = lock q.ipc i →
      (x.ipc.mutex j).owner = (q.ipc.mutex i).owner := fun h => (Prod.mk.inj h).2
  intro v j hv
  dsimp only at hv ⊢
  cases m with
  | same hm hl =>
      rw [howner (hm j)]
      exact h v j (hl j v hv)
  | @take i hc h0 hi hm hl =>
      by_cases hji : j = i
      · subst hji
        rw [(Prod.mk.inj hi).2]
        intro he
        obtain rfl := Option.some.inj he
        exact inv.sig.link.sched.running_not_mem hr.2 (hl j t hv)
      · rw [howner (hm j hji)]
        exact h v j (hl j v hv)
  | wait hc ht hm hmem hl hp =>
      rw [howner (hm j)]
      rcases hl j v hv with hv | ⟨rfl, rfl⟩
      · exact h v j hv
      · exact hw _ _ hp
  | @hand i u hc ho hu hi hm hl =>
      obtain ⟨hv', hne⟩ := hl j v hv
      by_cases hji : j = i
      · subst hji
        rw [(Prod.mk.inj hi).2]
        exact fun he => hne (Option.some.inj he).symm
      · rw [howner (hm j hji)]
        exact h v j hv'
  | @free i hc ho hi hm hnil hl =>
      by_cases hji : j = i
      · subst hji
        rw [(Prod.mk.inj hi).2]
        simp
      · rw [howner (hm j hji)]
        exact h v j (hl j v hv)

/-- A thread that was made owner stays so while others run. -/
theorem owner_stays {c : Call} (inv : LockInv q) (m : Move q.ipc t c x) (hvt : v ≠ t)
    (ho : (q.ipc.mutex i).owner = some v)
    (hv : v ∉ q.ipc.kernel.lists (.suspend (.mutex i))) : (x.ipc.mutex i).owner = some v ∧
      v ∉ x.ipc.kernel.lists (.suspend (.mutex i)) := by
  have hval := lock_owner inv ho
  have howner : lock x.ipc i = lock q.ipc i → (x.ipc.mutex i).owner = some v := fun h =>
    (Prod.mk.inj h).2.trans ho
  cases m with
  | same hm hl => exact ⟨howner (hm i), fun h => hv (hl i v h)⟩
  | @take j hc h0 hi hm hl =>
      have hij : i ≠ j := by
        rintro rfl
        omega
      exact ⟨howner (hm i hij), fun h => hv (hl i v h)⟩
  | wait hc ht hm hmem hl =>
      refine ⟨howner (hm i), fun h => ?_⟩
      rcases hl i v h with h | ⟨rfl, -⟩
      · exact hv h
      · exact hvt rfl
  | @hand j u hc ho' hu hi hm hl =>
      have hij : i ≠ j := by
        rintro rfl
        exact hvt (Option.some.inj (ho.symm.trans ho'))
      exact ⟨howner (hm i hij), fun h => hv (hl i v h).1⟩
  | @free j hc ho' hi hm hnil hl =>
      have hij : i ≠ j := by
        rintro rfl
        exact hvt (Option.some.inj (ho.symm.trans ho'))
      exact ⟨howner (hm i hij), fun h => hv (hl i v h)⟩

/-- A thread in `rt_mutex_take` waits in no other list. -/
theorem LockInv.not_mem {time : Int} (inv : LockInv q) (hp : q.pc v = .wait (.mutexTake i time))
    (hv : v ∉ q.ipc.kernel.lists (.suspend (.mutex i))) :
    ∀ h : ListHead, h.IsWait → v ∉ q.ipc.kernel.lists h := by
  intro h hh hm
  have hw := inv.sig.link.waits v h hh hm
  rw [hp] at hw
  obtain rfl : ListHead.suspend (.mutex i) = h := Option.some.inj hw
  exact hv hm

/-- The place of a thread that was made owner of a mutex. -/
def GivenTo (q : Sys) (t : ThreadId) (i : Nat) : Prop :=
  (∃ time, q.pc t = .wait (.mutexTake i time) ∧ (q.ipc.mutex i).owner = some t ∧
    t ∉ q.ipc.kernel.lists (.suspend (.mutex i)) ∧
    ((q.ipc.kernel.thread t).error = .ok ∨ (q.ipc.kernel.thread t).error = .eintr)) ∨
  ∃ time r, q.pc t = .ret (.mutexTake i time) .ok r

omit [RtConfig] in
/-- The thread does not move, stays the owner, and its error is as before or `-RT_EINTR`. -/
theorem GivenTo.stays (h : GivenTo q v i) (hp : q'.pc v = q.pc v)
    (hk : ∀ time, q.pc v = .wait (.mutexTake i time) → (q.ipc.mutex i).owner = some v →
      v ∉ q.ipc.kernel.lists (.suspend (.mutex i)) → (q'.ipc.mutex i).owner = some v ∧
        v ∉ q'.ipc.kernel.lists (.suspend (.mutex i)) ∧
        ((q'.ipc.kernel.thread v).error = (q.ipc.kernel.thread v).error ∨
          (q'.ipc.kernel.thread v).error = .eintr)) : GivenTo q' v i := by
  rcases h with ⟨time, h1, h2, h3, h4⟩ | ⟨time, r, h⟩
  · obtain ⟨h5, h6, he⟩ := hk time h1 h2 h3
    refine Or.inl ⟨time, hp.trans h1, h5, h6, ?_⟩
    rcases he with he | he
    · rwa [he]
    · exact Or.inr he
  · exact Or.inr ⟨time, r, hp.trans h⟩

/-- A step of the thread itself: it returns RT_EOK, unless it reenters. -/
theorem GivenTo.run {s : SigSys} (h : GivenTo s.sys t i) (inv : LockInv s.sys)
    (ha : Only Takes (.run t r)) (hn : ¬ Reenters s (.sys (.run t r)))
    (hs : s.sys.Step (.run t r) q') : GivenTo q' t i := by
  obtain ⟨hr, x, hx, rfl⟩ := run_of_step hs
  rcases h with ⟨time, h1, h2, h3, h4⟩ | ⟨time, r', h⟩
  · obtain ⟨c, m, -, -, hw, hret⟩ := run_move inv hr ha hx
    have hne : (s.sys.ipc.kernel.thread t).error ≠ .eintr := by
      intro he
      refine hn ?_
      cases r with
      | resumed delta =>
          unfold Reenters
          dsimp only
          rw [h1]
          exact ⟨he, h2⟩
      | _ => simp [Sys.sect, h1] at hx
    have hok := h4.resolve_right hne
    refine Or.inr ⟨time, .none, ?_⟩
    refine (Function.update_self ..).trans ?_
    rw [hret _ h1 hne, hok]
  · cases r <;> simp [Sys.sect, h] at hx

/-- The thread that a release makes the owner. -/
theorem GivenTo.hand {c : Call} (hr : q.Runs t) (inv : LockInv q) (m : Move q.ipc t c x)
    (hc : c = .mutexRelease i) (ho : (x.ipc.mutex i).owner = some u)
    (hne : (q.ipc.mutex i).owner ≠ some u) :
    GivenTo ⟨x.ipc, Function.update q.pc t x.pc⟩ u i := by
  have howner : lock x.ipc i = lock q.ipc i → False := fun h =>
    hne ((Prod.mk.inj h).2.symm.trans ho)
  cases m with
  | same hm => exact absurd (hm i) howner
  | take hc' =>
      obtain ⟨time, rfl⟩ := hc'
      cases hc
  | wait hc' =>
      rw [hc'] at hc
      cases hc
  | @hand j w hc' ho' hu hi hm hl he =>
      obtain rfl : j = i := Call.mutexRelease.inj (hc'.symm.trans hc)
      obtain rfl : w = u := Option.some.inj ((Prod.mk.inj hi).2.symm.trans ho)
      have hwt : w ≠ t := by
        rintro rfl
        exact inv.sig.link.sched.running_not_mem hr.2 hu
      have hlist : ListHead.IsWait (.suspend (.mutex j)) := ⟨_, Or.inl rfl⟩
      obtain ⟨time, hp⟩ := mutexWaiter (inv.sig.link.waits w _ hlist hu)
      refine Or.inl ⟨time, ?_, ho, fun h => (hl j w h).2 rfl, ?_⟩
      · exact (Function.update_of_ne hwt ..).trans hp
      · show (x.ipc.kernel.thread w).error = .ok ∨ (x.ipc.kernel.thread w).error = .eintr
        rw [he]
        exact (inv.sig.link.error w _ hlist hu).imp_right And.left
  | @free j hc' ho' hi =>
      obtain rfl : j = i := Call.mutexRelease.inj (hc'.symm.trans hc)
      have hnone := (Prod.mk.inj hi).2
      rw [ho] at hnone
      cases hnone

/-- A section in which no owner reenters. -/
theorem given_run (inv : LockInv S.state.sys) (hown : NotOwn S.state.sys)
    (hg : ∀ t i, S.handed t = some i → GivenTo S.state.sys t i)
    (ha : Only Takes (.run t r)) (hn : ¬ Reenters S.state (.sys (.run t r)))
    (hs : S.state.sys.Step (.run t r) q') : NotOwn q' ∧
      ∀ u i, nextHanded S q' (.sys (.run t r)) u = some i → GivenTo q' u i := by
  obtain ⟨hr, x, hx, he⟩ := run_of_step hs
  obtain ⟨c, m, hc, -, hw, -⟩ := run_move inv hr ha hx
  have hothers : ∀ v, v ≠ t → Untouched S.state.sys.ipc.kernel q'.ipc.kernel v := fun v hv =>
    (inv.sig.sys_step (fun _ => id) ha hs).2 v fun r' h => hv (Action.run.inj h).1.symm
  -- the threads to which a mutex was handed over before
  have hold : ∀ v i, S.handed v = some i → GivenTo q' v i := by
    intro v i hv
    by_cases hvt : v = t
    · subst hvt
      exact (hg v i hv).run inv ha hn hs
    · refine (hg v i hv).stays (by rw [he]; exact Function.update_of_ne hvt ..) ?_
      intro time h1 h2 h3
      have h4 := (hothers v hvt (inv.not_mem h1 h3)).2
      have h5 := owner_stays inv m hvt h2 h3
      rw [he] at h4 ⊢
      exact ⟨h5.1, h5.2, Or.inl h4⟩
  constructor
  · rw [he]
    refine hown.run hr inv m fun i time hp => ?_
    rcases hw i time hp with h | ⟨h1, h2, delta, rfl⟩
    · exact h
    · intro h3
      refine hn ?_
      unfold Reenters
      dsimp only
      rw [h1]
      exact ⟨h2, h3⟩
  · intro v i hv
    have hmade : ∀ {j}, r = .call (.mutexRelease j) → GivenTo q' v i := by
      rintro j rfl
      cases hu : (q'.ipc.mutex j).owner with
      | none =>
          simp only [nextHanded, hu] at hv
          exact hold v i hv
      | some u =>
          simp only [nextHanded, hu] at hv
          by_cases hne : (S.state.sys.ipc.mutex j).owner ≠ some u
          · rw [if_pos hne] at hv
            by_cases hvu : v = u
            · subst hvu
              rw [Function.update_self] at hv
              obtain rfl := Option.some.inj hv
              rw [he] at hu ⊢
              exact GivenTo.hand hr inv m (hc _ rfl) hu hne
            · rw [Function.update_of_ne hvu] at hv
              exact hold v i hv
          · rw [if_neg hne] at hv
            exact hold v i hv
    cases r with
    | call c =>
        cases c with
        | mutexRelease j => exact hmade rfl
        | _ => exact hold v i hv
    | _ => exact hold v i hv

/-- **One step** in which no owner reenters. -/
theorem given_step (inv : LockInv S.state.sys) (hown : NotOwn S.state.sys)
    (hg : ∀ t i, S.handed t = some i → GivenTo S.state.sys t i) (hx : S.exec b = some S')
    (hn : ¬ Reenters S.state b) :
    NotOwn S'.state.sys ∧ ∀ t i, S'.handed t = some i → GivenTo S'.state.sys t i := by
  obtain ⟨ho, hs, hh⟩ := MutexSigRun.exec_cases hx
  rw [hh]
  -- wait lists shrink, and no owner changes
  have hquiet : (∀ j, lock S'.state.sys.ipc j = lock S.state.sys.ipc j) →
      Shrinks S.state.sys.ipc.kernel S'.state.sys.ipc.kernel → NotOwn S'.state.sys := by
    intro hm hl v j hv
    rw [(Prod.mk.inj (hm j)).2]
    exact hown v j (hl j v hv)
  have hkeep : ∀ {v i}, S.handed v = some i → S'.state.sys.pc v = S.state.sys.pc v →
      (∀ j, lock S'.state.sys.ipc j = lock S.state.sys.ipc j) →
      Shrinks S.state.sys.ipc.kernel S'.state.sys.ipc.kernel →
      (∀ time, S.state.sys.pc v = .wait (.mutexTake i time) →
        v ∉ S.state.sys.ipc.kernel.lists (.suspend (.mutex i)) →
        (S'.state.sys.ipc.kernel.thread v).error = (S.state.sys.ipc.kernel.thread v).error ∨
          (S'.state.sys.ipc.kernel.thread v).error = .eintr) → GivenTo S'.state.sys v i :=
    fun {v i} hv hp hm hl he => (hg v i hv).stays hp fun time h1 h2 h3 =>
      ⟨(Prod.mk.inj (hm i)).2.trans h2, fun h => h3 (hl i v h), he time h1 h3⟩
  obtain ⟨a, rfl, hsys, -⟩ | ⟨hb, -, -, he⟩ | ⟨t, rfl, -, hst, he⟩ | ⟨t, rfl, hr, he⟩ := hs.cases
  · by_cases ha : ∃ t r, a = .run t r
    · obtain ⟨t, r, rfl⟩ := ha
      exact given_run inv hown hg ho hn hsys
    · have hnr : ∀ t r, a ≠ .run t r := fun t r h => ha ⟨t, r, h⟩
      obtain ⟨hm, hl⟩ := quiet_step inv.sig ho hsys hnr
      refine ⟨hquiet hm hl, fun v i hv => ?_⟩
      have hv' : S.handed v = some i ∧ a ≠ .ret v := by
        cases a with
        | run t r => exact absurd rfl (hnr t r)
        | ret t =>
            by_cases hvt : v = t
            · rw [hvt] at hv
              simp [nextHanded] at hv
            · rw [nextHanded, Function.update_of_ne hvt] at hv
              exact ⟨hv, fun h => hvt (Action.ret.inj h).symm⟩
        | _ => exact ⟨hv, by simp⟩
      refine hkeep hv'.1 (pc_of_step hsys (hnr v) hv'.2) hm hl fun time h1 h3 => Or.inl ?_
      exact ((inv.sig.sys_step (fun _ => id) ho hsys).2 v (hnr v) (inv.not_mem h1 h3)).2
  · have hsame : nextHanded S S'.state.sys b = S.handed := by
      cases b with
      | sys a => exact absurd rfl (hb a)
      | _ => rfl
    rw [hsame, he]
    exact ⟨hown, hg⟩
  · have hsig := inv.sig.link.signalled hst
    have hm : ∀ j, lock S'.state.sys.ipc j = lock S.state.sys.ipc j := by
      rw [he]
      exact fun _ => rfl
    have hl : Shrinks S.state.sys.ipc.kernel S'.state.sys.ipc.kernel := by
      rw [he]
      exact fun j v hv => ((hsig.mem_iff _ ⟨_, Or.inl rfl⟩ v).mp hv).1
    refine ⟨hquiet hm hl, fun v i hv => hkeep hv (by rw [he]; rfl) hm hl fun _ _ _ => Or.inl ?_⟩
    rw [he]
    exact hsig.error v
  · have hm : ∀ j, lock S'.state.sys.ipc j = lock S.state.sys.ipc j := by
      rw [he]
      exact fun _ => rfl
    have hl : Shrinks S.state.sys.ipc.kernel S'.state.sys.ipc.kernel := by
      rw [he]
      exact fun _ _ h => h
    refine ⟨hquiet hm hl, fun v i hv => hkeep hv (by rw [he]; rfl) hm hl fun _ _ _ => ?_⟩
    rw [he]
    show ((S.state.sys.ipc.kernel.setError t .eintr).thread v).error = _ ∨
      ((S.state.sys.ipc.kernel.setError t .eintr).thread v).error = .eintr
    by_cases hvt : v = t
    · rw [hvt, setError_self]
      exact Or.inr rfl
    · rw [setError_of_ne hvt]
      exact Or.inl rfl

/-- An owner that reenters is suspended on its own mutex. -/
theorem reenters_waits (inv : LockInv S.state.sys) (hx : S.exec b = some S')
    (hn : Reenters S.state b) : ¬ Kept S' := by
  obtain ⟨ho, hs, -⟩ := MutexSigRun.exec_cases hx
  unfold Reenters at hn
  split at hn
  · rename_i t delta
    split at hn
    · rename_i i time hp
      obtain ⟨he, hown⟩ := hn
      obtain ⟨hr, x, hx', hq⟩ := run_of_step hs.sys
      simp only [Sys.sect, hp, resumed, rtMutexTakeResumed, if_pos he] at hx'
      obtain ⟨m, hw⟩ := again_move inv.sig.link hr.1 hr.2 hx'
      have hpc := hw (lock_owner inv hown) (inv.time t i time hp)
      intro hk
      cases m with
      | wait hc ht hm hmem =>
          obtain ⟨rfl, rfl⟩ := Call.mutexTake.inj hc
          refine hk.own t i (by rw [hq]; exact hmem) ?_
          rw [hq]
          exact (Prod.mk.inj (hm i)).2.trans hown
      | same _ _ hp' => exact hp' i time hpc
      | take _ _ _ _ _ hp' =>
          rw [hpc] at hp'
          cases hp'
      | hand hc | free hc => cases hc
    · exact absurd hn id
  · exact absurd hn id

/-- The invariant of the runs in which no owner reenters. -/
structure KeptInv (S : MutexSigRun) : Prop where
  lock : LockInv S.state.sys
  own : NotOwn S.state.sys
  given : ∀ t i, S.handed t = some i → GivenTo S.state.sys t i

theorem KeptInv.kept (h : KeptInv S) : Kept S := by
  refine ⟨h.own, fun t i ht => ?_⟩
  rcases h.given t i ht with ⟨time, h1, -⟩ | h1
  · exact Or.inl ⟨time, h1⟩
  · exact Or.inr h1

theorem MutexSigRun.Init.keptInv (h : S.Init) : KeptInv S := by
  obtain ⟨h, h1⟩ := h
  refine ⟨⟨h.sigInv, fun i => Or.inl ?_, fun t i time hp => ?_⟩, fun t i ht => ?_, fun t i ht => ?_⟩
  · obtain ⟨flag, he⟩ := h.sys.mutex i
    rw [lock, he]
  · rw [h.sys.idle t] at hp
    cases hp
  · rw [h.sys.wait _ ⟨_, Or.inl rfl⟩] at ht
    cases ht
  · rw [h1] at ht
    cases ht

/-- **Mutexes and signals.** In the runs in which no owner goes back to `__again`, no thread is
suspended on a mutex it owns, and the takes whose thread was made owner return RT_EOK; and from there
a step keeps this if and only if in it no owner goes back. -/
theorem signal_mutex_kept (h : Reachable MutexSigRun.Init MutexSigRun.Step S) :
    Kept S ∧ ∀ b S', S.exec b = some S' → (Kept S' ↔ ¬ Reenters S.state b) := by
  have hinv : KeptInv S := by
    refine h.invariant (fun _ hi => hi.keptInv) fun S b S' _ i hs => ?_
    obtain ⟨h1, h2⟩ := given_step i.lock i.own i.given hs.1 hs.2
    exact ⟨i.lock.step hs.1, h1, h2⟩
  refine ⟨hinv.kept, fun b S' hx => ⟨fun hk hn => ?_, fun hn => ?_⟩⟩
  · exact reenters_waits hinv.lock hx hn hk
  · obtain ⟨h1, h2⟩ := given_step hinv.lock hinv.own hinv.given hx hn
    exact KeptInv.kept ⟨hinv.lock.step hx, h1, h2⟩

end

/-! ## A thread that waits for itself -/

attribute [local instance] config32

/-- Thread 1 takes mutex 0 and waits for semaphore 1, and thread 2 waits for the mutex. Thread 3 lets
thread 1 go on, which gives the mutex to thread 2, sends it a signal, and waits again. Thread 2 runs
its handler. -/
def handOverThenKill : List SigAction :=
  [.sys (.run 1 (.call (.mutexTake 0 (-1)))), .sys (.ret 1),
    .sys (.run 1 (.call (.semTake 1 (-1)))), .sys .schedule,
    .sys (.run 2 (.call (.mutexTake 0 (-1)))), .sys .schedule,
    .sys (.run 3 (.call (.semRelease 1))), .sys .schedule,
    .sys (.run 1 (.resumed 0)), .sys (.ret 1),
    .sys (.run 1 (.call (.mutexRelease 0))), .sys (.ret 1), .kill 2 3, .deliver 2,
    .sys (.run 1 (.call (.semTake 1 (-1)))), .sys .schedule, .handle 2, .handled 2]

/-- One step of a run in which no owner reenters. -/
def MutexSigRun.keep (S : MutexSigRun) (b : SigAction) : Option MutexSigRun :=
  if Reenters S.state b then none else S.exec b

theorem MutexSigRun.keep_step {S S' : MutexSigRun} {b : SigAction} (h : S.keep b = some S') :
    MutexSigRun.Step S b S' := by
  unfold MutexSigRun.keep at h
  split_ifs at h with hn
  exact ⟨h, hn⟩

theorem MutexSigRun.keep_reachable {q : Sys} {S : MutexSigRun} {l : List SigAction} (h : q.Init)
    (hl : runList MutexSigRun.keep ⟨withHandlers q, fun _ => none⟩ l = some S) :
    Reachable MutexSigRun.Init MutexSigRun.Step S :=
  (reachable_of_runList (.init ⟨withHandlers_init h, rfl⟩) hl).mono fun _ _ _ =>
    MutexSigRun.keep_step

/-- The handler has run in the thread that was made owner. -/
theorem signal_mutex_kept_kill : ∃ q S, threeThreads = some q ∧
    runList MutexSigRun.keep ⟨withHandlers q, fun _ => none⟩ handOverThenKill = some S ∧
    S.handed 2 = some 0 ∧ Kept S := by
  have hrun : (threeThreads.bind fun q =>
      (runList MutexSigRun.keep ⟨withHandlers q, fun _ => none⟩ handOverThenKill).map fun S =>
        S.handed 2) = some (some 0) := by
    decide +kernel
  obtain ⟨q, hq, hrun⟩ := Option.bind_eq_some_iff.mp hrun
  obtain ⟨S, hS, hh⟩ := Option.map_eq_some_iff.mp hrun
  have hr := MutexSigRun.keep_reachable (threeThreads_init hq) hS
  exact ⟨q, S, hq, hS, hh, (signal_mutex_kept hr).1⟩

/-- Then it goes on, and is suspended on its own mutex. -/
theorem signal_mutex_deadlock : ∃ q S, threeThreads = some q ∧
    runList MutexSigRun.exec ⟨withHandlers q, fun _ => none⟩
      (handOverThenKill ++ [.sys (.run 2 (.resumed 0))]) = some S ∧
    Reachable MutexSigRun.Init (fun S b S' => S.exec b = some S') S ∧
    2 ∈ S.state.sys.ipc.kernel.lists (.suspend (.mutex 0)) ∧
    (S.state.sys.ipc.mutex 0).owner = some 2 ∧ ¬ Kept S := by
  have hrun : (threeThreads.bind fun q =>
      (runList MutexSigRun.exec ⟨withHandlers q, fun _ => none⟩
        (handOverThenKill ++ [.sys (.run 2 (.resumed 0))])).map fun S =>
        (S.state.sys.ipc.kernel.lists (.suspend (.mutex 0)), (S.state.sys.ipc.mutex 0).owner)) =
      some ([2], some 2) := by
    decide +kernel
  obtain ⟨q, hq, hrun⟩ := Option.bind_eq_some_iff.mp hrun
  obtain ⟨S, hS, he⟩ := Option.map_eq_some_iff.mp hrun
  obtain ⟨hl, ho⟩ := Prod.mk.inj he
  have hm : 2 ∈ S.state.sys.ipc.kernel.lists (.suspend (.mutex 0)) := by
    rw [hl]
    exact List.mem_cons_self
  have hi : MutexSigRun.Init ⟨withHandlers q, fun _ => none⟩ :=
    ⟨withHandlers_init (threeThreads_init hq), rfl⟩
  exact ⟨q, S, hq, hS, reachable_of_runList (.init hi) hS, hm, ho, fun hk => hk.own 2 0 hm ho⟩

end RTThread.SigSys
