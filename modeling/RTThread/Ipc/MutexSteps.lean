import RTThread.Ipc.System

set_option autoImplicit false

/-! # The steps at a mutex

`MutexStep` lists what a step about one mutex can be: which sections run, when, and with what
result. The results about mutexes are all by cases on it.
-/

namespace RTThread.Ipc

open Kernel

section

variable [RtConfig]

/-- A step about mutex `i`. -/
inductive MutexStep (i : Nat) (s : Sys) : Action → Sys → Prop
  /-- `rt_mutex_take` by the owner -/
  | again {t : ThreadId} {time : Int} (hr : s.Runs t) (hp : s.pc t = .idle)
      (ho : (s.ipc.mutex i).owner = some t) :
      MutexStep i s (.run t (.call (.mutexTake i time)))
        ⟨(s.ipc.setKernel (s.ipc.kernel.setError t .ok)).setMutex i { s.ipc.mutex i with
          hold := ((s.ipc.mutex i).hold + 1) % 2 ^ 8 },
          Function.update s.pc t (.ret (.mutexTake i time) .ok .none)⟩
  /-- `rt_mutex_take` when the mutex is free -/
  | take {t : ThreadId} {time : Int} (hr : s.Runs t) (hp : s.pc t = .idle)
      (ho : (s.ipc.mutex i).owner ≠ some t) (hv : 0 < (s.ipc.mutex i).value) :
      MutexStep i s (.run t (.call (.mutexTake i time)))
        ⟨(s.ipc.setKernel (s.ipc.kernel.setError t .ok)).setMutex i { s.ipc.mutex i with
          value := (s.ipc.mutex i).value - 1
          owner := some t
          originalPriority := (s.ipc.kernel.thread t).currentPriority
          hold := ((s.ipc.mutex i).hold + 1) % 2 ^ 8 },
          Function.update s.pc t (.ret (.mutexTake i time) .ok .none)⟩
  /-- `rt_mutex_take` that does not wait -/
  | busy {t : ThreadId} (hr : s.Runs t) (hp : s.pc t = .idle)
      (ho : (s.ipc.mutex i).owner ≠ some t) (hv : (s.ipc.mutex i).value = 0) :
      MutexStep i s (.run t (.call (.mutexTake i 0)))
        ⟨s.ipc.setKernel ((s.ipc.kernel.setError t .ok).setError t .etimeout),
          Function.update s.pc t (.ret (.mutexTake i 0) .etimeout .none)⟩
  /-- `rt_mutex_take` that waits -/
  | wait {t owner : ThreadId} {time : Int} {k k' : Kernel} (hr : s.Runs t) (hp : s.pc t = .idle)
      (hne : owner ≠ t) (ho : (s.ipc.mutex i).owner = some owner)
      (hv : (s.ipc.mutex i).value = 0) (htime : time ≠ 0)
      (m : MayChange (s.ipc.kernel.setError t .ok) owner (s.ipc.kernel.thread t).currentPriority
        ((s.ipc.kernel.thread t).currentPriority < (s.ipc.kernel.thread owner).currentPriority) k)
      (b : Blocked k (.suspend (.mutex i)) t (s.ipc.mutex i).flag time k') :
      MutexStep i s (.run t (.call (.mutexTake i time)))
        ⟨s.ipc.setKernel k', Function.update s.pc t (.wait (.mutexTake i time))⟩
  /-- `rt_mutex_release` by another thread than the owner -/
  | notOwner {t : ThreadId} (hr : s.Runs t) (hp : s.pc t = .idle)
      (ho : (s.ipc.mutex i).owner ≠ some t) :
      MutexStep i s (.run t (.call (.mutexRelease i)))
        ⟨s.ipc.setKernel (s.ipc.kernel.setError t .error),
          Function.update s.pc t (.ret (.mutexRelease i) .error .none)⟩
  /-- `rt_mutex_release` of a mutex taken more than once -/
  | nested {t : ThreadId} (hr : s.Runs t) (hp : s.pc t = .idle)
      (ho : (s.ipc.mutex i).owner = some t) (hh : ((s.ipc.mutex i).hold + 255) % 2 ^ 8 ≠ 0) :
      MutexStep i s (.run t (.call (.mutexRelease i)))
        ⟨s.ipc.setMutex i { s.ipc.mutex i with hold := ((s.ipc.mutex i).hold + 255) % 2 ^ 8 },
          Function.update s.pc t (.ret (.mutexRelease i) .ok .none)⟩
  /-- `rt_mutex_release` that gives the mutex to the first waiting thread -/
  | handOver {t u : ThreadId} {l : List ThreadId} {k k' : Kernel} (hr : s.Runs t)
      (hp : s.pc t = .idle) (ho : (s.ipc.mutex i).owner = some t)
      (hh : ((s.ipc.mutex i).hold + 255) % 2 ^ 8 = 0)
      (m : MayChange s.ipc.kernel t (s.ipc.mutex i).originalPriority
        ((s.ipc.mutex i).originalPriority ≠ (s.ipc.kernel.thread t).currentPriority) k)
      (hl : s.ipc.kernel.lists (.suspend (.mutex i)) = u :: l)
      (w : Woken k u (.suspend (.mutex i)) (k.thread u).error k') :
      MutexStep i s (.run t (.call (.mutexRelease i)))
        ⟨(s.ipc.setKernel k').setMutex i { s.ipc.mutex i with
          owner := some u
          originalPriority := (k.thread u).currentPriority
          hold := 1 }, Function.update s.pc t (.ret (.mutexRelease i) .ok .none)⟩
  /-- `rt_mutex_release` with no thread that waits -/
  | free {t : ThreadId} {k : Kernel} (hr : s.Runs t) (hp : s.pc t = .idle)
      (ho : (s.ipc.mutex i).owner = some t) (hh : ((s.ipc.mutex i).hold + 255) % 2 ^ 8 = 0)
      (m : MayChange s.ipc.kernel t (s.ipc.mutex i).originalPriority
        ((s.ipc.mutex i).originalPriority ≠ (s.ipc.kernel.thread t).currentPriority) k)
      (hl : s.ipc.kernel.lists (.suspend (.mutex i)) = []) :
      MutexStep i s (.run t (.call (.mutexRelease i)))
        ⟨(s.ipc.setKernel k).setMutex i { s.ipc.mutex i with
          value := ((s.ipc.mutex i).value + 1) % 2 ^ 16
          owner := none
          originalPriority := 0xff
          hold := 0 }, Function.update s.pc t (.ret (.mutexRelease i) .ok .none)⟩
  /-- `rt_mutex_take` goes on after its `rt_schedule` -/
  | resumed {t : ThreadId} {time : Int} {delta : Nat} (hr : s.Runs t)
      (hp : s.pc t = .wait (.mutexTake i time)) :
      MutexStep i s (.run t (.resumed delta))
        ⟨s.ipc, Function.update s.pc t
          (.ret (.mutexTake i time) (s.ipc.kernel.thread t).error .none)⟩
  /-- a call returns -/
  | ret {t : ThreadId} {c : Call} {e : Err} {r : Reply} (hr : s.Runs t) (hp : s.pc t = .ret c e r)
      (hc : c.obj = .mutex i) : MutexStep i s (.ret t) (s.move t .idle)
  /-- the time of a waiting thread is over -/
  | timeout {t : ThreadId} {time : Int} {k' : Kernel} (hp : s.pc t = .wait (.mutexTake i time))
      (hm : t ∈ s.ipc.kernel.lists (.suspend (.mutex i)))
      (w : Woken s.ipc.kernel t (.suspend (.mutex i)) .etimeout k') :
      MutexStep i s (.timeout t) (s.setKernel k')

variable {i : Nat} {s s' : Sys} {a : Action} {t u : ThreadId} {time : Int} {x : Section}

omit [RtConfig] in
/-- A thread in the list of a mutex is in `rt_mutex_take`. -/
theorem mutexWaiter (h : (s.pc u).waitsOn = some (.suspend (.mutex i))) :
    ∃ time, s.pc u = .wait (.mutexTake i time) := by
  cases hpc : s.pc u with
  | wait c =>
      rw [hpc] at h
      cases c with
      | mutexTake j time =>
          obtain rfl : j = i := by simpa [Pc.waitsOn, Call.waitsOn] using h
          exact ⟨time, rfl⟩
      | _ => simp [Pc.waitsOn, Call.waitsOn] at h
  | _ =>
      rw [hpc] at h
      simp [Pc.waitsOn] at h

theorem mutexStep_take (j : SysInv s) (hr : s.Runs t) (hp : s.pc t = .idle)
    (hx : s.ipc.rtMutexTake t i time = some x) :
    MutexStep i s (.run t (.call (.mutexTake i time))) ⟨x.ipc, Function.update s.pc t x.pc⟩ := by
  unfold rtMutexTake at hx
  dsimp only at hx
  by_cases ho : (s.ipc.mutex i).owner = some t
  · rw [setKernel_mutex, if_pos ho] at hx
    obtain rfl := Option.some.inj hx
    exact .again hr hp ho
  · rw [setKernel_mutex, if_neg ho] at hx
    obtain ⟨j', hc', hr'⟩ := running_setError (e := .ok) j.wait.sched hr.1 hr.2
    have hprio : ∀ v, ((s.ipc.kernel.setError t .ok).thread v).currentPriority =
        (s.ipc.kernel.thread v).currentPriority := by
      intro v
      by_cases hv : v = t
      · rw [hv, setError, modify_self]
      · rw [setError, modify_of_ne _ hv]
    obtain ⟨hv, rfl⟩ | ⟨hv, rfl, rfl⟩ | ⟨hv, htime, owner, k₁, k', ho', m, b, rfl⟩ :=
      rtMutexTakeAgain_cases (s := s.ipc.setKernel (s.ipc.kernel.setError t .ok)) j' hc' hr' hx
    · have hs : MutexStep i s (.run t (.call (.mutexTake i time))) _ := .take hr hp ho hv
      rw [← hprio t] at hs
      exact hs
    · exact .busy hr hp ho hv
    · have hne : owner ≠ t := fun e => ho (e ▸ ho')
      rw [setKernel_kernel, hprio, hprio] at m
      exact .wait hr hp hne ho' hv htime m b

theorem mutexStep_release (j : SysInv s) (hr : s.Runs t) (hp : s.pc t = .idle)
    (hx : s.ipc.rtMutexRelease t i = some x) :
    MutexStep i s (.run t (.call (.mutexRelease i))) ⟨x.ipc, Function.update s.pc t x.pc⟩ := by
  obtain ⟨ho, rfl⟩ | ⟨ho, hh, rfl⟩ | ⟨ho, hh, k₁, m, hcase⟩ :=
    rtMutexRelease_cases j.wait.sched (j.prio i) hx
  · exact .notOwner hr hp ho
  · exact .nested hr hp ho hh
  · have hlist := m.wait (h := .suspend (.mutex i)) ⟨_, Or.inl rfl⟩
    obtain ⟨u, l, k', hl, w, rfl⟩ | ⟨hl, rfl⟩ := hcase
    · exact .handOver hr hp ho hh m (hlist.symm.trans hl) w
    · exact .free hr hp ho hh m (hlist.symm.trans hl)

/-- **What a step at a mutex is.** -/
theorem mutexStep (hs : s.Step a s') (j : SysInv s) (ha : s.actObj a = some (.mutex i)) :
    MutexStep i s a s' := by
  obtain ⟨t, r, x, rfl, hr, hx, rfl⟩ | ⟨t, c, e, r, rfl, hr, hpc, rfl⟩ |
    ⟨c, t, x, rfl, hc, ht, hx, rfl⟩ | ⟨t, k', rfl, ht, hk, rfl⟩ | ⟨t, p, rfl, hp, rfl⟩ |
    ⟨k', rfl, hk, rfl⟩ := Step.cases hs
  · obtain ⟨c, rfl, hobj, hidle, hx⟩ | ⟨delta, c, rfl, hobj, hp, hx⟩ :=
      sect_cases_of_ne hx ha (by simp)
    · cases c with
      | mutexTake m time =>
          obtain rfl : m = i := Obj.mutex.inj hobj
          exact mutexStep_take j hr hidle hx
      | mutexRelease m =>
          obtain rfl : m = i := Obj.mutex.inj hobj
          exact mutexStep_release j hr hidle hx
      | _ => simp [Call.obj] at hobj
    · cases c with
      | mutexTake m time =>
          obtain rfl : m = i := Obj.mutex.inj hobj
          simp only [Ipc.resumed, rtMutexTakeResumed, if_neg (j.wait.signal t)] at hx
          obtain rfl := Option.some.inj hx
          exact .resumed hr hp
      | mutexRelease => cases hx
      | _ => simp [Call.obj] at hobj
  · have hobj : c.obj = .mutex i := by simpa [Sys.actObj, hpc, Pc.obj] using ha
    exact .ret hr hpc hobj
  · have hobj : c.obj = .mutex i := Option.some.inj ha
    cases c with
    | mutexTake | mutexRelease => exact absurd hc (by simp [Call.FromIsr])
    | _ => simp [Call.obj] at hobj
  · obtain ⟨l, hl, hm, hw, w⟩ := timeout_woken j ht hk
    obtain ⟨o, ho, hlo⟩ := Pc.ofObj_waitsOn hw
    obtain rfl : o = .mutex i := Option.some.inj (ho.symm.trans ha)
    obtain rfl : l = .suspend (.mutex i) := by
      cases hpc : s.pc t with
      | wait c =>
          rw [hpc] at hw ho
          cases c <;> simp_all [Pc.waitsOn, Call.waitsOn, Pc.obj, Call.obj]
      | _ =>
          rw [hpc] at hw
          simp [Pc.waitsOn] at hw
    obtain ⟨time, hpc⟩ := mutexWaiter hw
    exact .timeout hpc hm w
  · cases ha
  · cases ha

end

end RTThread.Ipc
