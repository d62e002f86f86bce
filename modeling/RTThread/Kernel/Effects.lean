import RTThread.Kernel.Scheduler

set_option autoImplicit false

/-! # What a kernel function changes

For the functions the IPC objects use: which fields of which threads and which wait lists change.
Ready lists are left to `SchedInv`.
-/

namespace RTThread.Kernel

/-- The wait lists of an object. -/
def ListHead.ofObj (o : Obj) (h : ListHead) : Prop := h = .suspend o ∨ h = .suspendSender o

def ListHead.IsWait (h : ListHead) : Prop := ∃ o, h.ofObj o

theorem ListHead.IsWait.ne_ready {h : ListHead} (hh : h.IsWait) (p : Nat) : h ≠ .ready p := by
  obtain ⟨o, rfl | rfl⟩ := hh <;> simp

variable [RtConfig] {k k' : Kernel} {t u v : ThreadId} {h h' : ListHead}

/-! ## Linking and unlinking -/

theorem SchedInv.suspended_of_mem (i : SchedInv k) (hh : h.IsWait) (hu : u ∈ k.lists h) :
    (k.thread u).stat = .suspend := by
  obtain ⟨o, rfl | rfl⟩ := hh
  · exact i.waiting u o (Or.inl hu)
  · exact i.waiting u o (Or.inr hu)

theorem SchedInv.running_not_mem (i : SchedInv k) (hr : (k.thread t).stat = .running) :
    t ∉ k.lists h :=
  i.toQueueInv.unlinked_of_stat (Or.inr hr) h

/-- A thread is in no wait list but its own. -/
theorem SchedInv.erase_of_mem (i : SchedInv k) (hu : u ∈ k.lists h) (hne : h' ≠ h) :
    (k.lists h').erase u = k.lists h' :=
  List.erase_of_not_mem fun hm => hne (i.once u h' h hm hu)

theorem rtScheduleInsertThread_wait (hh : h.IsWait) :
    (k.rtScheduleInsertThread t).lists h = k.lists h := by
  rw [rtScheduleInsertThread_lists]
  split_ifs
  · rfl
  · exact Function.update_of_ne (hh.ne_ready _) ..

theorem rtScheduleInsertThread_self :
    (k.rtScheduleInsertThread t).thread t = { k.thread t with stat := insertedStat k t } := by
  rw [rtScheduleInsertThread_thread, setStat, modify_self]

theorem rtScheduleInsertThread_of_ne (hu : u ≠ t) :
    (k.rtScheduleInsertThread t).thread u = k.thread u := by
  rw [rtScheduleInsertThread_thread, setStat, modify_of_ne _ hu]

theorem rtScheduleRemoveThread_wait (i : SchedInv k) (hh : h.IsWait)
    (hs : (k.thread t).stat ≠ .suspend) : (k.rtScheduleRemoveThread t).lists h = k.lists h := by
  rw [rtScheduleRemoveThread_lists]
  exact List.erase_of_not_mem fun hm => hs (i.suspended_of_mem hh hm)

/-! ## `rt_thread_suspend` -/

/-- The running thread suspends itself. -/
theorem rtThreadSuspend_running (hc : k.current = some t) (hr : (k.thread t).stat = .running) :
    k.rtThreadSuspend t =
      some (.ok, ((k.rtScheduleRemoveThread t).setStat t .suspend).setTimer t false) := by
  unfold rtThreadSuspend
  simp [hr, hc]

/-! ## `rt_thread_resume` and `rt_thread_timeout` -/

section Wake

/-- A thread is taken out of its wait list and made runnable, with its timer stopped. -/
structure Woken (k : Kernel) (u : ThreadId) (h : ListHead) (e : Err) (k' : Kernel) : Prop where
  sched : SchedInv k'
  current : k'.current = k.current
  lockNest : k'.lockNest = k.lockNest
  self : k'.thread u = { k.thread u with stat := insertedStat k u, timer := false, error := e }
  thread : ∀ v, v ≠ u → k'.thread v = k.thread v
  list : k'.lists h = (k.lists h).erase u
  wait : ∀ h' : ListHead, h'.IsWait → h' ≠ h → k'.lists h' = k.lists h'

theorem Woken.of_resume (i : SchedInv k) (hh : h.IsWait) (hu : u ∈ k.lists h) :
    Woken k u h (k.thread u).error (k.rtThreadResume u).2 := by
  have hs := i.suspended_of_mem hh hu
  have he : (k.rtThreadResume u).2 =
      ((k.rtListRemove u).setTimer u false).rtScheduleInsertThread u := by
    unfold rtThreadResume
    simp [hs]
  refine ⟨i.resume, ?_, ?_, ?_, fun v hv => ?_, ?_, fun h' hh' hne => ?_⟩ <;> rw [he]
  · simp [setTimer]
  · rw [rtScheduleInsertThread_lockNest]
    rfl
  · rw [rtScheduleInsertThread_self, setTimer, modify_self]
    rfl
  · rw [rtScheduleInsertThread_of_ne hv, setTimer, modify_of_ne _ hv, rtListRemove_thread]
  · rw [rtScheduleInsertThread_wait hh]
    rfl
  · rw [rtScheduleInsertThread_wait hh']
    exact i.erase_of_mem hu hne

theorem Woken.of_timeout (i : SchedInv k) (hh : h.IsWait) (hu : u ∈ k.lists h)
    (ht : k.threadTimeout u = some k') : Woken k u h .etimeout k' := by
  have hs := i.suspended_of_mem hh hu
  have he : k' = (((k.setTimer u false).setError u .etimeout).rtListRemove
      u).rtScheduleInsertThread u := by
    unfold threadTimeout at ht
    rw [if_pos hs] at ht
    exact (Option.some.inj ht).symm
  refine ⟨i.timeout ht, ?_, ?_, ?_, fun v hv => ?_, ?_, fun h' hh' hne => ?_⟩ <;> rw [he]
  · simp [setTimer, setError]
  · rw [rtScheduleInsertThread_lockNest]
    rfl
  · rw [rtScheduleInsertThread_self, rtListRemove_thread, setError, modify_self, setTimer,
      modify_self]
    rfl
  · rw [rtScheduleInsertThread_of_ne hv, rtListRemove_thread, setError, modify_of_ne _ hv,
      setTimer, modify_of_ne _ hv]
  · rw [rtScheduleInsertThread_wait hh]
    rfl
  · rw [rtScheduleInsertThread_wait hh']
    exact i.erase_of_mem hu hne

variable {e : Err}

theorem Woken.mem_iff (w : Woken k u h e k') (i : SchedInv k) (hh' : h'.IsWait)
    (hu : u ∈ k.lists h) : v ∈ k'.lists h' ↔ v ∈ k.lists h' ∧ v ≠ u := by
  by_cases hne : h' = h
  · subst hne
    rw [w.list, List.Nodup.mem_erase_iff (i.nodup h'), and_comm]
  · rw [w.wait h' hh' hne]
    refine (and_iff_left_of_imp fun hv => ?_).symm
    rintro rfl
    exact hne (i.once v h' h hv hu)

theorem Woken.currentPriority (w : Woken k u h e k') :
    (k'.thread v).currentPriority = (k.thread v).currentPriority ∧
      (k'.thread v).initPriority = (k.thread v).initPriority := by
  by_cases hv : v = u
  · rw [hv, w.self]
    exact ⟨rfl, rfl⟩
  · rw [w.thread v hv]
    exact ⟨rfl, rfl⟩

theorem Woken.error (w : Woken k u h e k') (hv : v ≠ u ∨ e = (k.thread u).error) :
    (k'.thread v).error = (k.thread v).error := by
  by_cases hvu : v = u
  · rw [hvu, w.self]
    exact hv.resolve_left (not_not_intro hvu)
  · rw [w.thread v hvu]

/-- A running thread is not the one that was waiting. -/
theorem Woken.running (w : Woken k u h e k') (i : SchedInv k) (hh : h.IsWait)
    (hu : u ∈ k.lists h) (hr : (k.thread t).stat = .running) : k'.thread t = k.thread t := by
  refine w.thread t ?_
  rintro rfl
  rw [i.suspended_of_mem hh hu] at hr
  cases hr

end Wake

/-! ## `rt_thread_control` -/

/-- The priority of a thread is changed. -/
structure Changed (k : Kernel) (u : ThreadId) (p : Nat) (k' : Kernel) : Prop where
  sched : SchedInv k'
  current : k'.current = k.current
  lockNest : k'.lockNest = k.lockNest
  self : k'.thread u = setPriority (k.thread u) p
  thread : ∀ v, v ≠ u → k'.thread v = k.thread v
  wait : ∀ h : ListHead, h.IsWait → k'.lists h = k.lists h

theorem Changed.of_control (i : SchedInv k) {p : Nat} (hp : p < RtConfig.priorityMax) :
    Changed k u p (k.rtThreadControl u p) := by
  have hs := i.control (t := u) hp
  unfold rtThreadControl at hs ⊢
  split_ifs at hs ⊢ with hr
  · have hc : k.current ≠ some u := fun hc => (i.current u hc).2 hr
    refine ⟨hs, by simp, by simp, ?_, fun v hv => ?_, fun h hh => ?_⟩
    · rw [rtScheduleInsertThread_self, modify_self, rtScheduleRemoveThread_thread]
      have hst : (setPriority (k.thread u) p).stat = .ready := by
        rw [setPriority_stat, hr]
      unfold insertedStat
      rw [if_neg (by simpa using hc), ← hst]
    · rw [rtScheduleInsertThread_of_ne hv, modify_of_ne _ hv, rtScheduleRemoveThread_thread]
    · rw [rtScheduleInsertThread_wait hh, modify_lists]
      exact rtScheduleRemoveThread_wait i hh (by rw [hr]; simp)
  · refine ⟨hs, rfl, rfl, by rw [modify_self], fun v hv => modify_of_ne _ hv, fun h hh => rfl⟩

/-! ## `rt_schedule` -/

/-- Only the states and the yield flags of the threads change, and the current thread. -/
theorem rtSchedule_thread (i : SchedInv k) (hk : k.rtSchedule = some k') (v : ThreadId) :
    ∃ s b, k'.thread v = { k.thread v with stat := s, yield := b } := by
  have hset : ∀ (k : Kernel) (w : ThreadId) (s : Stat), ∃ s' b,
      (k.setStat w s).thread v = { k.thread v with stat := s', yield := b } := by
    intro k w s
    by_cases hv : v = w
    · rw [hv, setStat, modify_self]
      exact ⟨s, _, rfl⟩
    · rw [setStat, modify_of_ne _ hv]
      exact ⟨_, _, rfl⟩
  obtain ⟨-, rfl⟩ | ⟨cur, u, p, -, -, -, -, hcase⟩ := rtSchedule_cases i hk
  · exact ⟨_, _, rfl⟩
  · rcases hcase with ⟨-, -, rfl⟩ | ⟨-, -, rfl⟩ | ⟨-, rfl⟩
    · obtain ⟨s, b, he⟩ := hset (k.rtScheduleRemoveThread cur) cur .running
      rw [rtScheduleRemoveThread_thread] at he
      exact ⟨s, b, he⟩
    · rw [switchTo_true]
      obtain ⟨s, b, he⟩ := hset ((((k.setYield cur false).setCurrent u).rtScheduleInsertThread
        cur).rtScheduleRemoveThread u) u .running
      rw [rtScheduleRemoveThread_thread, rtScheduleInsertThread_thread] at he
      obtain ⟨s', b', he'⟩ := hset ((k.setYield cur false).setCurrent u) cur
        (insertedStat ((k.setYield cur false).setCurrent u) cur)
      rw [he'] at he
      by_cases hv : v = cur
      · refine ⟨s, b, he.trans ?_⟩
        rw [hv, setCurrent_thread, setYield, modify_self]
      · refine ⟨s, b, he.trans ?_⟩
        rw [setCurrent_thread, setYield, modify_of_ne _ hv]
    · rw [switchTo_false]
      obtain ⟨s, b, he⟩ := hset ((k.setCurrent u).rtScheduleRemoveThread u) u .running
      rw [rtScheduleRemoveThread_thread] at he
      exact ⟨s, b, he⟩

theorem rtSchedule_wait (i : SchedInv k) (hk : k.rtSchedule = some k') (hh : h.IsWait) :
    k'.lists h = k.lists h := by
  have herase : ∀ {w : ThreadId}, (k.thread w).stat ≠ .suspend →
      (k.lists h).erase w = k.lists h := fun hs =>
    List.erase_of_not_mem fun hm => hs (i.suspended_of_mem hh hm)
  obtain ⟨-, rfl⟩ | ⟨cur, u, p, -, -, -, hu, hcase⟩ := rtSchedule_cases i hk
  · rfl
  · have hur : (k.thread u).stat ≠ .suspend := by
      rw [(i.toQueueInv.highest hu).2.1]
      simp
    rcases hcase with ⟨hr, -, rfl⟩ | ⟨hr, -, rfl⟩ | ⟨-, rfl⟩
    · rw [setStat, modify_lists, rtScheduleRemoveThread_lists]
      exact herase (by rw [hr]; simp)
    · rw [switchTo_true, setStat, modify_lists, rtScheduleRemoveThread_lists,
        rtScheduleInsertThread_wait hh]
      exact herase hur
    · rw [switchTo_false, setStat, modify_lists, rtScheduleRemoveThread_lists]
      exact herase hur

theorem rtSchedule_lockNest (i : SchedInv k) (hk : k.rtSchedule = some k') :
    k'.lockNest = k.lockNest := by
  obtain ⟨-, rfl⟩ | ⟨cur, u, p, -, -, -, -, hcase⟩ := rtSchedule_cases i hk
  · rfl
  · rcases hcase with ⟨-, -, rfl⟩ | ⟨-, -, rfl⟩ | ⟨-, rfl⟩
    · simp [setStat]
    · simp [switchTo_true, setStat, setYield]
    · simp [switchTo_false, setStat]

/-- **Strict priority.** After `rt_schedule` no READY thread has a smaller priority than the
current one. -/
theorem rtSchedule_strict (i : SchedInv k) (hl : k.lockNest = 0) (hk : k.rtSchedule = some k')
    (hc : k'.current = some t) (hu : (k'.thread u).stat = .ready) :
    (k'.thread t).currentPriority ≤ (k'.thread u).currentPriority := by
  have hprio : ∀ w, (k'.thread w).currentPriority = (k.thread w).currentPriority := by
    intro w
    obtain ⟨s, b, he⟩ := rtSchedule_thread i hk w
    rw [he]
  rw [hprio, hprio]
  obtain ⟨h0, rfl⟩ | ⟨cur, w, p, -, hcur, hne, hw, hcase⟩ := rtSchedule_cases i hk
  · have hg : k'.group ≠ 0 := i.toQueueInv.group_ne_zero_iff.mpr ⟨u, hu⟩
    rcases h0 with h0 | h0
    · exact absurd hl h0
    · exact absurd h0 hg
  · obtain ⟨-, -, hwp⟩ := i.toQueueInv.highest hw
    have hle : ∀ {x}, (k.thread x).stat = .ready → p ≤ (k.thread x).currentPriority := fun hx =>
      i.toQueueInv.highest_le hw hx
    rcases hcase with ⟨hr, hst, rfl⟩ | ⟨hr, hst, rfl⟩ | ⟨hr, rfl⟩
    · -- the current thread stays
      obtain rfl : cur = t := by
        have hc' : k.current = some t := by simpa [setStat] using hc
        exact Option.some.inj (hcur.symm.trans hc')
      have hur : (k.thread u).stat = .ready := by
        by_cases hut : u = cur
        · rw [hut, setStat, modify_self] at hu
          cases hu
        · rwa [setStat, modify_of_ne _ hut, rtScheduleRemoveThread_thread] at hu
      have h1 := hle hur
      rcases hst with h2 | ⟨h2, -⟩ <;> omega
    · -- the thread that was running is READY now, at a priority that is not smaller
      obtain rfl : w = t := by
        have hc' : some w = some t := by simpa [switchTo_true, setStat] using hc
        exact Option.some.inj hc'
      rw [hwp]
      by_cases hucur : u = cur
      · rw [hucur]
        by_contra hlt
        exact hst (Or.inl (by omega))
      · by_cases huw : u = w
        · rw [huw, hwp]
        · refine hle ?_
          rwa [switchTo_true, setStat, modify_of_ne _ huw, rtScheduleRemoveThread_thread,
            rtScheduleInsertThread_of_ne hucur, setCurrent_thread, setYield,
            modify_of_ne _ hucur] at hu
    · obtain rfl : w = t := by
        have hc' : some w = some t := by simpa [switchTo_false, setStat] using hc
        exact Option.some.inj hc'
      rw [hwp]
      by_cases huw : u = w
      · rw [huw, hwp]
      · refine hle ?_
        rwa [switchTo_false, setStat, modify_of_ne _ huw, rtScheduleRemoveThread_thread,
          setCurrent_thread] at hu

end RTThread.Kernel
