import RTThread.Kernel.ReadyQueue

set_option autoImplicit false

/-! # Every function of the scheduler keeps the invariant

For each function: the cases of what it does, and that it keeps `SchedInv`.
-/

namespace RTThread.Kernel

variable [RtConfig] {k k' : Kernel} {t u : ThreadId}

namespace SchedInv

/-- A started thread has its attributes set. -/
theorem started (i : SchedInv k) (h1 : (k.thread t).stat ≠ .init)
    (h2 : (k.thread t).stat ≠ .close) : Started (k.thread t) :=
  (i.thread t).started h1 h2

/-- The clauses on the current thread, after a function that changed the state of one thread. -/
theorem of_thread (i : SchedInv k) (q : QueueInv k' none) (hc : k'.current = k.current)
    (hu : ∀ u, u ≠ t → (k'.thread u).stat = (k.thread u).stat)
    (h1 : k.current = some t → (k'.thread t).stat ≠ .init ∧ (k'.thread t).stat ≠ .ready)
    (h2 : (k'.thread t).stat = .running → k.current = some t) : SchedInv k' := by
  refine ⟨q, fun v hv => ?_, fun v hv => ?_⟩
  · rw [hc] at hv
    by_cases hvt : v = t
    · rw [hvt] at hv ⊢
      exact h1 hv
    · rw [hu v hvt]
      exact i.current v hv
  · rw [hc]
    by_cases hvt : v = t
    · rw [hvt] at hv ⊢
      exact h2 hv
    · rw [hu v hvt] at hv
      exact i.running v hv

/-- A function that changes no state of a thread. -/
theorem of_same (i : SchedInv k) (q : QueueInv k' none) (hc : k'.current = k.current)
    (hu : ∀ u, (k'.thread u).stat = (k.thread u).stat) : SchedInv k' := by
  refine ⟨q, fun v hv => ?_, fun v hv => ?_⟩
  · rw [hu v]
    exact i.current v (hc ▸ hv)
  · rw [hc]
    exact i.running v (hu v ▸ hv)

theorem modify_same (i : SchedInv k) {f : Thread → Thread}
    (hs : (f (k.thread t)).stat = (k.thread t).stat)
    (hp : (k.thread t).stat = .ready →
      (f (k.thread t)).currentPriority = (k.thread t).currentPriority)
    (hf : ThreadInv (f (k.thread t))) : SchedInv (k.modify t f) := by
  refine i.of_same (i.toQueueInv.modify_same hs hp hf) rfl fun u => ?_
  by_cases hut : u = t
  · rw [hut, modify_self, hs]
  · rw [modify_of_ne f hut]

/-! ## Linking a thread -/

/-- `rt_schedule_insert_thread`, of a thread that is linked into no list. -/
theorem insert (i : SchedInv k) (hun : Unlinked k t) (hs : Started (k.thread t)) :
    SchedInv (k.rtScheduleInsertThread t) := by
  have q := (i.toQueueInv.open_ hun).insert hs
  have hstat : ((k.rtScheduleInsertThread t).thread t).stat = insertedStat k t := by
    rw [rtScheduleInsertThread_thread, setStat, modify_self]
  refine i.of_thread (t := t) q (by simp) (fun u hu => ?_) (fun hc => ?_) fun hr => ?_
  · rw [rtScheduleInsertThread_thread, setStat, modify_of_ne _ hu]
  · rw [hstat, insertedStat, if_pos hc]
    simp
  · rw [hstat, insertedStat] at hr
    by_contra hc
    rw [if_neg hc] at hr
    contradiction

/-- `rt_schedule_remove_thread`, of a thread that is not READY. -/
theorem remove (i : SchedInv k) (hs : (k.thread t).stat ≠ .ready) :
    SchedInv (k.rtScheduleRemoveThread t) := by
  refine i.of_same ((i.toQueueInv.remove (Or.inl rfl)).close (t := t) ?_) (by simp) (by simp)
  rw [rtScheduleRemoveThread_thread]
  exact hs

/-! ## Suspending and resuming -/

theorem suspend (i : SchedInv k) {e : Err} (h : k.rtThreadSuspend t = some (e, k')) :
    SchedInv k' := by
  unfold rtThreadSuspend at h
  dsimp only at h
  split_ifs at h with h1 h2
  · cases h
    exact i
  · cases h
    have hne : (k.thread t).stat ≠ .init ∧ (k.thread t).stat ≠ .close := by
      constructor <;> intro e <;> simp [e] at h1
    have hst := i.started hne.1 hne.2
    have q := i.toQueueInv.remove (t := t) (Or.inl rfl)
    have hth : (k.rtScheduleRemoveThread t).thread t = k.thread t := by
      rw [rtScheduleRemoveThread_thread]
    have q1 : QueueInv ((k.rtScheduleRemoveThread t).setStat t .suspend) (some t) :=
      q.modify ((i.thread t).of_attrs (by rw [hth]; rfl) fun _ _ => hst)
    have q2 : QueueInv (((k.rtScheduleRemoveThread t).setStat t .suspend).setTimer t false)
        (some t) := q1.modify ((q1.thread t).of_attrs rfl fun h3 h4 => (q1.thread t).started h3 h4)
    have hstat : ((((k.rtScheduleRemoveThread t).setStat t .suspend).setTimer t false).thread
        t).stat = .suspend := by
      simp [setTimer, setStat]
    refine i.of_thread (t := t) (q2.close (by rw [hstat]; simp)) (by simp [setTimer, setStat])
      (fun u hu => ?_) (fun _ => by rw [hstat]; simp) (fun hr => by rw [hstat] at hr; cases hr)
    simp [setTimer, setStat, modify_of_ne _ hu]

/-- What `rt_thread_resume` and `rt_thread_timeout` share: a suspended thread leaves its wait list,
fields the scheduler does not use are changed, and the thread is inserted. -/
theorem resumeWith (i : SchedInv k) (hs : (k.thread t).stat = .suspend) {k₁ : Kernel}
    (hl : k₁ = k.rtListRemove t ∨ ∃ f : Thread → Thread,
      (∀ th, attrs (f th) = attrs th ∧ (f th).stat = th.stat) ∧ k₁ = (k.rtListRemove t).modify t f) :
    SchedInv (k₁.rtScheduleInsertThread t) := by
  have hst : Started (k.thread t) := i.started (by rw [hs]; simp) (by rw [hs]; simp)
  have q : QueueInv (k.rtListRemove t) (some t) := i.toQueueInv.listRemove (by rw [hs]; simp)
  have i₁ : SchedInv (k.rtListRemove t) := i.of_same (q.close (by simp [hs])) rfl fun _ => rfl
  rcases hl with rfl | ⟨f, hf, rfl⟩
  · exact i₁.insert (q.unlinked t rfl) hst
  · obtain ⟨ha, hstat⟩ := hf (k.thread t)
    have hf' : ThreadInv (f (k.thread t)) := (i.thread t).of_attrs ha fun _ _ => hst
    have i₂ : SchedInv ((k.rtListRemove t).modify t f) := by
      refine i₁.modify_same hstat (fun hr => ?_) hf'
      rw [rtListRemove_thread, hs] at hr
      cases hr
    refine i₂.insert (q.unlinked t rfl) ?_
    rw [modify_self]
    exact hst.of_attrs ha

theorem resume (i : SchedInv k) : SchedInv (k.rtThreadResume t).2 := by
  unfold rtThreadResume
  split_ifs with h
  · exact i
  · exact i.resumeWith (not_not.mp h) (Or.inr ⟨fun th => { th with timer := false },
      fun _ => ⟨rfl, rfl⟩, rfl⟩)

theorem timeout (i : SchedInv k) (h : k.threadTimeout t = some k') : SchedInv k' := by
  unfold threadTimeout at h
  split_ifs at h with hs
  cases h
  refine i.resumeWith hs (Or.inr ⟨fun th => { th with timer := false, error := .etimeout },
    fun _ => ⟨rfl, rfl⟩, ?_⟩)
  unfold setError setTimer modify rtListRemove
  simp

/-! ## Priorities -/

theorem threadInv_setPriority {th : Thread} (h : ThreadInv th) {p : Nat}
    (hp : p < RtConfig.priorityMax) : ThreadInv (setPriority th p) := by
  refine ⟨fun _ _ => started_setPriority th p, Or.inl (started_setPriority th p), ?_, ?_⟩
  · rw [setPriority_currentPriority]
    exact hp
  · rw [setPriority_initPriority]
    exact h.initPrio

theorem control (i : SchedInv k) {p : Nat} (hp : p < RtConfig.priorityMax) :
    SchedInv (k.rtThreadControl t p) := by
  have hth := threadInv_setPriority (i.thread t) hp
  unfold rtThreadControl
  split_ifs with hr
  · -- a READY thread is not the current one, so the insertion makes it READY again
    have hc : k.current ≠ some t := fun hc => (i.current t hc).2 hr
    have hth' : (k.rtScheduleRemoveThread t).thread t = k.thread t := by
      rw [rtScheduleRemoveThread_thread]
    have q : QueueInv (((k.rtScheduleRemoveThread t).modify t (setPriority · p)))
        (some t) := (i.toQueueInv.remove (Or.inl rfl)).modify (by rw [hth']; exact hth)
    have q' := q.insert (by rw [modify_self]; exact started_setPriority _ _)
    refine i.of_thread (t := t) q' (by simp) (fun u hu => ?_) (fun h => absurd h hc) fun h => ?_
    · rw [rtScheduleInsertThread_thread, setStat, modify_of_ne _ hu, modify_of_ne _ hu,
        rtScheduleRemoveThread_thread]
    · rw [rtScheduleInsertThread_thread, setStat, modify_self, insertedStat] at h
      simp [hc] at h
  · exact i.modify_same (setPriority_stat _ _) (fun h => absurd h hr) hth

end SchedInv

/-! ## `rt_schedule` -/

/-- The highest READY thread, and the priority it is found at. -/
theorem QueueInv.highest (q : QueueInv k none) {p : Nat}
    (h : k.getHighestPriorityThread = some (u, p)) :
    u ∈ k.lists (.ready p) ∧ (k.thread u).stat = .ready ∧ (k.thread u).currentPriority = p := by
  rw [getHighestPriorityThread_eq] at h
  obtain ⟨v, hv, he⟩ := Option.map_eq_some_iff.mp h
  obtain ⟨rfl, rfl⟩ := Prod.mk.inj he
  have hm := List.mem_of_mem_head? hv
  exact ⟨hm, q.ready _ _ hm⟩

/-- No READY thread has a smaller priority. -/
theorem QueueInv.highest_le (q : QueueInv k none) {p : Nat}
    (h : k.getHighestPriorityThread = some (u, p)) (ht : (k.thread t).stat = .ready) :
    p ≤ (k.thread t).currentPriority := by
  have hlt := (q.thread t).prio.trans_le priorityMax_le_bitmapSize
  have hne : k.lists (.ready (k.thread t).currentPriority) ≠ [] :=
    List.ne_nil_of_mem (q.linked t (by simp) ht)
  have hg : k.group ≠ 0 := q.bits.group_ne_zero.mpr ⟨_, hlt, hne⟩
  rw [getHighestPriorityThread_eq] at h
  obtain ⟨v, -, he⟩ := Option.map_eq_some_iff.mp h
  rw [← (Prod.mk.inj he).2]
  exact (q.bits.highest hg).2.2 _ hlt hne

/-- A group word that is not zero has a thread to show. -/
theorem QueueInv.exists_highest (q : QueueInv k none) (hg : k.group ≠ 0) :
    ∃ u p, k.getHighestPriorityThread = some (u, p) := by
  obtain ⟨-, hne, -⟩ := q.bits.highest hg
  obtain ⟨v, l, hl⟩ := List.exists_cons_of_ne_nil hne
  refine ⟨v, k.highestReadyPriority, ?_⟩
  rw [getHighestPriorityThread_eq, hl]
  rfl

theorem QueueInv.group_ne_zero_iff (q : QueueInv k none) :
    k.group ≠ 0 ↔ ∃ t, (k.thread t).stat = .ready := by
  constructor
  · intro hg
    obtain ⟨u, p, h⟩ := q.exists_highest hg
    exact ⟨u, (q.highest h).2.1⟩
  · rintro ⟨t, ht⟩
    exact q.bits.group_ne_zero.mpr ⟨_, (q.thread t).prio.trans_le priorityMax_le_bitmapSize,
      List.ne_nil_of_mem (q.linked t (by simp) ht)⟩

/-- **What `rt_schedule` does.** -/
theorem rtSchedule_cases (i : SchedInv k) (h : k.rtSchedule = some k') :
    ((k.lockNest ≠ 0 ∨ k.group = 0) ∧ k' = k) ∨
    ∃ cur u p, k.lockNest = 0 ∧ k.current = some cur ∧ u ≠ cur ∧
      k.getHighestPriorityThread = some (u, p) ∧
      (((k.thread cur).stat = .running ∧ staysCurrent (k.thread cur) p ∧
          k' = (k.rtScheduleRemoveThread cur).setStat cur .running) ∨
        ((k.thread cur).stat = .running ∧ ¬ staysCurrent (k.thread cur) p ∧
          k' = (k.setYield cur false).switchTo cur u true) ∨
        ((k.thread cur).stat ≠ .running ∧ k' = k.switchTo cur u false)) := by
  unfold rtSchedule at h
  split_ifs at h with hl hg
  · obtain ⟨⟨u, p⟩, hu, h⟩ := Option.bind_eq_some_iff.mp h
    obtain ⟨cur, hcur, h⟩ := Option.bind_eq_some_iff.mp h
    have hne : u ≠ cur := fun e => (i.current cur hcur).2 (e ▸ (i.toQueueInv.highest hu).2.1)
    refine Or.inr ⟨cur, u, p, hl, hcur, hne, hu, ?_⟩
    dsimp only at h
    by_cases hr : (k.thread cur).stat = .running
    · by_cases hst : staysCurrent (k.thread cur) p
      · simp only [if_pos hr, if_pos hst] at h
        exact Or.inl ⟨hr, hst, by simpa using h.symm⟩
      · simp only [if_pos hr, if_neg hst] at h
        exact Or.inr (Or.inl ⟨hr, hst, by simpa [hne] using h.symm⟩)
    · simp only [if_neg hr] at h
      exact Or.inr (Or.inr ⟨hr, by simpa [hne] using h.symm⟩)
  · rename_i hg
    exact Or.inl ⟨Or.inr (not_not.mp hg), by simpa using h.symm⟩
  · exact Or.inl ⟨Or.inl hl, by simpa using h.symm⟩

theorem switchTo_true {cur : ThreadId} : k.switchTo cur u true =
    (((k.setCurrent u).rtScheduleInsertThread cur).rtScheduleRemoveThread u).setStat u .running :=
  rfl

theorem switchTo_false {cur : ThreadId} : k.switchTo cur u false =
    ((k.setCurrent u).rtScheduleRemoveThread u).setStat u .running := rfl

/-- With a current thread it always returns. -/
theorem SchedInv.rtSchedule_isSome (i : SchedInv k) (hc : k.current ≠ none) :
    ∃ k', k.rtSchedule = some k' := by
  obtain ⟨cur, hcur⟩ := Option.ne_none_iff_exists'.mp hc
  unfold rtSchedule
  split_ifs with hl hg
  · obtain ⟨u, p, hu⟩ := i.toQueueInv.exists_highest hg
    rw [hu, hcur]
    dsimp only [Option.bind_eq_bind, Option.bind_some]
    split_ifs
    all_goals exact ⟨_, rfl⟩
  · exact ⟨k, rfl⟩
  · exact ⟨k, rfl⟩

theorem SchedInv.stay (i : SchedInv k) {cur : ThreadId} (hr : (k.thread cur).stat = .running) :
    SchedInv ((k.rtScheduleRemoveThread cur).setStat cur .running) := by
  have i₁ : SchedInv (k.rtScheduleRemoveThread cur) := i.remove (by rw [hr]; simp)
  have hth : (k.rtScheduleRemoveThread cur).thread cur = k.thread cur := by
    rw [rtScheduleRemoveThread_thread]
  refine i₁.modify_same ?_ (fun _ => rfl) ?_
  · rw [hth, hr]
  · rw [hth]
    exact (i.thread cur).of_attrs rfl fun _ _ => i.started (by rw [hr]; simp) (by rw [hr]; simp)

/-- The switch, after the insertion of the thread that was running. -/
theorem SchedInv.switch (q : QueueInv k none) (hu : (k.thread u).stat = .ready)
    (hr : ∀ v, (k.thread v).stat ≠ .running) (hc : k.current = some u) :
    SchedInv ((k.rtScheduleRemoveThread u).setStat u .running) := by
  have hth : (k.rtScheduleRemoveThread u).thread = k.thread := rtScheduleRemoveThread_thread
  have hst : Started (k.thread u) := (q.thread u).started (by rw [hu]; simp) (by rw [hu]; simp)
  have q' : QueueInv ((k.rtScheduleRemoveThread u).setStat u .running) (some u) :=
    (q.remove (Or.inl rfl)).modify ((q.thread u).of_attrs (by rw [hth]; rfl) fun _ _ => hst)
  have hrun : (((k.rtScheduleRemoveThread u).setStat u .running).thread u).stat = .running := by
    rw [setStat, modify_self]
  refine ⟨q'.close (by rw [hrun]; simp), fun v hv => ?_, fun v hv => ?_⟩
  · have hv' : k.current = some v := by simpa [setStat] using hv
    obtain rfl : u = v := Option.some.inj (hc.symm.trans hv')
    rw [hrun]
    simp
  · have hvu : v = u := by
      by_contra hne
      rw [setStat, modify_of_ne _ hne, hth] at hv
      exact hr v hv
    simpa [setStat, hvu] using hc

theorem SchedInv.schedule (i : SchedInv k) (h : k.rtSchedule = some k') : SchedInv k' := by
  obtain ⟨-, rfl⟩ | ⟨cur, u, p, -, hcur, hne, hu, hcase⟩ := rtSchedule_cases i h
  · exact i
  · have hur := (i.toQueueInv.highest hu).2.1
    rcases hcase with ⟨hr, -, rfl⟩ | ⟨hr, -, rfl⟩ | ⟨hr, rfl⟩
    · exact i.stay hr
    · -- the running thread goes back to its ready list
      have hst : Started (k.thread cur) := i.started (by rw [hr]; simp) (by rw [hr]; simp)
      have i₁ : SchedInv (k.setYield cur false) :=
        i.modify_same rfl (fun _ => rfl) ((i.thread cur).of_attrs rfl fun _ _ => hst)
      have hun : Unlinked k cur := i.toQueueInv.unlinked_of_stat (Or.inr hr)
      have q₁ : QueueInv ((k.setYield cur false).setCurrent u) none :=
        i₁.toQueueInv.of_eq rfl rfl rfl rfl
      have q₂ : QueueInv ((k.setYield cur false).setCurrent u) (some cur) := q₁.open_ hun
      have q₃ := q₂.insert (by
        rw [setCurrent_thread, setYield, modify_self]
        exact hst.of_attrs rfl)
      have hthread : ∀ v, v ≠ cur → ((((k.setYield cur false).setCurrent u).rtScheduleInsertThread
          cur).thread v).stat = (k.thread v).stat := by
        intro v hv
        rw [rtScheduleInsertThread_thread, setStat, modify_of_ne _ hv, setCurrent_thread, setYield,
          modify_of_ne _ hv]
      rw [switchTo_true]
      refine SchedInv.switch q₃ ?_ (fun v => ?_) (by rw [rtScheduleInsertThread_current]; rfl)
      · rw [hthread u hne, hur]
      · by_cases hv : v = cur
        · rw [hv, rtScheduleInsertThread_thread, setStat, modify_self, insertedStat]
          simp [hne]
        · rw [hthread v hv]
          exact fun hrv => hv (Option.some.inj ((i.running v hrv).symm.trans hcur))
    · refine SchedInv.switch (i.toQueueInv.of_eq rfl rfl rfl rfl) hur (fun v hrv => ?_) rfl
      have hv := i.running v hrv
      rw [hcur] at hv
      exact hr ((Option.some.inj hv) ▸ hrv)

theorem SchedInv.schedulerStart (i : SchedInv k) (hc : k.current = none)
    (h : k.rtSystemSchedulerStart = some k') : SchedInv k' := by
  obtain ⟨⟨u, p⟩, hu, h⟩ := Option.bind_eq_some_iff.mp h
  cases h
  have hur := (i.toQueueInv.highest hu).2.1
  have hnone : ∀ v, (k.thread v).stat ≠ .running := fun v hv => by
    have h1 := i.running v hv
    rw [hc] at h1
    cases h1
  have i₁ : SchedInv _ := SchedInv.switch (k := k.setCurrent u)
    (i.toQueueInv.of_eq rfl rfl rfl rfl) hur hnone rfl
  -- `resetStat` clears the yield flag as well
  have i₂ := i₁.modify_same (t := u) (f := fun th => { th with yield := false }) rfl
    (fun _ => rfl) ((i₁.thread u).of_attrs rfl fun h1 h2 => i₁.started h1 h2)
  refine cast (congrArg SchedInv ?_) i₂
  unfold resetStat setStat modify
  simp

/-! ## Starting and ending a thread -/

namespace SchedInv

theorem startup (i : SchedInv k) (h : k.rtThreadStartup t = some k') : SchedInv k' := by
  unfold rtThreadStartup at h
  dsimp only at h
  split_ifs at h with hs hc
  all_goals
    have q := i.toQueueInv.open_ (i.toQueueInv.unlinked_of_stat (Or.inl hs))
    have hnc : k.current ≠ some t := fun hc => (i.current t hc).1 hs
    have q₁ := q.modify (f := fun th => setPriority th th.initPriority)
      (threadInv_setPriority (i.thread t) (i.thread t).initPrio)
    have q₂ := q₁.modify (f := fun th => { th with stat := .suspend, yield := false })
      ((q₁.thread t).of_attrs rfl fun _ _ => by rw [modify_self]; exact started_setPriority _ _)
    have i₂ : SchedInv ((k.modify t fun th => setPriority th th.initPriority).resetStat t
        .suspend) := by
      refine i.of_thread (t := t) (q₂.close (by rw [modify_self]; simp)) rfl (fun u hu => ?_)
        (fun hc => absurd hc hnc) (fun hr => ?_)
      · rw [resetStat, modify_of_ne _ hu, modify_of_ne _ hu]
      · rw [resetStat, modify_self] at hr
        cases hr
  · cases h
    exact i₂.resume
  · exact i₂.resume.schedule h

/-- A thread that is closed, when it is linked into no list. -/
theorem closeThread (i : SchedInv k) {k₁ : Kernel} (q : QueueInv k₁ (some t))
    (hc : k₁.current = k.current) (hth : k₁.thread = k.thread) (d : Bool) :
    SchedInv (k₁.closeThread t d) := by
  have q₁ := q.modify (f := fun th => { th with timer := false })
    ((q.thread t).of_attrs rfl fun h1 h2 => (q.thread t).started h1 h2)
  have q₂ : QueueInv ((k₁.setTimer t false).resetStat t .close) (some t) :=
    q₁.modify ((q₁.thread t).of_attrs rfl fun h1 h2 => absurd rfl h2)
  have hstat : (((k₁.setTimer t false).resetStat t .close).thread t).stat = .close := by
    rw [resetStat, modify_self]
  have hother : ∀ u, u ≠ t →
      (((k₁.setTimer t false).resetStat t .close).thread u).stat = (k.thread u).stat := by
    intro u hu
    rw [resetStat, modify_of_ne _ hu, setTimer, modify_of_ne _ hu, hth]
  unfold Kernel.closeThread
  cases d with
  | true =>
      exact i.of_thread (t := t) (q₂.close (by rw [hstat]; simp)) hc hother
        (fun _ => by rw [if_pos rfl, hstat]; simp)
        (fun hr => by rw [if_pos rfl, hstat] at hr; cases hr)
  | false =>
      have q₃ := q₂.link (h := .defunct) (List.Perm.refl _) (Or.inl ⟨rfl, hstat⟩)
      exact i.of_thread (t := t) q₃ hc hother
        (fun _ => by rw [if_neg (by simp)]; exact hstat.symm ▸ ⟨by simp, by simp⟩)
        (fun hr => by
          rw [if_neg (by simp)] at hr
          exact absurd (hstat.symm.trans hr) (by simp))

theorem exit (i : SchedInv k) (h : k.rtThreadExit = some k') : SchedInv k' := by
  obtain ⟨t, -, h⟩ := Option.bind_eq_some_iff.mp h
  refine SchedInv.schedule ?_ h
  exact i.closeThread (i.toQueueInv.remove (Or.inl rfl)) (by simp) (by simp) _

/-- The removal that `rt_thread_detach` and `rt_thread_delete` make for a started thread. -/
theorem removeStarted (i : SchedInv k) :
    QueueInv (if (k.thread t).stat ≠ .init then k.rtScheduleRemoveThread t else k) (some t) := by
  split_ifs with hs
  · exact i.toQueueInv.remove (Or.inl rfl)
  · exact i.toQueueInv.open_ (i.toQueueInv.unlinked_of_stat (Or.inl (not_not.mp hs)))

theorem detach (i : SchedInv k) (h : k.rtThreadDetach t = some k') : SchedInv k' := by
  unfold rtThreadDetach at h
  split_ifs at h
  all_goals
    cases h
    refine i.closeThread (by simpa [*] using i.removeStarted (t := t)) ?_ ?_ _ <;> simp

theorem delete (i : SchedInv k) (h : k.rtThreadDelete t = some k') : SchedInv k' := by
  unfold rtThreadDelete at h
  split_ifs at h
  all_goals
    cases h
    refine i.closeThread (by simpa [*] using i.removeStarted (t := t)) ?_ ?_ _ <;> simp

theorem tick (i : SchedInv k) (h : k.rtTickIncrease = some k') : SchedInv k' := by
  obtain ⟨t, -, h⟩ := Option.bind_eq_some_iff.mp h
  refine SchedInv.schedule (i.modify_same rfl (fun _ => rfl) ?_) h
  exact (i.thread t).of_attrs rfl fun h1 h2 => i.started h1 h2

theorem threadTimeout (i : SchedInv k) (h : k.rtThreadTimeout t = some k') : SchedInv k' := by
  obtain ⟨k₁, h1, h2⟩ := Option.bind_eq_some_iff.mp h
  exact (i.timeout h1).schedule h2

end SchedInv

end RTThread.Kernel
