import RTThread.Ipc.Wait

set_option autoImplicit false

/-! # What each section does

For each function the cases of its section, with everything that changes.
-/

namespace RTThread.Ipc

open Kernel

variable [RtConfig] {s : Ipc} {k k' k₁ : Kernel} {t u v : ThreadId} {h : ListHead} {o : Obj}
  {x : Section} {i : Nat} {time timeout : Int}

section

omit [RtConfig]

@[simp] theorem setKernel_kernel : (s.setKernel k).kernel = k := rfl
@[simp] theorem setKernel_setKernel : (s.setKernel k).setKernel k' = s.setKernel k' := rfl
@[simp] theorem setKernel_sem : (s.setKernel k).sem = s.sem := rfl
@[simp] theorem setKernel_mutex : (s.setKernel k).mutex = s.mutex := rfl
@[simp] theorem setKernel_event : (s.setKernel k).event = s.event := rfl
@[simp] theorem setKernel_mb : (s.setKernel k).mb = s.mb := rfl
@[simp] theorem setKernel_mq : (s.setKernel k).mq = s.mq := rfl
@[simp] theorem setSem_kernel {a : Sem} : (s.setSem i a).kernel = s.kernel := rfl
@[simp] theorem setMutex_kernel {a : Mutex} : (s.setMutex i a).kernel = s.kernel := rfl
@[simp] theorem setEvent_kernel {a : Event} : (s.setEvent i a).kernel = s.kernel := rfl
@[simp] theorem setMb_kernel {a : Mailbox} : (s.setMb i a).kernel = s.kernel := rfl
@[simp] theorem setMq_kernel {a : MsgQueue} : (s.setMq i a).kernel = s.kernel := rfl

@[simp] theorem setSem_self {a : Sem} : (s.setSem i a).sem i = a := Function.update_self ..
@[simp] theorem setMutex_self {a : Mutex} : (s.setMutex i a).mutex i = a :=
  Function.update_self ..
@[simp] theorem setEvent_self {a : Event} : (s.setEvent i a).event i = a :=
  Function.update_self ..
@[simp] theorem setMb_self {a : Mailbox} : (s.setMb i a).mb i = a := Function.update_self ..
@[simp] theorem setMq_self {a : MsgQueue} : (s.setMq i a).mq i = a := Function.update_self ..

end

/-! ## The helpers -/

theorem block_blocked {flag : Flag} (j : SchedInv k) (hc : k.current = some t)
    (hr : (k.thread t).stat = .running) (hh : h.IsWait) (hb : block k h t flag time = some k') :
    Blocked k h t flag time k' := by
  obtain ⟨k₂, h₂, b⟩ : ∃ k₂, block k h t flag time = some k₂ ∧ Blocked k h t flag time k₂ :=
    block_spec j hc hr hh
  rw [h₂] at hb
  exact Option.some.inj hb ▸ b

theorem rtIpcListResume_cases (j : SchedInv k) (hh : h.IsWait)
    (hk : rtIpcListResume k h = some k') :
    ∃ u l, k.lists h = u :: l ∧ Woken k u h (k.thread u).error k' := by
  unfold rtIpcListResume at hk
  split at hk
  · rename_i u l hl
    obtain rfl := Option.some.inj hk
    exact ⟨u, l, hl, Woken.of_resume j hh (by rw [hl]; exact List.mem_cons_self)⟩
  · cases hk

/-- The first thread of a list is woken, if there is one. -/
inductive WakesFirst (k : Kernel) (h : ListHead) : Kernel → Bool → Prop
  | none (hl : k.lists h = []) : WakesFirst k h k false
  | first {k' : Kernel} {u : ThreadId} {l : List ThreadId} (hl : k.lists h = u :: l)
      (w : Woken k u h (k.thread u).error k') : WakesFirst k h k' true

theorem resumeFirst_cases {pc : Pc} (j : SchedInv s.kernel) (hh : h.IsWait)
    (hx : s.resumeFirst h pc = some x) :
    ∃ k' b, WakesFirst s.kernel h k' b ∧ x = ⟨s.setKernel k', pc, b⟩ := by
  unfold resumeFirst at hx
  split_ifs at hx with hl
  · obtain ⟨k', hk, hx⟩ := Option.bind_eq_some_iff.mp hx
    obtain ⟨u, l, hl', w⟩ := rtIpcListResume_cases j hh hk
    exact ⟨k', true, .first hl' w, (Option.some.inj hx).symm⟩
  · exact ⟨s.kernel, false, .none (not_not.mp hl), (Option.some.inj hx).symm⟩

/-- The running thread, after it has reset its error field. -/
theorem running_setError {e : Err} (j : SchedInv k) (hc : k.current = some t)
    (hr : (k.thread t).stat = .running) : SchedInv (k.setError t e) ∧
      (k.setError t e).current = some t ∧ ((k.setError t e).thread t).stat = .running := by
  refine ⟨j.modify_same rfl (fun _ => rfl) ?_, hc, ?_⟩
  · exact (j.thread t).of_attrs rfl fun h1 h2 => j.started h1 h2
  · rw [setError, modify_self]
    exact hr

/-! ## Semaphores -/

section

variable (j : SchedInv s.kernel)

include j

theorem rtSemTake_cases (hc : s.kernel.current = some t)
    (hr : (s.kernel.thread t).stat = .running) (hx : s.rtSemTake t i time = some x) :
    (0 < (s.sem i).value ∧ x = ⟨s.setSem i { s.sem i with value := (s.sem i).value - 1 },
      .ret (.semTake i time) .ok .none, false⟩) ∨
    ((s.sem i).value = 0 ∧ time = 0 ∧ x = ⟨s, .ret (.semTake i time) .etimeout .none, false⟩) ∨
    ((s.sem i).value = 0 ∧ time ≠ 0 ∧ ∃ k', Blocked (s.kernel.setError t .ok) (.suspend (.sem i)) t
      (s.sem i).flag time k' ∧ x = ⟨s.setKernel k', .wait (.semTake i time), true⟩) := by
  unfold rtSemTake at hx
  dsimp only at hx
  split_ifs at hx with hv ht
  · exact Or.inl ⟨hv, (Option.some.inj hx).symm⟩
  · exact Or.inr (Or.inl ⟨by omega, ht, (Option.some.inj hx).symm⟩)
  · obtain ⟨k', hk, hx⟩ := Option.bind_eq_some_iff.mp hx
    obtain ⟨j', hc', hr'⟩ := running_setError (e := .ok) j hc hr
    exact Or.inr (Or.inr ⟨by omega, ht, k', block_blocked j' hc' hr' ⟨_, Or.inl rfl⟩ hk,
      (Option.some.inj hx).symm⟩)

theorem rtSemRelease_cases (hx : s.rtSemRelease i = some x) :
    (∃ u l k', s.kernel.lists (.suspend (.sem i)) = u :: l ∧
      Woken s.kernel u (.suspend (.sem i)) (s.kernel.thread u).error k' ∧
      x = ⟨s.setKernel k', .ret (.semRelease i) .ok .none, true⟩) ∨
    (s.kernel.lists (.suspend (.sem i)) = [] ∧
      x = ⟨s.setSem i { s.sem i with value := ((s.sem i).value + 1) % 2 ^ 16 },
        .ret (.semRelease i) .ok .none, false⟩) := by
  unfold rtSemRelease at hx
  dsimp only at hx
  split_ifs at hx with hl
  · obtain ⟨k', hk, hx⟩ := Option.bind_eq_some_iff.mp hx
    obtain ⟨u, l, hl', w⟩ := rtIpcListResume_cases j ⟨_, Or.inl rfl⟩ hk
    exact Or.inl ⟨u, l, k', hl', w, (Option.some.inj hx).symm⟩
  · exact Or.inr ⟨not_not.mp hl, (Option.some.inj hx).symm⟩

/-! ## Mutexes -/

/-- The priority of a thread is changed, if it is to be. -/
inductive MayChange (k : Kernel) (u : ThreadId) (p : Nat) (c : Prop) : Kernel → Prop
  | yes {k' : Kernel} (hc : c) (w : Changed k u p k') : MayChange k u p c k'
  | no (hc : ¬ c) : MayChange k u p c k

omit j in
theorem mayChange_ite (j : SchedInv k) {p : Nat} (hp : p < RtConfig.priorityMax) (c : Prop)
    [Decidable c] : MayChange k u p c (if c then k.rtThreadControl u p else k) := by
  split_ifs with hc
  · exact .yes hc (Changed.of_control j hp)
  · exact .no hc

omit j in
theorem MayChange.sched {p : Nat} {c : Prop} (m : MayChange k u p c k') (j : SchedInv k) :
    SchedInv k' := by
  cases m with
  | yes _ w => exact w.sched
  | no _ => exact j

omit j in
theorem MayChange.thread {p : Nat} {c : Prop} (m : MayChange k u p c k') (hv : v ≠ u) :
    k'.thread v = k.thread v := by
  cases m with
  | yes _ w => exact w.thread v hv
  | no _ => rfl

omit j in
theorem MayChange.wait {p : Nat} {c : Prop} (m : MayChange k u p c k') (hh : h.IsWait) :
    k'.lists h = k.lists h := by
  cases m with
  | yes _ w => exact w.wait h hh
  | no _ => rfl

omit j in
theorem MayChange.current {p : Nat} {c : Prop} (m : MayChange k u p c k') :
    k'.current = k.current ∧ k'.lockNest = k.lockNest := by
  cases m with
  | yes _ w => exact ⟨w.current, w.lockNest⟩
  | no _ => exact ⟨rfl, rfl⟩

omit j in
/-- All but the priority attributes of the thread stays. -/
theorem MayChange.self {p : Nat} {c : Prop} (m : MayChange k u p c k') :
    k'.thread u = setPriority (k.thread u) p ∨ k'.thread u = k.thread u := by
  cases m with
  | yes _ w => exact Or.inl w.self
  | no _ => exact Or.inr rfl

omit j in
theorem MayChange.fields {p : Nat} {c : Prop} (m : MayChange k u p c k') :
    (k'.thread v).stat = (k.thread v).stat ∧ (k'.thread v).error = (k.thread v).error ∧
      (k'.thread v).initPriority = (k.thread v).initPriority := by
  by_cases hv : v = u
  · subst hv
    rcases m.self with he | he <;> rw [he] <;> simp
  · rw [m.thread hv]
    exact ⟨rfl, rfl, rfl⟩

theorem rtMutexTakeAgain_cases (hc : s.kernel.current = some t)
    (hr : (s.kernel.thread t).stat = .running) (hx : s.rtMutexTakeAgain t i time = some x) :
    (0 < (s.mutex i).value ∧ x = ⟨s.setMutex i { s.mutex i with
        value := (s.mutex i).value - 1
        owner := some t
        originalPriority := (s.kernel.thread t).currentPriority
        hold := ((s.mutex i).hold + 1) % 2 ^ 8 }, .ret (.mutexTake i time) .ok .none, false⟩) ∨
    ((s.mutex i).value = 0 ∧ time = 0 ∧ x = ⟨s.setKernel (s.kernel.setError t .etimeout),
      .ret (.mutexTake i time) .etimeout .none, false⟩) ∨
    ((s.mutex i).value = 0 ∧ time ≠ 0 ∧ ∃ owner k₁ k', (s.mutex i).owner = some owner ∧
      MayChange s.kernel owner (s.kernel.thread t).currentPriority
        ((s.kernel.thread t).currentPriority < (s.kernel.thread owner).currentPriority) k₁ ∧
      Blocked k₁ (.suspend (.mutex i)) t (s.mutex i).flag time k' ∧
      x = ⟨s.setKernel k', .wait (.mutexTake i time), true⟩) := by
  unfold rtMutexTakeAgain at hx
  dsimp only at hx
  split_ifs at hx with hv ht
  · exact Or.inl ⟨hv, (Option.some.inj hx).symm⟩
  · exact Or.inr (Or.inl ⟨by omega, ht, (Option.some.inj hx).symm⟩)
  all_goals
    obtain ⟨owner, ho, hx⟩ := Option.bind_eq_some_iff.mp hx
    obtain ⟨k', hk, hx⟩ := Option.bind_eq_some_iff.mp hx
    have m := mayChange_ite (u := owner) j (j.thread t).prio
      ((s.kernel.thread t).currentPriority < (s.kernel.thread owner).currentPriority)
    exact Or.inr (Or.inr ⟨by omega, ht, owner, _, k', ho, m,
      block_blocked (m.sched j) (m.current.1.trans hc) (m.fields.1.trans hr) ⟨_, Or.inl rfl⟩ hk,
      (Option.some.inj hx).symm⟩)

end

theorem rtMutexRelease_cases (j : SchedInv s.kernel)
    (hp : (s.mutex i).owner ≠ none → (s.mutex i).originalPriority < RtConfig.priorityMax)
    (hx : s.rtMutexRelease t i = some x) :
    ((s.mutex i).owner ≠ some t ∧ x = ⟨s.setKernel (s.kernel.setError t .error),
      .ret (.mutexRelease i) .error .none, false⟩) ∨
    ((s.mutex i).owner = some t ∧ ((s.mutex i).hold + 255) % 2 ^ 8 ≠ 0 ∧
      x = ⟨s.setMutex i { s.mutex i with hold := ((s.mutex i).hold + 255) % 2 ^ 8 },
        .ret (.mutexRelease i) .ok .none, false⟩) ∨
    ((s.mutex i).owner = some t ∧ ((s.mutex i).hold + 255) % 2 ^ 8 = 0 ∧ ∃ k₁,
      MayChange s.kernel t (s.mutex i).originalPriority
        ((s.mutex i).originalPriority ≠ (s.kernel.thread t).currentPriority) k₁ ∧
      ((∃ u l k', k₁.lists (.suspend (.mutex i)) = u :: l ∧
        Woken k₁ u (.suspend (.mutex i)) (k₁.thread u).error k' ∧
        x = ⟨(s.setKernel k').setMutex i { s.mutex i with
          owner := some u
          originalPriority := (k₁.thread u).currentPriority
          hold := 1 }, .ret (.mutexRelease i) .ok .none, true⟩) ∨
       (k₁.lists (.suspend (.mutex i)) = [] ∧
        x = ⟨(s.setKernel k₁).setMutex i { s.mutex i with
          value := ((s.mutex i).value + 1) % 2 ^ 16
          owner := none
          originalPriority := 0xff
          hold := 0 }, .ret (.mutexRelease i) .ok .none, false⟩))) := by
  unfold rtMutexRelease at hx
  dsimp only at hx
  by_cases ho : (s.mutex i).owner ≠ some t
  · rw [if_pos ho] at hx
    exact Or.inl ⟨ho, (Option.some.inj hx).symm⟩
  rw [if_neg ho] at hx
  have ho' := not_not.mp ho
  by_cases hh : ((s.mutex i).hold + 255) % 2 ^ 8 = 0
  · have m := mayChange_ite (u := t) j (hp (by rw [ho']; simp))
      ((s.mutex i).originalPriority ≠ (s.kernel.thread t).currentPriority)
    rw [if_pos hh, hh] at hx
    generalize (if (s.mutex i).originalPriority ≠ (s.kernel.thread t).currentPriority then
      s.kernel.rtThreadControl t (s.mutex i).originalPriority else s.kernel) = k₁ at hx m
    refine Or.inr (Or.inr ⟨ho', hh, k₁, m, ?_⟩)
    split at hx
    · rename_i u l hl
      obtain ⟨k', hk, hx⟩ := Option.bind_eq_some_iff.mp hx
      obtain ⟨u', l', hl', w⟩ := rtIpcListResume_cases (m.sched j) ⟨_, Or.inl rfl⟩ hk
      obtain ⟨rfl, rfl⟩ := List.cons.inj (hl.symm.trans hl')
      exact Or.inl ⟨u, l, k', hl, w, (Option.some.inj hx).symm⟩
    · rename_i hl
      exact Or.inr ⟨hl, (Option.some.inj hx).symm⟩
  · rw [if_neg hh] at hx
    exact Or.inr (Or.inl ⟨ho', hh, (Option.some.inj hx).symm⟩)

/-! ## Events -/

/-- The fields a thread that waits for an event has set. -/
def eventWaiter (k : Kernel) (t : ThreadId) (set : BitVec 32) (option : BitVec 8) : Kernel :=
  (k.setError t .ok).modify t fun th => { th with eventSet := set, eventInfo := option }

/-- Either `RT_EVENT_FLAG_AND` or `RT_EVENT_FLAG_OR` is set. -/
def EventOption (option : BitVec 8) : Prop :=
  option &&& RT_EVENT_FLAG_AND ≠ 0 ∨ option &&& RT_EVENT_FLAG_OR ≠ 0

theorem rtEventRecv_cases {set : BitVec 32} {option : BitVec 8} (j : SchedInv s.kernel)
    (hc : s.kernel.current = some t) (hr : (s.kernel.thread t).stat = .running)
    (hx : s.rtEventRecv t i set option timeout = some x) :
    (set = 0 ∧ x = ⟨s, .ret (.eventRecv i set option timeout) .error .none, false⟩) ∨
    (set ≠ 0 ∧ EventOption option ∧ eventReady (s.event i).set set option ∧
      x = ⟨(s.setKernel (s.kernel.setError t .ok)).setEvent i { s.event i with
          set := if option &&& RT_EVENT_FLAG_CLEAR ≠ 0 then (s.event i).set &&& ~~~set
            else (s.event i).set },
        .ret (.eventRecv i set option timeout) .ok (.event ((s.event i).set &&& set)), false⟩) ∨
    (¬ eventReady (s.event i).set set option ∧ timeout = 0 ∧
      x = ⟨s.setKernel ((s.kernel.setError t .ok).setError t .etimeout),
        .ret (.eventRecv i set option timeout) .etimeout .none, false⟩) ∨
    (EventOption option ∧ ¬ eventReady (s.event i).set set option ∧ timeout ≠ 0 ∧ ∃ k',
      Blocked (eventWaiter s.kernel t set option) (.suspend (.event i)) t (s.event i).flag timeout
        k' ∧ x = ⟨s.setKernel k', .wait (.eventRecv i set option timeout), true⟩) := by
  unfold rtEventRecv at hx
  by_cases h0 : set = 0
  · rw [if_pos h0] at hx
    exact Or.inl ⟨h0, (Option.some.inj hx).symm⟩
  rw [if_neg h0] at hx
  dsimp only at hx
  by_cases hf : option &&& RT_EVENT_FLAG_AND = 0 ∧ option &&& RT_EVENT_FLAG_OR = 0
  · rw [if_pos hf] at hx
    cases hx
  rw [if_neg hf] at hx
  have hopt : EventOption option := not_and_or.mp hf
  by_cases hrdy : eventReady (s.event i).set set option
  · rw [setKernel_event, if_pos hrdy] at hx
    exact Or.inr (Or.inl ⟨h0, hopt, hrdy, (Option.some.inj hx).symm⟩)
  rw [setKernel_event, if_neg hrdy] at hx
  split_ifs at hx with ht
  · exact Or.inr (Or.inr (Or.inl ⟨hrdy, ht, (Option.some.inj hx).symm⟩))
  · obtain ⟨k', hk, hx⟩ := Option.bind_eq_some_iff.mp hx
    obtain ⟨j', hc', hr'⟩ := running_setError (e := .ok) j hc hr
    have j'' : SchedInv (eventWaiter s.kernel t set option) :=
      j'.modify_same rfl (fun _ => rfl)
        ((j'.thread t).of_attrs rfl fun h1 h2 => j'.started h1 h2)
    have hr'' : ((eventWaiter s.kernel t set option).thread t).stat = .running := by
      rw [eventWaiter, modify_self]
      exact hr'
    exact Or.inr (Or.inr (Or.inr ⟨hopt, hrdy, ht, k',
      block_blocked j'' hc' hr'' ⟨_, Or.inl rfl⟩ hk, (Option.some.inj hx).symm⟩))

/-! ## Mailboxes -/

section

variable {value : BitVec 32}

theorem mbSendLoop_cases (j : SchedInv s.kernel) (hc : s.kernel.current = some t)
    (hr : (s.kernel.thread t).stat = .running) (hx : s.mbSendLoop t i value timeout = some x) :
    ((s.mb i).entry = (s.mb i).size ∧ timeout = 0 ∧
      x = ⟨s.setKernel (s.kernel.setError t .ok), .ret (.mbSend i value timeout) .efull .none,
        false⟩) ∨
    ((s.mb i).entry = (s.mb i).size ∧ timeout ≠ 0 ∧ ∃ k',
      Blocked (s.kernel.setError t .ok) (.suspendSender (.mb i)) t (s.mb i).flag timeout k' ∧
      x = ⟨s.setKernel k', .wait (.mbSend i value timeout), true⟩) ∨
    ((s.mb i).entry ≠ (s.mb i).size ∧ ∃ k' b, WakesFirst s.kernel (.suspend (.mb i)) k' b ∧
      x = ⟨(s.setMb i { s.mb i with
        msgPool := Function.update (s.mb i).msgPool (s.mb i).inOffset value
        inOffset := nextOffset (s.mb i).inOffset (s.mb i).size
        entry := ((s.mb i).entry + 1) % 2 ^ 16 }).setKernel k',
        .ret (.mbSend i value timeout) .ok .none, b⟩) := by
  unfold mbSendLoop at hx
  dsimp only at hx
  split_ifs at hx with he ht
  · exact Or.inl ⟨he, ht, (Option.some.inj hx).symm⟩
  · obtain ⟨k', hk, hx⟩ := Option.bind_eq_some_iff.mp hx
    obtain ⟨j', hc', hr'⟩ := running_setError (e := .ok) j hc hr
    exact Or.inr (Or.inl ⟨he, ht, k', block_blocked j' hc' hr' ⟨_, Or.inr rfl⟩ hk,
      (Option.some.inj hx).symm⟩)
  · obtain ⟨k', b, w, hx⟩ := resumeFirst_cases (by exact j) ⟨_, Or.inl rfl⟩ hx
    exact Or.inr (Or.inr ⟨he, k', b, w, hx⟩)

theorem mbRecvLoop_cases (j : SchedInv s.kernel) (hc : s.kernel.current = some t)
    (hr : (s.kernel.thread t).stat = .running) (hx : s.mbRecvLoop t i timeout = some x) :
    ((s.mb i).entry = 0 ∧ timeout = 0 ∧
      x = ⟨s.setKernel ((s.kernel.setError t .ok).setError t .etimeout),
        .ret (.mbRecv i timeout) .etimeout .none, false⟩) ∨
    ((s.mb i).entry = 0 ∧ timeout ≠ 0 ∧ ∃ k',
      Blocked (s.kernel.setError t .ok) (.suspend (.mb i)) t (s.mb i).flag timeout k' ∧
      x = ⟨s.setKernel k', .wait (.mbRecv i timeout), true⟩) ∨
    ((s.mb i).entry ≠ 0 ∧ ∃ k' b, WakesFirst s.kernel (.suspendSender (.mb i)) k' b ∧
      x = ⟨(s.setMb i { s.mb i with
        outOffset := nextOffset (s.mb i).outOffset (s.mb i).size
        entry := (s.mb i).entry - 1 }).setKernel k',
        .ret (.mbRecv i timeout) .ok (.mail ((s.mb i).msgPool (s.mb i).outOffset)), b⟩) := by
  unfold mbRecvLoop at hx
  dsimp only at hx
  split_ifs at hx with he ht
  · exact Or.inl ⟨he, ht, (Option.some.inj hx).symm⟩
  · obtain ⟨k', hk, hx⟩ := Option.bind_eq_some_iff.mp hx
    obtain ⟨j', hc', hr'⟩ := running_setError (e := .ok) j hc hr
    exact Or.inr (Or.inl ⟨he, ht, k', block_blocked j' hc' hr' ⟨_, Or.inl rfl⟩ hk,
      (Option.some.inj hx).symm⟩)
  · obtain ⟨k', b, w, hx⟩ := resumeFirst_cases (by exact j) ⟨_, Or.inr rfl⟩ hx
    exact Or.inr (Or.inr ⟨he, k', b, w, hx⟩)

end

/-! ## Message queues -/

section

variable {buffer : List (BitVec 8)} {size msg : Nat} {r : Reply}

theorem mqSendLoop_cases (j : SchedInv s.kernel) (hc : s.kernel.current = some t)
    (hr : (s.kernel.thread t).stat = .running) (hx : s.mqSendLoop t i buffer timeout = some x) :
    ((s.mq i).free = none ∧ timeout = 0 ∧
      x = ⟨s.setKernel (s.kernel.setError t .ok), .ret (.mqSend i buffer timeout) .efull .none,
        false⟩) ∨
    ((s.mq i).free = none ∧ timeout ≠ 0 ∧ ∃ k',
      Blocked (s.kernel.setError t .ok) (.suspendSender (.mq i)) t (s.mq i).flag timeout k' ∧
      x = ⟨s.setKernel k', .wait (.mqSend i buffer timeout), true⟩) ∨
    (∃ msg, (s.mq i).free = some msg ∧
      x = ⟨s.setMq i { s.mq i with free := (s.mq i).next msg },
        .copy (.mqSend i buffer timeout) msg, false⟩) := by
  unfold mqSendLoop at hx
  dsimp only at hx
  split at hx
  · rename_i hf
    split_ifs at hx with ht
    · exact Or.inl ⟨hf, ht, (Option.some.inj hx).symm⟩
    · obtain ⟨k', hk, hx⟩ := Option.bind_eq_some_iff.mp hx
      obtain ⟨j', hc', hr'⟩ := running_setError (e := .ok) j hc hr
      exact Or.inr (Or.inl ⟨hf, ht, k', block_blocked j' hc' hr' ⟨_, Or.inr rfl⟩ hk,
        (Option.some.inj hx).symm⟩)
  · rename_i msg hf
    exact Or.inr (Or.inr ⟨msg, hf, (Option.some.inj hx).symm⟩)

omit [RtConfig] in
theorem rtMqUrgent_cases (hx : s.rtMqUrgent i buffer = some x) :
    (∃ e, e ≠ .ok ∧ e ≠ .eintr ∧ x = ⟨s, .ret (.mqUrgent i buffer) e .none, false⟩) ∨
    (buffer.length ≤ (s.mq i).msgSize ∧ ∃ msg, (s.mq i).free = some msg ∧
      x = ⟨s.setMq i { s.mq i with free := (s.mq i).next msg }, .copy (.mqUrgent i buffer) msg,
        false⟩) := by
  unfold rtMqUrgent at hx
  dsimp only at hx
  split_ifs at hx with hb hl
  · exact Or.inl ⟨.error, by simp, by simp, (Option.some.inj hx).symm⟩
  · split at hx
    · exact Or.inl ⟨.efull, by simp, by simp, (Option.some.inj hx).symm⟩
    · rename_i msg hf
      exact Or.inr ⟨by omega, msg, hf, (Option.some.inj hx).symm⟩

theorem mqRecvLoop_cases (j : SchedInv s.kernel) (hc : s.kernel.current = some t)
    (hr : (s.kernel.thread t).stat = .running) (hx : s.mqRecvLoop t i size timeout = some x) :
    ((s.mq i).entry = 0 ∧ timeout = 0 ∧
      x = ⟨s.setKernel ((s.kernel.setError t .ok).setError t .etimeout),
        .ret (.mqRecv i size timeout) .etimeout .none, false⟩) ∨
    ((s.mq i).entry = 0 ∧ timeout ≠ 0 ∧ ∃ k',
      Blocked (s.kernel.setError t .ok) (.suspend (.mq i)) t (s.mq i).flag timeout k' ∧
      x = ⟨s.setKernel k', .wait (.mqRecv i size timeout), true⟩) ∨
    ((s.mq i).entry ≠ 0 ∧ ∃ msg, (s.mq i).head = some msg ∧
      x = ⟨s.setMq i { s.mq i with
        head := (s.mq i).next msg
        tail := if (s.mq i).tail = some msg then none else (s.mq i).tail
        entry := (s.mq i).entry - 1 }, .copy (.mqRecv i size timeout) msg, false⟩) := by
  unfold mqRecvLoop at hx
  dsimp only at hx
  split_ifs at hx with he ht
  · exact Or.inl ⟨he, ht, (Option.some.inj hx).symm⟩
  · obtain ⟨k', hk, hx⟩ := Option.bind_eq_some_iff.mp hx
    obtain ⟨j', hc', hr'⟩ := running_setError (e := .ok) j hc hr
    exact Or.inr (Or.inl ⟨he, ht, k', block_blocked j' hc' hr' ⟨_, Or.inl rfl⟩ hk,
      (Option.some.inj hx).symm⟩)
  all_goals
    obtain ⟨msg, hm, hx⟩ := Option.bind_eq_some_iff.mp hx
    exact Or.inr (Or.inr ⟨he, msg, hm, (Option.some.inj hx).symm⟩)

end

/-! ## Calls that look again -/

/-- The calls that wait for room or for a message, and look again when they are resumed. -/
def Call.HasLoop : Call → Prop
  | .mbSend _ _ _ | .mbRecv _ _ | .mqSend _ _ _ | .mqRecv _ _ _ => True
  | _ => False

/-- A pass of the loop of such a call, with the time that is left. -/
inductive Loops (s : Ipc) (t : ThreadId) (x : Section) : Call → Prop
  | mbSend {i : Nat} {value : BitVec 32} {time timeout : Int}
      (hx : s.mbSendLoop t i value timeout = some x) : Loops s t x (.mbSend i value time)
  | mbRecv {i : Nat} {time timeout : Int} (hx : s.mbRecvLoop t i timeout = some x) :
      Loops s t x (.mbRecv i time)
  | mqSend {i : Nat} {buffer : List (BitVec 8)} {time timeout : Int}
      (hx : s.mqSendLoop t i buffer timeout = some x) : Loops s t x (.mqSend i buffer time)
  | mqRecv {i size : Nat} {time timeout : Int} (hx : s.mqRecvLoop t i size timeout = some x) :
      Loops s t x (.mqRecv i size time)

/-- The first section of such a call: it fails, or it enters the loop. -/
theorem call_loops {c : Call} (hx : s.call t c = some x) (hc : c.HasLoop) :
    (∃ e, e ≠ .ok ∧ x = ⟨s, .ret c e .none, false⟩) ∨ Loops s t x c := by
  cases c with
  | mbSend =>
      simp only [call, rtMbSendWait] at hx
      split_ifs at hx
      · exact .inl ⟨.efull, by simp, (Option.some.inj hx).symm⟩
      · exact .inr (.mbSend hx)
  | mbRecv =>
      simp only [call, rtMbRecv] at hx
      split_ifs at hx
      · exact .inl ⟨.etimeout, by simp, (Option.some.inj hx).symm⟩
      · exact .inr (.mbRecv hx)
  | mqSend =>
      simp only [call, rtMqSendWait] at hx
      split_ifs at hx
      · exact .inl ⟨.error, by simp, (Option.some.inj hx).symm⟩
      · exact .inl ⟨.efull, by simp, (Option.some.inj hx).symm⟩
      · exact .inr (.mqSend hx)
  | mqRecv =>
      simp only [call, rtMqRecv] at hx
      split_ifs at hx
      · exact .inl ⟨.etimeout, by simp, (Option.some.inj hx).symm⟩
      · exact .inr (.mqRecv hx)
  | _ => exact hc.elim

/-- The section after `rt_schedule`: the call returns its error, or it looks again. -/
theorem resumed_cases {c : Call} {delta : Nat} (hx : s.resumed t delta c = some x) :
    (∃ r, (c.HasLoop → (s.kernel.thread t).error ≠ .ok) ∧
      x = ⟨s, .ret c (s.kernel.thread t).error r, false⟩) ∨
    (∃ i time, c = .mutexTake i time ∧ (s.kernel.thread t).error = .eintr ∧
      s.rtMutexTakeAgain t i time = some x) ∨ Loops s t x c := by
  cases c with
  | semTake | eventRecv => exact .inl ⟨_, fun hc => hc.elim, (Option.some.inj hx).symm⟩
  | mutexTake i time =>
      simp only [resumed, rtMutexTakeResumed] at hx
      split_ifs at hx with he
      · exact .inr (.inl ⟨i, time, rfl, he, hx⟩)
      · exact .inl ⟨_, fun hc => hc.elim, (Option.some.inj hx).symm⟩
  | mbSend =>
      simp only [resumed, rtMbSendWaitResumed] at hx
      split_ifs at hx with he
      · exact .inl ⟨_, fun _ => he, (Option.some.inj hx).symm⟩
      · exact .inr (.inr (.mbSend hx))
  | mbRecv =>
      simp only [resumed, rtMbRecvResumed] at hx
      split_ifs at hx with he
      · exact .inl ⟨_, fun _ => he, (Option.some.inj hx).symm⟩
      · exact .inr (.inr (.mbRecv hx))
  | mqSend =>
      simp only [resumed, rtMqSendWaitResumed] at hx
      split_ifs at hx with he
      · exact .inl ⟨_, fun _ => he, (Option.some.inj hx).symm⟩
      · exact .inr (.inr (.mqSend hx))
  | mqRecv =>
      simp only [resumed, rtMqRecvResumed] at hx
      split_ifs at hx with he
      · exact .inl ⟨_, fun _ => he, (Option.some.inj hx).symm⟩
      · exact .inr (.inr (.mqRecv hx))
  | semRelease | semReset | mutexRelease | eventSend | eventReset | mbReset | mqUrgent | mqReset =>
      cases hx

/-! ## Chains of changes -/

section

omit [RtConfig]

/-- The data of an object is the same in both states. -/
def SameObj (o : Obj) (s s' : Ipc) : Prop :=
  match o with
  | .sem i => s'.sem i = s.sem i
  | .mutex i => s'.mutex i = s.mutex i
  | .event i => s'.event i = s.event i
  | .mb i => s'.mb i = s.mb i
  | .mq i => s'.mq i = s.mq i

theorem SameObj.refl (o : Obj) (s : Ipc) : SameObj o s s := by
  cases o <;> rfl

theorem SameObj.setKernel {o : Obj} {s s' : Ipc} (h : SameObj o s s') (k : Kernel) :
    SameObj o s (s'.setKernel k) := by
  cases o <;> exact h

theorem sameObj_setSem {a : Sem} (ho : o ≠ .sem i) : SameObj o s (s.setSem i a) := by
  cases o with
  | sem j => exact Function.update_of_ne (fun e => ho (congrArg Obj.sem e)) ..
  | _ => rfl

theorem sameObj_setMutex {a : Mutex} (ho : o ≠ .mutex i) : SameObj o s (s.setMutex i a) := by
  cases o with
  | mutex j => exact Function.update_of_ne (fun e => ho (congrArg Obj.mutex e)) ..
  | _ => rfl

theorem sameObj_setEvent {a : Event} (ho : o ≠ .event i) : SameObj o s (s.setEvent i a) := by
  cases o with
  | event j => exact Function.update_of_ne (fun e => ho (congrArg Obj.event e)) ..
  | _ => rfl

theorem sameObj_setMb {a : Mailbox} (ho : o ≠ .mb i) : SameObj o s (s.setMb i a) := by
  cases o with
  | mb j => exact Function.update_of_ne (fun e => ho (congrArg Obj.mb e)) ..
  | _ => rfl

theorem sameObj_setMq {a : MsgQueue} (ho : o ≠ .mq i) : SameObj o s (s.setMq i a) := by
  cases o with
  | mq j => exact Function.update_of_ne (fun e => ho (congrArg Obj.mq e)) ..
  | _ => rfl

end

end RTThread.Ipc
