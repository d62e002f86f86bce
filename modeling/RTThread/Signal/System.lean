import RTThread.Signal.Model

set_option autoImplicit false

/-! # Wait lists and signals

A signal takes a thread out of its wait list, and its handler writes the error field of a thread
that runs. So what `WaitInv` says of the wait lists still holds, except that an error field may be
`-RT_EINTR`. The one call that looks at this value is `rt_mutex_take`, which then tries again, and
may wait with this error.
-/

namespace RTThread.SigSys

open Kernel Ipc Trans

variable [RtConfig] {k k' : Kernel} {pc pc' : ThreadId → Pc} {t u v : ThreadId} {h : ListHead}
  {s s' : SigSys} {q q' : Sys}

/-! ## The invariant -/

/-- The error field of a thread that waits in a list. -/
def WaitError (h : ListHead) (e : Err) : Prop :=
  e = .ok ∨ e = .eintr ∧ ∃ i, h = .suspend (.mutex i)

/-- The wait lists and the threads agree. -/
structure LinkInv (k : Kernel) (pc : ThreadId → Pc) : Prop where
  sched : SchedInv k
  waits : ∀ t (h : ListHead), h.IsWait → t ∈ k.lists h → (pc t).waitsOn = some h
  timer : ∀ t, (k.thread t).timer = true → ∃ h : ListHead, h.IsWait ∧ t ∈ k.lists h
  error : ∀ t (h : ListHead), h.IsWait → t ∈ k.lists h → WaitError h (k.thread t).error

/-- The threads change in what the invariant does not read, and the wait lists stay. -/
theorem LinkInv.congr (i : LinkInv k pc) (hs : SchedInv k')
    (hl : ∀ h : ListHead, h.IsWait → k'.lists h = k.lists h)
    (ht : ∀ v, (k'.thread v).timer = (k.thread v).timer)
    (he : ∀ v, (∃ h : ListHead, h.IsWait ∧ v ∈ k.lists h) →
      (k'.thread v).error = (k.thread v).error) : LinkInv k' pc := by
  refine ⟨hs, fun v h hh hv => ?_, fun v hv => ?_, fun v h hh hv => ?_⟩
  · rw [hl h hh] at hv
    exact i.waits v h hh hv
  · rw [ht] at hv
    obtain ⟨h, hh, hm⟩ := i.timer v hv
    exact ⟨h, hh, (hl h hh).symm ▸ hm⟩
  · rw [hl h hh] at hv
    rw [he v ⟨h, hh, hv⟩]
    exact i.error v h hh hv

/-- A thread that is running may go to another place. -/
theorem LinkInv.move (i : LinkInv k pc) (hr : (k.thread t).stat = .running) (p : Pc) :
    LinkInv k (Function.update pc t p) := by
  refine ⟨i.sched, fun u h hh hu => ?_, i.timer, i.error⟩
  have hne : u ≠ t := by
    rintro rfl
    exact i.sched.running_not_mem hr hu
  rw [Function.update_of_ne hne]
  exact i.waits u h hh hu

/-- A running thread gets an error. -/
theorem LinkInv.setError (i : LinkInv k pc) (hr : (k.thread t).stat = .running) (e : Err) :
    LinkInv (k.setError t e) pc := by
  have hs : SchedInv (k.setError t e) :=
    i.sched.modify_same rfl (fun _ => rfl)
      ((i.sched.thread t).of_attrs rfl fun h1 h2 => i.sched.started h1 h2)
  refine i.congr hs (fun _ _ => rfl) (fun v => ?_) fun v hv => ?_
  · by_cases hvt : v = t
    · rw [hvt, setError_self]
    · rw [setError_of_ne hvt]
  · obtain ⟨h, -, hm⟩ := hv
    rw [setError_of_ne]
    rintro rfl
    exact i.sched.running_not_mem hr hm

/-- A thread blocks. -/
theorem LinkInv.block (i : LinkInv k pc) {flag : Flag} {time : Int} (hh : h.IsWait)
    (hr : (k.thread t).stat = .running) (he : WaitError h (k.thread t).error) {p : Pc}
    (hp : p.waitsOn = some h) (b : Blocked k h t flag time k') :
    LinkInv k' (Function.update pc t p) := by
  have hnot : ∀ h', t ∉ k.lists h' := fun h' => i.sched.running_not_mem hr
  refine ⟨b.sched, fun u h' hh' hu => ?_, fun u hu => ?_, fun u h' hh' hu => ?_⟩
  · rcases (b.mem_iff hh').mp hu with hu | ⟨rfl, rfl⟩
    · have hne : u ≠ t := by
        rintro rfl
        exact hnot h' hu
      rw [Function.update_of_ne hne]
      exact i.waits u h' hh' hu
    · rw [Function.update_self, hp]
  · by_cases hut : u = t
    · exact ⟨h, hh, (b.mem_iff hh).mpr (Or.inr ⟨hut, rfl⟩)⟩
    · rw [b.thread u hut] at hu
      obtain ⟨h', hh', hm⟩ := i.timer u hu
      exact ⟨h', hh', (b.mem_iff hh').mpr (Or.inl hm)⟩
  · by_cases hut : u = t
    · obtain rfl : h' = h := by
        rcases (b.mem_iff hh').mp hu with hu | ⟨-, hu⟩
        · exact absurd (hut ▸ hu) (hnot h')
        · exact hu
      rw [hut, b.self]
      exact he
    · rw [b.thread u hut]
      refine i.error u h' hh' ?_
      exact ((b.mem_iff hh').mp hu).resolve_right fun h => hut h.1

/-- A thread is woken. -/
theorem LinkInv.woken (i : LinkInv k pc) (hu : u ∈ k.lists h) {e : Err} (w : Woken k u h e k') :
    LinkInv k' pc := by
  refine ⟨w.sched, fun v h' hh' hv => ?_, fun v hv => ?_, fun v h' hh' hv => ?_⟩
  · exact i.waits v h' hh' ((w.mem_iff i.sched hh' hu).mp hv).1
  · have hne : v ≠ u := by
      rintro rfl
      rw [w.self] at hv
      cases hv
    rw [w.thread v hne] at hv
    obtain ⟨h', hh', hm⟩ := i.timer v hv
    exact ⟨h', hh', (w.mem_iff i.sched hh' hu).mpr ⟨hm, hne⟩⟩
  · obtain ⟨hm, hne⟩ := (w.mem_iff i.sched hh' hu).mp hv
    rw [w.thread v hne]
    exact i.error v h' hh' hm

theorem LinkInv.changed (i : LinkInv k pc) {p : Nat} (c : Changed k u p k') : LinkInv k' pc := by
  have hth : ∀ v, (k'.thread v).timer = (k.thread v).timer ∧
      (k'.thread v).error = (k.thread v).error := by
    intro v
    by_cases hv : v = u
    · rw [hv, c.self]
      simp
    · rw [c.thread v hv]
      exact ⟨rfl, rfl⟩
  exact i.congr c.sched c.wait (fun v => (hth v).1) fun v _ => (hth v).2

theorem LinkInv.schedule (i : LinkInv k pc) (hk : k.rtSchedule = some k') : LinkInv k' pc := by
  have hth : ∀ v, (k'.thread v).timer = (k.thread v).timer ∧
      (k'.thread v).error = (k.thread v).error := by
    intro v
    obtain ⟨s, b, he⟩ := rtSchedule_thread i.sched hk v
    rw [he]
    exact ⟨rfl, rfl⟩
  exact i.congr (i.sched.schedule hk) (fun h hh => rtSchedule_wait i.sched hk hh)
    (fun v => (hth v).1) fun v _ => (hth v).2

/-- A thread that is suspended and linked in no wait list is resumed. -/
theorem LinkInv.resumeUnlinked (i : LinkInv k pc) (hs : (k.thread u).stat = .suspend)
    (hu : ∀ h : ListHead, h.IsWait → u ∉ k.lists h) : LinkInv (k.rtThreadResume u).2 pc ∧
      (∀ h : ListHead, h.IsWait → (k.rtThreadResume u).2.lists h = k.lists h) ∧
      ∀ v, ((k.rtThreadResume u).2.thread v).error = (k.thread v).error := by
  have he : (k.rtThreadResume u).2 =
      ((k.rtListRemove u).setTimer u false).rtScheduleInsertThread u := by
    unfold rtThreadResume
    simp [hs]
  have htimer : (k.thread u).timer = false := by
    by_contra ht
    obtain ⟨h, hh, hm⟩ := i.timer u (by simpa using ht)
    exact hu h hh hm
  have hl : ∀ h : ListHead, h.IsWait → (k.rtThreadResume u).2.lists h = k.lists h := by
    intro h hh
    rw [he, rtScheduleInsertThread_wait hh]
    exact List.erase_of_not_mem (hu h hh)
  have hth : ∀ v, ((k.rtThreadResume u).2.thread v).timer = (k.thread v).timer ∧
      ((k.rtThreadResume u).2.thread v).error = (k.thread v).error := by
    intro v
    rw [he]
    by_cases hv : v = u
    · rw [hv, rtScheduleInsertThread_self, setTimer, modify_self, htimer]
      exact ⟨rfl, rfl⟩
    · rw [rtScheduleInsertThread_of_ne hv, setTimer, modify_of_ne _ hv, rtListRemove_thread]
      exact ⟨rfl, rfl⟩
  exact ⟨i.congr i.sched.resume hl (fun v => (hth v).1) fun v _ => (hth v).2, hl,
    fun v => (hth v).2⟩

/-! ## Threads that are not concerned -/

/-- A thread that waits in no list stays so, and keeps its error. -/
def Untouched (k k' : Kernel) (v : ThreadId) : Prop :=
  (∀ h : ListHead, h.IsWait → v ∉ k.lists h) →
    (∀ h : ListHead, h.IsWait → v ∉ k'.lists h) ∧ (k'.thread v).error = (k.thread v).error

omit [RtConfig] in
theorem Untouched.refl (k : Kernel) (v : ThreadId) : Untouched k k v := fun h => ⟨h, rfl⟩

omit [RtConfig] in
theorem Untouched.trans {k₁ k₂ k₃ : Kernel} (f : Untouched k₁ k₂ v) (g : Untouched k₂ k₃ v) :
    Untouched k₁ k₃ v := by
  intro h
  obtain ⟨h1, h2⟩ := f h
  obtain ⟨h3, h4⟩ := g h1
  exact ⟨h3, h4.trans h2⟩

omit [RtConfig] in
theorem Untouched.setError (hv : v ≠ t) (e : Err) : Untouched k (k.setError t e) v := fun h =>
  ⟨h, by rw [setError_of_ne hv]⟩

theorem Untouched.blocked {flag : Flag} {time : Int} (hv : v ≠ t)
    (b : Blocked k h t flag time k') : Untouched k k' v := by
  refine fun hn => ⟨fun h' hh' hm => ?_, by rw [b.thread v hv]⟩
  rcases (b.mem_iff hh').mp hm with hm | ⟨rfl, -⟩
  · exact hn h' hh' hm
  · exact hv rfl

theorem Untouched.woken {e : Err} (i : SchedInv k) (hh : h.IsWait) (hu : u ∈ k.lists h)
    (w : Woken k u h e k') : Untouched k k' v := by
  refine fun hn => ⟨fun h' hh' hm => hn h' hh' ((w.mem_iff i hh' hu).mp hm).1, ?_⟩
  rw [w.thread v]
  rintro rfl
  exact hn h hh hu

theorem Untouched.changed {p : Nat} (c : Changed k u p k') : Untouched k k' v := by
  refine fun hn => ⟨fun h hh hm => ?_, ?_⟩
  · rw [c.wait h hh] at hm
    exact hn h hh hm
  · by_cases hv : v = u
    · rw [hv, c.self]
      simp
    · rw [c.thread v hv]

theorem Untouched.mayChange {p : Nat} {b : Prop} (m : MayChange k u p b k') :
    Untouched k k' v := by
  cases m with
  | yes _ w => exact .changed w
  | no _ => exact .refl k v

theorem Untouched.schedule (i : SchedInv k) (hk : k.rtSchedule = some k') :
    Untouched k k' v := by
  refine fun hn => ⟨fun h hh hm => ?_, ?_⟩
  · rw [rtSchedule_wait i hk hh] at hm
    exact hn h hh hm
  · obtain ⟨st, b, he⟩ := rtSchedule_thread i hk v
    rw [he]

/-! ## Sections -/

/-- The calls that take and release semaphores and mutexes. -/
def Takes : Call → Prop
  | .semTake _ _ | .semRelease _ | .mutexTake _ _ | .mutexRelease _ => True
  | _ => False

/-- The place of a thread that makes calls of some kind only. -/
def AtCall (A : Call → Prop) (p : Pc) : Prop :=
  p = .idle ∨ ∃ c, A c ∧ (p = .wait c ∨ ∃ e r, p = .ret c e r)

/-- The places of the threads, and the wait lists. -/
structure SigInv (A : Call → Prop) (q : Sys) : Prop where
  link : LinkInv q.ipc.kernel q.pc
  prio : PrioOk q.ipc
  calls : ∀ t, AtCall A (q.pc t)

section

variable {ipc : Ipc} {x : Section} {c : Call} {i : Nat} {A : Call → Prop} {a : Action}

/-- A section of a thread at a place of the call. -/
structure SectLink (ipc : Ipc) (pc : ThreadId → Pc) (t : ThreadId) (c : Call) (x : Section) :
    Prop where
  link : LinkInv x.ipc.kernel (Function.update pc t x.pc)
  prio : PrioOk x.ipc
  others : ∀ v, v ≠ t → Untouched ipc.kernel x.ipc.kernel v
  place : x.pc = .wait c ∨ ∃ e r, x.pc = .ret c e r

theorem prioOk_setMutex {a : Mutex} (hp : PrioOk ipc)
    (ha : a.owner ≠ none → a.originalPriority < RtConfig.priorityMax) :
    PrioOk (ipc.setMutex i a) := by
  intro j hj
  by_cases hji : j = i
  · subst hji
    rw [setMutex_self] at hj ⊢
    exact ha hj
  · simp only [setMutex, Function.update_of_ne hji] at hj ⊢
    exact hp j hj

theorem rtSemTake_link {time : Int} (i' : LinkInv ipc.kernel pc) (hp : PrioOk ipc)
    (hc : ipc.kernel.current = some t) (hr : (ipc.kernel.thread t).stat = .running)
    (hx : ipc.rtSemTake t i time = some x) : SectLink ipc pc t (.semTake i time) x := by
  obtain ⟨-, rfl⟩ | ⟨-, -, rfl⟩ | ⟨-, -, k', b, rfl⟩ := rtSemTake_cases i'.sched hc hr hx
  · exact ⟨i'.move hr _, hp, fun v _ => .refl _ v, Or.inr ⟨_, _, rfl⟩⟩
  · exact ⟨i'.move hr _, hp, fun v _ => .refl _ v, Or.inr ⟨_, _, rfl⟩⟩
  · refine ⟨(i'.setError hr .ok).block ⟨_, Or.inl rfl⟩ ?_ ?_ rfl b, hp,
      fun v hv => (Untouched.setError hv _).trans (.blocked hv b), Or.inl rfl⟩
    · rw [setError_self]
      exact hr
    · rw [setError_self]
      exact Or.inl rfl

theorem rtSemRelease_link (i' : LinkInv ipc.kernel pc) (hp : PrioOk ipc)
    (hx : ipc.rtSemRelease i = some x) : LinkInv x.ipc.kernel pc ∧ PrioOk x.ipc ∧
      (∀ v, Untouched ipc.kernel x.ipc.kernel v) ∧ x.pc = .ret (.semRelease i) .ok .none := by
  obtain ⟨u, l, k', hl, w, rfl⟩ | ⟨-, rfl⟩ := rtSemRelease_cases i'.sched hx
  · have hu : u ∈ ipc.kernel.lists (.suspend (.sem i)) := by
      rw [hl]
      exact List.mem_cons_self
    exact ⟨i'.woken hu w, hp, fun v => .woken i'.sched ⟨_, Or.inl rfl⟩ hu w, rfl⟩
  · exact ⟨i', hp, fun v => .refl _ v, rfl⟩

theorem MayChange.link {p : Nat} {b : Prop} (m : MayChange k u p b k') (i : LinkInv k pc) :
    LinkInv k' pc := by
  cases m with
  | yes _ w => exact i.changed w
  | no _ => exact i

theorem rtMutexTakeAgain_link {time : Int} (i' : LinkInv ipc.kernel pc) (hp : PrioOk ipc)
    (hc : ipc.kernel.current = some t) (hr : (ipc.kernel.thread t).stat = .running)
    (he : WaitError (.suspend (.mutex i)) (ipc.kernel.thread t).error)
    (hx : ipc.rtMutexTakeAgain t i time = some x) : SectLink ipc pc t (.mutexTake i time) x := by
  obtain ⟨-, rfl⟩ | ⟨-, -, rfl⟩ | ⟨-, -, owner, k₁, k', -, m, b, rfl⟩ :=
    rtMutexTakeAgain_cases i'.sched hc hr hx
  · exact ⟨i'.move hr _, prioOk_setMutex hp fun _ => (i'.sched.thread t).prio,
      fun v _ => .refl _ v, Or.inr ⟨_, _, rfl⟩⟩
  · refine ⟨(i'.setError hr _).move ?_ _, hp, fun v hv => .setError hv _, Or.inr ⟨_, _, rfl⟩⟩
    rw [setError_self]
    exact hr
  · have i₁ : LinkInv k₁ pc := MayChange.link m i'
    refine ⟨i₁.block ⟨_, Or.inl rfl⟩ (m.fields.1.trans hr) ?_ rfl b, hp,
      fun v hv => (Untouched.mayChange m).trans (.blocked hv b), Or.inl rfl⟩
    rw [m.fields.2.1]
    exact he

theorem rtMutexTake_link {time : Int} (i' : LinkInv ipc.kernel pc) (hp : PrioOk ipc)
    (hc : ipc.kernel.current = some t) (hr : (ipc.kernel.thread t).stat = .running)
    (hx : ipc.rtMutexTake t i time = some x) : SectLink ipc pc t (.mutexTake i time) x := by
  have i₀ := i'.setError hr .ok
  obtain ⟨hs₀, hc₀, hr₀⟩ := running_setError (e := .ok) i'.sched hc hr
  unfold rtMutexTake at hx
  dsimp only at hx
  split_ifs at hx with ho
  · obtain rfl := Option.some.inj hx
    exact ⟨i₀.move hr₀ _, prioOk_setMutex hp (hp i), fun v hv => .setError hv _,
      Or.inr ⟨_, _, rfl⟩⟩
  · have he : WaitError (.suspend (.mutex i)) ((ipc.kernel.setError t .ok).thread t).error := by
      rw [setError_self]
      exact Or.inl rfl
    obtain ⟨h1, h2, h3, h4⟩ := rtMutexTakeAgain_link
      (show LinkInv (ipc.setKernel (ipc.kernel.setError t .ok)).kernel _ from i₀) hp hc₀ hr₀ he hx
    exact ⟨h1, h2, fun v hv => (Untouched.setError hv _).trans (h3 v hv), h4⟩

theorem rtMutexRelease_link (i' : LinkInv ipc.kernel pc) (hp : PrioOk ipc)
    (hr : (ipc.kernel.thread t).stat = .running)
    (hx : ipc.rtMutexRelease t i = some x) : SectLink ipc pc t (.mutexRelease i) x := by
  obtain ⟨-, rfl⟩ | ⟨-, -, rfl⟩ | ⟨-, -, k₁, m, hcase⟩ := rtMutexRelease_cases i'.sched (hp i) hx
  · refine ⟨(i'.setError hr .error).move ?_ _, hp, fun v hv => .setError hv _,
      Or.inr ⟨_, _, rfl⟩⟩
    rw [setError_self]
    exact hr
  · exact ⟨i'.move hr _, prioOk_setMutex hp (hp i), fun v _ => .refl _ v, Or.inr ⟨_, _, rfl⟩⟩
  · have i₁ : LinkInv k₁ pc := MayChange.link m i'
    have hr₁ : (k₁.thread t).stat = .running := m.fields.1.trans hr
    obtain ⟨u, l, k', hl, w, rfl⟩ | ⟨-, rfl⟩ := hcase
    · have hu : u ∈ k₁.lists (.suspend (.mutex i)) := by
        rw [hl]
        exact List.mem_cons_self
      refine ⟨(i₁.woken hu w).move ?_ _, prioOk_setMutex hp fun _ => (i₁.sched.thread u).prio,
        fun v _ => (Untouched.mayChange m).trans (.woken i₁.sched ⟨_, Or.inl rfl⟩ hu w),
        Or.inr ⟨_, _, rfl⟩⟩
      show (k'.thread t).stat = .running
      rw [w.running i₁.sched ⟨_, Or.inl rfl⟩ hu hr₁, hr₁]
    · exact ⟨i₁.move hr₁ _, prioOk_setMutex hp fun h => absurd rfl h,
        fun v _ => .mayChange m, Or.inr ⟨_, _, rfl⟩⟩

/-- The first section of a call. -/
theorem call_link (i' : LinkInv ipc.kernel pc) (hp : PrioOk ipc)
    (hc : ipc.kernel.current = some t) (hr : (ipc.kernel.thread t).stat = .running) (ht : Takes c)
    (hx : ipc.call t c = some x) : SectLink ipc pc t c x := by
  cases c with
  | semTake i time => exact rtSemTake_link i' hp hc hr hx
  | semRelease i =>
      obtain ⟨h1, h2, h3, h4⟩ := rtSemRelease_link i' hp hx
      refine ⟨h1.move ?_ _, h2, fun v _ => h3 v, Or.inr ⟨_, _, h4⟩⟩
      obtain ⟨u, l, k', hl, w, rfl⟩ | ⟨-, rfl⟩ := rtSemRelease_cases i'.sched hx
      · show (k'.thread t).stat = .running
        rw [w.running i'.sched ⟨_, Or.inl rfl⟩ (by rw [hl]; exact List.mem_cons_self) hr, hr]
      · exact hr
  | mutexTake i time => exact rtMutexTake_link i' hp hc hr hx
  | mutexRelease i => exact rtMutexRelease_link i' hp hr hx
  | _ => exact absurd ht id

/-- The section after `rt_schedule`: a take returns the error, or it tries again. -/
theorem resumed_link {delta : Nat} (i' : LinkInv ipc.kernel pc) (hp : PrioOk ipc)
    (hc : ipc.kernel.current = some t) (hr : (ipc.kernel.thread t).stat = .running) (ht : Takes c)
    (hx : ipc.resumed t delta c = some x) : SectLink ipc pc t c x := by
  cases c with
  | semTake i time =>
      obtain rfl := Option.some.inj hx
      exact ⟨i'.move hr _, hp, fun v _ => .refl _ v, Or.inr ⟨_, _, rfl⟩⟩
  | mutexTake i time =>
      simp only [resumed, rtMutexTakeResumed] at hx
      split_ifs at hx with he
      · exact rtMutexTakeAgain_link i' hp hc hr (Or.inr ⟨he, i, rfl⟩) hx
      · obtain rfl := Option.some.inj hx
        exact ⟨i'.move hr _, hp, fun v _ => .refl _ v, Or.inr ⟨_, _, rfl⟩⟩
  | semRelease | mutexRelease => cases hx
  | _ => exact absurd ht id

/-! ## Steps -/

/-- A thread that is suspended is resumed for a signal: it leaves its wait list. -/
structure Signalled (k : Kernel) (pc : ThreadId → Pc) (u : ThreadId) (k' : Kernel) : Prop where
  link : LinkInv k' pc
  mem_iff : ∀ h : ListHead, h.IsWait → ∀ v, v ∈ k'.lists h ↔ v ∈ k.lists h ∧ v ≠ u
  error : ∀ v, (k'.thread v).error = (k.thread v).error

theorem LinkInv.signalled (i' : LinkInv k pc) (hs : (k.thread u).stat = .suspend) :
    Signalled k pc u (k.rtThreadResume u).2 := by
  by_cases hm : ∃ h : ListHead, h.IsWait ∧ u ∈ k.lists h
  · obtain ⟨h, hh, hu⟩ := hm
    have w := Woken.of_resume i'.sched hh hu
    exact ⟨i'.woken hu w, fun h' hh' v => w.mem_iff i'.sched hh' hu,
      fun v => w.error (Or.inr rfl)⟩
  · have hu : ∀ h : ListHead, h.IsWait → u ∉ k.lists h := fun h hh hm' => hm ⟨h, hh, hm'⟩
    obtain ⟨h1, h2, h3⟩ := i'.resumeUnlinked hs hu
    refine ⟨h1, fun h hh v => ?_, h3⟩
    rw [h2 h hh]
    refine (and_iff_left_of_imp fun hv => ?_).symm
    rintro rfl
    exact hu h hh hv

/-- What the kernel of a step with signals can be. -/
theorem Step.cases {b : SigAction} (hs : s.Step b s') :
    (∃ a, b = .sys a ∧ s.sys.Step a s'.sys ∧ s'.sig = s.sig) ∨
    ((∀ a, b ≠ .sys a) ∧ (∀ t, b ≠ .handle t) ∧ (∀ t, b = .deliver t → (s.sig t).Wanted →
      (s.sys.ipc.kernel.thread t).stat ≠ .suspend) ∧ s'.sys = s.sys) ∨
    (∃ t, b = .deliver t ∧ (s.sig t).Wanted ∧ (s.sys.ipc.kernel.thread t).stat = .suspend ∧
      s'.sys = s.sys.setKernel (s.sys.ipc.kernel.rtThreadResume t).2) ∨
    ∃ t, b = .handle t ∧ s.sys.Runs t ∧
      s'.sys = s.sys.setKernel (s.sys.ipc.kernel.setError t .eintr) := by
  unfold SigSys.Step at hs
  cases b with
  | sys a =>
      simp only [exec] at hs
      split_ifs at hs
      obtain ⟨q, hq, rfl⟩ := Option.map_eq_some_iff.mp hs
      exact Or.inl ⟨a, rfl, hq, rfl⟩
  | kill t sig =>
      refine Or.inr (Or.inl ⟨by simp, by simp, by simp, ?_⟩)
      simp only [exec, rtThreadKill] at hs
      split_ifs at hs
      all_goals
        obtain rfl := Option.some.inj hs
        rfl
  | deliver t =>
      obtain rfl := Option.some.inj hs
      unfold signalDeliver
      dsimp only
      split_ifs with h1 h2 h3 h4
      · exact Or.inr (Or.inr (Or.inl ⟨t, rfl, h1, h2, rfl⟩))
      all_goals
        refine Or.inr (Or.inl ⟨by simp, by simp, fun u hu hw => ?_, rfl⟩)
        obtain rfl := SigAction.deliver.inj hu
        first | exact h2 | exact absurd hw h1
  | handle t =>
      simp only [exec] at hs
      split_ifs at hs with hr
      refine Or.inr (Or.inr (Or.inr ⟨t, rfl, hr.1, ?_⟩))
      unfold rtThreadHandleSig at hs
      dsimp only at hs
      split_ifs at hs
      split at hs
      · obtain rfl := Option.some.inj hs
        rfl
      · cases hs
  | handled t =>
      simp only [exec] at hs
      split_ifs at hs
      obtain rfl := Option.some.inj hs
      exact Or.inr (Or.inl ⟨by simp, by simp, by simp, rfl⟩)

theorem Step.sys (hs : s.Step (.sys a) s') : s.sys.Step a s'.sys := by
  obtain ⟨a', ha, hs', -⟩ | ⟨h, -⟩ | ⟨_, h, -⟩ | ⟨_, h, -⟩ := hs.cases
  · obtain rfl := SigAction.sys.inj ha
    exact hs'
  · exact absurd rfl (h a)
  · cases h
  · cases h

/-- The calls that a step makes are of some kind. -/
def Only (A : Call → Prop) : Action → Prop
  | .run _ (.call c) | .isr c => A c
  | _ => True

theorem SigInv.sect (j : SigInv A q) (hA : ∀ c, A c → Takes c) {r : Run} (hr : q.Runs t)
    (ha : Only A (.run t r)) (hx : q.sect t r = some x) :
    ∃ c, A c ∧ SectLink q.ipc q.pc t c x := by
  cases r with
  | call c =>
      simp only [Sys.sect] at hx
      split at hx
      · exact ⟨c, ha, call_link j.link j.prio hr.1 hr.2 (hA c ha) hx⟩
      · cases hx
  | resumed delta =>
      obtain hp | ⟨c, hc, hp | ⟨e, r, hp⟩⟩ := j.calls t <;> simp only [Sys.sect, hp] at hx
      · cases hx
      · exact ⟨c, hc, resumed_link j.link j.prio hr.1 hr.2 (hA c hc) hx⟩
      · cases hx
  | copy | finish =>
      obtain hp | ⟨c, hc, hp | ⟨e, r, hp⟩⟩ := j.calls t <;> simp only [Sys.sect, hp] at hx <;>
        cases hx

/-- An interrupt handler takes or releases a semaphore. -/
theorem isr_link (i' : LinkInv ipc.kernel pc) (hp : PrioOk ipc) (hc : c.FromIsr) (ht : Takes c)
    (hx : ipc.call t c = some x) : LinkInv x.ipc.kernel pc ∧ PrioOk x.ipc ∧
      ∀ v, Untouched ipc.kernel x.ipc.kernel v := by
  cases c with
  | semTake i time =>
      obtain rfl : time = 0 := hc
      simp only [call, rtSemTake, if_true] at hx
      split_ifs at hx
      all_goals
        obtain rfl := Option.some.inj hx
        exact ⟨i', hp, fun v => .refl _ v⟩
  | semRelease i =>
      obtain ⟨h1, h2, h3, -⟩ := rtSemRelease_link i' hp hx
      exact ⟨h1, h2, h3⟩
  | mutexTake | mutexRelease => exact absurd hc id
  | _ => exact absurd ht id

/-- A step without signals keeps the invariant, and leaves the threads alone that neither run nor
wait in a list. -/
theorem SigInv.sys_step (j : SigInv A q) (hA : ∀ c, A c → Takes c) (ha : Only A a)
    (hs : q.Step a q') : SigInv A q' ∧ ∀ v, (∀ r, a ≠ .run v r) →
      Untouched q.ipc.kernel q'.ipc.kernel v := by
  obtain ⟨t, r, x, rfl, hr, hx, rfl⟩ | ⟨t, c, e, r, rfl, hr, hpc, rfl⟩ |
    ⟨c, t, x, rfl, hc, ht, hx, rfl⟩ | ⟨t, k', rfl, ht, hk, rfl⟩ | ⟨t, p, rfl, hp, rfl⟩ |
    ⟨k', rfl, hk, rfl⟩ := Ipc.Step.cases hs
  · obtain ⟨c, hc, h1, h2, h3, h4⟩ := j.sect hA hr ha hx
    refine ⟨⟨h1, h2, fun v => ?_⟩, fun v hv => h3 v fun e => hv r (by rw [e])⟩
    by_cases hv : v = t
    · subst hv
      dsimp only
      rw [Function.update_self]
      exact Or.inr ⟨c, hc, h4⟩
    · dsimp only
      rw [Function.update_of_ne hv]
      exact j.calls v
  · refine ⟨⟨j.link.move hr.2 _, j.prio, fun v => ?_⟩, fun v _ => .refl _ v⟩
    by_cases hv : v = t
    · subst hv
      exact Or.inl (Function.update_self ..)
    · simp only [Sys.move, Function.update_of_ne hv]
      exact j.calls v
  · obtain ⟨h1, h2, h3⟩ := isr_link j.link j.prio hc (hA c ha) hx
    exact ⟨⟨h1, h2, j.calls⟩, fun v _ => h3 v⟩
  · obtain ⟨h, hh, hm⟩ := j.link.timer t ht
    have w := Woken.of_timeout j.link.sched hh hm hk
    exact ⟨⟨j.link.woken hm w, j.prio, j.calls⟩, fun v _ => .woken j.link.sched hh hm w⟩
  · have ch := Changed.of_control (u := t) j.link.sched hp
    exact ⟨⟨j.link.changed ch, j.prio, j.calls⟩, fun v _ => .changed ch⟩
  · exact ⟨⟨j.link.schedule hk, j.prio, j.calls⟩, fun v _ => .schedule j.link.sched hk⟩

/-- Only the thread that runs goes to another place. -/
theorem pc_of_step (hs : q.Step a q') (hv : ∀ r, a ≠ .run v r) (hv' : a ≠ .ret v) :
    q'.pc v = q.pc v := by
  obtain ⟨t, r, x, rfl, hr, hx, rfl⟩ | ⟨t, c, e, r, rfl, hr, hpc, rfl⟩ |
    ⟨c, t, x, rfl, hc, ht, hx, rfl⟩ | ⟨t, k', rfl, ht, hk, rfl⟩ | ⟨t, p, rfl, hp, rfl⟩ |
    ⟨k', rfl, hk, rfl⟩ := Ipc.Step.cases hs
  · exact Function.update_of_ne (fun e => hv r (by rw [e])) ..
  · exact Function.update_of_ne (fun e => hv' (by rw [e])) ..
  all_goals rfl

/-- The calls that a step with signals makes are of some kind. -/
def OnlyCalls (A : Call → Prop) : SigAction → Prop
  | .sys a => Only A a
  | _ => True

instance Only.decidable [DecidablePred A] : (a : Action) → Decidable (Only A a)
  | .run _ (.call c) | .isr c => inferInstanceAs (Decidable (A c))
  | .run _ (.resumed _) | .run _ .copy | .run _ .finish | .ret _ | .timeout _ | .control _ _
  | .schedule => isTrue trivial

instance OnlyCalls.decidable [DecidablePred A] : (b : SigAction) → Decidable (OnlyCalls A b)
  | .sys a => inferInstanceAs (Decidable (Only A a))
  | .kill _ _ | .deliver _ | .handle _ | .handled _ => isTrue trivial

/-- **A step with signals keeps the invariant.** -/
theorem SigInv.step {b : SigAction} (j : SigInv A s.sys) (hA : ∀ c, A c → Takes c)
    (ha : OnlyCalls A b) (hs : s.Step b s') : SigInv A s'.sys := by
  obtain ⟨a, rfl, hs', -⟩ | ⟨-, -, -, he⟩ | ⟨t, rfl, -, hst, he⟩ | ⟨t, rfl, hr, he⟩ := hs.cases
  · exact (j.sys_step hA ha hs').1
  · rw [he]
    exact j
  · rw [he]
    exact ⟨(j.link.signalled hst).link, j.prio, j.calls⟩
  · rw [he]
    exact ⟨j.link.setError hr.2 .eintr, j.prio, j.calls⟩

theorem Init.sigInv (h : s.Init) : SigInv A s.sys := by
  have i := h.sys.sysInv
  refine ⟨⟨i.wait.sched, i.wait.waits, i.wait.timer, fun t h hh ht => Or.inl ?_⟩, i.prio,
    fun t => Or.inl (h.sys.idle t)⟩
  exact i.wait.error t h hh ht

end

end RTThread.SigSys
