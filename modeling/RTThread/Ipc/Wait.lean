import RTThread.Kernel.Effects
import RTThread.Ipc.Model

set_option autoImplicit false

/-! # Wait lists

`WaitInv` ties the wait lists to the places of the threads: a thread linked in a wait list is
blocked in a call on that object, and its error field is still RT_EOK. Everything a section does to
the kernel is a chain of small changes (`Prim`), each of which keeps the invariant, and perhaps the
suspension of the running thread at the end.
-/

namespace RTThread.Ipc

open Kernel

/-! ## Insertion -/

section

variable {k k' : Kernel} {t : ThreadId}

theorem prioInsert_perm (k : Kernel) (t : ThreadId) (l : List ThreadId) :
    (prioInsert k t l).Perm (t :: l) := by
  induction l with
  | nil => exact List.Perm.refl _
  | cons u l ih =>
      unfold prioInsert
      split
      · exact List.Perm.refl _
      · exact (ih.cons u).trans (List.Perm.swap t u l)

/-- A list in some order stays so if the thread belongs in front of every thread that is less urgent, and
behind the others. -/
theorem prioInsert_pairwise {R : ThreadId → ThreadId → Prop} {l : List ThreadId} (h : l.Pairwise R)
    (hlt : ∀ u v, (k.thread t).currentPriority < (k.thread u).currentPriority → u = v ∨ R u v → R t v)
    (hge : ∀ u ∈ l, ¬ (k.thread t).currentPriority < (k.thread u).currentPriority → R u t) :
    (prioInsert k t l).Pairwise R := by
  induction l with
  | nil => exact List.pairwise_singleton _ _
  | cons w l ih =>
      obtain ⟨hw, hl⟩ := List.pairwise_cons.mp h
      unfold prioInsert
      split_ifs with hltw
      · refine List.pairwise_cons.mpr ⟨fun v hv => hlt w v hltw ?_, h⟩
        obtain rfl | hv := List.mem_cons.mp hv
        · exact Or.inl rfl
        · exact Or.inr (hw v hv)
      · refine List.pairwise_cons.mpr ⟨fun v hv => ?_, ih hl fun u hu => hge u (List.mem_cons_of_mem w hu)⟩
        rw [(prioInsert_perm k t l).mem_iff] at hv
        obtain rfl | hv := List.mem_cons.mp hv
        · exact hge w List.mem_cons_self hltw
        · exact hw v hv

theorem prioInsert_congr (h : ∀ u, (k'.thread u).currentPriority = (k.thread u).currentPriority)
    (l : List ThreadId) : prioInsert k' t l = prioInsert k t l := by
  induction l with
  | nil => rfl
  | cons u l ih =>
      unfold prioInsert
      rw [h t, h u, ih]

/-- The wait list after a thread has been suspended in it. -/
def waitInsert (k : Kernel) (t : ThreadId) (flag : Flag) (l : List ThreadId) : List ThreadId :=
  match flag with
  | .fifo => l ++ [t]
  | .prio => prioInsert k t l

theorem waitInsert_perm (k : Kernel) (t : ThreadId) (flag : Flag) (l : List ThreadId) :
    (waitInsert k t flag l).Perm (t :: l) := by
  cases flag with
  | fifo => exact List.perm_append_singleton t l
  | prio => exact prioInsert_perm k t l

theorem waitInsert_congr (h : ∀ u, (k'.thread u).currentPriority = (k.thread u).currentPriority)
    (flag : Flag) (l : List ThreadId) : waitInsert k' t flag l = waitInsert k t flag l := by
  cases flag with
  | fifo => rfl
  | prio => exact prioInsert_congr h l

end

/-! ## Blocking -/

section

variable [RtConfig] {k k' : Kernel} {t u v : ThreadId} {h : ListHead} {flag : Flag} {time : Int}

/-- The running thread is suspended in a wait list. -/
structure Blocked (k : Kernel) (h : ListHead) (t : ThreadId) (flag : Flag) (time : Int)
    (k' : Kernel) : Prop where
  sched : SchedInv k'
  current : k'.current = k.current
  lockNest : k'.lockNest = k.lockNest
  self : k'.thread t = { k.thread t with stat := .suspend, timer := decide (0 < time) }
  thread : ∀ v, v ≠ t → k'.thread v = k.thread v
  list : k'.lists h = waitInsert k t flag (k.lists h)
  wait : ∀ h' : ListHead, h'.IsWait → h' ≠ h → k'.lists h' = k.lists h'

theorem rtIpcListSuspend_eq (hc : k.current = some t) (hr : (k.thread t).stat = .running) :
    rtIpcListSuspend k h t flag =
      let k₁ := ((k.rtScheduleRemoveThread t).setStat t .suspend).setTimer t false
      some { k₁ with lists := Function.update k₁.lists h (waitInsert k₁ t flag (k₁.lists h)) } := by
  unfold rtIpcListSuspend
  rw [rtThreadSuspend_running hc hr]
  cases flag <;> rfl

/-- **What blocking does.** -/
theorem block_spec (i : SchedInv k) (hc : k.current = some t) (hr : (k.thread t).stat = .running)
    (hh : h.IsWait) : ∃ k', block k h t flag time = some k' ∧ Blocked k h t flag time k' := by
  set k₁ := ((k.rtScheduleRemoveThread t).setStat t .suspend).setTimer t false with hk₁
  have hself : k₁.thread t = { k.thread t with stat := .suspend, timer := false } := by
    rw [hk₁, setTimer, modify_self, setStat, modify_self, rtScheduleRemoveThread_thread]
  have hother : ∀ v, v ≠ t → k₁.thread v = k.thread v := by
    intro v hv
    rw [hk₁, setTimer, modify_of_ne _ hv, setStat, modify_of_ne _ hv,
      rtScheduleRemoveThread_thread]
  have hlists : ∀ h' : ListHead, h'.IsWait → k₁.lists h' = k.lists h' := by
    intro h' hh'
    rw [hk₁, setTimer, modify_lists, setStat, modify_lists]
    exact rtScheduleRemoveThread_wait i hh' (by rw [hr]; simp)
  have hprio : ∀ v, (k₁.thread v).currentPriority = (k.thread v).currentPriority := by
    intro v
    by_cases hv : v = t
    · rw [hv, hself]
    · rw [hother v hv]
  have hst : Started (k.thread t) := i.started (by rw [hr]; simp) (by rw [hr]; simp)
  -- the thread is unlinked, and then linked behind `h`
  have q₀ := i.toQueueInv.remove (t := t) (Or.inl rfl)
  have q₁ := q₀.modify (f := fun th => { th with stat := .suspend })
    ((i.thread t).of_attrs (by rw [rtScheduleRemoveThread_thread]; rfl) fun _ _ => hst)
  have q₂ : QueueInv k₁ (some t) := q₁.modify (f := fun th => { th with timer := false })
    ((q₁.thread t).of_attrs rfl fun h1 h2 => (q₁.thread t).started h1 h2)
  have hstat : (k₁.thread t).stat = .suspend := by rw [hself]
  set k₂ : Kernel := { k₁ with
    lists := Function.update k₁.lists h (waitInsert k₁ t flag (k₁.lists h)) } with hk₂
  have q₃ : QueueInv k₂ none := q₂.link (waitInsert_perm k₁ t flag _)
    (Or.inr ⟨hstat, hh.elim fun o ho => ⟨o, ho⟩⟩)
  have i₂ : SchedInv k₂ := i.of_thread (t := t) q₃ (by rw [hk₂, hk₁]; simp [setTimer, setStat])
    (fun u hu => by rw [hk₂]; exact congrArg Thread.stat (hother u hu))
    (fun _ => by rw [hk₂]; exact hstat.symm ▸ ⟨by simp, by simp⟩)
    (fun h1 => by
      rw [hk₂] at h1
      exact absurd (hstat.symm.trans h1) (by simp))
  -- the timer is started last
  have b : Blocked k h t flag 0 k₂ := by
    refine ⟨i₂, by rw [hk₂, hk₁]; simp [setTimer, setStat], ?_, ?_, hother, ?_, fun h' hh' hne => ?_⟩
    · show k₁.lockNest = k.lockNest
      rw [hk₁, setTimer, modify_lockNest, setStat, modify_lockNest, rtScheduleRemoveThread_lockNest]
    · show k₁.thread t = _
      rw [hself]
      simp
    · show Function.update k₁.lists h _ h = _
      rw [Function.update_self, hlists h hh, waitInsert_congr hprio]
    · show Function.update k₁.lists h _ h' = _
      rw [Function.update_of_ne hne, hlists h' hh']
  have he : block k h t flag time = some (if 0 < time then k₂.setTimer t true else k₂) := by
    unfold block
    rw [rtIpcListSuspend_eq hc hr]
    rfl
  refine ⟨_, he, ?_⟩
  split_ifs with htime
  · refine ⟨i₂.modify_same rfl (fun _ => rfl) ?_, b.current, b.lockNest, ?_, fun v hv => ?_, b.list,
      b.wait⟩
    · exact (i₂.thread t).of_attrs rfl fun h1 h2 => i₂.started h1 h2
    · rw [setTimer, modify_self, b.self]
      simp [htime]
    · rw [setTimer, modify_of_ne _ hv, b.thread v hv]
  · refine ⟨b.sched, b.current, b.lockNest, ?_, b.thread, b.list, b.wait⟩
    rw [b.self]
    simp [htime]

theorem Blocked.mem_iff (b : Blocked k h t flag time k') {h' : ListHead} (hh' : h'.IsWait) :
    v ∈ k'.lists h' ↔ v ∈ k.lists h' ∨ v = t ∧ h' = h := by
  by_cases hne : h' = h
  · subst hne
    rw [b.list, (waitInsert_perm k t flag _).mem_iff, List.mem_cons]
    simp [or_comm]
  · rw [b.wait h' hh' hne]
    simp [hne]

theorem Blocked.currentPriority (b : Blocked k h t flag time k') :
    (k'.thread v).currentPriority = (k.thread v).currentPriority ∧
      (k'.thread v).initPriority = (k.thread v).initPriority := by
  by_cases hv : v = t
  · rw [hv, b.self]
    exact ⟨rfl, rfl⟩
  · rw [b.thread v hv]
    exact ⟨rfl, rfl⟩

end

/-! ## Places -/

/-- The list a thread at this place waits in. -/
def Pc.waitsOn : Pc → Option ListHead
  | .wait c => c.waitsOn
  | _ => none

/-- The object a thread at this place is at. -/
def Pc.obj : Pc → Option Obj
  | .idle => none
  | .wait c | .copy c _ | .copied c _ _ | .ret c _ _ => some c.obj

theorem Call.ofObj_waitsOn {c : Call} {h : ListHead} (hc : c.waitsOn = some h) :
    h.ofObj c.obj := by
  unfold ListHead.ofObj
  cases c <;> simp_all [Call.waitsOn, Call.obj]

theorem Pc.ofObj_waitsOn {pc : Pc} {h : ListHead} (hp : pc.waitsOn = some h) :
    ∃ o, pc.obj = some o ∧ h.ofObj o := by
  cases pc with
  | wait c => exact ⟨c.obj, rfl, Call.ofObj_waitsOn hp⟩
  | _ => simp [Pc.waitsOn] at hp

theorem ofObj_unique {h : ListHead} {o o' : Obj} (h1 : h.ofObj o) (h2 : h.ofObj o') : o = o' := by
  unfold ListHead.ofObj at h1 h2
  rcases h1 with rfl | rfl <;> simpa using h2

/-! ## The invariant -/

section

variable [RtConfig] {k k' : Kernel} {pc pc' : ThreadId → Pc} {t u v : ThreadId} {h : ListHead}
  {o o' : Obj}

/-- The wait lists and the threads agree, and no call was interrupted by a signal. -/
structure WaitInv (k : Kernel) (pc : ThreadId → Pc) : Prop where
  sched : SchedInv k
  waits : ∀ t (h : ListHead), h.IsWait → t ∈ k.lists h → (pc t).waitsOn = some h
  timer : ∀ t, (k.thread t).timer = true → ∃ h : ListHead, h.IsWait ∧ t ∈ k.lists h
  error : ∀ t (h : ListHead), h.IsWait → t ∈ k.lists h → (k.thread t).error = .ok
  signal : ∀ t, (k.thread t).error ≠ .eintr

/-- A linked thread is at the object of its list. -/
theorem WaitInv.obj (i : WaitInv k pc) (hh : h.ofObj o) (ht : t ∈ k.lists h) :
    (pc t).obj = some o := by
  obtain ⟨o', ho', hh'⟩ := Pc.ofObj_waitsOn (i.waits t h ⟨o, hh⟩ ht)
  rw [ho', ofObj_unique hh' hh]

/-- A thread that is running may go to another place. -/
theorem WaitInv.move (i : WaitInv k pc) (hr : (k.thread t).stat = .running) (p : Pc) :
    WaitInv k (Function.update pc t p) := by
  refine ⟨i.sched, fun u h hh hu => ?_, i.timer, i.error, i.signal⟩
  have hne : u ≠ t := by
    rintro rfl
    exact i.sched.running_not_mem hr hu
  rw [Function.update_of_ne hne]
  exact i.waits u h hh hu

/-- The running thread blocks. -/
theorem WaitInv.block (i : WaitInv k pc) {flag : Flag} {time : Int} (hh : h.IsWait)
    (hr : (k.thread t).stat = .running) (he : (k.thread t).error = .ok) {p : Pc}
    (hp : p.waitsOn = some h) (b : Blocked k h t flag time k') :
    WaitInv k' (Function.update pc t p) := by
  have hnot : ∀ h', t ∉ k.lists h' := fun h' => i.sched.running_not_mem hr
  refine ⟨b.sched, fun u h' hh' hu => ?_, fun u hu => ?_, fun u h' hh' hu => ?_, fun u => ?_⟩
  · rcases (b.mem_iff hh').mp hu with hu | ⟨rfl, rfl⟩
    · have hne : u ≠ t := by
        rintro rfl
        exact hnot h' hu
      rw [Function.update_of_ne hne]
      exact i.waits u h' hh' hu
    · rw [Function.update_self, hp]
  · by_cases hut : u = t
    · exact ⟨h, hh, (b.mem_iff hh).mpr (Or.inr ⟨hut, rfl⟩)⟩
    · rw [b.thread u hut] at hu
      obtain ⟨h', hh', hm⟩ := i.timer u hu
      exact ⟨h', hh', (b.mem_iff hh').mpr (Or.inl hm)⟩
  · by_cases hut : u = t
    · rw [hut, b.self]
      exact he
    · rw [b.thread u hut]
      refine i.error u h' hh' ?_
      exact ((b.mem_iff hh').mp hu).resolve_right fun h => hut h.1
  · by_cases hut : u = t
    · rw [hut, b.self]
      exact i.signal t
    · rw [b.thread u hut]
      exact i.signal u

theorem WaitInv.woken (i : WaitInv k pc) (hu : u ∈ k.lists h) {e : Err} (he : e ≠ .eintr)
    (w : Woken k u h e k') : WaitInv k' pc := by
  refine ⟨w.sched, fun v h' hh' hv => ?_, fun v hv => ?_, fun v h' hh' hv => ?_, fun v => ?_⟩
  · exact i.waits v h' hh' ((w.mem_iff i.sched hh' hu).mp hv).1
  · have hne : v ≠ u := by
      rintro rfl
      rw [w.self] at hv
      cases hv
    rw [w.thread v hne] at hv
    obtain ⟨h', hh', hm⟩ := i.timer v hv
    exact ⟨h', hh', (w.mem_iff i.sched hh' hu).mpr ⟨hm, hne⟩⟩
  · obtain ⟨hm, hne⟩ := (w.mem_iff i.sched hh' hu).mp hv
    rw [w.thread v hne]
    exact i.error v h' hh' hm
  · by_cases hvu : v = u
    · rw [hvu, w.self]
      exact he
    · rw [w.thread v hvu]
      exact i.signal v

theorem WaitInv.changed (i : WaitInv k pc) {p : Nat} (c : Changed k u p k') : WaitInv k' pc := by
  have hth : ∀ v, (k'.thread v).timer = (k.thread v).timer ∧
      (k'.thread v).error = (k.thread v).error := by
    intro v
    by_cases hv : v = u
    · rw [hv, c.self]
      simp
    · rw [c.thread v hv]
      exact ⟨rfl, rfl⟩
  refine ⟨c.sched, fun v h hh hv => ?_, fun v hv => ?_, fun v h hh hv => ?_, fun v => ?_⟩
  · rw [c.wait h hh] at hv
    exact i.waits v h hh hv
  · rw [(hth v).1] at hv
    obtain ⟨h, hh, hm⟩ := i.timer v hv
    exact ⟨h, hh, (c.wait h hh).symm ▸ hm⟩
  · rw [c.wait h hh] at hv
    rw [(hth v).2]
    exact i.error v h hh hv
  · rw [(hth v).2]
    exact i.signal v

theorem WaitInv.schedule (i : WaitInv k pc) (hk : k.rtSchedule = some k') : WaitInv k' pc := by
  have hth : ∀ v, (k'.thread v).timer = (k.thread v).timer ∧
      (k'.thread v).error = (k.thread v).error := by
    intro v
    obtain ⟨s, b, he⟩ := rtSchedule_thread i.sched hk v
    rw [he]
    exact ⟨rfl, rfl⟩
  have hl : ∀ {h : ListHead}, h.IsWait → k'.lists h = k.lists h := rtSchedule_wait i.sched hk
  refine ⟨i.sched.schedule hk, fun v h hh hv => ?_, fun v hv => ?_, fun v h hh hv => ?_,
    fun v => ?_⟩
  · rw [hl hh] at hv
    exact i.waits v h hh hv
  · rw [(hth v).1] at hv
    obtain ⟨h, hh, hm⟩ := i.timer v hv
    exact ⟨h, hh, (hl hh).symm ▸ hm⟩
  · rw [hl hh] at hv
    rw [(hth v).2]
    exact i.error v h hh hv
  · rw [(hth v).2]
    exact i.signal v

/-! ## The changes a section makes -/

/-- One change, by thread `t` in a section on `o`: to fields of its own that the scheduler does not
use, to the event set of a waiting thread, to a priority (mutexes only), or a thread that waits is
woken. -/
inductive Prim (o : Obj) (t : ThreadId) : Kernel → Kernel → Prop
  | self {k : Kernel} (f : Thread → Thread) (hr : (k.thread t).stat = .running)
      (ha : attrs (f (k.thread t)) = attrs (k.thread t))
      (hs : (f (k.thread t)).stat = (k.thread t).stat)
      (ht : (f (k.thread t)).timer = (k.thread t).timer)
      (he : (f (k.thread t)).error ≠ .eintr) : Prim o t k (k.modify t f)
  | eventSet {k : Kernel} {u : ThreadId} {h : ListHead} (set : BitVec 32) (hh : h.ofObj o)
      (hu : u ∈ k.lists h) : Prim o t k (k.modify u fun th => { th with eventSet := set })
  | changed {k k' : Kernel} {u : ThreadId} {p : Nat} (hm : ∃ i, o = .mutex i)
      (c : Changed k u p k') : Prim o t k k'
  | woken {k k' : Kernel} {u : ThreadId} {h : ListHead} {e : Err} (hh : h.ofObj o)
      (hu : u ∈ k.lists h) (he : e ≠ .eintr) (w : Woken k u h e k') : Prim o t k k'

/-- A chain of changes. -/
def Prims (o : Obj) (t : ThreadId) : Kernel → Kernel → Prop := Relation.ReflTransGen (Prim o t)

theorem WaitInv.of_fields (i : WaitInv k pc) {f : Thread → Thread}
    (ha : attrs (f (k.thread u)) = attrs (k.thread u))
    (hs : (f (k.thread u)).stat = (k.thread u).stat)
    (ht : (f (k.thread u)).timer = (k.thread u).timer)
    (he : (f (k.thread u)).error = (k.thread u).error ∨ (k.thread u).stat = .running)
    (hi : (f (k.thread u)).error ≠ .eintr) : WaitInv (k.modify u f) pc := by
  have hp : (f (k.thread u)).currentPriority = (k.thread u).currentPriority :=
    congrArg Prod.fst ha
  refine ⟨i.sched.modify_same hs (fun _ => hp) ?_, i.waits, fun v hv => i.timer v ?_,
    fun v h hh hv => ?_, fun v => ?_⟩
  · refine (i.sched.thread u).of_attrs ha fun h1 h2 => ?_
    rw [hs] at h1 h2
    exact i.sched.started h1 h2
  · by_cases hvu : v = u
    · rw [hvu, modify_self, ht] at hv
      rw [hvu, hv]
    · rwa [modify_of_ne _ hvu] at hv
  · by_cases hvu : v = u
    · rw [hvu, modify_self]
      rw [hvu] at hv
      rcases he with he | hr
      · rw [he]
        exact i.error u h hh hv
      · exact absurd hv (i.sched.running_not_mem hr)
    · rw [modify_of_ne _ hvu]
      exact i.error v h hh hv
  · by_cases hvu : v = u
    · rw [hvu, modify_self]
      exact hi
    · rw [modify_of_ne _ hvu]
      exact i.signal v

/-- **One change keeps the invariant.** -/
theorem Prim.waitInv (p : Prim o t k k') (i : WaitInv k pc) : WaitInv k' pc := by
  cases p with
  | self f hr ha hs ht he => exact i.of_fields ha hs ht (Or.inr hr) he
  | eventSet set hh hu => exact i.of_fields rfl rfl rfl (Or.inl rfl) (i.signal _)
  | changed hm c => exact i.changed c
  | woken hh hu he w => exact i.woken hu he w

/-- What a chain of changes by `t` on `o` leaves alone. -/
structure Frame (o : Obj) (t : ThreadId) (k k' : Kernel) : Prop where
  current : k'.current = k.current
  lockNest : k'.lockNest = k.lockNest
  self : (k.thread t).stat = .running → (k'.thread t).stat = .running
  wait : ∀ h : ListHead, h.IsWait → ¬ h.ofObj o → k'.lists h = k.lists h
  mem : ∀ (h : ListHead) v, h.IsWait → v ∈ k'.lists h → v ∈ k.lists h
  thread : ∀ v, v ≠ t → (∀ h : ListHead, h.ofObj o → v ∉ k.lists h) →
    (k'.thread v).error = (k.thread v).error ∧ (k'.thread v).eventSet = (k.thread v).eventSet

theorem Prim.frame (p : Prim o t k k') (i : SchedInv k) : Frame o t k k' := by
  cases p with
  | self f hr ha hs ht he =>
      refine ⟨rfl, rfl, fun _ => ?_, fun _ _ _ => rfl, fun _ _ _ h => h, fun v hv _ => ?_⟩
      · rw [modify_self, hs, hr]
      · rw [modify_of_ne _ hv]
        exact ⟨rfl, rfl⟩
  | @eventSet u h set hh hu =>
      refine ⟨rfl, rfl, fun hr => ?_, fun _ _ _ => rfl, fun _ _ _ h => h, fun v hv hn => ?_⟩
      · have hne : t ≠ u := by
          rintro rfl
          exact i.running_not_mem hr hu
        rw [modify_of_ne _ hne, hr]
      · have hne : v ≠ u := by
          rintro rfl
          exact hn h hh hu
        rw [modify_of_ne _ hne]
        exact ⟨rfl, rfl⟩
  | @changed _ u p hm c =>
      refine ⟨c.current, c.lockNest, fun hr => ?_, fun h hh _ => c.wait h hh, fun h v hh hv => ?_,
        fun v _ _ => ?_⟩
      · by_cases htu : t = u
        · rw [htu, c.self, setPriority_stat, ← htu, hr]
        · rw [c.thread t htu, hr]
      · rwa [c.wait h hh] at hv
      · by_cases hvu : v = u
        · rw [hvu, c.self]
          unfold setPriority
          split <;> exact ⟨rfl, rfl⟩
        · rw [c.thread v hvu]
          exact ⟨rfl, rfl⟩
  | @woken _ u h e hh hu he w =>
      refine ⟨w.current, w.lockNest, fun hr => ?_, fun h' hh' hn => ?_, fun h' v hh' hv => ?_,
        fun v _ hn => ?_⟩
      · rw [w.running i ⟨o, hh⟩ hu hr, hr]
      · refine w.wait h' hh' fun heq => hn (heq ▸ hh)
      · exact ((w.mem_iff i hh' hu).mp hv).1
      · have hne : v ≠ u := by
          rintro rfl
          exact hn h hh hu
        rw [w.thread v hne]
        exact ⟨rfl, rfl⟩

omit [RtConfig] in
theorem Frame.refl (o : Obj) (t : ThreadId) (k : Kernel) : Frame o t k k :=
  ⟨rfl, rfl, id, fun _ _ _ => rfl, fun _ _ _ h => h, fun _ _ _ => ⟨rfl, rfl⟩⟩

omit [RtConfig] in
theorem Frame.trans {k₁ k₂ k₃ : Kernel} (f : Frame o t k₁ k₂) (g : Frame o t k₂ k₃) :
    Frame o t k₁ k₃ where
  current := g.current.trans f.current
  lockNest := g.lockNest.trans f.lockNest
  self hr := g.self (f.self hr)
  wait h hh hn := (g.wait h hh hn).trans (f.wait h hh hn)
  mem h v hh hv := f.mem h v hh (g.mem h v hh hv)
  thread v hv hn := by
    obtain ⟨h1, h2⟩ := f.thread v hv hn
    obtain ⟨h3, h4⟩ := g.thread v hv fun h hh hm => hn h hh (f.mem h v ⟨o, hh⟩ hm)
    exact ⟨h3.trans h1, h4.trans h2⟩

theorem Prims.waitInv (p : Prims o t k k') (i : WaitInv k pc) : WaitInv k' pc := by
  induction p with
  | refl => exact i
  | tail _ hp ih => exact hp.waitInv ih

theorem Prims.schedInv (p : Prims o t k k') (i : WaitInv k pc) : SchedInv k' :=
  (p.waitInv i).sched

theorem Prims.frame (p : Prims o t k k') (i : WaitInv k pc) : Frame o t k k' := by
  induction p with
  | refl => exact Frame.refl o t k
  | tail hps hp ih => exact ih.trans (hp.frame (Prims.schedInv hps i))

/-- Only the mutexes change priorities. -/
theorem Prims.prio (p : Prims o t k k') (hm : ∀ i, o ≠ .mutex i) (v : ThreadId) :
    (k'.thread v).currentPriority = (k.thread v).currentPriority := by
  induction p with
  | refl => rfl
  | tail _ hp ih =>
      rw [← ih]
      cases hp with
      | @self f _ ha _ _ _ =>
          by_cases hv : v = t
          · rw [hv, modify_self]
            exact congrArg Prod.fst ha
          · rw [modify_of_ne _ hv]
      | @eventSet u _ _ _ _ =>
          by_cases hv : v = u
          · rw [hv, modify_self]
          · rw [modify_of_ne _ hv]
      | changed h _ => exact absurd h.choose_spec (hm _)
      | woken _ _ _ w => exact w.currentPriority.1

/-! ### Chains from the helpers -/

theorem Prims.setError (hr : (k.thread t).stat = .running) {e : Err} (he : e ≠ .eintr) :
    Prims o t k (k.setError t e) :=
  .single (.self _ hr rfl rfl rfl he)

theorem Prims.woken (i : WaitInv k pc) (hh : h.ofObj o) (hu : u ∈ k.lists h)
    (w : Woken k u h (k.thread u).error k') : Prims o t k k' :=
  .single (.woken hh hu (i.signal u) w)

/-- A thread is woken with an error. -/
theorem woken_setError (i : WaitInv k pc) (hh : h.IsWait) (hu : u ∈ k.lists h) (e : Err) :
    Woken k u h e ((k.setError u e).rtThreadResume u).2 := by
  have hf : SchedInv (k.setError u e) := by
    refine i.sched.modify_same rfl (fun _ => rfl) ?_
    exact (i.sched.thread u).of_attrs rfl fun h1 h2 => i.sched.started h1 h2
  have w := Woken.of_resume (u := u) hf hh hu
  refine ⟨w.sched, w.current, w.lockNest, ?_, fun v hv => ?_, w.list, w.wait⟩
  · rw [w.self, setError, modify_self]
    rfl
  · rw [w.thread v hv, setError, modify_of_ne _ hv]

/-- `rt_ipc_list_resume_all` empties the list. -/
theorem Prims.resumeAll (i : WaitInv k pc) (hh : h.ofObj o) :
    Prims o t k (rtIpcListResumeAll k h) ∧ (rtIpcListResumeAll k h).lists h = [] := by
  unfold rtIpcListResumeAll
  generalize hn : (k.lists h).length = n
  induction n generalizing k with
  | zero => exact ⟨.refl, List.length_eq_zero_iff.mp hn⟩
  | succ n ih =>
      unfold Ipc.resumeAll
      split
      · rename_i u l hl
        have hu : u ∈ k.lists h := by
          rw [hl]
          exact List.mem_cons_self
        have w := woken_setError i ⟨o, hh⟩ hu .error
        have hp : Prim o t k ((k.setError u .error).rtThreadResume u).2 :=
          .woken hh hu (by simp) w
        have hlen : (((k.setError u .error).rtThreadResume u).2.lists h).length = n := by
          rw [w.list, hl, List.erase_cons_head]
          rw [hl] at hn
          simpa using hn
        obtain ⟨h1, h2⟩ := ih (hp.waitInv i) hlen
        exact ⟨.head hp h1, h2⟩
      · rename_i hl
        exact ⟨.refl, hl⟩

/-- What `rt_ipc_list_resume_all` does: the threads of the list are woken with an error. -/
structure ResumedAll (k : Kernel) (h : ListHead) (k' : Kernel) : Prop where
  list : k'.lists h = []
  wait : ∀ h' : ListHead, h'.IsWait → h' ≠ h → k'.lists h' = k.lists h'
  error : ∀ v ∈ k.lists h, (k'.thread v).error = .error
  thread : ∀ v, v ∉ k.lists h → k'.thread v = k.thread v

theorem resumedAll (i : WaitInv k pc) (hh : h.IsWait) :
    ResumedAll k h (rtIpcListResumeAll k h) := by
  unfold rtIpcListResumeAll
  generalize hn : (k.lists h).length = n
  induction n generalizing k with
  | zero =>
      have hnil := List.length_eq_zero_iff.mp hn
      refine ⟨hnil, fun _ _ _ => rfl, fun v hv => ?_, fun _ _ => rfl⟩
      rw [hnil] at hv
      cases hv
  | succ n ih =>
      obtain ⟨u, l, hl⟩ := List.exists_cons_of_length_eq_add_one hn
      have hu : u ∈ k.lists h := by
        rw [hl]
        exact List.mem_cons_self
      have w := woken_setError i hh hu .error
      have i' := i.woken hu (by simp) w
      have hlen : (((k.setError u .error).rtThreadResume u).2.lists h).length = n := by
        rw [w.list, hl, List.erase_cons_head]
        rw [hl] at hn
        simpa using hn
      have hstep : Ipc.resumeAll h (n + 1) k =
          Ipc.resumeAll h n ((k.setError u .error).rtThreadResume u).2 := by
        rw [Ipc.resumeAll, hl]
      rw [hstep]
      have r := ih i' hlen
      have hmem : ∀ v, v ∈ ((k.setError u .error).rtThreadResume u).2.lists h ↔
          v ∈ k.lists h ∧ v ≠ u := fun v => w.mem_iff i.sched hh hu
      refine ⟨r.list, fun h' hh' hne => (r.wait h' hh' hne).trans (w.wait h' hh' hne),
        fun v hv => ?_, fun v hv => ?_⟩
      · by_cases hvu : v = u
        · subst hvu
          rw [r.thread v (fun hm => ((hmem v).mp hm).2 rfl), w.self]
        · exact r.error v ((hmem v).mpr ⟨hv, hvu⟩)
      · have hvu : v ≠ u := by
          rintro rfl
          exact hv hu
        rw [r.thread v (fun hm => hv ((hmem v).mp hm).1), w.thread v hvu]

/-- The loop of `rt_event_send`, over threads that wait for the event. -/
theorem Prims.eventSend (i : WaitInv k pc) (hh : h.ofObj o) (l : List ThreadId)
    (hl : ∀ u ∈ l, u ∈ k.lists h) (hnd : l.Nodup) (set : BitVec 32) (b : Bool) :
    Prims o t k (eventSendLoop l k set b).1 := by
  induction l generalizing k set b with
  | nil => exact .refl
  | cons u l ih =>
      have hu := hl u List.mem_cons_self
      obtain ⟨hul, hnd'⟩ := List.nodup_cons.mp hnd
      unfold eventSendLoop
      split
      · rename_i eventSet hm
        have hp : Prim o t k (k.modify u fun th => { th with eventSet := eventSet }) :=
          .eventSet eventSet hh hu
        have i' := hp.waitInv i
        have hu' : u ∈ (k.modify u fun th => { th with eventSet := eventSet }).lists h := hu
        have w := Woken.of_resume i'.sched ⟨o, hh⟩ hu'
        have hp' := Prim.woken (t := t) hh hu' (i'.signal u) w
        refine .head hp (.head hp' (ih (hp'.waitInv i') (fun v hv => ?_) hnd' _ _))
        refine (w.mem_iff i'.sched ⟨o, hh⟩ hu').mpr ⟨hl v (List.mem_cons_of_mem _ hv), ?_⟩
        rintro rfl
        exact hul hv
      · exact ih i (fun v hv => hl v (List.mem_cons_of_mem _ hv)) hnd' _ _

end

end RTThread.Ipc
