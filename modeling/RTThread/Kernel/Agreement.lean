import RTThread.Kernel.Scheduler

set_option autoImplicit false

/-! # The ready queue and its bitmaps agree

The kernel as a transition system: any sequence of scheduler and thread calls, each with
interrupts disabled. `rt_schedule_insert_thread` and `rt_schedule_remove_thread` are the
building blocks of the other calls and leave the state of the thread, and its place in other
lists, to their callers; `Op.Allowed` says when they may be called on their own.
-/

namespace RTThread.Kernel

open Trans

section

variable [RtConfig] {k k' : Kernel}

/-- The calls, and the end of a time slice. -/
inductive Op
  | startup (t : ThreadId)
  | suspend (t : ThreadId)
  | resume (t : ThreadId)
  | control (t : ThreadId) (priority : Nat)
  | timeout (t : ThreadId)
  | delete (t : ThreadId)
  | detach (t : ThreadId)
  | exit
  | insert (t : ThreadId)
  | remove (t : ThreadId)
  | schedule
  | schedulerStart
  | tick

/-- The scheduler is started once, when there is no current thread. -/
def Op.exec (k : Kernel) : Op → Option Kernel
  | .startup t => k.rtThreadStartup t
  | .suspend t => (k.rtThreadSuspend t).map (·.2)
  | .resume t => some (k.rtThreadResume t).2
  | .control t p => some (k.rtThreadControl t p)
  | .timeout t => k.rtThreadTimeout t
  | .delete t => k.rtThreadDelete t
  | .detach t => k.rtThreadDetach t
  | .exit => k.rtThreadExit
  | .insert t => some (k.rtScheduleInsertThread t)
  | .remove t => some (k.rtScheduleRemoveThread t)
  | .schedule => k.rtSchedule
  | .schedulerStart => if k.current = none then k.rtSystemSchedulerStart else none
  | .tick => k.rtTickIncrease

/-- What the callers of the building blocks and of `rt_thread_control` see to. -/
def Op.Allowed (k : Kernel) : Op → Prop
  | .control _ p => p < RtConfig.priorityMax
  | .insert t => Unlinked k t ∧ Started (k.thread t)
  | .remove t => (k.thread t).stat ≠ .ready
  | _ => True

/-- After `rt_system_scheduler_init`: every thread object is initialised and none is started; the
application may have set a cleanup function. -/
def Init (k : Kernel) : Prop :=
  ∃ k₀ : Kernel, k = k₀.rtSystemSchedulerInit ∧ k₀.current = none ∧
    (∀ o, k₀.lists (.suspend o) = [] ∧ k₀.lists (.suspendSender o) = []) ∧
    ∀ t, ∃ th p th' c, rtThreadInit th p = some th' ∧ k₀.thread t = { th' with cleanup := c }

def Step (k : Kernel) (a : Op) (k' : Kernel) : Prop := a.Allowed k ∧ a.exec k = some k'

/-! ## The invariant -/

theorem Init.lists (h : Init k) (l : ListHead) : k.lists l = [] := by
  obtain ⟨k₀, rfl, -, hl, -⟩ := h
  cases l with
  | ready p => rfl
  | defunct => rfl
  | suspend o => exact (hl o).1
  | suspendSender o => exact (hl o).2

theorem Init.thread (h : Init k) (t : ThreadId) :
    (k.thread t).stat = .init ∧ ThreadInv (k.thread t) := by
  obtain ⟨k₀, rfl, -, -, hth⟩ := h
  obtain ⟨th, p, th', c, hi, he⟩ := hth t
  have he' : (k₀.rtSystemSchedulerInit).thread t = { th' with cleanup := c } := he
  rw [he']
  unfold rtThreadInit at hi
  split_ifs at hi with hp
  cases hi
  exact ⟨rfl, fun h1 _ => absurd rfl h1, Or.inr ⟨rfl, rfl⟩, hp, hp⟩

theorem Init.bits (h : Init k) : BitsOk k fun _ => False := by
  obtain ⟨k₀, rfl, -⟩ := h
  unfold BitsOk rtSystemSchedulerInit
  split <;> simp

theorem Init.schedInv (h : Init k) : SchedInv k := by
  have hnil : ∀ {t l}, t ∉ k.lists l := fun {t l} => by
    rw [h.lists l]
    exact List.not_mem_nil
  refine ⟨⟨h.bits.congr fun p _ => ?_, ?_, ?_, ?_, ?_, (fun u hu => by cases hu), ?_, ?_,
    fun t => (h.thread t).2⟩, ?_, ?_⟩
  · simp [h.lists]
  · intro l
    rw [h.lists l]
    exact List.nodup_nil
  · exact fun t l l' ht => absurd ht hnil
  · exact fun t p ht => absurd ht hnil
  · intro t _ hr
    rw [(h.thread t).1] at hr
    cases hr
  · exact fun t o ht => absurd ht (by rintro (h | h) <;> exact hnil h)
  · exact fun t ht => absurd ht hnil
  · intro t ht
    obtain ⟨k₀, rfl, hc, -⟩ := h
    have hc' : k₀.current = some t := ht
    rw [hc] at hc'
    cases hc'
  · intro t hr
    rw [(h.thread t).1] at hr
    cases hr

/-- **One step.** Every allowed call keeps the invariant. -/
theorem Step.schedInv {a : Op} (hs : Step k a k') (i : SchedInv k) : SchedInv k' := by
  obtain ⟨ha, hx⟩ := hs
  cases a with
  | startup t => exact i.startup hx
  | suspend t =>
      obtain ⟨⟨e, k₁⟩, h, rfl⟩ := Option.map_eq_some_iff.mp hx
      exact i.suspend h
  | resume t =>
      obtain rfl := Option.some.inj hx
      exact i.resume
  | control t p =>
      obtain rfl := Option.some.inj hx
      exact i.control ha
  | timeout t => exact i.threadTimeout hx
  | delete t => exact i.delete hx
  | detach t => exact i.detach hx
  | exit => exact i.exit hx
  | insert t =>
      obtain rfl := Option.some.inj hx
      exact i.insert ha.1 ha.2
  | remove t =>
      obtain rfl := Option.some.inj hx
      exact i.remove ha
  | schedule => exact i.schedule hx
  | schedulerStart =>
      simp only [Op.exec] at hx
      split_ifs at hx with hc
      exact i.schedulerStart hc hx
  | tick => exact i.tick hx

theorem schedInv_of_reachable (h : Reachable Init Step k) : SchedInv k :=
  h.invariant (fun _ hi => hi.schedInv) fun _ _ _ _ i hs => hs.schedInv i

/-! ## Agreement -/

/-- The bit of a priority, with its group bit where there are two levels. -/
def readyBit (k : Kernel) (p : Nat) : Prop :=
  if 32 < RtConfig.priorityMax then
    (k.table (p / 8)).getLsbD (p % 8) = true ∧ k.group.getLsbD (p / 8) = true
  else k.group.getLsbD p = true

instance (k : Kernel) (p : Nat) : Decidable (readyBit k p) := by
  unfold readyBit
  infer_instance

/-- The bitmaps, the lists and the states of the threads agree. -/
structure QueueOk (k : Kernel) : Prop where
  bit : ∀ p < RtConfig.priorityMax, readyBit k p ↔ k.lists (.ready p) ≠ []
  groupBit : 32 < RtConfig.priorityMax → ∀ i < 32,
    k.group.getLsbD i = true ↔ ∃ p, p / 8 = i ∧ k.lists (.ready p) ≠ []
  linked : ∀ t p, t ∈ k.lists (.ready p) ↔
    (k.thread t).stat = .ready ∧ (k.thread t).currentPriority = p
  nodup : ∀ p, (k.lists (.ready p)).Nodup
  running : ∀ t, k.current = some t ∨ (k.thread t).stat = .running → ∀ p, t ∉ k.lists (.ready p)
  picked : ∀ t p, k.getHighestPriorityThread = some (t, p) → (k.thread t).stat = .ready ∧
    (k.thread t).currentPriority = p ∧
    ∀ u, (k.thread u).stat = .ready → (k.thread t).currentPriority ≤ (k.thread u).currentPriority
  picks : (∃ u, (k.thread u).stat = .ready) → k.group ≠ 0 ∧ k.getHighestPriorityThread ≠ none

theorem BitsOk.readyBit_iff {S : Nat → Prop} (h : BitsOk k S) {p : Nat}
    (hp : p < RtConfig.priorityMax) : readyBit k p ↔ S p := by
  have hb := hp.trans_le priorityMax_le_bitmapSize
  unfold BitsOk at h
  unfold bitmapSize at hb
  unfold readyBit
  split_ifs at h hb ⊢
  · rw [← h.1 p hb]
    refine and_iff_left_of_imp fun hbit => (h.2 (p / 8) (by omega)).mpr ?_
    exact Bitmap.ne_zero_iff.mpr ⟨p % 8, by omega, hbit⟩
  · exact h p hb

theorem BitsOk.groupBit_iff {S : Nat → Prop} (h : BitsOk k S) (hN : 32 < RtConfig.priorityMax)
    {i : Nat} (hi : i < 32) : k.group.getLsbD i = true ↔ ∃ p, p / 8 = i ∧ S p := by
  unfold BitsOk at h
  rw [if_pos hN] at h
  rw [h.2 i hi]
  constructor
  · intro hne
    obtain ⟨j, hj, hb⟩ := Bitmap.ne_zero_iff.mp hne
    have h1 : (i * 8 + j) / 8 = i := by omega
    have h2 : (i * 8 + j) % 8 = j := by omega
    exact ⟨i * 8 + j, h1, (h.1 _ (by omega)).mp (by rwa [h1, h2])⟩
  · rintro ⟨p, rfl, hS⟩
    exact Bitmap.ne_zero_iff.mpr ⟨p % 8, by omega, (h.1 p (by omega)).mpr hS⟩

theorem SchedInv.queueOk (i : SchedInv k) : QueueOk k := by
  have hlinked : ∀ t p, t ∈ k.lists (.ready p) ↔
      (k.thread t).stat = .ready ∧ (k.thread t).currentPriority = p := by
    intro t p
    constructor
    · exact i.ready t p
    · rintro ⟨hr, rfl⟩
      exact i.linked t (by simp) hr
  refine ⟨fun p hp => i.bits.readyBit_iff hp, fun hN j hj => i.bits.groupBit_iff hN hj, hlinked,
    fun p => i.nodup _, ?_, ?_, ?_⟩
  · rintro t (hc | hr) p hm
    · exact (i.current t hc).2 ((hlinked t p).mp hm).1
    · rw [((hlinked t p).mp hm).1] at hr
      cases hr
  · intro t p h
    obtain ⟨-, hr, hp⟩ := i.toQueueInv.highest h
    refine ⟨hr, hp, fun u hu => ?_⟩
    rw [hp]
    exact i.toQueueInv.highest_le h hu
  · intro hu
    have hg := i.toQueueInv.group_ne_zero_iff.mpr hu
    obtain ⟨u, p, h⟩ := i.toQueueInv.exists_highest hg
    exact ⟨hg, by rw [h]; simp⟩

/-- **The ready queue and the bitmaps agree** in every reachable state. -/
theorem ready_queue_agrees (h : Reachable Init Step k) : QueueOk k :=
  (schedInv_of_reachable h).queueOk

end

/-! ## A system with two threads -/

/-- A configuration with one word of bits. -/
@[reducible] def config32 : RtConfig := ⟨32, by decide, by decide⟩

attribute [local instance] config32

/-- A thread object as `_rt_thread_init` leaves it. -/
def bootThread (priority : Nat) : Thread where
  stat := .init
  yield := false
  currentPriority := priority
  initPriority := priority
  number := 0
  numberMask := 0
  highMask := 0
  error := .ok
  timer := false
  eventSet := 0
  eventInfo := 0
  static := true
  cleanup := false

/-- The kernel after `rt_system_scheduler_init`, with the priorities of the threads. -/
def bootKernel (priority : ThreadId → Nat) : Kernel where
  thread := fun t => bootThread (priority t)
  lists := fun _ => []
  group := 0
  table := fun _ => 0
  current := none
  lockNest := 0

theorem bootKernel_init {priority : ThreadId → Nat} (h : ∀ t, priority t < 32) :
    Init (bootKernel priority) := by
  refine ⟨bootKernel priority, ?_, rfl, fun _ => ⟨rfl, rfl⟩, fun t => ?_⟩
  · unfold bootKernel rtSystemSchedulerInit
    congr
    funext l
    cases l <;> rfl
  · refine ⟨bootThread (priority t), priority t, bootThread (priority t), false, ?_, rfl⟩
    unfold rtThreadInit
    exact if_pos (h t)

/-- Thread 1 has priority 10, thread 2 has priority 20. -/
def twoPriorities (t : ThreadId) : Nat := if t = 1 then 10 else if t = 2 then 20 else 31

theorem twoPriorities_lt (t : ThreadId) : twoPriorities t < 32 := by
  unfold twoPriorities
  split_ifs <;> omega

/-- Thread 1 is started and runs, thread 2 is started and READY, thread 3 is not started. -/
def startTwo : List Op := [.startup 1, .startup 2, .schedulerStart]

theorem ready_queue_agrees_startTwo : ∃ k,
    runList Op.exec (bootKernel twoPriorities) startTwo = some k ∧ QueueOk k := by
  have h₀ : Reachable Init Step (bootKernel twoPriorities) :=
    .init (bootKernel_init twoPriorities_lt)
  obtain ⟨k₁, e₁⟩ : ∃ k₁, Op.exec (bootKernel twoPriorities) (.startup 1) = some k₁ := ⟨_, rfl⟩
  obtain ⟨k₂, e₂⟩ : ∃ k₂, Op.exec k₁ (.startup 2) = some k₂ := by
    obtain rfl := Option.some.inj e₁
    exact ⟨_, rfl⟩
  obtain ⟨k₃, e₃⟩ : ∃ k₃, Op.exec k₂ .schedulerStart = some k₃ := by
    obtain rfl := Option.some.inj e₁
    obtain rfl := Option.some.inj e₂
    exact ⟨_, rfl⟩
  have h₁ : Reachable Init Step k₁ := h₀.step (a := .startup 1) ⟨trivial, e₁⟩
  have h₂ : Reachable Init Step k₂ := h₁.step (a := .startup 2) ⟨trivial, e₂⟩
  have h₃ : Reachable Init Step k₃ := h₂.step (a := .schedulerStart) ⟨trivial, e₃⟩
  refine ⟨k₃, ?_, ready_queue_agrees h₃⟩
  simp [runList, startTwo, e₁, e₂, e₃]

/-- The call breaks the queue, in the state with the two threads started. -/
def Breaks (a : Op) : Prop :=
  ∃ k, Reachable Init (fun k a k' => Op.exec k a = some k') k ∧
    runList Op.exec (bootKernel twoPriorities) (startTwo ++ [a]) = some k ∧ ¬ QueueOk k

theorem breaks_of_run {a : Op} {k : Kernel}
    (h : runList Op.exec (bootKernel twoPriorities) (startTwo ++ [a]) = some k) (hk : ¬ QueueOk k) :
    Breaks a :=
  ⟨k, reachable_of_runList (.init (bootKernel_init twoPriorities_lt)) h, h, hk⟩

/-- What the two building blocks, and a priority out of range, do to the queue when they are
called from here without the care of their callers: thread 2 stays READY without being linked, is
linked twice, or has no bit, and thread 3 is linked without a bit. -/
theorem ready_queue_broken :
    Breaks (.remove 2) ∧ Breaks (.insert 2) ∧ Breaks (.insert 3) ∧ Breaks (.control 2 40) := by
  refine ⟨breaks_of_run rfl fun h => ?_, breaks_of_run rfl fun h => ?_, breaks_of_run rfl fun h => ?_,
    breaks_of_run rfl fun h => ?_⟩
  · exact absurd ((h.linked 2 20).mpr ⟨rfl, rfl⟩) (by decide)
  · exact absurd (h.nodup 20) (by decide)
  · exact absurd ((h.bit 31 (by decide)).mpr (by decide)) (by decide)
  · exact absurd (h.picks ⟨2, rfl⟩).1 (by decide)

end RTThread.Kernel
