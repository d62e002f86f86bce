import RTThread.Kernel.Agreement
import RTThread.Kernel.Effects

set_option autoImplicit false

/-! # Yielding the processor

At the end of a time slice `rt_tick_increase` sets the flag `RT_THREAD_STAT_YIELD` of the running
thread and calls `rt_thread_yield`. By itself `rt_thread_yield` only calls `rt_schedule`, which keeps a
running thread without the flag although threads of its priority are READY. So a thread that calls it
gives way to them if and only if the flag is still set, from a time slice that ended when there were
none.
-/

namespace RTThread.Kernel

open Trans

section

variable [RtConfig]

/-- `rt_thread_yield` -/
def rtThreadYield (k : Kernel) : Option Kernel := k.rtSchedule

/-- The states of the scheduler are the same, up to the flags of the threads. -/
structure SameSchedule (k k' : Kernel) : Prop where
  lists : k.lists = k'.lists
  group : k.group = k'.group
  table : k.table = k'.table
  current : k.current = k'.current
  stat : ∀ t, (k.thread t).stat = (k'.thread t).stat

/-- No thread of a higher priority than `p` is READY. -/
def NoneHigher (k : Kernel) (p : Nat) : Prop := ∀ q < p, k.lists (.ready q) = []

/-- `n` calls of `rt_thread_yield`, each by the thread that runs then. -/
def yields (k : Kernel) : Nat → Option Kernel
  | 0 => some k
  | n + 1 => (k.yields n).bind rtThreadYield

/-- The threads `t :: l` run one after the other, and then from the beginning. -/
def RoundRobin (k : Kernel) (t : ThreadId) (l : List ThreadId) : Prop :=
  ∀ n, ∃ k', k.yields n = some k' ∧ k'.current = (t :: l)[n % (l.length + 1)]?

variable {k k' : Kernel} {t u v : ThreadId} {p q n : Nat} {l : List ThreadId} {b : Bool}

/-! ## The decision of `rt_schedule` -/

/-- The READY thread that is chosen is the head of the first list that is not empty. -/
theorem SchedInv.exists_head (i : SchedInv k) (hg : k.group ≠ 0) :
    ∃ u q l, k.getHighestPriorityThread = some (u, q) ∧ k.lists (.ready q) = u :: l ∧
      k.NoneHigher q := by
  obtain ⟨u, q, h⟩ := i.toQueueInv.exists_highest hg
  have h' := h
  rw [getHighestPriorityThread_eq] at h'
  obtain ⟨v, hv, he⟩ := Option.map_eq_some_iff.mp h'
  obtain ⟨rfl, rfl⟩ := Prod.mk.inj he
  obtain ⟨l, hl⟩ := List.head?_eq_some_iff.mp hv
  refine ⟨v, _, l, h, hl, fun q hq => ?_⟩
  by_contra hne
  obtain ⟨w, hw⟩ := List.exists_mem_of_ne_nil _ hne
  obtain ⟨hr, rfl⟩ := i.ready w q hw
  have hle := i.toQueueInv.highest_le h hr
  omega

theorem SchedInv.ready_empty (i : SchedInv k) (hg : k.group = 0) : k.lists (.ready p) = [] := by
  by_contra hne
  obtain ⟨w, hw⟩ := List.exists_mem_of_ne_nil _ hne
  exact i.toQueueInv.group_ne_zero_iff.mpr ⟨w, (i.ready w p hw).1⟩ hg

theorem rtSchedule_idle (hl : k.lockNest = 0) (hg : k.group = 0) : k.rtSchedule = some k := by
  unfold rtSchedule
  rw [if_pos hl, if_neg (not_not.mpr hg)]

theorem rtSchedule_stay (hl : k.lockNest = 0) (hg : k.group ≠ 0) (hc : k.current = some t)
    (hr : (k.thread t).stat = .running) (hu : k.getHighestPriorityThread = some (u, q))
    (hs : staysCurrent (k.thread t) q) :
    k.rtSchedule = some ((k.rtScheduleRemoveThread t).setStat t .running) := by
  unfold rtSchedule
  rw [if_pos hl, if_pos hg]
  simp [hu, hc, hr, hs]

theorem rtSchedule_switch (hl : k.lockNest = 0) (hg : k.group ≠ 0) (hc : k.current = some t)
    (hr : (k.thread t).stat = .running) (hu : k.getHighestPriorityThread = some (u, q))
    (hs : ¬ staysCurrent (k.thread t) q) (hne : u ≠ t) :
    k.rtSchedule = some ((k.setYield t false).switchTo t u true) := by
  unfold rtSchedule
  rw [if_pos hl, if_pos hg]
  simp [hu, hc, hr, hs, hne]

/-! ## The flag -/

omit [RtConfig] in
theorem setYield_thread : ((k.setYield t b).thread v) =
    { k.thread v with yield := if v = t then b else (k.thread v).yield } := by
  by_cases hv : v = t
  · rw [hv, setYield, modify_self, if_pos rfl]
  · rw [setYield, modify_of_ne _ hv, if_neg hv]

omit [RtConfig] in
theorem setYield_setYield (c : Bool) : (k.setYield t b).setYield t c = k.setYield t c := by
  simp only [setYield, modify, Function.update_self, Function.update_idem]

/-- Unlinking a thread does not depend on the flags. -/
theorem clearReadyBit_setYield : (k.setYield t b).clearReadyBit ((k.setYield t b).thread u) =
    (k.clearReadyBit (k.thread u)).setYield t b := by
  have htable : (k.setYield t b).table = k.table := rfl
  rw [setYield_thread]
  unfold clearReadyBit
  simp only [htable]
  split_ifs <;> rfl

theorem rtScheduleRemoveThread_setYield : (k.setYield t b).rtScheduleRemoveThread u =
    (k.rtScheduleRemoveThread u).setYield t b := by
  have hprio : ((k.setYield t b).thread u).currentPriority = (k.thread u).currentPriority := by
    rw [setYield_thread]
  by_cases h : (k.rtListRemove u).lists (.ready (k.thread u).currentPriority) = []
  · have h₁ : k.rtScheduleRemoveThread u = (k.rtListRemove u).clearReadyBit (k.thread u) := if_pos h
    have h₂ : (k.setYield t b).rtScheduleRemoveThread u =
        ((k.setYield t b).rtListRemove u).clearReadyBit ((k.setYield t b).thread u) := by
      refine if_pos ?_
      rw [rtListRemove_thread, hprio]
      exact h
    rw [h₁, h₂]
    exact clearReadyBit_setYield (k := k.rtListRemove u)
  · have h₁ : k.rtScheduleRemoveThread u = k.rtListRemove u := if_neg h
    have h₂ : (k.setYield t b).rtScheduleRemoveThread u = (k.setYield t b).rtListRemove u := by
      refine if_neg ?_
      rw [rtListRemove_thread, hprio]
      exact h
    rw [h₁, h₂]
    rfl

omit [RtConfig] in
theorem sameSchedule_setYield : SameSchedule k (k.setYield t b) :=
  ⟨rfl, rfl, rfl, rfl, fun v => by rw [setYield_thread]⟩

theorem sameSchedule_stay : SameSchedule ((k.rtScheduleRemoveThread t).setStat t .running)
    (((k.setYield t b).rtScheduleRemoveThread t).setStat t .running) := by
  rw [rtScheduleRemoveThread_setYield]
  refine ⟨rfl, rfl, rfl, rfl, fun v => ?_⟩
  by_cases hv : v = t
  · rw [hv, setStat, setStat, modify_self, modify_self]
  · rw [setStat, setStat, modify_of_ne _ hv, modify_of_ne _ hv, setYield_thread]

/-- The switch to the head of the own list. -/
theorem switchTo_head (hne : u ≠ t) (hp : (k.thread t).currentPriority = p)
    (hl : k.lists (.ready p) = u :: l) :
    ((k.setYield t false).switchTo t u true).current = some u ∧
      ((k.setYield t false).switchTo t u true).lists (.ready p) = l ++ [t] := by
  rw [switchTo_true]
  refine ⟨by simp [setStat], ?_⟩
  rw [setStat, modify_lists, rtScheduleRemoveThread_lists, rtScheduleInsertThread_lists]
  have hcur : ((k.setYield t false).setCurrent u).current ≠ some t := fun h =>
    hne (Option.some.inj h)
  rw [if_neg hcur, setCurrent_thread, setCurrent_lists, setYield_thread]
  dsimp only [setYield]
  rw [hp, Function.update_self, modify_lists, hl, List.cons_append, List.erase_cons_head]

/-! ## A yield and the end of a time slice -/

/-- The running thread gives way to the others of its priority: the flag is set, or there is no
difference. -/
def GivesWay (k : Kernel) (t : ThreadId) : Prop :=
  (k.thread t).yield = true ∨ k.lists (.ready (k.thread t).currentPriority) = [] ∨
    ¬ k.NoneHigher (k.thread t).currentPriority

theorem SchedInv.not_ready (i : SchedInv k) (hr : (k.thread t).stat = .running) :
    t ∉ k.lists (.ready p) := fun hm => by
  rw [(i.ready t p hm).1] at hr
  cases hr

omit [RtConfig] in
theorem not_staysCurrent (h : ¬ (k.thread t).currentPriority < q) (hy : (k.thread t).yield = true) :
    ¬ staysCurrent (k.thread t) q := by
  rintro (hlt | ⟨-, hf⟩)
  · exact h hlt
  · rw [hy] at hf
    cases hf

/-- **What the end of a time slice does, and when a yield does the same.** -/
theorem yield_cases (i : SchedInv k) (hl : k.lockNest = 0) (hc : k.current = some t)
    (hr : (k.thread t).stat = .running) :
    ∃ k₁ k₂, k.rtThreadYield = some k₁ ∧ k.rtTickIncrease = some k₂ ∧
      (SameSchedule k₁ k₂ ↔ GivesWay k t) ∧
      ∀ u l, k.lists (.ready (k.thread t).currentPriority) = u :: l →
        k.NoneHigher (k.thread t).currentPriority →
        (k₂.current = some u ∧ k₂.lists (.ready (k.thread t).currentPriority) = l ++ [t]) ∧
        (k₁.current = some u ∧ k₁.lists (.ready (k.thread t).currentPriority) = l ++ [t] ↔
          (k.thread t).yield = true) := by
  have htick : k.rtTickIncrease = (k.setYield t true).rtSchedule := by
    unfold rtTickIncrease
    rw [hc]
    rfl
  have hr' : ((k.setYield t true).thread t).stat = .running := by
    rw [setYield_thread]
    exact hr
  have hprio' : ((k.setYield t true).thread t).currentPriority = (k.thread t).currentPriority := by
    rw [setYield_thread]
  have hflag' : ((k.setYield t true).thread t).yield = true := by
    rw [setYield_thread]
    exact if_pos rfl
  by_cases hg : k.group = 0
  · -- nothing is READY
    have hempty : k.lists (.ready (k.thread t).currentPriority) = [] := i.ready_empty hg
    refine ⟨k, k.setYield t true, rtSchedule_idle hl hg, htick.trans (rtSchedule_idle hl hg),
      iff_of_true sameSchedule_setYield (Or.inr (Or.inl hempty)), fun u l hul => ?_⟩
    rw [hempty] at hul
    cases hul
  · obtain ⟨w, q, m, hw, hq, hmin⟩ := i.exists_head hg
    have hne : w ≠ t := fun h => i.not_ready hr (h ▸ hq ▸ List.mem_cons_self)
    have hw' : (k.setYield t true).getHighestPriorityThread = some (w, q) := hw
    by_cases hlt : (k.thread t).currentPriority < q
    · -- only lower priorities are READY
      have hempty := hmin _ hlt
      refine ⟨_, _, rtSchedule_stay hl hg hc hr hw (Or.inl hlt),
        htick.trans (rtSchedule_stay hl hg hc hr' hw' (Or.inl (hprio' ▸ hlt))),
        iff_of_true sameSchedule_stay (Or.inr (Or.inl hempty)), fun u l hul => ?_⟩
      rw [hempty] at hul
      cases hul
    · have hsame : ((k.setYield t true).setYield t false).switchTo t w true =
          (k.setYield t false).switchTo t w true := by
        rw [setYield_setYield]
      have hslice : k.rtTickIncrease = some ((k.setYield t false).switchTo t w true) := by
        rw [htick, rtSchedule_switch (k := k.setYield t true) hl hg hc hr' hw'
          (not_staysCurrent (by rw [hprio']; exact hlt) hflag') hne, hsame]
      by_cases hstay : staysCurrent (k.thread t) q
      · -- the flag is not set, and the highest READY thread has the same priority
        obtain ⟨heq, hflag⟩ := hstay.resolve_left hlt
        subst heq
        obtain ⟨hcur, hlist⟩ := switchTo_head hne rfl hq
        have hkeep : ((k.rtScheduleRemoveThread t).setStat t .running).current = some t := by
          simp [setStat, hc]
        refine ⟨_, _, rtSchedule_stay hl hg hc hr hw hstay, hslice, iff_of_false (fun h => ?_)
          (fun h => ?_), fun u l hul _ => ?_⟩
        · have hcur' := h.current
          rw [hkeep, hcur] at hcur'
          exact hne (Option.some.inj hcur').symm
        · rcases h with h | h | h
          · rw [hflag] at h
            cases h
          · rw [hq] at h
            cases h
          · exact h hmin
        · obtain ⟨rfl, rfl⟩ := List.cons.inj (hq.symm.trans hul)
          refine ⟨⟨hcur, hlist⟩, iff_of_false (fun h => ?_) (by simp [hflag])⟩
          rw [hkeep] at h
          exact hne (Option.some.inj h.1).symm
      · refine ⟨_, _, rtSchedule_switch hl hg hc hr hw hstay hne, hslice,
          iff_of_true ⟨rfl, rfl, rfl, rfl, fun _ => rfl⟩ ?_, fun u l hul hnone => ?_⟩
        · rcases Nat.lt_or_eq_of_le (Nat.le_of_not_lt hlt) with hlow | heq
          · refine Or.inr (Or.inr fun hnone => ?_)
            rw [hnone q hlow] at hq
            cases hq
          · refine Or.inl ?_
            by_contra hf
            exact hstay (Or.inr ⟨heq.symm, Bool.not_eq_true _ ▸ hf⟩)
        · have heq : q = (k.thread t).currentPriority := by
            by_contra hqne
            rw [hnone q (by omega)] at hq
            cases hq
          rw [heq] at hq
          obtain ⟨rfl, rfl⟩ := List.cons.inj (hq.symm.trans hul)
          have hhead := switchTo_head hne rfl hq
          refine ⟨hhead, iff_of_true hhead ?_⟩
          by_contra hf
          exact hstay (Or.inr ⟨heq.symm, Bool.not_eq_true _ ▸ hf⟩)

/-! ## Threads that only yield -/

/-- A thread is running, and the scheduler is not locked. -/
structure Going (k : Kernel) (t : ThreadId) : Prop where
  sched : SchedInv k
  unlocked : k.lockNest = 0
  current : k.current = some t
  running : (k.thread t).stat = .running

/-- The READY threads come after the running thread. -/
def Strict (k : Kernel) (t : ThreadId) : Prop :=
  ∀ v, (k.thread v).stat = .ready → (k.thread t).currentPriority ≤ (k.thread v).currentPriority

/-- **One yield.** No flag is set, a thread that gives way loses its flag, and the READY threads come
after the thread that runs then. -/
theorem Going.schedule (g : Going k t) : ∃ k' u, k.rtThreadYield = some k' ∧ Going k' u ∧
    Strict k' u ∧ (∀ v, (k'.thread v).yield = true → (k.thread v).yield = true) ∧
    (u ≠ t → (k'.thread t).yield = false) := by
  have i := g.sched
  obtain ⟨k', hk⟩ := i.rtSchedule_isSome (by rw [g.current]; simp)
  have hgoing : ∀ {u}, k'.current = some u → (k'.thread u).stat = .running →
      Going k' u ∧ Strict k' u := fun hc hr =>
    ⟨⟨i.schedule hk, (rtSchedule_lockNest i hk).trans g.unlocked, hc, hr⟩,
      fun v hv => rtSchedule_strict i g.unlocked hk hc hv⟩
  obtain ⟨-, rfl⟩ | ⟨cur, u, q, -, hcur, hne, hu, hcase⟩ := rtSchedule_cases i hk
  · obtain ⟨h₁, h₂⟩ := hgoing g.current g.running
    exact ⟨k', t, hk, h₁, h₂, fun v hv => hv, fun hne => absurd rfl hne⟩
  · obtain rfl : cur = t := Option.some.inj (hcur.symm.trans g.current)
    rcases hcase with ⟨-, -, rfl⟩ | ⟨-, -, rfl⟩ | ⟨hr, -⟩
    · obtain ⟨h₁, h₂⟩ := hgoing (u := cur) (by simp [setStat, hcur]) (by rw [setStat, modify_self])
      refine ⟨_, cur, hk, h₁, h₂, fun v hv => ?_, fun hne => absurd rfl hne⟩
      by_cases hvc : v = cur
      · rw [hvc, setStat, modify_self, rtScheduleRemoveThread_thread] at hv
        rw [hvc]
        exact hv
      · rwa [setStat, modify_of_ne _ hvc, rtScheduleRemoveThread_thread] at hv
    · have hyield : ∀ v, (((k.setYield cur false).switchTo cur u true).thread v).yield =
          ((k.setYield cur false).thread v).yield := by
        intro v
        rw [switchTo_true]
        by_cases hvu : v = u
        · rw [hvu, setStat, modify_self, rtScheduleRemoveThread_thread, rtScheduleInsertThread_of_ne hne,
            setCurrent_thread]
        · rw [setStat, modify_of_ne _ hvu, rtScheduleRemoveThread_thread]
          by_cases hvc : v = cur
          · rw [hvc, rtScheduleInsertThread_self]
            rfl
          · rw [rtScheduleInsertThread_of_ne hvc, setCurrent_thread]
      obtain ⟨h₁, h₂⟩ := hgoing (u := u) (by simp [switchTo_true, setStat])
        (by rw [switchTo_true, setStat, modify_self])
      refine ⟨_, u, hk, h₁, h₂, fun v hv => ?_, fun _ => ?_⟩
      · rw [hyield, setYield_thread] at hv
        dsimp only at hv
        split_ifs at hv
        exact hv
      · rw [hyield, setYield_thread]
        exact if_pos rfl
    · exact absurd g.running hr

/-- Without the flag, the running thread stays. -/
theorem Going.stays (g : Going k t) (hf : (k.thread t).yield = false) (hs : Strict k t) :
    ∃ k', k.rtThreadYield = some k' ∧ k'.current = some t := by
  obtain ⟨k', u, hk, g', -⟩ := g.schedule
  refine ⟨k', hk, ?_⟩
  obtain ⟨-, rfl⟩ | ⟨cur, w, q, -, hcur, hne, hw, hcase⟩ := rtSchedule_cases g.sched hk
  · exact g.current
  · obtain rfl : cur = t := Option.some.inj (hcur.symm.trans g.current)
    rcases hcase with ⟨-, -, rfl⟩ | ⟨-, hst, -⟩ | ⟨hr, -⟩
    · simp [setStat, hcur]
    · obtain ⟨-, hready, hprio⟩ := g.sched.toQueueInv.highest hw
      have hle := hs w hready
      rw [hprio] at hle
      rcases Nat.lt_or_eq_of_le hle with hlt | heq
      · exact absurd (Or.inl hlt) hst
      · exact absurd (Or.inr ⟨heq, hf⟩) hst
    · exact absurd g.running hr

/-- No READY thread has the priority of the running thread, or a higher one. -/
def Alone (k : Kernel) (t : ThreadId) : Prop :=
  ∀ v, (k.thread v).stat = .ready → (k.thread t).currentPriority < (k.thread v).currentPriority

theorem Going.alone (g : Going k t) (ha : Alone k t) :
    ∃ k', k.rtThreadYield = some k' ∧ Going k' t ∧ Alone k' t := by
  obtain ⟨k', u, hk, g', -⟩ := g.schedule
  have hprio : ∀ v, (k'.thread v).currentPriority = (k.thread v).currentPriority := by
    intro v
    obtain ⟨s, b, he⟩ := rtSchedule_thread g.sched hk v
    rw [he]
  have hkeep : k'.current = some t ∧ ∀ v, (k'.thread v).stat = .ready → (k.thread v).stat = .ready := by
    obtain ⟨-, rfl⟩ | ⟨cur, w, q, -, hcur, hne, hw, hcase⟩ := rtSchedule_cases g.sched hk
    · exact ⟨g.current, fun v hv => hv⟩
    · obtain rfl : cur = t := Option.some.inj (hcur.symm.trans g.current)
      rcases hcase with ⟨-, -, rfl⟩ | ⟨-, hst, -⟩ | ⟨hr, -⟩
      · refine ⟨by simp [setStat, hcur], fun v hv => ?_⟩
        by_cases hvc : v = cur
        · rw [hvc, setStat, modify_self] at hv
          cases hv
        · rwa [setStat, modify_of_ne _ hvc, rtScheduleRemoveThread_thread] at hv
      · obtain ⟨-, hready, hq⟩ := g.sched.toQueueInv.highest hw
        have hlt := ha w hready
        rw [hq] at hlt
        exact absurd (Or.inl hlt) hst
      · exact absurd g.running hr
  obtain rfl : u = t := Option.some.inj (g'.current.symm.trans hkeep.1)
  refine ⟨k', hk, g', fun v hv => ?_⟩
  rw [hprio, hprio]
  exact ha v (hkeep.2 v hv)

theorem Going.yields_alone (g : Going k t) (ha : Alone k t) :
    ∃ k', k.yields n = some k' ∧ Going k' t ∧ Alone k' t := by
  induction n with
  | zero => exact ⟨k, rfl, g, ha⟩
  | succ n ih =>
      obtain ⟨k₁, h₁, g₁, ha₁⟩ := ih
      obtain ⟨k₂, h₂, g₂, ha₂⟩ := g₁.alone ha₁
      refine ⟨k₂, ?_, g₂, ha₂⟩
      rw [yields, h₁]
      exact h₂

/-- The threads that only yield, and give way once. -/
theorem Going.yields_going (g : Going k t) (hfirst : ∀ k', k.rtThreadYield = some k' →
    k'.current ≠ some t) :
    ∃ k' u, k.yields (n + 1) = some k' ∧ Going k' u ∧ Strict k' u ∧ (k'.thread t).yield = false := by
  induction n with
  | zero =>
      obtain ⟨k', u, hk, g', hs, -, hlost⟩ := g.schedule
      refine ⟨k', u, hk, g', hs, hlost fun h => ?_⟩
      exact hfirst k' hk (h ▸ g'.current)
  | succ n ih =>
      obtain ⟨k₁, u₁, h₁, g₁, -, hf₁⟩ := ih
      obtain ⟨k₂, u₂, h₂, g₂, hs₂, hkeep, -⟩ := g₁.schedule
      refine ⟨k₂, u₂, ?_, g₂, hs₂, ?_⟩
      · rw [yields, h₁]
        exact h₂
      · by_contra hf
        have hset := hkeep t (Bool.not_eq_false _ ▸ hf)
        rw [hf₁] at hset
        cases hset

/-- **Yielding is no round robin** as soon as there are two threads: after one round the flag of the
first thread is clear, and it keeps the processor. -/
theorem roundRobin_iff (g : Going k t) (hn : k.NoneHigher (k.thread t).currentPriority) :
    RoundRobin k t (k.lists (.ready (k.thread t).currentPriority)) ↔
      k.lists (.ready (k.thread t).currentPriority) = [] := by
  have i := g.sched
  constructor
  · intro hround
    by_contra hne
    obtain ⟨u, l, hl⟩ := List.exists_cons_of_ne_nil hne
    have hut : u ≠ t := fun h => i.not_ready g.running (h ▸ hl ▸ List.mem_cons_self)
    rw [hl] at hround
    have hone : ∀ k', k.rtThreadYield = some k' → k'.current ≠ some t := by
      intro k' hk hc
      obtain ⟨k₁, h₁, hc₁⟩ := hround 1
      obtain rfl : k' = k₁ := Option.some.inj (hk.symm.trans h₁)
      rw [Nat.mod_eq_of_lt (by simp), List.getElem?_cons_succ, List.getElem?_cons_zero, hc] at hc₁
      exact hut (Option.some.inj hc₁).symm
    -- after one round
    obtain ⟨k₁, v, h₁, g₁, hs₁, hf₁⟩ := g.yields_going (n := l.length + 1) hone
    obtain ⟨k₁', h₁', hc₁⟩ := hround (l.length + 2)
    obtain rfl : k₁ = k₁' := Option.some.inj (h₁.symm.trans h₁')
    have hmod : (l.length + 2) % ((u :: l).length + 1) = 0 := Nat.mod_self _
    rw [hmod, List.getElem?_cons_zero, g₁.current] at hc₁
    obtain rfl := Option.some.inj hc₁
    obtain ⟨k₂, h₂, hc₂⟩ := g₁.stays hf₁ hs₁
    obtain ⟨k₂', h₂', hc₂'⟩ := hround (l.length + 3)
    have hnext : k.yields (l.length + 3) = some k₂ := by
      rw [yields, h₁]
      exact h₂
    obtain rfl : k₂ = k₂' := Option.some.inj (hnext.symm.trans h₂')
    have hmod' : (l.length + 3) % ((u :: l).length + 1) = 1 := by
      rw [List.length_cons, Nat.add_mod_left (l.length + 1 + 1) 1]
      exact Nat.mod_eq_of_lt (by omega)
    rw [hmod', List.getElem?_cons_succ, List.getElem?_cons_zero, hc₂] at hc₂'
    exact hut (Option.some.inj hc₂').symm
  · intro hempty
    have ha : Alone k t := fun v hv => by
      have hm := i.linked v (by simp) hv
      by_contra hle
      rcases Nat.lt_or_eq_of_le (Nat.le_of_not_lt hle) with hlt | heq
      · rw [hn _ hlt] at hm
        cases hm
      · rw [heq, hempty] at hm
        cases hm
    intro n
    obtain ⟨k', hk', g', -⟩ := g.yields_alone (n := n) ha
    refine ⟨k', hk', ?_⟩
    rw [g'.current, hempty]
    simp [Nat.mod_one]

/-- **A yield is not the end of a time slice.** With the scheduler unlocked, `rt_thread_yield` of the
running thread leaves the scheduler as the end of its time slice would if and only if its flag is
still set, or no other thread of its priority is READY, or one of a higher priority is. At the end of
the time slice the head of its list runs, and it is the last of the list; a yield does this if and
only if the flag is set. And threads that only yield run in turn if and only if there is one. -/
theorem yield_agrees (i : SchedInv k) (hl : k.lockNest = 0) (hc : k.current = some t)
    (hr : (k.thread t).stat = .running) :
    (∃ k₁ k₂, k.rtThreadYield = some k₁ ∧ k.rtTickIncrease = some k₂ ∧
      (SameSchedule k₁ k₂ ↔ GivesWay k t) ∧
      ∀ u l, k.lists (.ready (k.thread t).currentPriority) = u :: l →
        k.NoneHigher (k.thread t).currentPriority →
        (k₂.current = some u ∧ k₂.lists (.ready (k.thread t).currentPriority) = l ++ [t]) ∧
        (k₁.current = some u ∧ k₁.lists (.ready (k.thread t).currentPriority) = l ++ [t] ↔
          (k.thread t).yield = true)) ∧
    (k.NoneHigher (k.thread t).currentPriority →
      (RoundRobin k t (k.lists (.ready (k.thread t).currentPriority)) ↔
        k.lists (.ready (k.thread t).currentPriority) = [])) :=
  ⟨yield_cases i hl hc hr, roundRobin_iff ⟨i, hl, hc, hr⟩⟩

end

/-! ## Three threads of one priority -/

attribute [local instance] config32

/-- A run of calls that need no care of their callers. -/
theorem reachable_of_exec {k₀ k : Kernel} {l : List Op} (h₀ : Reachable Init Step k₀)
    (ha : ∀ a ∈ l, ∀ k, a.Allowed k) (h : runList Op.exec k₀ l = some k) :
    Reachable Init Step k := by
  induction l generalizing k₀ with
  | nil =>
      obtain rfl := Option.some.inj h
      exact h₀
  | cons a l ih =>
      obtain ⟨k₁, h₁, hl⟩ := Option.bind_eq_some_iff.mp h
      exact ih (h₀.step ⟨ha a List.mem_cons_self k₀, h₁⟩)
        (fun b hb => ha b (List.mem_cons_of_mem a hb)) hl

/-- Threads 1, 2 and 3 are started, and thread 1 runs. -/
def startThree : List Op := [.startup 1, .startup 2, .startup 3, .schedulerStart]

theorem startThree_allowed : ∀ a ∈ startThree, ∀ k : Kernel, a.Allowed k := by
  intro a ha k
  simp only [startThree, List.mem_cons, List.not_mem_nil, or_false] at ha
  rcases ha with rfl | rfl | rfl | rfl <;> trivial

/-- With threads of the priorities 10 and 20, a yield of the first leaves the scheduler as the end of
its time slice does. -/
theorem yield_agrees_startTwo : ∃ k k₁ k₂,
    runList Op.exec (bootKernel twoPriorities) startThree = some k ∧ k.current = some 1 ∧
    k.rtThreadYield = some k₁ ∧ k.rtTickIncrease = some k₂ ∧ SameSchedule k₁ k₂ ∧
    RoundRobin k 1 [] := by
  obtain ⟨k, hk⟩ : ∃ k, runList Op.exec (bootKernel twoPriorities) startThree = some k := ⟨_, rfl⟩
  have hview : (k.lockNest, k.current, (k.thread 1).stat, (k.thread 1).currentPriority,
      k.lists (.ready 10)) = (0, some 1, .running, 10, []) := by
    obtain rfl := Option.some.inj hk
    rfl
  have hlow : ∀ q < 10, k.lists (.ready q) = [] := by
    obtain rfl := Option.some.inj hk
    decide
  simp only [Prod.mk.injEq] at hview
  obtain ⟨hl, hc, hr, hp, hlist⟩ := hview
  obtain ⟨⟨k₁, k₂, h₁, h₂, h₃, -⟩, h₄⟩ := yield_agrees (schedInv_of_reachable
    (reachable_of_exec (.init (bootKernel_init twoPriorities_lt)) startThree_allowed hk)) hl hc hr
  rw [hp, hlist] at h₄
  exact ⟨k, k₁, k₂, hk, hc, h₁, h₂, h₃.mpr (Or.inr (Or.inl (by rw [hp, hlist]))),
    (h₄ hlow).mpr rfl⟩

/-- With three threads of the priority 10, a yield of the first leaves it running, where the end of its
time slice puts it behind the others; and the three do not run in turn. -/
theorem yield_keeps_running : ∃ k k₁ k₂, Reachable Init Step k ∧ k.lockNest = 0 ∧
    k.current = some 1 ∧ k.lists (.ready 10) = [2, 3] ∧ k.NoneHigher 10 ∧
    k.rtThreadYield = some k₁ ∧ k₁.current = some 1 ∧ k₁.lists (.ready 10) = [2, 3] ∧
    k.rtTickIncrease = some k₂ ∧ k₂.current = some 2 ∧ k₂.lists (.ready 10) = [3, 1] ∧
    ¬ RoundRobin k 1 [2, 3] := by
  have h₀ : Init (bootKernel fun _ => 10) := bootKernel_init fun _ => by decide
  obtain ⟨k, hk⟩ : ∃ k, runList Op.exec (bootKernel fun _ => 10) startThree = some k := ⟨_, rfl⟩
  have hreach := reachable_of_exec (.init h₀) startThree_allowed hk
  obtain ⟨k₁, h₁⟩ : ∃ k₁, k.rtThreadYield = some k₁ := by
    obtain rfl := Option.some.inj hk
    exact ⟨_, rfl⟩
  obtain ⟨k₂, h₂⟩ : ∃ k₂, k.rtTickIncrease = some k₂ := by
    obtain rfl := Option.some.inj hk
    exact ⟨_, rfl⟩
  have hview : (k.lockNest, k.current, (k.thread 1).stat, (k.thread 1).currentPriority,
      k.lists (.ready 10)) = (0, some 1, .running, 10, [2, 3]) := by
    obtain rfl := Option.some.inj hk
    rfl
  have hview₁ : (k₁.current, k₁.lists (.ready 10)) = (some 1, [2, 3]) := by
    obtain rfl := Option.some.inj hk
    obtain rfl := Option.some.inj h₁
    rfl
  have hview₂ : (k₂.current, k₂.lists (.ready 10)) = (some 2, [3, 1]) := by
    obtain rfl := Option.some.inj hk
    obtain rfl := Option.some.inj h₂
    rfl
  have hlow : k.NoneHigher 10 := by
    obtain rfl := Option.some.inj hk
    unfold NoneHigher
    decide
  simp only [Prod.mk.injEq] at hview hview₁ hview₂
  obtain ⟨hl, hc, hr, hp, hlist⟩ := hview
  refine ⟨k, k₁, k₂, hreach, hl, hc, hlist, hlow, h₁, hview₁.1, hview₁.2, h₂, hview₂.1, hview₂.2,
    fun hround => ?_⟩
  have hiff := roundRobin_iff ⟨schedInv_of_reachable hreach, hl, hc, hr⟩ (by rw [hp]; exact hlow)
  rw [hp, hlist] at hiff
  exact absurd (hiff.mp hround) (by simp)

end RTThread.Kernel
