import RTThread.Ipc.SoloSem
import RTThread.Ipc.Start
import RTThread.Ipc.Strict

set_option autoImplicit false

/-! # Runs of a system

Which threads wait and for what, what happens to an object that no step is about, and the critical sections
of `scheduler.c`: `rt_enter_critical` locks the scheduler and `rt_exit_critical` unlocks it. Of the counter
of the locks, an `rt_int16_t`, the 16 bits are kept.
-/

namespace RTThread.Ipc

open Kernel Relation Trans

section

variable [RtConfig] {s s' : Sys} {a : Action} {o : Obj} {n : Nat}

/-- **Waiting threads.** In every run a thread in a wait list is suspended in a call that waits there, and is
in no other list; a timer runs only for such a thread. The one RUNNING thread is in no list. -/
theorem waiting_threads (h : Reachable Sys.Init Sys.Step s) :
    (∀ w : ListHead, w.IsWait → (s.ipc.kernel.lists w).Nodup ∧ ∀ t ∈ s.ipc.kernel.lists w,
      (s.ipc.kernel.thread t).stat = .suspend ∧ (s.pc t).waitsOn = some w ∧
        (s.ipc.kernel.thread t).error = .ok ∧ ∀ l, t ∈ s.ipc.kernel.lists l → l = w) ∧
    (∀ t, (s.ipc.kernel.thread t).timer = true → ∃ w : ListHead, w.IsWait ∧ t ∈ s.ipc.kernel.lists w) ∧
    ∀ t, (s.ipc.kernel.thread t).stat = .running →
      s.ipc.kernel.current = some t ∧ ∀ l, t ∉ s.ipc.kernel.lists l := by
  have i := (sysInv_of_reachable h).wait
  refine ⟨fun w hw => ⟨i.sched.nodup w, fun t ht => ⟨?_, i.waits t w hw ht, i.error t w hw ht, fun l hl =>
    i.sched.once t l w hl ht⟩⟩, i.timer, fun t ht => ⟨i.sched.running t ht, fun l => i.sched.running_not_mem ht⟩⟩
  obtain ⟨o, rfl | rfl⟩ := hw
  · exact i.sched.waiting t o (.inl ht)
  · exact i.sched.waiting t o (.inr ht)

omit [RtConfig] in
/-- What stays in two runs stays in both together. -/
theorem ObjFrame.trans {s'' : Sys} (f : ObjFrame o s s') (g : ObjFrame o s' s'') : ObjFrame o s s'' := by
  refine ⟨?_, fun l hl => (g.lists l hl).trans (f.lists l hl), fun t ht => ?_, fun t ht => ?_⟩
  · have hf := f.same
    have hg := g.same
    cases o <;> exact Eq.trans hg hf
  · obtain ht | ht := ht
    · have hf := f.pc t (.inl ht)
      exact (g.pc t (.inl (hf ▸ ht))).trans hf
    · have hg := g.pc t (.inr ht)
      exact hg.trans (f.pc t (.inr (hg ▸ ht)))
  · have hg := g.thread t (f.pc t (.inl ht) ▸ ht)
    have hf := f.thread t ht
    exact ⟨hg.1.trans hf.1, hg.2.trans hf.2⟩

/-- **Objects are independent.** While no step is about an object, its data, its wait lists and the threads
at it stay as they are, whatever happens at the others. -/
theorem objects_independent (h : Reachable Sys.Init Sys.Step s)
    (hrun : ReflTransGen (fun s s' => ∃ a, Sys.Step s a s' ∧ s.actObj a ≠ some o) s s') : ObjFrame o s s' := by
  have hend : SysInv s' ∧ ObjFrame o s s' := by
    induction hrun with
    | refl => exact ⟨sysInv_of_reachable h, SameObj.refl o _, fun _ _ => rfl, fun _ _ => rfl, fun _ _ => ⟨rfl, rfl⟩⟩
    | tail _ hs ih =>
        obtain ⟨a, hs, ha⟩ := hs
        obtain ⟨i, f⟩ := ih
        exact ⟨Step.sysInv hs i, f.trans (Step.frame hs i ha)⟩
  exact hend.2

/-- **Semaphores of one thread.** What a component keeps of its semaphore shows the semaphore of `ipc.c` again
after each function, with the same result, and after the time-out of the thread. -/
theorem solo_semaphores {ipc : Ipc} {i : Nat} {w : SoloSem} (h : w.Shows ipc i) (j : SchedInv ipc.kernel) :
    (∀ t time x, w.suspended = false → ipc.kernel.current = some t → (ipc.kernel.thread t).stat = .running →
      ipc.rtSemTake t i time = some x → (w.rtSemTake time).2.Shows x.ipc i ∧
        x.pc = SoloSem.takePc i time (w.rtSemTake time).1) ∧
    (∀ x, ipc.rtSemRelease i = some x → w.rtSemRelease.Shows x.ipc i) ∧
    (∀ value x, w.suspended = false → ipc.rtSemReset i value = some x → (w.rtSemReset value).Shows x.ipc i) ∧
    ∀ t k, t ∈ ipc.kernel.lists (.suspend (.sem i)) → ipc.kernel.threadTimeout t = some k →
      w.expire.Shows (ipc.setKernel k) i := by
  refine ⟨fun _ _ _ hw hc hr => h.rtSemTake hw j hc hr, fun _ => h.rtSemRelease j, fun _ _ => h.rtSemReset,
    fun t k ht hk => ⟨h.value, ?_⟩⟩
  have hlist := h.list
  show (k.lists (.suspend (.sem i))).length = 0
  rw [(Woken.of_timeout j ⟨_, .inl rfl⟩ ht hk).list, List.length_erase_of_mem ht, hlist]
  split_ifs <;> rfl

/-! ## Critical sections -/

def rtEnterCritical (k : Kernel) : Kernel := { k with lockNest := (k.lockNest + 1) % 2 ^ 16 }

/-- The section of `rt_exit_critical`, and whether it goes on to `rt_schedule`. -/
def rtExitCritical (k : Kernel) : Kernel × Bool :=
  let nest := (k.lockNest + 2 ^ 16 - 1) % 2 ^ 16
  -- `rt_scheduler_lock_nest <= 0`: if scheduler is started, do a schedule
  if nest = 0 ∨ 2 ^ 15 ≤ nest then ({ k with lockNest := 0 }, k.current.isSome)
  else ({ k with lockNest := nest }, false)

/-- The threads and the kernel, and the critical sections that are open: fewer than the counter can count. -/
inductive LockStep : Sys × Nat → Sys × Nat → Prop
  | sys {s s' : Sys} {a : Action} {d : Nat} (h : s.Step a s') : LockStep (s, d) (s', d)
  | enter {s : Sys} {d : Nat} (h : d + 1 < 2 ^ 15) :
      LockStep (s, d) (s.setKernel (rtEnterCritical s.ipc.kernel), d + 1)
  | leave {s : Sys} {d : Nat} : LockStep (s, d + 1) (s.setKernel (rtExitCritical s.ipc.kernel).1, d)

def LockInit (S : Sys × Nat) : Prop := S.1.Init ∧ S.1.ipc.kernel.lockNest = 0 ∧ S.2 = 0

theorem SysInv.setLockNest (i : SysInv s) : SysInv (s.setKernel { s.ipc.kernel with lockNest := n }) :=
  have w := i.wait
  ⟨⟨⟨w.sched.toQueueInv.of_eq rfl rfl rfl rfl, w.sched.current, w.sched.running⟩, w.waits, w.timer, w.error,
    w.signal⟩, i.prio⟩

/-- A locked scheduler does not switch. -/
theorem Step.current (hs : s.Step a s') (i : SysInv s) (hl : s.ipc.kernel.lockNest ≠ 0) :
    s'.ipc.kernel.current = s.ipc.kernel.current := by
  obtain ⟨t, r, x, rfl, hr, hx, rfl⟩ | ⟨t, c, e, r, rfl, hr, hpc, rfl⟩ |
    ⟨c, t, x, rfl, hc, ht, hx, rfl⟩ | ⟨t, k', rfl, ht, hk, rfl⟩ | ⟨t, p, rfl, hp, rfl⟩ |
    ⟨k', rfl, hk, rfl⟩ := Step.cases hs
  · obtain ⟨o, -, ok⟩ := sect_ok i hr hx
    have hd := ok.does
    cases hd with
    | go hp _ => exact (hp.frame i.wait).current
    | block hp _ _ _ _ b => exact b.current.trans (hp.frame i.wait).current
  · rfl
  · exact (((isr_ok i hc hx).prims t).frame i.wait).current
  · obtain ⟨h, hh, hm, -, w⟩ := timeout_woken i ht hk
    exact w.current
  · exact (Changed.of_control i.wait.sched hp).current
  · rw [rtSchedule, if_neg hl] at hk
    exact congrArg Kernel.current (Option.some.inj hk).symm

/-- The lock is the number of open sections. -/
structure LockInv (S : Sys × Nat) : Prop where
  sys : SysInv S.1
  nest : S.1.ipc.kernel.lockNest = S.2
  lt : S.2 < 2 ^ 15

/-- Leaving a section takes one off, and the last section goes on to `rt_schedule`. -/
theorem LockInv.leave {S : Sys × Nat} (hS : LockInv S) (h : S.2 ≠ 0) :
    rtExitCritical S.1.ipc.kernel = ({ S.1.ipc.kernel with lockNest := S.2 - 1 },
      decide (S.2 = 1 ∧ S.1.ipc.kernel.current.isSome)) := by
  obtain ⟨-, hl, hlt⟩ := hS
  have hnest : (S.2 + 2 ^ 16 - 1) % 2 ^ 16 = S.2 - 1 := by omega
  unfold rtExitCritical
  rw [hl, hnest]
  dsimp only
  by_cases h1 : S.2 = 1
  · simp [h1]
  · rw [if_neg (by omega)]
    simp [h1]

/-- **A step** keeps the invariant, and switches to no other thread if it leaves a section open. -/
theorem LockStep.keeps {S S' : Sys × Nat} (hs : LockStep S S') (hS : LockInv S) :
    LockInv S' ∧ (S'.2 ≠ 0 → S'.1.ipc.kernel.current = S.1.ipc.kernel.current) := by
  cases hs with
  | sys h =>
      obtain ⟨i, hl, hlt⟩ := hS
      exact ⟨⟨Step.sysInv h i, (Step.lockNest h i).trans hl, hlt⟩, fun hne => Step.current h i (hl ▸ hne)⟩
  | @enter s d h =>
      obtain ⟨i, hl, -⟩ := hS
      refine ⟨⟨i.setLockNest, ?_, h⟩, fun _ => rfl⟩
      show (s.ipc.kernel.lockNest + 1) % 2 ^ 16 = d + 1
      dsimp only at hl
      omega
  | @leave s d =>
      rw [hS.leave (Nat.succ_ne_zero d)]
      exact ⟨⟨hS.sys.setLockNest, rfl, Nat.lt_of_succ_lt hS.lt⟩, fun _ => rfl⟩

/-- **Critical sections.** In every run the lock counts the open sections. While one is open the current
thread stays the current one, whatever the threads call and interrupts do. Leaving the last one goes on to
`rt_schedule`, and while none is open this leaves no READY thread more urgent than the current one. -/
theorem critical_sections {S₀ S : Sys × Nat} (h₀ : LockInit S₀) (h : ReflTransGen LockStep S₀ S) :
    S.1.ipc.kernel.lockNest = S.2 ∧
    (∀ S', ReflTransGen (fun S S' => LockStep S S' ∧ S'.2 ≠ 0) S S' →
      S'.1.ipc.kernel.current = S.1.ipc.kernel.current) ∧
    (S.2 ≠ 0 → rtExitCritical S.1.ipc.kernel = ({ S.1.ipc.kernel with lockNest := S.2 - 1 },
      decide (S.2 = 1 ∧ S.1.ipc.kernel.current.isSome))) ∧
    ∀ s', S.2 = 0 → S.1.Step .schedule s' → s'.Strict := by
  have hinv : LockInv S := by
    induction h with
    | refl => exact ⟨h₀.1.sysInv, h₀.2.1.trans h₀.2.2.symm, by rw [h₀.2.2]; decide⟩
    | tail _ hs ih => exact (hs.keeps ih).1
  refine ⟨hinv.nest, fun S' hrun => ?_, hinv.leave, fun s' hz hs => schedule_strict hinv.sys (hinv.nest.trans hz) hs⟩
  have hend : LockInv S' ∧ S'.1.ipc.kernel.current = S.1.ipc.kernel.current := by
    induction hrun with
    | refl => exact ⟨hinv, rfl⟩
    | tail _ hs ih =>
        obtain ⟨i, hsame⟩ := hs.1.keeps ih.1
        exact ⟨i, (hsame hs.2).trans ih.2⟩
  exact hend.2

end

attribute [local instance] config32

/-- Threads 1 and 2, and semaphores that are empty. -/
def twoThreads : Option Sys := startSys twoPriorities [1, 2] (fun _ => ⟨0, .fifo⟩) fun _ => .prio

/-- Thread 1 takes a semaphore. -/
theorem twoThreads_take : ∃ s s', twoThreads = some s ∧ s.Init ∧ s.ipc.kernel.lockNest = 0 ∧
    s.Step (.run 1 (.call (.semTake 0 5))) s' ∧ 1 ∈ s'.ipc.kernel.lists (.suspend (.sem 0)) := by
  obtain ⟨s, hs⟩ : ∃ s, twoThreads = some s := ⟨_, rfl⟩
  have hi : s.Init := startSys_init twoPriorities_lt (fun _ => by decide) hs
  obtain rfl := Option.some.inj hs
  exact ⟨_, _, rfl, hi, rfl, Option.eq_some_of_isSome rfl, List.mem_singleton.mpr rfl⟩

theorem waiting_threads_take : ∃ s s', twoThreads = some s ∧ s.Step (.run 1 (.call (.semTake 0 5))) s' ∧
    (s'.ipc.kernel.thread 1).stat = .suspend := by
  obtain ⟨s, s', hs, hi, -, h, hm⟩ := twoThreads_take
  exact ⟨s, s', hs, h, (((waiting_threads ((Reachable.init hi).step h)).1 _ ⟨_, .inl rfl⟩).2 1 hm).1⟩

theorem objects_independent_take : ∃ s s', twoThreads = some s ∧ s.Step (.run 1 (.call (.semTake 0 5))) s' ∧
    ObjFrame (.sem 1) s s' := by
  obtain ⟨s, s', hs, hi, -, h, -⟩ := twoThreads_take
  exact ⟨s, s', hs, h, objects_independent (.init hi) (.single ⟨_, h, by simp [Sys.actObj, Call.obj]⟩)⟩

theorem solo_semaphores_take : ∃ s x, twoThreads = some s ∧ s.ipc.rtSemTake 1 0 5 = some x ∧
    SoloSem.Shows x.ipc 0 ⟨0, true⟩ := by
  obtain ⟨s, -, hs, hi, -⟩ := twoThreads_take
  obtain rfl := Option.some.inj hs
  exact ⟨_, _, rfl, Option.eq_some_of_isSome rfl,
    ((solo_semaphores (w := ⟨0, false⟩) ⟨rfl, rfl⟩ hi.sched).1 1 5 _ rfl rfl rfl (Option.eq_some_of_isSome rfl)).1⟩

/-- Thread 1 is in a critical section. -/
theorem critical_sections_entered : ∃ s, twoThreads = some s ∧ (rtEnterCritical s.ipc.kernel).lockNest = 1 := by
  obtain ⟨s, -, hs, hi, hl, -⟩ := twoThreads_take
  exact ⟨s, hs, (critical_sections ⟨hi, hl, rfl⟩ (.single (.enter (by decide)))).1⟩

end RTThread.Ipc
