import RTThread.Ipc.Inheritance

set_option autoImplicit false

/-! # Undoing priority inheritance

A release puts back the priority that the owner had when it got the mutex, and that may itself have
been raised through another mutex. `BoostSys` remembers for each mutex whether its owner was raised
when it got it. Whoever owns no mutex has its own priority as long as no thread gives up its last
mutex after having got it while raised.
-/

namespace RTThread.Ipc

open Kernel Trans

namespace Sys

def OwnsNone (s : Sys) (t : ThreadId) : Prop := ∀ i, s.owner i ≠ some t

/-- **Priority inheritance is undone**: a thread that owns no mutex has its initial priority. -/
def Restored (s : Sys) : Prop := ∀ t, s.OwnsNone t → s.prio t = s.initPrio t

/-- Mutex `i` has an owner whose priority is not its initial one. -/
def ownerRaised (s : Sys) (i : Nat) : Bool :=
  match s.owner i with
  | some t => decide (s.prio t ≠ s.initPrio t)
  | none => false

theorem ownerRaised_eq_false {s : Sys} {i : Nat} {t : ThreadId} (ho : s.owner i = some t) :
    s.ownerRaised i = false ↔ s.prio t = s.initPrio t := by
  unfold ownerRaised
  rw [ho]
  exact decide_eq_false_iff_not.trans not_not

end Sys

/-- The system, and which mutexes a thread got while it was raised. -/
structure BoostSys where
  sys : Sys
  raised : Nat → Bool

section

variable [RtConfig]

namespace BoostSys

def exec (b : BoostSys) (a : Action) : Option BoostSys :=
  (b.sys.exec a).map fun s' =>
    { sys := s'
      raised := fun i => if s'.owner i = b.sys.owner i then b.raised i else s'.ownerRaised i }

/-- A step in which the application changes no priority. -/
def Step (b : BoostSys) (a : Action) (b' : BoostSys) : Prop := b.exec a = some b' ∧ a.NoControl

/-- Every thread has its initial priority. -/
structure Init (b : BoostSys) : Prop where
  sys : b.sys.Init
  prio : b.sys.prio = b.sys.initPrio

/-- A thread that gives up its last mutex was not raised when it got it. -/
def GotUnraised (b : BoostSys) (a : Action) : Prop :=
  ∀ i t, b.sys.GivesUp i t a → (∀ j, j ≠ i → b.sys.owner j ≠ some t) → b.raised i = false

end BoostSys

variable {s s' : Sys} {b b' : BoostSys} {a : Action} {t u : ThreadId} {i j : Nat}

/-- What happens to a thread that owns no mutex: nothing, unless it has just given up its last. -/
theorem Step.ownsNone_cases (hs : s.Step a s') (hi : SysInv s) (hd : ∀ i, Held i s)
    (hn : a.NoControl) :
    ((∀ i t, ¬ s.GivesUp i t a) ∧ ∀ t, s'.OwnsNone t → s.OwnsNone t ∧ s'.prio t = s.prio t) ∨
      ∃ i t, s.GivesUp i t a ∧ s'.owner i ≠ some t ∧ (∀ j, j ≠ i → s'.owner j = s.owner j) ∧
        s'.prio = Function.update s.prio t (s.savedPrio i) := by
  by_cases hm : ∃ i, s.actObj a = some (.mutex i)
  · obtain ⟨i, ha⟩ := hm
    have hother : ∀ j, j ≠ i → s'.owner j = s.owner j := by
      intro j hj
      have hne : s.actObj a ≠ some (.mutex j) := by
        rw [ha]
        simpa using fun e : i = j => hj e.symm
      rw [Sys.owner, (Step.mutexFrame hs hi hne).1, Sys.owner]
    have honly : (∀ t, ¬ s.GivesUp i t a) → ∀ j t, ¬ s.GivesUp j t a := by
      intro hg j t hgj
      obtain rfl : i = j := by simpa using ha.symm.trans hgj.actObj
      exact hg t hgj
    -- the owners stay, apart from that of the mutex
    have hnone : ∀ t, s'.OwnsNone t → s.owner i ≠ some t → s.OwnsNone t := by
      intro t h hne j
      by_cases hj : j = i
      · rw [hj]
        exact hne
      · rw [← hother j hj]
        exact h j
    cases mutexEffect hs hi ha with
    | quiet hg hv ho hsaved hl hp =>
        refine .inl ⟨honly hg, fun t h => ⟨hnone t h ?_, congrFun hp t⟩⟩
        rw [← ho]
        exact h i
    | take hv hv' ho hsaved hl hp =>
        refine .inl ⟨honly (by simp [Sys.GivesUp]), fun t h => ⟨hnone t h ?_, congrFun hp t⟩⟩
        rw [((hd i).free_of_value hv).2.1]
        exact (Option.some_ne_none t).symm
    | @wait t owner _ _ hne hown hv ho hsaved hl hp =>
        refine .inl ⟨honly (by simp [Sys.GivesUp]), fun u h => ?_⟩
        have hu : s.owner i ≠ some u := by
          rw [← ho]
          exact h i
        have huo : u ≠ owner := fun e => hu (e ▸ hown)
        exact ⟨hnone u h hu, by rw [hp, Function.update_of_ne huo]⟩
    | @handOver t u l _ hown hh hw hv ho hsaved hl hp =>
        refine .inr ⟨i, t, ⟨rfl, hown, hh⟩, ?_, hother, hp⟩
        rw [ho]
        rintro ⟨rfl⟩
        exact (hd i).not_mem hown (by rw [hw]; exact List.mem_cons_self)
    | @free t _ hown hh hw hv ho hl hp =>
        refine .inr ⟨i, t, ⟨rfl, hown, hh⟩, ?_, hother, hp⟩
        rw [ho]
        exact (Option.some_ne_none t).symm
  · have hne := not_exists.mp hm
    refine .inl ⟨fun i t hg => hne i hg.actObj, fun t h => ⟨fun i => ?_, ?_⟩⟩
    · have hsame := (Step.mutexFrame hs hi (hne i)).1
      rw [Sys.owner, ← hsame]
      exact h i
    · exact congrFun (Step.prio hs hi hne hn.ne_control) t

/-- What is saved in a mutex is the priority of its owner when it got it. -/
def SavedWhenGot (b : BoostSys) : Prop :=
  ∀ i t, b.sys.owner i = some t → (b.raised i = false ↔ b.sys.savedPrio i = b.sys.initPrio t)

theorem BoostSys.exec_some (h : b.exec a = some b') : b.sys.Step a b'.sys ∧
    ∀ i, b'.raised i =
      if b'.sys.owner i = b.sys.owner i then b.raised i else b'.sys.ownerRaised i := by
  obtain ⟨s', hs, rfl⟩ := Option.map_eq_some_iff.mp h
  exact ⟨hs, fun _ => rfl⟩

theorem SavedWhenGot.step (h : SavedWhenGot b) (hs : b.exec a = some b') (hi : SysInv b.sys)
    (hd : ∀ i, Held i b.sys) : SavedWhenGot b' := by
  obtain ⟨hstep, hraised⟩ := BoostSys.exec_some hs
  have hinit := Step.initPrio hstep hi
  -- nothing is new at a mutex whose owner stays
  have hkeep : ∀ i t, b'.sys.owner i = b.sys.owner i → b'.sys.savedPrio i = b.sys.savedPrio i →
      b'.sys.owner i = some t → (b'.raised i = false ↔ b'.sys.savedPrio i = b'.sys.initPrio t) := by
    intro i t ho hsaved hown
    rw [hraised, if_pos ho, hsaved, hinit]
    exact h i t (ho ▸ hown)
  have hnew : ∀ i t, b'.sys.owner i ≠ b.sys.owner i → b'.sys.savedPrio i = b'.sys.prio t →
      b'.sys.owner i = some t → (b'.raised i = false ↔ b'.sys.savedPrio i = b'.sys.initPrio t) := by
    intro i t ho hsaved hown
    rw [hraised, if_neg ho, hsaved]
    exact Sys.ownerRaised_eq_false hown
  intro i t hown
  by_cases ha : b.sys.actObj a = some (.mutex i)
  · cases mutexEffect hstep hi ha with
    | quiet hg hv ho hsaved hl hp => exact hkeep i t ho hsaved hown
    | @take u _ _ hv hv' ho hsaved hl hp =>
        refine hnew i t ?_ ?_ hown
        · rw [ho, ((hd i).free_of_value hv).2.1]
          exact Option.some_ne_none u
        · obtain rfl : u = t := Option.some.inj (ho.symm.trans hown)
          rw [hsaved, hp]
    | wait hne howner hv ho hsaved hl hp => exact hkeep i t ho hsaved hown
    | @handOver v u l _ howner hh hw hv ho hsaved hl hp =>
        obtain rfl : u = t := Option.some.inj (ho.symm.trans hown)
        refine hnew i u ?_ hsaved hown
        rw [ho, howner]
        rintro ⟨rfl⟩
        exact (hd i).not_mem howner (by rw [hw]; exact List.mem_cons_self)
    | free howner hh hw hv ho hl hp =>
        rw [ho] at hown
        cases hown
  · have hsame := (Step.mutexFrame hstep hi ha).1
    exact hkeep i t (congrArg Mutex.owner hsame) (congrArg Mutex.originalPriority hsame) hown

/-- **One step**: it keeps inheritance undone if and only if no thread gives up its last mutex after
having got it while raised. -/
theorem SavedWhenGot.restored_iff (h : SavedWhenGot b) (hs : b.Step a b') (hi : SysInv b.sys)
    (hd : ∀ i, Held i b.sys) (hr : b.sys.Restored) : b'.sys.Restored ↔ b.GotUnraised a := by
  obtain ⟨hstep, -⟩ := BoostSys.exec_some hs.1
  have hinit := Step.initPrio hstep hi
  obtain ⟨hno, hkeep⟩ | ⟨i, t, hg, hlost, hother, hp⟩ := Step.ownsNone_cases hstep hi hd hs.2
  · refine iff_of_true (fun t ht => ?_) fun i t hg => absurd hg (hno i t)
    obtain ⟨hnone, hprio⟩ := hkeep t ht
    rw [hprio, hinit]
    exact hr t hnone
  · constructor
    · intro h' i' t' hg' hlast
      obtain ⟨rfl, howner, -⟩ := hg'
      obtain ⟨he, -, -⟩ := hg
      cases he
      have hnone : b'.sys.OwnsNone t := by
        intro j
        by_cases hj : j = i
        · rw [hj]
          exact hlost
        · rw [hother j hj]
          exact hlast j hj
      have hprio := h' t hnone
      rw [hp, Function.update_self, hinit] at hprio
      exact (h i t howner).mpr hprio
    · intro hgot u hu
      rw [hp, hinit]
      by_cases hut : u = t
      · have hsaved := hgot i t hg fun j hj => by
          rw [← hother j hj, ← hut]
          exact hu j
        rw [hut, Function.update_self]
        exact (h i t hg.2.1).mp hsaved
      · rw [Function.update_of_ne hut]
        refine hr u fun j => ?_
        by_cases hj : j = i
        · rw [hj, hg.2.1]
          exact fun e => hut (Option.some.inj e).symm
        · rw [← hother j hj]
          exact hu j

/-- A step that is no such release. -/
def RestoreStep (b : BoostSys) (a : Action) (b' : BoostSys) : Prop := b.Step a b' ∧ b.GotUnraised a

theorem BoostSys.Init.savedWhenGot (h : b.Init) : SavedWhenGot b := by
  intro i t ho
  obtain ⟨flag, hm⟩ := h.sys.mutex i
  rw [Sys.owner, hm] at ho
  cases ho

/-- **Priority inheritance is undone** in every state of every run in which no thread gives up its
last mutex after having got it while raised; from there a step keeps it undone if and only if it is
no such release. -/
theorem inheritance_undone (hr : Reachable BoostSys.Init RestoreStep b) :
    b.sys.Restored ∧ ∀ a b', b.Step a b' → (b'.sys.Restored ↔ b.GotUnraised a) := by
  have hinv : (SysInv b.sys ∧ ∀ i, Held i b.sys) ∧ SavedWhenGot b ∧ b.sys.Restored := by
    refine hr.invariant
      (I := fun b => (SysInv b.sys ∧ ∀ i, Held i b.sys) ∧ SavedWhenGot b ∧ b.sys.Restored)
      (fun b h => ?_) fun b a b' _ ih hs => ?_
    · exact ⟨⟨h.sys.sysInv, h.sys.held⟩, h.savedWhenGot, fun t _ => congrFun h.prio t⟩
    · obtain ⟨⟨hi, hd⟩, hsaved, hrest⟩ := ih
      have hstep := (BoostSys.exec_some hs.1.1).1
      exact ⟨⟨Step.sysInv hstep hi, fun i => Step.held hstep hi (hd i)⟩,
        hsaved.step hs.1.1 hi hd, (hsaved.restored_iff hs.1 hi hd hrest).mpr hs.2⟩
  obtain ⟨⟨hi, hd⟩, hsaved, hrest⟩ := hinv
  exact ⟨hrest, fun a b' hs => hsaved.restored_iff hs hi hd hrest⟩

/-! ## Mutexes that a run does not use -/

/-- The calls on mutexes are on those below `n`. -/
def MutexBelow (n : Nat) : Obj → Prop
  | .mutex i => i < n
  | .sem _ | .event _ | .mb _ | .mq _ => True

def Action.MutexBelow (n : Nat) : Action → Prop
  | .run _ (.call c) | .isr c => Ipc.MutexBelow n c.obj
  | _ => True

/-- No thread owns mutex `n` or one above it, or is in a call on it. -/
structure Untouched (n : Nat) (s : Sys) : Prop where
  owner : ∀ j, n ≤ j → s.owner j = none
  pc : ∀ j, n ≤ j → ∀ t, (s.pc t).obj ≠ some (.mutex j)

theorem Untouched.step {n : Nat} (h : Untouched n s) (hs : s.Step a s') (hi : SysInv s)
    (ha : a.MutexBelow n) : Untouched n s' := by
  have hobj : ∀ j, n ≤ j → ∀ o : Obj, Ipc.MutexBelow n o → some o ≠ some (.mutex j) := by
    rintro j hj o ho ⟨rfl⟩
    exact absurd ho (Nat.not_lt.mpr hj)
  have hact : ∀ j, n ≤ j → s.actObj a ≠ some (.mutex j) := by
    intro j hj
    cases a with
    | run t r =>
        cases r with
        | call c => exact hobj j hj c.obj ha
        | resumed _ | copy | finish => exact h.pc j hj t
    | isr c => exact hobj j hj c.obj ha
    | ret t | timeout t => exact h.pc j hj t
    | control _ _ | schedule => exact (Option.some_ne_none _).symm
  refine ⟨fun j hj => ?_, fun j hj t ht => ?_⟩
  · rw [Sys.owner, (Step.frame hs hi (hact j hj)).same]
    exact h.owner j hj
  · rw [(Step.frame hs hi (hact j hj)).pc t (.inr ht)] at ht
    exact h.pc j hj t ht

end

/-! ## A boost that stays -/

attribute [local instance] config32

instance MutexBelow.decidable (n : Nat) : (o : Obj) → Decidable (MutexBelow n o)
  | .mutex i => inferInstanceAs (Decidable (i < n))
  | .sem _ | .event _ | .mb _ | .mq _ => isTrue trivial

instance Action.MutexBelow.decidable (n : Nat) : (a : Action) → Decidable (a.MutexBelow n)
  | .run _ (.call c) | .isr c => inferInstanceAs (Decidable (Ipc.MutexBelow n c.obj))
  | .run _ (.resumed _) | .run _ .copy | .run _ .finish | .ret _ | .timeout _ | .control _ _ |
    .schedule => isTrue trivial

/-- The threads of `contend`, at the start. -/
def boostStart : Option BoostSys := (contend .fifo).map fun s => ⟨s, fun _ => false⟩

theorem boostStart_init {b : BoostSys} (h : boostStart = some b) : b.Init := by
  obtain ⟨s, hs, rfl⟩ := Option.map_eq_some_iff.mp h
  exact ⟨contend_init hs, funext (startSys_unraised hs)⟩

/-- Thread 1 takes mutex 0, and thread 2 waits for it. -/
def boosted : List Action :=
  [.run 2 (.call (.semTake 0 10)), .schedule,
    .run 1 (.call (.mutexTake 0 (-1))), .ret 1,
    .timeout 2, .schedule, .run 2 (.resumed 10), .ret 2,
    .run 2 (.call (.mutexTake 0 (-1))), .schedule]

/-- Raised by that, thread 1 takes mutex 1; it releases mutex 0 and, when thread 2 is done with it,
mutex 1. -/
def boostKept : List Action :=
  boosted ++
  [.run 1 (.call (.mutexTake 1 (-1))), .ret 1, .run 1 (.call (.mutexRelease 0)), .schedule,
    .run 2 (.resumed 0), .ret 2, .run 2 (.call (.mutexRelease 0)), .ret 2,
    .run 2 (.call (.semTake 0 10)), .schedule,
    .ret 1, .run 1 (.call (.mutexRelease 1))]

/-- The mutex that a call releases. -/
def Action.releases : Action → Option Nat
  | .run _ (.call (.mutexRelease i)) => some i
  | _ => none

/-- No mutex is released that its owner got while raised. -/
def ReleasesUnraised (b : BoostSys) (a : Action) : Prop := a.releases.all fun i => !b.raised i

instance (b : BoostSys) (a : Action) : Decidable (ReleasesUnraised b a) :=
  inferInstanceAs (Decidable (_ = true))

theorem ReleasesUnraised.gotUnraised {b : BoostSys} {a : Action} (h : ReleasesUnraised b a) :
    b.GotUnraised a := by
  rintro i t ⟨rfl, -⟩ -
  simpa [ReleasesUnraised, Action.releases] using h

/-- After the release, thread 1 has its own priority again. -/
theorem inheritance_undone_boosted : ∃ b : BoostSys,
    b.sys.owner 0 = some 2 ∧ b.sys.prio 1 = 10 ∧ b.sys.Restored := by
  have hrun : (boostStart.bind fun b => (runList
      (stepIf BoostSys.exec fun b a => a.NoControl ∧ ReleasesUnraised b a) b
      (boosted ++ [.run 1 (.call (.mutexRelease 0))])).map fun b => (b.sys.owner 0, b.sys.prio 1)) =
      some (some 2, 10) := by decide +kernel
  obtain ⟨b₀, hstart, hrun⟩ := Option.bind_eq_some_iff.mp hrun
  obtain ⟨b, hb, hend⟩ := Option.map_eq_some_iff.mp hrun
  obtain ⟨howner, hprio⟩ := Prod.mk.inj hend
  have hreach : Reachable BoostSys.Init RestoreStep b :=
    (reachable_of_runList_stepIf (boostStart_init hstart) hb).mono
      fun _ _ _ hs => ⟨⟨hs.1, hs.2.1⟩, hs.2.2.gotUnraised⟩
  exact ⟨b, howner, hprio, (inheritance_undone hreach).1⟩

/-- At the end, thread 1 owns no mutex and keeps the priority of thread 2. -/
theorem boost_kept : ∃ b, Reachable BoostSys.Init BoostSys.Step b ∧ b.sys.OwnsNone 1 ∧
    b.sys.prio 1 = 5 ∧ b.sys.initPrio 1 = 10 := by
  have hrun : (boostStart.bind fun b => (runList
      (stepIf BoostSys.exec fun _ a => a.NoControl ∧ a.MutexBelow 2) b boostKept).map
        fun b => (b.sys.owner 0, b.sys.owner 1, b.sys.prio 1, b.sys.initPrio 1)) =
      some (none, none, 5, 10) := by decide +kernel
  obtain ⟨b₀, hstart, hrun⟩ := Option.bind_eq_some_iff.mp hrun
  obtain ⟨b, hb, hend⟩ := Option.map_eq_some_iff.mp hrun
  obtain ⟨howner₀, hend⟩ := Prod.mk.inj hend
  obtain ⟨howner₁, hend⟩ := Prod.mk.inj hend
  obtain ⟨hprio, hinit⟩ := Prod.mk.inj hend
  have hreach := reachable_of_runList_stepIf (boostStart_init hstart) hb
  have hrest : SysInv b.sys ∧ Untouched 2 b.sys := by
    refine hreach.invariant (I := fun b => SysInv b.sys ∧ Untouched 2 b.sys) (fun b h => ?_)
      fun b a b' _ ih hs => ?_
    · refine ⟨h.sys.sysInv, fun j _ => ?_, fun j _ t ht => ?_⟩
      · obtain ⟨flag, hm⟩ := h.sys.mutex j
        rw [Sys.owner, hm]
      · rw [h.sys.idle t] at ht
        cases ht
    · have hstep := (BoostSys.exec_some hs.1).1
      exact ⟨Step.sysInv hstep ih.1, ih.2.step hstep ih.1 hs.2.2⟩
  refine ⟨b, hreach.mono fun _ _ _ hs => ⟨hs.1, hs.2.1⟩, fun i => ?_, hprio, hinit⟩
  obtain rfl | rfl | hi : i = 0 ∨ i = 1 ∨ 2 ≤ i := by omega
  · simp [howner₀]
  · simp [howner₁]
  · simp [hrest.2.owner i hi]

end RTThread.Ipc
