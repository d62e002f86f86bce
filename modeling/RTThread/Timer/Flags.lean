import RTThread.Timer.System

set_option autoImplicit false

/-! # The flag of a timer and its list

`RT_TIMER_FLAG_ACTIVATED` is to say that a timer is in the list. `rt_timer_check` takes a timer out
of the list before its timeout function and writes the flag after it: a periodic timer whose flag is
still set is started again, any other loses the flag. A one-shot timer that its own timeout function
has started again loses the flag although it is in the list, and then it cannot be stopped. That is
the only way in which the two come apart.
-/

namespace RTThread

open Trans Timers HardSys

section

variable [TimerConfig]

/-- The flag of a hard timer agrees with the list, off its timeout function. -/
def FlagOk (q : HardSys) : Prop :=
  ∀ t, (q.timers.timer t).object = true → (q.timers.timer t).soft = false → q.phase ≠ .firing t →
    ((q.timers.timer t).activated = true ↔ t ∈ q.timers.low false)

/-- The timeout function of a one-shot timer returns, and has started the timer again. -/
def Restarted (q : HardSys) : HardAction → Prop
  | .finish => match q.phase with
    | .firing t => t ∈ q.timers.low false ∧ (q.timers.timer t).periodic = false
    | _ => False
  | _ => False

instance (q : HardSys) (a : HardAction) : Decidable (Restarted q a) := by
  unfold Restarted
  split
  · split <;> infer_instance
  · infer_instance

/-- The timers in the list, and those with the flag. -/
structure FlagInv (q : HardSys) : Prop where
  linked : ∀ t ∈ q.timers.low false, (q.timers.timer t).object = true ∧
    (q.timers.timer t).activated = true ∧ (q.timers.timer t).soft = false
  active : ∀ t, (q.timers.timer t).object = true → (q.timers.timer t).activated = true →
    (q.timers.timer t).soft = false → q.phase ≠ .firing t → t ∈ q.timers.low false

variable {S S' : TimerRun} {q q' : HardSys} {a : HardAction} {s s' : Timers} {t u : TimerId}
  {p : CheckPhase} {stamp : TimerId → Nat} {c : Nat}

theorem FlagInv.flagOk (i : FlagInv q) : FlagOk q := fun t h1 h2 h3 =>
  ⟨fun h => i.active t h1 h h2 h3, fun h => (i.linked t h).2.1⟩

/-- A timer that is started is in its list. -/
theorem start_mem (i : SkipInv s false stamp c) (h : s.rtTimerStart t = some s') :
    (∀ u, u ≠ t → (u ∈ s'.low false ↔ u ∈ s.low false)) ∧
      (t ∈ s'.low false ↔ (s.timer t).soft = false) := by
  have f := startFrame h
  by_cases hk : (s.timer t).soft = false
  · obtain ⟨s₁, A, B, h1, st⟩ := rtTimerStart_spec (by rw [hk]; exact i) f.object f.init
    obtain rfl := Option.some.inj (h.symm.trans h1)
    have hlow := st.low
    have hbefore := st.before
    rw [hk] at hlow hbefore
    have hmem : ∀ u, u ∈ s'.low false ↔ u = t ∨ u ∈ s.low false ∧ u ≠ t := fun u => by
      rw [← i.mem_remove, hbefore, hlow, List.mem_append, List.mem_cons, List.mem_append]
      tauto
    refine ⟨fun u hu => ?_, ?_⟩
    · rw [hmem u]
      simp [hu]
    · rw [hmem t]
      simp [hk]
  · obtain ⟨h1, h2⟩ := f.skipInv (k := false) (fun h => hk h.symm) i
    rw [h2]
    refine ⟨fun u _ => Iff.rfl, iff_of_false (fun h => hk (i.kind t h)) hk⟩

theorem FlagInv.start (i : FlagInv ⟨s, p⟩) (hs : SkipInv s false stamp c)
    (h : s.rtTimerStart t = some s') : FlagInv ⟨s', p⟩ := by
  have f := startFrame h
  obtain ⟨h1, h2⟩ := start_mem hs h
  refine ⟨fun u hu => ?_, fun u ho ha hsoft hp => ?_⟩
  · by_cases hut : u = t
    · subst hut
      dsimp only at hu ⊢
      rw [f.self]
      exact ⟨f.object, rfl, h2.mp hu⟩
    · dsimp only at hu ⊢
      rw [f.others u hut]
      exact i.linked u ((h1 u hut).mp hu)
  · by_cases hut : u = t
    · subst hut
      dsimp only at hsoft ⊢
      rw [f.self] at hsoft
      exact h2.mpr hsoft
    · dsimp only at ho ha hsoft ⊢
      rw [f.others u hut] at ho ha hsoft
      exact (h1 u hut).mpr (i.active u ho ha hsoft hp)

/-- A timer is removed, and its flag cleared or its object detached. -/
theorem FlagInv.remove (i : FlagInv ⟨s, p⟩) (hs : SkipInv s false stamp c) {f : Timer → Timer}
    (hf : ∀ x, (f x).object = true → (f x).activated = true → False) :
    FlagInv ⟨(s.timerRemove t).modify t f, p⟩ := by
  have hmem : ∀ u, u ∈ ((s.timerRemove t).modify t f).low false ↔ u ∈ s.low false ∧ u ≠ t :=
    fun u => hs.mem_remove
  refine ⟨fun u hu => ?_, fun u ho ha hsoft hp => ?_⟩
  · obtain ⟨h1, hut⟩ := (hmem u).mp hu
    dsimp only
    rw [modify_of_ne hut]
    exact i.linked u h1
  · by_cases hut : u = t
    · subst hut
      dsimp only at ho ha
      rw [modify_self] at ho ha
      exact absurd ha fun ha => hf _ ho ha
    · dsimp only at ho ha hsoft ⊢
      rw [modify_of_ne hut] at ho ha hsoft
      exact (hmem u).mpr ⟨i.active u ho ha hsoft hp, hut⟩

/-- A change of other fields than the flag. -/
theorem FlagInv.modify (i : FlagInv ⟨s, p⟩) {f : Timer → Timer}
    (hf : ∀ x, (f x).object = x.object ∧ (f x).activated = x.activated ∧ (f x).soft = x.soft) :
    FlagInv ⟨s.modify t f, p⟩ := by
  have hfield : ∀ u, ((s.modify t f).timer u).object = (s.timer u).object ∧
      ((s.modify t f).timer u).activated = (s.timer u).activated ∧
      ((s.modify t f).timer u).soft = (s.timer u).soft := fun u => by
    by_cases hu : u = t
    · rw [hu, modify_self]
      exact hf _
    · rw [modify_of_ne hu]
      exact ⟨rfl, rfl, rfl⟩
  refine ⟨fun u hu => ?_, fun u ho ha hsoft hp => ?_⟩
  · dsimp only
    rw [(hfield u).1, (hfield u).2.1, (hfield u).2.2]
    exact i.linked u hu
  · dsimp only at ho ha hsoft
    rw [(hfield u).1] at ho
    rw [(hfield u).2.1] at ha
    rw [(hfield u).2.2] at hsoft
    exact i.active u ho ha hsoft hp

theorem FlagInv.op {o : TimerOp} (i : FlagInv ⟨s, p⟩) (hs : SkipInv s false stamp c)
    (h : s.op o = some s') : FlagInv ⟨s', p⟩ := by
  cases o with
  | start t => exact i.start hs h
  | stop t =>
      obtain ⟨⟨e, s₁⟩, h1, rfl⟩ := Option.map_eq_some_iff.mp h
      unfold rtTimerStop at h1
      split_ifs at h1 <;> obtain ⟨-, rfl⟩ := Prod.mk.inj (Option.some.inj h1)
      · exact i
      · exact i.remove hs (f := fun x => { x with activated := false }) fun x _ ha => by cases ha
  | detach t =>
      simp only [Timers.op, rtTimerDetach] at h
      split_ifs at h
      obtain rfl := Option.some.inj h
      exact i.remove hs (f := fun x => { x with object := false }) fun x ho _ => by cases ho
  | control t cmd =>
      simp only [Timers.op, rtTimerControl] at h
      split_ifs at h
      obtain rfl := Option.some.inj h
      exact i.modify fun x => by cases cmd <;> exact ⟨rfl, rfl, rfl⟩

/-! ## The check -/

theorem HardSys.Init.flagInv (h : Init q) : FlagInv q := by
  have hlow : q.timers.low false = [] := h.rows false _
  refine ⟨fun t ht => ?_, fun t _ ha => ?_⟩
  · rw [hlow] at ht
    cases ht
  · rw [h.activated t] at ha
    cases ha

/-- The epilogue of the check, after a timeout function that did not start its one-shot timer. -/
theorem FlagInv.afterTimeout (i : FlagInv ⟨s, .firing t⟩) (hs : SkipInv s false stamp c)
    (hr : ¬ (t ∈ s.low false ∧ (s.timer t).periodic = false))
    (h : s.afterTimeout t = some s') : FlagInv ⟨s', p⟩ := by
  unfold Timers.afterTimeout at h
  split_ifs at h with hper
  · -- a periodic timer is started, whether or not it is in the list
    have hclear : SkipInv (s.setActivated t false) false stamp c := hs.modify fun _ => ⟨rfl, rfl⟩
    have f := startFrame h
    obtain ⟨h1, h2⟩ := start_mem hclear h
    have hself : ((s.setActivated t false).timer t).soft = (s.timer t).soft := by
      simp [setActivated]
    refine ⟨fun u hu => ?_, fun u ho ha hsoft _ => ?_⟩
    · by_cases hut : u = t
      · subst hut
        dsimp only at hu ⊢
        rw [f.self]
        exact ⟨f.object, rfl, h2.mp hu⟩
      · dsimp only at hu ⊢
        rw [f.others u hut, setActivated, modify_of_ne hut]
        exact i.linked u ((h1 u hut).mp hu)
    · by_cases hut : u = t
      · subst hut
        dsimp only at hsoft ⊢
        rw [f.self] at hsoft
        exact h2.mpr hsoft
      · dsimp only at ho ha hsoft ⊢
        rw [f.others u hut, setActivated, modify_of_ne hut] at ho ha hsoft
        exact (h1 u hut).mpr (i.active u ho ha hsoft fun he => hut (CheckPhase.firing.inj he).symm)
  · obtain rfl := Option.some.inj h
    have hnot : t ∉ s.low false := fun ht => by
      have hl := i.linked t ht
      cases hp : (s.timer t).periodic with
      | false => exact hr ⟨ht, hp⟩
      | true => exact hper ⟨hp, hl.2.1⟩
    refine ⟨fun u hu => ?_, fun u ho ha hsoft _ => ?_⟩
    · have hut : u ≠ t := fun he => hnot (he ▸ hu)
      dsimp only
      rw [setActivated, modify_of_ne hut]
      exact i.linked u hu
    · by_cases hut : u = t
      · subst hut
        dsimp only at ha
        rw [setActivated, modify_self] at ha
        cases ha
      · dsimp only at ho ha hsoft ⊢
        rw [setActivated, modify_of_ne hut] at ho ha hsoft
        exact i.active u ho ha hsoft fun he => hut (CheckPhase.firing.inj he).symm

/-- A one-shot timer in the list loses its flag. -/
theorem not_flagOk_of_restarted (fl : FlagInv S.sys) (h : S.sys.exec a = some q')
    (hr : Restarted S.sys a) : ¬ FlagOk q' := by
  -- only the return of a timeout function can restart
  cases a with
  | finish =>
      simp only [Restarted] at hr
      cases hp : S.sys.phase with
      | firing t =>
          rw [hp] at hr
          obtain ⟨ht, hone⟩ := hr
          simp only [HardSys.exec, hp, Timers.afterTimeout, hone, Bool.false_eq_true, false_and,
            if_false, Option.map_some] at h
          obtain rfl := Option.some.inj h
          intro hok
          obtain ⟨h1, -, h3⟩ := fl.linked t ht
          have hflag := (hok t (by simpa [setActivated] using h1)
            (by simpa [setActivated] using h3) (by simp)).mpr ht
          simp [setActivated] at hflag
      | _ =>
          rw [hp] at hr
          exact hr.elim
  | _ => exact hr.elim

/-- **One step keeps flags and list together**, unless it returns from a one-shot timer that is
started again. -/
theorem FlagInv.step (i : S.Inv) (fl : FlagInv S.sys) (h : S.sys.exec a = some q')
    (hr : ¬ Restarted S.sys a) : FlagInv q' := by
  obtain ⟨o, s, rfl, hp, ho, rfl⟩ | ⟨rfl, hp, rfl⟩ | ⟨cur, t, rfl, hp, hex, rfl⟩ |
    ⟨t, s, rfl, hp, hfin, rfl⟩ | ⟨cur, rfl, hp, hex, rfl⟩ := exec_cases h
  · exact fl.op i.skip ho
  · exact ⟨fl.linked, fun t ho ha hs _ => fl.active t ho ha hs (by simp [hp])⟩
  · have hmem : ∀ u, u ∈ (S.sys.timers.timerRemove t).low false ↔
        u ∈ S.sys.timers.low false ∧ u ≠ t := fun u => i.skip.mem_remove
    refine ⟨fun u hu => fl.linked u ((hmem u).mp hu).1, fun u ho ha hs hph => ?_⟩
    exact (hmem u).mpr ⟨fl.active u ho ha hs (by simp [hp]), fun he => hph (he ▸ rfl)⟩
  · have hr' : ¬ (t ∈ S.sys.timers.low false ∧ (S.sys.timers.timer t).periodic = false) := by
      simpa [Restarted, hp] using hr
    have fl' : FlagInv ⟨S.sys.timers, .firing t⟩ := hp ▸ fl
    exact fl'.afterTimeout i.skip hr' hfin
  · exact ⟨fl.linked, fun t ho ha hs _ => fl.active t ho ha hs (by simp [hp])⟩

/-! ## Runs -/

/-- A step that does not return from a one-shot timer that is started again. -/
def HardSys.KeepStep (q : HardSys) (a : HardAction) (q' : HardSys) : Prop :=
  q.exec a = some q' ∧ ¬ Restarted q a

/-- The starts can be numbered in every run. -/
theorem reachable_flagInv (h : Reachable HardSys.Init HardSys.KeepStep q) :
    ∃ S : TimerRun, S.sys = q ∧ S.Inv ∧ FlagInv q := by
  refine h.invariant (I := fun q => ∃ S : TimerRun, S.sys = q ∧ S.Inv ∧ FlagInv q)
    (fun q hi => ?_) fun q a q' _ hq hs => ?_
  · exact ⟨⟨q, fun _ => 0, 0⟩, rfl, TimerRun.Init.inv hi, hi.flagInv⟩
  · obtain ⟨S, rfl, i, fl⟩ := hq
    obtain ⟨S', hS'⟩ : ∃ S', S.exec a = some S' := by
      unfold TimerRun.exec
      rw [hs.1]
      exact ⟨_, rfl⟩
    have hsys : S'.sys = q' := Option.some.inj ((TimerRun.exec_some hS').1.symm.trans hs.1)
    exact ⟨S', hsys, i.step hS', fl.step i hs.1 hs.2⟩

/-- **Flag and list.** In the runs in which no timeout function returns with its one-shot timer
started again, a hard timer has the flag if and only if it is in the list, after every check, and
`rt_timer_stop` does not refuse a timer of the list; and from there a step keeps this if and only if
it is not such a return. -/
theorem flag_agrees (h : Reachable HardSys.Init HardSys.KeepStep q) :
    (q.phase = .idle → ∀ t, (q.timers.timer t).object = true → (q.timers.timer t).soft = false →
      ((q.timers.timer t).activated = true ↔ t ∈ q.timers.low false)) ∧
    (∀ t ∈ q.timers.low false, ∃ s, q.timers.rtTimerStop t = some (.ok, s)) ∧
    ∀ a q', q.exec a = some q' → (FlagOk q' ↔ ¬ Restarted q a) := by
  obtain ⟨S, rfl, i, fl⟩ := reachable_flagInv h
  refine ⟨fun hidle t ho hs => fl.flagOk t ho hs (by simp [hidle]), fun t ht => ?_,
    fun a q' hx => ⟨fun hok hr => not_flagOk_of_restarted fl hx hr hok, fun hr => ?_⟩⟩
  · obtain ⟨h1, h2, -⟩ := fl.linked t ht
    refine ⟨(S.sys.timers.timerRemove t).setActivated t false, ?_⟩
    unfold rtTimerStop
    rw [if_pos h1, if_neg (by simp [h2])]
  · exact (fl.step i hx hr).flagOk

end

/-! ## A timer that cannot be stopped -/

/-- One row. -/
abbrev oneRow : TimerConfig := ⟨1, 1, Nat.one_pos, Or.inl rfl⟩

attribute [local instance] oneRow

/-- Hard timers with one tick to go, none of them started. -/
def idleTimers (periodic : Bool) : HardSys where
  timers :=
    { tick := 0xffffffff
      timer := fun _ => ⟨true, false, periodic, false, 1, 0⟩
      rows := fun _ _ => []
      randomNr := 0 }
  phase := .idle

theorem idleTimers_init {b : Bool} : (idleTimers b).Init :=
  ⟨fun _ _ => rfl, fun _ => rfl, rfl⟩

/-- Timer 0 is started, and a tick later its timeout function starts timer 1 and converts timer 0. -/
def convertInCallback : List HardAction :=
  [.op (.start 0), .tick, .select, .op (.start 1), .op (.control 0 .setOneshot),
    .finish, .leave]

theorem flag_agrees_convert : ∃ q,
    runList (stepIf HardSys.exec fun q a => ¬ Restarted q a) (idleTimers true) convertInCallback =
      some q ∧ q.timers.low false = [1] ∧
    ((q.timers.timer 0).activated = true ↔ 0 ∈ q.timers.low false) ∧
    ∃ s, q.timers.rtTimerStop 1 = some (.ok, s) := by
  have hrun : (runList (stepIf HardSys.exec fun q a => ¬ Restarted q a) (idleTimers true)
      convertInCallback).map (fun q => (q.phase, q.timers.low false, (q.timers.timer 0).object,
        (q.timers.timer 0).soft)) = some (.idle, [1], true, false) := by
    decide +kernel
  obtain ⟨q, hq, he⟩ := Option.map_eq_some_iff.mp hrun
  obtain ⟨hp, hl, ho, hs⟩ : _ ∧ _ ∧ _ ∧ _ := by simpa using he
  obtain ⟨h1, h2, -⟩ := flag_agrees (reachable_of_runList_stepIf idleTimers_init hq)
  exact ⟨q, hq, hl, h1 hp 0 ho hs, h2 1 (by simp [hl])⟩

/-- The timeout function of timer 0 starts timer 0. -/
def startInCallback : List HardAction :=
  [.op (.start 0), .tick, .select, .op (.start 0), .finish, .leave]

/-- The timer is in the list without the flag: `rt_timer_stop` refuses it, and it fires again. -/
theorem flag_lost : ∃ q, Reachable HardSys.Init (fun q a q' => q.exec a = some q') q ∧
    q.phase = .idle ∧ (q.timers.timer 0).object = true ∧ (q.timers.timer 0).soft = false ∧
    0 ∈ q.timers.low false ∧ (q.timers.timer 0).activated = false ∧
    q.timers.rtTimerStop 0 = some (.error, q.timers) ∧
    ∃ q', runList HardSys.exec q [.op (.stop 0), .tick, .select] = some q' ∧
      q'.phase = .firing 0 := by
  have hrun : (runList HardSys.exec (idleTimers false) startInCallback).bind (fun q =>
      (runList HardSys.exec q [.op (.stop 0), .tick, .select]).map fun q' =>
        (q.phase, (q.timers.timer 0).object, (q.timers.timer 0).soft, q.timers.low false,
          (q.timers.timer 0).activated, q'.phase)) =
      some (.idle, true, false, [0], false, .firing 0) := by
    decide +kernel
  obtain ⟨q, hq, hrun⟩ := Option.bind_eq_some_iff.mp hrun
  obtain ⟨q', hq', he⟩ := Option.map_eq_some_iff.mp hrun
  obtain ⟨hp, ho, hs, hl, ha, hp'⟩ : _ ∧ _ ∧ _ ∧ _ ∧ _ ∧ _ := by simpa using he
  refine ⟨q, reachable_of_runList (.init idleTimers_init) hq, hp, ho, hs, by simp [hl], ha, ?_,
    q', hq', hp'⟩
  unfold rtTimerStop
  rw [if_pos ho, if_pos ha]

end RTThread
