import RTThread.Timer.Expiry

set_option autoImplicit false

/-! # The loop of `rt_timer_check` ends

A check calls the timeout function of the first timer of the list until this timer is not over. A
periodic timer is started again at once, so the list need not get shorter. What gets smaller is the
number of timers that are over: a timer that is started with a tick to go is not. `rt_timer_init` and
`rt_timer_control` take any time, however. A periodic timer without a tick to go is over again as
soon as it is started, and the loop does not end; with `RT_TICK_MAX / 2` ticks or more the assertion
of `rt_timer_start` stops the system in the loop.
-/

namespace RTThread

open Trans Timers

section

variable [TimerConfig]

/-- The timer can be started, and is not over at once. -/
def Timers.Renewable (s : Timers) (t : TimerId) : Prop :=
  (s.timer t).object = true ∧ 1 ≤ (s.timer t).initTick.toNat ∧
    (s.timer t).initTick.toNat < RT_TICK_MAX / 2

instance decidableRenewable (s : Timers) (t : TimerId) : Decidable (s.Renewable t) :=
  instDecidableAnd

namespace HardSys

/-- A step of a check: no tick passes, and a timeout function starts no timer but its own. -/
def InCheck (q : HardSys) : HardAction → Prop
  | .tick => False
  | .op (.start t) => q.phase = .firing t
  | _ => True

/-- A step that starts a timer starts a renewable one. -/
def Renews (q : HardSys) (a : HardAction) : Prop := ∀ t ∈ q.starts a, q.timers.Renewable t

instance decidableInCheck (q : HardSys) : (a : HardAction) → Decidable (q.InCheck a)
  | .tick => inferInstanceAs (Decidable False)
  | .op (.start t) => inferInstanceAs (Decidable (q.phase = .firing t))
  | .op (.stop _) | .op (.detach _) | .op (.control ..) => inferInstanceAs (Decidable True)
  | .select | .finish | .leave => inferInstanceAs (Decidable True)

instance decidableRenews (q : HardSys) (a : HardAction) : Decidable (q.Renews a) :=
  inferInstanceAs (Decidable (∀ t ∈ q.starts a, q.timers.Renewable t))

/-- A step of a check that starts no timer but renewable ones. -/
def Drains (q : HardSys) (a : HardAction) : Prop := q.InCheck a ∧ q.Renews a

instance decidableDrains (q : HardSys) (a : HardAction) : Decidable (q.Drains a) :=
  instDecidableAnd

/-- The step calls a timeout function. -/
def calls : HardAction → Bool
  | .select => true
  | _ => false

/-- The hard timers that are over. -/
def overdue (s : Timers) : Nat := (s.low false).countP (s.due s.tick)

/-- The check leaves its loop, after some rounds in which the timeout functions call no timer
function. -/
def Ends (q : HardSys) : Prop :=
  ∃ n q', runList exec q (FireRun.rounds n ++ [.leave]) = some q'

variable {q q' : HardSys} {a : HardAction} {s s' : Timers} {t u : TimerId} {S : TimerRun}
  {current : Tick} {stamp : TimerId → Nat} {c : Nat}

/-! ## The list of a timer -/

theorem afterTimeout_cases (h : s.afterTimeout t = some s') :
    ((s.timer t).periodic = true ∧ (s.timer t).activated = true ∧
      (s.setActivated t false).rtTimerStart t = some s') ∨
    ¬ ((s.timer t).periodic = true ∧ (s.timer t).activated = true) ∧
      s' = s.setActivated t false := by
  unfold afterTimeout at h
  split_ifs at h with hper
  · exact Or.inl ⟨hper.1, hper.2, h⟩
  · exact Or.inr ⟨hper, (Option.some.inj h).symm⟩

omit [TimerConfig] in
theorem setActivated_others {b : Bool} (hu : u ≠ t) : (s.setActivated t b).timer u = s.timer u :=
  modify_of_ne hu

/-- Only the timer itself changes when its timeout function returns. -/
theorem afterTimeout_others (h : s.afterTimeout t = some s') (hu : u ≠ t) :
    s'.timer u = s.timer u := by
  rcases afterTimeout_cases h with ⟨-, -, h⟩ | ⟨-, rfl⟩
  · exact ((startFrame h).others u hu).trans (setActivated_others hu)
  · exact setActivated_others hu

theorem afterTimeout_tick (h : s.afterTimeout t = some s') : s'.tick = s.tick := by
  rcases afterTimeout_cases h with ⟨-, -, h⟩ | ⟨-, rfl⟩
  · exact (startFrame h).tick
  · rfl

/-- A timer that is started again is hard as before, and has as many ticks to go as it had. -/
theorem afterTimeout_self (h : s.afterTimeout t = some s') (hp : (s.timer t).periodic = true)
    (ha : (s.timer t).activated = true) : s'.timer t = { s.timer t with
      activated := true, timeoutTick := s.tick + (s.timer t).initTick } := by
  rcases afterTimeout_cases h with ⟨-, -, h⟩ | ⟨hper, -⟩
  · have f := (startFrame h).self
    rw [f]
    simp [setActivated, Timers.modify]
  · exact absurd ⟨hp, ha⟩ hper

theorem op_soft {o : TimerOp} (h : s.op o = some s') : (s'.timer u).soft = (s.timer u).soft := by
  rcases op_cases h with ⟨t, -, hs⟩ | ⟨-, l⟩
  · by_cases hu : u = t
    · rw [hu, (startFrame hs).self]
    · rw [(startFrame hs).others u hu]
  · by_cases hu : u = o.timer
    · rw [hu, l.self.1]
    · rw [l.others u hu]

/-- The starts can be numbered in every run, and the check fires hard timers. -/
theorem reachable_numbered (h : Reachable Init (fun q a q' => q.exec a = some q') q) :
    ∃ S : TimerRun, S.sys = q ∧ S.Inv ∧
      ∀ t, q.phase = .firing t → (q.timers.timer t).soft = false := by
  refine h.invariant (I := fun q => ∃ S : TimerRun, S.sys = q ∧ S.Inv ∧
    ∀ t, q.phase = .firing t → (q.timers.timer t).soft = false) (fun q hi => ?_)
    fun q a q' _ hq hx => ?_
  · refine ⟨⟨q, fun _ => 0, 0⟩, rfl, TimerRun.Init.inv hi, fun t ht => ?_⟩
    rw [hi.phase] at ht
    cases ht
  · obtain ⟨S, rfl, i, hsoft⟩ := hq
    obtain ⟨S', hS', hsys⟩ := TimerRun.exec_of_sys hx
    refine ⟨S', hsys, i.step hS', fun t ht => ?_⟩
    obtain ⟨o, s, rfl, -, ho, rfl⟩ | ⟨rfl, hp, rfl⟩ | ⟨cur, u, rfl, hp, hex, rfl⟩ |
      ⟨u, s, rfl, hp, hfin, rfl⟩ | ⟨cur, rfl, hp, hex, rfl⟩ := exec_cases hx
    · rw [op_soft ho]
      exact hsoft t ht
    · cases ht
    · obtain rfl := CheckPhase.firing.inj ht
      obtain ⟨⟨l, hl⟩, -⟩ := expired_some hex
      refine i.skip.kind u ?_
      rw [hl]
      exact List.mem_cons_self
    · cases ht
    · cases ht

/-! ## The timers that are over -/

/-- **A step of a check leaves fewer timers over**, when it calls a timeout function, and no more
otherwise. -/
theorem overdue_step (i : S.Inv) (h : S.sys.exec a = some q') (hd : S.sys.Drains a) :
    (if calls a then 1 else 0) + overdue q'.timers ≤ overdue S.sys.timers := by
  obtain ⟨hc, hr⟩ := hd
  obtain ⟨o, s, rfl, -, ho, rfl⟩ | ⟨rfl, -, -⟩ | ⟨cur, t, rfl, hp, hex, rfl⟩ |
    ⟨t, s, rfl, hp, hfin, rfl⟩ | ⟨cur, rfl, -, -, rfl⟩ := exec_cases h
  · simp only [calls, Bool.false_eq_true, if_false, Nat.zero_add]
    rcases op_cases ho with ⟨t, rfl, hs⟩ | ⟨-, l⟩
    · exact countP_due_start hs (hr t rfl).2.1
    · refine countP_due_le ?_ l.tick fun u => ?_
      · rcases l.rows with hrow | hrow
        · rw [low, hrow]
          exact List.Sublist.refl _
        · rw [low, hrow]
          exact List.erase_sublist
      · by_cases hu : u = o.timer
        · rw [hu, l.self.2]
        · rw [l.others u hu]
  · exact hc.elim
  · obtain ⟨⟨l, hl⟩, hdue⟩ := expired_some hex
    rw [i.checking cur hp] at hdue
    have herase : overdue (S.sys.timers.timerRemove t) = l.countP
        (S.sys.timers.due S.sys.timers.tick) := by
      change ((S.sys.timers.low false).erase t).countP _ = _
      rw [hl, List.erase_cons_head]
      rfl
    rw [herase, overdue, hl, List.countP_cons_of_pos hdue]
    simp only [calls, if_true]
    omega
  · simp only [calls, Bool.false_eq_true, if_false, Nat.zero_add]
    have hle : overdue (S.sys.timers.setActivated t false) ≤ overdue S.sys.timers := by
      refine countP_due_le (List.Sublist.refl _) rfl fun u => ?_
      by_cases hu : u = t
      · rw [hu, setActivated, modify_self]
      · rw [setActivated_others hu]
    rcases afterTimeout_cases hfin with ⟨hper, hact, hs⟩ | ⟨-, rfl⟩
    · have hren : S.sys.timers.Renewable t := hr t (by simp [starts, hp, hper, hact])
      refine (countP_due_start hs ?_).trans hle
      rw [FireRun.initTick_setActivated]
      exact hren.2.1
    · exact hle
  · simp [calls]

/-- A check calls a timeout function for each timer that is over, at most. -/
theorem calls_le_overdue {l : List HardAction} (i : S.Inv)
    (h : runList (stepIf exec Drains) S.sys l = some q') : l.countP calls ≤ overdue S.sys.timers := by
  induction l generalizing S with
  | nil => exact Nat.zero_le _
  | cons a l ih =>
      obtain ⟨q₁, hq₁, hl⟩ := Option.bind_eq_some_iff.mp h
      obtain ⟨hx, hd⟩ := stepIf_some.mp hq₁
      obtain ⟨S₁, hS₁, rfl⟩ := TimerRun.exec_of_sys hx
      have hstep := overdue_step i hx hd
      have hrest := ih (i.step hS₁) hl
      rw [List.countP_cons]
      omega

/-! ## The loop goes on -/

/-- At the head of the loop, the check goes round it or leaves. -/
theorem checking_progress (hp : q.phase = .checking current) :
    (q.exec .select).isSome = true ∨ (q.exec .leave).isSome = true := by
  cases hex : expired q.timers current with
  | none =>
      refine Or.inr ?_
      simp [exec, hp, hex]
  | some t =>
      refine Or.inl ?_
      simp [exec, hp, hex]

theorem afterTimeout_isSome (i : SkipInv s false stamp c) (hs : (s.timer t).soft = false)
    (hr : (s.timer t).periodic = true → (s.timer t).activated = true → s.Renewable t) :
    ∃ s', s.afterTimeout t = some s' := by
  unfold afterTimeout
  split_ifs with hper
  · obtain ⟨ho, -, hi⟩ := hr hper.1 hper.2
    have hself : (s.setActivated t false).timer t = { s.timer t with activated := false } :=
      modify_self
    obtain ⟨s', -, -, hs', -⟩ := rtTimerStart_spec (s := s.setActivated t false) (t := t)
      (by rw [hself]; exact hs ▸ FireRun.skipInv_setActivated i) (by rw [hself]; exact ho)
      (by rw [hself]; exact hi)
    exact ⟨s', hs'⟩
  · exact ⟨_, rfl⟩

omit [TimerConfig] in
theorem renews_finish (hp : q.phase = .firing t) (hr : q.Renews .finish)
    (hper : (q.timers.timer t).periodic = true) (hact : (q.timers.timer t).activated = true) :
    q.timers.Renewable t :=
  hr t (by simp [starts, hp, hper, hact])

/-- When a timeout function returns, the loop goes on. -/
theorem finish_progress (i : S.Inv) (hp : S.sys.phase = .firing t)
    (hs : (S.sys.timers.timer t).soft = false) (hr : S.sys.Renews .finish) :
    (S.sys.exec .finish).isSome = true := by
  obtain ⟨s', hs'⟩ := afterTimeout_isSome i.skip hs (renews_finish hp hr)
  simp [exec, hp, hs']

/-! ## A timer that is not renewable -/

/-- The timer is over, and is started again when its timeout function returns, but is not
renewable. -/
structure Blocks (s : Timers) (t : TimerId) : Prop where
  mem : t ∈ s.low false
  due : s.due s.tick t = true
  periodic : (s.timer t).periodic = true
  activated : (s.timer t).activated = true
  bad : ¬ s.Renewable t

/-- A timer without a tick to go is over as soon as it is started. -/
theorem Blocks.restart (b : Blocks s t) (i : SkipInv s false stamp c)
    (hs : (s.timerRemove t).afterTimeout t = some s') : Blocks s' t := by
  have hself := afterTimeout_self hs b.periodic b.activated
  rcases afterTimeout_cases hs with ⟨-, -, hstart⟩ | ⟨hper, -⟩
  · have f := startFrame hstart
    have hfield : ((s.timerRemove t).setActivated t false).timer t =
        { s.timer t with activated := false } := modify_self
    have ho := f.object
    have hi := f.init
    rw [hfield] at ho hi
    have hzero : (s.timer t).initTick.toNat = 0 := by
      by_contra hne
      exact b.bad ⟨ho, Nat.one_le_iff_ne_zero.mpr hne, hi⟩
    refine ⟨?_, ?_, by rw [hself]; exact b.periodic, by rw [hself], fun hr => ?_⟩
    · refine (start_mem (FireRun.skipInv_setActivated (i.remove t)) hstart).2.mpr ?_
      rw [hfield]
      exact i.kind t b.mem
    · unfold Timers.due
      rw [hself, afterTimeout_tick hs, decide_eq_true_eq]
      have hz : (s.timer t).initTick = 0 := BitVec.eq_of_toNat_eq hzero
      change (s.tick - (s.tick + (s.timer t).initTick)).toNat < _
      rw [hz]
      simp [RT_TICK_MAX]
    · have h1 := hr.2.1
      rw [hself] at h1
      exact absurd hzero (Nat.one_le_iff_ne_zero.mp h1)
  · exact absurd ⟨b.periodic, b.activated⟩ hper

/-- The loop goes round for another timer. -/
theorem Blocks.other (b : Blocks s t) (i : SkipInv s false stamp c) (hu : t ≠ u)
    (hs : (s.timerRemove u).afterTimeout u = some s') : Blocks s' t := by
  have hother : s'.timer t = s.timer t := (afterTimeout_others hs hu).trans rfl
  have hmem : t ∈ (s.timerRemove u).low false := i.mem_remove.mpr ⟨b.mem, hu⟩
  refine ⟨?_, ?_, by rw [hother]; exact b.periodic, by rw [hother]; exact b.activated, fun hr => ?_⟩
  · rcases afterTimeout_cases hs with ⟨-, -, hstart⟩ | ⟨-, rfl⟩
    · exact ((start_mem (FireRun.skipInv_setActivated (i.remove u)) hstart).1 t hu).mpr hmem
    · exact hmem
  · unfold Timers.due
    rw [hother, afterTimeout_tick hs]
    exact b.due
  · unfold Renewable at hr
    rw [hother] at hr
    exact b.bad hr

/-- A round of the loop. -/
theorem round_cases (hp : q.phase = .checking current)
    (h : runList exec q [.select, .finish] = some q') :
    ∃ t s, expired q.timers current = some t ∧ (q.timers.timerRemove t).afterTimeout t = some s ∧
      q' = ⟨s, .checking s.tick⟩ := by
  obtain ⟨q₁, hq₁, h⟩ := Option.bind_eq_some_iff.mp h
  obtain ⟨q₂, hq₂, h⟩ := Option.bind_eq_some_iff.mp h
  obtain rfl := Option.some.inj h
  simp only [exec, hp] at hq₁
  obtain ⟨t, ht, rfl⟩ := Option.map_eq_some_iff.mp hq₁
  simp only [exec] at hq₂
  obtain ⟨s, hs, rfl⟩ := Option.map_eq_some_iff.mp hq₂
  exact ⟨t, s, ht, hs, rfl⟩

/-- Such a timer stays as long as the loop goes round. -/
theorem Blocks.round (b : Blocks S.sys.timers t) (i : S.Inv) (hp : S.sys.phase = .checking current)
    (h : runList exec S.sys [.select, .finish] = some q') :
    Blocks q'.timers t ∧ ∃ current', q'.phase = .checking current' := by
  obtain ⟨u, s, -, hs, rfl⟩ := round_cases hp h
  refine ⟨?_, _, rfl⟩
  by_cases hu : t = u
  · subst hu
    exact b.restart i.skip hs
  · exact b.other i.skip hu hs

theorem Blocks.not_leave (b : Blocks S.sys.timers t) (i : S.Inv)
    (hp : S.sys.phase = .checking current) : S.sys.exec .leave = none := by
  have hsome : expired S.sys.timers current ≠ none := fun hnone => by
    rw [i.checking current hp] at hnone
    rcases expired_none hnone with hnil | ⟨u, l, hl, hd⟩
    · have hm := b.mem
      rw [hnil] at hm
      cases hm
    · have h2 := TimerRun.not_due_of_head i.skip hl hd t b.mem
      have h1 := (due_iff (i.skip.window t b.mem)).mp b.due
      omega
  simp only [exec, hp]
  exact if_neg hsome

/-- No number of rounds brings the check to the end of the list. -/
theorem Blocks.not_ends (b : Blocks S.sys.timers t) (i : S.Inv)
    (hp : S.sys.phase = .checking current) : ¬ S.sys.Ends := by
  rintro ⟨n, q', h⟩
  induction n generalizing S current with
  | zero =>
      obtain ⟨q₁, hq₁, -⟩ := Option.bind_eq_some_iff.mp h
      rw [b.not_leave i hp] at hq₁
      cases hq₁
  | succ n ih =>
      rw [FireRun.rounds, List.replicate_succ, List.flatten_cons, List.append_assoc,
        runList_append] at h
      obtain ⟨q₁, hq₁, h⟩ := Option.bind_eq_some_iff.mp h
      obtain ⟨S₁, i₁, rfl⟩ : ∃ S₁ : TimerRun, S₁.Inv ∧ S₁.sys = q₁ := i.run hq₁
      obtain ⟨b₁, current₁, hp₁⟩ := b.round i hp hq₁
      exact ih b₁ i₁ hp₁ h

/-! ## All timers that are started again are renewable -/

/-- What is over and started again after a round was so before. -/
theorem renewable_round (i : SkipInv s false stamp c) (ht : t ∈ s.low false)
    (hr : ∀ u ∈ s.low false, s.due s.tick u = true → (s.timer u).periodic = true →
      (s.timer u).activated = true → s.Renewable u) (hd : s.due s.tick t = true)
    (hs : (s.timerRemove t).afterTimeout t = some s') :
    ∀ u ∈ s'.low false, s'.due s'.tick u = true → (s'.timer u).periodic = true →
      (s'.timer u).activated = true → s'.Renewable u := by
  intro u hu hdu hper hact
  by_cases hut : u = t
  · -- the timer itself is not over, or not in the list
    subst hut
    rcases afterTimeout_cases hs with ⟨hp, ha, hstart⟩ | ⟨-, rfl⟩
    · have hren := hr u ht hd hp ha
      have hnot := not_due_of_start (startFrame hstart) (by
        rw [FireRun.initTick_setActivated]
        exact hren.2.1)
      rw [hnot] at hdu
      cases hdu
    · exact absurd rfl (i.mem_remove.mp hu).2
  · have hother : s'.timer u = s.timer u := (afterTimeout_others hs hut).trans rfl
    have hmem : u ∈ s.low false := by
      rcases afterTimeout_cases hs with ⟨-, -, hstart⟩ | ⟨-, rfl⟩
      · exact (i.mem_remove.mp
          (((start_mem (FireRun.skipInv_setActivated (i.remove t)) hstart).1 u hut).mp hu)).1
      · exact (i.mem_remove.mp hu).1
    unfold Timers.due at hdu
    rw [hother, afterTimeout_tick hs] at hdu
    rw [hother] at hper hact
    unfold Renewable
    rw [hother]
    exact hr u hmem hdu hper hact

/-- The check ends: each round leaves fewer timers over. -/
theorem ends_of_renewable (i : S.Inv) (hp : S.sys.phase = .checking current)
    (hr : ∀ u ∈ S.sys.timers.low false, S.sys.timers.due S.sys.timers.tick u = true →
      (S.sys.timers.timer u).periodic = true → (S.sys.timers.timer u).activated = true →
      S.sys.timers.Renewable u) : S.sys.Ends := by
  induction hn : overdue S.sys.timers using Nat.strong_induction_on generalizing S current with
  | h m ih =>
      have hcur := i.checking current hp
      cases hex : expired S.sys.timers current with
      | none =>
          refine ⟨0, ⟨S.sys.timers, .idle⟩, ?_⟩
          simp [FireRun.rounds, runList, exec, hp, hex]
      | some t =>
          obtain ⟨⟨l, hl⟩, hdue⟩ := expired_some hex
          rw [hcur] at hdue
          have ht : t ∈ S.sys.timers.low false := by
            rw [hl]
            exact List.mem_cons_self
          have hsel : S.sys.exec .select = some ⟨S.sys.timers.timerRemove t, .firing t⟩ := by
            simp only [exec, hp]
            exact Option.map_eq_some_iff.mpr ⟨t, hex, rfl⟩
          obtain ⟨S₁, hS₁, hsys₁⟩ := TimerRun.exec_of_sys hsel
          have i₁ := i.step hS₁
          have hren : S₁.sys.Renews .finish := by
            intro u hu
            rw [hsys₁] at hu ⊢
            simp only [starts] at hu
            split_ifs at hu with hper
            · obtain rfl := Option.some.inj hu
              exact hr t ht hdue hper.1 hper.2
            · cases hu
          have hskip₁ := i₁.skip
          rw [hsys₁] at hskip₁
          obtain ⟨s, hs⟩ := afterTimeout_isSome hskip₁ (i.skip.kind t ht) (hr t ht hdue)
          have hfin : S₁.sys.exec .finish = some ⟨s, .checking s.tick⟩ := by
            rw [hsys₁]
            simp only [exec, hs, Option.map_some]
          obtain ⟨S₂, hS₂, hsys₂⟩ := TimerRun.exec_of_sys hfin
          have hless : overdue S₂.sys.timers < m := by
            have h1 := overdue_step i hsel ⟨trivial, fun u hu => by cases hu⟩
            have h2 := overdue_step i₁ hfin ⟨trivial, hren⟩
            rw [hsys₁] at h2
            rw [hsys₂]
            dsimp only at h1 h2 ⊢
            simp only [calls, if_true, Bool.false_eq_true, if_false] at h1 h2
            omega
          have hp₂ : S₂.sys.phase = .checking s.tick := by rw [hsys₂]
          obtain ⟨n, q', hend⟩ := ih _ hless (i₁.step hS₂) hp₂
            (by rw [hsys₂]; exact renewable_round i.skip ht hr hdue hs) rfl
          refine ⟨n + 1, q', ?_⟩
          rw [FireRun.rounds, List.replicate_succ, List.flatten_cons, List.append_assoc]
          simp only [List.cons_append, List.nil_append, runList, hsel, Option.bind_some]
          rw [← hsys₁, hfin, Option.bind_some, ← hsys₂]
          exact hend

/-- **The loop of `rt_timer_check`.** In a check whose steps start no timer but renewable ones, a
timeout function is called for each timer that is over, at most, and the loop is never stuck. When the
timeout functions call no timer function, the loop ends if and only if every timer that is over, and
is to be started again, is renewable. -/
theorem check_loop_ends (h : Reachable Init (fun q a q' => q.exec a = some q') q)
    (hp : q.phase = .checking current) :
    (∀ l q', runList (stepIf exec Drains) q l = some q' →
      l.countP calls ≤ overdue q.timers ∧
      (∀ c, q'.phase = .checking c →
        (q'.exec .select).isSome = true ∨ (q'.exec .leave).isSome = true) ∧
      ∀ t, q'.phase = .firing t → q'.Renews .finish → (q'.exec .finish).isSome = true) ∧
    (q.Ends ↔ ∀ t ∈ q.timers.low false, q.timers.due current t = true →
      (q.timers.timer t).periodic = true → (q.timers.timer t).activated = true →
      q.timers.Renewable t) := by
  obtain ⟨S, rfl, i, -⟩ := reachable_numbered h
  refine ⟨fun l q' hl => ⟨calls_le_overdue i hl, fun c hc => checking_progress hc,
    fun t ht hr => ?_⟩, fun hends t ht hd hper hact => ?_, fun hr => ?_⟩
  · have hrun : runList exec S.sys l = some q' :=
      runList_mono (fun s a s' hs => (stepIf_some.mp hs).1) hl
    obtain ⟨S', rfl, i', hsoft⟩ := reachable_numbered (reachable_of_runList h hrun)
    exact finish_progress i' ht (hsoft t ht) hr
  · by_contra hbad
    rw [i.checking current hp] at hd
    exact Blocks.not_ends ⟨ht, hd, hper, hact, hbad⟩ i hp hends
  · rw [i.checking current hp] at hr
    exact ends_of_renewable i hp hr

/-- A timer without a tick to go, alone in the list, is fired again and again. -/
theorem Blocks.again (b : Blocks S.sys.timers t) (i : S.Inv) (hp : S.sys.phase = .checking current)
    (hl : S.sys.timers.low false = [t]) (ho : (S.sys.timers.timer t).object = true)
    (hz : (S.sys.timers.timer t).initTick = 0) :
    ∃ q', runList exec S.sys [.select, .finish] = some q' ∧ q'.timers.low false = [t] ∧
      (q'.timers.timer t).object = true ∧ (q'.timers.timer t).initTick = 0 := by
  have hex : expired S.sys.timers current = some t := by
    rw [i.checking current hp, expired, hl]
    simp [b.due]
  have hself : ((S.sys.timers.timerRemove t).setActivated t false).timer t =
      { S.sys.timers.timer t with activated := false } := modify_self
  have hsoft := i.skip.kind t b.mem
  obtain ⟨s', A, B, hs', st⟩ := rtTimerStart_spec
    (s := (S.sys.timers.timerRemove t).setActivated t false) (t := t)
    (by rw [hself]; exact hsoft ▸ FireRun.skipInv_setActivated (i.skip.remove t))
    (by rw [hself]; exact ho) (by rw [hself]; dsimp only; rw [hz]; decide)
  have hafter : (S.sys.timers.timerRemove t).afterTimeout t = some s' := by
    unfold afterTimeout
    exact (if_pos ⟨b.periodic, b.activated⟩).trans hs'
  have hempty : A ++ B = [] := by
    refine st.before.symm.trans ?_
    rw [hself]
    dsimp only
    rw [hsoft]
    change ((S.sys.timers.low false).erase t).erase t = []
    rw [hl, List.erase_cons_head, List.erase_nil]
  obtain ⟨rfl, rfl⟩ := List.append_eq_nil_iff.mp hempty
  have hlow := st.low
  rw [hself] at hlow
  dsimp only at hlow
  rw [hsoft] at hlow
  have hnew := afterTimeout_self hafter b.periodic b.activated
  refine ⟨⟨s', .checking s'.tick⟩, ?_, hlow, by rw [hnew]; exact ho, by rw [hnew]; exact hz⟩
  simp [runList, exec, hp, hex, hafter]

theorem Blocks.any_rounds (b : Blocks S.sys.timers t) (i : S.Inv)
    (hp : S.sys.phase = .checking current) (hl : S.sys.timers.low false = [t])
    (ho : (S.sys.timers.timer t).object = true) (hz : (S.sys.timers.timer t).initTick = 0) (n : Nat) :
    ∃ q', runList exec S.sys (FireRun.rounds n) = some q' := by
  induction n generalizing S current with
  | zero => exact ⟨S.sys, rfl⟩
  | succ n ih =>
      obtain ⟨q₁, hq₁, hl₁, ho₁, hz₁⟩ := b.again i hp hl ho hz
      obtain ⟨S₁, i₁, rfl⟩ := i.run hq₁
      obtain ⟨b₁, current₁, hp₁⟩ := b.round i hp hq₁
      obtain ⟨q', hq'⟩ := ih b₁ i₁ hp₁ hl₁ ho₁ hz₁
      refine ⟨q', ?_⟩
      rw [FireRun.rounds, List.replicate_succ, List.flatten_cons, runList_append, hq₁]
      exact hq'

end HardSys

end

/-! ## A timer without a tick to go -/

attribute [local instance] oneRow

/-- Periodic hard timers with a number of ticks to go, none of them started. -/
def everyTicks (ticks : Tick) : HardSys where
  timers :=
    { tick := 0xffffffff
      timer := fun _ => ⟨true, false, true, false, ticks, 0⟩
      rows := fun _ _ => []
      randomNr := 0 }
  phase := .idle

theorem everyTicks_init {ticks : Tick} : (everyTicks ticks).Init :=
  ⟨fun _ _ => rfl, fun _ => rfl, rfl⟩

/-- Two timers are started, and a tick later the check begins. -/
def startBoth : List HardAction := [.op (.start 0), .op (.start 1), .tick]

/-- With one tick to go both are over, and the check calls two timeout functions at most. -/
theorem check_loop_ends_two : ∃ q, runList HardSys.exec (everyTicks 1) startBoth = some q ∧
    HardSys.overdue q.timers = 2 ∧ q.Ends ∧
    ∀ l q', runList (stepIf HardSys.exec HardSys.Drains) q l = some q' →
      l.countP HardSys.calls ≤ 2 := by
  have hrun : (runList HardSys.exec (everyTicks 1) startBoth).map (fun q =>
      (q.phase, HardSys.overdue q.timers, q.timers.low false,
        decide (q.timers.Renewable 0 ∧ q.timers.Renewable 1))) =
      some (.checking 0, 2, [0, 1], true) := by
    decide +kernel
  obtain ⟨q, hq, he⟩ := Option.map_eq_some_iff.mp hrun
  obtain ⟨hp, ho, hl, hr⟩ : _ ∧ _ ∧ _ ∧ _ := by simpa using he
  obtain ⟨h1, h2⟩ := HardSys.check_loop_ends (reachable_of_runList (.init everyTicks_init) hq) hp
  refine ⟨q, hq, ho, h2.mpr fun t ht _ _ _ => ?_, fun l q' hl' => ho ▸ (h1 l q' hl').1⟩
  rw [hl] at ht
  rcases List.mem_cons.mp ht with rfl | ht
  · exact hr.1
  · obtain rfl := List.mem_singleton.mp ht
    exact hr.2

/-- A timer is started, and a tick later the check begins. -/
def startOne : List HardAction := [.op (.start 0), .tick]

/-- A periodic timer with the time 0: the loop goes round any number of times, and never ends. -/
theorem check_loop_goes_on : ∃ q,
    Reachable HardSys.Init (fun q a q' => q.exec a = some q') q ∧ q.phase = .checking 0 ∧
    (∀ n, ∃ q', runList HardSys.exec q (FireRun.rounds n) = some q') ∧ ¬ q.Ends := by
  have hrun : (runList HardSys.exec (everyTicks 0) startOne).map (fun q =>
      (q.phase, q.timers.low false, q.timers.due q.timers.tick 0, q.timers.timer 0)) =
      some (.checking 0, [0], true, ⟨true, true, true, false, 0, 0xffffffff⟩) := by
    rfl
  obtain ⟨q, hq, he⟩ := Option.map_eq_some_iff.mp hrun
  obtain ⟨hp, he⟩ := Prod.mk.inj he
  obtain ⟨hl, he⟩ := Prod.mk.inj he
  obtain ⟨hd, ht⟩ := Prod.mk.inj he
  have hreach : Reachable HardSys.Init (fun q a q' => q.exec a = some q') q :=
    reachable_of_runList (.init everyTicks_init) hq
  obtain ⟨S, rfl, i, -⟩ := HardSys.reachable_numbered hreach
  have b : HardSys.Blocks S.sys.timers 0 := by
    refine ⟨by rw [hl]; exact List.mem_cons_self, hd, by rw [ht], by rw [ht], fun hr => ?_⟩
    have h1 := hr.2.1
    rw [ht] at h1
    exact absurd h1 (by decide)
  exact ⟨S.sys, hreach, hp, b.any_rounds i hp hl (by rw [ht]) (by rw [ht]), b.not_ends i hp⟩

end RTThread
