import RTThread.Timer.Flags

set_option autoImplicit false

/-! # Timeout functions that touch no timer

When the timer functions are called between the checks only, a timer that fires is in no list until
its timeout function has returned. Then the flags are right in every state, and so the list is what
it is for: the active timers, each of them once, in the order in which they expire.
-/

namespace RTThread

open Trans Timers HardSys

/-- The ticks until a timer expires. -/
def Timers.remaining (s : Timers) (t : TimerId) : Nat := ((s.timer t).timeoutTick - s.tick).toNat

/-- The timer is started. -/
def Timers.Active (s : Timers) (t : TimerId) : Prop :=
  (s.timer t).object = true ∧ (s.timer t).activated = true

/-- A call that is made between the checks. -/
def Quiet (q : HardSys) : HardAction → Prop
  | .op _ => q.phase = .idle
  | _ => True

instance (q : HardSys) (a : HardAction) : Decidable (Quiet q a) := by
  cases a <;> unfold Quiet <;> infer_instance

section

variable [TimerConfig]

/-- A step in which no timeout function touches a timer. -/
def TimerRun.QuietStep (S : TimerRun) (a : HardAction) (S' : TimerRun) : Prop :=
  S.exec a = some S' ∧ Quiet S.sys a

/-- The list of the hard timers; the stamps say in which order they were started. -/
structure Timers.Ordered (s : Timers) (stamp : TimerId → Nat) : Prop where
  sorted : (s.low false).Pairwise fun a b => s.remaining a ≤ s.remaining b
  ties : (s.low false).Pairwise fun a b =>
    (s.timer a).timeoutTick = (s.timer b).timeoutTick → stamp a < stamp b
  rows : ∀ i, i + 1 < TimerConfig.level → (s.rows false i).Sublist (s.rows false (i + 1))
  active : ∀ t, (s.timer t).soft = false → s.Active t → (s.low false).count t = 1
  inactive : ∀ t, ¬ s.Active t → ∀ i < TimerConfig.level, t ∉ s.rows false i

/-- What holds in the quiet runs. -/
structure TimerRun.QuietInv (S : TimerRun) : Prop where
  inv : S.Inv
  flags : FlagInv S.sys
  firing : ∀ t, S.sys.phase = .firing t → t ∉ S.sys.timers.low false

variable {S S' : TimerRun} {a : HardAction} {s : Timers} {t : TimerId}

/-- A timer that fires is not started again. -/
theorem TimerRun.QuietInv.not_restarted (i : S.QuietInv) : ¬ Restarted S.sys a := by
  intro hr
  cases a with
  | finish =>
      simp only [Restarted] at hr
      cases hp : S.sys.phase with
      | firing t =>
          rw [hp] at hr
          exact i.firing t hp hr.1
      | _ =>
          rw [hp] at hr
          exact hr
  | _ => exact hr

theorem TimerRun.QuietInv.step (i : S.QuietInv) (h : S.QuietStep a S') : S'.QuietInv := by
  have hx := (exec_some h.1).1
  refine ⟨i.inv.step h.1, i.flags.step i.inv hx i.not_restarted, fun t ht => ?_⟩
  obtain ⟨o, s, rfl, -, -, he⟩ | ⟨rfl, -, he⟩ | ⟨cur, u, rfl, -, -, he⟩ | ⟨u, s, rfl, -, -, he⟩ |
    ⟨cur, rfl, -, -, he⟩ := exec_cases hx
  · rw [he, show S.sys.phase = .idle from h.2] at ht
    cases ht
  · rw [he] at ht
    cases ht
  · rw [he] at ht ⊢
    obtain rfl := CheckPhase.firing.inj ht
    exact fun hm => (i.inv.skip.mem_remove.mp hm).2 rfl
  · rw [he] at ht
    cases ht
  · rw [he] at ht
    cases ht

theorem TimerRun.Init.quietInv (h : S.Init) : S.QuietInv :=
  ⟨Init.inv h, HardSys.Init.flagInv h, fun t ht => by rw [HardSys.Init.phase h] at ht; cases ht⟩

theorem TimerRun.reachable_quietInv (h : Reachable TimerRun.Init QuietStep S) : S.QuietInv :=
  h.invariant (fun _ hi => Init.quietInv hi) fun _ _ _ _ i hs => i.step hs

omit [TimerConfig] in
theorem remaining_of_key (h : 1 ≤ s.key t) : s.key t = s.remaining t + 1 := by
  unfold key remaining at *
  bv_omega

omit [TimerConfig] in
theorem remaining_eq {u : TimerId} (h : (s.timer t).timeoutTick = (s.timer u).timeoutTick) :
    s.remaining t = s.remaining u := by
  unfold remaining
  rw [h]

/-- Between the checks, the list is in order. -/
theorem TimerRun.QuietInv.ordered (i : S.QuietInv) (hp : S.sys.phase = .idle) :
    S.sys.timers.Ordered S.stamp := by
  have hkey : ∀ t ∈ S.sys.timers.low false,
      S.sys.timers.key t = S.sys.timers.remaining t + 1 := fun t ht =>
    remaining_of_key (i.inv.idle hp t ht)
  refine ⟨?_, ?_, i.inv.skip.nested, fun t hs ha => ?_, fun t ha j hj ht => ha ?_⟩
  · refine i.inv.skip.sorted.imp_of_mem fun {a b} ha hb h => ?_
    have h1 := hkey a ha
    have h2 := hkey b hb
    omega
  · refine i.inv.skip.sorted.imp_of_mem fun {a b} ha hb h he => ?_
    have h1 := hkey a ha
    have h2 := hkey b hb
    have h3 := remaining_eq he
    omega
  · refine List.count_eq_one_of_mem i.inv.skip.nodup ?_
    exact i.flags.active t ha.1 ha.2 hs (by simp [hp])
  · obtain ⟨h1, h2, -⟩ := i.flags.linked t (i.inv.skip.mem_low hj ht)
    exact ⟨h1, h2⟩

/-- **The order of the skip list.** After any sequence of starts, stops, detaches and ticks, each
tick followed by the check: the lowest row is sorted by the ticks to go, timers that expire at the
same tick are in the order of their starts, each row is a sub-sequence of the row below, and an
active timer is in the lowest row once, any other timer in no row; and a timer can be started. -/
theorem skip_list_order (h : Reachable TimerRun.Init TimerRun.QuietStep S)
    (hp : S.sys.phase = .idle) :
    S.sys.timers.Ordered S.stamp ∧
    ∀ t, (S.sys.timers.timer t).object = true → (S.sys.timers.timer t).soft = false →
      (S.sys.timers.timer t).initTick.toNat < RT_TICK_MAX / 2 →
      ∃ S', S.exec (.op (.start t)) = some S' := by
  have i := TimerRun.reachable_quietInv h
  refine ⟨i.ordered hp, fun t ho hs hi => ?_⟩
  obtain ⟨s, A, B, hstart, -⟩ := rtTimerStart_spec (by rw [hs]; exact i.inv.skip) ho hi
  refine ⟨⟨⟨s, .idle⟩, Function.update S.stamp t S.starts, S.starts + 1⟩, ?_⟩
  have hexec : S.sys.exec (.op (.start t)) = some ⟨s, .idle⟩ := by
    simp [HardSys.exec, hp, Timers.op, hstart]
  simp [TimerRun.exec, hexec, HardSys.starts]

end

/-! ## Around the end of the ticks -/

theorem mask_one : 1 = 1 ∨ 1 = 3 := Or.inl rfl

/-- Two rows. -/
abbrev twoRows : TimerConfig := ⟨2, 1, Nat.two_pos, mask_one⟩

attribute [local instance] twoRows

/-- Timer `t` has `t + 1` ticks to go, and timer 3 as many as timer 1; two ticks before the wrap. -/
def nearWrap : TimerRun where
  sys :=
    { timers :=
        { tick := 0xfffffffe
          timer := fun t => ⟨true, false, t = 0, false, if t = 3 then 2 else t + 1, 0⟩
          rows := fun _ _ => []
          randomNr := 0 }
      phase := .idle }
  stamp := fun _ => 0
  starts := 0

theorem nearWrap_init : nearWrap.Init := ⟨fun _ _ => rfl, fun _ => rfl, rfl⟩

/-- Timer 0 is started again by the check, at the same timeout as timers 1 and 3. -/
def overWrap : List HardAction :=
  [.op (.start 2), .op (.start 1), .op (.start 0), .op (.start 3), .tick, .select, .finish, .leave]

theorem skip_list_order_over_wrap : ∃ S,
    runList (stepIf TimerRun.exec fun S a => Quiet S.sys a) nearWrap overWrap = some S ∧
    S.sys.timers.low false = [1, 3, 0, 2] ∧ S.sys.timers.Ordered S.stamp := by
  have hrun : (runList (stepIf TimerRun.exec fun S a => Quiet S.sys a) nearWrap overWrap).map
      (fun S => (S.sys.phase, S.sys.timers.low false)) = some (.idle, [1, 3, 0, 2]) := by
    decide +kernel
  obtain ⟨S, hS, he⟩ := Option.map_eq_some_iff.mp hrun
  obtain ⟨hp, hl⟩ : _ ∧ _ := by simpa using he
  exact ⟨S, hS, hl, (skip_list_order (reachable_of_runList_stepIf nearWrap_init hS) hp).1⟩

end RTThread
