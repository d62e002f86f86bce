import RTThread.Timer.Drain

set_option autoImplicit false

/-! # A thread with a fixed period (`rt_thread_delay_until`)

A thread that works and then calls `rt_thread_delay_until` is to be woken `inc_tick` ticks after its
last wakeup. The function starts the timer of the thread with `now - *tick + inc_tick` ticks to go, so
that the work time is added to the period, twice with the time already passed. The period is kept if
and only if there is no work.

The thread is suspended by `rt_thread_suspend`, which stops its timer first; it goes on when the timer
expires, and then `*tick` is the tick of its wakeup.
-/

namespace RTThread

open Trans Timers

section

variable [TimerConfig]

/-- What a call of `rt_thread_delay_until` does before the thread goes on. -/
inductive Delay
  /-- the time is over already: the thread goes on, and `*tick` is the current tick -/
  | passed (tick : Tick)
  /-- the thread is suspended, with its timer started -/
  | suspended (s : Timers)

namespace Timers

/-- `rt_thread_delay_until` of the thread with the timer `t`, where `tick` is the tick of the last
wakeup. -/
def rtThreadDelayUntil (s : Timers) (t : TimerId) (tick incTick : Tick) : Option Delay :=
  if s.tick - tick < incTick then do
    let tick := s.tick - tick + incTick
    let (_, s) ← s.rtTimerStop t
    let s ← s.rtTimerControl t (.setTime tick)
    let s ← s.rtTimerStart t
    some (.suspended s)
  else some (.passed s.tick)

/-- The tick at which a call returns: at once, or when the timer of the thread expires. -/
def delayReturns (s : Timers) (t : TimerId) (tick incTick : Tick) : Option Tick :=
  (s.rtThreadDelayUntil t tick incTick).map fun
    | .passed tick => tick
    | .suspended s => (s.timer t).timeoutTick

end Timers

variable {q : HardSys} {s s' : Timers} {t : TimerId} {tick inc r : Tick} {stamp : TimerId → Nat}
  {c : Nat}

/-- The timer is stopped, and its time is set. -/
theorem stop_setTime (i : SkipInv s false stamp c) (ho : (s.timer t).object = true)
    (hs : (s.timer t).soft = false) (d : Tick) :
    ∃ e s₁ s₂, s.rtTimerStop t = some (e, s₁) ∧ s₁.rtTimerControl t (.setTime d) = some s₂ ∧
      SkipInv s₂ false stamp c ∧ s₂.tick = s.tick ∧ (s₂.timer t).object = true ∧
      (s₂.timer t).soft = false ∧ (s₂.timer t).initTick = d := by
  have hset : ∀ s₁ : Timers, SkipInv s₁ false stamp c → s₁.tick = s.tick →
      (s₁.timer t).object = true → (s₁.timer t).soft = false →
      ∃ s₂, s₁.rtTimerControl t (.setTime d) = some s₂ ∧ SkipInv s₂ false stamp c ∧
        s₂.tick = s.tick ∧ (s₂.timer t).object = true ∧ (s₂.timer t).soft = false ∧
        (s₂.timer t).initTick = d := by
    intro s₁ i₁ htick ho₁ hs₁
    refine ⟨s₁.modify t fun x => { x with initTick := d }, ?_, i₁.modify fun _ => ⟨rfl, rfl⟩, htick,
      ?_, ?_, ?_⟩
    · unfold rtTimerControl
      exact if_pos ho₁
    · rw [modify_self]
      exact ho₁
    · rw [modify_self]
      exact hs₁
    · rw [modify_self]
  unfold rtTimerStop
  rw [if_pos ho]
  by_cases ha : (s.timer t).activated = false
  · rw [if_pos ha]
    obtain ⟨s₂, h⟩ := hset s i rfl ho hs
    exact ⟨_, _, s₂, rfl, h⟩
  · rw [if_neg ha]
    have hself : ((s.timerRemove t).setActivated t false).timer t =
        { s.timer t with activated := false } := modify_self
    obtain ⟨s₂, h⟩ := hset ((s.timerRemove t).setActivated t false)
      (FireRun.skipInv_setActivated (i.remove t)) rfl (by rw [hself]; exact ho)
      (by rw [hself]; exact hs)
    exact ⟨_, _, s₂, rfl, h⟩

/-- **What a call does** before the next wakeup is due. -/
theorem delayUntil_eq (i : SkipInv s false stamp c) (ho : (s.timer t).object = true)
    (hs : (s.timer t).soft = false) (hw : s.tick - tick < inc) :
    (∃ s', s.rtThreadDelayUntil t tick inc = some (.suspended s') ∧
      (s'.timer t).activated = true ∧
      (s'.timer t).timeoutTick = s.tick + (s.tick - tick + inc) ∧
      (s.tick - tick + inc).toNat < RT_TICK_MAX / 2) ∨
    s.rtThreadDelayUntil t tick inc = none ∧ RT_TICK_MAX / 2 ≤ (s.tick - tick + inc).toNat := by
  obtain ⟨e, s₁, s₂, h₁, h₂, i₂, htick, ho₂, hs₂, hinit⟩ :=
    stop_setTime i ho hs (s.tick - tick + inc)
  have hcall : s.rtThreadDelayUntil t tick inc =
      (s₂.rtTimerStart t).bind fun s' => some (.suspended s') := by
    unfold rtThreadDelayUntil
    rw [if_pos hw]
    simp only [h₁, Option.bind_eq_bind, Option.bind_some, h₂]
  rw [hcall]
  by_cases hd : (s.tick - tick + inc).toNat < RT_TICK_MAX / 2
  · obtain ⟨s', A, B, h₃, st⟩ := rtTimerStart_spec (by rw [hs₂]; exact i₂) ho₂
      (by rw [hinit]; exact hd)
    refine Or.inl ⟨s', by rw [h₃]; rfl, ?_, ?_, hd⟩
    · rw [st.frame.self]
    · rw [st.frame.self, htick, hinit]
  · refine Or.inr ⟨?_, Nat.le_of_not_lt hd⟩
    cases h₃ : s₂.rtTimerStart t with
    | none => rfl
    | some s' =>
        have hi := (startFrame h₃).init
        rw [hinit] at hi
        exact absurd hi hd

/-- A call that returns one period after the last wakeup was made without any work. -/
theorem returns_iff (i : SkipInv s false stamp c) (ho : (s.timer t).object = true)
    (hs : (s.timer t).soft = false) (hw : s.tick - tick < inc)
    (hinc : inc.toNat < RT_TICK_MAX / 2) :
    s.delayReturns t tick inc = some (tick + inc) ↔ s.tick = tick := by
  unfold delayReturns
  rcases delayUntil_eq i ho hs hw with ⟨s', h, -, htimeout, hd⟩ | ⟨h, hd⟩
  · rw [h, Option.map_some, Option.some.injEq]
    dsimp only
    rw [htimeout]
    have hlt : (s.tick - tick).toNat < inc.toNat := hw
    unfold RT_TICK_MAX at hinc
    constructor
    · intro he
      apply BitVec.eq_of_toNat_eq
      have he' := congrArg BitVec.toNat he
      bv_omega
    · intro he
      rw [he]
      simp
  · rw [h, Option.map_none]
    refine iff_of_false (by simp) fun he => ?_
    have hz : s.tick - tick + inc = inc := by
      rw [he]
      simp
    rw [hz] at hd
    omega

/-! ## A sequence of calls -/

/-- The calls of a thread with the timer `t`: from the tick of the last wakeup the thread works for
some ticks and calls `rt_thread_delay_until`, in any state of the timers; the list of the ticks at
which the calls return. A call that does not return is the last. -/
inductive Calls (t : TimerId) (inc : Tick) : Tick → List Tick → List (Option Tick) → Prop
  | done (tick : Tick) : Calls t inc tick [] []
  | stuck (q : HardSys) (tick : Tick) (work : Tick) (works : List Tick)
      (reach : Reachable HardSys.Init (fun q a q' => q.exec a = some q') q)
      (object : (q.timers.timer t).object = true) (soft : (q.timers.timer t).soft = false)
      (now : q.timers.tick = tick + work) (returns : q.timers.delayReturns t tick inc = none) :
      Calls t inc tick (work :: works) [none]
  | call (q : HardSys) (tick : Tick) (work : Tick) (works : List Tick) (r : Tick)
      (rs : List (Option Tick))
      (reach : Reachable HardSys.Init (fun q a q' => q.exec a = some q') q)
      (object : (q.timers.timer t).object = true) (soft : (q.timers.timer t).soft = false)
      (now : q.timers.tick = tick + work) (returns : q.timers.delayReturns t tick inc = some r)
      (rest : Calls t inc r works rs) : Calls t inc tick (work :: works) (some r :: rs)

/-- The `k`-th call returns `k` periods after the first reference. -/
def InPeriod (first inc : Tick) (n : Nat) (rs : List (Option Tick)) : Prop :=
  ∀ k < n, rs[k]? = some (some (first + BitVec.ofNat 32 (k + 1) * inc))

omit [TimerConfig] in
theorem inPeriod_cons {first : Tick} {n : Nat} {rs : List (Option Tick)} :
    InPeriod first inc (n + 1) (some (first + inc) :: rs) ↔ InPeriod (first + inc) inc n rs := by
  have hshift : ∀ k : Nat, first + BitVec.ofNat 32 (k + 1 + 1) * inc =
      first + inc + BitVec.ofNat 32 (k + 1) * inc := fun k => by
    rw [BitVec.ofNat_add (k + 1) 1, BitVec.add_mul, BitVec.add_assoc first inc,
      BitVec.add_comm inc]
    simp
  constructor
  · intro h k hk
    have hnext := h (k + 1) (by omega)
    rwa [List.getElem?_cons_succ, hshift] at hnext
  · intro h k hk
    cases k with
    | zero => simp
    | succ k =>
        rw [List.getElem?_cons_succ, hshift]
        exact h k (by omega)

theorem calls_inPeriod_iff {first : Tick} {works : List Tick} {rs : List (Option Tick)}
    (h : Calls t inc first works rs) (hw : ∀ w ∈ works, w < inc)
    (hinc : inc.toNat < RT_TICK_MAX / 2) :
    InPeriod first inc works.length rs ↔ ∀ w ∈ works, w = 0 := by
  have hfirst : ∀ {q : HardSys} {tick work : Tick},
      Reachable HardSys.Init (fun q a q' => q.exec a = some q') q →
      (q.timers.timer t).object = true → (q.timers.timer t).soft = false →
      q.timers.tick = tick + work → work < inc →
      (q.timers.delayReturns t tick inc = some (tick + inc) ↔ work = 0) := by
    intro q tick work hr ho hs hnow hlt
    obtain ⟨S, rfl, i, -⟩ := HardSys.reachable_numbered hr
    rw [returns_iff i.skip ho hs (by rw [hnow, BitVec.add_comm, BitVec.add_sub_cancel]; exact hlt)
      hinc, hnow]
    exact BitVec.add_right_eq_self
  induction h with
  | done tick =>
      exact iff_of_true (fun k hk => absurd hk (Nat.not_lt_zero k)) fun w hw' => by cases hw'
  | stuck q tick work works reach object soft now returns =>
      refine iff_of_false (fun hp => ?_) fun hz => ?_
      · have h0 := hp 0 (by simp)
        simp at h0
      · have hsome := (hfirst reach object soft now (hw work List.mem_cons_self)).mpr
          (hz work List.mem_cons_self)
        rw [returns] at hsome
        cases hsome
  | call q tick work works r rs reach object soft now returns rest ih =>
      have hone := hfirst reach object soft now (hw work List.mem_cons_self)
      rw [returns, Option.some.injEq] at hone
      have hrest := ih fun w hw' => hw w (List.mem_cons_of_mem work hw')
      rw [List.forall_mem_cons, ← hone, List.length_cons]
      constructor
      · intro hp
        have h0 := hp 0 (by omega)
        obtain rfl : r = tick + inc := by simpa using h0
        exact ⟨rfl, hrest.mp (inPeriod_cons.mp hp)⟩
      · rintro ⟨rfl, hz⟩
        exact inPeriod_cons.mpr (hrest.mpr hz)

/-- **`rt_thread_delay_until` keeps its period only without work.** Called less than a period after
the last wakeup, it starts the timer of the thread so that it expires a period after this wakeup if
and only if no tick has passed since; and the calls of a thread return at the multiples of the period
if and only if the thread never works for a tick. -/
theorem delay_until_period (h : Reachable HardSys.Init (fun q a q' => q.exec a = some q') q)
    (ho : (q.timers.timer t).object = true) (hs : (q.timers.timer t).soft = false)
    (hw : q.timers.tick - tick < inc) (hinc : inc.toNat < RT_TICK_MAX / 2) :
    ((∃ s', q.timers.rtThreadDelayUntil t tick inc = some (.suspended s') ∧
      (s'.timer t).activated = true ∧ (s'.timer t).timeoutTick = tick + inc) ↔
      q.timers.tick = tick) ∧
    ∀ first works rs, Calls t inc first works rs → (∀ w ∈ works, w < inc) →
      (InPeriod first inc works.length rs ↔ ∀ w ∈ works, w = 0) := by
  refine ⟨?_, fun first works rs hc hlt => calls_inPeriod_iff hc hlt hinc⟩
  obtain ⟨S, rfl, i, -⟩ := HardSys.reachable_numbered h
  rw [← returns_iff i.skip ho hs hw hinc]
  unfold delayReturns
  constructor
  · rintro ⟨s', hs', -, htimeout⟩
    rw [hs', Option.map_some]
    exact congrArg some htimeout
  · intro hr
    rcases delayUntil_eq i.skip ho hs hw with ⟨s', hs', hact, -, -⟩ | ⟨hnone, -⟩
    · rw [hs', Option.map_some] at hr
      exact ⟨s', hs', hact, Option.some.inj hr⟩
    · rw [hnone] at hr
      cases hr

end

/-! ## A thread that works for a tick -/

attribute [local instance] oneRow

/-- Without work, the period of ten ticks is kept, over the wrap of the tick. -/
theorem delay_until_period_idle : ∃ s',
    (everyTicks 1).timers.rtThreadDelayUntil 0 0xffffffff 10 = some (.suspended s') ∧
    (s'.timer 0).timeoutTick = 9 := by
  have hinit : Reachable HardSys.Init (fun q a q' => q.exec a = some q') (everyTicks 1) :=
    .init everyTicks_init
  have hcall : (everyTicks 1).timers.tick - (0xffffffff : Tick) < 10 := by decide
  obtain ⟨h, -⟩ := delay_until_period (t := 0) hinit rfl rfl hcall (by decide)
  obtain ⟨s', hs', -, htimeout⟩ := h.mpr rfl
  exact ⟨s', hs', htimeout⟩

/-- Two ticks of work: the timer expires after twelve ticks, not after eight, and two calls with two
ticks of work each return at 14 and 28, not at 10 and 20. -/
theorem delay_until_drifts : (∃ q s', Reachable HardSys.Init (fun q a q' => q.exec a = some q') q ∧
    q.timers.tick = 2 ∧ q.timers.rtThreadDelayUntil 0 0 10 = some (.suspended s') ∧
    (s'.timer 0).timeoutTick = 14) ∧
    Calls 0 10 0 [2, 2] [some 14, some 28] := by
  have hstate : ∀ ticks : Tick, Reachable HardSys.Init (fun q a q' => q.exec a = some q')
      ⟨{ (everyTicks 1).timers with tick := ticks }, .idle⟩ := fun _ =>
    .init ⟨fun _ _ => rfl, fun _ => rfl, rfl⟩
  exact ⟨⟨_, _, hstate 2, rfl, rfl, rfl⟩, .call _ 0 2 [2] 14 _ (hstate 2) rfl rfl rfl rfl
    (.call _ 14 2 [] 28 _ (hstate 16) rfl rfl rfl rfl (.done 28))⟩

end RTThread
