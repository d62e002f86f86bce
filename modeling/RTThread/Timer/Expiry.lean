import RTThread.Timer.Quiet

set_option autoImplicit false

/-! # When a timer fires

A run counts the ticks from its beginning, notes when each timer is to expire, and keeps the log of
the timeout functions that were called. In the quiet runs a timer that was started at the time `S`
with `d` ticks fires at `S + d`, and when it is periodic at `S + d`, `S + 2 * d` and so on. In one
check the timers fire in the order of their expiry and, when that is the same, in the order of their
starts, where a periodic timer is started again each time it fires.
-/

namespace RTThread

open Trans Timers HardSys

/-- A call of a timeout function. -/
structure Fire where
  /-- in ticks from the beginning -/
  time : Nat
  timer : TimerId
  /-- the time at which the timer was to expire -/
  expiry : Nat
  /-- the number of the start -/
  stamp : Nat

/-- A run with its log. -/
structure FireRun where
  run : TimerRun
  /-- the tick at the beginning -/
  origin : Tick
  /-- the ticks since -/
  now : Nat
  /-- when a timer was started, by a call after which none was about it -/
  begun : TimerId → Option Nat
  /-- when a timer is to expire -/
  expiry : TimerId → Nat
  log : List Fire

/-- One fire comes before another. -/
def Fire.Before (e f : Fire) : Prop :=
  e.time < f.time ∨ e.time = f.time ∧
    (e.expiry < f.expiry ∨ e.expiry = f.expiry ∧ e.stamp < f.stamp)

namespace FireRun

/-- The timers of a run. -/
abbrev timers (F : FireRun) : Timers := F.run.sys.timers

/-- When timer `t` fired after the time `S`. -/
def fires (F : FireRun) (t : TimerId) (S : Nat) : List Nat :=
  (F.log.filter fun e => e.timer = t ∧ S < e.time).map Fire.time

/-- The times `S + d`, `S + 2 * d`, and so on, `n` of them. -/
def every (S d n : Nat) : List Nat := (List.range n).map fun k => S + (k + 1) * d

def Init (F : FireRun) : Prop :=
  F.run.Init ∧ F.origin = F.timers.tick ∧ F.now = 0 ∧ F.begun = (fun _ => none) ∧ F.log = []

section

variable [TimerConfig]

def exec (F : FireRun) (a : HardAction) : Option FireRun :=
  (F.run.exec a).map fun R =>
    { run := R
      origin := F.origin
      now := match a with
        | .tick => F.now + 1
        | _ => F.now
      begun := match a with
        | .op o => Function.update F.begun o.timer <| match o with
          | .start _ => some F.now
          | _ => none
        | _ => F.begun
      expiry := match F.run.sys.starts a with
        | some t => Function.update F.expiry t (F.now + (F.timers.timer t).initTick.toNat)
        | none => F.expiry
      log := match a, R.sys.phase with
        | .select, .firing t => F.log ++ [⟨F.now, t, F.expiry t, F.run.stamp t⟩]
        | _, _ => F.log }

/-- A step in which no timeout function touches a timer. -/
def QuietStep (F : FireRun) (a : HardAction) (F' : FireRun) : Prop :=
  F.exec a = some F' ∧ Quiet F.run.sys a

variable {F F' : FireRun} {a : HardAction} {t u : TimerId} {S d : Nat}

/-- A start. -/
def started (F : FireRun) (t : TimerId) (s : Timers) (p : CheckPhase)
    (begun : TimerId → Option Nat) : FireRun :=
  { run := ⟨⟨s, p⟩, Function.update F.run.stamp t F.run.starts, F.run.starts + 1⟩
    origin := F.origin
    now := F.now
    begun := begun
    expiry := Function.update F.expiry t (F.now + (F.timers.timer t).initTick.toNat)
    log := F.log }

/-- A step that starts nothing. -/
def moved (F : FireRun) (s : Timers) (p : CheckPhase) : FireRun :=
  { F with run := { F.run with sys := ⟨s, p⟩ } }

/-- **What a quiet step is.** -/
theorem exec_cases (h : F.QuietStep a F') :
    (∃ t s, a = .op (.start t) ∧ F.run.sys.phase = .idle ∧ F.timers.rtTimerStart t = some s ∧
      F' = F.started t s .idle (Function.update F.begun t (some F.now))) ∨
    (∃ t s, F.run.sys.phase = .idle ∧ Loosens F.timers t s ∧
      F' = { F.moved s .idle with begun := Function.update F.begun t none }) ∨
    (F.run.sys.phase = .idle ∧ F' = { F.moved { F.timers with tick := F.timers.tick + 1 }
      (.checking (F.timers.tick + 1)) with now := F.now + 1 }) ∨
    (∃ current t, F.run.sys.phase = .checking current ∧ expired F.timers current = some t ∧
      F' = { F.moved (F.timers.timerRemove t) (.firing t) with
        log := F.log ++ [⟨F.now, t, F.expiry t, F.run.stamp t⟩] }) ∨
    (∃ t s, F.run.sys.phase = .firing t ∧ (F.timers.timer t).periodic = true ∧
      (F.timers.timer t).activated = true ∧
      (F.timers.setActivated t false).rtTimerStart t = some s ∧
      F' = F.started t s (.checking s.tick) F.begun) ∨
    (∃ t, F.run.sys.phase = .firing t ∧
      ((F.timers.timer t).periodic = true → (F.timers.timer t).activated = false) ∧
      F' = F.moved (F.timers.setActivated t false) (.checking F.timers.tick)) ∨
    ∃ current, F.run.sys.phase = .checking current ∧ expired F.timers current = none ∧
      F' = F.moved F.timers .idle := by
  obtain ⟨hx, hq⟩ := h
  obtain ⟨R, hR, rfl⟩ := Option.map_eq_some_iff.mp hx
  obtain ⟨q, hq', hR'⟩ := Option.map_eq_some_iff.mp hR
  obtain ⟨o, s, rfl, -, ho, rfl⟩ | ⟨rfl, hp, rfl⟩ | ⟨cur, t, rfl, hp, hex, rfl⟩ |
    ⟨t, s, rfl, hp, hfin, rfl⟩ | ⟨cur, rfl, hp, hex, rfl⟩ := HardSys.exec_cases hq'
  · have hidle : F.run.sys.phase = .idle := hq
    rcases op_cases ho with ⟨t, rfl, hs⟩ | ⟨hno, l⟩
    · refine Or.inl ⟨t, s, rfl, hidle, hs, ?_⟩
      subst hR'
      simp [started, HardSys.starts, TimerOp.timer, hidle]
    · refine Or.inr (Or.inl ⟨o.timer, s, hidle, l, ?_⟩)
      subst hR'
      cases o with
      | start t => exact absurd rfl (hno t)
      | _ => simp [moved, HardSys.starts, hidle]
  · refine Or.inr (Or.inr (Or.inl ⟨hp, ?_⟩))
    subst hR'
    rfl
  · refine Or.inr (Or.inr (Or.inr (Or.inl ⟨cur, t, hp, hex, ?_⟩)))
    subst hR'
    rfl
  · unfold afterTimeout at hfin
    split_ifs at hfin with hper
    · refine Or.inr (Or.inr (Or.inr (Or.inr (Or.inl ⟨t, s, hp, hper.1, hper.2, hfin, ?_⟩))))
      have hst : F.run.sys.starts .finish = some t := by simp [HardSys.starts, hp, hper]
      subst hR'
      simp [started, hst]
    · obtain rfl := Option.some.inj hfin
      refine Or.inr (Or.inr (Or.inr (Or.inr (Or.inr (Or.inl ⟨t, hp, ?_, ?_⟩)))))
      · intro h1
        simpa [h1] using hper
      · have hst : F.run.sys.starts .finish = none := by simpa [HardSys.starts, hp] using hper
        subst hR'
        simp only [hst]
        rfl
  · refine Or.inr (Or.inr (Or.inr (Or.inr (Or.inr (Or.inr ⟨cur, hp, hex, ?_⟩)))))
    subst hR'
    rfl

/-! ## The log -/

/-- The log is in order, and the timers of the list expire when the run says. -/
structure Inv (F : FireRun) : Prop where
  quiet : F.run.QuietInv
  clock : F.timers.tick = F.origin + BitVec.ofNat 32 F.now
  linked : ∀ t ∈ F.timers.low false, F.now + F.timers.key t = F.expiry t + 1
  past : ∀ e ∈ F.log, e.expiry ≤ e.time ∧ e.time ≤ F.now ∧ e.stamp < F.run.starts
  sorted : F.log.Pairwise Fire.Before
  /-- in a check, the timers of the list come after those that have fired -/
  behind : F.run.sys.phase ≠ .idle → ∀ e ∈ F.log, e.time = F.now → ∀ t ∈ F.timers.low false,
    e.expiry < F.expiry t ∨ e.expiry = F.expiry t ∧ e.stamp < F.run.stamp t

omit [TimerConfig] in
theorem key_setActivated {s : Timers} {b : Bool} : (s.setActivated t b).key u = s.key u := by
  unfold key setActivated
  by_cases hu : u = t
  · rw [hu, modify_self]
    rfl
  · rw [modify_of_ne hu]
    rfl

omit [TimerConfig] in
theorem initTick_setActivated {s : Timers} {b : Bool} :
    ((s.setActivated t b).timer t).initTick = (s.timer t).initTick := by
  unfold setActivated
  rw [modify_self]

theorem skipInv_setActivated {s : Timers} {b : Bool} {stamp : TimerId → Nat} {c : Nat}
    (i : SkipInv s false stamp c) : SkipInv (s.setActivated t b) false stamp c :=
  i.modify fun _ => ⟨rfl, rfl⟩

/-- A start notes the expiry of its timer. -/
theorem start_linked {s s' : Timers} {stamp : TimerId → Nat} {c : Nat} (now : Nat)
    (expiry : TimerId → Nat) (i : SkipInv s false stamp c) (h : s.rtTimerStart t = some s')
    (hl : ∀ u ∈ s.low false, now + s.key u = expiry u + 1) :
    ∀ u ∈ s'.low false,
      now + s'.key u = Function.update expiry t (now + (s.timer t).initTick.toNat) u + 1 := by
  obtain ⟨-, hsub, hkey, hkt⟩ := TimerRun.start_skipInv i h
  intro u hu
  by_cases hut : u = t
  · rw [hut, hkt, Function.update_self]
    omega
  · rw [hkey u hut, Function.update_of_ne hut]
    exact hl u ((hsub u hu).resolve_left hut)

/-- A start puts a timer behind all that have fired. -/
theorem Inv.started {s s' : Timers} {p : CheckPhase} {begun : TimerId → Option Nat} (i : F.Inv)
    (hq : (F.started t s' p begun).run.QuietInv)
    (hs : SkipInv s false F.run.stamp F.run.starts) (h : s.rtTimerStart t = some s')
    (htick : s.tick = F.timers.tick) (hlow : s.low false = F.timers.low false)
    (hkey : ∀ u, s.key u = F.timers.key u)
    (hinit : (s.timer t).initTick = (F.timers.timer t).initTick)
    (hp : p ≠ .idle → F.run.sys.phase ≠ .idle) : (F.started t s' p begun).Inv := by
  obtain ⟨-, hsub, -, -⟩ := TimerRun.start_skipInv hs h
  refine ⟨hq, (startFrame h).tick.trans (htick.trans i.clock), ?_, fun e he => ?_, i.sorted,
    fun hph e he ht u hu => ?_⟩
  · have hl := start_linked F.now F.expiry hs h fun u hu => by
      rw [hkey u]
      exact i.linked u (hlow ▸ hu)
    rw [hinit] at hl
    exact hl
  · obtain ⟨h1, h2, h3⟩ := i.past e he
    exact ⟨h1, h2, Nat.lt_succ_of_lt h3⟩
  · obtain ⟨h1, h2, h3⟩ := i.past e he
    dsimp only [FireRun.started] at ht ⊢
    by_cases hut : u = t
    · rw [hut, Function.update_self, Function.update_self]
      omega
    · rw [Function.update_of_ne hut, Function.update_of_ne hut]
      exact i.behind (hp hph) e he ht u (hlow ▸ (hsub u hu).resolve_left hut)

theorem Inv.step (i : F.Inv) (h : F.QuietStep a F') : F'.Inv := by
  have hq : F'.run.QuietInv := by
    obtain ⟨R, hR, rfl⟩ := Option.map_eq_some_iff.mp h.1
    exact i.quiet.step ⟨hR, h.2⟩
  have hskip : SkipInv F.timers false F.run.stamp F.run.starts := i.quiet.inv.skip
  obtain ⟨t, s, rfl, hp, hs, rfl⟩ | ⟨t, s, hp, l, rfl⟩ | ⟨hp, rfl⟩ | ⟨cur, t, hp, hex, rfl⟩ |
    ⟨t, s, hp, -, -, hs, rfl⟩ | ⟨t, hp, -, rfl⟩ | ⟨cur, hp, hex, rfl⟩ := exec_cases h
  · exact i.started hq hskip hs rfl rfl (fun _ => rfl) rfl fun hn => absurd rfl hn
  · obtain ⟨-, hsub, hkey⟩ := TimerRun.loosens_skipInv l hskip
    refine ⟨hq, l.tick.trans i.clock, fun u hu => ?_, i.past, i.sorted, fun hn => absurd rfl hn⟩
    have hl := i.linked u (hsub u hu)
    rw [← hkey u] at hl
    exact hl
  · -- a tick: all that has fired is past
    refine ⟨hq, ?_, fun u hu => ?_, fun e he => ?_, i.sorted, fun _ e he ht => ?_⟩
    · dsimp only [FireRun.moved]
      rw [i.clock, BitVec.ofNat_add]
      exact BitVec.add_assoc ..
    · have h1 : 1 ≤ F.timers.key u := i.quiet.inv.idle hp u hu
      have h2 := i.linked u hu
      rw [← TimerRun.key_tick h1] at h2
      exact (Nat.succ_add_eq_add_succ F.now _).trans h2
    · obtain ⟨h1, h2, h3⟩ := i.past e he
      exact ⟨h1, Nat.le_succ_of_le h2, h3⟩
    · obtain ⟨-, h2, -⟩ := i.past e he
      dsimp only at ht
      omega
  · -- the first timer fires
    obtain ⟨⟨l, hl⟩, hdue⟩ := expired_some hex
    rw [show cur = F.timers.tick from i.quiet.inv.checking cur hp] at hdue
    have ht : t ∈ F.timers.low false := by
      rw [hl]
      exact List.mem_cons_self
    have hkey := (due_iff (hskip.window t ht)).mp hdue
    have hexp := i.linked t ht
    have hsub : ∀ u, u ∈ (F.timers.timerRemove t).low false → u ∈ l := fun u hu => by
      obtain ⟨h1, h2⟩ := hskip.mem_remove.mp hu
      rw [hl] at h1
      exact (List.mem_cons.mp h1).resolve_left h2
    have hne : F.run.sys.phase ≠ .idle := by simp [hp]
    refine ⟨hq, i.clock, fun u hu => ?_, fun e he => ?_, ?_, fun _ e he htime u hu => ?_⟩
    · exact i.linked u (hl ▸ List.mem_cons_of_mem t (hsub u hu))
    · rcases List.mem_append.mp he with he | he
      · exact i.past e he
      · obtain rfl := List.mem_singleton.mp he
        exact ⟨by dsimp only; omega, le_refl _, hskip.stamp t ht⟩
    · refine List.pairwise_append.mpr ⟨i.sorted, List.pairwise_singleton .., fun e he f hf => ?_⟩
      obtain rfl := List.mem_singleton.mp hf
      rcases Nat.lt_or_eq_of_le (i.past e he).2.1 with h1 | h1
      · exact Or.inl h1
      · exact Or.inr ⟨h1, i.behind hne e he h1 t ht⟩
    · have hu' := hsub u hu
      have huF : u ∈ F.timers.low false := hl ▸ List.mem_cons_of_mem t hu'
      rcases List.mem_append.mp he with he | he
      · exact i.behind hne e he htime u huF
      · obtain rfl := List.mem_singleton.mp he
        have hsort := hskip.sorted
        rw [hl] at hsort
        have h1 := (List.pairwise_cons.mp hsort).1 u hu'
        have h2 := i.linked u huF
        change F.expiry t < F.expiry u ∨ F.expiry t = F.expiry u ∧ F.run.stamp t < F.run.stamp u
        omega
  · exact i.started hq (skipInv_setActivated hskip) hs rfl rfl (fun _ => key_setActivated)
      initTick_setActivated fun _ => by simp [hp]
  · refine ⟨hq, i.clock, fun u hu => ?_, i.past, i.sorted, fun _ => i.behind (by simp [hp])⟩
    have hl := i.linked u hu
    rw [← key_setActivated (t := t) (b := false)] at hl
    exact hl
  · exact ⟨hq, i.clock, i.linked, i.past, i.sorted, fun hn => absurd rfl hn⟩

theorem Init.inv (h : F.Init) : F.Inv := by
  obtain ⟨h1, h2, h3, h4, h5⟩ := h
  have hlow : F.timers.low false = [] := HardSys.Init.rows h1 false _
  refine ⟨TimerRun.Init.quietInv h1, ?_, ?_, ?_, ?_, ?_⟩
  · rw [h3, h2]
    simp
  · simp [hlow]
  · simp [h5]
  · simp [h5]
  · simp [h5]

/-! ## One timer -/

/-- Where timer `t` is, when it was started at `S` with `d` ticks and has fired `n` times. -/
inductive Place (F : FireRun) (t : TimerId) (S d n : Nat) : Prop
  /-- in the list -/
  | waiting (mem : t ∈ F.timers.low false) (expiry : F.expiry t = S + (n + 1) * d)
      (now : S + n * d ≤ F.now) (once : (F.timers.timer t).periodic = false → n = 0)
  /-- in its timeout function -/
  | firing (phase : F.run.sys.phase = .firing t) (active : (F.timers.timer t).activated = true)
      (now : F.now = S + n * d) (once : (F.timers.timer t).periodic = false → n = 1)
  /-- one-shot, and its time is over -/
  | ended (phase : F.run.sys.phase ≠ .firing t) (mem : t ∉ F.timers.low false)
      (once : (F.timers.timer t).periodic = false) (fired : n = 1) (now : S + d ≤ F.now)

/-- Timer `t`, started at `S`, has fired when it had to. -/
structure OnTime (F : FireRun) (t : TimerId) (S : Nat) : Prop where
  early : t ∈ F.timers.low false →
    1 ≤ F.timers.key t ∧ (F.run.sys.phase = .idle → 2 ≤ F.timers.key t)
  fires : ∃ n, F.fires t S = every S (F.timers.timer t).initTick.toNat n ∧
    F.Place t S (F.timers.timer t).initTick.toNat n

omit [TimerConfig] in
theorem every_succ {n : Nat} : every S d (n + 1) = every S d n ++ [S + (n + 1) * d] := by
  unfold every
  rw [List.range_succ, List.map_append]
  rfl

omit [TimerConfig] in
theorem fires_append {e : Fire} (h : F'.log = F.log ++ [e]) :
    F'.fires t S = F.fires t S ++ if e.timer = t ∧ S < e.time then [e.time] else [] := by
  unfold fires
  rw [h, List.filter_append, List.map_append]
  by_cases he : e.timer = t ∧ S < e.time
  · rw [if_pos he, List.filter_cons_of_pos (by simpa using he)]
    rfl
  · rw [if_neg he, List.filter_cons_of_neg (by simpa using he)]
    rfl

/-- A step that is not about the timer. -/
theorem OnTime.frame (o : F.OnTime t S) (htimer : F'.timers.timer t = F.timers.timer t)
    (hlow : t ∈ F'.timers.low false ↔ t ∈ F.timers.low false)
    (hkey : F'.timers.key t = F.timers.key t) (hexp : F'.expiry t = F.expiry t)
    (hnow : F'.now = F.now) (hfires : F'.fires t S = F.fires t S)
    (hphase : F'.run.sys.phase = .firing t ↔ F.run.sys.phase = .firing t)
    (hidle : t ∈ F.timers.low false → F'.run.sys.phase = .idle →
      F.run.sys.phase = .idle ∨ 2 ≤ F.timers.key t) : F'.OnTime t S := by
  refine ⟨fun ht => ?_, ?_⟩
  · obtain ⟨h1, h2⟩ := o.early (hlow.mp ht)
    rw [hkey]
    exact ⟨h1, fun hp => (hidle (hlow.mp ht) hp).elim h2 id⟩
  · obtain ⟨n, hn, hplace⟩ := o.fires
    rw [htimer, hfires]
    refine ⟨n, hn, ?_⟩
    cases hplace with
    | waiting h1 h2 h3 h4 =>
        exact .waiting (hlow.mpr h1) (hexp.trans h2) (hnow ▸ h3) (htimer ▸ h4)
    | firing h1 h2 h3 h4 =>
        exact .firing (hphase.mpr h1) (htimer ▸ h2) (hnow.trans h3) (htimer ▸ h4)
    | ended h1 h2 h3 h4 h5 =>
        exact .ended (mt hphase.mp h1) (mt hlow.mp h2) (htimer ▸ h3) h4 (hnow ▸ h5)

/-- A start of another timer. -/
theorem OnTime.frame_start {s s' : Timers} {p : CheckPhase} {begun : TimerId → Option Nat}
    (o : F.OnTime t S) (hs : SkipInv s false F.run.stamp F.run.starts)
    (h : s.rtTimerStart u = some s') (htu : t ≠ u) (htimer : s.timer t = F.timers.timer t)
    (hlow : s.low false = F.timers.low false) (hkey : s.key t = F.timers.key t)
    (hphase : p = .firing t ↔ F.run.sys.phase = .firing t) (hidle : p = .idle →
      F.run.sys.phase = .idle) : (F.started u s' p begun).OnTime t S := by
  obtain ⟨-, -, hk, -⟩ := TimerRun.start_skipInv hs h
  have hmem := (start_mem hs h).1 t htu
  rw [hlow] at hmem
  exact o.frame (((startFrame h).others t htu).trans htimer) hmem ((hk t htu).trans hkey)
    (Function.update_of_ne htu ..) rfl rfl hphase fun _ hp => Or.inl (hidle hp)

/-- The start of the timer. -/
theorem onTime_of_start {s s' : Timers} {p : CheckPhase} {begun : TimerId → Option Nat} {n : Nat}
    (hs : SkipInv s false F.run.stamp F.run.starts) (h : s.rtTimerStart t = some s')
    (hsoft : (s.timer t).soft = false) (hd : 1 ≤ (s.timer t).initTick.toNat)
    (hinit : (F.timers.timer t).initTick = (s.timer t).initTick)
    (hnow : F.now = S + n * (s.timer t).initTick.toNat)
    (honce : (s.timer t).periodic = false → n = 0)
    (hfires : F.fires t S = every S (s.timer t).initTick.toNat n) :
    (F.started t s' p begun).OnTime t S := by
  have f := startFrame h
  obtain ⟨-, -, -, hkt⟩ := TimerRun.start_skipInv hs h
  have hmem := (start_mem hs h).2.mpr hsoft
  have hself : (s'.timer t).initTick = (s.timer t).initTick := by rw [f.self]
  have hper : (s'.timer t).periodic = (s.timer t).periodic := by rw [f.self]
  refine ⟨fun _ => ?_, n, ?_, .waiting hmem ?_ ?_ fun hp => honce (hper.symm.trans hp)⟩
  · change 1 ≤ s'.key t ∧ (_ → 2 ≤ s'.key t)
    omega
  · change F.fires t S = every S (s'.timer t).initTick.toNat n
    rw [hself]
    exact hfires
  · change Function.update F.expiry t _ t = S + (n + 1) * (s'.timer t).initTick.toNat
    rw [Function.update_self, hself, hinit, hnow]
    ring
  · change S + n * (s'.timer t).initTick.toNat ≤ F.now
    rw [hself]
    exact hnow.ge

/-- The timers that were started are on time. -/
def Scheduled (F : FireRun) : Prop :=
  ∀ t S, F.begun t = some S → (F.timers.timer t).soft = false →
    1 ≤ (F.timers.timer t).initTick.toNat → F.OnTime t S

/-- **One step keeps the timers on time.** -/
theorem Scheduled.step (hF : F.Scheduled) (i : F.Inv) (h : F.QuietStep a F') : F'.Scheduled := by
  have hskip : SkipInv F.timers false F.run.stamp F.run.starts := i.quiet.inv.skip
  intro t S hb hsoft hd
  obtain ⟨u, s, rfl, hp, hs, rfl⟩ | ⟨u, s, hp, l, rfl⟩ | ⟨hp, rfl⟩ | ⟨cur, u, hp, hex, rfl⟩ |
    ⟨u, s, hp, hper, -, hs, rfl⟩ | ⟨u, hp, hper, rfl⟩ | ⟨cur, hp, hex, rfl⟩ := exec_cases h
  · -- a call of `rt_timer_start`
    have f := startFrame hs
    change (s.timer t).soft = false at hsoft
    change 1 ≤ (s.timer t).initTick.toNat at hd
    change Function.update F.begun u (some F.now) t = some S at hb
    by_cases htu : t = u
    · subst htu
      rw [f.self] at hsoft hd
      rw [Function.update_self] at hb
      obtain rfl := Option.some.inj hb
      refine onTime_of_start (n := 0) hskip hs hsoft hd rfl (by omega) (fun _ => rfl) ?_
      change List.map Fire.time (F.log.filter _) = []
      rw [List.filter_eq_nil_iff.mpr, List.map_nil]
      intro e he
      have hpast := (i.past e he).2.1
      simp only [decide_eq_true_eq, not_and]
      omega
    · rw [f.others t htu] at hsoft hd
      rw [Function.update_of_ne htu] at hb
      exact (hF t S hb hsoft hd).frame_start hskip hs htu rfl rfl rfl (by simp [hp]) fun _ => hp
  · -- another call
    change Function.update F.begun u none t = some S at hb
    have htu : t ≠ u := fun he => by
      rw [he, Function.update_self] at hb
      cases hb
    rw [Function.update_of_ne htu] at hb
    have htimer : s.timer t = F.timers.timer t := l.others t htu
    change (s.timer t).soft = false at hsoft
    change 1 ≤ (s.timer t).initTick.toNat at hd
    rw [htimer] at hsoft hd
    obtain ⟨-, -, hkey⟩ := TimerRun.loosens_skipInv l hskip
    refine (hF t S hb hsoft hd).frame htimer ?_ (hkey t) rfl rfl rfl (by simp [moved, hp])
      fun _ _ => Or.inl hp
    change t ∈ s.low false ↔ _
    rcases l.rows with hr | hr
    · rw [Timers.low, hr]
      rfl
    · rw [Timers.low, hr]
      exact hskip.mem_remove.trans (and_iff_left htu)
  · -- a tick
    obtain ⟨h1, n, hn, hplace⟩ := hF t S hb hsoft hd
    refine ⟨fun ht => ?_, n, hn, ?_⟩
    · have h2 := (h1 ht).2 hp
      have h3 := TimerRun.key_tick (s := F.timers) (t := t) (by omega)
      refine ⟨Nat.le_of_add_le_add_right (b := 1) ?_, fun hp' => by cases hp'⟩
      exact h2.trans_eq h3.symm
    · cases hplace with
      | waiting h1 h2 h3 h4 => exact .waiting h1 h2 (Nat.le_succ_of_le h3) h4
      | firing h1 h2 h3 h4 =>
          rw [hp] at h1
          cases h1
      | ended h1 h2 h3 h4 h5 =>
          exact .ended (fun hp' => by cases hp') h2 h3 h4 (Nat.le_succ_of_le h5)
  · -- the first timer fires
    have o := hF t S hb hsoft hd
    by_cases htu : t = u
    · subst htu
      obtain ⟨⟨l, hl⟩, hdue⟩ := expired_some hex
      rw [show cur = F.timers.tick from i.quiet.inv.checking cur hp] at hdue
      have ht : t ∈ F.timers.low false := by
        rw [hl]
        exact List.mem_cons_self
      have hkey := (due_iff (hskip.window t ht)).mp hdue
      have hearly := (o.early ht).1
      have hexp := i.linked t ht
      obtain ⟨n, hn, hplace⟩ := o.fires
      cases hplace with
      | waiting _ h2 _ h3 =>
          have hnow : F.now = S + (n + 1) * (F.timers.timer t).initTick.toNat := by omega
          have hlt : S < F.now := by
            rw [hnow]
            exact Nat.lt_add_of_pos_right (Nat.mul_pos n.succ_pos hd)
          refine ⟨fun hm => absurd rfl (hskip.mem_remove.mp hm).2, n + 1, ?_,
            .firing rfl (i.quiet.flags.linked t ht).2.1 hnow fun hp' => by rw [h3 hp']⟩
          rw [fires_append (F := F) rfl, if_pos ⟨rfl, hlt⟩, hn, every_succ, hnow]
          rfl
      | firing h1 h2 h3 h4 =>
          rw [hp] at h1
          cases h1
      | ended _ h2 => exact absurd ht h2
    · refine o.frame rfl (hskip.mem_remove.trans (and_iff_left htu)) rfl rfl rfl ?_ ?_ ?_
      · rw [fires_append (F := F) rfl, if_neg fun he => htu he.1.symm, List.append_nil]
      · refine iff_of_false (fun hp' => ?_) (by simp [hp])
        exact htu (CheckPhase.firing.inj hp').symm
      · intro _ hp'
        cases hp'
  · -- a periodic timer is started again
    have f := startFrame hs
    have hskip' := skipInv_setActivated (t := u) (b := false) hskip
    change (s.timer t).soft = false at hsoft
    change 1 ≤ (s.timer t).initTick.toNat at hd
    by_cases htu : t = u
    · subst htu
      rw [f.self] at hsoft hd
      have hsoft' : (F.timers.timer t).soft = false := by simpa [setActivated] using hsoft
      have hd' : 1 ≤ (F.timers.timer t).initTick.toNat := by simpa [setActivated] using hd
      have hinit := initTick_setActivated (t := t) (s := F.timers) (b := false)
      obtain ⟨n, hn, hplace⟩ := (hF t S hb hsoft' hd').fires
      cases hplace with
      | waiting h1 => exact absurd h1 (i.quiet.firing t hp)
      | firing h1 h2 h3 h4 =>
          refine onTime_of_start (n := n) hskip' hs hsoft hd hinit.symm (hinit ▸ h3) ?_ (hinit ▸ hn)
          intro hper'
          have hper'' : (F.timers.timer t).periodic = false := by
            simpa [setActivated] using hper'
          rw [hper] at hper''
          cases hper''
      | ended h1 => exact absurd hp h1
    · have htimer : (F.timers.setActivated u false).timer t = F.timers.timer t :=
        modify_of_ne htu
      rw [f.others t htu, htimer] at hsoft hd
      refine (hF t S hb hsoft hd).frame_start hskip' hs htu htimer rfl key_setActivated ?_
        fun hp' => by cases hp'
      refine iff_of_false (fun hp' => by cases hp') fun hp' => ?_
      rw [hp] at hp'
      exact htu (CheckPhase.firing.inj hp').symm
  · -- a timer is stopped
    by_cases htu : t = u
    · subst htu
      change ((F.timers.setActivated t false).timer t).soft = false at hsoft
      have hsoft' : (F.timers.timer t).soft = false := by simpa [setActivated] using hsoft
      have hinit := initTick_setActivated (t := t) (s := F.timers) (b := false)
      change 1 ≤ ((F.timers.setActivated t false).timer t).initTick.toNat at hd
      rw [hinit] at hd
      have hnot := i.quiet.firing t hp
      obtain ⟨n, hn, hplace⟩ := (hF t S hb hsoft' hd).fires
      refine ⟨fun hm => absurd hm hnot, n, ?_, ?_⟩
      · change F.fires t S = every S ((F.timers.setActivated t false).timer t).initTick.toNat n
        rw [hinit]
        exact hn
      · change Place _ t S ((F.timers.setActivated t false).timer t).initTick.toNat n
        rw [hinit]
        cases hplace with
        | waiting h1 => exact absurd h1 hnot
        | firing h1 h2 h3 h4 =>
            have hone : (F.timers.timer t).periodic = false := by
              cases hv : (F.timers.timer t).periodic with
              | false => rfl
              | true =>
                  rw [hper hv] at h2
                  cases h2
            refine .ended (fun hp' => by cases hp') hnot ?_ (h4 hone) ?_
            · change ((F.timers.setActivated t false).timer t).periodic = false
              simpa [setActivated] using hone
            · rw [h4 hone, Nat.one_mul] at h3
              exact h3.ge
        | ended h1 => exact absurd hp h1
    · have htimer : (F.timers.setActivated u false).timer t = F.timers.timer t :=
        modify_of_ne htu
      change ((F.timers.setActivated u false).timer t).soft = false at hsoft
      change 1 ≤ ((F.timers.setActivated u false).timer t).initTick.toNat at hd
      rw [htimer] at hsoft hd
      refine (hF t S hb hsoft hd).frame htimer Iff.rfl key_setActivated rfl rfl rfl ?_
        fun _ hp' => by cases hp'
      refine iff_of_false (fun hp' => by cases hp') fun hp' => ?_
      rw [hp] at hp'
      exact htu (CheckPhase.firing.inj hp').symm
  · -- the check returns
    refine (hF t S hb hsoft hd).frame rfl Iff.rfl rfl rfl rfl rfl ?_ fun ht _ => Or.inr ?_
    · exact iff_of_false (fun hp' => by cases hp') (by simp [hp])
    · rw [show cur = F.timers.tick from i.quiet.inv.checking cur hp] at hex
      rcases expired_none hex with hnil | ⟨v, l, hl, hdue⟩
      · rw [hnil] at ht
        cases ht
      · exact TimerRun.not_due_of_head hskip hl hdue t ht

theorem Init.scheduled (h : F.Init) : F.Scheduled := by
  intro t S hb
  rw [h.2.2.2.1] at hb
  cases hb

/-- What has fired, between the checks. -/
theorem OnTime.fires_eq (o : F.OnTime t S) (i : F.Inv) (hp : F.run.sys.phase = .idle) :
    ((F.timers.timer t).periodic = true → F.fires t S = every S (F.timers.timer t).initTick.toNat
      ((F.now - S) / (F.timers.timer t).initTick.toNat)) ∧
    ((F.timers.timer t).periodic = false → F.fires t S =
      if S + (F.timers.timer t).initTick.toNat ≤ F.now then
        [S + (F.timers.timer t).initTick.toNat]
      else []) := by
  obtain ⟨n, hn, hplace⟩ := o.fires
  rw [hn]
  cases hplace with
  | waiting h1 h2 h3 h4 =>
      have h5 := (o.early h1).2 hp
      have h6 := i.linked t h1
      refine ⟨fun _ => ?_, fun hone => ?_⟩
      · rw [Nat.div_eq_of_lt_le (k := n)] <;> omega
      · obtain rfl := h4 hone
        rw [if_neg (by omega)]
        rfl
  | firing h1 =>
      rw [hp] at h1
      cases h1
  | ended h1 h2 h3 h4 h5 =>
      refine ⟨fun hper => ?_, fun _ => ?_⟩
      · rw [h3] at hper
        cases hper
      · rw [if_pos h5, h4]
        simp [every]

/-! ## The check returns -/

/-- The run goes where the system goes. -/
theorem exec_of_sys {q : HardSys} (h : F.run.sys.exec a = some q) :
    ∃ F', F.exec a = some F' ∧ F'.run.sys = q := by
  obtain ⟨R, hR, hq⟩ : ∃ R, F.run.exec a = some R ∧ R.sys = q := by
    unfold TimerRun.exec
    rw [h]
    cases F.run.sys.starts a <;> exact ⟨_, rfl, rfl⟩
  unfold FireRun.exec
  rw [hR]
  exact ⟨_, rfl, hq⟩

/-- What `rt_timer_check` does after a timeout function leaves no more timers over than before. -/
theorem afterTimeout_due {s : Timers} {stamp : TimerId → Nat} {c : Nat}
    (hs : SkipInv s false stamp c) (ho : (s.timer t).object = true)
    (hsoft : (s.timer t).soft = false) (hd : 1 ≤ (s.timer t).initTick.toNat)
    (hi : (s.timer t).initTick.toNat < RT_TICK_MAX / 2) (ht : t ∉ s.low false) :
    ∃ s', s.afterTimeout t = some s' ∧
      (∀ u ∈ s'.low false, (u = t ∨ u ∈ s.low false) ∧
        (s'.timer u).initTick = (s.timer u).initTick) ∧
      (s'.low false).countP (s'.due s'.tick) ≤ (s.low false).countP (s.due s.tick) := by
  unfold afterTimeout
  split_ifs with hper
  · have hs' := skipInv_setActivated (t := t) (b := false) hs
    have hfield : ((s.setActivated t false).timer t).object = true ∧
        ((s.setActivated t false).timer t).soft = false := by
      simp [setActivated, ho, hsoft]
    have hinit := initTick_setActivated (t := t) (s := s) (b := false)
    obtain ⟨s', A, B, h1, st⟩ := rtTimerStart_spec (by rw [hfield.2]; exact hs') hfield.1
      (by rw [hinit]; exact hi)
    have f := st.frame
    have hbefore := st.before
    have hlow := st.low
    rw [hfield.2] at hbefore hlow
    have hAB : s.low false = A ++ B := by
      rw [← hbefore]
      exact (List.erase_of_not_mem ht).symm
    have hne : ∀ u ∈ A ++ B, u ≠ t := fun u hu he => ht (hAB ▸ he ▸ hu)
    have hother : ∀ u, u ≠ t → s'.timer u = s.timer u := fun u hu =>
      (f.others u hu).trans (modify_of_ne hu)
    refine ⟨s', h1, fun u hu => ?_, ?_⟩
    · rw [hlow, List.mem_append, List.mem_cons] at hu
      rw [hAB, List.mem_append]
      refine ⟨by tauto, ?_⟩
      by_cases hut : u = t
      · rw [hut, f.self]
        exact hinit
      · rw [hother u hut]
    · have hdue : ∀ u ∈ A ++ B, s'.due s'.tick u = true ↔ s.due s.tick u = true := fun u hu => by
        unfold due
        rw [hother u (hne u hu), f.tick]
        rfl
      have hnot := not_due_of_start f (by rw [hinit]; exact hd)
      rw [hlow, hAB, List.countP_append, List.countP_cons_of_neg (by simp [hnot]),
        ← List.countP_append, List.countP_congr hdue]
  · refine ⟨_, rfl, fun u hu => ⟨Or.inr hu, ?_⟩, le_of_eq (List.countP_congr fun u _ => ?_)⟩
    · by_cases hut : u = t
      · rw [hut, initTick_setActivated]
      · rw [setActivated, modify_of_ne hut]
    · unfold due setActivated
      by_cases hut : u = t
      · rw [hut, modify_self]
        rfl
      · rw [modify_of_ne hut]
        rfl

/-- The rounds of a check that calls `n` timeout functions. -/
def rounds (n : Nat) : List HardAction := (List.replicate n [.select, .finish]).flatten

/-- **`rt_timer_check` returns**, when every timer has a tick to go after its start. -/
theorem Inv.check_returns {current : Tick} (i : F.Inv) (hp : F.run.sys.phase = .checking current)
    (hd : ∀ t ∈ F.timers.low false, 1 ≤ (F.timers.timer t).initTick.toNat ∧
      (F.timers.timer t).initTick.toNat < RT_TICK_MAX / 2) :
    ∃ n F', runList FireRun.exec F (rounds n ++ [.leave]) = some F' ∧
      F'.run.sys.phase = .idle := by
  -- each round leaves fewer timers that are over
  induction hc : (F.timers.low false).countP (F.timers.due F.timers.tick)
    using Nat.strong_induction_on generalizing F current with
  | h m ih =>
      have hcur : current = F.timers.tick := i.quiet.inv.checking current hp
      cases hex : expired F.timers current with
      | none =>
          have hx : F.run.sys.exec .leave = some ⟨F.timers, .idle⟩ := by
            simp only [HardSys.exec, hp]
            exact if_pos hex
          obtain ⟨F', hF', hsys⟩ := exec_of_sys hx
          refine ⟨0, F', ?_, by rw [hsys]⟩
          simp [rounds, runList, hF']
      | some t =>
          obtain ⟨⟨l, hl⟩, hdue⟩ := expired_some hex
          rw [hcur] at hdue
          have ht : t ∈ F.timers.low false := by
            rw [hl]
            exact List.mem_cons_self
          have hx : F.run.sys.exec .select = some ⟨F.timers.timerRemove t, .firing t⟩ := by
            simp only [HardSys.exec, hp]
            exact Option.map_eq_some_iff.mpr ⟨t, hex, rfl⟩
          obtain ⟨F₁, hF₁, hsys₁⟩ := exec_of_sys hx
          have i₁ : F₁.Inv := i.step ⟨hF₁, trivial⟩
          have htimers₁ : F₁.timers = F.timers.timerRemove t := by rw [timers, hsys₁]
          have hlow₁ : (F.timers.timerRemove t).low false = l := by
            change (F.timers.low false).erase t = l
            rw [hl]
            exact List.erase_cons_head ..
          -- the timeout function returns
          obtain ⟨h1, -, h3⟩ := i.quiet.flags.linked t ht
          obtain ⟨s, hs, hs', hcount⟩ := afterTimeout_due (htimers₁ ▸ i₁.quiet.inv.skip :
            SkipInv (F.timers.timerRemove t) false F₁.run.stamp F₁.run.starts) h1 h3
            (hd t ht).1 (hd t ht).2 fun hm => by
              have hnd := i.quiet.inv.skip.nodup
              rw [show F.run.sys.timers.low false = t :: l from hl] at hnd
              exact (List.nodup_cons.mp hnd).1 (hlow₁ ▸ hm)
          have hx₁ : F₁.run.sys.exec .finish = some ⟨s, .checking s.tick⟩ := by
            rw [hsys₁]
            simp only [HardSys.exec, hs, Option.map_some]
          obtain ⟨F₂, hF₂, hsys₂⟩ := exec_of_sys hx₁
          have htimers₂ : F₂.timers = s := by rw [timers, hsys₂]
          have hlt : (F₂.timers.low false).countP (F₂.timers.due F₂.timers.tick) < m := by
            rw [htimers₂, ← hc, hl, List.countP_cons_of_pos (by simpa using hdue)]
            refine Nat.lt_succ_of_le (hcount.trans (le_of_eq ?_))
            rw [hlow₁]
            rfl
          obtain ⟨n, F', hF', hidle⟩ := ih _ hlt (i₁.step ⟨hF₂, trivial⟩) (by rw [hsys₂])
            (fun u hu => by
              rw [htimers₂] at hu ⊢
              obtain ⟨hu', hinit⟩ := hs' u hu
              rw [hinit]
              rcases hu' with rfl | hu'
              · exact hd u ht
              · exact hd u (by rw [hl]; exact List.mem_cons_of_mem t (hlow₁ ▸ hu'))) rfl
          refine ⟨n + 1, F', ?_, hidle⟩
          rw [rounds, List.replicate_succ, List.flatten_cons, List.append_assoc]
          simp only [List.cons_append, List.nil_append, runList, hF₁, hF₂, Option.bind_some]
          exact hF'

/-! ## Runs -/

theorem reachable_inv (h : Reachable FireRun.Init QuietStep F) : F.Inv ∧ F.Scheduled :=
  h.invariant (I := fun F => F.Inv ∧ F.Scheduled) (fun _ hi => ⟨hi.inv, hi.scheduled⟩)
    fun _ _ _ _ i hs => ⟨i.1.step hs, i.2.step i.1 hs⟩

/-- **The hard timers expire on time.** In the runs in which no timeout function touches a timer, for
every tick at the beginning: a timer that was started at `S` with `d ≥ 1` ticks and that no call was
about since has fired at `S + d`, or, when it is periodic, at every `S + k * d` up to now; in one
check the timers fire in the order of their expiry and then of their last start; and when every timer
has a tick to go after its start, the check of the next tick returns. -/
theorem hard_timer_expiry (h : Reachable FireRun.Init QuietStep F)
    (hp : F.run.sys.phase = .idle) :
    F.timers.tick = F.origin + BitVec.ofNat 32 F.now ∧
    (∀ t S, F.begun t = some S → (F.timers.timer t).soft = false →
      1 ≤ (F.timers.timer t).initTick.toNat →
      ((F.timers.timer t).periodic = true → F.fires t S = every S (F.timers.timer t).initTick.toNat
        ((F.now - S) / (F.timers.timer t).initTick.toNat)) ∧
      ((F.timers.timer t).periodic = false → F.fires t S =
        if S + (F.timers.timer t).initTick.toNat ≤ F.now then
          [S + (F.timers.timer t).initTick.toNat]
        else [])) ∧
    F.log.Pairwise Fire.Before ∧
    ((∀ t ∈ F.timers.low false, 1 ≤ (F.timers.timer t).initTick.toNat ∧
        (F.timers.timer t).initTick.toNat < RT_TICK_MAX / 2) →
      ∃ n F', runList FireRun.exec F (.tick :: (rounds n ++ [.leave])) = some F' ∧
        F'.run.sys.phase = .idle) := by
  obtain ⟨i, hs⟩ := reachable_inv h
  refine ⟨i.clock, fun t S hb hsoft hd => (hs t S hb hsoft hd).fires_eq i hp, i.sorted,
    fun hd => ?_⟩
  have hx : F.run.sys.exec .tick = some ⟨{ F.timers with tick := F.timers.tick + 1 },
      .checking (F.timers.tick + 1)⟩ := by
    simp only [HardSys.exec, hp]
  obtain ⟨F₁, hF₁, hsys₁⟩ := exec_of_sys hx
  have htimers₁ : F₁.timers = { F.timers with tick := F.timers.tick + 1 } := by
    rw [timers, hsys₁]
  obtain ⟨n, F', hF', hidle⟩ := (i.step ⟨hF₁, trivial⟩).check_returns (by rw [hsys₁]) (by
    rw [htimers₁]
    exact hd)
  refine ⟨n, F', ?_, hidle⟩
  simp only [runList, hF₁, Option.bind_some]
  exact hF'

end

end FireRun

/-! ## Two timers that expire at the same tick -/

attribute [local instance] oneRow

/-- Timer 0 is periodic with two ticks, and timer 1 one-shot with three; two ticks before the
wrap. -/
def twoTimers : FireRun where
  run :=
    { sys :=
        { timers :=
            { tick := 0xfffffffe
              timer := fun t => ⟨true, false, t = 0, false, if t = 0 then 2 else 3, 0⟩
              rows := fun _ _ => []
              randomNr := 0 }
          phase := .idle }
      stamp := fun _ => 0
      starts := 0 }
  origin := 0xfffffffe
  now := 0
  begun := fun _ => none
  expiry := fun _ => 0
  log := []

theorem twoTimers_init : twoTimers.Init :=
  ⟨⟨fun _ _ => rfl, fun _ => rfl, rfl⟩, rfl, rfl, rfl, rfl⟩

/-- Timer 0 is started at 0, timer 1 at 1; four ticks in all. -/
def fourTicks : List HardAction :=
  [.op (.start 0), .tick, .leave, .op (.start 1), .tick, .select, .finish, .leave,
    .tick, .leave, .tick, .select, .finish, .select, .finish, .leave]

theorem fourTicks_run : ∃ F,
    runList (stepIf FireRun.exec fun F a => Quiet F.run.sys a) twoTimers fourTicks = some F ∧
    F.run.sys.phase = .idle ∧ F.begun 0 = some 0 ∧ F.begun 1 = some 1 ∧
    F.log.map (fun e => (e.time, e.timer, e.expiry)) = [(2, 0, 2), (4, 1, 4), (4, 0, 4)] ∧
    F.now = 4 ∧ (F.timers.timer 0).soft = false ∧ (F.timers.timer 0).periodic = true ∧
    (F.timers.timer 0).initTick.toNat = 2 := by
  have hrun : (runList (stepIf FireRun.exec fun F a => Quiet F.run.sys a) twoTimers fourTicks).map
      (fun F => decide (F.run.sys.phase = .idle ∧ F.begun 0 = some 0 ∧ F.begun 1 = some 1 ∧
        F.log.map (fun e => (e.time, e.timer, e.expiry)) = [(2, 0, 2), (4, 1, 4), (4, 0, 4)] ∧
        F.now = 4 ∧ (F.timers.timer 0).soft = false ∧ (F.timers.timer 0).periodic = true ∧
        (F.timers.timer 0).initTick.toNat = 2)) = some true := by
    decide +kernel
  obtain ⟨F, hF, he⟩ := Option.map_eq_some_iff.mp hrun
  exact ⟨F, hF, of_decide_eq_true he⟩

/-- Timer 0 fired at 2 and 4. -/
theorem hard_timer_expiry_fourTicks : ∃ F,
    runList (stepIf FireRun.exec fun F a => Quiet F.run.sys a) twoTimers fourTicks = some F ∧
    F.fires 0 0 = [2, 4] ∧ F.log.Pairwise Fire.Before := by
  obtain ⟨F, hF, hp, hb, -, -, hnow, hsoft, hper, hd⟩ := fourTicks_run
  obtain ⟨-, h1, h2, -⟩ :=
    FireRun.hard_timer_expiry (reachable_of_runList_stepIf twoTimers_init hF) hp
  have h3 := (h1 0 0 hb hsoft (by rw [hd]; decide)).1 hper
  rw [hd, hnow] at h3
  exact ⟨F, hF, h3, h2⟩

/-- Timer 0 was started before timer 1 and fires after it in the same check, although both expire
at the tick of this check. -/
theorem restarted_timer_fires_last : ∃ F, Reachable FireRun.Init FireRun.QuietStep F ∧
    F.begun 0 = some 0 ∧ F.begun 1 = some 1 ∧
    F.log.map (fun e => (e.time, e.timer, e.expiry)) = [(2, 0, 2), (4, 1, 4), (4, 0, 4)] := by
  obtain ⟨F, hF, -, h1, h2, h3, -⟩ := fourTicks_run
  exact ⟨F, reachable_of_runList_stepIf twoTimers_init hF, h1, h2, h3⟩

end RTThread
