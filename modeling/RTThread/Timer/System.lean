import RTThread.Lib.Run
import RTThread.Timer.Order

set_option autoImplicit false

/-! # The clock and the hard timers

Threads and interrupt handlers call the timer functions; a tick increments the clock and then runs
`rt_timer_check`. The check goes round its loop once for each timer that is over: it takes the timer
out of the list, calls its timeout function, which may call the timer functions itself, and then
starts the timer again or marks it as stopped. It leaves the loop when the first timer is not over.
-/

namespace RTThread

open Trans

/-- A call of a timer function. -/
inductive TimerOp
  | start (t : TimerId)
  | stop (t : TimerId)
  | detach (t : TimerId)
  | control (t : TimerId) (cmd : TimerCtrl)

/-- The timer a call is about. -/
def TimerOp.timer : TimerOp → TimerId
  | .start t | .stop t | .detach t | .control t _ => t

/-- Where `rt_timer_check` is. -/
inductive CheckPhase
  | idle
  /-- at the head of the loop, with `current_tick` -/
  | checking (current : Tick)
  /-- in the timeout function of a timer -/
  | firing (t : TimerId)
  deriving DecidableEq

/-- The timers and the check. -/
structure HardSys where
  timers : Timers
  phase : CheckPhase

inductive HardAction
  | op (o : TimerOp)
  /-- `rt_tick_increase` up to the loop of `rt_timer_check` -/
  | tick
  /-- the first timer is over: it is removed, and its timeout function called -/
  | select
  /-- the timeout function returns -/
  | finish
  /-- the first timer is not over, or there is none -/
  | leave

variable [TimerConfig]

def Timers.op (s : Timers) : TimerOp → Option Timers
  | .start t => s.rtTimerStart t
  | .stop t => (s.rtTimerStop t).map Prod.snd
  | .detach t => s.rtTimerDetach t
  | .control t cmd => s.rtTimerControl t cmd

namespace HardSys

/-- The first timer, when it is over. -/
def expired (s : Timers) (current : Tick) : Option TimerId :=
  (s.low false).head?.filter fun t => s.due current t

def exec (q : HardSys) : HardAction → Option HardSys
  | .op o => match q.phase with
    | .checking _ => none
    | p => (q.timers.op o).map fun s => ⟨s, p⟩
  | .tick => match q.phase with
    | .idle =>
      let s := { q.timers with tick := q.timers.tick + 1 }
      some ⟨s, .checking s.tick⟩
    | _ => none
  | .select => match q.phase with
    | .checking current =>
      (expired q.timers current).map fun t => ⟨q.timers.timerRemove t, .firing t⟩
    | _ => none
  | .finish => match q.phase with
    | .firing t => (q.timers.afterTimeout t).map fun s => ⟨s, .checking s.tick⟩
    | _ => none
  | .leave => match q.phase with
    | .checking current =>
      if expired q.timers current = none then some ⟨q.timers, .idle⟩ else none
    | _ => none

/-- Nothing is started yet. -/
structure Init (q : HardSys) : Prop where
  rows : ∀ k i, q.timers.rows k i = []
  activated : ∀ t, (q.timers.timer t).activated = false
  phase : q.phase = .idle

/-- The timer that a step starts. -/
def starts (q : HardSys) : HardAction → Option TimerId
  | .op (.start t) => some t
  | .finish => match q.phase with
    | .firing t =>
      if (q.timers.timer t).periodic = true ∧ (q.timers.timer t).activated = true then some t
      else none
    | _ => none
  | _ => none

end HardSys

/-- A run that numbers the starts. -/
structure TimerRun where
  sys : HardSys
  /-- the number of the last start of a timer -/
  stamp : TimerId → Nat
  starts : Nat

namespace TimerRun

def exec (S : TimerRun) (a : HardAction) : Option TimerRun :=
  (S.sys.exec a).map fun q => match S.sys.starts a with
    | some t => ⟨q, Function.update S.stamp t S.starts, S.starts + 1⟩
    | none => { S with sys := q }

def Init (S : TimerRun) : Prop := S.sys.Init

/-- What holds of the hard timers in every run. -/
structure Inv (S : TimerRun) : Prop where
  skip : S.sys.timers.SkipInv false S.stamp S.starts
  /-- between the checks no timer is over -/
  idle : S.sys.phase = .idle → ∀ t ∈ S.sys.timers.low false, 1 ≤ S.sys.timers.key t
  checking : ∀ current, S.sys.phase = .checking current → current = S.sys.timers.tick

end TimerRun

/-! ## Steps -/

namespace HardSys

open Timers

variable {q q' : HardSys} {a : HardAction} {s s' : Timers} {t u : TimerId} {o : TimerOp}
  {current : Tick}

theorem expired_some (h : expired s current = some t) :
    (∃ l, s.low false = t :: l) ∧ s.due current t = true := by
  obtain ⟨h1, h2⟩ := Option.filter_eq_some_iff.mp h
  obtain ⟨l, hl⟩ := List.head?_eq_some_iff.mp h1
  exact ⟨⟨l, hl⟩, h2⟩

theorem expired_none (h : expired s current = none) :
    s.low false = [] ∨ ∃ t l, s.low false = t :: l ∧ s.due current t = false := by
  cases hl : s.low false with
  | nil => exact Or.inl rfl
  | cons t l =>
      refine Or.inr ⟨t, l, rfl, ?_⟩
      unfold expired at h
      rw [hl, List.head?_cons, Option.filter_eq_none_iff] at h
      simpa using h t rfl

/-- **What a step is.** -/
theorem exec_cases (h : q.exec a = some q') :
    (∃ o s, a = .op o ∧ (∀ current, q.phase ≠ .checking current) ∧ q.timers.op o = some s ∧
      q' = ⟨s, q.phase⟩) ∨
    (a = .tick ∧ q.phase = .idle ∧
      q' = ⟨{ q.timers with tick := q.timers.tick + 1 }, .checking (q.timers.tick + 1)⟩) ∨
    (∃ current t, a = .select ∧ q.phase = .checking current ∧
      expired q.timers current = some t ∧ q' = ⟨q.timers.timerRemove t, .firing t⟩) ∨
    (∃ t s, a = .finish ∧ q.phase = .firing t ∧ q.timers.afterTimeout t = some s ∧
      q' = ⟨s, .checking s.tick⟩) ∨
    ∃ current, a = .leave ∧ q.phase = .checking current ∧ expired q.timers current = none ∧
      q' = ⟨q.timers, .idle⟩ := by
  obtain ⟨s, p⟩ := q
  cases a with
  | op o =>
      cases p with
      | checking c => cases h
      | idle | firing =>
          obtain ⟨s', hs, rfl⟩ := Option.map_eq_some_iff.mp h
          exact Or.inl ⟨o, s', rfl, by simp, hs, rfl⟩
  | tick =>
      cases p with
      | idle => exact Or.inr (Or.inl ⟨rfl, rfl, (Option.some.inj h).symm⟩)
      | _ => cases h
  | select =>
      cases p with
      | checking c =>
          obtain ⟨t, ht, rfl⟩ := Option.map_eq_some_iff.mp h
          exact Or.inr (Or.inr (Or.inl ⟨c, t, rfl, rfl, ht, rfl⟩))
      | _ => cases h
  | finish =>
      cases p with
      | firing t =>
          obtain ⟨s', hs, rfl⟩ := Option.map_eq_some_iff.mp h
          exact Or.inr (Or.inr (Or.inr (Or.inl ⟨t, s', rfl, rfl, hs, rfl⟩)))
      | _ => cases h
  | leave =>
      cases p with
      | checking c =>
          simp only [exec] at h
          split_ifs at h with he
          exact Or.inr (Or.inr (Or.inr (Or.inr ⟨c, rfl, rfl, he, (Option.some.inj h).symm⟩)))
      | _ => cases h

/-- A call that starts no timer: the rows lose a timer at most, and no timeout changes. -/
structure Loosens (s : Timers) (t : TimerId) (s' : Timers) : Prop where
  tick : s'.tick = s.tick
  rows : s'.rows = s.rows ∨ s'.rows = (s.timerRemove t).rows
  others : ∀ u, u ≠ t → s'.timer u = s.timer u
  self : (s'.timer t).soft = (s.timer t).soft ∧ (s'.timer t).timeoutTick = (s.timer t).timeoutTick

omit [TimerConfig] in
theorem Loosens.modify {f : Timer → Timer}
    (hf : ∀ x, (f x).soft = x.soft ∧ (f x).timeoutTick = x.timeoutTick) :
    Loosens s t (s.modify t f) ∧ Loosens s t ((s.timerRemove t).modify t f) := by
  refine ⟨⟨rfl, Or.inl rfl, fun u hu => modify_of_ne hu, ?_⟩,
    ⟨rfl, Or.inr rfl, fun u hu => modify_of_ne hu, ?_⟩⟩ <;> rw [modify_self] <;> exact hf _

theorem op_cases (h : s.op o = some s') : (∃ t, o = .start t ∧ s.rtTimerStart t = some s') ∨
    (∀ t, o ≠ .start t) ∧ Loosens s o.timer s' := by
  cases o with
  | start t => exact Or.inl ⟨t, rfl, h⟩
  | stop t =>
      obtain ⟨⟨e, s₁⟩, h1, rfl⟩ := Option.map_eq_some_iff.mp h
      refine Or.inr ⟨by simp, ?_⟩
      unfold rtTimerStop at h1
      split_ifs at h1 <;> obtain ⟨-, rfl⟩ := Prod.mk.inj (Option.some.inj h1)
      · exact ⟨rfl, Or.inl rfl, fun _ _ => rfl, rfl, rfl⟩
      · exact (Loosens.modify (f := fun x => { x with activated := false }) fun _ => ⟨rfl, rfl⟩).2
  | detach t =>
      simp only [op, rtTimerDetach] at h
      split_ifs at h
      obtain rfl := Option.some.inj h
      refine Or.inr ⟨by simp, ?_⟩
      exact (Loosens.modify (f := fun x => { x with object := false }) fun _ => ⟨rfl, rfl⟩).2
  | control t cmd =>
      simp only [op, rtTimerControl] at h
      split_ifs at h
      obtain rfl := Option.some.inj h
      exact Or.inr ⟨by simp, (Loosens.modify fun _ => by cases cmd <;> exact ⟨rfl, rfl⟩).1⟩

end HardSys

namespace TimerRun

open Timers HardSys

variable {S S' : TimerRun} {a : HardAction} {s s' : Timers} {t u : TimerId} {k : Bool}
  {stamp : TimerId → Nat} {c : Nat}

theorem loosens_skipInv (l : Loosens s t s') (i : SkipInv s k stamp c) :
    SkipInv s' k stamp c ∧ (∀ u ∈ s'.low k, u ∈ s.low k) ∧ ∀ u, s'.key u = s.key u := by
  have hkey : ∀ u, s'.key u = s.key u := fun u => by
    unfold key
    rw [l.tick]
    by_cases hu : u = t
    · rw [hu, l.self.2]
    · rw [l.others u hu]
  have hsoft : ∀ u, (s'.timer u).soft = (s.timer u).soft := fun u => by
    by_cases hu : u = t
    · rw [hu, l.self.1]
    · rw [l.others u hu]
  rcases l.rows with hr | hr
  · refine ⟨i.congr (congrFun hr k) fun u _ => ⟨hsoft u, hkey u⟩, fun u hu => ?_, hkey⟩
    rwa [low, hr] at hu
  · refine ⟨(i.remove t).congr (congrFun hr k) fun u _ => ⟨hsoft u, hkey u⟩, fun u hu => ?_, hkey⟩
    rw [low, hr] at hu
    exact (i.mem_remove.mp hu).1

/-- A start, in any list. -/
theorem start_skipInv (i : SkipInv s false stamp c) (h : s.rtTimerStart t = some s') :
    SkipInv s' false (Function.update stamp t c) (c + 1) ∧
      (∀ u ∈ s'.low false, u = t ∨ u ∈ s.low false) ∧ (∀ u, u ≠ t → s'.key u = s.key u) ∧
      s'.key t = (s.timer t).initTick.toNat + 1 := by
  have f := startFrame h
  have hku : ∀ u, u ≠ t → s'.key u = s.key u := fun u hu => by
    unfold key
    rw [f.others u hu, f.tick]
  have hkt : s'.key t = (s.timer t).initTick.toNat + 1 := by
    refine key_of_start ?_ f.init
    rw [f.self, f.tick]
  by_cases hk : (s.timer t).soft = false
  · obtain ⟨s₁, A, B, h1, st⟩ := rtTimerStart_spec (by rw [hk]; exact i) f.object f.init
    obtain rfl := Option.some.inj (h.symm.trans h1)
    have hs := st.skipInv (by rw [hk]; exact i)
    have hlow := st.low
    have hbefore := st.before
    rw [hk] at hs hlow hbefore
    refine ⟨hs, fun u hu => ?_, hku, hkt⟩
    have hu' : u = t ∨ u ∈ A ++ B := by
      rw [hlow, List.mem_append, List.mem_cons] at hu
      rw [List.mem_append]
      tauto
    rw [← hbefore] at hu'
    exact hu'.imp_right fun hm => (i.mem_remove.mp hm).1
  · obtain ⟨h1, h2⟩ := f.skipInv (k := false) (fun h => hk h.symm) i
    exact ⟨h1, fun u hu => Or.inr (h2 ▸ hu), hku, hkt⟩

omit [TimerConfig] in
/-- One tick less to go. -/
theorem key_tick (h : 1 ≤ s.key t) : key { s with tick := s.tick + 1 } t + 1 = s.key t := by
  unfold key at *
  dsimp only
  bv_omega

theorem tick_skipInv (i : SkipInv s k stamp c) (h : ∀ t ∈ s.low k, 1 ≤ s.key t) :
    SkipInv { s with tick := s.tick + 1 } k stamp c := by
  have hkey : ∀ t ∈ s.low k, key { s with tick := s.tick + 1 } t + 1 = s.key t := fun t ht =>
    key_tick (h t ht)
  refine ⟨i.nested, i.kind, fun t ht => ?_, ?_, i.stamp⟩
  · have h1 := hkey t ht
    have h2 := i.window t ht
    omega
  · refine i.sorted.imp_of_mem fun {a b} ha hb hab => ?_
    have h1 := hkey a ha
    have h2 := hkey b hb
    omega

/-- Behind a timer that is not over, none is. -/
theorem not_due_of_head {l : List TimerId} (i : SkipInv s k stamp c) (hl : s.low k = t :: l)
    (hd : s.due s.tick t = false) : ∀ u ∈ s.low k, 2 ≤ s.key u := by
  have ht : t ∈ s.low k := by
    rw [hl]
    exact List.mem_cons_self
  have hkt : 2 ≤ s.key t := by
    have h := (not_congr (due_iff (i.window t ht))).mp (by simp [hd])
    omega
  intro u hu
  have hsort := i.sorted
  rw [hl] at hu hsort
  rcases List.mem_cons.mp hu with rfl | hu
  · exact hkt
  · have h := (List.pairwise_cons.mp hsort).1 u hu
    omega

theorem exec_some (h : S.exec a = some S') : S.sys.exec a = some S'.sys ∧
    ((∃ t, S.sys.starts a = some t ∧ S'.stamp = Function.update S.stamp t S.starts ∧
      S'.starts = S.starts + 1) ∨
    S.sys.starts a = none ∧ S'.stamp = S.stamp ∧ S'.starts = S.starts) := by
  obtain ⟨q, hq, hS⟩ := Option.map_eq_some_iff.mp h
  cases hs : S.sys.starts a with
  | none =>
      rw [hs] at hS
      subst hS
      exact ⟨hq, Or.inr ⟨rfl, rfl, rfl⟩⟩
  | some t =>
      rw [hs] at hS
      subst hS
      exact ⟨hq, Or.inl ⟨t, rfl, rfl, rfl⟩⟩

/-- **One step keeps the invariant.** -/
theorem Inv.step (i : S.Inv) (h : S.exec a = some S') : S'.Inv := by
  obtain ⟨hx, hstamp⟩ := exec_some h
  have hnone : S.sys.starts a = none → S'.stamp = S.stamp ∧ S'.starts = S.starts := fun hn => by
    rcases hstamp with ⟨t, hs, -⟩ | ⟨-, hs⟩
    · rw [hn] at hs
      cases hs
    · exact hs
  have hsome : ∀ {t}, S.sys.starts a = some t →
      S'.stamp = Function.update S.stamp t S.starts ∧ S'.starts = S.starts + 1 := fun {t} hn => by
    rcases hstamp with ⟨u, hs, h1⟩ | ⟨hs, -⟩
    · rw [hn] at hs
      obtain rfl := Option.some.inj hs
      exact h1
    · rw [hn] at hs
      cases hs
  obtain ⟨o, s, rfl, hp, ho, he⟩ | ⟨rfl, hp, he⟩ | ⟨cur, t, rfl, hp, hex, he⟩ |
    ⟨t, s, rfl, hp, hfin, he⟩ | ⟨cur, rfl, hp, hex, he⟩ := exec_cases hx
  · rcases op_cases ho with ⟨t, rfl, hs⟩ | ⟨hno, l⟩
    · obtain ⟨h1, h2, h3, h4⟩ := start_skipInv i.skip hs
      obtain ⟨h5, h6⟩ := hsome rfl
      refine ⟨by rw [he, h5, h6]; exact h1, fun hidle u hu => ?_, fun cur hc => ?_⟩
      · rw [he] at hidle hu ⊢
        by_cases hut : u = t
        · rw [hut]
          dsimp only
          omega
        · dsimp only
          rw [h3 u hut]
          exact i.idle hidle u ((h2 u hu).resolve_left hut)
      · rw [he] at hc
        exact absurd hc (hp cur)
    · obtain ⟨h1, h2, h3⟩ := loosens_skipInv l i.skip
      have hst : S.sys.starts (.op o) = none := by
        cases o with
        | start t => exact absurd rfl (hno t)
        | _ => rfl
      obtain ⟨h5, h6⟩ := hnone hst
      refine ⟨by rw [he, h5, h6]; exact h1, fun hidle u hu => ?_, fun cur hc => ?_⟩
      · rw [he] at hidle hu ⊢
        dsimp only
        rw [h3 u]
        exact i.idle hidle u (h2 u hu)
      · rw [he] at hc
        exact absurd hc (hp cur)
  · obtain ⟨h5, h6⟩ := hnone rfl
    refine ⟨?_, fun hidle => ?_, fun cur hc => ?_⟩
    · rw [he, h5, h6]
      exact tick_skipInv i.skip (i.idle hp)
    · rw [he] at hidle
      cases hidle
    · rw [he] at hc ⊢
      exact (CheckPhase.checking.inj hc).symm
  · obtain ⟨h5, h6⟩ := hnone rfl
    refine ⟨?_, fun hidle => ?_, fun cur hc => ?_⟩
    · rw [he, h5, h6]
      exact i.skip.remove t
    · rw [he] at hidle
      cases hidle
    · rw [he] at hc
      cases hc
  · refine ⟨?_, fun hidle => ?_, fun cur hc => ?_⟩
    · have hclear : SkipInv (S.sys.timers.setActivated t false) false S.stamp S.starts :=
        i.skip.modify fun _ => ⟨rfl, rfl⟩
      unfold afterTimeout at hfin
      split_ifs at hfin with hper
      · obtain ⟨h5, h6⟩ := hsome (t := t) (by simp [HardSys.starts, hp, hper])
        rw [he, h5, h6]
        exact (start_skipInv hclear hfin).1
      · obtain rfl := Option.some.inj hfin
        obtain ⟨h5, h6⟩ := hnone (by simpa [HardSys.starts, hp] using hper)
        rw [he, h5, h6]
        exact hclear
    · rw [he] at hidle
      cases hidle
    · rw [he] at hc ⊢
      exact (CheckPhase.checking.inj hc).symm
  · obtain ⟨h5, h6⟩ := hnone rfl
    refine ⟨by rw [he, h5, h6]; exact i.skip, fun _ u hu => ?_, fun cur hc => ?_⟩
    · rw [he] at hu ⊢
      rw [i.checking cur hp] at hex
      rcases expired_none hex with hnil | ⟨t, l, hl, hd⟩
      · rw [hnil] at hu
        cases hu
      · have h2 := not_due_of_head i.skip hl hd u hu
        dsimp only
        omega
    · rw [he] at hc
      cases hc

/-- The run goes where the system goes. -/
theorem exec_of_sys {q : HardSys} (h : S.sys.exec a = some q) :
    ∃ S', S.exec a = some S' ∧ S'.sys = q := by
  unfold exec
  rw [h]
  cases S.sys.starts a <;> exact ⟨_, rfl, rfl⟩

theorem Inv.run {q : HardSys} {l : List HardAction} (i : S.Inv)
    (h : runList HardSys.exec S.sys l = some q) : ∃ S' : TimerRun, S'.Inv ∧ S'.sys = q := by
  induction l generalizing S with
  | nil => exact ⟨S, i, Option.some.inj h⟩
  | cons a l ih =>
      obtain ⟨q₁, hq₁, hl⟩ := Option.bind_eq_some_iff.mp h
      obtain ⟨S₁, hS₁, rfl⟩ := exec_of_sys hq₁
      exact ih (i.step hS₁) hl

theorem Init.inv (h : S.Init) : S.Inv := by
  have hrow : ∀ j, S.sys.timers.rows false j = [] := h.rows false
  have hlow : S.sys.timers.low false = [] := hrow _
  refine ⟨⟨fun j _ => ?_, ?_, ?_, ?_, ?_⟩, ?_, fun cur hc => ?_⟩
  · rw [hrow, hrow]
  · simp [hlow]
  · simp [hlow]
  · simp [hlow]
  · simp [hlow]
  · simp [hlow]
  · rw [HardSys.Init.phase h] at hc
    cases hc

end TimerRun

end RTThread
