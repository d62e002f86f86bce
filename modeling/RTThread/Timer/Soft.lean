import RTThread.Timer.Flags

set_option autoImplicit false

/-! # The soft timers

`rt_soft_timer_check` goes along the list with a cursor: before it takes a timer out, it notes the
timer behind it, and after the timeout function it goes on from there. The timeout function runs with
the scheduler unlocked, and ticks may come at any time. When it takes the timer at the cursor out of
the list, the node of this timer points to itself, and the check fires it, again and again. Otherwise
the check fires timers of the list only, each start of a timer once, and it returns unless ticks, or
starts without a tick to go, keep coming.
-/

namespace RTThread

open Trans Timers SkipList

/-- Where `rt_soft_timer_check` is. -/
inductive SoftPhase
  | idle
  /-- at the head of the loop, with `current_tick` and `n`; `none` is the list itself -/
  | checking (current : Tick) (n : Option TimerId)
  /-- in the timeout function of a timer, with `n` -/
  | firing (t : TimerId) (n : Option TimerId)
  deriving DecidableEq

/-- The timers and the check. -/
structure SoftSys where
  timers : Timers
  phase : SoftPhase

inductive SoftAction
  | op (o : TimerOp)
  | tick
  /-- `rt_soft_timer_check` up to its loop -/
  | enter
  /-- the timer at the cursor is over: it is removed, and its timeout function called -/
  | select
  /-- the timeout function returns -/
  | finish
  /-- the timer at the cursor is not over, or the cursor is at the end -/
  | leave

section

variable [TimerConfig]

namespace SoftSys

/-- The timer at the cursor, when it is over. -/
def expired (s : Timers) (current : Tick) (n : Option TimerId) : Option TimerId :=
  n.filter fun t => s.due current t

def exec (q : SoftSys) : SoftAction → Option SoftSys
  | .op o => match q.phase with
    | .checking .. => none
    | p => (q.timers.op o).map fun s => ⟨s, p⟩
  | .tick => some { q with timers := { q.timers with tick := q.timers.tick + 1 } }
  | .enter => match q.phase with
    | .idle => some { q with phase := .checking q.timers.tick (q.timers.low true).head? }
    | _ => none
  | .select => match q.phase with
    | .checking current n => (expired q.timers current n).map fun t =>
        ⟨q.timers.timerRemove t, .firing t (next (q.timers.low true) t)⟩
    | _ => none
  | .finish => match q.phase with
    | .firing t n => (q.timers.afterTimeout t).map fun s => ⟨s, .checking s.tick n⟩
    | _ => none
  | .leave => match q.phase with
    | .checking current n =>
      if expired q.timers current n = none then some { q with phase := .idle } else none
    | _ => none

/-- Nothing is started yet. -/
structure Init (q : SoftSys) : Prop where
  rows : ∀ k i, q.timers.rows k i = []
  phase : q.phase = .idle

/-- The timer that a step starts. -/
def starts (q : SoftSys) : SoftAction → Option TimerId
  | .op (.start t) => some t
  | .finish => match q.phase with
    | .firing t _ =>
      if (q.timers.timer t).periodic = true ∧ (q.timers.timer t).activated = true then some t
      else none
    | _ => none
  | _ => none

/-- The timer that the check selects. -/
def selected (q : SoftSys) : Option TimerId :=
  match q.phase with
  | .checking current n => expired q.timers current n
  | _ => none

/-- A timeout function returns and has taken the timer at the cursor out of the list, although its
time is over. -/
def Strays (q : SoftSys) : SoftAction → Prop
  | .finish => match q.phase with
    | .firing _ (some u) => u ∉ q.timers.low true ∧ q.timers.due q.timers.tick u = true
    | _ => False
  | _ => False

instance (q : SoftSys) (a : SoftAction) : Decidable (Strays q a) := by
  unfold Strays
  split
  · split <;> infer_instance
  · infer_instance

end SoftSys

/-- A run that numbers the starts, and keeps those that have fired. -/
structure SoftRun where
  sys : SoftSys
  /-- the number of the last start of a timer -/
  stamp : TimerId → Nat
  starts : Nat
  fired : List Nat

namespace SoftRun

abbrev timers (S : SoftRun) : Timers := S.sys.timers

def exec (S : SoftRun) (a : SoftAction) : Option SoftRun :=
  (S.sys.exec a).map fun q =>
    { sys := q
      stamp := match S.sys.starts a with
        | some t => Function.update S.stamp t S.starts
        | none => S.stamp
      starts := match S.sys.starts a with
        | some _ => S.starts + 1
        | none => S.starts
      fired := match a, S.sys.selected with
        | .select, some t => S.fired ++ [S.stamp t]
        | _, _ => S.fired }

def Init (S : SoftRun) : Prop := S.sys.Init ∧ S.fired = []

/-- A step that does not stray. -/
def KeepStep (S : SoftRun) (a : SoftAction) (S' : SoftRun) : Prop :=
  S.exec a = some S' ∧ ¬ SoftSys.Strays S.sys a

/-- The list holds what was started and has not fired. -/
structure Listed (s : Timers) (stamp : TimerId → Nat) (c : Nat) (fired : List Nat) : Prop where
  nodup : (s.low true).Nodup
  kind : ∀ t ∈ s.low true, (s.timer t).soft = true
  fresh : ∀ t ∈ s.low true, stamp t < c ∧ stamp t ∉ fired
  distinct : (s.low true).Pairwise fun a b => stamp a ≠ stamp b

structure Inv (S : SoftRun) : Prop where
  listed : Listed S.timers S.stamp S.starts S.fired
  past : ∀ c ∈ S.fired, c < S.starts
  once : S.fired.Nodup
  cursor : ∀ t u, S.sys.phase = .firing t (some u) → u ≠ t
  /-- the timer that the check selects is in the list -/
  selected : ∀ t, S.sys.selected = some t → t ∈ S.timers.low true

/-- A start. -/
def started (S : SoftRun) (t : TimerId) (s : Timers) (p : SoftPhase) : SoftRun :=
  ⟨⟨s, p⟩, Function.update S.stamp t S.starts, S.starts + 1, S.fired⟩

/-- A step that starts nothing. -/
def moved (S : SoftRun) (s : Timers) (p : SoftPhase) : SoftRun := { S with sys := ⟨s, p⟩ }

end SoftRun

/-! ## Steps -/

namespace SoftSys

variable {q q' : SoftSys} {a : SoftAction} {s s' : Timers} {t u : TimerId} {o : TimerOp}
  {current : Tick} {n : Option TimerId}

omit [TimerConfig] in
theorem expired_some (h : expired s current n = some t) :
    n = some t ∧ s.due current t = true :=
  Option.filter_eq_some_iff.mp h

/-- **What a step is.** -/
theorem exec_cases (h : q.exec a = some q') :
    (∃ o s, a = .op o ∧ (∀ current n, q.phase ≠ .checking current n) ∧ q.timers.op o = some s ∧
      q' = ⟨s, q.phase⟩) ∨
    (a = .tick ∧ q' = ⟨{ q.timers with tick := q.timers.tick + 1 }, q.phase⟩) ∨
    (a = .enter ∧ q.phase = .idle ∧
      q' = ⟨q.timers, .checking q.timers.tick (q.timers.low true).head?⟩) ∨
    (∃ current t, a = .select ∧ q.phase = .checking current (some t) ∧
      q.timers.due current t = true ∧
      q' = ⟨q.timers.timerRemove t, .firing t (next (q.timers.low true) t)⟩) ∨
    (∃ t n s, a = .finish ∧ q.phase = .firing t n ∧ q.timers.afterTimeout t = some s ∧
      q' = ⟨s, .checking s.tick n⟩) ∨
    ∃ current n, a = .leave ∧ q.phase = .checking current n ∧
      expired q.timers current n = none ∧ q' = ⟨q.timers, .idle⟩ := by
  obtain ⟨s, p⟩ := q
  cases a with
  | op o =>
      cases p with
      | checking c => cases h
      | idle | firing =>
          obtain ⟨s', hs, rfl⟩ := Option.map_eq_some_iff.mp h
          exact Or.inl ⟨o, s', rfl, by simp, hs, rfl⟩
  | tick => exact Or.inr (Or.inl ⟨rfl, (Option.some.inj h).symm⟩)
  | enter =>
      cases p with
      | idle => exact Or.inr (Or.inr (Or.inl ⟨rfl, rfl, (Option.some.inj h).symm⟩))
      | _ => cases h
  | select =>
      cases p with
      | checking c n =>
          obtain ⟨t, ht, rfl⟩ := Option.map_eq_some_iff.mp h
          obtain ⟨rfl, hdue⟩ := expired_some ht
          exact Or.inr (Or.inr (Or.inr (Or.inl ⟨c, t, rfl, rfl, hdue, rfl⟩)))
      | _ => cases h
  | finish =>
      cases p with
      | firing t n =>
          obtain ⟨s', hs, rfl⟩ := Option.map_eq_some_iff.mp h
          exact Or.inr (Or.inr (Or.inr (Or.inr (Or.inl ⟨t, n, s', rfl, rfl, hs, rfl⟩))))
      | _ => cases h
  | leave =>
      cases p with
      | checking c n =>
          simp only [exec] at h
          split_ifs at h with he
          exact Or.inr (Or.inr (Or.inr (Or.inr (Or.inr
            ⟨c, n, rfl, rfl, he, (Option.some.inj h).symm⟩))))
      | _ => cases h

end SoftSys

namespace SoftRun

open SoftSys HardSys

variable {S S' : SoftRun} {a : SoftAction} {s s' : Timers} {t u : TimerId} {p : SoftPhase}
  {stamp : TimerId → Nat} {c : Nat} {fired : List Nat} {n : Option TimerId}

/-- **What a step of a run is.** -/
theorem exec_cases (h : S.exec a = some S') :
    (∃ t s, a = .op (.start t) ∧ (∀ current n, S.sys.phase ≠ .checking current n) ∧
      S.timers.rtTimerStart t = some s ∧ S' = S.started t s S.sys.phase) ∨
    (∃ o s, a = .op o ∧ (∀ current n, S.sys.phase ≠ .checking current n) ∧
      Loosens S.timers o.timer s ∧ S' = S.moved s S.sys.phase) ∨
    (a = .tick ∧ S' = S.moved { S.timers with tick := S.timers.tick + 1 } S.sys.phase) ∨
    (a = .enter ∧ S.sys.phase = .idle ∧
      S' = S.moved S.timers (.checking S.timers.tick (S.timers.low true).head?)) ∨
    (∃ current t, a = .select ∧ S.sys.phase = .checking current (some t) ∧
      S.timers.due current t = true ∧
      S' = { S.moved (S.timers.timerRemove t) (.firing t (next (S.timers.low true) t)) with
        fired := S.fired ++ [S.stamp t] }) ∨
    (∃ t n s, a = .finish ∧ S.sys.phase = .firing t n ∧ S.sys.starts .finish = some t ∧
      (S.timers.setActivated t false).rtTimerStart t = some s ∧
      S' = S.started t s (.checking s.tick n)) ∨
    (∃ t n, a = .finish ∧ S.sys.phase = .firing t n ∧
      S' = S.moved (S.timers.setActivated t false) (.checking S.timers.tick n)) ∨
    ∃ current n, a = .leave ∧ S.sys.phase = .checking current n ∧
      SoftSys.expired S.timers current n = none ∧ S' = S.moved S.timers .idle := by
  obtain ⟨q, hq, rfl⟩ := Option.map_eq_some_iff.mp h
  obtain ⟨o, s, rfl, hp, ho, rfl⟩ | ⟨rfl, rfl⟩ | ⟨rfl, hp, rfl⟩ | ⟨cur, t, rfl, hp, hdue, rfl⟩ |
    ⟨t, n, s, rfl, hp, hfin, rfl⟩ | ⟨cur, n, rfl, hp, hex, rfl⟩ := SoftSys.exec_cases hq
  · rcases op_cases ho with ⟨t, rfl, hs⟩ | ⟨hno, l⟩
    · exact Or.inl ⟨t, s, rfl, hp, hs, rfl⟩
    · refine Or.inr (Or.inl ⟨o, s, rfl, hp, l, ?_⟩)
      cases o with
      | start t => exact absurd rfl (hno t)
      | _ => rfl
  · exact Or.inr (Or.inr (Or.inl ⟨rfl, rfl⟩))
  · exact Or.inr (Or.inr (Or.inr (Or.inl ⟨rfl, hp, rfl⟩)))
  · refine Or.inr (Or.inr (Or.inr (Or.inr (Or.inl ⟨cur, t, rfl, hp, hdue, ?_⟩))))
    have hsel : S.sys.selected = some t := by
      unfold SoftSys.selected
      rw [hp]
      exact Option.filter_eq_some_iff.mpr ⟨rfl, hdue⟩
    simp only [hsel]
    rfl
  · unfold afterTimeout at hfin
    split_ifs at hfin with hper
    · have hst : S.sys.starts .finish = some t := by simp [SoftSys.starts, hp, hper]
      refine Or.inr (Or.inr (Or.inr (Or.inr (Or.inr (Or.inl ⟨t, n, s, rfl, hp, hst, hfin, ?_⟩)))))
      simp only [hst]
      rfl
    · obtain rfl := Option.some.inj hfin
      have hst : S.sys.starts .finish = none := by simpa [SoftSys.starts, hp] using hper
      refine Or.inr (Or.inr (Or.inr (Or.inr (Or.inr (Or.inr (Or.inl ⟨t, n, rfl, hp, ?_⟩))))))
      simp only [hst]
      rfl
  · exact Or.inr (Or.inr (Or.inr (Or.inr (Or.inr (Or.inr (Or.inr ⟨cur, n, rfl, hp, hex, rfl⟩))))))

/-! ## The invariant -/

/-- The list loses timers at most. -/
theorem Listed.sublist (i : Listed s stamp c fired) (hl : (s'.low true).Sublist (s.low true))
    (hk : ∀ t ∈ s'.low true, (s'.timer t).soft = (s.timer t).soft) : Listed s' stamp c fired := by
  refine ⟨i.nodup.sublist hl, fun t ht => ?_, fun t ht => i.fresh t (hl.subset ht),
    i.distinct.sublist hl⟩
  rw [hk t ht]
  exact i.kind t (hl.subset ht)

/-- A start has a number of its own. -/
theorem Listed.start (i : Listed s stamp c fired) (hp : ∀ x ∈ fired, x < c)
    (h : s.rtTimerStart t = some s') : Listed s' (Function.update stamp t c) (c + 1) fired := by
  have hnot : ∀ u ∈ (s.low true).erase t, u ∈ s.low true ∧ u ≠ t := fun u hu =>
    (i.nodup.mem_erase_iff.mp hu).symm
  have hold : ∀ u ∈ (s.low true).erase t, (s'.timer u).soft = true ∧
      Function.update stamp t c u < c ∧ Function.update stamp t c u ∉ fired := fun u hu => by
    obtain ⟨h1, h2⟩ := hnot u hu
    obtain ⟨h3, h4⟩ := i.fresh u h1
    rw [(startFrame h).others u h2, Function.update_of_ne h2]
    exact ⟨i.kind u h1, h3, h4⟩
  have hdist : ((s.low true).erase t).Pairwise fun a b =>
      Function.update stamp t c a ≠ Function.update stamp t c b := by
    refine (i.distinct.sublist List.erase_sublist).imp_of_mem fun {a b} ha hb hab => ?_
    rw [Function.update_of_ne (hnot a ha).2, Function.update_of_ne (hnot b hb).2]
    exact hab
  rcases start_low (k := true) h with ⟨hperm, hk⟩ | hl
  · have hnd : (t :: (s.low true).erase t).Nodup :=
      List.nodup_cons.mpr ⟨fun ht => (hnot t ht).2 rfl, i.nodup.erase t⟩
    refine ⟨hperm.nodup_iff.mpr hnd, fun u hu => ?_, fun u hu => ?_, ?_⟩
    · rcases List.mem_cons.mp (hperm.subset hu) with rfl | hu
      · rw [(startFrame h).self]
        exact hk
      · exact (hold u hu).1
    · rcases List.mem_cons.mp (hperm.subset hu) with rfl | hu
      · rw [Function.update_self]
        exact ⟨Nat.lt_succ_self c, fun hc => absurd (hp c hc) (lt_irrefl c)⟩
      · exact ⟨Nat.lt_succ_of_lt (hold u hu).2.1, (hold u hu).2.2⟩
    · refine (hperm.pairwise_iff fun h => h.symm).mpr (List.pairwise_cons.mpr ⟨fun u hu => ?_, hdist⟩)
      have hlt := (hold u hu).2.1
      rw [Function.update_self]
      omega
  · refine ⟨hl ▸ i.nodup.erase t, fun u hu => ?_, fun u hu => ?_, hl ▸ hdist⟩ <;> rw [hl] at hu
    · exact (hold u hu).1
    · exact ⟨Nat.lt_succ_of_lt (hold u hu).2.1, (hold u hu).2.2⟩

/-- A start keeps the other timers of the list. -/
theorem start_mem_low (h : s.rtTimerStart t = some s') (hut : u ≠ t) :
    u ∈ s'.low true ↔ u ∈ s.low true := by
  rcases start_low (k := true) h with ⟨hperm, -⟩ | hl
  · rw [hperm.mem_iff, List.mem_cons, List.mem_erase_of_ne hut]
    exact or_iff_right hut
  · rw [hl, List.mem_erase_of_ne hut]

theorem loosens_low (l : Loosens s t s') : (s'.low true).Sublist (s.low true) ∧
    ∀ u, (s'.timer u).soft = (s.timer u).soft := by
  refine ⟨?_, fun u => ?_⟩
  · unfold low
    rcases l.rows with hr | hr
    · rw [hr]
    · rw [hr]
      exact List.erase_sublist
  · by_cases hu : u = t
    · rw [hu, l.self.1]
    · rw [l.others u hu]

omit [TimerConfig] in
theorem setActivated_fields {b : Bool} : ((s.setActivated t b).timer u).soft = (s.timer u).soft ∧
    ((s.setActivated t b).timer u).initTick = (s.timer u).initTick ∧
    ((s.setActivated t b).timer u).timeoutTick = (s.timer u).timeoutTick := by
  unfold setActivated
  by_cases hu : u = t
  · rw [hu, modify_self]
    exact ⟨rfl, rfl, rfl⟩
  · rw [modify_of_ne hu]
    exact ⟨rfl, rfl, rfl⟩

omit [TimerConfig] in
theorem selected_firing {q : SoftSys} (h : ∀ current n, q.phase ≠ .checking current n) :
    q.selected = none := by
  unfold SoftSys.selected
  split
  · exact absurd ‹_› (h _ _)
  · rfl

/-- The epilogue of the check leaves the timer at the cursor where it is. -/
theorem finish_cursor (h : S.exec .finish = some S') (hp : S.sys.phase = .firing t (some u))
    (hut : u ≠ t) : (u ∈ S'.timers.low true ↔ u ∈ S.timers.low true) ∧
      S'.sys.phase = .checking S.timers.tick (some u) ∧
      ∀ current, S'.timers.due current u = S.timers.due current u := by
  obtain ⟨_, _, ha, -⟩ | ⟨_, _, ha, -⟩ | ⟨ha, -⟩ | ⟨ha, -⟩ | ⟨_, _, ha, -⟩ |
    ⟨v, n, s, -, hp', -, hs, rfl⟩ | ⟨v, n, -, hp', rfl⟩ | ⟨_, _, ha, -⟩ := exec_cases h
  case inr.inr.inr.inr.inr.inl =>
    rw [hp] at hp'
    obtain ⟨rfl, rfl⟩ := SoftPhase.firing.inj hp'
    have f := startFrame hs
    refine ⟨start_mem_low (s := S.timers.setActivated t false) hs hut,
      congrArg (SoftPhase.checking · _) f.tick, fun current => ?_⟩
    change s.due current u = S.timers.due current u
    unfold due
    rw [f.others u hut, setActivated_fields.2.2]
  case inr.inr.inr.inr.inr.inr.inl =>
    rw [hp] at hp'
    obtain ⟨rfl, rfl⟩ := SoftPhase.firing.inj hp'
    refine ⟨Iff.rfl, rfl, fun current => ?_⟩
    change (S.timers.setActivated t false).due current u = S.timers.due current u
    unfold due
    rw [setActivated_fields.2.2]
  all_goals cases ha

/-- After a step that does not stray, the timer at the cursor is in the list, when it is over. -/
theorem selected_step (i : S.Inv) (h : S.exec a = some S') (hs : ¬ Strays S.sys a)
    (ht : S'.sys.selected = some t) : t ∈ S'.timers.low true := by
  have hnone : ¬ ∀ current n, S'.sys.phase ≠ .checking current n := fun hp => by
    rw [selected_firing hp] at ht
    cases ht
  -- the timeout function has returned
  have hret : ∀ u n, a = .finish → S.sys.phase = .firing u n →
      (∃ current, S'.sys.phase = .checking current n) → t ∈ S'.timers.low true := by
    rintro u n rfl hp ⟨current, hp'⟩
    have hn : n = some t := by
      unfold SoftSys.selected at ht
      rw [hp'] at ht
      exact (expired_some ht).1
    subst hn
    obtain ⟨h1, h2, h3⟩ := finish_cursor h hp (i.cursor _ _ hp)
    have hdue : S'.timers.due S.timers.tick t = true := by
      unfold SoftSys.selected at ht
      rw [h2] at ht
      exact (expired_some ht).2
    rw [h3] at hdue
    refine h1.mpr (by_contra fun hm => hs ?_)
    simp only [Strays, hp]
    exact ⟨hm, hdue⟩
  obtain ⟨u, s, -, hp, -, he⟩ | ⟨o, s, -, hp, -, he⟩ | ⟨-, he⟩ | ⟨-, hp, he⟩ |
    ⟨cur, u, -, hp, hdue, he⟩ | ⟨u, n, s, ha, hp, -, hst, he⟩ | ⟨u, n, ha, hp, he⟩ |
    ⟨cur, n, -, hp, hex, he⟩ := exec_cases h
  · exact absurd (he ▸ hp) hnone
  · exact absurd (he ▸ hp) hnone
  · rw [he] at ht ⊢
    exact i.selected t ht
  · rw [he] at ht ⊢
    exact List.mem_of_mem_head? (expired_some ht).1
  · exact absurd (fun _ _ hc => by rw [he] at hc; cases hc) hnone
  · exact hret u n ha hp ⟨s.tick, by rw [he]; rfl⟩
  · exact hret u n ha hp ⟨S.timers.tick, by rw [he]; rfl⟩
  · exact absurd (fun _ _ hc => by rw [he] at hc; cases hc) hnone

/-- After a step that strays, it is not. -/
theorem selected_of_strays (i : S.Inv) (h : S.exec a = some S') (hs : Strays S.sys a) :
    ∃ t, S'.sys.selected = some t ∧ t ∉ S'.timers.low true := by
  cases a with
  | finish =>
      unfold Strays at hs
      dsimp only at hs
      split at hs
      · rename_i t u hp
        obtain ⟨h1, h2, h3⟩ := finish_cursor h hp (i.cursor _ _ hp)
        refine ⟨u, ?_, fun hm => hs.1 (h1.mp hm)⟩
        unfold SoftSys.selected
        rw [h2]
        exact Option.filter_eq_some_iff.mpr ⟨rfl, (h3 _).trans hs.2⟩
      · exact hs.elim
  | _ => exact hs.elim

/-- **One step keeps the invariant**, unless it strays. -/
theorem Inv.step (i : S.Inv) (h : S.exec a = some S') (hs : ¬ Strays S.sys a) : S'.Inv := by
  have hsel : ∀ t, S'.sys.selected = some t → t ∈ S'.timers.low true := fun t ht =>
    selected_step i h hs ht
  have hpast : ∀ c ∈ S.fired, c < S.starts + 1 := fun c hc => Nat.lt_succ_of_lt (i.past c hc)
  obtain ⟨u, s, rfl, hp, hst, rfl⟩ | ⟨o, s, rfl, hp, l, rfl⟩ | ⟨rfl, rfl⟩ | ⟨rfl, hp, rfl⟩ |
    ⟨cur, u, rfl, hp, hdue, rfl⟩ | ⟨u, n, s, rfl, hp, -, hst, rfl⟩ | ⟨u, n, rfl, hp, rfl⟩ |
    ⟨cur, n, rfl, hp, hex, rfl⟩ := exec_cases h
  · exact ⟨i.listed.start i.past hst, hpast, i.once, i.cursor, hsel⟩
  · obtain ⟨h1, h2⟩ := loosens_low l
    exact ⟨i.listed.sublist h1 fun t _ => h2 t, i.past, i.once, i.cursor, hsel⟩
  · exact ⟨i.listed.sublist (List.Sublist.refl _) fun _ _ => rfl, i.past, i.once, i.cursor, hsel⟩
  · exact ⟨i.listed, i.past, i.once, fun t u hf => (by cases hf), hsel⟩
  · -- the timer fires for its last start
    have hsys : S.sys.selected = some u := by
      unfold SoftSys.selected
      rw [hp]
      exact Option.filter_eq_some_iff.mpr ⟨rfl, hdue⟩
    have hu := i.selected u hsys
    obtain ⟨h1, h2⟩ := i.listed.fresh u hu
    have hmem : ∀ t ∈ (S.timers.timerRemove u).low true, t ∈ S.timers.low true ∧ t ≠ u :=
      fun t ht => (i.listed.nodup.mem_erase_iff.mp ht).symm
    have hsub := i.listed.sublist
      (show ((S.timers.timerRemove u).low true).Sublist _ from List.erase_sublist) fun _ _ => rfl
    refine ⟨⟨hsub.nodup, hsub.kind, fun t ht => ⟨(hsub.fresh t ht).1, fun hm => ?_⟩,
      hsub.distinct⟩, fun c hc => ?_, ?_, fun t v hf => ?_, hsel⟩
    · obtain ⟨htl, htu⟩ := hmem t ht
      rcases List.mem_append.mp hm with hm | hm
      · exact (hsub.fresh t ht).2 hm
      · have hsymm : Std.Symm fun a b => S.stamp a ≠ S.stamp b := ⟨fun _ _ hne => hne.symm⟩
        exact i.listed.distinct.forall htl hu htu (List.mem_singleton.mp hm)
    · rcases List.mem_append.mp hc with hc | hc
      · exact i.past c hc
      · rw [List.mem_singleton.mp hc]
        exact h1
    · refine List.nodup_append.mpr ⟨i.once, List.nodup_singleton _, fun c hc d hd he => ?_⟩
      rw [he, List.mem_singleton.mp hd] at hc
      exact h2 hc
    · obtain ⟨rfl, hv⟩ := SoftPhase.firing.inj hf
      exact fun he => next_ne i.listed.nodup hu (hv.trans (congrArg some he))
  · have hclear : Listed (S.timers.setActivated u false) S.stamp S.starts S.fired :=
      i.listed.sublist (List.Sublist.refl _) fun _ _ => setActivated_fields.1
    exact ⟨hclear.start i.past hst, hpast, i.once, fun t u hf => (by cases hf), hsel⟩
  · exact ⟨i.listed.sublist (List.Sublist.refl _) fun _ _ => setActivated_fields.1, i.past, i.once,
      fun t u hf => (by cases hf), hsel⟩
  · exact ⟨i.listed, i.past, i.once, fun t u hf => (by cases hf), hsel⟩

theorem Init.inv (h : S.Init) : S.Inv := by
  have hlow : S.timers.low true = [] := h.1.rows true _
  refine ⟨⟨?_, ?_, ?_, ?_⟩, ?_, ?_, fun t u hf => ?_, fun t ht => ?_⟩
  · simp [hlow]
  · simp [hlow]
  · simp [hlow]
  · simp [hlow]
  · simp [h.2]
  · simp [h.2]
  · rw [h.1.phase] at hf
    cases hf
  · rw [selected_firing (by simp [h.1.phase])] at ht
    cases ht

/-! ## The end of the check -/

/-- The timers of the list that are over. -/
def overdue (s : Timers) : Nat := (s.low true).countP (s.due s.tick)

/-- A check with an old `current_tick` may have one more round. -/
def lag (S : SoftRun) : Nat :=
  match S.sys.phase with
  | .checking current _ => if current = S.timers.tick then 0 else 1
  | _ => 0

/-- The rounds that are left. -/
def pending (S : SoftRun) : Nat := overdue S.timers + S.lag

/-- A step of the check in which no tick passes, that does not stray, and starts no timer without a
tick to go. -/
def Steady (q : SoftSys) (a : SoftAction) : Prop :=
  ¬ Strays q a ∧
  (match a with
    | .tick | .enter => False
    | _ => True) ∧
  match q.starts a with
    | some t => 1 ≤ (q.timers.timer t).initTick.toNat
    | none => True

instance (q : SoftSys) (a : SoftAction) : Decidable (Steady q a) := by
  have h1 : Decidable (match a with
      | .tick | .enter => False
      | _ => True) := by
    split <;> infer_instance
  have h2 : Decidable (match q.starts a with
      | some t => 1 ≤ (q.timers.timer t).initTick.toNat
      | none => True) := by
    split <;> infer_instance
  unfold Steady
  infer_instance

/-- A call of a timeout function. -/
def isSelect : SoftAction → Bool
  | .select => true
  | _ => false

theorem overdue_start (h : s.rtTimerStart t = some s') (hd : 1 ≤ (s.timer t).initTick.toNat) :
    overdue s' ≤ overdue s :=
  countP_due_start h hd

theorem overdue_le (hl : (s'.low true).Sublist (s.low true)) (htick : s'.tick = s.tick)
    (ht : ∀ u, (s'.timer u).timeoutTick = (s.timer u).timeoutTick) : overdue s' ≤ overdue s :=
  countP_due_le hl htick ht

omit [TimerConfig] in
theorem lag_eq_zero (h : ∀ current n, S.sys.phase = .checking current n →
    current = S.timers.tick) : S.lag = 0 := by
  unfold lag
  split
  · rw [if_pos (h _ _ ‹_›)]
  · rfl

omit [TimerConfig] in
theorem lag_of_not_checking (h : ∀ current n, S.sys.phase ≠ .checking current n) : S.lag = 0 :=
  lag_eq_zero fun current n hp => absurd hp (h current n)

/-- **A steady step leaves fewer rounds**, when it is one, and no more otherwise. -/
theorem pending_step (i : S.Inv) (h : S.exec a = some S') (hs : Steady S.sys a) :
    (if isSelect a then 1 else 0) + S'.pending ≤ S.pending := by
  obtain ⟨-, hstay, hpos⟩ := hs
  obtain ⟨u, s, rfl, hp, hst, he⟩ | ⟨o, s, rfl, hp, l, he⟩ | ⟨rfl, -⟩ | ⟨rfl, -⟩ |
    ⟨cur, u, rfl, hp, hdue, he⟩ | ⟨u, n, s, rfl, hp, hstarts, hst, he⟩ | ⟨u, n, rfl, hp, he⟩ |
    ⟨cur, n, rfl, hp, hex, he⟩ := exec_cases h
  · have hlag : S'.lag = 0 := lag_of_not_checking (by rw [he]; exact hp)
    have hle : overdue S'.timers ≤ overdue S.timers := he ▸ overdue_start hst hpos
    unfold pending
    simp only [isSelect, Bool.false_eq_true, if_false]
    omega
  · have hlag : S'.lag = 0 := lag_of_not_checking (by rw [he]; exact hp)
    have hle : overdue S'.timers ≤ overdue S.timers := by
      rw [he]
      refine overdue_le (loosens_low l).1 l.tick fun u => ?_
      by_cases hu : u = o.timer
      · rw [hu]
        exact l.self.2
      · exact congrArg Timer.timeoutTick (l.others u hu)
    unfold pending
    simp only [isSelect, Bool.false_eq_true, if_false]
    omega
  · exact hstay.elim
  · exact hstay.elim
  · -- a timer of the list that is over
    have hu : u ∈ S.timers.low true := by
      refine i.selected u ?_
      unfold SoftSys.selected
      rw [hp]
      exact Option.filter_eq_some_iff.mpr ⟨rfl, hdue⟩
    have hlag' : S'.lag = 0 := lag_of_not_checking (by rw [he]; simp [moved])
    have herase : overdue S'.timers = overdue S.timers -
        if u ∈ S.timers.low true ∧ S.timers.due S.timers.tick u = true then 1 else 0 := by
      rw [he]
      exact List.countP_erase ..
    unfold pending
    rw [herase, hlag']
    simp only [isSelect, if_true, hu, true_and]
    by_cases hc : cur = S.timers.tick
    · rw [hc] at hdue
      have hpos : 0 < overdue S.timers := List.countP_pos_iff.mpr ⟨u, hu, hdue⟩
      rw [if_pos hdue]
      omega
    · have hlag : S.lag = 1 := by
        unfold lag
        rw [hp]
        exact if_neg hc
      omega
  · have hlag : S'.lag = 0 := lag_eq_zero fun c m hc => by
      rw [he] at hc ⊢
      exact (SoftPhase.checking.inj hc).1.symm
    have hle : overdue S'.timers ≤ overdue S.timers := by
      rw [hstarts] at hpos
      rw [he]
      refine (overdue_start hst ?_).trans (overdue_le (List.Sublist.refl _) rfl fun u => ?_)
      · rw [setActivated_fields.2.1]
        exact hpos
      · exact setActivated_fields.2.2
    unfold pending
    simp only [isSelect, Bool.false_eq_true, if_false]
    omega
  · have hlag : S'.lag = 0 := lag_eq_zero fun c m hc => by
      rw [he] at hc ⊢
      exact (SoftPhase.checking.inj hc).1.symm
    have hle : overdue S'.timers ≤ overdue S.timers := by
      rw [he]
      exact overdue_le (List.Sublist.refl _) rfl fun u => setActivated_fields.2.2
    unfold pending
    simp only [isSelect, Bool.false_eq_true, if_false]
    omega
  · have hlag : S'.lag = 0 := lag_of_not_checking (by rw [he]; simp [moved])
    have hle : overdue S'.timers ≤ overdue S.timers := by
      rw [he]
      exact le_refl _
    unfold pending
    simp only [isSelect, Bool.false_eq_true, if_false]
    omega

/-- The rounds of a run of steady steps. -/
theorem select_le_pending {l : List SoftAction} (i : S.Inv)
    (h : runList (stepIf SoftRun.exec fun S a => Steady S.sys a) S l = some S') :
    l.countP isSelect ≤ S.pending := by
  induction l generalizing S with
  | nil => exact Nat.zero_le _
  | cons a l ih =>
      obtain ⟨T, hT, hl⟩ := Option.bind_eq_some_iff.mp h
      obtain ⟨hx, hs⟩ := stepIf_some.mp hT
      have h1 := pending_step i hx hs
      have h2 := ih (i.step hx hs.1) hl
      rw [List.countP_cons]
      omega

/-! ## Runs -/

theorem reachable_inv (h : Reachable SoftRun.Init KeepStep S) : S.Inv :=
  h.invariant (fun _ hi => Init.inv hi) fun _ _ _ _ i hs => i.step hs.1 hs.2

/-- At the head of the loop, the check goes round it or leaves. -/
theorem checking_progress {current : Tick} (hp : S.sys.phase = .checking current n) :
    (S.exec .select).isSome = true ∨ (S.exec .leave).isSome = true := by
  cases hex : SoftSys.expired S.timers current n with
  | none =>
      refine Or.inr ?_
      simp [exec, SoftSys.exec, hp, hex]
  | some t =>
      refine Or.inl ?_
      simp [exec, SoftSys.exec, hp, hex]

/-- **`rt_soft_timer_check` fires timers of its list, each start once.** In the runs in which no
timeout function returns with the timer at the cursor out of the list and over: the timer that the
check selects is in the list and has not fired since its last start, no start has fired twice, and
after a step this is so if and only if the step is not such a return; and while no tick passes and
every timer that is started has a tick to go, the check has a bounded number of rounds left. -/
theorem soft_check_fires (h : Reachable SoftRun.Init KeepStep S) :
    (∀ t, S.sys.selected = some t → t ∈ S.timers.low true ∧ S.stamp t ∉ S.fired) ∧
    S.fired.Nodup ∧
    (∀ a S', S.exec a = some S' →
      ((∀ t, S'.sys.selected = some t → t ∈ S'.timers.low true) ↔ ¬ Strays S.sys a)) ∧
    (∀ l S', runList (stepIf SoftRun.exec fun S a => Steady S.sys a) S l = some S' →
      l.countP isSelect ≤ S.pending) ∧
    ∀ current n, S.sys.phase = .checking current n →
      (S.exec .select).isSome = true ∨ (S.exec .leave).isSome = true := by
  have i := reachable_inv h
  refine ⟨fun t ht => ?_, i.once, fun a S' hx => ⟨fun hsel hs => ?_, fun hs t ht => ?_⟩,
    fun l S' hl => select_le_pending i hl, fun current n hp => checking_progress hp⟩
  · have hm := i.selected t ht
    exact ⟨hm, (i.listed.fresh t hm).2⟩
  · obtain ⟨t, h1, h2⟩ := selected_of_strays i hx hs
    exact h2 (hsel t h1)
  · exact selected_step i hx hs ht

end SoftRun

end

/-! ## A timer that is stopped and fires -/

attribute [local instance] oneRow

/-- Soft timers with one tick to go. -/
def softTimers : SoftRun where
  sys :=
    { timers :=
        { tick := 0xffffffff
          timer := fun _ => ⟨true, false, false, true, 1, 0⟩
          rows := fun _ _ => []
          randomNr := 0 }
      phase := .idle }
  stamp := fun _ => 0
  starts := 0
  fired := []

theorem softTimers_init : softTimers.Init := ⟨⟨fun _ _ => rfl, rfl⟩, rfl⟩

/-- Three timers expire at the same tick, and the first stops the last. -/
def stopBehindCursor : List SoftAction :=
  [.op (.start 0), .op (.start 1), .op (.start 2), .tick, .enter, .select, .op (.stop 2), .finish]

/-- Only the second is left. -/
theorem soft_check_fires_stop : ∃ S,
    runList (stepIf SoftRun.exec fun S a => ¬ SoftSys.Strays S.sys a) softTimers stopBehindCursor =
      some S ∧
    S.sys.selected = some 1 ∧ 1 ∈ S.timers.low true ∧ S.fired.Nodup ∧
    ∀ l S', runList (stepIf SoftRun.exec fun S a => SoftRun.Steady S.sys a) S l = some S' →
      l.countP SoftRun.isSelect ≤ 1 := by
  have hrun : (runList (stepIf SoftRun.exec fun S a => ¬ SoftSys.Strays S.sys a) softTimers
      stopBehindCursor).map (fun S => (S.sys.selected, S.pending)) = some (some 1, 1) := by
    decide +kernel
  obtain ⟨S, hS, he⟩ := Option.map_eq_some_iff.mp hrun
  obtain ⟨hsel, hpend⟩ := Prod.mk.inj he
  obtain ⟨h1, h2, -, h4, -⟩ :=
    SoftRun.soft_check_fires (reachable_of_runList_stepIf softTimers_init hS)
  exact ⟨S, hS, hsel, (h1 1 hsel).1, h2, fun l S' hl => hpend ▸ h4 l S' hl⟩

/-- Two timers expire at the same tick, and the first stops the second. -/
def stopAtCursor : List SoftAction :=
  [.op (.start 0), .op (.start 1), .tick, .enter, .select, .op (.stop 1), .finish]

/-- The second is in no list and fires, again and again. -/
theorem stopped_timer_fires : ∃ S,
    Reachable SoftRun.Init (fun S a S' => S.exec a = some S') S ∧ S.sys.selected = some 1 ∧
    1 ∉ S.timers.low true ∧
    ∃ S', runList SoftRun.exec S [.select, .finish, .select, .finish] = some S' ∧
      S'.fired = [0, 1, 1] ∧ S'.sys.selected = some 1 := by
  have hrun : (runList SoftRun.exec softTimers stopAtCursor).bind (fun S =>
      (runList SoftRun.exec S [.select, .finish, .select, .finish]).map fun S' =>
        (S.sys.selected, S.timers.low true, S'.fired, S'.sys.selected)) =
      some (some 1, [], [0, 1, 1], some 1) := by
    decide +kernel
  obtain ⟨S, hS, hrun⟩ := Option.bind_eq_some_iff.mp hrun
  obtain ⟨S', hS', he⟩ := Option.map_eq_some_iff.mp hrun
  obtain ⟨h1, h2, h3, h4⟩ : _ ∧ _ ∧ _ ∧ _ := by simpa using he
  exact ⟨S, reachable_of_runList (.init softTimers_init) hS, h1, by simp [h2], S', hS', h3, h4⟩

end RTThread
