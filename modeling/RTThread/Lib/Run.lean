import Mathlib.Tactic

set_option autoImplicit false

/-! # Runs of a labelled transition system

A system is a predicate `init` on its states and a relation `step s a s'`: the action `a`
can take `s` to `s'`. `Reachable init step` are the states of its runs. What holds initially
and is kept by every step holds in every reachable state; a run may be restricted to steps
meeting a condition by strengthening `step`.
-/

namespace Trans

variable {σ α : Type*}

/-- The states a run can reach. -/
inductive Reachable (init : σ → Prop) (step : σ → α → σ → Prop) : σ → Prop
  | init {s : σ} : init s → Reachable init step s
  | step {s s' : σ} {a : α} : Reachable init step s → step s a s' → Reachable init step s'

variable {init : σ → Prop} {step step' : σ → α → σ → Prop}

/-- **The invariant rule.** The step may use that the state it leaves is reachable. -/
theorem Reachable.invariant {I : σ → Prop} (h₀ : ∀ s, init s → I s)
    (hs : ∀ s a s', Reachable init step s → I s → step s a s' → I s') {s : σ}
    (h : Reachable init step s) : I s := by
  induction h with
  | init h => exact h₀ _ h
  | step hr h ih => exact hs _ _ _ hr ih h

/-- A run whose steps are steps of a larger system is a run of it. -/
theorem Reachable.mono (hst : ∀ s a s', step s a s' → step' s a s') {s : σ}
    (h : Reachable init step s) : Reachable init step' s :=
  h.invariant (fun _ hi => .init hi) fun s a s' _ hr ha => hr.step (hst s a s' ha)

/-- Running a list of actions of a system given by a partial step function. -/
def runList (f : σ → α → Option σ) (s : σ) : List α → Option σ
  | [] => some s
  | a :: as => (f s a).bind fun s' => runList f s' as

/-- A run of the step function is a run of the system. -/
theorem reachable_of_runList {f : σ → α → Option σ} {s s' : σ} {as : List α}
    (h₀ : Reachable init (fun s a s' => f s a = some s') s) (h : runList f s as = some s') :
    Reachable init (fun s a s' => f s a = some s') s' := by
  induction as generalizing s with
  | nil => cases h; exact h₀
  | cons a as ih =>
      obtain ⟨t, ha, ht⟩ := Option.bind_eq_some_iff.mp h
      exact ih (h₀.step ha) ht

/-- A run in two parts. -/
theorem runList_append {f : σ → α → Option σ} {s : σ} {as bs : List α} :
    runList f s (as ++ bs) = (runList f s as).bind fun s' => runList f s' bs := by
  induction as generalizing s with
  | nil => rfl
  | cons a as ih =>
      simp only [List.cons_append, runList]
      cases f s a with
      | none => rfl
      | some t => exact ih

/-- A run and one more step. -/
theorem runList_snoc {f : σ → α → Option σ} {s t u : σ} {as : List α} {a : α} (hr : runList f s as = some t)
    (ha : f t a = some u) : runList f s (as ++ [a]) = some u := by
  rw [runList_append, hr, Option.bind_some, runList, ha]
  rfl

/-- A run of a step function is a run of one that is defined more often. -/
theorem runList_mono {f g : σ → α → Option σ} (h : ∀ s a s', f s a = some s' → g s a = some s')
    {s s' : σ} {as : List α} (hf : runList f s as = some s') : runList g s as = some s' := by
  induction as generalizing s with
  | nil => exact hf
  | cons a as ih =>
      obtain ⟨t, ha, ht⟩ := Option.bind_eq_some_iff.mp hf
      simp only [runList, h s a t ha, Option.bind_some]
      exact ih ht

/-- A step function, for the steps that meet a condition. -/
def stepIf (f : σ → α → Option σ) (p : σ → α → Prop) [∀ s a, Decidable (p s a)] (s : σ) (a : α) :
    Option σ :=
  if p s a then f s a else none

theorem stepIf_some {f : σ → α → Option σ} {p : σ → α → Prop} [∀ s a, Decidable (p s a)] {s s' : σ}
    {a : α} : stepIf f p s a = some s' ↔ f s a = some s' ∧ p s a := by
  unfold stepIf
  split_ifs with h
  · exact (and_iff_left h).symm
  · exact iff_of_false (by simp) fun hp => h hp.2

/-- A run whose steps meet a condition. -/
theorem reachable_of_runList_stepIf {f : σ → α → Option σ} {p : σ → α → Prop}
    [∀ s a, Decidable (p s a)] {s s' : σ} {as : List α} (h₀ : init s)
    (h : runList (stepIf f p) s as = some s') :
    Reachable init (fun s a s' => f s a = some s' ∧ p s a) s' :=
  (reachable_of_runList (.init h₀) h).mono fun _ _ _ => stepIf_some.mp

/-! ## Systems that answer -/

variable {τ β : Type*}

/-- The answers to a list of actions, and the state after them. -/
def answers (f : σ → α → β × σ) : σ → List α → List β × σ
  | s, [] => ([], s)
  | s, a :: as =>
      let r := f s a
      let rs := answers f r.2 as
      (r.1 :: rs.1, rs.2)

/-- **Simulation**: two systems that answer alike from related states, and stay related, answer alike
in every run. -/
theorem answers_sim {f : σ → α → β × σ} {g : τ → α → β × τ} {R : σ → τ → Prop}
    (h : ∀ s t a, R s t → (f s a).1 = (g t a).1 ∧ R (f s a).2 (g t a).2) {s : σ} {t : τ}
    (hR : R s t) (as : List α) :
    (answers f s as).1 = (answers g t as).1 ∧ R (answers f s as).2 (answers g t as).2 := by
  induction as generalizing s t with
  | nil => exact ⟨rfl, hR⟩
  | cons a as ih =>
      obtain ⟨hans, hR'⟩ := h s t a hR
      obtain ⟨hrest, hend⟩ := ih hR'
      exact ⟨congrArg₂ List.cons hans hrest, hend⟩

end Trans
