import RTThread.Lib.Run

set_option autoImplicit false

/-! # Systems whose actions commute

In a system of independent parties the steps of two parties can be exchanged. If then one run comes to an end,
every run does, after the same number of steps and in the same state (the diamond property of Church and
Rosser, with one step for each party).
-/

namespace Trans

variable {σ α : Type*}

/-- Two different actions that are both possible can be exchanged. -/
def Commutes (f : σ → α → Option σ) : Prop :=
  ∀ s a b t u, a ≠ b → f s a = some t → f s b = some u → ∃ v, f t b = some v ∧ f u a = some v

/-- No action is possible. -/
def Final (f : σ → α → Option σ) (s : σ) : Prop := ∀ a, f s a = none

/-- Every run from the state ends, and it ends in a state with `P`. -/
def AlwaysEnds (f : σ → α → Option σ) (s : σ) (P : σ → Prop) : Prop :=
  ∃ n, ∀ as t, runList f s as = some t → as.length ≤ n ∧ (Final f t → P t)

variable {f : σ → α → Option σ} {s t u : σ} {a : α} {as bs : List α}

/-- Where every run ends, every run can be led to its end. -/
theorem AlwaysEnds.exists_final {P : σ → Prop} (h : AlwaysEnds f s P) (hr : runList f s as = some t) :
    ∃ bs u, runList f t bs = some u ∧ P u := by
  obtain ⟨n, hn⟩ := h
  induction hk : n - as.length generalizing as t with
  | zero =>
      -- no run is longer
      have hfinal : Final f t := by
        intro a
        cases ha : f t a with
        | none => rfl
        | some u =>
            have hlong := (hn (as ++ [a]) u (runList_snoc hr ha)).1
            rw [List.length_append, List.length_singleton] at hlong
            omega
      exact ⟨[], t, rfl, (hn as t hr).2 hfinal⟩
  | succ k ih =>
      by_cases hfinal : Final f t
      · exact ⟨[], t, rfl, (hn as t hr).2 hfinal⟩
      · obtain ⟨a, ha⟩ := not_forall.mp hfinal
        obtain ⟨u, hu⟩ := Option.ne_none_iff_exists'.mp ha
        have hlen : n - (as ++ [a]).length = k := by
          rw [List.length_append, List.length_singleton]
          omega
        obtain ⟨bs, v, hv, hP⟩ := ih (runList_snoc hr hu) hlen
        refine ⟨a :: bs, v, ?_, hP⟩
        rw [runList, hu]
        exact hv

/-- A run to the end can be rearranged to begin with any possible action. -/
theorem Commutes.strip [DecidableEq α] (hf : Commutes f) (ha : f s a = some t)
    (h : runList f s as = some u) (hu : Final f u) :
    ∃ bs, runList f t bs = some u ∧ bs.length + 1 = as.length := by
  induction as generalizing s t with
  | nil =>
      obtain rfl := Option.some.inj h
      rw [hu a] at ha
      cases ha
  | cons b as ih =>
      obtain ⟨v, hb, hrest⟩ := Option.bind_eq_some_iff.mp h
      by_cases hab : a = b
      · subst hab
        rw [ha] at hb
        obtain rfl := Option.some.inj hb
        exact ⟨as, hrest, rfl⟩
      · obtain ⟨w, hw, hv⟩ := hf s a b t v hab ha hb
        obtain ⟨bs, hbs, hlen⟩ := ih hv hrest
        refine ⟨b :: bs, ?_, by simp [hlen]⟩
        rw [runList, hw]
        exact hbs

/-- Every run is the beginning of one to the same end. -/
theorem Commutes.extend [DecidableEq α] (hf : Commutes f) (h : runList f s as = some u) (hu : Final f u)
    (hb : runList f s bs = some t) :
    ∃ cs, runList f t cs = some u ∧ bs.length + cs.length = as.length := by
  induction bs generalizing s as with
  | nil =>
      obtain rfl := Option.some.inj hb
      exact ⟨as, h, by simp⟩
  | cons b bs ih =>
      obtain ⟨v, hv, hrest⟩ := Option.bind_eq_some_iff.mp hb
      obtain ⟨as', has', hlen⟩ := hf.strip hv h hu
      obtain ⟨cs, hcs, hlen'⟩ := ih has' hrest
      refine ⟨cs, hcs, ?_⟩
      rw [List.length_cons]
      omega

/-- **One run tells about all.** -/
theorem Commutes.alwaysEnds_iff [DecidableEq α] (hf : Commutes f) (h : runList f s as = some u)
    (hu : Final f u) {P : σ → Prop} : AlwaysEnds f s P ↔ P u := by
  constructor
  · rintro ⟨n, hn⟩
    exact (hn as u h).2 hu
  · intro hP
    refine ⟨as.length, fun bs t hb => ?_⟩
    obtain ⟨cs, hcs, hlen⟩ := hf.extend h hu hb
    refine ⟨by omega, fun ht => ?_⟩
    cases cs with
    | nil =>
        obtain rfl := Option.some.inj hcs
        exact hP
    | cons c cs =>
        rw [runList, ht c] at hcs
        cases hcs

end Trans
