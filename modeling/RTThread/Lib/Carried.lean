import Mathlib.Tactic

set_option autoImplicit false

/-! # What is carried

Each of any number of threads carries one thing or nothing. `Carries f l` says that `l` are the things that are
carried, each as often as a thread carries it. A step in which one thread takes up or puts down a thing changes
the list by this thing; where no thing is twice in the list, it tells who carries it.
-/

/-- The things in `l` are those that are carried. -/
def Carries {τ α : Type*} (f : τ → Option α) (l : List α) : Prop :=
  ∃ ts : List τ, ts.Nodup ∧ (∀ t, t ∈ ts ↔ f t ≠ none) ∧ l.Perm (ts.filterMap f)

namespace Carries

variable {τ α : Type*} {f f' : τ → Option α} {l l' : List α} {t u : τ} {a : α}

theorem nil (h : ∀ t, f t = none) : Carries f [] :=
  ⟨[], List.nodup_nil, fun t => iff_of_false List.not_mem_nil (not_not.mpr (h t)), .nil⟩

theorem congr (h : Carries f l) (hf : ∀ t, f' t = f t) : Carries f' l := by
  have he : f' = f := funext hf
  rwa [he]

theorem perm (h : Carries f l) (hl : l'.Perm l) : Carries f l' := by
  obtain ⟨ts, hnd, hts, hperm⟩ := h
  exact ⟨ts, hnd, hts, hl.trans hperm⟩

theorem mem_iff (h : Carries f l) : a ∈ l ↔ ∃ t, f t = some a := by
  obtain ⟨ts, -, hts, hperm⟩ := h
  rw [hperm.mem_iff, List.mem_filterMap]
  constructor
  · rintro ⟨t, -, ht⟩
    exact ⟨t, ht⟩
  · rintro ⟨t, ht⟩
    exact ⟨t, (hts t).mpr (by rw [ht]; exact Option.some_ne_none a), ht⟩

/-- The others carry the same. -/
theorem filterMap_congr {ts : List τ} (ht : t ∉ ts) (hf : ∀ u, u ≠ t → f' u = f u) :
    ts.filterMap f' = ts.filterMap f := by
  apply List.filterMap_congr
  intro u hu
  apply hf
  rintro rfl
  exact ht hu

theorem take (h : Carries f l) (ht : f t = none) (ht' : f' t = some a) (hf : ∀ u, u ≠ t → f' u = f u) :
    Carries f' (a :: l) := by
  obtain ⟨ts, hnd, hts, hperm⟩ := h
  have hnot : t ∉ ts := fun hm => (hts t).mp hm ht
  refine ⟨t :: ts, List.nodup_cons.mpr ⟨hnot, hnd⟩, fun u => ?_, ?_⟩
  · rw [List.mem_cons]
    by_cases hut : u = t
    · subst hut
      exact iff_of_true (.inl rfl) (by rw [ht']; exact Option.some_ne_none a)
    · rw [hf u hut, ← hts u]
      exact or_iff_right hut
  · rw [List.filterMap_cons_some ht', filterMap_congr hnot hf]
    exact hperm.cons a

theorem put (h : Carries f (a :: l)) (ht : f t = some a) (ht' : f' t = none)
    (hf : ∀ u, u ≠ t → f' u = f u) : Carries f' l := by
  classical
  obtain ⟨ts, hnd, hts, hperm⟩ := h
  have hmem : t ∈ ts := (hts t).mpr (by rw [ht]; exact Option.some_ne_none a)
  have hnot : t ∉ ts.erase t := hnd.not_mem_erase
  refine ⟨ts.erase t, hnd.erase t, fun u => ?_, ?_⟩
  · rw [hnd.mem_erase_iff]
    by_cases hut : u = t
    · subst hut
      exact iff_of_false (fun hm => hm.1 rfl) (not_not.mpr ht')
    · rw [hf u hut, ← hts u]
      exact and_iff_right hut
  · have hts' := (List.perm_cons_erase hmem).filterMap f
    rw [List.filterMap_cons_some ht] at hts'
    rw [filterMap_congr hnot hf]
    exact (hperm.trans hts').cons_inv

/-- Who carries a thing. -/
theorem unique (h : Carries f l) (hl : l.Nodup) (ht : f t = some a) (hu : f u = some a) : t = u := by
  classical
  obtain ⟨ts, hnd, hts, hperm⟩ := h
  by_contra hne
  have hmem : t ∈ ts := (hts t).mpr (by rw [ht]; exact Option.some_ne_none a)
  have hmem' : u ∈ ts.erase t := by
    rw [hnd.mem_erase_iff]
    exact ⟨Ne.symm hne, (hts u).mpr (by rw [hu]; exact Option.some_ne_none a)⟩
  have hts' := (List.perm_cons_erase hmem).filterMap f
  rw [List.filterMap_cons_some ht] at hts'
  have hnodup := (hperm.trans hts').nodup_iff.mp hl
  exact (List.nodup_cons.mp hnodup).1 (List.mem_filterMap.mpr ⟨u, hmem', hu⟩)

end Carries
