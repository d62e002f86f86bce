import Mathlib.Data.List.Perm.Basic
import Mathlib.Tactic

set_option autoImplicit false

/-! # Graphs of partial functions

A partial function that is defined at finitely many arguments, and the list of its pairs. What the
list is permuted to can then be counted, though there may be infinitely many arguments.
-/

/-- The pairs of a partial function, each once. -/
structure IsGraph {α β : Type*} (f : α → Option β) (l : List (α × β)) : Prop where
  nodup : l.Nodup
  mem_iff : ∀ a b, (a, b) ∈ l ↔ f a = some b

namespace IsGraph

variable {α β : Type*} {f g : α → Option β} {l : List (α × β)} {a : α} {b : β}

theorem nil (h : ∀ a, f a = none) : IsGraph f [] :=
  ⟨List.nodup_nil, fun a b => by simp [h a]⟩

theorem congr (h : IsGraph f l) (hg : ∀ a, g a = f a) : IsGraph g l :=
  ⟨h.nodup, fun a b => by rw [hg a, h.mem_iff]⟩

/-- A new argument gets a value. -/
theorem set (h : IsGraph f l) (ha : f a = none) (hg : g a = some b)
    (hne : ∀ c, c ≠ a → g c = f c) : IsGraph g ((a, b) :: l) := by
  refine ⟨List.nodup_cons.mpr ⟨fun hm => ?_, h.nodup⟩, fun c d => ?_⟩
  · rw [h.mem_iff, ha] at hm
    cases hm
  · rw [List.mem_cons, h.mem_iff]
    by_cases hc : c = a
    · subst hc
      simp [ha, hg, eq_comm]
    · simp [hc, hne c hc]

/-- An argument loses its value. -/
theorem unset (h : IsGraph f l) (ha : f a = some b) (hg : g a = none)
    (hne : ∀ c, c ≠ a → g c = f c) : ∃ l', l.Perm ((a, b) :: l') ∧ IsGraph g l' := by
  classical
  have hm : (a, b) ∈ l := (h.mem_iff a b).mpr ha
  refine ⟨l.erase (a, b), List.perm_cons_erase hm, h.nodup.erase _, fun c d => ?_⟩
  rw [h.nodup.mem_erase_iff, h.mem_iff]
  by_cases hc : c = a
  · subst hc
    have himp : f c = some d → d = b := fun hd => Option.some.inj (hd.symm.trans ha)
    constructor
    · rintro ⟨hne', hd⟩
      exact absurd (by rw [himp hd]) hne'
    · intro hd
      rw [hg] at hd
      cases hd
  · simp [hc, hne c hc]

end IsGraph
