import Mathlib.Logic.Function.Basic

set_option autoImplicit false

/-! # A value that changes

What a function has at one place changes. What the new value agrees in with the old one, the functions agree in
everywhere.
-/

open Function (update)

variable {α β γ : Type*} [DecidableEq α] {f : α → β} {a : α} {v : β}

theorem update_map {F : β → γ} (h : F v = F (f a)) (b : α) : F (update f a v b) = F (f b) := by
  by_cases hb : b = a
  · subst hb
    rwa [Function.update_self]
  · rw [Function.update_of_ne hb]

theorem update_iff {P : β → Prop} (h : P v ↔ P (f a)) (b : α) : P (update f a v b) ↔ P (f b) :=
  iff_of_eq (update_map (propext h) b)

/-- What holds afterwards of the new value or of an old one. -/
theorem of_update {P : β → Prop} {b : α} (h : P (update f a v b)) : b = a ∧ P v ∨ b ≠ a ∧ P (f b) := by
  by_cases hb : b = a
  · subst hb
    rw [Function.update_self] at h
    exact .inl ⟨rfl, h⟩
  · rw [Function.update_of_ne hb] at h
    exact .inr ⟨hb, h⟩
