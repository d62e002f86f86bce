import Mathlib.Data.Finset.Card
import Mathlib.Tactic

set_option autoImplicit false

/-! # Counting

How many elements have a property, when the type may be infinite and the property changes step by
step. Each step changes it at one element at most (`Change`), and the number changes with it.
-/

/-- The property holds of `n` elements. -/
def Counts {α : Type*} (p : α → Prop) (n : Nat) : Prop :=
  ∃ P : Finset α, (∀ a, a ∈ P ↔ p a) ∧ P.card = n

namespace Counts

variable {α : Type*} {p p' : α → Prop} {n n' : Nat} {d : Int}

theorem zero (h : ∀ a, ¬ p a) : Counts p 0 :=
  ⟨∅, fun a => iff_of_false (Finset.notMem_empty a) (h a), Finset.card_empty⟩

theorem congr (h : Counts p n) (hp : ∀ a, p' a ↔ p a) : Counts p' n := by
  obtain ⟨P, hP, hc⟩ := h
  exact ⟨P, fun a => (hP a).trans (hp a).symm, hc⟩

/-- The number is determined. -/
theorem unique (h : Counts p n) (h' : Counts p n') : n = n' := by
  obtain ⟨P, hP, rfl⟩ := h
  obtain ⟨Q, hQ, rfl⟩ := h'
  have hPQ : P = Q := Finset.ext fun a => (hP a).trans (hQ a).symm
  rw [hPQ]

/-- What becomes of a property in one step, and of the number of its elements. -/
inductive Change (p p' : α → Prop) : Int → Prop
  | same (h : ∀ a, p' a ↔ p a) : Change p p' 0
  | gain (a : α) (ha : ¬ p a) (ha' : p' a) (h : ∀ b, b ≠ a → (p' b ↔ p b)) : Change p p' 1
  | leave (a : α) (ha : p a) (ha' : ¬ p' a) (h : ∀ b, b ≠ a → (p' b ↔ p b)) : Change p p' (-1)

/-- Off one element the property does not change. -/
theorem off {a b : α} (h : ∀ b, b ≠ a → (p' b ↔ p b)) (hne : b ≠ a) {P : Finset α}
    (hP : ∀ a, a ∈ P ↔ p a) : b ∈ P ↔ p' b :=
  (hP b).trans (h b hne).symm

theorem gain (h : Counts p n) {a : α} (ha : ¬ p a) (ha' : p' a)
    (hb : ∀ b, b ≠ a → (p' b ↔ p b)) : Counts p' (n + 1) := by
  obtain ⟨P, hP, rfl⟩ := h
  classical
  refine ⟨insert a P, fun b => ?_, Finset.card_insert_of_notMem fun hm => ha ((hP a).mp hm)⟩
  rw [Finset.mem_insert]
  by_cases hba : b = a
  · subst hba
    exact iff_of_true (Or.inl rfl) ha'
  · rw [← off hb hba hP]
    exact or_iff_right hba

theorem leave (h : Counts p (n + 1)) {a : α} (ha : p a) (ha' : ¬ p' a)
    (hb : ∀ b, b ≠ a → (p' b ↔ p b)) : Counts p' n := by
  obtain ⟨P, hP, hc⟩ := h
  classical
  refine ⟨P.erase a, fun b => ?_, ?_⟩
  · rw [Finset.mem_erase]
    by_cases hba : b = a
    · subst hba
      exact iff_of_false (fun hm => hm.1 rfl) ha'
    · rw [← off hb hba hP]
      exact and_iff_right hba
  · rw [Finset.card_erase_of_mem ((hP a).mpr ha), hc]
    rfl

/-- An element that has the property is counted. -/
theorem pos (h : Counts p n) {a : α} (ha : p a) : 0 < n := by
  obtain ⟨P, hP, rfl⟩ := h
  exact Finset.card_pos.mpr ⟨a, (hP a).mpr ha⟩

/-- **The number after a step** is the number before it and the change. -/
theorem change_iff (h : Counts p n) (c : Change p p' d) : Counts p' n' ↔ (n' : Int) = n + d := by
  have hstep : ∃ m, Counts p' m ∧ (m : Int) = n + d := by
    cases c with
    | same hp => exact ⟨n, h.congr hp, by omega⟩
    | gain a ha ha' hb => exact ⟨n + 1, h.gain ha ha' hb, by omega⟩
    | leave a ha ha' hb =>
        have hpos := h.pos ha
        obtain ⟨m, rfl⟩ : ∃ m, n = m + 1 := ⟨n - 1, by omega⟩
        exact ⟨m, h.leave ha ha' hb, by omega⟩
  obtain ⟨m, hm, he⟩ := hstep
  constructor
  · intro h'
    have hmn := h'.unique hm
    omega
  · intro hn
    obtain rfl : n' = m := by omega
    exact hm

end Counts
