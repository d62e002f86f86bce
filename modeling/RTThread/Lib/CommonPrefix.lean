import Mathlib.Data.List.Basic

set_option autoImplicit false

/-! # Longest common prefixes

The longest common prefix of two lists, and of a list of lists: a list is a prefix of it iff it is a prefix
of all of them.
-/

namespace RTThread.Prefixes

variable {α : Type} [DecidableEq α]

def commonPrefix : List α → List α → List α
  | a :: l₁, b :: l₂ => if a = b then a :: commonPrefix l₁ l₂ else []
  | _, _ => []

/-- The longest common prefix of some lists. -/
def longestCommon : List (List α) → List α
  | [] => []
  | l :: ls => ls.foldl commonPrefix l

variable {p q l m l₁ l₂ : List α} {ls : List (List α)}

theorem prefix_commonPrefix : q <+: commonPrefix l₁ l₂ ↔ q <+: l₁ ∧ q <+: l₂ := by
  induction q generalizing l₁ l₂ with
  | nil => simp
  | cons c q ih =>
      cases l₁ with
      | nil => simp [commonPrefix]
      | cons a l₁ =>
          cases l₂ with
          | nil => simp [commonPrefix]
          | cons b l₂ =>
              unfold commonPrefix
              by_cases hab : a = b
              · rw [if_pos hab, List.cons_prefix_cons, ih, List.cons_prefix_cons, List.cons_prefix_cons, hab]
                constructor
                · rintro ⟨hc, h₁, h₂⟩
                  exact ⟨⟨hc, h₁⟩, hc, h₂⟩
                · rintro ⟨⟨hc, h₁⟩, -, h₂⟩
                  exact ⟨hc, h₁, h₂⟩
              · rw [if_neg hab, List.cons_prefix_cons, List.cons_prefix_cons]
                constructor
                · intro h
                  exact absurd (List.prefix_nil.mp h) (List.cons_ne_nil _ _)
                · rintro ⟨⟨rfl, -⟩, rfl, -⟩
                  exact absurd rfl hab

theorem prefix_foldl : q <+: ls.foldl commonPrefix p ↔ q <+: p ∧ ∀ l ∈ ls, q <+: l := by
  induction ls generalizing p with
  | nil => simp
  | cons l ls ih => rw [List.foldl_cons, ih, prefix_commonPrefix, List.forall_mem_cons, and_assoc]

/-- **What a longest common prefix is.** -/
theorem prefix_longestCommon (h : ls ≠ []) : q <+: longestCommon ls ↔ ∀ l ∈ ls, q <+: l := by
  obtain ⟨l, ls, rfl⟩ := List.exists_cons_of_ne_nil h
  rw [longestCommon, prefix_foldl, List.forall_mem_cons]

theorem commonPrefix_left (l₁ l₂ : List α) : commonPrefix l₁ l₂ <+: l₁ :=
  (prefix_commonPrefix.mp (List.prefix_refl _)).1

theorem commonPrefix_comm (l₁ l₂ : List α) : commonPrefix l₁ l₂ = commonPrefix l₂ l₁ := by
  have hle : ∀ l₁ l₂ : List α, commonPrefix l₁ l₂ <+: commonPrefix l₂ l₁ := by
    intro l₁ l₂
    obtain ⟨h₁, h₂⟩ := prefix_commonPrefix.mp (List.prefix_refl (commonPrefix l₁ l₂))
    exact prefix_commonPrefix.mpr ⟨h₂, h₁⟩
  exact (hle l₁ l₂).eq_of_length_le (hle l₂ l₁).length_le

/-- Only as much of the first list counts as there is of it. -/
theorem commonPrefix_take (h : p <+: m) : commonPrefix p l = (commonPrefix m l).take p.length := by
  induction p generalizing m l with
  | nil => rfl
  | cons a p ih =>
      cases m with
      | nil => exact absurd (List.prefix_nil.mp h) (List.cons_ne_nil _ _)
      | cons b m =>
          obtain ⟨rfl, hp⟩ := List.cons_prefix_cons.mp h
          cases l with
          | nil => rfl
          | cons c l =>
              unfold commonPrefix
              split_ifs
              · rw [ih hp, List.length_cons, List.take_succ_cons]
              · rfl

end RTThread.Prefixes
