import Mathlib.Tactic

set_option autoImplicit false

/-! # Records in a flat memory

A record at address `a` keeps each field in the cell at a fixed offset from `a`. When two records do
not overlap, a store to a field of one is seen only by a load of that field of that record
(`get_set`); a store changes no cell outside the record (`set_of_ne`).
-/

namespace Fields

variable {φ β : Type*} [DecidableEq φ]

/-- Load a field of the record at `a`. -/
def get (off : φ → Nat) (m : Nat → β) (f : φ) (a : Nat) : β := m (a + off f)

/-- Store a field of the record at `a`. -/
def set (off : φ → Nat) (m : Nat → β) (f : φ) (a : Nat) (v : β) : Nat → β := fun c =>
  if c = a + off f then v else m c

variable {off : φ → Nat} {size : Nat} {m : Nat → β} {f g : φ} {a b : Nat} {v : β}

/-- Two records of `size` cells do not overlap. -/
def Apart (size a b : Nat) : Prop := a + size ≤ b ∨ b + size ≤ a

theorem get_set (hinj : Function.Injective off) (hsize : ∀ f, off f < size)
    (h : a = b ∨ Apart size a b) :
    get off (set off m f a v) g b = if g = f ∧ b = a then v else get off m g b := by
  unfold get set
  rcases h with rfl | h
  · by_cases hfg : g = f
    · simp [hfg]
    · have hne : a + off g ≠ a + off f := fun he => hfg (hinj (Nat.add_left_cancel he))
      rw [if_neg hne, if_neg fun hc => hfg hc.1]
  · have hf := hsize f
    have hg := hsize g
    unfold Apart at h
    rw [if_neg (by omega), if_neg (by omega)]

omit [DecidableEq φ] in
/-- Storing what is there changes nothing. -/
theorem set_eq_self (h : get off m f a = v) : set off m f a v = m := by
  funext c
  unfold set
  split_ifs with hc
  · rw [hc]
    exact h.symm
  · rfl

omit [DecidableEq φ] in
theorem set_of_ne {c : Nat} (h : c ≠ a + off f) : set off m f a v c = m c := if_neg h

/-! ## A bounded part of the memory -/

/-- The cells below `hi` are those of `m`, the others those of `out`. -/
def patch (hi : Nat) (m out : Nat → β) : Nat → β := fun c => if c < hi then m c else out c

omit [DecidableEq φ] in
/-- A record below `hi` is loaded from `m`. -/
theorem get_patch (hsize : ∀ f, off f < size) {hi : Nat} {out : Nat → β} (h : a + size ≤ hi) :
    get off (patch hi m out) f a = get off m f a := by
  have hf := hsize f
  exact if_pos (by omega)

omit [DecidableEq φ] in
/-- A store into a record below `hi` is a store into `m`. -/
theorem set_patch (hsize : ∀ f, off f < size) {hi : Nat} {out : Nat → β} (h : a + size ≤ hi) :
    set off (patch hi m out) f a v = patch hi (set off m f a v) out := by
  have hf := hsize f
  funext c
  simp only [set, patch]
  by_cases hc : c = a + off f
  · rw [if_pos hc, if_pos (by omega), if_pos hc]
  · rw [if_neg hc, if_neg hc]

end Fields
