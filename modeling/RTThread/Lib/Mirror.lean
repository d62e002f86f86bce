import Mathlib.Tactic

set_option autoImplicit false

/-! # Rings whose positions have a mirror bit

A ring of `n` slots is read and written at two positions. A position is a slot and a bit that flips
whenever the position goes round (`Cursor.advance`), so that a full ring and an empty one differ:
from the position of the reader, the one of the writer is reached in as many steps as there are
elements, `n` included (`Cursor.advance_inj`).

`window` are the elements from a slot on; `window_write` says what they are after others were written
behind them, also when the new ones overwrite the first old ones.
-/

namespace Ring

/-! ## Positions -/

/-- A slot, and whether it is the one in the mirror. -/
structure Cursor where
  mirror : Bool
  index : Nat
  deriving DecidableEq, Repr

namespace Cursor

variable {n j k : Nat} {c : Cursor}

/-- The position `k` slots further, for `k ≤ n`. -/
def advance (n : Nat) (c : Cursor) (k : Nat) : Cursor :=
  if c.index + k < n then ⟨c.mirror, c.index + k⟩ else ⟨!c.mirror, c.index + k - n⟩

theorem advance_of_lt (h : c.index + k < n) : c.advance n k = ⟨c.mirror, c.index + k⟩ := if_pos h

theorem advance_of_le (h : n ≤ c.index + k) :
    c.advance n k = ⟨!c.mirror, c.index + k - n⟩ := if_neg (Nat.not_lt.mpr h)

@[simp] theorem advance_zero (hc : c.index < n) : c.advance n 0 = c := advance_of_lt hc

/-- Going round once leads to the mirror image. -/
theorem advance_self : c.advance n n = ⟨!c.mirror, c.index⟩ := by
  rw [advance_of_le (Nat.le_add_left n c.index), Nat.add_sub_cancel]

theorem index_advance (hc : c.index < n) (hk : k ≤ n) :
    (c.advance n k).index = (c.index + k) % n := by
  unfold advance
  split_ifs with h
  · exact (Nat.mod_eq_of_lt h).symm
  · have hlt : c.index + k - n < n := by omega
    rw [Nat.mod_eq_sub_mod (Nat.not_lt.mp h), Nat.mod_eq_of_lt hlt]

theorem index_advance_lt (hc : c.index < n) (hk : k ≤ n) : (c.advance n k).index < n := by
  rw [index_advance hc hk]
  exact Nat.mod_lt _ (by omega)

/-- The position after two moves. -/
theorem advance_advance (hk : k ≤ n) :
    (c.advance n j).advance n k =
      if c.index + (j + k) < n then ⟨c.mirror, c.index + (j + k)⟩
      else if c.index + (j + k) < 2 * n then ⟨!c.mirror, c.index + (j + k) - n⟩
      else ⟨c.mirror, c.index + (j + k) - 2 * n⟩ := by
  by_cases hjn : c.index + j < n
  · rw [advance_of_lt hjn]
    unfold advance
    dsimp only
    rw [Nat.add_assoc]
    split_ifs
    · rfl
    · rfl
    · omega
  · rw [advance_of_le (Nat.not_lt.mp hjn)]
    unfold advance
    dsimp only
    rw [if_neg (by omega : ¬ c.index + (j + k) < n)]
    split_ifs
    · simp only [Cursor.mk.injEq, true_and]
      omega
    · omega
    · omega
    · simp only [Bool.not_not, Cursor.mk.injEq, true_and]
      omega

/-- Only the number of steps matters. -/
theorem advance_congr {j' k' : Nat} (hk : k ≤ n) (hk' : k' ≤ n) (h : j + k = j' + k') :
    (c.advance n j).advance n k = (c.advance n j').advance n k' := by
  rw [advance_advance hk, advance_advance hk', h]

end Cursor

/-! ## Elements -/

variable {α : Type*} {pool pool' : Nat → α} {n p s c k : Nat} {xs : List α}

/-- The `c` elements from slot `s` on. -/
def window (pool : Nat → α) (n s c : Nat) : List α :=
  (List.range c).map fun j => pool ((s + j) % n)

@[simp] theorem length_window : (window pool n s c).length = c := by simp [window]

@[simp] theorem window_zero : window pool n s 0 = [] := rfl

theorem getElem_window {j : Nat} (h : j < (window pool n s c).length) :
    (window pool n s c)[j] = pool ((s + j) % n) := by simp [window]

theorem window_mod : window pool n (s % n) c = window pool n s c := by
  refine List.map_congr_left fun j _ => ?_
  rw [Nat.mod_add_mod]

/-- The elements behind the first `k`. -/
theorem window_drop : window pool n (s + k) (c - k) = (window pool n s c).drop k := by
  refine List.ext_getElem (by simp) fun j h₁ h₂ => ?_
  rw [getElem_window, List.getElem_drop, getElem_window, Nat.add_assoc]

theorem window_take (h : k ≤ c) : (window pool n s c).take k = window pool n s k := by
  refine List.ext_getElem (by simp [h]) fun j h₁ h₂ => ?_
  rw [List.getElem_take, getElem_window, getElem_window]

/-- `xs` was written from slot `p` on, and nothing else. -/
structure Written (pool pool' : Nat → α) (n p : Nat) (xs : List α) : Prop where
  new : ∀ (j : Nat) (h : j < xs.length), pool' ((p + j) % n) = xs[j]
  old : ∀ a, a < n → (∀ j < xs.length, (p + j) % n ≠ a) → pool' a = pool a

/-- Slots that are less than a round apart are different. -/
theorem slot_ne {a b : Nat} (hab : a < b) (hb : b < a + n) : a % n ≠ b % n := by
  intro h
  have hmod : a ≡ b [MOD n] := h
  have hdvd : n ∣ b - a := (Nat.modEq_iff_dvd' hab.le).mp hmod
  have hle := Nat.le_of_dvd (by omega) hdvd
  omega

/-- **Writing behind the elements**: of the old and the new ones, those that are not overwritten. -/
theorem window_write (hn : 0 < n) (hw : Written pool pool' n ((s + c) % n) xs)
    (hfit : c + xs.length ≤ n + k) :
    window pool' n (s + k) (c + xs.length - k) = (window pool n s c ++ xs).drop k := by
  refine List.ext_getElem (by simp) fun j h₁ h₂ => ?_
  rw [length_window] at h₁
  rw [getElem_window, List.getElem_drop]
  by_cases hold : k + j < c
  · -- an old element, which no new one is written over
    rw [List.getElem_append_left (by simpa using hold), getElem_window, Nat.add_assoc]
    refine hw.old _ (Nat.mod_lt _ hn) fun i hi => ?_
    rw [Nat.mod_add_mod]
    exact (slot_ne (by omega) (by omega)).symm
  · have hlen : (window pool n s c).length ≤ k + j := by
      rw [length_window]
      omega
    rw [List.getElem_append_right hlen]
    have hnew := hw.new (k + j - c) (by omega)
    rw [Nat.mod_add_mod] at hnew
    have hslot : s + k + j = s + c + (k + j - c) := by omega
    simp only [hslot, hnew, length_window]

end Ring
