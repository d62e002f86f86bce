import Mathlib.Order.Monotone.Basic

set_option autoImplicit false

/-! # Sectors

Consecutive sectors of a range of numbers: sector `i` starts at `base i` and ends where the next one starts.
-/

namespace RTThread.Sectors

variable {base : Nat → Nat} {i j k x y : Nat}

/-- The number is in the sector. -/
def In (base : Nat → Nat) (i x : Nat) : Prop := base i ≤ x ∧ x < base (i + 1)

/-- Sectors are in the order of their numbers. -/
theorem In.le_of_le (hbase : Monotone base) (hi : In base i x) (hj : In base j y) (hxy : x ≤ y) : i ≤ j := by
  by_contra hlt
  have hle : base (j + 1) ≤ base i := hbase (Nat.not_le.mp hlt)
  have hx := hi.1
  have hy := hj.2
  omega

/-- **The sectors that a range touches** are those from that of its first number to that of its last one. -/
theorem touched_iff (hbase : Monotone base) (hi : In base i x) (hj : In base j y) (hxy : x ≤ y)
    (hne : ∀ k, k < j → base k < base (k + 1)) :
    (∃ z, x ≤ z ∧ z ≤ y ∧ In base k z) ↔ i ≤ k ∧ k ≤ j := by
  constructor
  · rintro ⟨z, hxz, hzy, hk⟩
    exact ⟨hi.le_of_le hbase hk hxz, hk.le_of_le hbase hj hzy⟩
  · rintro ⟨hik, hkj⟩
    obtain rfl | hlt := Nat.eq_or_lt_of_le hkj
    · exact ⟨y, hxy, le_refl _, hj⟩
    obtain rfl | hik := Nat.eq_or_lt_of_le hik
    · exact ⟨x, le_refl _, hxy, hi⟩
    · have hfirst : base (i + 1) ≤ base k := hbase hik
      have hlast : base k ≤ base j := hbase hkj
      have hx := hi.2
      have hy := hj.1
      exact ⟨base k, by omega, by omega, le_refl _, hne k hlt⟩

/-- A number is the start of its sector where the number in front of it is in an earlier one. -/
theorem In.lt_iff (hbase : Monotone base) (hi : In base i x) (hj : In base j (x + 1)) :
    i < j ↔ x + 1 = base j := by
  have h₁ := hi.2
  have h₂ := hj.1
  constructor
  · intro hlt
    have hle : base (i + 1) ≤ base j := hbase hlt
    omega
  · intro heq
    by_contra hge
    have hle : base j ≤ base i := hbase (Nat.not_lt.mp hge)
    have h₃ := hi.1
    omega

end RTThread.Sectors
