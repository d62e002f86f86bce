import Mathlib.Tactic

set_option autoImplicit false

/-! # Rounding by masks

A machine word and a mask of its low bits: the mask takes the remainder by a power of two, and its
complement rounds down to a multiple.
-/

namespace Masks

variable {w k : Nat} {x m : BitVec w}

/-- A mask of `k` bits. -/
def IsMask (k : Nat) (m : BitVec w) : Prop := m.toNat = 2 ^ k - 1

theorem IsMask.and (h : IsMask k m) (x : BitVec w) : (x &&& m).toNat = x.toNat % 2 ^ k := by
  rw [BitVec.toNat_and, h, Nat.and_two_pow_sub_one_eq_mod]

/-- The remainder is zero for a multiple. -/
theorem IsMask.and_eq_zero (h : IsMask k m) (x : BitVec w) : x &&& m = 0 ↔ 2 ^ k ∣ x.toNat := by
  rw [← BitVec.toNat_inj, h.and, Nat.dvd_iff_mod_eq_zero]
  exact Iff.rfl

/-- The bits of the mask, and the others. -/
theorem toNat_and_not (x m : BitVec w) : (x &&& ~~~m).toNat + (x &&& m).toNat = x.toNat := by
  have hdisj : (x &&& ~~~m) &&& (x &&& m) = 0 := by
    ext i hi
    simp only [BitVec.getElem_and, BitVec.getElem_not]
    cases m[i] <;> simp
  rw [← BitVec.toNat_add_of_and_eq_zero hdisj, BitVec.add_eq_or_of_and_eq_zero _ _ hdisj]
  congr 1
  ext i hi
  simp only [BitVec.getElem_or, BitVec.getElem_and, BitVec.getElem_not]
  cases m[i] <;> simp

/-- **The complement rounds down.** -/
theorem IsMask.and_not (h : IsMask k m) (x : BitVec w) :
    (x &&& ~~~m).toNat = x.toNat / 2 ^ k * 2 ^ k := by
  have hsum := toNat_and_not x m
  have hdiv := Nat.div_add_mod' x.toNat (2 ^ k)
  rw [h.and] at hsum
  omega

end Masks
