import Mathlib.Tactic

set_option autoImplicit false

/-! # Bitmaps and find-first-set

A set of small numbers kept as a word: bit `i` is set when `i` is in the set. `set` and `clear`
are the usual masks, and `ffs` finds the least member.
-/

namespace Bitmap

variable {w : Nat}

/-- `v | (1 << i)`. -/
def set (v : BitVec w) (i : Nat) : BitVec w := v ||| 1#w <<< i

/-- `v & ~(1 << i)`. -/
def clear (v : BitVec w) (i : Nat) : BitVec w := v &&& ~~~(1#w <<< i)

/-- The position of the least set bit, counted from one; zero when no bit is set. -/
def ffs (v : BitVec w) : Nat :=
  match (List.range w).find? v.getLsbD with
  | some i => i + 1
  | none => 0

theorem getLsbD_mask {i j : Nat} (hi : i < w) : (1#w <<< i).getLsbD j = decide (j = i) := by
  rw [BitVec.getLsbD_shiftLeft, BitVec.getLsbD_one]
  by_cases hj : j = i
  · subst hj
    simp [hi]
    omega
  · by_cases hlt : j < i
    · simp [hj, hlt]
    · have hne : ¬ (j - i = 0) := by omega
      simp [hj, hne]

theorem getLsbD_set {v : BitVec w} {i j : Nat} (hi : i < w) :
    (set v i).getLsbD j = (v.getLsbD j || decide (j = i)) := by
  rw [set, BitVec.getLsbD_or, getLsbD_mask hi]

theorem getLsbD_clear {v : BitVec w} {i j : Nat} (hi : i < w) :
    (clear v i).getLsbD j = (v.getLsbD j && decide (j ≠ i)) := by
  rw [clear, BitVec.getLsbD_and, BitVec.getLsbD_not, getLsbD_mask hi]
  by_cases hj : j < w
  · simp [hj]
  · have hv : v.getLsbD j = false := BitVec.getLsbD_of_ge v j (by omega)
    simp [hv]

theorem ne_zero_iff {v : BitVec w} : v ≠ 0#w ↔ ∃ i < w, v.getLsbD i = true := by
  constructor
  · intro h
    by_contra hc
    refine h (BitVec.eq_of_getLsbD_eq fun i hi => ?_)
    by_contra hne
    refine hc ⟨i, hi, ?_⟩
    simpa using hne
  · rintro ⟨i, -, hb⟩ rfl
    simp at hb

/-- `ffs` finds the least bit. -/
theorem ffs_eq_iff {v : BitVec w} {i : Nat} :
    ffs v = i + 1 ↔ i < w ∧ v.getLsbD i = true ∧ ∀ j < i, v.getLsbD j = false := by
  unfold ffs
  cases hf : (List.range w).find? v.getLsbD with
  | none =>
      rw [List.find?_range_eq_none] at hf
      constructor
      · intro h
        simp at h
      · rintro ⟨h1, h2, -⟩
        have h3 := hf i h1
        simp [h2] at h3
  | some k =>
      rw [List.find?_range_eq_some] at hf
      obtain ⟨hk, hlt, hmin⟩ := hf
      rw [List.mem_range] at hlt
      constructor
      · intro h
        obtain rfl : k = i := by simpa using h
        exact ⟨hlt, hk, fun j hj => by simpa using hmin j hj⟩
      · rintro ⟨h1, h2, h3⟩
        rcases Nat.lt_trichotomy k i with h | h | h
        · have h4 := h3 k h
          rw [hk] at h4
          contradiction
        · simp [h]
        · have h4 := hmin i h
          simp [h2] at h4

theorem exists_ffs {v : BitVec w} (h : v ≠ 0#w) : ∃ i, ffs v = i + 1 := by
  obtain ⟨i, hi, hb⟩ := ne_zero_iff.mp h
  unfold ffs
  cases hf : (List.range w).find? v.getLsbD with
  | none =>
      rw [List.find?_range_eq_none] at hf
      have h1 := hf i hi
      simp [hb] at h1
  | some k => exact ⟨k, rfl⟩

end Bitmap
