import Mathlib.Tactic

set_option autoImplicit false

/-! # Transfers in blocks

A transfer of some bytes at an offset may be made in pieces (`Additive`). A loop that moves as many
blocks of one size as there are bytes for transfers a front part and leaves less than a block; loops with smaller
and smaller blocks, the last one of single bytes, transfer it all.
-/

namespace Transfer

variable {M : Type}

/-- Two pieces in a row are one piece, up to the end `count`. -/
def Additive (count : Nat) (T : Nat → Nat → M → M) : Prop :=
  ∀ i n k m, i + n + k ≤ count → T (i + n) k (T i n m) = T i (n + k) m

/-- The offset reached, the bytes that are left and the memory. -/
abbrev State (M : Type) := Nat × Nat × M

/-- A loop that makes a step for each block of `size` bytes. -/
def loop (size : Nat) (step : Nat → M → M) (s : State M) : State M :=
  if _h : 0 < size ∧ size ≤ s.2.1 then loop size step (s.1 + size, s.2.1 - size, step s.1 s.2.2) else s
  termination_by s.2.1
  decreasing_by omega

/-- So far the bytes in front of the offset are transferred. -/
def Done (count : Nat) (T : Nat → Nat → M → M) (m : M) (s : State M) : Prop :=
  s.1 + s.2.1 = count ∧ s.2.2 = T 0 s.1 m

variable {count size : Nat} {T : Nat → Nat → M → M} {step : Nat → M → M} {m : M} {s : State M}

theorem Done.block (hT : Additive count T) (hs : Done count T m s) (hle : size ≤ s.2.1)
    (hstep : step s.1 s.2.2 = T s.1 size s.2.2) :
    Done count T m (s.1 + size, s.2.1 - size, step s.1 s.2.2) := by
  obtain ⟨hlen, hm⟩ := hs
  refine ⟨by simp only; omega, ?_⟩
  have h := hT 0 s.1 size m (by omega)
  rw [Nat.zero_add, ← hm] at h
  exact hstep.trans h

/-- **A loop of blocks** goes on where the one before has stopped. -/
theorem loop_done (hT : Additive count T)
    (hstep : ∀ i m, i + size ≤ count → step i m = T i size m) (hs : Done count T m s) :
    Done count T m (loop size step s) := by
  fun_induction loop size step s with
  | case1 s h ih =>
      have hi : s.1 + size ≤ count := by
        have := hs.1
        omega
      exact ih (hs.block hT h.2 (hstep s.1 s.2.2 hi))
  | case2 s h => exact hs

/-- Less than a block is left. -/
theorem loop_lt (hsize : 0 < size) : (loop size step s).2.1 < size := by
  fun_induction loop size step s with
  | case1 s h ih => exact ih
  | case2 s h => omega

/-- Single bytes leave nothing. -/
theorem loop_bytes (hT : Additive count T) (hstep : ∀ i m, i + 1 ≤ count → step i m = T i 1 m)
    (hs : Done count T m s) : (loop 1 step s).2.2 = T 0 count m := by
  have hdone := loop_done hT hstep hs
  have hlt : (loop 1 step s).2.1 < 1 := loop_lt Nat.one_pos
  have hall : (loop 1 step s).1 = count := by
    have := hdone.1
    omega
  rw [hdone.2, hall]

end Transfer
