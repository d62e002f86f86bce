import Mathlib.Logic.Function.Basic
import Mathlib.Tactic

set_option autoImplicit false

/-! # Handles to blocks

An allocator hands out pointers, other than `0`, to blocks of some size. `View` is what its callers
see of a state: which pointers are live, the size of each block, and what it means for a block to be
the same in a later state. `Effect` is what one call does to that view: the caller gives up one
pointer and gets another, and every other block stays the same. Effects compose, and a table of the
pointers held, with the sizes asked for, follows them (`Held.of_effect`).
-/

namespace Handles

variable {σ : Type*}

/-- What the callers of an allocator see of its state. -/
structure View (σ : Type*) where
  live : σ → Nat → Prop
  size : σ → Nat → Nat
  same : σ → σ → Nat → Prop
  ne_zero : ∀ {s p}, live s p → p ≠ 0
  same_trans : ∀ {s s' s'' p}, same s s' p → same s' s'' p → same s s'' p
  same_size : ∀ {s s' p}, same s s' p → size s' p = size s p

/-- The call gave up the pointer `x` and returned `r`, a block of at least `n` bytes; `0` stands for
no pointer. -/
structure Effect (V : View σ) (s s' : σ) (x r n : Nat) : Prop where
  live : ∀ p, V.live s' p ↔ (V.live s p ∧ p ≠ x) ∨ (r ≠ 0 ∧ p = r)
  keep : ∀ p, V.live s p → p ≠ x → V.same s s' p
  fresh : r ≠ 0 → r ≠ x → ¬ V.live s r
  room : r ≠ 0 → n ≤ V.size s' r

namespace Effect

variable {V : View σ} {s s' s'' : σ} {x r n k p : Nat}

/-- The live blocks stay the same when the call gives up nothing. -/
theorem keep_all (h : Effect V s s' 0 r n) (hp : V.live s p) : V.same s s' p :=
  h.keep p hp (V.ne_zero hp)

/-- A block is also large enough for fewer bytes. -/
theorem mono (h : Effect V s s' x r n) (hk : k ≤ n) : Effect V s s' x r k :=
  ⟨h.live, h.keep, h.fresh, fun hr => hk.trans (h.room hr)⟩

/-- A call that got nothing for nothing changes no pointer. -/
theorem live_iff (h : Effect V s s' 0 0 n) : V.live s' p ↔ V.live s p := by
  rw [h.live]
  constructor
  · rintro (h | h)
    · exact h.1
    · exact absurd rfl h.1
  · exact fun h => Or.inl ⟨h, V.ne_zero h⟩

/-- After a call that changed nothing. -/
theorem after_fail (h : Effect V s s' 0 0 k) (h' : Effect V s' s'' x r n) :
    Effect V s s'' x r n := by
  refine ⟨fun p => ?_, fun p hp hne => ?_, fun hr hrx hp => ?_, h'.room⟩
  · rw [h'.live, h.live_iff]
  · exact V.same_trans (h.keep_all hp) (h'.keep p (h.live_iff.mpr hp) hne)
  · exact h'.fresh hr hrx (h.live_iff.mpr hp)

/-- The block that was returned is written. -/
theorem fill (h : Effect V s s' 0 r n) (h' : Effect V s' s'' r r n) (hr : r ≠ 0) :
    Effect V s s'' 0 r n := by
  have hfresh := h.fresh hr hr
  refine ⟨fun p => ?_, fun p hp hne => ?_, h.fresh, h'.room⟩
  · rw [h'.live, h.live]
    constructor
    · rintro (⟨hp, -⟩ | hp)
      · exact hp
      · exact Or.inr hp
    · rintro (hp | hp)
      · exact Or.inl ⟨Or.inl hp, fun he => hfresh (he ▸ hp.1)⟩
      · exact Or.inr hp
  · have hpr : p ≠ r := fun he => hfresh (he ▸ hp)
    have hlive : V.live s' p := (h.live p).mpr (Or.inl ⟨hp, hne⟩)
    exact V.same_trans (h.keep p hp hne) (h'.keep p hlive hpr)

/-- The old pointer is released after the new one was returned. -/
theorem release (h : Effect V s s' 0 r n) (hr : r ≠ 0) (hx : V.live s x)
    (h' : Effect V s' s'' x 0 k) : Effect V s s'' x r n := by
  have hrx : r ≠ x := fun he => h.fresh hr hr (he ▸ hx)
  refine ⟨fun p => ?_, fun p hp hne => ?_, fun hr _ => h.fresh hr hr, fun _ => ?_⟩
  · rw [h'.live, h.live]
    constructor
    · rintro (⟨hp | hp, hpx⟩ | hp)
      · exact Or.inl ⟨hp.1, hpx⟩
      · exact Or.inr hp
      · exact absurd rfl hp.1
    · rintro (⟨hp, hpx⟩ | ⟨-, rfl⟩)
      · exact Or.inl ⟨Or.inl ⟨hp, V.ne_zero hp⟩, hpx⟩
      · exact Or.inl ⟨Or.inr ⟨hr, rfl⟩, hrx⟩
  · have hlive : V.live s' p := (h.live p).mpr (Or.inl ⟨hp, V.ne_zero hp⟩)
    exact V.same_trans (h.keep_all hp) (h'.keep p hlive hne)
  · have hlive : V.live s' r := (h.live r).mpr (Or.inr ⟨hr, rfl⟩)
    calc n ≤ V.size s' r := h.room hr
      _ = V.size s'' r := (V.same_size (h'.keep r hlive hrx)).symm

end Effect

/-! ## The pointers held -/

/-- The pointers held after a call that gave up `x` and returned `r`, a block of `n` bytes. -/
def replaced (tbl : Nat → Option Nat) (x r n : Nat) : Nat → Option Nat :=
  if r = 0 then Function.update tbl x none
  else Function.update (Function.update tbl x none) r (some n)

section Table

variable {tbl : Nat → Option Nat} {x r n p : Nat}

theorem replaced_self (hr : r ≠ 0) : replaced tbl x r n r = some n := by
  rw [replaced, if_neg hr, Function.update_self]

theorem replaced_gone (h : ¬ (r ≠ 0 ∧ x = r)) : replaced tbl x r n x = none := by
  unfold replaced
  by_cases hr : r = 0
  · rw [if_pos hr, Function.update_self]
  · rw [if_neg hr, Function.update_of_ne fun e => h ⟨hr, e⟩, Function.update_self]

theorem replaced_of_ne (h : ¬ (r ≠ 0 ∧ p = r)) (hpx : p ≠ x) : replaced tbl x r n p = tbl p := by
  unfold replaced
  by_cases hr : r = 0
  · rw [if_pos hr, Function.update_of_ne hpx]
  · rw [if_neg hr, Function.update_of_ne fun e => h ⟨hr, e⟩, Function.update_of_ne hpx]

/-- Nothing is given up and nothing returned. -/
theorem replaced_zero (h : tbl 0 = none) : replaced tbl 0 0 n = tbl := by
  funext p
  by_cases hp : p = 0
  · rw [hp, h]
    exact replaced_gone (by simp)
  · exact replaced_of_ne (by simp) hp

/-- A block is replaced by itself. -/
theorem replaced_same (hx : x ≠ 0) (hn : tbl x = some n) : replaced tbl x x n = tbl := by
  funext p
  by_cases hp : p = x
  · rw [hp, hn]
    exact replaced_self hx
  · exact replaced_of_ne (fun h => hp h.2) hp

end Table

/-- The table has the live pointers, and each block is as large as was asked for. -/
structure Held (V : View σ) (s : σ) (tbl : Nat → Option Nat) : Prop where
  live : ∀ p, V.live s p ↔ (tbl p).isSome
  room : ∀ p, ∀ n ∈ tbl p, n ≤ V.size s p

namespace Held

variable {V : View σ} {s s' : σ} {tbl : Nat → Option Nat} {x r n p : Nat}

theorem ne_zero (hs : Held V s tbl) (hp : (tbl p).isSome) : p ≠ 0 := V.ne_zero ((hs.live p).mpr hp)

theorem zero (hs : Held V s tbl) : tbl 0 = none := by
  by_contra h
  exact hs.ne_zero (Option.isSome_iff_ne_none.mpr h) rfl

/-- A pointer that is returned is held by nobody else. -/
theorem fresh (hs : Held V s tbl) (he : Effect V s s' x r n) (hr : r ≠ 0) (hrx : r ≠ x) :
    tbl r = none := by
  by_contra h
  exact he.fresh hr hrx ((hs.live r).mpr (Option.isSome_iff_ne_none.mpr h))

/-- A pointer that is not given up stays in the table. -/
theorem replaced_eq (hs : Held V s tbl) (he : Effect V s s' x r n) (hp : (tbl p).isSome)
    (hpx : p ≠ x) : replaced tbl x r n p = tbl p := by
  refine replaced_of_ne ?_ hpx
  rintro ⟨hr, rfl⟩
  rw [hs.fresh he hr hpx] at hp
  exact absurd hp (by simp)

/-- **The table follows the effect of a call**. -/
theorem of_effect (hs : Held V s tbl) (he : Effect V s s' x r n) :
    Held V s' (replaced tbl x r n) := by
  refine ⟨fun p => ?_, fun p k hk => ?_⟩
  · rw [he.live]
    by_cases hp : r ≠ 0 ∧ p = r
    · obtain ⟨hr, rfl⟩ := hp
      simp [replaced_self hr, hr]
    · by_cases hpx : p = x
      · subst hpx
        rw [replaced_gone hp]
        exact iff_of_false (fun h => h.elim (fun h => h.2 rfl) hp) (by simp)
      · rw [replaced_of_ne hp hpx, ← hs.live]
        simp [hp, hpx]
  · by_cases hp : r ≠ 0 ∧ p = r
    · obtain ⟨hr, rfl⟩ := hp
      rw [replaced_self hr] at hk
      exact Option.some.inj hk ▸ he.room hr
    · by_cases hpx : p = x
      · subst hpx
        rw [replaced_gone hp] at hk
        exact absurd hk (by simp)
      · rw [replaced_of_ne hp hpx] at hk
        have hlive := (hs.live p).mpr (Option.isSome_iff_exists.mpr ⟨k, hk⟩)
        calc k ≤ V.size s p := hs.room p k hk
          _ = V.size s' p := (V.same_size (he.keep p hlive hpx)).symm

end Held

end Handles
