import Mathlib.Data.List.Basic
import Mathlib.Data.List.Induction
import Mathlib.Tactic.Common

set_option autoImplicit false

/-! # Shift registers

A word that is shifted to the left gives its bits at the top, the most significant one first; a word that
takes bits at the bottom ends up with the last ones it was given. After as many shifts as the word has
bits nothing is left of what it held before.
-/

namespace RTThread.ShiftRegister

variable {w : Nat}

/-- The word shifted by one, with a new bit at the bottom. -/
def shiftIn (r : BitVec w) (b : Bool) : BitVec w := r <<< 1 ||| BitVec.ofNat w b.toNat

/-- The word that the bits make, the most significant one first. -/
def pack (l : List Bool) : BitVec w := l.foldl shiftIn 0

/-- The bits of a word, the most significant one first. -/
def bits (b : BitVec w) : List Bool := (List.range w).map b.getMsbD

theorem getLsbD_shiftIn (r : BitVec w) (b : Bool) {i : Nat} (hi : i < w) :
    (shiftIn r b).getLsbD i = if i = 0 then b else r.getLsbD (i - 1) := by
  rw [shiftIn, BitVec.getLsbD_or, BitVec.getLsbD_shiftLeft, BitVec.getLsbD_ofNat]
  by_cases h : i = 0
  · rw [h]
    cases b
    · simp
    · simp
      omega
  · have hbit : b.toNat.testBit i = false := by
      obtain ⟨j, rfl⟩ : ∃ j, i = j + 1 := ⟨i - 1, by omega⟩
      cases b <;> simp [Nat.testBit_succ]
    rw [if_neg h, hbit]
    simp [hi, h]

/-- After the bits `l`, the last ones stand at the bottom and the rest is what was there before. -/
theorem getLsbD_foldl (l : List Bool) (r : BitVec w) {i : Nat} (hi : i < w) :
    (l.foldl shiftIn r).getLsbD i =
      if h : i < l.length then l[l.length - 1 - i] else r.getLsbD (i - l.length) := by
  induction l using List.reverseRecOn generalizing i with
  | nil => simp
  | append_singleton l b ih =>
    rw [List.foldl_concat, getLsbD_shiftIn _ _ hi]
    by_cases h : i = 0
    · simp [h]
    · rw [if_neg h, ih (by omega)]
      simp only [List.length_append, List.length_singleton]
      by_cases h₁ : i - 1 < l.length
      · have h₂ : i < l.length + 1 := by omega
        rw [dif_pos h₁, dif_pos h₂, List.getElem_append_left (by omega)]
        congr 1
        omega
      · have h₂ : ¬ i < l.length + 1 := by omega
        rw [dif_neg h₁, dif_neg h₂]
        congr 1
        omega

/-- **Nothing is left of the word** after as many bits as it has. -/
theorem foldl_eq_pack {l : List Bool} (h : l.length = w) (r : BitVec w) :
    l.foldl shiftIn r = pack l := by
  apply BitVec.eq_of_getLsbD_eq
  intro i hi
  rw [pack, getLsbD_foldl l r hi, getLsbD_foldl l 0 hi, dif_pos (by omega), dif_pos (by omega)]

/-- The bits of a packed word are those it was made of. -/
theorem getMsbD_pack {l : List Bool} (h : l.length = w) {k : Nat} (hk : k < w) :
    (pack l : BitVec w).getMsbD k = l.get ⟨k, by omega⟩ := by
  have hlow : w - 1 - k < w := by omega
  rw [BitVec.getMsbD_eq_getLsbD, pack, getLsbD_foldl l 0 hlow, dif_pos (by omega)]
  simp only [hk, decide_true, Bool.true_and, List.get_eq_getElem]
  congr 1
  omega

/-- **Reading back**: a word is packed from its own bits. -/
theorem pack_bits (b : BitVec w) : pack (bits b) = b := by
  apply BitVec.eq_of_getLsbD_eq
  intro i hi
  have hlen : (bits b).length = w := by simp [bits]
  rw [pack, getLsbD_foldl _ _ hi, dif_pos (by omega)]
  simp only [bits, List.getElem_map, List.getElem_range, List.length_map, List.length_range]
  rw [BitVec.getMsbD_eq_getLsbD]
  have h₁ : w - 1 - i < w := by omega
  have h₂ : w - 1 - (w - 1 - i) = i := by omega
  simp [h₁, h₂]

/-- The bits come out at the top. -/
theorem msb_shiftLeft (b : BitVec w) (k : Nat) : (b <<< k).msb = b.getMsbD k := by
  rw [BitVec.msb_eq_getMsbD_zero, BitVec.getMsbD_shiftLeft, Nat.zero_add]

theorem shiftLeft_succ (b : BitVec w) (k : Nat) : b <<< k <<< 1 = b <<< (k + 1) := by
  rw [BitVec.shiftLeft_add]

theorem shiftLeft_all (b : BitVec w) : b <<< w = 0 := by
  apply BitVec.eq_of_getLsbD_eq
  intro i hi
  rw [BitVec.getLsbD_shiftLeft]
  simp [hi]

end RTThread.ShiftRegister
