import Mathlib.Tactic

set_option autoImplicit false

/-! # Output through a sink

A program that prints gives its characters one by one to a sink: a state `σ` and an operation `emit`.
What it prints does not depend on the sink: a map between two sinks that commutes with `emit`
(`Hom`) commutes with such a program. The list `snoc` is the sink that keeps everything; a run into any
other sink is a run into the list, whose characters are then given to that sink (`hom_foldl`).

`guarded` is the sink that a bounded buffer is: a position that always advances, and a write only in
front of the end. `foldl_guarded` says what it leaves in the memory.
-/

namespace Sink

variable {σ τ α : Type}

/-- Everything is kept. -/
def snoc (text : List α) (c : α) : List α := text ++ [c]

/-- A map between sinks. -/
def Hom (emit : σ → α → σ) (emit' : τ → α → τ) (h : σ → τ) : Prop :=
  ∀ o c, h (emit o c) = emit' (h o) c

namespace Hom

variable {emit : σ → α → σ} {emit' : τ → α → τ} {h : σ → τ}

theorem apply (hom : Hom emit emit' h) (o : σ) (c : α) : h (emit o c) = emit' (h o) c := hom o c

theorem foldl (hom : Hom emit emit' h) (o : σ) (text : List α) :
    h (text.foldl emit o) = text.foldl emit' (h o) := by
  induction text generalizing o with
  | nil => rfl
  | cons c text ih =>
      rw [List.foldl_cons, List.foldl_cons, ih, hom]

/-- The same character, some times. -/
theorem iterate (hom : Hom emit emit' h) (o : σ) (c : α) (k : Nat) :
    h ((fun o => emit o c)^[k] o) = (fun o => emit' o c)^[k] (h o) := by
  induction k generalizing o with
  | zero => rfl
  | succ k ih =>
      rw [Function.iterate_succ_apply, Function.iterate_succ_apply, ih, hom]

end Hom

/-- From the list to any sink. -/
theorem hom_foldl (emit : σ → α → σ) (o : σ) : Hom snoc emit fun text => text.foldl emit o := by
  intro text c
  exact List.foldl_concat ..

theorem foldl_snoc (text cs : List α) : cs.foldl snoc text = text ++ cs := by
  induction cs generalizing text with
  | nil => exact (List.append_nil text).symm
  | cons c cs ih => rw [List.foldl_cons, ih, snoc, List.append_assoc, List.singleton_append]

theorem iterate_snoc (text : List α) (c : α) (k : Nat) :
    (fun o => snoc o c)^[k] text = text ++ List.replicate k c := by
  induction k generalizing text with
  | zero => exact (List.append_nil text).symm
  | succ k ih =>
      rw [Function.iterate_succ_apply, ih, snoc, List.append_assoc, List.replicate_succ]
      rfl

/-! ## A bounded buffer -/

/-- The memory, and the position of the next character. -/
structure Buffer (α : Type) where
  mem : Nat → α
  pos : Nat

/-- A character is written in front of `stop`, in memory of `n` addresses; the position goes on. -/
def guarded (n stop : Nat) (b : Buffer α) (c : α) : Buffer α where
  mem := if b.pos < stop then Function.update b.mem b.pos c else b.mem
  pos := (b.pos + 1) % n

variable {n : Nat}

/-- **What a bounded buffer holds**: the text as far as `stop`, and the position is behind the text. -/
theorem foldl_guarded (stop : Nat) (b : Buffer α) (text : List α) (h : b.pos + text.length < n) :
    (text.foldl (guarded n stop) b).pos = b.pos + text.length ∧
      ∀ a, (text.foldl (guarded n stop) b).mem a =
        if b.pos ≤ a ∧ a < stop then text[a - b.pos]?.getD (b.mem a) else b.mem a := by
  induction text generalizing b with
  | nil =>
      refine ⟨rfl, fun a => ?_⟩
      rw [List.getElem?_nil, Option.getD_none, ite_self]
      rfl
  | cons c text ih =>
      rw [List.length_cons] at h
      have hpos : (guarded n stop b c).pos = b.pos + 1 := Nat.mod_eq_of_lt (by omega)
      obtain ⟨ih₁, ih₂⟩ := ih (guarded n stop b c) (by rw [hpos]; omega)
      have hother : ∀ a, a ≠ b.pos → (guarded n stop b c).mem a = b.mem a := by
        intro a ha
        show (if b.pos < stop then Function.update b.mem b.pos c else b.mem) a = b.mem a
        split_ifs
        · exact Function.update_of_ne ha _ _
        · rfl
      refine ⟨?_, fun a => ?_⟩
      · rw [List.foldl_cons, ih₁, hpos, List.length_cons]
        omega
      · rw [List.foldl_cons, ih₂, hpos]
        rcases Nat.lt_trichotomy a b.pos with hlt | rfl | hgt
        · -- in front of the text
          rw [if_neg (by omega), if_neg (by omega), hother a (by omega)]
        · -- the first character
          rw [if_neg (by omega), Nat.sub_self, List.getElem?_cons_zero, Option.getD_some]
          show (if b.pos < stop then Function.update b.mem b.pos c else b.mem) b.pos = _
          by_cases hs : b.pos < stop
          · rw [if_pos hs, if_pos ⟨le_rfl, hs⟩, Function.update_self]
          · rw [if_neg hs, if_neg (by omega)]
        · obtain ⟨k, rfl⟩ : ∃ k, a = b.pos + 1 + k := ⟨a - (b.pos + 1), by omega⟩
          rw [hother _ (by omega), show b.pos + 1 + k - b.pos = k + 1 by omega,
            List.getElem?_cons_succ, Nat.add_sub_cancel_left]
          exact if_congr (by omega) rfl rfl

/-- A text that is longer than the rest of the memory goes on at the first address. -/
theorem foldl_guarded_wrap {stop : Nat} {b : Buffer α} {front back : List α} {c d : α} (hfront : b.pos + front.length + 1 = n)
    (hback : 1 + back.length < n) (hstop : 0 < stop) :
    ((front ++ c :: d :: back).foldl (guarded n stop) b).pos = 1 + back.length ∧
      ((front ++ c :: d :: back).foldl (guarded n stop) b).mem 0 = d := by
  rw [List.foldl_append, List.foldl_cons, List.foldl_cons]
  have h₁ := (foldl_guarded (n := n) stop b front (by omega)).1
  generalize front.foldl (guarded n stop) b = b₁ at h₁ ⊢
  have h₂ : (guarded n stop b₁ c).pos = 0 := by
    show (b₁.pos + 1) % n = 0
    rw [h₁, hfront, Nat.mod_self]
  generalize guarded n stop b₁ c = b₂ at h₂ ⊢
  have h₃ : (guarded n stop b₂ d).pos = 1 := by
    show (b₂.pos + 1) % n = 1
    rw [h₂]
    exact Nat.mod_eq_of_lt (by omega)
  have h₄ : (guarded n stop b₂ d).mem 0 = d := by
    show (if b₂.pos < stop then Function.update b₂.mem b₂.pos d else b₂.mem) 0 = d
    rw [h₂, if_pos hstop, Function.update_self]
  generalize guarded n stop b₂ d = b₃ at h₃ h₄ ⊢
  obtain ⟨h₅, h₆⟩ := foldl_guarded (n := n) stop b₃ back (by omega)
  refine ⟨by rw [h₅, h₃], ?_⟩
  rw [h₆, if_neg (by omega), h₄]

end Sink
