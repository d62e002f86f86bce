import Mathlib.Data.List.Basic
import Mathlib.Tactic.Common

set_option autoImplicit false

/-! # Decoders

An automaton reads a trace of events and puts out symbols. What it makes of a trace that consists of
parts is what it makes of the parts, when each part leaves it in a state in which the next one can
start.
-/

namespace RTThread.Decoder

variable {σ α β ι : Type*}

/-- The state after a trace, and what was put out. -/
def run (step : σ → α → σ × List β) (s : σ) : List α → σ × List β
  | [] => (s, [])
  | a :: t => ((run step (step s a).1 t).1, (step s a).2 ++ (run step (step s a).1 t).2)

/-- From every state of `P`, the trace leads to a state of `P'`, and `out` is put out. -/
def Emits (step : σ → α → σ × List β) (P P' : σ → Prop) (t : List α) (out : List β) : Prop :=
  ∀ s, P s → P' (run step s t).1 ∧ (run step s t).2 = out

variable {step : σ → α → σ × List β} {P P' P'' : σ → Prop} {t u : List α} {out out' : List β}

theorem run_append (s : σ) : run step s (t ++ u) =
    ((run step (run step s t).1 u).1, (run step s t).2 ++ (run step (run step s t).1 u).2) := by
  induction t generalizing s with
  | nil => rfl
  | cons a t ih => rw [List.cons_append, run, ih, run, List.append_assoc]

theorem Emits.nil : Emits step P P [] [] := fun _ hs => ⟨hs, rfl⟩

theorem Emits.append (h : Emits step P P' t out) (h' : Emits step P' P'' u out') :
    Emits step P P'' (t ++ u) (out ++ out') := by
  intro s hs
  obtain ⟨h₁, h₂⟩ := h s hs
  obtain ⟨h₃, h₄⟩ := h' _ h₁
  rw [run_append]
  exact ⟨h₃, by rw [h₂, h₄]⟩

/-- A trace made of frames. -/
theorem Emits.flatMap {frame : ι → List α} {symbols : ι → List β}
    (h : ∀ i, Emits step P P (frame i) (symbols i)) (l : List ι) :
    Emits step P P (l.flatMap frame) (l.flatMap symbols) := by
  induction l with
  | nil => exact .nil
  | cons i l ih =>
      rw [List.flatMap_cons, List.flatMap_cons]
      exact (h i).append ih

end RTThread.Decoder
