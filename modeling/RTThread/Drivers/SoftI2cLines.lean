import RTThread.Lib.Decoder
import RTThread.Lib.ShiftRegister
import RTThread.Drivers.SoftI2c

set_option autoImplicit false

/-! # What the lines say

A decoder follows the two lines. A change of SDA while SCL is released is a condition: a start when it
falls, a stop when it rises. While SCL is released once without a condition, one bit passes: the level of
SDA that the master sets, and what it samples.

A transaction is made of items: bytes written and read with their acknowledge slots, repeated starts, and
a stop with a start where an address is sent again. Each item is a frame of the trace, and the decoder
reads its symbols from the frame.
-/

namespace RTThread.I2c

open Decoder ShiftRegister

inductive Symbol
  | start
  | stop
  /-- the level set, and the levels sampled -/
  | bit (sda : Bool) (samples : List Bool)
  deriving DecidableEq, Repr

/-- The lines as the master sets them. -/
structure Lines where
  sda : Bool
  scl : Bool
  /-- the samples since SCL was released, if there was no condition since -/
  pulse : Option (List Bool)
  deriving DecidableEq

namespace Lines

/-- One event, and the symbols that end with it. -/
def step (l : Lines) : LineEvent → Lines × List Symbol
  | .sda v =>
    if l.scl ∧ v ≠ l.sda then
      ({ l with sda := v, pulse := none }, [if v then .stop else .start])
    else ({ l with sda := v }, [])
  | .scl true => if l.scl then (l, []) else ({ l with scl := true, pulse := some [] }, [])
  | .scl false =>
    if l.scl then
      ({ l with scl := false, pulse := none }, (l.pulse.map fun x => Symbol.bit l.sda x).toList)
    else (l, [])
  | .sample x => ({ l with pulse := l.pulse.map (· ++ [x]) }, [])

/-- Both lines released. -/
def idle : Lines := ⟨true, true, none⟩

/-- SCL is held. -/
def Low (l : Lines) : Prop := l.scl = false

end Lines

/-! ## Items -/

inductive Item
  | write (data : Byte) (ack : Bool)
  /-- a byte read, acknowledged or not, or without an acknowledge slot -/
  | read (data : Byte) (ack : Option Bool)
  | restart
  /-- a stop, and a start -/
  | retry
  deriving DecidableEq, Repr

namespace Item

/-- The symbols of an item: the bits of a byte, the most significant one first. A byte is read with SDA
released. -/
def symbols : Item → List Symbol
  | write data ack => (bits data).map (fun v => .bit v []) ++ [.bit true [!ack]]
  | read data ack =>
      (bits data).map (fun v => .bit true [v]) ++ (ack.map fun a => Symbol.bit (!a) []).toList
  | restart => [.start]
  | retry => [.stop, .start]

/-- A bit that is set. -/
def bitFrame (v : Bool) : List LineEvent := [.scl false, .sda v, .scl true]

/-- A bit that is read. -/
def sampleFrame (v : Bool) : List LineEvent := [.scl true, .sample v, .scl false]

/-- The acknowledge slot after a byte that was read. -/
def ackFrame (a : Bool) : List LineEvent :=
  (if a then [.sda false] else []) ++ [.scl true, .scl false]

/-- What happens on the lines. -/
def frame : Item → List LineEvent
  | write data ack =>
      (bits data).flatMap bitFrame ++ [.scl false, .sda true, .scl true, .sample !ack, .scl false]
  | read data ack =>
      [.sda true] ++ (bits data).flatMap sampleFrame ++ (ack.map ackFrame).getD []
  | restart => [.sda true, .scl true, .sda false, .scl false]
  | retry => [.sda false, .scl true, .sda true, .sda false, .scl false]

/-- The start condition at the beginning of a transaction, and the stop condition at its end. -/
def startFrame : List LineEvent := [.sda false, .scl false]

def stopFrame : List LineEvent := [.sda false, .scl true, .sda true]

end Item

open Item

section Decode

/-- What a decoder makes of a short frame, from each of the two states with SCL held. -/
theorem emits_of_low {P : Lines → Prop} {t : List LineEvent} {out : List Symbol}
    (h : ∀ v p, P (run Lines.step ⟨v, false, p⟩ t).1 ∧ (run Lines.step ⟨v, false, p⟩ t).2 = out) :
    Emits Lines.step Lines.Low P t out := by
  rintro ⟨v, c, p⟩ hlow
  obtain rfl : c = false := hlow
  exact h v p

/-- SCL is released, and the bit `v` is on the line. -/
def Lines.Sends (v : Bool) (l : Lines) : Prop := l = ⟨v, true, some []⟩

theorem emits_first (v : Bool) : Emits Lines.step Lines.Low (Lines.Sends v) (bitFrame v) [] :=
  emits_of_low fun _ _ => ⟨rfl, rfl⟩

theorem emits_next (v w : Bool) :
    Emits Lines.step (Lines.Sends v) (Lines.Sends w) (bitFrame w) [.bit v []] := by
  rintro l rfl
  exact ⟨rfl, rfl⟩

theorem emits_ack (v ack : Bool) : Emits Lines.step (Lines.Sends v) Lines.Low
    [.scl false, .sda true, .scl true, .sample !ack, .scl false] [.bit v [], .bit true [!ack]] := by
  rintro l rfl
  exact ⟨rfl, rfl⟩

/-- Bits that are set one after another, and the acknowledge slot behind them. -/
theorem emits_bits (v : Bool) (l : List Bool) (ack : Bool) :
    Emits Lines.step (Lines.Sends v) Lines.Low
      (l.flatMap bitFrame ++ [.scl false, .sda true, .scl true, .sample !ack, .scl false])
      ((v :: l).map (fun v => .bit v []) ++ [.bit true [!ack]]) := by
  induction l generalizing v with
  | nil => exact emits_ack v ack
  | cons w l ih =>
      have h := (emits_next v w).append (ih w)
      rw [← List.append_assoc, ← List.flatMap_cons] at h
      exact h

theorem emits_sample (v : Bool) (w : Bool) : Emits Lines.step (fun l => l.scl = false ∧ l.sda = v)
    (fun l => l.scl = false ∧ l.sda = v) (sampleFrame w) [.bit v [w]] := by
  rintro ⟨u, c, p⟩ ⟨hc, hu⟩
  dsimp only at hc hu
  subst hc hu
  exact ⟨⟨rfl, rfl⟩, rfl⟩

/-- **What the decoder reads from a frame.** -/
theorem Item.emits (i : Item) : Emits Lines.step Lines.Low Lines.Low i.frame i.symbols := by
  cases i with
  | write data ack =>
      obtain ⟨v, l, hl⟩ : ∃ v l, bits data = v :: l := ⟨_, _, rfl⟩
      have h := (emits_first v).append (emits_bits v l ack)
      rw [List.nil_append, ← List.append_assoc, ← List.flatMap_cons, ← hl] at h
      exact h
  | read data ack =>
      have hrelease : Emits Lines.step Lines.Low (fun l => l.scl = false ∧ l.sda = true)
          [.sda true] [] := emits_of_low fun _ _ => ⟨⟨rfl, rfl⟩, rfl⟩
      have hbits := Emits.flatMap (emits_sample true) (bits data)
      have hack : Emits Lines.step (fun l => l.scl = false ∧ l.sda = true) Lines.Low
          ((ack.map ackFrame).getD []) (ack.map fun a => Symbol.bit (!a) []).toList := by
        rintro ⟨u, c, p⟩ ⟨hc, hu⟩
        dsimp only at hc hu
        subst hc hu
        rcases ack with _ | _ | _
        · exact ⟨rfl, rfl⟩
        · exact ⟨rfl, rfl⟩
        · exact ⟨rfl, rfl⟩
      have h := (hrelease.append hbits).append hack
      rw [List.nil_append, ← List.map_eq_flatMap] at h
      exact h
  | restart =>
      refine emits_of_low fun v p => ?_
      cases v
      · exact ⟨rfl, rfl⟩
      · exact ⟨rfl, rfl⟩
  | retry =>
      refine emits_of_low fun v p => ?_
      cases v
      · exact ⟨rfl, rfl⟩
      · exact ⟨rfl, rfl⟩

/-- **A transaction**: from released lines to released lines, with a start first and a stop last. -/
theorem run_transaction (items : List Item) :
    (run Lines.step Lines.idle (startFrame ++ items.flatMap frame ++ stopFrame)).2 =
      [.start] ++ items.flatMap symbols ++ [.stop] ∧
    (run Lines.step Lines.idle (startFrame ++ items.flatMap frame ++ stopFrame)).1.sda = true ∧
    (run Lines.step Lines.idle (startFrame ++ items.flatMap frame ++ stopFrame)).1.scl = true := by
  have hstart : Emits Lines.step (· = Lines.idle) Lines.Low startFrame [.start] := by
    rintro l rfl
    exact ⟨rfl, rfl⟩
  have hstop : Emits Lines.step Lines.Low (fun l => l.sda = true ∧ l.scl = true) stopFrame
      [.stop] := by
    refine emits_of_low fun v p => ?_
    cases v
    · exact ⟨⟨rfl, rfl⟩, rfl⟩
    · exact ⟨⟨rfl, rfl⟩, rfl⟩
  obtain ⟨h₁, h₂⟩ := ((hstart.append (Emits.flatMap Item.emits items)).append hstop) _ rfl
  exact ⟨h₂, h₁⟩

end Decode

end RTThread.I2c
