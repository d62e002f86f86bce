import Mathlib.Tactic

set_option autoImplicit false

/-! # A consumer that sleeps on a counted notice

Producers leave items and give one notice for each. The consumer takes items until it finds none, clears the
count of the notices, and sleeps unless a notice has come since. The three steps are separate: a notice that
comes after the consumer has looked and before it clears the count is lost. `Awake` is what holds of a consumer
that loses none, with `pending` for "there is an item whose notice was given". The count is kept modulo `m`.
-/

namespace Notice

inductive Pc
  /-- takes items, or does something else -/
  | busy
  /-- has found no item -/
  | looked
  /-- has cleared the count -/
  | cleared
  /-- waits for a notice -/
  | asleep
  deriving DecidableEq

structure Consumer where
  count : Nat
  pc : Pc
  deriving DecidableEq

namespace Consumer

variable {m : Nat} {c : Consumer} {pending pending' : Prop}

/-- A notice wakes a sleeping consumer, and is counted otherwise. -/
def give (m : Nat) (c : Consumer) : Consumer :=
  if c.pc = .asleep then { c with pc := .busy } else { c with count := (c.count + 1) % m }

def clear (_ : Consumer) : Consumer := ⟨0, .cleared⟩

/-- A notice that was counted is used up; without one the consumer goes to sleep. -/
def wait (c : Consumer) : Consumer :=
  if 0 < c.count then ⟨c.count - 1, .busy⟩ else { c with pc := .asleep }

/-- The consumer cannot sleep on an item whose notice was given. -/
structure Awake (c : Consumer) (pending : Prop) : Prop where
  looked : c.pc = .looked → ¬ pending
  cleared : c.pc = .cleared → pending → 0 < c.count
  asleep : c.pc = .asleep → ¬ pending

namespace Awake

theorem of_busy (h : c.pc = .busy) : Awake c pending where
  looked hl := by cases h.symm.trans hl
  cleared hl := by cases h.symm.trans hl
  asleep hl := by cases h.symm.trans hl

/-- Items may be taken away, and new ones left without a notice. -/
theorem mono (h : Awake c pending) (hp : pending' → pending) : Awake c pending' where
  looked hc hp' := h.looked hc (hp hp')
  cleared hc hp' := h.cleared hc (hp hp')
  asleep hc hp' := h.asleep hc (hp hp')

theorem of_looked (h : c.pc = .looked) (hp : ¬ pending) : Awake c pending where
  looked _ := hp
  cleared hc := by cases h.symm.trans hc
  asleep _ := hp

/-- **A notice** may make anything pending, but it must not come between the look and the clearing, and
must not turn the count to zero after the clearing. -/
theorem give (hl : c.pc = .looked → ¬ pending)
    (hc : c.pc = .cleared → pending → (c.count + 1) % m ≠ 0) : Awake (c.give m) pending := by
  unfold Consumer.give
  split_ifs with ha
  · exact of_busy rfl
  · constructor
    case looked => exact hl
    case cleared =>
      intro h hp
      exact Nat.pos_of_ne_zero (hc h hp)
    case asleep =>
      intro h
      exact absurd h ha

/-- The count may be cleared as long as nothing is pending. -/
theorem clear (h : Awake c pending) (hc : c.pc = .looked) : Awake c.clear pending where
  looked hl := by cases hl
  cleared _ hp := absurd hp (h.looked hc)
  asleep hl := by cases hl

theorem wait (h : Awake c pending) (hc : c.pc = .cleared) : Awake c.wait pending := by
  unfold Consumer.wait
  split_ifs with hpos
  · exact of_busy rfl
  · constructor
    case looked =>
      intro hl
      cases hl
    case cleared =>
      intro hl
      cases hl
    case asleep =>
      intro _ hp
      exact hpos (h.cleared hc hp)

end Awake

end Consumer

end Notice
