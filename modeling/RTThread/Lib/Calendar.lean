import Mathlib.Tactic

set_option autoImplicit false

/-! # The Gregorian calendar

The dates of the Gregorian calendar from the first day of 1970 on, numbered day by day (`Date.number`). The
numbers are in the order of the dates, year before month before day (`lt_of_number_lt`).
-/

namespace Calendar

/-- Every fourth year, of the full centuries every fourth one. -/
def leap (y : Nat) : Bool := y % 4 = 0 ∧ (y % 100 ≠ 0 ∨ y % 400 = 0)

def yearDays (y : Nat) : Nat := if leap y then 366 else 365

/-- The days of the month, where January is `0`. -/
def monthDays (l : Bool) : Nat → Nat
  | 1 => if l then 29 else 28
  | 3 | 5 | 8 | 10 => 30
  | _ => 31

/-- The days from 1970 to the year. -/
def toYear (y : Nat) : Nat := ∑ i ∈ Finset.Ico 1970 y, yearDays i

/-- The days of the year in front of the month. -/
def toMonth (l : Bool) (m : Nat) : Nat := ∑ i ∈ Finset.range m, monthDays l i

structure Date where
  year : Nat
  month : Nat
  day : Nat

structure Date.Valid (d : Date) : Prop where
  year : 1970 ≤ d.year
  month : d.month < 12
  pos : 1 ≤ d.day
  day : d.day ≤ monthDays (leap d.year) d.month

/-- The day of the year, the first one being `0`. -/
def Date.dayOfYear (d : Date) : Nat := toMonth (leap d.year) d.month + (d.day - 1)

/-- The days since the first one of 1970. -/
def Date.number (d : Date) : Nat := toYear d.year + d.dayOfYear

variable {y y' m m' : Nat} {l : Bool} {d d' : Date}

theorem toYear_succ (h : 1970 ≤ y) : toYear (y + 1) = toYear y + yearDays y :=
  Finset.sum_Ico_succ_top h _

/-- A year ends before a later one begins. -/
theorem toYear_le (h : 1970 ≤ y) (hlt : y < y') : toYear y + yearDays y ≤ toYear y' := by
  rw [← toYear_succ h]
  exact Finset.sum_le_sum_of_subset (Finset.Ico_subset_Ico_right hlt)

/-- A month ends before a later one begins. -/
theorem toMonth_le (hlt : m < m') : toMonth l m + monthDays l m ≤ toMonth l m' := by
  have h : toMonth l m + monthDays l m = toMonth l (m + 1) := (Finset.sum_range_succ _ m).symm
  rw [h]
  exact Finset.sum_le_sum_of_subset (Finset.range_subset_range.mpr hlt)

theorem toMonth_twelve : toMonth (leap y) 12 = yearDays y := by
  unfold yearDays
  cases leap y
  · rfl
  · rfl

/-- A day lies in its year. -/
theorem Date.Valid.dayOfYear_lt (h : d.Valid) : d.dayOfYear < yearDays d.year := by
  have hm := toMonth_le (l := leap d.year) h.month
  have hpos := h.pos
  have hday := h.day
  rw [toMonth_twelve] at hm
  unfold Date.dayOfYear
  omega

/-- **The numbers are in the order of the dates.** -/
theorem lt_of_number_lt (h : d.Valid) (h' : d'.Valid) (hlt : d.number < d'.number) :
    d.year < d'.year ∨ d.year = d'.year ∧ (d.month < d'.month ∨ d.month = d'.month ∧ d.day < d'.day) := by
  unfold Date.number at hlt
  have hin := h.dayOfYear_lt
  rcases Nat.lt_trichotomy d.year d'.year with hy | hy | hy
  · exact .inl hy
  · refine .inr ⟨hy, ?_⟩
    have hpos := h'.pos
    have hday := h'.day
    unfold Date.dayOfYear at hlt
    rw [← hy] at hlt hday
    rcases Nat.lt_trichotomy d.month d'.month with hm | hm | hm
    · exact .inl hm
    · rw [hm] at hlt
      exact .inr ⟨hm, by omega⟩
    · have hle := toMonth_le (l := leap d.year) hm
      omega
  · have hle := toYear_le h'.year hy
    have hin' := h'.dayOfYear_lt
    omega

end Calendar
