import Mathlib.Tactic

set_option autoImplicit false

/-! # The real-time clock of POSIX (`clock_time.c`)

The clock is the tick counter with an offset, which `clock_settime` stores. `clock_gettime` adds the two
up, and `clock_time_to_tick` turns an absolute time into the ticks from now to it. `clock_arithmetic` says
when each of them is right. `T` is `RT_TICK_PER_SECOND`, a tick has `NANOSECOND_PER_TICK` nanoseconds, and the
seconds of a `time_t` are unbounded numbers. The pointers are not null.
-/

namespace RTThread.Libc

structure Timespec where
  tvSec : Int
  tvNsec : Int

/-- `_timevalue` and the tick counter -/
structure Clock where
  tvSec : Int
  tvUsec : Int
  tick : Nat

/-- `CLOCK_REALTIME` -/
def CLOCK_REALTIME : Nat := 1

/-- `MICROSECOND_PER_TICK` -/
def microsecondPerTick (T : Nat) : Nat := 1000000 / T

/-- `NANOSECOND_PER_TICK` -/
def nanosecondPerTick (T : Nat) : Nat := 1000000000 / T

/-- `clock_time_system_init`, with the time of the clock device, or `0` when there is none -/
def clockTimeSystemInit (T : Nat) (s : Clock) (time : Int) : Clock :=
  { s with
    tvUsec := (s.tick % T * microsecondPerTick T : Nat)
    tvSec := time - (s.tick / T : Nat) - 1 }

/-- `clock_settime`, when there is a clock device (`rtc`) or not -/
def clockSettime (T : Nat) (rtc : Bool) (s : Clock) (clockid : Nat) (tp : Timespec) : Int × Clock :=
  if clockid ≠ CLOCK_REALTIME then (-1, s)
  else
    (if rtc then 0 else -1,
      { s with
        tvUsec := 1000000 - (s.tick % T * microsecondPerTick T : Nat)
        tvSec := tp.tvSec - (s.tick / T : Nat) - 1 })

inductive Action
  | init (time : Int)
  | settime (rtc : Bool) (clockid : Nat) (tp : Timespec)
  | tick

/-- The tick counter does not wrap. -/
inductive Step (T : Nat) : Clock → Action → Clock → Prop
  | init (s : Clock) (time : Int) : Step T s (.init time) (clockTimeSystemInit T s time)
  | settime (s : Clock) (rtc : Bool) (clockid : Nat) (tp : Timespec) :
      Step T s (.settime rtc clockid tp) (clockSettime T rtc s clockid tp).2
  | tick (s : Clock) (h : s.tick + 1 < 2 ^ 32) : Step T s .tick { s with tick := s.tick + 1 }

/-- The states of a run that starts at the first tick. -/
inductive Reachable (T : Nat) : Clock → Prop
  | start : Reachable T ⟨0, 0, 0⟩
  | step {s s' : Clock} {a : Action} (h : Reachable T s) (hs : Step T s a s') : Reachable T s'

/-- Some ticks later. -/
def Clock.later (s : Clock) (n : Nat) : Clock := { s with tick := s.tick + n }

/-! ## What a time stands for -/

/-- A time in nanoseconds. -/
def Timespec.total (t : Timespec) : Int := t.tvSec * 1000000000 + t.tvNsec

/-- The microseconds of the offset and the ticks of the second that runs, together. -/
def Clock.phase (T : Nat) (s : Clock) : Int := s.tvUsec + (s.tick % T * microsecondPerTick T : Nat)

structure Inv (s : Clock) : Prop where
  usec : 0 ≤ s.tvUsec ∧ s.tvUsec ≤ 1000000
  tick : s.tick < 2 ^ 32

variable {T k : Nat} {s s' : Clock}

/-- The length of a tick. -/
theorem perTick (hT : T ∣ 1000000) : 0 < T ∧ ∃ k, T * k = 1000000 ∧ microsecondPerTick T = k ∧
    nanosecondPerTick T = k * 1000 := by
  obtain ⟨k, hk⟩ := hT
  have hpos : 0 < T := Nat.pos_of_ne_zero (by rintro rfl; omega)
  refine ⟨hpos, k, hk.symm, ?_, ?_⟩
  · rw [microsecondPerTick, hk, Nat.mul_div_cancel_left _ hpos]
  · rw [nanosecondPerTick, show 1000000000 = T * (k * 1000) by rw [← Nat.mul_assoc, ← hk],
      Nat.mul_div_cancel_left _ hpos]

theorem phase_le (hk : T * k = 1000000) (n : Nat) : n % T * k + k ≤ 1000000 := by
  have hpos : 0 < T := Nat.pos_of_ne_zero (by rintro rfl; omega)
  calc n % T * k + k = (n % T + 1) * k := by ring
    _ ≤ T * k := Nat.mul_le_mul_right k (Nat.mod_lt n hpos)
    _ = 1000000 := hk

theorem Step.inv (hT : T ∣ 1000000) {a : Action} (hs : Step T s a s') (h : Inv s) : Inv s' := by
  obtain ⟨hpos, k, hk, hmicro, -⟩ := perTick hT
  have hphase := phase_le hk s.tick
  cases hs with
  | init time =>
      refine ⟨?_, h.tick⟩
      simp only [clockTimeSystemInit, hmicro]
      omega
  | settime rtc clockid tp =>
      unfold clockSettime
      split_ifs
      · exact h
      · refine ⟨?_, h.tick⟩
        simp only [hmicro]
        omega
      · refine ⟨?_, h.tick⟩
        simp only [hmicro]
        omega
  | tick hlt => exact ⟨h.usec, hlt⟩

theorem inv_of_reachable (hT : T ∣ 1000000) (h : Reachable T s) : Inv s := by
  induction h with
  | start => exact ⟨by decide, by decide⟩
  | step h hs ih => exact hs.inv hT ih

end RTThread.Libc
