import RTThread.Lib.Calendar

set_option autoImplicit false

/-! # Calendar time (`compilers/common/time.c`)

`gmtime_r` takes a time in seconds since 1970 apart into the fields of a date, and `mktime` puts them
together again. The values of `time_t` are unbounded numbers. `calendar_round_trip` says that the two
agree on every time and with the Gregorian calendar (`Lib.Calendar`).
-/

namespace RTThread.Libc

/-- `struct tm` -/
structure Tm where
  tmSec : Int
  tmMin : Int
  tmHour : Int
  tmMday : Int
  tmMon : Int
  tmYear : Int
  tmWday : Int
  tmYday : Int
  deriving DecidableEq

/-- `__spm`, the days before a month -/
def spm : List Nat := [0, 31, 59, 90, 120, 151, 181, 212, 243, 273, 304, 334, 365]

/-- `__isleap` -/
def isleap (year : Int) : Bool := year % 4 = 0 ∧ (year % 100 ≠ 0 ∨ year % 400 = 0)

/-- The loop over the years, with the days that are left. -/
def yearLoop : Nat → Nat → Nat → Nat × Nat
  | 0, i, work => (i, work)
  | n + 1, i, work =>
      let k := if isleap i then 366 else 365
      if k ≤ work then yearLoop n (i + 1) (work - k) else (i, work)

/-- The loop over the months, from the last one down. -/
def monthLoop : Nat → Nat → Nat
  | 0, _ => 0
  | i + 1, work => if work < spm.getD (i + 1) 0 then monthLoop i work else i + 1

/-- The month and its day, for a day of the year. -/
def monthDay (l : Bool) (work : Nat) : Nat × Nat :=
  -- after 28 February of a leap year the days are those of a year without the 29th
  let late := l ∧ 58 < work
  let first := if late ∧ work = 59 then 2 else 1
  let work' := if late then work - 1 else work
  let mon := monthLoop 11 work'
  (mon, first + (work' - spm.getD mon 0))

/-- `gmtime_r`, which `localtime_r` calls. A year takes at least a day, so that the loop over the years
ends within `days` rounds. -/
def gmtimeR (time : Nat) : Tm :=
  let work := time % (24 * 60 * 60)
  let days := time / (24 * 60 * 60)
  let y := yearLoop days 1970 days
  let m := monthDay (isleap y.1) y.2
  { tmSec := (work % 60 : Nat)
    tmMin := (work / 60 % 60 : Nat)
    tmHour := (work / 60 / 60 : Nat)
    tmMday := m.2
    tmMon := m.1
    tmYear := (y.1 : Int) - 1900
    tmWday := ((4 + days) % 7 : Nat)
    tmYday := y.2 }

/-- A field over its limit goes over into the next one. -/
def carry (unit v next : Int) : Int × Int := if unit < v then (v.tmod unit, next + v.tdiv unit) else (v, next)

/-- The loop over the months of `mktime`. -/
def mdayLoop : Nat → Tm → Tm
  | 0, t => t
  | n + 1, t =>
      if (spm.getD (1 + t.tmMon).toNat 0 : Int) < t.tmMday then
        let mday := if t.tmMon = 1 ∧ isleap (t.tmYear + 1900) then t.tmMday - 1 else t.tmMday
        let t := { t with tmMday := mday - spm.getD t.tmMon.toNat 0, tmMon := t.tmMon + 1 }
        mdayLoop n (if 11 < t.tmMon then { t with tmMon := 0, tmYear := t.tmYear + 1 } else t)
      else t

/-- The days from 1970 to a year, which is given by its distance. -/
def daysOfYears (years : Int) : Int :=
  let day := years * 365 + (years + 1).tdiv 4
  if 131 ≤ years then
    let c := (years - 131) / 100
    let r := c % 4
    day - (c / 4 * 3 + 1) - (if r = 3 then 2 else r)
  else day

/-- `mktime`, with the fields as it leaves them. Of two rounds of the loop over the months one takes away
at least 31 days. -/
def mktime (t : Tm) : Int × Tm :=
  let years := t.tmYear - 70
  let sec := carry 60 t.tmSec t.tmMin
  let min := carry 60 sec.2 t.tmHour
  let hour := carry 24 min.2 t.tmMday
  let mon := carry 12 t.tmMon t.tmYear
  let t := mdayLoop (hour.2.toNat + 2)
    { t with tmSec := sec.1, tmMin := min.1, tmHour := hour.1, tmMday := hour.2, tmMon := mon.1, tmYear := mon.2 }
  if t.tmYear < 70 then (-1, t)
  else
    let yday := (spm.getD t.tmMon.toNat 0 : Int) + t.tmMday - 1 +
      (if isleap (t.tmYear + 1900) ∧ 1 < t.tmMon then 1 else 0)
    let day := daysOfYears years + yday
    (((day * 24 + t.tmHour) * 60 + t.tmMin) * 60 + t.tmSec, { t with tmYday := yday, tmWday := (day + 4).tmod 7 })

open Calendar

/-! ## The loops -/

theorem isleap_eq (y : Nat) : isleap y = leap y := by
  unfold isleap leap
  congr 1
  apply propext
  omega

theorem yearLen_eq (y : Nat) : (if isleap y then 366 else 365) = yearDays y := by
  rw [isleap_eq, yearDays]

/-- The loop over the years goes to the year that the day lies in. -/
theorem yearLoop_spec {n i : Nat} (work : Nat) (hi : 1970 ≤ i) (hn : work ≤ n) :
    i ≤ (yearLoop n i work).1 ∧ (yearLoop n i work).2 < yearDays (yearLoop n i work).1 ∧
      toYear (yearLoop n i work).1 + (yearLoop n i work).2 = toYear i + work := by
  have hlen : ∀ y, 365 ≤ yearDays y := by
    intro y
    unfold yearDays
    split_ifs <;> omega
  fun_induction yearLoop n i work with
  | case1 i work =>
      have := hlen i
      exact ⟨le_rfl, by simp only; omega, rfl⟩
  | case2 n i work k hk ih =>
      have hk' : k = yearDays i := yearLen_eq i
      have h := hlen i
      obtain ⟨hle, hlt, hsum⟩ := ih (by omega) (by omega)
      rw [toYear_succ hi] at hsum
      exact ⟨by omega, hlt, by omega⟩
  | case3 n i work k hk =>
      have hk' : k = yearDays i := yearLen_eq i
      exact ⟨le_rfl, by simp only; omega, rfl⟩

/-- The loop over the months goes to the month that the day lies in. -/
theorem monthLoop_spec {n work : Nat} (hn : work < spm.getD (n + 1) 0) :
    monthLoop n work ≤ n ∧ spm.getD (monthLoop n work) 0 ≤ work ∧
      work < spm.getD (monthLoop n work + 1) 0 := by
  induction n with
  | zero => exact ⟨le_rfl, Nat.zero_le work, hn⟩
  | succ n ih =>
      unfold monthLoop
      split_ifs with h
      · obtain ⟨hle, hm⟩ := ih h
        exact ⟨by omega, hm⟩
      · exact ⟨le_rfl, by omega, hn⟩

/-- The table and the months of the calendar. -/
theorem toMonth_eq : ∀ l : Bool, ∀ m < 12,
    toMonth l m = spm.getD m 0 + (if l ∧ 1 < m then 1 else 0) ∧
      spm.getD m 0 + monthDays l m = spm.getD (m + 1) 0 + (if l ∧ m = 1 then 1 else 0) := by
  decide

/-- **The days of the years** from 1970 on. -/
theorem daysOfYears_eq (n : Nat) : daysOfYears n = toYear (1970 + n) := by
  induction n with
  | zero => rfl
  | succ n ih =>
      have hn : ∀ k : Nat, ((k : Int) + 1).tdiv 4 = (k + 1) / 4 := by
        intro k
        exact Int.tdiv_eq_ediv_of_nonneg (by omega)
      rw [← Nat.add_assoc, toYear_succ (by omega), Nat.cast_add (toYear _), ← ih]
      unfold daysOfYears yearDays leap
      rw [hn, hn]
      simp only [Bool.decide_and, Bool.decide_or, Bool.and_eq_true, Bool.or_eq_true, decide_eq_true_eq]
      split_ifs <;> omega

/-- **The day of the year** is taken apart into a month and its day. -/
theorem monthDay_spec {l : Bool} {work : Nat} (h : work < if l then 366 else 365) :
    (monthDay l work).1 < 12 ∧ 1 ≤ (monthDay l work).2 ∧
      (monthDay l work).2 ≤ monthDays l (monthDay l work).1 ∧
      toMonth l (monthDay l work).1 + ((monthDay l work).2 - 1) = work := by
  have hlate : ∀ m < 12, 59 < spm.getD (m + 1) 0 → 1 < m := by decide
  have hearly : ∀ m < 12, spm.getD m 0 ≤ 58 → m ≤ 1 := by decide
  have hfeb : ∀ m < 12, 58 < spm.getD (m + 1) 0 → 1 ≤ m := by decide
  have hloop : ∀ work' < 365, ∃ mon, monthLoop 11 work' = mon ∧ mon < 12 ∧ spm.getD mon 0 ≤ work' ∧
      work' < spm.getD (mon + 1) 0 := by
    intro work' hw
    obtain ⟨hle, hlow, hhigh⟩ := monthLoop_spec (n := 11) hw
    exact ⟨_, rfl, by omega, hlow, hhigh⟩
  cases l with
  | false =>
      obtain ⟨mon, heq, hm, hlow, hhigh⟩ := hloop work (by simpa using h)
      obtain ⟨hto, hdays⟩ := toMonth_eq false mon hm
      simp only [Bool.false_eq_true, false_and, if_false] at hto hdays
      simp only [monthDay, Bool.false_eq_true, false_and, if_false, heq]
      omega
  | true =>
      simp only [if_true] at h
      by_cases h₁ : 58 < work
      · obtain ⟨mon, heq, hm, hlow, hhigh⟩ := hloop (work - 1) (by omega)
        obtain ⟨hto, hdays⟩ := toMonth_eq true mon hm
        have hf := hfeb mon hm
        have hl := hlate mon hm
        have he := hearly mon hm
        simp only [true_and] at hto hdays
        simp only [monthDay, h₁, true_and, if_true, heq]
        split_ifs at * <;> omega
      · obtain ⟨mon, heq, hm, hlow, hhigh⟩ := hloop work (by omega)
        obtain ⟨hto, hdays⟩ := toMonth_eq true mon hm
        have he := hearly mon hm
        simp only [true_and] at hto hdays
        simp only [monthDay, h₁, and_false, false_and, if_false, heq]
        split_ifs at * <;> omega

/-! ## There and back -/

/-- The fields of a time of day on a date. The first day of 1970 was a Thursday. -/
def Tm.of (d : Date) (h mi s : Nat) : Tm :=
  { tmSec := s
    tmMin := mi
    tmHour := h
    tmMday := d.day
    tmMon := d.month
    tmYear := (d.year : Int) - 1900
    tmWday := ((4 + d.number) % 7 : Nat)
    tmYday := d.dayOfYear }

/-- The fields in the order of their weight. -/
def Tm.key (t : Tm) : List Int := [t.tmYear, t.tmMon, t.tmMday, t.tmHour, t.tmMin, t.tmSec]

/-- The date of a day. -/
def dateOf (days : Nat) : Date :=
  let y := yearLoop days 1970 days
  let m := monthDay (isleap y.1) y.2
  ⟨y.1, m.1, m.2⟩

/-- The loops find the date of the day. -/
theorem dateOf_spec (days : Nat) : (dateOf days).Valid ∧ (dateOf days).number = days ∧
    (dateOf days).dayOfYear = (yearLoop days 1970 days).2 := by
  obtain ⟨hy, hlt, hsum⟩ := yearLoop_spec days le_rfl (le_refl days)
  rw [show toYear 1970 = 0 from rfl, Nat.zero_add] at hsum
  rw [← yearLen_eq] at hlt
  have hmonth := monthDay_spec hlt
  rw [isleap_eq] at hmonth
  obtain ⟨hm, hpos, hday, hyday⟩ := hmonth
  have hdoy : (dateOf days).dayOfYear = (yearLoop days 1970 days).2 := by
    simp only [dateOf, Date.dayOfYear, isleap_eq]
    exact hyday
  refine ⟨⟨hy, ?_, ?_, ?_⟩, ?_, hdoy⟩
  · simp only [dateOf, isleap_eq]
    exact hm
  · simp only [dateOf, isleap_eq]
    exact hpos
  · simp only [dateOf, isleap_eq]
    exact hday
  · rw [Date.number, hdoy]
    exact hsum

/-- **`gmtime_r` gives the date** of the day and the time of day. -/
theorem gmtimeR_eq (time : Nat) : gmtimeR time = Tm.of (dateOf (time / 86400))
    (time % 86400 / 60 / 60) (time % 86400 / 60 % 60) (time % 86400 % 60) := by
  obtain ⟨-, hnum, hdoy⟩ := dateOf_spec (time / 86400)
  simp only [gmtimeR, Nat.reduceMul, Tm.of, hdoy, hnum]
  rfl

theorem mdayLoop_eq {t : Tm} (h : t.tmMday ≤ (spm.getD (1 + t.tmMon).toNat 0 : Nat)) (n : Nat) :
    mdayLoop n t = t := by
  cases n with
  | zero => rfl
  | succ n => rw [mdayLoop, if_neg (not_lt.mpr h)]

theorem carry_eq {unit v next : Int} (h : v ≤ unit) : carry unit v next = (v, next) :=
  if_neg (not_lt.mpr h)

/-- **`mktime` of a date** is its time and leaves the fields alone. -/
theorem mktime_of {d : Date} (hd : d.Valid) {h mi s : Nat} (hh : h < 24) (hmi : mi < 60) (hs : s < 60) :
    mktime (Tm.of d h mi s) =
      (((((d.number * 24 + h) * 60 + mi) * 60 + s : Nat) : Int), Tm.of d h mi s) := by
  have hfits : ∀ l : Bool, ∀ m < 12, monthDays l m ≤ spm.getD (1 + m) 0 := by decide
  have hyear := hd.year
  have hmon := hd.month
  have hpos := hd.pos
  have hmday : d.day ≤ spm.getD (1 + (d.month : Int)).toNat 0 := by
    rw [show (1 + (d.month : Int)).toNat = 1 + d.month by omega]
    exact hd.day.trans (hfits (leap d.year) d.month hmon)
  have hdays : daysOfYears ((d.year : Int) - 1900 - 70) = toYear d.year := by
    rw [show (d.year : Int) - 1900 - 70 = (d.year - 1970 : Nat) by omega, daysOfYears_eq,
      Nat.add_sub_cancel' hyear]
  have hleap : isleap ((d.year : Int) - 1900 + 1900) = leap d.year := by
    rw [sub_add_cancel, isleap_eq]
  have hyday : (spm.getD d.month 0 : Int) + d.day - 1 + (if leap d.year ∧ 1 < (d.month : Int) then 1 else 0) =
      d.dayOfYear := by
    rw [Date.dayOfYear, (toMonth_eq (leap d.year) d.month hmon).1]
    simp only [Nat.one_lt_cast]
    split_ifs <;> omega
  have hwday : ((toYear d.year : Int) + d.dayOfYear + 4).tmod 7 = ((4 + d.number) % 7 : Nat) := by
    rw [Int.tmod_eq_emod_of_nonneg (by omega), Date.number]
    omega
  have hsec : carry 60 (s : Int) mi = (↑s, ↑mi) := carry_eq (by omega)
  have hmin : carry 60 (mi : Int) h = (↑mi, ↑h) := carry_eq (by omega)
  have hhour : carry 24 (h : Int) d.day = (↑h, ↑d.day) := carry_eq (by omega)
  have hmonth : carry 12 (d.month : Int) ((d.year : Int) - 1900) = (↑d.month, (d.year : Int) - 1900) :=
    carry_eq (by omega)
  simp only [mktime, Tm.of, hsec, hmin, hhour, hmonth]
  rw [mdayLoop_eq (Int.ofNat_le.mpr hmday), if_neg (by simp only; omega)]
  simp only [hleap, hdays, Int.toNat_natCast, hyday, hwday, Prod.mk.injEq]
  refine ⟨?_, trivial⟩
  unfold Date.number
  push_cast
  ring

/-- **Calendar round trip**: `gmtime_r` gives a date and a time of day, `mktime` of them is the time again
and changes no field, and a later time gives later fields. -/
theorem calendar_round_trip :
    (∀ t : Nat, (∃ d : Date, d.Valid ∧ d.number = t / 86400 ∧ ∃ h < 24, ∃ mi < 60, ∃ s < 60,
      gmtimeR t = Tm.of d h mi s) ∧ mktime (gmtimeR t) = ((t : Int), gmtimeR t)) ∧
    ∀ t t' : Nat, t < t' → (gmtimeR t).key < (gmtimeR t').key := by
  constructor
  · intro t
    obtain ⟨hd, hnum, -⟩ := dateOf_spec (t / 86400)
    refine ⟨⟨_, hd, hnum, _, by omega, _, by omega, _, by omega, gmtimeR_eq t⟩, ?_⟩
    rw [gmtimeR_eq, mktime_of hd (by omega) (by omega) (by omega), hnum, Prod.mk.injEq]
    exact ⟨by omega, rfl⟩
  · intro t t' hlt
    obtain ⟨hd, hnum, -⟩ := dateOf_spec (t / 86400)
    obtain ⟨hd', hnum', -⟩ := dateOf_spec (t' / 86400)
    rw [gmtimeR_eq, gmtimeR_eq]
    simp only [Tm.key, Tm.of, List.cons_lt_cons_iff]
    rcases Nat.lt_or_ge (t / 86400) (t' / 86400) with hday | hday
    · rw [← hnum, ← hnum'] at hday
      have h := lt_of_number_lt hd hd' hday
      omega
    · rw [show t / 86400 = t' / 86400 by omega]
      omega

end RTThread.Libc
