import Mathlib.Tactic.Linarith

/-! # Time values of ECMAScript

A time value is a number of milliseconds since the epoch, in a calendar without leap seconds. Days, years
and months are those of the proleptic Gregorian calendar; `makeDay` is the way back from a date to its
day, and `dateUTC` is `Date.UTC`, which reads a year from 0 to 99 as one of the twentieth century. -/

namespace InterviewScheduler.Ecma

abbrev TimeValue := ℤ

def msPerDay : ℤ := 86400000

/-- The day of `t`, counted from the epoch. -/
def day (t : TimeValue) : ℤ := t / msPerDay

def timeWithinDay (t : TimeValue) : ℤ := t % msPerDay

/-! ### Years -/

/-- The first day of year `y`. -/
def dayFromYear (y : ℤ) : ℤ :=
  365 * (y - 1970) + (y - 1969) / 4 - (y - 1901) / 100 + (y - 1601) / 400

/-- The year of day `d`: the mean length of a year gives it up to one. -/
def yearFromDay (d : ℤ) : ℤ :=
  let y := 1970 + 400 * d / 146097
  if dayFromYear (y + 1) ≤ d then y + 1 else if dayFromYear y ≤ d then y else y - 1

def yearFromTime (t : TimeValue) : ℤ := yearFromDay (day t)

/-- One in a leap year and zero in any other. -/
def inLeapYear (y : ℤ) : ℤ := dayFromYear (y + 1) - dayFromYear y - 365

/-! ### Months -/

/-- The first day of a month of the year, which has `leap` leap days. Months are counted from zero. -/
def monthStart (leap : ℤ) : ℕ → ℤ
  | 0 => 0
  | 1 => 31
  | 2 => 59 + leap
  | 3 => 90 + leap
  | 4 => 120 + leap
  | 5 => 151 + leap
  | 6 => 181 + leap
  | 7 => 212 + leap
  | 8 => 243 + leap
  | 9 => 273 + leap
  | 10 => 304 + leap
  | 11 => 334 + leap
  | _ => 365 + leap

def daysInMonth (year : ℤ) (month : ℕ) : ℤ :=
  monthStart (inLeapYear year) (month + 1) - monthStart (inLeapYear year) month

/-- The last month up to `m` that has started on day `d` of the year. -/
def monthUpTo (leap d : ℤ) : ℕ → ℕ
  | 0 => 0
  | m + 1 => if monthStart leap (m + 1) ≤ d then m + 1 else monthUpTo leap d m

def monthFromDay (leap d : ℤ) : ℕ := monthUpTo leap d 11

def dayWithinYear (t : TimeValue) : ℤ := day t - dayFromYear (yearFromTime t)

def monthFromTime (t : TimeValue) : ℕ := monthFromDay (inLeapYear (yearFromTime t)) (dayWithinYear t)

def dateFromTime (t : TimeValue) : ℤ :=
  dayWithinYear t - monthStart (inLeapYear (yearFromTime t)) (monthFromTime t) + 1

/-! ### Hours, minutes and seconds -/

def hourFromTime (t : TimeValue) : ℤ := timeWithinDay t / 3600000

def minFromTime (t : TimeValue) : ℤ := timeWithinDay t / 60000 % 60

def secFromTime (t : TimeValue) : ℤ := timeWithinDay t / 1000 % 60

/-! ### Time values from their fields -/

def makeTime (hour min sec : ℤ) : ℤ := hour * 3600000 + min * 60000 + sec * 1000

/-- The day of a date whose month is one of the twelve, counted from zero. -/
def makeDay (year : ℤ) (month : ℕ) (date : ℤ) : ℤ :=
  dayFromYear year + monthStart (inLeapYear year) month + date - 1

def makeDate (day time : ℤ) : TimeValue := day * msPerDay + time

/-- No value stands for `NaN`. -/
def timeClip (t : ℤ) : Option TimeValue :=
  if -8640000000000000 ≤ t ∧ t ≤ 8640000000000000 then some t else none

def makeFullYear (year : ℤ) : ℤ := if 0 ≤ year ∧ year ≤ 99 then 1900 + year else year

/-- `Date.UTC`. -/
def dateUTC (year : ℤ) (month : ℕ) (date hour min sec : ℤ) : Option TimeValue :=
  timeClip (makeDate (makeDay (makeFullYear year) month date) (makeTime hour min sec))

/-! ### The year of a day -/

theorem dayFromYear_bounds (y : ℤ) :
    146097 * (y - 1970) - 700 ≤ 400 * dayFromYear y ∧
      400 * dayFromYear y ≤ 146097 * (y - 1970) + 700 := by
  unfold dayFromYear
  omega

theorem dayFromYear_lt_succ (y : ℤ) : dayFromYear y + 365 ≤ dayFromYear (y + 1) := by
  unfold dayFromYear
  omega

theorem inLeapYear_eq (y : ℤ) : inLeapYear y = 0 ∨ inLeapYear y = 1 := by
  unfold inLeapYear dayFromYear
  omega

theorem dayFromYear_mono {y z : ℤ} (h : y ≤ z) : dayFromYear y ≤ dayFromYear z := by
  unfold dayFromYear
  omega

theorem yearFromDay_spec (d : ℤ) :
    dayFromYear (yearFromDay d) ≤ d ∧ d < dayFromYear (yearFromDay d + 1) := by
  have h0 := dayFromYear_bounds (1970 + 400 * d / 146097)
  have hm := dayFromYear_bounds (1970 + 400 * d / 146097 - 1)
  have hp := dayFromYear_bounds (1970 + 400 * d / 146097 + 1 + 1)
  unfold yearFromDay
  dsimp only
  split_ifs with h1 h2
  · exact ⟨h1, by omega⟩
  · exact ⟨h2, by omega⟩
  · rw [sub_add_cancel]
    exact ⟨by omega, by omega⟩

/-- A day is in year `y` or later if it is not before the first day of `y`. -/
theorem le_yearFromDay {y d : ℤ} : y ≤ yearFromDay d ↔ dayFromYear y ≤ d := by
  obtain ⟨h1, h2⟩ := yearFromDay_spec d
  constructor
  · intro h
    have := dayFromYear_mono h
    omega
  · intro h
    by_contra hn
    have := dayFromYear_mono (show yearFromDay d + 1 ≤ y by omega)
    omega

theorem le_yearFromTime {y : ℤ} {t : TimeValue} :
    y ≤ yearFromTime t ↔ dayFromYear y * msPerDay ≤ t := by
  unfold yearFromTime
  rw [le_yearFromDay]
  unfold day msPerDay
  lia

theorem dayWithinYear_nonneg (t : TimeValue) : 0 ≤ dayWithinYear t := by
  obtain ⟨h, -⟩ := yearFromDay_spec (day t)
  unfold dayWithinYear yearFromTime
  omega

/-! ### The way back from the fields -/

theorem timeClip_of_le {t : ℤ} (h1 : -8640000000000000 ≤ t) (h2 : t ≤ 8640000000000000) :
    timeClip t = some t :=
  if_pos ⟨h1, h2⟩

theorem eq_of_timeClip {t s : ℤ} (h : timeClip t = some s) : s = t := by
  unfold timeClip at h
  split_ifs at h
  exact (Option.some.inj h).symm

theorem monthStart_monthUpTo_le (leap : ℤ) {d : ℤ} (hd : 0 ≤ d) (m : ℕ) :
    monthStart leap (monthUpTo leap d m) ≤ d := by
  induction m with
  | zero => exact hd
  | succ m ih =>
    unfold monthUpTo
    by_cases h : monthStart leap (m + 1) ≤ d
    · rw [if_pos h]
      exact h
    · rw [if_neg h]
      exact ih

theorem monthStart_nonneg {leap : ℤ} (hl : 0 ≤ leap) (m : ℕ) : 0 ≤ monthStart leap m := by
  unfold monthStart
  split <;> omega

theorem monthStart_le {leap : ℤ} (hl : 0 ≤ leap) (m : ℕ) : monthStart leap m ≤ 365 + leap := by
  unfold monthStart
  split <;> omega

theorem one_le_dateFromTime (t : TimeValue) : 1 ≤ dateFromTime t := by
  have := monthStart_monthUpTo_le (inLeapYear (yearFromTime t)) (dayWithinYear_nonneg t) 11
  unfold dateFromTime monthFromTime monthFromDay
  omega

/-- The fields of a time value give its day back. -/
theorem makeDay_fields (t : TimeValue) :
    makeDay (yearFromTime t) (monthFromTime t) (dateFromTime t) = day t := by
  unfold makeDay dateFromTime dayWithinYear
  omega

theorem dayFromYear_le_makeDay (year : ℤ) (month : ℕ) (date : ℤ) (hd : 1 ≤ date) :
    dayFromYear year ≤ makeDay year month date := by
  have hl : 0 ≤ inLeapYear year := by
    rcases inLeapYear_eq year with h | h <;> omega
  have := monthStart_nonneg hl month
  unfold makeDay
  omega

/-- A date of the calendar lies in its year. -/
theorem makeDay_lt {year : ℤ} {month : ℕ} {date : ℤ} (hd : date ≤ daysInMonth year month) :
    makeDay year month date < dayFromYear (year + 1) := by
  have hl : 0 ≤ inLeapYear year := by
    rcases inLeapYear_eq year with h | h <;> omega
  have := monthStart_le hl (month + 1)
  unfold daysInMonth at hd
  unfold makeDay
  unfold inLeapYear at this hd ⊢
  omega

/-- The fields do not show the milliseconds. -/
theorem makeTime_fields (t : TimeValue) :
    makeTime (hourFromTime t) (minFromTime t) (secFromTime t) = timeWithinDay t - t % 1000 := by
  unfold makeTime hourFromTime minFromTime secFromTime timeWithinDay msPerDay
  omega

theorem hourFromTime_nonneg (t : TimeValue) : 0 ≤ hourFromTime t := by
  unfold hourFromTime timeWithinDay msPerDay
  omega

theorem minFromTime_nonneg (t : TimeValue) : 0 ≤ minFromTime t := by
  unfold minFromTime
  omega

theorem secFromTime_nonneg (t : TimeValue) : 0 ≤ secFromTime t := by
  unfold secFromTime
  omega

theorem makeDate_fields (t : TimeValue) :
    makeDate (makeDay (yearFromTime t) (monthFromTime t) (dateFromTime t))
      (makeTime (hourFromTime t) (minFromTime t) (secFromTime t)) = t - t % 1000 := by
  rw [makeDay_fields, makeTime_fields]
  unfold makeDate day timeWithinDay msPerDay
  lia

/-- `Date.UTC` gives a time value back from its fields when the year has three digits. -/
theorem dateUTC_fields {t : TimeValue} (hy : 100 ≤ yearFromTime t) (hs : t % 1000 = 0)
    (hc : timeClip t = some t) :
    dateUTC (yearFromTime t) (monthFromTime t) (dateFromTime t) (hourFromTime t) (minFromTime t)
      (secFromTime t) = some t := by
  have hfull : makeFullYear (yearFromTime t) = yearFromTime t := by
    unfold makeFullYear
    rw [if_neg (by omega)]
  unfold dateUTC
  rw [hfull, makeDate_fields, hs, sub_zero, hc]

/-- `Date.UTC` does not go back behind the year that it reads. -/
theorem le_dateUTC {year date hour min sec : ℤ} {month : ℕ} {t : TimeValue}
    (h : dateUTC year month date hour min sec = some t) (hd : 1 ≤ date) (hh : 0 ≤ hour)
    (hm : 0 ≤ min) (hs : 0 ≤ sec) : dayFromYear (makeFullYear year) * msPerDay ≤ t := by
  have ht := eq_of_timeClip h
  have hday := dayFromYear_le_makeDay (makeFullYear year) month date hd
  unfold makeDate makeTime msPerDay at ht
  unfold msPerDay
  lia

end InterviewScheduler.Ecma
