import InterviewScheduler.Ecma.Date
import Mathlib.Tactic.Ring

/-! # Wall-clock times of the availability form

`zonedWallTimeToISO` turns the date and the minute a candidate typed into an instant. It reads them as a
UTC time, the guess, asks what the zone's clocks show at the guess, and takes the difference for the
zone's offset. So the offset is that of the guess, which lies as far from the answer as the zone lies from
UTC. -/

namespace InterviewScheduler.Frontend

open Ecma

/-! ### Zones -/

/-- A zone says how many seconds its clocks are ahead of UTC at an instant. The offset changes at finitely
many transitions, and is less than a day either way. -/
structure TimeZone where
  offset : TimeValue → ℤ
  transitions : List TimeValue
  constant : ∀ s t, s ≤ t → (∀ x ∈ transitions, ¬ (s < x ∧ x ≤ t)) → offset s = offset t
  bounded : ∀ t, -86400 < offset t ∧ offset t < 86400

namespace TimeZone

/-- What the clocks of the zone show at `t`, written as the UTC time that reads the same. -/
def localTime (zone : TimeZone) (t : TimeValue) : TimeValue := t + 1000 * zone.offset t

/-- `t` is the only instant at which the clocks show `wall`. -/
def OnlyInstant (zone : TimeZone) (wall t : TimeValue) : Prop :=
  ∀ u, zone.localTime u = wall ↔ u = t

/-- The zone with one transition, at `x`. -/
def single (x : TimeValue) (before after : ℤ) (hb : -86400 < before ∧ before < 86400)
    (ha : -86400 < after ∧ after < 86400) : TimeZone where
  offset t := if t < x then before else after
  transitions := [x]
  constant s t hst hx := by
    have := hx x (List.mem_singleton.mpr rfl)
    by_cases hs : s < x
    · rw [if_pos hs, if_pos (by lia)]
    · rw [if_neg hs, if_neg (by lia)]
  bounded t := by
    by_cases h : t < x
    · rw [if_pos h]
      exact hb
    · rw [if_neg h]
      exact ha

end TimeZone

/-! ### The form's fields -/

/-- A date of the form `YYYY-MM-DD`, whose year has four digits or more. -/
structure FormDate where
  year : ℕ
  month : ℕ
  date : ℕ
  month_mem : 1 ≤ month ∧ month ≤ 12
  date_mem : 1 ≤ date ∧ date ≤ daysInMonth year (month - 1)

/-- A time of the form `HH:MM`. -/
structure FormTime where
  hour : ℕ
  minute : ℕ
  hour_lt : hour < 24
  minute_lt : minute < 60

/-- The date and the time as the UTC time they read as, `${dateStr}T${timeStr}:00Z`. -/
def utcReading (date : FormDate) (time : FormTime) : TimeValue :=
  makeDate (makeDay date.year (date.month - 1) date.date) (makeTime time.hour time.minute 0)

/-! ### The conversion -/

/-- The numbers in the parts of a formatted date. -/
structure Parts where
  year : ℤ
  month : ℕ
  day : ℤ
  hour : ℤ
  minute : ℤ
  second : ℤ

/-- The year without its era: a year before year 1 is counted back from it. -/
def eraYear (year : ℤ) : ℤ := if year ≤ 0 then 1 - year else year

/-- The parts that `Intl.DateTimeFormat` shows in `en-US`. With `hour12: false` some implementations write
midnight as 24. -/
def formatToParts (zone : TimeZone) (midnight24 : Bool) (t : TimeValue) : Parts :=
  let shown := zone.localTime t
  let hour := hourFromTime shown
  { year := eraYear (yearFromTime shown)
    month := monthFromTime shown + 1
    day := dateFromTime shown
    hour := if hour = 0 ∧ midnight24 = true then 24 else hour
    minute := minFromTime shown
    second := secFromTime shown }

/-- The parts read as a UTC time. -/
def Parts.asUTC (parts : Parts) : Option TimeValue :=
  dateUTC parts.year (parts.month - 1) parts.day (if parts.hour = 24 then 0 else parts.hour)
    parts.minute parts.second

/-- `new Date` of the date and the time with `Z`. The year of a date-time string has four digits; one with
more digits and no sign is not read. -/
def parseUTC (date : FormDate) (time : FormTime) : Option TimeValue :=
  if date.year ≤ 9999 then timeClip (utcReading date time) else none

/-- Nothing is returned where the code raises a `RangeError` for a date that is `NaN`. -/
def zonedWallTimeToISO (zone : TimeZone) (midnight24 : Bool) (date : FormDate) (time : FormTime) :
    Option TimeValue := do
  let guess ← parseUTC date time
  let asUTC ← (formatToParts zone midnight24 guess).asUTC
  let offset := asUTC - guess
  timeClip (guess - offset)

/-! ### The guess -/

theorem utcReading_mod (date : FormDate) (time : FormTime) : utcReading date time % 1000 = 0 := by
  unfold utcReading makeDate makeTime msPerDay
  lia

theorem le_utcReading (date : FormDate) (time : FormTime) :
    dayFromYear date.year * msPerDay ≤ utcReading date time := by
  have hd := dayFromYear_le_makeDay date.year (date.month - 1) date.date
    (by have := date.date_mem; omega)
  unfold utcReading makeDate makeTime msPerDay
  lia

theorem utcReading_lt {date : FormDate} (hfour : date.year ≤ 9999) (time : FormTime) :
    utcReading date time < dayFromYear 10000 * msPerDay := by
  have hd := makeDay_lt date.date_mem.2
  have hy : dayFromYear ((date.year : ℤ) + 1) ≤ dayFromYear 10000 := dayFromYear_mono (by omega)
  have := time.hour_lt
  have := time.minute_lt
  unfold utcReading makeDate makeTime msPerDay
  lia

/-- A year of four digits and the days next to it are far inside the range of time values. -/
theorem timeClip_near {date : FormDate} (hfour : date.year ≤ 9999) (time : FormTime) {t : ℤ}
    (h1 : utcReading date time - 86400000 ≤ t) (h2 : t ≤ utcReading date time + 86400000) :
    timeClip t = some t := by
  have hle := le_utcReading date time
  have hlt := utcReading_lt hfour time
  have h0 : dayFromYear 0 ≤ dayFromYear date.year := dayFromYear_mono (by omega)
  have hfirst : dayFromYear 0 = -719528 := by decide
  have hlast : dayFromYear 10000 = 2932897 := by decide
  unfold msPerDay at hle hlt
  apply timeClip_of_le
  · lia
  · lia

/-! ### What the conversion returns -/

theorem hourFromTime_lt (t : TimeValue) : hourFromTime t < 24 := by
  unfold hourFromTime timeWithinDay msPerDay
  omega

/-- Either spelling of midnight reads as the same hour. -/
theorem asUTC_formatToParts (zone : TimeZone) (midnight24 : Bool) (t : TimeValue) :
    (formatToParts zone midnight24 t).asUTC =
      dateUTC (eraYear (yearFromTime (zone.localTime t))) (monthFromTime (zone.localTime t))
        (dateFromTime (zone.localTime t)) (hourFromTime (zone.localTime t))
        (minFromTime (zone.localTime t)) (secFromTime (zone.localTime t)) := by
  have hlt := hourFromTime_lt (zone.localTime t)
  unfold Parts.asUTC formatToParts
  dsimp only
  congr 1
  by_cases h : hourFromTime (zone.localTime t) = 0 ∧ midnight24 = true
  · simp only [h, and_self, if_true]
  · simp only [if_neg h]
    exact if_neg (by omega)

variable {zone : TimeZone} {midnight24 : Bool} {date : FormDate} {time : FormTime} {t : TimeValue}

theorem zonedWallTimeToISO_eq (hfour : date.year ≤ 9999) : zonedWallTimeToISO zone midnight24 date time =
    (formatToParts zone midnight24 (utcReading date time)).asUTC.bind fun asUTC =>
      timeClip (utcReading date time - (asUTC - utcReading date time)) := by
  have hguess : timeClip (utcReading date time) = some (utcReading date time) :=
    timeClip_near hfour time (by lia) (by lia)
  unfold zonedWallTimeToISO parseUTC
  rw [if_pos hfour, hguess]
  rfl

/-- A year of five digits is not read. -/
theorem zonedWallTimeToISO_eq_none (hfive : ¬ date.year ≤ 9999) :
    zonedWallTimeToISO zone midnight24 date time = none := by
  unfold zonedWallTimeToISO parseUTC
  rw [if_neg hfive]
  rfl

theorem localTime_mod (zone : TimeZone) (date : FormDate) (time : FormTime) :
    zone.localTime (utcReading date time) % 1000 = 0 := by
  have := utcReading_mod date time
  unfold TimeZone.localTime
  lia

theorem timeClip_localTime (zone : TimeZone) (hfour : date.year ≤ 9999) :
    timeClip (zone.localTime (utcReading date time)) = some (zone.localTime (utcReading date time)) := by
  have := zone.bounded (utcReading date time)
  unfold TimeZone.localTime
  apply timeClip_near hfour time
  · lia
  · lia

/-- From the year 100 on, the difference is the offset of the guess. -/
theorem zonedWallTimeToISO_of_year (hfour : date.year ≤ 9999)
    (hy : 100 ≤ yearFromTime (zone.localTime (utcReading date time))) :
    zonedWallTimeToISO zone midnight24 date time =
      some (utcReading date time - 1000 * zone.offset (utcReading date time)) := by
  have hera : eraYear (yearFromTime (zone.localTime (utcReading date time))) =
      yearFromTime (zone.localTime (utcReading date time)) := if_neg (by omega)
  have hb := zone.bounded (utcReading date time)
  have hoff : utcReading date time - (zone.localTime (utcReading date time) - utcReading date time) =
      utcReading date time - 1000 * zone.offset (utcReading date time) := by
    unfold TimeZone.localTime
    ring
  rw [zonedWallTimeToISO_eq hfour, asUTC_formatToParts, hera,
    dateUTC_fields hy (localTime_mod zone date time) (timeClip_localTime zone hfour),
    Option.bind_some, hoff]
  exact timeClip_near hfour time (by lia) (by lia)

/-- The clocks show no year before the year -1. -/
theorem neg_one_le_year (zone : TimeZone) (date : FormDate) (time : FormTime) :
    -1 ≤ yearFromTime (zone.localTime (utcReading date time)) := by
  have hle := le_utcReading date time
  have hb := zone.bounded (utcReading date time)
  have h0 : dayFromYear 0 ≤ dayFromYear date.year := dayFromYear_mono (by omega)
  have hy : dayFromYear (-1) + 365 ≤ dayFromYear (-1 + 1) := dayFromYear_lt_succ (-1)
  have hday : dayFromYear (-1) ≤ day (zone.localTime (utcReading date time)) := by
    unfold day TimeZone.localTime
    unfold msPerDay at hle ⊢
    lia
  exact le_yearFromDay.mpr hday

/-- A year that `Date.UTC` misreads becomes one of the twentieth century. -/
theorem le_makeFullYear {year : ℤ} (h1 : -1 ≤ year) (h2 : year < 100) :
    1901 ≤ makeFullYear (eraYear year) := by
  unfold makeFullYear eraYear
  split_ifs <;> omega

/-- Before the year 100 the answer is centuries away. -/
theorem lt_of_zonedWallTimeToISO (hfour : date.year ≤ 9999)
    (hy : yearFromTime (zone.localTime (utcReading date time)) < 100)
    (h : zonedWallTimeToISO zone midnight24 date time = some t) :
    t < utcReading date time - 86400000 := by
  rw [zonedWallTimeToISO_eq hfour, asUTC_formatToParts] at h
  obtain ⟨asUTC, hasUTC, ht⟩ := Option.bind_eq_some_iff.mp h
  have hanswer := eq_of_timeClip ht
  have hb := zone.bounded (utcReading date time)
  -- the clocks show a time before the year 100, which is read as one after 1900
  have hshown : ¬ dayFromYear 100 * msPerDay ≤ zone.localTime (utcReading date time) := by
    rw [← le_yearFromTime]
    omega
  have hread := le_dateUTC hasUTC (one_le_dateFromTime _) (hourFromTime_nonneg _)
    (minFromTime_nonneg _) (secFromTime_nonneg _)
  have hfull := dayFromYear_mono (le_makeFullYear (neg_one_le_year zone date time) hy)
  have h100 : dayFromYear 100 = -683003 := by decide
  have h1901 : dayFromYear 1901 = -25202 := by decide
  unfold TimeZone.localTime at hshown
  unfold msPerDay at hshown hread
  lia

/-! ### When the answer is the instant of the wall time -/

/-- The only instant with the wall time is returned when the guess has the same offset and, on the clocks
of the zone, lies in the year 100 or later, and the date has a year of four digits; and only then. -/
theorem zonedWallTimeToISO_eq_iff (zone : TimeZone) (midnight24 : Bool) (date : FormDate)
    (time : FormTime) (t : TimeValue) (honly : zone.OnlyInstant (utcReading date time) t) :
    zonedWallTimeToISO zone midnight24 date time = some t ↔
      zone.offset (utcReading date time) = zone.offset t ∧
        100 ≤ yearFromTime (zone.localTime (utcReading date time)) ∧ date.year ≤ 9999 := by
  have hwall : t + 1000 * zone.offset t = utcReading date time := (honly t).mpr rfl
  have hb := zone.bounded t
  by_cases hfour : date.year ≤ 9999
  · by_cases hy : 100 ≤ yearFromTime (zone.localTime (utcReading date time))
    · rw [zonedWallTimeToISO_of_year hfour hy, Option.some.injEq]
      constructor
      · intro h
        exact ⟨by lia, hy, hfour⟩
      · rintro ⟨h, -⟩
        lia
    · constructor
      · intro h
        have := lt_of_zonedWallTimeToISO hfour (not_le.mp hy) h
        lia
      · rintro ⟨-, h, -⟩
        exact absurd h hy
  · rw [zonedWallTimeToISO_eq_none hfour]
    constructor
    · intro h
      simp at h
    · rintro ⟨-, -, h⟩
      exact absurd h hfour

/-! ### An afternoon after the clocks went forward -/

/-- New York from the autumn of 2024 to the autumn of 2025: the clocks go forward on 9 March 2025 at
07:00 UTC. -/
def newYork : TimeZone := .single 1741503600000 (-18000) (-14400) (by decide) (by decide)

def march9 : FormDate := ⟨2025, 3, 9, by decide, by decide⟩

def noon : FormTime := ⟨12, 0, by decide, by decide⟩

theorem newYork_noon : newYork.OnlyInstant (utcReading march9 noon) 1741536000000 := by
  intro u
  have hwall : utcReading march9 noon = 1741521600000 := by decide
  rw [hwall]
  unfold TimeZone.localTime newYork TimeZone.single
  dsimp only
  split_ifs <;> lia

theorem zonedWallTimeToISO_noon : newYork.OnlyInstant (utcReading march9 noon) 1741536000000 ∧
    (zonedWallTimeToISO newYork true march9 noon = some 1741536000000 ↔
      newYork.offset (utcReading march9 noon) = newYork.offset 1741536000000 ∧
        100 ≤ yearFromTime (newYork.localTime (utcReading march9 noon)) ∧ march9.year ≤ 9999) :=
  ⟨newYork_noon, zonedWallTimeToISO_eq_iff newYork true march9 noon 1741536000000 newYork_noon⟩

/-- Five in the morning, two hours after the clocks went forward, is converted with the offset that ended
then, because the guess, 05:00 UTC, lies before the transition. -/
theorem zonedWallTimeToISO_misses :
    ¬ ∀ (zone : TimeZone) (midnight24 : Bool) (date : FormDate) (time : FormTime) (t : TimeValue),
      zone.OnlyInstant (utcReading date time) t →
        zonedWallTimeToISO zone midnight24 date time = some t := by
  intro h
  have honly : newYork.OnlyInstant (utcReading march9 ⟨5, 0, by decide, by decide⟩) 1741510800000 := by
    intro u
    have hwall : utcReading march9 ⟨5, 0, by decide, by decide⟩ = 1741496400000 := by decide
    rw [hwall]
    unfold TimeZone.localTime newYork TimeZone.single
    dsimp only
    split_ifs <;> lia
  have hreturned : zonedWallTimeToISO newYork true march9 ⟨5, 0, by decide, by decide⟩ =
      some 1741514400000 := by decide +kernel
  have := h _ true _ _ _ honly
  rw [hreturned] at this
  exact absurd this (by decide)

end InterviewScheduler.Frontend
