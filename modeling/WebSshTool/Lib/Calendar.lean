import Mathlib.Tactic.Common
import Mathlib.Tactic.IntervalCases

/-!
# The proleptic Gregorian calendar

Dates and the number of days from 1 January 1970, in both directions and over
all integers. Years are astronomical: the year before year 1 is year 0.

The count runs over years that begin in March, so that the leap day is the last
of its year and a month's first day depends on the month alone. What has to be
shown is then said of one year: which day it starts on, and that the next one
starts where it ends.
-/

namespace WebSshTool.Calendar

def Leap (y : Int) : Prop := y % 4 = 0 ∧ (y % 100 ≠ 0 ∨ y % 400 = 0)

instance (y : Int) : Decidable (Leap y) :=
  inferInstanceAs (Decidable (_ ∧ _))

def monthLength (y : Int) (m : Nat) : Nat :=
  if m = 2 then if Leap y then 29 else 28
  else if m = 4 ∨ m = 6 ∨ m = 9 ∨ m = 11 then 30
  else 31

@[ext]
structure Date where
  year : Int
  month : Nat
  day : Nat
  month_pos : 1 ≤ month
  month_le : month ≤ 12
  day_pos : 1 ≤ day
  day_le : day ≤ monthLength year month
  deriving DecidableEq

/-! ## Years from March to February -/

/-- The days before 1 March of year `y`, from 1 March of year 0. -/
def daysBeforeYear (y : Int) : Int := 365 * y + y / 4 - y / 100 + y / 400

/-- The days from 1 March of year `y` to the end of the next February. -/
def yearLength (y : Int) : Int := if Leap (y + 1) then 366 else 365

/-- The days of such a year before its month `m`, which is 0 for March. -/
def daysBeforeMonth (m : Nat) : Nat := (153 * m + 2) / 5

theorem daysBeforeYear_succ (y : Int) :
    daysBeforeYear (y + 1) = daysBeforeYear y + yearLength y := by
  unfold daysBeforeYear yearLength
  split
  · next h =>
      unfold Leap at h
      omega
  · next h =>
      unfold Leap at h
      omega

theorem yearLength_range (y : Int) : 365 ≤ yearLength y ∧ yearLength y ≤ 366 := by
  unfold yearLength
  split <;> omega

/-- A year ends before any later one starts. -/
theorem daysBeforeYear_add_le {y z : Int} (h : y < z) :
    daysBeforeYear y + yearLength y ≤ daysBeforeYear z := by
  rw [← daysBeforeYear_succ]
  by_cases hz : z = y + 1
  · rw [hz]
  · unfold daysBeforeYear
    omega

/-- The year a day is in and its place there, both from 0. The days are counted
off by centuries, by spans of four years and by years; the last of each span may
be a day longer than the others, so what is left over stays in it. -/
def yearOfDay (n : Int) : Int × Int :=
  let inEra := n % 146097
  let century := min (inEra / 36524) 3
  let inCentury := inEra - 36524 * century
  let span := inCentury / 1461
  let inSpan := inCentury - 1461 * span
  let year := min (inSpan / 365) 3
  (400 * (n / 146097) + 100 * century + 4 * span + year, inSpan - 365 * year)

theorem yearOfDay_spec (n : Int) :
    daysBeforeYear (yearOfDay n).1 + (yearOfDay n).2 = n ∧
      0 ≤ (yearOfDay n).2 ∧ (yearOfDay n).2 < yearLength (yearOfDay n).1 := by
  obtain ⟨era, inEra, hn, hlo, hup⟩ :
      ∃ era inEra, n = 146097 * era + inEra ∧ 0 ≤ inEra ∧ inEra < 146097 :=
    ⟨n / 146097, n % 146097, by omega, by omega, by omega⟩
  have hera : n / 146097 = era := by omega
  have hinEra : n % 146097 = inEra := by omega
  simp only [yearOfDay, hera, hinEra]
  obtain ⟨century, hcentury⟩ : ∃ c, c = min (inEra / 36524) 3 := ⟨_, rfl⟩
  rw [← hcentury]
  obtain ⟨inCentury, hinCentury⟩ : ∃ d, d = inEra - 36524 * century := ⟨_, rfl⟩
  rw [← hinCentury]
  obtain ⟨span, hspan⟩ : ∃ q, q = inCentury / 1461 := ⟨_, rfl⟩
  rw [← hspan]
  obtain ⟨inSpan, hinSpan⟩ : ∃ d, d = inCentury - 1461 * span := ⟨_, rfl⟩
  rw [← hinSpan]
  obtain ⟨year, hyear⟩ : ∃ a, a = min (inSpan / 365) 3 := ⟨_, rfl⟩
  rw [← hyear]
  have hcenturyRange : 0 ≤ century ∧ century ≤ 3 ∧ 0 ≤ inCentury ∧ inCentury ≤ 36524 ∧
      (inCentury = 36524 → century = 3) := by omega
  have hspanRange : 0 ≤ span ∧ span ≤ 24 ∧ 0 ≤ inSpan ∧ inSpan ≤ 1460 ∧
      (inSpan = 1460 → span = 24 → century = 3) := by omega
  have hyearRange : 0 ≤ year ∧ year ≤ 3 ∧ 0 ≤ inSpan - 365 * year ∧
      inSpan - 365 * year ≤ 365 ∧ (inSpan - 365 * year = 365 → year = 3 ∧ inSpan = 1460) := by
    omega
  clear hcentury hspan hyear hera hinEra
  have hfour : (400 * era + 100 * century + 4 * span + year) / 4 =
      100 * era + 25 * century + span := by omega
  have hhundred : (400 * era + 100 * century + 4 * span + year) / 100 = 4 * era + century := by
    omega
  have hfourHundred : (400 * era + 100 * century + 4 * span + year) / 400 = era := by omega
  refine ⟨?_, hyearRange.2.2.1, ?_⟩
  · unfold daysBeforeYear
    rw [hfour, hhundred, hfourHundred]
    omega
  · unfold yearLength
    split
    · exact Int.lt_of_le_of_lt hyearRange.2.2.2.1 (by omega)
    · next h =>
        unfold Leap at h
        omega

/-! ## Months in such a year -/

/-- The month a day of the year is in. -/
def monthOfDay (d : Nat) : Nat := (5 * d + 2) / 153

/-- Its number in the calendar. -/
def calendarMonth (m : Nat) : Nat := if m < 10 then m + 3 else m - 9

/-- The calendar's year at that month: January and February are the next one's. -/
def calendarYear (y : Int) (m : Nat) : Int := if m < 10 then y else y + 1

/-- A month ends where the next one starts, and February where the year ends. -/
theorem daysBeforeMonth_add_monthLength (y : Int) {m : Nat} (hm : m ≤ 11) :
    (daysBeforeMonth m + monthLength (calendarYear y m) (calendarMonth m) : Int) =
      if m = 11 then yearLength y else daysBeforeMonth (m + 1) := by
  by_cases hfeb : m = 11
  · subst hfeb
    rw [if_pos rfl]
    by_cases hleap : Leap (y + 1) <;>
      simp [monthLength, calendarMonth, calendarYear, yearLength, daysBeforeMonth, hleap]
  · rw [if_neg hfeb]
    interval_cases m <;> simp_all [monthLength, calendarMonth, daysBeforeMonth]

theorem daysBeforeMonth_monthOfDay (d : Nat) : daysBeforeMonth (monthOfDay d) ≤ d := by
  unfold daysBeforeMonth monthOfDay
  omega

theorem lt_daysBeforeMonth_monthOfDay (d : Nat) : d < daysBeforeMonth (monthOfDay d + 1) := by
  unfold daysBeforeMonth monthOfDay
  omega

theorem monthOfDay_le {y : Int} {d : Nat} (h : (d : Int) < yearLength y) :
    monthOfDay d ≤ 11 := by
  have hlong := yearLength_range y
  unfold monthOfDay
  omega

theorem daysBeforeMonth_mono {m n : Nat} (h : m ≤ n) :
    daysBeforeMonth m ≤ daysBeforeMonth n := by
  unfold daysBeforeMonth
  omega

/-! ## Days and dates -/

/-- The year from March to February that a date is in. -/
def Date.marchYear (d : Date) : Int := if d.month ≤ 2 then d.year - 1 else d.year

/-- The date's month in that year. -/
def Date.marchMonth (d : Date) : Nat := (d.month + 9) % 12

/-- Days from 1 January 1970. -/
def Date.dayNumber (d : Date) : Int :=
  daysBeforeYear d.marchYear + (daysBeforeMonth d.marchMonth + (d.day - 1) : Nat) - 719468

/-- The date at a place in a year that begins in March. -/
def Date.ofYearDay (y : Int) (d : Nat) (h : (d : Int) < yearLength y) : Date where
  year := calendarYear y (monthOfDay d)
  month := calendarMonth (monthOfDay d)
  day := d - daysBeforeMonth (monthOfDay d) + 1
  month_pos := by
    unfold calendarMonth
    split <;> omega
  month_le := by
    have hm := monthOfDay_le h
    unfold calendarMonth
    split <;> omega
  day_pos := by omega
  day_le := by
    have hm := monthOfDay_le h
    have hlo := daysBeforeMonth_monthOfDay d
    have hup := lt_daysBeforeMonth_monthOfDay d
    have hlength := daysBeforeMonth_add_monthLength y hm
    split at hlength <;> omega

def Date.ofDayNumber (n : Int) : Date :=
  .ofYearDay (yearOfDay (n + 719468)).1 (yearOfDay (n + 719468)).2.toNat
    (by have h := (yearOfDay_spec (n + 719468)).2; omega)

theorem Date.marchYear_ofYearDay (y : Int) (d : Nat) (h : (d : Int) < yearLength y) :
    (ofYearDay y d h).marchYear = y := by
  have hm := monthOfDay_le h
  simp only [marchYear, ofYearDay, calendarMonth, calendarYear]
  split <;> split <;> omega

theorem Date.marchMonth_ofYearDay (y : Int) (d : Nat) (h : (d : Int) < yearLength y) :
    (ofYearDay y d h).marchMonth = monthOfDay d := by
  have hm := monthOfDay_le h
  simp only [marchMonth, ofYearDay, calendarMonth]
  split <;> omega

theorem Date.dayNumber_ofDayNumber (n : Int) : (ofDayNumber n).dayNumber = n := by
  have hspec := yearOfDay_spec (n + 719468)
  have hday := daysBeforeMonth_monthOfDay (yearOfDay (n + 719468)).2.toNat
  unfold dayNumber ofDayNumber
  rw [marchYear_ofYearDay, marchMonth_ofYearDay]
  simp only [ofYearDay]
  omega

example : ((Date.ofDayNumber 19782).year, (Date.ofDayNumber 19782).month,
    (Date.ofDayNumber 19782).day) = (2024, 2, 29) := by decide

/-! ## The order of dates -/

/-- By year, month and day. -/
def Date.Before (d e : Date) : Prop :=
  d.year < e.year ∨ d.year = e.year ∧
    (d.month < e.month ∨ d.month = e.month ∧ d.day < e.day)

theorem Date.marchMonth_le (d : Date) : d.marchMonth ≤ 11 := by
  unfold marchMonth
  omega

theorem Date.calendarMonth_marchMonth (d : Date) : calendarMonth d.marchMonth = d.month := by
  have hpos := d.month_pos
  have hle := d.month_le
  unfold calendarMonth marchMonth
  split <;> omega

theorem Date.calendarYear_marchYear (d : Date) :
    calendarYear d.marchYear d.marchMonth = d.year := by
  have hpos := d.month_pos
  have hle := d.month_le
  unfold calendarYear marchYear marchMonth
  split <;> split <;> omega

/-- A date lies before its month's end, and before its year's. -/
theorem Date.dayOfYear_lt (d : Date) :
    ((daysBeforeMonth d.marchMonth + (d.day - 1) : Nat) : Int) <
      if d.marchMonth = 11 then yearLength d.marchYear
      else daysBeforeMonth (d.marchMonth + 1) := by
  have hlength := daysBeforeMonth_add_monthLength d.marchYear d.marchMonth_le
  rw [d.calendarYear_marchYear, d.calendarMonth_marchMonth] at hlength
  rw [← hlength]
  have hpos := d.day_pos
  have hle := d.day_le
  omega

theorem Date.dayOfYear_lt_yearLength (d : Date) :
    ((daysBeforeMonth d.marchMonth + (d.day - 1) : Nat) : Int) < yearLength d.marchYear := by
  have hlt := d.dayOfYear_lt
  split at hlt
  · exact hlt
  · have hmonth : d.marchMonth + 1 ≤ 11 := by
      have := d.marchMonth_le
      omega
    have hmono := daysBeforeMonth_mono hmonth
    have hlong := yearLength_range d.marchYear
    have hlast : daysBeforeMonth 11 = 337 := rfl
    omega

theorem Date.dayNumber_lt {d e : Date} (h : d.Before e) : d.dayNumber < e.dayNumber := by
  have hd := d.dayOfYear_lt_yearLength
  have hyear : d.marchYear < e.marchYear ∨ d.marchYear = e.marchYear ∧
      (d.marchMonth < e.marchMonth ∨ d.marchMonth = e.marchMonth ∧ d.day < e.day) := by
    have hdm := d.month_pos
    have hdm' := d.month_le
    have hem := e.month_pos
    have hem' := e.month_le
    unfold Before at h
    unfold marchYear marchMonth
    split <;> split <;> omega
  unfold dayNumber
  rcases hyear with hyear | ⟨hyear, hmonth | ⟨hmonth, hday⟩⟩
  · have hspan := daysBeforeYear_add_le hyear
    omega
  · have hlt := d.dayOfYear_lt
    rw [if_neg (by have := e.marchMonth_le; omega)] at hlt
    have hmono := daysBeforeMonth_mono (show d.marchMonth + 1 ≤ e.marchMonth from hmonth)
    rw [hyear]
    omega
  · have hpos := d.day_pos
    rw [hyear, hmonth]
    omega

theorem Date.before_or (d e : Date) : d.Before e ∨ d = e ∨ e.Before d := by
  rw [Date.ext_iff]
  unfold Before
  omega

theorem Date.dayNumber_lt_iff {d e : Date} : d.dayNumber < e.dayNumber ↔ d.Before e := by
  refine ⟨fun h => ?_, dayNumber_lt⟩
  rcases d.before_or e with hbefore | rfl | hbefore
  · exact hbefore
  · omega
  · have hlt := dayNumber_lt hbefore
    omega

theorem Date.dayNumber_inj (d e : Date) : d.dayNumber = e.dayNumber ↔ d = e := by
  refine ⟨fun h => ?_, fun h => h ▸ rfl⟩
  rcases d.before_or e with hbefore | rfl | hbefore
  · have hlt := dayNumber_lt hbefore
    omega
  · rfl
  · have hlt := dayNumber_lt hbefore
    omega

end WebSshTool.Calendar
