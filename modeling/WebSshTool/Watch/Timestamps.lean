import Mathlib.Data.Nat.Digits.Lemmas
import WebSshTool.Lib.Calendar
import WebSshTool.Lib.Json
import WebSshTool.Lib.Lexical

/-!
# Time stamps as they are sent

`system_time_to_string` writes an instant in UTC as `%d-%b-%Y %H:%M:%S %P %z`.
The conversion to a date panics outside of the years `chrono` has, and then
nothing is written. The fraction of a second is dropped. `Chrono` is the crate,
with what it documents about the conversion and about each specifier of the
format.

`text_lt_iff` says how the texts are ordered: by the day of the month first,
then by the month's English abbreviation, then by the year as it is written.
-/

namespace WebSshTool.Watch

open Calendar Lexical

/-- `std::time::SystemTime`, in seconds since 1970 and nanoseconds after them. -/
structure SystemTime where
  seconds : Int
  nanos : Nat
  nanos_lt : nanos < 1000000000
  deriving DecidableEq

/-- `chrono::DateTime<Utc>` at the resolution that is written. -/
structure DateTime where
  date : Date
  /-- Of the day. -/
  second : Nat
  second_lt : second < 86400

/-- Seconds since 1970. -/
def DateTime.seconds (t : DateTime) : Int := t.date.dayNumber * 86400 + t.second

/-! ## The format -/

/-- `%b`. -/
def monthNames : List Text :=
  [['J', 'a', 'n'], ['F', 'e', 'b'], ['M', 'a', 'r'], ['A', 'p', 'r'], ['M', 'a', 'y'],
    ['J', 'u', 'n'], ['J', 'u', 'l'], ['A', 'u', 'g'], ['S', 'e', 'p'], ['O', 'c', 't'],
    ['N', 'o', 'v'], ['D', 'e', 'c']].map (·.map Char.toNat)

def monthName (m : Nat) : Text := monthNames.getD (m - 1) []

/-- Four digits, or as many as it takes. -/
def yearDigits (n : Nat) : Text := padded (max 4 (Nat.digits 10 n).length) n

/-- `%Y`: a year that has not four digits is written with its sign. -/
def yearText (y : Int) : Text :=
  if y < 0 then 0x2d :: yearDigits y.natAbs
  else if 9999 < y then 0x2b :: yearDigits y.natAbs
  else padded 4 y.natAbs

/-- `%P`. -/
def halfDay (second : Nat) : Text := [if second / 3600 < 12 then 0x61 else 0x70, 0x6d]

/-- The crate `chrono`. -/
structure Chrono where
  /-- `time.into()`; `none` where it panics. -/
  into : SystemTime → Option DateTime
  /-- What is written for a specifier. -/
  specifier : Char → DateTime → Text
  into_seconds : ∀ {time t}, into time = some t → t.seconds = time.seconds
  day : ∀ t, specifier 'd' t = padded 2 t.date.day
  month : ∀ t, specifier 'b' t = monthName t.date.month
  year : ∀ t, specifier 'Y' t = yearText t.date.year
  hour : ∀ t, specifier 'H' t = padded 2 (t.second / 3600)
  minute : ∀ t, specifier 'M' t = padded 2 (t.second / 60 % 60)
  second : ∀ t, specifier 'S' t = padded 2 (t.second % 60)
  half : ∀ t, specifier 'P' t = halfDay t.second
  /-- The zone is UTC. -/
  zone : ∀ t, specifier 'z' t = [0x2b, 0x30, 0x30, 0x30, 0x30]

/-- `dt.format`: a percent sign is followed by a specifier. -/
def Chrono.format (chrono : Chrono) (t : DateTime) : List Char → Text
  | '%' :: c :: fmt => chrono.specifier c t ++ chrono.format t fmt
  | c :: fmt => c.toNat :: chrono.format t fmt
  | [] => []

def Chrono.text (chrono : Chrono) (dt : DateTime) : Text :=
  chrono.format dt "%d-%b-%Y %H:%M:%S %P %z".toList

/-- `system_time_to_string`. -/
def systemTimeToString (chrono : Chrono) (time : SystemTime) : Option Text :=
  (chrono.into time).map chrono.text

/-- The crate as it is, with its years. -/
def utc : Chrono where
  into time :=
    let date := Date.ofDayNumber (time.seconds / 86400)
    if -262144 ≤ date.year ∧ date.year ≤ 262143 then
      some ⟨date, (time.seconds % 86400).toNat, by omega⟩
    else none
  specifier
    | 'd', t => padded 2 t.date.day
    | 'b', t => monthName t.date.month
    | 'Y', t => yearText t.date.year
    | 'H', t => padded 2 (t.second / 3600)
    | 'M', t => padded 2 (t.second / 60 % 60)
    | 'S', t => padded 2 (t.second % 60)
    | 'P', t => halfDay t.second
    | 'z', _ => [0x2b, 0x30, 0x30, 0x30, 0x30]
    | _, _ => []
  into_seconds h := by
    simp only at h
    split at h
    · obtain rfl := Option.some.inj h
      simp only [DateTime.seconds, Date.dayNumber_ofDayNumber]
      omega
    · cases h
  day _ := rfl
  month _ := rfl
  year _ := rfl
  hour _ := rfl
  minute _ := rfl
  second _ := rfl
  half _ := rfl
  zone _ := rfl

example : systemTimeToString utc ⟨1709251199, 5, by decide⟩ =
    some ("29-Feb-2024 23:59:59 pm +0000".toList.map Char.toNat) := by decide +kernel

/-! ## Its order -/

/-- Where a month's abbreviation stands among the twelve. -/
def monthRank (m : Nat) : Nat := [4, 3, 7, 0, 8, 6, 5, 1, 11, 10, 9, 2].getD (m - 1) 12

/-- What the texts are ordered by. -/
def DateTime.WrittenBefore (s t : DateTime) : Prop :=
  s.date.day < t.date.day ∨ s.date.day = t.date.day ∧
    (monthRank s.date.month < monthRank t.date.month ∨ s.date.month = t.date.month ∧
      (yearText s.date.year < yearText t.date.year ∨ s.date.year = t.date.year ∧
        s.second < t.second))

theorem monthName_spec (m n : Fin 12) :
    (monthName (m + 1)).length = 3 ∧
      (monthName (m + 1) < monthName (n + 1) ↔ monthRank (m + 1) < monthRank (n + 1)) ∧
      (monthName (m + 1) = monthName (n + 1) ↔ m = n) := by
  revert m n
  decide

theorem monthName_append_lt_iff {m n : Nat} (hm : 1 ≤ m ∧ m ≤ 12) (hn : 1 ≤ n ∧ n ≤ 12)
    (s t : Text) :
    monthName m ++ s < monthName n ++ t ↔ monthRank m < monthRank n ∨ m = n ∧ s < t := by
  obtain ⟨i, rfl⟩ : ∃ i : Fin 12, m = i + 1 := ⟨⟨m - 1, by omega⟩, by simp; omega⟩
  obtain ⟨j, rfl⟩ : ∃ j : Fin 12, n = j + 1 := ⟨⟨n - 1, by omega⟩, by simp; omega⟩
  obtain ⟨hi, hlt, heq⟩ := monthName_spec i j
  have hj := (monthName_spec j i).1
  rw [append_lt_append_iff (hi.trans hj.symm), hlt, heq, Fin.ext_iff, Nat.add_right_cancel_iff]

theorem monthRank_inj {m n : Nat} (hm : 1 ≤ m ∧ m ≤ 12) (hn : 1 ≤ n ∧ n ≤ 12)
    (h : monthRank m = monthRank n) : m = n := by
  have hranks : ∀ i j : Fin 12, monthRank (i + 1) = monthRank (j + 1) → i = j := by decide
  have heq := hranks ⟨m - 1, by omega⟩ ⟨n - 1, by omega⟩
  simp only [Nat.sub_add_cancel hm.1, Nat.sub_add_cancel hn.1, Fin.mk.injEq] at heq
  have := heq h
  omega

theorem lt_yearWidth (n : Nat) : n < 10 ^ max 4 (Nat.digits 10 n).length :=
  Nat.lt_of_lt_of_le (Nat.lt_base_pow_length_digits (by omega))
    (Nat.pow_le_pow_right (by omega) (Nat.le_max_right ..))

/-- What stands behind the year is below every unit of it. -/
theorem yearText_range {y : Int} {u : Nat} (hu : u ∈ yearText y) : 0x20 < u := by
  have hdigits : ∀ {width n : Nat}, u ∈ padded width n → 0x20 < u := fun hu => by
    have := padded_range hu
    omega
  unfold yearText yearDigits at hu
  split at hu
  · rcases List.mem_cons.mp hu with rfl | hu
    · omega
    · exact hdigits hu
  · split at hu
    · rcases List.mem_cons.mp hu with rfl | hu
      · omega
      · exact hdigits hu
    · exact hdigits hu

/-- The number in a year's text. -/
def yearValue (t : Text) : Int :=
  if t.head? = some 0x2d then -value t.tail
  else if t.head? = some 0x2b then value t.tail
  else value t

theorem yearValue_yearText (y : Int) : yearValue (yearText y) = y := by
  unfold yearText yearDigits
  split
  · simp only [yearValue, List.head?_cons, List.tail_cons, if_true, value_padded (lt_yearWidth _)]
    omega
  · split
    · simp only [yearValue, List.head?_cons, List.tail_cons, value_padded (lt_yearWidth _)]
      simp only [Option.some.injEq, Nat.reduceEqDiff, if_false, if_true]
      omega
    · have hsign : ∀ {u}, (padded 4 y.natAbs).head? = some u → 0x30 ≤ u := fun hu =>
        (padded_range (List.mem_of_mem_head? hu)).1
      unfold yearValue
      rw [if_neg fun h => absurd (hsign h) (by omega),
        if_neg fun h => absurd (hsign h) (by omega), value_padded (by omega)]
      omega

theorem yearText_inj {y z : Int} : yearText y = yearText z ↔ y = z :=
  ⟨fun h => by rw [← yearValue_yearText y, h, yearValue_yearText], fun h => h ▸ rfl⟩

/-- Years of four digits are in their own order. -/
theorem yearText_lt_iff {y z : Int} (hy : 0 ≤ y ∧ y ≤ 9999) (hz : 0 ≤ z ∧ z ≤ 9999) :
    yearText y < yearText z ↔ y < z := by
  unfold yearText
  rw [if_neg (by omega), if_neg (by omega), if_neg (by omega), if_neg (by omega),
    padded_lt_padded_iff (by omega) (by omega)]
  omega

/-- `%H:%M:%S %P %z`, in UTC. -/
def clock (second : Nat) : Text :=
  padded 2 (second / 3600) ++ 0x3a :: (padded 2 (second / 60 % 60) ++ 0x3a ::
    (padded 2 (second % 60) ++ 0x20 :: (halfDay second ++ [0x20, 0x2b, 0x30, 0x30, 0x30, 0x30])))

theorem Chrono.text_eq (chrono : Chrono) (t : DateTime) :
    chrono.text t =
      padded 2 t.date.day ++ 0x2d :: (monthName t.date.month ++ 0x2d ::
        (yearText t.date.year ++ 0x20 :: clock t.second)) := by
  have hitems : "%d-%b-%Y %H:%M:%S %P %z".toList =
      ['%', 'd', '-', '%', 'b', '-', '%', 'Y', ' ', '%', 'H', ':', '%', 'M', ':', '%', 'S', ' ',
        '%', 'P', ' ', '%', 'z'] := rfl
  rw [Chrono.text, hitems]
  simp [Chrono.format, chrono.day, chrono.month, chrono.year, chrono.hour, chrono.minute,
    chrono.second, chrono.half, chrono.zone, clock]

theorem clock_lt_iff {s t : Nat} (hs : s < 86400) (ht : t < 86400) :
    clock s < clock t ↔ s < t := by
  unfold clock halfDay
  rw [padded_append_lt_iff (by omega) (by omega), List.cons_lt_cons_iff,
    padded_append_lt_iff (by omega) (by omega), List.cons_lt_cons_iff,
    padded_append_lt_iff (by omega) (by omega)]
  by_cases hhour : s / 3600 = t / 3600
  · -- Then both are in the morning or both are not.
    rw [hhour]
    have hirrefl : ∀ xs : Text, ¬ xs < xs := fun xs => List.lt_irrefl xs
    simp only [hirrefl, and_false, or_false, Nat.lt_irrefl, true_and, false_or]
    omega
  · simp only [hhour, false_and, or_false]
    omega

theorem Chrono.text_lt_iff (chrono : Chrono) (s t : DateTime) :
    chrono.text s < chrono.text t ↔ s.WrittenBefore t := by
  have hday : ∀ t : DateTime, t.date.day < 10 ^ 2 := fun t => by
    have hle := t.date.day_le
    unfold monthLength at hle
    split at hle <;> split at hle <;> omega
  unfold DateTime.WrittenBefore
  rw [chrono.text_eq, chrono.text_eq, padded_append_lt_iff (hday s) (hday t), List.cons_lt_cons_iff,
    monthName_append_lt_iff ⟨s.date.month_pos, s.date.month_le⟩ ⟨t.date.month_pos, t.date.month_le⟩,
    List.cons_lt_cons_iff,
    append_cons_lt_append_cons_iff (fun _ => yearText_range) (fun _ => yearText_range),
    yearText_inj, clock_lt_iff s.second_lt t.second_lt]
  simp only [Nat.lt_irrefl, false_or, true_and]

/-! ## Instants -/

theorem DateTime.seconds_lt_iff (s t : DateTime) :
    s.seconds < t.seconds ↔ s.date.Before t.date ∨ s.date = t.date ∧ s.second < t.second := by
  have hs := s.second_lt
  have ht := t.second_lt
  have hday := Date.dayNumber_inj s.date t.date
  rw [← Date.dayNumber_lt_iff, ← hday]
  unfold seconds
  omega

/-- Two different seconds are written differently. -/
theorem DateTime.writtenBefore_or {s t : DateTime} (h : s.seconds ≠ t.seconds) :
    s.WrittenBefore t ∨ t.WrittenBefore s := by
  by_contra hnot
  simp only [WrittenBefore, not_or, not_and, Nat.not_lt] at hnot
  obtain ⟨⟨hday, hst⟩, hday', hts⟩ := hnot
  have hday := Nat.le_antisymm hday' hday
  obtain ⟨hrank, hst⟩ := hst hday
  obtain ⟨hrank', hts⟩ := hts hday.symm
  have hmonth := monthRank_inj ⟨s.date.month_pos, s.date.month_le⟩
    ⟨t.date.month_pos, t.date.month_le⟩ (Nat.le_antisymm hrank' hrank)
  obtain ⟨hyear, hst⟩ := hst hmonth
  obtain ⟨hyear', hts⟩ := hts hmonth.symm
  have hyear := yearText_inj.mp (List.le_antisymm hyear' hyear)
  have hsecond := Nat.le_antisymm (hts hyear.symm) (hst hyear)
  exact h (by rw [seconds, seconds, Date.ext hyear hmonth hday, hsecond])

/-- Within one month the order is that of time. -/
theorem DateTime.writtenBefore_iff_of_month {s t : DateTime} (hyear : s.date.year = t.date.year)
    (hmonth : s.date.month = t.date.month) : s.WrittenBefore t ↔ s.seconds < t.seconds := by
  have hirrefl : ¬ yearText t.date.year < yearText t.date.year := List.lt_irrefl _
  rw [seconds_lt_iff, Date.ext_iff]
  unfold WrittenBefore Date.Before
  rw [hyear, hmonth]
  simp only [hirrefl, Int.lt_irrefl, Nat.lt_irrefl, false_or, true_and]

end WebSshTool.Watch
