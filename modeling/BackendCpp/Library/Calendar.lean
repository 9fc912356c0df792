import Mathlib.Tactic

/-!
# The Gregorian calendar

Dates of the proleptic Gregorian calendar, the day after a date, and the number of a day. The number
grows by one from each day to the next, so it is the order of the dates, and every number is that of
one date, which a formula finds.
-/

namespace BackendCpp.Library

/-- The year has a 29 February. -/
def IsLeap (year : Int) : Prop := year % 4 = 0 ∧ (year % 100 ≠ 0 ∨ year % 400 = 0)

instance (year : Int) : Decidable (IsLeap year) := inferInstanceAs (Decidable (_ ∧ _))

/-- Days of a month. -/
def daysInMonth (year month : Int) : Int :=
  if month = 2 then (if IsLeap year then 29 else 28)
  else if month = 4 ∨ month = 6 ∨ month = 9 ∨ month = 11 then 30 else 31

/-- A month has at least 28 days. -/
theorem le_daysInMonth (year month : Int) : 28 ≤ daysInMonth year month := by
  unfold daysInMonth
  split_ifs <;> omega

/-- A month has at most 31 days. -/
theorem daysInMonth_le (year month : Int) : daysInMonth year month ≤ 31 := by
  unfold daysInMonth
  split_ifs <;> omega

/-- Year, month and day. -/
@[ext] structure CivilDate where
  /-- Year. -/
  year : Int
  /-- Month, from 1. -/
  month : Int
  /-- Day of the month, from 1. -/
  day : Int
  deriving DecidableEq

namespace CivilDate

/-- The date is in the calendar. -/
structure Valid (date : CivilDate) : Prop where
  /-- There is such a month. -/
  month : 1 ≤ date.month ∧ date.month ≤ 12
  /-- The month has such a day. -/
  day : 1 ≤ date.day ∧ date.day ≤ daysInMonth date.year date.month

/-- The next day. -/
def next (date : CivilDate) : CivilDate :=
  if date.day < daysInMonth date.year date.month then ⟨date.year, date.month, date.day + 1⟩
  else if date.month < 12 then ⟨date.year, date.month + 1, 1⟩
  else ⟨date.year + 1, 1, 1⟩

/-- One date is earlier than another. -/
def Before (one other : CivilDate) : Prop :=
  one.year < other.year ∨ one.year = other.year ∧
    (one.month < other.month ∨ one.month = other.month ∧ one.day < other.day)

/-- The fields of a valid date are in their ranges. -/
theorem valid_mk (year month day : Int) : Valid ⟨year, month, day⟩ ↔
    (1 ≤ month ∧ month ≤ 12) ∧ 1 ≤ day ∧ day ≤ daysInMonth year month :=
  ⟨fun valid => ⟨valid.month, valid.day⟩, fun both => ⟨both.1, both.2⟩⟩

/-- The next day is in the calendar. -/
theorem Valid.next {date : CivilDate} (valid : date.Valid) : date.next.Valid := by
  obtain ⟨⟨first, last⟩, low, high⟩ := valid
  unfold CivilDate.next
  split_ifs with inside sameYear
  · rw [valid_mk]
    omega
  · have many := le_daysInMonth date.year (date.month + 1)
    rw [valid_mk]
    omega
  · have many := le_daysInMonth (date.year + 1) 1
    rw [valid_mk]
    omega

/-- The year that a date lies in when years begin on 1 March. -/
def marchYear (date : CivilDate) : Int := if date.month ≤ 2 then date.year - 1 else date.year

/-- The month, counted from March. -/
def marchMonth (date : CivilDate) : Int := if date.month ≤ 2 then date.month + 9 else date.month - 3

/-- Days from 1 March of the year 0 to 1 March of another year. -/
def yearStart (year : Int) : Int := 365 * year + year / 4 - year / 100 + year / 400

/-- Days from 1 March to the first day of a month, which is counted from March. -/
def monthStart (month : Int) : Int := (153 * month + 2) / 5

/-- The number of a day; 1 March of the year 0 is day 0. -/
def ordinal (date : CivilDate) : Int :=
  yearStart date.marchYear + monthStart date.marchMonth + date.day - 1

/-- A year has 365 or 366 days. -/
theorem yearStart_succ (year : Int) :
    yearStart (year + 1) = yearStart year + if IsLeap (year + 1) then 366 else 365 := by
  unfold yearStart IsLeap
  split_ifs with leap <;> omega

/-- Later years do not start earlier. -/
theorem yearStart_mono {one other : Int} (le : one ≤ other) : yearStart one ≤ yearStart other := by
  unfold yearStart
  omega

/-- The months from March to January are as long as their starts say; only February is shorter. -/
theorem monthStart_succ {date : CivilDate} (valid : date.Valid) (other : date.month ≠ 2) :
    monthStart (date.marchMonth + 1) =
      monthStart date.marchMonth + daysInMonth date.year date.month := by
  obtain ⟨year, month, day⟩ := date
  obtain ⟨⟨first, last⟩, -⟩ := valid
  simp only at first last other
  unfold monthStart marchMonth daysInMonth
  interval_cases month <;> first | rfl | exact absurd rfl other

/-- January and February belong to the year before. -/
@[simp] theorem marchYear_mk (year month day : Int) :
    marchYear ⟨year, month, day⟩ = if month ≤ 2 then year - 1 else year := rfl

/-- March is the month 0. -/
@[simp] theorem marchMonth_mk (year month day : Int) :
    marchMonth ⟨year, month, day⟩ = if month ≤ 2 then month + 9 else month - 3 := rfl

/-- The days before the year, before the month and before the day add up. -/
@[simp] theorem ordinal_mk (year month day : Int) : ordinal ⟨year, month, day⟩ =
    yearStart (marchYear ⟨year, month, day⟩) + monthStart (marchMonth ⟨year, month, day⟩) + day -
      1 := rfl

/-- The year of March of a date in February ends with it. -/
theorem yearStart_february {date : CivilDate} (february : date.month = 2) :
    yearStart (date.marchYear + 1) = yearStart date.marchYear + monthStart date.marchMonth +
      daysInMonth date.year date.month := by
  have same : date.marchYear + 1 = date.year := by
    unfold marchYear
    omega
  have start : monthStart date.marchMonth = 337 := by
    unfold marchMonth
    rw [february]
    rfl
  rw [yearStart_succ, same, start, february]
  unfold daysInMonth
  split_ifs <;> omega

/-- The number grows by one from each day to the next. -/
theorem Valid.ordinal_next {date : CivilDate} (valid : date.Valid) :
    date.next.ordinal = date.ordinal + 1 := by
  have high := valid.day.2
  have bounds := valid.month
  unfold CivilDate.next
  split_ifs with inside sameYear
  · rw [ordinal_mk]
    unfold ordinal
    simp only [marchYear_mk, marchMonth_mk]
    unfold marchYear marchMonth
    omega
  · by_cases february : date.month = 2
    · have whole := yearStart_february february
      have march : (⟨date.year, date.month + 1, 1⟩ : CivilDate).ordinal = yearStart date.year := by
        rw [ordinal_mk, marchYear_mk, marchMonth_mk, february]
        show yearStart date.year + 0 + 1 - 1 = _
        omega
      have same : date.marchYear + 1 = date.year := by
        unfold marchYear
        omega
      rw [march, ← same, whole]
      unfold ordinal
      omega
    · have succ := monthStart_succ valid february
      have year : marchYear ⟨date.year, date.month + 1, 1⟩ = date.marchYear := by
        rw [marchYear_mk]
        unfold marchYear
        split_ifs <;> omega
      have month : marchMonth ⟨date.year, date.month + 1, 1⟩ = date.marchMonth + 1 := by
        rw [marchMonth_mk]
        unfold marchMonth
        split_ifs <;> omega
      rw [ordinal_mk, year, month, succ]
      unfold ordinal
      omega
  · have december : date.month = 12 := by omega
    have succ := monthStart_succ valid (by omega)
    have year : marchYear ⟨date.year + 1, 1, 1⟩ = date.marchYear := by
      rw [marchYear_mk]
      unfold marchYear
      split_ifs <;> omega
    have month : marchMonth ⟨date.year + 1, 1, 1⟩ = date.marchMonth + 1 := by
      rw [marchMonth_mk]
      unfold marchMonth
      split_ifs <;> omega
    rw [ordinal_mk, year, month, succ]
    unfold ordinal
    omega

/-- A day lies within its month. -/
theorem Valid.day_le {date : CivilDate} (valid : date.Valid) :
    monthStart date.marchMonth + date.day ≤ monthStart (date.marchMonth + 1) := by
  have high := valid.day.2
  by_cases february : date.month = 2
  · have short : daysInMonth date.year date.month ≤ 29 := by
      unfold daysInMonth
      split_ifs <;> omega
    unfold monthStart marchMonth
    split_ifs <;> omega
  · rw [monthStart_succ valid february]
    omega

/-- A day lies within its year of March. -/
theorem Valid.day_in_year {date : CivilDate} (valid : date.Valid) :
    yearStart date.marchYear ≤ date.ordinal ∧ date.ordinal < yearStart (date.marchYear + 1) := by
  obtain ⟨low, high⟩ := valid.day
  have bounds := valid.month
  have start : 0 ≤ monthStart date.marchMonth := by
    unfold monthStart marchMonth
    split_ifs <;> omega
  by_cases february : date.month = 2
  · have whole := yearStart_february february
    unfold ordinal
    omega
  · have succ := monthStart_succ valid february
    have january : monthStart (date.marchMonth + 1) ≤ 337 := by
      unfold monthStart marchMonth
      split_ifs <;> omega
    have whole := yearStart_succ date.marchYear
    unfold ordinal
    split_ifs at whole <;> omega

/-- An earlier day has a smaller number. -/
theorem Before.ordinal_lt {one other : CivilDate} (before : Before one other) (valid : one.Valid)
    (valid' : other.Valid) : one.ordinal < other.ordinal := by
  have bounds := valid.month
  have bounds' := valid'.month
  have years : one.marchYear < other.marchYear ∨ one.marchYear = other.marchYear ∧
      (one.marchMonth < other.marchMonth ∨
        one.marchMonth = other.marchMonth ∧ one.day < other.day) := by
    unfold Before at before
    unfold marchYear marchMonth
    split_ifs <;> omega
  rcases years with year | ⟨year, month | ⟨month, day⟩⟩
  · have later := yearStart_mono (show one.marchYear + 1 ≤ other.marchYear by omega)
    have inside := valid.day_in_year
    have inside' := valid'.day_in_year
    omega
  · have notFebruary : one.month ≠ 2 := by
      intro february
      unfold marchMonth at month
      split_ifs at month <;> omega
    have succ := monthStart_succ valid notFebruary
    have mono : monthStart (one.marchMonth + 1) ≤ monthStart other.marchMonth := by
      unfold monthStart
      omega
    have high := valid.day.2
    have low' := valid'.day.1
    unfold ordinal
    rw [year]
    omega
  · unfold ordinal
    rw [year, month]
    omega

/-- Of two dates one is earlier, or they are the same. -/
theorem before_trichotomy (one other : CivilDate) :
    Before one other ∨ one = other ∨ Before other one := by
  obtain ⟨year, month, day⟩ := one
  obtain ⟨year', month', day'⟩ := other
  simp only [CivilDate.mk.injEq, Before]
  omega

/-- The numbers are in the order of the dates. -/
theorem ordinal_lt_iff {one other : CivilDate} (valid : one.Valid) (valid' : other.Valid) :
    one.ordinal < other.ordinal ↔ Before one other := by
  refine ⟨fun less => ?_, fun before => before.ordinal_lt valid valid'⟩
  rcases before_trichotomy one other with before | same | after
  · exact before
  · rw [same] at less
    omega
  · have greater := after.ordinal_lt valid' valid
    omega

/-- Different dates have different numbers. -/
theorem ordinal_inj {one other : CivilDate} (valid : one.Valid) (valid' : other.Valid)
    (same : one.ordinal = other.ordinal) : one = other := by
  rcases before_trichotomy one other with before | equal | after
  · have less := before.ordinal_lt valid valid'
    omega
  · exact equal
  · have greater := after.ordinal_lt valid' valid
    omega

/-- Every number from that of a date on is that of a date. -/
theorem Valid.exists_ordinal {date : CivilDate} (valid : date.Valid) {number : Int}
    (le : date.ordinal ≤ number) : ∃ later : CivilDate, later.Valid ∧ later.ordinal = number := by
  induction number, le using Int.leInduction with
  | base => exact ⟨date, valid, rfl⟩
  | succ number _ ih =>
    obtain ⟨later, inside, same⟩ := ih
    exact ⟨later.next, inside.next, by rw [inside.ordinal_next, same]⟩

/-- There are dates before every number. -/
theorem exists_ordinal_le (number : Int) :
    ∃ date : CivilDate, date.Valid ∧ date.ordinal ≤ number := by
  refine ⟨⟨-number.natAbs - 1, 3, 1⟩, (valid_mk _ _ _).mpr ?_, ?_⟩
  · have many := le_daysInMonth (-number.natAbs - 1) 3
    omega
  · rw [ordinal_mk, marchYear_mk, marchMonth_mk]
    unfold yearStart monthStart
    omega

/-- Every number is that of a date. -/
theorem exists_ordinal (number : Int) :
    ∃ date : CivilDate, date.Valid ∧ date.ordinal = number := by
  obtain ⟨date, valid, le⟩ := exists_ordinal_le number
  exact valid.exists_ordinal le

section inverse

variable {year a : Int}

/-- `b` is the century. -/
theorem century_of_days (low : yearStart year ≤ a)
    (high : a < yearStart (year + 1)) : (4 * a + 3) / 146097 = year / 100 := by
  obtain ⟨B, D, rfl, small⟩ : ∃ B D, year = 100 * B + D ∧ 0 ≤ D ∧ D ≤ 99 :=
    ⟨year / 100, year % 100, by omega, by omega, by omega⟩
  have fours : (100 * B + D) / 4 = 25 * B + D / 4 := by omega
  have century : (100 * B + D) / 100 = B := by omega
  have cycle : (100 * B + D) / 400 = B / 4 := by omega
  have fours' : (100 * B + D + 1) / 4 = 25 * B + (D + 1) / 4 := by omega
  unfold yearStart at low high
  rw [fours, century, cycle] at low
  rw [fours'] at high
  rw [century]
  have above : 146097 * B ≤ 4 * a + 3 := by omega
  have below : 4 * a + 3 < 146097 * (B + 1) := by
    by_cases last : D = 99
    · have century' : (100 * B + D + 1) / 100 = B + 1 := by omega
      have cycle' : (100 * B + D + 1) / 400 = (B + 1) / 4 := by omega
      rw [century', cycle'] at high
      omega
    · have century' : (100 * B + D + 1) / 100 = B := by omega
      have cycle' : (100 * B + D + 1) / 400 = B / 4 := by omega
      rw [century', cycle'] at high
      omega
  omega

/-- `c` counts the days of the century. -/
theorem days_of_century : a - year / 100 * 146097 / 4 =
    365 * (year % 100) + year % 100 / 4 + (a - yearStart year) := by
  unfold yearStart
  omega

/-- `d` is the year of the century. -/
theorem year_of_century (low : yearStart year ≤ a)
    (high : a < yearStart (year + 1)) :
    (4 * (365 * (year % 100) + year % 100 / 4 + (a - yearStart year)) + 3) / 1461 =
      year % 100 := by
  have whole := yearStart_succ year
  have leap : IsLeap (year + 1) → (year + 1) % 4 = 0 := fun leap => leap.1
  have long : a - yearStart year = 365 → year % 100 % 4 = 3 := by
    intro last
    split_ifs at whole with inLeap
    · have fourth := leap inLeap
      omega
    · omega
  split_ifs at whole <;> omega

/-- `m` is the month, counted from March. -/
theorem month_of_days {month e : Int} (low : monthStart month ≤ e)
    (high : e < monthStart (month + 1)) : (5 * e + 2) / 153 = month := by
  unfold monthStart at low high
  omega

end inverse


/-- The date that is some days after 1 March of a year, which has that day before its next March. -/
def ofMarch (year days : Int) : CivilDate :=
  let month := (5 * days + 2) / 153
  { day := days - (153 * month + 2) / 5 + 1
    month := month + 3 - 12 * (month / 10)
    year := year + month / 10 }

/-- A date is found from its year of March and the days in it. -/
theorem Valid.ofMarch {date : CivilDate} (valid : date.Valid) :
    ofMarch date.marchYear (date.ordinal - yearStart date.marchYear) = date := by
  obtain ⟨first, last⟩ := valid.month
  have days : date.ordinal - yearStart date.marchYear =
      monthStart date.marchMonth + date.day - 1 := by
    unfold ordinal
    omega
  have month : (5 * (monthStart date.marchMonth + date.day - 1) + 2) / 153 = date.marchMonth := by
    have begin := valid.day.1
    have finish := valid.day_le
    exact month_of_days (by omega) (by omega)
  unfold CivilDate.ofMarch
  simp only [days, month]
  obtain ⟨year, month, day⟩ := date
  simp only at first last
  rw [CivilDate.mk.injEq]
  unfold monthStart
  simp only [marchYear_mk, marchMonth_mk]
  split_ifs <;> omega

/-- The date of the number of a day: the century, the year of the century and the days in it. -/
def ofOrdinal (number : Int) : CivilDate :=
  let century := (4 * number + 3) / 146097
  let days := number - century * 146097 / 4
  let year := (4 * days + 3) / 1461
  ofMarch (century * 100 + year) (days - 1461 * year / 4)

/-- The date of the number of a date is that date. -/
theorem Valid.ofOrdinal {date : CivilDate} (valid : date.Valid) :
    ofOrdinal date.ordinal = date := by
  obtain ⟨low, high⟩ := valid.day_in_year
  have whole : date.marchYear / 100 * 100 + date.marchYear % 100 = date.marchYear := by omega
  have days : 365 * (date.marchYear % 100) + date.marchYear % 100 / 4 +
      (date.ordinal - yearStart date.marchYear) - 1461 * (date.marchYear % 100) / 4 =
      date.ordinal - yearStart date.marchYear := by omega
  unfold CivilDate.ofOrdinal
  simp only [century_of_days low high, days_of_century, year_of_century low high, whole, days]
  exact valid.ofMarch

/-- The date of a number is in the calendar, and its number is that number. -/
theorem valid_ofOrdinal (number : Int) :
    (CivilDate.ofOrdinal number).Valid ∧ (CivilDate.ofOrdinal number).ordinal = number := by
  obtain ⟨date, valid, rfl⟩ := exists_ordinal number
  rw [valid.ofOrdinal]
  exact ⟨valid, rfl⟩

end CivilDate

end BackendCpp.Library
