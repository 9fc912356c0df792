import BackendCpp.Library.Calendar

/-!
# Date.cc

Dates as Julian day numbers. `getJulianDayNumber` and `getYearMonthDay` compute with values of type
`int` and divide as C does, towards zero; a computation that overflows has no result. From 1 March of
the year -4800 to the end of the year 1460000 nothing that they divide is negative and nothing
overflows.
-/

namespace BackendCpp.MuduoLog

open BackendCpp.Library

/-- A value of type `int`. -/
def IsInt (x : Int) : Prop := -2147483648 ≤ x ∧ x ≤ 2147483647

instance (x : Int) : Decidable (IsInt x) :=
  inferInstanceAs (Decidable (-2147483648 ≤ x ∧ x ≤ 2147483647))

/-- The result of a computation that goes through some values of type `int`; nothing when one of them
overflows. -/
def ofInts {α : Type} (values : List Int) (result : α) : Option α :=
  if ∀ x ∈ values, IsInt x then some result else none

/-- Without overflow there is the result. -/
theorem ofInts_some {α : Type} {values : List Int} (fit : ∀ x ∈ values, IsInt x) (result : α) :
    ofInts values result = some result := if_pos fit

/-- `Date::YearMonthDay`. -/
abbrev YearMonthDay := CivilDate

/-- `getJulianDayNumber`. -/
def getJulianDayNumber (year month day : Int) : Option Int :=
  let a := (14 - month).tdiv 12
  let y := year + 4800 - a
  let m := month + 12 * a - 3
  let months := day + (153 * m + 2).tdiv 5
  let julianDayNumber := months + y * 365 + y.tdiv 4 - y.tdiv 100 + y.tdiv 400 - 32045
  ofInts [14 - month, year + 4800, y, 12 * a, month + 12 * a, m, 153 * m, 153 * m + 2, months,
    y * 365, months + y * 365, months + y * 365 + y.tdiv 4,
    months + y * 365 + y.tdiv 4 - y.tdiv 100,
    months + y * 365 + y.tdiv 4 - y.tdiv 100 + y.tdiv 400, julianDayNumber] julianDayNumber

/-- `getYearMonthDay`. -/
def getYearMonthDay (julianDayNumber : Int) : Option YearMonthDay :=
  let a := julianDayNumber + 32044
  let b := (4 * a + 3).tdiv 146097
  let c := a - (b * 146097).tdiv 4
  let d := (4 * c + 3).tdiv 1461
  let e := c - (1461 * d).tdiv 4
  let m := (5 * e + 2).tdiv 153
  let ymd : YearMonthDay :=
    { day := e - (153 * m + 2).tdiv 5 + 1
      month := m + 3 - 12 * m.tdiv 10
      year := b * 100 + d - 4800 + m.tdiv 10 }
  ofInts [a, 4 * a, 4 * a + 3, b * 146097, c, 4 * c, 4 * c + 3, 1461 * d, e, 5 * e, 5 * e + 2,
    153 * m, 153 * m + 2, e - (153 * m + 2).tdiv 5, ymd.day, m + 3, 12 * m.tdiv 10, ymd.month,
    b * 100, b * 100 + d, b * 100 + d - 4800, ymd.year] ymd

/-- `Date::kJulianDayOf1970_01_01`. -/
def kJulianDayOf1970_01_01 : Int := (getJulianDayNumber 1970 1 1).get (by decide)

/-- `Date::weekDay` of a Julian day number. -/
def weekDay (julianDayNumber : Int) : Option Int :=
  ofInts [julianDayNumber + 1] ((julianDayNumber + 1).tmod 7)

/-- The last year that the formulas are known to be right for. -/
def lastYear : Int := 1460000

/-- The Julian day number of the last day of that year. -/
def lastDay : Int := 534975475

/-- The first date that the formulas are right for is 1 March of the year -4800. -/
structure InRange (date : YearMonthDay) : Prop where
  /-- It is not before that date. -/
  low : -4800 ≤ date.marchYear
  /-- It is not after the last year. -/
  high : date.year ≤ lastYear

/-- The year of a date in range, counted from 4800 years before. -/
theorem InRange.years {date : YearMonthDay} (inRange : InRange date) :
    0 ≤ date.marchYear + 4800 ∧ date.marchYear + 4800 ≤ 1464800 := by
  have last : lastYear = 1460000 := rfl
  obtain ⟨low, high⟩ := inRange
  unfold CivilDate.marchYear at low ⊢
  split_ifs at low ⊢ <;> omega

/-- The Julian day number counts the days, and nothing overflows. -/
theorem getJulianDayNumber_ordinal {date : YearMonthDay} (valid : date.Valid)
    (inRange : InRange date) :
    getJulianDayNumber date.year date.month date.day = some (date.ordinal + 1721120) := by
  obtain ⟨first, last⟩ := valid.month
  obtain ⟨low, high⟩ := inRange.years
  have a : (14 - date.month).tdiv 12 = if date.month ≤ 2 then 1 else 0 := by
    rw [Int.tdiv_eq_ediv_of_nonneg (by omega)]
    split_ifs <;> omega
  have y : date.year + 4800 - (14 - date.month).tdiv 12 = date.marchYear + 4800 := by
    rw [a]
    unfold CivilDate.marchYear
    split_ifs <;> omega
  have m : date.month + 12 * (14 - date.month).tdiv 12 - 3 = date.marchMonth := by
    rw [a]
    unfold CivilDate.marchMonth
    split_ifs <;> omega
  have months : 0 ≤ date.marchMonth ∧ date.marchMonth ≤ 11 := by
    unfold CivilDate.marchMonth
    split_ifs <;> omega
  have days : 1 ≤ date.day ∧ date.day ≤ 31 := by
    have most := daysInMonth_le date.year date.month
    exact ⟨valid.day.1, by have high := valid.day.2; omega⟩
  have small : 0 ≤ (14 - date.month).tdiv 12 ∧ (14 - date.month).tdiv 12 ≤ 1 := by
    rw [a]
    split_ifs <;> omega
  unfold getJulianDayNumber
  simp only [y, m]
  generalize (14 - date.month).tdiv 12 = century at small y m
  rw [Int.tdiv_eq_ediv_of_nonneg (show 0 ≤ 153 * date.marchMonth + 2 by omega),
    Int.tdiv_eq_ediv_of_nonneg low, Int.tdiv_eq_ediv_of_nonneg low,
    Int.tdiv_eq_ediv_of_nonneg low, ofInts_some]
  · unfold CivilDate.ordinal CivilDate.yearStart CivilDate.monthStart
    rw [Option.some.injEq]
    omega
  · have year : date.year = date.marchYear + century := by omega
    have month : date.month = date.marchMonth + 3 - 12 * century := by omega
    rw [year, month]
    simp only [List.mem_cons, List.not_mem_nil, or_false, IsInt, forall_eq_or_imp, forall_eq]
    omega

/-- The date of the Julian day number of a date is that date, and nothing overflows. -/
theorem getYearMonthDay_ordinal {date : YearMonthDay} (valid : date.Valid)
    (inRange : InRange date) : getYearMonthDay (date.ordinal + 1721120) = some date := by
  obtain ⟨low, high⟩ := inRange.years
  have shift : ∀ year, CivilDate.yearStart (year + 4800) = CivilDate.yearStart year + 1753164 := by
    intro year
    unfold CivilDate.yearStart
    omega
  have next := shift (date.marchYear + 1)
  rw [show date.marchYear + 1 + 4800 = date.marchYear + 4800 + 1 by omega] at next
  obtain ⟨least, most⟩ := valid.day_in_year
  have after : CivilDate.yearStart (date.marchYear + 4800) ≤ date.ordinal + 1753164 := by
    rw [shift]
    omega
  have before : date.ordinal + 1753164 < CivilDate.yearStart (date.marchYear + 4800 + 1) := by
    rw [next]
    omega
  have positive : 0 ≤ CivilDate.yearStart (date.marchYear + 4800) ∧
      CivilDate.yearStart (date.marchYear + 4800 + 1) ≤ 535010000 := by
    unfold CivilDate.yearStart
    omega
  have whole := CivilDate.yearStart_succ (date.marchYear + 4800)
  have b := CivilDate.century_of_days after before
  have c := @CivilDate.days_of_century (date.marchYear + 4800) (date.ordinal + 1753164)
  have d := CivilDate.year_of_century after before
  have days : date.ordinal + 1753164 - CivilDate.yearStart (date.marchYear + 4800) =
      date.ordinal - CivilDate.yearStart date.marchYear := by
    rw [shift]
    omega
  rw [days] at c d
  have found := valid.ofMarch
  unfold CivilDate.ofMarch at found
  generalize date.ordinal - CivilDate.yearStart date.marchYear = e at c d days found
  have inYear : 0 ≤ e ∧ e ≤ 365 := by
    split_ifs at whole <;> omega
  have e' : 365 * ((date.marchYear + 4800) % 100) + (date.marchYear + 4800) % 100 / 4 + e -
      1461 * ((date.marchYear + 4800) % 100) / 4 = e := by omega
  have sum : (date.marchYear + 4800) / 100 * 100 + (date.marchYear + 4800) % 100 - 4800 =
      date.marchYear := by omega
  unfold getYearMonthDay
  simp only [show date.ordinal + 1721120 + 32044 = date.ordinal + 1753164 by omega,
    Int.tdiv_eq_ediv_of_nonneg (show 0 ≤ 4 * (date.ordinal + 1753164) + 3 by omega), b,
    Int.tdiv_eq_ediv_of_nonneg (show 0 ≤ (date.marchYear + 4800) / 100 * 146097 by omega), c,
    Int.tdiv_eq_ediv_of_nonneg (show 0 ≤ 4 * (365 * ((date.marchYear + 4800) % 100) +
      (date.marchYear + 4800) % 100 / 4 + e) + 3 by omega), d,
    Int.tdiv_eq_ediv_of_nonneg (show 0 ≤ 1461 * ((date.marchYear + 4800) % 100) by omega), e',
    Int.tdiv_eq_ediv_of_nonneg (show 0 ≤ 5 * e + 2 by omega),
    Int.tdiv_eq_ediv_of_nonneg (show 0 ≤ 153 * ((5 * e + 2) / 153) + 2 by omega),
    Int.tdiv_eq_ediv_of_nonneg (show 0 ≤ (5 * e + 2) / 153 by omega), sum]
  rw [ofInts_some, found]
  simp only [List.mem_cons, List.not_mem_nil, or_false, IsInt, forall_eq_or_imp, forall_eq]
  omega

/-- 1 March of the year -4800 has the Julian day number -32044. -/
theorem InRange.ordinal_ge {date : YearMonthDay} (inRange : InRange date) (valid : date.Valid) :
    -32044 ≤ date.ordinal + 1721120 := by
  have year := CivilDate.yearStart_mono inRange.low
  have start : CivilDate.yearStart (-4800) = -1753164 := by decide
  have inYear := valid.day_in_year
  omega

/-- The dates in range have the Julian day numbers from -32044 to `lastDay`. -/
theorem inRange_iff {date : YearMonthDay} (valid : date.Valid) :
    InRange date ↔ -32044 ≤ date.ordinal + 1721120 ∧ date.ordinal + 1721120 ≤ lastDay := by
  have after : (⟨lastYear + 1, 1, 1⟩ : CivilDate).Valid :=
    (CivilDate.valid_mk _ _ _).mpr (by decide)
  have number : (⟨lastYear + 1, 1, 1⟩ : CivilDate).ordinal = lastDay + 1 - 1721120 := by decide
  have order := CivilDate.ordinal_lt_iff valid after
  have month := valid.month
  have year : date.Before ⟨lastYear + 1, 1, 1⟩ ↔ date.year ≤ lastYear := by
    have day := valid.day.1
    simp only [CivilDate.Before]
    omega
  rw [number, year] at order
  constructor
  · intro inRange
    have begin := inRange.ordinal_ge valid
    have finish := order.mpr inRange.high
    omega
  · rintro ⟨begin, finish⟩
    refine ⟨?_, order.mp (by omega)⟩
    by_contra before
    have mono := CivilDate.yearStart_mono (show date.marchYear + 1 ≤ -4800 by omega)
    have inYear := valid.day_in_year
    have start : CivilDate.yearStart (-4800) = -1753164 := by decide
    omega

/-- A Julian day number in range is that of a date in range. -/
theorem exists_date {julianDayNumber : Int} (low : -32044 ≤ julianDayNumber)
    (high : julianDayNumber ≤ lastDay) :
    ∃ date : YearMonthDay, date.Valid ∧ InRange date ∧ date.ordinal + 1721120 = julianDayNumber := by
  obtain ⟨date, valid, same⟩ := CivilDate.exists_ordinal (julianDayNumber - 1721120)
  have number : date.ordinal + 1721120 = julianDayNumber := by omega
  refine ⟨date, valid, (inRange_iff valid).mpr ?_, number⟩
  rw [number]
  exact ⟨low, high⟩

/-- The day of the week, from the number 0 on. -/
theorem weekDay_eq {julianDayNumber : Int} (low : 0 ≤ julianDayNumber)
    (high : julianDayNumber < 2147483647) :
    weekDay julianDayNumber = some ((julianDayNumber + 1) % 7) := by
  unfold weekDay
  rw [Int.tmod_eq_emod_of_nonneg (by omega)]
  apply ofInts_some
  intro x member
  rw [List.mem_singleton.mp member]
  unfold IsInt
  omega

/-- From the Julian day number 536838868 on `getYearMonthDay` overflows. -/
theorem getYearMonthDay_overflow {julianDayNumber : Int} (large : 536838868 ≤ julianDayNumber) :
    getYearMonthDay julianDayNumber = none := by
  refine if_neg fun fit => ?_
  have high := fit (4 * (julianDayNumber + 32044)) (by simp)
  unfold IsInt at high
  omega

/-- From 1 March of the year -4800 to the end of the year 1460000 no computation overflows, and the
Julian day numbers are those of the Gregorian calendar: the number grows by one from each day to the
next and is the order of the dates, 1 January 2000 is 2451545, and `getYearMonthDay` is the inverse
of `getJulianDayNumber` in both directions; it overflows from the number 536838868 on. From the
number 0 to that before the greatest `int` `weekDay` goes through the week, and 1 January 2000 is a
Saturday. -/
theorem julian_day_numbers :
    (∀ date : YearMonthDay, date.Valid → InRange date → ∃ julianDayNumber,
      getJulianDayNumber date.year date.month date.day = some julianDayNumber ∧
      getYearMonthDay julianDayNumber = some date ∧
      (InRange date.next → getJulianDayNumber date.next.year date.next.month date.next.day =
        some (julianDayNumber + 1))) ∧
    (∀ one other : YearMonthDay, one.Valid → InRange one → other.Valid → InRange other →
      ∃ first second, getJulianDayNumber one.year one.month one.day = some first ∧
        getJulianDayNumber other.year other.month other.day = some second ∧
        (first < second ↔ one.Before other)) ∧
    (∀ julianDayNumber : Int, -32044 ≤ julianDayNumber → julianDayNumber ≤ lastDay →
      ∃ date : YearMonthDay, getYearMonthDay julianDayNumber = some date ∧ date.Valid ∧
        InRange date ∧ getJulianDayNumber date.year date.month date.day = some julianDayNumber) ∧
    (∀ julianDayNumber : Int, 536838868 ≤ julianDayNumber →
      getYearMonthDay julianDayNumber = none) ∧
    getJulianDayNumber 2000 1 1 = some 2451545 ∧ weekDay 2451545 = some 6 ∧
    (∀ julianDayNumber : Int, 0 ≤ julianDayNumber → julianDayNumber < 2147483646 → ∃ day,
      weekDay julianDayNumber = some day ∧ 0 ≤ day ∧ day < 7 ∧
        weekDay (julianDayNumber + 1) = some ((day + 1) % 7)) := by
  refine ⟨?_, ?_, ?_, fun _ => getYearMonthDay_overflow, by decide, by decide, ?_⟩
  · intro date valid inRange
    refine ⟨_, getJulianDayNumber_ordinal valid inRange, getYearMonthDay_ordinal valid inRange, ?_⟩
    intro inRange'
    rw [getJulianDayNumber_ordinal valid.next inRange', valid.ordinal_next, Option.some.injEq]
    omega
  · intro one other valid inRange valid' inRange'
    refine ⟨_, _, getJulianDayNumber_ordinal valid inRange,
      getJulianDayNumber_ordinal valid' inRange', ?_⟩
    rw [← CivilDate.ordinal_lt_iff valid valid']
    omega
  · intro julianDayNumber low high
    obtain ⟨date, valid, inRange, rfl⟩ := exists_date low high
    exact ⟨date, getYearMonthDay_ordinal valid inRange, valid, inRange,
      getJulianDayNumber_ordinal valid inRange⟩
  · intro julianDayNumber low high
    refine ⟨_, weekDay_eq low (by omega), by omega, by omega, ?_⟩
    rw [weekDay_eq (by omega) (by omega), Option.some.injEq]
    omega

/-- 29 February 2024 is followed by 1 March. -/
theorem julian_day_numbers_leap : ∃ julianDayNumber,
    getJulianDayNumber 2024 2 29 = some julianDayNumber ∧
      getYearMonthDay julianDayNumber = some ⟨2024, 2, 29⟩ ∧
      getJulianDayNumber 2024 3 1 = some (julianDayNumber + 1) := by
  obtain ⟨julianDayNumber, number, back, next⟩ := julian_day_numbers.1 ⟨2024, 2, 29⟩
    ((CivilDate.valid_mk _ _ _).mpr (by decide)) ⟨by decide, by decide⟩
  exact ⟨julianDayNumber, number, back, next ⟨by decide, by decide⟩⟩

end BackendCpp.MuduoLog
