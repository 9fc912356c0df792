import BackendCpp.MuduoLog.Date
import BackendCpp.MuduoLog.Text

/-!
# TimeZone.cc

Seconds since the epoch as broken-down time and back, in UTC and in a time zone. `toUtcTime` and
`fromUtcTime` compute with values of type `int`; a computation that overflows has no result.
`gmtime_r` and `timegm` belong to the C library, and are right for all dates of the calendar here. A
zone is a table of transitions, each with the type of local time that it begins; `findLocaltime`
looks a time up in it by the UTC times or by the local times.
-/

namespace BackendCpp.MuduoLog

open BackendCpp.Library

/-- `struct tm`. -/
structure Tm where
  /-- Seconds after the minute. -/
  tmSec : Int
  /-- Minutes after the hour. -/
  tmMin : Int
  /-- Hours since midnight. -/
  tmHour : Int
  /-- Day of the month, from 1. -/
  tmMday : Int
  /-- Months since January. -/
  tmMon : Int
  /-- Years since 1900. -/
  tmYear : Int
  /-- Days since Sunday. -/
  tmWday : Int
  /-- Days since 1 January. -/
  tmYday : Int
  /-- Daylight saving time is in force. -/
  tmIsdst : Bool
  /-- Seconds east of UTC. -/
  tmGmtoff : Int
  /-- Abbreviation of the zone. -/
  tmZone : List UInt8
  deriving DecidableEq

/-- The date of a broken-down time. -/
def Tm.date (tm : Tm) : YearMonthDay := ⟨tm.tmYear + 1900, tm.tmMon + 1, tm.tmMday⟩

/-- The second of the day of a broken-down time. -/
def Tm.second (tm : Tm) : Int := tm.tmHour * 3600 + tm.tmMin * 60 + tm.tmSec

/-- The number of the day of the epoch. -/
def epochDay : Int := (⟨1970, 1, 1⟩ : CivilDate).ordinal

/-- `gmtime_r` of the C library. -/
def gmtimeR (seconds : Int) : Tm :=
  let day := seconds / 86400
  let second := seconds % 86400
  let date := CivilDate.ofOrdinal (day + epochDay)
  { tmSec := second % 60, tmMin := second / 60 % 60, tmHour := second / 3600
    tmMday := date.day, tmMon := date.month - 1, tmYear := date.year - 1900
    tmWday := (day + 4) % 7
    tmYday := day + epochDay - (⟨date.year, 1, 1⟩ : CivilDate).ordinal
    tmIsdst := false, tmGmtoff := 0, tmZone := bytes "GMT" }

/-- `timegm` of the C library, on fields in their ranges. -/
def timegm (tm : Tm) : Int := (tm.date.ordinal - epochDay) * 86400 + tm.second

/-- `kSecondsPerDay`. -/
def kSecondsPerDay : Int := 24 * 60 * 60

/-- `static_cast<int>`. -/
def toInt (x : Int) : Int := (x + 2147483648) % 4294967296 - 2147483648

/-- `fillHMS`: hour, minute and second of the seconds of a day, which are not negative. -/
def fillHMS (seconds : Int) : Int × Int × Int :=
  let minutes := seconds / 60
  (minutes / 60, minutes % 60, seconds % 60)

/-- The seconds since midnight and the days since the epoch, as `TimeZone::toUtcTime` has them. -/
def splitDay (secondsSinceEpoch : Int) : Option (Int × Int) :=
  let seconds := toInt (secondsSinceEpoch.tmod kSecondsPerDay)
  let days := toInt (secondsSinceEpoch.tdiv kSecondsPerDay)
  if seconds < 0 then
    ofInts [seconds + kSecondsPerDay, days - 1] (seconds + kSecondsPerDay, days - 1)
  else some (seconds, days)

/-- `utc.tm_yday` of `TimeZone::toUtcTime`. -/
def dayOfYear (date : Int) (ymd : YearMonthDay) (yday : Bool) : Option Int :=
  if yday then
    (getJulianDayNumber ymd.year 1 1).bind fun startOfYear =>
      ofInts [date - startOfYear] (date - startOfYear)
  else some 0

/-- `TimeZone::toUtcTime`. -/
def toUtcTime (secondsSinceEpoch : Int) (yday : Bool) : Option Tm := do
  let (seconds, days) ← splitDay secondsSinceEpoch
  let (hour, minute, second) := fillHMS seconds
  let date ← ofInts [days + kJulianDayOf1970_01_01] (days + kJulianDayOf1970_01_01)
  let ymd ← getYearMonthDay date
  let wday ← weekDay date
  let yday ← dayOfYear date ymd yday
  ofInts [ymd.year - 1900, ymd.month - 1]
    { tmSec := second, tmMin := minute, tmHour := hour
      tmMday := ymd.day, tmMon := ymd.month - 1, tmYear := ymd.year - 1900
      tmWday := wday, tmYday := yday, tmIsdst := false, tmGmtoff := 0, tmZone := bytes "GMT" }

/-- `TimeZone::fromUtcTime` of six numbers. -/
def fromUtcTimeOf (year month day hour minute seconds : Int) : Option Int := do
  let julianDayNumber ← getJulianDayNumber year month day
  let secondsInDay ← ofInts [hour * 3600, minute * 60, hour * 3600 + minute * 60,
    hour * 3600 + minute * 60 + seconds] (hour * 3600 + minute * 60 + seconds)
  let days ← ofInts [julianDayNumber - kJulianDayOf1970_01_01]
    (julianDayNumber - kJulianDayOf1970_01_01)
  return days * kSecondsPerDay + secondsInDay

/-- `TimeZone::fromUtcTime`. -/
def fromUtcTime (utc : Tm) : Option Int := do
  let year ← ofInts [utc.tmYear + 1900] (utc.tmYear + 1900)
  let month ← ofInts [utc.tmMon + 1] (utc.tmMon + 1)
  fromUtcTimeOf year month utc.tmMday utc.tmHour utc.tmMin utc.tmSec

/-- `detail::Transition`. -/
structure Transition where
  /-- The time, in UTC. -/
  gmttime : Int
  /-- The local time after it. -/
  localtime : Int
  /-- The place of the type of local time that it begins. -/
  localtimeIdx : Nat
  deriving DecidableEq

/-- `detail::Comp`. -/
structure Comp where
  /-- The times in UTC are compared. -/
  compareGmt : Bool

/-- `Comp::operator()`. -/
def Comp.less (comp : Comp) (lhs rhs : Transition) : Bool :=
  if comp.compareGmt then lhs.gmttime < rhs.gmttime else lhs.localtime < rhs.localtime

/-- `Comp::equal`. -/
def Comp.equal (comp : Comp) (lhs rhs : Transition) : Bool :=
  if comp.compareGmt then lhs.gmttime = rhs.gmttime else lhs.localtime = rhs.localtime

/-- `detail::Localtime`. -/
structure Localtime where
  /-- Seconds east of UTC. -/
  gmtOffset : Int
  /-- It is daylight saving time. -/
  isDst : Bool
  /-- Where its abbreviation begins. -/
  arrbIdx : Nat
  deriving DecidableEq

/-- `TimeZone::Data`. -/
structure Data where
  /-- The transitions. -/
  transitions : List Transition
  /-- The types of local time. -/
  localtimes : List Localtime
  /-- The abbreviations, one after the other. -/
  abbreviation : List UInt8
  deriving DecidableEq

/-- `std::lower_bound`: the place of the first transition that is not less than the given one. -/
def lowerBound (comp : Comp) (transitions : List Transition) (sentry : Transition) : Nat :=
  transitions.findIdx fun transition => !comp.less transition sentry

/-- `detail::findLocaltime`; nothing when it reads outside a vector or fails its assertion. -/
def findLocaltime (data : Data) (sentry : Transition) (comp : Comp) : Option Localtime :=
  match data.transitions.head? with
  | none => data.localtimes.head?
  | some front =>
    if comp.less sentry front then data.localtimes.head?
    else
      let transI := lowerBound comp data.transitions sentry
      match data.transitions[transI]? with
      | some transition =>
        if comp.equal sentry transition then data.localtimes[transition.localtimeIdx]?
        else if transI = 0 then none
        else
          match data.transitions[transI - 1]? with
          | some previous => data.localtimes[previous.localtimeIdx]?
          | none => none
      | none =>
        match data.transitions.getLast? with
        | some back => data.localtimes[back.localtimeIdx]?
        | none => none

/-- The fields of a time in a type of local time. -/
def Localtime.tm (localTime : Localtime) (data : Data) (seconds : Int) : Tm :=
  { gmtimeR (seconds + localTime.gmtOffset) with
    tmIsdst := localTime.isDst
    tmGmtoff := localTime.gmtOffset
    tmZone := (data.abbreviation.drop localTime.arrbIdx).takeWhile (· ≠ 0) }

/-- `TimeZone::toLocalTime`. -/
def toLocalTime (data : Data) (seconds : Int) : Option Tm :=
  match findLocaltime data ⟨seconds, 0, 0⟩ ⟨true⟩ with
  | none => none
  | some localTime => some (localTime.tm data seconds)

/-- `TimeZone::fromLocalTime`. -/
def fromLocalTime (data : Data) (localTm : Tm) : Option Int :=
  let seconds := timegm localTm
  match findLocaltime data ⟨0, seconds, 0⟩ ⟨false⟩ with
  | none => none
  | some localTime =>
    if localTm.tmIsdst then
      match toLocalTime data (seconds - localTime.gmtOffset) with
      | none => none
      | some tryTm =>
        if !tryTm.tmIsdst && tryTm.tmHour == localTm.tmHour && tryTm.tmMin == localTm.tmMin then
          some (seconds - 3600 - localTime.gmtOffset)
        else some (seconds - localTime.gmtOffset)
    else some (seconds - localTime.gmtOffset)

/-- Midnight of 1 March of the year -4800. -/
def firstSecond : Int := (-32044 - kJulianDayOf1970_01_01) * kSecondsPerDay

/-- The last second of the last year. -/
def lastSecond : Int := (lastDay + 1 - kJulianDayOf1970_01_01) * kSecondsPerDay - 1

/-- A broken-down time with all six fields in their ranges. -/
structure Tm.Valid (tm : Tm) : Prop where
  /-- The date is in the calendar. -/
  date : tm.date.Valid
  /-- There is such an hour. -/
  hour : 0 ≤ tm.tmHour ∧ tm.tmHour < 24
  /-- There is such a minute. -/
  min : 0 ≤ tm.tmMin ∧ tm.tmMin < 60
  /-- There is such a second. -/
  sec : 0 ≤ tm.tmSec ∧ tm.tmSec < 60

/-- The epoch is a day of the calendar. -/
theorem epochDay_eq : epochDay = 719468 ∧ kJulianDayOf1970_01_01 = 2440588 := by decide

section library

variable {seconds : Int} {tm : Tm}

/-- The second of the day of a time. -/
theorem gmtimeR_second (seconds : Int) : (gmtimeR seconds).second = seconds % 86400 := by
  unfold gmtimeR Tm.second
  simp only
  omega

/-- The date of a time is that of its day. -/
theorem gmtimeR_date (seconds : Int) :
    (gmtimeR seconds).date = CivilDate.ofOrdinal (seconds / 86400 + epochDay) := by
  unfold gmtimeR Tm.date
  simp only [Int.sub_add_cancel]

/-- The six fields of a time are in their ranges. -/
theorem gmtimeR_valid (seconds : Int) : (gmtimeR seconds).Valid := by
  refine ⟨?_, ?_, ?_, ?_⟩
  · rw [gmtimeR_date]
    exact (CivilDate.valid_ofOrdinal _).1
  all_goals
    unfold gmtimeR
    simp only
    omega

/-- Month and day of valid fields. -/
theorem Tm.Valid.bounds (valid : tm.Valid) :
    (0 ≤ tm.tmMon ∧ tm.tmMon ≤ 11) ∧ 1 ≤ tm.tmMday ∧ tm.tmMday ≤ 31 := by
  have month : 1 ≤ tm.tmMon + 1 ∧ tm.tmMon + 1 ≤ 12 := valid.date.month
  have day : 1 ≤ tm.tmMday ∧ tm.tmMday ≤ daysInMonth (tm.tmYear + 1900) (tm.tmMon + 1) :=
    valid.date.day
  have most := daysInMonth_le (tm.tmYear + 1900) (tm.tmMon + 1)
  omega

/-- Valid fields are a second of the day. -/
theorem Tm.Valid.second_bounds (valid : tm.Valid) : 0 ≤ tm.second ∧ tm.second < 86400 := by
  obtain ⟨-, hour, min, sec⟩ := valid
  unfold Tm.second
  omega

/-- `timegm` undoes `gmtime_r`. -/
theorem timegm_gmtimeR (seconds : Int) : timegm (gmtimeR seconds) = seconds := by
  unfold timegm
  rw [gmtimeR_second, gmtimeR_date, (CivilDate.valid_ofOrdinal _).2]
  omega

/-- `gmtime_r` undoes `timegm` on valid fields. -/
theorem Tm.Valid.gmtimeR (valid : tm.Valid) : (gmtimeR (timegm tm)).date = tm.date ∧
    (MuduoLog.gmtimeR (timegm tm)).tmHour = tm.tmHour ∧
    (MuduoLog.gmtimeR (timegm tm)).tmMin = tm.tmMin ∧
    (MuduoLog.gmtimeR (timegm tm)).tmSec = tm.tmSec := by
  have bounds := valid.second_bounds
  have second : (MuduoLog.gmtimeR (timegm tm)).second = tm.second := by
    rw [gmtimeR_second]
    unfold timegm
    omega
  have date : (MuduoLog.gmtimeR (timegm tm)).date = tm.date := by
    have day : timegm tm / 86400 + epochDay = tm.date.ordinal := by
      unfold timegm
      omega
    rw [gmtimeR_date, day, valid.date.ofOrdinal]
  obtain ⟨-, hour, min, sec⟩ := gmtimeR_valid (timegm tm)
  obtain ⟨-, hour', min', sec'⟩ := valid
  unfold Tm.second at second
  exact ⟨date, by omega, by omega, by omega⟩

/-- The times of valid fields are in the order of the dates and of the seconds of the day. -/
theorem Tm.Valid.timegm_lt_iff {one other : Tm} (valid : one.Valid) (valid' : other.Valid) :
    timegm one < timegm other ↔
      one.date.Before other.date ∨ one.date = other.date ∧ one.second < other.second := by
  have bounds := valid.second_bounds
  have bounds' := valid'.second_bounds
  rw [← CivilDate.ordinal_lt_iff valid.date valid'.date]
  unfold timegm
  constructor
  · intro less
    by_cases earlier : one.date.ordinal < other.date.ordinal
    · exact Or.inl earlier
    · exact Or.inr ⟨CivilDate.ordinal_inj valid.date valid'.date (by omega), by omega⟩
  · rintro (earlier | ⟨same, earlier⟩)
    · omega
    · rw [same]
      omega

end library

section utc

variable {secondsSinceEpoch : Int} {tm : Tm}

/-- A value of type `int` is not changed. -/
theorem toInt_eq {x : Int} (fits : IsInt x) : toInt x = x := by
  unfold IsInt at fits
  unfold toInt
  omega

/-- Seconds and days of a time: the division of C corrected to that of a calendar. -/
theorem splitDay_eq (low : firstSecond ≤ secondsSinceEpoch) (high : secondsSinceEpoch ≤ lastSecond) :
    splitDay secondsSinceEpoch = some (secondsSinceEpoch % 86400, secondsSinceEpoch / 86400) := by
  have first : firstSecond = -213635404800 := by decide
  have last : lastSecond = 46011014323199 := by decide
  have day : kSecondsPerDay = 86400 := rfl
  have back := Int.tmod_add_tdiv_mul secondsSinceEpoch 86400
  have small := Int.tmod_lt_of_pos secondsSinceEpoch (show (0 : Int) < 86400 by decide)
  have large := Int.lt_tmod_of_pos secondsSinceEpoch (show (0 : Int) < 86400 by decide)
  unfold splitDay
  simp only [day]
  rw [toInt_eq (show IsInt (secondsSinceEpoch.tmod 86400) by unfold IsInt; omega),
    toInt_eq (show IsInt (secondsSinceEpoch.tdiv 86400) by unfold IsInt; omega)]
  split_ifs
  · rw [ofInts_some, Option.some.injEq, Prod.mk.injEq]
    · omega
    · simp only [List.mem_cons, List.not_mem_nil, or_false, IsInt, forall_eq_or_imp, forall_eq]
      omega
  · rw [Option.some.injEq, Prod.mk.injEq]
    omega

/-- The day of the year of a date in range has a value. -/
theorem exists_dayOfYear {date : YearMonthDay} (valid : date.Valid) (inRange : InRange date)
    (yday : Bool) : ∃ day, dayOfYear (date.ordinal + 1721120) date yday = some day := by
  unfold dayOfYear
  cases yday with
  | false => exact ⟨0, rfl⟩
  | true =>
    have last : lastDay = 534975475 := rfl
    obtain ⟨low, high⟩ := (inRange_iff valid).mp inRange
    obtain ⟨startOfYear, found, least, most⟩ : ∃ startOfYear,
        getJulianDayNumber date.year 1 1 = some startOfYear ∧ -32500 ≤ startOfYear ∧
          startOfYear ≤ lastDay := by
      by_cases first : date.year = -4800
      · rw [first]
        exact ⟨-32103, by decide, by decide, by decide⟩
      · have new : (⟨date.year, 1, 1⟩ : CivilDate).Valid := by
          have many := le_daysInMonth date.year 1
          exact (CivilDate.valid_mk _ _ _).mpr ⟨by decide, by decide, by omega⟩
        have years : InRange ⟨date.year, 1, 1⟩ := by
          refine ⟨?_, inRange.high⟩
          have before := inRange.low
          unfold CivilDate.marchYear at before
          show -4800 ≤ date.year - 1
          split_ifs at before <;> omega
        obtain ⟨least, most⟩ := (inRange_iff new).mp years
        exact ⟨_, getJulianDayNumber_ordinal new years, by omega, most⟩
    refine ⟨date.ordinal + 1721120 - startOfYear, ?_⟩
    rw [if_pos rfl, found, Option.bind_some]
    apply ofInts_some
    intro x member
    rw [List.mem_singleton.mp member]
    unfold IsInt
    omega

/-- `TimeZone::toUtcTime` has the six fields of `gmtime_r`. -/
theorem toUtcTime_some (low : firstSecond ≤ secondsSinceEpoch)
    (high : secondsSinceEpoch ≤ lastSecond) (yday : Bool) :
    ∃ wday day, toUtcTime secondsSinceEpoch yday =
      some { gmtimeR secondsSinceEpoch with tmWday := wday, tmYday := day } := by
  have first : firstSecond = -213635404800 := by decide
  have last : lastSecond = 46011014323199 := by decide
  have final : lastDay = 534975475 := rfl
  obtain ⟨epoch, number⟩ := epochDay_eq
  obtain ⟨date, valid, inRange, same⟩ := exists_date
    (show -32044 ≤ secondsSinceEpoch / 86400 + 2440588 by omega) (by omega)
  have here : CivilDate.ofOrdinal (secondsSinceEpoch / 86400 + epochDay) = date := by
    rw [show secondsSinceEpoch / 86400 + epochDay = date.ordinal by omega, valid.ofOrdinal]
  obtain ⟨day, dayOf⟩ := exists_dayOfYear valid inRange yday
  have years := inRange.high
  have least := inRange.low
  have latest : lastYear = 1460000 := rfl
  have month := valid.month
  refine ⟨(date.ordinal + 1721120 + 1).tmod 7, day, ?_⟩
  unfold toUtcTime
  rw [splitDay_eq low high]
  have day' : secondsSinceEpoch / 86400 + kJulianDayOf1970_01_01 = date.ordinal + 1721120 := by
    omega
  have fits : IsInt (date.ordinal + 1721120) := by
    unfold IsInt
    omega
  have week : weekDay (date.ordinal + 1721120) =
      some ((date.ordinal + 1721120 + 1).tmod 7) := by
    apply ofInts_some
    intro x member
    rw [List.mem_singleton.mp member]
    unfold IsInt
    omega
  have shifted : ∀ x ∈ [date.year - 1900, date.month - 1], IsInt x := by
    unfold CivilDate.marchYear at least
    simp only [List.mem_cons, List.not_mem_nil, or_false, IsInt, forall_eq_or_imp, forall_eq]
    split_ifs at least <;> omega
  simp only [Option.bind_eq_bind, Option.bind_some, fillHMS, day',
    ofInts_some (List.forall_mem_singleton.mpr fits), getYearMonthDay_ordinal valid inRange, week,
    dayOf, ofInts_some shifted]
  have hour : secondsSinceEpoch % 86400 / 60 / 60 = secondsSinceEpoch % 86400 / 3600 := by omega
  unfold gmtimeR
  simp only [here, hour]

/-- `TimeZone::fromUtcTime` is `timegm` on valid fields. -/
theorem fromUtcTime_some (valid : tm.Valid) (inRange : InRange tm.date) :
    fromUtcTime tm = some (timegm tm) ∧ firstSecond ≤ timegm tm ∧ timegm tm ≤ lastSecond := by
  have first : firstSecond = -213635404800 := by decide
  have last : lastSecond = 46011014323199 := by decide
  have final : lastDay = 534975475 := rfl
  obtain ⟨epoch, number⟩ := epochDay_eq
  obtain ⟨low, high⟩ := (inRange_iff valid.date).mp inRange
  have bounds := valid.second_bounds
  have month := valid.bounds
  have years := inRange.years
  obtain ⟨date, hour, min, sec⟩ := id valid
  have year : IsInt (tm.tmYear + 1900) := by
    have lower := inRange.low
    have upper : tm.tmYear + 1900 ≤ lastYear := inRange.high
    have latest : lastYear = 1460000 := rfl
    have same : tm.date.year = tm.tmYear + 1900 := rfl
    unfold CivilDate.marchYear at lower
    rw [same] at lower
    unfold IsInt
    split_ifs at lower <;> omega
  have month' : IsInt (tm.tmMon + 1) := by
    unfold IsInt
    omega
  have second : ∀ x ∈ [tm.tmHour * 3600, tm.tmMin * 60, tm.tmHour * 3600 + tm.tmMin * 60,
      tm.tmHour * 3600 + tm.tmMin * 60 + tm.tmSec], IsInt x := by
    simp only [List.mem_cons, List.not_mem_nil, or_false, IsInt, forall_eq_or_imp, forall_eq]
    omega
  have day : IsInt (tm.date.ordinal + 1721120 - kJulianDayOf1970_01_01) := by
    unfold IsInt
    omega
  have found := getJulianDayNumber_ordinal date inRange
  unfold Tm.date at found
  simp only at found
  refine ⟨?_, ?_⟩
  · unfold fromUtcTime fromUtcTimeOf
    simp only [Option.bind_eq_bind, ofInts_some (List.forall_mem_singleton.mpr year),
      ofInts_some (List.forall_mem_singleton.mpr month'), Option.bind_some, found,
      ofInts_some second]
    change (ofInts [tm.date.ordinal + 1721120 - kJulianDayOf1970_01_01]
      (tm.date.ordinal + 1721120 - kJulianDayOf1970_01_01)).bind _ = _
    rw [ofInts_some (List.forall_mem_singleton.mpr day), Option.bind_some]
    change some ((tm.date.ordinal + 1721120 - kJulianDayOf1970_01_01) * 86400 + _) = some _
    rw [Option.some.injEq]
    unfold timegm Tm.second
    omega
  · unfold timegm
    omega

end utc

/-- From midnight of 1 March of the year -4800 to the end of the year 1460000 nothing overflows in
`TimeZone::toUtcTime` and `TimeZone::fromUtcTime`, and they are inverse to each other: every time has
valid fields, from which it comes back, valid fields come back from their time, and the times are in
the order of the dates and of the seconds of the day. -/
theorem utc_round_trip :
    (∀ (secondsSinceEpoch : Int) (yday : Bool), firstSecond ≤ secondsSinceEpoch →
      secondsSinceEpoch ≤ lastSecond → ∃ tm, toUtcTime secondsSinceEpoch yday = some tm ∧
        tm.Valid ∧ InRange tm.date ∧ fromUtcTime tm = some secondsSinceEpoch) ∧
    (∀ (tm : Tm) (yday : Bool), tm.Valid → InRange tm.date → ∃ secondsSinceEpoch utc,
      fromUtcTime tm = some secondsSinceEpoch ∧ firstSecond ≤ secondsSinceEpoch ∧
        secondsSinceEpoch ≤ lastSecond ∧ toUtcTime secondsSinceEpoch yday = some utc ∧
        utc.date = tm.date ∧ utc.tmHour = tm.tmHour ∧ utc.tmMin = tm.tmMin ∧
        utc.tmSec = tm.tmSec) ∧
    (∀ one other : Tm, one.Valid → InRange one.date → other.Valid → InRange other.date →
      ∃ first second, fromUtcTime one = some first ∧ fromUtcTime other = some second ∧
        (first < second ↔
          one.date.Before other.date ∨ one.date = other.date ∧ one.second < other.second)) := by
  refine ⟨?_, ?_, ?_⟩
  · intro secondsSinceEpoch yday low high
    obtain ⟨wday, day, made⟩ := toUtcTime_some low high yday
    obtain ⟨date, hour, min, sec⟩ := gmtimeR_valid secondsSinceEpoch
    have valid : Tm.Valid { gmtimeR secondsSinceEpoch with tmWday := wday, tmYday := day } :=
      ⟨date, hour, min, sec⟩
    have inRange : InRange (gmtimeR secondsSinceEpoch).date := by
      have first : firstSecond = -213635404800 := by decide
      have last : lastSecond = 46011014323199 := by decide
      have final : lastDay = 534975475 := rfl
      obtain ⟨epoch, -⟩ := epochDay_eq
      rw [inRange_iff date, gmtimeR_date, (CivilDate.valid_ofOrdinal _).2]
      omega
    refine ⟨_, made, valid, inRange, (fromUtcTime_some valid inRange).1.trans ?_⟩
    exact congrArg some (timegm_gmtimeR secondsSinceEpoch)
  · intro tm yday valid inRange
    obtain ⟨time, low, high⟩ := fromUtcTime_some valid inRange
    obtain ⟨wday, day, made⟩ := toUtcTime_some low high yday
    exact ⟨_, _, time, low, high, made, valid.gmtimeR⟩
  · intro one other valid inRange valid' inRange'
    exact ⟨_, _, (fromUtcTime_some valid inRange).1, (fromUtcTime_some valid' inRange').1,
      valid.timegm_lt_iff valid'⟩

/-- One second before the epoch. -/
theorem utc_round_trip_negative : ∃ tm, toUtcTime (-1) false = some tm ∧
    tm.date = ⟨1969, 12, 31⟩ ∧ tm.Valid ∧ fromUtcTime tm = some (-1) := by
  obtain ⟨tm, made, valid, -, back⟩ := utc_round_trip.1 (-1) false (by decide) (by decide)
  have date : (toUtcTime (-1) false).map Tm.date = some ⟨1969, 12, 31⟩ := by decide
  rw [made, Option.map_some, Option.some.injEq] at date
  exact ⟨tm, made, date, valid, back⟩

/-- From 2^31 days after the epoch on the days are narrowed to days long before it, for which
`getYearMonthDay` overflows. -/
example : toUtcTime (2147483648 * 86400) false = none := by decide

end BackendCpp.MuduoLog
