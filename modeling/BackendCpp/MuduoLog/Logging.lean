import BackendCpp.MuduoLog.LocalTime
import BackendCpp.MuduoLog.LogStream

/-!
# Logging.cc

A `Logger` makes one line: the time, the thread, the level, what the caller puts into the stream, and
the place in the source. The text of the last second is kept by each thread, and is formatted anew
only when the second changes. What the constructor and the destructor put into the stream are items
like those of the caller.
-/

namespace BackendCpp.MuduoLog

open BackendCpp.Library

/-- `Logger::LogLevel`. -/
inductive LogLevel where
  | trace | debug | info | warn | error | fatal
  deriving DecidableEq

/-- `LogLevelName`. -/
def logLevelName : LogLevel → List UInt8
  | .trace => bytes "TRACE "
  | .debug => bytes "DEBUG "
  | .info => bytes "INFO  "
  | .warn => bytes "WARN  "
  | .error => bytes "ERROR "
  | .fatal => bytes "FATAL "

/-- `Logger::SourceFile`: what comes after the last slash. -/
def sourceFile (file : List UInt8) : List UInt8 := (file.reverse.takeWhile (· ≠ 47)).reverse

/-- `Timestamp::kMicroSecondsPerSecond`. -/
def kMicroSecondsPerSecond : Int := 1000 * 1000

/-- `t_time` and `t_lastSecond` of a thread. -/
structure ThreadTime where
  /-- `t_time`. -/
  time : List UInt8
  /-- `t_lastSecond`. -/
  lastSecond : Int
  deriving DecidableEq

/-- What `formatTime` prints into `t_time`. -/
def timeText (tm : Tm) : List UInt8 :=
  fill 32 4 (integer (tm.tmYear + 1900)) ++ (zeroPadded 2 (tm.tmMon + 1) ++
    (zeroPadded 2 tm.tmMday ++ (bytes " " ++ (zeroPadded 2 tm.tmHour ++ (bytes ":" ++
      (zeroPadded 2 tm.tmMin ++ (bytes ":" ++ zeroPadded 2 tm.tmSec)))))))

/-- The time of a log line, in `g_logTimeZone` when it is valid, or else by `gmtime_r`. -/
def brokenDown (zone : Option Data) (seconds : Int) : Option Tm :=
  match zone with
  | some data => toLocalTime data seconds
  | none => some (gmtimeR seconds)

/-- `t_time` after the test of `formatTime`; nothing when its assertion fails. -/
def refresh (zone : Option Data) (thread : ThreadTime) (seconds : Int) : Option ThreadTime :=
  if seconds ≠ thread.lastSecond then
    match brokenDown zone seconds with
    | none => none
    | some tm => if (timeText tm).length = 17 then some ⟨timeText tm, seconds⟩ else none
  else some thread

/-- The microseconds as `formatTime` prints them. -/
def microText (zone : Option Data) (microseconds : Int) : List UInt8 :=
  bytes "." ++ zeroPadded 6 microseconds ++ if zone.isSome then bytes " " else bytes "Z "

/-- `Logger::Impl::formatTime`: the two items it puts into the stream; nothing when an assertion
fails, its own or that of `T`. -/
def formatTime (zone : Option Data) (thread : ThreadTime) (time : Int) :
    Option (ThreadTime × List Item) :=
  let seconds := time.tdiv kMicroSecondsPerSecond
  let us := microText zone (time.tmod kMicroSecondsPerSecond)
  match refresh zone thread seconds with
  | none => none
  | some thread =>
    if us.length = (if zone.isSome then 8 else 9) ∧ thread.time.length = 17 then
      some (thread, [.string thread.time, .string us])
    else none

/-- What one use of a `LOG` macro gives to the logger. -/
structure LogCall where
  /-- Microseconds since the epoch, from `Timestamp::now`. -/
  time : Int
  /-- Level. -/
  level : LogLevel
  /-- `savedErrno`, with its text, when it is not zero. -/
  savedErrno : Option (Int32 × List UInt8)
  /-- Name of the function, when the macro gives it. -/
  func : Option (List UInt8)
  /-- What the caller puts into the stream. -/
  items : List Item
  /-- `__FILE__`. -/
  file : List UInt8
  /-- `__LINE__`. -/
  line : Int32

/-- `t_tidString`. -/
def tidString (tid : Nat) : List UInt8 := fill 32 5 (integer tid) ++ bytes " "

/-- What the constructor puts into the stream after the time. -/
def LogCall.begin (call : LogCall) (tid : Nat) : List Item :=
  [.string (tidString tid), .string (logLevelName call.level)] ++
    (match call.savedErrno with
      | some (savedErrno, text) => [.cString (some text), .cString (some (bytes " (errno=")),
          .int savedErrno, .cString (some (bytes ") "))]
      | none => []) ++
    (match call.func with
      | some func => [.cString (some func), .char 32]
      | none => [])

/-- `Logger::Impl::finish`. -/
def LogCall.finish (call : LogCall) : List Item :=
  [.cString (some (bytes " - ")), .string (sourceFile call.file), .char 58, .int call.line,
    .char 10]

/-- A `Logger` from its constructor to the call of `g_output` in its destructor. -/
def logLine (zone : Option Data) (tid : Nat) (thread : ThreadTime) (call : LogCall) :
    Option (ThreadTime × List UInt8) :=
  match formatTime zone thread call.time with
  | none => none
  | some (thread, header) =>
    some (thread, ((header ++ call.begin tid ++ call.items ++ call.finish).foldl LogStream.put
      ⟨.empty⟩).buffer.data)

/-- The lines of a thread, one after the other. -/
def logLines (zone : Option Data) (tid : Nat) :
    ThreadTime → List LogCall → Option (List (List UInt8))
  | _, [] => some []
  | thread, call :: rest =>
    match logLine zone tid thread call with
    | none => none
    | some (thread, line) => (logLines zone tid thread rest).map (line :: ·)

/-- Fields that `formatTime` prints in 17 characters. -/
structure Printable (tm : Tm) : Prop where
  /-- The fields are in their ranges. -/
  valid : tm.Valid
  /-- The year has at most four digits. -/
  year : 0 ≤ tm.tmYear + 1900 ∧ tm.tmYear + 1900 < 10000

section text

variable {one other : Tm}

/-- The year fills its field. -/
theorem Printable.length_year (printable : Printable one) :
    (fill 32 4 (integer (one.tmYear + 1900))).length = 4 := by
  obtain ⟨low, high⟩ := printable.year
  have short : (decimal (one.tmYear + 1900).natAbs).length ≤ 4 :=
    length_decimal_le (by decide) (by omega)
  unfold integer fill
  rw [if_neg (by omega), List.length_append, List.length_replicate]
  omega

/-- Month, day, hour, minute and second fill their fields. -/
theorem Tm.Valid.lengths (valid : one.Valid) : (zeroPadded 2 (one.tmMon + 1)).length = 2 ∧
    (zeroPadded 2 one.tmMday).length = 2 ∧ (zeroPadded 2 one.tmHour).length = 2 ∧
    (zeroPadded 2 one.tmMin).length = 2 ∧ (zeroPadded 2 one.tmSec).length = 2 := by
  obtain ⟨month, day⟩ := valid.bounds
  obtain ⟨-, hour, min, sec⟩ := valid
  exact ⟨length_zeroPadded (by decide) (by omega) (by omega),
    length_zeroPadded (by decide) (by omega) (by omega),
    length_zeroPadded (by decide) (by omega) (by omega),
    length_zeroPadded (by decide) (by omega) (by omega),
    length_zeroPadded (by decide) (by omega) (by omega)⟩

/-- The time is known from the texts of its fields. -/
theorem Tm.Valid.timegm_congr (valid : one.Valid) (valid' : other.Valid)
    (year : one.tmYear = other.tmYear)
    (month : zeroPadded 2 (one.tmMon + 1) = zeroPadded 2 (other.tmMon + 1))
    (day : zeroPadded 2 one.tmMday = zeroPadded 2 other.tmMday)
    (hour : zeroPadded 2 one.tmHour = zeroPadded 2 other.tmHour)
    (min : zeroPadded 2 one.tmMin = zeroPadded 2 other.tmMin)
    (sec : zeroPadded 2 one.tmSec = zeroPadded 2 other.tmSec) :
    timegm one = timegm other := by
  have bounds := valid.bounds
  have bounds' := valid'.bounds
  obtain ⟨-, inHour, inMin, inSec⟩ := valid
  obtain ⟨-, inHour', inMin', inSec'⟩ := valid'
  have sameMonth := zeroPadded_inj (by omega) (by omega) month
  unfold timegm Tm.date Tm.second
  rw [year, show one.tmMon = other.tmMon by omega, zeroPadded_inj (by omega) (by omega) day,
    zeroPadded_inj inHour.1 inHour'.1 hour, zeroPadded_inj inMin.1 inMin'.1 min,
    zeroPadded_inj inSec.1 inSec'.1 sec]

/-- The text of the time has 17 characters. -/
theorem Printable.length_timeText (printable : Printable one) : (timeText one).length = 17 := by
  obtain ⟨month, day, hour, min, sec⟩ := printable.valid.lengths
  unfold timeText
  simp only [List.length_append, printable.length_year, month, day, hour, min, sec]
  decide

/-- The fields are read back from the text. -/
theorem timeText_inj (printable : Printable one) (printable' : Printable other)
    (same : timeText one = timeText other) : timegm one = timegm other := by
  obtain ⟨month, day, hour, min, sec⟩ := printable.valid.lengths
  obtain ⟨month', day', hour', min', sec'⟩ := printable'.valid.lengths
  unfold timeText at same
  obtain ⟨years, same⟩ := List.append_inj same
    (printable.length_year.trans printable'.length_year.symm)
  obtain ⟨months, same⟩ := List.append_inj same (month.trans month'.symm)
  obtain ⟨days, same⟩ := List.append_inj same (day.trans day'.symm)
  obtain ⟨-, same⟩ := List.append_inj same rfl
  obtain ⟨hours, same⟩ := List.append_inj same (hour.trans hour'.symm)
  obtain ⟨-, same⟩ := List.append_inj same rfl
  obtain ⟨mins, same⟩ := List.append_inj same (min.trans min'.symm)
  obtain ⟨-, secs⟩ := List.append_inj same rfl
  have year : one.tmYear = other.tmYear := by
    have inYear := printable.year
    have inYear' := printable'.year
    unfold integer at years
    rw [if_neg (by omega), if_neg (by omega)] at years
    have equal := fill_decimal_inj years
    omega
  exact printable.valid.timegm_congr printable'.valid year months days hours mins secs

end text

/-- The text of a second, formatted anew. -/
def freshText (zone : Option Data) (seconds : Int) : List UInt8 :=
  match brokenDown zone seconds with
  | some tm => timeText tm
  | none => []

/-- The line of a logger that formats every time anew: as much as there is room for. -/
def plainLine (zone : Option Data) (tid : Nat) (call : LogCall) : List UInt8 :=
  (written kSmallBuffer ([.string (freshText zone (call.time / 1000000)),
    .string (microText zone (call.time % 1000000))] ++ call.begin tid ++ call.items ++
      call.finish)).flatMap Item.text

/-- A time from the second after the epoch on, with at most four digits of the year in the zone. -/
structure Dated (zone : Option Data) (time : Int) : Prop where
  /-- It is not in the first second. -/
  late : 1000000 ≤ time
  /-- It has fields that can be printed. -/
  fields : ∃ tm, brokenDown zone (time / 1000000) = some tm ∧ Printable tm

section caching

variable {zone : Option Data} {thread : ThreadTime} {time : Int}

/-- A thread has printed nothing yet, or has the text of its last second. -/
def ThreadTime.Cached (zone : Option Data) (thread : ThreadTime) : Prop :=
  thread.lastSecond ≠ 0 →
    thread.time = freshText zone thread.lastSecond ∧ thread.time.length = 17

/-- The text of a dated time has 17 characters. -/
theorem Dated.length_freshText (dated : Dated zone time) :
    (freshText zone (time / 1000000)).length = 17 := by
  obtain ⟨tm, fields, printable⟩ := dated.fields
  unfold freshText
  rw [fields]
  exact printable.length_timeText

/-- After the test the text is that of the second. -/
theorem Dated.refresh (dated : Dated zone time) (cached : thread.Cached zone) :
    refresh zone thread (time / 1000000) =
      some ⟨freshText zone (time / 1000000), time / 1000000⟩ := by
  have late := dated.late
  obtain ⟨tm, fields, printable⟩ := dated.fields
  unfold MuduoLog.refresh
  by_cases same : time / 1000000 = thread.lastSecond
  · obtain ⟨text, -⟩ := cached (by omega)
    rw [if_neg (not_not.mpr same), same, ← text]
  · rw [if_pos same, fields]
    have fresh : freshText zone (time / 1000000) = timeText tm := by
      unfold freshText
      rw [fields]
    simp only [printable.length_timeText, if_true, fresh]

/-- The microseconds have their length. -/
theorem Dated.length_microText (zone : Option Data) (time : Int) :
    (microText zone (time % 1000000)).length = if zone.isSome then 8 else 9 := by
  have six : (zeroPadded 6 (time % 1000000)).length = 6 :=
    length_zeroPadded (by decide) (by omega) (by omega)
  unfold microText
  rw [List.length_append, List.length_append, six]
  split <;> rfl

/-- The line of a thread that keeps the text of its last second is the plain one. -/
theorem Dated.logLine {call : LogCall} (dated : Dated zone call.time)
    (cached : thread.Cached zone) (tid : Nat) :
    ∃ next : ThreadTime, next.Cached zone ∧
      logLine zone tid thread call = some (next, plainLine zone tid call) := by
  have late := dated.late
  have million : kMicroSecondsPerSecond = 1000000 := rfl
  have seconds : call.time.tdiv kMicroSecondsPerSecond = call.time / 1000000 := by
    rw [million, Int.tdiv_eq_ediv_of_nonneg (by omega)]
  have micros : call.time.tmod kMicroSecondsPerSecond = call.time % 1000000 := by
    rw [million, Int.tmod_eq_emod_of_nonneg (by omega)]
  have text := dated.length_freshText
  refine ⟨⟨freshText zone (call.time / 1000000), call.time / 1000000⟩, fun _ => ⟨rfl, text⟩, ?_⟩
  have header : formatTime zone thread call.time = some
      (⟨freshText zone (call.time / 1000000), call.time / 1000000⟩,
        [.string (freshText zone (call.time / 1000000)),
          .string (microText zone (call.time % 1000000))]) := by
    unfold formatTime
    simp only [seconds, micros, dated.refresh cached]
    rw [if_pos ⟨Dated.length_microText zone call.time, text⟩]
  unfold MuduoLog.logLine
  rw [header]
  unfold plainLine
  simp only [LogStream.foldl_put]
  rfl

/-- The line begins with the time. -/
theorem Dated.take_plainLine {call : LogCall} (dated : Dated none call.time) (tid : Nat) :
    (plainLine none tid call).take 26 =
      freshText none (call.time / 1000000) ++ microText none (call.time % 1000000) := by
  have text := dated.length_freshText
  have micros : (microText none (call.time % 1000000)).length = 9 :=
    Dated.length_microText none call.time
  have first : (Item.string (freshText none (call.time / 1000000))).Fits kSmallBuffer := by
    show (freshText none (call.time / 1000000)).length < kSmallBuffer
    rw [text]
    decide
  have second : (Item.string (microText none (call.time % 1000000))).Fits
      (kSmallBuffer - (Item.string (freshText none (call.time / 1000000))).text.length) := by
    show (microText none (call.time % 1000000)).length <
      kSmallBuffer - (freshText none (call.time / 1000000)).length
    rw [text, micros]
    decide
  unfold plainLine
  rw [List.cons_append, List.cons_append, List.cons_append, written, if_pos first, List.cons_append,
    List.cons_append, List.cons_append, written, if_pos second, List.flatMap_cons,
    List.flatMap_cons, ← List.append_assoc]
  refine List.take_left' ?_
  show (freshText none (call.time / 1000000) ++ microText none (call.time % 1000000)).length = 26
  rw [List.length_append, text, micros]

/-- Different times have different texts. -/
theorem Dated.header_inj {other : Int} (dated : Dated none time) (dated' : Dated none other)
    (same : freshText none (time / 1000000) ++ microText none (time % 1000000) =
      freshText none (other / 1000000) ++ microText none (other % 1000000)) : time = other := by
  obtain ⟨texts, micros⟩ := List.append_inj same
    (dated.length_freshText.trans dated'.length_freshText.symm)
  obtain ⟨late, tm, fields, printable⟩ := dated
  obtain ⟨late', tm', fields', printable'⟩ := dated'
  have seconds : time / 1000000 = other / 1000000 := by
    unfold freshText at texts
    rw [fields, fields'] at texts
    have equal := timeText_inj printable printable' texts
    rw [← Option.some.inj fields, ← Option.some.inj fields', timegm_gmtimeR,
      timegm_gmtimeR] at equal
    exact equal
  have rest : time % 1000000 = other % 1000000 := by
    unfold microText at micros
    rw [List.append_assoc, List.append_assoc, List.append_cancel_left_eq] at micros
    exact zeroPadded_inj (by omega) (by omega) (List.append_inj' micros rfl).1
  omega

/-- The fields of a time from the epoch to the year 9999 can be printed. -/
theorem printable_gmtimeR (seconds : Int) (low : 0 ≤ seconds) (high : seconds < 253402300800) :
    Printable (gmtimeR seconds) := by
  have valid := gmtimeR_valid seconds
  have back := timegm_gmtimeR seconds
  have bounds := valid.second_bounds
  obtain ⟨day, -⟩ := epochDay_eq
  unfold timegm at back
  refine ⟨valid, ?_⟩
  have epoch : (⟨0, 1, 1⟩ : CivilDate).Valid := (CivilDate.valid_mk _ _ _).mpr (by decide)
  have last : (⟨10000, 1, 1⟩ : CivilDate).Valid := (CivilDate.valid_mk _ _ _).mpr (by decide)
  have zeroth : (⟨0, 1, 1⟩ : CivilDate).ordinal = -60 := by decide
  have tenth : (⟨10000, 1, 1⟩ : CivilDate).ordinal = 3652365 := by decide
  have notBefore : ¬ (gmtimeR seconds).date.Before ⟨0, 1, 1⟩ := by
    rw [← CivilDate.ordinal_lt_iff valid.date epoch, zeroth]
    omega
  have before : (gmtimeR seconds).date.Before ⟨10000, 1, 1⟩ := by
    rw [← CivilDate.ordinal_lt_iff valid.date last, tenth]
    omega
  have month := valid.bounds
  simp only [CivilDate.Before, Tm.date] at notBefore before
  omega

/-- In UTC the times up to the year 9999 are dated. -/
theorem dated_utc (late : 1000000 ≤ time) (early : time < 253402300800000000) :
    Dated none time :=
  ⟨late, _, rfl, printable_gmtimeR _ (by omega) (by omega)⟩

end caching

/-- A thread that keeps the text of its last second writes the lines of one that formats every time
anew, as long as the time zone stays the same, and none of the assertions fails. In UTC two lines
with the same time in front are from the same microsecond. -/
theorem logger_lines {zone : Option Data} {tid : Nat} {calls : List LogCall}
    (dated : ∀ call ∈ calls, Dated zone call.time) :
    logLines zone tid ⟨[], 0⟩ calls = some (calls.map (plainLine zone tid)) ∧
    (zone = none → ∀ one ∈ calls, ∀ other ∈ calls,
      (plainLine zone tid one).take 26 = (plainLine zone tid other).take 26 →
        one.time = other.time) := by
  constructor
  · have all : ∀ thread : ThreadTime, thread.Cached zone →
        logLines zone tid thread calls = some (calls.map (plainLine zone tid)) := by
      induction calls with
      | nil => exact fun _ _ => rfl
      | cons call rest ih =>
        intro thread cached
        obtain ⟨next, cached', line⟩ := (dated call List.mem_cons_self).logLine cached tid
        unfold logLines
        rw [line]
        show (logLines zone tid next rest).map _ = _
        rw [ih (fun other member => dated other (List.mem_cons_of_mem _ member)) next cached']
        rfl
    exact all ⟨[], 0⟩ fun nonzero => absurd rfl nonzero
  · rintro rfl one inOne other inOther same
    rw [(dated one inOne).take_plainLine, (dated other inOther).take_plainLine] at same
    exact (dated one inOne).header_inj (dated other inOther) same

/-- Two lines of one second. -/
def twoCalls : List LogCall :=
  [⟨1665187200000001, .info, none, none, [.string (bytes "NO."), .int 1], bytes "/src/a.cc", 47⟩,
    ⟨1665187200999999, .error, some (2, bytes "No such file"), none, [], bytes "b.cc", 8⟩]

/-- Both lines begin with the text of their second. -/
theorem logger_lines_two : logLines none 7 ⟨[], 0⟩ twoCalls =
    some (twoCalls.map (plainLine none 7)) := by
  refine (logger_lines ?_).1
  intro call member
  fin_cases member <;> exact dated_utc (by decide) (by decide)

end BackendCpp.MuduoLog
