import BackendCpp.MuduoLog.LogRuns

/-!
# Programs that log through an AsyncLogging

The `LOG` macros of all threads with `asyncOutput` as the output, as in main_log_test.cc. A macro
below the level of the logger makes no line. Otherwise a `Logger` is made with its line, which is
output when the `Logger` is destroyed; other threads may do anything in between. After a fatal line
the thread aborts the program, and nothing happens after that. A thread is in one macro at a time.
-/

namespace BackendCpp.MuduoLog

open BackendCpp.Library

/-- The place of a level in `Logger::LogLevel`. -/
def LogLevel.number : LogLevel → Nat
  | .trace => 0
  | .debug => 1
  | .info => 2
  | .warn => 3
  | .error => 4
  | .fatal => 5

/-- The test of the `LOG` macros: those from `LOG_WARN` on have none. -/
def LogLevel.passes (logLevel level : LogLevel) : Bool :=
  match level with
  | .trace | .debug | .info => logLevel.number ≤ level.number
  | .warn | .error | .fatal => true

/-- Where a thread stands with its macros. -/
inductive MacroPlace where
  /-- It is in no macro. -/
  | outside
  /-- It has a `Logger` with this line, at this level. -/
  | inside (line : List UInt8) (level : LogLevel)
  /-- It has output a fatal line. -/
  | dying
  deriving DecidableEq

/-- The thread has a `Logger`. -/
def MacroPlace.isInside : MacroPlace → Bool
  | .inside _ _ => true
  | _ => false

/-- What the threads of a program share for their logging, and what each of them has. -/
structure LogProgram where
  /-- `g_logLevel`. -/
  logLevel : LogLevel
  /-- `t_time` and `t_lastSecond` of each thread. -/
  threads : Nat → ThreadTime
  /-- The `Logger` of each thread. -/
  places : Nat → MacroPlace
  /-- `g_asyncLog`. -/
  asyncLog : AsyncLogging kLargeBuffer
  /-- The program has ended in `abort`. -/
  aborted : Bool

/-- What happens in the program. -/
inductive ProgramEvent where
  /-- A thread comes to a `LOG` macro, and makes a `Logger` when the level passes. -/
  | log (tid : Nat) (call : LogCall)
  /-- The `Logger` of a thread is destroyed, and calls `g_output`. -/
  | output (tid : Nat)
  /-- A thread calls `abort`. -/
  | abort (tid : Nat)
  /-- `Logger::setLogLevel`. -/
  | setLogLevel (level : LogLevel)
  /-- `start`, `stop` or a step of the thread of the logging. -/
  | backEnd (event : LogEvent)

/-- A program with a new logging. -/
def LogProgram.make (logLevel : LogLevel) (older : Directory) : LogProgram :=
  { logLevel := logLevel, threads := fun _ => ⟨[], 0⟩, places := fun _ => .outside
    asyncLog := .make older, aborted := false }

/-- Whether an event of the logging is an append, which only a macro makes. -/
def LogEvent.isAppend : LogEvent → Bool
  | .append _ => true
  | _ => false

/-- When a step may happen: as long as the program is there. -/
def LogProgram.Enabled (program : LogProgram) : ProgramEvent → Prop
  | .log tid _ => program.aborted = false ∧ program.places tid = .outside
  | .output tid => program.aborted = false ∧ (program.places tid).isInside = true
  | .abort tid => program.aborted = false ∧ program.places tid = .dying
  | .setLogLevel _ => program.aborted = false
  | .backEnd event => program.aborted = false ∧ program.asyncLog.Enabled event ∧
      event.isAppend = false

instance (program : LogProgram) : (event : ProgramEvent) → Decidable (program.Enabled event)
  | .log tid _ =>
    inferInstanceAs (Decidable (program.aborted = false ∧ program.places tid = .outside))
  | .output tid =>
    inferInstanceAs (Decidable (program.aborted = false ∧ (program.places tid).isInside = true))
  | .abort tid =>
    inferInstanceAs (Decidable (program.aborted = false ∧ program.places tid = .dying))
  | .setLogLevel _ => inferInstanceAs (Decidable (program.aborted = false))
  | .backEnd event => inferInstanceAs (Decidable (program.aborted = false ∧
      program.asyncLog.Enabled event ∧ event.isAppend = false))

/-- A `LOG` macro up to the destruction of its `Logger`. -/
def LogProgram.log (zone : Option Data) (program : LogProgram) (tid : Nat) (call : LogCall) :
    Option LogProgram :=
  if program.logLevel.passes call.level then
    (logLine zone tid (program.threads tid) call).map fun (thread, line) =>
      { program with threads := Function.update program.threads tid thread
                     places := Function.update program.places tid (.inside line call.level) }
  else some program

/-- `Logger::~Logger` with `asyncOutput`, up to the call of `abort`. -/
def LogProgram.output (program : LogProgram) (tid : Nat) : Option LogProgram :=
  match program.places tid with
  | .inside line level =>
    (program.asyncLog.append line).map fun asyncLog =>
      { program with asyncLog := asyncLog
                     places := Function.update program.places tid
                       (if level = .fatal then .dying else .outside) }
  | _ => none

/-- A step. -/
def LogProgram.exec (zone : Option Data) (host : Host) (base : List UInt8) (rollSize : Int)
    (program : LogProgram) : ProgramEvent → Option LogProgram
  | .log tid call => program.log zone tid call
  | .output tid => program.output tid
  | .abort _ => some { program with aborted := true }
  | .setLogLevel level => some { program with logLevel := level }
  | .backEnd event =>
    (program.asyncLog.exec host base rollSize event).map fun asyncLog =>
      { program with asyncLog := asyncLog }

/-- What the events of a run say of its lines. -/
structure Transcript where
  /-- The level that was set last. -/
  logLevel : LogLevel
  /-- The last macro of each thread whose level passed. -/
  calls : Nat → Option LogCall
  /-- The macros whose lines were output, with their threads. -/
  lines : List (Nat × LogCall)

/-- An event continues the transcript. -/
def transcribe (transcript : Transcript) : ProgramEvent → Transcript
  | .log tid call =>
    if transcript.logLevel.passes call.level then
      { transcript with calls := Function.update transcript.calls tid (some call) }
    else transcript
  | .output tid =>
    { transcript with
      lines := transcript.lines ++ ((transcript.calls tid).map fun call => (tid, call)).toList }
  | .setLogLevel level => { transcript with logLevel := level }
  | .abort _ => transcript
  | .backEnd _ => transcript

/-- The lines that were output, each formatted anew. -/
def Transcript.messages (zone : Option Data) (transcript : Transcript) : List Message :=
  transcript.lines.map fun line => plainLine zone line.1 line.2

/-- What a step needs of the world: a time that can be printed, or what the logging needs. -/
def ProgramEvent.Sound (zone : Option Data) (host : Host) (base : List UInt8) (older : Directory) :
    ProgramEvent → Prop
  | .log _ call => Dated zone call.time
  | .backEnd event => event.Sound host base older
  | _ => True

/-- No call of `fwrite` fails but perhaps the first of a text, and neither `fflush` nor `fclose`
fails. -/
def ProgramEvent.Fine : ProgramEvent → Prop
  | .backEnd event => event.Fine
  | _ => True

section relation

variable {zone : Option Data} {host : Host} {base : List UInt8} {rollSize : Int}
  {older : Directory} {healthy : Prop} {program : LogProgram} {logLevel : LogLevel}
  {transcript : Transcript} {ledger : Ledger}

/-- What a thread has is what its last macro says. -/
inductive MacroPlace.Tells (zone : Option Data) (tid : Nat) (lines : List (Nat × LogCall)) :
    MacroPlace → Option LogCall → Prop where
  /-- It is in no macro. -/
  | outside (call : Option LogCall) : Tells zone tid lines .outside call
  /-- It has the line of the macro. -/
  | inside (call : LogCall) :
      Tells zone tid lines (.inside (plainLine zone tid call) call.level) (some call)
  /-- Its fatal line was output. -/
  | dying (last : Option LogCall) {call : LogCall} (fatal : call.level = .fatal)
      (member : (tid, call) ∈ lines) : Tells zone tid lines .dying last

/-- More lines change nothing for a thread. -/
theorem MacroPlace.Tells.mono {tid : Nat} {lines more : List (Nat × LogCall)} {place : MacroPlace}
    {call : Option LogCall} (tells : place.Tells zone tid lines call) :
    place.Tells zone tid (lines ++ more) call := by
  cases tells with
  | outside => exact .outside call
  | inside call => exact .inside call
  | dying _ fatal member => exact .dying call fatal (List.mem_append_left _ member)

/-- The program, its transcript and the ledger of its logging. -/
structure Logs (zone : Option Data) (host : Host) (base : List UInt8) (rollSize : Int)
    (older : Directory) (healthy : Prop) (program : LogProgram) (transcript : Transcript)
    (ledger : Ledger) : Prop where
  /-- The logging has its ledger. -/
  holds : Holds host base rollSize older healthy program.asyncLog ledger
  /-- The level is the last that was set. -/
  logLevel : program.logLevel = transcript.logLevel
  /-- The lines are in the ledger. -/
  messages : ledger.taken ++ ledger.left = transcript.messages zone
  /-- Every thread has printed nothing yet, or has the text of its last second. -/
  cached : ∀ tid, (program.threads tid).Cached zone
  /-- Every thread has the line of its macro. -/
  tells : ∀ tid, (program.places tid).Tells zone tid transcript.lines (transcript.calls tid)
  /-- A fatal line ended the program. -/
  aborted : program.aborted = true → ∃ line ∈ transcript.lines, line.2.level = .fatal

/-- A line is shorter than a buffer of the logging. -/
theorem length_plainLine (tid : Nat) (call : LogCall) :
    (plainLine zone tid call).length < kLargeBuffer := by
  have short : (plainLine zone tid call).length < kSmallBuffer := length_written _ (by decide)
  have less : kSmallBuffer < kLargeBuffer := by decide
  omega

/-- A macro whose level passes makes its line. -/
theorem Logs.log (logs : Logs zone host base rollSize older healthy program transcript ledger)
    (tid : Nat) {call : LogCall} (dated : Dated zone call.time) :
    ∃ program', program.log zone tid call = some program' ∧
      Logs zone host base rollSize older healthy program' (transcribe transcript (.log tid call))
        ledger := by
  unfold LogProgram.log
  by_cases passes : program.logLevel.passes call.level = true
  · have made : transcribe transcript (.log tid call) =
        { transcript with calls := Function.update transcript.calls tid (some call) } :=
      if_pos (logs.logLevel ▸ passes)
    obtain ⟨thread, cached, line⟩ := dated.logLine (logs.cached tid) tid
    rw [if_pos passes, made, line]
    refine ⟨_, rfl, logs.holds, logs.logLevel, logs.messages, ?_, ?_, logs.aborted⟩
    · exact Function.forall_update_iff program.threads (p := fun _ thread => thread.Cached zone)
        |>.mpr ⟨cached, fun other _ => logs.cached other⟩
    · intro other
      show MacroPlace.Tells zone other _ (Function.update program.places tid _ other)
        (Function.update transcript.calls tid (some call) other)
      by_cases same : other = tid
      · subst same
        rw [Function.update_self, Function.update_self]
        exact .inside call
      · rw [Function.update_of_ne same, Function.update_of_ne same]
        exact logs.tells other
  · have same : transcribe transcript (.log tid call) = transcript :=
      if_neg (logs.logLevel ▸ passes)
    rw [if_neg passes, same]
    exact ⟨program, rfl, logs⟩

/-- The line of a macro is appended. -/
theorem Logs.output (logs : Logs zone host base rollSize older healthy program transcript ledger)
    (plain : 47 ∉ base) {tid : Nat} (inside : (program.places tid).isInside = true) :
    ∃ program' ledger', program.output tid = some program' ∧
      Logs zone host base rollSize older healthy program' (transcribe transcript (.output tid))
        ledger' := by
  have tells := logs.tells tid
  unfold LogProgram.output
  generalize place : program.places tid = there at tells inside
  generalize last : transcript.calls tid = call at tells
  cases tells with
  | outside => cases inside
  | dying => cases inside
  | inside call =>
    obtain ⟨log', ledger', appended, holds, moves⟩ := logs.holds.step plain
      (show program.asyncLog.Enabled (.append (plainLine zone tid call)) from trivial)
      (show LogEvent.Sound host base older (.append _) from trivial) fun _ => trivial
    have appended : program.asyncLog.append (plainLine zone tid call) = some log' := appended
    have message : LogEvent.message kLargeBuffer (.append (plainLine zone tid call)) =
        [plainLine zone tid call] := if_pos (length_plainLine tid call)
    have more : transcribe transcript (.output tid) =
        { transcript with lines := transcript.lines ++ [(tid, call)] } := by
      simp only [transcribe, last, Option.map_some, Option.toList_some]
    simp only [appended, Option.map_some]
    rw [more]
    refine ⟨_, ledger', rfl, holds, logs.logLevel, ?_, logs.cached, ?_, fun ended => ?_⟩
    · rw [moves.messages, logs.messages, message]
      unfold Transcript.messages
      rw [List.map_append, List.map_singleton]
    · intro other
      show MacroPlace.Tells zone other (transcript.lines ++ [(tid, call)])
        (Function.update program.places tid _ other) (transcript.calls other)
      by_cases same : other = tid
      · subst same
        rw [Function.update_self]
        split_ifs with fatal
        · exact .dying _ fatal (List.mem_append_right _ List.mem_cons_self)
        · exact .outside _
      · rw [Function.update_of_ne same]
        exact (logs.tells other).mono
    · obtain ⟨line, member, fatal⟩ := logs.aborted ended
      exact ⟨line, List.mem_append_left _ member, fatal⟩

/-- Every step keeps the lines in the ledger. -/
theorem Logs.step (logs : Logs zone host base rollSize older healthy program transcript ledger)
    (plain : 47 ∉ base) {event : ProgramEvent} (enabled : program.Enabled event)
    (sound : event.Sound zone host base older) (fine : healthy → event.Fine) :
    ∃ program' ledger', program.exec zone host base rollSize event = some program' ∧
      Logs zone host base rollSize older healthy program' (transcribe transcript event)
        ledger' := by
  cases event with
  | log tid call =>
    obtain ⟨program', made, logs'⟩ := logs.log tid sound
    exact ⟨program', ledger, made, logs'⟩
  | output tid => exact logs.output plain enabled.2
  | abort tid =>
    have tells := logs.tells tid
    rw [show program.places tid = .dying from enabled.2] at tells
    refine ⟨_, ledger, rfl, logs.holds, logs.logLevel, logs.messages, logs.cached, logs.tells,
      fun _ => ?_⟩
    cases tells with
    | dying _ fatal member => exact ⟨_, member, fatal⟩
  | setLogLevel level =>
    exact ⟨_, ledger, rfl, logs.holds, rfl, logs.messages, logs.cached, logs.tells, logs.aborted⟩
  | backEnd event =>
    obtain ⟨alive, enabled, other⟩ := enabled
    obtain ⟨log', ledger', done, holds, moves⟩ := logs.holds.step plain enabled sound fine
    have silent : LogEvent.message kLargeBuffer event = [] := by
      cases event with
      | append logline => cases other
      | _ => rfl
    refine ⟨{ program with asyncLog := log' }, ledger', ?_, holds, logs.logLevel, ?_, logs.cached,
      logs.tells, logs.aborted⟩
    · show (program.asyncLog.exec host base rollSize event).map _ = _
      rw [done]
      rfl
    · rw [moves.messages, silent, List.append_nil]
      exact logs.messages

end relation

end BackendCpp.MuduoLog
