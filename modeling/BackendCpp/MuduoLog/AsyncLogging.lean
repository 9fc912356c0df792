import BackendCpp.Library.Run
import BackendCpp.MuduoLog.Rolling

/-!
# AsyncLogging.cc

Threads append to the current buffer under the mutex; the thread of `threadFunc` takes all buffers at
once under the mutex, writes them to a `LogFile` without it, and gives two of the buffers back. A
step is one critical section, or a piece of `threadFunc` between two of its effects. `waitForSeconds`
lets go of the mutex, and comes back at any time, as a timeout or a spurious wakeup allows. A
`unique_ptr` may be null; a step that reads through a null pointer or fails an assertion has no
result. `Thread::start` asserts that the thread was not started, and `Thread::join` that it was, and
that it was not joined; `pthread_create` gives a thread. When `threadFunc` returns its `LogFile` is
closed.
-/

namespace BackendCpp.MuduoLog

open BackendCpp.Library

/-- `BufferPtr`. -/
abbrev BufferPtr (SIZE : Nat) := Option (FixedBuffer SIZE)

/-- Where the thread of `threadFunc` stands. -/
inductive Place where
  /-- It is not started. -/
  | unborn
  /-- At the assertion that the logging is running. -/
  | entry
  /-- The latch is counted down; `output` is to be made. -/
  | opening
  /-- At the head of the loop. -/
  | loop
  /-- In the loop, before the mutex is taken. -/
  | entering
  /-- In `waitForSeconds`. -/
  | waiting
  /-- The mutex is released; the buffers are to be counted. -/
  | counting
  /-- That many buffers are written. -/
  | writing (count : Nat)
  /-- It has returned. -/
  | done
  deriving DecidableEq

/-- How many buffers are written. -/
def Place.count : Place → Option Nat
  | .writing count => some count
  | _ => none

/-- The count is known while the batch is written. -/
@[simp] theorem Place.count_eq_some {place : Place} {count : Nat} :
    place.count = some count ↔ place = .writing count := by
  cases place <;> simp [Place.count]

/-- The thread of `threadFunc`: its place, its variables, and the directory it writes to. -/
structure Thread (SIZE : Nat) where
  /-- Where it stands. -/
  place : Place
  /-- The buffer that becomes the current one. -/
  newBuffer1 : BufferPtr SIZE
  /-- The buffer that becomes the next one when there is none. -/
  newBuffer2 : BufferPtr SIZE
  /-- The buffers that it has taken. -/
  buffersToWrite : List (BufferPtr SIZE)
  /-- The log file, while it is there. -/
  output : Option LogFile
  /-- The files. -/
  directory : Directory

/-- `AsyncLogging`. -/
structure AsyncLogging (SIZE : Nat) where
  /-- `running_`. -/
  running : Bool
  /-- `count_` of `latch_`. -/
  latch : Int
  /-- `currentBuffer_`. -/
  currentBuffer : BufferPtr SIZE
  /-- `nextBuffer_`. -/
  nextBuffer : BufferPtr SIZE
  /-- `buffers_`. -/
  buffers : List (BufferPtr SIZE)
  /-- `started_` of `thread_`. -/
  started : Bool
  /-- `joined_` of `thread_`. -/
  joined : Bool
  /-- What the thread of `thread_` does. -/
  thread : Thread SIZE

/-- What happens in a run. -/
inductive LogEvent where
  /-- A thread calls `append`. -/
  | append (logline : List UInt8)
  /-- `start`, up to its wait for the latch. -/
  | start
  /-- The thread checks that the logging runs, and counts the latch down. -/
  | countDown
  /-- The thread makes `output` at a reading of the clock, if `fopen` gives a file, and two
  buffers. -/
  | create (now : Int) (opens : Bool)
  /-- The thread reads `running_` at the head of its loop, and returns when it is false; the flush
  and the close that follow may fail. -/
  | check (failure closing : Option Nat)
  /-- The thread takes the mutex: it takes the buffers or waits. -/
  | lock
  /-- The wait ends: the thread takes the buffers. -/
  | wake
  /-- The thread counts the buffers, and drops some when there are too many. -/
  | count (now : Int) (io : Io)
  /-- The thread appends a buffer to `output`. -/
  | write (io : Io)
  /-- The thread flushes `output`, which may fail, and keeps two buffers for later. -/
  | recycle (failure : Option Nat)
  /-- `stop`, up to its wait for the thread. -/
  | stop
  deriving DecidableEq

variable {SIZE : Nat}

/-- `AsyncLogging::AsyncLogging`, over a directory. -/
def AsyncLogging.make (directory : Directory) : AsyncLogging SIZE :=
  { running := false, latch := 1, currentBuffer := some .empty, nextBuffer := some .empty
    buffers := [], started := false, joined := false
    thread := { place := .unborn, newBuffer1 := none, newBuffer2 := none, buffersToWrite := []
                output := none, directory := directory } }

/-- `AsyncLogging::append`. -/
def AsyncLogging.append (log : AsyncLogging SIZE) (logline : List UInt8) :
    Option (AsyncLogging SIZE) :=
  match log.currentBuffer with
  | none => none
  | some currentBuffer =>
    if currentBuffer.avail > logline.length then
      some { log with currentBuffer := some (currentBuffer.append logline) }
    else
      let buffers := log.buffers ++ [some currentBuffer]
      let currentBuffer : FixedBuffer SIZE := match log.nextBuffer with
        | some nextBuffer => nextBuffer
        | none => .empty
      some { log with buffers := buffers, nextBuffer := none
                      currentBuffer := some (currentBuffer.append logline) }

/-- The end of the critical section of `threadFunc`. -/
def AsyncLogging.takeBuffers (log : AsyncLogging SIZE) : AsyncLogging SIZE :=
  let buffers := log.buffers ++ [log.currentBuffer]
  let thread := { log.thread with newBuffer1 := none, buffersToWrite := buffers
                                  place := .counting }
  let log := { log with currentBuffer := log.thread.newBuffer1
                        buffers := log.thread.buffersToWrite, thread := thread }
  match log.nextBuffer with
  | none => { log with nextBuffer := thread.newBuffer2, thread := { thread with newBuffer2 := none } }
  | some _ => log

/-- A pointer to an empty buffer, as the assertions of the loop want it. -/
def isEmpty (pointer : BufferPtr SIZE) : Bool :=
  match pointer with
  | some buffer => buffer.data.length = 0
  | none => false

/-- `Timestamp::toFormattedString`. -/
def toFormattedString (microSecondsSinceEpoch : Int) : List UInt8 :=
  let seconds := microSecondsSinceEpoch.tdiv kMicroSecondsPerSecond
  let microseconds := microSecondsSinceEpoch.tmod kMicroSecondsPerSecond
  timeText (gmtimeR seconds) ++ bytes "." ++ zeroPadded 6 microseconds

/-- What `threadFunc` writes when it drops buffers; it has 256 bytes for it. -/
def dropped (now : Int) (larger : Nat) : List UInt8 :=
  (bytes "Dropped log messages at " ++ toFormattedString now ++ bytes ", " ++ integer larger ++
    bytes " larger buffers\n").take 255

namespace Thread

/-- `output.append`. -/
def appendOutput (host : Host) (thread : Thread SIZE) (io : Io) (text : List UInt8) :
    Option (Thread SIZE) :=
  match thread.output with
  | none => none
  | some output =>
    match output.append host thread.directory io text with
    | none => none
    | some (output, directory) =>
      some { thread with output := some output, directory := directory }

/-- `output.flush`. -/
def flushOutput (thread : Thread SIZE) (failure : Option Nat) : Option (Thread SIZE) :=
  match thread.output with
  | none => none
  | some output =>
    match output.flush thread.directory failure with
    | none => none
    | some (output, directory) =>
      some { thread with output := some output, directory := directory }

/-- The return: `output` is destroyed, which closes its file. -/
def finish (thread : Thread SIZE) (closing : Option Nat) : Thread SIZE :=
  match thread.output.bind LogFile.file with
  | none => { thread with place := .done, output := none }
  | some file => { thread with place := .done, output := none
                               directory := file.close thread.directory closing }

/-- The construction of `output` and of two buffers. -/
def create (host : Host) (base : List UInt8) (rollSize : Int) (thread : Thread SIZE) (now : Int)
    (opens : Bool) : Option (Thread SIZE) :=
  match LogFile.make host base rollSize 3 1024 thread.directory now opens with
  | none => none
  | some (output, directory) =>
    some { place := .loop, newBuffer1 := some .empty, newBuffer2 := some .empty
           buffersToWrite := [], output := some output, directory := directory }

/-- The head of the loop: the assertions, or the last flush and the return. -/
def check (thread : Thread SIZE) (running : Bool) (failure closing : Option Nat) :
    Option (Thread SIZE) :=
  if running then
    if isEmpty thread.newBuffer1 && isEmpty thread.newBuffer2 && thread.buffersToWrite.isEmpty then
      some { thread with place := .entering }
    else none
  else
    (thread.flushOutput failure).map fun thread => thread.finish closing

/-- The part of the loop from the release of the mutex to the loop that writes. -/
def count (host : Host) (thread : Thread SIZE) (now : Int) (io : Io) : Option (Thread SIZE) :=
  if thread.buffersToWrite.isEmpty then none
  else if thread.buffersToWrite.length > 25 then
    match thread.appendOutput host io (dropped now (thread.buffersToWrite.length - 2)) with
    | none => none
    | some thread => some { thread with place := .writing 0
                                        buffersToWrite := thread.buffersToWrite.take 2 }
  else some { thread with place := .writing 0 }

/-- One pass of the loop that writes. -/
def write (host : Host) (thread : Thread SIZE) (count : Nat) (io : Io) : Option (Thread SIZE) :=
  match thread.buffersToWrite[count]? with
  | some (some buffer) =>
    match thread.appendOutput host io buffer.data with
    | none => none
    | some thread => some { thread with place := .writing (count + 1) }
  | _ => none

/-- A new buffer is taken back from the written ones when there is none. -/
def takeBack (newBuffer : BufferPtr SIZE) (buffersToWrite : List (BufferPtr SIZE)) :
    Option (BufferPtr SIZE × List (BufferPtr SIZE)) :=
  match newBuffer with
  | some newBuffer => some (some newBuffer, buffersToWrite)
  | none =>
    match buffersToWrite.getLast? with
    | some (some _) => some (some .empty, buffersToWrite.dropLast)
    | _ => none

/-- The rest of the loop. -/
def recycle (thread : Thread SIZE) (failure : Option Nat) : Option (Thread SIZE) :=
  match thread.flushOutput failure with
  | none => none
  | some thread =>
    match takeBack thread.newBuffer1 (thread.buffersToWrite.take 2) with
    | none => none
    | some (newBuffer1, buffersToWrite) =>
      match takeBack thread.newBuffer2 buffersToWrite with
      | none => none
      | some (newBuffer2, _) =>
        some { thread with newBuffer1 := newBuffer1, newBuffer2 := newBuffer2
                           buffersToWrite := [], place := .loop }

end Thread

/-- When a step may happen. The thread does what its place says. A logging is started once, and stopped
once after `start` has returned, which it does when the latch is down. -/
def AsyncLogging.Enabled (log : AsyncLogging SIZE) : LogEvent → Prop
  | .append _ => True
  | .start => log.started = false
  | .countDown => log.thread.place = .entry
  | .create _ _ => log.thread.place = .opening
  | .check _ _ => log.thread.place = .loop
  | .lock => log.thread.place = .entering
  | .wake => log.thread.place = .waiting
  | .count _ _ => log.thread.place = .counting
  | .write _ => ∃ count, log.thread.place = .writing count ∧
      count < log.thread.buffersToWrite.length
  | .recycle _ => ∃ count, log.thread.place = .writing count ∧
      log.thread.buffersToWrite.length ≤ count
  | .stop => log.latch = 0 ∧ log.joined = false

instance (log : AsyncLogging SIZE) : (event : LogEvent) → Decidable (log.Enabled event)
  | .append _ => inferInstanceAs (Decidable True)
  | .start => inferInstanceAs (Decidable (log.started = false))
  | .countDown => inferInstanceAs (Decidable (log.thread.place = .entry))
  | .create _ _ => inferInstanceAs (Decidable (log.thread.place = .opening))
  | .check _ _ => inferInstanceAs (Decidable (log.thread.place = .loop))
  | .lock => inferInstanceAs (Decidable (log.thread.place = .entering))
  | .wake => inferInstanceAs (Decidable (log.thread.place = .waiting))
  | .count _ _ => inferInstanceAs (Decidable (log.thread.place = .counting))
  | .write _ => decidable_of_iff
      (∃ count ∈ log.thread.place.count, count < log.thread.buffersToWrite.length)
      (exists_congr fun _ => and_congr_left' Place.count_eq_some)
  | .recycle _ => decidable_of_iff
      (∃ count ∈ log.thread.place.count, log.thread.buffersToWrite.length ≤ count)
      (exists_congr fun _ => and_congr_left' Place.count_eq_some)
  | .stop => inferInstanceAs (Decidable (log.latch = 0 ∧ log.joined = false))

/-- The thread of a logging goes on. -/
def AsyncLogging.withThread (log : AsyncLogging SIZE) (thread : Option (Thread SIZE)) :
    Option (AsyncLogging SIZE) :=
  thread.map fun thread => { log with thread := thread }

/-- A step; nothing when an assertion fails or a null pointer is read. -/
def AsyncLogging.exec (host : Host) (base : List UInt8) (rollSize : Int) (log : AsyncLogging SIZE) :
    LogEvent → Option (AsyncLogging SIZE)
  | .append logline => log.append logline
  | .start =>
    if log.started then none
    else some { log with running := true, started := true
                         thread := { log.thread with place := .entry } }
  | .countDown =>
    if log.running then
      some { log with latch := log.latch - 1, thread := { log.thread with place := .opening } }
    else none
  | .create now opens => log.withThread (log.thread.create host base rollSize now opens)
  | .check failure closing => log.withThread (log.thread.check log.running failure closing)
  | .lock =>
    if log.buffers.isEmpty then some { log with thread := { log.thread with place := .waiting } }
    else some log.takeBuffers
  | .wake => some log.takeBuffers
  | .count now io => log.withThread (log.thread.count host now io)
  | .write io =>
    match log.thread.place with
    | .writing count => log.withThread (log.thread.write host count io)
    | _ => none
  | .recycle failure => log.withThread (log.thread.recycle failure)
  | .stop =>
    if log.started && !log.joined then some { log with running := false, joined := true }
    else none

/-- A step that may happen and has a result. -/
def LogStep (host : Host) (base : List UInt8) (rollSize : Int) (log : AsyncLogging SIZE)
    (event : LogEvent) (next : AsyncLogging SIZE) : Prop :=
  log.Enabled event ∧ log.exec host base rollSize event = some next

/-- Steps one after the other, as long as they may happen. -/
def AsyncLogging.replay (host : Host) (base : List UInt8) (rollSize : Int) (log : AsyncLogging SIZE)
    (trace : List LogEvent) : Option (AsyncLogging SIZE) :=
  trace.foldlM (fun log event =>
    if log.Enabled event then log.exec host base rollSize event else none) log

/-- A replay is a run. -/
theorem run_of_replay {host : Host} {base : List UInt8} {rollSize : Int}
    {log log' : AsyncLogging SIZE} {trace : List LogEvent}
    (done : log.replay host base rollSize trace = some log') :
    Run (LogStep host base rollSize) log trace log' := by
  refine (Run.of_foldlM done).mono fun log event next taken => ?_
  split_ifs at taken with enabled
  exact ⟨enabled, taken⟩

end BackendCpp.MuduoLog
