import BackendCpp.MuduoLog.Logging

/-!
# LogFile.cc and AppendFile

A `LogFile` appends to a file whose name has the second of its creation, and goes on to a new file when
the old one is too long, or when a check of the clock finds another day. The directory lists the
files in the order of their creation. What the C library keeps in the buffer of a `FILE` is not in
the file yet; it may write any part of it at any time. The results of `fflush` and `fclose` are not
looked at: after a failure of `fflush` what was not written stays in the buffer, after one of `fclose`
it is lost. The constructor of `AppendFile` asserts that `fopen` gives a file. The clock may go back.
-/

namespace BackendCpp.MuduoLog

open BackendCpp.Library

/-- Names and contents of files, in the order of their creation. -/
abbrev Directory := List (List UInt8 × List UInt8)

/-- `fopen` for appending: a new file is empty. -/
def Directory.create (directory : Directory) (name : List UInt8) : Directory :=
  if name ∈ directory.map Prod.fst then directory else directory ++ [(name, [])]

/-- Bytes are appended to the file of a name. -/
def Directory.write (directory : Directory) (name text : List UInt8) : Directory :=
  directory.map fun file => if file.1 = name then (file.1, file.2 ++ text) else file

/-- `FileUtil::AppendFile`. -/
structure AppendFile where
  /-- The name the file was opened with. -/
  filename : List UInt8
  /-- What is in the buffer of `fp_`. -/
  pending : List UInt8
  /-- `writtenBytes_`. -/
  writtenBytes : Nat
  deriving DecidableEq

/-- What the world does during an append. -/
structure Io where
  /-- What the calls of `fwrite` return until they take all they are given. -/
  counts : List Nat
  /-- How much of its buffer the C library writes to the file by itself. -/
  spill : Nat
  /-- The clock when it is read to check the day. -/
  now : Int
  /-- The clock when it is read to roll. -/
  roll : Int
  /-- `fopen` gives a file. -/
  opens : Bool
  /-- How much of the buffer is written before `fflush` or `fclose` fails, if it fails. -/
  failure : Option Nat
  deriving DecidableEq

/-- What `fflush` or `fclose` writes of a buffer. -/
def drained (failure : Option Nat) (pending : List UInt8) : List UInt8 :=
  match failure with
  | none => pending
  | some count => pending.take count

/-- The loop of `AppendFile::append` after the first write: what it gets into the buffer. -/
def appendLoop : List Nat → List UInt8 → List UInt8
  | [], remain => remain
  | x :: counts, remain =>
    if remain = [] then []
    else if x = 0 then []
    else remain.take x ++ appendLoop counts (remain.drop x)

/-- What `AppendFile::append` gets into the buffer. -/
def accepted : List Nat → List UInt8 → List UInt8
  | [], logline => logline
  | n :: counts, logline => logline.take n ++ appendLoop counts (logline.drop n)

/-- `AppendFile::append`. -/
def AppendFile.append (file : AppendFile) (directory : Directory) (io : Io) (logline : List UInt8) :
    AppendFile × Directory :=
  let all := file.pending ++ accepted io.counts logline
  ({ file with pending := all.drop io.spill, writtenBytes := file.writtenBytes + logline.length },
    directory.write file.filename (all.take io.spill))

/-- `AppendFile::flush`. -/
def AppendFile.flush (file : AppendFile) (directory : Directory) (failure : Option Nat) :
    AppendFile × Directory :=
  ({ file with pending := file.pending.drop (drained failure file.pending).length },
    directory.write file.filename (drained failure file.pending))

/-- `AppendFile::~AppendFile`. -/
def AppendFile.close (file : AppendFile) (directory : Directory) (failure : Option Nat) : Directory :=
  directory.write file.filename (drained failure file.pending)

/-- `LogFile::kRollPerSeconds_`. -/
def kRollPerSeconds : Int := 60 * 60 * 24

/-- `ProcessInfo::hostname` and `ProcessInfo::pid`. -/
structure Host where
  /-- Name of the host. -/
  hostname : List UInt8
  /-- Number of the process. -/
  pid : Nat
  deriving DecidableEq

/-- `LogFile::getLogFileName` at a reading of the clock. -/
def getLogFileName (host : Host) (basename : List UInt8) (now : Int) : List UInt8 :=
  let tm := gmtimeR now
  let timebuf := bytes "." ++ (integer (tm.tmYear + 1900) ++ (zeroPadded 2 (tm.tmMon + 1) ++
    (zeroPadded 2 tm.tmMday ++ (bytes "-" ++ (zeroPadded 2 tm.tmHour ++
      (zeroPadded 2 tm.tmMin ++ (zeroPadded 2 tm.tmSec ++ bytes ".")))))))
  basename ++ timebuf ++ host.hostname ++ (bytes "." ++ integer host.pid) ++ bytes ".log"

/-- `LogFile`. -/
structure LogFile where
  /-- `basename_`. -/
  basename : List UInt8
  /-- `rollSize_`. -/
  rollSize : Int
  /-- `flushInterval_`. -/
  flushInterval : Int
  /-- `checkEveryN_`. -/
  checkEveryN : Int
  /-- `count_`. -/
  count : Int
  /-- `startOfPeriod_`. -/
  startOfPeriod : Int
  /-- `lastRoll_`. -/
  lastRoll : Int
  /-- `lastFlush_`. -/
  lastFlush : Int
  /-- `file_`, which is null before the first roll. -/
  file : Option AppendFile
  deriving DecidableEq

/-- `LogFile::rollFile` at a reading of the clock; nothing when the file cannot be opened. -/
def LogFile.rollFile (host : Host) (log : LogFile) (directory : Directory) (now : Int)
    (opens : Bool) (failure : Option Nat) : Option (Bool × LogFile × Directory) :=
  let filename := getLogFileName host log.basename now
  let start := now.tdiv kRollPerSeconds * kRollPerSeconds
  if now > log.lastRoll then
    if opens then
      let opened := directory.create filename
      let closed := match log.file with
        | some file => file.close opened failure
        | none => opened
      some (true, { log with lastRoll := now, lastFlush := now, startOfPeriod := start
                             file := some ⟨filename, [], 0⟩ }, closed)
    else none
  else some (false, log, directory)

/-- `LogFile::LogFile`; nothing when an assertion fails, its own or that of `AppendFile`. -/
def LogFile.make (host : Host) (basename : List UInt8) (rollSize flushInterval checkEveryN : Int)
    (directory : Directory) (now : Int) (opens : Bool) : Option (LogFile × Directory) :=
  if 47 ∈ basename then none
  else
    let log : LogFile := ⟨basename, rollSize, flushInterval, checkEveryN, 0, 0, 0, 0, none⟩
    (log.rollFile host directory now opens none).map Prod.snd

/-- `LogFile::append`; nothing when there is no file to append to, or the next one cannot be
opened. -/
def LogFile.append (host : Host) (log : LogFile) (directory : Directory) (io : Io)
    (logline : List UInt8) : Option (LogFile × Directory) :=
  match log.file with
  | none => none
  | some file =>
    let (file, directory) := file.append directory io logline
    let log := { log with file := some file }
    if (file.writtenBytes : Int) > log.rollSize then
      (log.rollFile host directory io.roll io.opens io.failure).map Prod.snd
    else
      let log := { log with count := log.count + 1 }
      if log.count ≥ log.checkEveryN then
        let log := { log with count := 0 }
        let thisPeriod := io.now.tdiv kRollPerSeconds * kRollPerSeconds
        if thisPeriod ≠ log.startOfPeriod then
          (log.rollFile host directory io.roll io.opens io.failure).map Prod.snd
        else if io.now - log.lastFlush > log.flushInterval then
          let (file, directory) := file.flush directory io.failure
          some ({ log with lastFlush := io.now, file := some file }, directory)
        else some (log, directory)
      else some (log, directory)

/-- `LogFile::flush`; nothing when there is no file. -/
def LogFile.flush (log : LogFile) (directory : Directory) (failure : Option Nat) :
    Option (LogFile × Directory) :=
  match log.file with
  | none => none
  | some file =>
    let (file, directory) := file.flush directory failure
    some ({ log with file := some file }, directory)

end BackendCpp.MuduoLog
