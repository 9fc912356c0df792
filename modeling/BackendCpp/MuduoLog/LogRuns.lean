import BackendCpp.Library.Run
import BackendCpp.MuduoLog.Handover

/-!
# What a run of the logging writes

Over all runs in which the logging is started once, stopped at most once after that, and files can be
opened: no assertion fails, no null pointer is read, and whenever the thread is at the head of its loop
the files hold what it has taken. `stop` does not wait for what is left: unless the thread is between
the head of its loop and the end of its wait, all that it has not taken is lost.
-/

namespace BackendCpp.MuduoLog

open BackendCpp.Library

variable {SIZE : Nat} {host : Host} {base : List UInt8} {rollSize : Int} {older : Directory}
  {healthy : Prop} {log log' : AsyncLogging SIZE} {ledger ledger' : Ledger}

/-- What a logging shows of its ledger. -/
structure Shows (host : Host) (base : List UInt8) (older : Directory) (healthy : Prop)
    (log : AsyncLogging SIZE) (ledger : Ledger) : Prop where
  /-- The current buffer. -/
  current : Points [log.currentBuffer] [ledger.current]
  /-- The full buffers. -/
  full : Points log.buffers ledger.full
  /-- At the head of the loop and after it the thread has no batch. -/
  inHand : log.thread.place = .loop ∨ log.thread.place = .done → ledger.hand.buffers = []
  /-- There, the texts of all batches are in files that were created one after the other; a failure
  of `fwrite` cuts a text off, and one of `fflush` or `fclose` a file. -/
  files : log.thread.place = .loop ∨ log.thread.place = .done → ∃ parts : List Part,
    log.thread.directory = older ++ parts.map (Part.entry host base) ∧
    parts.Pairwise (fun one other => one.created < other.created) ∧
    (∀ part ∈ parts, part.disk <+: part.text ∧ (healthy → part.disk = part.text)) ∧
    List.Forall₂ (fun line text => line.text <+: text ∧ (healthy → line.text = text))
      (allLines parts) (ledger.written.flatMap Batch.texts) ∧
    (healthy → (∀ batch ∈ ledger.written, batch.buffers.length ≤ 25) →
      parts.flatMap Part.disk = ledger.taken.flatten)

/-- The text of a batch that is not too large. -/
theorem Batch.texts_small {batch : Batch} (small : batch.buffers.length ≤ 25) :
    batch.texts.flatten = batch.buffers.flatten.flatten := by
  have few : ¬batch.buffers.length > 25 := by omega
  unfold Batch.texts Batch.notice Batch.kept
  rw [if_neg few, if_neg few, List.nil_append, List.flatten_flatten]

/-- The texts of batches that are not too large. -/
theorem texts_small {written : List Batch} (small : ∀ batch ∈ written, batch.buffers.length ≤ 25) :
    (written.flatMap Batch.texts).flatten = (written.flatMap Batch.buffers).flatten.flatten := by
  induction written with
  | nil => rfl
  | cons batch written ih =>
    rw [List.flatMap_cons, List.flatMap_cons, List.flatten_append, List.flatten_append,
      List.flatten_append, Batch.texts_small (small batch List.mem_cons_self),
      ih fun batch member => small batch (List.mem_cons_of_mem _ member)]

/-- The texts of the lines are those of the batches when nothing fails. -/
theorem parts_text {parts : List Part} {texts : List (List UInt8)}
    (lines : List.Forall₂ (fun line text => line.text <+: text ∧ (healthy → line.text = text))
      (allLines parts) texts) (now : healthy) :
    parts.flatMap Part.text = texts.flatten := by
  have same : (allLines parts).map Line.text = texts := by
    generalize allLines parts = all at lines
    induction lines with
    | nil => rfl
    | cons line _ ih => rw [List.map_cons, line.2 now, ih]
  rw [← same]
  unfold allLines Part.text
  rw [List.map_flatMap, List.flatMap_def, List.flatMap_def, List.flatten_flatten, List.map_map]
  rfl

/-- What holds can be seen. -/
theorem Holds.shows (holds : Holds host base rollSize older healthy log ledger) :
    Shows host base older healthy log ledger := by
  have rest : log.thread.place = .loop ∨ log.thread.place = .done → ledger.hand.buffers = [] ∧
      Filed host base older healthy log.thread.directory
        (ledger.written.flatMap Batch.texts) := by
    rintro (place | place)
    · have idle := holds.back
      rw [place] at idle
      exact ⟨idle.inHand, idle.printed.filed⟩
    · have back := holds.back
      rw [place] at back
      exact back
  refine ⟨holds.front.current, holds.front.full, fun place => (rest place).1, fun place => ?_⟩
  obtain ⟨none, parts, whole, increasing, onDisk, lines⟩ := rest place
  refine ⟨parts, whole, increasing, onDisk, lines, fun now small => ?_⟩
  have same : parts.flatMap Part.disk = parts.flatMap Part.text :=
    List.flatMap_congr fun part member => (onDisk part member).2 now
  rw [same, parts_text lines now, texts_small small]
  unfold Ledger.taken
  rw [none, List.append_nil]

/-- A new logging. -/
theorem holds_make (host : Host) (base : List UInt8) (rollSize : Int) (older : Directory)
    (healthy : Prop) : Holds host base rollSize older healthy
    (AsyncLogging.make older : AsyncLogging SIZE) ⟨[], ⟨[], 0⟩, [], []⟩ := by
  refine ⟨⟨rfl, rfl, ?_, fun none => by cases none⟩, ⟨⟨rfl, rfl, rfl⟩, rfl⟩, fun _ => rfl⟩
  intro buffer there
  rw [← Option.some.inj there]
  rfl

/-- A step adds its message. -/
theorem LogEvent.Moves.messages {event : LogEvent} {place place' : Place}
    (moves : event.Moves SIZE place place' ledger ledger') :
    ledger'.taken ++ ledger'.left = ledger.taken ++ ledger.left ++ event.message SIZE := by
  cases moves with
  | leaves _ taken left => rw [taken, left, List.append_assoc]
  | takes _ _ take taken left =>
    rcases take with rfl | rfl <;> rw [taken, left] <;> rfl

/-- A run keeps the ledger. -/
theorem Holds.run {trace : List LogEvent} (holds : Holds host base rollSize older healthy log ledger)
    (plain : 47 ∉ base) (run : Run (LogStep host base rollSize) log trace log')
    (sound : ∀ event ∈ trace, event.Sound host base older)
    (fine : healthy → ∀ event ∈ trace, event.Fine) :
    ∃ ledger', Holds host base rollSize older healthy log' ledger' ∧
      ledger'.taken ++ ledger'.left =
        ledger.taken ++ ledger.left ++ trace.flatMap (LogEvent.message SIZE) := by
  induction run with
  | nil => exact ⟨ledger, holds, (List.append_nil _).symm⟩
  | snoc _ taken ih =>
    obtain ⟨middle, before, messages⟩ :=
      ih (fun event member => sound event (List.mem_append_left _ member))
        (fun now event member => fine now event (List.mem_append_left _ member))
    obtain ⟨log', ledger', done, after, moves⟩ := before.step plain taken.1
      (sound _ (List.mem_append_right _ List.mem_cons_self))
      (fun now => fine now _ (List.mem_append_right _ List.mem_cons_self))
    rw [← Option.some.inj (done.symm.trans taken.2)]
    refine ⟨ledger', after, ?_⟩
    rw [moves.messages, messages, List.flatMap_append, List.flatMap_singleton, List.append_assoc]

/-- A step that may happen does not fail. -/
theorem Holds.enabled (holds : Holds host base rollSize older False log ledger) (plain : 47 ∉ base)
    {event : LogEvent} (enabled : log.Enabled event) (sound : event.Sound host base older) :
    ∃ next, LogStep host base rollSize log event next := by
  obtain ⟨next, -, done, -⟩ := holds.step plain enabled sound False.elim
  exact ⟨next, enabled, done⟩

/-- Three messages and a `stop`; the first call of `fwrite` takes nothing, and the second a byte. -/
def beforeStop : List LogEvent :=
  [.append (bytes "one"), .start, .countDown, .append (bytes "second"), .create 1665187200 true,
    .check none none, .lock, .count 0 ⟨[], 0, 0, 0, true, none⟩,
    .write ⟨[0, 1], 2, 0, 0, true, none⟩, .append (bytes "third"),
    .write ⟨[], 0, 0, 0, true, none⟩, .stop]

/-- A fourth message, and the end of the thread. -/
def afterStop : List LogEvent := [.append (bytes "fourth"), .recycle none, .check none none]

/-- The names of a log that begins in an empty directory are new. -/
theorem fourMessages_sound :
    ∀ event ∈ beforeStop ++ afterStop, event.Sound ⟨bytes "host", 42⟩ (bytes "log") [] := by
  intro event member
  cases event with
  | create now opens =>
    obtain ⟨rfl, rfl⟩ : now = 1665187200 ∧ opens = true := by
      simpa [beforeStop, afterStop] using member
    exact ⟨by decide, fun _ _ => List.not_mem_nil, rfl⟩
  | count now io =>
    obtain ⟨rfl, rfl⟩ : now = 0 ∧ io = ⟨[], 0, 0, 0, true, none⟩ := by
      simpa [beforeStop, afterStop] using member
    rfl
  | write io =>
    have first : io = ⟨[0, 1], 2, 0, 0, true, none⟩ ∨ io = ⟨[], 0, 0, 0, true, none⟩ := by
      simpa [beforeStop, afterStop] using member
    rcases first with rfl | rfl <;> rfl
  | _ => trivial

/-- The steps of the thread. -/
def LogEvent.ofThread : LogEvent → Bool
  | .append _ | .start | .stop => false
  | _ => true

/-- How many steps the thread has before it, at most, when the logging is stopped, from a place with a
number of buffers to write. -/
def Place.remaining (buffers : Nat) : Place → Nat
  | .unborn | .entry | .done => 0
  | .opening => 2
  | .loop => 1
  | .entering => 30
  | .waiting => 29
  | .counting => 28
  | .writing count => buffers - count + 2

/-- How many steps the thread has before it, at most, when the logging is stopped. -/
def Thread.remaining (thread : Thread SIZE) : Nat :=
  thread.place.remaining thread.buffersToWrite.length

/-- The logging is stopped after its thread began. -/
structure Stopped (log : AsyncLogging SIZE) : Prop where
  /-- It does not run. -/
  running : log.running = false
  /-- It was started. -/
  started : log.started = true
  /-- The thread was started. -/
  born : log.thread.place ≠ .unborn
  /-- It counted the latch down. -/
  entered : log.thread.place ≠ .entry

/-- An append to the file leaves the buffers. -/
theorem appendOutput_buffersToWrite {thread thread' : Thread SIZE} {io : Io} {text : List UInt8}
    (done : thread.appendOutput host io text = some thread') :
    thread'.buffersToWrite = thread.buffersToWrite := by
  unfold Thread.appendOutput at done
  split at done
  · cases done
  · split at done
    · cases done
    · rw [← Option.some.inj done]

/-- No more than 25 buffers are written. -/
theorem count_few {thread thread' : Thread SIZE} {now : Int} {io : Io}
    (done : thread.count host now io = some thread') :
    thread'.place = .writing 0 ∧ thread'.buffersToWrite.length ≤ 25 := by
  unfold Thread.count at done
  split_ifs at done with none many
  · split at done
    · cases done
    · rw [← Option.some.inj done]
      refine ⟨rfl, ?_⟩
      show (List.take 2 _).length ≤ 25
      rw [List.length_take]
      omega
  · rw [← Option.some.inj done]
    refine ⟨rfl, ?_⟩
    show thread.buffersToWrite.length ≤ 25
    omega

/-- A buffer less is to be written. -/
theorem write_next {thread thread' : Thread SIZE} {count : Nat} {io : Io}
    (done : thread.write host count io = some thread') :
    thread'.place = .writing (count + 1) ∧ thread'.buffersToWrite = thread.buffersToWrite := by
  unfold Thread.write at done
  split at done
  · split at done
    · cases done
    · next appended =>
      rw [← Option.some.inj done]
      exact ⟨rfl, (appendOutput_buffersToWrite appended :)⟩
  · cases done

/-- The thread comes back to the head of its loop. -/
theorem recycle_place {thread thread' : Thread SIZE} {failure : Option Nat}
    (done : thread.recycle failure = some thread') : thread'.place = .loop := by
  unfold Thread.recycle at done
  split at done
  · cases done
  · split at done
    · cases done
    · split at done
      · cases done
      · rw [← Option.some.inj done]

/-- The thread comes to its loop. -/
theorem create_place {thread thread' : Thread SIZE} {now : Int} {opens : Bool}
    (done : thread.create host base rollSize now opens = some thread') : thread'.place = .loop := by
  unfold Thread.create at done
  split at done
  · cases done
  · rw [← Option.some.inj done]

/-- The loop ends when the logging does not run. -/
theorem check_place {thread thread' : Thread SIZE} {failure closing : Option Nat}
    (done : thread.check false failure closing = some thread') : thread'.place = .done := by
  obtain ⟨flushed, -, returned⟩ := Option.map_eq_some_iff.mp done
  rw [← returned]
  unfold Thread.finish
  split <;> rfl

/-- An append leaves the thread. -/
theorem append_thread {logline : List UInt8} (done : log.append logline = some log') :
    log'.thread = log.thread ∧ log'.running = log.running ∧ log'.started = log.started := by
  unfold AsyncLogging.append at done
  split at done
  · cases done
  · split at done <;> rw [← Option.some.inj done] <;> exact ⟨rfl, rfl, rfl⟩

/-- The thread of a logging went on. -/
theorem withThread_some {thread : Option (Thread SIZE)} (done : log.withThread thread = some log') :
    ∃ thread', thread = some thread' ∧ log'.thread = thread' ∧ log'.running = log.running ∧
      log'.started = log.started := by
  obtain ⟨thread', some, same⟩ := Option.map_eq_some_iff.mp done
  rw [← same]
  exact ⟨thread', some, rfl, rfl, rfl⟩

/-- A stopped logging stays stopped; its thread comes nearer to its end, and does not take the mutex
again. -/
theorem Stopped.step (stopped : Stopped log) {event : LogEvent}
    (step : LogStep host base rollSize log event log') :
    Stopped log' ∧ (log.thread.place.Past → log'.thread.place.Past) ∧
      (if event.ofThread then 1 else 0) + log'.thread.remaining ≤ log.thread.remaining := by
  obtain ⟨enabled, done⟩ := step
  have same : log'.thread = log.thread → log'.running = false → log'.started = log.started →
      event.ofThread = false →
      Stopped log' ∧ (log.thread.place.Past → log'.thread.place.Past) ∧
        (if event.ofThread then 1 else 0) + log'.thread.remaining ≤ log.thread.remaining := by
    intro thread running started other
    rw [thread, other]
    exact ⟨⟨running, started.trans stopped.started, thread ▸ stopped.born,
      thread ▸ stopped.entered⟩, id, by simp⟩
  have goes : ∀ {place place' : Place}, log.thread.place = place → log'.thread.place = place' →
      log'.running = log.running ∧ log'.started = log.started → event.ofThread = true →
      place' ≠ .unborn → place' ≠ .entry → (place.Past → place'.Past) →
      place'.remaining log'.thread.buffersToWrite.length <
        place.remaining log.thread.buffersToWrite.length →
      Stopped log' ∧ (log.thread.place.Past → log'.thread.place.Past) ∧
        (if event.ofThread then 1 else 0) + log'.thread.remaining ≤ log.thread.remaining := by
    intro place place' before after kept own born entered past less
    unfold Thread.remaining
    rw [before, after, own]
    refine ⟨⟨kept.1.trans stopped.running, kept.2.trans stopped.started, after ▸ born,
      after ▸ entered⟩, past, ?_⟩
    show 1 + _ ≤ _
    omega
  cases event with
  | append logline =>
    obtain ⟨thread, running, started⟩ := append_thread done
    exact same thread (running.trans stopped.running) started rfl
  | start => cases stopped.started.symm.trans enabled
  | countDown => exact absurd enabled stopped.entered
  | create now opens =>
    obtain ⟨thread', made, rfl, kept⟩ := withThread_some done
    exact goes enabled (create_place made) kept rfl (by decide) (by decide)
      (fun _ => by decide) Nat.one_lt_two
  | check failure closing =>
    obtain ⟨thread', checked, rfl, kept⟩ := withThread_some done
    rw [stopped.running] at checked
    exact goes enabled (check_place checked) kept rfl (by decide) (by decide)
      (fun _ => by decide) Nat.zero_lt_one
  | lock =>
    have before : ¬Place.entering.Past := by decide
    by_cases none : log.buffers.isEmpty = true
    · rw [← Option.some.inj ((if_pos none).symm.trans done)] at goes ⊢
      exact goes enabled (show _ = Place.waiting from rfl) ⟨rfl, rfl⟩ rfl (by decide) (by decide)
        (fun past => absurd past before) (Nat.lt_succ_self 29)
    · rw [← Option.some.inj ((if_neg none).symm.trans done)] at goes ⊢
      exact goes enabled takeBuffers_place.1 takeBuffers_place.2 rfl (by decide) (by decide)
        (fun past => absurd past before) (show 28 < 30 by omega)
  | wake =>
    rw [← Option.some.inj done] at goes ⊢
    exact goes enabled takeBuffers_place.1 takeBuffers_place.2 rfl (by decide) (by decide)
      (fun past => absurd past (by decide)) (Nat.lt_succ_self 28)
  | count now io =>
    obtain ⟨thread', counted, rfl, kept⟩ := withThread_some done
    obtain ⟨place, few⟩ := count_few counted
    refine goes enabled place kept rfl (by decide) (by decide) (fun _ => by decide) ?_
    show log'.thread.buffersToWrite.length - 0 + 2 < 28
    omega
  | write io =>
    obtain ⟨count, place, more⟩ := enabled
    have wrote : log.withThread (log.thread.write host count io) = some log' := by
      simpa only [AsyncLogging.exec, place] using done
    obtain ⟨thread', wrote, rfl, kept⟩ := withThread_some wrote
    obtain ⟨place', alike⟩ := write_next wrote
    refine goes place place' kept rfl (by simp) (by simp) (fun _ => by simp [Place.Past]) ?_
    rw [alike]
    show log.thread.buffersToWrite.length - (count + 1) + 2 <
      log.thread.buffersToWrite.length - count + 2
    omega
  | recycle failure =>
    obtain ⟨count, place, -⟩ := enabled
    obtain ⟨thread', recycled, rfl, kept⟩ := withThread_some done
    refine goes place (recycle_place recycled) kept rfl (by decide) (by decide)
      (fun _ => by decide) ?_
    show 1 < log.thread.buffersToWrite.length - count + 2
    omega
  | stop =>
    have joins : (log.started && !log.joined) = true := by
      rw [stopped.started, enabled.2]
      rfl
    rw [← Option.some.inj ((if_pos joins).symm.trans done)] at same ⊢
    exact same rfl rfl rfl rfl

/-- A run of a stopped logging. -/
theorem Stopped.run (stopped : Stopped log) {trace : List LogEvent}
    (run : Run (LogStep host base rollSize) log trace log') :
    Stopped log' ∧ (log.thread.place.Past → log'.thread.place.Past) ∧
      trace.countP LogEvent.ofThread + log'.thread.remaining ≤ log.thread.remaining := by
  induction run with
  | nil => exact ⟨stopped, id, by simp⟩
  | snoc _ taken ih =>
    obtain ⟨before, past, fewer⟩ := ih
    obtain ⟨after, past', fewer'⟩ := before.step taken
    refine ⟨after, fun now => past' (past now), ?_⟩
    rw [List.countP_append, List.countP_singleton]
    omega

/-- The thread has a step before it, unless it has returned. -/
theorem exists_ofThread (born : log.thread.place ≠ .unborn) (unfinished : log.thread.place ≠ .done) :
    ∃ event, event.ofThread = true ∧ log.Enabled event := by
  cases place : log.thread.place with
  | unborn => exact absurd place born
  | entry => exact ⟨.countDown, rfl, place⟩
  | opening => exact ⟨.create 0 true, rfl, place⟩
  | loop => exact ⟨.check none none, rfl, place⟩
  | entering => exact ⟨.lock, rfl, place⟩
  | waiting => exact ⟨.wake, rfl, place⟩
  | counting => exact ⟨.count 0 ⟨[], 0, 0, 0, true, none⟩, rfl, place⟩
  | writing count =>
    by_cases more : count < log.thread.buffersToWrite.length
    · exact ⟨.write ⟨[], 0, 0, 0, true, none⟩, rfl, count, place, more⟩
    · exact ⟨.recycle none, rfl, count, place, by omega⟩
  | done => exact absurd place unfinished

/-- A thread that does not take the mutex again leaves what is left. -/
theorem Holds.abandons {trace : List LogEvent}
    (holds : Holds host base rollSize older healthy log ledger) (plain : 47 ∉ base)
    (stopped : Stopped log) (past : log.thread.place.Past)
    (run : Run (LogStep host base rollSize) log trace log')
    (sound : ∀ event ∈ trace, event.Sound host base older)
    (fine : healthy → ∀ event ∈ trace, event.Fine) :
    ∃ ledger', Holds host base rollSize older healthy log' ledger' ∧
      ledger'.taken = ledger.taken ∧
      ledger'.left = ledger.left ++ trace.flatMap (LogEvent.message SIZE) := by
  induction run with
  | nil => exact ⟨ledger, holds, rfl, (List.append_nil _).symm⟩
  | snoc before taken ih =>
    obtain ⟨middle, holds', same, left⟩ :=
      ih (fun event member => sound event (List.mem_append_left _ member))
        (fun now event member => fine now event (List.mem_append_left _ member))
    obtain ⟨-, keeps, -⟩ := stopped.run before
    obtain ⟨log', ledger', done, after, moves⟩ := holds'.step plain taken.1
      (sound _ (List.mem_append_right _ List.mem_cons_self))
      (fun now => fine now _ (List.mem_append_right _ List.mem_cons_self))
    rw [← Option.some.inj (done.symm.trans taken.2)]
    refine ⟨ledger', after, ?_⟩
    cases moves with
    | leaves _ taken left' =>
      refine ⟨taken.trans same, ?_⟩
      rw [left', left, List.flatMap_append, List.flatMap_singleton, List.append_assoc]
    | takes waits => exact absurd (keeps past) waits

/-- A thread that is to take the mutex once more takes what is left, and leaves what comes later. -/
theorem Holds.collects {trace : List LogEvent}
    (holds : Holds host base rollSize older healthy log ledger) (plain : 47 ∉ base)
    (stopped : Stopped log) (waits : ¬log.thread.place.Past)
    (run : Run (LogStep host base rollSize) log trace log')
    (sound : ∀ event ∈ trace, event.Sound host base older)
    (fine : healthy → ∀ event ∈ trace, event.Fine) :
    ∃ ledger', Holds host base rollSize older healthy log' ledger' ∧
      ((¬log'.thread.place.Past ∧ ledger'.taken = ledger.taken ∧
          ledger'.left = ledger.left ++ trace.flatMap (LogEvent.message SIZE)) ∨
        (log'.thread.place.Past ∧ ∃ early take late, trace = early ++ take :: late ∧
          (take = .lock ∨ take = .wake) ∧ (∀ event ∈ late, event ≠ .lock ∧ event ≠ .wake) ∧
          ledger'.taken =
            ledger.taken ++ ledger.left ++ early.flatMap (LogEvent.message SIZE) ∧
          ledger'.left = late.flatMap (LogEvent.message SIZE))) := by
  induction run with
  | nil => exact ⟨ledger, holds, .inl ⟨waits, rfl, (List.append_nil _).symm⟩⟩
  | @snoc trace state next label before taken ih =>
    obtain ⟨middle, holds', cases⟩ :=
      ih (fun event member => sound event (List.mem_append_left _ member))
        (fun now event member => fine now event (List.mem_append_left _ member))
    obtain ⟨log', ledger', done, after, moves⟩ := holds'.step plain taken.1
      (sound _ (List.mem_append_right _ List.mem_cons_self))
      (fun now => fine now _ (List.mem_append_right _ List.mem_cons_self))
    obtain ⟨-, keeps, -⟩ := (stopped.run before).1.step taken
    cases done.symm.trans taken.2
    refine ⟨ledger', after, ?_⟩
    cases cases with
    | inl first =>
      obtain ⟨waiting, same, left⟩ := first
      cases moves with
      | leaves stays taken' left' =>
        refine .inl ⟨fun past => waiting (stays past), taken'.trans same, ?_⟩
        rw [left', left, List.flatMap_append, List.flatMap_singleton, List.append_assoc]
      | takes _ goes take taken' left' =>
        refine .inr ⟨goes, trace, label, [], rfl, take,
          fun _ member => absurd member List.not_mem_nil, ?_, left'⟩
        rw [taken', same, left, List.append_assoc]
    | inr second =>
      obtain ⟨past, early, take, late, rfl, isTake, others, taken'', left''⟩ := second
      cases moves with
      | leaves _ taken' left' =>
        refine .inr ⟨keeps past, early, take, late ++ [label], List.append_assoc _ _ _, isTake, ?_,
          taken'.trans taken'', ?_⟩
        · intro event member
          rcases List.mem_append.mp member with earlier | isLast
          · exact others event earlier
          · rw [List.mem_singleton.mp isLast]
            refine ⟨?_, ?_⟩
            · rintro rfl
              exact past.1 taken.1
            · rintro rfl
              exact past.2 taken.1
        · rw [left', left'', List.flatMap_append, List.flatMap_singleton]
      | takes waits => exact absurd past waits

/-- At most 25 buffers of a batch are written. -/
theorem Batch.kept_length (batch : Batch) : batch.kept.length ≤ 25 := by
  unfold Batch.kept
  split_ifs with many
  · rw [List.length_take]
    omega
  · omega

/-- The thread has at most 30 steps before it. -/
theorem Holds.remaining_le (holds : Holds host base rollSize older healthy log ledger) :
    log.thread.remaining ≤ 30 := by
  unfold Thread.remaining
  cases place : log.thread.place with
  | writing count =>
    have back := holds.back
    rw [place] at back
    have few := ledger.hand.kept_length
    rw [← back.2.1.length] at few
    show log.thread.buffersToWrite.length - count + 2 ≤ 30
    omega
  | _ => simp [Place.remaining]

/-- After `stop` the thread has at most 30 more steps before it returns, always has one before that,
and none of them fails. If it is at the head of its loop or at work on a batch, or has not opened its
file yet, all that it has not taken is lost. If it is about to take the mutex or waits, it takes once
more, all that was appended until it takes the mutex for the last time. -/
theorem stop_run (plain : 47 ∉ base) {before after : List LogEvent}
    (run : Run (LogStep host base rollSize) (AsyncLogging.make older : AsyncLogging SIZE) before log)
    (stopped : log.running = false) (begun : log.latch = 0)
    (rest : Run (LogStep host base rollSize) log after log')
    (sound : ∀ event ∈ before ++ after, event.Sound host base older) :
    after.countP LogEvent.ofThread ≤ 30 ∧
    (log'.thread.place ≠ .done → ∃ event, event.ofThread = true ∧ log'.Enabled event) ∧
    (∀ event, event.ofThread = true → log'.Enabled event → event.Sound host base older →
      ∃ next, LogStep host base rollSize log' event next) ∧
    ∃ ledger ledger', Shows host base older (∀ event ∈ before ++ after, event.Fine) log ledger ∧
      Shows host base older (∀ event ∈ before ++ after, event.Fine) log' ledger' ∧
      ledger.taken ++ ledger.left = before.flatMap (LogEvent.message SIZE) ∧
      (log.thread.place.Past → ledger'.taken = ledger.taken ∧
        ledger'.left = ledger.left ++ after.flatMap (LogEvent.message SIZE)) ∧
      (¬log.thread.place.Past → log'.thread.place = .done →
        ∃ early take late, after = early ++ take :: late ∧ (take = .lock ∨ take = .wake) ∧
          (∀ event ∈ late, event ≠ .lock ∧ event ≠ .wake) ∧
          ledger'.taken = ledger.taken ++ ledger.left ++ early.flatMap (LogEvent.message SIZE) ∧
          ledger'.left = late.flatMap (LogEvent.message SIZE)) := by
  obtain ⟨ledger, holds, messages⟩ :=
    (holds_make host base rollSize older (∀ event ∈ before ++ after, event.Fine)).run plain run
      (fun event member => sound event (List.mem_append_left _ member))
      (fun now event member => now event (List.mem_append_left _ member))
  have sound' : ∀ event ∈ after, event.Sound host base older := fun event member =>
    sound event (List.mem_append_right _ member)
  have fine' : (∀ event ∈ before ++ after, event.Fine) → ∀ event ∈ after, event.Fine :=
    fun now event member => now event (List.mem_append_right _ member)
  have born : log.thread.place ≠ .unborn := by
    intro place
    have back := holds.back
    rw [place] at back
    exact absurd (begun.symm.trans back.2) (by decide)
  have entered : log.thread.place ≠ .entry := by
    intro place
    have back := holds.back
    rw [place] at back
    exact absurd (begun.symm.trans back.2.1) (by decide)
  have started : log.started = true := by
    cases unborn : log.started with
    | false => exact absurd (holds.started unborn) born
    | true => rfl
  have halted : Stopped log := ⟨stopped, started, born, entered⟩
  obtain ⟨halted', -, fewer⟩ := halted.run rest
  obtain ⟨_, works, -⟩ :=
    (holds_make host base rollSize older False).run plain run
      (fun event member => sound event (List.mem_append_left _ member)) False.elim
  obtain ⟨_, works', -⟩ := works.run plain rest sound' False.elim
  have most := holds.remaining_le
  refine ⟨by omega, exists_ofThread halted'.born,
    fun event _ enabled due => works'.enabled plain enabled due, ledger, ?_⟩
  by_cases past : log.thread.place.Past
  · obtain ⟨ledger', after', taken, left⟩ := holds.abandons plain halted past rest sound' fine'
    exact ⟨ledger', holds.shows, after'.shows, messages, fun _ => ⟨taken, left⟩,
      fun waits => absurd past waits⟩
  · obtain ⟨ledger', after', cases⟩ := holds.collects plain halted past rest sound' fine'
    refine ⟨ledger', holds.shows, after'.shows, messages, fun past' => absurd past' past,
      fun _ returned => ?_⟩
    rcases cases with ⟨waits, -⟩ | ⟨-, found⟩
    · rw [returned] at waits
      exact absurd (by decide) waits
    · exact found

/-- The third message was appended before `stop`, and is lost with the fourth. -/
theorem stop_run_lost :
    ∃ (log' : AsyncLogging 8) (ledger ledger' : Ledger), log'.thread.place = .done ∧
      Shows ⟨bytes "host", 42⟩ (bytes "log") [] (∀ event ∈ beforeStop ++ afterStop, event.Fine)
        log' ledger' ∧
      ledger.taken ++ ledger.left = [bytes "one", bytes "second", bytes "third"] ∧
      ledger'.taken = ledger.taken ∧ ledger'.left = ledger.left ++ [bytes "fourth"] := by
  obtain ⟨log, before, stopped, begun, past, log', after, place⟩ :
      ∃ log, (AsyncLogging.make [] : AsyncLogging 8).replay ⟨bytes "host", 42⟩ (bytes "log") 100
        beforeStop = some log ∧ log.running = false ∧ log.latch = 0 ∧ log.thread.place.Past ∧
        ∃ log', log.replay ⟨bytes "host", 42⟩ (bytes "log") 100 afterStop = some log' ∧
          log'.thread.place = .done :=
    ⟨_, rfl, rfl, rfl, ⟨by simp, by simp⟩, _, rfl, rfl⟩
  obtain ⟨-, -, -, ledger, ledger', -, shows, messages, lost, -⟩ := stop_run (by decide)
    (run_of_replay before) stopped begun (run_of_replay after) fourMessages_sound
  obtain ⟨taken, left⟩ := lost past
  exact ⟨log', ledger, ledger', place, shows, messages.trans (by decide), taken, left⟩

end BackendCpp.MuduoLog
