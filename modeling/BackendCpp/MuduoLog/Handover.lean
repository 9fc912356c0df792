import BackendCpp.Library.Run
import BackendCpp.MuduoLog.AsyncLogging

/-!
# Runs of the asynchronous logging

What the runs are about is kept in a `Ledger`: the messages in the current buffer, in the full buffers,
in the batch that the thread has in hand, and in the batches that it has written. A step moves
messages from one place of the ledger to the next, in order, and only `append` adds one. So none is
lost or doubled on the way to a batch, whatever the order of the steps; a batch of more than 25
buffers is written as a notice and its first two buffers.
-/

namespace BackendCpp.MuduoLog

open BackendCpp.Library

/-- A message. -/
abbrev Message := List UInt8

/-- The messages of a buffer. -/
abbrev Full := List Message

/-- The buffers that the thread takes at once. -/
structure Batch where
  /-- The messages of the buffers. -/
  buffers : List Full
  /-- The clock when they are counted. -/
  now : Int
  deriving DecidableEq

/-- The buffers of a batch that are written. -/
def Batch.kept (batch : Batch) : List Full :=
  if batch.buffers.length > 25 then batch.buffers.take 2 else batch.buffers

/-- The notice of a batch that is too large. -/
def Batch.notice (batch : Batch) : List (List UInt8) :=
  if batch.buffers.length > 25 then [dropped batch.now (batch.buffers.length - 2)] else []

/-- The texts that a batch appends to the log. -/
def Batch.texts (batch : Batch) : List (List UInt8) :=
  batch.notice ++ batch.kept.map List.flatten

/-- Where the messages are. -/
structure Ledger where
  /-- Batches that the thread has written. -/
  written : List Batch
  /-- The batch that it has in hand, or none. -/
  hand : Batch
  /-- Full buffers. -/
  full : List Full
  /-- The messages of the current buffer. -/
  current : Full
  deriving DecidableEq

/-- The messages that the thread has taken. -/
def Ledger.taken (ledger : Ledger) : List Message :=
  (ledger.written.flatMap Batch.buffers ++ ledger.hand.buffers).flatten

/-- The messages that are left for it. -/
def Ledger.left (ledger : Ledger) : List Message := ledger.full.flatten ++ ledger.current

/-- The message that an event adds: `FixedBuffer::append` drops one that is longer than a buffer. -/
def LogEvent.message (SIZE : Nat) : LogEvent → List Message
  | .append logline => if logline.length < SIZE then [logline] else []
  | _ => []

/-- The thread takes no buffers before it is at the head of its loop again. -/
def Place.Past (place : Place) : Prop := place ≠ .entering ∧ place ≠ .waiting

instance (place : Place) : Decidable place.Past :=
  inferInstanceAs (Decidable (place ≠ .entering ∧ place ≠ .waiting))

/-- A step adds its message to what is left, or the thread takes all that is left. -/
inductive LogEvent.Moves (SIZE : Nat) (event : LogEvent) (place place' : Place)
    (ledger ledger' : Ledger) : Prop where
  /-- The thread takes nothing. -/
  | leaves (stays : place'.Past → place.Past) (taken : ledger'.taken = ledger.taken)
      (left : ledger'.left = ledger.left ++ event.message SIZE)
  /-- The thread takes the mutex, or its wait ends. -/
  | takes (waits : ¬place.Past) (goes : place'.Past) (event : event = .lock ∨ event = .wake)
      (taken : ledger'.taken = ledger.taken ++ ledger.left) (left : ledger'.left = [])

section relation

variable {SIZE : Nat} {host : Host} {base : List UInt8} {rollSize : Int} {older : Directory}
  {healthy : Prop} {log : AsyncLogging SIZE} {ledger : Ledger}

/-- Pointers to buffers with these messages. -/
def Points (pointers : List (BufferPtr SIZE)) (buffers : List Full) : Prop :=
  pointers.map (Option.map FixedBuffer.data) = buffers.map fun buffer => some buffer.flatten

/-- What the mutex guards. -/
structure Front (log : AsyncLogging SIZE) (ledger : Ledger) : Prop where
  /-- The current buffer is there. -/
  current : Points [log.currentBuffer] [ledger.current]
  /-- The full buffers are there. -/
  full : Points log.buffers ledger.full
  /-- The next buffer is empty. -/
  next : ∀ buffer, log.nextBuffer = some buffer → buffer.data = []
  /-- It was taken for a full one. -/
  taken : log.nextBuffer = none → ledger.full ≠ []

/-- The log has these texts: their beginnings, and all of them when nothing fails. -/
def Printed (host : Host) (base : List UInt8) (rollSize : Int) (older : Directory) (healthy : Prop)
    (thread : Thread SIZE) (flushed : Prop) (texts : List (List UInt8)) : Prop :=
  ∃ start output init last, Unused host base start older ∧ thread.output = some output ∧
    Good host base rollSize start older healthy output thread.directory init last ∧
    last.Open rollSize ∧
    List.Forall₂ (fun line text => line.text <+: text ∧ (healthy → line.text = text))
      (allLines (init ++ [last])) texts ∧
    (flushed → healthy → last.disk = last.text)

/-- The texts are in the files: their beginnings, and all of them when nothing fails. -/
def Filed (host : Host) (base : List UInt8) (older : Directory) (healthy : Prop)
    (directory : Directory) (texts : List (List UInt8)) : Prop :=
  ∃ parts : List Part, directory = older ++ parts.map (Part.entry host base) ∧
    parts.Pairwise (fun one other => one.created < other.created) ∧
    (∀ part ∈ parts, part.disk <+: part.text ∧ (healthy → part.disk = part.text)) ∧
    List.Forall₂ (fun line text => line.text <+: text ∧ (healthy → line.text = text))
      (allLines parts) texts

/-- The thread has no batch, and both of its buffers are empty. -/
structure Idle (host : Host) (base : List UInt8) (rollSize : Int) (older : Directory)
    (healthy : Prop) (thread : Thread SIZE) (written : List Batch) (hand : Batch) : Prop where
  /-- No batch is in hand. -/
  inHand : hand.buffers = []
  /-- The first assertion of the loop. -/
  newBuffer1 : isEmpty thread.newBuffer1 = true
  /-- The second assertion of the loop. -/
  newBuffer2 : isEmpty thread.newBuffer2 = true
  /-- The third assertion of the loop. -/
  buffersToWrite : thread.buffersToWrite = []
  /-- The batches are in the files. -/
  printed : Printed host base rollSize older healthy thread True (written.flatMap Batch.texts)

/-- The thread has a batch, and one or two buffers less. -/
structure Busy (thread : Thread SIZE) (hand : Batch) : Prop where
  /-- A batch is in hand. -/
  inHand : hand.buffers ≠ []
  /-- The first buffer is given away. -/
  newBuffer1 : thread.newBuffer1 = none
  /-- The second is empty, if it is there. -/
  newBuffer2 : ∀ buffer, thread.newBuffer2 = some buffer → buffer.data = []
  /-- It was given away for one that was full. -/
  two : thread.newBuffer2 = none → 2 ≤ hand.buffers.length

/-- Nothing has been written. -/
structure Begun (older : Directory) (thread : Thread SIZE) (written : List Batch) (hand : Batch) :
    Prop where
  /-- The directory is as it was. -/
  directory : thread.directory = older
  /-- No batch was written. -/
  written : written = []
  /-- No batch is in hand. -/
  inHand : hand.buffers = []

/-- What the thread has, by its place. -/
def Back (host : Host) (base : List UInt8) (rollSize : Int) (older : Directory) (healthy : Prop)
    (running : Bool) (latch : Int) (thread : Thread SIZE) (written : List Batch) (hand : Batch) :
    Place → Prop
  | .unborn => Begun older thread written hand ∧ latch = 1
  | .entry => Begun older thread written hand ∧ latch = 1 ∧ running = true
  | .opening => Begun older thread written hand
  | .loop | .entering | .waiting => Idle host base rollSize older healthy thread written hand
  | .counting => Busy thread hand ∧ Points thread.buffersToWrite hand.buffers ∧
      Printed host base rollSize older healthy thread False (written.flatMap Batch.texts)
  | .writing count => Busy thread hand ∧ Points thread.buffersToWrite hand.kept ∧
      Printed host base rollSize older healthy thread False
        (written.flatMap Batch.texts ++ hand.notice ++ (hand.kept.take count).map List.flatten)
  | .done => hand.buffers = [] ∧
      Filed host base older healthy thread.directory (written.flatMap Batch.texts)

/-- The logging and its ledger. -/
structure Holds (host : Host) (base : List UInt8) (rollSize : Int) (older : Directory)
    (healthy : Prop) (log : AsyncLogging SIZE) (ledger : Ledger) : Prop where
  /-- What the mutex guards. -/
  front : Front log ledger
  /-- What the thread has. -/
  back : Back host base rollSize older healthy log.running log.latch log.thread ledger.written
    ledger.hand log.thread.place
  /-- Nothing runs before the start. -/
  started : log.started = false → log.thread.place = .unborn

/-- The messages of one buffer more. -/
theorem Points.snoc {pointers : List (BufferPtr SIZE)} {buffers : List Full}
    {pointer : BufferPtr SIZE} {full : Full} (points : Points pointers buffers)
    (last : Points [pointer] [full]) : Points (pointers ++ [pointer]) (buffers ++ [full]) := by
  unfold Points at points last ⊢
  rw [List.map_append, List.map_append, points, last]

/-- As many pointers as buffers. -/
theorem Points.length {pointers : List (BufferPtr SIZE)} {buffers : List Full}
    (points : Points pointers buffers) : pointers.length = buffers.length := by
  have same := congrArg List.length points
  rwa [List.length_map, List.length_map] at same

/-- One pointer to a buffer. -/
theorem points_singleton {pointer : BufferPtr SIZE} {full : Full} :
    Points [pointer] [full] ↔ ∃ buffer, pointer = some buffer ∧ buffer.data = full.flatten := by
  unfold Points
  cases pointer <;> simp

/-- A message comes whole into a buffer, when it is shorter than the room. -/
theorem points_append {buffer : FixedBuffer SIZE} {full : Full} {logline : List UInt8}
    (points : Points [some buffer] [full]) (room : buffer.avail > logline.length) :
    Points [some (buffer.append logline)] [full ++ [logline]] := by
  obtain ⟨same, equal, data⟩ := points_singleton.mp points
  refine points_singleton.mpr ⟨_, rfl, ?_⟩
  rw [FixedBuffer.append_data, if_pos room, Option.some.inj equal, data]
  simp

/-- An append to an empty buffer. -/
theorem points_empty {buffer : FixedBuffer SIZE} (empty : buffer.data = [])
    (logline : List UInt8) :
    Points [some (buffer.append logline)] [LogEvent.message SIZE (.append logline)] := by
  have room : buffer.avail = SIZE := by
    unfold FixedBuffer.avail
    rw [empty]
    rfl
  refine points_singleton.mpr ⟨_, rfl, ?_⟩
  rw [FixedBuffer.append_data, room, empty]
  unfold LogEvent.message
  simp only
  split_ifs <;> simp

/-- `append` adds its message, and touches nothing of the thread. -/
theorem Front.append (front : Front log ledger) (logline : List UInt8) :
    ∃ log' ledger', log.append logline = some log' ∧ Front log' ledger' ∧
      ledger'.left = ledger.left ++ LogEvent.message SIZE (.append logline) ∧
      log'.running = log.running ∧ log'.latch = log.latch ∧ log'.thread = log.thread ∧
      log'.started = log.started ∧ ledger'.written = ledger.written ∧
      ledger'.hand = ledger.hand := by
  obtain ⟨current, there, data⟩ := points_singleton.mp front.current
  unfold AsyncLogging.append
  rw [there]
  by_cases room : current.avail > logline.length
  · have small : logline.length < SIZE := by
      unfold FixedBuffer.avail at room
      omega
    refine ⟨_, { ledger with current := ledger.current ++ [logline] }, if_pos room,
      ⟨points_append (there ▸ front.current) room, front.full, front.next, front.taken⟩, ?_, rfl,
      rfl, rfl, rfl, rfl, rfl⟩
    unfold LogEvent.message Ledger.left
    simp only [if_pos small, List.append_assoc]
  · have full : Points (log.buffers ++ [some current]) (ledger.full ++ [ledger.current]) :=
      front.full.snoc (there ▸ front.current)
    have fresh : ∀ buffer : FixedBuffer SIZE, buffer.data = [] →
        Front { log with buffers := log.buffers ++ [some current], nextBuffer := none
                         currentBuffer := some (buffer.append logline) }
          { ledger with full := ledger.full ++ [ledger.current]
                        current := LogEvent.message SIZE (.append logline) } := by
      intro buffer empty
      exact ⟨points_empty empty logline, full, fun _ gone => absurd gone (by simp),
        fun _ => by simp⟩
    refine ⟨_, { ledger with full := ledger.full ++ [ledger.current]
                             current := LogEvent.message SIZE (.append logline) }, if_neg room,
      fresh _ ?_, ?_, rfl, rfl, rfl, rfl, rfl, rfl⟩
    · cases next : log.nextBuffer with
      | none => rfl
      | some buffer => exact front.next buffer next
    · unfold Ledger.left
      simp only [List.flatten_append, List.flatten_singleton]

/-- What is printed depends on the log file and the directory. -/
theorem Printed.congr {thread thread' : Thread SIZE} {flushed flushed' : Prop}
    {texts : List (List UInt8)}
    (printed : Printed host base rollSize older healthy thread flushed texts)
    (output : thread'.output = thread.output) (directory : thread'.directory = thread.directory)
    (less : flushed' → flushed) :
    Printed host base rollSize older healthy thread' flushed' texts := by
  obtain ⟨start, file, init, last, unused, there, good, isOpen, lines, whole⟩ := printed
  rw [← output] at there
  rw [← directory] at good
  exact ⟨start, file, init, last, unused, there, good, isOpen, lines, fun now => whole (less now)⟩

/-- An empty buffer. -/
theorem isEmpty_iff {pointer : BufferPtr SIZE} :
    isEmpty pointer = true ↔ ∃ buffer, pointer = some buffer ∧ buffer.data = [] := by
  unfold isEmpty
  cases pointer <;> simp

/-- The buffers of the critical section are to be counted. -/
theorem takeBuffers_place : log.takeBuffers.thread.place = .counting ∧
    log.takeBuffers.running = log.running ∧ log.takeBuffers.started = log.started := by
  unfold AsyncLogging.takeBuffers
  cases log.nextBuffer <;> exact ⟨rfl, rfl, rfl⟩

/-- The critical section of the thread takes all messages that there are. -/
theorem Holds.takeBuffers (front : Front log ledger) (started : log.started = true)
    (idle : Idle host base rollSize older healthy log.thread ledger.written ledger.hand) :
    ∃ ledger', Holds host base rollSize older healthy log.takeBuffers ledger' ∧
      ledger'.taken = ledger.taken ++ ledger.left ∧ ledger'.left = [] := by
  obtain ⟨one, newBuffer1, empty1⟩ := isEmpty_iff.mp idle.newBuffer1
  obtain ⟨two, newBuffer2, empty2⟩ := isEmpty_iff.mp idle.newBuffer2
  have hand : Points (log.buffers ++ [log.currentBuffer]) (ledger.full ++ [ledger.current]) :=
    front.full.snoc front.current
  let ledger' : Ledger :=
    { written := ledger.written, hand := ⟨ledger.full ++ [ledger.current], 0⟩, full := []
      current := [] }
  have same : ledger'.taken = ledger.taken ++ ledger.left := by
    unfold Ledger.taken Ledger.left
    rw [idle.inHand]
    simp [ledger']
  have current : Points [log.thread.newBuffer1] [([] : Full)] :=
    points_singleton.mpr ⟨one, newBuffer1, empty1⟩
  have full : Points log.thread.buffersToWrite ([] : List Full) := by
    rw [idle.buffersToWrite]
    rfl
  cases next : log.nextBuffer with
  | some buffer =>
    have takes : log.takeBuffers = { log with
        currentBuffer := log.thread.newBuffer1
        buffers := log.thread.buffersToWrite
        thread := { log.thread with
          newBuffer1 := none
          buffersToWrite := log.buffers ++ [log.currentBuffer]
          place := .counting } } := by
      unfold AsyncLogging.takeBuffers
      simp only [next]
    refine ⟨ledger', ?_, same, rfl⟩
    rw [takes]
    refine ⟨⟨current, full, front.next, fun gone => ?_⟩, ⟨⟨by simp [ledger'], rfl, ?_, ?_⟩, hand,
      idle.printed.congr rfl rfl False.elim⟩, fun unborn => by cases started.symm.trans unborn⟩
    · rw [next] at gone
      cases gone
    · intro buffer' there
      rw [newBuffer2] at there
      rw [← Option.some.inj there]
      exact empty2
    · intro gone
      rw [newBuffer2] at gone
      cases gone
  | none =>
    have takes : log.takeBuffers = { log with
        currentBuffer := log.thread.newBuffer1
        nextBuffer := log.thread.newBuffer2
        buffers := log.thread.buffersToWrite
        thread := { log.thread with
          newBuffer1 := none
          newBuffer2 := none
          buffersToWrite := log.buffers ++ [log.currentBuffer]
          place := .counting } } := by
      unfold AsyncLogging.takeBuffers
      simp only [next]
    refine ⟨ledger', ?_, same, rfl⟩
    rw [takes]
    refine ⟨⟨current, full, ?_, ?_⟩, ⟨⟨by simp [ledger'], rfl, fun _ gone => ?_, fun _ => ?_⟩, hand,
      idle.printed.congr rfl rfl False.elim⟩, fun unborn => by cases started.symm.trans unborn⟩
    · intro buffer there
      have found := newBuffer2.symm.trans there
      rw [← Option.some.inj found]
      exact empty2
    · intro gone
      rw [newBuffer2] at gone
      cases gone
    · cases gone
    · have some := List.length_pos_of_ne_nil (front.taken next)
      simp only [ledger', List.length_append, List.length_singleton]
      omega

/-- Only the file and the directory are changed. -/
structure Alike (thread thread' : Thread SIZE) : Prop where
  /-- The thread stands where it stood. -/
  place : thread'.place = thread.place
  /-- The first buffer stays. -/
  newBuffer1 : thread'.newBuffer1 = thread.newBuffer1
  /-- The second buffer stays. -/
  newBuffer2 : thread'.newBuffer2 = thread.newBuffer2
  /-- The buffers that it has taken stay. -/
  buffersToWrite : thread'.buffersToWrite = thread.buffersToWrite

/-- A text is appended to the file, which can be opened if the log rolls. -/
theorem Printed.append {thread : Thread SIZE} {flushed : Prop} {texts : List (List UInt8)}
    (printed : Printed host base rollSize older healthy thread flushed texts) {io : Io}
    (opens : io.opens = true) (fine : healthy → io.Fine) (text : List UInt8) :
    ∃ thread', thread.appendOutput host io text = some thread' ∧ Alike thread thread' ∧
      Printed host base rollSize older healthy thread' False (texts ++ [text]) := by
  obtain ⟨start, output, init, last, unused, there, good, isOpen, lines, -⟩ := printed
  rcases good.append isOpen unused io (fun now => (fine now).failure) text with
    ⟨-, shut⟩ | ⟨output', directory', init', last', appended, same, isOpen', good'⟩
  · rw [opens] at shut
    cases shut
  · obtain ⟨begins, all⟩ := accepted_prefix io.counts text
    refine ⟨{ thread with output := some output', directory := directory' }, ?_,
      ⟨rfl, rfl, rfl, rfl⟩, start, output', init', last', unused, rfl, good', isOpen', ?_,
      False.elim⟩
    · unfold Thread.appendOutput
      simp only [there, appended]
    · rw [same]
      exact List.rel_append lines (.cons ⟨begins, fun now => all (fine now).counts⟩ .nil)

/-- The file is flushed. -/
theorem Printed.flush {thread : Thread SIZE} {flushed : Prop} {texts : List (List UInt8)}
    (printed : Printed host base rollSize older healthy thread flushed texts)
    {failure : Option Nat} (fine : healthy → failure = none) :
    ∃ thread', thread.flushOutput failure = some thread' ∧ Alike thread thread' ∧
      Printed host base rollSize older healthy thread' True texts := by
  obtain ⟨start, output, init, last, unused, there, good, isOpen, lines, -⟩ := printed
  obtain ⟨output', directory', text, flushes, good', -, whole⟩ := good.flush unused failure
  refine ⟨{ thread with output := some output', directory := directory' }, ?_, ⟨rfl, rfl, rfl, rfl⟩,
    start, output', init, last.store text, unused, rfl, good', isOpen, ?_,
    fun _ now => whole (fine now)⟩
  · unfold Thread.flushOutput
    simp only [there, flushes]
  · simpa [allLines] using lines

/-- What is flushed is in the files. -/
theorem Printed.filed {thread : Thread SIZE} {texts : List (List UInt8)}
    (printed : Printed host base rollSize older healthy thread True texts) :
    Filed host base older healthy thread.directory texts := by
  obtain ⟨_, _, init, last, -, -, good, -, lines, whole⟩ := printed
  obtain ⟨file, -, stored⟩ := good.stored
  refine ⟨init ++ [last], stored.contents, good.timeline.increasing, ?_, lines⟩
  intro part member
  rcases List.mem_append.mp member with closed | isLast
  · exact good.closed part closed
  · rw [List.mem_singleton.mp isLast]
    exact ⟨⟨file.pending, stored.buffered⟩, whole trivial⟩

/-- The thread returns, and the file is closed. -/
theorem Printed.finish {thread : Thread SIZE} {flushed : Prop} {texts : List (List UInt8)}
    (printed : Printed host base rollSize older healthy thread flushed texts)
    {closing : Option Nat} (fine : healthy → closing = none) :
    (thread.finish closing).place = .done ∧
      Filed host base older healthy (thread.finish closing).directory texts := by
  obtain ⟨start, output, init, last, unused, there, good, -, lines, -⟩ := printed
  obtain ⟨file, current, stored⟩ := good.stored
  have closes : thread.finish closing = { thread with
      place := .done
      output := none
      directory := file.close thread.directory closing } := by
    unfold Thread.finish
    simp only [there, Option.bind_some, current]
  rw [closes]
  refine ⟨rfl, init ++ [last.store (drained closing file.pending)],
    stored.write_last unused good.timeline rfl rfl,
    (good.timeline.congr (last.store_created _)).increasing, ?_, ?_⟩
  · intro part member
    rcases List.mem_append.mp member with closed | isLast
    · exact good.closed part closed
    · rw [List.mem_singleton.mp isLast]
      obtain ⟨begins, whole⟩ := stored.drained closing
      exact ⟨begins, fun now => whole (fine now)⟩
  · simpa [allLines] using lines

/-- The thread's buffers are the same. -/
theorem Busy.congr {thread thread' : Thread SIZE} {hand hand' : Batch} (busy : Busy thread hand)
    (newBuffer1 : thread'.newBuffer1 = thread.newBuffer1)
    (newBuffer2 : thread'.newBuffer2 = thread.newBuffer2) (same : hand'.buffers = hand.buffers) :
    Busy thread' hand' :=
  ⟨same ▸ busy.inHand, newBuffer1.trans busy.newBuffer1, newBuffer2 ▸ busy.newBuffer2,
    same ▸ newBuffer2 ▸ busy.two⟩

/-- The construction of the log file and of the two buffers. -/
theorem Begun.create {thread : Thread SIZE} {written : List Batch} {hand : Batch}
    (begun : Begun older thread written hand) (plain : 47 ∉ base) {now : Int} (positive : 0 < now)
    (unused : Unused host base now older) :
    ∃ thread', thread.create host base rollSize now true = some thread' ∧ thread'.place = .loop ∧
      Idle host base rollSize older healthy thread' written hand := by
  obtain ⟨output, directory, made, good⟩ :=
    good_make host rollSize 3 1024 plain positive unused healthy
  unfold Thread.create
  rw [begun.directory, made]
  refine ⟨_, rfl, rfl, begun.inHand, rfl, rfl, rfl, now, output, [], ⟨now, [], []⟩, unused, rfl,
    good, Part.open_nil now, ?_, fun _ _ => rfl⟩
  rw [begun.written]
  exact .nil

/-- The head of the loop: the assertions hold, or the thread returns. -/
theorem Idle.check {thread : Thread SIZE} {written : List Batch} {hand : Batch}
    (idle : Idle host base rollSize older healthy thread written hand) (running : Bool)
    {failure closing : Option Nat} (fine : healthy → failure = none ∧ closing = none) :
    ∃ thread', thread.check running failure closing = some thread' ∧
      (running = true → thread'.place = .entering ∧
        Idle host base rollSize older healthy thread' written hand) ∧
      (running = false → thread'.place = .done ∧
        Filed host base older healthy thread'.directory (written.flatMap Batch.texts)) := by
  unfold Thread.check
  cases running with
  | true =>
    rw [idle.newBuffer1, idle.newBuffer2, idle.buffersToWrite]
    refine ⟨_, rfl, fun _ => ⟨rfl, idle.inHand, idle.newBuffer1, idle.newBuffer2, rfl,
      idle.printed.congr rfl rfl id⟩, fun stopped => ?_⟩
    cases stopped
  | false =>
    obtain ⟨thread', flushes, -, printed⟩ := idle.printed.flush fun now => (fine now).1
    rw [flushes]
    refine ⟨_, rfl, fun runs => ?_, fun _ => printed.finish fun now => (fine now).2⟩
    cases runs

/-- The buffers are counted: a notice is written and all but two are dropped, or they all stay. -/
theorem Busy.count {thread : Thread SIZE} {hand : Batch} {texts : List (List UInt8)}
    (busy : Busy thread hand) (points : Points thread.buffersToWrite hand.buffers)
    (printed : Printed host base rollSize older healthy thread False texts) (now : Int) {io : Io}
    (opens : io.opens = true) (fine : healthy → io.Fine) :
    ∃ thread', thread.count host now io = some thread' ∧ thread'.place = .writing 0 ∧
      Busy thread' ⟨hand.buffers, now⟩ ∧
      Points thread'.buffersToWrite (Batch.kept ⟨hand.buffers, now⟩) ∧
      Printed host base rollSize older healthy thread' False
        (texts ++ Batch.notice ⟨hand.buffers, now⟩) := by
  have same := points.length
  have some : ¬thread.buffersToWrite.isEmpty = true := by
    rw [List.isEmpty_iff_length_eq_zero, same]
    exact fun empty => busy.inHand (List.length_eq_zero_iff.mp empty)
  unfold Thread.count Batch.kept Batch.notice
  rw [if_neg some, same]
  by_cases many : hand.buffers.length > 25
  · obtain ⟨thread', appended, alike, printed'⟩ :=
      printed.append opens fine (dropped now (hand.buffers.length - 2))
    simp only [if_pos many, appended]
    refine ⟨_, rfl, rfl, busy.congr alike.newBuffer1 alike.newBuffer2 rfl, ?_,
      printed'.congr rfl rfl id⟩
    unfold Points at points ⊢
    rw [alike.buffersToWrite, List.map_take, points, List.map_take]
  · simp only [if_neg many, List.append_nil]
    exact ⟨_, rfl, rfl, busy.congr rfl rfl rfl, points, printed.congr rfl rfl id⟩

/-- A buffer is written. -/
theorem Busy.write {thread : Thread SIZE} {hand : Batch} {texts : List (List UInt8)} {count : Nat}
    (busy : Busy thread hand) (points : Points thread.buffersToWrite hand.kept)
    (printed : Printed host base rollSize older healthy thread False
      (texts ++ (hand.kept.take count).map List.flatten))
    (more : count < thread.buffersToWrite.length) {io : Io} (opens : io.opens = true)
    (fine : healthy → io.Fine) :
    ∃ thread', thread.write host count io = some thread' ∧ thread'.place = .writing (count + 1) ∧
      Busy thread' hand ∧ Points thread'.buffersToWrite hand.kept ∧
      Printed host base rollSize older healthy thread' False
        (texts ++ (hand.kept.take (count + 1)).map List.flatten) := by
  have inKept : count < hand.kept.length := points.length ▸ more
  obtain ⟨buffer, there, data⟩ : ∃ buffer, thread.buffersToWrite[count]? = some (some buffer) ∧
      buffer.data = hand.kept[count].flatten := by
    have here := congrArg (fun list => list[count]?) points
    simp only [List.getElem?_map, List.getElem?_eq_getElem more,
      List.getElem?_eq_getElem inKept, Option.map_some, Option.some.injEq] at here
    obtain ⟨buffer, is, data⟩ := Option.map_eq_some_iff.mp here
    exact ⟨buffer, by rw [List.getElem?_eq_getElem more, is], data⟩
  obtain ⟨thread', appended, alike, printed'⟩ := printed.append opens fine buffer.data
  unfold Thread.write
  simp only [there, appended]
  refine ⟨_, rfl, rfl, busy.congr alike.newBuffer1 alike.newBuffer2 rfl, ?_, ?_⟩
  · exact (congrArg (fun list => Points list hand.kept) alike.buffersToWrite).mpr points
  · rw [List.take_succ_eq_append_getElem inKept, List.map_append, ← List.append_assoc,
      List.map_singleton, ← data]
    exact printed'.congr rfl rfl id

/-- A buffer is taken back from written ones. -/
theorem takeBack_some (newBuffer : BufferPtr SIZE) {buffersToWrite : List (BufferPtr SIZE)}
    {buffers : List Full} (points : Points buffersToWrite buffers)
    (empty : ∀ buffer, newBuffer = some buffer → buffer.data = [])
    (enough : newBuffer = none → buffers ≠ []) :
    ∃ newBuffer', isEmpty newBuffer' = true ∧
      Thread.takeBack newBuffer buffersToWrite =
        some (newBuffer', if newBuffer = none then buffersToWrite.dropLast else buffersToWrite) := by
  unfold Thread.takeBack
  cases newBuffer with
  | some buffer =>
    exact ⟨some buffer, isEmpty_iff.mpr ⟨buffer, rfl, empty buffer rfl⟩, rfl⟩
  | none =>
    rcases List.eq_nil_or_concat' buffers with none | ⟨early, full, rfl⟩
    · exact absurd none (enough rfl)
    · rcases List.eq_nil_or_concat' buffersToWrite with none | ⟨pointers, pointer, rfl⟩
      · rw [none] at points
        exact absurd points.length (by simp)
      · unfold Points at points
        rw [List.map_append, List.map_append] at points
        obtain ⟨buffer, there, -⟩ :=
          points_singleton.mp (List.append_inj' points rfl).2
        refine ⟨some .empty, rfl, ?_⟩
        rw [List.getLast?_concat, there]
        rfl

/-- The files are flushed, and two buffers are kept for later. -/
theorem Busy.recycle {thread : Thread SIZE} {hand : Batch} {written : List Batch} {count : Nat}
    (busy : Busy thread hand) (points : Points thread.buffersToWrite hand.kept)
    (printed : Printed host base rollSize older healthy thread False
      (written.flatMap Batch.texts ++ hand.notice ++ (hand.kept.take count).map List.flatten))
    (all : thread.buffersToWrite.length ≤ count) {failure : Option Nat}
    (fine : healthy → failure = none) :
    ∃ thread', thread.recycle failure = some thread' ∧ thread'.place = .loop ∧
      Idle host base rollSize older healthy thread' (written ++ [hand]) ⟨[], 0⟩ := by
  have texts : written.flatMap Batch.texts ++ hand.notice ++
      (hand.kept.take count).map List.flatten = (written ++ [hand]).flatMap Batch.texts := by
    rw [List.take_of_length_le (points.length ▸ all), List.flatMap_append, List.flatMap_singleton,
      List.append_assoc]
    rfl
  rw [texts] at printed
  obtain ⟨flushed, flushes, alike, printed'⟩ := printed.flush fine
  have kept : min 2 hand.buffers.length ≤ hand.kept.length := by
    unfold Batch.kept
    split_ifs <;> simp
  have some := List.length_pos_of_ne_nil busy.inHand
  have points' : Points (thread.buffersToWrite.take 2) (hand.kept.take 2) := by
    unfold Points at points ⊢
    rw [List.map_take, points, List.map_take]
  have points'' : Points (thread.buffersToWrite.take 2).dropLast (hand.kept.take 2).dropLast := by
    unfold Points at points' ⊢
    rw [List.map_dropLast, points', List.map_dropLast]
  obtain ⟨newBuffer1, empty1, took1⟩ := takeBack_some thread.newBuffer1 points'
    (fun buffer there => by rw [busy.newBuffer1] at there; cases there) (fun _ none => by
      have short := congrArg List.length none
      simp only [List.length_take, List.length_nil] at short
      omega)
  rw [if_pos busy.newBuffer1] at took1
  obtain ⟨newBuffer2, empty2, took2⟩ := takeBack_some thread.newBuffer2 points'' busy.newBuffer2
    (fun gone none => by
      have two := busy.two gone
      have short := congrArg List.length none
      simp only [List.length_dropLast, List.length_take, List.length_nil] at short
      omega)
  unfold Thread.recycle
  simp only [flushes, alike.newBuffer1, alike.newBuffer2, alike.buffersToWrite, took1, took2]
  exact ⟨_, rfl, rfl, rfl, empty1, empty2, rfl, printed'.congr rfl rfl id⟩

/-- What an event needs of the world: files can be opened, the clock is later than the epoch when the
first one is, and the files of the log have new names. -/
def LogEvent.Sound (host : Host) (base : List UInt8) (older : Directory) : LogEvent → Prop
  | .create now opens => 0 < now ∧ Unused host base now older ∧ opens = true
  | .count _ io => io.opens = true
  | .write io => io.opens = true
  | _ => True

/-- No call of `fwrite` fails but perhaps the first of a text, and neither `fflush` nor `fclose`
fails. -/
def LogEvent.Fine : LogEvent → Prop
  | .count _ io => io.Fine
  | .write io => io.Fine
  | .recycle failure => failure = none
  | .check failure closing => failure = none ∧ closing = none
  | _ => True

/-- No step fails, and every step keeps the ledger. -/
theorem Holds.step (holds : Holds host base rollSize older healthy log ledger)
    (plain : 47 ∉ base) {event : LogEvent} (enabled : log.Enabled event)
    (sound : event.Sound host base older) (fine : healthy → event.Fine) :
    ∃ log' ledger', log.exec host base rollSize event = some log' ∧
      Holds host base rollSize older healthy log' ledger' ∧
      event.Moves SIZE log.thread.place log'.thread.place ledger ledger' := by
  obtain ⟨front, back, begun⟩ := holds
  have front' : ∀ {log' : AsyncLogging SIZE} {ledger' : Ledger},
      log'.currentBuffer = log.currentBuffer → log'.buffers = log.buffers →
      log'.nextBuffer = log.nextBuffer → ledger'.full = ledger.full →
      ledger'.current = ledger.current → Front log' ledger' := by
    intro log' ledger' currentBuffer buffers nextBuffer full current
    refine ⟨?_, ?_, ?_, ?_⟩
    · rw [currentBuffer, current]
      exact front.current
    · rw [buffers, full]
      exact front.full
    · rw [nextBuffer]
      exact front.next
    · rw [nextBuffer, full]
      exact front.taken
  have still : ∀ {place' : Place}, (place'.Past → log.thread.place.Past) →
      LogEvent.message SIZE event = [] →
      event.Moves SIZE log.thread.place place' ledger ledger := fun stays none =>
    .leaves stays rfl (by rw [none, List.append_nil])
  have away : ∀ {place : Place}, log.thread.place = place → place.Past → log.thread.place.Past :=
    fun there past => there ▸ past
  -- the thread is at work, so the logging was started
  have runs : ∀ {place : Place}, log.thread.place = place → place ≠ .unborn →
      log.started = true := by
    intro place there working
    cases started : log.started with
    | false => exact absurd (there.symm.trans (begun started)) working
    | true => rfl
  have stays : ∀ {place place' : Place}, log.thread.place = place → place ≠ .unborn →
      log.started = false → place' = .unborn := fun there working unborn => by
    cases (runs there working).symm.trans unborn
  cases event with
  | append logline =>
    obtain ⟨log', ledger', appended, after, left, running, latch, thread, started, written, hand⟩ :=
      front.append logline
    refine ⟨log', ledger', appended, ⟨after, ?_, ?_⟩, .leaves ?_ ?_ left⟩
    · rw [running, latch, thread, written, hand]
      exact back
    · rw [started, thread]
      exact begun
    · rw [thread]
      exact id
    · unfold Ledger.taken
      rw [written, hand]
  | start =>
    have unborn : log.started = false := enabled
    rw [begun unborn] at back
    obtain ⟨nothing, latch⟩ := back
    have first : ¬log.started = true := by rw [unborn]; exact Bool.false_ne_true
    exact ⟨_, ledger, if_neg first, ⟨front' rfl rfl rfl rfl rfl,
      ⟨⟨nothing.directory, nothing.written, nothing.inHand⟩, latch, rfl⟩, fun off => by cases off⟩,
      still (fun _ => away (begun unborn) (by decide)) rfl⟩
  | countDown =>
    rw [show log.thread.place = .entry from enabled] at back
    obtain ⟨nothing, -, running⟩ := back
    exact ⟨_, ledger, if_pos running, ⟨front' rfl rfl rfl rfl rfl,
      ⟨nothing.directory, nothing.written, nothing.inHand⟩, stays enabled (by decide)⟩,
      still (fun _ => away enabled (by decide)) rfl⟩
  | create now opens =>
    rw [show log.thread.place = .opening from enabled] at back
    obtain ⟨positive, unused, rfl⟩ := sound
    obtain ⟨thread', made, place, idle⟩ := Begun.create back plain positive unused
    refine ⟨_, ledger, congrArg log.withThread made,
      ⟨front' rfl rfl rfl rfl rfl, ?_, stays enabled (by decide)⟩,
      still (fun _ => away enabled (by decide)) rfl⟩
    show Back _ _ _ _ _ _ _ thread' _ _ thread'.place
    rw [place]
    exact idle
  | check failure closing =>
    rw [show log.thread.place = .loop from enabled] at back
    obtain ⟨thread', checked, goes, stops⟩ := Idle.check back log.running fine
    refine ⟨_, ledger, congrArg log.withThread checked,
      ⟨front' rfl rfl rfl rfl rfl, ?_, stays enabled (by decide)⟩,
      still (fun _ => away enabled (by decide)) rfl⟩
    show Back _ _ _ _ _ _ _ thread' _ _ thread'.place
    cases running : log.running with
    | true =>
      obtain ⟨place, idle⟩ := goes running
      rw [place]
      exact idle
    | false =>
      obtain ⟨place, filed⟩ := stops running
      rw [place]
      exact ⟨Idle.inHand back, filed⟩
  | lock =>
    have idle : Idle host base rollSize older healthy log.thread ledger.written ledger.hand := by
      rw [show log.thread.place = .entering from enabled] at back
      exact back
    by_cases none : log.buffers.isEmpty = true
    · exact ⟨_, ledger, if_pos none, ⟨front' rfl rfl rfl rfl rfl, ⟨idle.inHand, idle.newBuffer1,
        idle.newBuffer2, idle.buffersToWrite, idle.printed.congr rfl rfl id⟩,
        stays enabled (by decide)⟩, still (fun past => absurd past (by simp [Place.Past])) rfl⟩
    · obtain ⟨ledger', after, taken, left⟩ :=
        Holds.takeBuffers front (runs enabled (by decide)) idle
      refine ⟨_, ledger', if_neg none, after, .takes ?_ ?_ (.inl rfl) taken left⟩
      · rw [show log.thread.place = .entering from enabled]
        decide
      · rw [takeBuffers_place.1]
        decide
  | wake =>
    have idle : Idle host base rollSize older healthy log.thread ledger.written ledger.hand := by
      rw [show log.thread.place = .waiting from enabled] at back
      exact back
    obtain ⟨ledger', after, taken, left⟩ := Holds.takeBuffers front (runs enabled (by decide)) idle
    refine ⟨_, ledger', rfl, after, .takes ?_ ?_ (.inr rfl) taken left⟩
    · rw [show log.thread.place = .waiting from enabled]
      decide
    · rw [takeBuffers_place.1]
      decide
  | count now io =>
    rw [show log.thread.place = .counting from enabled] at back
    obtain ⟨busy, points, printed⟩ := back
    obtain ⟨thread', counted, place, busy', points', printed'⟩ :=
      busy.count points printed now sound fine
    refine ⟨_, { ledger with hand := ⟨ledger.hand.buffers, now⟩ }, congrArg log.withThread counted,
      ⟨front' rfl rfl rfl rfl rfl, ?_, stays enabled (by decide)⟩,
      .leaves (fun _ => away enabled (by decide)) rfl (List.append_nil _).symm⟩
    show Back _ _ _ _ _ _ _ thread' _ _ thread'.place
    rw [place]
    refine ⟨busy', points', ?_⟩
    rw [List.take_zero, List.map_nil, List.append_nil]
    exact printed'
  | write io =>
    obtain ⟨count, place, more⟩ := enabled
    rw [place] at back
    obtain ⟨busy, points, printed⟩ := back
    obtain ⟨thread', wrote, place', busy', points', printed'⟩ :=
      busy.write points printed more sound fine
    have taken : log.exec host base rollSize (.write io) =
        log.withThread (log.thread.write host count io) := by
      simp only [AsyncLogging.exec, place]
    refine ⟨_, ledger, taken.trans (congrArg log.withThread wrote),
      ⟨front' rfl rfl rfl rfl rfl, ?_, stays place (by simp)⟩,
      still (fun _ => away place (by simp [Place.Past])) rfl⟩
    show Back _ _ _ _ _ _ _ thread' _ _ thread'.place
    rw [place']
    exact ⟨busy', points', printed'⟩
  | recycle failure =>
    obtain ⟨count, place, all⟩ := enabled
    rw [place] at back
    obtain ⟨busy, points, printed⟩ := back
    obtain ⟨thread', recycled, place', idle⟩ := busy.recycle points printed all fine
    refine ⟨_, { ledger with written := ledger.written ++ [ledger.hand], hand := ⟨[], 0⟩ },
      congrArg log.withThread recycled,
      ⟨front' rfl rfl rfl rfl rfl, ?_, stays place (by simp)⟩,
      .leaves (fun _ => away place (by simp [Place.Past])) ?_ (List.append_nil _).symm⟩
    · show Back _ _ _ _ _ _ _ thread' _ _ thread'.place
      rw [place']
      exact idle
    · simp [Ledger.taken]
  | stop =>
    obtain ⟨down, first⟩ := enabled
    have working : log.thread.place ≠ .unborn ∧ log.thread.place ≠ .entry := by
      refine ⟨fun place => ?_, fun place => ?_⟩
      · rw [place, down] at back
        exact absurd back.2 (by decide)
      · rw [place, down] at back
        exact absurd back.2.1 (by decide)
    have joins : (log.started && !log.joined) = true := by
      rw [runs rfl working.1, first]
      rfl
    refine ⟨_, ledger, if_pos joins, ⟨front' rfl rfl rfl rfl rfl, ?_, stays rfl working.1⟩,
      still id rfl⟩
    show Back _ _ _ _ _ false log.latch log.thread _ _ log.thread.place
    cases place : log.thread.place with
    | unborn => exact absurd place working.1
    | entry => exact absurd place working.2
    | opening | loop | entering | waiting | counting | writing | done =>
      rw [place] at back
      exact back

end relation

end BackendCpp.MuduoLog
