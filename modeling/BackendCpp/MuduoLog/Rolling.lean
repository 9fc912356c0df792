import BackendCpp.Library.Run
import BackendCpp.MuduoLog.LogFile

/-!
# The files of a log

Whatever the clock does, a log is the concatenation of its files. A file is opened under the name of a
second that is later than those of the files before it, so no file is ever opened again, and an
appended text is never split between two files. A file grows beyond the roll size only while the
clock has not passed the second of its creation.
-/

namespace BackendCpp.MuduoLog

open BackendCpp.Library

/-- A write changes the one file of the name. -/
theorem Directory.write_split {before after : Directory} {name contents text : List UInt8}
    (apart : name ∉ before.map Prod.fst) (apart' : name ∉ after.map Prod.fst) :
    Directory.write (before ++ (name, contents) :: after) name text =
      before ++ (name, contents ++ text) :: after := by
  have same : ∀ {part : Directory}, name ∉ part.map Prod.fst → part.write name text = part := by
    intro part outside
    unfold Directory.write
    refine (List.map_congr_left fun file member => ?_).trans (List.map_id part)
    refine if_neg fun equal => outside ?_
    rw [← equal]
    exact List.mem_map_of_mem member
  unfold Directory.write at same ⊢
  rw [List.map_append, List.map_cons, same apart, same apart', if_pos rfl]

/-- A new file comes last. -/
theorem Directory.create_new {directory : Directory} {name : List UInt8}
    (fresh : name ∉ directory.map Prod.fst) :
    directory.create name = directory ++ [(name, [])] := if_neg fresh

/-- Different seconds give different names. -/
theorem getLogFileName_inj {host : Host} {basename : List UInt8} {one other : Int}
    (same : getLogFileName host basename one = getLogFileName host basename other) :
    one = other := by
  have valid := gmtimeR_valid one
  have valid' := gmtimeR_valid other
  have back := timegm_gmtimeR one
  have back' := timegm_gmtimeR other
  unfold getLogFileName at same
  generalize gmtimeR one = tm at same valid back
  generalize gmtimeR other = tm' at same valid' back'
  obtain ⟨month, day, hour, min, sec⟩ := valid.lengths
  obtain ⟨month', day', hour', min', sec'⟩ := valid'.lengths
  simp only [List.append_assoc, List.append_cancel_left_eq] at same
  have lengths : ∀ {a a' b b' c c' d d' e e' : List UInt8} {rest : List UInt8},
      a.length = a'.length → b.length = b'.length → c.length = c'.length → d.length = d'.length →
      e.length = e'.length →
      (a ++ (b ++ (bytes "-" ++ (c ++ (d ++ (e ++ rest)))))).length =
        (a' ++ (b' ++ (bytes "-" ++ (c' ++ (d' ++ (e' ++ rest)))))).length := by
    intro a a' b b' c c' d d' e e' rest la lb lc ld le
    simp only [List.length_append, la, lb, lc, ld, le]
  obtain ⟨years, same⟩ := List.append_inj' same (lengths (month.trans month'.symm)
    (day.trans day'.symm) (hour.trans hour'.symm) (min.trans min'.symm) (sec.trans sec'.symm))
  obtain ⟨months, same⟩ := List.append_inj same (month.trans month'.symm)
  obtain ⟨days, same⟩ := List.append_inj same (day.trans day'.symm)
  obtain ⟨-, same⟩ := List.append_inj same rfl
  obtain ⟨hours, same⟩ := List.append_inj same (hour.trans hour'.symm)
  obtain ⟨mins, same⟩ := List.append_inj same (min.trans min'.symm)
  obtain ⟨secs, -⟩ := List.append_inj same (sec.trans sec'.symm)
  have year := integer_injective years
  have equal := valid.timegm_congr valid' (by omega) months days hours mins secs
  omega

/-- An appended text. -/
structure Line where
  /-- What `fwrite` took of it. -/
  text : List UInt8
  /-- The length that was counted. -/
  length : Nat
  /-- The clock at a roll that followed. -/
  roll : Int
  deriving DecidableEq

/-- A file of the log. -/
structure Part where
  /-- The second of its creation. -/
  created : Int
  /-- The texts that were appended to it. -/
  lines : List Line
  /-- What the C library has written to it. -/
  disk : List UInt8
  deriving DecidableEq

/-- All that was appended to a file. -/
def Part.text (part : Part) : List UInt8 := part.lines.flatMap Line.text

/-- The length that was counted. -/
def Part.length (part : Part) : Nat := (part.lines.map Line.length).sum

/-- A text is appended. -/
def Part.add (part : Part) (line : Line) : Part := { part with lines := part.lines ++ [line] }

/-- Some of the buffer is written. -/
def Part.store (part : Part) (text : List UInt8) : Part := { part with disk := part.disk ++ text }

/-- Another line does not change when the part was created. -/
@[simp] theorem Part.add_created (part : Part) (line : Line) :
    (part.add line).created = part.created := rfl

/-- The text of another line comes last. -/
@[simp] theorem Part.add_text (part : Part) (line : Line) :
    (part.add line).text = part.text ++ line.text := by
  simp [Part.add, Part.text]

/-- Another line makes the part longer by its length. -/
@[simp] theorem Part.add_length (part : Part) (line : Line) :
    (part.add line).length = part.length + line.length := by
  simp [Part.add, Part.length]

/-- Another line is not written yet. -/
@[simp] theorem Part.add_disk (part : Part) (line : Line) : (part.add line).disk = part.disk := rfl

/-- Writing does not change when the part was created. -/
@[simp] theorem Part.store_created (part : Part) (text : List UInt8) :
    (part.store text).created = part.created := rfl

/-- Writing does not change the lines. -/
@[simp] theorem Part.store_lines (part : Part) (text : List UInt8) :
    (part.store text).lines = part.lines := rfl

/-- Writing does not change the text. -/
@[simp] theorem Part.store_text (part : Part) (text : List UInt8) :
    (part.store text).text = part.text := rfl

/-- Writing does not change the length. -/
@[simp] theorem Part.store_length (part : Part) (text : List UInt8) :
    (part.store text).length = part.length := rfl

/-- What is written comes last on the disk. -/
@[simp] theorem Part.store_disk (part : Part) (text : List UInt8) :
    (part.store text).disk = part.disk ++ text := rfl

/-- A text was appended to a file that was too long only when the clock had not passed the second of
its creation. -/
def Part.Rolled (rollSize : Int) (part : Part) : Prop :=
  ∀ early line late, part.lines = early ++ line :: late → late ≠ [] →
    rollSize < ((early ++ [line]).map Line.length).sum → line.roll ≤ part.created

/-- A file that is too long is kept only when the clock has not passed the second of its creation. -/
def Part.Open (rollSize : Int) (part : Part) : Prop :=
  ∀ early line, part.lines = early ++ [line] → rollSize < part.length → line.roll ≤ part.created

/-- An open file with one more text. -/
theorem Part.Rolled.add {rollSize : Int} {part : Part} (rolled : part.Rolled rollSize)
    (isOpen : part.Open rollSize) (line : Line) : (part.add line).Rolled rollSize := by
  intro early other late split more long
  rcases List.eq_nil_or_concat' late with rfl | ⟨late, last, rfl⟩
  · exact absurd rfl more
  · have shorter : part.lines = early ++ other :: late := by
      have whole : part.lines ++ [line] = (early ++ other :: late) ++ [last] := by
        rw [List.append_assoc]
        exact split
      exact (List.append_inj' whole rfl).1
    by_cases empty : late = []
    · subst empty
      refine isOpen early other shorter ?_
      unfold Part.length
      rw [shorter]
      exact long
    · exact rolled early other late shorter empty long

section files

variable {host : Host} {base : List UInt8} {start : Int} {older directory : Directory}
  {init : List Part} {last : Part} {file : AppendFile}

/-- Name and contents of a file. -/
def Part.entry (host : Host) (base : List UInt8) (part : Part) : List UInt8 × List UInt8 :=
  (getLogFileName host base part.created, part.disk)

/-- One file more. -/
theorem entries_snoc (parts : List Part) (part : Part) :
    (parts ++ [part]).map (Part.entry host base) = parts.map (Part.entry host base) ++
      [(getLogFileName host base part.created, part.disk)] := List.map_append

/-- The files are created one after the other. -/
structure Timeline (start : Int) (parts : List Part) : Prop where
  /-- Every file is later than those before it. -/
  increasing : parts.Pairwise fun one other => one.created < other.created
  /-- None is earlier than the log. -/
  after : ∀ part ∈ parts, start ≤ part.created

/-- What happens to the last file does not change when it was created. -/
theorem Timeline.congr {last' : Part} (timeline : Timeline start (init ++ [last]))
    (same : last'.created = last.created) : Timeline start (init ++ [last']) := by
  obtain ⟨increasing, after⟩ := timeline
  refine ⟨?_, ?_⟩
  · obtain ⟨earlier, -, later⟩ := List.pairwise_append.mp increasing
    refine List.pairwise_append.mpr ⟨earlier, List.pairwise_singleton _ _, ?_⟩
    intro part member other isLast
    rw [List.mem_singleton.mp isLast, same]
    exact later part member last List.mem_cons_self
  · intro part member
    rcases List.mem_append.mp member with inInit | isLast
    · exact after part (List.mem_append_left _ inInit)
    · rw [List.mem_singleton.mp isLast, same]
      exact after last (List.mem_append_right _ List.mem_cons_self)

/-- The last of the files is open, and what it lacks is in the buffer. -/
structure Stored (host : Host) (base : List UInt8) (older : Directory) (init : List Part)
    (last : Part) (file : AppendFile) (directory : Directory) : Prop where
  /-- The open file is the last one. -/
  filename : file.filename = getLogFileName host base last.created
  /-- The length is counted. -/
  writtenBytes : file.writtenBytes = last.length
  /-- What is not in the file yet is in the buffer. -/
  buffered : last.disk ++ file.pending = last.text
  /-- The log has the files after those that were there before it. -/
  contents : directory = older ++ (init ++ [last]).map (Part.entry host base)

/-- The names that the log will use are not in the directory yet. -/
def Unused (host : Host) (base : List UInt8) (start : Int) (older : Directory) : Prop :=
  ∀ now, start ≤ now → getLogFileName host base now ∉ older.map Prod.fst

/-- The name of a later second is not used. -/
theorem Timeline.fresh (unused : Unused host base start older) {parts : List Part} {now : Int}
    (later : start ≤ now) (apart : ∀ part ∈ parts, part.created < now) :
    getLogFileName host base now ∉
      (older ++ parts.map (Part.entry host base)).map Prod.fst := by
  rw [List.map_append, List.mem_append]
  rintro (inOlder | inParts)
  · exact unused now later inOlder
  · obtain ⟨entry, member, same⟩ := List.mem_map.mp inParts
    obtain ⟨part, inParts', rfl⟩ := List.mem_map.mp member
    have before := apart part inParts'
    have equal := getLogFileName_inj same
    omega

/-- A write to the open file, which is none of the others. -/
theorem Stored.write (stored : Stored host base older init last file directory)
    (unused : Unused host base start older) (timeline : Timeline start (init ++ [last]))
    {last' : Part} {text : List UInt8} (created : last'.created = last.created)
    (disk : last'.disk = last.disk ++ text) {rest : Directory}
    (outside : file.filename ∉ rest.map Prod.fst) :
    (directory ++ rest).write file.filename text =
      older ++ (init ++ [last']).map (Part.entry host base) ++ rest := by
  have apart : file.filename ∉ (older ++ init.map (Part.entry host base)).map Prod.fst := by
    rw [stored.filename]
    obtain ⟨increasing, after⟩ := timeline
    refine Timeline.fresh unused (after last (List.mem_append_right _ List.mem_cons_self)) ?_
    intro part member
    exact (List.pairwise_append.mp increasing).2.2 part member last List.mem_cons_self
  have split : ∀ part : Part, older ++ (init ++ [part]).map (Part.entry host base) ++ rest =
      older ++ init.map (Part.entry host base) ++
        (getLogFileName host base part.created, part.disk) :: rest := by
    intro part
    rw [entries_snoc, ← List.append_assoc, List.append_assoc _ _ rest]
    rfl
  rw [stored.contents, split, split, created, disk, ← stored.filename]
  exact Directory.write_split apart outside

/-- A write to the open file when there is no later one. -/
theorem Stored.write_last (stored : Stored host base older init last file directory)
    (unused : Unused host base start older) (timeline : Timeline start (init ++ [last]))
    {last' : Part} {text : List UInt8} (created : last'.created = last.created)
    (disk : last'.disk = last.disk ++ text) :
    directory.write file.filename text =
      older ++ (init ++ [last']).map (Part.entry host base) := by
  have outside : file.filename ∉ List.map Prod.fst ([] : Directory) := List.not_mem_nil
  have written := stored.write unused timeline created disk outside
  rwa [List.append_nil, List.append_nil] at written

/-- An append brings what it accepts to the end of the open file. -/
theorem Stored.append (stored : Stored host base older init last file directory)
    (unused : Unused host base start older) (timeline : Timeline start (init ++ [last])) (io : Io)
    (logline : List UInt8) :
    Stored host base older init
      ((last.add ⟨accepted io.counts logline, logline.length, io.roll⟩).store
        ((file.pending ++ accepted io.counts logline).take io.spill))
      (file.append directory io logline).1 (file.append directory io logline).2 := by
  refine ⟨stored.filename, ?_, ?_, stored.write_last unused timeline rfl rfl⟩
  · show file.writtenBytes + logline.length = _
    rw [stored.writtenBytes, Part.store_length, Part.add_length]
  · show last.disk ++ _ ++ (file.pending ++ accepted io.counts logline).drop io.spill = _
    rw [List.append_assoc, List.take_append_drop, ← List.append_assoc, stored.buffered,
      Part.store_text, Part.add_text]

/-- What is not written of a buffer is its end. -/
theorem drained_append_drop (failure : Option Nat) (pending : List UInt8) :
    drained failure pending ++ pending.drop (drained failure pending).length = pending := by
  cases failure with
  | none => exact (congrArg (pending ++ ·) List.drop_length).trans (List.append_nil _)
  | some count => exact List.prefix_iff_eq_append.mp (List.take_prefix count pending)

/-- What is written of the buffer continues the file, to the end of what was appended when nothing
fails. -/
theorem Stored.drained (stored : Stored host base older init last file directory)
    (failure : Option Nat) :
    (last.store (drained failure file.pending)).disk <+: last.text ∧
      (failure = none → (last.store (drained failure file.pending)).disk = last.text) := by
  rw [Part.store_disk, ← stored.buffered]
  refine ⟨List.prefix_append_right_inj _ |>.mpr ⟨_, drained_append_drop failure file.pending⟩, ?_⟩
  rintro rfl
  rfl

/-- A flush writes from the buffer. -/
theorem Stored.flush (stored : Stored host base older init last file directory)
    (unused : Unused host base start older) (timeline : Timeline start (init ++ [last]))
    (failure : Option Nat) :
    Stored host base older init (last.store (MuduoLog.drained failure file.pending))
      (file.flush directory failure).1 (file.flush directory failure).2 := by
  refine ⟨stored.filename, stored.writtenBytes, ?_, stored.write_last unused timeline rfl rfl⟩
  show last.disk ++ _ ++ file.pending.drop _ = _
  rw [List.append_assoc, drained_append_drop, stored.buffered, Part.store_text]

/-- A roll closes the open file and begins a new one. -/
theorem Stored.roll (stored : Stored host base older init last file directory)
    (unused : Unused host base start older) (timeline : Timeline start (init ++ [last])) {now : Int}
    (later : last.created < now) (failure : Option Nat) :
    Timeline start (init ++ [last.store (MuduoLog.drained failure file.pending)] ++
      [⟨now, [], []⟩]) ∧
    Stored host base older (init ++ [last.store (MuduoLog.drained failure file.pending)])
      ⟨now, [], []⟩ ⟨getLogFileName host base now, [], 0⟩
      (file.close (directory.create (getLogFileName host base now)) failure) := by
  have apart : ∀ part ∈ init ++ [last], part.created < now := by
    intro part member
    rcases List.mem_append.mp member with inInit | isLast
    · have before := (List.pairwise_append.mp timeline.increasing).2.2 part inInit last
        List.mem_cons_self
      omega
    · rw [List.mem_singleton.mp isLast]
      exact later
  have least := timeline.after last (List.mem_append_right _ List.mem_cons_self)
  have closed := timeline.congr (last.store_created (MuduoLog.drained failure file.pending))
  refine ⟨⟨?_, ?_⟩, rfl, rfl, rfl, ?_⟩
  · refine List.pairwise_append.mpr ⟨closed.increasing, List.pairwise_singleton _ _, ?_⟩
    intro part member other isNew
    rw [List.mem_singleton.mp isNew]
    rcases List.mem_append.mp member with inInit | isLast
    · exact apart part (List.mem_append_left _ inInit)
    · rw [List.mem_singleton.mp isLast]
      exact later
  · intro part member
    rcases List.mem_append.mp member with inParts | isNew
    · exact closed.after part inParts
    · rw [List.mem_singleton.mp isNew]
      show start ≤ now
      omega
  · have fresh : getLogFileName host base now ∉ directory.map Prod.fst := by
      rw [stored.contents]
      exact Timeline.fresh unused (by omega) apart
    have differ : file.filename ∉ [(getLogFileName host base now, ([] : List UInt8))].map
        Prod.fst := by
      rw [List.map_singleton, List.mem_singleton, stored.filename]
      intro same
      have equal := getLogFileName_inj same
      omega
    show (directory.create _).write file.filename _ = _
    rw [Directory.create_new fresh,
      stored.write unused timeline (last.store_created _) (last.store_disk _) differ,
      entries_snoc (init ++ _), List.append_assoc]

end files

/-- All that was appended, in the order of the files. -/
def allLines (parts : List Part) : List Line := parts.flatMap Part.lines

/-- A log with its directory; when all is well, no `fflush` and no `fclose` failed. -/
structure Good (host : Host) (base : List UInt8) (rollSize start : Int) (older : Directory)
    (healthy : Prop) (log : LogFile) (directory : Directory) (init : List Part) (last : Part) :
    Prop where
  /-- The name does not change. -/
  basename : log.basename = base
  /-- The roll size does not change. -/
  size : log.rollSize = rollSize
  /-- The files are those of the parts. -/
  stored : ∃ file, log.file = some file ∧ Stored host base older init last file directory
  /-- They were created one after the other. -/
  timeline : Timeline start (init ++ [last])
  /-- The last roll created the open file. -/
  lastRoll : log.lastRoll = last.created
  /-- Long files were kept for a reason. -/
  rolled : ∀ part ∈ init ++ [last], part.Rolled rollSize
  /-- The other files are complete, but for what `fclose` did not write. -/
  closed : ∀ part ∈ init, part.disk <+: part.text ∧ (healthy → part.disk = part.text)

section steps

variable {host : Host} {base : List UInt8} {rollSize start : Int} {older directory : Directory}
  {healthy : Prop} {log : LogFile} {init : List Part} {last : Part}

/-- A new file is not too long. -/
theorem Part.open_nil (created : Int) : (⟨created, [], []⟩ : Part).Open rollSize := by
  intro early line split
  exact absurd split (by simp)

/-- Nothing was appended to a new file. -/
theorem Part.rolled_nil (created : Int) : (⟨created, [], []⟩ : Part).Rolled rollSize := by
  intro early line late split
  exact absurd split (by simp)

/-- The reasons to keep long files, when the last one changes. -/
theorem Good.rolled_last (good : Good host base rollSize start older healthy log directory init last)
    {last' : Part} (rolled : last'.Rolled rollSize) :
    ∀ part ∈ init ++ [last'], part.Rolled rollSize := by
  intro part member
  rcases List.mem_append.mp member with inInit | isLast
  · exact good.rolled part (List.mem_append_left _ inInit)
  · rw [List.mem_singleton.mp isLast]
    exact rolled

/-- A roll begins a new file, or the clock has not passed the second of the open one. It fails only
when the new file cannot be opened. -/
theorem Good.rollFile (good : Good host base rollSize start older healthy log directory init last)
    (unused : Unused host base start older) (now : Int) (opens : Bool) {failure : Option Nat}
    (fine : healthy → failure = none) (ready : now ≤ last.created → last.Open rollSize) :
    (log.rollFile host directory now opens failure = none ∧ opens = false) ∨
    ∃ result init' last', log.rollFile host directory now opens failure = some result ∧
      allLines (init' ++ [last']) = allLines (init ++ [last]) ∧ last'.Open rollSize ∧
      Good host base rollSize start older healthy result.2.1 result.2.2 init' last' := by
  obtain ⟨file, current, stored⟩ := good.stored
  unfold LogFile.rollFile
  by_cases later : now > log.lastRoll
  · rw [if_pos later]
    cases opens with
    | false => exact .inl ⟨rfl, rfl⟩
    | true =>
      have later' : last.created < now := by
        rw [← good.lastRoll]
        exact later
      obtain ⟨timeline, stored'⟩ := stored.roll unused good.timeline later' failure
      have rolled : ∀ part ∈ init ++ [last.store (drained failure file.pending)],
          part.Rolled rollSize := good.rolled_last
        (good.rolled last (List.mem_append_right _ List.mem_cons_self) :)
      refine .inr ⟨_, init ++ [last.store (drained failure file.pending)], ⟨now, [], []⟩, rfl, ?_,
        Part.open_nil now, ?_⟩
      · simp [allLines]
      · simp only [current, good.basename]
        refine ⟨rfl, good.size, ⟨_, rfl, stored'⟩, timeline, rfl, ?_, ?_⟩
        · intro part member
          rcases List.mem_append.mp member with earlier | isNew
          · exact rolled part earlier
          · rw [List.mem_singleton.mp isNew]
            exact Part.rolled_nil now
        · intro part member
          rcases List.mem_append.mp member with earlier | isLast
          · exact good.closed part earlier
          · rw [List.mem_singleton.mp isLast]
            obtain ⟨begins, whole⟩ := stored.drained failure
            exact ⟨begins, fun well => whole (fine well)⟩
  · rw [if_neg later]
    have kept := good.lastRoll
    exact .inr ⟨_, init, last, rfl, rfl, ready (by omega), good⟩

/-- An append adds its text, and leaves a log. It fails only when it rolls and the new file cannot be
opened. -/
theorem Good.append (good : Good host base rollSize start older healthy log directory init last)
    (isOpen : last.Open rollSize) (unused : Unused host base start older) (io : Io)
    (fine : healthy → io.failure = none) (logline : List UInt8) :
    (log.append host directory io logline = none ∧ io.opens = false) ∨
    ∃ log' directory' init' last', log.append host directory io logline = some (log', directory') ∧
      allLines (init' ++ [last']) = allLines (init ++ [last]) ++
        [⟨accepted io.counts logline, logline.length, io.roll⟩] ∧
      last'.Open rollSize ∧
      Good host base rollSize start older healthy log' directory' init' last' := by
  obtain ⟨file, current, stored⟩ := good.stored
  let line : Line := ⟨accepted io.counts logline, logline.length, io.roll⟩
  let added : Part := (last.add line).store
    ((file.pending ++ accepted io.counts logline).take io.spill)
  have stored' : Stored host base older init added (file.append directory io logline).1
      (file.append directory io logline).2 := stored.append unused good.timeline io logline
  have timeline : Timeline start (init ++ [added]) := good.timeline.congr rfl
  have lines : allLines (init ++ [added]) = allLines (init ++ [last]) ++ [line] := by
    simp [allLines, added, Part.add]
  have rolled : ∀ part ∈ init ++ [added], part.Rolled rollSize :=
    good.rolled_last ((good.rolled last (List.mem_append_right _ List.mem_cons_self)).add isOpen
      line :)
  have good' : ∀ count, Good host base rollSize start older healthy
      { log with file := some (file.append directory io logline).1, count := count }
      (file.append directory io logline).2 init added := fun _ =>
    ⟨good.basename, good.size, ⟨_, rfl, stored'⟩, timeline, good.lastRoll, rolled, good.closed⟩
  have ready : io.roll ≤ added.created → added.Open rollSize := by
    intro early before other split long
    have same : line = other := by
      have whole : last.lines ++ [line] = before ++ [other] := split
      exact (List.cons.inj (List.append_inj' whole rfl).2).1
    rw [← same]
    exact early
  -- a roll after the append, whatever the count
  have rolls : ∀ count, log.append host directory io logline =
      (LogFile.rollFile host
        { log with file := some (file.append directory io logline).1, count := count }
        (file.append directory io logline).2 io.roll io.opens io.failure).map Prod.snd →
      (log.append host directory io logline = none ∧ io.opens = false) ∨
      ∃ log' directory' init' last',
        log.append host directory io logline = some (log', directory') ∧
        allLines (init' ++ [last']) = allLines (init ++ [last]) ++ [line] ∧ last'.Open rollSize ∧
        Good host base rollSize start older healthy log' directory' init' last' := by
    intro count goes
    rw [goes]
    rcases (good' count).rollFile unused io.roll io.opens fine ready with
      ⟨fails, shut⟩ | ⟨result, init', last', done, same, isOpen', good''⟩
    · rw [fails]
      exact .inl ⟨rfl, shut⟩
    · rw [done]
      exact .inr ⟨_, _, init', last', rfl, same.trans lines, isOpen', good''⟩
  have unfolds := LogFile.append.eq_def host log directory io logline
  rw [current] at unfolds
  by_cases long : ((file.append directory io logline).1.writtenBytes : Int) > log.rollSize
  · exact rolls log.count (unfolds.trans (if_pos long))
  · have fits : added.Open rollSize := by
      intro before other split more
      rw [stored'.writtenBytes, good.size] at long
      omega
    by_cases due : log.count + 1 ≥ log.checkEveryN
    · by_cases day : io.now.tdiv kRollPerSeconds * kRollPerSeconds ≠ log.startOfPeriod
      · exact rolls 0 (unfolds.trans ((if_neg long).trans ((if_pos due).trans (if_pos day))))
      · by_cases late : io.now - log.lastFlush > log.flushInterval
        · have flushed := stored'.flush unused timeline io.failure
          refine .inr ⟨{ log with
              count := 0
              lastFlush := io.now
              file := some ((file.append directory io logline).1.flush
                (file.append directory io logline).2 io.failure).1 }, _, init,
            added.store (drained io.failure (file.append directory io logline).1.pending),
            unfolds.trans ((if_neg long).trans ((if_pos due).trans ((if_neg day).trans
              (if_pos late)))), ?_, fits, good.basename, good.size, ⟨_, rfl, flushed⟩,
            timeline.congr rfl, good.lastRoll, ?_, good.closed⟩
          · simpa [allLines] using lines
          · exact good.rolled_last
              (rolled added (List.mem_append_right _ List.mem_cons_self) :)
        · exact .inr ⟨_, _, init, added,
            unfolds.trans ((if_neg long).trans ((if_pos due).trans ((if_neg day).trans
              (if_neg late)))), lines, fits, good' 0⟩
    · exact .inr ⟨_, _, init, added, unfolds.trans ((if_neg long).trans (if_neg due)), lines, fits,
        good' (log.count + 1)⟩

/-- A flush writes to the last file, all that it lacks unless `fflush` fails. -/
theorem Good.flush (good : Good host base rollSize start older healthy log directory init last)
    (unused : Unused host base start older) (failure : Option Nat) :
    ∃ log' directory' text, log.flush directory failure = some (log', directory') ∧
      Good host base rollSize start older healthy log' directory' init (last.store text) ∧
      (last.store text).disk <+: last.text ∧
      (failure = none → (last.store text).disk = last.text) := by
  obtain ⟨file, current, stored⟩ := good.stored
  have flushed := stored.flush unused good.timeline failure
  unfold LogFile.flush
  rw [current]
  refine ⟨_, _, drained failure file.pending, rfl, ⟨good.basename, good.size, ⟨_, rfl, flushed⟩,
    good.timeline.congr rfl, good.lastRoll, ?_, good.closed⟩, stored.drained failure⟩
  exact good.rolled_last (good.rolled last (List.mem_append_right _ List.mem_cons_self) :)

/-- The constructor makes the first file, when the clock is later than the epoch. -/
theorem good_make (host : Host) (rollSize flushInterval checkEveryN : Int) (plain : 47 ∉ base)
    (positive : 0 < start) (unused : Unused host base start older) (healthy : Prop) :
    ∃ log directory, LogFile.make host base rollSize flushInterval checkEveryN older start true =
        some (log, directory) ∧
      Good host base rollSize start older healthy log directory [] ⟨start, [], []⟩ := by
  have created := Directory.create_new (unused start le_rfl)
  let log : LogFile := ⟨base, rollSize, flushInterval, checkEveryN, 0, 0, 0, 0, none⟩
  have rolls : log.rollFile host older start true none = some (true, { log with
      lastRoll := start
      lastFlush := start
      startOfPeriod := start.tdiv kRollPerSeconds * kRollPerSeconds
      file := some ⟨getLogFileName host base start, [], 0⟩ },
        older.create (getLogFileName host base start)) := if_pos positive
  have made : LogFile.make host base rollSize flushInterval checkEveryN older start true =
      (log.rollFile host older start true none).map Prod.snd := if_neg plain
  rw [made, rolls]
  refine ⟨_, _, rfl, rfl, rfl, ⟨_, rfl, rfl, rfl, rfl, created⟩,
    ⟨List.pairwise_singleton _ _, ?_⟩, rfl, ?_, ?_⟩
  · intro part member
    rw [List.mem_singleton.mp member]
  · intro part member
    rw [List.mem_singleton.mp member]
    exact Part.rolled_nil start
  · exact fun part member => absurd member List.not_mem_nil

end steps

/-- What comes into the file is the beginning of the text. -/
theorem appendLoop_prefix (counts : List Nat) : ∀ remain, appendLoop counts remain <+: remain := by
  induction counts with
  | nil => exact fun remain => List.prefix_refl remain
  | cons x counts ih =>
    intro remain
    unfold appendLoop
    split_ifs
    · exact List.nil_prefix
    · exact List.nil_prefix
    · obtain ⟨rest, whole⟩ := ih (remain.drop x)
      exact ⟨rest, by rw [List.append_assoc, whole, List.take_append_drop]⟩

/-- It is the whole text when no later call of `fwrite` fails. -/
theorem appendLoop_all (counts : List Nat) (fine : ∀ count ∈ counts, count ≠ 0) :
    ∀ remain, appendLoop counts remain = remain := by
  induction counts with
  | nil => exact fun _ => rfl
  | cons x counts ih =>
    intro remain
    unfold appendLoop
    rw [if_neg (fine x List.mem_cons_self)]
    split_ifs with empty
    · exact empty.symm
    · rw [ih fun count member => fine count (List.mem_cons_of_mem _ member),
        List.take_append_drop]

/-- No call of `fwrite` fails but perhaps the first, and neither `fflush` nor `fclose` fails. -/
structure Io.Fine (io : Io) : Prop where
  /-- The later calls of `fwrite` take something. -/
  counts : ∀ count ∈ io.counts.tail, count ≠ 0
  /-- What is in the buffer is written. -/
  failure : io.failure = none

/-- What comes into the file is the beginning of the text, and all of it when nothing fails. -/
theorem accepted_prefix (counts : List Nat) (logline : List UInt8) :
    accepted counts logline <+: logline ∧
      ((∀ count ∈ counts.tail, count ≠ 0) → accepted counts logline = logline) := by
  cases counts with
  | nil => exact ⟨List.prefix_refl _, fun _ => rfl⟩
  | cons n counts =>
    constructor
    · obtain ⟨rest, whole⟩ := appendLoop_prefix counts (logline.drop n)
      refine ⟨rest, ?_⟩
      show logline.take n ++ appendLoop counts (logline.drop n) ++ rest = logline
      rw [List.append_assoc, whole, List.take_append_drop]
    · intro fine
      show logline.take n ++ appendLoop counts (logline.drop n) = logline
      rw [appendLoop_all counts fine, List.take_append_drop]

/-- The calls of a `LogFile`. -/
inductive LogOp where
  /-- `append`. -/
  | append (io : Io) (logline : List UInt8)
  /-- `flush`, which may fail. -/
  | flush (failure : Option Nat)
  /-- `rollFile` at a reading of the clock; `fopen` and `fclose` may fail. -/
  | rollFile (now : Int) (opens : Bool) (failure : Option Nat)
  deriving DecidableEq

/-- A call. -/
def LogOp.exec (host : Host) (state : LogFile × Directory) : LogOp → Option (LogFile × Directory)
  | .append io logline => state.1.append host state.2 io logline
  | .flush failure => state.1.flush state.2 failure
  | .rollFile now opens failure =>
    (state.1.rollFile host state.2 now opens failure).map Prod.snd

/-- A call that has a result. -/
def LogFileStep (host : Host) (state : LogFile × Directory) (op : LogOp)
    (next : LogFile × Directory) : Prop := op.exec host state = some next

/-- What a call appends. -/
def LogOp.lines : LogOp → List Line
  | .append io logline => [⟨accepted io.counts logline, logline.length, io.roll⟩]
  | .flush _ => []
  | .rollFile _ _ _ => []

/-- A file can be opened during a call. -/
def LogOp.opens : LogOp → Bool
  | .append io _ => io.opens
  | .flush _ => true
  | .rollFile _ opens _ => opens

/-- How `fflush` or `fclose` fails during a call, if it fails. -/
def LogOp.failure : LogOp → Option Nat
  | .append io _ => io.failure
  | .flush failure => failure
  | .rollFile _ _ failure => failure

/-- Every call leaves a log, unless a file cannot be opened. -/
theorem Good.exec {host : Host} {base : List UInt8} {rollSize start : Int}
    {older directory : Directory} {healthy : Prop} {log : LogFile} {init : List Part} {last : Part}
    (good : Good host base rollSize start older healthy log directory init last)
    (isOpen : last.Open rollSize) (unused : Unused host base start older) (op : LogOp)
    (fine : healthy → op.failure = none) :
    (op.exec host (log, directory) = none ∧ op.opens = false) ∨
    ∃ log' directory' init' last', op.exec host (log, directory) = some (log', directory') ∧
      allLines (init' ++ [last']) = allLines (init ++ [last]) ++ op.lines ∧
      last'.Open rollSize ∧
      Good host base rollSize start older healthy log' directory' init' last' := by
  cases op with
  | append io logline => exact good.append isOpen unused io fine logline
  | flush failure =>
    obtain ⟨log', directory', text, flushed, good', -⟩ := good.flush unused failure
    refine .inr ⟨log', directory', init, last.store text, flushed, ?_, isOpen, good'⟩
    simp [allLines, LogOp.lines]
  | rollFile now opens failure =>
    unfold LogOp.exec
    rcases good.rollFile unused now opens fine fun _ => isOpen with
      ⟨fails, shut⟩ | ⟨result, init', last', done, same, isOpen', good'⟩
    · exact .inl ⟨congrArg (Option.map Prod.snd) fails, shut⟩
    · exact .inr ⟨_, _, init', last', congrArg (Option.map Prod.snd) done,
        same.trans (List.append_nil _).symm, isOpen', good'⟩

/-- A run of a log. -/
theorem Good.run {host : Host} {base : List UInt8} {rollSize start : Int}
    {older directory : Directory} {healthy : Prop} {log : LogFile} {last : Part}
    (good : Good host base rollSize start older healthy log directory [] last)
    (isOpen : last.Open rollSize) (unused : Unused host base start older) {ops : List LogOp}
    {state : LogFile × Directory} (fine : healthy → ∀ op ∈ ops, op.failure = none)
    (run : Run (LogFileStep host) (log, directory) ops state) :
    ∃ init' last', allLines (init' ++ [last']) = allLines [last] ++ ops.flatMap LogOp.lines ∧
      last'.Open rollSize ∧
      Good host base rollSize start older healthy state.1 state.2 init' last' := by
  induction run with
  | nil => exact ⟨[], last, (List.append_nil _).symm, isOpen, good⟩
  | @snoc ops state next op _ taken ih =>
    obtain ⟨init, last', lines, isOpen', good'⟩ :=
      ih fun well op member => fine well op (List.mem_append_left _ member)
    rcases good'.exec isOpen' unused op
      (fun well => fine well op (List.mem_append_right _ List.mem_cons_self)) with
      ⟨fails, -⟩ | ⟨_, _, init', last'', done, lines', isOpen'', good''⟩
    · cases fails.symm.trans taken
    · cases done.symm.trans taken
      refine ⟨init', last'', ?_, isOpen'', good''⟩
      rw [lines', lines, List.flatMap_append, List.flatMap_singleton, List.append_assoc]

end BackendCpp.MuduoLog
