import BackendCpp.Library.Reader
import BackendCpp.MuduoLog.LocalTime

/-!
# The zone files of TimeZone.cc

`readTimeZoneFile` reads a file in the first version of the TZif format into a table. It always answers
that it could: a `logic_error` is printed, and what was put into the table before it stays there.
`readBytes` has its buffer on the stack, whose room is an argument. A read outside of a vector, or a
buffer for which the stack has no room, is undefined.
-/

namespace BackendCpp.MuduoLog

open BackendCpp.Library

/-- A number of 32 bits, the most significant byte first, as `be32toh` gives it. -/
def be32toh (text : List UInt8) : Int :=
  (numeralValue 256 (text.map UInt8.toNat) : Int).bmod (2 ^ 32)

/-- `File::readBytes`, when there is room for the buffer. -/
def readBytes (n : Nat) : Reader String UInt8 (List UInt8) := readFixed n id "no enough data"

/-- `File::readInt32`. -/
def readInt32 : Reader String UInt8 Int := readFixed 4 be32toh "bad int32_t data"

/-- `File::readUInt8`. -/
def readUInt8 : Reader String UInt8 UInt8 := readFixed 1 (·.headD 0) "bad uint8_t data"

/-- The numbers of a header. -/
structure Header where
  /-- How many flags of universal time there are, which is not used. -/
  isgmtcnt : Int
  /-- How many flags of standard time there are, which is not used. -/
  isstdcnt : Int
  /-- How many leap seconds there are, which are not read. -/
  leapcnt : Int
  /-- How many transitions there are. -/
  timecnt : Int
  /-- How many types of local time there are. -/
  typecnt : Int
  /-- How many bytes the names have. -/
  charcnt : Int
  deriving DecidableEq

/-- The test of the first bytes. -/
def checkHead (head : List UInt8) : Reader String UInt8 Unit :=
  if head ≠ bytes "TZif" then throw "bad head" else pure ()

/-- The header of a file. -/
def readHeader : Reader String UInt8 Header := do
  let head ← readBytes 4
  checkHead head
  let _version ← readBytes 1
  let _reserved ← readBytes 15
  let isgmtcnt ← readInt32
  let isstdcnt ← readInt32
  let leapcnt ← readInt32
  let timecnt ← readInt32
  let typecnt ← readInt32
  let charcnt ← readInt32
  pure { isgmtcnt, isstdcnt, leapcnt, timecnt, typecnt, charcnt }

/-- A type of local time. -/
def readLocaltime : Reader String UInt8 Localtime := do
  let gmtoff ← readInt32
  let isdst ← readUInt8
  let abbrind ← readUInt8
  pure { gmtOffset := gmtoff, isDst := isdst ≠ 0, arrbIdx := abbrind.toNat }

/-- The loop that makes the transitions; nothing when there is no such type. -/
def makeTransitions (localtimes : List Localtime) : List (Int × UInt8) → Option (List Transition)
  | [] => some []
  | (time, localIdx) :: rest =>
    match localtimes[localIdx.toNat]? with
    | none => none
    | some localTime =>
      (makeTransitions localtimes rest).map
        (⟨time, time + localTime.gmtOffset, localIdx.toNat⟩ :: ·)

/-- `readTimeZoneFile` after the types: the transitions and the names. It gives what is printed and
the table. -/
def readNames (stack : Nat) (header : Header) (localtimes : List Localtime)
    (times : List (Int × UInt8)) (f : List UInt8) : Option (Option String × Data) :=
  match makeTransitions localtimes times with
  | none => none
  | some transitions =>
    if header.charcnt < 0 ∨ stack < header.charcnt then none
    else
      match readBytes header.charcnt.toNat f with
      | .error what => some (some what, ⟨transitions, localtimes, []⟩)
      | .ok (abbreviation, _) => some (none, ⟨transitions, localtimes, abbreviation⟩)

/-- `readTimeZoneFile` after the header. `reserve` of a negative number throws a `length_error`. -/
def readTable (stack : Nat) (header : Header) (f : List UInt8) : Option (Option String × Data) :=
  if header.timecnt < 0 then some (some "vector::reserve", ⟨[], [], []⟩)
  else
    match readMany readInt32 header.timecnt.toNat f with
    | (_, .error what) => some (some what, ⟨[], [], []⟩)
    | (times, .ok f) =>
      match readMany readUInt8 header.timecnt.toNat f with
      | (_, .error what) => some (some what, ⟨[], [], []⟩)
      | (localIdxs, .ok f) =>
        match readMany readLocaltime header.typecnt.toNat f with
        | (localtimes, .error what) => some (some what, ⟨[], localtimes, []⟩)
        | (localtimes, .ok f) => readNames stack header localtimes (times.zip localIdxs) f

/-- `readTimeZoneFile` on the contents of a file, if it can be opened, and an empty table: the answer,
what is printed and the table. -/
def readTimeZoneFile (stack : Nat) (zonefile : Option (List UInt8)) :
    Option (Bool × Option String × Data) :=
  match zonefile with
  | none => some (true, none, ⟨[], [], []⟩)
  | some f =>
    match readHeader f with
    | .error what => some (true, some what, ⟨[], [], []⟩)
    | .ok (header, f) => (readTable stack header f).map fun table => (true, table)

/-- The values of an `int32_t`. -/
def IsInt32 (value : Int) : Prop := -2 ^ 31 ≤ value ∧ value < 2 ^ 31

/-- A number of 32 bits as a file has it. -/
def int32Bytes (value : Int) : List UInt8 :=
  let n := (value % 2 ^ 32).toNat
  [UInt8.ofNat (n / 2 ^ 24), UInt8.ofNat (n / 2 ^ 16), UInt8.ofNat (n / 2 ^ 8), UInt8.ofNat n]

/-- A length below 2 ^ 31 has 32 bits. -/
theorem isInt32_length {length : Nat} (short : length < 2 ^ 31) : IsInt32 length := by
  unfold IsInt32
  omega

/-- What a zone file says. -/
structure ZoneFile where
  /-- The version. -/
  version : UInt8
  /-- What is reserved. -/
  reserved : List UInt8
  /-- The number of flags of universal time. -/
  isgmtcnt : Int
  /-- The number of flags of standard time. -/
  isstdcnt : Int
  /-- The number of leap seconds. -/
  leapcnt : Int
  /-- The transitions: a time and the number of a type. -/
  times : List (Int × UInt8)
  /-- The types: the offset, the flag of daylight saving time and the place of the name. -/
  types : List (Int × UInt8 × UInt8)
  /-- The names. -/
  names : List UInt8
  /-- There are 15 reserved bytes. -/
  length_reserved : reserved.length = 15
  /-- The numbers have 32 bits. -/
  counts : IsInt32 isgmtcnt ∧ IsInt32 isstdcnt ∧ IsInt32 leapcnt ∧ times.length < 2 ^ 31 ∧
    types.length < 2 ^ 31 ∧ names.length < 2 ^ 31
  /-- So do the times, and there are their types. -/
  inTimes : ∀ time ∈ times, IsInt32 time.1 ∧ time.2.toNat < types.length
  /-- So do the offsets. -/
  inTypes : ∀ type ∈ types, IsInt32 type.1

namespace ZoneFile

variable (file : ZoneFile)

/-- The header of a zone file. -/
def header : Header :=
  { isgmtcnt := file.isgmtcnt, isstdcnt := file.isstdcnt, leapcnt := file.leapcnt
    timecnt := file.times.length, typecnt := file.types.length, charcnt := file.names.length }

/-- The bytes of the header. -/
def headerBytes : List UInt8 :=
  bytes "TZif" ++ ([file.version] ++ (file.reserved ++ (int32Bytes file.isgmtcnt ++
    (int32Bytes file.isstdcnt ++ (int32Bytes file.leapcnt ++ (int32Bytes file.times.length ++
      (int32Bytes file.types.length ++ (int32Bytes file.names.length ++ []))))))))

/-- The bytes of a type. -/
def typeBytes (type : Int × UInt8 × UInt8) : List UInt8 :=
  int32Bytes type.1 ++ ([type.2.1] ++ ([type.2.2] ++ []))

/-- The bytes after the header. -/
def tableBytes : List UInt8 :=
  file.times.flatMap (fun time => int32Bytes time.1) ++
    (file.times.flatMap (fun time => [time.2]) ++ (file.types.flatMap typeBytes ++ file.names))

/-- The bytes of a zone file. -/
def bytes : List UInt8 := file.headerBytes ++ file.tableBytes

/-- A type of local time of a zone file. -/
def localtime (type : Int × UInt8 × UInt8) : Localtime := ⟨type.1, type.2.1 ≠ 0, type.2.2.toNat⟩

/-- The table of a zone file. -/
def data : Data :=
  { transitions := file.times.map fun time =>
      ⟨time.1, time.1 + (file.types.getD time.2.toNat (0, 0, 0)).1, time.2.toNat⟩
    localtimes := file.types.map localtime
    abbreviation := file.names }

end ZoneFile

/-- A number is read back from its bytes. -/
theorem be32toh_int32Bytes {value : Int} (word : IsInt32 value) :
    be32toh (int32Bytes value) = value := by
  obtain ⟨low, high⟩ := word
  unfold be32toh int32Bytes numeralValue
  simp only [List.map_cons, List.map_nil, List.foldl_cons, List.foldl_nil, UInt8.toNat_ofNat']
  rw [Int.bmod_def]
  push_cast
  split_ifs <;> omega

/-- `readInt32` reads a number. -/
theorem readInt32_reads {ι : Type} {good : ι → Prop} (value : ι → Int)
    (word : ∀ item, good item → IsInt32 (value item)) :
    Reads readInt32 4 (fun item => int32Bytes (value item)) value good :=
  readFixed_reads (fun item fine => be32toh_int32Bytes (word item fine)) fun _ => rfl

/-- `readUInt8` reads a byte. -/
theorem readUInt8_reads {ι : Type} {good : ι → Prop} (value : ι → UInt8) :
    Reads readUInt8 1 (fun item => [value item]) value good :=
  readFixed_reads (fun _ _ => rfl) fun _ => rfl

/-- `readBytes` reads bytes. -/
theorem readBytes_reads {ι : Type} {good : ι → Prop} {n : Nat} (value : ι → List UInt8)
    (length : ∀ item, (value item).length = n) : Reads (readBytes n) n value value good :=
  readFixed_reads (fun _ _ => rfl) length

/-- A type is read. -/
theorem readLocaltime_reads : Reads readLocaltime 6 ZoneFile.typeBytes ZoneFile.localtime
    fun type => IsInt32 type.1 := by
  show Reads readLocaltime (4 + (1 + (1 + 0)))
    (fun type : Int × UInt8 × UInt8 => int32Bytes type.1 ++ ([type.2.1] ++ ([type.2.2] ++ []))) _ _
  refine (readInt32_reads Prod.fst fun _ word => word).bind (fun gmtoff => ?_)
  refine (readUInt8_reads fun type : Int × UInt8 × UInt8 => type.2.1).bind (fun isdst => ?_)
  refine (readUInt8_reads fun type : Int × UInt8 × UInt8 => type.2.2).bind (fun abbrind => ?_)
  refine pure_reads ?_
  rintro type ⟨⟨⟨-, rfl⟩, rfl⟩, rfl⟩
  rfl

/-- The first bytes pass. -/
theorem checkHead_reads {ι : Type} {good : ι → Prop} {head : List UInt8}
    (right : ∀ item, good item → head = bytes "TZif") :
    Reads (checkHead head) 0 (fun _ => []) (fun _ => ()) good := by
  by_cases same : head = bytes "TZif"
  · have passes : checkHead head = pure () := if_neg (not_not.mpr same)
    rw [passes]
    exact pure_reads fun _ _ => rfl
  · have fails : checkHead head = throw "bad head" := if_pos same
    rw [fails]
    refine ⟨fun text few => absurd few (Nat.not_lt_zero _), fun text value rest done => ?_,
      fun item fine => absurd (right item fine) same, fun _ => rfl⟩
    cases done

/-- The header is read. -/
theorem readHeader_reads : Reads readHeader 44 ZoneFile.headerBytes ZoneFile.header
    fun _ => True := by
  show Reads readHeader (4 + (0 + (1 + (15 + (4 + (4 + (4 + (4 + (4 + (4 + 0))))))))))
    (fun file : ZoneFile => bytes "TZif" ++ ([] ++ ([file.version] ++ (file.reserved ++
      (int32Bytes file.isgmtcnt ++ (int32Bytes file.isstdcnt ++ (int32Bytes file.leapcnt ++
        (int32Bytes file.times.length ++ (int32Bytes file.types.length ++
          (int32Bytes file.names.length ++ [])))))))))) _ _
  refine (readBytes_reads (fun _ => bytes "TZif") fun _ => rfl).bind (fun head => ?_)
  refine (checkHead_reads fun _ fine => fine.2.symm).bind (fun _ => ?_)
  refine (readBytes_reads (fun file : ZoneFile => [file.version]) fun _ => rfl).bind
    (fun version => ?_)
  refine (readBytes_reads ZoneFile.reserved ZoneFile.length_reserved).bind (fun reserved => ?_)
  refine (readInt32_reads ZoneFile.isgmtcnt fun file _ => file.counts.1).bind
    (fun isgmtcnt => ?_)
  refine (readInt32_reads ZoneFile.isstdcnt fun file _ => file.counts.2.1).bind
    (fun isstdcnt => ?_)
  refine (readInt32_reads ZoneFile.leapcnt fun file _ => file.counts.2.2.1).bind
    (fun leapcnt => ?_)
  refine (readInt32_reads (fun file : ZoneFile => file.times.length) fun file _ =>
    isInt32_length file.counts.2.2.2.1).bind (fun timecnt => ?_)
  refine (readInt32_reads (fun file : ZoneFile => file.types.length) fun file _ =>
    isInt32_length file.counts.2.2.2.2.1).bind (fun typecnt => ?_)
  refine (readInt32_reads (fun file : ZoneFile => file.names.length) fun file _ =>
    isInt32_length file.counts.2.2.2.2.2).bind (fun charcnt => ?_)
  refine pure_reads ?_
  rintro file ⟨⟨⟨⟨⟨⟨-, rfl⟩, rfl⟩, rfl⟩, rfl⟩, rfl⟩, rfl⟩
  rfl

/-- The transitions are made when all their types are there. -/
theorem makeTransitions_some (localtimes : List Localtime) {times : List (Int × UInt8)}
    (types : List (Int × UInt8 × UInt8)) (inside : ∀ time ∈ times, time.2.toNat < types.length)
    (same : localtimes = types.map ZoneFile.localtime) :
    makeTransitions localtimes times = some (times.map fun time =>
      ⟨time.1, time.1 + (types.getD time.2.toNat (0, 0, 0)).1, time.2.toNat⟩) := by
  induction times with
  | nil => rfl
  | cons time times ih =>
    have here := inside time List.mem_cons_self
    have there : localtimes[time.2.toNat]? =
        some (ZoneFile.localtime (types.getD time.2.toNat (0, 0, 0))) := by
      rw [same, List.getElem?_map, List.getD_eq_getElem?_getD, List.getElem?_eq_getElem here]
      rfl
    rw [makeTransitions, there]
    simp only [ih fun other member => inside other (List.mem_cons_of_mem _ member),
      Option.map_some, List.map_cons]
    rfl

/-- The names are read, or cut off. -/
theorem ZoneFile.readNames_take (file : ZoneFile) {stack : Nat} (room : file.names.length ≤ stack)
    (tail : List UInt8) (n : Nat) :
    (n < file.names.length ∧ ∃ what,
      readNames stack file.header file.data.localtimes file.times ((file.names ++ tail).take n) =
        some (some what, ⟨file.data.transitions, file.data.localtimes, []⟩)) ∨
      (file.names.length ≤ n ∧
        readNames stack file.header file.data.localtimes file.times ((file.names ++ tail).take n) =
          some (none, file.data)) := by
  have charcnt : ¬(file.header.charcnt < 0 ∨ (stack : Int) < file.header.charcnt) := by
    show ¬((file.names.length : Int) < 0 ∨ (stack : Int) < file.names.length)
    omega
  have count : file.header.charcnt.toNat = file.names.length := Int.toNat_natCast _
  have transitions : makeTransitions file.data.localtimes file.times =
      some file.data.transitions :=
    makeTransitions_some _ file.types (fun time member => (file.inTimes time member).2) rfl
  have names : Reads (readBytes file.names.length) file.names.length (fun _ : Unit => file.names)
      (fun _ => file.names) (fun _ => True) := readBytes_reads _ fun _ => rfl
  unfold readNames
  rw [transitions]
  simp only [if_neg charcnt, count]
  rcases names.take () trivial tail n with ⟨cut, what, fails⟩ | ⟨long, whole⟩
  · rw [fails]
    exact .inl ⟨cut, what, rfl⟩
  · rw [whole]
    exact .inr ⟨long, rfl⟩

/-- The table is read, or the part of it before a cut. -/
theorem ZoneFile.readTable_take (file : ZoneFile) {stack : Nat}
    (room : file.names.length ≤ stack) (tail : List UInt8) (n : Nat) :
    (n < file.tableBytes.length ∧ ∃ what data,
      readTable stack file.header ((file.tableBytes ++ tail).take n) = some (some what, data) ∧
        ((∃ k, data = ⟨[], file.data.localtimes.take k, []⟩) ∨
          data = ⟨file.data.transitions, file.data.localtimes, []⟩)) ∨
      (file.tableBytes.length ≤ n ∧
        readTable stack file.header ((file.tableBytes ++ tail).take n) = some (none, file.data)) := by
  have timecnt : ¬file.header.timecnt < 0 := by
    show ¬(file.times.length : Int) < 0
    omega
  have countTimes : file.header.timecnt.toNat = file.times.length := Int.toNat_natCast _
  have countTypes : file.header.typecnt.toNat = file.types.length := Int.toNat_natCast _
  have zipped : (file.times.map Prod.fst).zip (file.times.map Prod.snd) = file.times := by
    rw [List.zip_map']
    exact List.map_id _
  let types := file.types.flatMap typeBytes
  let idxs := file.times.flatMap fun time => [time.2]
  let times := file.times.flatMap fun time => int32Bytes time.1
  have bytes : file.tableBytes ++ tail = times ++ (idxs ++ (types ++ (file.names ++ tail))) := by
    unfold ZoneFile.tableBytes
    simp only [List.append_assoc, times, idxs, types]
  have length : file.tableBytes.length =
      times.length + (idxs.length + (types.length + file.names.length)) := by
    unfold ZoneFile.tableBytes
    simp only [List.length_append, times, idxs, types]
  have readTimes : Reads readInt32 4 (fun time : Int × UInt8 => int32Bytes time.1) Prod.fst
      (fun time => IsInt32 time.1) := readInt32_reads _ fun _ word => word
  have readIdxs : Reads readUInt8 1 (fun time : Int × UInt8 => [time.2]) Prod.snd
      (fun _ => True) := readUInt8_reads _
  rw [bytes, length]
  unfold readTable
  rw [if_neg timecnt, countTimes, countTypes]
  rcases readTimes.many_take (fun time member => (file.inTimes time member).1)
    (idxs ++ (types ++ (file.names ++ tail))) n with ⟨cut, k, what, fails⟩ | ⟨first, whole⟩
  · change n < times.length at cut
    rw [fails]
    exact .inl ⟨by omega, what, _, rfl, .inl ⟨0, rfl⟩⟩
  change times.length ≤ n at first
  rw [whole]
  simp only
  rcases readIdxs.many_take (fun time (_ : time ∈ file.times) => trivial)
    (types ++ (file.names ++ tail)) (n - times.length) with
    ⟨cut, k, what, fails⟩ | ⟨second, whole⟩
  · change n - times.length < idxs.length at cut
    rw [fails]
    exact .inl ⟨by omega, what, _, rfl, .inl ⟨0, rfl⟩⟩
  change idxs.length ≤ n - times.length at second
  rw [whole]
  simp only
  rcases readLocaltime_reads.many_take file.inTypes (file.names ++ tail)
    (n - times.length - idxs.length) with ⟨cut, k, what, fails⟩ | ⟨third, whole⟩
  · change n - times.length - idxs.length < types.length at cut
    rw [fails]
    exact .inl ⟨by omega, what, _, rfl, .inl ⟨k, rfl⟩⟩
  change types.length ≤ n - times.length - idxs.length at third
  rw [whole]
  simp only [zipped]
  rcases file.readNames_take room tail (n - times.length - idxs.length - types.length) with
    ⟨cut, what, fails⟩ | ⟨fourth, whole⟩
  · exact .inl ⟨by omega, what, _, fails, .inr rfl⟩
  · exact .inr ⟨by omega, whole⟩

/-- A zone file with anything after it, cut off anywhere. When nothing of the zone file is missing it is
read, whatever comes after it. Otherwise a message is printed, the answer is still that it could be
read, and the table has no transitions and some of the types, or lacks the names only. -/
theorem zone_file_read (file : ZoneFile) {stack : Nat} (room : file.names.length ≤ stack)
    (tail : List UInt8) (n : Nat) :
    (n < file.bytes.length ∧ ∃ what data,
      readTimeZoneFile stack (some ((file.bytes ++ tail).take n)) = some (true, some what, data) ∧
        ((∃ k, data = ⟨[], file.data.localtimes.take k, []⟩) ∨
          data = ⟨file.data.transitions, file.data.localtimes, []⟩)) ∨
      (file.bytes.length ≤ n ∧
        readTimeZoneFile stack (some ((file.bytes ++ tail).take n)) =
          some (true, none, file.data)) := by
  have length : file.bytes.length = 44 + file.tableBytes.length := by
    rw [← readHeader_reads.length file]
    exact List.length_append
  have bytes : file.bytes ++ tail = file.headerBytes ++ (file.tableBytes ++ tail) :=
    List.append_assoc _ _ _
  rw [bytes, length]
  unfold readTimeZoneFile
  rcases readHeader_reads.take file trivial (file.tableBytes ++ tail) n with
    ⟨cut, what, fails⟩ | ⟨long, header⟩
  · simp only [fails]
    exact .inl ⟨by omega, what, _, rfl, .inl ⟨0, rfl⟩⟩
  simp only [header]
  rcases file.readTable_take room tail (n - 44) with ⟨cut, what, data, fails, part⟩ | ⟨rest, whole⟩
  · rw [fails]
    exact .inl ⟨by omega, what, data, rfl, part⟩
  · rw [whole]
    exact .inr ⟨by omega, rfl⟩

/-- A zone with one transition. -/
def china : ZoneFile :=
  { version := 0, reserved := List.replicate 15 0, isgmtcnt := 0, isstdcnt := 0, leapcnt := 0
    times := [(515520000, 1)], types := [(28800, 0, 0), (32400, 1, 4)]
    names := bytes "CST" ++ [0] ++ bytes "CDT" ++ [0], length_reserved := by decide
    counts := by unfold IsInt32; decide, inTimes := by unfold IsInt32; decide
    inTypes := by unfold IsInt32; decide }

/-- The zone is read from its file, and its file may be cut off. -/
theorem zone_file_read_china :
    readTimeZoneFile 8 (some (china.bytes ++ [0, 0])) = some (true, none, china.data) ∧
    ∃ what k, readTimeZoneFile 8 (some (china.bytes.take 60)) =
      some (true, some what, ⟨[], china.data.localtimes.take k, []⟩) := by
  have room : china.names.length ≤ 8 := by decide
  have none : (readTimeZoneFile 8 (some (china.bytes.take 60))).map
      (fun read => read.2.2.transitions) = some [] := by decide +kernel
  refine ⟨?_, ?_⟩
  · rcases zone_file_read china room [0, 0] 71 with ⟨cut, -⟩ | ⟨-, whole⟩
    · exact absurd cut (by decide)
    · exact whole
  · rcases zone_file_read china room [] 60 with ⟨-, what, data, read, part⟩ | ⟨long, -⟩
    · rw [List.append_nil] at read
      rcases part with ⟨k, rfl⟩ | rfl
      · exact ⟨what, k, read⟩
      · rw [read] at none
        have no : china.data.transitions = [] := Option.some.inj none
        exact absurd no (by decide)
    · exact absurd long (by decide)

end BackendCpp.MuduoLog
