import BackendCpp.Http.Program

/-!
# How many pairs a request adds

The loop calls `put_kvpair` after every `readline`, also after the one that reads the empty line
and after the one that finds no line any more. So a run that stays inside its buffers adds one
pair for each end of line in the text, two more than there are headers.
-/

namespace BackendCpp.Http

open BackendCpp.Library

/-- A request: its path and its headers. -/
structure Request where
  /-- The path. -/
  path : List UInt8
  /-- Names and values, in order. -/
  headers : List (List UInt8 × List UInt8)

/-- The end of a line. -/
def crlf : List UInt8 := [13, 10]

/-- The line of a header. -/
def headerLine (header : List UInt8 × List UInt8) : List UInt8 :=
  header.1 ++ [58] ++ header.2 ++ crlf

/-- The text of a request: `GET path HTTP/1.1`, the headers, an empty line. -/
def Request.text (request : Request) : List UInt8 :=
  [71, 69, 84, 32] ++ request.path ++ [32, 72, 84, 84, 80, 47, 49, 46, 49] ++ crlf ++
    request.headers.flatMap headerLine ++ crlf

/-- The requests in question. -/
structure Request.Valid (request : Request) : Prop where
  /-- The path starts with a slash. -/
  slash : request.path.head? = some 47
  /-- It has no blanks. -/
  path : (32 : UInt8) ∉ request.path
  /-- Names are not empty and shorter than `KEY_MAX_LENGTH`, without colon and carriage return. -/
  names : ∀ header ∈ request.headers, header.1 ≠ [] ∧ header.1.length < keyMaxLength ∧
    (58 : UInt8) ∉ header.1 ∧ (13 : UInt8) ∉ header.1
  /-- Values are shorter than `VALUE_MAX_LENGTH`, without carriage return. -/
  values : ∀ header ∈ request.headers,
    header.2.length < valueMaxLength ∧ (13 : UInt8) ∉ header.2
  /-- There are at most 128 headers. -/
  few : request.headers.length ≤ 128
  /-- The text has at most 1023 bytes. -/
  short : request.text.length ≤ 1023

/-- A buffer holds a text as a string ended by a zero byte. -/
structure Holds (buffer text : List UInt8) : Prop where
  /-- The text has no zero byte. -/
  string : (0 : UInt8) ∉ text
  /-- It stands at the start of the buffer, before a zero byte. -/
  held : text ++ [0] <+: buffer

/-- An array holds a C string. -/
def Spells (buffer string : List UInt8) : Prop := cString buffer = some string

/-- Parsing is exact: it ends without a step outside the buffers, the resource is the path, and
exactly the headers are added, in order. -/
def Exact (request : Request) (conn : Connect) (linebuf : List UInt8) : Prop :=
  ∃ result, Leaves (fun fuel => zvHttpRequest fuel conn linebuf) (some result) ∧
    Spells result.resource request.path ∧
    result.header.count = conn.header.count + request.headers.length ∧
    ∀ place header, request.headers[place]? = some header →
      ∃ pair, result.header.table[conn.header.count + place]? = some pair ∧
        Spells pair.1 header.1 ∧ Spells pair.2 header.2

/-- The number of ends of line in a text. -/
def lineEnds : List UInt8 → Nat
  | [] => 0
  | byte :: rest => (if byte = 13 ∧ rest.head? = some 10 then 1 else 0) + lineEnds rest

/-- A text in front takes away no end of line. -/
theorem lineEnds_le_append (before text : List UInt8) :
    lineEnds text ≤ lineEnds (before ++ text) := by
  induction before with
  | nil => exact le_rfl
  | cons byte rest ih =>
    rw [List.cons_append, lineEnds]
    omega

/-- Ends of line add up. -/
theorem lineEnds_append (first second : List UInt8) :
    lineEnds first + lineEnds second ≤ lineEnds (first ++ second) := by
  induction first with
  | nil =>
    rw [lineEnds, Nat.zero_add, List.nil_append]
  | cons byte rest ih =>
    rw [List.cons_append, lineEnds, lineEnds]
    by_cases ends : byte = 13 ∧ rest.head? = some 10
    · have still : byte = 13 ∧ (rest ++ second).head? = some 10 := by
        refine ⟨ends.1, ?_⟩
        rw [List.head?_append, ends.2]
        rfl
      rw [if_pos ends, if_pos still]
      omega
    · rw [if_neg ends]
      omega

/-- The headers have an end of line each. -/
theorem lineEnds_headers (headers : List (List UInt8 × List UInt8)) :
    headers.length ≤ lineEnds (headers.flatMap headerLine) := by
  induction headers with
  | nil => exact le_rfl
  | cons header rest ih =>
    rw [List.flatMap_cons, List.length_cons]
    have line : 1 ≤ lineEnds (headerLine header) := by
      rw [headerLine]
      exact lineEnds_le_append _ crlf
    have both := lineEnds_append (headerLine header) (rest.flatMap headerLine)
    omega

/-- A request has two ends of line more than headers. -/
theorem lineEnds_text (request : Request) :
    request.headers.length + 2 ≤ lineEnds request.text := by
  have last := lineEnds_append ([71, 69, 84, 32] ++ request.path ++
    [32, 72, 84, 84, 80, 47, 49, 46, 49] ++ crlf ++ request.headers.flatMap headerLine) crlf
  have middle := lineEnds_append ([71, 69, 84, 32] ++ request.path ++
    [32, 72, 84, 84, 80, 47, 49, 46, 49] ++ crlf) (request.headers.flatMap headerLine)
  have first := lineEnds_le_append ([71, 69, 84, 32] ++ request.path ++
    [32, 72, 84, 84, 80, 47, 49, 46, 49]) crlf
  have one : lineEnds crlf = 1 := by decide
  have headers := lineEnds_headers request.headers
  rw [Request.text]
  omega

variable {buffer text : List UInt8}

/-- The string that a buffer holds. -/
theorem Holds.cString (holds : Holds buffer text) : cString buffer = some text := by
  obtain ⟨rest, whole⟩ := holds.held
  have string := holds.string
  rw [← whole]
  clear whole holds
  induction text with
  | nil => rfl
  | cons byte text ih =>
    have nonzero : byte ≠ 0 := fun zero => string (zero ▸ List.mem_cons_self)
    simp only [List.cons_append, Http.cString, if_neg nonzero]
    rw [ih fun member => string (List.mem_cons_of_mem _ member)]
    rfl

/-- A byte of the text, or the zero byte after it. -/
theorem Holds.read (holds : Holds buffer text) {idx : Nat} (inside : idx ≤ text.length) :
    buffer[idx]? = some ((text.drop idx).head?.getD 0) := by
  obtain ⟨rest, whole⟩ := holds.held
  rw [← whole, List.head?_drop]
  rw [List.getElem?_append_left (by rw [List.length_append, List.length_singleton]; omega)]
  by_cases last : idx = text.length
  · rw [last, List.getElem?_concat_length, List.getElem?_eq_none le_rfl]
    rfl
  · rw [List.getElem?_append_left (by omega), List.getElem?_eq_getElem (by omega)]
    rfl

/-- The test for the end of a line reads the text. -/
theorem Holds.endsLine (holds : Holds buffer text) {idx : Nat} (inside : idx < text.length) :
    endsLine buffer idx = some (decide ((text.drop idx).head? = some 13 ∧
      (text.drop (idx + 1)).head? = some 10)) := by
  have here := holds.read (le_of_lt inside)
  have next := holds.read (show idx + 1 ≤ text.length from inside)
  have byte : (text.drop idx).head? = some text[idx] := by
    rw [List.head?_drop, List.getElem?_eq_getElem inside]
  rw [byte] at here ⊢
  simp only [Http.endsLine, here, next, Option.getD_some, Option.bind_eq_bind, Option.bind_some]
  by_cases carriage : text[idx] = 13
  · rw [if_pos carriage]
    cases follows : (text.drop (idx + 1)).head? with
    | none => simp [carriage]
    | some other => simp [carriage]
  · rw [if_neg carriage]
    simp [carriage]

/-- What `readline` returns: `-1` when no end of line is left, else the place after one. -/
theorem Holds.readlineFrom (holds : Holds buffer text) (left : Nat) :
    ∀ (idx : Nat) (linebuf : List UInt8) (at' : Nat) (place : Int) (line : List UInt8),
      left = text.length - idx →
      Http.readlineFrom buffer left idx linebuf at' = some (place, line) →
      (place = -1 ∧ lineEnds (text.drop idx) = 0) ∨
      ∃ after : Nat, place = after ∧ after ≤ text.length ∧
        lineEnds (text.drop idx) = lineEnds (text.drop after) + 1 := by
  induction left with
  | zero =>
    intro idx linebuf at' place line count read
    left
    have ended : text.drop idx = [] := List.drop_eq_nil_of_le (by omega)
    simp only [Http.readlineFrom, Option.some.injEq, Prod.mk.injEq] at read
    rw [ended]
    exact ⟨read.1.symm, rfl⟩
  | succ left ih =>
    intro idx linebuf at' place line count read
    have inside : idx < text.length := by omega
    have split : text.drop idx = text[idx] :: text.drop (idx + 1) :=
      List.drop_eq_getElem_cons inside
    have test := holds.endsLine inside
    simp only [Http.readlineFrom, test, Option.bind_eq_bind, Option.bind_some] at read
    by_cases ends : (text.drop idx).head? = some 13 ∧ (text.drop (idx + 1)).head? = some 10
    · right
      rw [decide_eq_true ends, if_pos rfl] at read
      have same := Option.some.inj read
      have carriage : text[idx] = 13 := by
        have first := ends.1
        rw [split] at first
        exact Option.some.inj first
      have room : idx + 1 < text.length := by
        by_contra short
        have second := ends.2
        rw [List.drop_eq_nil_of_le (by omega)] at second
        cases second
      have feed : text.drop (idx + 1) = 10 :: text.drop (idx + 2) := by
        have second := ends.2
        rw [List.drop_eq_getElem_cons room] at second ⊢
        rw [Option.some.inj second]
      refine ⟨idx + 2, (congrArg Prod.fst same).symm, by omega, ?_⟩
      rw [split, lineEnds, if_pos ⟨carriage, ends.2⟩, feed, lineEnds]
      have other : ¬ ((10 : UInt8) = 13 ∧ (text.drop (idx + 2)).head? = some 10) :=
        fun both => absurd both.1 (by decide)
      rw [if_neg other]
      omega
    · rw [decide_eq_false ends] at read
      simp only [Bool.false_eq_true, if_false, holds.read (le_of_lt inside),
        Option.bind_some] at read
      obtain ⟨written, _, rest⟩ := Option.bind_eq_some_iff.mp read
      have later := ih (idx + 1) written (at' + 1) place line (by omega) rest
      have same : lineEnds (text.drop idx) = lineEnds (text.drop (idx + 1)) := by
        have other : ¬ (text[idx] = 13 ∧ (text.drop (idx + 1)).head? = some 10) := by
          intro both
          apply ends
          rw [split]
          exact ⟨congrArg some both.1, both.2⟩
        rw [split, lineEnds, if_neg other, Nat.zero_add]
      rw [same]
      exact later

/-- `readline` from a place in the text. -/
theorem Holds.readline (holds : Holds buffer text) {idx : Nat} {linebuf line : List UInt8}
    {place : Int} (read : Http.readline buffer idx linebuf = some (place, line)) :
    (place = -1 ∧ lineEnds (text.drop idx) = 0) ∨
      ∃ after : Nat, place = after ∧ after ≤ text.length ∧
        lineEnds (text.drop idx) = lineEnds (text.drop after) + 1 := by
  simp only [Http.readline, holds.cString, Option.bind_eq_bind, Option.bind_some] at read
  exact holds.readlineFrom _ idx linebuf 0 place line rfl read

/-- `put_kvpair` adds one pair. -/
theorem putKvpair_count {kvstore next : Kvstore} {key value : List UInt8}
    (put : putKvpair kvstore key value = some next) : next.count = kvstore.count + 1 := by
  simp only [putKvpair, Option.bind_eq_bind] at put
  obtain ⟨_, _, put⟩ := Option.bind_eq_some_iff.mp put
  obtain ⟨_, _, put⟩ := Option.bind_eq_some_iff.mp put
  by_cases room : kvstore.count < kvstore.table.length
  · rw [if_pos room] at put
    rw [← Option.some.inj put]
  · rw [if_neg room] at put
    cases put

/-- The pairs that the loop still adds: one for each end of line that is left and one for the
last `readline`. -/
def toAdd (text : List UInt8) (place : Int) : Nat :=
  if place = -1 then 0 else lineEnds (text.drop place.toNat) + 1

/-- A pass of the loop adds one of them, or none is left. -/
theorem Holds.pass (holds : Holds buffer text) {place : Int} {linebuf : List UInt8}
    {header : Kvstore} {outcome : (Int × List UInt8 × Kvstore) ⊕ Kvstore}
    (pass : headerPass buffer (place, linebuf, header) = some outcome) :
    (outcome = .inr header ∧ toAdd text place = 0) ∨
      ∃ next, outcome = .inl next ∧
        next.2.2.count + toAdd text next.1 = header.count + toAdd text place := by
  rw [headerPass] at pass
  by_cases last : place = -1
  · left
    rw [if_pos last] at pass
    refine ⟨(Option.some.inj pass).symm, ?_⟩
    rw [toAdd, if_pos last]
  · right
    rw [if_neg last] at pass
    simp only [Option.bind_eq_bind] at pass
    obtain ⟨line, read, pass⟩ := Option.bind_eq_some_iff.mp pass
    obtain ⟨i, _, pass⟩ := Option.bind_eq_some_iff.mp pass
    obtain ⟨cut, _, pass⟩ := Option.bind_eq_some_iff.mp pass
    obtain ⟨added, put, pass⟩ := Option.bind_eq_some_iff.mp pass
    refine ⟨(line.1, cut, added), (Option.some.inj pass).symm, ?_⟩
    have one := putKvpair_count put
    have before : toAdd text place = lineEnds (text.drop place.toNat) + 1 := by
      rw [toAdd, if_neg last]
    cases holds.readline read with
    | inl ended =>
      have none : toAdd text line.1 = 0 := by
        rw [toAdd, if_pos ended.1]
      change added.count + toAdd text line.1 = _
      change added.count = header.count + 1 at one
      omega
    | inr found =>
      obtain ⟨after, same, _, fewer⟩ := found
      have rest : toAdd text line.1 = lineEnds (text.drop after) + 1 := by
        rw [same, toAdd, if_neg (by omega), Int.toNat_natCast]
      change added.count + toAdd text line.1 = _
      change added.count = header.count + 1 at one
      omega

/-- The loop of `zv_http_request` adds that many. -/
theorem Holds.loop (holds : Holds buffer text) (fuel : Nat) :
    ∀ (state : Int × List UInt8 × Kvstore) (final : Kvstore),
      Library.loop (attempt (headerPass buffer)) fuel state = some (some final) →
        final.count = state.2.2.count + toAdd text state.1 := by
  induction fuel with
  | zero =>
    intro state final returned
    cases returned
  | succ fuel ih =>
    intro state final returned
    cases pass : headerPass buffer state with
    | none =>
      rw [loop_leave (attempt_undefined pass)] at returned
      cases returned
    | some outcome =>
      cases holds.pass pass with
      | inl ended =>
        rw [ended.1] at pass
        rw [loop_leave (attempt_leave pass)] at returned
        rw [← Option.some.inj (Option.some.inj returned), ended.2]
        rfl
      | inr more =>
        obtain ⟨next, same, adds⟩ := more
        rw [same] at pass
        rw [loop_next (attempt_next pass)] at returned
        rw [ih next final returned, adds]

/-- The place after the first line. -/
theorem Holds.firstLine {conn : Connect} (holds : Holds conn.rbuffer text)
    {linebuf : List UInt8} {first : Int × List UInt8 × List UInt8}
    (parsed : Http.firstLine conn linebuf = some first) (ends : 0 < lineEnds text) :
    toAdd text first.1 = lineEnds text := by
  simp only [Http.firstLine, Option.bind_eq_bind] at parsed
  obtain ⟨_, _, parsed⟩ := Option.bind_eq_some_iff.mp parsed
  obtain ⟨line, read, parsed⟩ := Option.bind_eq_some_iff.mp parsed
  obtain ⟨string, _, parsed⟩ := Option.bind_eq_some_iff.mp parsed
  have place : first.1 = line.1 := by
    by_cases get : strstr string [71, 69, 84] = true
    · rw [if_pos get] at parsed
      obtain ⟨taken, _, parsed⟩ := Option.bind_eq_some_iff.mp parsed
      rw [← Option.some.inj parsed]
    · rw [if_neg get] at parsed
      rw [← Option.some.inj parsed]
  rw [place]
  cases holds.readline read with
  | inl ended =>
    have none : lineEnds text = 0 := ended.2
    omega
  | inr found =>
    obtain ⟨after, same, _, fewer⟩ := found
    rw [List.drop_zero] at fewer
    rw [same, toAdd, if_neg (by omega), Int.toNat_natCast]
    exact fewer.symm

/-- A run that stays inside its buffers adds a pair for each end of line in the text. -/
theorem Holds.adds {conn : Connect} (holds : Holds conn.rbuffer text) {linebuf : List UInt8}
    {result : Connect} (ends : 0 < lineEnds text)
    (returns : Leaves (fun fuel => zvHttpRequest fuel conn linebuf) (some result)) :
    result.header.count = conn.header.count + lineEnds text := by
  obtain ⟨fuel, returned⟩ := returns.exists_fuel
  rw [zvHttpRequest] at returned
  cases parsed : Http.firstLine conn linebuf with
  | none =>
    rw [parsed] at returned
    cases returned
  | some first =>
    rw [parsed] at returned
    obtain ⟨answer, looped, mapped⟩ := Option.map_eq_some_iff.mp returned
    obtain ⟨header, same, final⟩ := Option.map_eq_some_iff.mp mapped
    rw [same] at looped
    have count := holds.loop fuel _ header looped
    rw [← final]
    change header.count = _
    rw [count, holds.firstLine parsed ends]

/-- No request is parsed exactly. -/
theorem Holds.not_exact {request : Request} {conn : Connect}
    (holds : Holds conn.rbuffer request.text) (linebuf : List UInt8) :
    ¬ Exact request conn linebuf := by
  intro exact
  obtain ⟨result, returns, _, count, _⟩ := exact
  have lines := lineEnds_text request
  have added := holds.adds (by omega) returns
  omega

/-- Whatever the request, the previous contents of the line buffer and of the resource are:
parsing is not exact. A run that stays inside its buffers adds at least two pairs too many. -/
theorem parsing_not_exact (request : Request) (conn : Connect) (linebuf : List UInt8)
    (holds : Holds conn.rbuffer request.text) :
    ¬ Exact request conn linebuf ∧
      ∀ result, Leaves (fun fuel => zvHttpRequest fuel conn linebuf) (some result) →
        conn.header.count + request.headers.length + 2 ≤ result.header.count := by
  refine ⟨holds.not_exact linebuf, fun result returns => ?_⟩
  have lines := lineEnds_text request
  have added := holds.adds (by omega) returns
  omega

/-- The request `GET / HTTP/1.1` without headers. -/
def rootRequest : Request := ⟨[47], []⟩

/-- It is one of the requests in question. -/
theorem rootRequest_valid : rootRequest.Valid := by
  constructor
  · rfl
  · decide
  · intro header member
    exact absurd member List.not_mem_nil
  · intro header member
    exact absurd member List.not_mem_nil
  · decide
  · decide

/-- A connection that has received it, with an empty header store and a zeroed resource. -/
def rootConnect : Connect where
  rbuffer := rootRequest.text ++ List.replicate 1006 0
  resource := List.replicate 1024 0
  header := ⟨List.replicate 128 (List.replicate 128 0, List.replicate 512 0), 0⟩

/-- Its read buffer holds the text. -/
theorem rootConnect_holds : Holds rootConnect.rbuffer rootRequest.text := by
  constructor
  · decide
  · refine ⟨List.replicate 1005 0, ?_⟩
    rw [List.append_assoc]
    exact congrArg (rootRequest.text ++ ·) List.replicate_succ.symm

/-- The read buffer has its size. -/
theorem rootConnect_length : rootConnect.rbuffer.length = 1024 := by
  rw [rootConnect, List.length_append, List.length_replicate]
  rfl

/-- The request with the header `Host: a`. -/
def hostRequest : Request := ⟨[47], [([72, 111, 115, 116], [32, 97])]⟩

/-- A connection that has received it. -/
def hostConnect : Connect := { rootConnect with rbuffer := hostRequest.text ++ List.replicate 997 0 }

/-- Its read buffer holds the text. -/
theorem hostConnect_holds : Holds hostConnect.rbuffer hostRequest.text := by
  constructor
  · decide
  · refine ⟨List.replicate 996 0, ?_⟩
    rw [List.append_assoc]
    exact congrArg (hostRequest.text ++ ·) List.replicate_succ.symm

/-- A line buffer that held colons. -/
def colons : List UInt8 := List.replicate 1023 58 ++ [0]

/-- A request that was parsed under one fuel. -/
theorem leaves_zvHttpRequest {fuel : Nat} {conn : Connect} {linebuf : List UInt8}
    {result : Option Connect} (returned : zvHttpRequest fuel conn linebuf = some result) :
    Leaves (fun fuel => zvHttpRequest fuel conn linebuf) result := by
  cases parsed : firstLine conn linebuf with
  | none =>
    simp only [zvHttpRequest, parsed] at returned ⊢
    exact Leaves.of_forall fun _ => returned
  | some first =>
    simp only [zvHttpRequest, parsed] at returned ⊢
    obtain ⟨answer, looped, rfl⟩ := Option.map_eq_some_iff.mp returned
    exact (leaves_of_loop looped).map _

/-- In a line buffer that held colons, the request with one header stays inside the buffers and adds
three pairs. -/
theorem parsing_not_exact_host :
    ¬ Exact hostRequest hostConnect colons ∧
      ∃ result, Leaves (fun fuel => zvHttpRequest fuel hostConnect colons)
        (some result) ∧ 3 ≤ result.header.count := by
  obtain ⟨inexact, adds⟩ := parsing_not_exact hostRequest hostConnect _ hostConnect_holds
  have ends : ((zvHttpRequest 9 hostConnect colons).join.isSome) = true := by
    decide +kernel
  obtain ⟨result, returned⟩ := Option.isSome_iff_exists.mp ends
  have leaves := leaves_zvHttpRequest (Option.join_eq_some_iff.mp returned)
  exact ⟨inexact, result, leaves, adds result leaves⟩

/-- Parsing is not exact for every request: not even for the one without headers. -/
theorem parsing_exactness_fails :
    ¬ ∀ (request : Request) (conn : Connect) (linebuf : List UInt8), request.Valid →
      linebuf.length = 1024 → conn.rbuffer.length = 1024 →
      Holds conn.rbuffer request.text → Exact request conn linebuf := by
  intro always
  exact rootConnect_holds.not_exact _ (always rootRequest rootConnect (List.replicate 1024 0)
    rootRequest_valid List.length_replicate rootConnect_length rootConnect_holds)

end BackendCpp.Http
