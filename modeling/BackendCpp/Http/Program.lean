import BackendCpp.Library.Loop

/-!
# The request parser of httpserver.cpp

Buffers are lists of their allocated bytes. A read or write outside one of them is undefined
(`none`), also the reads of `strlen`, `strstr`, `strncpy` and of printing a string, which go on
to the next zero byte. The line buffer is allocated uninitialised, so its contents are an input.
-/

namespace BackendCpp.Http

open BackendCpp.Library

/-- `KEY_MAX_LENGTH`. -/
def keyMaxLength : Nat := 128

/-- `VALUE_MAX_LENGTH`. -/
def valueMaxLength : Nat := 512

/-- The C string that starts a list of bytes: what comes before the first zero byte. -/
def cString : List UInt8 → Option (List UInt8)
  | [] => none
  | byte :: rest => if byte = 0 then some [] else (cString rest).map (byte :: ·)

/-- Write one byte. -/
def poke (buffer : List UInt8) (index : Nat) (byte : UInt8) : Option (List UInt8) :=
  if index < buffer.length then some (buffer.set index byte) else none

/-- `strstr` on a string, as a test. -/
def strstr (string needle : List UInt8) : Bool := string.tails.any (needle.isPrefixOf ·)

/-- `strncpy` of `count` bytes: the string, padded with zero bytes. -/
def strncpy : List UInt8 → Nat → Option (List UInt8)
  | _, 0 => some []
  | [], _ + 1 => none
  | byte :: rest, count + 1 =>
    if byte = 0 then some (List.replicate (count + 1) 0)
    else (strncpy rest count).map (byte :: ·)

/-- `memcpy` of `count` bytes to the start of a buffer. -/
def memcpy (target source : List UInt8) (count : Nat) : Option (List UInt8) :=
  if count ≤ target.length ∧ count ≤ source.length then
    some (source.take count ++ target.drop count)
  else none

/-- The loop `while (buffer[i] != byte) i++`. -/
def scan (buffer : List UInt8) (byte : UInt8) (start : Nat) : Option Nat :=
  ((buffer.drop start).findIdx? (· == byte)).map (start + ·)

/-- `zv_kvstore_t`. -/
structure Kvstore where
  /-- `table`: keys and values as their arrays. -/
  table : List (List UInt8 × List UInt8)
  /-- `count`. -/
  count : Nat

/-- `put_kvpair`. -/
def putKvpair (kvstore : Kvstore) (key value : List UInt8) : Option Kvstore := do
  let key ← strncpy key keyMaxLength
  let value ← strncpy value valueMaxLength
  if kvstore.count < kvstore.table.length then
    return ⟨kvstore.table.set kvstore.count (key, value), kvstore.count + 1⟩
  else none

/-- What `zv_http_request` uses of a `zv_connect_t`. -/
structure Connect where
  /-- `rbuffer`. -/
  rbuffer : List UInt8
  /-- `resource`. -/
  resource : List UInt8
  /-- `header`. -/
  header : Kvstore

/-- The test for the end of a line at `idx`. -/
def endsLine (allbuf : List UInt8) (idx : Nat) : Option Bool := do
  if (← allbuf[idx]?) = 13 then
    return decide ((← allbuf[idx + 1]?) = 10)
  else return false

/-- The loop of `readline` with `left` bytes to go; bytes are written from place `at'` on. -/
def readlineFrom (allbuf : List UInt8) :
    Nat → Nat → List UInt8 → Nat → Option (Int × List UInt8)
  | 0, _, linebuf, _ => some (-1, linebuf)
  | left + 1, idx, linebuf, at' => do
    if ← endsLine allbuf idx then
      return ((idx + 2 : Nat), linebuf)
    else
      let linebuf ← poke linebuf at' (← allbuf[idx]?)
      readlineFrom allbuf left (idx + 1) linebuf (at' + 1)

/-- `readline`: the place after the line, or `-1`. -/
def readline (allbuf : List UInt8) (idx : Nat) (linebuf : List UInt8) :
    Option (Int × List UInt8) := do
  let len := (← cString allbuf).length
  readlineFrom allbuf (len - idx) idx linebuf 0

/-- The branch of `zv_http_request` for a `GET` line. -/
def takeResource (resource linebuf : List UInt8) : Option (List UInt8 × List UInt8) := do
  let i ← scan linebuf 32 5
  let linebuf ← poke linebuf i 0
  let len := (← cString linebuf).length
  if len < 4 then none
  else
    let resource ← memcpy resource (linebuf.drop 4) (len - 4)
    let _printed ← cString resource
    return (resource, linebuf)

/-- `zv_http_request` up to its loop: the place after the first line, and the buffers. -/
def firstLine (conn : Connect) (linebuf : List UInt8) :
    Option (Int × List UInt8 × List UInt8) := do
  let _printed ← cString conn.rbuffer
  let line ← readline conn.rbuffer 0 linebuf
  let string ← cString line.2
  if strstr string [71, 69, 84] then
    let taken ← takeResource conn.resource line.2
    return (line.1, taken.1, taken.2)
  else return (line.1, conn.resource, line.2)

/-- One pass of the loop of `zv_http_request`. -/
def headerPass (rbuffer : List UInt8) (state : Int × List UInt8 × Kvstore) :
    Option ((Int × List UInt8 × Kvstore) ⊕ Kvstore) := do
  if state.1 = -1 then
    return .inr state.2.2
  else
    let line ← readline rbuffer state.1.toNat state.2.1
    let i ← scan line.2 58 0
    let linebuf ← poke line.2 i 0
    let header ← putKvpair state.2.2 linebuf (linebuf.drop (i + 1))
    return .inl (line.1, linebuf, header)

/-- `zv_http_request` with the previous contents of the line buffer. -/
def zvHttpRequest (fuel : Nat) (conn : Connect) (linebuf : List UInt8) :
    Option (Option Connect) :=
  match firstLine conn linebuf with
  | none => some none
  | some first =>
    (loop (attempt (headerPass conn.rbuffer)) fuel (first.1, first.2.2, conn.header)).map
      (Option.map fun header => { conn with resource := first.2.1, header := header })

end BackendCpp.Http
