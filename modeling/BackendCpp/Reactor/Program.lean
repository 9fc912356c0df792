import Mathlib.Tactic

/-!
# The connections of reactor.cpp

The slot of one connection and the callbacks of `5. 网络编程/reactor.cpp`. httpserver.cpp has the
same slot with more in it, and the same callbacks but for the number of bytes it asks for and
for what it does with them; what the two share has these as arguments. Memory is written inside
the buffers only: a call that writes behind one is undefined (`none`).
-/

namespace BackendCpp.Reactor

/-- `BUFFER_SIZE`. -/
def bufferSize : Nat := 1024

/-- A buffer of that size. -/
abbrev Buffer := { bytes : List UInt8 // bytes.length = bufferSize }

/-- Write into a buffer from a place on. -/
def Buffer.write (buffer : Buffer) (place : Nat) (bytes : List UInt8) : Option Buffer :=
  if fits : place + bytes.length ≤ bufferSize then
    some ⟨buffer.val.take place ++ bytes ++ buffer.val.drop (place + bytes.length), by
      rw [List.length_append, List.length_append, List.length_take, List.length_drop,
        buffer.property]
      omega⟩
  else none

/-- Read from the start of a buffer. -/
def Buffer.read (buffer : Buffer) (count : Nat) : Option (List UInt8) :=
  if count ≤ bufferSize then some (buffer.val.take count) else none

/-- What `cb` points to. -/
inductive Callback where
  /-- `recv_cb`. -/
  | recvCb
  /-- `send_cb`. -/
  | sendCb
  deriving DecidableEq

/-- `zv_connect_t`; `more` is what a program keeps in it besides. -/
structure Connect (α : Type) where
  /-- `fd`. -/
  fd : Int
  /-- `cb`. -/
  cb : Callback
  /-- `rbuffer`. -/
  rbuffer : Buffer
  /-- `rc`. -/
  rc : Nat
  /-- `count`. -/
  count : Nat
  /-- `wbuffer`. -/
  wbuffer : Buffer
  /-- `wc`. -/
  wc : Nat
  /-- The other fields. -/
  more : α

/-- `accept_cb` with a connection: the slot of `clientfd` afterwards. -/
def acceptWith {α : Type} (count : Nat) (more : α) (clientfd : Int) (conn : Connect α) :
    Connect α :=
  { conn with fd := clientfd, cb := .recvCb, count := count, more := more }

/-- `recv_cb` when `recv` answers with `bytes`, or fails; the slot may be changed by what is done
with the bytes. -/
def recvWith {α : Type} (handle : Connect α → Option (Connect α)) (conn : Connect α) :
    Option (List UInt8) → Option (Int × Connect α)
  | none => some (-1, conn)
  | some [] => some (0, { conn with fd := -1, rc := 0, wc := 0 })
  | some (byte :: rest) => do
    let rbuffer ← conn.rbuffer.write conn.rc (byte :: rest)
    let conn ← handle { conn with rbuffer := rbuffer, rc := conn.rc + (byte :: rest).length }
    return (0, { conn with cb := .sendCb })

/-- `accept_cb` of reactor.cpp. -/
def acceptCb (clientfd : Int) (conn : Connect Unit) : Connect Unit := acceptWith 2 () clientfd conn

/-- What `recv_cb` of reactor.cpp does with the bytes: it copies the buffer. -/
def echo (conn : Connect Unit) : Option (Connect Unit) := do
  let bytes ← conn.rbuffer.read conn.rc
  let wbuffer ← conn.wbuffer.write 0 bytes
  return { conn with wbuffer := wbuffer, wc := conn.rc }

/-- `recv_cb` of reactor.cpp. -/
def recvCb (conn : Connect Unit) (ret : Option (List UInt8)) : Option (Int × Connect Unit) :=
  recvWith echo conn ret

/-- `send_cb` of reactor.cpp, with the bytes that it gives to `send`. -/
def sendCb (conn : Connect Unit) : Option (List UInt8 × Connect Unit) := do
  let bytes ← conn.wbuffer.read conn.wc
  return (bytes, { conn with cb := .recvCb })

/-- What happens to a slot. -/
inductive Event where
  /-- `accept_cb` puts a connection into it. -/
  | accept (clientfd : Int)
  /-- `recv_cb` receives. -/
  | recv (ret : Option (List UInt8))
  /-- `send_cb` sends. -/
  | send

/-- The slot after an event. -/
def exec (conn : Connect Unit) : Event → Option (Connect Unit)
  | .accept clientfd => some (acceptCb clientfd conn)
  | .recv ret => (recvCb conn ret).map Prod.snd
  | .send => (sendCb conn).map Prod.snd

end BackendCpp.Reactor
