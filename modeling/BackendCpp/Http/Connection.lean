import BackendCpp.Http.Store
import BackendCpp.Reactor.Filling
import BackendCpp.Reactor.Echoing

/-!
# The connections of httpserver.cpp

The callbacks of `5. 网络编程/httpserver.cpp` on a slot. Like those of reactor.cpp they never
take a request out of the receive buffer, but they ask for as many bytes as it has in all, so
that only the first receive of a connection has room for what it asks for.
-/

namespace BackendCpp.Http

open BackendCpp.Reactor (Buffer Traffic acceptWith recvWith filled Follows Respected Modest)

/-- What `zv_connect_t` of httpserver.cpp has besides. -/
structure More where
  /-- `resource`. -/
  resource : List UInt8
  /-- `enable_sendfile`. -/
  enableSendfile : Bool
  /-- `header`. -/
  header : Kvstore

/-- A slot. -/
abbrev Slot := Reactor.Connect More

/-- `accept_cb`, which makes a store of its own for the connection. -/
def acceptCb (clientfd : Int) (conn : Slot) : Slot :=
  acceptWith 1024 { conn.more with header := initKvstore } clientfd conn

/-- `zv_http_request` on a slot, with the previous contents of the line buffer; `none` also when
it does not return. -/
def request (fuel : Nat) (linebuf : List UInt8) (conn : Slot) : Option Slot := do
  let after ← (zvHttpRequest fuel ⟨conn.rbuffer.val, conn.more.resource, conn.more.header⟩
    linebuf).join
  return { conn with
    more := { conn.more with resource := after.resource, header := after.header } }

/-- `recv_cb`. -/
def recvCb (fuel : Nat) (linebuf : List UInt8) (conn : Slot) (ret : Option (List UInt8)) :
    Option (Int × Slot) :=
  recvWith (request fuel linebuf) conn ret

/-- The header that `zv_http_response` prints. -/
def responseText (stSize : Nat) : List UInt8 :=
  ("HTTP/1.1 200 OK\r\nAccept-Ranges: bytes\r\nContent-Length: " ++ toString stSize ++
    "\r\nContent-Type: text/html\r\nDate: 2024年 11月 25日 星期一 16:10:29 CST\r\n\r\n").toUTF8.toList

/-- `zv_http_response`, when `open` fails or finds a file of `stSize` bytes. -/
def zvHttpResponse (stSize : Option Nat) (conn : Slot) : Option Slot :=
  match stSize with
  | none => some conn
  | some stSize => do
    let text := responseText stSize
    let wbuffer ← conn.wbuffer.write 0 (text ++ [0])
    return { conn with
      wbuffer := wbuffer, wc := text.length, more := { conn.more with enableSendfile := true } }

/-- `send_cb`, with the bytes that it sends; `file` is what the second `open` finds. -/
def sendCb (stSize : Option Nat) (file : Option (List UInt8)) (conn : Slot) :
    Option (List UInt8 × Slot) := do
  let conn ← zvHttpResponse stSize conn
  let bytes ← conn.wbuffer.read conn.wc
  if conn.more.enableSendfile then
    match file with
    | none => return (bytes, conn)
    | some contents => return (bytes ++ contents, { conn with cb := .recvCb })
  else return (bytes, { conn with cb := .recvCb })

/-- What happens to a slot. -/
inductive Event where
  /-- `accept_cb` puts a connection into it. -/
  | accept (clientfd : Int)
  /-- `recv_cb` receives. -/
  | recv (fuel : Nat) (linebuf : List UInt8) (ret : Option (List UInt8))
  /-- `send_cb` sends. -/
  | send (stSize : Option Nat) (file : Option (List UInt8))

/-- The slot after an event. -/
def exec (conn : Slot) : Event → Option Slot
  | .accept clientfd => some (acceptCb clientfd conn)
  | .recv fuel linebuf ret => (recvCb fuel linebuf conn ret).map Prod.snd
  | .send stSize file => (sendCb stSize file conn).map Prod.snd

/-- What the account of the buffer sees of an event. -/
def Event.traffic : Event → Traffic
  | .accept _ => .accept
  | .recv _ _ ret => .recv (ret.map List.length)
  | .send _ _ => .send

/-- A request leaves `rc` and `count`. -/
theorem request_account {fuel : Nat} {linebuf : List UInt8} {conn next : Slot}
    (requested : request fuel linebuf conn = some next) :
    next.rc = conn.rc ∧ next.count = conn.count := by
  simp only [request, Option.bind_eq_bind, Option.bind_eq_some_iff, Option.pure_def,
    Option.some.injEq] at requested
  obtain ⟨_, _, same⟩ := requested
  rw [← same]
  exact ⟨rfl, rfl⟩

/-- So does a response. -/
theorem zvHttpResponse_account {stSize : Option Nat} {conn next : Slot}
    (responded : zvHttpResponse stSize conn = some next) :
    next.rc = conn.rc ∧ next.count = conn.count := by
  cases stSize with
  | none =>
    rw [← Option.some.inj responded]
    exact ⟨rfl, rfl⟩
  | some stSize =>
    simp only [zvHttpResponse, Option.bind_eq_bind, Option.bind_eq_some_iff, Option.pure_def,
      Option.some.injEq] at responded
    obtain ⟨_, _, same⟩ := responded
    rw [← same]
    exact ⟨rfl, rfl⟩

/-- And `send_cb`. -/
theorem sendCb_account {stSize : Option Nat} {file : Option (List UInt8)} {conn next : Slot}
    {bytes : List UInt8} (sent : sendCb stSize file conn = some (bytes, next)) :
    next.rc = conn.rc ∧ next.count = conn.count := by
  simp only [sendCb, Option.bind_eq_bind, Option.bind_eq_some_iff] at sent
  obtain ⟨middle, responded, _, _, sent⟩ := sent
  have kept := zvHttpResponse_account responded
  split at sent
  · cases file with
    | none =>
      rw [Option.pure_def, Option.some.injEq, Prod.mk.injEq] at sent
      rw [← sent.2]
      exact kept
    | some contents =>
      rw [Option.pure_def, Option.some.injEq, Prod.mk.injEq] at sent
      rw [← sent.2]
      exact kept
  · rw [Option.pure_def, Option.some.injEq, Prod.mk.injEq] at sent
    rw [← sent.2]
    exact kept

/-- The slots of httpserver.cpp follow the account, with 1024 bytes at a time. -/
theorem exec_follows :
    Follows exec Reactor.Connect.rc Reactor.Connect.count Event.traffic 1024 := by
  have account : ∀ {conn next : Slot} {event : Event}, exec conn event = some next →
      next.rc = filled conn.rc event.traffic ∧
      (event.traffic = .accept → next.count = 1024) ∧
      (event.traffic ≠ .accept → next.count = conn.count) := by
    intro conn next event step
    cases event with
    | accept clientfd =>
      rw [← Option.some.inj step]
      exact ⟨rfl, fun _ => rfl, fun other => absurd rfl other⟩
    | recv fuel linebuf ret =>
      simp only [exec, Option.map_eq_some_iff, Prod.exists] at step
      obtain ⟨r, after, result, same⟩ := step
      obtain ⟨level, asked⟩ := Reactor.recvWith_account request_account result
      rw [← same]
      exact ⟨level, fun accepts => Traffic.noConfusion accepts, fun _ => asked⟩
    | send stSize file =>
      simp only [exec, Option.map_eq_some_iff, Prod.exists] at step
      obtain ⟨bytes, after, sent, same⟩ := step
      obtain ⟨level, asked⟩ := sendCb_account sent
      rw [← same]
      exact ⟨level, fun accepts => Traffic.noConfusion accepts, fun _ => asked⟩
  exact ⟨fun step => (account step).1, fun step => (account step).2.1,
    fun step => (account step).2.2⟩

/-- In reactor.cpp the receive buffer is respected just when `recv` is never called after more
than 1022 bytes of a connection; in httpserver.cpp just when it is never called after any. -/
theorem buffers_respected_iff {reactor : Reactor.Connect Unit} {server : Slot}
    (empty : reactor.rc = 0) (empty' : server.rc = 0) (fd fd' : Int)
    (events : List Reactor.Event) (events' : List Event) :
    (Respected Reactor.exec Reactor.Connect.rc Reactor.Connect.count Reactor.Event.traffic reactor
        (.accept fd :: events) ↔
      Modest Reactor.exec Reactor.Event.traffic 2 reactor (.accept fd :: events)) ∧
    (Respected exec Reactor.Connect.rc Reactor.Connect.count Event.traffic server
        (.accept fd' :: events') ↔
      Modest exec Event.traffic 1024 server (.accept fd' :: events')) :=
  ⟨Reactor.exec_follows.respected_iff empty rfl events,
    exec_follows.respected_iff empty' rfl events'⟩

/-- A slot whose buffers hold zero bytes. -/
def blankSlot : Slot :=
  ⟨-1, .recvCb, ⟨List.replicate 1024 0, List.length_replicate⟩, 0, 0,
    ⟨List.replicate 1024 0, List.length_replicate⟩, 0,
    ⟨List.replicate 1024 0, false, initKvstore⟩⟩

/-- The first receive of a connection has room. -/
theorem buffers_respected_first :
    Respected Reactor.exec Reactor.Connect.rc Reactor.Connect.count Reactor.Event.traffic
      Reactor.blankConnect [.accept 5, .recv (some [104, 105])] ∧
    Respected exec Reactor.Connect.rc Reactor.Connect.count Event.traffic blankSlot
      [.accept 5, .recv 10 (List.replicate 1024 0) (some [120])] := by
  have both := @buffers_respected_iff Reactor.blankConnect blankSlot rfl rfl 5 5
    [.recv (some [104, 105])] [.recv 10 (List.replicate 1024 0) (some [120])]
  refine ⟨both.1.mpr ?_, both.2.mpr ?_⟩
  all_goals
    intro before event after split receives _
    cases before with
    | nil =>
      rw [List.nil_append, List.cons.injEq] at split
      obtain ⟨ret, recv⟩ := receives
      rw [← split.1] at recv
      cases recv
    | cons head rest =>
      rw [List.cons_append, List.cons.injEq] at split
      cases rest with
      | nil =>
        rw [← split.1]
        decide
      | cons second rest =>
        rw [List.cons_append, List.cons.injEq] at split
        exact absurd split.2.2 (by simp)

/-- After one byte httpserver.cpp asks for 1024 more. -/
theorem not_respected_second :
    ¬ Respected exec Reactor.Connect.rc Reactor.Connect.count Event.traffic blankSlot
      [.accept 5, .recv 10 (List.replicate 1024 0) (some [120]), .send none none,
        .recv 10 (List.replicate 1024 0) (some [121])] := by
  intro respected
  have reached : (([.accept 5, .recv 10 (List.replicate 1024 0) (some [120]),
      .send none none] : List Event).foldlM exec blankSlot).map (fun conn => (conn.rc, conn.count)) =
      some (1, 1024) := by
    decide +kernel
  rw [Option.map_eq_some_iff] at reached
  obtain ⟨conn, ran, account⟩ := reached
  rw [Prod.mk.injEq] at account
  have fits := respected _ _ [] rfl ⟨_, rfl⟩ conn ran
  rw [account.1, account.2] at fits
  exact absurd fits (by decide)

end BackendCpp.Http
