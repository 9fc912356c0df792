import BackendCpp.Reactor.Program

/-!
# What the reactor sends back

`recv_cb` of reactor.cpp appends to `rbuffer` and copies all that is in it to `wbuffer`, and
nothing ever takes the bytes that have been sent out of it. Each chunk after the first is
therefore sent back together with all before it.
-/

namespace BackendCpp.Reactor

/-- Chunks that are received on a connection, each of them followed by the `send_cb` that
`recv_cb` arms: the bytes sent and the slot. -/
def exchange : Connect Unit → List (List UInt8) → Option (List UInt8 × Connect Unit)
  | conn, [] => some ([], conn)
  | conn, chunk :: rest => do
    let received ← recvCb conn (some chunk)
    let answered ← sendCb received.2
    let later ← exchange answered.2 rest
    return (answered.1 ++ later.1, later.2)

/-- What is sent on a connection is what has been received on it. -/
def Echoes (conn : Connect Unit) (clientfd : Int) (chunks : List (List UInt8)) : Prop :=
  ∃ after, exchange (acceptCb clientfd conn) chunks = some (chunks.flatten, after)

/-- The first bytes of a buffer after bytes have been written behind some. -/
theorem Buffer.take_write {buffer next : Buffer} {place : Nat} {bytes : List UInt8}
    (written : buffer.write place bytes = some next) :
    place + bytes.length ≤ bufferSize ∧
      next.val.take (place + bytes.length) = buffer.val.take place ++ bytes := by
  unfold Buffer.write at written
  split at written
  · rename_i fits
    have front : (buffer.val.take place ++ bytes).length = place + bytes.length := by
      rw [List.length_append, List.length_take, buffer.property]
      omega
    rw [← Option.some.inj written]
    exact ⟨fits, List.take_left' front⟩
  · cases written

/-- A write inside a buffer succeeds. -/
theorem Buffer.exists_write {buffer : Buffer} {place : Nat} {bytes : List UInt8}
    (fits : place + bytes.length ≤ bufferSize) : ∃ next, buffer.write place bytes = some next :=
  ⟨_, dif_pos fits⟩

/-- The bytes that the slot has received and not forgotten. -/
def held (conn : Connect Unit) : List UInt8 := conn.rbuffer.val.take conn.rc

/-- `recv_cb` with a chunk that fits behind what has been received: the slot holds both, and so
does what it sends next. -/
theorem recvCb_spec {conn : Connect Unit} {chunk : List UInt8} (nonempty : chunk ≠ [])
    (fits : conn.rc + chunk.length ≤ bufferSize) :
    ∃ received, recvCb conn (some chunk) = some (0, received) ∧
      received.rc = conn.rc + chunk.length ∧ held received = held conn ++ chunk ∧
      sendCb received = some (held conn ++ chunk, { received with cb := .recvCb }) := by
  obtain ⟨byte, rest, rfl⟩ := List.exists_cons_of_ne_nil nonempty
  obtain ⟨rbuffer, written⟩ := @Buffer.exists_write conn.rbuffer conn.rc (byte :: rest) fits
  have stored := (Buffer.take_write written).2
  have size : (held conn ++ byte :: rest).length = conn.rc + (byte :: rest).length := by
    rw [held, List.length_append, List.length_take, conn.rbuffer.property]
    omega
  have read : rbuffer.read (conn.rc + (byte :: rest).length) = some (held conn ++ byte :: rest) := by
    rw [Buffer.read, if_pos fits, stored]
    rfl
  obtain ⟨wbuffer, copied⟩ := @Buffer.exists_write conn.wbuffer 0 (held conn ++ byte :: rest)
    (by rw [size]; omega)
  have sent := (Buffer.take_write copied).2
  rw [List.take_zero, List.nil_append, Nat.zero_add, size] at sent
  refine ⟨{ conn with
      cb := .sendCb, rbuffer := rbuffer, rc := conn.rc + (byte :: rest).length
      wbuffer := wbuffer, wc := conn.rc + (byte :: rest).length }, ?_, rfl, stored, ?_⟩
  · simp only [recvCb, recvWith, echo, written, read, copied, Option.bind_eq_bind,
      Option.bind_some, Option.pure_def]
  · simp only [sendCb, Buffer.read, if_pos fits, sent, Option.bind_eq_bind, Option.bind_some,
      Option.pure_def]

/-- `recv_cb` with a chunk that does not fit is undefined. -/
theorem recvCb_overflow {conn : Connect Unit} {chunk : List UInt8} (nonempty : chunk ≠ [])
    (full : ¬ conn.rc + chunk.length ≤ bufferSize) : recvCb conn (some chunk) = none := by
  obtain ⟨byte, rest, rfl⟩ := List.exists_cons_of_ne_nil nonempty
  simp only [recvCb, recvWith, Buffer.write, dif_neg full, Option.bind_eq_bind, Option.bind_none]

/-- One chunk and the answer to it, before the rest of an exchange. -/
theorem exchange_cons {conn after : Connect Unit} {chunk sent : List UInt8}
    {rest : List (List UInt8)} (nonempty : chunk ≠ [])
    (exchanged : exchange conn (chunk :: rest) = some (sent, after)) :
    ∃ answered more, answered.rc = conn.rc + chunk.length ∧
      exchange answered rest = some (more, after) ∧ sent = held conn ++ chunk ++ more ∧
      conn.rc ≤ bufferSize := by
  by_cases fits : conn.rc + chunk.length ≤ bufferSize
  · obtain ⟨received, receive, level, _, answer⟩ := recvCb_spec nonempty fits
    simp only [exchange, receive, answer, Option.bind_eq_bind, Option.bind_some,
      Option.bind_eq_some_iff, Option.pure_def, Option.some.injEq, Prod.mk.injEq] at exchanged
    obtain ⟨later, continued, whole, last⟩ := exchanged
    refine ⟨{ received with cb := .recvCb }, later.1, level, ?_, whole.symm, by omega⟩
    rw [continued, ← last]
  · simp only [exchange, recvCb_overflow nonempty fits, Option.bind_eq_bind, Option.bind_none,
      reduceCtorEq] at exchanged

/-- How much is sent at least: with every chunk all that the slot held before, by induction over
the chunks. -/
theorem exchange_length {chunks : List (List UInt8)} : ∀ {conn after : Connect Unit}
    {sent : List UInt8}, (∀ chunk ∈ chunks, chunk ≠ []) →
    exchange conn chunks = some (sent, after) →
    chunks.flatten.length + chunks.length * conn.rc ≤ sent.length := by
  induction chunks with
  | nil =>
    intro conn after sent _ _
    simp only [List.flatten_nil, List.length_nil, Nat.zero_mul, Nat.add_zero, Nat.zero_le]
  | cons chunk rest ih =>
    intro conn after sent nonempty exchanged
    obtain ⟨answered, more, level, continued, whole, within⟩ :=
      exchange_cons (nonempty chunk List.mem_cons_self) exchanged
    have later := ih (fun other member => nonempty other (List.mem_cons_of_mem chunk member))
      continued
    have size : (held conn).length = conn.rc := by
      rw [held, List.length_take, conn.rbuffer.property]
      omega
    have grown : rest.length * conn.rc ≤ rest.length * answered.rc :=
      Nat.mul_le_mul_left _ (by omega)
    rw [whole, List.flatten_cons, List.length_append, List.length_append, List.length_append,
      List.length_cons, Nat.add_mul, size]
    omega

/-- The reactor sends back what it has received, once, just when it has received no more than
one chunk, into a slot that held nothing. -/
theorem echoes_iff {conn : Connect Unit} {clientfd : Int} {chunks : List (List UInt8)}
    (received : ∀ chunk ∈ chunks, chunk ≠ [] ∧ chunk.length ≤ (acceptCb clientfd conn).count) :
    Echoes conn clientfd chunks ↔ chunks = [] ∨ (chunks.length = 1 ∧ conn.rc = 0) := by
  unfold Echoes
  cases chunks with
  | nil => exact iff_of_true ⟨_, rfl⟩ (Or.inl rfl)
  | cons chunk rest =>
    obtain ⟨nonempty, short⟩ := received chunk List.mem_cons_self
    have positive : 0 < chunk.length := List.length_pos_of_ne_nil nonempty
    constructor
    · rintro ⟨after, exchanged⟩
      right
      obtain ⟨answered, more, level, continued, whole, _⟩ := exchange_cons nonempty exchanged
      have all := exchange_length (fun other member => (received other member).1) exchanged
      have later := exchange_length
        (fun other member => (received other (List.mem_cons_of_mem chunk member)).1) continued
      have empty : conn.rc = 0 := by
        rw [List.length_cons, Nat.add_mul] at all
        have none : (acceptCb clientfd conn).rc = 0 := by omega
        exact none
      have lengths := congrArg List.length whole
      rw [List.flatten_cons, List.length_append, List.length_append, List.length_append] at lengths
      have repeated : rest.length * answered.rc = 0 := by omega
      have alone : rest.length = 0 := by
        rcases Nat.mul_eq_zero.mp repeated with alone | level'
        · exact alone
        · omega
      exact ⟨by rw [List.length_cons, alone], empty⟩
    · rintro (none | ⟨one, empty⟩)
      · cases none
      · have alone : rest = [] := List.eq_nil_of_length_eq_zero (by simpa using one)
        have start : (acceptCb clientfd conn).rc = 0 := empty
        have fits : (acceptCb clientfd conn).rc + chunk.length ≤ bufferSize := by
          change chunk.length ≤ 2 at short
          rw [start, Nat.zero_add, bufferSize]
          omega
        obtain ⟨answered, receive, _, _, answer⟩ := recvCb_spec nonempty fits
        have nothing : held (acceptCb clientfd conn) = [] := by rw [held, start, List.take_zero]
        rw [nothing, List.nil_append] at answer
        refine ⟨{ answered with cb := .recvCb }, ?_⟩
        rw [alone]
        simp only [exchange, receive, answer, Option.bind_eq_bind, Option.bind_some,
          Option.pure_def, List.append_nil, List.flatten_cons, List.flatten_nil]

/-- A slot whose buffers hold zero bytes. -/
def blankConnect : Connect Unit :=
  ⟨-1, .recvCb, ⟨List.replicate bufferSize 0, List.length_replicate⟩, 0, 0,
    ⟨List.replicate bufferSize 0, List.length_replicate⟩, 0, ()⟩

/-- One chunk of two bytes is sent back. -/
theorem echoes_one : Echoes blankConnect 5 [[104, 105]] := by
  have received : ∀ chunk ∈ ([[104, 105]] : List (List UInt8)),
      chunk ≠ [] ∧ chunk.length ≤ (acceptCb 5 blankConnect).count := by
    intro chunk member
    rw [List.mem_singleton.mp member]
    exact ⟨by decide, by decide⟩
  exact (echoes_iff received).mpr (Or.inr ⟨rfl, rfl⟩)

/-- Of two chunks the first is sent twice. -/
theorem not_echoes_two : ¬ Echoes blankConnect 5 [[104], [105]] := by
  rintro ⟨after, exchanged⟩
  have sent : (exchange (acceptCb 5 blankConnect) [[104], [105]]).map Prod.fst =
      some [104, 104, 105] := rfl
  rw [exchanged, Option.map_some, Option.some.injEq] at sent
  have twice : ([[104], [105]] : List (List UInt8)).flatten = [104, 104, 105] := sent
  exact absurd twice (by decide)

end BackendCpp.Reactor
