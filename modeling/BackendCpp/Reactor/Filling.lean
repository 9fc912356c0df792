import BackendCpp.Reactor.Program

/-!
# How full the receive buffer of a connection is

What `accept_cb`, `recv_cb` and `send_cb` do to `rc` and `count` of a slot, without the bytes:
every receive adds to `rc`, only the end of the connection sets it back, and nobody compares it
with the size of the buffer. A program whose slots follow this account asks for more than its
buffer can take as soon as enough has been received on a connection.
-/

namespace BackendCpp.Reactor

/-- An event, as far as the account needs it. -/
inductive Traffic where
  /-- A connection is accepted. -/
  | accept
  /-- `recv` answers with a number of bytes, or fails. -/
  | recv (ret : Option Nat)
  /-- The slot is sent from. -/
  | send

/-- The number of bytes in the buffer after an event. -/
def filled (level : Nat) : Traffic → Nat
  | .recv (some 0) => 0
  | .recv (some (more + 1)) => level + (more + 1)
  | .recv none => level
  | .accept => level
  | .send => level

/-- The bytes that have been received on the connection, from the events since it was
accepted. -/
def received (events : List Traffic) : Nat := events.foldl filled 0

section

variable {σ ι : Type} (exec : σ → ι → Option σ) (rc count : σ → Nat) (traffic : ι → Traffic)

/-- A program whose slots follow the account, and which asks for `ask` bytes at a time. -/
structure Follows (ask : Nat) : Prop where
  /-- How `rc` changes. -/
  rc : ∀ {conn next event}, exec conn event = some next → rc next = filled (rc conn) (traffic event)
  /-- What `accept_cb` sets `count` to. -/
  accept : ∀ {conn next event}, exec conn event = some next → traffic event = .accept →
    count next = ask
  /-- Nobody else sets it. -/
  count : ∀ {conn next event}, exec conn event = some next → traffic event ≠ .accept →
    count next = count conn

/-- Whenever `recv` is called, the bytes it asks for have a place in the buffer. -/
def Respected (start : σ) (events : List ι) : Prop :=
  ∀ before event after, events = before ++ event :: after → (∃ ret, traffic event = .recv ret) →
    ∀ conn, before.foldlM exec start = some conn → rc conn + count conn ≤ bufferSize

/-- Whenever `recv` is called, no more bytes have been received than leave a place for `ask`. -/
def Modest (ask : Nat) (start : σ) (events : List ι) : Prop :=
  ∀ before event after, events = before ++ event :: after → (∃ ret, traffic event = .recv ret) →
    (before.foldlM exec start).isSome = true →
    received (before.map traffic) + ask ≤ bufferSize

variable {exec rc count traffic} {ask : Nat}

/-- The account of a whole run. -/
theorem Follows.run_rc (follows : Follows exec rc count traffic ask) {events : List ι} :
    ∀ {start conn : σ}, events.foldlM exec start = some conn →
      rc conn = (events.map traffic).foldl filled (rc start) := by
  induction events with
  | nil =>
    intro start conn ran
    rw [← Option.some.inj ran]
    rfl
  | cons event rest ih =>
    intro start conn ran
    rw [List.foldlM_cons, Option.bind_eq_bind, Option.bind_eq_some_iff] at ran
    obtain ⟨next, step, later⟩ := ran
    rw [ih later, follows.rc step, List.map_cons, List.foldl_cons]

/-- After a connection has been accepted `count` is what `accept_cb` has set it to. -/
theorem Follows.run_count (follows : Follows exec rc count traffic ask) {events : List ι} :
    ∀ {start conn : σ}, events.foldlM exec start = some conn → count start = ask →
      count conn = ask := by
  induction events with
  | nil =>
    intro start conn ran set
    rw [← Option.some.inj ran]
    exact set
  | cons event rest ih =>
    intro start conn ran set
    rw [List.foldlM_cons, Option.bind_eq_bind, Option.bind_eq_some_iff] at ran
    obtain ⟨next, step, later⟩ := ran
    refine ih later ?_
    by_cases accepts : traffic event = .accept
    · exact follows.accept step accepts
    · rw [follows.count step accepts, set]

/-- From the first `accept_cb` on, a slot that held nothing is respected just when no more is
received than leaves room. -/
theorem Follows.respected_iff (follows : Follows exec rc count traffic ask) {start : σ}
    (empty : rc start = 0) {first : ι} (accepts : traffic first = .accept) (events : List ι) :
    Respected exec rc count traffic start (first :: events) ↔
      Modest exec traffic ask start (first :: events) := by
  have account : ∀ before event after, first :: events = before ++ event :: after →
      (∃ ret, traffic event = .recv ret) → ∀ conn, before.foldlM exec start = some conn →
      rc conn = received (before.map traffic) ∧ count conn = ask := by
    intro before event after split receives conn ran
    refine ⟨?_, ?_⟩
    · rw [follows.run_rc ran, empty]
      rfl
    · cases before with
      | nil =>
        rw [List.nil_append, List.cons.injEq] at split
        obtain ⟨ret, recv⟩ := receives
        rw [← split.1, accepts] at recv
        cases recv
      | cons head rest =>
        rw [List.cons_append, List.cons.injEq] at split
        rw [List.foldlM_cons, Option.bind_eq_bind, Option.bind_eq_some_iff] at ran
        obtain ⟨next, step, later⟩ := ran
        rw [← split.1] at step
        exact follows.run_count later (follows.accept step accepts)
  constructor
  · intro respected before event after split receives reached
    obtain ⟨conn, ran⟩ := Option.isSome_iff_exists.mp reached
    obtain ⟨level, asked⟩ := account before event after split receives conn ran
    rw [← level, ← asked]
    exact respected before event after split receives conn ran
  · intro modest before event after split receives conn ran
    obtain ⟨level, asked⟩ := account before event after split receives conn ran
    rw [level, asked]
    exact modest before event after split receives (Option.isSome_iff_exists.mpr ⟨conn, ran⟩)

end

/-- What the account sees of an event of reactor.cpp. -/
def Event.traffic : Event → Traffic
  | .accept _ => .accept
  | .recv ret => .recv (ret.map List.length)
  | .send => .send

/-- What `recv_cb` does to `rc` and `count`, if what is done with the bytes leaves them. -/
theorem recvWith_account {α : Type} {handle : Connect α → Option (Connect α)}
    (keeps : ∀ {conn next}, handle conn = some next → next.rc = conn.rc ∧ next.count = conn.count)
    {conn next : Connect α} {ret : Option (List UInt8)} {r : Int}
    (result : recvWith handle conn ret = some (r, next)) :
    next.rc = filled conn.rc (.recv (ret.map List.length)) ∧ next.count = conn.count := by
  cases ret with
  | none =>
    rw [recvWith, Option.some.injEq, Prod.mk.injEq] at result
    rw [← result.2]
    exact ⟨rfl, rfl⟩
  | some bytes =>
    cases bytes with
    | nil =>
      rw [recvWith, Option.some.injEq, Prod.mk.injEq] at result
      rw [← result.2]
      exact ⟨rfl, rfl⟩
    | cons byte rest =>
      simp only [recvWith, Option.bind_eq_bind, Option.bind_eq_some_iff, Option.pure_def,
        Option.some.injEq, Prod.mk.injEq] at result
      obtain ⟨rbuffer, _, after, handled, _, same⟩ := result
      obtain ⟨level, asked⟩ := keeps handled
      rw [← same]
      exact ⟨level, asked⟩

/-- Copying the buffer leaves `rc` and `count`. -/
theorem echo_account {conn next : Connect Unit} (echoed : echo conn = some next) :
    next.rc = conn.rc ∧ next.count = conn.count := by
  simp only [echo, Option.bind_eq_bind, Option.bind_eq_some_iff, Option.pure_def,
    Option.some.injEq] at echoed
  obtain ⟨_, _, _, _, same⟩ := echoed
  rw [← same]
  exact ⟨rfl, rfl⟩

/-- The slots of reactor.cpp follow the account, with two bytes at a time. -/
theorem exec_follows : Follows exec Connect.rc Connect.count Event.traffic 2 := by
  have account : ∀ {conn next : Connect Unit} {event : Event}, exec conn event = some next →
      next.rc = filled conn.rc event.traffic ∧
      (event.traffic = .accept → next.count = 2) ∧
      (event.traffic ≠ .accept → next.count = conn.count) := by
    intro conn next event step
    cases event with
    | accept clientfd =>
      rw [← Option.some.inj step]
      exact ⟨rfl, fun _ => rfl, fun other => absurd rfl other⟩
    | recv ret =>
      simp only [exec, Option.map_eq_some_iff, Prod.exists] at step
      obtain ⟨r, after, result, same⟩ := step
      obtain ⟨level, asked⟩ := recvWith_account echo_account result
      rw [← same]
      exact ⟨level, fun accepts => Traffic.noConfusion accepts, fun _ => asked⟩
    | send =>
      simp only [exec, sendCb, Option.map_eq_some_iff, Option.bind_eq_bind,
        Option.bind_eq_some_iff, Option.pure_def, Option.some.injEq, Prod.exists,
        Prod.mk.injEq] at step
      obtain ⟨_, after, ⟨_, _, _, kept⟩, same⟩ := step
      rw [← same, ← kept]
      exact ⟨rfl, fun accepts => Traffic.noConfusion accepts, fun _ => rfl⟩
  exact ⟨fun step => (account step).1, fun step => (account step).2.1,
    fun step => (account step).2.2⟩

end BackendCpp.Reactor
