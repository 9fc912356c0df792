import Mathlib.Tactic

/-!
# The event loop of uring_server.cpp

Requests and completions are messages in flight. The kernel performs submitted requests in any
order: a receive writes at the start of `buffer`, a send reads from it, and each leaves a
completion. The loop of `main` takes up to ten completions at a time and turns them into
requests; its steps and those of the kernel interleave freely. `buffer` is the one array that
every receive and every send is given.
-/

namespace BackendCpp.Uring

/-- The `event` of a `conninfo`. -/
inductive EventKind where
  /-- `EVENT_ACCEPT`. -/
  | accept
  /-- `EVENT_READ`. -/
  | read
  /-- `EVENT_WRITE`. -/
  | write
  deriving DecidableEq

/-- A request; receives and sends use `buffer`. -/
inductive Request where
  /-- The entry that `main` gets first and never prepares: all zero. -/
  | nop
  /-- `io_uring_prep_accept`. -/
  | accept (sockfd : Int)
  /-- `io_uring_prep_recv`. -/
  | recv (sockfd : Int) (len : Nat)
  /-- `io_uring_prep_send`. -/
  | send (sockfd : Int) (len : Nat)

/-- A completion: the `conninfo` in `user_data` and the result. -/
structure Completion where
  /-- `connfd`. -/
  connfd : Int
  /-- `event`. -/
  event : EventKind
  /-- `res`. -/
  res : Int

/-- The completion of a request with a result. -/
def Request.completion (res : Int) : Request → Completion
  | nop => ⟨0, .accept, res⟩
  | accept sockfd => ⟨sockfd, .accept, res⟩
  | recv sockfd _ => ⟨sockfd, .read, res⟩
  | send sockfd _ => ⟨sockfd, .write, res⟩

/-- Where `main` stands in its loop. -/
inductive Control where
  /-- Before `io_uring_submit`. -/
  | submitting
  /-- Before `io_uring_peek_batch_cqe`. -/
  | waiting
  /-- In the `for` loop over `cqecount` completions, the first of them at place `base`; `rest` is
  still to come. -/
  | processing (rest : List Completion) (cqecount base : Nat)

/-- The server with its kernel. -/
structure State where
  /-- `buffer`. -/
  buffer : List UInt8
  /-- Requests that are prepared and not submitted. -/
  prepared : List Request
  /-- Requests that are submitted and not performed. -/
  flight : List Request
  /-- All completions so far. -/
  completions : List Completion
  /-- How many of them have been released by `io_uring_cq_advance`. -/
  head : Nat
  /-- The point that `main` has reached. -/
  control : Control
  /-- The bytes received from each descriptor. -/
  received : Int → List UInt8
  /-- The bytes sent to each descriptor. -/
  sent : Int → List UInt8

/-- The requests that the body of the `for` loop prepares for a completion; none at all means
`continue`. -/
def requests (cqe : Completion) : Option (List Request) :=
  match cqe.event with
  | .accept =>
    if cqe.res < 0 then none
    else some [.accept cqe.connfd, .recv cqe.res 1024]
  | .read => if cqe.res > 0 then some [.send cqe.connfd cqe.res.toNat] else some []
  | .write => some [.recv cqe.connfd 1024]

/-- What happens in a run. -/
inductive Event where
  /-- `io_uring_submit`. -/
  | submitted
  /-- `io_uring_peek_batch_cqe`. -/
  | peeked (batch : List Completion)
  /-- A completion was skipped by `continue`. -/
  | skipped (cqe : Completion)
  /-- A completion was handled, and the batch released. -/
  | handled (cqe : Completion)
  /-- The `for` loop ended. -/
  | ended
  /-- The kernel performed the empty request, an accept, or a receive or send that failed. -/
  | performed (request : Request) (res : Int)
  /-- The kernel received `data` from a descriptor. -/
  | received (sockfd : Int) (data : List UInt8)
  /-- The kernel sent `count` of `len` bytes to a descriptor. -/
  | sent (sockfd : Int) (len count : Nat)

/-- The kernel has performed a request. -/
def State.complete (state : State) (flight : List Request) (request : Request) (res : Int) :
    State :=
  { state with
    flight := flight
    completions := state.completions ++ [request.completion res] }

/-- One step of the loop or of the kernel. -/
inductive Step : State → Event → State → Prop
  | submit {state : State} (control : state.control = .submitting) :
      Step state .submitted
        { state with
          prepared := []
          flight := state.flight ++ state.prepared
          control := .waiting }
  | peek {state : State} {batch : List Completion} (control : state.control = .waiting)
      (inside : state.head ≤ state.completions.length)
      (taken : batch = (state.completions.drop state.head).take 10) (filled : batch ≠ []) :
      Step state (.peeked batch)
        { state with control := .processing batch batch.length state.head }
  | peekStale {state : State} (batch : List Completion) (control : state.control = .waiting)
      (outside : state.completions.length < state.head) :
      Step state (.peeked batch)
        { state with control := .processing batch batch.length state.head }
  | skip {state : State} {cqe : Completion} {rest : List Completion} {cqecount base : Nat}
      (control : state.control = .processing (cqe :: rest) cqecount base)
      (nothing : requests cqe = none) :
      Step state (.skipped cqe) { state with control := .processing rest cqecount base }
  | handle {state : State} {cqe : Completion} {rest : List Completion} {cqecount base : Nat}
      {new : List Request} (control : state.control = .processing (cqe :: rest) cqecount base)
      (some' : requests cqe = some new) :
      Step state (.handled cqe)
        { state with
          prepared := state.prepared ++ new
          head := state.head + cqecount
          control := .processing rest cqecount base }
  | end' {state : State} {cqecount base : Nat}
      (control : state.control = .processing [] cqecount base) :
      Step state .ended { state with control := .submitting }
  | nop {state : State} {before after : List Request}
      (flight : state.flight = before ++ .nop :: after) :
      Step state (.performed .nop 0) (state.complete (before ++ after) .nop 0)
  | accept {state : State} {before after : List Request} {sockfd : Int} (res : Int)
      (flight : state.flight = before ++ .accept sockfd :: after) :
      Step state (.performed (.accept sockfd) res)
        (state.complete (before ++ after) (.accept sockfd) res)
  | recv {state : State} {before after : List Request} {sockfd : Int} {len : Nat}
      (data : List UInt8) (flight : state.flight = before ++ .recv sockfd len :: after)
      (fits : data.length ≤ len) :
      Step state (.received sockfd data)
        { state.complete (before ++ after) (.recv sockfd len) data.length with
          buffer := data ++ state.buffer.drop data.length
          received := Function.update state.received sockfd (state.received sockfd ++ data) }
  | send {state : State} {before after : List Request} {sockfd : Int} {len : Nat} (count : Nat)
      (flight : state.flight = before ++ .send sockfd len :: after) (fits : count ≤ len) :
      Step state (.sent sockfd len count)
        { state.complete (before ++ after) (.send sockfd len) count with
          sent := Function.update state.sent sockfd
            (state.sent sockfd ++ state.buffer.take count) }
  | recvFail {state : State} {before after : List Request} {sockfd : Int} {len : Nat} (res : Int)
      (flight : state.flight = before ++ .recv sockfd len :: after) (failed : res < 0) :
      Step state (.performed (.recv sockfd len) res)
        (state.complete (before ++ after) (.recv sockfd len) res)
  | sendFail {state : State} {before after : List Request} {sockfd : Int} {len : Nat} (res : Int)
      (flight : state.flight = before ++ .send sockfd len :: after) (failed : res < 0) :
      Step state (.performed (.send sockfd len) res)
        (state.complete (before ++ after) (.send sockfd len) res)

/-- `main` before its loop. -/
def start (listenfd : Int) : State :=
  { buffer := List.replicate 1024 0
    prepared := [.nop, .accept listenfd]
    flight := []
    completions := []
    head := 0
    control := .submitting
    received := fun _ => []
    sent := fun _ => [] }

end BackendCpp.Uring
