import BackendCpp.Tcp.Connections

/-!
# The handshake

A stream is made by `ng_tcp_handle_listen` and becomes established in `ng_tcp_handle_syn_rcvd`.
`naccept` does not wait for the second step: `get_accept_tcb` takes any stream of the port that
has no descriptor. And `ng_tcp_handle_syn_rcvd` compares the acknowledgement with the initial
sequence number, but nothing depends on the outcome. The handshake is safe in the runs in which
neither is noticed.
-/

namespace BackendCpp.Tcp

open BackendCpp.Library

/-- A stack, with the history of its handshakes. -/
structure Accepting where
  /-- The stack. -/
  stack : Stack
  /-- History: the sequence number with which the stream at an address began. -/
  isn : Nat → UInt32
  /-- History: the segments on which `ng_tcp_handle_syn_rcvd` has set the status of the stream
  at an address to `ESTABLISHED`. -/
  completions : Nat → List Frame
  /-- History: the streams that `naccept` has returned. -/
  served : List Nat

/-- A history begins. -/
def Accepting.initial (w : Stack) : Accepting :=
  ⟨w, fun a => (w.streams a).sndNxt, fun _ => [], []⟩

/-- A received segment, or a call of `naccept`. -/
inductive Arrival
  | ngTcpProcess (mem : Nat → Bool) (seed : UInt32) (frame : Frame)
  | naccept (sockfd : Int)

/-- The stream that becomes established. -/
def completedBy (w next : Stack) (frame : Frame) : Option Nat :=
  (w.receiver frame).filter fun a =>
    (w.streams a).status = .synRcvd ∧ (next.streams a).status = .established

/-- The numbers with which the streams began, when a segment may have made one. -/
def begun (isn : Nat → UInt32) (w next : Stack) : Nat → UInt32 :=
  if next.fresh = w.fresh then isn
  else Function.update isn w.fresh (next.streams w.fresh).sndNxt

/-- The segments that completed a handshake, when a segment may have completed one. -/
def completedWith (completions : Nat → List Frame) (w next : Stack) (frame : Frame) :
    Nat → List Frame :=
  match completedBy w next frame with
  | some a => Function.update completions a (frame :: completions a)
  | none => completions

/-- The state after a segment or a call that returns. -/
def Accepting.exec (rteIpv4UdptcpCksum : Frame → UInt16) (s : Accepting) :
    Arrival → Option Accepting
  | .ngTcpProcess mem seed frame =>
    (ngTcpProcess rteIpv4UdptcpCksum mem seed s.stack frame).map fun (_, next) =>
      { s with
        stack := next, isn := begun s.isn s.stack next
        completions := completedWith s.completions s.stack next frame }
  | .naccept sockfd =>
    (naccept s.stack sockfd).map fun (fd, _, next) =>
      { s with
        stack := next
        served := if fd = -1 then s.served
          else (accepted s.stack sockfd).toList ++ s.served }

/-- A segment completes a handshake when it acknowledges the number with which the stream
began. -/
def Completes (isn : UInt32) (frame : Frame) : Prop :=
  frame.has RTE_TCP_ACK_FLAG = true ∧ ntohl frame.recvAck = isn + 1

/-- Every stream that `naccept` has returned has been established, and only by the right
acknowledgement. -/
def Handshaken (s : Accepting) : Prop :=
  ∀ a ∈ s.served, s.completions a ≠ [] ∧ ∀ frame ∈ s.completions a, Completes (s.isn a) frame

/-- An `ACK` that is taken for the last one of a handshake acknowledges `snd_nxt`, and `naccept`
does not find a stream whose handshake is still under way. -/
def Careful (rteIpv4UdptcpCksum : Frame → UInt16) (w : Stack) : Arrival → Prop
  | .ngTcpProcess _ _ frame => rteIpv4UdptcpCksum frame.clearCksum = frame.cksum →
    ∀ a, w.receiver frame = some a → (w.streams a).status = .synRcvd →
      frame.has RTE_TCP_ACK_FLAG = true → ntohl frame.recvAck = (w.streams a).sndNxt + 1
  | .naccept sockfd => ∀ a, accepted w sockfd = some a →
    (w.streams a).status ≠ .synRcvd ∧ (w.streams a).status ≠ .listen

/-- What holds between segments and calls. -/
structure Shaken (s : Accepting) : Prop where
  /-- The streams on the list have been allocated. -/
  below : ∀ a ∈ s.stack.tcbSet, a < s.stack.fresh
  /-- Nothing has been completed at other addresses. -/
  later : ∀ a, s.stack.fresh ≤ a → s.completions a = []
  /-- A stream in `SYN_RCVD` has not moved on from its first number. -/
  numbers : ∀ a ∈ s.stack.tcbSet, (s.stack.streams a).status = .synRcvd →
    (s.stack.streams a).sndNxt = s.isn a
  /-- A stream without descriptor beyond `SYN_RCVD` has been completed. -/
  ready : ∀ a ∈ s.stack.tcbSet, (s.stack.streams a).fd = -1 →
    (s.stack.streams a).status ≠ .synRcvd → (s.stack.streams a).status ≠ .listen →
    s.completions a ≠ []
  /-- By the right acknowledgement only. -/
  right : ∀ a, ∀ frame ∈ s.completions a, Completes (s.isn a) frame
  /-- What has been returned has been completed. -/
  served : ∀ a ∈ s.served, s.completions a ≠ []

/-- A segment that finds no stream in `SYN_RCVD` completes no handshake. -/
theorem completedBy_none {w next : Stack} {frame : Frame}
    (other : ∀ a, w.receiver frame = some a →
      (w.streams a).status = .synRcvd → (next.streams a).status ≠ .established) :
    completedBy w next frame = none := by
  unfold completedBy
  rw [Option.filter_eq_none_iff]
  intro a found both
  have pair := of_decide_eq_true both
  exact other a found pair.1 pair.2

/-- Nor does one that finds a stream in another state. -/
theorem completedBy_other {w next : Stack} {frame : Frame} {a : Nat}
    (found : w.receiver frame = some a) (other : (w.streams a).status ≠ .synRcvd) :
    completedBy w next frame = none := by
  apply completedBy_none
  intro b here half
  rw [found] at here
  rw [← Option.some.inj here] at half
  exact absurd half other

/-- What a segment of an established stream, or one that removes a stream, leaves as it is. -/
theorem Shaken.setStream {s : Accepting} (inv : Shaken s) {a : Nat} {stream : NgTcpStream}
    (fd : stream.fd = (s.stack.streams a).fd) (left : stream.status ≠ .synRcvd)
    (past : (s.stack.streams a).status ≠ .synRcvd ∧ (s.stack.streams a).status ≠ .listen) :
    Shaken { s with stack := s.stack.setStream a stream } := by
  refine ⟨inv.below, inv.later, ?_, ?_, inv.right, inv.served⟩
  · apply forall_update fun b (stream : NgTcpStream) =>
      stream.status = .synRcvd → stream.sndNxt = s.isn b
    · intro _ half
      exact absurd half left
    · intro b member _
      exact inv.numbers b member
  · apply forall_update fun b (stream : NgTcpStream) => stream.fd = -1 → stream.status ≠ .synRcvd →
      stream.status ≠ .listen → s.completions b ≠ []
    · intro member unnamed _ _
      rw [fd] at unnamed
      exact inv.ready a member unnamed past.1 past.2
    · intro b member _
      exact inv.ready b member

/-- Streams may leave the list. -/
theorem Shaken.erase {s : Accepting} (inv : Shaken s) (a : Nat) :
    Shaken { s with stack := { s.stack with tcbSet := s.stack.tcbSet.erase a } } :=
  ⟨fun b member => inv.below b (List.mem_of_mem_erase member), inv.later,
    fun b member => inv.numbers b (List.mem_of_mem_erase member),
    fun b member => inv.ready b (List.mem_of_mem_erase member), inv.right, inv.served⟩

/-- A stream is made, with its first number. -/
theorem Shaken.push {s : Accepting} (inv : Shaken s) {stream : NgTcpStream}
    (early : stream.status = .synRcvd ∨ stream.status = .listen) :
    Shaken { s with
      stack := s.stack.push stream
      isn := Function.update s.isn s.stack.fresh stream.sndNxt } := by
  have other : ∀ a, s.completions a ≠ [] → a ≠ s.stack.fresh := by
    intro a some same
    exact some (inv.later a (Nat.le_of_eq same.symm))
  refine ⟨?_, ?_, ?_, ?_, ?_, inv.served⟩
  · intro a member
    change a < s.stack.fresh + 1
    rcases List.mem_cons.mp member with here | listed
    · omega
    · have bound := inv.below a listed
      omega
  · intro a above
    change s.stack.fresh + 1 ≤ a at above
    exact inv.later a (by omega)
  · intro a member
    rcases List.mem_cons.mp member with here | listed
    · intro _
      change ((s.stack.push stream).streams a).sndNxt =
        Function.update s.isn s.stack.fresh stream.sndNxt a
      rw [here, push_streams_fresh, Function.update_self]
    · have bound := inv.below a listed
      change ((s.stack.push stream).streams a).status = .synRcvd →
        ((s.stack.push stream).streams a).sndNxt =
          Function.update s.isn s.stack.fresh stream.sndNxt a
      rw [push_streams bound, Function.update_of_ne (by omega)]
      exact inv.numbers a listed
  · intro a member
    rcases List.mem_cons.mp member with here | listed
    · change ((s.stack.push stream).streams a).fd = -1 →
        ((s.stack.push stream).streams a).status ≠ .synRcvd →
        ((s.stack.push stream).streams a).status ≠ .listen → s.completions a ≠ []
      rw [here, push_streams_fresh]
      intro _ half waiting
      exact absurd early (not_or.mpr ⟨half, waiting⟩)
    · change ((s.stack.push stream).streams a).fd = -1 →
        ((s.stack.push stream).streams a).status ≠ .synRcvd →
        ((s.stack.push stream).streams a).status ≠ .listen → s.completions a ≠ []
      rw [push_streams (inv.below a listed)]
      exact inv.ready a listed
  · intro a frame member
    change Completes (Function.update s.isn s.stack.fresh stream.sndNxt a) frame
    rw [Function.update_of_ne (other a (List.ne_nil_of_mem member))]
    exact inv.right a frame member

/-- A handshake is completed by the right acknowledgement. -/
theorem Shaken.complete {s : Accepting} (inv : Shaken s) {a : Nat} {frame : Frame}
    (member : a ∈ s.stack.tcbSet) (completes : Completes (s.isn a) frame) :
    Shaken { s with
      stack := s.stack.setStream a { s.stack.streams a with status := .established }
      completions := Function.update s.completions a (frame :: s.completions a) } := by
  have grown : ∀ b, s.completions b ≠ [] →
      Function.update s.completions a (frame :: s.completions a) b ≠ [] := by
    intro b some
    by_cases here : b = a
    · rw [here, Function.update_self]
      exact List.cons_ne_nil _ _
    · rw [Function.update_of_ne here]
      exact some
  refine ⟨inv.below, ?_, ?_, ?_, ?_, fun b served => grown b (inv.served b served)⟩
  · intro b above
    have bound := inv.below a member
    change s.stack.fresh ≤ b at above
    change Function.update s.completions a (frame :: s.completions a) b = []
    rw [Function.update_of_ne (by omega)]
    exact inv.later b above
  · apply forall_update fun b (stream : NgTcpStream) =>
      stream.status = .synRcvd → stream.sndNxt = s.isn b
    · intro _ half
      cases half
    · intro b member' _
      exact inv.numbers b member'
  · apply forall_update fun b (stream : NgTcpStream) => stream.fd = -1 → stream.status ≠ .synRcvd →
      stream.status ≠ .listen →
      Function.update s.completions a (frame :: s.completions a) b ≠ []
    · intro _ _ _ _
      rw [Function.update_self]
      exact List.cons_ne_nil _ _
    · intro b member' _ unnamed half early
      exact grown b (inv.ready b member' unnamed half early)
  · intro b other member'
    change other ∈ Function.update s.completions a (frame :: s.completions a) b at member'
    by_cases here : b = a
    · rw [here, Function.update_self] at member'
      change Completes (s.isn b) other
      rw [here]
      rcases List.mem_cons.mp member' with this | before
      · rw [this]
        exact completes
      · exact inv.right a other before
    · rw [Function.update_of_ne here] at member'
      exact inv.right b other member'

/-- A segment on which nothing is made and no handshake completed. -/
theorem history_same {s : Accepting} (next : Stack) {frame : Frame}
    (fresh : next.fresh = s.stack.fresh) (other : completedBy s.stack next frame = none) :
    ({ s with
      stack := next, isn := begun s.isn s.stack next
      completions := completedWith s.completions s.stack next frame } : Accepting) =
    { s with stack := next } := by
  rw [begun, if_pos fresh, completedWith, other]

/-- A segment on which a stream is made. -/
theorem history_push {s : Accepting} {stream : NgTcpStream} {frame : Frame} {a : Nat}
    (found : s.stack.receiver frame = some a) (listens : (s.stack.streams a).status = .listen) :
    ({ s with
      stack := s.stack.push stream, isn := begun s.isn s.stack (s.stack.push stream)
      completions := completedWith s.completions s.stack (s.stack.push stream) frame } :
      Accepting) =
    { s with
      stack := s.stack.push stream
      isn := Function.update s.isn s.stack.fresh stream.sndNxt } := by
  have none : completedBy s.stack (s.stack.push stream) frame = none := by
    apply completedBy_other found
    rw [listens]
    decide
  have grown : (s.stack.push stream).fresh ≠ s.stack.fresh := Nat.succ_ne_self _
  rw [begun, if_neg grown, completedWith, none, push_streams_fresh]

/-- A careful segment keeps the handshakes. -/
theorem ngTcpProcess_shaken {s : Accepting} (inv : Shaken s) {rteIpv4UdptcpCksum : Frame → UInt16}
    {mem : Nat → Bool} {seed : UInt32} {frame : Frame} {r : Int} {next : Stack}
    (careful : Careful rteIpv4UdptcpCksum s.stack (.ngTcpProcess mem seed frame))
    (result : ngTcpProcess rteIpv4UdptcpCksum mem seed s.stack frame = some (r, next)) :
    Shaken { s with
      stack := next, isn := begun s.isn s.stack next
      completions := completedWith s.completions s.stack next frame } := by
  have idle : Shaken { s with
      stack := s.stack, isn := begun s.isn s.stack s.stack
      completions := completedWith s.completions s.stack s.stack frame } := by
    rw [history_same s.stack rfl]
    · exact inv
    · apply completedBy_none
      intro a _ half established
      rw [half] at established
      cases established
  by_cases wrong : rteIpv4UdptcpCksum frame.clearCksum ≠ frame.cksum
  · rw [ngTcpProcess_dropped wrong result]
    exact idle
  · have right := careful (not_not.mp wrong)
    cases ngTcpProcess_received result with
    | ignored => exact idle
    | opened found listens syn ring =>
      rw [history_push found listens]
      exact inv.push (Or.inl rfl)
    | unanswered found listens syn failed fd status =>
      rw [history_push found listens]
      exact inv.push (Or.inr status)
    | completed found half ack =>
      rename_i a
      have member := (ngTcpStreamSearch_some found).1
      have same : completedBy s.stack (s.stack.setStream a
          { s.stack.streams a with status := .established }) frame = some a := by
        unfold completedBy
        rw [found, Option.filter_some, Stack.setStream_streams, Function.update_self, half]
        rfl
      have numbered := right a found half ack
      rw [inv.numbers a member half] at numbered
      have kept : begun s.isn s.stack (s.stack.setStream a
          { s.stack.streams a with status := .established }) = s.isn := if_pos rfl
      rw [kept, completedWith, same]
      exact inv.complete member ⟨ack, numbered⟩
    | handled found status handled =>
      rename_i a stream
      have past : (s.stack.streams a).status ≠ .synRcvd ∧
          (s.stack.streams a).status ≠ .listen := by
        rw [status]
        decide
      rw [history_same (s.stack.setStream a stream) rfl (completedBy_other found past.1)]
      rcases ngTcpHandleEstablished_answers handled with ⟨_, _, same⟩ | ⟨_, answers, kind⟩
      · rw [same]
        exact inv.setStream rfl past.1 past
      · apply inv.setStream answers.fd _ past
        intro half
        rw [half, status] at kind
        rcases kind with impossible | impossible
        · cases impossible
        · cases impossible
    | removed found status ack =>
      rename_i a
      have past : (s.stack.streams a).status ≠ .synRcvd ∧
          (s.stack.streams a).status ≠ .listen := by
        rw [status]
        decide
      rw [history_same (s.stack.remove a) rfl (completedBy_other found past.1)]
      have closed : Shaken { s with
          stack := s.stack.setStream a { s.stack.streams a with status := .closed } } := by
        apply inv.setStream
        · rfl
        · intro half
          cases half
        · exact past
      exact closed.erase a

/-- A careful `naccept` returns a stream that has been completed. -/
theorem naccept_shaken {s : Accepting} (inv : Shaken s) {rteIpv4UdptcpCksum : Frame → UInt16}
    {sockfd fd : Int} {peer : Option (UInt32 × UInt16)} {next : Stack}
    (careful : Careful rteIpv4UdptcpCksum s.stack (.naccept sockfd))
    (result : naccept s.stack sockfd = some (fd, peer, next)) :
    Shaken { s with
      stack := next
      served := if fd = -1 then s.served
        else (accepted s.stack sockfd).toList ++ s.served } := by
  rcases naccept_cases result with ⟨answer, same, _⟩ | ⟨apt, found, member, unnamed, _, same⟩
  · rw [if_pos answer, same]
    exact inv
  · obtain ⟨complete, early⟩ := careful apt found
    rw [same]
    refine ⟨inv.below, inv.later, ?_, ?_, inv.right, ?_⟩
    · apply forall_update fun b (stream : NgTcpStream) =>
        stream.status = .synRcvd → stream.sndNxt = s.isn b
      · exact inv.numbers apt
      · intro b member' _
        exact inv.numbers b member'
    · apply forall_update fun b (stream : NgTcpStream) =>
        stream.fd = -1 → stream.status ≠ .synRcvd → stream.status ≠ .listen →
        s.completions b ≠ []
      · intro _ _ _ _
        exact inv.ready apt member unnamed complete early
      · intro b member' _
        exact inv.ready b member'
    · intro b listed
      change b ∈ (if fd = -1 then s.served else (accepted s.stack sockfd).toList ++ s.served)
        at listed
      split at listed
      · exact inv.served b listed
      · rw [found, List.mem_append] at listed
        rcases listed with new | old
        · rw [Option.mem_toList] at new
          rw [← Option.some.inj new]
          exact inv.ready apt member unnamed complete early
        · exact inv.served b old

/-- In every run of careful segments and calls, from a stack whose streams have descriptors,
every stream that `naccept` returns has completed its handshake. -/
theorem run_handshaken {rteIpv4UdptcpCksum : Frame → UInt16} {w : Stack} {trace : List Arrival}
    {s : Accepting} (sockets : ∀ a ∈ w.tcbSet, a < w.fresh ∧ (w.streams a).fd ≠ -1)
    (run : Run (fun s arrival next => s.exec rteIpv4UdptcpCksum arrival = some next ∧
      Careful rteIpv4UdptcpCksum s.stack arrival) (Accepting.initial w) trace s) :
    Handshaken s := by
  have inv : Shaken s := by
    apply run.invariant Shaken
    · refine ⟨fun a member => (sockets a member).1, fun _ _ => rfl, fun _ _ _ => rfl, ?_, ?_, ?_⟩
      · intro a member unnamed
        exact absurd unnamed (sockets a member).2
      · intro a frame member
        cases member
      · intro a served
        cases served
    · intro s arrival next inv taken
      obtain ⟨done, careful⟩ := taken
      cases arrival with
      | ngTcpProcess mem seed frame =>
        simp only [Accepting.exec, Option.map_eq_some_iff, Prod.exists] at done
        obtain ⟨r, stack, result, same⟩ := done
        rw [← same]
        exact ngTcpProcess_shaken inv careful result
      | naccept sockfd =>
        simp only [Accepting.exec, Option.map_eq_some_iff, Prod.exists] at done
        obtain ⟨fd, peer, stack, result, same⟩ := done
        rw [← same]
        exact naccept_shaken inv careful result
  intro a served
  exact ⟨inv.served a served, inv.right a⟩

/-- A stack with one listener, which has descriptor 3. -/
def listening : Stack :=
  (nlisten (nsocket (fun _ => true) (Stack.initial (fun _ => Localhost.zero)
    (fun _ => NgTcpStream.zero) []) SOCK_STREAM).2 3).2

/-- The `ACK` of the address `0.0.0.1` for the number 7. -/
def acknowledgement : Frame := fun i =>
  if i = 29 then 1
  else if i = tcphdr + 11 then 8
  else if i = tcphdr + 13 then RTE_TCP_ACK_FLAG
  else 0

/-- A segment is careful when the stream that it reaches is not in `SYN_RCVD` or is
acknowledged. -/
theorem careful_of_receiver {rteIpv4UdptcpCksum : Frame → UInt16} {w : Stack} {mem : Nat → Bool}
    {seed : UInt32} {frame : Frame} (a : Nat) (found : w.receiver frame = some a)
    (right : (w.streams a).status = .synRcvd →
      ntohl frame.recvAck = (w.streams a).sndNxt + 1) :
    Careful rteIpv4UdptcpCksum w (.ngTcpProcess mem seed frame) := by
  intro _ b here half _
  have same : b = a := Option.some.inj (here.symm.trans found)
  rw [same] at half ⊢
  exact right half

/-- A call is careful when the stream that it finds is established. -/
theorem careful_of_accepted {rteIpv4UdptcpCksum : Frame → UInt16} {w : Stack} {sockfd : Int}
    (a : Nat) (found : accepted w sockfd = some a)
    (established : (w.streams a).status = .established) :
    Careful rteIpv4UdptcpCksum w (.naccept sockfd) := by
  intro b here
  have same : b = a := Option.some.inj (here.symm.trans found)
  rw [same, established]
  decide

/-- A stream is accepted after its handshake. -/
theorem run_handshaken_one : ∃ trace s,
    Run (fun s arrival next => s.exec (fun _ => 0) arrival = some next ∧
      Careful (fun _ => 0) s.stack arrival) (Accepting.initial listening) trace s ∧
    Handshaken s ∧ s.served = [1] := by
  have requested : Run (fun s arrival next => s.exec (fun _ => 0) arrival = some next ∧
      Careful (fun _ => 0) s.stack arrival) (Accepting.initial listening)
      [.ngTcpProcess (fun _ => true) 7 request] _ :=
    Run.snoc Run.nil ⟨rfl, careful_of_receiver 0 rfl (by decide)⟩
  have completed : Run (fun s arrival next => s.exec (fun _ => 0) arrival = some next ∧
      Careful (fun _ => 0) s.stack arrival) (Accepting.initial listening)
      [.ngTcpProcess (fun _ => true) 7 request,
        .ngTcpProcess (fun _ => true) 0 acknowledgement] _ :=
    Run.snoc requested ⟨rfl, careful_of_receiver 1 rfl (by decide)⟩
  have accepted : Run (fun s arrival next => s.exec (fun _ => 0) arrival = some next ∧
      Careful (fun _ => 0) s.stack arrival) (Accepting.initial listening)
      [.ngTcpProcess (fun _ => true) 7 request,
        .ngTcpProcess (fun _ => true) 0 acknowledgement, .naccept 3] _ :=
    Run.snoc completed ⟨rfl, careful_of_accepted 1 rfl rfl⟩
  exact ⟨_, _, accepted, run_handshaken (by decide) accepted, by decide⟩

/-- `naccept` returns a stream on the first segment of its handshake. -/
theorem run_unshaken : ∃ trace s,
    Run (fun s arrival next => s.exec (fun _ => 0) arrival = some next)
      (Accepting.initial listening) trace s ∧
    (∀ a ∈ listening.tcbSet, a < listening.fresh ∧ (listening.streams a).fd ≠ -1) ∧
    ¬ Handshaken s := by
  have requested : Run (fun s arrival next => s.exec (fun _ => 0) arrival = some next)
      (Accepting.initial listening) [.ngTcpProcess (fun _ => true) 7 request] _ :=
    Run.snoc Run.nil rfl
  have accepted : Run (fun s arrival next => s.exec (fun _ => 0) arrival = some next)
      (Accepting.initial listening) [.ngTcpProcess (fun _ => true) 7 request, .naccept 3] _ :=
    Run.snoc requested rfl
  refine ⟨_, _, accepted, by decide, ?_⟩
  intro shaken
  exact (shaken 1 (List.mem_singleton.mpr rfl)).1 rfl

end BackendCpp.Tcp
