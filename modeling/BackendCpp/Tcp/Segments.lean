import BackendCpp.Tcp.Receive

/-!
# Segments of an established connection

What `ng_tcp_handle_established` does with a segment that carries the next sequence number:
it queues and counts the payload when `PSH` is set, and acknowledges what it queued; it counts
and acknowledges `FIN` on its own. So the payload of a segment without `PSH` is neither queued nor
counted, and a segment with both flags is acknowledged twice, the first time without the `FIN`.
-/

namespace BackendCpp.Tcp

open BackendCpp.Library

/-- The payloads of fragments, without the empty ones. -/
def payloads (fragments : List NgTcpFragment) : List (List UInt8) :=
  (fragments.map NgTcpFragment.bytes).filter fun bytes => !bytes.isEmpty

/-- The payloads of two lists follow each other. -/
theorem payloads_append (front back : List NgTcpFragment) :
    payloads (front ++ back) = payloads front ++ payloads back := by
  rw [payloads, List.map_append, List.filter_append]
  rfl

/-- A fragment contributes its payload. -/
theorem payloads_singleton {fragment : NgTcpFragment} {bytes : List UInt8}
    (same : fragment.bytes = bytes) :
    payloads [fragment] = [bytes].filter fun bytes => !bytes.isEmpty := by
  rw [payloads, List.map_singleton, same]

/-- `ng_tcp_send_ackpkt` queues an acknowledgement of what has been received, if the ring has
room. -/
theorem ngTcpSendAckpkt_spec {mem : Nat → Bool} {stream : NgTcpStream} {frame : Frame}
    {ring : List NgTcpFragment} (memory : mem 0 = true) (queued : stream.sndbuf = some ring) :
    ∃ acks, ngTcpSendAckpkt mem stream frame =
        some (0, { stream with sndbuf := some (ring ++ acks) }) ∧
      List.Sublist (acks.map NgTcpFragment.acknum) [stream.rcvNxt] ∧
      (ring.length < RING_SIZE - 1 → acks.map NgTcpFragment.acknum = [stream.rcvNxt]) := by
  by_cases room : ring.length < RING_SIZE - 1
  · refine ⟨[ackfrag stream frame], ?_, List.Sublist.refl _, fun _ => rfl⟩
    simp only [ngTcpSendAckpkt, memory, if_true, queued, ringEnqueue, Option.map_some,
      if_pos room]
  · refine ⟨[], ?_, List.nil_sublist _, fun enough => absurd enough room⟩
    simp only [ngTcpSendAckpkt, memory, if_true, queued, ringEnqueue, Option.map_some,
      if_neg room, List.append_nil]

/-- How a branch of the handler extends the rings: it queues fragments with the payloads
`added` on `rcvbuf`, and acknowledgements of the numbers `due` on `sndbuf` as far as there
is room. -/
structure Extends (stream next : NgTcpStream) (added : List (List UInt8)) (due : List UInt32) :
    Prop where
  /-- The descriptor stays. -/
  fd : next.fd = stream.fd
  /-- The connection stays. -/
  peer : next.sip = stream.sip ∧ next.dip = stream.dip ∧ next.sport = stream.sport ∧
    next.dport = stream.dport
  /-- The fragments queued for the application. -/
  received : ∃ ring fragments, stream.rcvbuf = some ring ∧
    next.rcvbuf = some (ring ++ fragments) ∧ payloads fragments = added
  /-- The acknowledgements queued. -/
  acknowledged : ∃ ring acks, stream.sndbuf = some ring ∧ next.sndbuf = some (ring ++ acks) ∧
    List.Sublist (acks.map NgTcpFragment.acknum) due ∧
    (ring.length + due.length ≤ RING_SIZE - 1 → acks.map NgTcpFragment.acknum = due)

/-- Doing nothing extends by nothing. -/
theorem Extends.refl {stream : NgTcpStream} {received sent : List NgTcpFragment}
    (rcvbuf : stream.rcvbuf = some received) (sndbuf : stream.sndbuf = some sent) :
    Extends stream stream [] [] where
  fd := rfl
  peer := ⟨rfl, rfl, rfl, rfl⟩
  received := ⟨received, [], rcvbuf, by rw [rcvbuf, List.append_nil], rfl⟩
  acknowledged := ⟨sent, [], sndbuf, by rw [sndbuf, List.append_nil], List.Sublist.refl _,
    fun _ => rfl⟩

/-- One branch after another. -/
theorem Extends.trans {first second third : NgTcpStream} {added more : List (List UInt8)}
    {due later : List UInt32} (one : Extends first second added due)
    (other : Extends second third more later) :
    Extends first third (added ++ more) (due ++ later) := by
  obtain ⟨ring, fragments, rcvbuf, middle, held⟩ := one.received
  obtain ⟨ring', fragments', middle', rcvbuf', held'⟩ := other.received
  obtain ⟨sent, acks, sndbuf, between, within, exact⟩ := one.acknowledged
  obtain ⟨sent', acks', between', sndbuf', within', exact'⟩ := other.acknowledged
  have sameRing : ring' = ring ++ fragments := Option.some.inj (middle'.symm.trans middle)
  have sameSent : sent' = sent ++ acks := Option.some.inj (between'.symm.trans between)
  subst sameRing sameSent
  have count : acks.length ≤ due.length := by
    have bound := within.length_le
    rw [List.length_map] at bound
    exact bound
  refine ⟨other.fd.trans one.fd, ?_, ?_, ?_⟩
  · exact ⟨other.peer.1.trans one.peer.1, other.peer.2.1.trans one.peer.2.1,
      other.peer.2.2.1.trans one.peer.2.2.1, other.peer.2.2.2.trans one.peer.2.2.2⟩
  · refine ⟨ring, fragments ++ fragments', rcvbuf, ?_, ?_⟩
    · rw [rcvbuf', List.append_assoc]
    · rw [payloads_append, held, held']
  · refine ⟨sent, acks ++ acks', sndbuf, ?_, ?_, ?_⟩
    · rw [sndbuf', List.append_assoc]
    · rw [List.map_append]
      exact within.append within'
    · intro room
      rw [List.length_append] at room
      rw [List.map_append, exact (by omega), exact' (by rw [List.length_append]; omega)]

/-- The branch for `PSH`. -/
theorem establishedPsh_spec {mem : Nat → Bool} {stream : NgTcpStream} {frame : Frame}
    {tcplen : Int} {received sent : List NgTcpFragment} (memory : ∀ n, mem n = true)
    (rcvbuf : stream.rcvbuf = some received) (sndbuf : stream.sndbuf = some sent)
    (room : received.length < RING_SIZE - 1) (range : tcplen < 2 ^ 31)
    (header : (frame.dataOff >>> 4).toNat * 4 ≤ tcplen) :
    ∃ next, establishedPsh mem stream frame tcplen = some next ∧
      next.rcvNxt = stream.rcvNxt + UInt32.ofNat (frame.payload tcplen).length ∧
      next.status = stream.status ∧
      Extends stream next ([frame.payload tcplen].filter fun bytes => !bytes.isEmpty)
        [next.rcvNxt] := by
  obtain ⟨fragment, enqueued, bytes, _⟩ :
      ∃ fragment, ngTcpEnqueueRecvbuffer mem stream frame tcplen = _ ∧ _ :=
    ngTcpEnqueueRecvbuffer_spec (memory 0) (memory 1) rcvbuf range
  rw [ringEnqueue_room room] at enqueued
  have size : UInt32.ofInt (tcplen - (frame.dataOff >>> 4).toNat * 4) =
      UInt32.ofNat (frame.payload tcplen).length := by
    rw [Frame.payload, copyBytes, List.length_map, List.length_range, UInt32.ofInt,
      Int.emod_eq_of_lt (by omega) (by omega)]
  let counted : NgTcpStream :=
    { stream with
      rcvbuf := some (received ++ [fragment])
      rcvNxt := stream.rcvNxt + UInt32.ofNat (frame.payload tcplen).length
      sndNxt := ntohl frame.recvAck }
  obtain ⟨acks, answered, within, exact⟩ :
      ∃ acks, ngTcpSendAckpkt (fun n => mem (2 + n)) counted frame = _ ∧ _ :=
    ngTcpSendAckpkt_spec (memory 2) sndbuf
  refine ⟨{ counted with sndbuf := some (sent ++ acks) }, ?_, rfl, rfl, ?_⟩
  · unfold establishedPsh
    rw [enqueued]
    simp only [Option.bind_some, size]
    rw [answered]
    rfl
  · refine ⟨rfl, ⟨rfl, rfl, rfl, rfl⟩, ⟨received, [fragment], rcvbuf, rfl, ?_⟩,
      ⟨sent, acks, sndbuf, rfl, within, fun enough => exact enough⟩⟩
    exact payloads_singleton bytes

/-- A fragment without payload that is queued, or dropped, adds no payload. -/
theorem ringEnqueue_empty {ring : List NgTcpFragment} {fragment : NgTcpFragment}
    (empty : fragment.bytes = []) : ∃ fragments,
    ringEnqueue (some ring) fragment = some (ring ++ fragments) ∧ payloads fragments = [] := by
  by_cases room : ring.length < RING_SIZE - 1
  · exact ⟨[fragment], ringEnqueue_room room fragment, payloads_singleton empty⟩
  · refine ⟨[], ?_, rfl⟩
    rw [ringEnqueue, Option.map_some, if_neg room, List.append_nil]

/-- The branch for `FIN`. -/
theorem establishedFin_spec {mem : Nat → Bool} {stream : NgTcpStream} {frame : Frame}
    {received sent : List NgTcpFragment} (memory : ∀ n, mem n = true)
    (rcvbuf : stream.rcvbuf = some received) (sndbuf : stream.sndbuf = some sent) :
    ∃ next, establishedFin mem stream frame = some next ∧
      next.rcvNxt = stream.rcvNxt + 1 ∧ next.status = .closeWait ∧
      Extends stream next [] [next.rcvNxt] := by
  have range : ((frame.dataOff >>> 4).toNat : Int) < 2 ^ 31 := by
    have bound := (frame.dataOff >>> 4).toNat_lt
    omega
  have nothing : frame.payload ((frame.dataOff >>> 4).toNat : Int) = [] := by
    have none : (((frame.dataOff >>> 4).toNat : Int) -
        ((frame.dataOff >>> 4).toNat : Int) * 4).toNat = 0 := by omega
    rw [Frame.payload, none]
    rfl
  let closing : NgTcpStream := { stream with status := .closeWait }
  obtain ⟨fragment, enqueued, bytes, _⟩ : ∃ fragment, ngTcpEnqueueRecvbuffer mem closing frame
      ((frame.dataOff >>> 4).toNat : Int) = _ ∧ _ :=
    ngTcpEnqueueRecvbuffer_spec (memory 0) (memory 1) rcvbuf range
  obtain ⟨fragments, queued, held⟩ := ringEnqueue_empty (bytes.trans nothing)
  rw [queued] at enqueued
  let counted : NgTcpStream :=
    { closing with
      rcvbuf := some (received ++ fragments)
      rcvNxt := stream.rcvNxt + 1
      sndNxt := ntohl frame.recvAck }
  obtain ⟨acks, answered, within, exact⟩ :
      ∃ acks, ngTcpSendAckpkt (fun n => mem (2 + n)) counted frame = _ ∧ _ :=
    ngTcpSendAckpkt_spec (memory 2) sndbuf
  refine ⟨{ counted with sndbuf := some (sent ++ acks) }, ?_, rfl, rfl, ?_⟩
  · unfold establishedFin
    simp only
    rw [enqueued]
    simp only [Option.bind_some]
    rw [answered]
    rfl
  · exact ⟨rfl, ⟨rfl, rfl, rfl, rfl⟩, ⟨received, fragments, rcvbuf, rfl, held⟩,
      ⟨sent, acks, sndbuf, rfl, within, fun enough => exact enough⟩⟩

/-- The payload that `ng_tcp_handle_established` takes: it looks for one when `PSH` is set. -/
def Frame.pushed (frame : Frame) (tcplen : Int) : List UInt8 :=
  if frame.has RTE_TCP_PSH_FLAG then frame.payload tcplen else []

/-- `ng_tcp_handle_established` on a segment with any flags. -/
theorem ngTcpHandleEstablished_spec {mem : Nat → Bool} {stream : NgTcpStream} {frame : Frame}
    {tcplen : Int} {received sent : List NgTcpFragment} (memory : ∀ n, mem n = true)
    (rcvbuf : stream.rcvbuf = some received) (sndbuf : stream.sndbuf = some sent)
    (room : received.length < RING_SIZE - 1) (range : tcplen < 2 ^ 31)
    (header : (frame.dataOff >>> 4).toNat * 4 ≤ tcplen) :
    ∃ next, ngTcpHandleEstablished mem stream frame tcplen = some (0, next) ∧
      next.rcvNxt = stream.rcvNxt + UInt32.ofNat (frame.pushed tcplen).length +
        (if frame.has RTE_TCP_FIN_FLAG then 1 else 0) ∧
      next.status = (if frame.has RTE_TCP_FIN_FLAG then .closeWait else stream.status) ∧
      Extends stream next ([frame.pushed tcplen].filter fun bytes => !bytes.isEmpty)
        ((if frame.has RTE_TCP_PSH_FLAG then
            [stream.rcvNxt + UInt32.ofNat (frame.pushed tcplen).length] else []) ++
          if frame.has RTE_TCP_FIN_FLAG then [next.rcvNxt] else []) := by
  obtain ⟨middle, first, counted, status, extended⟩ : ∃ middle,
      (if frame.has RTE_TCP_PSH_FLAG then establishedPsh mem stream frame tcplen
        else some stream) = some middle ∧
      middle.rcvNxt = stream.rcvNxt + UInt32.ofNat (frame.pushed tcplen).length ∧
      middle.status = stream.status ∧
      Extends stream middle ([frame.pushed tcplen].filter fun bytes => !bytes.isEmpty)
        (if frame.has RTE_TCP_PSH_FLAG then
          [stream.rcvNxt + UInt32.ofNat (frame.pushed tcplen).length] else []) := by
    by_cases psh : frame.has RTE_TCP_PSH_FLAG = true
    · obtain ⟨middle, returned, counted, status, extended⟩ := establishedPsh_spec memory rcvbuf
        sndbuf room range header
      rw [counted] at extended
      have taken : frame.pushed tcplen = frame.payload tcplen := if_pos psh
      rw [if_pos psh, if_pos psh, taken]
      exact ⟨middle, returned, counted, status, extended⟩
    · have nothing : frame.pushed tcplen = [] := if_neg psh
      refine ⟨stream, by rw [if_neg psh], ?_, rfl, ?_⟩
      · rw [nothing]
        exact (UInt32.add_zero _).symm
      · rw [if_neg psh, nothing]
        exact Extends.refl rcvbuf sndbuf
  obtain ⟨ring, fragments, _, queued, _⟩ := extended.received
  obtain ⟨sent', acks, _, sndbuf', _⟩ := extended.acknowledged
  by_cases fin : frame.has RTE_TCP_FIN_FLAG = true
  · obtain ⟨next, second, counted', status', extended'⟩ :
        ∃ next, establishedFin (fun n => mem (3 + n)) middle frame = some next ∧ _ :=
      establishedFin_spec (fun n => memory (3 + n)) queued sndbuf'
    refine ⟨next, ?_, ?_, by rw [if_pos fin, status'], ?_⟩
    · unfold ngTcpHandleEstablished
      rw [first, Option.bind_some, if_pos fin, second]
      rfl
    · rw [counted', counted, if_pos fin]
    · rw [if_pos fin]
      have both := extended.trans extended'
      rw [List.append_nil] at both
      exact both
  · refine ⟨middle, ?_, ?_, by rw [if_neg fin, status], ?_⟩
    · unfold ngTcpHandleEstablished
      rw [first, Option.bind_some, if_neg fin]
      rfl
    · rw [counted, if_neg fin]
      exact (UInt32.add_zero _).symm
    · rw [if_neg fin, List.append_nil]
      exact extended

/-- The payload of a received segment. -/
def Frame.segment (frame : Frame) : List UInt8 := frame.payload frame.tcplen

/-- The payload of a received segment that the stream takes. -/
def Frame.delivered (frame : Frame) : List UInt8 := frame.pushed frame.tcplen

/-- A segment from the peer of a stream that begins where the last one ended. -/
structure InOrder (rteIpv4UdptcpCksum : Frame → UInt16) (stream : NgTcpStream) (frame : Frame) :
    Prop where
  /-- The checksum is valid. -/
  valid : rteIpv4UdptcpCksum frame.clearCksum = frame.cksum
  /-- It belongs to the connection. -/
  peer : frame.srcAddr = stream.sip ∧ frame.dstAddr = stream.dip ∧
    frame.srcPort = stream.sport ∧ frame.dstPort = stream.dport
  /-- Its sequence number is the one awaited. -/
  sequence : ntohl frame.sentSeq = stream.rcvNxt
  /-- The header has at least five words. -/
  header : 5 ≤ (frame.dataOff >>> 4).toNat
  /-- The header is inside the packet. -/
  inside : (frame.dataOff >>> 4).toNat * 4 ≤ frame.tcplen
  /-- `ACK` is set. -/
  ack : frame.has RTE_TCP_ACK_FLAG = true

/-- Clearing the checksum leaves the payload alone. -/
theorem payload_clearCksum {frame : Frame} (header : 5 ≤ (frame.dataOff >>> 4).toNat)
    (tcplen : Int) : frame.clearCksum.payload tcplen = frame.payload tcplen := by
  have same : frame.clearCksum.dataOff = frame.dataOff := rfl
  unfold Frame.payload copyBytes
  rw [same]
  apply List.map_congr_left
  intro i _
  apply if_neg
  unfold tcphdr
  omega

/-- `ng_tcp_process` hands such a segment to `ng_tcp_handle_established`. -/
theorem ngTcpProcess_established {rteIpv4UdptcpCksum : Frame → UInt16} {mem : Nat → Bool}
    {seed : UInt32} {w : Stack} {a : Nat} {frame : Frame}
    (found : ngTcpStreamSearch w (w.streams a).sip (w.streams a).dip (w.streams a).sport
      (w.streams a).dport = some a)
    (established : (w.streams a).status = .established)
    (segment : InOrder rteIpv4UdptcpCksum (w.streams a) frame) :
    ngTcpProcess rteIpv4UdptcpCksum mem seed w frame =
      (ngTcpHandleEstablished mem (w.streams a) frame.clearCksum frame.tcplen).map
        fun (_, stream) => (0, w.setStream a stream) := by
  obtain ⟨sip, dip, sport, dport⟩ := segment.peer
  have search : ngTcpStreamSearch w frame.clearCksum.srcAddr frame.clearCksum.dstAddr
      frame.clearCksum.srcPort frame.clearCksum.dstPort = some a := by
    change ngTcpStreamSearch w frame.srcAddr frame.dstAddr frame.srcPort frame.dstPort = some a
    rw [sip, dip, sport, dport]
    exact found
  unfold ngTcpProcess
  simp only [segment.valid, ne_eq, not_true_eq_false, if_false, search, established]
  rfl

/-- A stack, with what was taken off the rings of one of its streams. -/
structure Connection where
  /-- The stack. -/
  stack : Stack
  /-- History: what the application took off `rcvbuf`. -/
  taken : List NgTcpFragment
  /-- History: what `ng_tcp_out` took off `sndbuf`. -/
  sent : List NgTcpFragment

/-- All that was queued on `rcvbuf`. -/
def Connection.received (conn : Connection) (a : Nat) : List NgTcpFragment :=
  conn.taken ++ (conn.stack.streams a).rcvbuf.getD []

/-- All that was queued on `sndbuf`. -/
def Connection.answered (conn : Connection) (a : Nat) : List NgTcpFragment :=
  conn.sent ++ (conn.stack.streams a).sndbuf.getD []

/-- What happens to a connection. -/
inductive Event
  | segment (mem : Nat → Bool) (seed : UInt32) (frame : Frame)
  | take
  | send

/-- The payloads that an event brings: the payload of a segment with `PSH`, when it is not
empty. -/
def Event.payloads : Event → List (List UInt8)
  | .segment _ _ frame => [frame.delivered].filter fun bytes => !bytes.isEmpty
  | .take | .send => []

/-- The next event of the connection of the stream at `a`: a segment in order, while
allocations succeed and `rcvbuf` has room, or a fragment leaves a ring. -/
inductive EventStep (rteIpv4UdptcpCksum : Frame → UInt16) (a : Nat) :
    Connection → Event → Connection → Prop
  | segment {conn : Connection} {mem : Nat → Bool} {seed : UInt32} {frame : Frame} {r : Int}
      {stack : Stack} (memory : ∀ n, mem n = true)
      (room : ∀ ring, (conn.stack.streams a).rcvbuf = some ring → ring.length < RING_SIZE - 1)
      (established : (conn.stack.streams a).status = .established)
      (inOrder : InOrder rteIpv4UdptcpCksum (conn.stack.streams a) frame)
      (returned : ngTcpProcess rteIpv4UdptcpCksum mem seed conn.stack frame = some (r, stack)) :
      EventStep rteIpv4UdptcpCksum a conn (.segment mem seed frame)
        { conn with stack := stack }
  | take {conn : Connection} {fragment : NgTcpFragment} {rest : List NgTcpFragment}
      (queued : (conn.stack.streams a).rcvbuf = some (fragment :: rest)) :
      EventStep rteIpv4UdptcpCksum a conn .take
        { conn with
          stack := conn.stack.setStream a { conn.stack.streams a with rcvbuf := some rest }
          taken := conn.taken ++ [fragment] }
  | send {conn : Connection} {fragment : NgTcpFragment} {rest : List NgTcpFragment}
      (queued : (conn.stack.streams a).sndbuf = some (fragment :: rest)) :
      EventStep rteIpv4UdptcpCksum a conn .send
        { conn with
          stack := conn.stack.setStream a { conn.stack.streams a with sndbuf := some rest }
          sent := conn.sent ++ [fragment] }

/-- The stream is found by its connection and has both rings. -/
structure Connected (a : Nat) (w : Stack) : Prop where
  /-- The search comes to the stream. -/
  found : ngTcpStreamSearch w (w.streams a).sip (w.streams a).dip (w.streams a).sport
    (w.streams a).dport = some a
  /-- It does not listen. -/
  connected : (w.streams a).status ≠ .listen
  /-- The ring of the fragments received. -/
  rcvbuf : ∃ ring, (w.streams a).rcvbuf = some ring
  /-- The ring of the fragments to send. -/
  sndbuf : ∃ ring, (w.streams a).sndbuf = some ring

/-- A stream that keeps its connection stays connected. -/
theorem Connected.setStream {a : Nat} {w : Stack} (connected : Connected a w)
    {stream : NgTcpStream} (sip : stream.sip = (w.streams a).sip)
    (dip : stream.dip = (w.streams a).dip) (sport : stream.sport = (w.streams a).sport)
    (dport : stream.dport = (w.streams a).dport) (status : stream.status ≠ .listen)
    (rcvbuf : ∃ ring, stream.rcvbuf = some ring) (sndbuf : ∃ ring, stream.sndbuf = some ring) :
    Connected a (w.setStream a stream) := by
  have here : (w.setStream a stream).streams a = stream := Function.update_self ..
  refine ⟨?_, ?_, ?_, ?_⟩
  · rw [here, sip, dip, sport, dport, ngTcpStreamSearch_setStream sip dip sport dport]
    · exact connected.found
    · exact ⟨fun listens => absurd listens status, fun listens => absurd listens connected.connected⟩
  · rw [here]
    exact status
  · rw [here]
    exact rcvbuf
  · rw [here]
    exact sndbuf

/-- What one segment does: `ng_tcp_process` returns, and this is how the stream changes. -/
theorem segment_spec {rteIpv4UdptcpCksum : Frame → UInt16} {a : Nat} {w : Stack}
    {mem : Nat → Bool} {seed : UInt32} {frame : Frame} (connected : Connected a w)
    (memory : ∀ n, mem n = true)
    (room : ∀ ring, (w.streams a).rcvbuf = some ring → ring.length < RING_SIZE - 1)
    (established : (w.streams a).status = .established)
    (inOrder : InOrder rteIpv4UdptcpCksum (w.streams a) frame) :
    ∃ stream, ngTcpProcess rteIpv4UdptcpCksum mem seed w frame = some (0, w.setStream a stream) ∧
      stream.rcvNxt = ntohl frame.sentSeq + UInt32.ofNat frame.delivered.length +
        (if frame.has RTE_TCP_FIN_FLAG then 1 else 0) ∧
      Extends (w.streams a) stream (Event.segment mem seed frame).payloads
        ((if frame.has RTE_TCP_PSH_FLAG then
            [ntohl frame.sentSeq + UInt32.ofNat frame.delivered.length] else []) ++
          if frame.has RTE_TCP_FIN_FLAG then [stream.rcvNxt] else []) ∧
      stream.status ≠ .listen := by
  obtain ⟨received, rcvbuf⟩ := connected.rcvbuf
  obtain ⟨sent, sndbuf⟩ := connected.sndbuf
  have range : frame.tcplen < 2 ^ 31 := by
    have bound := (ntohs frame.totalLength).toNat_lt
    unfold Frame.tcplen
    omega
  have taken : frame.clearCksum.pushed frame.tcplen = frame.delivered := by
    rw [Frame.pushed, payload_clearCksum inOrder.header, Frame.delivered, Frame.pushed]
    rfl
  obtain ⟨stream, handled, counted, status, extended⟩ :
      ∃ stream, ngTcpHandleEstablished mem (w.streams a) frame.clearCksum frame.tcplen =
        some (0, stream) ∧ _ :=
    ngTcpHandleEstablished_spec memory rcvbuf sndbuf (room received rcvbuf) range inOrder.inside
  rw [taken, ← inOrder.sequence] at counted extended
  refine ⟨stream, ?_, counted, extended, ?_⟩
  · rw [ngTcpProcess_established connected.found established inOrder, handled]
    rfl
  · rw [status]
    split
    · decide
    · rw [established]
      decide

/-- Every event keeps the connection, and adds the payloads that it brings to those
received. -/
theorem event_spec {rteIpv4UdptcpCksum : Frame → UInt16} {a : Nat} {conn next : Connection}
    {event : Event} (connected : Connected a conn.stack)
    (step : EventStep rteIpv4UdptcpCksum a conn event next) :
    Connected a next.stack ∧
      payloads (next.received a) = payloads (conn.received a) ++ event.payloads := by
  cases step with
  | segment memory room established inOrder returned =>
    obtain ⟨stream, result, _, extended, status⟩ :=
      segment_spec connected memory room established inOrder
    rw [result] at returned
    injection returned with returned
    injection returned with _ same
    subst same
    obtain ⟨sip, dip, sport, dport⟩ := extended.peer
    obtain ⟨ring, fragments, rcvbuf, rcvbuf', held⟩ := extended.received
    obtain ⟨sent, acks, _, sndbuf', _⟩ := extended.acknowledged
    refine ⟨connected.setStream sip dip sport dport status ⟨_, rcvbuf'⟩ ⟨_, sndbuf'⟩, ?_⟩
    have here : (conn.stack.setStream a stream).streams a = stream := Function.update_self ..
    simp only [Connection.received, here, rcvbuf, rcvbuf', Option.getD_some]
    rw [← List.append_assoc, payloads_append, held]
  | take queued =>
    refine ⟨connected.setStream rfl rfl rfl rfl connected.connected ⟨_, rfl⟩ connected.sndbuf, ?_⟩
    simp only [Connection.received, queued, Option.getD_some, Stack.setStream_streams,
      Function.update_self, List.append_assoc, List.singleton_append, Event.payloads,
      List.append_nil]
  | send queued =>
    refine ⟨connected.setStream rfl rfl rfl rfl connected.connected connected.rcvbuf ⟨_, rfl⟩, ?_⟩
    simp only [Connection.received, Stack.setStream_streams, Function.update_self,
      Event.payloads, List.append_nil]

/-- In every run of segments in order, whatever flags they have, the payloads queued are those of
the segments with `PSH`, in order. Each next segment is handled: `rcv_nxt` becomes its sequence
number and the length of the payload that was taken, and one more for `FIN`; and each
acknowledgement that it causes carries the `rcv_nxt` of its moment, the one for `PSH` without the
`FIN`, the one for `FIN` the final value. -/
theorem run_receives {rteIpv4UdptcpCksum : Frame → UInt16} {a : Nat} {stack : Stack}
    {received sent : List NgTcpFragment} {trace : List Event} {conn : Connection}
    (found : ngTcpStreamSearch stack (stack.streams a).sip (stack.streams a).dip
      (stack.streams a).sport (stack.streams a).dport = some a)
    (established : (stack.streams a).status = .established)
    (rcvbuf : (stack.streams a).rcvbuf = some received)
    (sndbuf : (stack.streams a).sndbuf = some sent)
    (run : Run (EventStep rteIpv4UdptcpCksum a) ⟨stack, [], []⟩ trace conn) :
    payloads (conn.received a) = payloads received ++ trace.flatMap Event.payloads ∧
    ∀ mem seed frame, (∀ n, mem n = true) →
      (∀ ring, (conn.stack.streams a).rcvbuf = some ring → ring.length < RING_SIZE - 1) →
      (conn.stack.streams a).status = .established →
      InOrder rteIpv4UdptcpCksum (conn.stack.streams a) frame →
      ∃ next, EventStep rteIpv4UdptcpCksum a conn (.segment mem seed frame) next ∧
      (next.stack.streams a).rcvNxt = ntohl frame.sentSeq + UInt32.ofNat frame.delivered.length +
        (if frame.has RTE_TCP_FIN_FLAG then 1 else 0) ∧
      ∃ acks due, next.answered a = conn.answered a ++ acks ∧
        due = (if frame.has RTE_TCP_PSH_FLAG then
            [ntohl frame.sentSeq + UInt32.ofNat frame.delivered.length] else []) ++
          (if frame.has RTE_TCP_FIN_FLAG then [(next.stack.streams a).rcvNxt] else []) ∧
        List.Sublist (acks.map NgTcpFragment.acknum) due ∧
        (((conn.stack.streams a).sndbuf.getD []).length + due.length ≤ RING_SIZE - 1 →
          acks.map NgTcpFragment.acknum = due) := by
  have start : Connected a stack :=
    ⟨found, by rw [established]; decide, ⟨_, rcvbuf⟩, ⟨_, sndbuf⟩⟩
  have inv : Connected a conn.stack ∧
      payloads (conn.received a) = payloads received ++ trace.flatMap Event.payloads := by
    induction run with
    | nil =>
      refine ⟨start, ?_⟩
      simp only [Connection.received, rcvbuf, Option.getD_some, List.nil_append,
        List.flatMap_nil, List.append_nil]
    | snoc _ taken ih =>
      obtain ⟨connected, balance⟩ := ih
      obtain ⟨kept, grown⟩ := event_spec connected taken
      refine ⟨kept, ?_⟩
      rw [grown, balance, List.flatMap_append, List.flatMap_singleton, List.append_assoc]
  refine ⟨inv.2, ?_⟩
  intro mem seed frame memory room established inOrder
  obtain ⟨stream, result, counted, extended, _⟩ :=
    segment_spec inv.1 memory room established inOrder
  have here : (conn.stack.setStream a stream).streams a = stream := Function.update_self ..
  obtain ⟨ring, acks, sndbuf, sndbuf', within, exact⟩ := extended.acknowledged
  refine ⟨_, EventStep.segment memory room established inOrder result, ?_⟩
  simp only [here]
  refine ⟨counted, acks, _, ?_, rfl, within, ?_⟩
  · simp only [Connection.answered, here, sndbuf, sndbuf', Option.getD_some, List.append_assoc]
  · rw [sndbuf]
    exact exact

/-- The stream of a connection from port 4000 of 192.168.0.1 to port 8888 of 192.168.0.119,
which awaits sequence number 100. -/
def awaiting : Stack :=
  { Stack.initial (fun _ => Localhost.zero)
      (fun _ =>
        { NgTcpStream.zero with
          fd := 4, sip := 0x0100A8C0, dip := 0x7700A8C0, sport := 0xA00F, dport := 0xB822
          rcvNxt := 100, status := .established, sndbuf := some [], rcvbuf := some [] }) [] with
    tcbSet := [0], fresh := 1, fdTable := Function.update (fun _ => 0) 0 0x18 }

/-- A segment of that connection with one byte of payload, with its flags and its checksum. -/
def oneByteSegment (flags high low byte : UInt8) : Frame := fun i =>
  ([0, 0, 0, 0, 0, 0, 0, 0, 0, 0, 0, 0, 0x08, 0x00,
    0x45, 0, 0, 41, 0, 0, 0, 0, 64, 6, 0xF9, 0x06, 192, 168, 0, 1, 192, 168, 0, 119,
    0x0F, 0xA0, 0x22, 0xB8, 0, 0, 0, 100, 0, 0, 0, 0, 0x50, flags, 0x39, 0x08, high, low, 0, 0,
    byte] : List UInt8).getD i 0

/-- The segment with the flags `PSH`, `FIN` and `ACK`. -/
def lastSegment : Frame := oneByteSegment 0x19 0x81 0x3D 0x41

/-- A segment with another byte and no flag but `ACK`. -/
def quietSegment : Frame := oneByteSegment 0x10 0x80 0x46 0x42

/-- The checksum of the two segments. -/
def segmentCksum (frame : Frame) : UInt16 := if frame.has RTE_TCP_PSH_FLAG then 0x3D81 else 0x4680

/-- The connection before its first segment. -/
def untouched : Connection := ⟨awaiting, [], []⟩

/-- The segment with `PSH` and `FIN` is handled. -/
theorem lastSegment_step : ∃ next,
    EventStep segmentCksum 0 untouched (.segment (fun _ => true) 0 lastSegment) next ∧
    (next.stack.streams 0).rcvNxt = 102 ∧
    (next.answered 0).map NgTcpFragment.acknum = [101, 102] := by
  refine ⟨_, EventStep.segment (fun _ => rfl) ?_ rfl ⟨by decide, by decide, by decide, by decide,
    by decide, by decide⟩ rfl, by decide, by decide⟩
  intro ring empty
  injection empty with empty
  rw [← empty]
  decide

/-- The segment without `PSH` is handled, and leaves the connection as it was. -/
theorem quietSegment_step :
    EventStep segmentCksum 0 untouched (.segment (fun _ => true) 0 quietSegment) untouched := by
  have same : awaiting.setStream 0 (awaiting.streams 0) = awaiting := by
    rw [Stack.setStream, Function.update_eq_self]
  have returned : ngTcpProcess segmentCksum (fun _ => true) 0 awaiting quietSegment =
      some (0, awaiting.setStream 0 (awaiting.streams 0)) := rfl
  rw [same] at returned
  refine @EventStep.segment segmentCksum 0 untouched _ _ _ _ _ (fun _ => rfl) ?_ rfl
    ⟨by decide, by decide, by decide, by decide, by decide, by decide⟩ returned
  intro ring empty
  injection empty with empty
  rw [← empty]
  decide

/-- A segment without `PSH`, and one with `PSH` and `FIN`. -/
theorem run_receives_last : ∃ trace conn,
    Run (EventStep segmentCksum 0) untouched trace conn ∧
    trace.flatMap Event.payloads = [[0x41]] ∧ payloads (conn.received 0) = [[0x41]] := by
  obtain ⟨next, step, _⟩ := lastSegment_step
  have run : Run (EventStep segmentCksum 0) untouched _ _ :=
    (Run.nil.snoc quietSegment_step).snoc step
  have rcvbuf : (awaiting.streams 0).rcvbuf = some [] := rfl
  have sndbuf : (awaiting.streams 0).sndbuf = some [] := rfl
  have received := (run_receives (by decide) rfl rcvbuf sndbuf run).1
  exact ⟨_, _, run, by decide, received.trans (by decide)⟩

/-- One segment with `PSH` and `FIN` queues an acknowledgement that does not carry the final
`rcv_nxt`; and the byte of a segment without `PSH` is neither queued nor counted. -/
theorem segment_acknowledges_less :
    ngTcpStreamSearch awaiting (awaiting.streams 0).sip (awaiting.streams 0).dip
      (awaiting.streams 0).sport (awaiting.streams 0).dport = some 0 ∧
    (awaiting.streams 0).status = .established ∧ (awaiting.streams 0).sndbuf = some [] ∧
    (∃ next, EventStep segmentCksum 0 untouched (.segment (fun _ => true) 0 lastSegment) next ∧
      ∃ ack ∈ next.answered 0, ack.acknum ≠ (next.stack.streams 0).rcvNxt) ∧
    ∃ next, EventStep segmentCksum 0 untouched (.segment (fun _ => true) 0 quietSegment) next ∧
      quietSegment.segment = [0x42] ∧ payloads (next.received 0) = [] ∧
      (next.stack.streams 0).rcvNxt ≠ ntohl quietSegment.sentSeq + 1 := by
  refine ⟨by decide, rfl, rfl, ?_, untouched, quietSegment_step, by decide, by decide, by decide⟩
  obtain ⟨next, step, counted, acknowledged⟩ := lastSegment_step
  have early : (101 : UInt32) ∈ (next.answered 0).map NgTcpFragment.acknum := by
    rw [acknowledged]
    decide
  obtain ⟨ack, queued, number⟩ := List.mem_map.mp early
  refine ⟨next, step, ack, queued, ?_⟩
  rw [number, counted]
  decide

end BackendCpp.Tcp
