import BackendCpp.Tcp.Descriptors
import Mathlib.Data.List.Find

/-!
# Transitions of the stack

What a received segment and the calls of the application can do to the stack, each said once.
A segment is ignored, opens a connection, completes one, is handled by an established one or
removes one that waits for its last `ACK`.
-/

namespace BackendCpp.Tcp

/-- Clearing the checksum keeps the total length. -/
@[simp] theorem clearCksum_totalLength (frame : Frame) :
    frame.clearCksum.totalLength = frame.totalLength := rfl

/-- Clearing the checksum keeps the flags. -/
@[simp] theorem clearCksum_has (frame : Frame) (flag : UInt8) :
    frame.clearCksum.has flag = frame.has flag := rfl

/-- What a connection is known by. -/
def NgTcpStream.tuple (stream : NgTcpStream) : UInt32 × UInt32 × UInt16 × UInt16 :=
  (stream.sip, stream.dip, stream.sport, stream.dport)

/-- A lookup of a stream by its addresses and ports. -/
theorem find_tuple {w : Stack} {sip dip : UInt32} {sport dport : UInt16} :
    (w.tcbSet.find? fun a => (w.streams a).sip = sip ∧ (w.streams a).dip = dip ∧
      (w.streams a).sport = sport ∧ (w.streams a).dport = dport) =
    w.tcbSet.find? fun a => (w.streams a).tuple = (sip, dip, sport, dport) := by
  apply List.find?_congr
  intro a _
  rw [decide_eq_decide, NgTcpStream.tuple, Prod.mk.injEq, Prod.mk.injEq, Prod.mk.injEq]

/-- The search ends at the stream of the connection or, when there is none, at a listener. -/
theorem ngTcpStreamSearch_some {w : Stack} {sip dip : UInt32} {sport dport : UInt16} {a : Nat}
    (found : ngTcpStreamSearch w sip dip sport dport = some a) :
    a ∈ w.tcbSet ∧ ((w.streams a).tuple = (sip, dip, sport, dport) ∨
      (w.streams a).status = .listen ∧ (w.streams a).dport = dport ∧
      ∀ b ∈ w.tcbSet, (w.streams b).tuple ≠ (sip, dip, sport, dport)) := by
  unfold ngTcpStreamSearch at found
  rw [find_tuple] at found
  cases connection : w.tcbSet.find?
      fun a => (w.streams a).tuple = (sip, dip, sport, dport) with
  | some b =>
    simp only [connection] at found
    rw [← Option.some.inj found]
    have test := List.find?_some connection
    exact ⟨List.mem_of_find?_eq_some connection, Or.inl (of_decide_eq_true test)⟩
  | none =>
    simp only [connection] at found
    have test := List.find?_some found
    have both := of_decide_eq_true test
    refine ⟨List.mem_of_find?_eq_some found, Or.inr ⟨both.2, both.1, ?_⟩⟩
    intro b member same
    rw [List.find?_eq_none] at connection
    exact connection b member (decide_eq_true same)

/-- The stream to which a frame belongs. -/
def Stack.receiver (w : Stack) (frame : Frame) : Option Nat :=
  ngTcpStreamSearch w frame.srcAddr frame.dstAddr frame.srcPort frame.dstPort

/-- The stack after a stream has been put at the head of `tcb_set`. -/
def Stack.push (w : Stack) (stream : NgTcpStream) : Stack :=
  { w.setStream w.fresh stream with tcbSet := w.fresh :: w.tcbSet, fresh := w.fresh + 1 }

/-- Streams on the list are not touched when one is pushed. -/
theorem push_streams {w : Stack} {stream : NgTcpStream} {a : Nat} (below : a < w.fresh) :
    (w.push stream).streams a = w.streams a :=
  Function.update_of_ne (Nat.ne_of_lt below) ..

/-- The new stream is at the fresh address. -/
theorem push_streams_fresh (w : Stack) (stream : NgTcpStream) :
    (w.push stream).streams w.fresh = stream := Function.update_self ..

/-- The stack after a stream has been removed. -/
def Stack.remove (w : Stack) (a : Nat) : Stack :=
  { w.setStream a { w.streams a with status := .closed } with tcbSet := w.tcbSet.erase a }

/-- The answer to a connection request. -/
def synAck (frame : Frame) (seed : UInt32) : NgTcpFragment :=
  { NgTcpFragment.zero with
    sport := frame.dstPort, dport := frame.srcPort, seqnum := seed
    acknum := ntohl frame.sentSeq + 1
    tcpFlags := RTE_TCP_SYN_FLAG ||| RTE_TCP_ACK_FLAG
    windows := TCP_INITIAL_WINDOW, hdrlenOff := 0x50, data := none, length := 0 }

/-- The stream of a connection request. -/
def requested (w : Stack) (frame : Frame) (seed : UInt32) : NgTcpStream :=
  { fd := -1, dip := frame.dstAddr, localmac := w.gSrcMac, dport := frame.dstPort
    sport := frame.srcPort, sip := frame.srcAddr, sndNxt := seed
    rcvNxt := ntohl frame.sentSeq + 1, status := .synRcvd
    sndbuf := some [synAck frame seed], rcvbuf := some [] }

/-- A ring holds as much as it has places. -/
def RingFits {α : Type} (ring : Option (List α)) : Prop :=
  ∀ items, ring = some items → items.length ≤ RING_SIZE - 1

/-- Queueing respects the size of the ring. -/
theorem ringEnqueue_fits {α : Type} {ring : Option (List α)} (fits : RingFits ring) (item : α) :
    RingFits (ringEnqueue ring item) := by
  intro items queued
  cases ring with
  | none => cases queued
  | some held =>
    have value : (if held.length < RING_SIZE - 1 then held ++ [item] else held) = items :=
      Option.some.inj queued
    rw [← value]
    split
    · rename_i room
      rw [List.length_append, List.length_singleton]
      exact room
    · exact fits held rfl

/-- How a branch of `ng_tcp_handle_established` answers a segment that acknowledges `acked`: the
next byte to send is the one that is acknowledged, and the answers carry its number. -/
structure Answers (acked : UInt32) (stream next : NgTcpStream) : Prop where
  /-- The descriptor stays. -/
  fd : next.fd = stream.fd
  /-- The connection stays. -/
  peer : next.sip = stream.sip ∧ next.dip = stream.dip ∧ next.sport = stream.sport ∧
    next.dport = stream.dport
  /-- What is sent next is what the peer expects. -/
  sndNxt : next.sndNxt = acked
  /-- The answers follow what was queued. -/
  sndbuf : ∃ acks : List NgTcpFragment, next.sndbuf = stream.sndbuf.map (· ++ acks) ∧
    ∀ ack ∈ acks, ack.seqnum = acked ∧ ack.length = 0
  /-- The ring does not grow beyond its size. -/
  fits : RingFits stream.sndbuf → RingFits next.sndbuf

/-- One branch after another. -/
theorem Answers.trans {acked : UInt32} {first second third : NgTcpStream}
    (one : Answers acked first second) (other : Answers acked second third) :
    Answers acked first third := by
  obtain ⟨acks, between, all⟩ := one.sndbuf
  obtain ⟨more, after, rest⟩ := other.sndbuf
  refine ⟨other.fd.trans one.fd, ?_, other.sndNxt, ⟨acks ++ more, ?_, ?_⟩,
    fun fits => other.fits (one.fits fits)⟩
  · exact ⟨other.peer.1.trans one.peer.1, other.peer.2.1.trans one.peer.2.1,
      other.peer.2.2.1.trans one.peer.2.2.1, other.peer.2.2.2.trans one.peer.2.2.2⟩
  · rw [after, between, Option.map_map]
    congr 1
    funext items
    exact List.append_assoc items acks more
  · intro ack member
    rcases List.mem_append.mp member with early | late
    · exact all ack early
    · exact rest ack late

/-- Queueing one fragment on a ring. -/
theorem ringEnqueue_append {ring : Option (List NgTcpFragment)} {fragment : NgTcpFragment}
    {items : List NgTcpFragment} (queued : ringEnqueue ring fragment = some items) :
    ∃ added : List NgTcpFragment, some items = ring.map (· ++ added) ∧
      ∀ f ∈ added, f = fragment := by
  cases ring with
  | none => cases queued
  | some held =>
    have value := Option.some.inj queued
    by_cases room : held.length < RING_SIZE - 1
    · refine ⟨[fragment], ?_, fun f member => List.mem_singleton.mp member⟩
      rw [← value]
      simp only [if_pos room, Option.map_some]
    · refine ⟨[], ?_, fun f member => absurd member List.not_mem_nil⟩
      rw [← value]
      simp only [if_neg room, Option.map_some, List.append_nil]

/-- `ng_tcp_enqueue_recvbuffer` only queues on `rcvbuf`. -/
theorem ngTcpEnqueueRecvbuffer_rcvbuf {mem : Nat → Bool} {stream next : NgTcpStream}
    {frame : Frame} {tcplen r : Int}
    (result : ngTcpEnqueueRecvbuffer mem stream frame tcplen = some (r, next)) :
    next = { stream with rcvbuf := next.rcvbuf } := by
  simp only [ngTcpEnqueueRecvbuffer] at result
  split at result
  · split at result
    · split at result
      · rw [Option.map_eq_some_iff] at result
        obtain ⟨ring, _, result⟩ := result
        injection result with _ result
        rw [← result]
      · injection result with result
        injection result with _ result
        rw [← result]
    · rw [Option.map_eq_some_iff] at result
      obtain ⟨ring, _, result⟩ := result
      injection result with _ result
      rw [← result]
  · injection result with result
    injection result with _ result
    rw [← result]

/-- `ng_tcp_send_ackpkt` answers with the numbers of the stream. -/
theorem ngTcpSendAckpkt_answers {mem : Nat → Bool} {stream next : NgTcpStream} {frame : Frame}
    {r : Int} (result : ngTcpSendAckpkt mem stream frame = some (r, next)) :
    Answers stream.sndNxt stream next ∧ next.status = stream.status := by
  unfold ngTcpSendAckpkt at result
  split at result
  · rw [Option.map_eq_some_iff] at result
    obtain ⟨ring, queued, result⟩ := result
    injection result with _ result
    rw [← result]
    obtain ⟨added, appended, all⟩ := ringEnqueue_append queued
    refine ⟨⟨rfl, ⟨rfl, rfl, rfl, rfl⟩, rfl, ⟨added, appended, ?_⟩, ?_⟩, rfl⟩
    · intro ack member
      rw [all ack member]
      exact ⟨rfl, rfl⟩
    · intro fits
      change RingFits (some ring)
      rw [← queued]
      exact ringEnqueue_fits fits _
  · injection result with result
    injection result with _ result
    rw [← result]
    refine ⟨⟨rfl, ⟨rfl, rfl, rfl, rfl⟩, rfl, ⟨[], ?_, ?_⟩, id⟩, rfl⟩
    · cases stream.sndbuf with
      | none => rfl
      | some items => rw [Option.map_some, List.append_nil]
    · intro ack member
      cases member

/-- The branch for `PSH` answers. -/
theorem establishedPsh_answers {mem : Nat → Bool} {stream next : NgTcpStream} {frame : Frame}
    {tcplen : Int} (result : establishedPsh mem stream frame tcplen = some next) :
    Answers (ntohl frame.recvAck) stream next ∧ next.status = stream.status := by
  simp only [establishedPsh, Option.bind_eq_some_iff, Option.map_eq_some_iff, Prod.exists] at result
  obtain ⟨_, queued, enqueue, _, answered, ack, same⟩ := result
  have kept := ngTcpEnqueueRecvbuffer_rcvbuf enqueue
  obtain ⟨answers, status⟩ := ngTcpSendAckpkt_answers ack
  rw [← same, kept] at *
  exact ⟨⟨answers.fd, answers.peer, answers.sndNxt, answers.sndbuf, answers.fits⟩, status⟩

/-- The branch for `FIN` answers. -/
theorem establishedFin_answers {mem : Nat → Bool} {stream next : NgTcpStream} {frame : Frame}
    (result : establishedFin mem stream frame = some next) :
    Answers (ntohl frame.recvAck) stream next ∧ next.status = .closeWait := by
  simp only [establishedFin, Option.bind_eq_some_iff, Option.map_eq_some_iff, Prod.exists] at result
  obtain ⟨_, queued, enqueue, _, answered, ack, same⟩ := result
  have kept := ngTcpEnqueueRecvbuffer_rcvbuf enqueue
  obtain ⟨answers, status⟩ := ngTcpSendAckpkt_answers ack
  rw [← same, kept] at *
  exact ⟨⟨answers.fd, answers.peer, answers.sndNxt, answers.sndbuf, answers.fits⟩, status⟩

/-- A segment without `PSH` and `FIN` leaves the stream as it is; the others are answered. -/
theorem ngTcpHandleEstablished_answers {mem : Nat → Bool} {stream next : NgTcpStream}
    {frame : Frame} {tcplen r : Int}
    (result : ngTcpHandleEstablished mem stream frame tcplen = some (r, next)) :
    (frame.has RTE_TCP_PSH_FLAG = false ∧ frame.has RTE_TCP_FIN_FLAG = false ∧ next = stream) ∨
    ((frame.has RTE_TCP_PSH_FLAG = true ∨ frame.has RTE_TCP_FIN_FLAG = true) ∧
      Answers (ntohl frame.recvAck) stream next ∧
      (next.status = stream.status ∨ next.status = .closeWait)) := by
  unfold ngTcpHandleEstablished at result
  simp only [Option.bind_eq_some_iff, Option.map_eq_some_iff] at result
  obtain ⟨middle, first, last, second, same⟩ := result
  injection same with _ same
  rw [same] at second
  split at first
  · rename_i psh
    obtain ⟨answers, status⟩ := establishedPsh_answers first
    right
    refine ⟨Or.inl psh, ?_⟩
    split at second
    · obtain ⟨more, closed⟩ := establishedFin_answers second
      exact ⟨answers.trans more, Or.inr closed⟩
    · rw [← Option.some.inj second]
      exact ⟨answers, Or.inl status⟩
  · rename_i psh
    rw [← Option.some.inj first] at second
    split at second
    · rename_i fin
      obtain ⟨answers, closed⟩ := establishedFin_answers second
      exact Or.inr ⟨Or.inr fin, answers, Or.inr closed⟩
    · rename_i fin
      left
      refine ⟨?_, ?_, (Option.some.inj second).symm⟩
      · rw [← Bool.not_eq_true]
        exact psh
      · rw [← Bool.not_eq_true]
        exact fin

/-- What a received segment does to the stack. -/
inductive Received (mem : Nat → Bool) (seed : UInt32) (w : Stack) (frame : Frame) : Stack → Prop
  | ignored : Received mem seed w frame w
  | opened {a : Nat} {rcvbuf : Option (List NgTcpFragment)} (found : w.receiver frame = some a)
      (listens : (w.streams a).status = .listen) (syn : frame.has RTE_TCP_SYN_FLAG = true)
      (ring : mem 2 = true → rcvbuf = some []) :
      Received mem seed w frame (w.push { requested w frame seed with rcvbuf := rcvbuf })
  | unanswered {a : Nat} {stream : NgTcpStream} (found : w.receiver frame = some a)
      (listens : (w.streams a).status = .listen) (syn : frame.has RTE_TCP_SYN_FLAG = true)
      (failed : mem 3 = false) (fd : stream.fd = -1) (status : stream.status = .listen) :
      Received mem seed w frame (w.push stream)
  | completed {a : Nat} (found : w.receiver frame = some a)
      (half : (w.streams a).status = .synRcvd) (ack : frame.has RTE_TCP_ACK_FLAG = true) :
      Received mem seed w frame (w.setStream a { w.streams a with status := .established })
  | handled {a : Nat} {stream : NgTcpStream} (found : w.receiver frame = some a)
      (status : (w.streams a).status = .established)
      (handled : ngTcpHandleEstablished mem (w.streams a) frame.clearCksum
        frame.clearCksum.tcplen = some (0, stream)) :
      Received mem seed w frame (w.setStream a stream)
  | removed {a : Nat} (found : w.receiver frame = some a)
      (status : (w.streams a).status = .lastAck) (ack : frame.has RTE_TCP_ACK_FLAG = true) :
      Received mem seed w frame (w.remove a)

/-- What is written twice to one stream is there once. -/
theorem push_setStream (w : Stack) (stream next : NgTcpStream) :
    (w.push stream).setStream w.fresh next = w.push next := by
  unfold Stack.push Stack.setStream
  simp only [Function.update_idem]

/-- A connection request puts one stream at the head of `tcb_set`. -/
theorem ngTcpHandleListen_received {mem : Nat → Bool} {seed : UInt32} {w next : Stack} {a : Nat}
    {frame : Frame} {r : Int} (found : w.receiver frame = some a)
    (result : ngTcpHandleListen mem seed w a frame.clearCksum = some (r, next)) :
    Received mem seed w frame next := by
  simp only [ngTcpHandleListen, clearCksum_has] at result
  have unchanged : some ((0 : Int), w) = some (r, next) → Received mem seed w frame next := by
    intro same
    injection same with same
    injection same with _ same
    rw [← same]
    exact Received.ignored
  split at result
  · rename_i syn
    split at result
    · rename_i listens
      rw [Option.bind_eq_some_iff] at result
      obtain ⟨stream, created, result⟩ := result
      unfold ngTcpStreamCreate at created
      split at created
      · have shape := (Option.some.inj created).symm
        split at result
        · rw [Option.map_eq_some_iff] at result
          obtain ⟨ring, queued, result⟩ := result
          injection result with _ result
          rw [← result]
          have answered : ring = [synAck frame seed] := by
            rw [shape] at queued
            by_cases memory : mem 1 = true
            · simp only [memory, if_true, ringEnqueue, Option.map_some] at queued
              exact (Option.some.inj queued).symm
            · simp only [if_neg memory, ringEnqueue, Option.map_none] at queued
              cases queued
          have opened := @Received.opened mem seed w frame a stream.rcvbuf found listens syn
            (by intro memory; rw [shape]; exact if_pos memory)
          rw [← push_setStream w stream] at opened
          rw [answered, shape]
          rw [shape] at opened
          exact opened
        · rename_i failed
          injection result with result
          injection result with _ result
          rw [← result]
          have refused : mem 3 = false := by
            rw [← Bool.not_eq_true]
            exact failed
          have unnamed : stream.fd = -1 := congrArg NgTcpStream.fd shape
          have waiting : stream.status = .listen := congrArg NgTcpStream.status shape
          exact Received.unanswered found listens syn refused unnamed waiting
      · cases created
    · exact unchanged result
  · exact unchanged result

/-- The last `ACK` of the handshake. -/
theorem ngTcpHandleSynRcvd_received {mem : Nat → Bool} {seed : UInt32} {w next : Stack} {a : Nat}
    {frame : Frame} {r : Int} (found : w.receiver frame = some a)
    (result : ngTcpHandleSynRcvd w a frame.clearCksum = some (r, next)) :
    Received mem seed w frame next := by
  simp only [ngTcpHandleSynRcvd, clearCksum_has] at result
  split at result
  · rename_i ack
    split at result
    · rename_i half
      rw [Option.map_eq_some_iff] at result
      obtain ⟨_, _, result⟩ := result
      injection result with _ result
      rw [← result]
      exact Received.completed found half ack
    · injection result with result
      injection result with _ result
      rw [← result]
      exact Received.ignored
  · injection result with result
    injection result with _ result
    rw [← result]
    exact Received.ignored

/-- The last `ACK` of a connection. -/
theorem ngTcpHandleLastAck_received {mem : Nat → Bool} {seed : UInt32} {w : Stack} {a : Nat}
    {frame : Frame} (found : w.receiver frame = some a) :
    Received mem seed w frame (ngTcpHandleLastAck w a frame.clearCksum).2 := by
  simp only [ngTcpHandleLastAck, clearCksum_has]
  split
  · rename_i ack
    split
    · rename_i status
      exact Received.removed found status ack
    · exact Received.ignored
  · exact Received.ignored

/-- `ng_tcp_process` does one of these. -/
theorem ngTcpProcess_received {rteIpv4UdptcpCksum : Frame → UInt16} {mem : Nat → Bool}
    {seed : UInt32} {w next : Stack} {frame : Frame} {r : Int}
    (result : ngTcpProcess rteIpv4UdptcpCksum mem seed w frame = some (r, next)) :
    Received mem seed w frame next := by
  have unchanged : ∀ answer : Int, some (answer, w) = some (r, next) →
      Received mem seed w frame next := by
    intro answer same
    injection same with same
    injection same with _ same
    rw [← same]
    exact Received.ignored
  simp only [ngTcpProcess] at result
  split at result
  · exact unchanged _ result
  · split at result
    · exact unchanged _ result
    · rename_i a found
      cases status : (w.streams a).status with
      | listen =>
        simp only [status, Option.map_eq_some_iff, Prod.exists] at result
        obtain ⟨answer, after, handled, result⟩ := result
        injection result with _ result
        rw [← result]
        exact ngTcpHandleListen_received found handled
      | synRcvd =>
        simp only [status, Option.map_eq_some_iff, Prod.exists] at result
        obtain ⟨answer, after, handled, result⟩ := result
        injection result with _ result
        rw [← result]
        exact ngTcpHandleSynRcvd_received found handled
      | established =>
        simp only [status, Option.map_eq_some_iff, Prod.exists] at result
        obtain ⟨answer, stream, handled, result⟩ := result
        injection result with _ result
        rw [← result]
        have zero : answer = 0 := by
          simp only [ngTcpHandleEstablished, Option.bind_eq_some_iff, Option.map_eq_some_iff]
            at handled
          obtain ⟨_, _, _, _, same⟩ := handled
          injection same with zero _
          exact zero.symm
        rw [zero] at handled
        exact Received.handled found status handled
      | lastAck =>
        rw [status] at result
        injection result with result
        injection result with _ result
        rw [← result]
        exact ngTcpHandleLastAck_received found
      | closed | synSent | finWait1 | finWait2 | closing | timeWait | closeWait =>
        rw [status] at result
        exact unchanged _ result

/-- A segment with a wrong checksum is dropped. -/
theorem ngTcpProcess_dropped {rteIpv4UdptcpCksum : Frame → UInt16} {mem : Nat → Bool}
    {seed : UInt32} {w next : Stack} {frame : Frame} {r : Int}
    (wrong : rteIpv4UdptcpCksum frame.clearCksum ≠ frame.cksum)
    (result : ngTcpProcess rteIpv4UdptcpCksum mem seed w frame = some (r, next)) : next = w := by
  simp only [ngTcpProcess, if_pos wrong] at result
  injection result with result
  injection result with _ result
  exact result.symm

/-- The fragment that `nclose` queues, in the memory `held`. -/
def finFragment (held : NgTcpFragment) (stream : NgTcpStream) : NgTcpFragment :=
  { held with
    data := none, length := 0, sport := stream.dport, dport := stream.sport
    seqnum := stream.sndNxt, acknum := stream.rcvNxt
    tcpFlags := RTE_TCP_FIN_FLAG ||| RTE_TCP_ACK_FLAG
    windows := TCP_INITIAL_WINDOW, hdrlenOff := 0x50 }

/-- What `nclose` does to the stack. -/
inductive Closes (memory : Option NgTcpFragment) (w : Stack) (fd : Int) : Stack → Prop
  | failed : Closes memory w fd w
  | host {a : Nat} {table : Nat → UInt8} {r : Int}
      (found : getHostinfoFromfd w fd = some (.host a))
      (cleared : setFdFrombitmap w.fdTable fd = some (r, table)) :
      Closes memory w fd { w with lhost := w.lhost.erase a, fdTable := table }
  | stream {a : Nat} {held : NgTcpFragment} {ring : List NgTcpFragment} {table : Nat → UInt8}
      {r : Int} (found : getHostinfoFromfd w fd = some (.stream a))
      (status : (w.streams a).status ≠ .listen) (block : memory = some held)
      (queued : ringEnqueue (w.streams a).sndbuf (finFragment held (w.streams a)) = some ring)
      (cleared : setFdFrombitmap w.fdTable fd = some (r, table)) :
      Closes memory w fd
        { w.setStream a { w.streams a with sndbuf := some ring, status := .lastAck } with
          fdTable := table }
  | listener {a : Nat} (found : getHostinfoFromfd w fd = some (.stream a))
      (listens : (w.streams a).status = .listen) :
      Closes memory w fd { w with tcbSet := w.tcbSet.erase a }

/-- `nclose` does one of these. -/
theorem nclose_closes {memory : Option NgTcpFragment} {w next : Stack} {fd r : Int}
    (result : nclose memory w fd = some (r, next)) : Closes memory w fd next := by
  have unchanged : ∀ answer : Int, some (answer, w) = some (r, next) →
      Closes memory w fd next := by
    intro answer same
    injection same with same
    injection same with _ same
    rw [← same]
    exact Closes.failed
  unfold nclose at result
  cases found : getHostinfoFromfd w fd with
  | none =>
    rw [found] at result
    exact unchanged _ result
  | some o =>
    cases o with
    | host a =>
      simp only [found, Option.map_eq_some_iff, Prod.exists] at result
      obtain ⟨answer, table, cleared, result⟩ := result
      injection result with _ result
      rw [← result]
      exact Closes.host found cleared
    | stream a =>
      simp only [found] at result
      split at result
      · rename_i status
        cases memory with
        | none => exact unchanged _ result
        | some held =>
          simp only [Option.bind_eq_some_iff, Option.map_eq_some_iff, Prod.exists] at result
          obtain ⟨ring, queued, answer, table, cleared, result⟩ := result
          injection result with _ result
          rw [← result]
          exact Closes.stream found status rfl queued cleared
      · rename_i status
        injection result with result
        injection result with _ result
        rw [← result]
        exact Closes.listener found (not_not.mp status)

/-- `naccept` fails or gives a descriptor to the stream that it finds. -/
theorem naccept_cases {w next : Stack} {sockfd fd : Int} {peer : Option (UInt32 × UInt16)}
    (result : naccept w sockfd = some (fd, peer, next)) :
    (fd = -1 ∧ next = w ∧ accepted w sockfd = none) ∨
    ∃ apt, accepted w sockfd = some apt ∧ apt ∈ w.tcbSet ∧ (w.streams apt).fd = -1 ∧
      fd = (getFdFrombitmap w.fdTable).1 ∧
      next = { w.setStream apt
        { w.streams apt with fd := (getFdFrombitmap w.fdTable).1 } with
        fdTable := (getFdFrombitmap w.fdTable).2 } := by
  have refused : some ((-1 : Int), (none : Option (UInt32 × UInt16)), w) =
      some (fd, peer, next) → fd = -1 ∧ next = w := by
    intro same
    injection same with same
    injection same with answer same
    injection same with _ same
    exact ⟨answer.symm, same.symm⟩
  unfold naccept at result
  unfold accepted
  cases found : getHostinfoFromfd w sockfd with
  | none =>
    rw [found] at result
    obtain ⟨answer, same⟩ := refused result
    exact Or.inl ⟨answer, same, rfl⟩
  | some o =>
    rw [found] at result
    cases o with
    | host a =>
      obtain ⟨answer, same⟩ := refused result
      exact Or.inl ⟨answer, same, rfl⟩
    | stream a =>
      simp only [Option.map_eq_some_iff] at result
      obtain ⟨apt, queued, result⟩ := result
      injection result with answer result
      injection result with _ result
      have test := List.find?_some queued
      have unnamed := (of_decide_eq_true test).2
      exact Or.inr ⟨apt, queued, List.mem_of_find?_eq_some queued, unnamed, answer.symm,
        result.symm⟩

end BackendCpp.Tcp
