import BackendCpp.Tcp.Segments
import BackendCpp.Tcp.Transitions

/-!
# Acknowledging what was stored

`ng_tcp_handle_established` counts the payload of a segment with `PSH` and acknowledges it
whether or not `ng_tcp_enqueue_recvbuffer` has put it on `rcvbuf`, which may want memory for the
fragment, memory for the data or a place on the ring. A segment with `FIN` and without `PSH` is
never stored, and the number by which `FIN` is acknowledged is the one of its first byte.
-/

namespace BackendCpp.Tcp

/-- Queueing on a ring: the item comes behind what is queued if there is room, else nothing
happens. -/
theorem ringEnqueue_cases {ring : Option (List NgTcpFragment)} {fragment : NgTcpFragment}
    {items : List NgTcpFragment} (queued : ringEnqueue ring fragment = some items) :
    ∃ held, ring = some held ∧
      ((held.length < RING_SIZE - 1 ∧ items = held ++ [fragment]) ∨
        (¬ held.length < RING_SIZE - 1 ∧ items = held)) := by
  cases ring with
  | none => cases queued
  | some held =>
    refine ⟨held, rfl, ?_⟩
    rw [ringEnqueue, Option.map_some] at queued
    split at queued
    · rename_i room
      exact Or.inl ⟨room, (Option.some.inj queued).symm⟩
    · rename_i full
      exact Or.inr ⟨full, (Option.some.inj queued).symm⟩

/-- A ring that takes one more. -/
def TakesMore (ring : Option (List NgTcpFragment)) : Prop :=
  ∃ held, ring = some held ∧ held.length < RING_SIZE - 1

/-- What has been queued on a ring behind what it held. -/
def Added (ring next : Option (List NgTcpFragment)) (added : List NgTcpFragment) : Prop :=
  ∃ held, ring = some held ∧ next = some (held ++ added)

/-- What has been queued is one list. -/
theorem Added.unique {ring next : Option (List NgTcpFragment)} {added other : List NgTcpFragment}
    (one : Added ring next added) (two : Added ring next other) : added = other := by
  obtain ⟨held, start, stop⟩ := one
  obtain ⟨held', start', stop'⟩ := two
  rw [start, Option.some.injEq] at start'
  rw [stop, start', Option.some.injEq] at stop'
  exact List.append_cancel_left stop'

/-- What two steps queue, one after the other. -/
theorem Added.append {first second third : Option (List NgTcpFragment)}
    {added more : List NgTcpFragment} (one : Added first second added)
    (other : Added second third more) : Added first third (added ++ more) := by
  obtain ⟨held, start, middle⟩ := one
  obtain ⟨held', middle', stop⟩ := other
  rw [middle, Option.some.injEq] at middle'
  refine ⟨held, start, ?_⟩
  rw [stop, ← middle', List.append_assoc]

/-- Queueing one fragment adds it or, when the ring is full, nothing. -/
theorem ringEnqueue_added {ring : Option (List NgTcpFragment)} {fragment : NgTcpFragment}
    {items : List NgTcpFragment} (queued : ringEnqueue ring fragment = some items) :
    (TakesMore ring ∧ Added ring (some items) [fragment]) ∨
    (¬ TakesMore ring ∧ ring = some items) := by
  obtain ⟨held, start, ⟨room, appended⟩ | ⟨full, same⟩⟩ := ringEnqueue_cases queued
  · exact Or.inl ⟨⟨held, start, room⟩, held, start, congrArg some appended⟩
  · refine Or.inr ⟨?_, by rw [start, same]⟩
    rintro ⟨held', start', room⟩
    rw [start, Option.some.injEq] at start'
    rw [start'] at full
    exact full room

/-- The payload is empty just when its length is not positive. -/
theorem payload_eq_nil {frame : Frame} {tcplen : Int} :
    frame.payload tcplen = [] ↔ ¬ (0 : Int) < tcplen - (frame.dataOff >>> 4).toNat * 4 := by
  rw [Frame.payload, copyBytes, List.map_eq_nil_iff, List.range_eq_nil]
  omega

/-- The fragment that `ng_tcp_enqueue_recvbuffer` queues. -/
def rfragment (frame : Frame) (tcplen : Int) : NgTcpFragment :=
  { NgTcpFragment.zero with
    dport := ntohs frame.dstPort, sport := ntohs frame.srcPort
    data := if frame.payload tcplen = [] then none else some (frame.payload tcplen ++ [0])
    length := UInt32.ofNat (frame.payload tcplen).length }

/-- It holds the payload. -/
theorem rfragment_bytes {frame : Frame} {tcplen : Int} (range : tcplen < 2 ^ 31) :
    (rfragment frame tcplen).bytes = frame.payload tcplen := by
  have size : (frame.payload tcplen).length < 2 ^ 32 := by
    rw [Frame.payload, copyBytes, List.length_map, List.length_range]
    omega
  by_cases empty : frame.payload tcplen = []
  · rw [NgTcpFragment.bytes, rfragment, empty]
    rfl
  · simp only [NgTcpFragment.bytes, rfragment, if_neg empty, Option.getD_some,
      UInt32.toNat_ofNat', Nat.mod_eq_of_lt size]
    exact List.take_left

/-- Whether `ng_tcp_enqueue_recvbuffer` has the memory that it asks for. -/
def HasMemory (mem : Nat → Bool) (payload : List UInt8) : Prop :=
  mem 0 = true ∧ (payload ≠ [] → mem 1 = true)

/-- With memory `ng_tcp_enqueue_recvbuffer` queues the fragment. -/
theorem ngTcpEnqueueRecvbuffer_stored {mem : Nat → Bool} {frame : Frame} {tcplen : Int}
    (memory : HasMemory mem (frame.payload tcplen)) (stream : NgTcpStream) :
    ngTcpEnqueueRecvbuffer mem stream frame tcplen =
      (ringEnqueue stream.rcvbuf (rfragment frame tcplen)).map fun ring =>
        (0, { stream with rcvbuf := some ring }) := by
  by_cases empty : frame.payload tcplen = []
  · have value : rfragment frame tcplen = { NgTcpFragment.zero with
        dport := ntohs frame.dstPort, sport := ntohs frame.srcPort } := by
      rw [rfragment, empty]
      rfl
    simp only [ngTcpEnqueueRecvbuffer, memory.1, if_true, if_neg (payload_eq_nil.mp empty), value]
  · have positive : (0 : Int) < tcplen - (frame.dataOff >>> 4).toNat * 4 :=
      not_not.mp fun less => empty (payload_eq_nil.mpr less)
    have size : (frame.payload tcplen).length =
        (tcplen - (frame.dataOff >>> 4).toNat * 4).toNat := by
      rw [Frame.payload, copyBytes, List.length_map, List.length_range]
    have value : rfragment frame tcplen = { NgTcpFragment.zero with
        dport := ntohs frame.dstPort, sport := ntohs frame.srcPort
        data := some (frame.payload tcplen ++ [0])
        length := UInt32.ofNat (tcplen - (frame.dataOff >>> 4).toNat * 4).toNat } := by
      rw [rfragment, if_neg empty, size]
    simp only [ngTcpEnqueueRecvbuffer, memory.1, memory.2 empty, if_true, if_pos positive, value]
    rfl

/-- Without memory it does nothing. -/
theorem ngTcpEnqueueRecvbuffer_refused {mem : Nat → Bool} {frame : Frame} {tcplen : Int}
    (memory : ¬ HasMemory mem (frame.payload tcplen)) (stream : NgTcpStream) :
    ngTcpEnqueueRecvbuffer mem stream frame tcplen = some (-1, stream) := by
  unfold ngTcpEnqueueRecvbuffer
  by_cases first : mem 0 = true
  · rw [HasMemory, not_and, Classical.not_imp] at memory
    obtain ⟨nonempty, second⟩ := memory first
    have positive : (0 : Int) < tcplen - (frame.dataOff >>> 4).toNat * 4 :=
      not_not.mp fun less => nonempty (payload_eq_nil.mpr less)
    simp only [first, if_true, if_pos positive, if_neg second]
  · simp only [if_neg first]

/-- The payload is stored when there is memory and a place for it; else nothing happens. -/
theorem ngTcpEnqueueRecvbuffer_outcome {mem : Nat → Bool} {stream next : NgTcpStream}
    {frame : Frame} {tcplen r : Int}
    (result : ngTcpEnqueueRecvbuffer mem stream frame tcplen = some (r, next)) :
    (HasMemory mem (frame.payload tcplen) ∧ TakesMore stream.rcvbuf ∧
      Added stream.rcvbuf next.rcvbuf [rfragment frame tcplen]) ∨
    (¬ (HasMemory mem (frame.payload tcplen) ∧ TakesMore stream.rcvbuf) ∧ next = stream) := by
  by_cases memory : HasMemory mem (frame.payload tcplen)
  · rw [ngTcpEnqueueRecvbuffer_stored memory, Option.map_eq_some_iff] at result
    obtain ⟨ring, queued, result⟩ := result
    injection result with _ result
    rcases ringEnqueue_added queued with ⟨room, added⟩ | ⟨full, same⟩
    · rw [← result]
      exact Or.inl ⟨memory, room, added⟩
    · refine Or.inr ⟨fun stored => full stored.2, ?_⟩
      rw [← result, ← same]
  · rw [ngTcpEnqueueRecvbuffer_refused memory, Option.some.injEq, Prod.mk.injEq] at result
    exact Or.inr ⟨fun stored => memory stored.1, result.2.symm⟩

/-- The acknowledgement is queued when there is memory and a place for it; else nothing
happens. -/
theorem ngTcpSendAckpkt_outcome {mem : Nat → Bool} {stream next : NgTcpStream} {frame : Frame}
    {r : Int} (result : ngTcpSendAckpkt mem stream frame = some (r, next)) :
    (mem 0 = true ∧ TakesMore stream.sndbuf ∧
      next = { stream with sndbuf := next.sndbuf } ∧
      Added stream.sndbuf next.sndbuf [ackfrag stream frame]) ∨
    (¬ (mem 0 = true ∧ TakesMore stream.sndbuf) ∧ next = stream) := by
  unfold ngTcpSendAckpkt at result
  by_cases memory : mem 0 = true
  · rw [if_pos memory, Option.map_eq_some_iff] at result
    obtain ⟨ring, queued, result⟩ := result
    injection result with _ result
    rcases ringEnqueue_added queued with ⟨room, added⟩ | ⟨full, same⟩
    · rw [← result]
      exact Or.inl ⟨memory, room, rfl, added⟩
    · refine Or.inr ⟨fun sent => full sent.2, ?_⟩
      rw [← result, ← same]
  · rw [if_neg memory, Option.some.injEq, Prod.mk.injEq] at result
    exact Or.inr ⟨fun sent => memory sent.1, result.2.symm⟩

/-- What a branch of `ng_tcp_handle_established` does: it stores `bytes` if it can, counts
`counted` in any case, and acknowledges what it has counted if it can. -/
structure Outcome (stream next : NgTcpStream) (stored : Prop) (bytes : List UInt8)
    (counted : UInt32) (answered : Prop) : Prop where
  /-- The count. -/
  rcvNxt : next.rcvNxt = stream.rcvNxt + counted
  /-- What is stored. -/
  rcvbuf : (stored ∧ ∃ fragment : NgTcpFragment, fragment.bytes = bytes ∧
      Added stream.rcvbuf next.rcvbuf [fragment]) ∨
    (¬ stored ∧ next.rcvbuf = stream.rcvbuf)
  /-- What is acknowledged. -/
  sndbuf : (answered ∧ ∃ ack : NgTcpFragment, ack.acknum = stream.rcvNxt + counted ∧
      Added stream.sndbuf next.sndbuf [ack]) ∨
    (¬ answered ∧ next.sndbuf = stream.sndbuf)

/-- Both branches store, count and acknowledge. -/
theorem outcome_of_calls {mem : Nat → Bool} {stream stored next : NgTcpStream} {frame : Frame}
    {tcplen r r' : Int} {counted sndNxt : UInt32} (range : tcplen < 2 ^ 31)
    (enqueue : ngTcpEnqueueRecvbuffer mem stream frame tcplen = some (r, stored))
    (answer : ngTcpSendAckpkt (fun n => mem (2 + n))
      { stored with rcvNxt := stored.rcvNxt + counted, sndNxt := sndNxt } frame =
        some (r', next)) :
    Outcome stream next (HasMemory mem (frame.payload tcplen) ∧ TakesMore stream.rcvbuf)
      (frame.payload tcplen) counted (mem 2 = true ∧ TakesMore stream.sndbuf) := by
  have kept := ngTcpEnqueueRecvbuffer_rcvbuf enqueue
  have rcvNxt : stored.rcvNxt = stream.rcvNxt := by rw [kept]
  have sndbuf : stored.sndbuf = stream.sndbuf := by rw [kept]
  have received : (HasMemory mem (frame.payload tcplen) ∧ TakesMore stream.rcvbuf ∧
        ∃ fragment : NgTcpFragment, fragment.bytes = frame.payload tcplen ∧
          Added stream.rcvbuf stored.rcvbuf [fragment]) ∨
      (¬ (HasMemory mem (frame.payload tcplen) ∧ TakesMore stream.rcvbuf) ∧
        stored.rcvbuf = stream.rcvbuf) := by
    rcases ngTcpEnqueueRecvbuffer_outcome enqueue with ⟨memory, room, added⟩ | ⟨failed, same⟩
    · exact Or.inl ⟨memory, room, _, rfragment_bytes range, added⟩
    · exact Or.inr ⟨failed, by rw [same]⟩
  rcases ngTcpSendAckpkt_outcome answer with ⟨memory, room, shape, added⟩ | ⟨failed, same⟩
  · rw [shape]
    refine ⟨?_, ?_, Or.inl ⟨⟨memory, sndbuf ▸ room⟩, _, ?_, sndbuf ▸ added⟩⟩
    · exact congrArg (· + counted) rcvNxt
    · simpa only [and_assoc] using received
    · exact congrArg (· + counted) rcvNxt
  · rw [same]
    refine ⟨?_, ?_, Or.inr ⟨fun sent => failed ⟨sent.1, ?_⟩, sndbuf⟩⟩
    · exact congrArg (· + counted) rcvNxt
    · simpa only [and_assoc] using received
    · exact sndbuf.symm ▸ sent.2

/-- The branch for `PSH` counts the payload. -/
theorem establishedPsh_outcome {mem : Nat → Bool} {stream next : NgTcpStream} {frame : Frame}
    {tcplen : Int} (range : tcplen < 2 ^ 31)
    (result : establishedPsh mem stream frame tcplen = some next) :
    Outcome stream next (HasMemory mem (frame.payload tcplen) ∧ TakesMore stream.rcvbuf)
      (frame.payload tcplen) (UInt32.ofInt (tcplen - (frame.dataOff >>> 4).toNat * 4))
      (mem 2 = true ∧ TakesMore stream.sndbuf) := by
  simp only [establishedPsh, Option.bind_eq_some_iff, Option.map_eq_some_iff, Prod.exists] at result
  obtain ⟨_, stored, enqueue, _, answered, answer, same⟩ := result
  rw [← same]
  exact outcome_of_calls range enqueue answer

/-- The branch for `FIN` finds no payload and counts one. -/
theorem establishedFin_outcome {mem : Nat → Bool} {stream next : NgTcpStream} {frame : Frame}
    (result : establishedFin mem stream frame = some next) :
    ∃ stored, Outcome stream next stored [] 1 (mem 2 = true ∧ TakesMore stream.sndbuf) := by
  simp only [establishedFin, Option.bind_eq_some_iff, Option.map_eq_some_iff, Prod.exists] at result
  obtain ⟨_, stored, enqueue, _, answered, answer, same⟩ := result
  have small : (frame.dataOff >>> 4).toNat < 256 := UInt8.toNat_lt _
  have empty : frame.payload (frame.dataOff >>> 4).toNat = [] := payload_eq_nil.mpr (by omega)
  have outcome := outcome_of_calls (by omega) enqueue answer
  rw [empty, same] at outcome
  exact ⟨_, outcome.rcvNxt, outcome.rcvbuf, outcome.sndbuf⟩

/-- A fragment with the payload has been placed on `rcvbuf`. -/
def Placed (stream next : NgTcpStream) (payload : List UInt8) : Prop :=
  ∃ added, Added stream.rcvbuf next.rcvbuf added ∧ ∃ fragment ∈ added, fragment.bytes = payload

/-- A fragment that acknowledges a byte behind those that have been received. -/
def Acknowledges (stream : NgTcpStream) (payload : List UInt8) (ack : NgTcpFragment) : Prop :=
  ∃ j, 1 ≤ j ∧ j ≤ payload.length ∧ ack.acknum = stream.rcvNxt + UInt32.ofNat j

/-- If the payload of a segment has not been placed on `rcvbuf`, then `rcv_nxt` counts `FIN`
only and no byte of the payload is acknowledged. -/
def Honest (stream next : NgTcpStream) (frame : Frame) : Prop :=
  frame.segment ≠ [] → ¬ Placed stream next frame.segment →
    next.rcvNxt = stream.rcvNxt + (if frame.has RTE_TCP_FIN_FLAG then 1 else 0) ∧
    ∀ added, Added stream.sndbuf next.sndbuf added →
      ∀ ack ∈ added, ¬ Acknowledges stream frame.segment ack

/-- When the handler is honest about a segment: there is nothing to store, or it is stored, or
it is ignored, or there is no answer to it. -/
def Sound (mem : Nat → Bool) (stream : NgTcpStream) (frame : Frame) : Prop :=
  frame.segment = [] ∨
  (frame.has RTE_TCP_PSH_FLAG = true ∧ HasMemory mem frame.segment ∧ TakesMore stream.rcvbuf) ∨
  (frame.has RTE_TCP_PSH_FLAG = false ∧
    (frame.has RTE_TCP_FIN_FLAG = true → ¬ (mem 5 = true ∧ TakesMore stream.sndbuf)))

/-- What has been queued on a ring that stays the same is nothing. -/
theorem Added.nil {ring : Option (List NgTcpFragment)} {added : List NgTcpFragment}
    (same : Added ring ring added) : added = [] := by
  obtain ⟨held, start, stop⟩ := same
  rw [start, Option.some.injEq] at stop
  exact List.append_right_eq_self.mp stop.symm

/-- The branch for `FIN` places no payload. -/
theorem Outcome.unplaced {stream next : NgTcpStream} {stored answered : Prop} {counted : UInt32}
    {payload : List UInt8} (outcome : Outcome stream next stored [] counted answered)
    (nonempty : payload ≠ []) : ¬ Placed stream next payload := by
  rintro ⟨added, queued, fragment, member, bytes⟩
  rcases outcome.rcvbuf with ⟨_, last, empty, one⟩ | ⟨_, same⟩
  · rw [queued.unique one, List.mem_singleton] at member
    rw [← bytes, member] at nonempty
    exact nonempty empty
  · rw [same] at queued
    rw [queued.nil] at member
    cases member

/-- It leaves what has been placed. -/
theorem Outcome.placed {stream middle next : NgTcpStream} {stored answered : Prop}
    {counted : UInt32} {bytes payload : List UInt8}
    (outcome : Outcome middle next stored bytes counted answered)
    (placed : Placed stream middle payload) : Placed stream next payload := by
  obtain ⟨added, queued, fragment, member, same⟩ := placed
  rcases outcome.rcvbuf with ⟨_, last, _, one⟩ | ⟨_, kept⟩
  · exact ⟨added ++ [last], queued.append one, fragment, List.mem_append_left _ member, same⟩
  · exact ⟨added, kept ▸ queued, fragment, member, same⟩

/-- The number of bytes that is counted for a payload. -/
theorem counted_eq {frame : Frame} (nonempty : frame.segment ≠ []) :
    UInt32.ofInt (frame.tcplen - (frame.dataOff >>> 4).toNat * 4) =
      UInt32.ofNat frame.segment.length ∧ frame.segment.length < 2 ^ 16 := by
  have positive : (0 : Int) < frame.tcplen - (frame.dataOff >>> 4).toNat * 4 :=
    not_not.mp fun less => nonempty (payload_eq_nil.mpr less)
  have small : (ntohs frame.totalLength).toNat < 2 ^ 16 := UInt16.toNat_lt _
  have size : frame.segment.length = (frame.tcplen - (frame.dataOff >>> 4).toNat * 4).toNat := by
    rw [Frame.segment, Frame.payload, copyBytes, List.length_map, List.length_range]
  have top : frame.tcplen < 2 ^ 16 := by
    unfold Frame.tcplen
    omega
  refine ⟨?_, by omega⟩
  rw [size, UInt32.ofInt, Int.emod_eq_of_lt (by omega) (by omega)]

/-- Counting a payload that was not stored is not honest. -/
theorem not_honest_of_counted {stream next : NgTcpStream} {frame : Frame}
    (nonempty : frame.segment ≠ []) (unplaced : ¬ Placed stream next frame.segment)
    (counted : next.rcvNxt = stream.rcvNxt +
      UInt32.ofInt (frame.tcplen - (frame.dataOff >>> 4).toNat * 4) +
      (if frame.has RTE_TCP_FIN_FLAG then 1 else 0)) : ¬ Honest stream next frame := by
  intro honest
  obtain ⟨value, small⟩ := counted_eq nonempty
  have same := (honest nonempty unplaced).1
  rw [counted, value, UInt32.add_assoc, UInt32.add_right_inj, UInt32.add_eq_right,
    ← UInt32.toNat_inj, UInt32.toNat_ofNat', Nat.mod_eq_of_lt (by omega)] at same
  exact nonempty (List.eq_nil_of_length_eq_zero same)

/-- The last step of the handler, with or without `FIN`. -/
theorem lastBranch_outcome {mem : Nat → Bool} {stream next : NgTcpStream} {frame : Frame}
    (result : (if frame.has RTE_TCP_FIN_FLAG then establishedFin (fun n => mem (3 + n)) stream frame
      else some stream) = some next) :
    ∃ stored, Outcome stream next stored [] (if frame.has RTE_TCP_FIN_FLAG then 1 else 0)
      (frame.has RTE_TCP_FIN_FLAG = true ∧ mem 5 = true ∧ TakesMore stream.sndbuf) := by
  cases flag : frame.has RTE_TCP_FIN_FLAG with
  | true =>
    rw [flag, if_pos rfl] at result
    obtain ⟨stored, outcome⟩ := establishedFin_outcome result
    refine ⟨stored, outcome.rcvNxt, outcome.rcvbuf, ?_⟩
    simp only [true_and, if_true]
    exact outcome.sndbuf
  | false =>
    simp only [flag, Bool.false_eq_true, if_false, Option.some.injEq] at result
    rw [← result]
    refine ⟨False, ?_, Or.inr ⟨not_false, rfl⟩, Or.inr ⟨fun sent => ?_, rfl⟩⟩
    · exact (UInt32.add_zero _).symm
    · exact Bool.noConfusion sent.1

/-- A segment with `PSH` is handled honestly just when its payload is stored. -/
theorem honest_iff_stored {mem : Nat → Bool} {stream middle next : NgTcpStream} {frame : Frame}
    (nonempty : frame.segment ≠ [])
    (psh : establishedPsh mem stream frame frame.tcplen = some middle)
    (last : (if frame.has RTE_TCP_FIN_FLAG then establishedFin (fun n => mem (3 + n)) middle frame
      else some middle) = some next) :
    Honest stream next frame ↔ HasMemory mem frame.segment ∧ TakesMore stream.rcvbuf := by
  have range : frame.tcplen < 2 ^ 31 := by
    have small : (ntohs frame.totalLength).toNat < 2 ^ 16 := UInt16.toNat_lt _
    unfold Frame.tcplen
    omega
  have first := establishedPsh_outcome range psh
  obtain ⟨_, second⟩ := lastBranch_outcome last
  rcases first.rcvbuf with ⟨stored, fragment, bytes, added⟩ | ⟨failed, same⟩
  · refine iff_of_true (fun _ unplaced => absurd ?_ unplaced) stored
    exact second.placed ⟨[fragment], added, fragment, List.mem_singleton_self _, bytes⟩
  · refine iff_of_false (not_honest_of_counted nonempty ?_ ?_) failed
    · have unplaced := second.unplaced nonempty
      rwa [Placed, same] at unplaced
    · rw [second.rcvNxt, first.rcvNxt]

/-- A segment without `PSH` is handled honestly just when no answer to its `FIN` goes out. -/
theorem honest_iff_unanswered {mem : Nat → Bool} {stream next : NgTcpStream} {frame : Frame}
    (nonempty : frame.segment ≠ [])
    (last : (if frame.has RTE_TCP_FIN_FLAG then establishedFin (fun n => mem (3 + n)) stream frame
      else some stream) = some next) :
    Honest stream next frame ↔
      (frame.has RTE_TCP_FIN_FLAG = true → ¬ (mem 5 = true ∧ TakesMore stream.sndbuf)) := by
  obtain ⟨_, outcome⟩ := lastBranch_outcome last
  have unplaced := outcome.unplaced nonempty
  rcases outcome.sndbuf with ⟨answered, ack, number, added⟩ | ⟨unanswered, same⟩
  · refine iff_of_false (fun honest => ?_) fun silent => silent answered.1 answered.2
    have covered := (honest nonempty unplaced).2 _ added ack (List.mem_singleton_self _)
    rw [if_pos answered.1] at number
    exact covered ⟨1, le_rfl, List.length_pos_of_ne_nil nonempty, number⟩
  · refine iff_of_true (fun _ _ => ⟨outcome.rcvNxt, ?_⟩) fun flag sent => unanswered ⟨flag, sent⟩
    intro added queued ack member
    rw [same] at queued
    rw [queued.nil] at member
    cases member

/-- `ng_tcp_handle_established` acknowledges nothing that it has dropped just when the payload is
stored, or there is none, or nothing is counted and acknowledged. -/
theorem honest_iff {mem : Nat → Bool} {stream next : NgTcpStream} {frame : Frame} {r : Int}
    (handled : ngTcpHandleEstablished mem stream frame frame.tcplen = some (r, next)) :
    Honest stream next frame ↔ Sound mem stream frame := by
  unfold ngTcpHandleEstablished at handled
  simp only [Option.bind_eq_some_iff, Option.map_eq_some_iff] at handled
  obtain ⟨middle, first, _, last, same⟩ := handled
  injection same with _ same
  rw [same] at last
  unfold Sound
  by_cases empty : frame.segment = []
  · exact iff_of_true (fun nonempty => absurd empty nonempty) (Or.inl empty)
  · cases psh : frame.has RTE_TCP_PSH_FLAG with
    | true =>
      rw [psh, if_pos rfl] at first
      rw [honest_iff_stored empty first last]
      simp only [empty, Bool.true_eq_false, false_and, true_and, or_false, false_or]
    | false =>
      simp only [psh, Bool.false_eq_true, if_false, Option.some.injEq] at first
      rw [← first] at last
      rw [honest_iff_unanswered empty last]
      simp only [empty, Bool.false_eq_true, false_and, true_and, false_or]

/-- A segment that is stored. -/
theorem honest_iff_last : ∃ next,
    ngTcpHandleEstablished (fun _ => true) (awaiting.streams 0) lastSegment lastSegment.tcplen =
      some (0, next) ∧ Honest (awaiting.streams 0) next lastSegment := by
  obtain ⟨next, handled⟩ : ∃ next, ngTcpHandleEstablished (fun _ => true) (awaiting.streams 0)
      lastSegment lastSegment.tcplen = some (0, next) := ⟨_, rfl⟩
  refine ⟨next, handled, (honest_iff handled).mpr (Or.inr (Or.inl ⟨by decide, ?_, ?_⟩))⟩
  · exact ⟨rfl, fun _ => rfl⟩
  · exact ⟨[], rfl, by decide⟩

/-- Without memory for the fragments the payload is lost, and yet counted and acknowledged. -/
theorem dropped_segment_acknowledged : ∃ next,
    ngTcpHandleEstablished (fun n => decide (n ≠ 0 ∧ n ≠ 3)) (awaiting.streams 0) lastSegment
      lastSegment.tcplen = some (0, next) ∧
    lastSegment.segment = [0x41] ∧ ¬ Placed (awaiting.streams 0) next lastSegment.segment ∧
    (awaiting.streams 0).rcvNxt = 100 ∧ next.rcvNxt = 102 ∧
    next.sndbuf.map (List.map NgTcpFragment.acknum) = some [101, 102] := by
  refine ⟨_, rfl, by decide, ?_, rfl, by decide, by decide⟩
  rintro ⟨added, queued, fragment, member, _⟩
  have nothing : added = [] := queued.unique ⟨[], rfl, rfl⟩
  rw [nothing] at member
  cases member

end BackendCpp.Tcp
