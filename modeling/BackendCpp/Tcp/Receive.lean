import BackendCpp.Tcp.Sockets
import BackendCpp.Library.Run
import Mathlib.Data.List.GetD

/-!
# Reading a stream

Payloads come onto the ring of a stream through `ng_tcp_enqueue_recvbuffer` and leave it
through `nrecv`. A read that takes a whole fragment, or the first half of the only fragment,
hands the bytes on in order. Every other read loses bytes, invents some or changes their
order: `nrecv` returns how many bytes remain, not how many it copied, and puts the remainder
behind what arrived later.
-/

namespace BackendCpp.Tcp

open BackendCpp.Library

/-- The bytes of a fragment. -/
def NgTcpFragment.bytes (fragment : NgTcpFragment) : List UInt8 :=
  (fragment.data.getD []).take fragment.length.toNat

/-- A fragment that holds at least one byte, and as many as it says. -/
def NgTcpFragment.Holds (fragment : NgTcpFragment) : Prop :=
  0 < fragment.length.toNat ∧
  ∃ data, fragment.data = some data ∧ fragment.length.toNat ≤ data.length

/-- The payload that `ng_tcp_enqueue_recvbuffer` finds behind the header. -/
def Frame.payload (frame : Frame) (tcplen : Int) : List UInt8 :=
  copyBytes frame (tcphdr + (frame.dataOff >>> 4).toNat * 4)
    (tcplen - (frame.dataOff >>> 4).toNat * 4).toNat

/-- The loop of `nrecv` moves the bytes from `len` on to the front. -/
theorem foldl_shiftPass (len : Nat) (data : List UInt8) (count : Nat)
    (inside : len + count ≤ data.length) :
    (List.range count).foldl (shiftPass len) data =
      (data.drop len).take count ++ data.drop count := by
  induction count with
  | zero => simp
  | succ count ih =>
    have before := ih (by omega)
    have front : ((data.drop len).take count).length = count := by
      rw [List.length_take, List.length_drop]
      omega
    rw [List.range_succ, List.foldl_append, before, List.foldl_cons, List.foldl_nil]
    have read : ((data.drop len).take count ++ data.drop count).getD (len + count) 0 =
        data.getD (len + count) 0 := by
      rw [List.getD_append_right _ _ _ _ (by omega), front, List.getD_eq_getElem?_getD,
        List.getElem?_drop, List.getD_eq_getElem?_getD]
      congr 2
      omega
    unfold shiftPass
    rw [read, List.set_append_right _ _ (by omega), front, Nat.sub_self]
    have split : data.drop count = data[count] :: data.drop (count + 1) :=
      List.drop_eq_getElem_cons (by omega)
    have next : (data.drop len).take (count + 1) =
        (data.drop len).take count ++ [data.getD (len + count) 0] := by
      rw [List.take_add_one, List.getElem?_drop, List.getElem?_eq_getElem (by omega),
        List.getD_eq_getElem _ _ (by omega)]
      rfl
    rw [split, List.set_cons_zero, next, List.append_assoc]
    rfl

/-- The bytes of the buffer after a copy are the bytes copied. -/
theorem copyBytes_memcpy (buf : Nat → UInt8) (data : List UInt8) (count : Nat)
    (inside : count ≤ data.length) : copyBytes (memcpy buf data count) 0 count = data.take count := by
  apply List.ext_getElem
  · simp [copyBytes]
    omega
  · intro i left right
    simp only [copyBytes, List.length_map, List.length_range] at left
    simp only [copyBytes, memcpy, List.getElem_map, List.getElem_range, Nat.zero_add, if_pos left,
      List.getElem_take]
    exact List.getD_eq_getElem _ _ (by omega)

/-- A read with room for the whole fragment returns it. -/
theorem nrecvFragment_whole {fragment : NgTcpFragment} (holds : fragment.Holds)
    (rest : List NgTcpFragment) (buf : Nat → UInt8) {len : Nat}
    (fits : fragment.length.toNat ≤ len) :
    ∃ buf', nrecvFragment fragment rest buf len = some ((fragment.length.toNat : Int), buf', rest) ∧
      copyBytes buf' 0 fragment.length.toNat = fragment.bytes := by
  obtain ⟨positive, data, stored, enough⟩ := holds
  have nonzero : fragment.length ≠ 0 := by
    intro zero
    rw [zero] at positive
    exact absurd positive (by decide)
  refine ⟨memcpy buf data fragment.length.toNat, ?_, ?_⟩
  · unfold nrecvFragment
    rw [if_neg (by omega), if_neg nonzero, stored]
  · rw [copyBytes_memcpy _ _ _ enough, NgTcpFragment.bytes, stored]
    rfl

/-- A read of exactly the first half of the only fragment returns it and leaves the other. -/
theorem nrecvFragment_half {fragment : NgTcpFragment} (holds : fragment.Holds)
    (buf : Nat → UInt8) {len : Nat} (half : fragment.length.toNat = 2 * len) :
    ∃ (buf' : Nat → UInt8) (left : NgTcpFragment),
      nrecvFragment fragment [] buf len = some ((len : Int), buf', [left]) ∧ left.Holds ∧
      copyBytes buf' 0 len ++ left.bytes = fragment.bytes := by
  obtain ⟨positive, data, stored, enough⟩ := holds
  have small := fragment.length.toNat_lt
  have rest : fragment.length.toNat - len = len := by omega
  have count : (UInt32.ofNat len).toNat = len := by
    rw [UInt32.toNat_ofNat', Nat.mod_eq_of_lt (by omega)]
  have moved := foldl_shiftPass len data len (by omega)
  refine ⟨memcpy buf data len,
    { fragment with
      data := some ((List.range len).foldl (shiftPass len) data), length := UInt32.ofNat len },
    ?_, ?_, ?_⟩
  · unfold nrecvFragment
    rw [if_pos (by omega), stored]
    simp [ringEnqueue, RING_SIZE, rest, count]
  · refine ⟨?_, _, rfl, ?_⟩
    · change 0 < (UInt32.ofNat len).toNat
      omega
    · rw [moved]
      simp only [count, List.length_append, List.length_take, List.length_drop]
      omega
  · rw [copyBytes_memcpy _ _ _ (by omega)]
    simp only [NgTcpFragment.bytes, stored, Option.getD_some, moved, count, half]
    have front : ((data.drop len).take len).length = len := by
      rw [List.length_take, List.length_drop]
      omega
    rw [List.take_left' front, two_mul, List.take_add]

/-- A ring with room takes the item. -/
theorem ringEnqueue_room {α : Type} {items : List α} (room : items.length < RING_SIZE - 1)
    (item : α) : ringEnqueue (some items) item = some (items ++ [item]) := by
  rw [ringEnqueue, Option.map_some, if_pos room]

/-- `ng_tcp_enqueue_recvbuffer` queues a fragment with the payload. -/
theorem ngTcpEnqueueRecvbuffer_spec {mem : Nat → Bool} {stream : NgTcpStream} {frame : Frame}
    {tcplen : Int} {ring : List NgTcpFragment} (fragmentMemory : mem 0 = true)
    (dataMemory : mem 1 = true) (queued : stream.rcvbuf = some ring)
    (range : tcplen < 2 ^ 31) :
    ∃ fragment, ngTcpEnqueueRecvbuffer mem stream frame tcplen =
        some (0, { stream with rcvbuf := ringEnqueue (some ring) fragment }) ∧
      fragment.bytes = frame.payload tcplen ∧ (frame.payload tcplen ≠ [] → fragment.Holds) := by
  have size : (frame.payload tcplen).length =
      (tcplen - (frame.dataOff >>> 4).toNat * 4).toNat := by
    rw [Frame.payload, copyBytes, List.length_map, List.length_range]
  have count : (UInt32.ofNat (tcplen - (frame.dataOff >>> 4).toNat * 4).toNat).toNat =
      (tcplen - (frame.dataOff >>> 4).toNat * 4).toNat := by
    rw [UInt32.toNat_ofNat', Nat.mod_eq_of_lt (by omega)]
  by_cases positive : (0 : Int) < tcplen - (frame.dataOff >>> 4).toNat * 4
  · refine ⟨{ NgTcpFragment.zero with
        dport := ntohs frame.dstPort
        sport := ntohs frame.srcPort
        data := some (frame.payload tcplen ++ [0])
        length := UInt32.ofNat (tcplen - (frame.dataOff >>> 4).toNat * 4).toNat },
      ?_, ?_, fun _ => ⟨?_, frame.payload tcplen ++ [0], rfl, ?_⟩⟩
    · unfold ngTcpEnqueueRecvbuffer
      simp only [fragmentMemory, dataMemory, if_true, if_pos positive, queued, ringEnqueue,
        Option.map_some, Frame.payload]
    · simp only [NgTcpFragment.bytes, Option.getD_some, count]
      rw [← size, List.take_left]
    · rw [count]
      omega
    · rw [count, List.length_append, size]
      omega
  · have empty : frame.payload tcplen = [] := by
      apply List.eq_nil_of_length_eq_zero
      omega
    refine ⟨{ NgTcpFragment.zero with
        dport := ntohs frame.dstPort, sport := ntohs frame.srcPort }, ?_, ?_, ?_⟩
    · unfold ngTcpEnqueueRecvbuffer
      simp only [fragmentMemory, if_true, if_neg positive, queued, ringEnqueue, Option.map_some]
    · rw [empty]
      rfl
    · intro nonempty
      exact absurd empty nonempty

/-- When a payload has been put on the ring, there was memory for it. -/
theorem ngTcpEnqueueRecvbuffer_memory {mem : Nat → Bool} {stream next : NgTcpStream}
    {frame : Frame} {tcplen : Int} (nonempty : frame.payload tcplen ≠ [])
    (returned : ngTcpEnqueueRecvbuffer mem stream frame tcplen = some (0, next)) :
    mem 0 = true ∧ mem 1 = true := by
  have positive : (0 : Int) < tcplen - (frame.dataOff >>> 4).toNat * 4 := by
    by_contra empty
    apply nonempty
    have none : (tcplen - (frame.dataOff >>> 4).toNat * 4).toNat = 0 := by omega
    rw [Frame.payload, none]
    rfl
  have fragmentMemory : mem 0 = true := by
    by_contra missing
    simp [ngTcpEnqueueRecvbuffer, missing] at returned
  refine ⟨fragmentMemory, ?_⟩
  by_contra missing
  simp only [ngTcpEnqueueRecvbuffer, fragmentMemory, if_true, if_pos positive, missing] at returned
  simp at returned

/-- A stack, with the bytes that arrived for one of its streams and those given to the
caller. -/
structure Reading where
  /-- The stack. -/
  stack : Stack
  /-- History: the payloads put on the ring, one after the other. -/
  arrived : List UInt8
  /-- History: on each call that returned `r > 0`, the first `r` bytes of its buffer. -/
  given : List UInt8

/-- A call on the stream. -/
inductive ReadCall
  /-- `ng_tcp_enqueue_recvbuffer`. -/
  | ngTcpEnqueueRecvbuffer (mem : Nat → Bool) (frame : Frame) (tcplen : Int)
  /-- `nrecv`. -/
  | nrecv (buf : Nat → UInt8) (len : Nat)

/-- A call returns, for the stream at `a` with the descriptor `sockfd`. -/
inductive ReadStep (a : Nat) (sockfd : Int) : Reading → ReadCall → Reading → Prop
  | ngTcpEnqueueRecvbuffer {w : Reading} {mem : Nat → Bool} {frame : Frame} {tcplen : Int}
      {stream : NgTcpStream} (range : tcplen < 2 ^ 31) (nonempty : frame.payload tcplen ≠ [])
      (room : ∀ ring, (w.stack.streams a).rcvbuf = some ring → ring.length < RING_SIZE - 1)
      (returned :
        ngTcpEnqueueRecvbuffer mem (w.stack.streams a) frame tcplen = some (0, stream)) :
      ReadStep a sockfd w (.ngTcpEnqueueRecvbuffer mem frame tcplen)
        ⟨w.stack.setStream a stream, w.arrived ++ frame.payload tcplen, w.given⟩
  | nrecv {w : Reading} {buf buf' : Nat → UInt8} {len : Nat} {r : Int} {stack : Stack}
      (positive : 1 ≤ len) (returned : nrecv w.stack sockfd buf len = some (r, buf', stack)) :
      ReadStep a sockfd w (.nrecv buf len)
        ⟨stack, w.arrived, w.given ++ if 0 < r then copyBytes buf' 0 r.toNat else []⟩

/-- A read takes the whole fragment at the head of the ring, or exactly the first half of it
while nothing is queued behind. -/
def Fits (a : Nat) (w : Reading) : ReadCall → Prop
  | .ngTcpEnqueueRecvbuffer _ _ _ => True
  | .nrecv _ len => ∀ fragment rest, (w.stack.streams a).rcvbuf = some (fragment :: rest) →
      fragment.length.toNat ≤ len ∨ (fragment.length.toNat = 2 * len ∧ rest = [])

/-- What was given, followed by what is queued, is what arrived. -/
structure InStep (a : Nat) (sockfd : Int) (w : Reading) : Prop where
  /-- The descriptor names the stream. -/
  named : getHostinfoFromfd w.stack sockfd = some (.stream a)
  /-- The ring and its bytes. -/
  queued : ∃ ring, (w.stack.streams a).rcvbuf = some ring ∧
    (∀ fragment ∈ ring, fragment.Holds) ∧
    w.given ++ ring.flatMap NgTcpFragment.bytes = w.arrived

/-- A payload put on the ring keeps the order. -/
theorem InStep.enqueue {a : Nat} {sockfd : Int} {w : Reading} (inv : InStep a sockfd w)
    {mem : Nat → Bool} {frame : Frame} {tcplen : Int} {stream : NgTcpStream}
    (range : tcplen < 2 ^ 31) (nonempty : frame.payload tcplen ≠ [])
    (room : ∀ ring, (w.stack.streams a).rcvbuf = some ring → ring.length < RING_SIZE - 1)
    (returned : ngTcpEnqueueRecvbuffer mem (w.stack.streams a) frame tcplen = some (0, stream)) :
    InStep a sockfd
      ⟨w.stack.setStream a stream, w.arrived ++ frame.payload tcplen, w.given⟩ := by
  obtain ⟨ring, queued, holds, balance⟩ := inv.queued
  obtain ⟨fragmentMemory, dataMemory⟩ := ngTcpEnqueueRecvbuffer_memory nonempty returned
  obtain ⟨fragment, result, bytes, filled⟩ := ngTcpEnqueueRecvbuffer_spec fragmentMemory
    dataMemory queued range
  rw [ringEnqueue_room (room ring queued)] at result
  rw [result] at returned
  injection returned with pair
  injection pair with _ same
  subst same
  refine ⟨(getHostinfoFromfd_setStream (by rfl) sockfd).trans inv.named, ring ++ [fragment],
    ?_, ?_, ?_⟩
  · simp only [Stack.setStream_streams, Function.update_self]
  · intro f listed
    rcases List.mem_append.mp listed with old | new
    · exact holds f old
    · rw [List.mem_singleton.mp new]
      exact filled nonempty
  · rw [List.flatMap_append, ← List.append_assoc, balance, List.flatMap_singleton, bytes]

/-- A read that fits keeps the order. -/
theorem InStep.nrecv {a : Nat} {sockfd : Int} {w : Reading} (inv : InStep a sockfd w)
    {buf buf' : Nat → UInt8} {len : Nat} {r : Int} {stack : Stack} (positive : 1 ≤ len)
    (fits : Fits a w (.nrecv buf len))
    (returned : nrecv w.stack sockfd buf len = some (r, buf', stack)) :
    InStep a sockfd
      ⟨stack, w.arrived, w.given ++ if 0 < r then copyBytes buf' 0 r.toNat else []⟩ := by
  obtain ⟨ring, queued, holds, balance⟩ := inv.queued
  unfold Tcp.nrecv at returned
  rw [inv.named] at returned
  simp only [queued] at returned
  cases ring with
  | nil => simp at returned
  | cons fragment rest =>
    have headHolds := holds fragment List.mem_cons_self
    have restHolds : ∀ f ∈ rest, f.Holds := fun f listed => holds f (List.mem_cons_of_mem _ listed)
    simp only [Option.map_eq_some_iff, Prod.exists] at returned
    obtain ⟨length, filled, ring', result, same⟩ := returned
    injection same with sameLength same
    injection same with sameBuf sameStack
    subst sameLength sameBuf sameStack
    have named : getHostinfoFromfd (w.stack.setStream a
        { w.stack.streams a with rcvbuf := some ring' }) sockfd = some (.stream a) :=
      (getHostinfoFromfd_setStream (by rfl) sockfd).trans inv.named
    have head : (fragment :: rest).flatMap NgTcpFragment.bytes =
        fragment.bytes ++ rest.flatMap NgTcpFragment.bytes := List.flatMap_cons
    rcases fits fragment rest queued with whole | ⟨half, alone⟩
    · obtain ⟨taken, answer, bytes⟩ := nrecvFragment_whole headHolds rest buf whole
      rw [answer] at result
      injection result with result
      injection result with sameLength result
      injection result with sameBuf sameRing
      subst sameLength sameBuf sameRing
      refine ⟨named, rest, ?_, restHolds, ?_⟩
      · simp only [Stack.setStream_streams, Function.update_self]
      · have some : (0 : Int) < fragment.length.toNat := by exact_mod_cast headHolds.1
        rw [if_pos some, Int.toNat_natCast, bytes, List.append_assoc, ← head]
        exact balance
    · subst alone
      obtain ⟨taken, left, answer, leftHolds, bytes⟩ := nrecvFragment_half headHolds buf half
      rw [answer] at result
      injection result with result
      injection result with sameLength result
      injection result with sameBuf sameRing
      subst sameLength sameBuf sameRing
      refine ⟨named, [left], ?_, ?_, ?_⟩
      · simp only [Stack.setStream_streams, Function.update_self]
      · intro f listed
        rw [List.mem_singleton.mp listed]
        exact leftHolds
      · have some : (0 : Int) < len := by exact_mod_cast positive
        rw [if_pos some, Int.toNat_natCast, List.flatMap_singleton, List.append_assoc, bytes,
          ← List.flatMap_singleton NgTcpFragment.bytes fragment]
        exact balance

/-- In every run whose reads all fit, the bytes given to the caller are a prefix of those
that arrived. -/
theorem run_delivers {a : Nat} {sockfd : Int} {stack : Stack} {trace : List ReadCall}
    {w : Reading} (named : getHostinfoFromfd stack sockfd = some (.stream a))
    (empty : (stack.streams a).rcvbuf = some [])
    (run : Run (fun w call next => ReadStep a sockfd w call next ∧ Fits a w call)
      ⟨stack, [], []⟩ trace w) : w.given <+: w.arrived := by
  have inv : InStep a sockfd w := by
    refine run.invariant (InStep a sockfd) ⟨named, [], empty, by simp, rfl⟩ ?_
    intro state call next inv taken
    obtain ⟨step, fits⟩ := taken
    cases step with
    | ngTcpEnqueueRecvbuffer range nonempty room returned =>
      exact inv.enqueue range nonempty room returned
    | nrecv positive returned => exact inv.nrecv positive fits returned
  obtain ⟨ring, _, _, balance⟩ := inv.queued
  exact ⟨_, balance⟩

/-- A stack with one open stream, of descriptor 3. -/
def oneStream : Stack :=
  { Stack.initial (fun _ => Localhost.zero)
      (fun _ => { NgTcpStream.zero with fd := 3, sndbuf := some [], rcvbuf := some [] }) [] with
    tcbSet := [0], fresh := 1, fdTable := Function.update (fun _ => 0) 0 8 }

/-- A frame with a header of five words and the payload 1, 2, 3. -/
def threeBytes : Frame := fun i =>
  if i = tcphdr + 12 then 0x50
  else if i = tcphdr + 20 then 1
  else if i = tcphdr + 21 then 2
  else if i = tcphdr + 22 then 3
  else 0

/-- The frame is put on the ring of the one stream. -/
theorem threeBytes_step :
    ∃ stack, ReadStep 0 3 ⟨oneStream, [], []⟩
        (.ngTcpEnqueueRecvbuffer (fun _ => true) threeBytes 23) ⟨stack, [1, 2, 3], []⟩ ∧
      getHostinfoFromfd stack 3 = some (.stream 0) ∧
      (stack.streams 0).rcvbuf = some
        [{ NgTcpFragment.zero with data := some [1, 2, 3, 0], length := 3 }] := by
  refine ⟨_, ReadStep.ngTcpEnqueueRecvbuffer (by decide) (by decide) ?_ rfl, by decide, rfl⟩
  intro ring empty
  injection empty with empty
  rw [← empty]
  decide

/-- A read into a zeroed buffer, on the one stream whose ring is known. -/
theorem nrecv_step {stack : Stack} (arrived given : List UInt8) {fragment : NgTcpFragment}
    {rest ring : List NgTcpFragment} (len : Nat) {r : Nat} {buf' : Nat → UInt8}
    (named : getHostinfoFromfd stack 3 = some (.stream 0))
    (queued : (stack.streams 0).rcvbuf = some (fragment :: rest)) (positive : 1 ≤ len)
    (some : 0 < r)
    (answer : nrecvFragment fragment rest (fun _ => 0) len = .some ((r : Int), buf', ring)) :
    ∃ next, ReadStep 0 3 ⟨stack, arrived, given⟩ (.nrecv (fun _ => 0) len)
        ⟨next, arrived, given ++ copyBytes buf' 0 r⟩ ∧
      getHostinfoFromfd next 3 = .some (.stream 0) ∧
      (next.streams 0).rcvbuf = .some ring := by
  refine ⟨stack.setStream 0 { stack.streams 0 with rcvbuf := .some ring }, ?_,
    (getHostinfoFromfd_setStream (by rfl) 3).trans named, ?_⟩
  · have returned : nrecv stack 3 (fun _ => 0) len = .some ((r : Int), buf',
        stack.setStream 0 { stack.streams 0 with rcvbuf := .some ring }) := by
      unfold nrecv
      simp only [named, queued, answer, Option.map_some]
    have step : ReadStep 0 3 ⟨stack, arrived, given⟩ (.nrecv (fun _ => 0) len) _ :=
      ReadStep.nrecv positive returned
    rw [if_pos (by exact_mod_cast some), Int.toNat_natCast] at step
    exact step
  · simp only [Stack.setStream_streams, Function.update_self]

/-- Execute a call. -/
def ReadCall.exec (a : Nat) (sockfd : Int) (w : Reading) : ReadCall → Option Reading
  | .ngTcpEnqueueRecvbuffer mem frame tcplen =>
    if tcplen < 2 ^ 31 ∧ frame.payload tcplen ≠ [] ∧
        (w.stack.streams a).rcvbuf.all (·.length < RING_SIZE - 1) = true then
      match Tcp.ngTcpEnqueueRecvbuffer mem (w.stack.streams a) frame tcplen with
      | some (0, stream) =>
        some ⟨w.stack.setStream a stream, w.arrived ++ frame.payload tcplen, w.given⟩
      | _ => none
    else none
  | .nrecv buf len =>
    if 1 ≤ len then
      (Tcp.nrecv w.stack sockfd buf len).map fun (r, buf', stack) =>
        ⟨stack, w.arrived, w.given ++ if 0 < r then copyBytes buf' 0 r.toNat else []⟩
    else none

/-- Whether a call fits. -/
def ReadCall.fits (a : Nat) (w : Reading) : ReadCall → Bool
  | .ngTcpEnqueueRecvbuffer _ _ _ => true
  | .nrecv _ len =>
    match (w.stack.streams a).rcvbuf with
    | some (fragment :: rest) =>
      decide (fragment.length.toNat ≤ len) ||
        decide (fragment.length.toNat = 2 * len) && rest.isEmpty
    | _ => true

/-- A call that was tested and executed. -/
theorem readStep_of_exec {a : Nat} {sockfd : Int} {w next : Reading} {call : ReadCall}
    (done : call.exec a sockfd w = some next) (fits : call.fits a w = true) :
    ReadStep a sockfd w call next ∧ Fits a w call := by
  cases call with
  | ngTcpEnqueueRecvbuffer mem frame tcplen =>
    obtain ⟨⟨range, nonempty, room⟩, done⟩ := Option.ite_none_right_eq_some.mp done
    refine ⟨?_, trivial⟩
    split at done
    · rename_i stream returned
      rw [← Option.some.inj done]
      refine .ngTcpEnqueueRecvbuffer range nonempty ?_ returned
      intro ring queued
      rw [queued] at room
      exact of_decide_eq_true room
    · cases done
  | nrecv buf len =>
    obtain ⟨positive, done⟩ := Option.ite_none_right_eq_some.mp done
    obtain ⟨⟨r, buf', stack⟩, returned, rfl⟩ := Option.map_eq_some_iff.mp done
    refine ⟨.nrecv positive returned, ?_⟩
    intro fragment rest queued
    unfold ReadCall.fits at fits
    simp only [queued, Bool.or_eq_true, Bool.and_eq_true, decide_eq_true_eq,
      List.isEmpty_iff] at fits
    exact fits

/-- A frame with the payload 4, 5, 6, 7. -/
def fourBytes : Frame := fun i =>
  if i = tcphdr + 12 then 0x50
  else if tcphdr + 20 ≤ i ∧ i < tcphdr + 24 then UInt8.ofNat (i - (tcphdr + 20) + 4)
  else 0

/-- Two fragments, of which the first one is read as a whole and the second one in halves, and a
third one with room to spare. -/
def halved : List ReadCall :=
  [.ngTcpEnqueueRecvbuffer (fun _ => true) threeBytes 23,
    .ngTcpEnqueueRecvbuffer (fun _ => true) fourBytes 24, .nrecv (fun _ => 0) 3,
    .nrecv (fun _ => 0) 2, .nrecv (fun _ => 0) 2,
    .ngTcpEnqueueRecvbuffer (fun _ => true) threeBytes 23, .nrecv (fun _ => 0) 9,
    .ngTcpEnqueueRecvbuffer (fun _ => true) fourBytes 24]

/-- What is queued at the end is all that the caller did not get. -/
theorem run_delivers_halved : ∃ w,
    Run (fun w call next => ReadStep 0 3 w call next ∧ Fits 0 w call) ⟨oneStream, [], []⟩ halved w ∧
      w.arrived = [1, 2, 3, 4, 5, 6, 7, 1, 2, 3, 4, 5, 6, 7] ∧
      w.given = [1, 2, 3, 4, 5, 6, 7, 1, 2, 3] ∧ w.given <+: w.arrived := by
  have ends : (halved.foldlM (fun w call =>
      if call.fits 0 w = true then call.exec 0 3 w else none) ⟨oneStream, [], []⟩).any
        (fun w : Reading => w.arrived = [1, 2, 3, 4, 5, 6, 7, 1, 2, 3, 4, 5, 6, 7] ∧
          w.given = [1, 2, 3, 4, 5, 6, 7, 1, 2, 3]) = true := by
    decide +kernel
  obtain ⟨w, done, facts⟩ := (Option.any_eq_true _ _).mp ends
  obtain ⟨arrived, given⟩ := of_decide_eq_true facts
  have run := (Run.of_tested done).mono fun _ _ _ taken => readStep_of_exec taken.1 taken.2
  exact ⟨w, run, arrived, given, run_delivers (by decide) rfl run⟩

/-- One payload of three bytes and two reads of two: the caller gets the first and the third
byte. -/
theorem run_skips_byte : ∃ trace w,
    getHostinfoFromfd oneStream 3 = some (.stream 0) ∧ (oneStream.streams 0).rcvbuf = some [] ∧
      Run (ReadStep 0 3) ⟨oneStream, [], []⟩ trace w ∧ ¬ w.given <+: w.arrived := by
  obtain ⟨stack, arrives, named, queued⟩ := threeBytes_step
  obtain ⟨next, reads, named, queued⟩ :=
    nrecv_step [1, 2, 3] [] 2 named queued (by decide) (by decide) rfl
  obtain ⟨last, readsAgain, _, _⟩ :=
    nrecv_step [1, 2, 3] _ 2 named queued (by decide) (by decide) rfl
  refine ⟨_, _, by decide, rfl, ((Run.nil.snoc arrives).snoc reads).snoc readsAgain, ?_⟩
  change ¬ ([1, 3] : List UInt8) <+: [1, 2, 3]
  decide

end BackendCpp.Tcp
