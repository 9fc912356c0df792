import BackendCpp.Tcp.Datagrams
import BackendCpp.Tcp.Descriptors
import BackendCpp.Tcp.Acknowledging

/-!
# Which bytes of a frame are copied

`udp_process` and `ng_tcp_enqueue_recvbuffer` copy as many bytes as the headers of a frame say,
and nothing compares that with the length of the frame. The offsets that are copied are listed
here beside the calls that copy them; they stay inside a frame just when the lengths in its
headers do, or when the copy is not reached.
-/

namespace BackendCpp.Tcp

/-- The offsets that `udp_process` copies from a frame. -/
def udpCopied (mem : Nat → Bool) (w : Stack) (frame : Frame) : List Nat :=
  match getHostinfoFromipPort w frame.dstAddr frame.udpDstPort frame.nextProtoId with
  | none => []
  | some _ =>
    if mem 0 then
      let length := ntohs frame.dgramLen
      if mem 1 && decide (sizeofUdpHdr < length.toNat) then
        List.range' (udphdr + sizeofUdpHdr) (length.toNat - sizeofUdpHdr)
      else []
    else []

/-- The offsets that `ng_tcp_enqueue_recvbuffer` copies from a frame. -/
def enqueueCopied (mem : Nat → Bool) (frame : Frame) (tcplen : Int) : List Nat :=
  if mem 0 then
    let hdrlen := frame.dataOff >>> 4
    let payloadlen : Int := tcplen - hdrlen.toNat * 4
    if 0 < payloadlen then
      if mem 1 then List.range' (tcphdr + hdrlen.toNat * 4) payloadlen.toNat else []
    else []
  else []

/-- The offsets that `ng_tcp_handle_established` copies from a frame. -/
def establishedCopied (mem : Nat → Bool) (frame : Frame) (tcplen : Int) : List Nat :=
  (if frame.has RTE_TCP_PSH_FLAG then enqueueCopied mem frame tcplen else []) ++
  (if frame.has RTE_TCP_FIN_FLAG then
    enqueueCopied (fun n => mem (3 + n)) frame (frame.dataOff >>> 4).toNat else [])

/-- The offsets that `ng_tcp_process` copies from a frame. -/
def tcpCopied (rteIpv4UdptcpCksum : Frame → UInt16) (mem : Nat → Bool) (w : Stack)
    (frame : Frame) : List Nat :=
  let tcpcksum := frame.cksum
  let frame := frame.clearCksum
  if rteIpv4UdptcpCksum frame ≠ tcpcksum then []
  else
    match ngTcpStreamSearch w frame.srcAddr frame.dstAddr frame.srcPort frame.dstPort with
    | none => []
    | some a =>
      if (w.streams a).status = .established then establishedCopied mem frame frame.tcplen else []

/-- The offsets that one pass of the loop of `pkt_process` copies from its frame. -/
def packetCopied (rteIpv4UdptcpCksum : Frame → UInt16) (w : Stack) (fortune : Fortune)
    (frame : Frame) : List Nat :=
  if frame.etherType = htons RTE_ETHER_TYPE_IPV4 then
    if frame.nextProtoId = IPPROTO_UDP then udpCopied fortune.mem w frame
    else if frame.nextProtoId = IPPROTO_TCP then
      tcpCopied rteIpv4UdptcpCksum fortune.mem w frame
    else []
  else []

/-- Every offset of a list lies inside a frame of a length. -/
def Inside (offsets : List Nat) (len : Nat) : Prop := ∀ offset ∈ offsets, offset < len

/-- The offsets of a range that is not empty lie inside when its end does. -/
theorem inside_range' {start count len : Nat} :
    Inside (List.range' start count) len ↔ count = 0 ∨ start + count ≤ len := by
  constructor
  · intro inside
    by_cases empty : count = 0
    · exact Or.inl empty
    · have last := inside (start + (count - 1)) (List.mem_range'_1.mpr (by omega))
      omega
  · intro bound offset member
    have within := List.mem_range'_1.mp member
    omega

/-- Nothing lies inside anything. -/
theorem inside_nil (len : Nat) : Inside [] len := fun _ member => absurd member List.not_mem_nil

/-- When `udp_process` copies only from inside the frame. -/
def UdpFits (mem : Nat → Bool) (w : Stack) (frame : Frame) (len : Nat) : Prop :=
  getHostinfoFromipPort w frame.dstAddr frame.udpDstPort frame.nextProtoId = none ∨
  mem 0 = false ∨ mem 1 = false ∨ (ntohs frame.dgramLen).toNat ≤ sizeofUdpHdr ∨
  udphdr + (ntohs frame.dgramLen).toNat ≤ len

/-- When `ng_tcp_handle_established` copies only from inside the frame. -/
def EstablishedFits (mem : Nat → Bool) (frame : Frame) (len : Nat) : Prop :=
  frame.has RTE_TCP_PSH_FLAG = false ∨ mem 0 = false ∨ mem 1 = false ∨ frame.segment = [] ∨
  sizeofEtherHdr + (ntohs frame.totalLength).toNat ≤ len

/-- When the pass of the loop of `pkt_process` copies only from inside the frame. -/
def PacketFits (rteIpv4UdptcpCksum : Frame → UInt16) (w : Stack) (fortune : Fortune)
    (frame : Frame) (len : Nat) : Prop :=
  frame.etherType = htons RTE_ETHER_TYPE_IPV4 →
    (frame.nextProtoId = IPPROTO_UDP → UdpFits fortune.mem w frame len) ∧
    (frame.nextProtoId = IPPROTO_TCP → rteIpv4UdptcpCksum frame.clearCksum = frame.cksum →
      ∀ a, w.receiver frame = some a → (w.streams a).status = .established →
        EstablishedFits fortune.mem frame.clearCksum len)

/-- `udp_process`. -/
theorem udpCopied_inside (mem : Nat → Bool) (w : Stack) (frame : Frame) (len : Nat) :
    Inside (udpCopied mem w frame) len ↔ UdpFits mem w frame len := by
  unfold udpCopied UdpFits
  cases getHostinfoFromipPort w frame.dstAddr frame.udpDstPort frame.nextProtoId with
  | none => exact iff_of_true (inside_nil len) (Or.inl rfl)
  | some a =>
    cases mem 0
    · exact iff_of_true (inside_nil len) (Or.inr (Or.inl rfl))
    · cases mem 1
      · exact iff_of_true (inside_nil len) (Or.inr (Or.inr (Or.inl rfl)))
      · by_cases longer : sizeofUdpHdr < (ntohs frame.dgramLen).toNat
        · simp only [longer, decide_true, Bool.and_true, if_true, inside_range', reduceCtorEq,
            Bool.true_eq_false, false_or]
          omega
        · simp only [longer, decide_false, Bool.and_false, Bool.false_eq_true, if_false,
            reduceCtorEq, Bool.true_eq_false, false_or]
          exact iff_of_true (inside_nil len) (Or.inl (Nat.le_of_not_lt longer))

/-- `ng_tcp_enqueue_recvbuffer`, for the length that `ng_tcp_process` computes. -/
theorem enqueueCopied_inside (mem : Nat → Bool) (frame : Frame) (len : Nat) :
    Inside (enqueueCopied mem frame frame.tcplen) len ↔
      mem 0 = false ∨ mem 1 = false ∨ frame.segment = [] ∨
      sizeofEtherHdr + (ntohs frame.totalLength).toNat ≤ len := by
  unfold enqueueCopied
  cases mem 0
  · exact iff_of_true (inside_nil len) (Or.inl rfl)
  · by_cases positive : (0 : Int) < frame.tcplen - (frame.dataOff >>> 4).toNat * 4
    · have nonempty : ¬ frame.segment = [] := fun empty => payload_eq_nil.mp empty positive
      cases mem 1
      · simp only [if_true, if_pos positive, Bool.false_eq_true, if_false]
        exact iff_of_true (inside_nil len) (Or.inr (Or.inl trivial))
      · simp only [if_true, if_pos positive, inside_range', nonempty, Bool.true_eq_false, false_or]
        unfold Frame.tcplen tcphdr sizeofEtherHdr sizeofIpv4Hdr at *
        omega
    · have empty : frame.segment = [] := payload_eq_nil.mpr positive
      simp only [if_true, if_neg positive]
      exact iff_of_true (inside_nil len) (Or.inr (Or.inr (Or.inl empty)))

/-- For `FIN` the length it is given is below the one of the header. -/
theorem enqueueCopied_fin (mem : Nat → Bool) (frame : Frame) :
    enqueueCopied mem frame (frame.dataOff >>> 4).toNat = [] := by
  have shorter : ¬ (0 : Int) < (frame.dataOff >>> 4).toNat - (frame.dataOff >>> 4).toNat * 4 := by
    omega
  unfold enqueueCopied
  simp only [if_neg shorter, ite_self]

/-- `ng_tcp_handle_established`. -/
theorem establishedCopied_inside (mem : Nat → Bool) (frame : Frame) (len : Nat) :
    Inside (establishedCopied mem frame frame.tcplen) len ↔ EstablishedFits mem frame len := by
  unfold establishedCopied EstablishedFits
  rw [enqueueCopied_fin, ite_self, List.append_nil]
  cases frame.has RTE_TCP_PSH_FLAG
  · exact iff_of_true (inside_nil len) (Or.inl rfl)
  · simp only [if_true, Bool.true_eq_false, false_or]
    exact enqueueCopied_inside mem frame len

/-- `ng_tcp_process`. -/
theorem tcpCopied_inside (rteIpv4UdptcpCksum : Frame → UInt16) (mem : Nat → Bool) (w : Stack)
    (frame : Frame) (len : Nat) :
    Inside (tcpCopied rteIpv4UdptcpCksum mem w frame) len ↔
      (rteIpv4UdptcpCksum frame.clearCksum = frame.cksum →
        ∀ a, w.receiver frame = some a → (w.streams a).status = .established →
          EstablishedFits mem frame.clearCksum len) := by
  unfold tcpCopied
  by_cases valid : rteIpv4UdptcpCksum frame.clearCksum = frame.cksum
  · have search : ngTcpStreamSearch w frame.clearCksum.srcAddr frame.clearCksum.dstAddr
        frame.clearCksum.srcPort frame.clearCksum.dstPort = w.receiver frame := rfl
    simp only [valid, ne_eq, not_true_eq_false, if_false, true_implies, search]
    cases w.receiver frame with
    | none => exact iff_of_true (inside_nil len) fun a missing => by cases missing
    | some a =>
      simp only [Option.some.injEq, forall_eq']
      by_cases established : (w.streams a).status = .established
      · simp only [established, if_true, true_implies]
        exact establishedCopied_inside mem frame.clearCksum len
      · simp only [established, if_false, false_implies]
        exact iff_of_true (inside_nil len) trivial
  · simp only [ne_eq, valid, not_false_eq_true, if_true, false_implies]
    exact iff_of_true (inside_nil len) trivial

/-- The payload bytes of a packet are copied from inside its frame just when the lengths in its
headers fit into it, where they come to be used. -/
theorem packetCopied_inside (rteIpv4UdptcpCksum : Frame → UInt16) (w : Stack) (fortune : Fortune)
    (frame : Frame) (len : Nat) :
    Inside (packetCopied rteIpv4UdptcpCksum w fortune frame) len ↔
      PacketFits rteIpv4UdptcpCksum w fortune frame len := by
  have different : IPPROTO_UDP ≠ IPPROTO_TCP := by decide
  unfold packetCopied PacketFits
  by_cases ipv4 : frame.etherType = htons RTE_ETHER_TYPE_IPV4
  · simp only [ipv4, if_true, true_implies]
    by_cases udp : frame.nextProtoId = IPPROTO_UDP
    · simp only [udp, if_true, true_implies, different, false_implies, and_true]
      exact udpCopied_inside fortune.mem w frame len
    · by_cases tcp : frame.nextProtoId = IPPROTO_TCP
      · simp only [tcp, different.symm, if_true, if_false, true_implies, false_implies, true_and]
        exact tcpCopied_inside rteIpv4UdptcpCksum fortune.mem w frame len
      · simp only [udp, tcp, if_false, false_implies, and_true]
        exact iff_of_true (inside_nil len) trivial
  · simp only [ipv4, if_false, false_implies]
    exact iff_of_true (inside_nil len) trivial

/-- A socket for datagrams to port 8888 of 192.168.0.119. -/
def receiving : Stack :=
  (nbind (nsocket (fun _ => true) blank.stack SOCK_DGRAM).2 3 0x7700A8C0 0xB822).2

/-- A datagram of 42 bytes to that socket, whose header says that it has 1000. -/
def longDatagram : Frame := fun i =>
  ([0, 0, 0, 0, 0, 0, 0, 0, 0, 0, 0, 0, 0x08, 0x00,
    0x45, 0, 0, 28, 0, 0, 0, 0, 64, 17, 0, 0, 192, 168, 0, 1, 192, 168, 0, 119,
    0x0F, 0xA0, 0x22, 0xB8, 0x03, 0xE8, 0, 0] : List UInt8).getD i 0

/-- The byte behind the last of that datagram is copied. -/
theorem packetCopied_outside :
    ¬ Inside (packetCopied (fun _ => 0) receiving ⟨true, fun _ => true, 0⟩ longDatagram) 42 := by
  have copied : packetCopied (fun _ => 0) receiving ⟨true, fun _ => true, 0⟩ longDatagram =
      List.range' 42 992 := rfl
  rw [copied, inside_range']
  decide

end BackendCpp.Tcp
