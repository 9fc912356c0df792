import BackendCpp.Tcp.Memory
import BackendCpp.Tcp.Receive
import BackendCpp.Tcp.Transitions

/-!
# TCP packets are read as they were written

`ng_encode_tcp_apppkt` writes a fragment into a packet, and `ng_tcp_process`, its handlers and
`ng_tcp_enqueue_recvbuffer` read it. The addresses and ports cross as they are, the sequence
numbers are swapped on both sides. Only the fragment that is queued for the application has its
ports in the order of the machine.
-/

namespace BackendCpp.Tcp

/-- A fragment whose header says where its data begins and which fits into a packet. -/
structure Encodable (fragment : NgTcpFragment) : Prop where
  /-- There is room for the options. -/
  options : fragment.optlen ≤ TCP_OPTION_LENGTH
  /-- The header is as long as it says. -/
  header : (fragment.hdrlenOff.toNat : Int) = (5 + fragment.optlen) * 16
  /-- There is a block when there is data. -/
  data : fragment.data = none ↔ fragment.length = 0
  /-- The data is in the block. -/
  block : ∀ bytes, fragment.data = some bytes → fragment.length.toNat ≤ bytes.length
  /-- It fits. -/
  size : (fragment.length.toNat : Int) ≤ 65535 - 40 - 4 * fragment.optlen

/-- The checksum is a function of the IPv4 header and of what it covers. -/
def Covers (rteIpv4UdptcpCksum : Frame → UInt16) : Prop :=
  ∀ f g : Frame, (∀ i, sizeofEtherHdr ≤ i →
      i < tcphdr ∨ i < sizeofEtherHdr + (ntohs f.totalLength).toNat → f i = g i) →
    rteIpv4UdptcpCksum f = rteIpv4UdptcpCksum g

/-- The fragment that is queued for the application. -/
def NgTcpFragment.arrived (fragment : NgTcpFragment) : NgTcpFragment :=
  { NgTcpFragment.zero with
    sport := ntohs fragment.sport, dport := ntohs fragment.dport
    data := fragment.data.map fun _ => fragment.bytes ++ [0], length := fragment.length }

/-- A packet is read as a fragment. -/
structure Decoded (rteIpv4UdptcpCksum : Frame → UInt16) (sip dip : UInt32)
    (fragment : NgTcpFragment) (frame : Frame) : Prop where
  /-- It passes the test of `ng_tcp_process`. -/
  cksum : rteIpv4UdptcpCksum frame.clearCksum = frame.cksum
  /-- The addresses. -/
  addresses : frame.srcAddr = sip ∧ frame.dstAddr = dip
  /-- The ports. -/
  ports : frame.srcPort = fragment.sport ∧ frame.dstPort = fragment.dport
  /-- The sequence number and the acknowledgement number. -/
  numbers : ntohl frame.sentSeq = fragment.seqnum ∧ ntohl frame.recvAck = fragment.acknum
  /-- The flags. -/
  flags : frame.tcpFlags = fragment.tcpFlags
  /-- The payload. -/
  payload : frame.clearCksum.payload frame.clearCksum.tcplen = fragment.bytes
  /-- What `ng_tcp_enqueue_recvbuffer` queues. -/
  queued : ∀ mem stream, mem 0 = true → mem 1 = true →
    ngTcpEnqueueRecvbuffer mem stream frame.clearCksum frame.clearCksum.tcplen =
      (ringEnqueue stream.rcvbuf fragment.arrived).map fun ring =>
        (0, { stream with rcvbuf := some ring })

section

variable {fragment : NgTcpFragment}

/-- The length of the packet. -/
theorem Encodable.totalLen (encodable : Encodable fragment) (options : 0 ≤ fragment.optlen) :
    (fragment.totalLen.toNat : Int) = fragment.length.toNat + 54 + 4 * fragment.optlen := by
  have most := encodable.options
  have size := encodable.size
  unfold TCP_OPTION_LENGTH at most
  have words : (UInt32.ofInt fragment.optlen).toNat = fragment.optlen.toNat := by
    rw [UInt32.ofInt, UInt32.toNat_ofNat', Int.emod_eq_of_lt (by omega) (by omega)]
    omega
  unfold NgTcpFragment.totalLen sizeofEtherHdr sizeofIpv4Hdr sizeofTcpHdr
  rw [UInt32.toNat_add, UInt32.toNat_add, UInt32.toNat_mul, words]
  change (((fragment.length.toNat + 54) % 2 ^ 32 + fragment.optlen.toNat * 4 % 2 ^ 32) % 2 ^ 32 :
    Nat) = fragment.length.toNat + 54 + 4 * fragment.optlen
  omega

/-- The length in the IPv4 header. -/
theorem Encodable.totalLength (encodable : Encodable fragment) (options : 0 ≤ fragment.optlen) :
    ((fragment.totalLen - UInt32.ofNat sizeofEtherHdr).toUInt16.toNat : Int) =
      fragment.length.toNat + 40 + 4 * fragment.optlen := by
  have total := encodable.totalLen options
  have size := encodable.size
  have most := encodable.options
  unfold TCP_OPTION_LENGTH at most
  have header : (UInt32.ofNat sizeofEtherHdr).toNat = 14 := rfl
  have order : UInt32.ofNat sizeofEtherHdr ≤ fragment.totalLen := by
    rw [UInt32.le_iff_toNat_le, header]
    omega
  rw [UInt32.toNat_toUInt16, UInt32.toNat_sub_of_le _ _ order, header]
  omega

/-- The copy of the payload leaves the headers alone. -/
theorem byte_copyPayload_ne {msg : Msg} {p : Nat} (options : 0 ≤ fragment.optlen) (apart : p < 54) :
    (msg.copyPayload fragment).bytes p = msg.bytes p := by
  unfold Msg.copyPayload tcphdr sizeofEtherHdr sizeofIpv4Hdr sizeofTcpHdr
  split
  · apply byte_memcpy_ne
    omega
  · rfl

/-- The payload does not touch a word of the headers. -/
theorem load16_copyPayload_ne {msg : Msg} {p : Nat} (options : 0 ≤ fragment.optlen)
    (apart : p + 2 ≤ 54) : load16 (msg.copyPayload fragment).bytes p = load16 msg.bytes p :=
  load16_of_agree (byte_copyPayload_ne options (by omega)) (byte_copyPayload_ne options (by omega))

/-- The payload does not touch a double word of the headers. -/
theorem load32_copyPayload_ne {msg : Msg} {p : Nat} (options : 0 ≤ fragment.optlen)
    (apart : p + 4 ≤ 54) : load32 (msg.copyPayload fragment).bytes p = load32 msg.bytes p :=
  load32_of_agree fun k small => byte_copyPayload_ne options (by omega)

end

section

variable {cksums : Cksums} {msg : Msg} {sip dip : UInt32} {srcmac dstmac : List UInt8}
  {fragment : NgTcpFragment}

/-- The fields of the packet that is written. -/
theorem ngEncodeTcpApppkt_fields (options : 0 ≤ fragment.optlen) :
    let sent := (ngEncodeTcpApppkt cksums msg sip dip srcmac dstmac fragment).bytes
    sent.totalLength =
      htons (fragment.totalLen - UInt32.ofNat sizeofEtherHdr).toUInt16 ∧
    sent.srcAddr = sip ∧ sent.dstAddr = dip ∧ sent.srcPort = fragment.sport ∧
    sent.dstPort = fragment.dport ∧ sent.sentSeq = htonl fragment.seqnum ∧
    sent.recvAck = htonl fragment.acknum ∧ sent.dataOff = fragment.hdrlenOff ∧
    sent.tcpFlags = fragment.tcpFlags := by
  refine ⟨?_, ?_, ?_, ?_, ?_, ?_, ?_, ?_, ?_⟩
  · rw [← @encodeIpv4_totalLength cksums msg sip dip srcmac dstmac _ IPPROTO_TCP]
    unfold ngEncodeTcpApppkt Frame.totalLength sizeofEtherHdr tcphdr sizeofIpv4Hdr
    simp (disch := first | decide | exact options) only [load16_store16_ne, load16_copyPayload_ne,
      load16_store8_ne, load16_store32_ne]
  · have written := @encodeIpv4_srcAddr cksums msg sip dip srcmac dstmac
      (fragment.totalLen - UInt32.ofNat sizeofEtherHdr).toUInt16 IPPROTO_TCP
    unfold Frame.srcAddr sizeofEtherHdr at written
    unfold ngEncodeTcpApppkt Frame.srcAddr sizeofEtherHdr tcphdr sizeofIpv4Hdr
    simp (disch := first | decide | exact options) only [load32_store16_ne, load32_copyPayload_ne,
      load32_store8_ne, load32_store32_ne]
    exact written
  · have written := @encodeIpv4_dstAddr cksums msg sip dip srcmac dstmac
      (fragment.totalLen - UInt32.ofNat sizeofEtherHdr).toUInt16 IPPROTO_TCP
    unfold Frame.dstAddr sizeofEtherHdr at written
    unfold ngEncodeTcpApppkt Frame.dstAddr sizeofEtherHdr tcphdr sizeofIpv4Hdr
    simp (disch := first | decide | exact options) only [load32_store16_ne, load32_copyPayload_ne,
      load32_store8_ne, load32_store32_ne]
    exact written
  · unfold ngEncodeTcpApppkt Frame.srcPort sizeofEtherHdr tcphdr sizeofIpv4Hdr
    simp (disch := first | decide | exact options) only [load16_store16_ne, load16_copyPayload_ne,
      load16_store8_ne, load16_store32_ne, load16_store16]
  · unfold ngEncodeTcpApppkt Frame.dstPort sizeofEtherHdr tcphdr sizeofIpv4Hdr
    simp (disch := first | decide | exact options) only [load16_store16_ne, load16_copyPayload_ne,
      load16_store8_ne, load16_store32_ne, load16_store16]
  · unfold ngEncodeTcpApppkt Frame.sentSeq sizeofEtherHdr tcphdr sizeofIpv4Hdr
    simp (disch := first | decide | exact options) only [load32_store16_ne, load32_copyPayload_ne,
      load32_store8_ne, load32_store32_ne, load32_store32]
  · unfold ngEncodeTcpApppkt Frame.recvAck sizeofEtherHdr tcphdr sizeofIpv4Hdr
    simp (disch := first | decide | exact options) only [load32_store16_ne, load32_copyPayload_ne,
      load32_store8_ne, load32_store32]
  · unfold ngEncodeTcpApppkt Frame.dataOff sizeofEtherHdr tcphdr sizeofIpv4Hdr
    simp (disch := first | decide | exact options) only [byte_store16_ne, byte_copyPayload_ne,
      byte_store8_ne, byte_store8]
  · unfold ngEncodeTcpApppkt Frame.tcpFlags sizeofEtherHdr tcphdr sizeofIpv4Hdr
    simp (disch := first | decide | exact options) only [byte_store16_ne, byte_copyPayload_ne,
      byte_store8]

/-- Clearing the checksum that was written over zero. -/
theorem clearCksum_store16 (value : UInt16) :
    ((msg.store16 (tcphdr + 16) 0).store16 (tcphdr + 16) value).bytes.clearCksum =
      (msg.store16 (tcphdr + 16) 0).bytes := by
  funext i
  unfold Frame.clearCksum
  split
  · rename_i here
    exact (byte_store16_zero _ here).symm
  · rename_i other
    rw [byte_store16_ne _ _ (by omega)]

/-- The checksum that is written is the one of the packet without it. -/
theorem ngEncodeTcpApppkt_cksum :
    let sent := (ngEncodeTcpApppkt cksums msg sip dip srcmac dstmac fragment).bytes
    sent.cksum = cksums.rteIpv4UdptcpCksum sent.clearCksum := by
  unfold ngEncodeTcpApppkt
  simp only [clearCksum_store16]
  exact load16_store16 _ _ _

/-- The payload that is written. -/
theorem ngEncodeTcpApppkt_payload (options : 0 ≤ fragment.optlen) :
    let sent := (ngEncodeTcpApppkt cksums msg sip dip srcmac dstmac fragment).bytes
    ∀ k, (inside : k < fragment.bytes.length) →
      sent (54 + fragment.optlen.toNat * 4 + k) = fragment.bytes[k] := by
  intro sent k inside
  cases data : fragment.data with
  | none =>
    have empty : fragment.bytes = [] := by
      rw [NgTcpFragment.bytes, data]
      exact List.take_nil
    rw [empty] at inside
    cases inside
  | some block =>
    have bytes : fragment.bytes = block.take fragment.length.toNat := by
      rw [NgTcpFragment.bytes, data]
      rfl
    have place : ((tcphdr + sizeofTcpHdr : Nat) : Int) + fragment.optlen * 4 =
        (54 + fragment.optlen.toNat * 4 : Nat) := by
      unfold tcphdr sizeofEtherHdr sizeofIpv4Hdr sizeofTcpHdr
      omega
    simp only [bytes]
    rw [bytes] at inside
    change (ngEncodeTcpApppkt cksums msg sip dip srcmac dstmac fragment).bytes _ = _
    unfold ngEncodeTcpApppkt Msg.copyPayload
    simp only [data, place]
    rw [byte_store16_ne _ _ (by unfold tcphdr sizeofEtherHdr sizeofIpv4Hdr; omega),
      byte_store16_ne _ _ (by unfold tcphdr sizeofEtherHdr sizeofIpv4Hdr; omega)]
    exact byte_memcpy inside

end

section

variable {fragment : NgTcpFragment}

/-- A fragment holds as many bytes as it says. -/
theorem Encodable.bytes_length (encodable : Encodable fragment) :
    fragment.bytes.length = fragment.length.toNat := by
  unfold NgTcpFragment.bytes
  cases data : fragment.data with
  | none =>
    have empty := encodable.data.mp data
    rw [empty]
    rfl
  | some block =>
    have inside := encodable.block block data
    rw [Option.getD_some, List.length_take]
    omega

/-- The length of the header, in words. -/
theorem Encodable.words (encodable : Encodable fragment) (options : 0 ≤ fragment.optlen) :
    (fragment.hdrlenOff >>> 4).toNat = 5 + fragment.optlen.toNat := by
  have header := encodable.header
  rw [UInt8.toNat_shiftRight]
  change fragment.hdrlenOff.toNat >>> 4 = _
  rw [Nat.shiftRight_eq_div_pow]
  omega

/-- Two packets with the same headers have the same fields. -/
theorem fields_of_agree {frame sent : Frame} (agree : ∀ i < 54, frame i = sent i) :
    frame.totalLength = sent.totalLength ∧ frame.srcAddr = sent.srcAddr ∧
    frame.dstAddr = sent.dstAddr ∧ frame.srcPort = sent.srcPort ∧
    frame.dstPort = sent.dstPort ∧ frame.sentSeq = sent.sentSeq ∧
    frame.recvAck = sent.recvAck ∧ frame.dataOff = sent.dataOff ∧
    frame.tcpFlags = sent.tcpFlags ∧ frame.cksum = sent.cksum := by
  have word : ∀ p, p + 2 ≤ 54 → load16 frame p = load16 sent p := by
    intro p inside
    exact load16_of_agree (agree p (by omega)) (agree (p + 1) (by omega))
  have dword : ∀ p, p + 4 ≤ 54 → load32 frame p = load32 sent p := by
    intro p inside
    exact load32_of_agree fun k small => agree (p + k) (by omega)
  exact ⟨word _ (by decide), dword _ (by decide), dword _ (by decide), word _ (by decide),
    word _ (by decide), dword _ (by decide), dword _ (by decide), agree _ (by decide),
    agree _ (by decide), word _ (by decide)⟩

/-- What `ng_tcp_enqueue_recvbuffer` queues for a payload. -/
theorem ngTcpEnqueueRecvbuffer_arrived {frame : Frame} {tcplen : Int} {mem : Nat → Bool}
    {stream : NgTcpStream} (encodable : Encodable fragment)
    (ports : frame.srcPort = fragment.sport ∧ frame.dstPort = fragment.dport)
    (length : tcplen - (frame.dataOff >>> 4).toNat * 4 = fragment.length.toNat)
    (payload : frame.payload tcplen = fragment.bytes)
    (first : mem 0 = true) (second : mem 1 = true) :
    ngTcpEnqueueRecvbuffer mem stream frame tcplen =
      (ringEnqueue stream.rcvbuf fragment.arrived).map fun ring =>
        (0, { stream with rcvbuf := some ring }) := by
  unfold Frame.payload at payload
  unfold ngTcpEnqueueRecvbuffer NgTcpFragment.arrived
  simp only [first, second, if_true, ports.1, ports.2]
  by_cases positive : (0 : Int) < tcplen - (frame.dataOff >>> 4).toNat * 4
  · have count : UInt32.ofNat (tcplen - (frame.dataOff >>> 4).toNat * 4).toNat =
        fragment.length := by
      rw [length, Int.toNat_natCast, UInt32.ofNat_toNat]
    rw [if_pos positive, payload, count]
    cases data : fragment.data with
    | none =>
      have empty := encodable.data.mp data
      rw [length, empty] at positive
      exact absurd positive (by decide)
    | some block => rfl
  · have zero : fragment.length = 0 := by
      rw [← UInt32.toNat_inj]
      change fragment.length.toNat = 0
      omega
    rw [if_neg positive, encodable.data.mpr zero, zero]
    rfl

/-- What is written is read, when all bytes of the packet arrive. -/
theorem Encodable.decoded {cksums : Cksums} {memory frame : Frame} {sip dip : UInt32}
    {srcmac dstmac : List UInt8} (covers : Covers cksums.rteIpv4UdptcpCksum)
    (encodable : Encodable fragment) (options : 0 ≤ fragment.optlen)
    (arrived : ∀ i < (ngTcpPkt cksums memory sip dip srcmac dstmac fragment).pktLen.toNat,
      frame i = (ngTcpPkt cksums memory sip dip srcmac dstmac fragment).msg.bytes i) :
    Decoded cksums.rteIpv4UdptcpCksum sip dip fragment frame := by
  have total := encodable.totalLen options
  have inner := encodable.totalLength options
  have most := encodable.options
  unfold TCP_OPTION_LENGTH at most
  let sent := (ngTcpPkt cksums memory sip dip srcmac dstmac fragment).msg.bytes
  have agree : ∀ i < fragment.totalLen.toNat, frame i = sent i := arrived
  obtain ⟨length, srcAddr, dstAddr, srcPort, dstPort, sentSeq, recvAck, dataOff, tcpFlags,
    cksum⟩ := fields_of_agree fun i small => agree i (by omega)
  obtain ⟨length', srcAddr', dstAddr', srcPort', dstPort', sentSeq', recvAck', dataOff',
    tcpFlags'⟩ := @ngEncodeTcpApppkt_fields cksums (Msg.blank memory) sip dip srcmac dstmac
      fragment options
  have written := @ngEncodeTcpApppkt_cksum cksums (Msg.blank memory) sip dip srcmac dstmac fragment
  have covered : (ntohs sent.totalLength).toNat = fragment.length.toNat + 40 +
      4 * fragment.optlen := by
    change ((ntohs (Frame.totalLength (ngEncodeTcpApppkt cksums (Msg.blank memory) sip dip srcmac
      dstmac fragment).bytes)).toNat : Int) = _
    rw [length', htons, ntohs_ntohs]
    exact inner
  have words : (frame.clearCksum.dataOff >>> 4).toNat = 5 + fragment.optlen.toNat := by
    change (frame.dataOff >>> 4).toNat = _
    rw [dataOff]
    change (Frame.dataOff (ngEncodeTcpApppkt cksums (Msg.blank memory) sip dip srcmac dstmac
      fragment).bytes >>> 4).toNat = _
    rw [dataOff']
    exact encodable.words options
  have tcplen : frame.clearCksum.tcplen = fragment.length.toNat + 20 + 4 * fragment.optlen := by
    unfold Frame.tcplen sizeofIpv4Hdr
    rw [clearCksum_totalLength, length]
    omega
  have size : frame.clearCksum.tcplen - (frame.clearCksum.dataOff >>> 4).toNat * 4 =
      fragment.length.toNat := by
    rw [words, tcplen]
    omega
  have payload : frame.clearCksum.payload frame.clearCksum.tcplen = fragment.bytes := by
    unfold Frame.payload
    rw [size, Int.toNat_natCast, words, ← encodable.bytes_length]
    apply copyBytes_of_agree
    intro k inside
    have bound : k < fragment.length.toNat := by
      rw [← encodable.bytes_length]
      exact inside
    have place : tcphdr + (5 + fragment.optlen.toNat) * 4 + k =
        54 + fragment.optlen.toNat * 4 + k := by
      unfold tcphdr sizeofEtherHdr sizeofIpv4Hdr
      omega
    have other : ¬ (54 + fragment.optlen.toNat * 4 + k = tcphdr + 16 ∨
        54 + fragment.optlen.toNat * 4 + k = tcphdr + 17) := by
      unfold tcphdr sizeofEtherHdr sizeofIpv4Hdr
      omega
    rw [place, Frame.clearCksum, if_neg other, agree _ (by omega)]
    exact ngEncodeTcpApppkt_payload options k inside
  have ports : frame.srcPort = fragment.sport ∧ frame.dstPort = fragment.dport :=
    ⟨srcPort.trans srcPort', dstPort.trans dstPort'⟩
  refine ⟨?_, ⟨srcAddr.trans srcAddr', dstAddr.trans dstAddr'⟩, ports, ?_,
    tcpFlags.trans tcpFlags', payload, ?_⟩
  · have same : cksums.rteIpv4UdptcpCksum sent.clearCksum =
        cksums.rteIpv4UdptcpCksum frame.clearCksum := by
      apply covers
      intro i _ inside
      rw [clearCksum_totalLength] at inside
      unfold tcphdr sizeofEtherHdr sizeofIpv4Hdr at inside
      unfold Frame.clearCksum
      rw [agree i (by omega)]
    rw [← same, cksum]
    exact written.symm
  · constructor
    · rw [sentSeq]
      change ntohl (Frame.sentSeq (ngEncodeTcpApppkt cksums (Msg.blank memory) sip dip srcmac
        dstmac fragment).bytes) = _
      rw [sentSeq', htonl, ntohl_ntohl]
    · rw [recvAck]
      change ntohl (Frame.recvAck (ngEncodeTcpApppkt cksums (Msg.blank memory) sip dip srcmac
        dstmac fragment).bytes) = _
      rw [recvAck', htonl, ntohl_ntohl]
  · intro mem stream first second
    exact ngTcpEnqueueRecvbuffer_arrived encodable ports size payload first second

/-- A packet that arrives as it was sent is read as the fragment that was written. -/
theorem ngTcpPkt_decoded {cksums : Cksums} {memory frame : Frame} {sip dip : UInt32}
    {srcmac dstmac : List UInt8} (covers : Covers cksums.rteIpv4UdptcpCksum)
    (encodable : Encodable fragment) (options : 0 ≤ fragment.optlen)
    (arrived : ∀ i < (ngTcpPkt cksums memory sip dip srcmac dstmac fragment).pktLen.toNat,
      frame i = (ngTcpPkt cksums memory sip dip srcmac dstmac fragment).msg.bytes i) :
    Decoded cksums.rteIpv4UdptcpCksum sip dip fragment frame :=
  Encodable.decoded covers encodable options arrived

end

/-- The sum of the words of a segment; a last single byte counts as a word. -/
def segmentSum (frame : Frame) (length : Nat) : Nat :=
  ((List.range (length / 2)).map fun k => (load16 frame (tcphdr + 2 * k)).toNat).sum +
    if length % 2 = 1 then (frame (tcphdr + (length - 1))).toNat else 0

/-- The sum of the words of the pseudo header. -/
def pseudoSum (frame : Frame) (length : Nat) : Nat :=
  (load16 frame 26).toNat + (load16 frame 28).toNat + (load16 frame 30).toNat +
    (load16 frame 32).toNat + (frame 23).toNat * 256 + (ntohs (UInt16.ofNat length)).toNat

/-- The internet checksum of a segment and its pseudo header, in the order of the machine. -/
def inetCksum (frame : Frame) : UInt16 :=
  let total := (ntohs frame.totalLength).toNat
  if total < sizeofIpv4Hdr then 0
  else
    let length := total - sizeofIpv4Hdr
    let sum := segmentSum frame length + pseudoSum frame length
    let sum := sum % 65536 + sum / 65536
    let sum := sum % 65536 + sum / 65536
    UInt16.ofNat (65535 - sum)

/-- The internet checksum is a function of what it covers. -/
theorem inetCksum_covers : Covers inetCksum := by
  intro f g agree
  unfold tcphdr sizeofEtherHdr sizeofIpv4Hdr at agree
  have word : ∀ p, 14 ≤ p → p + 2 ≤ 34 ∨ p + 2 ≤ 14 + (ntohs f.totalLength).toNat →
      load16 f p = load16 g p := by
    intro p above inside
    exact load16_of_agree (agree p above (by omega)) (agree (p + 1) (by omega) (by omega))
  have total : f.totalLength = g.totalLength := word 16 (by decide) (Or.inl (by decide))
  unfold inetCksum
  simp only [← total]
  split
  · rfl
  · rename_i long
    unfold sizeofIpv4Hdr at long ⊢
    have pseudo : pseudoSum f ((ntohs f.totalLength).toNat - 20) =
        pseudoSum g ((ntohs f.totalLength).toNat - 20) := by
      unfold pseudoSum
      rw [word 26 (by decide) (Or.inl (by decide)), word 28 (by decide) (Or.inl (by decide)),
        word 30 (by decide) (Or.inl (by decide)), word 32 (by decide) (Or.inl (by decide)),
        agree 23 (by decide) (Or.inl (by decide))]
    have segment : segmentSum f ((ntohs f.totalLength).toNat - 20) =
        segmentSum g ((ntohs f.totalLength).toNat - 20) := by
      unfold segmentSum tcphdr sizeofEtherHdr sizeofIpv4Hdr
      congr 1
      · congr 1
        apply List.map_congr_left
        intro k member
        have small := List.mem_range.mp member
        rw [word _ (by omega) (by omega)]
      · split
        · rw [agree _ (by omega) (by omega)]
        · rfl
    rw [pseudo, segment]

/-- Two bytes from port 80. -/
def twoBytes : NgTcpFragment :=
  { NgTcpFragment.zero with
    sport := 0x5000, dport := 0x3930, seqnum := 7, acknum := 9, hdrlenOff := 0x50
    tcpFlags := RTE_TCP_ACK_FLAG ||| RTE_TCP_PSH_FLAG, data := some [65, 66, 0], length := 2 }

/-- They fit into a packet. -/
theorem twoBytes_encodable : Encodable twoBytes := by
  refine ⟨by decide, by decide, by decide, ?_, by decide⟩
  intro bytes data
  rw [← Option.some.inj data]
  decide

/-- The bytes are read. -/
theorem ngTcpPkt_decoded_twoBytes :
    Decoded inetCksum 1 2 twoBytes
      (ngTcpPkt ⟨fun _ => 0, inetCksum⟩ (fun _ => 0) 1 2 [] [] twoBytes).msg.bytes :=
  @ngTcpPkt_decoded twoBytes ⟨fun _ => 0, inetCksum⟩ (fun _ => 0) _ 1 2 [] [] inetCksum_covers
    twoBytes_encodable (by decide) fun _ _ => rfl

/-- A fragment whose header is shorter than a header. -/
def sixBytes : NgTcpFragment :=
  { NgTcpFragment.zero with
    hdrlenOff := 0x40, optlen := -1, data := some [1, 2, 3, 4, 5, 6], length := 6 }

/-- The fragment that is queued for the application has its port swapped; and with a negative
number of options the checksum is written over the payload. -/
theorem ngTcpPkt_misread :
    (Encodable twoBytes ∧
      let frame := (ngTcpPkt ⟨fun _ => 0, inetCksum⟩ (fun _ => 0) 1 2 [] [] twoBytes).msg.bytes
      ((ngTcpEnqueueRecvbuffer (fun _ => true) { NgTcpStream.zero with rcvbuf := some [] }
        frame.clearCksum frame.clearCksum.tcplen).bind fun (_, stream) =>
          stream.rcvbuf.map (List.map NgTcpFragment.sport)) = some [0x0050] ∧
      twoBytes.sport ≠ 0x0050) ∧
    (Encodable sixBytes ∧
      let frame := (ngTcpPkt ⟨fun _ => 0, inetCksum⟩ (fun _ => 0) 1 2 [] [] sixBytes).msg.bytes
      frame.clearCksum.payload frame.clearCksum.tcplen = [0, 0, 3, 4, 5, 6] ∧
      sixBytes.bytes ≠ [0, 0, 3, 4, 5, 6]) := by
  refine ⟨⟨twoBytes_encodable, by decide +kernel, by decide⟩, ⟨?_, by decide +kernel, by decide⟩⟩
  refine ⟨by decide, by decide, by decide, ?_, by decide⟩
  intro bytes data
  rw [← Option.some.inj data]
  decide

end BackendCpp.Tcp
