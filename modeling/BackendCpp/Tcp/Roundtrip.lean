import BackendCpp.Tcp.Datagrams
import BackendCpp.Tcp.Memory
import BackendCpp.Tcp.Sockets
import Mathlib.Data.List.GetD

/-!
# Datagrams from one application to another

A datagram goes from `nsendto` through `udp_out` into a packet, and from the packet through
`udp_process` to `nrecvfrom`. The addresses, the ports and the bytes arrive. The length that
`udp_process` queues counts the header, though, so `nrecvfrom` returns eight bytes too many when
it has room for them; and `ng_encode_udp_apppkt` copies as many bytes as the datagram has with
its header, the last eight of them behind the end of the packet.
-/

namespace BackendCpp.Tcp

/-- As many bytes are read as are asked for. -/
@[simp] theorem length_readBlock (data : List UInt8) (beyond : Nat → UInt8) (start count : Nat) :
    (readBlock data beyond start count).length = count := by
  rw [readBlock, List.length_map, List.length_range]

/-- As many bytes are copied as are asked for. -/
@[simp] theorem length_copyBytes (memory : Nat → UInt8) (start count : Nat) :
    (copyBytes memory start count).length = count := by
  rw [copyBytes, List.length_map, List.length_range]

/-- A byte of a block that holds a copy. -/
theorem getElem_readBlock_copyBytes {memory beyond : Nat → UInt8} {size count k : Nat}
    (inside : k < size) (bound : k < count) :
    (readBlock (copyBytes memory 0 size) beyond 0 count)[k]? = some (memory k) := by
  have among : k < (copyBytes memory 0 size).length := by
    rw [length_copyBytes]
    exact inside
  rw [readBlock, List.getElem?_map, List.getElem?_range bound, Option.map_some, Nat.zero_add,
    List.getD_eq_getElem _ _ among]
  simp only [copyBytes, List.getElem_map, List.getElem_range, Nat.zero_add]

section

variable {cksums : Cksums} {msg : Msg} {sip dip : UInt32} {sport dport : UInt16}
  {srcmac dstmac data : List UInt8} {beyond : Nat → UInt8} {totalLen : UInt16}

/-- The addresses in the packet. -/
theorem ngEncodeUdpApppkt_addresses :
    (ngEncodeUdpApppkt cksums msg sip dip sport dport srcmac dstmac data beyond
      totalLen).bytes.srcAddr = sip ∧
    (ngEncodeUdpApppkt cksums msg sip dip sport dport srcmac dstmac data beyond
      totalLen).bytes.dstAddr = dip := by
  unfold ngEncodeUdpApppkt Frame.srcAddr Frame.dstAddr udphdr sizeofUdpHdr sizeofEtherHdr
    sizeofIpv4Hdr
  simp (disch := omega) only [load32_store16_ne, load32_memcpy_ne]
  exact ⟨encodeIpv4_srcAddr, encodeIpv4_dstAddr⟩

/-- The ports in the packet. -/
theorem ngEncodeUdpApppkt_ports :
    (ngEncodeUdpApppkt cksums msg sip dip sport dport srcmac dstmac data beyond
      totalLen).bytes.udpSrcPort = sport ∧
    (ngEncodeUdpApppkt cksums msg sip dip sport dport srcmac dstmac data beyond
      totalLen).bytes.udpDstPort = dport := by
  unfold ngEncodeUdpApppkt Frame.udpSrcPort Frame.udpDstPort udphdr sizeofUdpHdr sizeofEtherHdr
    sizeofIpv4Hdr
  simp (disch := omega) only [load16_store16_ne, load16_memcpy_ne, load16_store16, and_self]

/-- The protocol in the packet. -/
theorem ngEncodeUdpApppkt_nextProtoId :
    (ngEncodeUdpApppkt cksums msg sip dip sport dport srcmac dstmac data beyond
      totalLen).bytes.nextProtoId = IPPROTO_UDP := by
  unfold ngEncodeUdpApppkt Frame.nextProtoId udphdr sizeofUdpHdr sizeofIpv4Hdr
  have place : sizeofEtherHdr + 9 = 23 := rfl
  have header : sizeofEtherHdr = 14 := rfl
  simp (disch := omega) only [byte_store16_ne, byte_memcpy_ne]
  exact encodeIpv4_nextProtoId

/-- The length in the packet counts the header. -/
theorem ngEncodeUdpApppkt_dgramLen :
    (ngEncodeUdpApppkt cksums msg sip dip sport dport srcmac dstmac data beyond
      totalLen).bytes.dgramLen = htons (totalLen - 14 - 20) := by
  unfold ngEncodeUdpApppkt Frame.dgramLen udphdr sizeofUdpHdr sizeofEtherHdr sizeofIpv4Hdr
  simp (disch := omega) only [load16_store16_ne, load16_memcpy_ne, load16_store16]

/-- The bytes behind the header. -/
theorem ngEncodeUdpApppkt_data {k : Nat} {byte : UInt8}
    (copied : (readBlock data beyond 0 (totalLen - 14 - 20).toNat)[k]? = some byte) :
    (ngEncodeUdpApppkt cksums msg sip dip sport dport srcmac dstmac data beyond
      totalLen).bytes (udphdr + sizeofUdpHdr + k) = byte := by
  obtain ⟨inside, found⟩ := List.getElem?_eq_some_iff.mp copied
  unfold ngEncodeUdpApppkt
  have header : sizeofUdpHdr = 8 := rfl
  simp (disch := omega) only [byte_store16_ne]
  rw [byte_memcpy inside, found]

/-- As many bytes are written behind the header as the datagram has with it. -/
theorem ngEncodeUdpApppkt_written {k : Nat} (inside : k < (totalLen - 14 - 20).toNat) :
    udphdr + sizeofUdpHdr + k ∈ (ngEncodeUdpApppkt cksums msg sip dip sport dport srcmac dstmac
      data beyond totalLen).written := by
  unfold ngEncodeUdpApppkt
  apply written_store16
  apply written_store16
  apply memcpy_writes
  rw [length_readBlock]
  exact inside

end

/-- A host that is found by its descriptor is on the list. -/
theorem mem_lhost_of_found {w : Stack} {sockfd : Int} {a : Nat}
    (found : getHostinfoFromfd w sockfd = some (.host a)) : a ∈ w.lhost := by
  unfold getHostinfoFromfd at found
  split at found
  · rename_i b first
    rw [Option.some.injEq, Hostinfo.host.injEq] at found
    rw [← found]
    exact List.mem_of_find?_eq_some first
  · cases streams : w.tcbSet.find? fun a => (w.streams a).fd = sockfd with
    | none =>
      rw [streams] at found
      cases found
    | some b =>
      rw [streams] at found
      cases found

section

variable {cksums : Cksums} {entries : List ArpEntry} {pool : Nat → Frame} {beyond : Nat → UInt8}

/-- With memory for a packet each pass of the loop of `udp_out` ends, and it leaves the other
hosts alone. -/
theorem udpOutHost_frame (w : Stack) (a : Nat) : ∃ packets after,
    udpOutHost cksums entries (fun a => some (pool a)) beyond w a = some (packets, after) ∧
      ∀ b, b ≠ a → after.hosts b = w.hosts b := by
  unfold udpOutHost
  dsimp only
  split
  · exact ⟨_, _, rfl, fun b apart => rfl⟩
  · split
    · exact ⟨_, _, rfl, fun b apart => Function.update_of_ne apart _ _⟩
    · exact ⟨_, _, rfl, fun b apart => Function.update_of_ne apart _ _⟩

/-- A pass with a datagram for a hardware address that is known. -/
theorem udpOutHost_known {w : Stack} {a : Nat} {ol : Offload} {rest : List Offload}
    {dstmac : List UInt8} (queue : (w.hosts a).sndbuf = ol :: rest)
    (known : ngGetDstMacaddr entries ol.dip = some dstmac) :
    udpOutHost cksums entries (fun a => some (pool a)) beyond w a =
      some ([ngUdpPkt cksums (pool a) ol.sip ol.dip ol.sport ol.dport (w.hosts a).localmac dstmac
        ol.data beyond ol.length], w.setHost a { w.hosts a with sndbuf := rest }) := by
  unfold udpOutHost
  dsimp only
  rw [queue]
  dsimp only
  rw [known]
  rfl

/-- The packet that a pass makes for a host is among those that the loop sends. -/
theorem foldlM_udpOutHost {a : Nat} {ol : Offload} {rest : List Offload} {dstmac : List UInt8}
    (known : ngGetDstMacaddr entries ol.dip = some dstmac) {hosts : List Nat} :
    ∀ (packets : List Mbuf) (w : Stack), ∃ more after,
      hosts.foldlM (fun (packets, w) a =>
        (udpOutHost cksums entries (fun a => some (pool a)) beyond w a).map
          fun (more, w) => (packets ++ more, w)) (packets, w) = some (packets ++ more, after) ∧
      (a ∈ hosts → (w.hosts a).sndbuf = ol :: rest →
        ngUdpPkt cksums (pool a) ol.sip ol.dip ol.sport ol.dport (w.hosts a).localmac dstmac
          ol.data beyond ol.length ∈ more) := by
  induction hosts with
  | nil =>
    intro packets w
    exact ⟨[], w, by rw [List.append_nil]; rfl, fun listed => absurd listed List.not_mem_nil⟩
  | cons b hosts ih =>
    intro packets w
    obtain ⟨first, next, passed, others⟩ := @udpOutHost_frame cksums entries pool beyond w b
    obtain ⟨more, after, ended, sent⟩ := ih (packets ++ first) next
    refine ⟨first ++ more, after, ?_, ?_⟩
    · rw [List.foldlM_cons]
      dsimp only
      rw [passed, Option.map_some, Option.bind_eq_bind, Option.bind_some, ended,
        List.append_assoc]
    · intro listed queue
      rw [List.mem_append]
      by_cases here : a = b
      · apply Or.inl
        subst here
        rw [udpOutHost_known queue known, Option.some.injEq, Prod.mk.injEq] at passed
        rw [← passed.1]
        exact List.mem_singleton_self _
      · apply Or.inr
        rw [← others a here]
        apply sent ((List.mem_cons.mp listed).resolve_left here)
        rw [others a here]
        exact queue

end

/-- A datagram that one application sends to another with `n` bytes at `buf`, and the buffer of
`len` bytes that the other reads it into. The blocks and the packet are followed by other memory,
and there is memory for what is allocated. -/
structure Exchange where
  /-- The checksum functions. -/
  cksums : Cksums
  /-- The stack that sends. -/
  sender : Stack
  /-- The descriptor of the sending application. -/
  sockfd : Int
  /-- Its host. -/
  host : Nat
  /-- The bytes it sends. -/
  buf : Nat → UInt8
  /-- How many bytes it sends. -/
  n : Nat
  /-- The address it sends to. -/
  sinAddr : UInt32
  /-- The port it sends to. -/
  sinPort : UInt16
  /-- The table of addresses. -/
  entries : List ArpEntry
  /-- The hardware address it sends to. -/
  dstmac : List UInt8
  /-- The memory of the packets. -/
  pool : Nat → Frame
  /-- The memory behind the block that it sends. -/
  beyond : Nat → UInt8
  /-- The memory behind the packet that arrives. -/
  behind : Frame
  /-- The stack that receives. -/
  receiver : Stack
  /-- The descriptor of the receiving application. -/
  peerfd : Int
  /-- Its host. -/
  peer : Nat
  /-- Its buffer. -/
  dest : Nat → UInt8
  /-- The size of its buffer. -/
  len : Nat
  /-- The memory behind the block that it reads. -/
  after : Nat → UInt8
  /-- The sender has an open socket. -/
  found : getHostinfoFromfd sender sockfd = some (.host host)
  /-- Nothing else is to be sent from it. -/
  quiet : (sender.hosts host).sndbuf = []
  /-- There is something to send. -/
  nonempty : 1 ≤ n
  /-- It fits into one packet. -/
  fits : n + 42 < 2 ^ 16
  /-- The hardware address is known. -/
  known : ngGetDstMacaddr entries sinAddr = some dstmac
  /-- The receiver is bound to the address and port. -/
  bound : getHostinfoFromipPort receiver sinAddr sinPort IPPROTO_UDP = some peer
  /-- It has an open socket. -/
  opened : getHostinfoFromfd receiver peerfd = some (.host peer)
  /-- Nothing else is to be read from it. -/
  unread : (receiver.hosts peer).rcvbuf = []
  /-- There is room for the bytes. -/
  room : n ≤ len

namespace Exchange

variable (x : Exchange)

/-- `nsendto` queues the datagram. -/
def queued : Option (Int × Stack) :=
  nsendto (fun _ => true) x.sender x.sockfd x.buf x.n x.sinAddr x.sinPort

/-- The packet that `udp_out` makes for the host. -/
def packet : Option Mbuf :=
  x.queued.bind fun (_, w) =>
  (udpOutHost x.cksums x.entries (fun a => some (x.pool a)) x.beyond w x.host).bind
    fun (packets, _) => packets.head?

/-- What arrives of a packet. -/
def arrived (packet : Mbuf) : Frame := fun i =>
  if i < packet.pktLen.toNat then packet.msg.bytes i else x.behind i

/-- `nrecvfrom` reads what `udp_process` has made of a packet. -/
def read (packet : Mbuf) : Option (Int × (Nat → UInt8) × Option (UInt32 × UInt16) × Stack) :=
  nrecvfrom true x.after (udpProcess (fun _ => true) x.receiver 0 (x.arrived packet)).2.1 x.peerfd
    x.dest x.len

/-- `udp_out` sends a packet from which `nrecvfrom` returns the bytes that `nsendto` has queued,
with the address and port of the sender. -/
def Delivers : Prop :=
  ∃ packet, x.packet = some packet ∧
    (∃ w packets out, x.queued = some ((x.n : Int), w) ∧
      udpOut x.cksums x.entries (fun a => some (x.pool a)) x.beyond w = some (packets, out) ∧
      packet ∈ packets) ∧
    ∃ buf w, x.read packet = some ((x.n : Int), buf,
      some ((x.sender.hosts x.host).localip, (x.sender.hosts x.host).localport), w) ∧
      ∀ k < x.n, buf k = x.buf k

/-- `ng_encode_udp_apppkt` writes inside of the packet. -/
def Confined : Prop :=
  ∃ packet, x.packet = some packet ∧ ∀ offset ∈ packet.msg.written, offset < packet.pktLen.toNat

/-- What `nsendto` queues. -/
def sent : Offload :=
  { sip := (x.sender.hosts x.host).localip, dip := x.sinAddr
    sport := (x.sender.hosts x.host).localport, dport := x.sinPort
    data := copyBytes x.buf 0 x.n, length := UInt16.ofNat x.n }

/-- The packet with the datagram. -/
def mbuf : Mbuf :=
  ngUdpPkt x.cksums (x.pool x.host) x.sent.sip x.sent.dip x.sent.sport x.sent.dport
    (x.sender.hosts x.host).localmac x.dstmac x.sent.data x.beyond x.sent.length

/-- What `udp_process` queues: the length counts the header. -/
def came : Offload := { x.sent with length := UInt16.ofNat (x.n + sizeofUdpHdr) }

/-- The stack with the datagram queued. -/
def waiting : Stack :=
  x.sender.setHost x.host { x.sender.hosts x.host with sndbuf := [x.sent] }

/-- The sending host holds the datagram. -/
theorem waiting_host : x.waiting.hosts x.host =
    { x.sender.hosts x.host with sndbuf := [x.sent] } := Function.update_self ..

/-- The stack with the datagram received. -/
def holding : Stack :=
  x.receiver.setHost x.peer { x.receiver.hosts x.peer with rcvbuf := [x.came] }

/-- The receiving host holds the datagram. -/
theorem holding_host : x.holding.hosts x.peer =
    { x.receiver.hosts x.peer with rcvbuf := [x.came] } := Function.update_self ..

/-- `nsendto` queues the datagram. -/
theorem queued_eq : x.queued = some ((x.n : Int), x.waiting) := by
  have some : decide (0 < x.n) = true := decide_eq_true x.nonempty
  have ring : offloadEnqueue [] x.sent = [x.sent] := rfl
  unfold queued nsendto
  rw [x.found]
  dsimp only
  rw [some, x.quiet]
  change Option.some (_, x.sender.setHost x.host
    { x.sender.hosts x.host with sndbuf := offloadEnqueue [] x.sent }) = _
  rw [ring]
  rfl

/-- `udp_out` sends it in one packet. -/
theorem packet_eq : x.packet = some x.mbuf := by
  have queue : (x.waiting.hosts x.host).sndbuf = [x.sent] := by
    rw [x.waiting_host]
  unfold packet
  rw [x.queued_eq, Option.bind_some]
  dsimp only
  rw [udpOutHost_known queue x.known, Option.bind_some, x.waiting_host]
  rfl

/-- `udp_out` sends the packet. -/
theorem udpOut_mbuf : ∃ packets out,
    udpOut x.cksums x.entries (fun a => some (x.pool a)) x.beyond x.waiting =
      some (packets, out) ∧ x.mbuf ∈ packets := by
  have queue : (x.waiting.hosts x.host).sndbuf = [x.sent] := by
    rw [x.waiting_host]
  obtain ⟨packets, out, ended, sends⟩ := @foldlM_udpOutHost x.cksums x.entries x.pool x.beyond
    x.host x.sent [] x.dstmac x.known x.waiting.lhost [] x.waiting
  have listed : x.host ∈ x.sender.lhost := mem_lhost_of_found x.found
  have among := sends listed queue
  rw [x.waiting_host] at among
  exact ⟨packets, out, ended, among⟩

/-- Its length does not wrap. -/
theorem length_toNat : x.sent.length.toNat = x.n := by
  have fits := x.fits
  change (UInt16.ofNat x.n).toNat = x.n
  rw [UInt16.toNat_ofNat']
  omega

/-- Neither does the length in its header. -/
theorem came_length : (UInt16.ofNat (x.n + sizeofUdpHdr)).toNat = x.n + sizeofUdpHdr := by
  have fits := x.fits
  unfold sizeofUdpHdr
  rw [UInt16.toNat_ofNat']
  omega

/-- The length of the packet. -/
theorem pktLen_toNat : x.mbuf.pktLen.toNat = x.n + 42 := by
  have fits := x.fits
  change (x.sent.length.toUInt32 + 42).toNat = x.n + 42
  rw [UInt32.toNat_add, UInt16.toNat_toUInt32, x.length_toNat]
  change (x.n + 42) % 2 ^ 32 = _
  omega

/-- The length of the datagram with its header. -/
theorem udplen_toNat : (x.mbuf.pktLen.toUInt16 - 14 - 20).toNat = x.n + sizeofUdpHdr := by
  have fits := x.fits
  have total : x.mbuf.pktLen.toUInt16.toNat = x.n + 42 := by
    rw [UInt32.toNat_toUInt16, x.pktLen_toNat]
    omega
  rw [UInt16.toNat_sub, UInt16.toNat_sub, total]
  change (2 ^ 16 - 20 + (2 ^ 16 - 14 + (x.n + 42)) % 2 ^ 16) % 2 ^ 16 = x.n + 8
  omega

/-- The copy goes past the end of the packet. -/
theorem not_confined : ¬ x.Confined := by
  intro confined
  obtain ⟨packet, made, inside⟩ := confined
  rw [x.packet_eq, Option.some.injEq] at made
  subst made
  have last : x.n + 7 < (x.mbuf.pktLen.toUInt16 - 14 - 20).toNat := by
    rw [x.udplen_toNat]
    exact Nat.lt_succ_self _
  have within := inside _ (ngEncodeUdpApppkt_written last)
  rw [x.pktLen_toNat] at within
  change 42 + (x.n + 7) < x.n + 42 at within
  omega

/-- The packet arrives as it was written. -/
theorem arrived_byte {i : Nat} (inside : i < x.n + 42) :
    x.arrived x.mbuf i = x.mbuf.msg.bytes i := by
  unfold arrived
  rw [x.pktLen_toNat, if_pos inside]

/-- So does its header. -/
theorem arrived_load16 {o : Nat} (inside : o + 2 ≤ 42) :
    load16 (x.arrived x.mbuf) o = load16 x.mbuf.msg.bytes o :=
  load16_of_agree (x.arrived_byte (by omega)) (x.arrived_byte (by omega))

/-- A double word of the headers arrives. -/
theorem arrived_load32 {o : Nat} (inside : o + 4 ≤ 42) :
    load32 (x.arrived x.mbuf) o = load32 x.mbuf.msg.bytes o :=
  load32_of_agree fun k small => x.arrived_byte (by omega)

/-- The addresses arrive. -/
theorem arrived_addresses : (x.arrived x.mbuf).srcAddr = x.sent.sip ∧
    (x.arrived x.mbuf).dstAddr = x.sent.dip := by
  have fields := @ngEncodeUdpApppkt_addresses
  unfold Frame.srcAddr Frame.dstAddr at *
  rw [x.arrived_load32 (by decide), x.arrived_load32 (by decide)]
  exact fields

/-- The ports arrive. -/
theorem arrived_ports : (x.arrived x.mbuf).udpSrcPort = x.sent.sport ∧
    (x.arrived x.mbuf).udpDstPort = x.sent.dport := by
  have fields := @ngEncodeUdpApppkt_ports
  unfold Frame.udpSrcPort Frame.udpDstPort at *
  rw [x.arrived_load16 (by decide), x.arrived_load16 (by decide)]
  exact fields

/-- The protocol arrives. -/
theorem arrived_nextProtoId : (x.arrived x.mbuf).nextProtoId = IPPROTO_UDP := by
  have inside : sizeofEtherHdr + 9 < x.n + 42 := by
    change 23 < x.n + 42
    omega
  rw [Frame.nextProtoId, x.arrived_byte inside]
  exact ngEncodeUdpApppkt_nextProtoId

/-- The length arrives. -/
theorem arrived_dgramLen :
    ntohs (x.arrived x.mbuf).dgramLen = UInt16.ofNat (x.n + sizeofUdpHdr) := by
  have place : load16 (x.arrived x.mbuf) (udphdr + 4) = load16 x.mbuf.msg.bytes (udphdr + 4) :=
    x.arrived_load16 (by decide)
  have field : load16 x.mbuf.msg.bytes (udphdr + 4) = htons (x.mbuf.pktLen.toUInt16 - 14 - 20) :=
    ngEncodeUdpApppkt_dgramLen
  rw [Frame.dgramLen, place, field, htons, ntohs_ntohs, ← UInt16.toNat_inj, x.udplen_toNat,
    x.came_length]

/-- The bytes behind the header. -/
theorem arrived_data :
    copyBytes (x.arrived x.mbuf) (udphdr + sizeofUdpHdr) x.n = x.sent.data := by
  apply List.ext_getElem
  · rw [length_copyBytes]
    exact (length_copyBytes ..).symm
  · intro k left right
    rw [length_copyBytes] at left
    have inside : udphdr + sizeofUdpHdr + k < x.n + 42 := by
      change 42 + k < x.n + 42
      omega
    have copied : (readBlock x.sent.data x.beyond 0
        (x.mbuf.pktLen.toUInt16 - 14 - 20).toNat)[k]? = some (x.buf k) := by
      apply getElem_readBlock_copyBytes left
      rw [x.udplen_toNat]
      omega
    have byte : x.mbuf.msg.bytes (udphdr + sizeofUdpHdr + k) = x.buf k :=
      ngEncodeUdpApppkt_data copied
    simp only [sent, copyBytes, List.getElem_map, List.getElem_range, Nat.zero_add]
    rw [x.arrived_byte inside, byte]

/-- `udp_process` queues the datagram for the receiver. -/
theorem received :
    (udpProcess (fun _ => true) x.receiver 0 (x.arrived x.mbuf)).2.1 = x.holding := by
  have nonempty := x.nonempty
  have bound : getHostinfoFromipPort x.receiver x.sent.dip x.sent.dport IPPROTO_UDP =
      some x.peer := x.bound
  have longer : decide (sizeofUdpHdr < (UInt16.ofNat (x.n + sizeofUdpHdr)).toNat) = true := by
    rw [x.came_length]
    exact decide_eq_true (by omega)
  have ring : offloadEnqueue [] x.came = [x.came] := rfl
  unfold udpProcess
  rw [x.arrived_addresses.1, x.arrived_addresses.2, x.arrived_ports.1, x.arrived_ports.2,
    x.arrived_nextProtoId, x.arrived_dgramLen]
  rw [bound]
  dsimp only
  rw [longer, x.came_length, Nat.add_sub_cancel, x.arrived_data, x.unread]
  change x.receiver.setHost x.peer
    { x.receiver.hosts x.peer with rcvbuf := offloadEnqueue [] x.came } = _
  rw [ring]
  rfl

/-- The bytes that `nrecvfrom` stores. -/
theorem stored_byte {count k : Nat} (inside : k < x.n) (bound : k < count) :
    memcpy x.dest (readBlock x.came.data x.after 0 count) count k = x.buf k := by
  have copied : (readBlock x.came.data x.after 0 count)[k]? = some (x.buf k) :=
    getElem_readBlock_copyBytes inside bound
  rw [memcpy, if_pos bound, List.getD_eq_getElem?_getD, copied, Option.getD_some]

/-- `nrecvfrom` returns the bytes with the address and port of the sender, and up to eight more
when it has room for them. -/
theorem read_eq : ∃ buf w, x.read x.mbuf =
    some (((min x.len (x.n + sizeofUdpHdr) : Nat) : Int), buf,
      some ((x.sender.hosts x.host).localip, (x.sender.hosts x.host).localport), w) ∧
    ∀ k < x.n, buf k = x.buf k := by
  have room := x.room
  have found : getHostinfoFromfd x.holding x.peerfd = some (.host x.peer) := by
    refine (getHostinfoFromfd_setHost ?_ x.peerfd).trans x.opened
    rfl
  have length : x.came.length.toNat = x.n + sizeofUdpHdr := x.came_length
  unfold read nrecvfrom
  rw [x.received, found]
  dsimp only
  rw [x.holding_host]
  dsimp only
  rw [length]
  by_cases less : x.len < x.n + sizeofUdpHdr
  · rw [if_pos less, if_pos rfl, Nat.min_eq_left (Nat.le_of_lt less)]
    exact ⟨_, _, rfl, fun k inside => x.stored_byte inside (by omega)⟩
  · rw [if_neg less, Nat.min_eq_right (Nat.le_of_not_lt less)]
    exact ⟨_, _, rfl, fun k inside => x.stored_byte inside (by omega)⟩

/-- The datagram is delivered only into a buffer of its own size. -/
theorem delivers_iff : x.Delivers ↔ x.len = x.n := by
  have room := x.room
  have header : sizeofUdpHdr = 8 := rfl
  obtain ⟨buf, w, reads, bytes⟩ := x.read_eq
  constructor
  · intro delivers
    obtain ⟨packet, made, _, buf', w', returned, _⟩ := delivers
    rw [x.packet_eq, Option.some.injEq] at made
    rw [← made, reads, Option.some.injEq, Prod.mk.injEq] at returned
    have count := Int.ofNat_inj.mp returned.1
    omega
  · intro same
    obtain ⟨packets, out, ended, among⟩ := x.udpOut_mbuf
    have count : min x.len (x.n + sizeofUdpHdr) = x.n := by omega
    rw [count] at reads
    exact ⟨x.mbuf, x.packet_eq, ⟨x.waiting, packets, out, x.queued_eq, ended, among⟩, buf, w, reads,
      bytes⟩

/-- UDP encoding and decoding do not agree on any datagram: the encoder writes past the end of
every packet, and the decoder returns the datagram only when the buffer has no room for more. -/
theorem disagrees (x : Exchange) :
    ¬ (x.Delivers ∧ x.Confined) ∧ (x.Delivers ↔ x.len = x.n) :=
  ⟨fun both => x.not_confined both.2, x.delivers_iff⟩

end Exchange

/-- A stack whose application has bound a socket for datagrams. -/
def boundHost (sinAddr : UInt32) (sinPort : UInt16) : Stack :=
  (nbind (nsocket (fun _ => true)
    (Stack.initial (fun _ => .zero) (fun _ => .zero) (List.replicate 6 0)) SOCK_DGRAM).2 3
    sinAddr sinPort).2

/-- One byte, sent to an application with room for a hundred. -/
def shortExchange : Exchange where
  cksums := ⟨fun _ => 0, fun _ => 0⟩
  sender := boundHost 0x0A00000A 0x1F90
  sockfd := 3
  host := 0
  buf := fun _ => 7
  n := 1
  sinAddr := 0x0B00000A
  sinPort := 0x2382
  entries := [⟨0x0B00000A, [2, 0, 0, 0, 0, 1]⟩]
  dstmac := [2, 0, 0, 0, 0, 1]
  pool := fun _ _ => 0
  beyond := fun _ => 0
  behind := fun _ => 0
  receiver := boundHost 0x0B00000A 0x2382
  peerfd := 3
  peer := 0
  dest := fun _ => 0
  len := 100
  after := fun _ => 0
  found := rfl
  quiet := rfl
  nonempty := by decide
  fits := by decide
  known := rfl
  bound := rfl
  opened := rfl
  unread := rfl
  room := by decide

/-- `nrecvfrom` returns nine bytes, and the byte at offset 50 is written in a packet of 43. -/
theorem shortExchange_disagrees :
    (shortExchange.packet.bind shortExchange.read).map Prod.fst = some 9 ∧
      (∃ packet, shortExchange.packet = some packet ∧ packet.pktLen = 43 ∧
        50 ∈ packet.msg.written) ∧
      ¬ shortExchange.Delivers ∧ ¬ shortExchange.Confined := by
  refine ⟨rfl, ⟨shortExchange.mbuf, shortExchange.packet_eq, rfl, by decide⟩, ?_,
    shortExchange.not_confined⟩
  rw [shortExchange.delivers_iff]
  decide

end BackendCpp.Tcp
