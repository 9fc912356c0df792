import BackendCpp.Tcp.Output

/-!
# The program of tcp.c: datagrams and the dispatch of packets

The UDP side of `网络编程之自研协程框架/tcp.c` and the loop of `pkt_process`. A copy that reads
past the end of a block reads memory that is an argument, `beyond`. What is done with a
received packet is recorded: it is freed, or handed to the kernel with `rte_kni_tx_burst`.
-/

namespace BackendCpp.Tcp

/-- `sizeof(struct rte_udp_hdr)`. -/
def sizeofUdpHdr : Nat := 8

/-- Where `udphdr` points to. -/
def udphdr : Nat := sizeofEtherHdr + sizeofIpv4Hdr

/-- `ehdr->ether_type`. -/
def Frame.etherType (frame : Frame) : UInt16 := load16 frame 12

/-- `ehdr->s_addr`. -/
def Frame.sAddr (frame : Frame) : List UInt8 := copyBytes frame 6 RTE_ETHER_ADDR_LEN

/-- `iphdr->next_proto_id`. -/
def Frame.nextProtoId (frame : Frame) : UInt8 := frame (sizeofEtherHdr + 9)

/-- `udphdr->src_port`. -/
def Frame.udpSrcPort (frame : Frame) : UInt16 := load16 frame udphdr

/-- `udphdr->dst_port`. -/
def Frame.udpDstPort (frame : Frame) : UInt16 := load16 frame (udphdr + 2)

/-- `udphdr->dgram_len`. -/
def Frame.dgramLen (frame : Frame) : UInt16 := load16 frame (udphdr + 4)

/-- `count` bytes from a pointer into a block, with the memory that follows the block. -/
def readBlock (data : List UInt8) (beyond : Nat → UInt8) (start count : Nat) : List UInt8 :=
  (List.range count).map fun k => data.getD (start + k) (beyond (start + k))

/-- `get_hostinfo_fromip_port`. Every host has the protocol `IPPROTO_UDP`. -/
def getHostinfoFromipPort (w : Stack) (dip : UInt32) (port : UInt16) (proto : UInt8) : Option Nat :=
  w.lhost.find? fun a =>
    dip = (w.hosts a).localip ∧ port = (w.hosts a).localport ∧ proto = IPPROTO_UDP

/-- What is done with a received packet. -/
inductive Disposal
  /-- `rte_pktmbuf_free`. -/
  | freed (mbuf : Nat)
  /-- `rte_kni_tx_burst`. -/
  | kni (mbuf : Nat)
  deriving DecidableEq

/-- The packet that is disposed of. -/
def Disposal.mbuf : Disposal → Nat
  | .freed mbuf => mbuf
  | .kni mbuf => mbuf

/-- `rte_ring_mp_enqueue` on the ring of a host. -/
def offloadEnqueue (ring : List Offload) (ol : Offload) : List Offload :=
  if ring.length < RING_SIZE - 1 then ring ++ [ol] else ring

/-- `udp_process`, of the packet `mbuf`. The allocations are the `offload` and its data. There is
no memory for zero bytes, nor for the size that a length below the header wraps to. -/
def udpProcess (mem : Nat → Bool) (w : Stack) (mbuf : Nat) (frame : Frame) :
    Int × Stack × List Disposal :=
  match getHostinfoFromipPort w frame.dstAddr frame.udpDstPort frame.nextProtoId with
  | none => (-3, w, [.freed mbuf])
  | some a =>
    if mem 0 then
      let length := ntohs frame.dgramLen
      if mem 1 && decide (sizeofUdpHdr < length.toNat) then
        let ol : Offload :=
          { sip := frame.srcAddr, dip := frame.dstAddr, sport := frame.udpSrcPort
            dport := frame.udpDstPort
            data := copyBytes frame (udphdr + sizeofUdpHdr) (length.toNat - sizeofUdpHdr)
            length := length }
        let host := w.hosts a
        (0, w.setHost a { host with rcvbuf := offloadEnqueue host.rcvbuf ol }, [.freed mbuf])
      else (-2, w, [.freed mbuf])
    else (-1, w, [.freed mbuf])

/-- `ng_encode_udp_apppkt`. -/
def ngEncodeUdpApppkt (cksums : Cksums) (msg : Msg) (sip dip : UInt32) (sport dport : UInt16)
    (srcmac dstmac data : List UInt8) (beyond : Nat → UInt8) (totalLen : UInt16) : Msg :=
  let msg := encodeIpv4 cksums msg sip dip srcmac dstmac (totalLen - 14) IPPROTO_UDP
  let msg := msg.store16 udphdr sport
  let msg := msg.store16 (udphdr + 2) dport
  let udplen := totalLen - 14 - 20
  let msg := msg.store16 (udphdr + 4) (htons udplen)
  let msg := msg.memcpy (udphdr + sizeofUdpHdr : Nat) (readBlock data beyond 0 udplen.toNat)
  let msg := msg.store16 (udphdr + 6) 0
  msg.store16 (udphdr + 6) (cksums.rteIpv4UdptcpCksum msg.bytes)

/-- `ng_udp_pkt`, with the memory of the packet. -/
def ngUdpPkt (cksums : Cksums) (memory : Frame) (sip dip : UInt32) (sport dport : UInt16)
    (srcmac dstmac data : List UInt8) (beyond : Nat → UInt8) (length : UInt16) : Mbuf :=
  let totalLen : UInt32 := length.toUInt32 + 42
  ⟨totalLen, ngEncodeUdpApppkt cksums (Msg.blank memory) sip dip sport dport srcmac dstmac data
    beyond totalLen.toUInt16⟩

/-- One pass of the loop of `udp_out`: the packets for `ring->out` and the stack. Without memory
for a packet the program exits. -/
def udpOutHost (cksums : Cksums) (entries : List ArpEntry) (pool : Nat → Option Frame)
    (beyond : Nat → UInt8) (w : Stack) (a : Nat) : Option (List Mbuf × Stack) :=
  let host := w.hosts a
  match host.sndbuf with
  | [] => some ([], w)
  | ol :: rest =>
    match ngGetDstMacaddr entries ol.dip with
    | none =>
      (pool a).map fun memory =>
        ([ngSendArp w.gSrcMac memory RTE_ARP_OP_REQUEST gDefaultArpMac ol.sip ol.dip],
          w.setHost a { host with sndbuf := offloadEnqueue rest ol })
    | some dstmac =>
      (pool a).map fun memory =>
        ([ngUdpPkt cksums memory ol.sip ol.dip ol.sport ol.dport host.localmac dstmac ol.data
            beyond ol.length],
          w.setHost a { host with sndbuf := rest })

/-- `udp_out`. -/
def udpOut (cksums : Cksums) (entries : List ArpEntry) (pool : Nat → Option Frame)
    (beyond : Nat → UInt8) (w : Stack) : Option (List Mbuf × Stack) :=
  w.lhost.foldlM
    (fun (packets, w) a =>
      (udpOutHost cksums entries pool beyond w a).map fun (more, w) => (packets ++ more, w))
    ([], w)

/-- `nrecvfrom`: the result, the buffer, the address and port of the sender and the stack. It
waits for a datagram; `mem` says whether there is memory for what remains of one. On a stream it
follows fields of another type. -/
def nrecvfrom (mem : Bool) (beyond : Nat → UInt8) (w : Stack) (sockfd : Int) (buf : Nat → UInt8)
    (len : Nat) : Option (Int × (Nat → UInt8) × Option (UInt32 × UInt16) × Stack) :=
  match getHostinfoFromfd w sockfd with
  | none => some (-1, buf, none, w)
  | some (.stream _) => none
  | some (.host a) =>
    let host := w.hosts a
    match host.rcvbuf with
    | [] => none
    | ol :: rest =>
      if len < ol.length.toNat then
        if mem then
          let buf := memcpy buf (readBlock ol.data beyond 0 len) len
          let left := ol.length.toNat - len
          let ol :=
            { ol with data := readBlock ol.data beyond len left, length := UInt16.ofNat left }
          some (len, buf, some (ol.sip, ol.sport),
            w.setHost a { host with rcvbuf := offloadEnqueue rest ol })
        else none
      else
        let buf := memcpy buf (readBlock ol.data beyond 0 ol.length.toNat) ol.length.toNat
        some (ol.length.toNat, buf, some (ol.sip, ol.sport),
          w.setHost a { host with rcvbuf := rest })

/-- `nsendto`. The allocations are the `offload` and its data; there is no memory for zero bytes.
On a stream it follows fields of another type. -/
def nsendto (mem : Nat → Bool) (w : Stack) (sockfd : Int) (buf : Nat → UInt8) (len : Nat)
    (sinAddr : UInt32) (sinPort : UInt16) : Option (Int × Stack) :=
  match getHostinfoFromfd w sockfd with
  | none => some (-1, w)
  | some (.stream _) => none
  | some (.host a) =>
    let host := w.hosts a
    if mem 0 then
      if mem 1 && decide (0 < len) then
        let ol : Offload :=
          { sip := host.localip, dip := sinAddr, sport := host.localport, dport := sinPort
            data := copyBytes buf 0 len, length := UInt16.ofNat len }
        some (len, w.setHost a { host with sndbuf := offloadEnqueue host.sndbuf ol })
      else some (-1, w)
    else some (-1, w)

/-- The `switch` of `ng_tcp_process`. -/
def ngTcpSwitch (mem : Nat → Bool) (seed : UInt32) (w : Stack) (a : Nat) (frame : Frame) :
    Option Stack :=
  match (w.streams a).status with
  | .listen => (ngTcpHandleListen mem seed w a frame).map Prod.snd
  | .synRcvd => (ngTcpHandleSynRcvd w a frame).map Prod.snd
  | .established =>
    (ngTcpHandleEstablished mem (w.streams a) frame frame.tcplen).map fun (_, stream) =>
      w.setStream a stream
  | .closeWait => some (ngTcpHandleCloseWait w).2
  | .lastAck => some (ngTcpHandleLastAck w a frame).2
  | .closed | .synSent | .finWait1 | .finWait2 | .closing | .timeWait => some w

/-- `ng_tcp_process`, of the packet `mbuf`. -/
def ngTcpProcessMbuf (rteIpv4UdptcpCksum : Frame → UInt16) (mem : Nat → Bool) (seed : UInt32)
    (w : Stack) (mbuf : Nat) (frame : Frame) : Option (Int × Stack × List Disposal) :=
  let tcpcksum := frame.cksum
  let frame := frame.clearCksum
  if rteIpv4UdptcpCksum frame ≠ tcpcksum then some (-1, w, [.freed mbuf])
  else
    match ngTcpStreamSearch w frame.srcAddr frame.dstAddr frame.srcPort frame.dstPort with
    | none => some (-2, w, [.freed mbuf])
    | some a => (ngTcpSwitch mem seed w a frame).map fun w => (0, w, [.freed mbuf])

/-- What the allocator and the clock decide while a packet is processed. -/
structure Fortune where
  /-- Memory for an entry of the table of addresses. -/
  entry : Bool
  /-- Memory for what the handler allocates. -/
  mem : Nat → Bool
  /-- The initial sequence number of a stream. -/
  seed : UInt32

/-- What the loop of `pkt_process` works on. -/
structure Pkt where
  /-- The stack. -/
  stack : Stack
  /-- The table of addresses. -/
  entries : List ArpEntry
  /-- What has been done with the packets of the burst. -/
  disposals : List Disposal

/-- `rte_kni_tx_burst(global_kni, mbufs, num_recvd)` takes every packet of the burst. -/
def kniTxBurst (numRecvd : Nat) : List Disposal := (List.range numRecvd).map .kni

/-- One pass of the loop of `pkt_process` over a burst of `numRecvd` packets: packet `i`, with
what it holds when the loop comes to it. -/
def pktProcessPacket (rteIpv4UdptcpCksum : Frame → UInt16) (numRecvd : Nat) (s : Pkt) (i : Nat)
    (fortune : Fortune) (frame : Frame) : Option Pkt :=
  if frame.etherType = htons RTE_ETHER_TYPE_IPV4 then
    let s :=
      { s with entries := (ngArpEntryInsert fortune.entry s.entries frame.srcAddr frame.sAddr).2 }
    if frame.nextProtoId = IPPROTO_UDP then
      let (_, stack, disposals) := udpProcess fortune.mem s.stack i frame
      some { s with stack := stack, disposals := s.disposals ++ disposals }
    else if frame.nextProtoId = IPPROTO_TCP then
      (ngTcpProcessMbuf rteIpv4UdptcpCksum fortune.mem fortune.seed s.stack i frame).map
        fun (_, stack, disposals) =>
          { s with stack := stack, disposals := s.disposals ++ disposals }
    else some { s with disposals := s.disposals ++ kniTxBurst numRecvd }
  else some { s with disposals := s.disposals ++ kniTxBurst numRecvd }

/-- The loop of `pkt_process` over a burst. -/
def pktProcessBurst (rteIpv4UdptcpCksum : Frame → UInt16) (numRecvd : Nat) :
    Pkt → Nat → List (Fortune × Frame) → Option Pkt
  | s, _, [] => some s
  | s, i, (fortune, frame) :: rest =>
    (pktProcessPacket rteIpv4UdptcpCksum numRecvd s i fortune frame).bind fun s =>
      pktProcessBurst rteIpv4UdptcpCksum numRecvd s (i + 1) rest

end BackendCpp.Tcp
