import BackendCpp.Tcp.Program

/-!
# The program of tcp.c: what it sends

The encoders of `网络编程之自研协程框架/tcp.c` write into the memory of a packet, through pointers
to its headers. A message records what that memory holds and which offsets have been written.
The checksum functions of DPDK are arguments; so is the memory of the packets that
`rte_pktmbuf_alloc` answers with, `none` when there is none left.
-/

namespace BackendCpp.Tcp

/-- The memory of a packet that is being written. -/
structure Msg where
  /-- What it holds. -/
  bytes : Frame
  /-- The offsets that have been written, the last one first. -/
  written : List Nat

/-- Store a byte. -/
def Msg.store8 (msg : Msg) (offset : Nat) (value : UInt8) : Msg :=
  ⟨Function.update msg.bytes offset value, offset :: msg.written⟩

/-- A 16-bit store. -/
def Msg.store16 (msg : Msg) (offset : Nat) (value : UInt16) : Msg :=
  (msg.store8 offset value.toUInt8).store8 (offset + 1) (value >>> 8).toUInt8

/-- A 32-bit store. -/
def Msg.store32 (msg : Msg) (offset : Nat) (value : UInt32) : Msg :=
  (msg.store16 offset value.toUInt16).store16 (offset + 2) (value >>> 16).toUInt16

/-- `rte_memcpy` into a packet. Bytes before its beginning are not part of it. -/
def Msg.memcpy (msg : Msg) (offset : Int) : List UInt8 → Msg
  | [] => msg
  | byte :: rest =>
    Msg.memcpy (if 0 ≤ offset then msg.store8 offset.toNat byte else msg) (offset + 1) rest

/-- `htons`. -/
def htons (x : UInt16) : UInt16 := ntohs x

/-- `htonl`. -/
def htonl (x : UInt32) : UInt32 := ntohl x

/-- `RTE_ETHER_ADDR_LEN`. -/
def RTE_ETHER_ADDR_LEN : Nat := 6

/-- `RTE_ETHER_TYPE_IPV4`. -/
def RTE_ETHER_TYPE_IPV4 : UInt16 := 0x0800

/-- `RTE_ETHER_TYPE_ARP`. -/
def RTE_ETHER_TYPE_ARP : UInt16 := 0x0806

/-- `RTE_ARP_OP_REQUEST`. -/
def RTE_ARP_OP_REQUEST : UInt16 := 1

/-- `IPPROTO_TCP`. -/
def IPPROTO_TCP : UInt8 := 6

/-- `IPPROTO_UDP`. -/
def IPPROTO_UDP : UInt8 := 17

/-- `TCP_OPTION_LENGTH`. -/
def TCP_OPTION_LENGTH : Int := 10

/-- `sizeof(struct rte_tcp_hdr)`. -/
def sizeofTcpHdr : Nat := 20

/-- `gDefaultArpMac`. -/
def gDefaultArpMac : List UInt8 := List.replicate RTE_ETHER_ADDR_LEN 0xFF

/-- The checksum functions of DPDK, of the packet that they point into. -/
structure Cksums where
  /-- `rte_ipv4_cksum`. -/
  rteIpv4Cksum : Frame → UInt16
  /-- `rte_ipv4_udptcp_cksum`. -/
  rteIpv4UdptcpCksum : Frame → UInt16

/-- `struct rte_mbuf`. -/
structure Mbuf where
  /-- `pkt_len` and `data_len`. -/
  pktLen : UInt32
  /-- The packet. -/
  msg : Msg

/-- The memory that `rte_pktmbuf_alloc` answers with. -/
def Msg.blank (memory : Frame) : Msg := ⟨memory, []⟩

/-- `struct arp_entry`. -/
structure ArpEntry where
  /-- Address. -/
  ip : UInt32
  /-- Hardware address. -/
  hwaddr : List UInt8

/-- `ng_get_dst_macaddr`, on the entries of the table. -/
def ngGetDstMacaddr (entries : List ArpEntry) (dip : UInt32) : Option (List UInt8) :=
  (entries.find? fun entry => dip = entry.ip).map ArpEntry.hwaddr

/-- `ng_arp_entry_insert`; `mem` says whether there is memory for the entry. -/
def ngArpEntryInsert (mem : Bool) (entries : List ArpEntry) (ip : UInt32) (mac : List UInt8) :
    Int × List ArpEntry :=
  match ngGetDstMacaddr entries ip with
  | none => (1, if mem then ⟨ip, mac⟩ :: entries else entries)
  | some _ => (0, entries)

/-- `ng_encode_arp_pkt`. -/
def ngEncodeArpPkt (gSrcMac : List UInt8) (msg : Msg) (opcode : UInt16) (dstMac : List UInt8)
    (sip dip : UInt32) : Msg :=
  let msg := msg.memcpy 6 (gSrcMac.take RTE_ETHER_ADDR_LEN)
  let msg :=
    if dstMac.take RTE_ETHER_ADDR_LEN = gDefaultArpMac then
      msg.memcpy 0 (List.replicate RTE_ETHER_ADDR_LEN 0)
    else msg.memcpy 0 (dstMac.take RTE_ETHER_ADDR_LEN)
  let msg := msg.store16 12 (htons RTE_ETHER_TYPE_ARP)
  let arp := sizeofEtherHdr
  let msg := msg.store16 arp (htons 1)
  let msg := msg.store16 (arp + 2) (htons RTE_ETHER_TYPE_IPV4)
  let msg := msg.store8 (arp + 4) 6
  let msg := msg.store8 (arp + 5) 4
  let msg := msg.store16 (arp + 6) (htons opcode)
  let msg := msg.memcpy (arp + 8) (gSrcMac.take RTE_ETHER_ADDR_LEN)
  let msg := msg.memcpy (arp + 18) (dstMac.take RTE_ETHER_ADDR_LEN)
  let msg := msg.store32 (arp + 14) sip
  msg.store32 (arp + 24) dip

/-- `ng_send_arp`, with the memory of the packet. -/
def ngSendArp (gSrcMac : List UInt8) (memory : Frame) (opcode : UInt16) (dstMac : List UInt8)
    (sip dip : UInt32) : Mbuf :=
  ⟨42, ngEncodeArpPkt gSrcMac (Msg.blank memory) opcode dstMac sip dip⟩

/-- The Ethernet and IPv4 headers, which the encoders of TCP and UDP write alike. -/
def encodeIpv4 (cksums : Cksums) (msg : Msg) (sip dip : UInt32) (srcmac dstmac : List UInt8)
    (totalLength : UInt16) (nextProtoId : UInt8) : Msg :=
  let msg := msg.memcpy 6 (srcmac.take RTE_ETHER_ADDR_LEN)
  let msg := msg.memcpy 0 (dstmac.take RTE_ETHER_ADDR_LEN)
  let msg := msg.store16 12 (htons RTE_ETHER_TYPE_IPV4)
  let ip := sizeofEtherHdr
  let msg := msg.store8 ip 0x45
  let msg := msg.store8 (ip + 1) 0
  let msg := msg.store16 (ip + 2) (htons totalLength)
  let msg := msg.store16 (ip + 4) 0
  let msg := msg.store16 (ip + 6) 0
  let msg := msg.store8 (ip + 8) 64
  let msg := msg.store8 (ip + 9) nextProtoId
  let msg := msg.store32 (ip + 12) sip
  let msg := msg.store32 (ip + 16) dip
  let msg := msg.store16 (ip + 10) 0
  msg.store16 (ip + 10) (cksums.rteIpv4Cksum msg.bytes)

/-- The length that `ng_encode_tcp_apppkt` and `ng_tcp_pkt` compute. -/
def NgTcpFragment.totalLen (fragment : NgTcpFragment) : UInt32 :=
  fragment.length + UInt32.ofNat (sizeofEtherHdr + sizeofIpv4Hdr + sizeofTcpHdr) +
    UInt32.ofInt fragment.optlen * 4

/-- The branch of `ng_encode_tcp_apppkt` that copies the payload behind the options. -/
def Msg.copyPayload (msg : Msg) (fragment : NgTcpFragment) : Msg :=
  match fragment.data with
  | some data =>
    msg.memcpy ((tcphdr + sizeofTcpHdr : Nat) + fragment.optlen * 4)
      (data.take fragment.length.toNat)
  | none => msg

/-- `ng_encode_tcp_apppkt`. -/
def ngEncodeTcpApppkt (cksums : Cksums) (msg : Msg) (sip dip : UInt32)
    (srcmac dstmac : List UInt8) (fragment : NgTcpFragment) : Msg :=
  let msg := encodeIpv4 cksums msg sip dip srcmac dstmac
    (fragment.totalLen - UInt32.ofNat sizeofEtherHdr).toUInt16 IPPROTO_TCP
  let msg := msg.store16 tcphdr fragment.sport
  let msg := msg.store16 (tcphdr + 2) fragment.dport
  let msg := msg.store32 (tcphdr + 4) (htonl fragment.seqnum)
  let msg := msg.store32 (tcphdr + 8) (htonl fragment.acknum)
  let msg := msg.store8 (tcphdr + 12) fragment.hdrlenOff
  let msg := msg.store16 (tcphdr + 14) fragment.windows
  let msg := msg.store16 (tcphdr + 18) fragment.tcpUrp
  let msg := msg.store8 (tcphdr + 13) fragment.tcpFlags
  let msg := msg.copyPayload fragment
  let msg := msg.store16 (tcphdr + 16) 0
  msg.store16 (tcphdr + 16) (cksums.rteIpv4UdptcpCksum msg.bytes)

/-- `ng_tcp_pkt`, with the memory of the packet. -/
def ngTcpPkt (cksums : Cksums) (memory : Frame) (sip dip : UInt32) (srcmac dstmac : List UInt8)
    (fragment : NgTcpFragment) : Mbuf :=
  ⟨fragment.totalLen,
    ngEncodeTcpApppkt cksums (Msg.blank memory) sip dip srcmac dstmac fragment⟩

/-- One pass of the loop of `ng_tcp_out`: the packets for `ring->out` and the stack. Without
memory for a packet the program exits. -/
def ngTcpOutStream (cksums : Cksums) (entries : List ArpEntry) (pool : Nat → Option Frame)
    (w : Stack) (a : Nat) : Option (List Mbuf × Stack) :=
  let stream := w.streams a
  match stream.sndbuf with
  | none => some ([], w)
  | some [] => some ([], w)
  | some (fragment :: rest) =>
    match ngGetDstMacaddr entries stream.sip with
    | none =>
      (pool a).map fun memory =>
        ([ngSendArp w.gSrcMac memory RTE_ARP_OP_REQUEST gDefaultArpMac stream.dip stream.sip],
          w.setStream a { stream with sndbuf := ringEnqueue (some rest) fragment })
    | some dstmac =>
      (pool a).map fun memory =>
        ([ngTcpPkt cksums memory stream.dip stream.sip stream.localmac dstmac fragment],
          w.setStream a { stream with sndbuf := some rest })

/-- `ng_tcp_out`. -/
def ngTcpOut (cksums : Cksums) (entries : List ArpEntry) (pool : Nat → Option Frame)
    (w : Stack) : Option (List Mbuf × Stack) :=
  w.tcbSet.foldlM
    (fun (packets, w) a =>
      (ngTcpOutStream cksums entries pool w a).map fun (more, w) => (packets ++ more, w))
    ([], w)

/-- The fragment that `nsend` makes. -/
def nsendFragment (stream : NgTcpStream) (buf : Nat → UInt8) (len : Nat) : NgTcpFragment :=
  { NgTcpFragment.zero with
    dport := stream.sport, sport := stream.dport, acknum := stream.rcvNxt
    seqnum := stream.sndNxt, tcpFlags := RTE_TCP_ACK_FLAG ||| RTE_TCP_PSH_FLAG
    windows := TCP_INITIAL_WINDOW, hdrlenOff := 0x50
    data := some (copyBytes buf 0 len ++ [0]), length := UInt32.ofNat len }

/-- `nsend`. The allocations are the fragment and its data. -/
def nsend (mem : Nat → Bool) (w : Stack) (sockfd : Int) (buf : Nat → UInt8) (len : Nat) :
    Option (Int × Stack) :=
  match getHostinfoFromfd w sockfd with
  | none => some (-1, w)
  | some (.host _) => some (0, w)
  | some (.stream a) =>
    let stream := w.streams a
    if mem 0 then
      if mem 1 then
        let fragment := nsendFragment stream buf len
        (ringEnqueue stream.sndbuf fragment).map fun ring =>
          (fragment.length.toNat, w.setStream a { stream with sndbuf := some ring })
      else some (-1, w)
    else some (-2, w)

end BackendCpp.Tcp
