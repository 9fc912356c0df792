import Mathlib.Tactic

/-!
# The program of tcp.c

The sockets and the TCP receiver of `网络编程之自研协程框架/tcp.c`. A frame is the memory from
the start of the packet on; the headers are read from it at their offsets, on a little-endian
machine. Sockets live at addresses; the doubly linked lists `lhost` and `tcb_set` are the
lists of the addresses that they link. A call answers `none` when the program does not come
back from it: it blocks, follows a null pointer or leaves through `rte_exit`.

What DPDK decides is an argument: `mem n` says whether the allocation at the `n`-th place of
a function has memory. A ring is the list of what is queued on it.
-/

namespace BackendCpp.Tcp

/-- `RTE_TCP_FIN_FLAG`. -/
def RTE_TCP_FIN_FLAG : UInt8 := 0x01

/-- `RTE_TCP_SYN_FLAG`. -/
def RTE_TCP_SYN_FLAG : UInt8 := 0x02

/-- `RTE_TCP_PSH_FLAG`. -/
def RTE_TCP_PSH_FLAG : UInt8 := 0x08

/-- `RTE_TCP_ACK_FLAG`. -/
def RTE_TCP_ACK_FLAG : UInt8 := 0x10

/-- `TCP_INITIAL_WINDOW`. -/
def TCP_INITIAL_WINDOW : UInt16 := 14600

/-- `RING_SIZE`, of which DPDK leaves one place unused. -/
def RING_SIZE : Nat := 1024

/-- `DEFAULT_FD_NUM`. -/
def DEFAULT_FD_NUM : Nat := 3

/-- `MAX_FD_COUNT`. -/
def MAX_FD_COUNT : Nat := 1024

/-- `SOCK_STREAM`. -/
def SOCK_STREAM : Int := 1

/-- `SOCK_DGRAM`. -/
def SOCK_DGRAM : Int := 2

/-- The memory of a packet, from its first byte on. -/
abbrev Frame := Nat → UInt8

/-- A 16-bit load. -/
def load16 (frame : Frame) (offset : Nat) : UInt16 :=
  (frame offset).toUInt16 ||| ((frame (offset + 1)).toUInt16 <<< 8)

/-- A 32-bit load. -/
def load32 (frame : Frame) (offset : Nat) : UInt32 :=
  (load16 frame offset).toUInt32 ||| ((load16 frame (offset + 2)).toUInt32 <<< 16)

/-- `ntohs`. -/
def ntohs (x : UInt16) : UInt16 := (x <<< 8) ||| (x >>> 8)

/-- `ntohl`. -/
def ntohl (x : UInt32) : UInt32 :=
  ((ntohs x.toUInt16).toUInt32 <<< 16) ||| (ntohs (x >>> 16).toUInt16).toUInt32

/-- `sizeof(struct rte_ether_hdr)`, where `iphdr` points to. -/
def sizeofEtherHdr : Nat := 14

/-- `sizeof(struct rte_ipv4_hdr)`. -/
def sizeofIpv4Hdr : Nat := 20

/-- Where `tcphdr` points to. -/
def tcphdr : Nat := sizeofEtherHdr + sizeofIpv4Hdr

/-- `iphdr->total_length`. -/
def Frame.totalLength (frame : Frame) : UInt16 := load16 frame (sizeofEtherHdr + 2)

/-- `iphdr->src_addr`. -/
def Frame.srcAddr (frame : Frame) : UInt32 := load32 frame (sizeofEtherHdr + 12)

/-- `iphdr->dst_addr`. -/
def Frame.dstAddr (frame : Frame) : UInt32 := load32 frame (sizeofEtherHdr + 16)

/-- `tcphdr->src_port`. -/
def Frame.srcPort (frame : Frame) : UInt16 := load16 frame tcphdr

/-- `tcphdr->dst_port`. -/
def Frame.dstPort (frame : Frame) : UInt16 := load16 frame (tcphdr + 2)

/-- `tcphdr->sent_seq`. -/
def Frame.sentSeq (frame : Frame) : UInt32 := load32 frame (tcphdr + 4)

/-- `tcphdr->recv_ack`. -/
def Frame.recvAck (frame : Frame) : UInt32 := load32 frame (tcphdr + 8)

/-- `tcphdr->data_off`. -/
def Frame.dataOff (frame : Frame) : UInt8 := frame (tcphdr + 12)

/-- `tcphdr->tcp_flags`. -/
def Frame.tcpFlags (frame : Frame) : UInt8 := frame (tcphdr + 13)

/-- `tcphdr->cksum`. -/
def Frame.cksum (frame : Frame) : UInt16 := load16 frame (tcphdr + 16)

/-- `tcphdr->cksum = 0`. -/
def Frame.clearCksum (frame : Frame) : Frame := fun i =>
  if i = tcphdr + 16 ∨ i = tcphdr + 17 then 0 else frame i

/-- Whether a flag is set. -/
def Frame.has (frame : Frame) (flag : UInt8) : Bool := frame.tcpFlags &&& flag ≠ 0

/-- `count` bytes of memory. -/
def copyBytes (memory : Nat → UInt8) (start count : Nat) : List UInt8 :=
  (List.range count).map fun i => memory (start + i)

/-- `struct ng_tcp_fragment`. -/
structure NgTcpFragment where
  /-- Port of the sender. -/
  sport : UInt16
  /-- Port of the receiver. -/
  dport : UInt16
  /-- Sequence number. -/
  seqnum : UInt32
  /-- Acknowledgement number. -/
  acknum : UInt32
  /-- Length of the header in words, in the upper four bits. -/
  hdrlenOff : UInt8
  /-- Flags. -/
  tcpFlags : UInt8
  /-- Window. -/
  windows : UInt16
  /-- Checksum. -/
  cksum : UInt16
  /-- Urgent pointer. -/
  tcpUrp : UInt16
  /-- Number of words of options. -/
  optlen : Int
  /-- Options. -/
  option : List UInt32
  /-- The block of the data, or `NULL`. -/
  data : Option (List UInt8)
  /-- Number of bytes of data. -/
  length : UInt32
  deriving DecidableEq

/-- A fragment after `memset`. -/
def NgTcpFragment.zero : NgTcpFragment :=
  ⟨0, 0, 0, 0, 0, 0, 0, 0, 0, 0, List.replicate 10 0, none, 0⟩

/-- `NG_TCP_STATUS`. -/
inductive NgTcpStatus
  | closed | listen | synRcvd | synSent | established
  | finWait1 | finWait2 | closing | timeWait | closeWait | lastAck
  deriving DecidableEq

/-- `struct ng_tcp_stream`. The field `protocol` is fixed when the object is made and says
that it is a stream and not a host; here the kind of the pointer says so. -/
structure NgTcpStream where
  /-- Descriptor, `-1` before the stream is accepted. -/
  fd : Int
  /-- Local address. -/
  dip : UInt32
  /-- Local hardware address. -/
  localmac : List UInt8
  /-- Local port. -/
  dport : UInt16
  /-- Port of the peer. -/
  sport : UInt16
  /-- Address of the peer. -/
  sip : UInt32
  /-- Next sequence number to send. -/
  sndNxt : UInt32
  /-- Next sequence number to receive. -/
  rcvNxt : UInt32
  /-- State of the connection. -/
  status : NgTcpStatus
  /-- Ring of the fragments to send, or `NULL`. -/
  sndbuf : Option (List NgTcpFragment)
  /-- Ring of the fragments received, or `NULL`. -/
  rcvbuf : Option (List NgTcpFragment)
  deriving DecidableEq

/-- A stream after `memset`. -/
def NgTcpStream.zero : NgTcpStream :=
  ⟨0, 0, List.replicate 6 0, 0, 0, 0, 0, 0, .closed, none, none⟩

/-- `struct offload`. -/
structure Offload where
  /-- Address of the sender. -/
  sip : UInt32
  /-- Address of the receiver. -/
  dip : UInt32
  /-- Port of the sender. -/
  sport : UInt16
  /-- Port of the receiver. -/
  dport : UInt16
  /-- Payload. -/
  data : List UInt8
  /-- Length. -/
  length : UInt16
  deriving DecidableEq

/-- `struct localhost`; see `NgTcpStream` for `protocol`. -/
structure Localhost where
  /-- Descriptor. -/
  fd : Int
  /-- Local address. -/
  localip : UInt32
  /-- Local hardware address. -/
  localmac : List UInt8
  /-- Local port. -/
  localport : UInt16
  /-- Ring of the datagrams to send. -/
  sndbuf : List Offload
  /-- Ring of the datagrams received. -/
  rcvbuf : List Offload
  deriving DecidableEq

/-- A host after `memset`. -/
def Localhost.zero : Localhost := ⟨0, 0, List.replicate 6 0, 0, [], []⟩

/-- The state of the stack. -/
structure Stack where
  /-- `lhost`. -/
  lhost : List Nat
  /-- `tcpInstance()->tcb_set`. -/
  tcbSet : List Nat
  /-- The hosts in memory. -/
  hosts : Nat → Localhost
  /-- The streams in memory. -/
  streams : Nat → NgTcpStream
  /-- An address from which on nothing has been allocated. -/
  fresh : Nat
  /-- `fd_table`. -/
  fdTable : Nat → UInt8
  /-- `gSrcMac`. -/
  gSrcMac : List UInt8

/-- The state in which the program begins; memory that is not allocated holds anything. -/
def Stack.initial (hosts : Nat → Localhost) (streams : Nat → NgTcpStream)
    (gSrcMac : List UInt8) : Stack :=
  ⟨[], [], hosts, streams, 0, fun _ => 0, gSrcMac⟩

/-- Rewrite one stream. -/
def Stack.setStream (w : Stack) (a : Nat) (stream : NgTcpStream) : Stack :=
  { w with streams := Function.update w.streams a stream }

/-- Rewrite one host. -/
def Stack.setHost (w : Stack) (a : Nat) (host : Localhost) : Stack :=
  { w with hosts := Function.update w.hosts a host }

/-- `rte_ring_mp_enqueue`: a full ring takes nothing, a null ring is followed. -/
def ringEnqueue {α : Type} (ring : Option (List α)) (item : α) : Option (List α) :=
  ring.map fun items => if items.length < RING_SIZE - 1 then items ++ [item] else items

/-- `fd_table[fd/8] & (0x1 << (fd % 8))`. -/
def fdBit (table : Nat → UInt8) (fd : Nat) : UInt8 :=
  table (fd / 8) &&& ((1 : UInt8) <<< UInt8.ofNat (fd % 8))

/-- `get_fd_frombitmap`: the descriptor and the new table. -/
def getFdFrombitmap (table : Nat → UInt8) : Int × (Nat → UInt8) :=
  match (List.range' DEFAULT_FD_NUM (MAX_FD_COUNT - DEFAULT_FD_NUM)).find?
      fun fd => fdBit table fd = 0 with
  | some fd =>
    (fd, Function.update table (fd / 8)
      (table (fd / 8) ||| ((1 : UInt8) <<< UInt8.ofNat (fd % 8))))
  | none => (-1, table)

/-- `set_fd_frombitmap`. For `-8 < fd < 0` the mask has no bit in the first byte; below that
the byte lies before the table. -/
def setFdFrombitmap (table : Nat → UInt8) (fd : Int) : Option (Int × (Nat → UInt8)) :=
  if (MAX_FD_COUNT : Int) ≤ fd then some (-1, table)
  else if 0 ≤ fd then
    some (0, Function.update table (fd.toNat / 8)
      (table (fd.toNat / 8) &&& ~~~((1 : UInt8) <<< UInt8.ofNat (fd.toNat % 8))))
  else if -8 < fd then some (0, table)
  else none

/-- What `get_hostinfo_fromfd` points to. -/
inductive Hostinfo
  | host (a : Nat)
  | stream (a : Nat)
  deriving DecidableEq

/-- `get_hostinfo_fromfd`. -/
def getHostinfoFromfd (w : Stack) (sockfd : Int) : Option Hostinfo :=
  match w.lhost.find? fun a => (w.hosts a).fd = sockfd with
  | some a => some (.host a)
  | none => (w.tcbSet.find? fun a => (w.streams a).fd = sockfd).map .stream

/-- `get_accept_tcb`. -/
def getAcceptTcb (w : Stack) (dport : UInt16) : Option Nat :=
  w.tcbSet.find? fun a => dport = (w.streams a).dport ∧ (w.streams a).fd = -1

/-- `nsocket`. The allocations are the object, `rcvbuf` and `sndbuf`. -/
def nsocket (mem : Nat → Bool) (w : Stack) (type : Int) : Int × Stack :=
  let (fd, table) := getFdFrombitmap w.fdTable
  let w := { w with fdTable := table }
  if type = SOCK_DGRAM then
    if mem 0 && mem 1 && mem 2 then
      let host := { Localhost.zero with fd := fd }
      (fd, { w.setHost w.fresh host with lhost := w.fresh :: w.lhost, fresh := w.fresh + 1 })
    else (-1, w)
  else if type = SOCK_STREAM then
    if mem 0 && mem 1 && mem 2 then
      let stream := { NgTcpStream.zero with fd := fd, sndbuf := some [], rcvbuf := some [] }
      (fd, { w.setStream w.fresh stream with
        tcbSet := w.fresh :: w.tcbSet, fresh := w.fresh + 1 })
    else (-1, w)
  else (fd, w)

/-- `nbind`, to the address and port of `addr`. -/
def nbind (w : Stack) (sockfd : Int) (sinAddr : UInt32) (sinPort : UInt16) : Int × Stack :=
  match getHostinfoFromfd w sockfd with
  | none => (-1, w)
  | some (.host a) =>
    (0, w.setHost a
      { w.hosts a with localport := sinPort, localip := sinAddr, localmac := w.gSrcMac })
  | some (.stream a) =>
    (0, w.setStream a
      { w.streams a with
        dport := sinPort, dip := sinAddr, localmac := w.gSrcMac, status := .closed })

/-- `nlisten`. -/
def nlisten (w : Stack) (sockfd : Int) : Int × Stack :=
  match getHostinfoFromfd w sockfd with
  | none => (-1, w)
  | some (.host _) => (0, w)
  | some (.stream a) => (0, w.setStream a { w.streams a with status := .listen })

/-- `naccept`, with the address and port of the peer that it stores; it waits for a stream. -/
def naccept (w : Stack) (sockfd : Int) : Option (Int × Option (UInt32 × UInt16) × Stack) :=
  match getHostinfoFromfd w sockfd with
  | none => some (-1, none, w)
  | some (.host _) => some (-1, none, w)
  | some (.stream a) =>
    (getAcceptTcb w (w.streams a).dport).map fun apt =>
      let (fd, table) := getFdFrombitmap w.fdTable
      let stream := { w.streams apt with fd := fd }
      (fd, some (stream.sip, stream.sport), { w.setStream apt stream with fdTable := table })

/-- One pass of the loop of `nrecv` that moves the rest of the data to the front. -/
def shiftPass (len : Nat) (data : List UInt8) (i : Nat) : List UInt8 :=
  data.set i (data.getD (len + i) 0)

/-- `rte_memcpy` into the buffer of the caller. -/
def memcpy (buf : Nat → UInt8) (data : List UInt8) (count : Nat) : Nat → UInt8 := fun i =>
  if i < count then data.getD i 0 else buf i

/-- The part of `nrecv` behind the dequeue: the result, the buffer and the new ring. -/
def nrecvFragment (fragment : NgTcpFragment) (rest : List NgTcpFragment) (buf : Nat → UInt8)
    (len : Nat) : Option (Int × (Nat → UInt8) × List NgTcpFragment) :=
  if len < fragment.length.toNat then
    match fragment.data with
    | none => none
    | some data =>
      let left := fragment.length.toNat - len
      let moved := (List.range left).foldl (shiftPass len) data
      let fragment := { fragment with data := some moved, length := UInt32.ofNat left }
      (ringEnqueue (some rest) fragment).map fun ring =>
        (fragment.length.toNat, memcpy buf data len, ring)
  else if fragment.length = 0 then some (0, buf, rest)
  else
    match fragment.data with
    | none => none
    | some data =>
      some (fragment.length.toNat, memcpy buf data fragment.length.toNat, rest)

/-- `nrecv`: the result, the buffer and the stack. It waits for a fragment. -/
def nrecv (w : Stack) (sockfd : Int) (buf : Nat → UInt8) (len : Nat) :
    Option (Int × (Nat → UInt8) × Stack) :=
  match getHostinfoFromfd w sockfd with
  | none => some (-1, buf, w)
  | some (.host _) => some (0, buf, w)
  | some (.stream a) =>
    match (w.streams a).rcvbuf with
    | none => none
    | some [] => none
    | some (fragment :: rest) =>
      (nrecvFragment fragment rest buf len).map fun (length, buf, ring) =>
        (length, buf, w.setStream a { w.streams a with rcvbuf := some ring })

/-- `nclose`. For the fragment of a stream, `memory` is what `rte_malloc` answers with and
what that memory holds. -/
def nclose (memory : Option NgTcpFragment) (w : Stack) (fd : Int) : Option (Int × Stack) :=
  match getHostinfoFromfd w fd with
  | none => some (-1, w)
  | some (.host a) =>
    (setFdFrombitmap w.fdTable fd).map fun (_, table) =>
      (0, { w with lhost := w.lhost.erase a, fdTable := table })
  | some (.stream a) =>
    let stream := w.streams a
    if stream.status ≠ .listen then
      match memory with
      | none => some (-1, w)
      | some held =>
        let fragment : NgTcpFragment :=
          { held with
            data := none, length := 0, sport := stream.dport, dport := stream.sport
            seqnum := stream.sndNxt, acknum := stream.rcvNxt
            tcpFlags := RTE_TCP_FIN_FLAG ||| RTE_TCP_ACK_FLAG
            windows := TCP_INITIAL_WINDOW, hdrlenOff := 0x50 }
        (ringEnqueue stream.sndbuf fragment).bind fun ring =>
        (setFdFrombitmap w.fdTable fd).map fun (_, table) =>
        (0, { w.setStream a { stream with sndbuf := some ring, status := .lastAck } with
          fdTable := table })
    else some (0, { w with tcbSet := w.tcbSet.erase a })

/-- `ng_tcp_stream_search`. -/
def ngTcpStreamSearch (w : Stack) (sip dip : UInt32) (sport dport : UInt16) : Option Nat :=
  match w.tcbSet.find? fun a =>
      (w.streams a).sip = sip ∧ (w.streams a).dip = dip ∧
      (w.streams a).sport = sport ∧ (w.streams a).dport = dport with
  | some a => some a
  | none => w.tcbSet.find? fun a => (w.streams a).dport = dport ∧ (w.streams a).status = .listen

/-- `ng_tcp_stream_create`. The allocations are the stream, `sndbuf` and `rcvbuf`; a ring
that there is no memory for stays `NULL`. The initial sequence number is an argument, and
`rcv_nxt` keeps what the memory held. -/
def ngTcpStreamCreate (mem : Nat → Bool) (w : Stack) (sip dip : UInt32) (sport dport : UInt16)
    (seed : UInt32) : Option NgTcpStream :=
  if mem 0 then
    some
      { fd := -1, dip := dip, localmac := w.gSrcMac, dport := dport, sport := sport, sip := sip
        sndNxt := seed, rcvNxt := (w.streams w.fresh).rcvNxt, status := .listen
        sndbuf := if mem 1 then some [] else none
        rcvbuf := if mem 2 then some [] else none }
  else none

/-- `ng_tcp_handle_listen`. The allocations are those of `ng_tcp_stream_create` and the
fragment. -/
def ngTcpHandleListen (mem : Nat → Bool) (seed : UInt32) (w : Stack) (stream : Nat)
    (frame : Frame) : Option (Int × Stack) :=
  if frame.has RTE_TCP_SYN_FLAG then
    if (w.streams stream).status = .listen then
      (ngTcpStreamCreate mem w frame.srcAddr frame.dstAddr frame.srcPort frame.dstPort seed).bind
        fun syn =>
      let a := w.fresh
      let w := { w.setStream a syn with tcbSet := a :: w.tcbSet, fresh := a + 1 }
      if mem 3 then
        let fragment : NgTcpFragment :=
          { NgTcpFragment.zero with
            sport := frame.dstPort, dport := frame.srcPort, seqnum := syn.sndNxt
            acknum := ntohl frame.sentSeq + 1
            tcpFlags := RTE_TCP_SYN_FLAG ||| RTE_TCP_ACK_FLAG
            windows := TCP_INITIAL_WINDOW, hdrlenOff := 0x50, data := none, length := 0 }
        (ringEnqueue syn.sndbuf fragment).map fun ring =>
          (0, w.setStream a
            { syn with rcvNxt := fragment.acknum, sndbuf := some ring, status := .synRcvd })
      else some (-1, w)
    else some (0, w)
  else some (0, w)

/-- `ng_tcp_handle_syn_rcvd`; without a listener the program exits. -/
def ngTcpHandleSynRcvd (w : Stack) (stream : Nat) (frame : Frame) : Option (Int × Stack) :=
  if frame.has RTE_TCP_ACK_FLAG then
    if (w.streams stream).status = .synRcvd then
      let w := w.setStream stream { w.streams stream with status := .established }
      (ngTcpStreamSearch w 0 0 0 (w.streams stream).dport).map fun _ => (0, w)
    else some (0, w)
  else some (0, w)

/-- `ng_tcp_enqueue_recvbuffer`. The allocations are the fragment and its data; the block of
the data is one byte longer than the payload and that byte is zero. -/
def ngTcpEnqueueRecvbuffer (mem : Nat → Bool) (stream : NgTcpStream) (frame : Frame)
    (tcplen : Int) : Option (Int × NgTcpStream) :=
  if mem 0 then
    let rfragment : NgTcpFragment :=
      { NgTcpFragment.zero with dport := ntohs frame.dstPort, sport := ntohs frame.srcPort }
    let hdrlen := frame.dataOff >>> 4
    let payloadlen : Int := tcplen - hdrlen.toNat * 4
    if 0 < payloadlen then
      if mem 1 then
        let payload := copyBytes frame (tcphdr + hdrlen.toNat * 4) payloadlen.toNat
        let rfragment :=
          { rfragment with data := some (payload ++ [0]), length := UInt32.ofNat payloadlen.toNat }
        (ringEnqueue stream.rcvbuf rfragment).map fun ring =>
          (0, { stream with rcvbuf := some ring })
      else some (-1, stream)
    else
      (ringEnqueue stream.rcvbuf rfragment).map fun ring =>
        (0, { stream with rcvbuf := some ring })
  else some (-1, stream)

/-- The fragment `ackfrag` of `ng_tcp_send_ackpkt`. -/
def ackfrag (stream : NgTcpStream) (frame : Frame) : NgTcpFragment :=
  { NgTcpFragment.zero with
    dport := frame.srcPort, sport := frame.dstPort
    acknum := stream.rcvNxt, seqnum := stream.sndNxt
    tcpFlags := RTE_TCP_ACK_FLAG, windows := TCP_INITIAL_WINDOW, hdrlenOff := 0x50
    data := none, length := 0 }

/-- `ng_tcp_send_ackpkt`. The allocation is the fragment. -/
def ngTcpSendAckpkt (mem : Nat → Bool) (stream : NgTcpStream) (frame : Frame) :
    Option (Int × NgTcpStream) :=
  if mem 0 then
    (ringEnqueue stream.sndbuf (ackfrag stream frame)).map fun ring =>
      (0, { stream with sndbuf := some ring })
  else some (-1, stream)

/-- The branch of `ng_tcp_handle_established` for `RTE_TCP_PSH_FLAG`. -/
def establishedPsh (mem : Nat → Bool) (stream : NgTcpStream) (frame : Frame) (tcplen : Int) :
    Option NgTcpStream :=
  (ngTcpEnqueueRecvbuffer mem stream frame tcplen).bind fun (_, stream) =>
  let hdrlen := frame.dataOff >>> 4
  let payloadlen : Int := tcplen - hdrlen.toNat * 4
  let stream :=
    { stream with
      rcvNxt := stream.rcvNxt + UInt32.ofInt payloadlen, sndNxt := ntohl frame.recvAck }
  (ngTcpSendAckpkt (fun n => mem (2 + n)) stream frame).map fun (_, stream) => stream

/-- The branch of `ng_tcp_handle_established` for `RTE_TCP_FIN_FLAG`. -/
def establishedFin (mem : Nat → Bool) (stream : NgTcpStream) (frame : Frame) :
    Option NgTcpStream :=
  let stream := { stream with status := .closeWait }
  (ngTcpEnqueueRecvbuffer mem stream frame (frame.dataOff >>> 4).toNat).bind fun (_, stream) =>
  let stream := { stream with rcvNxt := stream.rcvNxt + 1, sndNxt := ntohl frame.recvAck }
  (ngTcpSendAckpkt (fun n => mem (2 + n)) stream frame).map fun (_, stream) => stream

/-- `ng_tcp_handle_established`; the branches for `SYN` and `ACK` are empty. -/
def ngTcpHandleEstablished (mem : Nat → Bool) (stream : NgTcpStream) (frame : Frame)
    (tcplen : Int) : Option (Int × NgTcpStream) :=
  (if frame.has RTE_TCP_PSH_FLAG then establishedPsh mem stream frame tcplen
    else some stream).bind fun stream =>
  (if frame.has RTE_TCP_FIN_FLAG then establishedFin (fun n => mem (3 + n)) stream frame
    else some stream).map fun stream => (0, stream)

/-- `ng_tcp_handle_close_wait`: both tests guard nothing. -/
def ngTcpHandleCloseWait (w : Stack) : Int × Stack := (0, w)

/-- `ng_tcp_handle_last_ack`. -/
def ngTcpHandleLastAck (w : Stack) (stream : Nat) (frame : Frame) : Int × Stack :=
  if frame.has RTE_TCP_ACK_FLAG then
    if (w.streams stream).status = .lastAck then
      (0, { w.setStream stream { w.streams stream with status := .closed } with
        tcbSet := w.tcbSet.erase stream })
    else (0, w)
  else (0, w)

/-- The length of the TCP segment that `ng_tcp_process` computes. -/
def Frame.tcplen (frame : Frame) : Int := (ntohs frame.totalLength).toNat - sizeofIpv4Hdr

/-- `ng_tcp_process`, for the checksum function of DPDK. -/
def ngTcpProcess (rteIpv4UdptcpCksum : Frame → UInt16) (mem : Nat → Bool) (seed : UInt32)
    (w : Stack) (frame : Frame) : Option (Int × Stack) :=
  let tcpcksum := frame.cksum
  let frame := frame.clearCksum
  if rteIpv4UdptcpCksum frame ≠ tcpcksum then some (-1, w)
  else
    match ngTcpStreamSearch w frame.srcAddr frame.dstAddr frame.srcPort frame.dstPort with
    | none => some (-2, w)
    | some a =>
      match (w.streams a).status with
      | .listen => (ngTcpHandleListen mem seed w a frame).map fun (_, w) => (0, w)
      | .synRcvd => (ngTcpHandleSynRcvd w a frame).map fun (_, w) => (0, w)
      | .established =>
        (ngTcpHandleEstablished mem (w.streams a) frame frame.tcplen).map fun (_, stream) =>
          (0, w.setStream a stream)
      | .closeWait => some (0, (ngTcpHandleCloseWait w).2)
      | .lastAck => some (0, (ngTcpHandleLastAck w a frame).2)
      | .closed | .synSent | .finWait1 | .finWait2 | .closing | .timeWait => some (0, w)

end BackendCpp.Tcp
