import BackendCpp.Tcp.Fragments

/-!
# What is sent is what was queued

`nsend`, `nclose` and the answers to segments queue fragments, and `ng_tcp_out` writes the first
fragment of every stream into a packet. While the fragments are well formed, every packet that
leaves is either a request for a hardware address or is read by the stack at the other end as a
fragment that was queued.
-/

namespace BackendCpp.Tcp

open BackendCpp.Library

/-- A fragment that `ng_encode_tcp_apppkt` writes as it is. -/
structure Sendable (fragment : NgTcpFragment) : Prop where
  /-- It is well formed. -/
  formed : WellFormed fragment
  /-- The options do not end before they begin. -/
  options : 0 ≤ fragment.optlen

/-- A proper operation queues only such fragments. -/
theorem Produces.sendable {w : Stack} {operation : Operation} {fragment : NgTcpFragment}
    (produced : Produces w operation fragment) (proper : Proper w operation) :
    Sendable fragment := by
  refine ⟨proper_iff.mp proper fragment produced, ?_⟩
  cases produced with
  | data => exact le_rfl
  | fin found status room => exact (proper _ found status room).ge
  | synAck => exact le_rfl
  | ack => exact le_rfl

/-- Every fragment that is queued to be sent is such a fragment. -/
def AllSendable (w : Stack) : Prop := ∀ a ∈ w.tcbSet, ∀ fragment ∈ w.sndbuf a, Sendable fragment

/-- What a step keeps. -/
theorem operate_allSendable {cksums : Cksums} {w next : Stack} {operation : Operation}
    (sendable : AllSendable w) (proper : Proper w operation)
    (done : w.operate cksums operation = some next) : AllSendable next := by
  intro a here fragment member
  rcases operate_queues done a here fragment member with ⟨before, old⟩ | new
  · exact sendable a before fragment old
  · exact new.sendable proper

/-- A packet that `ng_tcp_out` sends: it asks for the hardware address of a stream, or whoever
receives it unchanged reads a fragment that the stream has queued, between the addresses of the
stream. -/
def Carries (cksums : Cksums) (w : Stack) (packet : Mbuf) : Prop :=
  ∃ a ∈ w.tcbSet,
    (∃ memory, packet = ngSendArp w.gSrcMac memory RTE_ARP_OP_REQUEST gDefaultArpMac
      (w.streams a).dip (w.streams a).sip) ∨
    ∃ fragment ∈ w.sndbuf a, ∀ frame : Frame,
      (∀ i < packet.pktLen.toNat, frame i = packet.msg.bytes i) →
        Decoded cksums.rteIpv4UdptcpCksum (w.streams a).dip (w.streams a).sip fragment frame

/-- The stack after some passes of the loop of `ng_tcp_out`. -/
structure Drained (w next : Stack) : Prop where
  /-- The same streams. -/
  tcbSet : next.tcbSet = w.tcbSet
  /-- The same hardware address. -/
  gSrcMac : next.gSrcMac = w.gSrcMac
  /-- The same address on this side. -/
  dip : ∀ a, (next.streams a).dip = (w.streams a).dip
  /-- The same address on the other side. -/
  sip : ∀ a, (next.streams a).sip = (w.streams a).sip
  /-- Nothing new is queued. -/
  sndbuf : ∀ a, next.sndbuf a ⊆ w.sndbuf a

/-- Before the first pass. -/
theorem Drained.refl (w : Stack) : Drained w w :=
  ⟨rfl, rfl, fun _ => rfl, fun _ => rfl, fun _ => List.Subset.refl _⟩

section

variable {cksums : Cksums} {entries : List ArpEntry} {pool : Nat → Option Frame}

/-- A pass changes the queue of one stream only. -/
theorem Drained.pass {start w next : Stack} {a : Nat} {packets : List Mbuf}
    (drained : Drained start w)
    (result : ngTcpOutStream cksums entries pool w a = some (packets, next)) :
    Drained start next := by
  have fields : (afterOut entries (w.streams a)).dip = (w.streams a).dip ∧
      (afterOut entries (w.streams a)).sip = (w.streams a).sip := by
    unfold afterOut
    split
    · exact ⟨rfl, rfl⟩
    · exact ⟨rfl, rfl⟩
    · split <;> exact ⟨rfl, rfl⟩
  rw [ngTcpOutStream_after result]
  refine ⟨drained.tcbSet, drained.gSrcMac, ?_, ?_, ?_⟩
  · intro b
    rw [Stack.setStream_streams, update_same NgTcpStream.dip fields.1, drained.dip]
  · intro b
    rw [Stack.setStream_streams, update_same NgTcpStream.sip fields.2, drained.sip]
  · intro b fragment member
    rw [Stack.sndbuf, Stack.setStream_streams] at member
    by_cases same : b = a
    · rw [same, Function.update_self] at member
      rw [same]
      exact drained.sndbuf a (mem_afterOut member)
    · rw [Function.update_of_ne same] at member
      exact drained.sndbuf b member

/-- The packets of one pass. -/
theorem ngTcpOutStream_carries (covers : Covers cksums.rteIpv4UdptcpCksum) {start w next : Stack}
    (sendable : AllSendable start) (drained : Drained start w) {a : Nat} (listed : a ∈ w.tcbSet)
    {packets : List Mbuf}
    (result : ngTcpOutStream cksums entries pool w a = some (packets, next)) :
    ∀ packet ∈ packets, Carries cksums start packet := by
  intro packet member
  rw [drained.tcbSet] at listed
  simp only [ngTcpOutStream] at result
  cases ring : (w.streams a).sndbuf with
  | none =>
    simp only [ring, Option.some.injEq, Prod.mk.injEq] at result
    rw [← result.1] at member
    cases member
  | some fragments =>
    cases fragments with
    | nil =>
      simp only [ring, Option.some.injEq, Prod.mk.injEq] at result
      rw [← result.1] at member
      cases member
    | cons fragment rest =>
      simp only [ring] at result
      cases mac : ngGetDstMacaddr entries (w.streams a).sip with
      | none =>
        simp only [mac, Option.map_eq_some_iff, Prod.mk.injEq] at result
        obtain ⟨memory, _, sent, _⟩ := result
        rw [← sent, List.mem_singleton, drained.gSrcMac, drained.dip, drained.sip] at member
        exact ⟨a, listed, Or.inl ⟨memory, member⟩⟩
      | some dstmac =>
        simp only [mac, Option.map_eq_some_iff, Prod.mk.injEq] at result
        obtain ⟨memory, _, sent, _⟩ := result
        rw [← sent, List.mem_singleton, drained.dip, drained.sip] at member
        have queued : fragment ∈ start.sndbuf a := by
          apply drained.sndbuf a
          rw [Stack.sndbuf, ring]
          exact List.mem_cons_self
        have able := sendable a listed fragment queued
        refine ⟨a, listed, Or.inr ⟨fragment, queued, fun frame arrived => ?_⟩⟩
        rw [member] at arrived
        exact able.formed.encodable.decoded covers able.options arrived

/-- The packets of the loop, by induction over the streams that are left. -/
theorem foldlM_ngTcpOutStream_carries (covers : Covers cksums.rteIpv4UdptcpCksum) {start : Stack}
    (sendable : AllSendable start) {listed : List Nat} :
    ∀ {packets packets' : List Mbuf} {w next : Stack}, Drained start w → listed ⊆ w.tcbSet →
      (∀ packet ∈ packets, Carries cksums start packet) →
      listed.foldlM (fun (packets, w) a =>
        (ngTcpOutStream cksums entries pool w a).map fun (more, w) => (packets ++ more, w))
        (packets, w) = some (packets', next) →
      ∀ packet ∈ packets', Carries cksums start packet := by
  induction listed with
  | nil =>
    intro packets packets' w next _ _ carried result
    injection result with result
    injection result with result _
    rw [← result]
    exact carried
  | cons a rest ih =>
    intro packets packets' w next drained listed carried result
    rw [List.foldlM_cons] at result
    obtain ⟨⟨middle, between⟩, taken, result⟩ := Option.bind_eq_some_iff.mp result
    rw [Option.map_eq_some_iff] at taken
    obtain ⟨⟨more, after⟩, pass, same⟩ := taken
    injection same with grown same
    rw [← grown, ← same] at result
    have drained' := drained.pass pass
    have sub : rest ⊆ after.tcbSet := by
      rw [drained'.tcbSet, ← drained.tcbSet]
      exact fun b member => listed (List.mem_cons_of_mem a member)
    refine ih drained' sub ?_ result
    intro packet member
    cases List.mem_append.mp member with
    | inl old => exact carried packet old
    | inr new =>
      exact ngTcpOutStream_carries covers sendable drained (listed List.mem_cons_self) pass packet
        new

/-- In every run of proper operations, every packet that `ng_tcp_out` sends next asks for a hardware
address or is read, wherever it arrives unchanged, as a fragment that was queued. -/
theorem sent_packets_decoded {cksums : Cksums} {hosts : Nat → Localhost}
    {streams : Nat → NgTcpStream} {gSrcMac : List UInt8} {trace : List Operation} {w next : Stack}
    (covers : Covers cksums.rteIpv4UdptcpCksum)
    (run : Run (fun w operation next => w.operate cksums operation = some next ∧
      Proper w operation) (Stack.initial hosts streams gSrcMac) trace w)
    {entries : List ArpEntry} {pool : Nat → Option Frame} {packets : List Mbuf}
    (sent : ngTcpOut cksums entries pool w = some (packets, next)) :
    ∀ packet ∈ packets, Carries cksums w packet := by
  have sendable : AllSendable w := by
    refine run.invariant AllSendable ?_ ?_
    · intro a here
      cases here
    · intro w operation next sendable step
      exact operate_allSendable sendable step.2 step.1
  exact foldlM_ngTcpOutStream_carries covers sendable (Drained.refl w) (List.Subset.refl _)
    (fun packet member => absurd member List.not_mem_nil) sent

end

/-- Two bytes are sent in one packet, of which the checksum is the real one. -/
theorem sent_packets_decoded_bytes : ∃ trace w packets next,
    Run (fun w operation next => w.operate ⟨fun _ => 0, inetCksum⟩ operation = some next ∧
      Proper w operation) idle trace w ∧
    ngTcpOut ⟨fun _ => 0, inetCksum⟩ [⟨0, List.replicate 6 2⟩] (fun _ => some fun _ => 0) w =
      some (packets, next) ∧
    packets.map Mbuf.pktLen = [56] ∧
      ∀ packet ∈ packets, Carries ⟨fun _ => 0, inetCksum⟩ w packet := by
  have opened : Run (fun w operation next =>
      w.operate ⟨fun _ => 0, inetCksum⟩ operation = some next ∧ Proper w operation) idle
      [.nsocket (fun _ => true) SOCK_STREAM] streaming := Run.snoc Run.nil ⟨rfl, trivial⟩
  have ends : ((streaming.operate ⟨fun _ => 0, inetCksum⟩
      (.activity (.nsend (fun _ => true) 3 (fun i => if i = 0 then 0x41 else 0x42) 2))).bind
        (ngTcpOut ⟨fun _ => 0, inetCksum⟩ [⟨0, List.replicate 6 2⟩] fun _ => some fun _ => 0)).any
      (fun result => result.1.map Mbuf.pktLen = [56]) = true := by
    decide +kernel
  obtain ⟨⟨packets, next⟩, done, length⟩ := (Option.any_eq_true _ _).mp ends
  obtain ⟨w, queued, out⟩ := Option.bind_eq_some_iff.mp done
  have sent := opened.snoc ⟨queued, fun _ _ _ _ _ => by decide⟩
  exact ⟨_, w, packets, next, sent, out, of_decide_eq_true length,
    sent_packets_decoded inetCksum_covers sent out⟩

end BackendCpp.Tcp
