import BackendCpp.Tcp.Datagrams

/-!
# What becomes of the packets of a burst

`pkt_process` frees a packet that carries UDP or TCP when its handler has ended, and hands every
other packet to the kernel. It hands over the whole array of the burst each time, so that a
packet is disposed of once for every packet that goes to the kernel, and once more when it is
itself freed.
-/

namespace BackendCpp.Tcp

/-- The frames that `pkt_process` gives to `udp_process` or to `ng_tcp_process`. -/
def Frame.IsApp (frame : Frame) : Prop :=
  frame.etherType = htons RTE_ETHER_TYPE_IPV4 ∧
    (frame.nextProtoId = IPPROTO_UDP ∨ frame.nextProtoId = IPPROTO_TCP)

instance (frame : Frame) : Decidable frame.IsApp :=
  inferInstanceAs (Decidable (_ ∧ (_ ∨ _)))

/-- What the pass of the loop for packet `i` does with the packets of the burst. -/
def passDisposals (numRecvd i : Nat) (frame : Frame) : List Disposal :=
  if frame.IsApp then [.freed i] else kniTxBurst numRecvd

/-- What the loop does with the packets of the burst from packet `i` on. -/
def burstDisposals (numRecvd : Nat) : Nat → List Frame → List Disposal
  | _, [] => []
  | i, frame :: rest => passDisposals numRecvd i frame ++ burstDisposals numRecvd (i + 1) rest

/-- How often a packet is disposed of. -/
def timesDisposed (disposals : List Disposal) (mbuf : Nat) : Nat :=
  disposals.countP fun disposal => disposal.mbuf = mbuf

/-- Each packet of the burst is freed once or handed over once, and not both. -/
def DisposedOnce (numRecvd : Nat) (disposals : List Disposal) : Prop :=
  ∀ mbuf < numRecvd, timesDisposed disposals mbuf = 1

/-- How many of the frames go to the kernel. -/
def toKernel (frames : List Frame) : Nat := frames.countP fun frame => ¬ frame.IsApp

/-- Whichever way `udp_process` ends, it frees its packet. -/
theorem udpProcess_frees (mem : Nat → Bool) (w : Stack) (mbuf : Nat) (frame : Frame) :
    (udpProcess mem w mbuf frame).2.2 = [.freed mbuf] := by
  unfold udpProcess
  split
  · rfl
  · split
    · dsimp only
      split
      · rfl
      · rfl
    · rfl

/-- `ng_tcp_process` with its packet: whichever way it ends, it frees the packet. -/
theorem ngTcpProcessMbuf_eq (rteIpv4UdptcpCksum : Frame → UInt16) (mem : Nat → Bool)
    (seed : UInt32) (w : Stack) (mbuf : Nat) (frame : Frame) :
    ngTcpProcessMbuf rteIpv4UdptcpCksum mem seed w mbuf frame =
      (ngTcpProcess rteIpv4UdptcpCksum mem seed w frame).map fun (result, w) =>
        (result, w, [.freed mbuf]) := by
  unfold ngTcpProcessMbuf ngTcpProcess
  dsimp only
  by_cases bad : rteIpv4UdptcpCksum frame.clearCksum ≠ frame.cksum
  · rw [if_pos bad, if_pos bad]
    rfl
  · rw [if_neg bad, if_neg bad]
    cases ngTcpStreamSearch w frame.clearCksum.srcAddr frame.clearCksum.dstAddr
      frame.clearCksum.srcPort frame.clearCksum.dstPort with
    | none => rfl
    | some a =>
      dsimp only
      unfold ngTcpSwitch
      cases (w.streams a).status
      all_goals simp only [Option.map_map, Option.map_some]
      all_goals rfl

section

variable {rteIpv4UdptcpCksum : Frame → UInt16} {numRecvd i : Nat} {s after : Pkt}
  {fortune : Fortune} {frame : Frame}

/-- One pass of the loop. -/
theorem pktProcessPacket_disposals
    (passed : pktProcessPacket rteIpv4UdptcpCksum numRecvd s i fortune frame = some after) :
    after.disposals = s.disposals ++ passDisposals numRecvd i frame := by
  unfold pktProcessPacket at passed
  unfold passDisposals
  by_cases ipv4 : frame.etherType = htons RTE_ETHER_TYPE_IPV4
  · rw [if_pos ipv4] at passed
    by_cases udp : frame.nextProtoId = IPPROTO_UDP
    · rw [if_pos udp, Option.some.injEq] at passed
      rw [if_pos ⟨ipv4, Or.inl udp⟩, ← passed]
      dsimp only
      rw [udpProcess_frees]
    · rw [if_neg udp] at passed
      by_cases tcp : frame.nextProtoId = IPPROTO_TCP
      · rw [if_pos tcp, ngTcpProcessMbuf_eq, Option.map_map, Option.map_eq_some_iff] at passed
        obtain ⟨result, processed, same⟩ := passed
        rw [if_pos ⟨ipv4, Or.inr tcp⟩, ← same]
        rfl
      · rw [if_neg tcp, Option.some.injEq] at passed
        rw [if_neg fun app => app.2.elim udp tcp, ← passed]
  · rw [if_neg ipv4, Option.some.injEq] at passed
    rw [if_neg fun app => ipv4 app.1, ← passed]

end

/-- The whole loop, by induction over the rest of the burst. -/
theorem pktProcessBurst_disposals {rteIpv4UdptcpCksum : Frame → UInt16} {numRecvd : Nat}
    {burst : List (Fortune × Frame)} : ∀ {i : Nat} {s after : Pkt},
    pktProcessBurst rteIpv4UdptcpCksum numRecvd s i burst = some after →
      after.disposals = s.disposals ++ burstDisposals numRecvd i (burst.map Prod.snd) := by
  induction burst with
  | nil =>
    intro i s after ended
    rw [pktProcessBurst, Option.some.injEq] at ended
    rw [← ended, List.map_nil, burstDisposals, List.append_nil]
  | cons packet rest ih =>
    intro i s after ended
    rw [pktProcessBurst, Option.bind_eq_some_iff] at ended
    obtain ⟨next, passed, ended⟩ := ended
    rw [ih ended, pktProcessPacket_disposals passed, List.append_assoc, List.map_cons,
      burstDisposals]

/-- The kernel takes each packet of the burst once. -/
theorem timesDisposed_kniTxBurst {numRecvd mbuf : Nat} (inside : mbuf < numRecvd) :
    timesDisposed (kniTxBurst numRecvd) mbuf = 1 := by
  unfold timesDisposed kniTxBurst
  rw [List.countP_map]
  have once : (List.range numRecvd).count mbuf = 1 :=
    List.count_eq_one_of_mem List.nodup_range (List.mem_range.mpr inside)
  rw [← once, List.count]
  apply List.countP_congr
  intro k _
  show decide (k = mbuf) = true ↔ (k == mbuf) = true
  rw [decide_eq_true_iff, beq_iff_eq]

/-- One pass disposes of a packet when it frees it, or when a packet goes to the kernel. -/
theorem timesDisposed_pass {numRecvd mbuf : Nat} (inside : mbuf < numRecvd) (i : Nat)
    (frame : Frame) : timesDisposed (passDisposals numRecvd i frame) mbuf =
      if frame.IsApp then if i = mbuf then 1 else 0 else 1 := by
  unfold passDisposals
  by_cases app : frame.IsApp
  · rw [if_pos app, if_pos app, timesDisposed, List.countP_singleton]
    show (if decide (i = mbuf) = true then 1 else 0) = _
    simp only [decide_eq_true_iff]
  · rw [if_neg app, if_neg app, timesDisposed_kniTxBurst inside]

/-- Over the loop a packet is disposed of once for each frame that goes to the kernel, and once
more when its own frame does not. -/
theorem timesDisposed_burst {numRecvd mbuf : Nat} (inside : mbuf < numRecvd)
    {frames : List Frame} : ∀ {i : Nat}, timesDisposed (burstDisposals numRecvd i frames) mbuf =
      toKernel frames +
        if i ≤ mbuf ∧ ∃ frame, frames[mbuf - i]? = some frame ∧ frame.IsApp then 1 else 0 := by
  induction frames with
  | nil =>
    intro i
    simp [burstDisposals, timesDisposed, toKernel]
  | cons frame rest ih =>
    intro i
    have sum : timesDisposed (burstDisposals numRecvd i (frame :: rest)) mbuf =
        timesDisposed (passDisposals numRecvd i frame) mbuf +
          timesDisposed (burstDisposals numRecvd (i + 1) rest) mbuf := List.countP_append
    have kernel : toKernel (frame :: rest) = toKernel rest + if frame.IsApp then 0 else 1 := by
      by_cases app : frame.IsApp
      · simp [toKernel, app]
      · simp [toKernel, app]
    rw [sum, ih, timesDisposed_pass inside, kernel]
    by_cases here : i = mbuf
    · have past : ¬ i + 1 ≤ mbuf := by omega
      rw [here]
      by_cases app : frame.IsApp
      · simp [app, Nat.add_comm]
      · simp [app, Nat.add_comm]
    · have later : (i ≤ mbuf ∧ ∃ f, (frame :: rest)[mbuf - i]? = some f ∧ f.IsApp) ↔
          i + 1 ≤ mbuf ∧ ∃ f, rest[mbuf - (i + 1)]? = some f ∧ f.IsApp := by
        by_cases ahead : i + 1 ≤ mbuf
        · have step : mbuf - i = mbuf - (i + 1) + 1 := by omega
          rw [step, List.getElem?_cons_succ]
          simp only [ahead, Nat.le_of_succ_le ahead, true_and]
        · have behind : ¬ i ≤ mbuf := by omega
          simp only [ahead, behind, false_and]
      simp only [here, if_false, later]
      split
      · omega
      · omega

/-- No frame goes to the kernel when all are UDP or TCP. -/
theorem toKernel_eq_zero {frames : List Frame} :
    toKernel frames = 0 ↔ ∀ frame ∈ frames, frame.IsApp := by
  unfold toKernel
  rw [List.countP_eq_zero]
  simp only [decide_eq_true_eq, not_not]

/-- The packets of a burst are each disposed of once if and only if they are all UDP or TCP, or
there are not two of them. -/
theorem burstDisposals_once {frames : List Frame} :
    DisposedOnce frames.length (burstDisposals frames.length 0 frames) ↔
      frames.length ≤ 1 ∨ ∀ frame ∈ frames, frame.IsApp := by
  have times : ∀ mbuf, (inside : mbuf < frames.length) →
      timesDisposed (burstDisposals frames.length 0 frames) mbuf =
        toKernel frames + if (frames[mbuf]).IsApp then 1 else 0 := by
    intro mbuf inside
    rw [timesDisposed_burst inside, Nat.sub_zero, List.getElem?_eq_getElem inside]
    simp
  constructor
  · intro once
    by_cases all : ∀ frame ∈ frames, frame.IsApp
    · exact Or.inr all
    · apply Or.inl
      push Not at all
      obtain ⟨frame, among, other⟩ := all
      obtain ⟨k, inside, same⟩ := List.mem_iff_getElem.mp among
      have one : toKernel frames = 1 := by
        have here := once k inside
        rw [times k inside, same, if_neg other] at here
        exact here
      have kernel : ∀ packet ∈ frames, ¬ packet.IsApp := by
        intro packet here app
        obtain ⟨j, bound, found⟩ := List.mem_iff_getElem.mp here
        have twice := once j bound
        rw [times j bound, one, found, if_pos app] at twice
        omega
      have whole : toKernel frames = frames.length := by
        unfold toKernel
        rw [List.countP_eq_length]
        intro packet here
        exact decide_eq_true (kernel packet here)
      omega
  · intro few mbuf inside
    rw [times mbuf inside]
    cases few with
    | inl few =>
      obtain ⟨frame, alone⟩ := List.length_eq_one_iff.mp (Nat.le_antisymm few (by omega))
      subst alone
      have first : mbuf = 0 := Nat.lt_one_iff.mp inside
      subst first
      by_cases app : frame.IsApp
      · simp [toKernel, app]
      · simp [toKernel, app]
    | inr all =>
      rw [toKernel_eq_zero.mpr all, if_pos (all _ (List.getElem_mem inside))]

/-- The loop of `pkt_process` disposes of each packet of a burst exactly once if and only if all
of them are UDP or TCP packets, or there are not two of them. -/
theorem pktProcessBurst_disposedOnce (rteIpv4UdptcpCksum : Frame → UInt16) (stack : Stack)
    (entries : List ArpEntry) (burst : List (Fortune × Frame)) (after : Pkt)
    (ended : pktProcessBurst rteIpv4UdptcpCksum burst.length ⟨stack, entries, []⟩ 0 burst =
      some after) :
    DisposedOnce burst.length after.disposals ↔
      burst.length ≤ 1 ∨ ∀ packet ∈ burst, packet.2.IsApp := by
  have frames := @burstDisposals_once (burst.map Prod.snd)
  rw [List.length_map] at frames
  rw [pktProcessBurst_disposals ended, List.nil_append, frames]
  simp only [List.mem_map, forall_exists_index, and_imp, forall_apply_eq_imp_iff₂]

/-- The frame of a datagram with an Ethernet header. -/
def datagramFrame : Frame := fun i =>
  if i = 12 then 0x08 else if i = 14 then 0x45 else if i = 23 then IPPROTO_UDP else 0

/-- The frame of an ARP request with an Ethernet header. -/
def arpFrame : Frame := fun i => if i = 12 then 0x08 else if i = 13 then 0x06 else 0

/-- The stack before the application has made a socket. -/
def idle : Stack := Stack.initial (fun _ => .zero) (fun _ => .zero) (List.replicate 6 0)

/-- A burst of two datagrams. -/
def twoDatagrams : List (Fortune × Frame) :=
  [(⟨true, fun _ => true, 0⟩, datagramFrame), (⟨true, fun _ => true, 0⟩, datagramFrame)]

/-- Two datagrams are each freed once. -/
theorem pktProcessBurst_disposedOnce_datagrams : ∃ after,
    pktProcessBurst (fun _ => 0) twoDatagrams.length ⟨idle, [], []⟩ 0 twoDatagrams = some after ∧
      DisposedOnce twoDatagrams.length after.disposals := by
  have app : ∀ packet ∈ twoDatagrams, packet.2.IsApp := by
    decide
  exact ⟨_, rfl,
    (pktProcessBurst_disposedOnce (fun _ => 0) idle [] twoDatagrams _ rfl).mpr (Or.inr app)⟩

/-- A datagram is freed, and handed to the kernel with the ARP request behind it. -/
theorem pktProcessBurst_disposedTwice : ∃ after,
    pktProcessBurst (fun _ => 0) 2 ⟨idle, [], []⟩ 0
      [(⟨true, fun _ => true, 0⟩, datagramFrame), (⟨true, fun _ => true, 0⟩, arpFrame)] =
        some after ∧ after.disposals = [.freed 0, .kni 0, .kni 1] ∧
        ¬ DisposedOnce 2 after.disposals := by
  refine ⟨_, rfl, rfl, ?_⟩
  intro once
  exact absurd (once 0 (by decide)) (by decide)

end BackendCpp.Tcp
