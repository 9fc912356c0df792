import BackendCpp.Tcp.Sending
import BackendCpp.Tcp.Encoding
import BackendCpp.Tcp.Bursts
import BackendCpp.Tcp.Acknowledging

/-!
# The fragments that are queued to be sent

Four calls fill a fragment by hand: the answer to a connection request, the acknowledgement of a
segment, the data of `nsend` and the `FIN` of `nclose`. The first two are well formed always. The
length of the data is never tested, and the fragment of `nclose` lies in memory that nobody has
cleared, so that its `optlen` is whatever was there.
-/

namespace BackendCpp.Tcp

open BackendCpp.Library

/-- A fragment that `ng_tcp_pkt` can make a packet of. -/
structure WellFormed (fragment : NgTcpFragment) : Prop where
  /-- There is room for the options. -/
  options : fragment.optlen ≤ TCP_OPTION_LENGTH
  /-- The header is as long as it says. -/
  header : (fragment.hdrlenOff.toNat : Int) = (5 + fragment.optlen) * 16
  /-- There is a block when there is data. -/
  data : fragment.data = none ↔ fragment.length = 0
  /-- The data is in the block. -/
  block : ∀ bytes, fragment.data = some bytes → fragment.length.toNat ≤ bytes.length
  /-- The length of the frame fits into the field of the IPv4 header. -/
  size : 54 + 4 * fragment.optlen + fragment.length.toNat < 2 ^ 16

/-- Such a fragment is encoded as it should be. -/
theorem WellFormed.encodable {fragment : NgTcpFragment} (formed : WellFormed fragment) :
    Encodable fragment := by
  refine ⟨formed.options, formed.header, formed.data, formed.block, ?_⟩
  have size := formed.size
  omega

/-- A fragment without data and without options is well formed. -/
theorem wellFormed_of_empty {fragment : NgTcpFragment} (optlen : fragment.optlen = 0)
    (header : fragment.hdrlenOff = 0x50) (data : fragment.data = none)
    (length : fragment.length = 0) : WellFormed fragment := by
  refine ⟨?_, ?_, iff_of_true data length, ?_, ?_⟩
  · rw [optlen]
    decide
  · rw [optlen, header]
    rfl
  · intro bytes block
    rw [data] at block
    cases block
  · rw [optlen, length]
    decide

/-- The answer to a connection request is well formed. -/
theorem synAck_wellFormed (frame : Frame) (seed : UInt32) : WellFormed (synAck frame seed) :=
  wellFormed_of_empty rfl rfl rfl rfl

/-- An acknowledgement is well formed. -/
theorem ackfrag_wellFormed (stream : NgTcpStream) (frame : Frame) :
    WellFormed (ackfrag stream frame) :=
  wellFormed_of_empty rfl rfl rfl rfl

/-- The fragment of `nclose` is well formed just when the memory happened to hold no options. -/
theorem finFragment_wellFormed {held : NgTcpFragment} {stream : NgTcpStream} :
    WellFormed (finFragment held stream) ↔ held.optlen = 0 := by
  constructor
  · intro formed
    have header : ((0x50 : UInt8).toNat : Int) = (5 + held.optlen) * 16 := formed.header
    have value : ((0x50 : UInt8).toNat : Int) = 80 := rfl
    omega
  · exact fun optlen => wellFormed_of_empty optlen rfl rfl rfl

/-- The number of bytes that the length of a fragment of `nsend` counts. -/
def counted (len : Nat) : Nat := (UInt32.ofNat len).toNat

/-- The data of `nsend` is well formed just when its length is not zero and fits. -/
theorem nsendFragment_wellFormed {stream : NgTcpStream} {buf : Nat → UInt8} {len : Nat} :
    WellFormed (nsendFragment stream buf len) ↔ 0 < counted len ∧ 54 + counted len < 2 ^ 16 := by
  have nonzero : UInt32.ofNat len ≠ 0 ↔ 0 < counted len := by
    rw [ne_eq, ← UInt32.toNat_inj]
    exact Nat.pos_iff_ne_zero.symm
  constructor
  · intro formed
    have size : (54 : Int) + 4 * 0 + counted len < 2 ^ 16 := formed.size
    refine ⟨nonzero.mp fun empty => ?_, by omega⟩
    have missing := formed.data.mpr empty
    cases missing
  · rintro ⟨positive, fits⟩
    refine ⟨?_, rfl, iff_of_false ?_ (nonzero.mpr positive), ?_, ?_⟩
    · change (0 : Int) ≤ TCP_OPTION_LENGTH
      decide
    · exact fun missing => by cases missing
    · intro bytes block
      have whole : bytes.length = len + 1 := by
        rw [← Option.some.inj block, List.length_append, copyBytes, List.length_map,
          List.length_range, List.length_singleton]
      have less : counted len ≤ len := by
        rw [counted, UInt32.toNat_ofNat']
        exact Nat.mod_le _ _
      rw [whole]
      exact less.trans (Nat.le_succ len)
    · change (54 : Int) + 4 * 0 + counted len < 2 ^ 16
      omega

/-- What a step queues on the rings of the streams: what was not there already is of one
kind. -/
def Queues (w next : Stack) (made : NgTcpFragment → Prop) : Prop :=
  ∀ a ∈ next.tcbSet, ∀ fragment ∈ next.sndbuf a,
    (a ∈ w.tcbSet ∧ fragment ∈ w.sndbuf a) ∨ made fragment

/-- A step that leaves the streams. -/
theorem Queues.of_same {w next : Stack} {made : NgTcpFragment → Prop}
    (listed : next.tcbSet ⊆ w.tcbSet) (streams : next.streams = w.streams) :
    Queues w next made := by
  intro a here fragment member
  rw [Stack.sndbuf, streams] at member
  exact Or.inl ⟨listed here, member⟩

/-- A step that rewrites one stream. -/
theorem Queues.of_update {w next : Stack} {made : NgTcpFragment → Prop} {a : Nat}
    {stream : NgTcpStream} (listed : next.tcbSet ⊆ w.tcbSet)
    (streams : next.streams = Function.update w.streams a stream)
    (queued : ∀ fragment ∈ stream.sndbuf.getD [], fragment ∈ w.sndbuf a ∨ made fragment) :
    Queues w next made := by
  intro b here fragment member
  rw [Stack.sndbuf, streams] at member
  by_cases same : b = a
  · rw [same, Function.update_self] at member
    rw [same] at here ⊢
    exact (queued fragment member).imp_left fun old => ⟨listed here, old⟩
  · rw [Function.update_of_ne same] at member
    exact Or.inl ⟨listed here, member⟩

/-- A step that makes one stream. -/
theorem Queues.of_push {w next : Stack} {made : NgTcpFragment → Prop} {a : Nat}
    {stream : NgTcpStream} (listed : next.tcbSet = a :: w.tcbSet)
    (streams : next.streams = Function.update w.streams a stream)
    (queued : ∀ fragment ∈ stream.sndbuf.getD [], made fragment) : Queues w next made := by
  intro b here fragment member
  rw [Stack.sndbuf, streams] at member
  by_cases same : b = a
  · rw [same, Function.update_self] at member
    exact Or.inr (queued fragment member)
  · rw [Function.update_of_ne same] at member
    rw [listed, List.mem_cons] at here
    exact Or.inl ⟨here.resolve_left same, member⟩

/-- One step after another. -/
theorem Queues.trans {first second third : Stack} {made : NgTcpFragment → Prop}
    (one : Queues first second made) (other : Queues second third made) :
    Queues first third made := by
  intro a here fragment member
  rcases other a here fragment member with ⟨older, kept⟩ | new
  · exact one a older fragment kept
  · exact Or.inr new

/-- What is on a ring after one fragment has been queued. -/
theorem mem_of_ringEnqueue {ring : Option (List NgTcpFragment)} {fragment : NgTcpFragment}
    {items : List NgTcpFragment} (queued : ringEnqueue ring fragment = some items) :
    ∀ f ∈ items, f ∈ ring.getD [] ∨ (f = fragment ∧ TakesMore ring) := by
  intro f member
  obtain ⟨held, start, ⟨room, appended⟩ | ⟨_, same⟩⟩ := ringEnqueue_cases queued
  · rw [appended, List.mem_append, List.mem_singleton] at member
    rw [start]
    exact member.imp_right fun new => ⟨new, held, rfl, room⟩
  · rw [same] at member
    rw [start]
    exact Or.inl member

/-- A call of the application, a pass of `ng_tcp_out` or a received segment. -/
inductive Operation
  /-- `nsocket`. -/
  | nsocket (mem : Nat → Bool) (type : Int)
  /-- `nbind`. -/
  | nbind (sockfd : Int) (sinAddr : UInt32) (sinPort : UInt16)
  /-- `nlisten`. -/
  | nlisten (sockfd : Int)
  /-- `nrecv`. -/
  | nrecv (sockfd : Int) (buf : Nat → UInt8) (len : Nat)
  /-- A call or a pass that can send. -/
  | activity (activity : Activity)

/-- The stack after an operation that returns. -/
def Stack.operate (cksums : Cksums) (w : Stack) : Operation → Option Stack
  | .nsocket mem type => some (nsocket mem w type).2
  | .nbind sockfd sinAddr sinPort => some (nbind w sockfd sinAddr sinPort).2
  | .nlisten sockfd => some (nlisten w sockfd).2
  | .nrecv sockfd buf len => (nrecv w sockfd buf len).map fun (_, _, next) => next
  | .activity activity => w.exec cksums activity

/-- The fragments that an operation can queue. -/
inductive Produces (w : Stack) : Operation → NgTcpFragment → Prop
  /-- `nsend` queues data. -/
  | data {mem : Nat → Bool} {sockfd : Int} {buf : Nat → UInt8} {len a : Nat}
      (found : getHostinfoFromfd w sockfd = some (.stream a))
      (memory : mem 0 = true ∧ mem 1 = true) (room : TakesMore (w.streams a).sndbuf) :
      Produces w (.activity (.nsend mem sockfd buf len)) (nsendFragment (w.streams a) buf len)
  /-- `nclose` queues a `FIN`. -/
  | fin {held : NgTcpFragment} {fd : Int} {a : Nat}
      (found : getHostinfoFromfd w fd = some (.stream a))
      (status : (w.streams a).status ≠ .listen) (room : TakesMore (w.streams a).sndbuf) :
      Produces w (.activity (.nclose (some held) fd)) (finFragment held (w.streams a))
  /-- A request is answered. -/
  | synAck (mem : Nat → Bool) (seed : UInt32) (frame : Frame) :
      Produces w (.activity (.ngTcpProcess mem seed frame)) (synAck frame seed)
  /-- A segment is acknowledged. -/
  | ack (mem : Nat → Bool) (seed : UInt32) (frame : Frame) (stream : NgTcpStream) :
      Produces w (.activity (.ngTcpProcess mem seed frame)) (ackfrag stream frame.clearCksum)

section

variable {cksums : Cksums} {w next : Stack} {made : NgTcpFragment → Prop}

/-- `nsocket` queues nothing. -/
theorem nsocket_queues (mem : Nat → Bool) (type : Int) : Queues w (nsocket mem w type).2 made := by
  unfold nsocket
  dsimp only
  split
  · split
    · exact Queues.of_same (List.Subset.refl _) rfl
    · exact Queues.of_same (List.Subset.refl _) rfl
  · split
    · split
      · exact Queues.of_push rfl rfl fun fragment member => absurd member List.not_mem_nil
      · exact Queues.of_same (List.Subset.refl _) rfl
    · exact Queues.of_same (List.Subset.refl _) rfl

/-- `nbind` queues nothing. -/
theorem nbind_queues (sockfd : Int) (sinAddr : UInt32) (sinPort : UInt16) :
    Queues w (nbind w sockfd sinAddr sinPort).2 made := by
  unfold nbind
  split
  · exact Queues.of_same (List.Subset.refl _) rfl
  · exact Queues.of_same (List.Subset.refl _) rfl
  · exact Queues.of_update (List.Subset.refl _) rfl fun fragment member => Or.inl member

/-- `nlisten` queues nothing. -/
theorem nlisten_queues (sockfd : Int) : Queues w (nlisten w sockfd).2 made := by
  unfold nlisten
  split
  · exact Queues.of_same (List.Subset.refl _) rfl
  · exact Queues.of_same (List.Subset.refl _) rfl
  · exact Queues.of_update (List.Subset.refl _) rfl fun fragment member => Or.inl member

/-- `nrecv` queues nothing to be sent. -/
theorem nrecv_queues {sockfd r : Int} {buf after : Nat → UInt8} {len : Nat}
    (result : nrecv w sockfd buf len = some (r, after, next)) : Queues w next made := by
  unfold nrecv at result
  cases found : getHostinfoFromfd w sockfd with
  | none =>
    simp only [found, Option.some.injEq, Prod.mk.injEq] at result
    exact Queues.of_same (by rw [result.2.2]; exact List.Subset.refl _) (by rw [result.2.2])
  | some o =>
    cases o with
    | host a =>
      simp only [found, Option.some.injEq, Prod.mk.injEq] at result
      exact Queues.of_same (by rw [result.2.2]; exact List.Subset.refl _) (by rw [result.2.2])
    | stream a =>
      simp only [found] at result
      cases ring : (w.streams a).rcvbuf with
      | none =>
        rw [ring] at result
        cases result
      | some items =>
        cases items with
        | nil =>
          rw [ring] at result
          cases result
        | cons fragment rest =>
          simp only [ring, Option.map_eq_some_iff, Prod.exists, Prod.mk.injEq] at result
          obtain ⟨_, _, _, _, _, _, same⟩ := result
          rw [← same]
          exact Queues.of_update (List.Subset.refl _) rfl fun fragment member => Or.inl member

/-- `naccept` queues nothing. -/
theorem naccept_queues {sockfd fd : Int} {peer : Option (UInt32 × UInt16)}
    (result : naccept w sockfd = some (fd, peer, next)) : Queues w next made := by
  rcases naccept_cases result with ⟨_, same, _⟩ | ⟨apt, _, _, _, _, same⟩
  · rw [same]
    exact Queues.of_same (List.Subset.refl _) rfl
  · rw [same]
    exact Queues.of_update (List.Subset.refl _) rfl fun fragment member => Or.inl member

/-- What a pass of `ng_tcp_out` leaves on the ring of a stream was there before. -/
theorem mem_afterOut {entries : List ArpEntry} {stream : NgTcpStream} {fragment : NgTcpFragment}
    (member : fragment ∈ (afterOut entries stream).sndbuf.getD []) :
    fragment ∈ stream.sndbuf.getD [] := by
  unfold afterOut at member
  split at member
  · exact member
  · exact member
  · rename_i first rest ring
    rw [ring, Option.getD_some]
    split at member
    · cases queued : ringEnqueue (some rest) first with
      | none => cases queued
      | some items =>
        simp only [queued, Option.getD_some] at member
        rcases mem_of_ringEnqueue queued fragment member with old | new
        · exact List.mem_cons_of_mem first old
        · exact List.mem_cons.mpr (Or.inl new.1)
    · exact List.mem_cons_of_mem first member

/-- A pass of `ng_tcp_out` over one stream puts back at most what it has taken. -/
theorem ngTcpOutStream_queues {entries : List ArpEntry} {pool : Nat → Option Frame} {a : Nat}
    {packets : List Mbuf}
    (result : ngTcpOutStream cksums entries pool w a = some (packets, next)) :
    Queues w next made := by
  rw [ngTcpOutStream_after result]
  exact Queues.of_update (List.Subset.refl _) rfl fun fragment member => Or.inl (mem_afterOut member)

/-- `ng_tcp_out` queues nothing new, by induction over the streams that are left. -/
theorem ngTcpOut_queues {entries : List ArpEntry} {pool : Nat → Option Frame}
    {listed : List Nat} : ∀ {packets packets' : List Mbuf} {w next : Stack},
      listed.foldlM (fun (packets, w) a =>
        (ngTcpOutStream cksums entries pool w a).map fun (more, w) => (packets ++ more, w))
        (packets, w) = some (packets', next) → Queues w next made := by
  induction listed with
  | nil =>
    intro packets packets' w next result
    rw [List.foldlM_nil] at result
    injection result with result
    injection result with _ result
    rw [← result]
    exact Queues.of_same (List.Subset.refl _) rfl
  | cons a rest ih =>
    intro packets packets' w next result
    simp only [List.foldlM_cons, Option.bind_eq_bind, Option.bind_eq_some_iff,
      Option.map_eq_some_iff, Prod.exists] at result
    obtain ⟨_, middle, ⟨more, stack, out, same⟩, result⟩ := result
    injection same with _ same
    rw [same] at out
    exact (ngTcpOutStream_queues out).trans (ih result)

/-- `nsend` queues the data. -/
theorem nsend_queues {mem : Nat → Bool} {sockfd r : Int} {buf : Nat → UInt8} {len : Nat}
    (result : nsend mem w sockfd buf len = some (r, next)) :
    Queues w next (Produces w (.activity (.nsend mem sockfd buf len))) := by
  cases nsend_sends result with
  | failed => exact Queues.of_same (List.Subset.refl _) rfl
  | stream found memory queued =>
    refine Queues.of_update (List.Subset.refl _) rfl fun fragment member => ?_
    rcases mem_of_ringEnqueue queued fragment member with old | ⟨new, room⟩
    · exact Or.inl old
    · rw [new]
      exact Or.inr (Produces.data found memory room)

/-- `nclose` queues the `FIN`. -/
theorem nclose_queues {memory : Option NgTcpFragment} {fd r : Int}
    (result : nclose memory w fd = some (r, next)) :
    Queues w next (Produces w (.activity (.nclose memory fd))) := by
  cases nclose_closes result with
  | failed => exact Queues.of_same (List.Subset.refl _) rfl
  | host found cleared => exact Queues.of_same (List.Subset.refl _) rfl
  | stream found status block queued cleared =>
    refine Queues.of_update (List.Subset.refl _) rfl fun fragment member => ?_
    rcases mem_of_ringEnqueue queued fragment member with old | ⟨new, room⟩
    · exact Or.inl old
    · rw [new, block]
      exact Or.inr (Produces.fin found status room)
  | listener found listens => exact Queues.of_same List.erase_subset rfl

/-- An acknowledgement is all that `ng_tcp_send_ackpkt` queues. -/
theorem mem_of_ngTcpSendAckpkt {mem : Nat → Bool} {stream after : NgTcpStream} {frame : Frame}
    {r : Int} (result : ngTcpSendAckpkt mem stream frame = some (r, after)) :
    ∀ fragment ∈ after.sndbuf.getD [],
      fragment ∈ stream.sndbuf.getD [] ∨ fragment = ackfrag stream frame := by
  intro fragment member
  rcases ngTcpSendAckpkt_outcome result with ⟨_, _, _, held, start, stop⟩ | ⟨_, same⟩
  · rw [stop, Option.getD_some, List.mem_append, List.mem_singleton] at member
    rw [start]
    exact member
  · rw [same] at member
    exact Or.inl member

/-- Each branch of `ng_tcp_handle_established` queues acknowledgements only. -/
theorem mem_of_branch {mem : Nat → Bool} {stream stored after : NgTcpStream} {frame : Frame}
    {tcplen r r' : Int} {rcvNxt sndNxt : UInt32}
    (enqueue : ngTcpEnqueueRecvbuffer mem stream frame tcplen = some (r, stored))
    (answer : ngTcpSendAckpkt (fun n => mem (2 + n))
      { stored with rcvNxt := rcvNxt, sndNxt := sndNxt } frame = some (r', after)) :
    ∀ fragment ∈ after.sndbuf.getD [],
      fragment ∈ stream.sndbuf.getD [] ∨ ∃ s, fragment = ackfrag s frame := by
  intro fragment member
  have kept : stored.sndbuf = stream.sndbuf := by rw [ngTcpEnqueueRecvbuffer_rcvbuf enqueue]
  rcases mem_of_ngTcpSendAckpkt answer fragment member with old | new
  · change fragment ∈ stored.sndbuf.getD [] at old
    rw [kept] at old
    exact Or.inl old
  · exact Or.inr ⟨_, new⟩

/-- `ng_tcp_handle_established` queues acknowledgements only. -/
theorem mem_of_handleEstablished {mem : Nat → Bool} {stream after : NgTcpStream} {frame : Frame}
    {tcplen r : Int} (result : ngTcpHandleEstablished mem stream frame tcplen = some (r, after)) :
    ∀ fragment ∈ after.sndbuf.getD [],
      fragment ∈ stream.sndbuf.getD [] ∨ ∃ s, fragment = ackfrag s frame := by
  unfold ngTcpHandleEstablished at result
  simp only [Option.bind_eq_some_iff, Option.map_eq_some_iff] at result
  obtain ⟨middle, first, last, second, same⟩ := result
  injection same with _ same
  rw [same] at second
  have early : ∀ fragment ∈ middle.sndbuf.getD [],
      fragment ∈ stream.sndbuf.getD [] ∨ ∃ s, fragment = ackfrag s frame := by
    split at first
    · simp only [establishedPsh, Option.bind_eq_some_iff, Option.map_eq_some_iff,
        Prod.exists] at first
      obtain ⟨_, _, enqueue, _, _, answer, same⟩ := first
      rw [← same]
      exact mem_of_branch enqueue answer
    · rw [← Option.some.inj first]
      exact fun fragment member => Or.inl member
  intro fragment member
  split at second
  · simp only [establishedFin, Option.bind_eq_some_iff, Option.map_eq_some_iff,
      Prod.exists] at second
    obtain ⟨_, _, enqueue, _, _, answer, same⟩ := second
    rw [← same] at member
    rcases mem_of_branch enqueue answer fragment member with old | new
    · exact early fragment old
    · exact Or.inr new
  · rw [← Option.some.inj second] at member
    exact early fragment member

/-- A connection request for which there is no memory queues nothing. -/
theorem ngTcpHandleListen_refused {mem : Nat → Bool} {seed : UInt32} {a : Nat} {frame : Frame}
    {r : Int} (failed : mem 3 = false)
    (result : ngTcpHandleListen mem seed w a frame = some (r, next)) : Queues w next made := by
  have idle : some ((0 : Int), w) = some (r, next) → Queues w next made := by
    intro same
    injection same with same
    injection same with _ same
    rw [← same]
    exact Queues.of_same (List.Subset.refl _) rfl
  unfold ngTcpHandleListen at result
  split at result
  · split at result
    · rw [Option.bind_eq_some_iff] at result
      obtain ⟨stream, created, result⟩ := result
      simp only [failed, Bool.false_eq_true, if_false, Option.some.injEq, Prod.mk.injEq] at result
      rw [← result.2]
      refine Queues.of_push rfl rfl fun fragment member => ?_
      unfold ngTcpStreamCreate at created
      split at created
      · rw [← Option.some.inj created] at member
        simp only at member
        split at member
        · cases member
        · cases member
      · cases created
    · exact idle result
  · exact idle result

/-- A segment queues the answer to a request or acknowledgements. -/
theorem ngTcpProcess_queues {mem : Nat → Bool} {seed : UInt32} {frame : Frame} {r : Int}
    (result : ngTcpProcess cksums.rteIpv4UdptcpCksum mem seed w frame = some (r, next)) :
    Queues w next (Produces w (.activity (.ngTcpProcess mem seed frame))) := by
  cases ngTcpProcess_received result with
  | ignored => exact Queues.of_same (List.Subset.refl _) rfl
  | opened found listens syn ring =>
    refine Queues.of_push rfl rfl fun fragment member => ?_
    rw [List.mem_singleton.mp member]
    exact Produces.synAck mem seed frame
  | unanswered found listens syn failed fd status =>
    rename_i a stream
    have search : ngTcpStreamSearch w frame.clearCksum.srcAddr frame.clearCksum.dstAddr
        frame.clearCksum.srcPort frame.clearCksum.dstPort = some a := found
    simp only [ngTcpProcess, search, listens] at result
    split at result
    · injection result with result
      injection result with _ result
      rw [← result]
      exact Queues.of_same (List.Subset.refl _) rfl
    · simp only [Option.map_eq_some_iff, Prod.exists] at result
      obtain ⟨answer, after, handled, result⟩ := result
      injection result with _ result
      rw [← result]
      exact ngTcpHandleListen_refused failed handled
  | completed found half ack =>
    exact Queues.of_update (List.Subset.refl _) rfl fun fragment member => Or.inl member
  | handled found status handled =>
    refine Queues.of_update (List.Subset.refl _) rfl fun fragment member => ?_
    refine (mem_of_handleEstablished handled fragment member).imp_right ?_
    rintro ⟨stream, same⟩
    rw [same]
    exact Produces.ack mem seed frame stream
  | removed found status ack =>
    exact Queues.of_update List.erase_subset rfl fun fragment member => Or.inl member

/-- Every operation queues only what it can queue. -/
theorem operate_queues {operation : Operation}
    (done : w.operate cksums operation = some next) : Queues w next (Produces w operation) := by
  cases operation with
  | nsocket mem type =>
    rw [← Option.some.inj done]
    exact nsocket_queues mem type
  | nbind sockfd sinAddr sinPort =>
    rw [← Option.some.inj done]
    exact nbind_queues sockfd sinAddr sinPort
  | nlisten sockfd =>
    rw [← Option.some.inj done]
    exact nlisten_queues sockfd
  | nrecv sockfd buf len =>
    simp only [Stack.operate, Option.map_eq_some_iff, Prod.exists] at done
    obtain ⟨r, after, stack, result, same⟩ := done
    rw [← same]
    exact nrecv_queues result
  | activity activity =>
    cases activity with
    | nsend mem sockfd buf len =>
      simp only [Stack.operate, Stack.exec, Option.map_eq_some_iff, Prod.exists] at done
      obtain ⟨r, stack, result, same⟩ := done
      rw [← same]
      exact nsend_queues result
    | nclose memory fd =>
      simp only [Stack.operate, Stack.exec, Option.map_eq_some_iff, Prod.exists] at done
      obtain ⟨r, stack, result, same⟩ := done
      rw [← same]
      exact nclose_queues result
    | naccept sockfd =>
      simp only [Stack.operate, Stack.exec, Option.map_eq_some_iff, Prod.exists] at done
      obtain ⟨fd, peer, stack, result, same⟩ := done
      rw [← same]
      exact naccept_queues result
    | ngTcpOut entries pool =>
      simp only [Stack.operate, Stack.exec, Option.map_eq_some_iff, Prod.exists] at done
      obtain ⟨packets, stack, result, same⟩ := done
      rw [← same]
      exact ngTcpOut_queues result
    | ngTcpProcess mem seed frame =>
      simp only [Stack.operate, Stack.exec, Option.map_eq_some_iff, Prod.exists] at done
      obtain ⟨r, stack, result, same⟩ := done
      rw [← same]
      exact ngTcpProcess_queues result

end

/-- Operations that queue no fragment that is not well formed: the data that is queued is not
empty and fits into a frame, and the memory of a `FIN` that is queued held no options. -/
def Proper (w : Stack) : Operation → Prop
  | .activity (.nsend mem sockfd _ len) =>
    ∀ a, getHostinfoFromfd w sockfd = some (.stream a) → mem 0 = true → mem 1 = true →
      TakesMore (w.streams a).sndbuf → 0 < counted len ∧ 54 + counted len < 2 ^ 16
  | .activity (.nclose (some held) fd) =>
    ∀ a, getHostinfoFromfd w fd = some (.stream a) → (w.streams a).status ≠ .listen →
      TakesMore (w.streams a).sndbuf → held.optlen = 0
  | _ => True

/-- That is what the condition says. -/
theorem proper_iff {w : Stack} {operation : Operation} :
    Proper w operation ↔ ∀ fragment, Produces w operation fragment → WellFormed fragment := by
  constructor
  · intro proper fragment produced
    cases produced with
    | data found memory room =>
      exact nsendFragment_wellFormed.mpr (proper _ found memory.1 memory.2 room)
    | fin found status room => exact finFragment_wellFormed.mpr (proper _ found status room)
    | synAck mem seed frame => exact synAck_wellFormed frame seed
    | ack mem seed frame stream => exact ackfrag_wellFormed stream _
  · intro formed
    unfold Proper
    split
    · intro a found first second room
      exact nsendFragment_wellFormed.mp (formed _ (Produces.data found ⟨first, second⟩ room))
    · intro a found status room
      exact finFragment_wellFormed.mp (formed _ (Produces.fin found status room))
    · trivial

/-- Every fragment that is queued to be sent is well formed. -/
def AllFormed (w : Stack) : Prop := ∀ a ∈ w.tcbSet, ∀ fragment ∈ w.sndbuf a, WellFormed fragment

/-- What a step keeps. -/
theorem operate_allFormed {cksums : Cksums} {w next : Stack} {operation : Operation}
    (formed : AllFormed w) (proper : Proper w operation)
    (done : w.operate cksums operation = some next) : AllFormed next := by
  intro a here fragment member
  rcases operate_queues done a here fragment member with ⟨before, old⟩ | new
  · exact formed a before fragment old
  · exact proper_iff.mp proper fragment new

/-- In every run of proper operations every fragment that is queued to be sent is well formed. -/
theorem run_allFormed {cksums : Cksums} {hosts : Nat → Localhost} {streams : Nat → NgTcpStream}
    {gSrcMac : List UInt8} {trace : List Operation} {w : Stack}
    (run : Run (fun w operation next => w.operate cksums operation = some next ∧
      Proper w operation) (Stack.initial hosts streams gSrcMac) trace w) : AllFormed w := by
  refine run.invariant AllFormed ?_ ?_
  · intro a here
    cases here
  · intro w operation next formed step
    exact operate_allFormed formed step.2 step.1

/-- A socket of a stream. -/
def streaming : Stack := (nsocket (fun _ => true) idle SOCK_STREAM).2

/-- One byte is sent. -/
theorem run_allFormed_byte : ∃ trace w,
    Run (fun w operation next => w.operate ⟨fun _ => 0, fun _ => 0⟩ operation = some next ∧
      Proper w operation) idle trace w ∧ AllFormed w ∧ (w.sndbuf 0).length = 1 := by
  have opened : Run (fun w operation next =>
      w.operate ⟨fun _ => 0, fun _ => 0⟩ operation = some next ∧ Proper w operation) idle
      [.nsocket (fun _ => true) SOCK_STREAM] streaming := Run.snoc Run.nil ⟨rfl, trivial⟩
  have sent : Run (fun w operation next =>
      w.operate ⟨fun _ => 0, fun _ => 0⟩ operation = some next ∧ Proper w operation) idle
      [.nsocket (fun _ => true) SOCK_STREAM,
        .activity (.nsend (fun _ => true) 3 (fun _ => 0x41) 1)] _ :=
    Run.snoc opened ⟨rfl, fun _ _ _ _ _ => by decide⟩
  exact ⟨_, _, sent, run_allFormed sent, by decide⟩

/-- A stream is closed, and the memory of its `FIN` holds a number of options. -/
theorem run_malformed : ∃ trace w,
    Run (fun w operation next => w.operate ⟨fun _ => 0, fun _ => 0⟩ operation = some next) idle
      trace w ∧ ¬ AllFormed w := by
  have opened : Run (fun w operation next =>
      w.operate ⟨fun _ => 0, fun _ => 0⟩ operation = some next) idle
      [.nsocket (fun _ => true) SOCK_STREAM] streaming := Run.snoc Run.nil rfl
  have closed : Run (fun w operation next =>
      w.operate ⟨fun _ => 0, fun _ => 0⟩ operation = some next) idle
      [.nsocket (fun _ => true) SOCK_STREAM,
        .activity (.nclose (some { NgTcpFragment.zero with optlen := 7 }) 3)] _ :=
    Run.snoc opened rfl
  refine ⟨_, _, closed, fun formed => ?_⟩
  have options := finFragment_wellFormed.mp (formed 0 (by decide) _ (List.mem_singleton_self _))
  exact absurd options (by decide)

end BackendCpp.Tcp
