import BackendCpp.Tcp.Sending
import BackendCpp.Tcp.Handshake

/-!
# Sequence numbers

`nsend` and `nclose` number their fragments with `snd_nxt` and do not move it. It is moved only
by the segments that an established stream answers, to the number that they acknowledge. So
the numbers are contiguous only when the application takes turns with the peer: when, before
each fragment of the application, a segment has come that acknowledges all that was queued.
-/

namespace BackendCpp.Tcp

open BackendCpp.Library

/-- The number of bytes of data in fragments. -/
def dataBytes (fragments : List NgTcpFragment) : Nat :=
  (fragments.map fun fragment => fragment.length.toNat).sum

/-- The number that follows `before` on a stream that began with `isn`. -/
def following (isn : UInt32) (before : List NgTcpFragment) : UInt32 :=
  isn + 1 + UInt32.ofNat (dataBytes before)

/-- Every fragment carries the number that follows the data queued before it. -/
def Contiguous (isn : UInt32) (queued : List NgTcpFragment) : Prop :=
  ∀ before fragment after, queued = before ++ fragment :: after →
    fragment.seqnum = following isn before

/-- A stack, with the history of what is queued on one stream. -/
structure Numbering where
  /-- The stack. -/
  stack : Stack
  /-- History: the fragments that have been queued. -/
  queued : List NgTcpFragment
  /-- History: whether, since data was queued last, a segment has been answered that
  acknowledges everything. -/
  acked : Bool

/-- The history begins. -/
def Numbering.initial (w : Stack) : Numbering := ⟨w, [], false⟩

/-- Whether everything has been acknowledged after an activity. -/
def Numbering.ackedBy (cksums : Cksums) (a : Nat) (isn : UInt32) (s : Numbering) (next : Stack) :
    Activity → Bool
  | .ngTcpProcess _ _ frame =>
    if IsAnswered cksums a s.stack frame then ntohl frame.recvAck = following isn s.queued
    else s.acked
  | .nsend mem sockfd buf len =>
    s.acked && dataBytes (queuedBy a s.stack next (.nsend mem sockfd buf len)) = 0
  | .nclose _ _ | .naccept _ | .ngTcpOut _ _ => s.acked

/-- The state after an activity that returns. -/
def Numbering.exec (cksums : Cksums) (a : Nat) (isn : UInt32) (s : Numbering)
    (activity : Activity) : Option Numbering :=
  (s.stack.exec cksums activity).map fun next =>
    ⟨next, s.queued ++ queuedBy a s.stack next activity, s.ackedBy cksums a isn next activity⟩

/-- The application queues a fragment only when everything has been acknowledged, and the
segments that are answered acknowledge everything. -/
def InTurn (cksums : Cksums) (a : Nat) (isn : UInt32) (s : Numbering) : Activity → Prop
  | .nsend mem sockfd _ _ => getHostinfoFromfd s.stack sockfd = some (.stream a) →
    mem 0 = true ∧ mem 1 = true → HasRoom s.stack a → s.acked = true
  | .nclose memory fd => getHostinfoFromfd s.stack fd = some (.stream a) → memory ≠ none →
    HasRoom s.stack a → s.acked = true
  | .ngTcpProcess _ _ frame => IsAnswered cksums a s.stack frame →
    ntohl frame.recvAck = following isn s.queued
  | .naccept _ | .ngTcpOut _ _ => True

/-- What holds between activities. -/
structure Numbered (a : Nat) (isn : UInt32) (s : Numbering) : Prop where
  /-- The list of streams is in order. -/
  listed : Listed s.stack
  /-- The stream has been allocated. -/
  below : a < s.stack.fresh
  /-- It is not a listener. -/
  connected : (s.stack.streams a).status ≠ .listen
  /-- The numbers so far are contiguous. -/
  contiguous : Contiguous isn s.queued
  /-- When everything has been acknowledged, `snd_nxt` is the number that follows. -/
  current : s.acked = true → (s.stack.streams a).sndNxt = following isn s.queued

/-- The bytes of two lists add up. -/
theorem dataBytes_append (front back : List NgTcpFragment) :
    dataBytes (front ++ back) = dataBytes front + dataBytes back := by
  rw [dataBytes, List.map_append, List.sum_append]
  rfl

/-- Fragments without data. -/
theorem dataBytes_empty {fragments : List NgTcpFragment}
    (empty : ∀ fragment ∈ fragments, fragment.length = 0) : dataBytes fragments = 0 := by
  induction fragments with
  | nil => rfl
  | cons first rest ih =>
    have zero := empty first List.mem_cons_self
    have others := ih fun fragment member => empty fragment (List.mem_cons_of_mem _ member)
    change first.length.toNat + dataBytes rest = 0
    rw [zero, others]
    rfl

/-- Nothing follows nothing. -/
theorem following_append {isn : UInt32} {front back : List NgTcpFragment}
    (empty : dataBytes back = 0) : following isn (front ++ back) = following isn front := by
  rw [following, dataBytes_append, empty]
  rfl

/-- Nothing has no gap. -/
theorem Contiguous.nil (isn : UInt32) : Contiguous isn [] := by
  intro before fragment after same
  exact absurd same.symm (List.append_ne_nil_of_right_ne_nil _ (List.cons_ne_nil _ _))

/-- A further fragment that carries the right number. -/
theorem Contiguous.snoc {isn : UInt32} {queued : List NgTcpFragment} {fragment : NgTcpFragment}
    (inv : Contiguous isn queued) (number : fragment.seqnum = following isn queued) :
    Contiguous isn (queued ++ [fragment]) := by
  intro before other after same
  cases after using List.reverseRecOn with
  | nil =>
    obtain ⟨front, last⟩ := List.append_inj' same rfl
    injection last with last
    rw [← front, ← last]
    exact number
  | append_singleton init last =>
    have shape : queued ++ [fragment] = (before ++ other :: init) ++ [last] := by
      rw [same, List.append_assoc]
      rfl
    obtain ⟨front, _⟩ := List.append_inj' shape rfl
    exact inv before other init front

/-- Further fragments without data that carry the right number. -/
theorem Contiguous.append {isn : UInt32} {queued : List NgTcpFragment}
    (inv : Contiguous isn queued) {more : List NgTcpFragment}
    (numbers : ∀ fragment ∈ more, fragment.seqnum = following isn queued ∧ fragment.length = 0) :
    Contiguous isn (queued ++ more) := by
  induction more using List.reverseRecOn with
  | nil =>
    rw [List.append_nil]
    exact inv
  | append_singleton init last ih =>
    have early : ∀ fragment ∈ init,
        fragment.seqnum = following isn queued ∧ fragment.length = 0 := by
      intro fragment member
      exact numbers fragment (List.mem_append_left _ member)
    rw [← List.append_assoc]
    apply (ih early).snoc
    rw [following_append (dataBytes_empty fun fragment member => (early fragment member).2)]
    exact (numbers last (List.mem_append_right _ List.mem_cons_self)).1

/-- An activity that is not a segment which is answered does not acknowledge everything. -/
theorem ackedBy_quiet {a : Nat} {isn : UInt32} {s : Numbering} {cksums : Cksums} {next : Stack}
    {activity : Activity} (quiet : Quiet cksums a s.stack activity) :
    s.ackedBy cksums a isn next activity = true → s.acked = true := by
  cases activity with
  | ngTcpProcess mem seed frame =>
    intro acked
    simp only [Numbering.ackedBy] at acked
    rw [if_neg quiet] at acked
    exact acked
  | nsend mem sockfd buf len =>
    intro acked
    exact (Bool.and_eq_true_iff.mp acked).1
  | nclose _ _ | naccept _ | ngTcpOut _ _ => exact id

/-- An activity that queues nothing and leaves `snd_nxt` alone. -/
theorem Numbered.idle {a : Nat} {isn : UInt32} {s : Numbering} (inv : Numbered a isn s)
    {cksums : Cksums} {next : Stack} {activity : Activity} (listed : Listed next)
    (fresh : s.stack.fresh ≤ next.fresh) (connected : (next.streams a).status ≠ .listen)
    (number : (next.streams a).sndNxt = (s.stack.streams a).sndNxt)
    (nothing : queuedBy a s.stack next activity = [])
    (kept : s.ackedBy cksums a isn next activity = true → s.acked = true) :
    Numbered a isn ⟨next, s.queued ++ queuedBy a s.stack next activity,
      s.ackedBy cksums a isn next activity⟩ := by
  rw [nothing, List.append_nil]
  refine ⟨listed, Nat.lt_of_lt_of_le inv.below fresh, connected, inv.contiguous, ?_⟩
  intro acked
  change (next.streams a).sndNxt = following isn s.queued
  rw [number]
  exact inv.current (kept acked)

/-- `nsend` in turn. -/
theorem Numbered.sent {a : Nat} {isn : UInt32} {s : Numbering} (inv : Numbered a isn s)
    {cksums : Cksums} {next : Stack} {mem : Nat → Bool} {sockfd : Int} {buf : Nat → UInt8}
    {len : Nat} {ring : List NgTcpFragment} (listed : Listed next)
    (fresh : s.stack.fresh ≤ next.fresh)
    (found : getHostinfoFromfd s.stack sockfd = some (.stream a))
    (memory : mem 0 = true ∧ mem 1 = true)
    (queued : ringEnqueue (s.stack.streams a).sndbuf
      (nsendFragment (s.stack.streams a) buf len) = some ring)
    (stream : next.streams a = { s.stack.streams a with sndbuf := some ring })
    (turn : InTurn cksums a isn s (.nsend mem sockfd buf len)) :
    Numbered a isn ⟨next, s.queued ++ queuedBy a s.stack next (.nsend mem sockfd buf len),
      s.ackedBy cksums a isn next (.nsend mem sockfd buf len)⟩ := by
  have connected : (next.streams a).status ≠ .listen := by
    rw [stream]
    exact inv.connected
  have number : (next.streams a).sndNxt = (s.stack.streams a).sndNxt := by rw [stream]
  rcases drop_enqueued queued (congrArg NgTcpStream.sndbuf stream) with ⟨room, one⟩ | ⟨_, none⟩
  · have acked := turn found memory room
    have current := inv.current acked
    have added : queuedBy a s.stack next (.nsend mem sockfd buf len) =
        [nsendFragment (s.stack.streams a) buf len] := one
    refine ⟨listed, Nat.lt_of_lt_of_le inv.below fresh, connected, ?_, ?_⟩
    · rw [added]
      exact inv.contiguous.snoc current
    · intro still
      have empty := of_decide_eq_true (Bool.and_eq_true_iff.mp still).2
      change (next.streams a).sndNxt = following isn (s.queued ++ queuedBy a s.stack next _)
      rw [number, following_append empty]
      exact current
  · exact inv.idle listed fresh connected number none (@ackedBy_quiet a isn s cksums next _ trivial)

/-- `nclose` in turn. -/
theorem Numbered.closed {a : Nat} {isn : UInt32} {s : Numbering} (inv : Numbered a isn s)
    {cksums : Cksums} {next : Stack} {memory : Option NgTcpFragment} {fd : Int}
    {held : NgTcpFragment} {ring : List NgTcpFragment} (listed : Listed next)
    (fresh : s.stack.fresh ≤ next.fresh)
    (found : getHostinfoFromfd s.stack fd = some (.stream a)) (block : memory = some held)
    (queued : ringEnqueue (s.stack.streams a).sndbuf
      (finFragment held (s.stack.streams a)) = some ring)
    (stream : next.streams a =
      { s.stack.streams a with sndbuf := some ring, status := .lastAck })
    (turn : InTurn cksums a isn s (.nclose memory fd)) :
    Numbered a isn ⟨next, s.queued ++ queuedBy a s.stack next (.nclose memory fd),
      s.ackedBy cksums a isn next (.nclose memory fd)⟩ := by
  have connected : (next.streams a).status ≠ .listen := by
    rw [stream]
    intro same
    cases same
  have number : (next.streams a).sndNxt = (s.stack.streams a).sndNxt := by rw [stream]
  rcases drop_enqueued queued (congrArg NgTcpStream.sndbuf stream) with ⟨room, one⟩ | ⟨_, none⟩
  · have present : memory ≠ none := by
      rw [block]
      exact Option.some_ne_none held
    have acked := turn found present room
    have current := inv.current acked
    have added : queuedBy a s.stack next (.nclose memory fd) =
        [finFragment held (s.stack.streams a)] := one
    refine ⟨listed, Nat.lt_of_lt_of_le inv.below fresh, connected, ?_, ?_⟩
    · rw [added]
      exact inv.contiguous.snoc current
    · intro _
      change (next.streams a).sndNxt = following isn (s.queued ++ queuedBy a s.stack next _)
      rw [number, added, following_append rfl]
      exact current
  · exact inv.idle listed fresh connected number none id

/-- A segment that is answered and acknowledges everything. -/
theorem Numbered.answered {a : Nat} {isn : UInt32} {s : Numbering} (inv : Numbered a isn s)
    {cksums : Cksums} {next : Stack} {mem : Nat → Bool} {seed : UInt32} {frame : Frame}
    (listed : Listed next) (fresh : s.stack.fresh ≤ next.fresh)
    (answered : IsAnswered cksums a s.stack frame)
    (answers : Answers (ntohl frame.recvAck) (s.stack.streams a) (next.streams a))
    (kind : (next.streams a).status = .established ∨ (next.streams a).status = .closeWait)
    (turn : InTurn cksums a isn s (.ngTcpProcess mem seed frame)) :
    Numbered a isn ⟨next, s.queued ++ queuedBy a s.stack next (.ngTcpProcess mem seed frame),
      s.ackedBy cksums a isn next (.ngTcpProcess mem seed frame)⟩ := by
  have everything := turn answered
  obtain ⟨acks, extended, all⟩ := answers.sndbuf
  have numbers : ∀ fragment ∈ queuedBy a s.stack next (.ngTcpProcess mem seed frame),
      fragment.seqnum = following isn s.queued ∧ fragment.length = 0 := by
    intro fragment member
    rw [← everything]
    change fragment ∈ (next.sndbuf a).drop (s.stack.sndbuf a).length at member
    rcases drop_extended extended with more | ⟨_, nothing⟩
    · rw [more] at member
      exact all fragment member
    · rw [nothing] at member
      cases member
  have empty := dataBytes_empty fun fragment member => (numbers fragment member).2
  refine ⟨listed, Nat.lt_of_lt_of_le inv.below fresh, ?_, inv.contiguous.append numbers, ?_⟩
  · change (next.streams a).status ≠ .listen
    intro same
    rw [same] at kind
    rcases kind with impossible | impossible
    · cases impossible
    · cases impossible
  · intro _
    change (next.streams a).sndNxt = following isn (s.queued ++ queuedBy a s.stack next _)
    rw [following_append empty, answers.sndNxt, everything]

/-- Every activity in turn keeps the numbers contiguous. -/
theorem exec_numbered {a : Nat} {isn : UInt32} {s next : Numbering} (inv : Numbered a isn s)
    {cksums : Cksums} {activity : Activity} (turn : InTurn cksums a isn s activity)
    (done : s.exec cksums a isn activity = some next) : Numbered a isn next := by
  rw [Numbering.exec, Option.map_eq_some_iff] at done
  obtain ⟨stack, taken, same⟩ := done
  rw [← same]
  obtain ⟨listed, fresh⟩ := exec_listed inv.listed taken
  cases exec_effect inv.listed inv.below taken with
  | same fd quiet stream _ =>
    refine inv.idle listed fresh ?_ ?_ ?_ (ackedBy_quiet quiet)
    · rw [stream]
      exact inv.connected
    · rw [stream]
    · apply queuedBy_same
      rw [stream]
  | sent member found memory queued stream _ =>
    exact inv.sent listed fresh found memory queued stream turn
  | closed member found block queued stream _ =>
    exact inv.closed listed fresh found block queued stream turn
  | dropped listens => exact absurd listens inv.connected
  | out member stream _ =>
    obtain ⟨status, number, _⟩ := afterOut_fields _ (s.stack.streams a)
    refine inv.idle listed fresh ?_ ?_ rfl id
    · rw [stream, status]
      exact inv.connected
    · rw [stream, number]
  | completed member half stream _ =>
    refine inv.idle listed fresh ?_ ?_ ?_ ?_
    · rw [stream]
      intro impossible
      cases impossible
    · rw [stream]
    · apply queuedBy_same
      rw [stream]
    · apply ackedBy_quiet
      intro answered
      have status := answered.2.2.1
      rw [half] at status
      cases status
  | answered member answered answers kind _ =>
    exact inv.answered listed fresh answered answers kind turn
  | removed member right found status ack stream gone =>
    refine inv.idle listed fresh ?_ ?_ ?_ ?_
    · rw [stream]
      intro impossible
      cases impossible
    · rw [stream]
    · apply queuedBy_same
      rw [stream]
    · apply ackedBy_quiet
      intro answered
      have established := answered.2.2.1
      rw [status] at established
      cases established

/-- The stack on which a segment has made a stream and queued the answer to it. -/
theorem made_numbered {rteIpv4UdptcpCksum : Frame → UInt16} {mem : Nat → Bool} {isn : UInt32}
    {before w : Stack} {frame : Frame} {r : Int} (listed : Listed before)
    (made : ngTcpProcess rteIpv4UdptcpCksum mem isn before frame = some (r, w))
    (new : w.fresh ≠ before.fresh) (answered : (w.streams before.fresh).status = .synRcvd) :
    Numbered before.fresh isn (Numbering.initial w) := by
  have pushed : ∀ stream, w = before.push stream →
      Numbered before.fresh isn (Numbering.initial w) := by
    intro stream same
    rw [same]
    refine ⟨(listed.push stream).1, Nat.lt_succ_self _, ?_, Contiguous.nil isn, ?_⟩
    · rw [same, push_streams_fresh] at answered
      change ((before.push stream).streams before.fresh).status ≠ .listen
      rw [push_streams_fresh, answered]
      intro impossible
      cases impossible
    · intro acked
      cases acked
  cases ngTcpProcess_received made with
  | ignored => exact absurd rfl new
  | opened found listens syn ring => exact pushed _ rfl
  | unanswered found listens syn failed fd status => exact pushed _ rfl
  | completed found half ack => exact absurd rfl new
  | handled found status handled => exact absurd rfl new
  | removed found status ack => exact absurd rfl new

/-- On every stream that `ng_tcp_handle_listen` makes, the numbers of the fragments queued after
the answer to the request are contiguous, in every run of activities in turn. -/
theorem run_contiguous {cksums : Cksums} {mem : Nat → Bool} {isn : UInt32} {before w : Stack}
    {frame : Frame} {r : Int} {trace : List Activity} {s : Numbering} (listed : Listed before)
    (made : ngTcpProcess cksums.rteIpv4UdptcpCksum mem isn before frame = some (r, w))
    (new : w.fresh ≠ before.fresh) (answered : (w.streams before.fresh).status = .synRcvd)
    (run : Run (fun s activity next => s.exec cksums before.fresh isn activity = some next ∧
      InTurn cksums before.fresh isn s activity) (Numbering.initial w) trace s) :
    Contiguous isn s.queued := by
  have inv : Numbered before.fresh isn s := by
    apply run.invariant (Numbered before.fresh isn) (made_numbered listed made new answered)
    intro s activity next inv taken
    exact exec_numbered inv taken.2 taken.1
  exact inv.contiguous

/-- Checksums that are all zero. -/
def zeroCksums : Cksums := ⟨fun _ => 0, fun _ => 0⟩

/-- One byte from the address `0.0.0.1`, which acknowledges the number 7. -/
def oneByte : Frame := fun i =>
  if i = 17 then 41
  else if i = 29 then 1
  else if i = tcphdr + 11 then 8
  else if i = tcphdr + 12 then 0x50
  else if i = tcphdr + 13 then RTE_TCP_PSH_FLAG ||| RTE_TCP_ACK_FLAG
  else 0

/-- A listener that has been asked for a connection. -/
def asked : Stack :=
  ((ngTcpProcess zeroCksums.rteIpv4UdptcpCksum (fun _ => true) 7 listening request).map
    Prod.snd).getD listening

/-- The byte is answered, and then the application sends one. -/
theorem run_contiguous_echo : ∃ trace s,
    Run (fun s activity next => s.exec zeroCksums 1 7 activity = some next ∧
      InTurn zeroCksums 1 7 s activity) (Numbering.initial asked) trace s ∧
    Contiguous 7 s.queued ∧ s.queued.map NgTcpFragment.seqnum = [8, 8] := by
  have complete : Run (fun s activity next => s.exec zeroCksums 1 7 activity = some next ∧
      InTurn zeroCksums 1 7 s activity) (Numbering.initial asked)
      [.ngTcpProcess (fun _ => true) 0 acknowledgement] _ :=
    Run.snoc Run.nil ⟨rfl, fun answered => absurd answered (by decide)⟩
  have accepted : Run (fun s activity next => s.exec zeroCksums 1 7 activity = some next ∧
      InTurn zeroCksums 1 7 s activity) (Numbering.initial asked)
      [.ngTcpProcess (fun _ => true) 0 acknowledgement, .naccept 3] _ :=
    Run.snoc complete ⟨rfl, trivial⟩
  have received : Run (fun s activity next => s.exec zeroCksums 1 7 activity = some next ∧
      InTurn zeroCksums 1 7 s activity) (Numbering.initial asked)
      [.ngTcpProcess (fun _ => true) 0 acknowledgement, .naccept 3,
        .ngTcpProcess (fun _ => true) 0 oneByte] _ :=
    Run.snoc accepted ⟨rfl, fun _ => rfl⟩
  have sent : Run (fun s activity next => s.exec zeroCksums 1 7 activity = some next ∧
      InTurn zeroCksums 1 7 s activity) (Numbering.initial asked)
      [.ngTcpProcess (fun _ => true) 0 acknowledgement, .naccept 3,
        .ngTcpProcess (fun _ => true) 0 oneByte, .nsend (fun _ => true) 4 (fun _ => 65) 1] _ :=
    Run.snoc received ⟨rfl, fun _ _ _ => rfl⟩
  have made : ngTcpProcess zeroCksums.rteIpv4UdptcpCksum (fun _ => true) 7 listening request =
      some (0, asked) := rfl
  exact ⟨_, _, sent, run_contiguous ⟨by decide, by decide⟩ made (by decide) (by decide) sent,
    by decide⟩

/-- A server that speaks first numbers its byte like the answer to the request. -/
theorem run_discontiguous : ∃ trace s,
    ngTcpProcess zeroCksums.rteIpv4UdptcpCksum (fun _ => true) 7 listening request =
      some (0, asked) ∧
    Run (fun s activity next => s.exec zeroCksums 1 7 activity = some next)
      (Numbering.initial asked) trace s ∧
    ¬ Contiguous 7 s.queued := by
  have complete : Run (fun s activity next => s.exec zeroCksums 1 7 activity = some next)
      (Numbering.initial asked) [.ngTcpProcess (fun _ => true) 0 acknowledgement] _ :=
    Run.snoc Run.nil rfl
  have accepted : Run (fun s activity next => s.exec zeroCksums 1 7 activity = some next)
      (Numbering.initial asked)
      [.ngTcpProcess (fun _ => true) 0 acknowledgement, .naccept 3] _ :=
    Run.snoc complete rfl
  have sent : Run (fun s activity next => s.exec zeroCksums 1 7 activity = some next)
      (Numbering.initial asked)
      [.ngTcpProcess (fun _ => true) 0 acknowledgement, .naccept 3,
        .nsend (fun _ => true) 4 (fun _ => 65) 1] _ :=
    Run.snoc accepted rfl
  refine ⟨_, _, rfl, sent, ?_⟩
  intro contiguous
  have number := contiguous [] _ [] rfl
  exact absurd number (by decide)

end BackendCpp.Tcp
