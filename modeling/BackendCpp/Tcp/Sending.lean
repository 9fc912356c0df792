import BackendCpp.Tcp.Output
import BackendCpp.Tcp.Transitions
import BackendCpp.Library.Run

/-!
# What happens to one stream

The calls of the application, the passes of `ng_tcp_out` and the received segments, with what
each can do to one stream: to its place on `tcb_set`, to its status and to what it sends.
-/

namespace BackendCpp.Tcp

open BackendCpp.Library

/-- A call of the application, a pass of `ng_tcp_out` or a received segment. -/
inductive Activity
  /-- `nsend`. -/
  | nsend (mem : Nat → Bool) (sockfd : Int) (buf : Nat → UInt8) (len : Nat)
  /-- `nclose`. -/
  | nclose (memory : Option NgTcpFragment) (fd : Int)
  /-- `naccept`. -/
  | naccept (sockfd : Int)
  /-- `ng_tcp_out`. -/
  | ngTcpOut (entries : List ArpEntry) (pool : Nat → Option Frame)
  /-- `ng_tcp_process`. -/
  | ngTcpProcess (mem : Nat → Bool) (seed : UInt32) (frame : Frame)

/-- The stack after an activity that returns. -/
def Stack.exec (cksums : Cksums) (w : Stack) : Activity → Option Stack
  | .nsend mem sockfd buf len => (nsend mem w sockfd buf len).map Prod.snd
  | .nclose memory fd => (nclose memory w fd).map Prod.snd
  | .naccept sockfd => (naccept w sockfd).map fun (_, _, next) => next
  | .ngTcpOut entries pool => (ngTcpOut cksums entries pool w).map Prod.snd
  | .ngTcpProcess mem seed frame =>
    (ngTcpProcess cksums.rteIpv4UdptcpCksum mem seed w frame).map Prod.snd

/-- The streams on `tcb_set` have been allocated, and each is there once. -/
structure Listed (w : Stack) : Prop where
  /-- No stream is listed twice. -/
  nodup : w.tcbSet.Nodup
  /-- All have been allocated. -/
  below : ∀ a ∈ w.tcbSet, a < w.fresh

/-- A stream after a pass of `ng_tcp_out`. -/
def afterOut (entries : List ArpEntry) (stream : NgTcpStream) : NgTcpStream :=
  match stream.sndbuf with
  | none => stream
  | some [] => stream
  | some (fragment :: rest) =>
    match ngGetDstMacaddr entries stream.sip with
    | none => { stream with sndbuf := ringEnqueue (some rest) fragment }
    | some _ => { stream with sndbuf := some rest }

/-- One pass of the loop changes one stream. -/
theorem ngTcpOutStream_after {cksums : Cksums} {entries : List ArpEntry}
    {pool : Nat → Option Frame} {w next : Stack} {a : Nat} {packets : List Mbuf}
    (result : ngTcpOutStream cksums entries pool w a = some (packets, next)) :
    next = w.setStream a (afterOut entries (w.streams a)) := by
  have idle : w = w.setStream a (w.streams a) := by
    unfold Stack.setStream
    rw [Function.update_eq_self]
  simp only [ngTcpOutStream] at result
  unfold afterOut
  cases ring : (w.streams a).sndbuf with
  | none =>
    simp only [ring, Option.some.injEq, Prod.mk.injEq] at result
    rw [← result.2]
    exact idle
  | some fragments =>
    cases fragments with
    | nil =>
      simp only [ring, Option.some.injEq, Prod.mk.injEq] at result
      rw [← result.2]
      exact idle
    | cons fragment rest =>
      simp only [ring] at result
      cases mac : ngGetDstMacaddr entries (w.streams a).sip with
      | none =>
        simp only [mac, Option.map_eq_some_iff, Prod.mk.injEq] at result
        obtain ⟨memory, _, _, result⟩ := result
        exact result.symm
      | some dstmac =>
        simp only [mac, Option.map_eq_some_iff, Prod.mk.injEq] at result
        obtain ⟨memory, _, _, result⟩ := result
        exact result.symm

/-- The loop changes every stream of the list, once. -/
theorem foldlM_ngTcpOutStream {cksums : Cksums} {entries : List ArpEntry}
    {pool : Nat → Option Frame} {listed : List Nat} (nodup : listed.Nodup) :
    ∀ {packets packets' : List Mbuf} {w next : Stack},
      listed.foldlM (fun (packets, w) a =>
        (ngTcpOutStream cksums entries pool w a).map fun (more, w) => (packets ++ more, w))
        (packets, w) = some (packets', next) →
      next.tcbSet = w.tcbSet ∧ next.fresh = w.fresh ∧
      ∀ a, next.streams a = if a ∈ listed then afterOut entries (w.streams a)
        else w.streams a := by
  induction listed with
  | nil =>
    intro packets packets' w next result
    injection result with result
    injection result with _ result
    rw [← result]
    refine ⟨rfl, rfl, ?_⟩
    intro a
    rw [if_neg List.not_mem_nil]
  | cons first rest ih =>
    intro packets packets' w next result
    rw [List.foldlM_cons] at result
    obtain ⟨⟨middle, between⟩, taken, result⟩ := Option.bind_eq_some_iff.mp result
    rw [Option.map_eq_some_iff] at taken
    obtain ⟨⟨more, after⟩, pass, same⟩ := taken
    injection same with _ same
    rw [← same] at result
    have changed := ngTcpOutStream_after pass
    have distinct := List.nodup_cons.mp nodup
    obtain ⟨lists, fresh, streams⟩ := ih distinct.2 result
    rw [changed] at lists fresh streams
    refine ⟨lists, fresh, ?_⟩
    intro a
    rw [streams a, Stack.setStream_streams]
    by_cases here : a = first
    · rw [here, if_neg distinct.1, Function.update_self, if_pos List.mem_cons_self]
    · rw [Function.update_of_ne here]
      by_cases listed : a ∈ rest
      · rw [if_pos listed, if_pos (List.mem_cons_of_mem _ listed)]
      · rw [if_neg listed, if_neg]
        intro member
        rcases List.mem_cons.mp member with same | member
        · exact here same
        · exact listed member

/-- `ng_tcp_out` changes every stream once. -/
theorem ngTcpOut_after {cksums : Cksums} {entries : List ArpEntry} {pool : Nat → Option Frame}
    {w next : Stack} {packets : List Mbuf} (inv : Listed w)
    (result : ngTcpOut cksums entries pool w = some (packets, next)) :
    next.tcbSet = w.tcbSet ∧ next.fresh = w.fresh ∧
    ∀ a, next.streams a = if a ∈ w.tcbSet then afterOut entries (w.streams a)
      else w.streams a :=
  foldlM_ngTcpOutStream inv.nodup result

/-- A segment that an established stream answers. -/
def IsAnswered (cksums : Cksums) (a : Nat) (w : Stack) (frame : Frame) : Prop :=
  cksums.rteIpv4UdptcpCksum frame.clearCksum = frame.cksum ∧ w.receiver frame = some a ∧
  (w.streams a).status = .established ∧
  (frame.has RTE_TCP_PSH_FLAG = true ∨ frame.has RTE_TCP_FIN_FLAG = true)

instance (cksums : Cksums) (a : Nat) (w : Stack) (frame : Frame) :
    Decidable (IsAnswered cksums a w frame) :=
  inferInstanceAs (Decidable (_ ∧ _ ∧ _ ∧ _))

/-- An activity that is not a segment which the stream answers and not a pass over it. -/
def Quiet (cksums : Cksums) (a : Nat) (w : Stack) : Activity → Prop
  | .ngTcpProcess _ _ frame => ¬ IsAnswered cksums a w frame
  | .ngTcpOut _ _ => a ∉ w.tcbSet
  | .nsend _ _ _ _ | .nclose _ _ | .naccept _ => True

/-- What an activity does to a stream. -/
inductive Effect (cksums : Cksums) (a : Nat) (w : Stack) : Activity → Stack → Prop
  | same {activity : Activity} {next : Stack} (fd : Int) (quiet : Quiet cksums a w activity)
      (stream : next.streams a = { w.streams a with fd := fd })
      (listed : a ∈ next.tcbSet ↔ a ∈ w.tcbSet) : Effect cksums a w activity next
  | sent {mem : Nat → Bool} {sockfd : Int} {buf : Nat → UInt8} {len : Nat}
      {ring : List NgTcpFragment} {next : Stack} (member : a ∈ w.tcbSet)
      (found : getHostinfoFromfd w sockfd = some (.stream a))
      (memory : mem 0 = true ∧ mem 1 = true)
      (queued : ringEnqueue (w.streams a).sndbuf (nsendFragment (w.streams a) buf len) = some ring)
      (stream : next.streams a = { w.streams a with sndbuf := some ring })
      (listed : a ∈ next.tcbSet) : Effect cksums a w (.nsend mem sockfd buf len) next
  | closed {memory : Option NgTcpFragment} {fd : Int} {held : NgTcpFragment}
      {ring : List NgTcpFragment} {next : Stack} (member : a ∈ w.tcbSet)
      (found : getHostinfoFromfd w fd = some (.stream a)) (block : memory = some held)
      (queued : ringEnqueue (w.streams a).sndbuf (finFragment held (w.streams a)) = some ring)
      (stream : next.streams a = { w.streams a with sndbuf := some ring, status := .lastAck })
      (listed : a ∈ next.tcbSet) : Effect cksums a w (.nclose memory fd) next
  | dropped {memory : Option NgTcpFragment} {fd : Int} {next : Stack}
      (listens : (w.streams a).status = .listen) : Effect cksums a w (.nclose memory fd) next
  | out {entries : List ArpEntry} {pool : Nat → Option Frame} {next : Stack}
      (member : a ∈ w.tcbSet) (stream : next.streams a = afterOut entries (w.streams a))
      (listed : a ∈ next.tcbSet) : Effect cksums a w (.ngTcpOut entries pool) next
  | completed {mem : Nat → Bool} {seed : UInt32} {frame : Frame} {next : Stack}
      (member : a ∈ w.tcbSet) (half : (w.streams a).status = .synRcvd)
      (stream : next.streams a = { w.streams a with status := .established })
      (listed : a ∈ next.tcbSet) : Effect cksums a w (.ngTcpProcess mem seed frame) next
  | answered {mem : Nat → Bool} {seed : UInt32} {frame : Frame} {next : Stack}
      (member : a ∈ w.tcbSet) (answered : IsAnswered cksums a w frame)
      (answers : Answers (ntohl frame.recvAck) (w.streams a) (next.streams a))
      (kind : (next.streams a).status = .established ∨ (next.streams a).status = .closeWait)
      (listed : a ∈ next.tcbSet) : Effect cksums a w (.ngTcpProcess mem seed frame) next
  | removed {mem : Nat → Bool} {seed : UInt32} {frame : Frame} {next : Stack}
      (member : a ∈ w.tcbSet)
      (right : cksums.rteIpv4UdptcpCksum frame.clearCksum = frame.cksum)
      (found : w.receiver frame = some a) (status : (w.streams a).status = .lastAck)
      (ack : frame.has RTE_TCP_ACK_FLAG = true)
      (stream : next.streams a = { w.streams a with status := .closed })
      (gone : a ∉ next.tcbSet) : Effect cksums a w (.ngTcpProcess mem seed frame) next

/-- An activity that leaves the stream and its place alone. -/
theorem Effect.unchanged {cksums : Cksums} {a : Nat} {w next : Stack} {activity : Activity}
    (quiet : Quiet cksums a w activity) (stream : next.streams a = w.streams a)
    (listed : a ∈ next.tcbSet ↔ a ∈ w.tcbSet) : Effect cksums a w activity next := by
  refine Effect.same (w.streams a).fd quiet ?_ ?_
  · exact stream
  · exact listed

/-- Another stream is rewritten. -/
theorem Effect.other {cksums : Cksums} {a b : Nat} {w : Stack} {activity : Activity}
    {stream : NgTcpStream} (quiet : Quiet cksums a w activity) (different : a ≠ b) :
    Effect cksums a w activity (w.setStream b stream) := by
  apply Effect.unchanged quiet
  · rw [Stack.setStream_streams, Function.update_of_ne different]
  · rfl

/-- What `nsend` does to the stack. -/
inductive Sends (mem : Nat → Bool) (w : Stack) (sockfd : Int) (buf : Nat → UInt8) (len : Nat) :
    Stack → Prop
  | failed : Sends mem w sockfd buf len w
  | stream {a : Nat} {ring : List NgTcpFragment}
      (found : getHostinfoFromfd w sockfd = some (.stream a))
      (memory : mem 0 = true ∧ mem 1 = true)
      (queued : ringEnqueue (w.streams a).sndbuf (nsendFragment (w.streams a) buf len) =
        some ring) :
      Sends mem w sockfd buf len (w.setStream a { w.streams a with sndbuf := some ring })

/-- `nsend` does one of these. -/
theorem nsend_sends {w next : Stack} {mem : Nat → Bool} {sockfd r : Int} {buf : Nat → UInt8}
    {len : Nat} (result : nsend mem w sockfd buf len = some (r, next)) :
    Sends mem w sockfd buf len next := by
  have unchanged : ∀ answer : Int, some (answer, w) = some (r, next) →
      Sends mem w sockfd buf len next := by
    intro answer same
    injection same with same
    injection same with _ same
    rw [← same]
    exact Sends.failed
  unfold nsend at result
  cases found : getHostinfoFromfd w sockfd with
  | none =>
    rw [found] at result
    exact unchanged _ result
  | some o =>
    rw [found] at result
    cases o with
    | host a => exact unchanged _ result
    | stream a =>
      simp only at result
      split at result
      · rename_i first
        split at result
        · rename_i second
          rw [Option.map_eq_some_iff] at result
          obtain ⟨ring, queued, result⟩ := result
          injection result with _ result
          rw [← result]
          exact Sends.stream found ⟨first, second⟩ queued
        · exact unchanged _ result
      · exact unchanged _ result

/-- What `nsend` does to one stream. -/
theorem nsend_effect {cksums : Cksums} {a : Nat} {w next : Stack} {mem : Nat → Bool}
    {sockfd r : Int} {buf : Nat → UInt8} {len : Nat}
    (result : nsend mem w sockfd buf len = some (r, next)) :
    Effect cksums a w (.nsend mem sockfd buf len) next := by
  cases nsend_sends result with
  | failed => exact Effect.unchanged trivial rfl Iff.rfl
  | stream found memory queued =>
    rename_i b ring
    by_cases here : a = b
    · rw [← here] at found queued ⊢
      have member := mem_sockets_stream.mp (getHostinfoFromfd_some found).1
      exact Effect.sent member found memory queued (Function.update_self ..) member
    · exact Effect.other trivial here

/-- What `nclose` does. -/
theorem nclose_effect {cksums : Cksums} {a : Nat} {w next : Stack}
    {memory : Option NgTcpFragment} {fd r : Int}
    (result : nclose memory w fd = some (r, next)) :
    Effect cksums a w (.nclose memory fd) next := by
  cases nclose_closes result with
  | failed => exact Effect.unchanged trivial rfl Iff.rfl
  | host found cleared => exact Effect.unchanged trivial rfl Iff.rfl
  | stream found status block queued cleared =>
    rename_i b held ring table _
    by_cases here : a = b
    · rw [← here] at found queued
      have member := mem_sockets_stream.mp (getHostinfoFromfd_some found).1
      refine Effect.closed member found block queued ?_ member
      rw [← here]
      exact Function.update_self ..
    · refine Effect.unchanged trivial ?_ ?_
      · exact Function.update_of_ne here ..
      · rfl
  | listener found listens =>
    rename_i b
    by_cases here : a = b
    · rw [← here] at listens
      exact Effect.dropped listens
    · refine Effect.unchanged trivial ?_ ?_
      · rfl
      · exact List.mem_erase_of_ne here

/-- What `naccept` does. -/
theorem naccept_effect {cksums : Cksums} {a : Nat} {w next : Stack} {sockfd fd : Int}
    {peer : Option (UInt32 × UInt16)} (result : naccept w sockfd = some (fd, peer, next)) :
    Effect cksums a w (.naccept sockfd) next := by
  rcases naccept_cases result with ⟨_, same, _⟩ | ⟨apt, _, _, _, _, same⟩
  · rw [same]
    exact Effect.unchanged trivial rfl Iff.rfl
  · rw [same]
    by_cases here : a = apt
    · refine Effect.same (getFdFrombitmap w.fdTable).1 trivial ?_ ?_
      · rw [here]
        exact Function.update_self ..
      · rfl
    · refine Effect.unchanged trivial ?_ ?_
      · exact Function.update_of_ne here ..
      · rfl

/-- What `ng_tcp_out` does. -/
theorem ngTcpOut_effect {cksums : Cksums} {a : Nat} {w next : Stack} {entries : List ArpEntry}
    {pool : Nat → Option Frame} {packets : List Mbuf} (inv : Listed w)
    (result : ngTcpOut cksums entries pool w = some (packets, next)) :
    Effect cksums a w (.ngTcpOut entries pool) next := by
  obtain ⟨lists, _, streams⟩ := ngTcpOut_after inv result
  have stream := streams a
  by_cases member : a ∈ w.tcbSet
  · rw [if_pos member] at stream
    apply Effect.out member stream
    rw [lists]
    exact member
  · rw [if_neg member] at stream
    refine Effect.unchanged member stream ?_
    rw [lists]

/-- A segment that is answered is handled by the stream. -/
theorem ngTcpProcess_answered {cksums : Cksums} {a : Nat} {w next : Stack} {mem : Nat → Bool}
    {seed : UInt32} {frame : Frame} {r : Int} (answered : IsAnswered cksums a w frame)
    (result : ngTcpProcess cksums.rteIpv4UdptcpCksum mem seed w frame = some (r, next)) :
    ∃ answer stream, ngTcpHandleEstablished mem (w.streams a) frame.clearCksum
      frame.clearCksum.tcplen = some (answer, stream) ∧ next = w.setStream a stream := by
  obtain ⟨right, found, status, _⟩ := answered
  have search : ngTcpStreamSearch w frame.clearCksum.srcAddr frame.clearCksum.dstAddr
      frame.clearCksum.srcPort frame.clearCksum.dstPort = some a := found
  simp only [ngTcpProcess, right, ne_eq, not_true_eq_false, if_false, search, status,
    Option.map_eq_some_iff, Prod.exists] at result
  obtain ⟨answer, stream, handled, same⟩ := result
  injection same with _ same
  exact ⟨answer, stream, handled, same.symm⟩

/-- What a received segment does that is answered. -/
theorem ngTcpProcess_effect_answered {cksums : Cksums} {a : Nat} {w next : Stack}
    {mem : Nat → Bool} {seed : UInt32} {frame : Frame} {r : Int}
    (answered : IsAnswered cksums a w frame)
    (result : ngTcpProcess cksums.rteIpv4UdptcpCksum mem seed w frame = some (r, next)) :
    Effect cksums a w (.ngTcpProcess mem seed frame) next := by
  obtain ⟨answer, stream, handled, same⟩ := ngTcpProcess_answered answered result
  have member := (ngTcpStreamSearch_some answered.2.1).1
  have value : (w.setStream a stream).streams a = stream := Function.update_self ..
  rw [same]
  rcases ngTcpHandleEstablished_answers handled with ⟨psh, fin, _⟩ | ⟨_, answers, kind⟩
  · rw [clearCksum_has] at psh fin
    rcases answered.2.2.2 with flag | flag
    · rw [psh] at flag
      cases flag
    · rw [fin] at flag
      cases flag
  · rw [answered.2.2.1] at kind
    refine Effect.answered member answered ?_ ?_ member
    · rw [value]
      exact answers
    · rw [value]
      exact kind

/-- What a received segment does that is not answered. -/
theorem ngTcpProcess_effect_quiet {cksums : Cksums} {a : Nat} {w next : Stack}
    {mem : Nat → Bool} {seed : UInt32} {frame : Frame} {r : Int} (inv : Listed w)
    (below : a < w.fresh) (quiet : ¬ IsAnswered cksums a w frame)
    (result : ngTcpProcess cksums.rteIpv4UdptcpCksum mem seed w frame = some (r, next)) :
    Effect cksums a w (.ngTcpProcess mem seed frame) next := by
  have pushed : ∀ stream, Effect cksums a w (.ngTcpProcess mem seed frame) (w.push stream) := by
    intro stream
    refine Effect.unchanged quiet (push_streams below) ?_
    constructor
    · intro member
      rcases List.mem_cons.mp member with here | listed
      · omega
      · exact listed
    · exact List.mem_cons_of_mem _
  by_cases wrong : cksums.rteIpv4UdptcpCksum frame.clearCksum ≠ frame.cksum
  · rw [ngTcpProcess_dropped wrong result]
    exact Effect.unchanged quiet rfl Iff.rfl
  · have right := not_not.mp wrong
    cases ngTcpProcess_received result with
    | ignored => exact Effect.unchanged quiet rfl Iff.rfl
    | opened found listens syn ring => exact pushed _
    | unanswered found listens syn failed fd status => exact pushed _
    | completed found half ack =>
      rename_i b
      by_cases here : a = b
      · rw [← here] at found half
        have member := (ngTcpStreamSearch_some found).1
        refine Effect.completed member half ?_ member
        rw [← here]
        exact Function.update_self ..
      · exact Effect.other quiet here
    | handled found status handled =>
      rename_i b stream
      by_cases here : a = b
      · rw [← here] at found status handled ⊢
        rcases ngTcpHandleEstablished_answers handled with ⟨_, _, same⟩ | ⟨flag, _, _⟩
        · refine Effect.unchanged quiet ?_ ?_
          · rw [same]
            exact Function.update_self ..
          · rfl
        · exact absurd ⟨right, found, status, flag⟩ quiet
      · exact Effect.other quiet here
    | removed found status ack =>
      rename_i b
      by_cases here : a = b
      · rw [← here] at found status ⊢
        have member := (ngTcpStreamSearch_some found).1
        apply Effect.removed member right found status ack
        · exact Function.update_self ..
        · exact inv.nodup.not_mem_erase
      · refine Effect.unchanged quiet ?_ ?_
        · exact Function.update_of_ne here ..
        · exact List.mem_erase_of_ne here

/-- Every activity does one of these. -/
theorem exec_effect {cksums : Cksums} {a : Nat} {w next : Stack} {activity : Activity}
    (inv : Listed w) (below : a < w.fresh) (done : w.exec cksums activity = some next) :
    Effect cksums a w activity next := by
  cases activity with
  | nsend mem sockfd buf len =>
    simp only [Stack.exec, Option.map_eq_some_iff, Prod.exists] at done
    obtain ⟨r, stack, result, same⟩ := done
    rw [← same]
    exact nsend_effect result
  | nclose memory fd =>
    simp only [Stack.exec, Option.map_eq_some_iff, Prod.exists] at done
    obtain ⟨r, stack, result, same⟩ := done
    rw [← same]
    exact nclose_effect result
  | naccept sockfd =>
    simp only [Stack.exec, Option.map_eq_some_iff, Prod.exists] at done
    obtain ⟨fd, peer, stack, result, same⟩ := done
    rw [← same]
    exact naccept_effect result
  | ngTcpOut entries pool =>
    simp only [Stack.exec, Option.map_eq_some_iff, Prod.exists] at done
    obtain ⟨packets, stack, result, same⟩ := done
    rw [← same]
    exact ngTcpOut_effect inv result
  | ngTcpProcess mem seed frame =>
    simp only [Stack.exec, Option.map_eq_some_iff, Prod.exists] at done
    obtain ⟨r, stack, result, same⟩ := done
    rw [← same]
    by_cases answered : IsAnswered cksums a w frame
    · exact ngTcpProcess_effect_answered answered result
    · exact ngTcpProcess_effect_quiet inv below answered result

/-- What the ring `sndbuf` of a stream holds. -/
def Stack.sndbuf (w : Stack) (a : Nat) : List NgTcpFragment := (w.streams a).sndbuf.getD []

/-- The fragments that an activity queues: what `sndbuf` holds behind what it held before.
`ng_tcp_out` queues nothing; it puts back what it cannot send. -/
def queuedBy (a : Nat) (w next : Stack) : Activity → List NgTcpFragment
  | .ngTcpOut _ _ => []
  | .nsend _ _ _ _ | .nclose _ _ | .naccept _ | .ngTcpProcess _ _ _ =>
    (next.sndbuf a).drop (w.sndbuf a).length

/-- There is room for a fragment. -/
def HasRoom (w : Stack) (a : Nat) : Prop := (w.sndbuf a).length < RING_SIZE - 1

/-- What is queued by an activity that leaves the ring alone. -/
theorem queuedBy_same {a : Nat} {w next : Stack} {activity : Activity}
    (same : (next.streams a).sndbuf = (w.streams a).sndbuf) :
    queuedBy a w next activity = [] := by
  have equal : next.sndbuf a = w.sndbuf a := congrArg (Option.getD · []) same
  cases activity with
  | ngTcpOut entries pool => rfl
  | nsend _ _ _ _ | nclose _ _ | naccept _ | ngTcpProcess _ _ _ =>
    unfold queuedBy
    rw [equal, List.drop_length]

/-- What is queued by an activity that extends the ring. -/
theorem drop_extended {a : Nat} {w next : Stack} {more : List NgTcpFragment}
    (extended : (next.streams a).sndbuf = (w.streams a).sndbuf.map (· ++ more)) :
    (next.sndbuf a).drop (w.sndbuf a).length = more ∨ (w.streams a).sndbuf = none ∧
      (next.sndbuf a).drop (w.sndbuf a).length = [] := by
  unfold Stack.sndbuf
  rw [extended]
  cases (w.streams a).sndbuf with
  | none => exact Or.inr ⟨rfl, rfl⟩
  | some ring =>
    left
    rw [Option.map_some, Option.getD_some, Option.getD_some, List.drop_left]

/-- What is queued by an activity that queues one fragment. -/
theorem drop_enqueued {a : Nat} {w next : Stack} {fragment : NgTcpFragment}
    {ring : List NgTcpFragment} (queued : ringEnqueue (w.streams a).sndbuf fragment = some ring)
    (stream : (next.streams a).sndbuf = some ring) :
    (HasRoom w a ∧ (next.sndbuf a).drop (w.sndbuf a).length = [fragment]) ∨
    (¬ HasRoom w a ∧ (next.sndbuf a).drop (w.sndbuf a).length = []) := by
  unfold HasRoom Stack.sndbuf
  rw [stream]
  cases held : (w.streams a).sndbuf with
  | none =>
    rw [held] at queued
    cases queued
  | some items =>
    rw [held] at queued
    have value : (if items.length < RING_SIZE - 1 then items ++ [fragment] else items) = ring :=
      Option.some.inj queued
    rw [← value]
    by_cases room : items.length < RING_SIZE - 1
    · left
      rw [if_pos room, Option.getD_some, Option.getD_some, List.drop_left]
      exact ⟨room, rfl⟩
    · right
      rw [if_neg room, Option.getD_some, List.drop_length]
      exact ⟨room, rfl⟩

/-- `ng_tcp_out` changes only the ring. -/
theorem afterOut_fields (entries : List ArpEntry) (stream : NgTcpStream) :
    (afterOut entries stream).status = stream.status ∧
    (afterOut entries stream).sndNxt = stream.sndNxt ∧
    (afterOut entries stream).sip = stream.sip := by
  unfold afterOut
  split
  · exact ⟨rfl, rfl, rfl⟩
  · exact ⟨rfl, rfl, rfl⟩
  · split
    · exact ⟨rfl, rfl, rfl⟩
    · exact ⟨rfl, rfl, rfl⟩

/-- The list keeps its streams, apart from some that leave. -/
theorem Listed.sub {w next : Stack} (inv : Listed w) (fresh : next.fresh = w.fresh)
    (sub : List.Sublist next.tcbSet w.tcbSet) : Listed next ∧ w.fresh ≤ next.fresh := by
  refine ⟨⟨inv.nodup.sublist sub, ?_⟩, Nat.le_of_eq fresh.symm⟩
  intro a member
  rw [fresh]
  exact inv.below a (sub.mem member)

/-- A new stream joins the list. -/
theorem Listed.push {w : Stack} (inv : Listed w) (stream : NgTcpStream) :
    Listed (w.push stream) ∧ w.fresh ≤ (w.push stream).fresh := by
  refine ⟨⟨List.nodup_cons.mpr ⟨?_, inv.nodup⟩, ?_⟩, Nat.le_succ _⟩
  · intro member
    exact Nat.lt_irrefl _ (inv.below _ member)
  · intro a member
    change a < w.fresh + 1
    rcases List.mem_cons.mp member with here | listed
    · omega
    · have bound := inv.below a listed
      omega

/-- `nsend` leaves the list alone. -/
theorem nsend_listed {w next : Stack} {mem : Nat → Bool} {sockfd r : Int} {buf : Nat → UInt8}
    {len : Nat} (result : nsend mem w sockfd buf len = some (r, next)) :
    next.fresh = w.fresh ∧ next.tcbSet = w.tcbSet := by
  cases nsend_sends result with
  | failed => exact ⟨rfl, rfl⟩
  | stream found memory queued => exact ⟨rfl, rfl⟩

/-- Every activity keeps the list in order, and addresses are not used again. -/
theorem exec_listed {cksums : Cksums} {w next : Stack} {activity : Activity} (inv : Listed w)
    (done : w.exec cksums activity = some next) : Listed next ∧ w.fresh ≤ next.fresh := by
  cases activity with
  | nsend mem sockfd buf len =>
    simp only [Stack.exec, Option.map_eq_some_iff, Prod.exists] at done
    obtain ⟨r, stack, result, same⟩ := done
    obtain ⟨fresh, lists⟩ := nsend_listed result
    rw [← same]
    apply inv.sub fresh
    rw [lists]
  | nclose memory fd =>
    simp only [Stack.exec, Option.map_eq_some_iff, Prod.exists] at done
    obtain ⟨r, stack, result, same⟩ := done
    rw [← same]
    cases nclose_closes result with
    | failed => exact inv.sub rfl (List.Sublist.refl _)
    | host found cleared => exact inv.sub rfl (List.Sublist.refl _)
    | stream found status block queued cleared => exact inv.sub rfl (List.Sublist.refl _)
    | listener found listens => exact inv.sub rfl List.erase_sublist
  | naccept sockfd =>
    simp only [Stack.exec, Option.map_eq_some_iff, Prod.exists] at done
    obtain ⟨fd, peer, stack, result, same⟩ := done
    rw [← same]
    rcases naccept_cases result with ⟨_, kept, _⟩ | ⟨apt, _, _, _, _, given⟩
    · rw [kept]
      exact inv.sub rfl (List.Sublist.refl _)
    · rw [given]
      exact inv.sub rfl (List.Sublist.refl _)
  | ngTcpOut entries pool =>
    simp only [Stack.exec, Option.map_eq_some_iff, Prod.exists] at done
    obtain ⟨packets, stack, result, same⟩ := done
    obtain ⟨lists, fresh, _⟩ := ngTcpOut_after inv result
    rw [← same]
    apply inv.sub fresh
    rw [lists]
  | ngTcpProcess mem seed frame =>
    simp only [Stack.exec, Option.map_eq_some_iff, Prod.exists] at done
    obtain ⟨r, stack, result, same⟩ := done
    rw [← same]
    cases ngTcpProcess_received result with
    | ignored => exact inv.sub rfl (List.Sublist.refl _)
    | opened found listens syn ring => exact inv.push _
    | unanswered found listens syn failed fd status => exact inv.push _
    | completed found half ack => exact inv.sub rfl (List.Sublist.refl _)
    | handled found status handled => exact inv.sub rfl (List.Sublist.refl _)
    | removed found status ack => exact inv.sub rfl List.erase_sublist

end BackendCpp.Tcp
