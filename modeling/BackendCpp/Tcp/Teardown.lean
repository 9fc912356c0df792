import BackendCpp.Tcp.Sequence

/-!
# The end of a connection

`nclose` queues the `FIN` and moves the stream to `LAST_ACK` at once; `ng_tcp_out` sends one
fragment of a stream in each pass, later. In `LAST_ACK` the first segment with the flag `ACK`
frees the stream, whatever it acknowledges and whatever is still queued. Nothing is lost in the
runs in which no `ACK` comes before everything has been sent and the `FIN` is acknowledged.
-/

namespace BackendCpp.Tcp

open BackendCpp.Library

/-- A stack, with the history of one stream. -/
structure Closing where
  /-- The stack. -/
  stack : Stack
  /-- History: the fragments that have been queued. -/
  queued : List NgTcpFragment
  /-- History: the fragments that `ng_tcp_out` has taken out and sent. -/
  taken : List NgTcpFragment
  /-- History: what was acknowledged by the segment on which the stream was freed. -/
  freed : Option UInt32

/-- The history begins, with what is queued already. -/
def Closing.initial (w : Stack) (a : Nat) : Closing := ⟨w, w.sndbuf a, [], none⟩

/-- The fragment that `ng_tcp_out` takes out of a ring and sends. -/
def takenBy (a : Nat) (w : Stack) : Activity → List NgTcpFragment
  | .ngTcpOut entries _ =>
    if a ∈ w.tcbSet ∧ ngGetDstMacaddr entries (w.streams a).sip ≠ none then (w.sndbuf a).take 1
    else []
  | .nsend _ _ _ _ | .nclose _ _ | .naccept _ | .ngTcpProcess _ _ _ => []

/-- What a segment acknowledges on which the stream leaves `tcb_set`. -/
def freedBy (a : Nat) (w next : Stack) (freed : Option UInt32) : Activity → Option UInt32
  | .ngTcpProcess _ _ frame =>
    if a ∈ w.tcbSet ∧ a ∉ next.tcbSet then some (ntohl frame.recvAck) else freed
  | .nsend _ _ _ _ | .nclose _ _ | .naccept _ | .ngTcpOut _ _ => freed

/-- The state after an activity that returns. -/
def Closing.exec (cksums : Cksums) (a : Nat) (s : Closing) (activity : Activity) :
    Option Closing :=
  (s.stack.exec cksums activity).map fun next =>
    ⟨next, s.queued ++ queuedBy a s.stack next activity, s.taken ++ takenBy a s.stack activity,
      freedBy a s.stack next s.freed activity⟩

/-- The fragment of `nclose`. -/
def NgTcpFragment.isFin (fragment : NgTcpFragment) : Prop :=
  fragment.tcpFlags &&& RTE_TCP_FIN_FLAG ≠ 0

/-- The stream is freed only when everything that was queued has been sent, a `FIN` among it,
and on a segment that acknowledges the `FIN`. -/
def TornDown (s : Closing) : Prop :=
  ∀ ack, s.freed = some ack → List.Perm s.queued s.taken ∧
    ∃ fin ∈ s.queued, fin.isFin ∧ ack = fin.seqnum + 1

/-- The `FIN` finds room, and no `ACK` is taken for the last one before everything has been
sent and the next number is acknowledged. -/
def Orderly (cksums : Cksums) (a : Nat) (w : Stack) : Activity → Prop
  | .nclose memory fd => getHostinfoFromfd w fd = some (.stream a) → memory ≠ none → HasRoom w a
  | .ngTcpProcess _ _ frame => cksums.rteIpv4UdptcpCksum frame.clearCksum = frame.cksum →
    w.receiver frame = some a → (w.streams a).status = .lastAck →
    frame.has RTE_TCP_ACK_FLAG = true →
    w.sndbuf a = [] ∧ ntohl frame.recvAck = (w.streams a).sndNxt + 1
  | .nsend _ _ _ _ | .naccept _ | .ngTcpOut _ _ => True

/-- What holds between activities. -/
structure Accounted (a : Nat) (s : Closing) : Prop where
  /-- The list of streams is in order. -/
  listed : Listed s.stack
  /-- The stream has been allocated. -/
  below : a < s.stack.fresh
  /-- It is not a listener. -/
  connected : (s.stack.streams a).status ≠ .listen
  /-- It has a ring. -/
  ring : (s.stack.streams a).sndbuf = some (s.stack.sndbuf a)
  /-- The ring is not larger than it can be. -/
  fits : RingFits (s.stack.streams a).sndbuf
  /-- What has been queued has been sent or is still there. -/
  balance : List.Perm s.queued (s.taken ++ s.stack.sndbuf a)
  /-- In `LAST_ACK` a `FIN` has been queued, with the next number. -/
  closing : (s.stack.streams a).status = .lastAck →
    ∃ fin ∈ s.queued, fin.isFin ∧ fin.seqnum = (s.stack.streams a).sndNxt
  /-- A stream that has been freed is not on the list. -/
  gone : s.freed ≠ none → a ∉ s.stack.tcbSet
  /-- It has been freed in order. -/
  tornDown : TornDown s

/-- A history that has only grown in what is queued. -/
theorem TornDown.kept {s : Closing} (down : TornDown s) {next : Stack}
    {queued taken : List NgTcpFragment} {freed : Option UInt32} (same : freed = s.freed)
    (idle : s.freed ≠ none → queued = s.queued ∧ taken = s.taken) :
    TornDown ⟨next, queued, taken, freed⟩ := by
  intro ack done
  change freed = some ack at done
  rw [same] at done
  obtain ⟨front, back⟩ := idle (by rw [done]; exact Option.some_ne_none ack)
  change List.Perm queued taken ∧ ∃ fin ∈ queued, fin.isFin ∧ ack = fin.seqnum + 1
  rw [front, back]
  exact down ack done

/-- An activity that leaves the ring of the stream alone leaves what was said of it. -/
theorem Accounted.same_ring {a : Nat} {s : Closing} (inv : Accounted a s) {next : Stack}
    (sndbuf : (next.streams a).sndbuf = (s.stack.streams a).sndbuf) :
    (next.streams a).sndbuf = some (next.sndbuf a) ∧ RingFits (next.streams a).sndbuf ∧
      s.queued.Perm (s.taken ++ next.sndbuf a) := by
  have held : next.sndbuf a = s.stack.sndbuf a := congrArg (Option.getD · []) sndbuf
  rw [held, sndbuf]
  exact ⟨inv.ring, inv.fits, inv.balance⟩

/-- An activity that leaves the ring, the status and the number of the stream alone. -/
theorem Accounted.idle {a : Nat} {s : Closing} (inv : Accounted a s) {next : Stack}
    (listed : Listed next) (fresh : s.stack.fresh ≤ next.fresh)
    (sndbuf : (next.streams a).sndbuf = (s.stack.streams a).sndbuf)
    (connected : (next.streams a).status ≠ .listen)
    (closing : (next.streams a).status = .lastAck → (s.stack.streams a).status = .lastAck)
    (number : (next.streams a).sndNxt = (s.stack.streams a).sndNxt)
    (gone : a ∉ s.stack.tcbSet → a ∉ next.tcbSet) :
    Accounted a ⟨next, s.queued, s.taken, s.freed⟩ := by
  obtain ⟨ring, fits, balance⟩ := inv.same_ring sndbuf
  refine ⟨listed, Nat.lt_of_lt_of_le inv.below fresh, connected, ring, fits, balance, ?_,
    fun freed => gone (inv.gone freed), inv.tornDown.kept rfl fun _ => ⟨rfl, rfl⟩⟩
  intro last
  change ∃ fin ∈ s.queued, fin.isFin ∧ fin.seqnum = (next.streams a).sndNxt
  rw [number]
  exact inv.closing (closing last)

/-- An activity that queues fragments on the ring. -/
theorem Accounted.extend {a : Nat} {s : Closing} (inv : Accounted a s) {next : Stack}
    {more : List NgTcpFragment} (listed : Listed next) (fresh : s.stack.fresh ≤ next.fresh)
    (member : a ∈ s.stack.tcbSet)
    (sndbuf : (next.streams a).sndbuf = some (s.stack.sndbuf a ++ more))
    (fits : RingFits (next.streams a).sndbuf) (connected : (next.streams a).status ≠ .listen)
    (closing : (next.streams a).status = .lastAck →
      ∃ fin ∈ s.queued ++ more, fin.isFin ∧ fin.seqnum = (next.streams a).sndNxt) :
    Accounted a ⟨next, s.queued ++ more, s.taken, s.freed⟩ := by
  have held : next.sndbuf a = s.stack.sndbuf a ++ more := congrArg (Option.getD · []) sndbuf
  have live : s.freed = none := by
    by_contra freed
    exact inv.gone freed member
  refine ⟨listed, Nat.lt_of_lt_of_le inv.below fresh, connected, ?_, fits, ?_, closing, ?_, ?_⟩
  · change (next.streams a).sndbuf = some (next.sndbuf a)
    rw [held, sndbuf]
  · change List.Perm (s.queued ++ more) (s.taken ++ next.sndbuf a)
    rw [held, ← List.append_assoc]
    exact inv.balance.append_right more
  · intro freed
    exact absurd live freed
  · apply inv.tornDown.kept rfl
    intro freed
    exact absurd live freed

/-- What a pass of `ng_tcp_out` leaves in the ring and what it sends: it sends the first fragment,
or puts it back behind the others. -/
theorem afterOut_balance {a : Nat} {w : Stack} {entries : List ArpEntry}
    {pool : Nat → Option Frame} (member : a ∈ w.tcbSet)
    (ring : (w.streams a).sndbuf = some (w.sndbuf a)) (fits : RingFits (w.streams a).sndbuf) :
    ∃ items, (afterOut entries (w.streams a)).sndbuf = some items ∧
      List.Perm (w.sndbuf a) (takenBy a w (.ngTcpOut entries pool) ++ items) := by
  have bound := fits _ ring
  unfold afterOut takenBy
  cases held : w.sndbuf a with
  | nil =>
    rw [held] at ring
    refine ⟨[], ?_, ?_⟩
    · simp only [ring]
    · simp only [List.take_nil, ite_self]
      exact List.Perm.nil
  | cons fragment rest =>
    rw [held] at ring bound
    simp only [ring]
    cases known : ngGetDstMacaddr entries (w.streams a).sip with
    | none =>
      have room : rest.length < RING_SIZE - 1 := bound
      refine ⟨rest ++ [fragment], ?_, ?_⟩
      · simp only [ringEnqueue, Option.map_some, if_pos room]
      · simp only [ne_eq, not_true_eq_false, and_false, if_false]
        exact (List.perm_append_singleton fragment rest).symm
    | some dstmac =>
      refine ⟨rest, rfl, ?_⟩
      simp only [member, ne_eq, reduceCtorEq, not_false_eq_true, and_self, if_true]
      exact List.Perm.refl _

/-- `ng_tcp_out` takes a fragment out and sends it, or puts it back. -/
theorem Accounted.out {a : Nat} {s : Closing} (inv : Accounted a s) {next : Stack}
    {entries : List ArpEntry} {pool : Nat → Option Frame} (listed : Listed next)
    (fresh : s.stack.fresh ≤ next.fresh) (member : a ∈ s.stack.tcbSet)
    (stream : next.streams a = afterOut entries (s.stack.streams a)) :
    Accounted a ⟨next, s.queued, s.taken ++ takenBy a s.stack (.ngTcpOut entries pool),
      s.freed⟩ := by
  obtain ⟨status, number, _⟩ := afterOut_fields entries (s.stack.streams a)
  obtain ⟨items, sndbuf, balance⟩ := @afterOut_balance a s.stack entries pool member inv.ring
    inv.fits
  rw [← stream] at status number sndbuf
  have held : next.sndbuf a = items := congrArg (Option.getD · []) sndbuf
  have live : s.freed = none := by
    by_contra freed
    exact inv.gone freed member
  refine ⟨listed, Nat.lt_of_lt_of_le inv.below fresh, ?_, ?_, ?_, ?_, ?_, ?_, ?_⟩
  · change (next.streams a).status ≠ .listen
    rw [status]
    exact inv.connected
  · change (next.streams a).sndbuf = some (next.sndbuf a)
    rw [held, sndbuf]
  · intro ring same
    change (next.streams a).sndbuf = some ring at same
    have count := balance.length_eq
    rw [List.length_append] at count
    have bound := inv.fits _ inv.ring
    have equal : items = ring := Option.some.inj (sndbuf.symm.trans same)
    rw [← equal]
    omega
  · change List.Perm s.queued (s.taken ++ takenBy a s.stack _ ++ next.sndbuf a)
    rw [held, List.append_assoc]
    exact inv.balance.trans (balance.append_left s.taken)
  · intro last
    change (next.streams a).status = .lastAck at last
    rw [status] at last
    change ∃ fin ∈ s.queued, fin.isFin ∧ fin.seqnum = (next.streams a).sndNxt
    rw [number]
    exact inv.closing last
  · intro freed
    exact absurd live freed
  · apply inv.tornDown.kept rfl
    intro freed
    exact absurd live freed

/-- Nothing is taken out by other activities. -/
theorem takenBy_quiet {cksums : Cksums} {a : Nat} {w : Stack} {activity : Activity}
    (quiet : Quiet cksums a w activity) : takenBy a w activity = [] := by
  cases activity with
  | ngTcpOut entries pool =>
    apply if_neg
    intro both
    exact quiet both.1
  | nsend _ _ _ _ | nclose _ _ | naccept _ | ngTcpProcess _ _ _ => rfl

/-- A stream that stays is not freed. -/
theorem freedBy_stays {a : Nat} {w next : Stack} {freed : Option UInt32} {activity : Activity}
    (stays : a ∈ w.tcbSet → a ∈ next.tcbSet) : freedBy a w next freed activity = freed := by
  cases activity with
  | ngTcpProcess mem seed frame =>
    apply if_neg
    intro both
    exact both.2 (stays both.1)
  | nsend _ _ _ _ | nclose _ _ | naccept _ | ngTcpOut _ _ => rfl

/-- A ring after a fragment has been queued. -/
theorem enqueued_ring {w next : Stack} {a : Nat} {fragment : NgTcpFragment}
    {ring : List NgTcpFragment} (held : (w.streams a).sndbuf = some (w.sndbuf a))
    (queued : ringEnqueue (w.streams a).sndbuf fragment = some ring)
    (stream : (next.streams a).sndbuf = some ring) :
    (next.streams a).sndbuf =
      some (w.sndbuf a ++ (next.sndbuf a).drop (w.sndbuf a).length) := by
  have value : next.sndbuf a = ring := congrArg (Option.getD · []) stream
  rw [held] at queued
  have same : (if (w.sndbuf a).length < RING_SIZE - 1 then w.sndbuf a ++ [fragment]
      else w.sndbuf a) = ring := Option.some.inj queued
  rw [stream, value, ← same]
  split
  · rw [List.drop_left]
  · rw [List.drop_length, List.append_nil]

/-- `nclose` of the stream, when the `FIN` finds room. -/
theorem Accounted.close {a : Nat} {s : Closing} (inv : Accounted a s) {next : Stack}
    {memory : Option NgTcpFragment} {fd : Int} {held : NgTcpFragment}
    {ring : List NgTcpFragment} (listed : Listed next) (fresh : s.stack.fresh ≤ next.fresh)
    (member : a ∈ s.stack.tcbSet) (room : HasRoom s.stack a)
    (queued : ringEnqueue (s.stack.streams a).sndbuf
      (finFragment held (s.stack.streams a)) = some ring)
    (stream : next.streams a =
      { s.stack.streams a with sndbuf := some ring, status := .lastAck }) :
    Accounted a ⟨next, s.queued ++ queuedBy a s.stack next (.nclose memory fd), s.taken,
      s.freed⟩ := by
  have sndbuf := congrArg NgTcpStream.sndbuf stream
  have added : queuedBy a s.stack next (.nclose memory fd) =
      [finFragment held (s.stack.streams a)] := by
    rcases drop_enqueued queued sndbuf with ⟨_, one⟩ | ⟨full, _⟩
    · exact one
    · exact absurd room full
  apply inv.extend listed fresh member
  · exact enqueued_ring inv.ring queued sndbuf
  · rw [sndbuf]
    change RingFits (some ring)
    rw [← queued]
    exact ringEnqueue_fits inv.fits _
  · rw [stream]
    intro impossible
    cases impossible
  · intro _
    refine ⟨finFragment held (s.stack.streams a), ?_, ?_, ?_⟩
    · rw [added]
      exact List.mem_append_right _ List.mem_cons_self
    · change (RTE_TCP_FIN_FLAG ||| RTE_TCP_ACK_FLAG) &&& RTE_TCP_FIN_FLAG ≠ 0
      decide
    · rw [stream]
      rfl

/-- `nsend` on the stream. -/
theorem Accounted.send {a : Nat} {s : Closing} (inv : Accounted a s) {next : Stack}
    {mem : Nat → Bool} {sockfd : Int} {buf : Nat → UInt8} {len : Nat}
    {ring : List NgTcpFragment} (listed : Listed next) (fresh : s.stack.fresh ≤ next.fresh)
    (member : a ∈ s.stack.tcbSet)
    (queued : ringEnqueue (s.stack.streams a).sndbuf
      (nsendFragment (s.stack.streams a) buf len) = some ring)
    (stream : next.streams a = { s.stack.streams a with sndbuf := some ring }) :
    Accounted a ⟨next, s.queued ++ queuedBy a s.stack next (.nsend mem sockfd buf len), s.taken,
      s.freed⟩ := by
  have sndbuf := congrArg NgTcpStream.sndbuf stream
  apply inv.extend listed fresh member
  · exact enqueued_ring inv.ring queued sndbuf
  · rw [sndbuf]
    change RingFits (some ring)
    rw [← queued]
    exact ringEnqueue_fits inv.fits _
  · rw [stream]
    exact inv.connected
  · intro last
    rw [stream] at last
    obtain ⟨fin, early, flag, number⟩ := inv.closing last
    refine ⟨fin, List.mem_append_left _ early, flag, ?_⟩
    rw [stream]
    exact number

/-- A segment that the stream answers. -/
theorem Accounted.answer {a : Nat} {s : Closing} (inv : Accounted a s) {next : Stack}
    {mem : Nat → Bool} {seed : UInt32} {frame : Frame} (listed : Listed next)
    (fresh : s.stack.fresh ≤ next.fresh) (member : a ∈ s.stack.tcbSet)
    (answers : Answers (ntohl frame.recvAck) (s.stack.streams a) (next.streams a))
    (kind : (next.streams a).status = .established ∨ (next.streams a).status = .closeWait) :
    Accounted a ⟨next, s.queued ++ queuedBy a s.stack next (.ngTcpProcess mem seed frame),
      s.taken, s.freed⟩ := by
  obtain ⟨acks, extended, _⟩ := answers.sndbuf
  have sndbuf : (next.streams a).sndbuf = some (s.stack.sndbuf a ++ acks) := by
    rw [extended, inv.ring]
    rfl
  have added : queuedBy a s.stack next (.ngTcpProcess mem seed frame) = acks := by
    rcases drop_extended extended with more | ⟨missing, _⟩
    · exact more
    · rw [inv.ring] at missing
      cases missing
  rw [added]
  apply inv.extend listed fresh member sndbuf (answers.fits inv.fits)
  · intro listens
    rw [listens] at kind
    rcases kind with impossible | impossible
    · cases impossible
    · cases impossible
  · intro last
    rw [last] at kind
    rcases kind with impossible | impossible
    · cases impossible
    · cases impossible

/-- The last `ACK`, when everything has been sent and the `FIN` is acknowledged. -/
theorem Accounted.remove {a : Nat} {s : Closing} (inv : Accounted a s) {next : Stack}
    {frame : Frame} (listed : Listed next) (fresh : s.stack.fresh ≤ next.fresh)
    (status : (s.stack.streams a).status = .lastAck)
    (stream : next.streams a = { s.stack.streams a with status := .closed })
    (gone : a ∉ next.tcbSet) (empty : s.stack.sndbuf a = [])
    (covers : ntohl frame.recvAck = (s.stack.streams a).sndNxt + 1) :
    Accounted a ⟨next, s.queued, s.taken, some (ntohl frame.recvAck)⟩ := by
  have sndbuf : (next.streams a).sndbuf = (s.stack.streams a).sndbuf := by rw [stream]
  obtain ⟨ring, fits, kept⟩ := inv.same_ring sndbuf
  refine ⟨listed, Nat.lt_of_lt_of_le inv.below fresh, ?_, ring, fits, kept, ?_, fun _ => gone, ?_⟩
  · change (next.streams a).status ≠ .listen
    rw [stream]
    intro impossible
    cases impossible
  · intro last
    change (next.streams a).status = .lastAck at last
    rw [stream] at last
    cases last
  · intro ack done
    have balance := inv.balance
    rw [empty, List.append_nil] at balance
    obtain ⟨fin, member, flag, number⟩ := inv.closing status
    refine ⟨balance, fin, member, flag, ?_⟩
    rw [← Option.some.inj done, covers, number]

/-- Every orderly activity keeps the account. -/
theorem exec_accounted {a : Nat} {s next : Closing} (inv : Accounted a s) {cksums : Cksums}
    {activity : Activity} (orderly : Orderly cksums a s.stack activity)
    (done : s.exec cksums a activity = some next) : Accounted a next := by
  rw [Closing.exec, Option.map_eq_some_iff] at done
  obtain ⟨stack, taken, same⟩ := done
  rw [← same]
  obtain ⟨listed, fresh⟩ := exec_listed inv.listed taken
  cases exec_effect inv.listed inv.below taken with
  | same fd quiet stream places =>
    have sndbuf : (stack.streams a).sndbuf = (s.stack.streams a).sndbuf := by rw [stream]
    rw [queuedBy_same sndbuf, takenBy_quiet quiet, freedBy_stays places.mpr, List.append_nil,
      List.append_nil]
    apply inv.idle listed fresh sndbuf
    · rw [stream]
      exact inv.connected
    · rw [stream]
      exact id
    · rw [stream]
    · exact fun absent => mt places.mp absent
  | sent member found memory queued stream stays =>
    change Accounted a ⟨stack, _, s.taken ++ [], s.freed⟩
    rw [List.append_nil]
    exact inv.send listed fresh member queued stream
  | closed member found block queued stream stays =>
    change Accounted a ⟨stack, _, s.taken ++ [], s.freed⟩
    rw [List.append_nil]
    refine inv.close listed fresh member (orderly found ?_) queued stream
    rw [block]
    exact Option.some_ne_none _
  | dropped listens => exact absurd listens inv.connected
  | out member stream stays =>
    change Accounted a ⟨stack, s.queued ++ [], _, s.freed⟩
    rw [List.append_nil]
    exact inv.out listed fresh member stream
  | completed member half stream stays =>
    have sndbuf : (stack.streams a).sndbuf = (s.stack.streams a).sndbuf := by rw [stream]
    rw [queuedBy_same sndbuf, freedBy_stays fun _ => stays]
    change Accounted a ⟨stack, s.queued ++ [], s.taken ++ [], s.freed⟩
    rw [List.append_nil, List.append_nil]
    apply inv.idle listed fresh sndbuf
    · rw [stream]
      intro impossible
      cases impossible
    · rw [stream]
      intro impossible
      cases impossible
    · rw [stream]
    · intro absent
      exact absurd member absent
  | answered member answered answers kind stays =>
    rw [freedBy_stays fun _ => stays]
    change Accounted a ⟨stack, _, s.taken ++ [], s.freed⟩
    rw [List.append_nil]
    exact inv.answer listed fresh member answers kind
  | removed member right found status ack stream gone =>
    rename_i mem seed frame
    have sndbuf : (stack.streams a).sndbuf = (s.stack.streams a).sndbuf := by rw [stream]
    have freed : freedBy a s.stack stack s.freed (.ngTcpProcess mem seed frame) =
        some (ntohl frame.recvAck) := if_pos ⟨member, gone⟩
    rw [queuedBy_same sndbuf, freed]
    change Accounted a ⟨stack, s.queued ++ [], s.taken ++ [], _⟩
    rw [List.append_nil, List.append_nil]
    obtain ⟨empty, covers⟩ := orderly right found status ack
    exact inv.remove listed fresh status stream gone empty covers

/-- In every run of orderly activities, from a stack with a connection that is not being closed,
its stream is freed only when nothing of it is lost. -/
theorem run_tornDown {cksums : Cksums} {a : Nat} {w : Stack} {ring : List NgTcpFragment}
    {trace : List Activity} {s : Closing} (listed : Listed w) (member : a ∈ w.tcbSet)
    (status : (w.streams a).status ≠ .listen ∧ (w.streams a).status ≠ .lastAck)
    (sndbuf : (w.streams a).sndbuf = some ring) (fits : ring.length ≤ RING_SIZE - 1)
    (run : Run (fun s activity next => s.exec cksums a activity = some next ∧
      Orderly cksums a s.stack activity) (Closing.initial w a) trace s) : TornDown s := by
  have held : w.sndbuf a = ring := congrArg (Option.getD · []) sndbuf
  have inv : Accounted a s := by
    apply run.invariant (Accounted a)
    · refine ⟨listed, listed.below a member, status.1, ?_, ?_, List.Perm.refl _, ?_, ?_, ?_⟩
      · change (w.streams a).sndbuf = some (w.sndbuf a)
        rw [held, sndbuf]
      · intro items same
        change (w.streams a).sndbuf = some items at same
        rw [sndbuf] at same
        rw [← Option.some.inj same]
        exact fits
      · intro last
        exact absurd last status.2
      · intro freed
        exact absurd rfl freed
      · intro ack done
        cases done
    · intro s activity next inv taken
      exact exec_accounted inv taken.2 taken.1
  exact inv.tornDown

/-- A connection that has been accepted. -/
def connection : Stack :=
  ([Activity.ngTcpProcess (fun _ => true) 0 acknowledgement, .naccept 3].foldlM
    (Stack.exec zeroCksums) asked).getD asked

/-- Everything is sent, and then the peer acknowledges the `FIN`. -/
theorem run_tornDown_sent : ∃ trace s,
    Run (fun s activity next => s.exec zeroCksums 1 activity = some next ∧
      Orderly zeroCksums 1 s.stack activity) (Closing.initial connection 1) trace s ∧
    TornDown s ∧ s.freed = some 8 := by
  have answered : Run (fun s activity next => s.exec zeroCksums 1 activity = some next ∧
      Orderly zeroCksums 1 s.stack activity) (Closing.initial connection 1)
      [.ngTcpOut [⟨0x01000000, []⟩] fun _ => some fun _ => 0] _ :=
    Run.snoc Run.nil ⟨rfl, trivial⟩
  have closed : Run (fun s activity next => s.exec zeroCksums 1 activity = some next ∧
      Orderly zeroCksums 1 s.stack activity) (Closing.initial connection 1)
      [.ngTcpOut [⟨0x01000000, []⟩] fun _ => some fun _ => 0,
        .nclose (some NgTcpFragment.zero) 4] _ :=
    Run.snoc answered ⟨rfl, fun _ _ => (by decide : 0 < RING_SIZE - 1)⟩
  have sent : Run (fun s activity next => s.exec zeroCksums 1 activity = some next ∧
      Orderly zeroCksums 1 s.stack activity) (Closing.initial connection 1)
      [.ngTcpOut [⟨0x01000000, []⟩] fun _ => some fun _ => 0,
        .nclose (some NgTcpFragment.zero) 4,
        .ngTcpOut [⟨0x01000000, []⟩] fun _ => some fun _ => 0] _ :=
    Run.snoc closed ⟨rfl, trivial⟩
  have freed : Run (fun s activity next => s.exec zeroCksums 1 activity = some next ∧
      Orderly zeroCksums 1 s.stack activity) (Closing.initial connection 1)
      [.ngTcpOut [⟨0x01000000, []⟩] fun _ => some fun _ => 0,
        .nclose (some NgTcpFragment.zero) 4,
        .ngTcpOut [⟨0x01000000, []⟩] fun _ => some fun _ => 0,
        .ngTcpProcess (fun _ => true) 0 acknowledgement] _ :=
    Run.snoc sent ⟨rfl, fun _ _ _ _ => ⟨rfl, rfl⟩⟩
  have down := @run_tornDown zeroCksums 1 connection _ _ _ ⟨by decide, by decide⟩ (by decide)
    (by decide) rfl (by decide) freed
  exact ⟨_, _, freed, down, rfl⟩

/-- A stream is freed by an `ACK` that comes before the `FIN` has been sent. -/
theorem run_torn : ∃ trace s,
    1 ∈ connection.tcbSet ∧ (connection.streams 1).status = .established ∧
    Run (fun s activity next => s.exec zeroCksums 1 activity = some next)
      (Closing.initial connection 1) trace s ∧ ¬ TornDown s := by
  have closed : Run (fun s activity next => s.exec zeroCksums 1 activity = some next)
      (Closing.initial connection 1) [.nclose (some NgTcpFragment.zero) 4] _ :=
    Run.snoc Run.nil rfl
  have freed : Run (fun s activity next => s.exec zeroCksums 1 activity = some next)
      (Closing.initial connection 1)
      [.nclose (some NgTcpFragment.zero) 4, .ngTcpProcess (fun _ => true) 0 acknowledgement] _ :=
    Run.snoc closed rfl
  refine ⟨_, _, by decide, by decide, freed, ?_⟩
  intro down
  have balance := (down 8 rfl).1
  exact absurd balance.length_eq (by decide)

end BackendCpp.Tcp
