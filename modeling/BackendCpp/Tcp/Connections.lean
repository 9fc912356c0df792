import BackendCpp.Tcp.Transitions
import BackendCpp.Library.Naming
import BackendCpp.Library.Run

/-!
# One control block for each connection

`ng_tcp_handle_listen` does not look for a stream with the same addresses and ports before it
makes one. It is called only when the search of `ng_tcp_process` ended at a listener, and the
search prefers the stream of the connection. This keeps the connections apart as long as no
stream with a peer is a listener, and that is so as long as `nbind` and `nlisten` are called on
sockets that `nsocket` has returned.
-/

namespace BackendCpp.Tcp

open BackendCpp.Library

/-- A world, with the history of the sockets that are open. -/
structure Session where
  /-- The world. -/
  world : World
  /-- History: the descriptors of the sockets that `nsocket` made and returned and that
  `nclose` has not been called on. -/
  opened : List Int

/-- The program begins. -/
def Session.initial (hosts : Nat → Localhost) (streams : Nat → NgTcpStream)
    (gSrcMac : List UInt8) : Session :=
  ⟨World.initial hosts streams gSrcMac, []⟩

/-- The open sockets after a call. -/
def Session.openedBy (s : Session) : Call → List Int
  | .nsocket mem type =>
    let fd := (nsocket mem s.world.stack type).1
    if fd = -1 ∨ made s.world.stack type = none then s.opened else fd :: s.opened
  | .nclose _ fd => s.opened.filter fun other => other ≠ fd
  | .nbind _ _ _ | .nlisten _ | .naccept _ | .ngTcpProcess _ _ _ => s.opened

/-- The session after a call that returns. -/
def Session.exec (rteIpv4UdptcpCksum : Frame → UInt16) (s : Session) (call : Call) :
    Option Session :=
  (s.world.exec rteIpv4UdptcpCksum call).map fun world => ⟨world, s.openedBy call⟩

/-- Allocations succeed, sockets are bound and listen while they are open, and segments come
from an address. -/
def Admitted (s : Session) : Call → Prop
  | .nsocket mem _ => ∀ n, mem n = true
  | .nbind fd _ _ => fd ∈ s.opened
  | .nlisten fd => fd ∈ s.opened
  | .naccept _ => True
  | .nclose memory _ => memory ≠ none
  | .ngTcpProcess mem _ frame => (∀ n, mem n = true) ∧ frame.srcAddr ≠ 0

/-- No two streams with a peer have the same addresses and ports, and the search for them ends
at the stream. -/
def OneBlock (w : Stack) : Prop :=
  (w.tcbSet.Pairwise fun a b =>
    (w.streams a).sip ≠ 0 → (w.streams a).tuple ≠ (w.streams b).tuple) ∧
  ∀ a ∈ w.tcbSet, (w.streams a).sip ≠ 0 →
    ngTcpStreamSearch w (w.streams a).sip (w.streams a).dip (w.streams a).sport
      (w.streams a).dport = some a

/-- What holds between calls. -/
structure Separate (w : Stack) (opened : List Int) : Prop where
  /-- A stream is on the list once. -/
  nodup : w.tcbSet.Nodup
  /-- The streams on the list have been allocated. -/
  below : ∀ a ∈ w.tcbSet, a < w.fresh
  /-- So have the hosts. -/
  hosts : ∀ a ∈ w.lhost, a < w.fresh
  /-- Connections differ. -/
  distinct : ∀ a ∈ w.tcbSet, ∀ b ∈ w.tcbSet, (w.streams a).sip ≠ 0 →
    (w.streams a).tuple = (w.streams b).tuple → a = b
  /-- A stream with a peer is not a listener. -/
  busy : ∀ a ∈ w.tcbSet, (w.streams a).sip ≠ 0 → (w.streams a).status ≠ .listen
  /-- The bit of an open socket is set. -/
  bits : ∀ fd ∈ opened, ∃ n : Nat, fd = n ∧ fdBit w.fdTable n ≠ 0
  /-- What is found at the descriptor of an open socket has no peer. -/
  passive : ∀ fd ∈ opened, ∀ a, getHostinfoFromfd w fd = some (.stream a) →
    (w.streams a).sip = 0

/-- The invariant says that there is one block for each connection. -/
theorem Separate.oneBlock {w : Stack} {opened : List Int} (inv : Separate w opened) :
    OneBlock w := by
  constructor
  · apply inv.nodup.imp_of_mem
    intro a b member member' different peer same
    exact different (inv.distinct a member b member' peer same)
  · intro a member peer
    unfold ngTcpStreamSearch
    rw [find_tuple]
    cases connection : w.tcbSet.find? fun b => (w.streams b).tuple = ((w.streams a).sip,
        (w.streams a).dip, (w.streams a).sport, (w.streams a).dport) with
    | some b =>
      have test := List.find?_some connection
      have same := (of_decide_eq_true test).symm
      have equal := inv.distinct a member b (List.mem_of_find?_eq_some connection) peer same
      simp only [equal]
    | none =>
      rw [List.find?_eq_none] at connection
      exact absurd (decide_eq_true rfl) (connection a member)

/-- The lookup by descriptor is a search of the two lists. -/
theorem getHostinfoFromfd_congr {w next : Stack} {fd : Int}
    (hosts : (next.lhost.find? fun a => (next.hosts a).fd = fd) =
      w.lhost.find? fun a => (w.hosts a).fd = fd)
    (streams : (next.tcbSet.find? fun a => (next.streams a).fd = fd) =
      w.tcbSet.find? fun a => (w.streams a).fd = fd) :
    getHostinfoFromfd next fd = getHostinfoFromfd w fd := by
  unfold getHostinfoFromfd
  rw [hosts, streams]

/-- A stream may change in all but its connection, if it has a peer, and in whether it is found
at the descriptor of an open socket. -/
theorem Separate.setStream {w : Stack} {opened : List Int} (inv : Separate w opened) {a : Nat}
    {stream : NgTcpStream} (sip : stream.sip = (w.streams a).sip)
    (tuple : stream.sip ≠ 0 → stream.tuple = (w.streams a).tuple)
    (fd : ∀ n ∈ opened, stream.fd = n ↔ (w.streams a).fd = n)
    (busy : stream.sip ≠ 0 → stream.status ≠ .listen) :
    Separate (w.setStream a stream) opened := by
  have kept : ∀ b, (Function.update w.streams a stream b).sip ≠ 0 →
      (Function.update w.streams a stream b).tuple = (w.streams b).tuple := by
    intro b
    by_cases here : b = a
    · rw [here, Function.update_self]
      exact tuple
    · intro _
      rw [Function.update_of_ne here]
  refine ⟨inv.nodup, inv.below, inv.hosts, ?_, ?_, inv.bits, ?_⟩
  · intro b member c member' peer same
    rw [Stack.setStream_streams] at peer same
    have equal : (Function.update w.streams a stream b).sip =
        (Function.update w.streams a stream c).sip := congrArg Prod.fst same
    have peer' := peer
    rw [equal] at peer'
    rw [kept b peer, kept c peer'] at same
    rw [update_same NgTcpStream.sip sip] at peer
    exact inv.distinct b member c member' peer same
  · apply forall_update fun _ (stream : NgTcpStream) => stream.sip ≠ 0 → stream.status ≠ .listen
    · intro _
      exact busy
    · intro b member _
      exact inv.busy b member
  · intro n listed b found
    rw [Stack.setStream_streams, update_same NgTcpStream.sip sip]
    apply inv.passive n listed b
    rw [← found]
    symm
    apply getHostinfoFromfd_congr
    · rfl
    · apply List.find?_congr
      intro c _
      rw [decide_eq_decide, Stack.setStream_streams]
      by_cases here : c = a
      · rw [here, Function.update_self]
        exact fd n listed
      · rw [Function.update_of_ne here]

/-- A stream that does not listen may change in all but its connection and its descriptor. -/
theorem Separate.setBusy {w : Stack} {opened : List Int} (inv : Separate w opened) {a : Nat}
    {stream : NgTcpStream} (tuple : stream.tuple = (w.streams a).tuple)
    (fd : stream.fd = (w.streams a).fd) (busy : stream.status ≠ .listen) :
    Separate (w.setStream a stream) opened := by
  apply inv.setStream
  · exact congrArg Prod.fst tuple
  · intro _
    exact tuple
  · intro n _
    rw [fd]
  · intro _
    exact busy

/-- A host may change in all but its descriptor. -/
theorem Separate.setHost {w : Stack} {opened : List Int} (inv : Separate w opened) {a : Nat}
    {host : Localhost} (fd : host.fd = (w.hosts a).fd) : Separate (w.setHost a host) opened := by
  refine ⟨inv.nodup, inv.below, inv.hosts, inv.distinct, inv.busy, inv.bits, ?_⟩
  intro n listed b found
  rw [getHostinfoFromfd_setHost fd] at found
  exact inv.passive n listed b found

/-- The bitmap may change in all but the bits of the open sockets. -/
theorem Separate.retable {w : Stack} {opened : List Int} (inv : Separate w opened)
    {table : Nat → UInt8}
    (bits : ∀ n : Nat, (n : Int) ∈ opened → fdBit w.fdTable n ≠ 0 → fdBit table n ≠ 0) :
    Separate { w with fdTable := table } opened := by
  refine ⟨inv.nodup, inv.below, inv.hosts, inv.distinct, inv.busy, ?_, inv.passive⟩
  intro fd listed
  obtain ⟨n, same, set⟩ := inv.bits fd listed
  rw [same] at listed
  exact ⟨n, same, bits n listed set⟩

/-- Fewer sockets are open. -/
theorem Separate.fewer {w : Stack} {opened rest : List Int} (inv : Separate w opened)
    (sub : ∀ fd ∈ rest, fd ∈ opened) : Separate w rest :=
  ⟨inv.nodup, inv.below, inv.hosts, inv.distinct, inv.busy,
    fun fd listed => inv.bits fd (sub fd listed),
    fun fd listed => inv.passive fd (sub fd listed)⟩

/-- A further socket is open. -/
theorem Separate.more {w : Stack} {opened : List Int} (inv : Separate w opened) {fd : Int}
    (bit : ∃ n : Nat, fd = n ∧ fdBit w.fdTable n ≠ 0)
    (passive : ∀ a, getHostinfoFromfd w fd = some (.stream a) → (w.streams a).sip = 0) :
    Separate w (fd :: opened) := by
  refine ⟨inv.nodup, inv.below, inv.hosts, inv.distinct, inv.busy, ?_, ?_⟩
  · intro other listed
    rcases List.mem_cons.mp listed with here | listed
    · rw [here]
      exact bit
    · exact inv.bits other listed
  · intro other listed
    rcases List.mem_cons.mp listed with here | listed
    · rw [here]
      exact passive
    · exact inv.passive other listed

/-- A stream joins the list, with a connection of its own and a descriptor at which no socket
is open. -/
theorem Separate.push {w : Stack} {opened : List Int} (inv : Separate w opened)
    {stream : NgTcpStream} (unused : stream.fd ∉ opened)
    (busy : stream.sip ≠ 0 → stream.status ≠ .listen)
    (new : stream.sip ≠ 0 → ∀ b ∈ w.tcbSet, (w.streams b).tuple ≠ stream.tuple) :
    Separate (w.push stream) opened := by
  have absent : w.fresh ∉ w.tcbSet := fun member => Nat.lt_irrefl _ (inv.below _ member)
  refine ⟨List.nodup_cons.mpr ⟨absent, inv.nodup⟩, ?_, ?_, ?_, ?_, inv.bits, ?_⟩
  · intro a member
    change a < w.fresh + 1
    rcases List.mem_cons.mp member with here | listed
    · omega
    · have bound := inv.below a listed
      omega
  · intro a member
    exact Nat.lt_succ_of_lt (inv.hosts a member)
  · intro a member b member' peer same
    rcases List.mem_cons.mp member with here | listed
    · rw [here] at peer same ⊢
      rw [push_streams_fresh] at peer same
      rcases List.mem_cons.mp member' with here' | listed'
      · exact here'.symm
      · rw [push_streams (inv.below b listed')] at same
        exact absurd same.symm (new peer b listed')
    · rw [push_streams (inv.below a listed)] at peer same
      rcases List.mem_cons.mp member' with here' | listed'
      · rw [here', push_streams_fresh] at same
        have sip : (w.streams a).sip = stream.sip := congrArg Prod.fst same
        rw [sip] at peer
        exact absurd same (new peer a listed)
      · rw [push_streams (inv.below b listed')] at same
        exact inv.distinct a listed b listed' peer same
  · intro a member
    rcases List.mem_cons.mp member with here | listed
    · rw [here, push_streams_fresh]
      exact busy
    · rw [push_streams (inv.below a listed)]
      exact inv.busy a listed
  · intro fd listed a found
    have kept : getHostinfoFromfd (w.push stream) fd = getHostinfoFromfd w fd := by
      apply getHostinfoFromfd_congr
      · rfl
      · change List.find? _ (w.fresh :: w.tcbSet) = _
        rw [List.find?_cons_of_neg]
        · apply List.find?_congr
          intro b member
          rw [push_streams (inv.below b member)]
        · rw [push_streams_fresh, decide_eq_true_eq]
          intro same
          rw [same] at unused
          exact unused listed
    rw [kept] at found
    have member := mem_sockets_stream.mp (getHostinfoFromfd_some found).1
    rw [push_streams (inv.below a member)]
    exact inv.passive fd listed a found

/-- A host joins its list, with a descriptor at which no socket is open. -/
theorem Separate.pushHost {w : Stack} {opened : List Int} (inv : Separate w opened)
    {host : Localhost} (unused : host.fd ∉ opened) :
    Separate { w.setHost w.fresh host with
      lhost := w.fresh :: w.lhost, fresh := w.fresh + 1 } opened := by
  refine ⟨inv.nodup, ?_, ?_, inv.distinct, inv.busy, inv.bits, ?_⟩
  · intro a member
    exact Nat.lt_succ_of_lt (inv.below a member)
  · intro a member
    change a < w.fresh + 1
    rcases List.mem_cons.mp member with here | listed
    · omega
    · have bound := inv.hosts a listed
      omega
  · intro fd listed a found
    apply inv.passive fd listed a
    rw [← found]
    symm
    apply getHostinfoFromfd_congr
    · change List.find? _ (w.fresh :: w.lhost) = _
      rw [List.find?_cons_of_neg]
      · apply List.find?_congr
        intro b member
        have other : (w.setHost w.fresh host).hosts b = w.hosts b :=
          Function.update_of_ne (Nat.ne_of_lt (inv.hosts b member)) ..
        exact congrArg (fun host : Localhost => decide (host.fd = fd)) other
      · rw [decide_eq_true_eq]
        intro same
        have here : (w.setHost w.fresh host).hosts w.fresh = host := Function.update_self ..
        have value : host.fd = fd := (congrArg Localhost.fd here).symm.trans same
        rw [value] at unused
        exact unused listed
    · rfl

/-- A stream leaves the list that is not found at the descriptor of an open socket. -/
theorem Separate.eraseStream {w : Stack} {opened : List Int} (inv : Separate w opened) {a : Nat}
    (hidden : ∀ fd ∈ opened, getHostinfoFromfd w fd ≠ some (.stream a)) :
    Separate { w with tcbSet := w.tcbSet.erase a } opened := by
  have kept : ∀ b ∈ w.tcbSet.erase a, b ∈ w.tcbSet := fun b => List.mem_of_mem_erase
  refine ⟨inv.nodup.erase a, fun b member => inv.below b (kept b member), inv.hosts, ?_,
    fun b member => inv.busy b (kept b member), inv.bits, ?_⟩
  · intro b member c member'
    exact inv.distinct b (kept b member) c (kept c member')
  · intro fd listed b found
    apply inv.passive fd listed b
    cases first : w.lhost.find? fun b => (w.hosts b).fd = fd with
    | some host =>
      simp only [getHostinfoFromfd, first] at found
      cases found
    | none =>
      rw [← found]
      symm
      apply getHostinfoFromfd_congr
      · rfl
      · apply find?_erase
        intro last
        apply hidden fd listed
        unfold getHostinfoFromfd
        rw [first, last]
        rfl

/-- A host leaves the list that has not the descriptor of an open socket. -/
theorem Separate.eraseHost {w : Stack} {opened : List Int} (inv : Separate w opened) {a : Nat}
    (unused : (w.hosts a).fd ∉ opened) :
    Separate { w with lhost := w.lhost.erase a } opened := by
  refine ⟨inv.nodup, inv.below, fun b member => inv.hosts b (List.mem_of_mem_erase member),
    inv.distinct, inv.busy, inv.bits, ?_⟩
  intro fd listed b found
  apply inv.passive fd listed b
  rw [← found]
  symm
  apply getHostinfoFromfd_congr
  · apply find?_erase
    intro last
    have test := List.find?_some last
    have same := of_decide_eq_true test
    rw [same] at unused
    exact unused listed
  · rfl

/-- No socket is open at `-1`. -/
theorem Separate.proper {w : Stack} {opened : List Int} (inv : Separate w opened) :
    (-1 : Int) ∉ opened := by
  intro listed
  obtain ⟨n, same, _⟩ := inv.bits (-1) listed
  omega

/-- No socket is open at the descriptor that is given out. -/
theorem Separate.unused {w : Stack} {opened : List Int} (inv : Separate w opened) :
    (getFdFrombitmap w.fdTable).1 ∉ opened := by
  obtain ⟨_, given, _⟩ := getFdFrombitmap_facts w.fdTable
  intro listed
  obtain ⟨n, same, set⟩ := inv.bits _ listed
  exact set (given n same).1.2.2.1

/-- The descriptor is taken from the bitmap. -/
theorem Separate.taken {w : Stack} {opened : List Int} (inv : Separate w opened) :
    Separate { w with fdTable := (getFdFrombitmap w.fdTable).2 } opened := by
  apply inv.retable
  intro n _ set clear
  exact set ((getFdFrombitmap_facts w.fdTable).2.2 n clear)

/-- `set_fd_frombitmap` clears no other bit. -/
theorem setFdFrombitmap_clears {table table' : Nat → UInt8} {fd r : Int}
    (result : setFdFrombitmap table fd = some (r, table')) {n : Nat}
    (clear : fdBit table' n = 0) : (n : Int) = fd ∨ fdBit table n = 0 := by
  unfold setFdFrombitmap at result
  split at result
  · injection result with result
    injection result with _ result
    rw [← result] at clear
    exact Or.inr clear
  · split at result
    · injection result with result
      injection result with _ result
      rw [← result, fdBit_clear] at clear
      apply clear.imp_left
      intro same
      omega
    · split at result
      · injection result with result
        injection result with _ result
        rw [← result] at clear
        exact Or.inr clear
      · cases result

/-- `nbind` on an open socket. -/
theorem nbind_separate {w : Stack} {opened : List Int} (inv : Separate w opened) {fd : Int}
    (listed : fd ∈ opened) (sinAddr : UInt32) (sinPort : UInt16) :
    Separate (nbind w fd sinAddr sinPort).2 opened := by
  unfold nbind
  cases found : getHostinfoFromfd w fd with
  | none => exact inv
  | some o =>
    cases o with
    | host a => exact inv.setHost rfl
    | stream a =>
      have nobody := inv.passive fd listed a found
      apply inv.setStream
      · rfl
      · intro peer
        exact absurd nobody peer
      · intro n _
        rfl
      · intro peer
        exact absurd nobody peer

/-- `nlisten` on an open socket. -/
theorem nlisten_separate {w : Stack} {opened : List Int} (inv : Separate w opened) {fd : Int}
    (listed : fd ∈ opened) : Separate (nlisten w fd).2 opened := by
  unfold nlisten
  cases found : getHostinfoFromfd w fd with
  | none => exact inv
  | some o =>
    cases o with
    | host a => exact inv
    | stream a =>
      have nobody := inv.passive fd listed a found
      apply inv.setStream
      · rfl
      · intro _
        rfl
      · intro n _
        rfl
      · intro peer
        exact absurd nobody peer

/-- `naccept` gives the stream a descriptor at which no socket is open. -/
theorem naccept_separate {w : Stack} {opened : List Int} (inv : Separate w opened) {sockfd fd : Int}
    {peer : Option (UInt32 × UInt16)} {next : Stack}
    (result : naccept w sockfd = some (fd, peer, next)) : Separate next opened := by
  rcases naccept_cases result with ⟨_, same, _⟩ | ⟨apt, _, member, unnamed, _, same⟩
  · rw [same]
    exact inv
  · rw [same]
    have given : Separate (w.setStream apt
        { w.streams apt with fd := (getFdFrombitmap w.fdTable).1 }) opened := by
      apply inv.setStream
      · rfl
      · intro _
        rfl
      · intro n listed
        rw [unnamed]
        constructor
        · intro same
          change (getFdFrombitmap w.fdTable).1 = n at same
          rw [← same] at listed
          exact absurd listed inv.unused
        · intro same
          rw [← same] at listed
          exact absurd listed inv.proper
      · exact inv.busy apt member
    exact given.taken

/-- `nclose` leaves the sockets that stay open alone. -/
theorem nclose_separate {w : Stack} {opened : List Int} (inv : Separate w opened)
    {memory : Option NgTcpFragment} {fd r : Int} {next : Stack}
    (result : nclose memory w fd = some (r, next)) :
    Separate next (opened.filter fun other => other ≠ fd) := by
  have closed : ∀ other ∈ opened.filter fun other => other ≠ fd, other ≠ fd := by
    intro other listed
    exact of_decide_eq_true (List.mem_filter.mp listed).2
  have fewer : Separate w (opened.filter fun other => other ≠ fd) :=
    inv.fewer fun other listed => (List.mem_filter.mp listed).1
  have bits : ∀ {table : Nat → UInt8} {answer : Int},
      setFdFrombitmap w.fdTable fd = some (answer, table) → ∀ n : Nat,
      (n : Int) ∈ (opened.filter fun other => other ≠ fd) → fdBit w.fdTable n ≠ 0 →
      fdBit table n ≠ 0 := by
    intro table answer cleared n listed set clear
    rcases setFdFrombitmap_clears cleared clear with same | clear
    · exact closed _ listed same
    · exact set clear
  cases nclose_closes result with
  | failed => exact fewer
  | host found cleared =>
    rename_i a _ _
    have has := (getHostinfoFromfd_some found).2
    have gone : Separate { w with lhost := w.lhost.erase a }
        (opened.filter fun other => other ≠ fd) :=
      fewer.eraseHost fun listed => closed _ listed has
    exact gone.retable (bits cleared)
  | stream found status block queued cleared =>
    rename_i a _ ring _ _
    have last : Separate (w.setStream a
        { w.streams a with sndbuf := some ring, status := .lastAck })
        (opened.filter fun other => other ≠ fd) := by
      refine fewer.setBusy rfl rfl ?_
      intro same
      cases same
    exact last.retable (bits cleared)
  | listener found listens =>
    have has := (getHostinfoFromfd_some found).2
    apply fewer.eraseStream
    intro other listed same
    exact closed _ listed ((getHostinfoFromfd_some same).2.symm.trans has)

/-- At the descriptor of a new host a host is found. -/
theorem getHostinfoFromfd_pushHost (w : Stack) (host : Localhost) (a : Nat) :
    getHostinfoFromfd { w.setHost w.fresh host with
      lhost := w.fresh :: w.lhost, fresh := w.fresh + 1 } host.fd ≠ some (.stream a) := by
  intro found
  have here : (w.setHost w.fresh host).hosts w.fresh = host := Function.update_self ..
  unfold getHostinfoFromfd at found
  rw [List.find?_cons_of_pos] at found
  · cases found
  · exact decide_eq_true (congrArg Localhost.fd here)

/-- At the descriptor of a new stream that stream is found, if no host is. -/
theorem getHostinfoFromfd_push {w : Stack} {stream : NgTcpStream} {a : Nat}
    (found : getHostinfoFromfd (w.push stream) stream.fd = some (.stream a)) : a = w.fresh := by
  have first : ((w.push stream).tcbSet.find? fun b => ((w.push stream).streams b).fd =
      stream.fd) = some w.fresh := by
    apply List.find?_cons_of_pos
    rw [push_streams_fresh]
    exact decide_eq_true rfl
  unfold getHostinfoFromfd at found
  rw [first] at found
  split at found
  · cases found
  · injection found with found
    injection found with found
    exact found.symm

/-- What `nsocket` does when its allocations succeed. -/
theorem nsocket_separate {w : Stack} {opened : List Int} (inv : Separate w opened)
    {mem : Nat → Bool} (memory : ∀ n, mem n = true) (type : Int) :
    Separate (nsocket mem w type).2
      (if (nsocket mem w type).1 = -1 ∨ made w type = none then opened
        else (nsocket mem w type).1 :: opened) := by
  obtain ⟨place, given, _⟩ := getFdFrombitmap_facts w.fdTable
  have taken := inv.taken
  have bit : ∀ {stack : Stack}, stack.fdTable = (getFdFrombitmap w.fdTable).2 →
      (getFdFrombitmap w.fdTable).1 ≠ -1 →
      ∃ n : Nat, (getFdFrombitmap w.fdTable).1 = n ∧ fdBit stack.fdTable n ≠ 0 := by
    intro stack table proper
    obtain ⟨n, answer, _⟩ := place.resolve_left proper
    rw [table]
    exact ⟨n, answer, (given n answer).2⟩
  unfold nsocket made
  by_cases dgram : type = SOCK_DGRAM
  · simp only [if_pos dgram, memory, Bool.and_self, if_true, reduceCtorEq, or_false]
    have pushed := @Separate.pushHost _ opened taken
      { Localhost.zero with fd := (getFdFrombitmap w.fdTable).1 } inv.unused
    by_cases missing : (getFdFrombitmap w.fdTable).1 = -1
    · rw [if_pos missing]
      exact pushed
    · rw [if_neg missing]
      apply pushed.more (bit rfl missing)
      intro a found
      exact absurd found (getHostinfoFromfd_pushHost _ _ a)
  · simp only [if_neg dgram]
    by_cases stream : type = SOCK_STREAM
    · simp only [if_pos stream, memory, Bool.and_self, if_true, reduceCtorEq, or_false]
      have pushed := @Separate.push _ opened taken
        { NgTcpStream.zero with
          fd := (getFdFrombitmap w.fdTable).1, sndbuf := some [], rcvbuf := some [] }
        inv.unused (fun peer => absurd rfl peer) (fun peer => absurd rfl peer)
      by_cases missing : (getFdFrombitmap w.fdTable).1 = -1
      · rw [if_pos missing]
        exact pushed
      · rw [if_neg missing]
        apply pushed.more (bit rfl missing)
        intro a found
        have here := getHostinfoFromfd_push found
        rw [here]
        exact congrArg NgTcpStream.sip (push_streams_fresh _ _)
    · simp only [if_neg stream, or_true, if_true]
      exact taken

/-- A segment that comes from an address. -/
theorem ngTcpProcess_separate {w next : Stack} {opened : List Int} (inv : Separate w opened)
    {rteIpv4UdptcpCksum : Frame → UInt16} {mem : Nat → Bool} {seed : UInt32} {frame : Frame}
    {r : Int} (memory : ∀ n, mem n = true) (addressed : frame.srcAddr ≠ 0)
    (result : ngTcpProcess rteIpv4UdptcpCksum mem seed w frame = some (r, next)) :
    Separate next opened := by
  cases ngTcpProcess_received result with
  | ignored => exact inv
  | opened found listens syn ring =>
    rename_i a rcvbuf
    obtain ⟨member, same | ⟨_, _, new⟩⟩ := ngTcpStreamSearch_some found
    · have sip := congrArg Prod.fst same
      have peer : (w.streams a).sip ≠ 0 := by
        intro zero
        exact addressed (sip.symm.trans zero)
      exact absurd listens (inv.busy a member peer)
    · apply inv.push
      · exact inv.proper
      · intro _ same
        cases same
      · intro _
        exact new
  | unanswered found listens syn failed fd status =>
    rw [memory 3] at failed
    cases failed
  | completed found half ack =>
    refine inv.setBusy rfl rfl ?_
    intro same
    cases same
  | handled found status handled =>
    rcases ngTcpHandleEstablished_answers handled with ⟨_, _, same⟩ | ⟨_, answers, kind⟩
    · rw [same]
      refine inv.setBusy rfl rfl ?_
      rw [status]
      intro same
      cases same
    · apply inv.setBusy
      · unfold NgTcpStream.tuple
        rw [answers.peer.1, answers.peer.2.1, answers.peer.2.2.1, answers.peer.2.2.2]
      · exact answers.fd
      · intro same
        rw [same, status] at kind
        rcases kind with impossible | impossible
        · cases impossible
        · cases impossible
  | removed found status ack =>
    rename_i a
    obtain ⟨member, same | ⟨listens, _⟩⟩ := ngTcpStreamSearch_some found
    · have closed : Separate (w.setStream a { w.streams a with status := .closed }) opened := by
        refine inv.setBusy rfl rfl ?_
        intro same
        cases same
      apply closed.eraseStream
      intro fd listed here
      have nobody := closed.passive fd listed a here
      rw [Stack.setStream_streams, Function.update_self] at nobody
      have sip : (w.streams a).sip = frame.srcAddr := congrArg Prod.fst same
      exact addressed (sip.symm.trans nobody)
    · rw [status] at listens
      cases listens

/-- Every admitted call keeps the connections apart. -/
theorem exec_separate {s next : Session} (inv : Separate s.world.stack s.opened)
    {rteIpv4UdptcpCksum : Frame → UInt16} {call : Call} (admitted : Admitted s call)
    (done : s.exec rteIpv4UdptcpCksum call = some next) :
    Separate next.world.stack next.opened := by
  rw [Session.exec, Option.map_eq_some_iff] at done
  obtain ⟨world, taken, same⟩ := done
  rw [← same]
  cases call with
  | nsocket mem type =>
    rw [← Option.some.inj taken]
    exact nsocket_separate inv admitted type
  | nbind fd sinAddr sinPort =>
    rw [← Option.some.inj taken]
    exact nbind_separate inv admitted sinAddr sinPort
  | nlisten fd =>
    rw [← Option.some.inj taken]
    exact nlisten_separate inv admitted
  | naccept sockfd =>
    simp only [World.exec, Option.map_eq_some_iff, Prod.exists] at taken
    obtain ⟨fd, peer, stack, result, last⟩ := taken
    rw [← last]
    exact naccept_separate inv result
  | nclose memory fd =>
    simp only [World.exec, Option.map_eq_some_iff, Prod.exists] at taken
    obtain ⟨r, stack, result, last⟩ := taken
    rw [← last]
    exact nclose_separate inv result
  | ngTcpProcess mem seed frame =>
    simp only [World.exec, Option.map_eq_some_iff, Prod.exists] at taken
    obtain ⟨r, stack, result, last⟩ := taken
    rw [← last]
    exact ngTcpProcess_separate inv admitted.1 admitted.2 result

/-- In every run of admitted calls there is one block for each connection. -/
theorem run_oneBlock {rteIpv4UdptcpCksum : Frame → UInt16} {hosts : Nat → Localhost}
    {streams : Nat → NgTcpStream} {gSrcMac : List UInt8} {trace : List Call} {s : Session}
    (run : Run (fun s call next => s.exec rteIpv4UdptcpCksum call = some next ∧ Admitted s call)
      (Session.initial hosts streams gSrcMac) trace s) : OneBlock s.world.stack := by
  have inv : Separate s.world.stack s.opened := by
    apply run.invariant (fun s => Separate s.world.stack s.opened)
    · refine ⟨List.nodup_nil, ?_, ?_, ?_, ?_, ?_, ?_⟩
      · intro a member
        cases member
      · intro a member
        cases member
      · intro a member
        cases member
      · intro a member
        cases member
      · intro fd listed
        cases listed
      · intro fd listed
        cases listed
    · intro s call next inv taken
      exact exec_separate inv taken.2 taken.1
  exact inv.oneBlock

/-- A connection request from the address `0.0.0.1`. -/
def request : Frame := fun i =>
  if i = 29 then 1
  else if i = tcphdr + 13 then RTE_TCP_SYN_FLAG
  else 0

/-- A listener gets the same request twice; there is one stream for it. -/
theorem run_oneBlock_request : ∃ trace s,
    Run (fun s call next => s.exec (fun _ => 0) call = some next ∧ Admitted s call)
      (Session.initial (fun _ => Localhost.zero) (fun _ => NgTcpStream.zero) []) trace s ∧
    OneBlock s.world.stack ∧ s.world.stack.tcbSet = [1, 0] ∧
    (s.world.stack.streams 1).sip ≠ 0 := by
  have opened : Run (fun s call next => s.exec (fun _ => 0) call = some next ∧ Admitted s call)
      (Session.initial (fun _ => Localhost.zero) (fun _ => NgTcpStream.zero) [])
      [.nsocket (fun _ => true) SOCK_STREAM] _ := Run.snoc Run.nil ⟨rfl, fun _ => rfl⟩
  have listening : Run (fun s call next => s.exec (fun _ => 0) call = some next ∧ Admitted s call)
      (Session.initial (fun _ => Localhost.zero) (fun _ => NgTcpStream.zero) [])
      [.nsocket (fun _ => true) SOCK_STREAM, .nlisten 3] _ :=
    Run.snoc opened ⟨rfl, List.mem_singleton.mpr rfl⟩
  have admitted : (∀ n : Nat, (fun _ => true) n = true) ∧ request.srcAddr ≠ 0 :=
    ⟨fun _ => rfl, by decide⟩
  have first : Run (fun s call next => s.exec (fun _ => 0) call = some next ∧ Admitted s call)
      (Session.initial (fun _ => Localhost.zero) (fun _ => NgTcpStream.zero) [])
      [.nsocket (fun _ => true) SOCK_STREAM, .nlisten 3,
        .ngTcpProcess (fun _ => true) 7 request] _ :=
    Run.snoc listening ⟨rfl, admitted⟩
  have second : Run (fun s call next => s.exec (fun _ => 0) call = some next ∧ Admitted s call)
      (Session.initial (fun _ => Localhost.zero) (fun _ => NgTcpStream.zero) [])
      [.nsocket (fun _ => true) SOCK_STREAM, .nlisten 3,
        .ngTcpProcess (fun _ => true) 7 request, .ngTcpProcess (fun _ => true) 8 request] _ :=
    Run.snoc first ⟨rfl, admitted⟩
  exact ⟨_, _, second, run_oneBlock second, by decide, by decide⟩

end BackendCpp.Tcp
