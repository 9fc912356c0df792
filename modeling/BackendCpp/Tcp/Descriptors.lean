import BackendCpp.Tcp.Sockets
import BackendCpp.Library.Naming
import BackendCpp.Library.Run

/-!
# Descriptors

A descriptor is given out by `nsocket` and `naccept`, when its bit in `fd_table` is clear.
`nclose` clears the bit of a stream at once, but the stream stays on `tcb_set` with its
descriptor until the last `ACK`. A descriptor given out in between belongs to two sockets.
-/

namespace BackendCpp.Tcp

open BackendCpp.Library

/-- The address of a socket. -/
def Hostinfo.addr : Hostinfo → Nat
  | .host a => a
  | .stream a => a

/-- The sockets on `lhost` and `tcb_set`, in the order in which they are searched. -/
def Stack.sockets (w : Stack) : List Hostinfo := w.lhost.map .host ++ w.tcbSet.map .stream

/-- The field `fd` of a socket. -/
def Stack.fdOf (w : Stack) : Hostinfo → Int
  | .host a => (w.hosts a).fd
  | .stream a => (w.streams a).fd

/-- A descriptor names a socket unless it is `-1`. -/
def named (fd : Int) : Option Int := if fd = -1 then none else some fd

/-- The name of a socket. -/
def Stack.name (w : Stack) (o : Hostinfo) : Option Int := named (w.fdOf o)

/-- A descriptor names a socket unless it is -1. -/
theorem named_eq_some {fd n : Int} : named fd = some n ↔ fd = n ∧ n ≠ -1 := by
  unfold named
  by_cases missing : fd = -1
  · rw [if_pos missing]
    constructor
    · intro absent
      cases absent
    · intro same
      exact absurd (same.1.symm.trans missing) same.2
  · rw [if_neg missing, Option.some_inj]
    constructor
    · intro same
      exact ⟨same, same ▸ missing⟩
    · exact fun same => same.1

/-- The lookup by descriptor is a search among the sockets. -/
theorem getHostinfoFromfd_eq_find (w : Stack) (fd : Int) :
    getHostinfoFromfd w fd = w.sockets.find? fun o => w.fdOf o = fd := by
  rw [Stack.sockets, List.find?_append, List.find?_map, List.find?_map]
  unfold getHostinfoFromfd
  have hosts : (fun a => decide ((w.hosts a).fd = fd)) =
      (fun o => decide (w.fdOf o = fd)) ∘ Hostinfo.host := rfl
  have streams : (fun a => decide ((w.streams a).fd = fd)) =
      (fun o => decide (w.fdOf o = fd)) ∘ Hostinfo.stream := rfl
  rw [hosts, streams]
  cases w.lhost.find? ((fun o => decide (w.fdOf o = fd)) ∘ Hostinfo.host) with
  | some a => rfl
  | none => rfl

/-- What is found is on a list and has the descriptor. -/
theorem getHostinfoFromfd_some {w : Stack} {fd : Int} {o : Hostinfo}
    (found : getHostinfoFromfd w fd = some o) : o ∈ w.sockets ∧ w.fdOf o = fd := by
  rw [getHostinfoFromfd_eq_find] at found
  have test := List.find?_some found
  exact ⟨List.mem_of_find?_eq_some found, of_decide_eq_true test⟩

/-- A stack, with the history of its descriptors. -/
structure World where
  /-- The stack. -/
  stack : Stack
  /-- History: the socket for which `nsocket` or `naccept` most recently returned a
  descriptor. -/
  owner : Int → Option Hostinfo

/-- The program begins. -/
def World.initial (hosts : Nat → Localhost) (streams : Nat → NgTcpStream)
    (gSrcMac : List UInt8) : World :=
  ⟨Stack.initial hosts streams gSrcMac, fun _ => none⟩

/-- A descriptor is returned for a socket, or for none. -/
def returned (owner : Int → Option Hostinfo) (fd : Int) (socket : Option Hostinfo) :
    Int → Option Hostinfo :=
  if fd = -1 then owner else Function.update owner fd socket

/-- The socket that `nsocket` makes. -/
def made (w : Stack) (type : Int) : Option Hostinfo :=
  if type = SOCK_DGRAM then some (.host w.fresh)
  else if type = SOCK_STREAM then some (.stream w.fresh)
  else none

/-- The stream that `naccept` accepts. -/
def accepted (w : Stack) (sockfd : Int) : Option Nat :=
  match getHostinfoFromfd w sockfd with
  | some (.stream a) => getAcceptTcb w (w.streams a).dport
  | _ => none

/-- A call of the application, or a received segment. -/
inductive Call
  /-- `nsocket`. -/
  | nsocket (mem : Nat → Bool) (type : Int)
  /-- `nbind`. -/
  | nbind (sockfd : Int) (sinAddr : UInt32) (sinPort : UInt16)
  /-- `nlisten`. -/
  | nlisten (sockfd : Int)
  /-- `naccept`. -/
  | naccept (sockfd : Int)
  /-- `nclose`. -/
  | nclose (memory : Option NgTcpFragment) (fd : Int)
  /-- `ng_tcp_process`. -/
  | ngTcpProcess (mem : Nat → Bool) (seed : UInt32) (frame : Frame)

/-- The world after a call that returns. -/
def World.exec (rteIpv4UdptcpCksum : Frame → UInt16) (w : World) : Call → Option World
  | .nsocket mem type =>
    let (fd, stack) := nsocket mem w.stack type
    some ⟨stack, returned w.owner fd (made w.stack type)⟩
  | .nbind sockfd sinAddr sinPort =>
    some { w with stack := (nbind w.stack sockfd sinAddr sinPort).2 }
  | .nlisten sockfd => some { w with stack := (nlisten w.stack sockfd).2 }
  | .naccept sockfd =>
    (naccept w.stack sockfd).map fun (fd, _, stack) =>
      ⟨stack, returned w.owner fd ((accepted w.stack sockfd).map .stream)⟩
  | .nclose memory fd =>
    (nclose memory w.stack fd).map fun (_, stack) => { w with stack := stack }
  | .ngTcpProcess mem seed frame =>
    (ngTcpProcess rteIpv4UdptcpCksum mem seed w.stack frame).map fun (_, stack) =>
      { w with stack := stack }

/-- No two sockets have the same descriptor other than `-1`, and the lookup of a descriptor
gives the socket for which it was most recently returned, as long as that is on a list. -/
def Unambiguous (w : World) : Prop :=
  (w.stack.sockets.Pairwise fun o o' => w.stack.fdOf o = w.stack.fdOf o' → w.stack.fdOf o = -1) ∧
  ∀ fd, fd ≠ -1 → ∀ o,
    getHostinfoFromfd w.stack fd = some o ↔ w.owner fd = some o ∧ o ∈ w.stack.sockets

/-- A stream on `tcb_set` still carries the lowest descriptor that the bitmap shows free:
`nclose` has cleared the bit, but the stream has not been removed. -/
def Lingers (w : Stack) : Prop :=
  ∃ a ∈ w.tcbSet, ∃ fd : Nat, (w.streams a).fd = fd ∧ LowestFree w.fdTable fd

/-- A descriptor is given out only when no stream lingers on the one to be given. -/
def Safe (w : Stack) : Call → Prop
  | .nsocket mem type =>
    (type = SOCK_DGRAM ∨ type = SOCK_STREAM → mem 0 = true ∧ mem 1 = true ∧ mem 2 = true) →
      ¬ Lingers w
  | .naccept sockfd => accepted w sockfd ≠ none → ¬ Lingers w
  | .nbind _ _ _ | .nlisten _ | .nclose _ _ | .ngTcpProcess _ _ _ => True

/-- What holds between calls. -/
structure Inv (w : World) : Prop where
  /-- The descriptors agree with their history. -/
  naming : Naming w.stack.sockets w.stack.name w.owner
  /-- The sockets on the lists have been allocated. -/
  below : ∀ o ∈ w.stack.sockets, o.addr < w.stack.fresh
  /-- So have those of the history. -/
  past : ∀ fd o, w.owner fd = some o → o.addr < w.stack.fresh
  /-- Descriptors are places of the bitmap. -/
  range : ∀ o ∈ w.stack.sockets, w.stack.fdOf o = -1 ∨
    ∃ fd : Nat, w.stack.fdOf o = fd ∧ fd < MAX_FD_COUNT
  /-- The bit of a host is set. -/
  hosts : ∀ a ∈ w.stack.lhost, ∀ fd : Nat, (w.stack.hosts a).fd = fd →
    fdBit w.stack.fdTable fd ≠ 0

/-- The invariant says that descriptors are unambiguous. -/
theorem Inv.unambiguous {w : World} (inv : Inv w) : Unambiguous w := by
  constructor
  · apply inv.naming.pairwise.imp
    intro o o' different same
    by_contra proper
    apply different (w.stack.fdOf o)
    · exact named_eq_some.mpr ⟨rfl, proper⟩
    · exact named_eq_some.mpr ⟨same.symm, proper⟩
  · intro fd proper o
    rw [getHostinfoFromfd_eq_find, ← inv.naming.find fd o]
    have test : (fun o => decide (w.stack.fdOf o = fd)) =
        fun o => decide (w.stack.name o = some fd) := by
      funext o
      rw [decide_eq_decide, Stack.name, named_eq_some]
      exact (and_iff_left proper).symm
    rw [test]

/-- The hosts among the sockets. -/
theorem mem_sockets_host {w : Stack} {a : Nat} : Hostinfo.host a ∈ w.sockets ↔ a ∈ w.lhost := by
  simp [Stack.sockets]

/-- The streams among the sockets. -/
theorem mem_sockets_stream {w : Stack} {a : Nat} :
    Hostinfo.stream a ∈ w.sockets ↔ a ∈ w.tcbSet := by
  simp [Stack.sockets]

/-- Sockets with the same descriptor are the same. -/
theorem Inv.eq_of_fd {w : World} (inv : Inv w) {o o' : Hostinfo} (member : o ∈ w.stack.sockets)
    (member' : o' ∈ w.stack.sockets) {fd : Nat} (has : w.stack.fdOf o = fd)
    (has' : w.stack.fdOf o' = fd) : o = o' := by
  have proper : (fd : Int) ≠ -1 := by omega
  have last := (inv.naming.agrees o member fd).mp (named_eq_some.mpr ⟨has, proper⟩)
  have last' := (inv.naming.agrees o' member' fd).mp (named_eq_some.mpr ⟨has', proper⟩)
  exact Option.some.inj (last.symm.trans last')

/-- Sockets may leave the lists, and those that stay keep their descriptors. -/
theorem Inv.sub {w : World} (inv : Inv w) {stack : Stack} (fresh : stack.fresh = w.stack.fresh)
    (listed : List.Sublist stack.sockets w.stack.sockets)
    (same : ∀ o, stack.fdOf o = w.stack.fdOf o)
    (hosts : ∀ a ∈ stack.lhost, ∀ fd : Nat, (stack.hosts a).fd = fd →
      fdBit stack.fdTable fd ≠ 0) : Inv ⟨stack, w.owner⟩ := by
  have kept : ∀ o ∈ stack.sockets, o ∈ w.stack.sockets := fun o => listed.mem
  refine ⟨?_, ?_, ?_, ?_, hosts⟩
  · apply inv.naming.sub (inv.naming.nodup.sublist listed) kept
    intro o _
    exact congrArg named (same o)
  · intro o member
    change o.addr < stack.fresh
    rw [fresh]
    exact inv.below o (kept o member)
  · intro fd o last
    change o.addr < stack.fresh
    rw [fresh]
    exact inv.past fd o last
  · intro o member
    change stack.fdOf o = -1 ∨ ∃ fd : Nat, stack.fdOf o = fd ∧ fd < MAX_FD_COUNT
    rw [same]
    exact inv.range o (kept o member)

/-- A call that leaves the stack as it is. -/
theorem Inv.unchanged {w : World} (inv : Inv w) {stack : Stack} {answer r : Int}
    (result : some (answer, w.stack) = some (r, stack)) : Inv ⟨stack, w.owner⟩ := by
  injection result with result
  injection result with _ result
  rw [← result]
  exact inv

/-- Rewriting a stream without its descriptor. -/
theorem fdOf_setStream {w : Stack} {a : Nat} {stream : NgTcpStream}
    (same : stream.fd = (w.streams a).fd) (o : Hostinfo) :
    (w.setStream a stream).fdOf o = w.fdOf o := by
  cases o with
  | host b => rfl
  | stream b => exact update_same NgTcpStream.fd same b

/-- Rewriting a host without its descriptor. -/
theorem fdOf_setHost {w : Stack} {a : Nat} {host : Localhost}
    (same : host.fd = (w.hosts a).fd) (o : Hostinfo) :
    (w.setHost a host).fdOf o = w.fdOf o := by
  cases o with
  | host b => exact update_same Localhost.fd same b
  | stream b => rfl

/-- A stream that keeps its descriptor may change. -/
theorem Inv.setStream {w : World} (inv : Inv w) {a : Nat} {stream : NgTcpStream}
    (same : stream.fd = (w.stack.streams a).fd) : Inv ⟨w.stack.setStream a stream, w.owner⟩ :=
  inv.sub rfl (List.Sublist.refl _) (fdOf_setStream same) inv.hosts

/-- A host that keeps its descriptor may change. -/
theorem Inv.setHost {w : World} (inv : Inv w) {a : Nat} {host : Localhost}
    (same : host.fd = (w.stack.hosts a).fd) : Inv ⟨w.stack.setHost a host, w.owner⟩ := by
  refine inv.sub rfl (List.Sublist.refl _) (fdOf_setHost same) ?_
  intro b member fd has
  exact inv.hosts b member fd ((update_same Localhost.fd same b).symm.trans has)

/-- The bitmap may change while the bits of the hosts are set. -/
theorem Inv.retable {w : World} (inv : Inv w) {table : Nat → UInt8}
    (hosts : ∀ a ∈ w.stack.lhost, ∀ fd : Nat, (w.stack.hosts a).fd = fd → fdBit table fd ≠ 0) :
    Inv ⟨{ w.stack with fdTable := table }, w.owner⟩ := by
  refine inv.sub rfl (List.Sublist.refl _) ?_ hosts
  intro o
  cases o with
  | host b => rfl
  | stream b => rfl

/-- Removing a stream. -/
theorem sockets_erase_stream (w : Stack) (a : Nat) :
    List.Sublist (w.lhost.map Hostinfo.host ++ (w.tcbSet.erase a).map Hostinfo.stream)
      w.sockets :=
  List.Sublist.append (List.Sublist.refl _) (List.erase_sublist.map _)

/-- `nbind` keeps the descriptors. -/
theorem nbind_inv {w : World} (inv : Inv w) (sockfd : Int) (sinAddr : UInt32)
    (sinPort : UInt16) : Inv ⟨(nbind w.stack sockfd sinAddr sinPort).2, w.owner⟩ := by
  unfold nbind
  cases getHostinfoFromfd w.stack sockfd with
  | none => exact inv
  | some o =>
    cases o with
    | host a => exact inv.setHost rfl
    | stream a => exact inv.setStream rfl

/-- `nlisten` keeps the descriptors. -/
theorem nlisten_inv {w : World} (inv : Inv w) (sockfd : Int) :
    Inv ⟨(nlisten w.stack sockfd).2, w.owner⟩ := by
  unfold nlisten
  cases getHostinfoFromfd w.stack sockfd with
  | none => exact inv
  | some o =>
    cases o with
    | host a => exact inv
    | stream a => exact inv.setStream rfl

/-- `nclose` keeps what the sockets that stay rely on. -/
theorem nclose_inv {w : World} (inv : Inv w) {memory : Option NgTcpFragment} {fd r : Int}
    {stack : Stack} (result : nclose memory w.stack fd = some (r, stack)) :
    Inv ⟨stack, w.owner⟩ := by
  unfold nclose at result
  cases found : getHostinfoFromfd w.stack fd with
  | none =>
    rw [found] at result
    exact inv.unchanged result
  | some o =>
    obtain ⟨member, has⟩ := getHostinfoFromfd_some found
    have place := inv.range o member
    rw [has] at place
    obtain ⟨table, cleared, bits⟩ := setFdFrombitmap_spec w.stack.fdTable place
    cases o with
    | host a =>
      simp only [found, cleared, Option.map_some] at result
      injection result with result
      injection result with _ result
      rw [← result]
      have listed := mem_sockets_host.mp member
      refine inv.sub rfl ?_ ?_ ?_
      · exact List.Sublist.append (List.erase_sublist.map _) (List.Sublist.refl _)
      · intro o
        cases o with
        | host b => rfl
        | stream b => rfl
      · intro b member' n has' clear
        have distinct : w.stack.lhost.Nodup :=
          (List.nodup_append.mp inv.naming.nodup).1.of_map
        rcases (bits n).mp clear with same | clear
        · have equal := inv.eq_of_fd member (mem_sockets_host.mpr (List.mem_of_mem_erase member'))
            (has.trans same.symm) has'
          injection equal with equal
          rw [equal] at member'
          exact distinct.not_mem_erase member'
        · exact inv.hosts b (List.mem_of_mem_erase member') n has' clear
    | stream a =>
      simp only [found] at result
      split at result
      · cases memory with
        | none => exact inv.unchanged result
        | some held =>
          simp only [Option.bind_eq_some_iff, cleared, Option.map_some] at result
          obtain ⟨ring, _, result⟩ := result
          injection result with result
          injection result with _ result
          rw [← result]
          have changed := @Inv.setStream w inv a
            { w.stack.streams a with sndbuf := some ring, status := .lastAck } rfl
          apply changed.retable
          intro b member' n has' clear
          rcases (bits n).mp clear with same | clear
          · have equal := inv.eq_of_fd member (mem_sockets_host.mpr member')
              (has.trans same.symm) has'
            cases equal
          · exact inv.hosts b member' n has' clear
      · injection result with result
        injection result with _ result
        rw [← result]
        refine inv.sub rfl (sockets_erase_stream w.stack a) ?_ ?_
        · intro o
          cases o with
          | host b => rfl
          | stream b => rfl
        · exact inv.hosts

/-- A new socket joins the lists, with a descriptor that nobody has. -/
theorem Inv.join {w : World} (inv : Inv w) {o : Hostinfo} {stack : Stack} {fd : Int}
    (address : o.addr = w.stack.fresh) (fresh : stack.fresh = w.stack.fresh + 1)
    (joined : List.Perm stack.sockets (o :: w.stack.sockets))
    (same : ∀ o', o'.addr ≠ w.stack.fresh → stack.fdOf o' = w.stack.fdOf o')
    (has : stack.fdOf o = fd) (place : fd = -1 ∨ ∃ n : Nat, fd = n ∧ n < MAX_FD_COUNT)
    (free : ∀ o' ∈ w.stack.sockets, fd ≠ -1 → w.stack.fdOf o' ≠ fd)
    (hosts : ∀ a ∈ stack.lhost, ∀ fd : Nat, (stack.hosts a).fd = fd →
      fdBit stack.fdTable fd ≠ 0) : Inv ⟨stack, returned w.owner fd (some o)⟩ := by
  have new : o ∉ w.stack.sockets := by
    intro member
    have below := inv.below o member
    omega
  have unknown : ∀ n, w.owner n ≠ some o := by
    intro n last
    have below := inv.past n o last
    omega
  have old : ∀ o' ∈ w.stack.sockets, stack.fdOf o' = w.stack.fdOf o' := by
    intro o' member
    apply same
    have below := inv.below o' member
    omega
  have oldName : ∀ o' ∈ w.stack.sockets, stack.name o' = w.stack.name o' :=
    fun o' member => congrArg named (old o' member)
  refine ⟨?_, ?_, ?_, ?_, hosts⟩
  · by_cases missing : fd = -1
    · have unchanged : returned w.owner fd (some o) = w.owner := if_pos missing
      rw [unchanged]
      apply inv.naming.add joined new unknown oldName
      rw [Stack.name, has]
      exact if_pos missing
    · have changed : returned w.owner fd (some o) = Function.update w.owner fd (some o) :=
        if_neg missing
      rw [changed]
      apply inv.naming.join joined new unknown
      · intro o' member taken
        exact free o' member missing (named_eq_some.mp taken).1
      · exact oldName
      · exact named_eq_some.mpr ⟨has, missing⟩
  · intro o' member
    change o'.addr < stack.fresh
    rcases List.mem_cons.mp (joined.mem_iff.mp member) with here | listed
    · rw [here]
      omega
    · have below := inv.below o' listed
      omega
  · intro n o' last
    change o'.addr < stack.fresh
    change returned w.owner fd (some o) n = some o' at last
    unfold returned at last
    split at last
    · have below := inv.past n o' last
      omega
    · by_cases this : n = fd
      · rw [this, Function.update_self] at last
        rw [← Option.some.inj last]
        omega
      · rw [Function.update_of_ne this] at last
        have below := inv.past n o' last
        omega
  · intro o' member
    change stack.fdOf o' = -1 ∨ ∃ n : Nat, stack.fdOf o' = n ∧ n < MAX_FD_COUNT
    rcases List.mem_cons.mp (joined.mem_iff.mp member) with here | listed
    · rw [here, has]
      exact place
    · rw [old o' listed]
      exact inv.range o' listed

/-- A stream joins `tcb_set`. -/
theorem Inv.joinStream {w : World} (inv : Inv w) {stream : NgTcpStream} {fd : Int}
    (has : stream.fd = fd) (place : fd = -1 ∨ ∃ n : Nat, fd = n ∧ n < MAX_FD_COUNT)
    (free : ∀ o' ∈ w.stack.sockets, fd ≠ -1 → w.stack.fdOf o' ≠ fd) :
    Inv ⟨{ w.stack.setStream w.stack.fresh stream with
      tcbSet := w.stack.fresh :: w.stack.tcbSet, fresh := w.stack.fresh + 1 },
      returned w.owner fd (some (.stream w.stack.fresh))⟩ := by
  refine inv.join rfl rfl List.perm_middle ?_ ?_ place free inv.hosts
  · intro o' other
    cases o' with
    | host b => rfl
    | stream b => exact congrArg NgTcpStream.fd (Function.update_of_ne other ..)
  · exact (congrArg NgTcpStream.fd (Function.update_self ..)).trans has

/-- A host joins `lhost`; its bit is set. -/
theorem Inv.joinHost {w : World} (inv : Inv w) {host : Localhost} {fd : Int}
    (has : host.fd = fd) (place : fd = -1 ∨ ∃ n : Nat, fd = n ∧ n < MAX_FD_COUNT)
    (free : ∀ o' ∈ w.stack.sockets, fd ≠ -1 → w.stack.fdOf o' ≠ fd)
    (set : ∀ n : Nat, fd = n → fdBit w.stack.fdTable n ≠ 0) :
    Inv ⟨{ w.stack.setHost w.stack.fresh host with
      lhost := w.stack.fresh :: w.stack.lhost, fresh := w.stack.fresh + 1 },
      returned w.owner fd (some (.host w.stack.fresh))⟩ := by
  refine inv.join rfl rfl (List.Perm.refl _) ?_ ?_ place free ?_
  · intro o' other
    cases o' with
    | host b => exact congrArg Localhost.fd (Function.update_of_ne other ..)
    | stream b => rfl
  · exact (congrArg Localhost.fd (Function.update_self ..)).trans has
  · intro a member n has'
    rcases List.mem_cons.mp member with here | listed
    · have value : (Function.update w.stack.hosts w.stack.fresh host a).fd = fd := by
        rw [here, Function.update_self]
        exact has
      exact set n (value.symm.trans has')
    · have below : a < w.stack.fresh := inv.below (.host a) (mem_sockets_host.mpr listed)
      have value : (Function.update w.stack.hosts w.stack.fresh host a).fd =
          (w.stack.hosts a).fd := by rw [Function.update_of_ne (by omega)]
      exact inv.hosts a listed n (value.symm.trans has')

/-- Queueing on a ring does not touch the descriptor. -/
theorem fd_of_map {ring : Option (List NgTcpFragment)} {stream next : NgTcpStream} {r : Int}
    {set : List NgTcpFragment → NgTcpStream}
    (result : (ring.map fun items => ((0 : Int), set items)) = some (r, next))
    (keeps : ∀ items, (set items).fd = stream.fd) :
    next.fd = stream.fd := by
  rw [Option.map_eq_some_iff] at result
  obtain ⟨items, _, same⟩ := result
  injection same with _ same
  rw [← same]
  exact keeps items

/-- `ng_tcp_enqueue_recvbuffer` does not touch the descriptor. -/
theorem ngTcpEnqueueRecvbuffer_fd {mem : Nat → Bool} {stream next : NgTcpStream} {frame : Frame}
    {tcplen r : Int} (result : ngTcpEnqueueRecvbuffer mem stream frame tcplen = some (r, next)) :
    next.fd = stream.fd := by
  simp only [ngTcpEnqueueRecvbuffer] at result
  split at result
  · split at result
    · split at result
      · exact fd_of_map result fun _ => rfl
      · injection result with result
        injection result with _ same
        rw [same]
    · exact fd_of_map result fun _ => rfl
  · injection result with result
    injection result with _ same
    rw [same]

/-- `ng_tcp_send_ackpkt` does not touch the descriptor. -/
theorem ngTcpSendAckpkt_fd {mem : Nat → Bool} {stream next : NgTcpStream} {frame : Frame}
    {r : Int} (result : ngTcpSendAckpkt mem stream frame = some (r, next)) :
    next.fd = stream.fd := by
  unfold ngTcpSendAckpkt at result
  split at result
  · exact fd_of_map result fun _ => rfl
  · injection result with result
    injection result with _ same
    rw [same]

/-- `ng_tcp_handle_established` does not touch the descriptor. -/
theorem ngTcpHandleEstablished_fd {mem : Nat → Bool} {stream next : NgTcpStream} {frame : Frame}
    {tcplen r : Int} (result : ngTcpHandleEstablished mem stream frame tcplen = some (r, next)) :
    next.fd = stream.fd := by
  have psh : ∀ middle, establishedPsh mem stream frame tcplen = some middle →
      middle.fd = stream.fd := by
    intro middle first
    simp only [establishedPsh, Option.bind_eq_some_iff, Option.map_eq_some_iff, Prod.exists] at first
    obtain ⟨_, queued, enqueue, _, answered, ack, same⟩ := first
    have kept := ngTcpEnqueueRecvbuffer_fd enqueue
    rw [← same, ngTcpSendAckpkt_fd ack]
    exact kept
  have fin : ∀ middle next, establishedFin (fun n => mem (3 + n)) middle frame = some next →
      next.fd = middle.fd := by
    intro middle next second
    simp only [establishedFin, Option.bind_eq_some_iff, Option.map_eq_some_iff, Prod.exists] at second
    obtain ⟨_, queued, enqueue, _, answered, ack, same⟩ := second
    have kept := ngTcpEnqueueRecvbuffer_fd enqueue
    rw [← same, ngTcpSendAckpkt_fd ack]
    exact kept
  unfold ngTcpHandleEstablished at result
  simp only [Option.bind_eq_some_iff, Option.map_eq_some_iff] at result
  obtain ⟨middle, first, last, second, same⟩ := result
  injection same with _ same
  rw [← same]
  have one : middle.fd = stream.fd := by
    split at first
    · exact psh middle first
    · rw [Option.some.inj first]
  have two : last.fd = middle.fd := by
    split at second
    · exact fin middle last second
    · rw [Option.some.inj second]
  exact two.trans one

/-- `ng_tcp_handle_listen` adds at most one stream, without a descriptor. -/
theorem ngTcpHandleListen_inv {w : World} (inv : Inv w) {mem : Nat → Bool} {seed : UInt32}
    {a : Nat} {frame : Frame} {r : Int} {stack : Stack}
    (result : ngTcpHandleListen mem seed w.stack a frame = some (r, stack)) :
    Inv ⟨stack, w.owner⟩ := by
  simp only [ngTcpHandleListen] at result
  split at result
  · split at result
    · rw [Option.bind_eq_some_iff] at result
      obtain ⟨syn, created, result⟩ := result
      have unnamed : syn.fd = -1 := by
        unfold ngTcpStreamCreate at created
        split at created
        · rw [← Option.some.inj created]
        · cases created
      have joined := @Inv.joinStream w inv syn (-1) unnamed (Or.inl rfl)
        (fun _ _ proper => absurd rfl proper)
      split at result
      · rw [Option.map_eq_some_iff] at result
        obtain ⟨ring, _, result⟩ := result
        injection result with _ result
        rw [← result]
        refine joined.setStream ?_
        change syn.fd = (Function.update w.stack.streams w.stack.fresh syn w.stack.fresh).fd
        rw [Function.update_self]
      · exact joined.unchanged result
    · exact inv.unchanged result
  · exact inv.unchanged result

/-- `ng_tcp_handle_syn_rcvd` changes only the status of a stream. -/
theorem ngTcpHandleSynRcvd_inv {w : World} (inv : Inv w) {a : Nat} {frame : Frame} {r : Int}
    {stack : Stack} (result : ngTcpHandleSynRcvd w.stack a frame = some (r, stack)) :
    Inv ⟨stack, w.owner⟩ := by
  simp only [ngTcpHandleSynRcvd] at result
  split at result
  · split at result
    · rw [Option.map_eq_some_iff] at result
      obtain ⟨_, _, result⟩ := result
      injection result with _ result
      rw [← result]
      exact inv.setStream rfl
    · exact inv.unchanged result
  · exact inv.unchanged result

/-- `ng_tcp_handle_last_ack` removes a stream. -/
theorem ngTcpHandleLastAck_inv {w : World} (inv : Inv w) (a : Nat) (frame : Frame) :
    Inv ⟨(ngTcpHandleLastAck w.stack a frame).2, w.owner⟩ := by
  unfold ngTcpHandleLastAck
  split
  · split
    · have closed := @Inv.setStream w inv a { w.stack.streams a with status := .closed } rfl
      refine closed.sub rfl (sockets_erase_stream w.stack a) ?_ inv.hosts
      intro o
      cases o with
      | host b => rfl
      | stream b => rfl
    · exact inv
  · exact inv

/-- A received segment keeps the descriptors. -/
theorem ngTcpProcess_inv {w : World} (inv : Inv w) {rteIpv4UdptcpCksum : Frame → UInt16}
    {mem : Nat → Bool} {seed : UInt32} {frame : Frame} {r : Int} {stack : Stack}
    (result : ngTcpProcess rteIpv4UdptcpCksum mem seed w.stack frame = some (r, stack)) :
    Inv ⟨stack, w.owner⟩ := by
  simp only [ngTcpProcess] at result
  split at result
  · exact inv.unchanged result
  · split at result
    · exact inv.unchanged result
    · rename_i a _
      cases status : (w.stack.streams a).status with
      | listen =>
        simp only [status, Option.map_eq_some_iff] at result
        obtain ⟨⟨answer, next⟩, handled, result⟩ := result
        injection result with _ result
        rw [← result]
        exact ngTcpHandleListen_inv inv handled
      | synRcvd =>
        simp only [status, Option.map_eq_some_iff] at result
        obtain ⟨⟨answer, next⟩, handled, result⟩ := result
        injection result with _ result
        rw [← result]
        exact ngTcpHandleSynRcvd_inv inv handled
      | established =>
        simp only [status, Option.map_eq_some_iff] at result
        obtain ⟨⟨answer, next⟩, handled, result⟩ := result
        injection result with _ result
        rw [← result]
        exact inv.setStream (ngTcpHandleEstablished_fd handled)
      | lastAck =>
        rw [status] at result
        have next := ngTcpHandleLastAck_inv inv a frame.clearCksum
        exact next.unchanged result
      | closed | synSent | finWait1 | finWait2 | closing | timeWait | closeWait =>
        rw [status] at result
        exact inv.unchanged result

/-- What `get_fd_frombitmap` answers is a place of the bitmap or `-1`; its bit is set
afterwards, and no bit has been cleared. -/
theorem getFdFrombitmap_facts (table : Nat → UInt8) :
    ((getFdFrombitmap table).1 = -1 ∨
      ∃ n : Nat, (getFdFrombitmap table).1 = n ∧ n < MAX_FD_COUNT) ∧
    (∀ n : Nat, (getFdFrombitmap table).1 = n →
      LowestFree table n ∧ fdBit (getFdFrombitmap table).2 n ≠ 0) ∧
    ∀ f, fdBit (getFdFrombitmap table).2 f = 0 → fdBit table f = 0 := by
  rcases getFdFrombitmap_spec table with ⟨fd, answer, lowest, bits⟩ | full
  · refine ⟨Or.inr ⟨fd, answer, lowest.2.1⟩, ?_, fun f clear => ((bits f).mp clear).2⟩
    intro n same
    have equal : fd = n := by omega
    rw [← equal]
    exact ⟨lowest, fun clear => ((bits fd).mp clear).1 rfl⟩
  · rw [full]
    refine ⟨Or.inl rfl, ?_, fun f clear => clear⟩
    intro n same
    have impossible : (-1 : Int) = n := same
    omega

/-- When no stream lingers, nobody has the descriptor that is given out. -/
theorem Inv.free {w : World} (inv : Inv w) (quiet : ¬ Lingers w.stack) {n : Nat}
    (lowest : LowestFree w.stack.fdTable n) : ∀ o ∈ w.stack.sockets, w.stack.fdOf o ≠ n := by
  intro o member has
  cases o with
  | host a => exact inv.hosts a (mem_sockets_host.mp member) n has lowest.2.2.1
  | stream a => exact quiet ⟨a, mem_sockets_stream.mp member, n, has, lowest⟩

/-- The descriptor is taken from the bitmap. -/
theorem Inv.taken {w : World} (inv : Inv w) :
    Inv ⟨{ w.stack with fdTable := (getFdFrombitmap w.stack.fdTable).2 }, w.owner⟩ := by
  apply inv.retable
  intro a member fd has clear
  exact inv.hosts a member fd has ((getFdFrombitmap_facts w.stack.fdTable).2.2 fd clear)

/-- The descriptor that is given out is free. -/
theorem Inv.free_taken {w : World} (inv : Inv w) (quiet : ¬ Lingers w.stack) :
    ∀ o ∈ w.stack.sockets, (getFdFrombitmap w.stack.fdTable).1 ≠ -1 →
      w.stack.fdOf o ≠ (getFdFrombitmap w.stack.fdTable).1 := by
  obtain ⟨place, given, _⟩ := getFdFrombitmap_facts w.stack.fdTable
  intro o member proper has
  obtain ⟨n, answer, _⟩ := place.resolve_left proper
  exact inv.free quiet (given n answer).1 o member (has.trans answer)

/-- The descriptor is given out for no socket. -/
theorem Inv.reserve {w : World} (inv : Inv w) {fd : Int}
    (free : ∀ o ∈ w.stack.sockets, fd ≠ -1 → w.stack.fdOf o ≠ fd) :
    Inv ⟨w.stack, returned w.owner fd none⟩ := by
  unfold returned
  by_cases missing : fd = -1
  · rw [if_pos missing]
    exact inv
  · rw [if_neg missing]
    refine ⟨?_, inv.below, ?_, inv.range, inv.hosts⟩
    · apply inv.naming.reserve
      intro o member taken
      exact free o member missing (named_eq_some.mp taken).1
    · intro n o last
      change Function.update w.owner fd none n = some o at last
      by_cases this : n = fd
      · rw [this, Function.update_self] at last
        cases last
      · rw [Function.update_of_ne this] at last
        exact inv.past n o last

/-- `nsocket` gives a free descriptor to the new socket. -/
theorem nsocket_inv {w : World} (inv : Inv w) {mem : Nat → Bool} {type : Int}
    (safe : Safe w.stack (.nsocket mem type)) :
    Inv ⟨(nsocket mem w.stack type).2,
      returned w.owner (nsocket mem w.stack type).1 (made w.stack type)⟩ := by
  obtain ⟨place, given, _⟩ := getFdFrombitmap_facts w.stack.fdTable
  have taken := inv.taken
  have failed : ∀ socket, returned w.owner (-1) socket = w.owner := fun _ => if_pos rfl
  unfold nsocket made
  by_cases dgram : type = SOCK_DGRAM
  · simp only [if_pos dgram]
    by_cases memory : mem 0 = true ∧ mem 1 = true ∧ mem 2 = true
    · have quiet : ¬ Lingers w.stack := safe fun _ => memory
      simp only [memory, Bool.and_self, if_true]
      exact taken.joinHost rfl place (inv.free_taken quiet) (fun n same => (given n same).2)
    · have refused : (mem 0 && mem 1 && mem 2) = false := by
        rw [← Bool.not_eq_true]
        simpa [and_assoc] using memory
      simp only [refused, Bool.false_eq_true, if_false, failed]
      exact taken
  · simp only [if_neg dgram]
    by_cases stream : type = SOCK_STREAM
    · simp only [if_pos stream]
      by_cases memory : mem 0 = true ∧ mem 1 = true ∧ mem 2 = true
      · have quiet : ¬ Lingers w.stack := safe fun _ => memory
        simp only [memory, Bool.and_self, if_true]
        exact taken.joinStream rfl place (inv.free_taken quiet)
      · have refused : (mem 0 && mem 1 && mem 2) = false := by
          rw [← Bool.not_eq_true]
          simpa [and_assoc] using memory
        simp only [refused, Bool.false_eq_true, if_false, failed]
        exact taken
    · simp only [if_neg stream]
      have quiet : ¬ Lingers w.stack := safe fun kind => absurd kind (by simp [dgram, stream])
      exact taken.reserve (inv.free_taken quiet)

/-- A stream without descriptor is given one that is free. -/
theorem Inv.give {w : World} (inv : Inv w) {a : Nat} {fd : Int} (member : a ∈ w.stack.tcbSet)
    (unnamed : (w.stack.streams a).fd = -1)
    (place : fd = -1 ∨ ∃ n : Nat, fd = n ∧ n < MAX_FD_COUNT)
    (free : ∀ o ∈ w.stack.sockets, fd ≠ -1 → w.stack.fdOf o ≠ fd) :
    Inv ⟨w.stack.setStream a { w.stack.streams a with fd := fd },
      returned w.owner fd (some (.stream a))⟩ := by
  by_cases missing : fd = -1
  · have unchanged : returned w.owner fd (some (.stream a)) = w.owner := if_pos missing
    rw [unchanged]
    exact inv.setStream (missing.trans unnamed.symm)
  · have changed : returned w.owner fd (some (.stream a)) =
        Function.update w.owner fd (some (.stream a)) := if_neg missing
    rw [changed]
    have here : (w.stack.setStream a { w.stack.streams a with fd := fd }).fdOf (.stream a) =
        fd := by
      simp only [Stack.fdOf, Stack.setStream_streams, Function.update_self]
    have other : ∀ o, o ≠ .stream a →
        (w.stack.setStream a { w.stack.streams a with fd := fd }).fdOf o = w.stack.fdOf o := by
      intro o different
      cases o with
      | host b => rfl
      | stream b =>
        apply congrArg NgTcpStream.fd
        apply Function.update_of_ne
        intro same
        exact different (congrArg Hostinfo.stream same)
    refine ⟨?_, inv.below, ?_, ?_, inv.hosts⟩
    · apply inv.naming.give
      · rw [Stack.name]
        exact if_pos unnamed
      · intro o member' taken
        exact free o member' missing (named_eq_some.mp taken).1
      · intro o _ different
        exact congrArg named (other o different)
      · exact named_eq_some.mpr ⟨here, missing⟩
    · intro n o last
      change Function.update w.owner fd (some (.stream a)) n = some o at last
      by_cases this : n = fd
      · rw [this, Function.update_self] at last
        rw [← Option.some.inj last]
        exact inv.below (.stream a) (mem_sockets_stream.mpr member)
      · rw [Function.update_of_ne this] at last
        exact inv.past n o last
    · intro o member'
      by_cases same : o = .stream a
      · rw [same]
        change (w.stack.setStream a _).fdOf (.stream a) = -1 ∨ ∃ n : Nat,
          (w.stack.setStream a _).fdOf (.stream a) = n ∧ n < MAX_FD_COUNT
        rw [here]
        exact place
      · change (w.stack.setStream a _).fdOf o = -1 ∨ ∃ n : Nat,
          (w.stack.setStream a _).fdOf o = n ∧ n < MAX_FD_COUNT
        rw [other o same]
        exact inv.range o member'

/-- `naccept` gives a free descriptor to the stream. -/
theorem naccept_inv {w : World} (inv : Inv w) {sockfd fd : Int}
    {peer : Option (UInt32 × UInt16)} {stack : Stack} (safe : Safe w.stack (.naccept sockfd))
    (result : naccept w.stack sockfd = some (fd, peer, stack)) :
    Inv ⟨stack, returned w.owner fd ((accepted w.stack sockfd).map .stream)⟩ := by
  have refused : some ((-1 : Int), (none : Option (UInt32 × UInt16)), w.stack) =
      some (fd, peer, stack) → ∀ socket, Inv ⟨stack, returned w.owner fd socket⟩ := by
    intro result socket
    injection result with result
    injection result with answer result
    injection result with _ result
    have unchanged : returned w.owner fd socket = w.owner := if_pos answer.symm
    rw [unchanged, ← result]
    exact inv
  unfold naccept at result
  cases found : getHostinfoFromfd w.stack sockfd with
  | none =>
    rw [found] at result
    exact refused result _
  | some o =>
    cases o with
    | host a =>
      rw [found] at result
      exact refused result _
    | stream a =>
      rw [found] at result
      simp only [Option.map_eq_some_iff] at result
      obtain ⟨apt, queued, result⟩ := result
      have this : accepted w.stack sockfd = some apt := by
        unfold accepted
        rw [found]
        exact queued
      have quiet : ¬ Lingers w.stack := safe (by rw [this]; exact Option.some_ne_none apt)
      have member := List.mem_of_find?_eq_some queued
      have test := List.find?_some queued
      have unnamed := (of_decide_eq_true test).2
      injection result with answer result
      injection result with _ result
      obtain ⟨place, _, bits⟩ := getFdFrombitmap_facts w.stack.fdTable
      have given := inv.give member unnamed place (inv.free_taken quiet)
      rw [this, ← answer, ← result]
      apply given.retable
      intro b member' n has clear
      exact inv.hosts b member' n has (bits n clear)

/-- Every safe call keeps the invariant. -/
theorem exec_inv {w next : World} (inv : Inv w) {rteIpv4UdptcpCksum : Frame → UInt16}
    {call : Call} (safe : Safe w.stack call) (done : w.exec rteIpv4UdptcpCksum call = some next) :
    Inv next := by
  cases call with
  | nsocket mem type =>
    rw [← Option.some.inj done]
    exact nsocket_inv inv safe
  | nbind sockfd sinAddr sinPort =>
    rw [← Option.some.inj done]
    exact nbind_inv inv sockfd sinAddr sinPort
  | nlisten sockfd =>
    rw [← Option.some.inj done]
    exact nlisten_inv inv sockfd
  | naccept sockfd =>
    simp only [World.exec, Option.map_eq_some_iff, Prod.exists] at done
    obtain ⟨fd, peer, stack, result, same⟩ := done
    rw [← same]
    exact naccept_inv inv safe result
  | nclose memory fd =>
    simp only [World.exec, Option.map_eq_some_iff, Prod.exists] at done
    obtain ⟨r, stack, result, same⟩ := done
    rw [← same]
    exact nclose_inv inv result
  | ngTcpProcess mem seed frame =>
    simp only [World.exec, Option.map_eq_some_iff, Prod.exists] at done
    obtain ⟨r, stack, result, same⟩ := done
    rw [← same]
    exact ngTcpProcess_inv inv result

/-- The program begins without sockets. -/
theorem initial_inv (hosts : Nat → Localhost) (streams : Nat → NgTcpStream)
    (gSrcMac : List UInt8) : Inv (World.initial hosts streams gSrcMac) := by
  refine ⟨Naming.nil, ?_, ?_, ?_, ?_⟩
  · intro o member
    cases member
  · intro fd o last
    cases last
  · intro o member
    cases member
  · intro a member
    cases member

/-- When descriptors are unambiguous, sockets with the same one are the same. -/
theorem Unambiguous.eq_of_fd {w : World} (clear : Unambiguous w) {o o' : Hostinfo}
    (member : o ∈ w.stack.sockets) (member' : o' ∈ w.stack.sockets) {n : Nat}
    (has : w.stack.fdOf o = n) (has' : w.stack.fdOf o' = n) : o = o' := by
  have proper : (n : Int) ≠ -1 := by omega
  by_contra different
  have symmetric : Std.Symm fun o o' =>
      w.stack.fdOf o = w.stack.fdOf o' → w.stack.fdOf o = -1 := by
    refine ⟨?_⟩
    intro one other implies same
    rw [same]
    exact implies same.symm
  have missing := clear.1.forall member member' different (has.trans has'.symm)
  exact proper (has.symm.trans missing)

/-- `get_fd_frombitmap` answers with the lowest free descriptor. -/
theorem getFdFrombitmap_lowest {table : Nat → UInt8} {n : Nat} (lowest : LowestFree table n) :
    (getFdFrombitmap table).1 = n := by
  rcases getFdFrombitmap_spec table with ⟨fd, answer, first, _⟩ | full
  · rw [answer, first.unique lowest]
  · exfalso
    unfold getFdFrombitmap at full
    split at full
    · have impossible := congrArg Prod.fst full
      simp at impossible
    · rename_i none
      rw [List.find?_eq_none] at none
      have inside : n ∈ List.range' DEFAULT_FD_NUM (MAX_FD_COUNT - DEFAULT_FD_NUM) := by
        rw [List.mem_range'_1]
        have bounds := lowest.1
        have above := lowest.2.1
        unfold DEFAULT_FD_NUM MAX_FD_COUNT at *
        omega
      have taken := none n inside
      simp [lowest.2.2.1] at taken

/-- A new socket with the descriptor of a stream that stays makes it ambiguous. -/
theorem not_unambiguous {next : World} {o : Hostinfo} {a : Nat} (n : Nat)
    (member : o ∈ next.stack.sockets) (has : next.stack.fdOf o = n) (lingering : a ∈ next.stack.tcbSet)
    (has' : (next.stack.streams a).fd = n) (different : o ≠ .stream a) : ¬ Unambiguous next := by
  intro clear
  exact different (clear.eq_of_fd member (mem_sockets_stream.mpr lingering) has has')

/-- A descriptor that is given out while a stream lingers on it is ambiguous. -/
theorem nsocket_unsafe {w : World} (inv : Inv w) {mem : Nat → Bool} {type : Int}
    (memory : type = SOCK_DGRAM ∨ type = SOCK_STREAM →
      mem 0 = true ∧ mem 1 = true ∧ mem 2 = true)
    (lingers : Lingers w.stack) :
    ¬ Unambiguous ⟨(nsocket mem w.stack type).2,
      returned w.owner (nsocket mem w.stack type).1 (made w.stack type)⟩ := by
  obtain ⟨a, member, n, has, lowest⟩ := lingers
  have answer := getFdFrombitmap_lowest lowest
  have below : a < w.stack.fresh := inv.below (.stream a) (mem_sockets_stream.mpr member)
  unfold nsocket made
  by_cases dgram : type = SOCK_DGRAM
  · obtain ⟨first, second, third⟩ := memory (Or.inl dgram)
    simp only [if_pos dgram, first, second, third, Bool.and_self, if_true]
    refine not_unambiguous n (mem_sockets_host.mpr List.mem_cons_self) ?_ member has ?_
    · simp only [Stack.fdOf, Stack.setHost, Function.update_self]
      exact answer
    · intro same
      cases same
  · simp only [if_neg dgram]
    by_cases stream : type = SOCK_STREAM
    · obtain ⟨first, second, third⟩ := memory (Or.inr stream)
      simp only [if_pos stream, first, second, third, Bool.and_self, if_true]
      refine not_unambiguous n (mem_sockets_stream.mpr List.mem_cons_self) ?_
        (List.mem_cons_of_mem _ member) ?_ ?_
      · simp only [Stack.fdOf, Stack.setStream, Function.update_self]
        exact answer
      · simp only [Stack.setStream]
        rw [Function.update_of_ne (by omega)]
        exact has
      · intro same
        injection same with same
        omega
    · simp only [if_neg stream]
      intro clear
      have proper : (n : Int) ≠ -1 := by omega
      rw [answer, returned, if_neg proper] at clear
      cases found : getHostinfoFromfd
          { w.stack with fdTable := (getFdFrombitmap w.stack.fdTable).2 } n with
      | none =>
        rw [getHostinfoFromfd_eq_find, List.find?_eq_none] at found
        have absent := found (.stream a) (mem_sockets_stream.mpr member)
        exact absent (decide_eq_true has)
      | some o =>
        have last := ((clear.2 n proper o).mp found).1
        change Function.update w.owner (n : Int) none n = some o at last
        rw [Function.update_self] at last
        cases last

/-- `naccept` is no better. -/
theorem naccept_unsafe {w : World} {sockfd fd : Int} {peer : Option (UInt32 × UInt16)}
    {stack : Stack} {apt : Nat} (this : accepted w.stack sockfd = some apt)
    (lingers : Lingers w.stack) (result : naccept w.stack sockfd = some (fd, peer, stack))
    (owner : Int → Option Hostinfo) : ¬ Unambiguous ⟨stack, owner⟩ := by
  obtain ⟨a, member, n, has, lowest⟩ := lingers
  have answer := getFdFrombitmap_lowest lowest
  unfold accepted at this
  unfold naccept at result
  cases found : getHostinfoFromfd w.stack sockfd with
  | none =>
    rw [found] at this
    cases this
  | some o =>
    cases o with
    | host b =>
      rw [found] at this
      cases this
    | stream b =>
      simp only [found] at this
      simp only [found, this, Option.map_some] at result
      injection result with result
      injection result with _ result
      injection result with _ result
      have listed := List.mem_of_find?_eq_some this
      have test := List.find?_some this
      have unnamed := (of_decide_eq_true test).2
      have different : a ≠ apt := by
        intro same
        rw [same, unnamed] at has
        omega
      rw [← result]
      refine not_unambiguous n (mem_sockets_stream.mpr listed) ?_ member ?_ ?_
      · simp only [Stack.fdOf, Stack.setStream, Function.update_self]
        exact answer
      · simp only [Stack.setStream]
        rw [Function.update_of_ne different]
        exact has
      · intro same
        injection same with same
        exact different same.symm

/-- From a good state, a call leads to unambiguous descriptors exactly when it is safe. -/
theorem exec_unambiguous_iff {w next : World} (inv : Inv w)
    {rteIpv4UdptcpCksum : Frame → UInt16} {call : Call}
    (done : w.exec rteIpv4UdptcpCksum call = some next) :
    Unambiguous next ↔ Safe w.stack call := by
  constructor
  · intro clear
    cases call with
    | nsocket mem type =>
      intro memory lingers
      rw [← Option.some.inj done] at clear
      exact nsocket_unsafe inv memory lingers clear
    | naccept sockfd =>
      intro accepts lingers
      obtain ⟨apt, this⟩ := Option.ne_none_iff_exists'.mp accepts
      simp only [World.exec, Option.map_eq_some_iff, Prod.exists] at done
      obtain ⟨fd, peer, stack, result, same⟩ := done
      rw [← same] at clear
      exact naccept_unsafe this lingers result _ clear
    | nbind _ _ _ | nlisten _ | nclose _ _ | ngTcpProcess _ _ _ => trivial
  · intro safe
    exact (exec_inv inv safe done).unambiguous

/-- In every run of safe calls descriptors are unambiguous; and they stay so after a further
call exactly when that call is safe. -/
theorem run_unambiguous {rteIpv4UdptcpCksum : Frame → UInt16} {hosts : Nat → Localhost}
    {streams : Nat → NgTcpStream} {gSrcMac : List UInt8} {trace : List Call} {w : World}
    (run : Run (fun w call next => w.exec rteIpv4UdptcpCksum call = some next ∧
      Safe w.stack call) (World.initial hosts streams gSrcMac) trace w) :
    Unambiguous w ∧ ∀ call next, w.exec rteIpv4UdptcpCksum call = some next →
      (Unambiguous next ↔ Safe w.stack call) := by
  have inv : Inv w := by
    apply run.invariant Inv (initial_inv hosts streams gSrcMac)
    intro state call next inv taken
    exact exec_inv inv taken.2 taken.1
  exact ⟨inv.unambiguous, fun call next => exec_unambiguous_iff inv⟩

/-- The world in which the runs below begin. -/
def blank : World :=
  World.initial (fun _ => Localhost.zero) (fun _ => NgTcpStream.zero) (List.replicate 6 0)

/-- The first socket has descriptor 3. -/
theorem run_unambiguous_first : ∃ trace w,
    Run (fun w call next => w.exec (fun _ => 0) call = some next ∧ Safe w.stack call) blank trace
      w ∧
    Unambiguous w ∧ getHostinfoFromfd w.stack 3 = some (.stream 0) := by
  have safe : Safe blank.stack (.nsocket (fun _ => true) SOCK_STREAM) := by
    intro _ lingers
    obtain ⟨a, member, _⟩ := lingers
    cases member
  have run : Run (fun w call next => w.exec (fun _ => 0) call = some next ∧ Safe w.stack call)
      blank _ _ := Run.snoc Run.nil ⟨rfl, safe⟩
  exact ⟨_, _, run, (run_unambiguous run).1, by decide⟩

/-- A socket is opened and closed; the next one gets its descriptor while it is still on
`tcb_set`. -/
theorem run_ambiguous : ∃ trace w,
    Run (fun w call next => w.exec (fun _ => 0) call = some next) blank trace w ∧
    ¬ Unambiguous w := by
  have opened : Run (fun w call next => w.exec (fun _ => 0) call = some next) blank
      [.nsocket (fun _ => true) SOCK_STREAM] _ := Run.snoc Run.nil rfl
  have closed : Run (fun w call next => w.exec (fun _ => 0) call = some next) blank
      [.nsocket (fun _ => true) SOCK_STREAM, .nclose (some NgTcpFragment.zero) 3] _ :=
    Run.snoc opened rfl
  have reopened : Run (fun w call next => w.exec (fun _ => 0) call = some next) blank
      [.nsocket (fun _ => true) SOCK_STREAM, .nclose (some NgTcpFragment.zero) 3,
        .nsocket (fun _ => true) SOCK_DGRAM] _ := Run.snoc closed rfl
  refine ⟨_, _, reopened, ?_⟩
  exact @not_unambiguous _ (.host 1) 0 3 (by decide) (by decide) (by decide) (by decide)
    (by decide)

end BackendCpp.Tcp
