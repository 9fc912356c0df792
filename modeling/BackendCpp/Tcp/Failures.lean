import BackendCpp.Tcp.Descriptors
import BackendCpp.Tcp.Transitions

/-!
# What failures leave behind

`nsocket` takes a descriptor before it knows that it has memory, and never looks whether there
was one to take; `ng_tcp_handle_listen` links the new stream before it has the fragment to answer
with. `ng_tcp_handle_established` ignores what became of the payload: it counts and acknowledges
it in any case. Each statement below says when the failure leaves nothing behind.
-/

namespace BackendCpp.Tcp

/-- Some descriptor is free. -/
def HasFreeFd (table : Nat → UInt8) : Prop :=
  ∃ fd, DEFAULT_FD_NUM ≤ fd ∧ fd < MAX_FD_COUNT ∧ fdBit table fd = 0

/-- A free descriptor is a lowest one or there is a lower one. -/
theorem HasFreeFd.lowest {table : Nat → UInt8} (free : HasFreeFd table) :
    ∃ fd, LowestFree table fd := by
  classical
  refine ⟨Nat.find free, (Nat.find_spec free).1, (Nat.find_spec free).2.1,
    (Nat.find_spec free).2.2, ?_⟩
  intro lower above below clear
  exact Nat.find_min free below ⟨above, below.trans (Nat.find_spec free).2.1, clear⟩

/-- When a descriptor is free, `get_fd_frombitmap` gives one out and marks the table. -/
theorem HasFreeFd.getFdFrombitmap {table : Nat → UInt8} (free : HasFreeFd table) :
    (getFdFrombitmap table).1 ≠ -1 ∧ (getFdFrombitmap table).2 ≠ table := by
  obtain ⟨fd, lowest⟩ := free.lowest
  have answer := getFdFrombitmap_lowest lowest
  have marked := ((getFdFrombitmap_facts table).2.1 fd answer).2
  constructor
  · rw [answer]
    omega
  · intro same
    rw [same] at marked
    exact marked lowest.2.2.1

/-- When none is free, it answers `-1` and leaves the table. -/
theorem getFdFrombitmap_full {table : Nat → UInt8} (full : ¬ HasFreeFd table) :
    getFdFrombitmap table = (-1, table) := by
  rcases getFdFrombitmap_spec table with ⟨fd, _, lowest, _⟩ | refused
  · exact absurd ⟨fd, lowest.1, lowest.2.1, lowest.2.2.1⟩ full
  · exact refused

/-- If `nsocket` fails, `fd_table`, `lhost` and `tcb_set` are as before. -/
def NsocketUndone (mem : Nat → Bool) (w : Stack) (type : Int) : Prop :=
  (nsocket mem w type).1 = -1 →
    (nsocket mem w type).2.fdTable = w.fdTable ∧ (nsocket mem w type).2.lhost = w.lhost ∧
    (nsocket mem w type).2.tcbSet = w.tcbSet

/-- If `ng_tcp_handle_listen` fails, `tcb_set` is as before. -/
def ListenUndone (mem : Nat → Bool) (seed : UInt32) (w : Stack) (stream : Nat) (frame : Frame) :
    Prop :=
  ∀ next, ngTcpHandleListen mem seed w stream frame = some (-1, next) → next.tcbSet = w.tcbSet

/-- `nsocket` for a type that makes a socket: the descriptor and the lists it leaves. -/
theorem nsocket_made {mem : Nat → Bool} {w : Stack} {type : Int}
    (kind : type = SOCK_DGRAM ∨ type = SOCK_STREAM) :
    (nsocket mem w type).2.fdTable = (getFdFrombitmap w.fdTable).2 ∧
    ((mem 0 && mem 1 && mem 2) = true →
      (nsocket mem w type).1 = (getFdFrombitmap w.fdTable).1 ∧
      ((nsocket mem w type).2.lhost ≠ w.lhost ∨ (nsocket mem w type).2.tcbSet ≠ w.tcbSet)) ∧
    ((mem 0 && mem 1 && mem 2) = false →
      (nsocket mem w type).1 = -1 ∧ (nsocket mem w type).2.lhost = w.lhost ∧
      (nsocket mem w type).2.tcbSet = w.tcbSet) := by
  have longer : ∀ list : List Nat, w.fresh :: list ≠ list := fun list => List.cons_ne_self _ _
  rcases kind with dgram | stream
  · rw [dgram]
    unfold nsocket
    cases mem 0 && mem 1 && mem 2
    · refine ⟨rfl, ?_, ?_⟩
      · exact fun present => Bool.noConfusion present
      · exact fun _ => ⟨rfl, rfl, rfl⟩
    · refine ⟨rfl, ?_, ?_⟩
      · exact fun _ => ⟨rfl, Or.inl (longer w.lhost)⟩
      · exact fun absent => Bool.noConfusion absent
  · have other : ¬ SOCK_STREAM = SOCK_DGRAM := by decide
    rw [stream]
    unfold nsocket
    simp only [if_neg other]
    cases mem 0 && mem 1 && mem 2
    · refine ⟨rfl, ?_, ?_⟩
      · exact fun present => Bool.noConfusion present
      · exact fun _ => ⟨rfl, rfl, rfl⟩
    · refine ⟨rfl, ?_, ?_⟩
      · exact fun _ => ⟨rfl, Or.inr (longer w.tcbSet)⟩
      · exact fun absent => Bool.noConfusion absent

/-- A failed `nsocket` leaves nothing behind just when it makes no socket, or has memory and a
descriptor, or has neither. -/
theorem nsocketUndone_iff (mem : Nat → Bool) (w : Stack) (type : Int) :
    NsocketUndone mem w type ↔
      (type ≠ SOCK_DGRAM ∧ type ≠ SOCK_STREAM) ∨
      ((mem 0 && mem 1 && mem 2) = true ↔ HasFreeFd w.fdTable) := by
  unfold NsocketUndone
  by_cases kind : type = SOCK_DGRAM ∨ type = SOCK_STREAM
  · obtain ⟨table, made, refused⟩ := @nsocket_made mem w type kind
    rw [not_or.symm, or_iff_right (not_not_intro kind)]
    cases memory : mem 0 && mem 1 && mem 2
    · obtain ⟨answer, lhost, tcbSet⟩ := refused memory
      rw [table]
      constructor
      · intro undone
        refine ⟨fun present => Bool.noConfusion present, fun free => ?_⟩
        exact absurd (undone answer).1 free.getFdFrombitmap.2
      · intro agree _
        have full : ¬ HasFreeFd w.fdTable := fun free => Bool.noConfusion (agree.mpr free)
        exact ⟨by rw [getFdFrombitmap_full full], lhost, tcbSet⟩
    · obtain ⟨answer, changed⟩ := made memory
      rw [answer]
      constructor
      · intro undone
        refine ⟨fun _ => ?_, fun _ => rfl⟩
        by_contra full
        have kept := undone (by rw [getFdFrombitmap_full full])
        exact changed.elim (fun lhost => lhost kept.2.1) fun tcbSet => tcbSet kept.2.2
      · intro agree failed
        exact absurd failed (agree.mp rfl).getFdFrombitmap.1
  · rw [not_or] at kind
    constructor
    · exact fun _ => Or.inl kind
    · intro _
      have unmade : nsocket mem w type = ((getFdFrombitmap w.fdTable).1,
          { w with fdTable := (getFdFrombitmap w.fdTable).2 }) := by
        unfold nsocket
        simp only [if_neg kind.1, if_neg kind.2]
      rw [unmade]
      intro failed
      have full : ¬ HasFreeFd w.fdTable := fun free => free.getFdFrombitmap.1 failed
      exact ⟨by rw [getFdFrombitmap_full full], rfl, rfl⟩

/-- The connection requests that `ng_tcp_handle_listen` gives up after it has linked the
stream. -/
def Abandoned (mem : Nat → Bool) (w : Stack) (stream : Nat) (frame : Frame) : Prop :=
  frame.has RTE_TCP_SYN_FLAG = true ∧ (w.streams stream).status = .listen ∧
  mem 0 = true ∧ mem 3 = false

/-- A failed `ng_tcp_handle_listen` leaves nothing behind just when it does not fail for want of
the fragment. -/
theorem listenUndone_iff (mem : Nat → Bool) (seed : UInt32) (w : Stack) (stream : Nat)
    (frame : Frame) :
    ListenUndone mem seed w stream frame ↔ ¬ Abandoned mem w stream frame := by
  unfold ListenUndone Abandoned ngTcpHandleListen
  constructor
  · rintro undone ⟨syn, listens, memory, failed⟩
    simp only [syn, listens, ngTcpStreamCreate, memory, failed, if_true, Option.bind_some,
      Bool.false_eq_true, if_false] at undone
    exact List.cons_ne_self _ _ (undone _ rfl)
  · intro abandoned next failed
    split at failed
    · rename_i syn
      split at failed
      · rename_i listens
        rw [Option.bind_eq_some_iff] at failed
        obtain ⟨created, create, failed⟩ := failed
        have memory : mem 0 = true := by
          by_contra missing
          simp [ngTcpStreamCreate, missing] at create
        split at failed
        · rw [Option.map_eq_some_iff] at failed
          obtain ⟨ring, _, answer⟩ := failed
          have impossible := congrArg Prod.fst answer
          simp at impossible
        · rename_i refused
          exact absurd ⟨syn, listens, memory, Bool.not_eq_true _ ▸ refused⟩ abandoned
      · have impossible := congrArg Prod.fst (Option.some.inj failed)
        simp at impossible
    · have impossible := congrArg Prod.fst (Option.some.inj failed)
      simp at impossible

/-- When failed socket operations leave no trace. -/
theorem failure_leaves_no_trace (mem : Nat → Bool) (seed : UInt32) (w : Stack) (type : Int)
    (stream : Nat) (frame : Frame) :
    (NsocketUndone mem w type ↔
      (type ≠ SOCK_DGRAM ∧ type ≠ SOCK_STREAM) ∨
      ((mem 0 && mem 1 && mem 2) = true ↔ HasFreeFd w.fdTable)) ∧
    (ListenUndone mem seed w stream frame ↔ ¬ Abandoned mem w stream frame) :=
  ⟨nsocketUndone_iff mem w type, listenUndone_iff mem seed w stream frame⟩

/-- Without memory the first `nsocket` fails with its descriptor taken. -/
theorem nsocket_leaves_descriptor :
    (nsocket (fun _ => false) blank.stack SOCK_STREAM).1 = -1 ∧
    fdBit blank.stack.fdTable 3 = 0 ∧
    fdBit (nsocket (fun _ => false) blank.stack SOCK_STREAM).2.fdTable 3 ≠ 0 := by
  decide

end BackendCpp.Tcp
