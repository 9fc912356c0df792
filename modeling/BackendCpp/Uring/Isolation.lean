import BackendCpp.Library.Run
import BackendCpp.Uring.Program

/-!
# Which bytes reach which client

A receive whose completion is still to be handled, and a send that is not performed yet, both
rely on `buffer`: they occupy it. As long as the kernel writes to the buffer only when nobody
occupies it, sends go out in full, and no completion is released before it is handled, what is
sent to a descriptor is what was received from it, in order.
-/

namespace BackendCpp.Uring

open BackendCpp.Library

/-- The descriptor and the number of bytes for which a completion occupies the buffer. -/
def Completion.occupant (cqe : Completion) : Option (Int × Nat) :=
  if cqe.event = .read ∧ cqe.res > 0 then some (cqe.connfd, cqe.res.toNat) else none

/-- The descriptor and the number of bytes for which a request occupies the buffer. -/
def Request.occupant : Request → Option (Int × Nat)
  | .send sockfd len => some (sockfd, len)
  | _ => none

/-- The completions still to be handled: those not released, and once the batch is released what
is left of it. -/
def State.pending (state : State) : List Completion :=
  match state.control with
  | .processing rest _ base =>
    if state.head = base then state.completions.drop state.head
    else rest ++ state.completions.drop state.head
  | _ => state.completions.drop state.head

/-- Who occupies the buffer. -/
def State.occupants (state : State) : List (Int × Nat) :=
  state.pending.filterMap Completion.occupant ++
    (state.prepared ++ state.flight).filterMap Request.occupant

/-- Nothing of the batch in hand has been released. -/
def State.Unreleased (state : State) : Prop :=
  ∀ rest cqecount base, state.control = .processing rest cqecount base → state.head = base

/-- The condition on a step: the kernel writes to the buffer only when nobody occupies it, sends
are performed in full, and no completion is handled after its batch has been released. -/
def Undisturbed (state : State) : Event → Prop
  | .received _ data => data = [] ∨ state.occupants = []
  | .sent _ len count => count = len
  | .performed (.send _ _) _ => False
  | .handled _ => state.Unreleased
  | _ => True

/-- A step that meets the condition. -/
def CalmStep (state : State) (event : Event) (next : State) : Prop :=
  Undisturbed state event ∧ Step state event next

/-- What is owed: the bytes received and not sent yet are those in the buffer, for the one
descriptor that occupies it. -/
def Owed (state : State) : Prop :=
  (state.occupants = [] ∧ ∀ fd, state.received fd = state.sent fd) ∨
  ∃ fd len, state.occupants = [(fd, len)] ∧
    state.received fd = state.sent fd ++ state.buffer.take len ∧
    ∀ other, other ≠ fd → state.received other = state.sent other

/-- The batch in hand: either it is not released and what came before `rest` was skipped, or it
is released as a whole. -/
def Batched (state : State) : Prop :=
  ∀ rest cqecount base, state.control = .processing rest cqecount base →
    (state.head = base ∧ cqecount ≤ (state.completions.drop base).length ∧
      ∃ skipped, (state.completions.drop base).take cqecount = skipped ++ rest ∧
        skipped.filterMap Completion.occupant = []) ∨
    (state.head = base + cqecount ∧ 0 < cqecount)

/-- The invariant of calm runs. -/
structure Isolated (state : State) : Prop where
  /-- Only completions that exist have been released. -/
  inside : state.head ≤ state.completions.length
  /-- The batch in hand. -/
  batched : Batched state
  /-- What is owed. -/
  owed : Owed state

variable {state : State}

/-- What is owed depends on the occupants up to their order. -/
theorem Owed.perm {next : State} (owed : Owed state)
    (occupants : next.occupants.Perm state.occupants) (buffer : next.buffer = state.buffer)
    (received : next.received = state.received) (sent : next.sent = state.sent) : Owed next := by
  rw [Owed, buffer, received, sent]
  cases owed with
  | inl idle =>
    rw [idle.1] at occupants
    exact .inl ⟨List.perm_nil.mp occupants, idle.2⟩
  | inr busy =>
    obtain ⟨fd, len, one, rest⟩ := busy
    rw [one] at occupants
    exact .inr ⟨fd, len, List.perm_singleton.mp occupants, rest⟩

/-- A completion that is skipped occupies nothing. -/
theorem occupant_skipped {cqe : Completion} (nothing : requests cqe = none) :
    cqe.occupant = none := by
  rw [Completion.occupant]
  cases kind : cqe.event with
  | accept => rfl
  | read =>
    simp only [requests, kind] at nothing
    split at nothing <;> cases nothing
  | write =>
    simp only [requests, kind] at nothing
    cases nothing

/-- A completion that is handled hands its place in the buffer to the requests prepared for it. -/
theorem occupant_handled {cqe : Completion} {new : List Request}
    (prepared : requests cqe = some new) :
    new.filterMap Request.occupant = cqe.occupant.toList := by
  rw [Completion.occupant]
  cases kind : cqe.event with
  | accept =>
    simp only [requests, kind] at prepared
    split at prepared
    · cases prepared
    · rw [← Option.some.inj prepared]
      rfl
  | read =>
    simp only [requests, kind] at prepared
    by_cases positive : cqe.res > 0
    · rw [if_pos positive] at prepared
      rw [← Option.some.inj prepared, if_pos ⟨rfl, positive⟩]
      rfl
    · rw [if_neg positive] at prepared
      rw [← Option.some.inj prepared, if_neg (fun both => positive both.2)]
      rfl
  | write =>
    simp only [requests, kind] at prepared
    rw [← Option.some.inj prepared]
    rfl

/-- The completions still to be handled when one more arrives. -/
theorem pending_complete (isolated : Isolated state) (flight : List Request) (request : Request)
    (res : Int) :
    (state.complete flight request res).pending = state.pending ++ [request.completion res] := by
  have shorter : (state.completions ++ [request.completion res]).drop state.head =
      state.completions.drop state.head ++ [request.completion res] :=
    List.drop_append_of_le_length isolated.inside
  simp only [State.pending, State.complete, shorter]
  cases state.control with
  | submitting => rfl
  | waiting => rfl
  | processing rest cqecount base =>
    by_cases same : state.head = base
    · simp only [if_pos same]
    · simp only [if_neg same, List.append_assoc]

/-- The batch in hand when a completion arrives. -/
theorem Isolated.batched_complete (isolated : Isolated state) (flight : List Request)
    (request : Request) (res : Int) : Batched (state.complete flight request res) := by
  intro rest cqecount base control
  cases isolated.batched rest cqecount base control with
  | inl open' =>
    obtain ⟨same, enough, skipped, split, idle⟩ := open'
    have inside := isolated.inside
    rw [same] at inside
    have shorter : (state.complete flight request res).completions.drop base =
        state.completions.drop base ++ [request.completion res] :=
      List.drop_append_of_le_length inside
    refine .inl ⟨same, ?_, skipped, ?_, idle⟩
    · rw [shorter, List.length_append]
      omega
    · rw [shorter, List.take_append_of_le_length enough]
      exact split
  | inr released => exact .inr released

/-- The occupants after the kernel has performed a request. -/
theorem occupants_complete (isolated : Isolated state) {before after : List Request}
    {request : Request} (flight : state.flight = before ++ request :: after) (res : Int) :
    state.occupants.Perm (state.pending.filterMap Completion.occupant ++
        (state.prepared ++ (before ++ after)).filterMap Request.occupant ++
        request.occupant.toList) ∧
      (state.complete (before ++ after) request res).occupants.Perm
        (state.pending.filterMap Completion.occupant ++
          (state.prepared ++ (before ++ after)).filterMap Request.occupant ++
          (request.completion res).occupant.toList) := by
  constructor
  · have moved : (state.prepared ++ state.flight).Perm
        ((state.prepared ++ (before ++ after)) ++ [request]) := by
      rw [flight, List.append_assoc]
      apply List.Perm.append_left
      exact List.perm_middle.trans (List.perm_append_singleton _ _).symm
    have mapped := moved.filterMap Request.occupant
    rw [List.filterMap_append (l := _ ++ _)] at mapped
    rw [State.occupants, List.append_assoc]
    apply List.Perm.append_left
    cases owner : request.occupant with
    | none => simpa [owner] using mapped
    | some owner' => simpa [owner] using mapped
  · rw [State.occupants, pending_complete isolated, List.filterMap_append, List.append_assoc,
      List.append_assoc]
    apply List.Perm.append_left
    change (_ ++ (state.prepared ++ (before ++ after)).filterMap Request.occupant).Perm _
    have single : [request.completion res].filterMap Completion.occupant =
        (request.completion res).occupant.toList := by
      cases owner : (request.completion res).occupant with
      | none => simp [owner]
      | some owner' => simp [owner]
    rw [single]
    exact List.perm_append_comm

/-- A request without a place in the buffer whose completion has none either. -/
theorem Isolated.complete_idle (isolated : Isolated state) {before after : List Request}
    {request : Request} (flight : state.flight = before ++ request :: after) {res : Int}
    (free : request.occupant = none) (idle : (request.completion res).occupant = none) :
    Isolated (state.complete (before ++ after) request res) := by
  obtain ⟨old, new⟩ := occupants_complete isolated flight res
  rw [free] at old
  rw [idle] at new
  refine ⟨?_, isolated.batched_complete _ _ _, ?_⟩
  · change state.head ≤ (state.completions ++ [_]).length
    rw [List.length_append]
    exact le_trans isolated.inside (Nat.le_add_right _ _)
  · exact isolated.owed.perm (new.trans old.symm) rfl rfl rfl

/-- A receive. -/
theorem Isolated.recv (isolated : Isolated state) {before after : List Request} {sockfd : Int}
    {len : Nat} {data : List UInt8} (flight : state.flight = before ++ .recv sockfd len :: after)
    (alone : data = [] ∨ state.occupants = []) :
    Isolated { state.complete (before ++ after) (.recv sockfd len) data.length with
      buffer := data ++ state.buffer.drop data.length
      received := Function.update state.received sockfd (state.received sockfd ++ data) } := by
  have inside : state.head ≤ (state.completions ++
      [(Request.recv sockfd len).completion data.length]).length := by
    rw [List.length_append]
    exact le_trans isolated.inside (Nat.le_add_right _ _)
  by_cases nothing : data = []
  · subst nothing
    have same := @Isolated.complete_idle state isolated _ _ _ flight 0 rfl rfl
    have unchanged : Function.update state.received sockfd (state.received sockfd ++ []) =
        state.received := by
      rw [List.append_nil, Function.update_eq_self]
    rw [unchanged]
    exact same
  · have empty : state.occupants = [] := alone.resolve_left nothing
    refine ⟨inside, isolated.batched_complete (before ++ after) (.recv sockfd len) data.length, ?_⟩
    obtain ⟨old, new⟩ := occupants_complete isolated flight (data.length : Int)
    rw [empty] at old
    have rest := List.append_eq_nil_iff.mp (List.nil_perm.mp old)
    have occupies : ((Request.recv sockfd len).completion data.length).occupant =
        some (sockfd, data.length) := by
      have positive : 0 < data.length := List.length_pos_of_ne_nil nothing
      rw [Completion.occupant, if_pos]
      · rfl
      · refine ⟨rfl, ?_⟩
        change (0 : Int) < (data.length : Int)
        exact Int.natCast_pos.mpr positive
    rw [rest.1, occupies] at new
    cases isolated.owed with
    | inr busy =>
      obtain ⟨fd, n, one, _⟩ := busy
      rw [empty] at one
      cases one
    | inl idle =>
      refine .inr ⟨sockfd, data.length, List.perm_singleton.mp new, ?_, ?_⟩
      · change Function.update state.received sockfd _ sockfd =
          state.sent sockfd ++ (data ++ state.buffer.drop data.length).take data.length
        rw [Function.update_self, List.take_left, idle.2 sockfd]
      · intro other differs
        change Function.update state.received sockfd _ other = state.sent other
        rw [Function.update_of_ne differs]
        exact idle.2 other

/-- A send of everything that was asked for. -/
theorem Isolated.send (isolated : Isolated state) {before after : List Request} {sockfd : Int}
    {len : Nat} (flight : state.flight = before ++ .send sockfd len :: after) :
    Isolated { state.complete (before ++ after) (.send sockfd len) len with
      sent := Function.update state.sent sockfd
        (state.sent sockfd ++ state.buffer.take len) } := by
  have inside : state.head ≤ (state.completions ++
      [(Request.send sockfd len).completion len]).length := by
    rw [List.length_append]
    exact le_trans isolated.inside (Nat.le_add_right _ _)
  refine ⟨inside, isolated.batched_complete (before ++ after) (.send sockfd len) len, ?_⟩
  obtain ⟨old, new⟩ := occupants_complete isolated flight (len : Int)
  change state.occupants.Perm (_ ++ [(sockfd, len)]) at old
  cases isolated.owed with
  | inl idle =>
    rw [idle.1] at old
    have none := List.append_eq_nil_iff.mp (List.nil_perm.mp old)
    cases none.2
  | inr busy =>
    obtain ⟨fd, n, one, mine, others⟩ := busy
    rw [one] at old
    have whole := List.perm_singleton.mp old.symm
    have rest := List.append_eq_singleton_iff.mp whole
    obtain ⟨empty, pair⟩ : (state.pending.filterMap Completion.occupant ++
        (state.prepared ++ (before ++ after)).filterMap Request.occupant) = [] ∧
        [(sockfd, len)] = [(fd, n)] := by
      cases rest with
      | inl both => exact both
      | inr both => cases both.2
    cases pair
    rw [empty] at new
    refine .inl ⟨List.perm_nil.mp new, ?_⟩
    intro other
    change state.received other = Function.update state.sent sockfd _ other
    by_cases here : other = sockfd
    · rw [here, Function.update_self]
      exact mine
    · rw [Function.update_of_ne here]
      exact others other here

/-- Handling a completion of a batch that is not released. -/
theorem Isolated.handle (isolated : Isolated state) {cqe : Completion} {rest : List Completion}
    {cqecount base : Nat} {new : List Request}
    (control : state.control = .processing (cqe :: rest) cqecount base)
    (prepared : requests cqe = some new) (unreleased : state.Unreleased) :
    Isolated { state with
      prepared := state.prepared ++ new
      head := state.head + cqecount
      control := .processing rest cqecount base } := by
  have same := unreleased _ _ _ control
  cases isolated.batched _ _ _ control with
  | inr released =>
    obtain ⟨beyond, positive⟩ := released
    omega
  | inl open' =>
    obtain ⟨_, enough, skipped, split, idle⟩ := open'
    have positive : 0 < cqecount := by
      by_contra zero
      have none : cqecount = 0 := by omega
      rw [none, List.take_zero] at split
      have lengths := congrArg List.length split
      rw [List.length_append] at lengths
      simp at lengths
    have inside := isolated.inside
    rw [List.length_drop] at enough
    have parts : state.completions.drop base =
        (skipped ++ cqe :: rest) ++ state.completions.drop (base + cqecount) := by
      rw [← split, ← List.drop_drop, List.take_append_drop]
    refine ⟨?_, ?_, ?_⟩
    · change state.head + cqecount ≤ state.completions.length
      omega
    · intro rest' cqecount' base' control'
      change Control.processing rest cqecount base = _ at control'
      cases control'
      exact .inr ⟨by change state.head + cqecount = _; rw [same], positive⟩
    · refine @Owed.perm state _ isolated.owed ?_ rfl rfl rfl
      have beyond : ¬ base + cqecount = base := by omega
      have before : state.pending = state.completions.drop base := by
        simp only [State.pending, control, same, if_true]
      rw [State.occupants, State.occupants, before, parts]
      simp only [State.pending, same, if_neg beyond, List.filterMap_append, List.filterMap_cons,
        idle, occupant_handled prepared, List.nil_append]
      cases owner : cqe.occupant with
      | none => simp
      | some pair =>
        simp only [Option.toList_some, List.append_assoc, List.cons_append, List.nil_append]
        refine List.Perm.trans ?_ List.perm_middle
        apply List.Perm.append_left
        rw [← List.append_assoc, ← List.append_assoc]
        exact List.perm_middle

/-- Every calm step keeps the invariant. -/
theorem Isolated.step (isolated : Isolated state) {event : Event} {next : State}
    (taken : CalmStep state event next) : Isolated next := by
  obtain ⟨undisturbed, step⟩ := taken
  cases step with
  | submit control =>
    refine ⟨isolated.inside, ?_, ?_⟩
    · intro rest cqecount base processing
      cases processing
    · refine @Owed.perm state _ isolated.owed ?_ rfl rfl rfl
      rw [State.occupants, State.occupants]
      have pending : state.pending = state.completions.drop state.head := by
        simp only [State.pending, control]
      rw [pending]
      apply List.Perm.append_left
      change ((state.flight ++ state.prepared).filterMap Request.occupant).Perm _
      exact List.perm_append_comm.filterMap Request.occupant
  | peek control inside taken filled =>
    subst taken
    refine ⟨isolated.inside, ?_, ?_⟩
    · intro rest cqecount base processing
      cases processing
      refine .inl ⟨rfl, ?_, [], ?_, rfl⟩
      · rw [List.length_take]
        exact Nat.min_le_right _ _
      · rw [List.length_take, List.nil_append]
        change (state.completions.drop state.head).take _ = _
        rw [List.take_eq_take_iff]
        omega
    · refine @Owed.perm state _ isolated.owed ?_ rfl rfl rfl
      rw [State.occupants, State.occupants]
      have pending : state.pending = state.completions.drop state.head := by
        simp only [State.pending, control]
      rw [pending]
      simp only [State.pending, if_true]
      exact List.Perm.refl _
  | peekStale batch control outside => exact absurd isolated.inside (not_le.mpr outside)
  | @skip cqe rest cqecount base control nothing =>
    have idle := occupant_skipped nothing
    refine ⟨isolated.inside, ?_, ?_⟩
    · intro rest' cqecount' base' processing
      cases processing
      cases isolated.batched _ _ _ control with
      | inl open' =>
        obtain ⟨same, enough, skipped, split, silent⟩ := open'
        refine .inl ⟨same, enough, skipped ++ [cqe], ?_, ?_⟩
        · rw [List.append_assoc]
          exact split
        · rw [List.filterMap_append, silent, List.nil_append]
          simp only [List.filterMap_cons, idle, List.filterMap_nil]
      | inr released => exact .inr released
    · refine @Owed.perm state _ isolated.owed ?_ rfl rfl rfl
      rw [State.occupants, State.occupants]
      apply List.Perm.append_right
      simp only [State.pending, control]
      by_cases same : state.head = base
      · simp only [if_pos same]
        exact List.Perm.refl _
      · simp only [if_neg same, List.cons_append, List.filterMap_cons, idle]
        exact List.Perm.refl _
  | handle control prepared => exact isolated.handle control prepared undisturbed
  | @end' cqecount base control =>
    refine ⟨isolated.inside, ?_, ?_⟩
    · intro rest cqecount' base' processing
      cases processing
    · refine @Owed.perm state _ isolated.owed ?_ rfl rfl rfl
      rw [State.occupants, State.occupants]
      apply List.Perm.append_right
      simp only [State.pending, control, List.nil_append, ite_self]
      exact List.Perm.refl _
  | nop flight => exact isolated.complete_idle flight rfl rfl
  | accept res flight =>
    apply isolated.complete_idle flight rfl
    rw [Completion.occupant, if_neg]
    intro both
    cases both.1
  | recv data flight fits => exact isolated.recv flight undisturbed
  | send count flight fits =>
    have whole : count = _ := undisturbed
    subst whole
    exact isolated.send flight
  | recvFail res flight failed =>
    apply isolated.complete_idle flight rfl
    rw [Completion.occupant, if_neg]
    intro both
    have positive : 0 < res := both.2
    omega
  | sendFail res flight failed => exact absurd undisturbed (fun impossible => impossible)

/-- Nothing is owed at the start. -/
theorem isolated_start (listenfd : Int) : Isolated (start listenfd) := by
  refine ⟨le_rfl, ?_, .inl ⟨rfl, fun _ => rfl⟩⟩
  intro rest cqecount base control
  cases control

/-- In calm runs the bytes sent to a descriptor are, in order, bytes received from it. -/
theorem sent_is_received (listenfd : Int) {trace : List Event} {state : State}
    (run : Run CalmStep (start listenfd) trace state) :
    ∀ fd, state.sent fd <+: state.received fd := by
  have isolated : Isolated state := run.invariant Isolated (isolated_start listenfd)
    fun _ _ _ isolated taken => isolated.step taken
  intro fd
  cases isolated.owed with
  | inl idle =>
    rw [idle.2 fd]
  | inr busy =>
    obtain ⟨owner, len, _, mine, others⟩ := busy
    by_cases same : fd = owner
    · rw [same, mine]
      exact List.prefix_append _ _
    · rw [others fd same]

/-- A run goes on with a step that meets the condition. -/
theorem calm_snoc {listenfd : Int} {trace : List Event} {state next : State} {event : Event}
    (run : Run CalmStep (start listenfd) trace state) (taken : Step state event next)
    (undisturbed : Undisturbed state event) :
    Run CalmStep (start listenfd) (trace ++ [event]) next :=
  run.snoc ⟨undisturbed, taken⟩

/-- A batch that has just been taken is not released. -/
theorem unreleased_of {rest : List Completion} {cqecount base : Nat}
    (control : state.control = .processing rest cqecount base) (same : state.head = base) :
    state.Unreleased := by
  intro rest' cqecount' base' control'
  rw [control] at control'
  cases control'
  exact same

/-- One client whose single byte comes back. -/
theorem sent_is_received_echo :
    ∃ trace state, Run CalmStep (start 3) trace state ∧ state.sent 5 = [65] ∧
      state.sent 5 <+: state.received 5 := by
  have submitted := calm_snoc (Run.nil : Run CalmStep (start 3) [] (start 3)) (.submit rfl) trivial
  have accepted := calm_snoc submitted (@Step.accept _ [.nop] [] 3 5 rfl) trivial
  have taken := calm_snoc accepted (.peek rfl (by decide) rfl (List.cons_ne_nil _ _)) trivial
  have handled := calm_snoc taken (.handle rfl rfl) (unreleased_of rfl rfl)
  have again := calm_snoc (calm_snoc handled (.end' rfl) trivial) (.submit rfl) trivial
  have received := calm_snoc again
    (@Step.recv _ [.nop, .accept 3] [] 5 1024 [65] rfl (by decide)) (.inr rfl)
  have read := calm_snoc received (.peek rfl (by decide) rfl (List.cons_ne_nil _ _)) trivial
  have answered := calm_snoc read (.handle rfl rfl) (unreleased_of rfl rfl)
  have sending := calm_snoc (calm_snoc answered (.end' rfl) trivial) (.submit rfl) trivial
  have sent := calm_snoc sending (@Step.send _ [.nop, .accept 3] [] 5 1 1 rfl le_rfl) rfl
  exact ⟨_, _, sent, rfl, sent_is_received 3 sent 5⟩

/-- Two clients: the byte of the second one arrives between the receive from the first one and
the send to it, and goes to the first one. -/
theorem sent_is_not_received :
    ∃ trace state, Run Step (start 3) trace state ∧ state.received 5 = [65] ∧
      state.received 6 = [66] ∧ state.sent 5 = [66] ∧ ¬ state.sent 5 <+: state.received 5 := by
  have first := ((((Run.nil : Run Step (start 3) [] (start 3)).snoc
    (.submit rfl)).snoc (@Step.accept _ [.nop] [] 3 5 rfl)).snoc
    (.peek rfl (by decide) rfl (List.cons_ne_nil _ _))).snoc (.handle rfl rfl)
  have second := ((((first.snoc (.end' rfl)).snoc (.submit rfl)).snoc
    (@Step.accept _ [.nop] [.recv 5 1024] 3 6 rfl)).snoc
    (.peek rfl (by decide) rfl (List.cons_ne_nil _ _))).snoc (.handle rfl rfl)
  have received := (((second.snoc (.end' rfl)).snoc (.submit rfl)).snoc
    (@Step.recv _ [.nop] [.accept 3, .recv 6 1024] 5 1024 [65] rfl (by decide))).snoc
    (.peek rfl (by decide) rfl (List.cons_ne_nil _ _))
  have overwritten := (received.snoc
    (@Step.recv _ [.nop, .accept 3] [] 6 1024 [66] rfl (by decide))).snoc (.handle rfl rfl)
  have sent := ((overwritten.snoc (.end' rfl)).snoc (.submit rfl)).snoc
    (@Step.send _ [.nop, .accept 3] [] 5 1 1 rfl le_rfl)
  exact ⟨_, _, sent, rfl, rfl, rfl, by decide⟩

end BackendCpp.Uring
