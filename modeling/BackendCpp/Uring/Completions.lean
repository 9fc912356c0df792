import BackendCpp.Library.Run
import BackendCpp.Uring.Program

/-!
# Which completions are handled

The completion queue and the loop over its batches, without what becomes of the requests:
completions may arrive at any time, in any number. The loop releases the whole batch once for
every completion of it that it handles and not at all for one that it skips, so that a batch is
handled well only if everything but the last of its completions is skipped.
-/

namespace BackendCpp.Uring

open BackendCpp.Library

/-- The queue and the point that `main` has reached. -/
structure Queue where
  /-- All completions so far. -/
  completions : List Completion
  /-- How many of them have been released by `io_uring_cq_advance`. -/
  head : Nat
  /-- The point that `main` has reached. -/
  control : Control

/-- What happens to the queue. -/
inductive QueueEvent where
  /-- `io_uring_submit`. -/
  | submitted
  /-- A completion arrives. -/
  | arrived (cqe : Completion)
  /-- `io_uring_peek_batch_cqe`. -/
  | peeked (batch : List Completion)
  /-- The body of the loop runs for a completion of the batch; `place` is its place among all. -/
  | processed (place : Nat) (cqe : Completion)
  /-- The loop over the batch ended. -/
  | ended

/-- One step of the loop, or an arrival. -/
inductive QueueStep : Queue → QueueEvent → Queue → Prop
  | submit {queue : Queue} (control : queue.control = .submitting) :
      QueueStep queue .submitted { queue with control := .waiting }
  | arrive {queue : Queue} (cqe : Completion) :
      QueueStep queue (.arrived cqe) { queue with completions := queue.completions ++ [cqe] }
  | peek {queue : Queue} {batch : List Completion} (control : queue.control = .waiting)
      (inside : queue.head ≤ queue.completions.length)
      (taken : batch = (queue.completions.drop queue.head).take 10) (filled : batch ≠ []) :
      QueueStep queue (.peeked batch)
        { queue with control := .processing batch batch.length queue.head }
  | peekStale {queue : Queue} (batch : List Completion) (control : queue.control = .waiting)
      (outside : queue.completions.length < queue.head) :
      QueueStep queue (.peeked batch)
        { queue with control := .processing batch batch.length queue.head }
  | skip {queue : Queue} {cqe : Completion} {rest : List Completion} {cqecount base : Nat}
      (control : queue.control = .processing (cqe :: rest) cqecount base)
      (nothing : requests cqe = none) :
      QueueStep queue (.processed (base + cqecount - (rest.length + 1)) cqe)
        { queue with control := .processing rest cqecount base }
  | handle {queue : Queue} {cqe : Completion} {rest : List Completion} {cqecount base : Nat}
      {new : List Request} (control : queue.control = .processing (cqe :: rest) cqecount base)
      (some' : requests cqe = some new) :
      QueueStep queue (.processed (base + cqecount - (rest.length + 1)) cqe)
        { queue with head := queue.head + cqecount, control := .processing rest cqecount base }
  | end' {queue : Queue} {cqecount base : Nat}
      (control : queue.control = .processing [] cqecount base) :
      QueueStep queue .ended { queue with control := .submitting }

/-- The queue of the server with its kernel. -/
def State.queue (state : State) : Queue := ⟨state.completions, state.head, state.control⟩

/-- What the body of the loop is run for. -/
def QueueEvent.processes : QueueEvent → Option Completion
  | .processed _ cqe => some cqe
  | _ => none

/-- What the body of the loop is run for, in an event of the server. -/
def Event.processes : Event → Option Completion
  | .skipped cqe => some cqe
  | .handled cqe => some cqe
  | _ => none

/-- Every step of the server and its kernel is a step of the queue, which processes the same
completion, and takes a batch only if the server does. -/
theorem Step.queueStep {state next : State} {event : Event} (step : Step state event next) :
    ∃ event', QueueStep state.queue event' next.queue ∧ event'.processes = event.processes ∧
      ∀ batch, event' = .peeked batch → event = .peeked batch := by
  cases step with
  | submit control => exact ⟨_, @QueueStep.submit state.queue control, rfl, nofun⟩
  | peek control inside taken filled =>
    refine ⟨_, @QueueStep.peek state.queue _ control inside taken filled, rfl, ?_⟩
    exact fun batch same => congrArg Event.peeked (QueueEvent.peeked.inj same)
  | peekStale batch control outside =>
    refine ⟨_, @QueueStep.peekStale state.queue batch control outside, rfl, ?_⟩
    exact fun batch same => congrArg Event.peeked (QueueEvent.peeked.inj same)
  | skip control nothing =>
    exact ⟨_, @QueueStep.skip state.queue _ _ _ _ control nothing, rfl, nofun⟩
  | handle control some' =>
    exact ⟨_, @QueueStep.handle state.queue _ _ _ _ _ control some', rfl, nofun⟩
  | end' control => exact ⟨_, @QueueStep.end' state.queue _ _ control, rfl, nofun⟩
  | nop flight => exact ⟨_, @QueueStep.arrive state.queue _, rfl, nofun⟩
  | accept res flight => exact ⟨_, @QueueStep.arrive state.queue _, rfl, nofun⟩
  | recv data flight fits => exact ⟨_, @QueueStep.arrive state.queue _, rfl, nofun⟩
  | send count flight fits => exact ⟨_, @QueueStep.arrive state.queue _, rfl, nofun⟩
  | recvFail res flight failed => exact ⟨_, @QueueStep.arrive state.queue _, rfl, nofun⟩
  | sendFail res flight failed => exact ⟨_, @QueueStep.arrive state.queue _, rfl, nofun⟩

/-- The queue before the loop. -/
def emptyQueue : Queue := ⟨[], 0, .submitting⟩

/-- What the body of the loop has been run for, after one more event. -/
def recordProcessed (done : List (Nat × Completion)) : QueueEvent → List (Nat × Completion)
  | .processed place cqe => done ++ [(place, cqe)]
  | _ => done

/-- What the body of the loop has been run for in a run. -/
def processed (trace : List QueueEvent) : List (Nat × Completion) :=
  trace.foldl recordProcessed []

/-- Every completion is processed once, in their order; none is released before it is processed,
and between the batches all that have been processed are released. -/
structure ProcessedOnce (queue : Queue) (done : List (Nat × Completion)) : Prop where
  /-- The places that have been processed, in order. -/
  places : done.map Prod.fst = List.range done.length
  /-- What has been processed is what is there. -/
  same : done.map Prod.snd = queue.completions.take done.length
  /-- The head has not passed what is still to be processed. -/
  head : queue.head ≤ done.length
  /-- Between the batches the head is where the processing is. -/
  released : (∀ rest cqecount base, queue.control ≠ .processing rest cqecount base) →
    queue.head = done.length

/-- A batch of which all but the last are skipped, and the last is not. -/
def LastHandled (batch : List Completion) : Prop :=
  ∃ front last, batch = front ++ [last] ∧ (∀ cqe ∈ front, requests cqe = none) ∧
    requests last ≠ none

/-- The condition on a step: the batch that is taken is one of these. -/
def Timely (queue : Queue) : QueueEvent → Prop
  | .peeked _ => LastHandled ((queue.completions.drop queue.head).take 10)
  | _ => True

/-- A step of the queue that meets it. -/
def TimelyStep (queue : Queue) (event : QueueEvent) (next : Queue) : Prop :=
  Timely queue event ∧ QueueStep queue event next

/-- The batch in hand. -/
structure InBatch (queue : Queue) (done : List (Nat × Completion)) (rest : List Completion)
    (cqecount base : Nat) : Prop where
  /-- The head is still before the batch. -/
  head : queue.head = base
  /-- How far the batch is processed. -/
  place : base + cqecount = done.length + rest.length
  /-- What is left of it comes next in the queue. -/
  next : rest <+: queue.completions.drop done.length
  /-- It ends with a completion that is handled. -/
  last : LastHandled rest

/-- The invariant of timely runs. -/
structure Exact (queue : Queue) (done : List (Nat × Completion)) : Prop where
  /-- What has been processed. -/
  once : ProcessedOnce queue done
  /-- Either the batch is processed and released, or it is in hand. -/
  batch : ∀ rest cqecount base, queue.control = .processing rest cqecount base →
    (rest = [] ∧ queue.head = done.length) ∨ InBatch queue done rest cqecount base

section

variable {queue : Queue} {done : List (Nat × Completion)} {cqe : Completion}
  {rest : List Completion} {cqecount base : Nat}

/-- What has been processed has arrived. -/
theorem ProcessedOnce.arrived (once : ProcessedOnce queue done) :
    done.length ≤ queue.completions.length := by
  have lengths := congrArg List.length once.same
  rw [List.length_map, List.length_take] at lengths
  omega

/-- A batch in hand of which the first completion is skipped goes on. -/
theorem LastHandled.skip (last : LastHandled (cqe :: rest)) (nothing : requests cqe = none) :
    LastHandled rest := by
  obtain ⟨front, final, split, skipped, handled⟩ := last
  cases front with
  | nil =>
    rw [List.nil_append, List.cons.injEq] at split
    rw [← split.1] at handled
    exact absurd nothing handled
  | cons first front =>
    rw [List.cons_append, List.cons.injEq] at split
    exact ⟨front, final, split.2, fun other member => skipped other (List.mem_cons_of_mem _ member),
      handled⟩

/-- One of which the first is handled ends there. -/
theorem LastHandled.handle (last : LastHandled (cqe :: rest)) {new : List Request}
    (some' : requests cqe = some new) : rest = [] := by
  obtain ⟨front, final, split, skipped, _⟩ := last
  cases front with
  | nil =>
    rw [List.nil_append, List.cons.injEq] at split
    exact split.2
  | cons first front =>
    rw [List.cons_append, List.cons.injEq] at split
    have nothing := skipped first List.mem_cons_self
    rw [← split.1, some'] at nothing
    cases nothing

/-- The completion that is processed next. -/
theorem InBatch.process (hand : InBatch queue done (cqe :: rest) cqecount base)
    (once : ProcessedOnce queue done) :
    base + cqecount - (rest.length + 1) = done.length ∧
    (done ++ [(done.length, cqe)]).map Prod.fst =
      List.range (done ++ [(done.length, cqe)]).length ∧
    (done ++ [(done.length, cqe)]).map Prod.snd =
      queue.completions.take (done ++ [(done.length, cqe)]).length ∧
    rest <+: queue.completions.drop (done.length + 1) := by
  have place := hand.place
  rw [List.length_cons] at place
  obtain ⟨later, whole⟩ := hand.next
  have here : queue.completions[done.length]? = some cqe := by
    rw [← List.head?_drop, ← whole]
    rfl
  refine ⟨by omega, ?_, ?_, ?_⟩
  · rw [List.map_append, once.places, List.length_append, List.length_singleton, List.range_succ]
    rfl
  · rw [List.map_append, once.same, List.length_append, List.length_singleton, List.take_add_one,
      here]
    rfl
  · rw [← List.drop_drop, ← whole]
    exact List.prefix_append _ _

end

/-- Every timely step keeps the invariant. -/
theorem Exact.step {queue next : Queue} {done : List (Nat × Completion)} {event : QueueEvent}
    (exact : Exact queue done) (timely : Timely queue event) (step : QueueStep queue event next) :
    Exact next (recordProcessed done event) := by
  obtain ⟨once, batch⟩ := exact
  cases step with
  | submit control =>
    have caught : queue.head = done.length := once.released (by
      intro rest cqecount base processing
      rw [control] at processing
      cases processing)
    refine ⟨⟨once.places, once.same, once.head, fun _ => caught⟩, ?_⟩
    intro rest cqecount base processing
    cases processing
  | arrive cqe =>
    refine ⟨⟨once.places, ?_, once.head, once.released⟩, ?_⟩
    · change done.map Prod.snd = (queue.completions ++ [cqe]).take done.length
      rw [once.same, List.take_append_of_le_length once.arrived]
    · intro rest cqecount base processing
      refine (batch rest cqecount base processing).imp_right fun hand => ?_
      refine ⟨hand.head, hand.place, ?_, hand.last⟩
      change rest <+: (queue.completions ++ [cqe]).drop done.length
      rw [List.drop_append_of_le_length once.arrived]
      exact hand.next.trans (List.prefix_append _ _)
  | @peek taken control inside whole filled =>
    have caught : queue.head = done.length := once.released (by
      intro rest cqecount base processing
      rw [control] at processing
      cases processing)
    refine ⟨⟨once.places, once.same, once.head, ?_⟩, ?_⟩
    · intro outside
      exact absurd rfl (outside _ _ _)
    · intro rest cqecount base processing
      cases processing
      right
      refine ⟨rfl, ?_, ?_, ?_⟩
      · rw [caught]
        rfl
      · change taken <+: queue.completions.drop done.length
        rw [← caught, whole]
        exact List.take_prefix _ _
      · rw [whole]
        exact timely
  | peekStale taken control outside =>
    have caught : queue.head = done.length := once.released (by
      intro rest cqecount base processing
      rw [control] at processing
      cases processing)
    have arrived := once.arrived
    omega
  | @skip cqe rest cqecount base control nothing =>
    have hand := (batch _ _ _ control).resolve_left fun ended => by cases ended.1
    obtain ⟨place, places, same, next⟩ := hand.process once
    rw [recordProcessed, place]
    refine ⟨⟨places, same, ?_, ?_⟩, ?_⟩
    · rw [List.length_append]
      exact once.head.trans (Nat.le_add_right _ _)
    · intro outside
      exact absurd rfl (outside _ _ _)
    · intro rest' cqecount' base' processing
      cases processing
      right
      refine ⟨hand.head, ?_, ?_, hand.last.skip nothing⟩
      · have whole := hand.place
        rw [List.length_cons] at whole
        rw [List.length_append, List.length_singleton]
        omega
      · rw [List.length_append, List.length_singleton]
        exact next
  | @handle cqe rest cqecount base new control some' =>
    have hand := (batch _ _ _ control).resolve_left fun ended => by cases ended.1
    obtain ⟨place, places, same, _⟩ := hand.process once
    have alone := hand.last.handle some'
    have whole := hand.place
    rw [alone, List.length_singleton, ← hand.head] at whole
    have released : queue.head + cqecount = (done ++ [(done.length, cqe)]).length := by
      rw [List.length_append, List.length_singleton]
      exact whole
    rw [recordProcessed, place]
    refine ⟨⟨places, same, Nat.le_of_eq released, fun _ => released⟩, ?_⟩
    intro rest' cqecount' base' processing
    cases processing
    exact Or.inl ⟨alone, released⟩
  | @end' cqecount base control =>
    have caught : queue.head = done.length := by
      rcases batch _ _ _ control with ended | hand
      · exact ended.2
      · obtain ⟨front, last, split, _⟩ := hand.last
        exact absurd split (by simp)
    refine ⟨⟨once.places, once.same, once.head, fun _ => caught⟩, ?_⟩
    intro rest cqecount' base' processing
    cases processing

/-- In every run whose batches are skipped but for the last of their completions, each completion
is processed once and none is released before. -/
theorem run_processedOnce {trace : List QueueEvent} {queue : Queue}
    (run : Run TimelyStep emptyQueue trace queue) : ProcessedOnce queue (processed trace) := by
  have init : Exact emptyQueue [] := by
    refine ⟨⟨rfl, rfl, le_rfl, fun _ => rfl⟩, ?_⟩
    intro rest cqecount base processing
    cases processing
  have exact : Exact queue (processed trace) := run.simulation recordProcessed Exact init
    fun _ _ _ _ exact step => exact.step step.1 step.2
  exact exact.once

/-- The condition on a step of the server. -/
def ServerTimely (state : State) (event : Event) : Prop :=
  ∀ batch, event = .peeked batch → LastHandled ((state.completions.drop state.head).take 10)

/-- A step of the server or its kernel that meets it. -/
def ServerStep (state : State) (event : Event) (next : State) : Prop :=
  ServerTimely state event ∧ Step state event next

/-- A run of the server is a run of its queue, in which the body of the loop is run for the same
completions. -/
theorem queue_run {listenfd : Int} {trace : List Event} {state : State}
    (run : Run ServerStep (start listenfd) trace state) :
    ∃ trace', Run TimelyStep emptyQueue trace' state.queue ∧
      (processed trace').map Prod.snd = trace.filterMap Event.processes := by
  induction run with
  | nil => exact ⟨[], Run.nil, rfl⟩
  | @snoc trace state next event _ taken ih =>
    obtain ⟨trace', run', same⟩ := ih
    obtain ⟨event', step, alike, peeks⟩ := taken.2.queueStep
    have timely : Timely state.queue event' := by
      cases event' with
      | peeked batch => exact taken.1 batch (peeks batch rfl)
      | submitted => trivial
      | arrived cqe => trivial
      | processed place cqe => trivial
      | ended => trivial
    refine ⟨_, run'.snoc ⟨timely, step⟩, ?_⟩
    have more : (processed (trace' ++ [event'])).map Prod.snd =
        (processed trace').map Prod.snd ++ event'.processes.toList := by
      unfold processed
      rw [List.foldl_append]
      cases event' <;> simp [recordProcessed, QueueEvent.processes]
    rw [more, same, alike, List.filterMap_append]
    cases processes : event.processes <;> simp [processes]

/-- In every run of the server and its kernel whose batches are skipped but for the last of their
completions, the body of the loop is run for each completion once, in their order. -/
theorem server_processedOnce {listenfd : Int} {trace : List Event} {state : State}
    (run : Run ServerStep (start listenfd) trace state) :
    ∃ done, done.map Prod.snd = trace.filterMap Event.processes ∧
      ProcessedOnce state.queue done := by
  obtain ⟨trace', run', same⟩ := queue_run run
  exact ⟨_, same, run_processedOnce run'⟩

/-- A step that takes no batch meets the condition. -/
theorem Step.server {state next : State} {event : Event} (step : Step state event next)
    (other : ∀ batch, event ≠ .peeked batch) : ServerStep state event next :=
  ⟨fun batch same => absurd same (other batch), step⟩

/-- The empty request in a batch of its own, and then a failed accept with one that did not fail. -/
theorem batch_run : ∃ trace state, Run ServerStep (start 3) trace state ∧ state.head = 3 ∧
    trace.filterMap Event.processes = [⟨0, .accept, 0⟩, ⟨0, .accept, -9⟩, ⟨3, .accept, 5⟩] := by
  have alone : LastHandled [⟨0, .accept, 0⟩] := ⟨[], _, rfl, nofun, Option.some_ne_none _⟩
  have pair : LastHandled [⟨0, .accept, -9⟩, ⟨3, .accept, 5⟩] := by
    refine ⟨[⟨0, .accept, -9⟩], ⟨3, .accept, 5⟩, rfl, ?_, Option.some_ne_none _⟩
    intro cqe member
    rw [List.mem_singleton.mp member]
    rfl
  have begun : Run ServerStep (start 3) _ _ := Run.nil
  have submitted := begun.snoc ((Step.submit rfl).server nofun)
  have empty := submitted.snoc ((@Step.nop _ [] [.accept 3] rfl).server nofun)
  have first := empty.snoc
    ⟨fun _ _ => alone, .peek rfl (Nat.zero_le _) rfl (List.cons_ne_nil _ _)⟩
  have accepting := first.snoc ((Step.handle rfl rfl).server nofun)
  have ended := accepting.snoc ((Step.end' rfl).server nofun)
  have again := ended.snoc ((Step.submit rfl).server nofun)
  have failed := again.snoc ((@Step.accept _ [.accept 3] [.recv 0 1024] 0 (-9) rfl).server nofun)
  have accepted := failed.snoc ((@Step.accept _ [] [.recv 0 1024] 3 5 rfl).server nofun)
  have second := accepted.snoc
    ⟨fun _ _ => pair, .peek rfl (by decide) rfl (List.cons_ne_nil _ _)⟩
  have skipped := second.snoc ((Step.skip rfl rfl).server nofun)
  have handled := skipped.snoc ((Step.handle rfl rfl).server nofun)
  exact ⟨_, _, handled, rfl, rfl⟩

/-- The completion that is skipped is released with the one that is handled. -/
theorem run_processedOnce_batch : ∃ trace queue, Run TimelyStep emptyQueue trace queue ∧
    queue.head = 3 ∧ (processed trace).map Prod.snd =
      [⟨0, .accept, 0⟩, ⟨0, .accept, -9⟩, ⟨3, .accept, 5⟩] ∧
    ProcessedOnce queue (processed trace) := by
  obtain ⟨_, state, run, head, handled⟩ := batch_run
  obtain ⟨trace, run', same⟩ := queue_run run
  exact ⟨trace, state.queue, run', head, same.trans handled, run_processedOnce run'⟩

/-- So it is in the run of the server. -/
theorem server_processedOnce_batch : ∃ trace state, Run ServerStep (start 3) trace state ∧
    trace.filterMap Event.processes = [⟨0, .accept, 0⟩, ⟨0, .accept, -9⟩, ⟨3, .accept, 5⟩] ∧
    ∃ done, done.map Prod.snd = trace.filterMap Event.processes ∧
      ProcessedOnce state.queue done := by
  obtain ⟨trace, state, run, _, handled⟩ := batch_run
  exact ⟨trace, state, run, handled, server_processedOnce run⟩

/-- A connection is accepted by descriptor 3. -/
def acceptedOne : Completion := ⟨3, .accept, 5⟩

/-- The queue in which the completions wait. -/
def waitingQueue (completions : List Completion) : Queue := ⟨completions, 0, .waiting⟩

/-- Two completions in one batch: when the first has been handled both are released. -/
theorem run_released_unprocessed : ∃ trace queue,
    Run QueueStep emptyQueue trace queue ∧ queue.completions.length = 2 ∧
    (processed trace).length = 1 ∧ queue.head = 2 ∧ ¬ ProcessedOnce queue (processed trace) := by
  have submitted : QueueStep emptyQueue .submitted (waitingQueue []) := .submit rfl
  have first : QueueStep (waitingQueue []) (.arrived acceptedOne) (waitingQueue [acceptedOne]) :=
    .arrive acceptedOne
  have second : QueueStep (waitingQueue [acceptedOne]) (.arrived acceptedOne)
      (waitingQueue [acceptedOne, acceptedOne]) := .arrive acceptedOne
  have peeked : QueueStep (waitingQueue [acceptedOne, acceptedOne])
      (.peeked [acceptedOne, acceptedOne])
      ⟨[acceptedOne, acceptedOne], 0, .processing [acceptedOne, acceptedOne] 2 0⟩ :=
    .peek rfl (Nat.zero_le _) rfl (List.cons_ne_nil _ _)
  have handled : QueueStep
      ⟨[acceptedOne, acceptedOne], 0, .processing [acceptedOne, acceptedOne] 2 0⟩
      (.processed 0 acceptedOne) ⟨[acceptedOne, acceptedOne], 2, .processing [acceptedOne] 2 0⟩ :=
    @QueueStep.handle
      ⟨[acceptedOne, acceptedOne], 0, .processing [acceptedOne, acceptedOne] 2 0⟩ acceptedOne
      [acceptedOne] 2 0 _ rfl rfl
  have run := ((((Run.nil.snoc submitted).snoc first).snoc second).snoc peeked).snoc handled
  refine ⟨_, _, run, rfl, rfl, rfl, ?_⟩
  intro once
  have passed : 2 ≤ 1 := once.head
  omega

end BackendCpp.Uring
