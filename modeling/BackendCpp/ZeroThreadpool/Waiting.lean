import BackendCpp.Library.Run
import BackendCpp.ZeroThreadpool.Program

/-!
# What waitForAllDone waits for

Every submitted task is in one of three places: queued, held by a thread, or finished.
`waitForAllDone` looks at the queue alone. So when it returns true, everything submitted
before the call has finished exactly when no thread still holds such a task.
-/

namespace BackendCpp.ZeroThreadpool

open BackendCpp.Library

/-- The unfinished task of a thread. -/
def Worker.holding : Worker → Option TaskFunc
  | .taken task => some task
  | .running task => some task
  | _ => none

/-- A thread holds an unfinished task with this number. -/
def State.Held (state : State) (worker id : Nat) : Prop :=
  ∃ task, (state.workers worker).holding = some task ∧ task.id = id

/-- A task with this number is queued. -/
def State.Queued (state : State) (id : Nat) : Prop := ∃ task ∈ state.tasks, task.id = id

/-- Everything submitted before the call of `waitForAllDone` has finished. -/
def State.AllDone (state : State) : Prop := ∀ id < state.before, id ∈ state.finished

/-- Each submitted task is in exactly one place. -/
structure Sound (state : State) : Prop where
  /-- The queue holds different tasks. -/
  distinct : (state.tasks.map TaskFunc.id).Nodup
  /-- Queued tasks have been submitted. -/
  queued : ∀ id, state.Queued id → id < state.submitted
  /-- Queued tasks are held by no thread. -/
  waiting : ∀ id worker, state.Queued id → ¬ state.Held worker id
  /-- Held tasks have been submitted. -/
  held : ∀ id worker, state.Held worker id → id < state.submitted
  /-- No two threads hold one task. -/
  apart : ∀ id worker other, state.Held worker id → state.Held other id → worker = other
  /-- Finished tasks have been submitted and are in no other place. -/
  finished : ∀ id ∈ state.finished,
    id < state.submitted ∧ ¬ state.Queued id ∧ ∀ worker, ¬ state.Held worker id
  /-- Every submitted task is somewhere. -/
  accounted : ∀ id < state.submitted,
    state.Queued id ∨ (∃ worker, state.Held worker id) ∨ id ∈ state.finished
  /-- What was submitted before the call has been submitted. -/
  before : state.before ≤ state.submitted

variable {state : State} {threadNum : Nat}

/-- Whom the threads hold after one of them has moved on. -/
theorem held_setWorker (worker other id : Nat) (place : Worker) :
    (state.setWorker worker place).Held other id ↔
      if other = worker then ∃ task, place.holding = some task ∧ task.id = id
      else state.Held other id := by
  by_cases same : other = worker
  · rw [if_pos same, same]
    change (∃ task, (Function.update state.workers worker place worker).holding = _ ∧ _) ↔ _
    rw [Function.update_self]
  · rw [if_neg same]
    change (∃ task, (Function.update state.workers worker place other).holding = _ ∧ _) ↔ _
    rw [Function.update_of_ne same]
    rfl

/-- A thread that moves on with the same hands keeps the account. -/
theorem Sound.move (sound : Sound state) {worker : Nat} {place : Worker}
    (same : place.holding = (state.workers worker).holding) :
    Sound (state.setWorker worker place) := by
  have held (other id : Nat) :
      (state.setWorker worker place).Held other id ↔ state.Held other id := by
    rw [held_setWorker]
    by_cases here : other = worker
    · rw [if_pos here, here, same]
      rfl
    · rw [if_neg here]
  constructor
  · exact sound.distinct
  · exact sound.queued
  · intro id other queued
    rw [held]
    exact sound.waiting id other queued
  · intro id other
    rw [held]
    exact sound.held id other
  · intro id one other
    rw [held, held]
    exact sound.apart id one other
  · intro id member
    obtain ⟨known, queued, free⟩ := sound.finished id member
    refine ⟨known, queued, fun other => ?_⟩
    rw [held]
    exact free other
  · intro id known
    simp only [held]
    exact sound.accounted id known
  · exact sound.before

/-- `exec` keeps the account. -/
theorem Sound.push (sound : Sound state) (expire : Int64) : Sound (state.push expire) := by
  have queued (id : Nat) :
      (state.push expire).Queued id ↔ state.Queued id ∨ id = state.submitted := by
    constructor
    · intro found
      obtain ⟨task, member, same⟩ := found
      cases List.mem_append.mp member with
      | inl old => exact .inl ⟨task, old, same⟩
      | inr new =>
        rw [List.mem_singleton.mp new] at same
        exact .inr same.symm
    · intro either
      cases either with
      | inl old =>
        obtain ⟨task, member, same⟩ := old
        exact ⟨task, List.mem_append_left _ member, same⟩
      | inr new =>
        exact ⟨_, List.mem_append_right _ (List.mem_singleton.mpr rfl), new.symm⟩
  constructor
  · change ((state.tasks ++ [_]).map TaskFunc.id).Nodup
    rw [List.map_append, List.nodup_append]
    refine ⟨sound.distinct, List.nodup_singleton _, ?_⟩
    intro id old other new
    obtain ⟨task, member, same⟩ := List.mem_map.mp old
    have known := sound.queued id ⟨task, member, same⟩
    have last : other = state.submitted := List.mem_singleton.mp new
    omega
  · intro id found
    change id < state.submitted + 1
    cases (queued id).mp found with
    | inl old => exact Nat.lt_succ_of_lt (sound.queued id old)
    | inr new => omega
  · intro id worker found held
    cases (queued id).mp found with
    | inl old => exact sound.waiting id worker old held
    | inr new => exact absurd (sound.held id worker held) (by omega)
  · intro id worker held
    exact Nat.lt_succ_of_lt (sound.held id worker held)
  · exact sound.apart
  · intro id member
    obtain ⟨known, free, hands⟩ := sound.finished id member
    refine ⟨Nat.lt_succ_of_lt known, ?_, hands⟩
    rw [queued]
    intro either
    cases either with
    | inl old => exact free old
    | inr new => omega
  · intro id known
    have known' : id < state.submitted + 1 := known
    rw [queued]
    by_cases last : id = state.submitted
    · exact .inl (.inr last)
    · cases sound.accounted id (by omega) with
      | inl old => exact .inl (.inl old)
      | inr rest => exact .inr rest
  · exact Nat.le_succ_of_le sound.before

/-- `get` keeps the account. -/
theorem Sound.get (sound : Sound state) {worker : Nat} {task : TaskFunc} {rest : List TaskFunc}
    (idle : state.workers worker = .idle) (front : state.tasks = task :: rest) :
    Sound (State.setWorker { state with tasks := rest } worker (.taken task)) := by
  have distinct := sound.distinct
  rw [front, List.map_cons, List.nodup_cons] at distinct
  have held (other id : Nat) :
      (State.setWorker { state with tasks := rest } worker (.taken task)).Held other id ↔
        (other = worker ∧ id = task.id) ∨ state.Held other id := by
    rw [held_setWorker]
    by_cases here : other = worker
    · have free : ¬ state.Held other id := by
        intro holds
        obtain ⟨old, found, _⟩ := holds
        rw [here, idle] at found
        cases found
      rw [if_pos here]
      constructor
      · intro holds
        obtain ⟨own, found, same⟩ := holds
        rw [← Option.some.inj found] at same
        exact .inl ⟨here, same.symm⟩
      · intro either
        cases either with
        | inl own => exact ⟨task, rfl, own.2.symm⟩
        | inr old => exact absurd old free
    · rw [if_neg here]
      constructor
      · exact .inr
      · intro either
        cases either with
        | inl own => exact absurd own.1 here
        | inr old => exact old
  have first : state.Queued task.id := ⟨task, by rw [front]; exact List.mem_cons_self, rfl⟩
  have later (id : Nat) (queued : ∃ other ∈ rest, other.id = id) :
      state.Queued id ∧ id ≠ task.id := by
    obtain ⟨other, member, same⟩ := queued
    refine ⟨⟨other, by rw [front]; exact List.mem_cons_of_mem _ member, same⟩, ?_⟩
    intro equal
    exact distinct.1 (List.mem_map.mpr ⟨other, member, same.trans equal⟩)
  constructor
  · exact distinct.2
  · intro id queued
    exact sound.queued id (later id queued).1
  · intro id other queued
    rw [held]
    intro either
    cases either with
    | inl own => exact (later id queued).2 own.2
    | inr old => exact sound.waiting id other (later id queued).1 old
  · intro id other
    rw [held]
    intro either
    cases either with
    | inl own => exact own.2 ▸ sound.queued task.id first
    | inr old => exact sound.held id other old
  · intro id one other
    rw [held, held]
    intro oneHolds otherHolds
    cases oneHolds with
    | inl own =>
      cases otherHolds with
      | inl own' => exact own.1.trans own'.1.symm
      | inr old => exact absurd (own.2 ▸ old) (sound.waiting task.id other first)
    | inr old =>
      cases otherHolds with
      | inl own => exact absurd (own.2 ▸ old) (sound.waiting task.id one first)
      | inr old' => exact sound.apart id one other old old'
  · intro id member
    obtain ⟨known, free, hands⟩ := sound.finished id member
    refine ⟨known, fun queued => free (later id queued).1, fun other => ?_⟩
    rw [held]
    intro either
    cases either with
    | inl own => exact free (own.2 ▸ first)
    | inr old => exact hands other old
  · intro id known
    simp only [held]
    cases sound.accounted id known with
    | inl queued =>
      obtain ⟨other, member, same⟩ := queued
      rw [front, List.mem_cons] at member
      cases member with
      | inl own => exact .inr (.inl ⟨worker, .inl ⟨rfl, own ▸ same.symm⟩⟩)
      | inr old => exact .inl ⟨other, old, same⟩
    | inr placed =>
      cases placed with
      | inl holds =>
        obtain ⟨other, old⟩ := holds
        exact .inr (.inl ⟨other, .inr old⟩)
      | inr done => exact .inr (.inr done)
  · exact sound.before

/-- The end of a task keeps the account. -/
theorem Sound.end (sound : Sound state) {worker : Nat} {task : TaskFunc}
    (running : state.workers worker = .running task) :
    Sound ((state.setWorker worker .ended).finish task.id) := by
  have own : state.Held worker task.id := ⟨task, by rw [running]; rfl, rfl⟩
  have held (other id : Nat) :
      ((state.setWorker worker .ended).finish task.id).Held other id ↔
        state.Held other id ∧ other ≠ worker := by
    change (state.setWorker worker .ended).Held other id ↔ _
    rw [held_setWorker]
    by_cases here : other = worker
    · rw [if_pos here]
      constructor
      · intro holds
        obtain ⟨_, found, _⟩ := holds
        cases found
      · intro both
        exact absurd here both.2
    · rw [if_neg here]
      exact ⟨fun holds => ⟨holds, here⟩, fun both => both.1⟩
  have only (id : Nat) (holds : state.Held worker id) : id = task.id := by
    obtain ⟨found, same, number⟩ := holds
    rw [running] at same
    rw [← number, ← Option.some.inj same]
  constructor
  · exact sound.distinct
  · exact sound.queued
  · intro id other queued holds
    exact sound.waiting id other queued ((held other id).mp holds).1
  · intro id other holds
    exact sound.held id other ((held other id).mp holds).1
  · intro id one other oneHolds otherHolds
    exact sound.apart id one other ((held one id).mp oneHolds).1 ((held other id).mp otherHolds).1
  · intro id member
    change id ∈ task.id :: state.finished at member
    cases List.mem_cons.mp member with
    | inl same =>
      rw [same]
      refine ⟨sound.held _ worker own, fun queued => sound.waiting _ worker queued own, ?_⟩
      intro other holds
      have both := (held other task.id).mp holds
      exact both.2 (sound.apart _ other worker both.1 own)
    | inr old =>
      obtain ⟨known, free, hands⟩ := sound.finished id old
      exact ⟨known, free, fun other holds => hands other ((held other id).mp holds).1⟩
  · intro id known
    cases sound.accounted id known with
    | inl queued => exact .inl queued
    | inr placed =>
      cases placed with
      | inl holds =>
        obtain ⟨other, old⟩ := holds
        by_cases here : other = worker
        · rw [here] at old
          exact .inr (.inr (List.mem_cons.mpr (.inl (only id old))))
        · exact .inr (.inl ⟨other, (held other id).mpr ⟨old, here⟩⟩)
      | inr done => exact .inr (.inr (List.mem_cons_of_mem _ done))
  · exact sound.before

/-- Every step keeps the account. -/
theorem Sound.step (sound : Sound state) {event : Event} {next : State}
    (taken : Step threadNum state event next) : Sound next := by
  have called : Sound { state with before := state.submitted } :=
    ⟨sound.distinct, sound.queued, sound.waiting, sound.held, sound.apart, sound.finished,
      sound.accounted, le_rfl⟩
  have counted (atomic : Int) : Sound { state with atomic := atomic } :=
    ⟨sound.distinct, sound.queued, sound.waiting, sound.held, sound.apart, sound.finished,
      sound.accounted, sound.before⟩
  have placed (waiter : Waiter) : Sound { state with waiter := waiter } :=
    ⟨sound.distinct, sound.queued, sound.waiting, sound.held, sound.apart, sound.finished,
      sound.accounted, sound.before⟩
  cases taken with
  | exec timeoutMs now => exact sound.push _
  | get inside idle front => exact sound.get idle front
  | @count worker task isTaken =>
    apply (counted _).move
    change _ = (state.workers worker).holding
    rw [isTaken]
    rfl
  | skip now running late => exact sound.end running
  | run now throws running timely => exact sound.end running
  | @discount worker ended =>
    apply (counted _).move
    change _ = (state.workers worker).holding
    rw [ended]
    rfl
  | notify notifying =>
    apply sound.move
    rw [notifying]
    rfl
  | callEmpty outside empty => exact called
  | callZero outside filled => exact called
  | call milliseconds outside filled waits =>
    exact ⟨called.distinct, called.queued, called.waiting, called.held, called.apart,
      called.finished, called.accounted, called.before⟩
  | wake waiting filled => exact sound
  | wakeEmpty waiting empty => exact placed _
  | timeout waiting => exact placed _

/-- Nothing has been submitted at the start. -/
theorem sound_started : Sound started := by
  have free (worker id : Nat) : ¬ started.Held worker id := by
    intro holds
    obtain ⟨_, found, _⟩ := holds
    cases found
  have unqueued (id : Nat) : ¬ started.Queued id := by
    intro queued
    obtain ⟨_, member, _⟩ := queued
    exact absurd member List.not_mem_nil
  constructor
  · exact List.nodup_nil
  · intro id queued
    exact absurd queued (unqueued id)
  · intro id worker queued
    exact absurd queued (unqueued id)
  · intro id worker holds
    exact absurd holds (free worker id)
  · intro id worker other holds
    exact absurd holds (free worker id)
  · intro id member
    exact absurd member List.not_mem_nil
  · intro id known
    exact absurd known (Nat.not_lt_zero id)
  · exact le_rfl

/-- The account is kept in every run. -/
theorem sound_run {trace : List Event} {state : State}
    (run : Run (Step threadNum) started trace state) : Sound state :=
  run.invariant Sound sound_started fun _ _ _ sound taken => sound.step taken

/-- A step in which `waitForAllDone` returns true found the queue empty and changed neither the
threads nor what has finished. -/
theorem returned_true {next : State} (taken : Step threadNum state (.returned true) next) :
    state.tasks = [] ∧ next.tasks = [] ∧ next.workers = state.workers := by
  generalize label : Event.returned true = event at taken
  cases taken with
  | callEmpty outside empty => exact ⟨List.isEmpty_iff.mp empty, List.isEmpty_iff.mp empty, rfl⟩
  | wakeEmpty waiting empty => exact ⟨List.isEmpty_iff.mp empty, List.isEmpty_iff.mp empty, rfl⟩
  | timeout waiting =>
    have empty : state.tasks.isEmpty = true := (Event.returned.inj label).symm
    exact ⟨List.isEmpty_iff.mp empty, List.isEmpty_iff.mp empty, rfl⟩
  | _ => cases label

/-- Whenever `waitForAllDone` returns true, in any run: everything submitted before the call has
finished exactly when no thread is between taking such a task and the end of it. -/
theorem wait_for_all_done_iff {trace : List Event} {state next : State}
    (run : Run (Step threadNum) started trace state)
    (taken : Step threadNum state (.returned true) next) :
    next.AllDone ↔
      ∀ worker task, (state.workers worker).holding = some task → next.before ≤ task.id := by
  have sound := (sound_run run).step taken
  obtain ⟨_, empty, workers⟩ := returned_true taken
  rw [← workers]
  constructor
  · intro allDone worker task holds
    by_contra early
    have done := allDone task.id (not_le.mp early)
    exact (sound.finished task.id done).2.2 worker ⟨task, holds, rfl⟩
  · intro quiet id early
    have known := lt_of_lt_of_le early sound.before
    cases sound.accounted id known with
    | inl queued =>
      obtain ⟨task, member, _⟩ := queued
      rw [empty] at member
      exact absurd member List.not_mem_nil
    | inr placed =>
      cases placed with
      | inl holds =>
        obtain ⟨worker, task, found, same⟩ := holds
        have late := quiet worker task found
        omega
      | inr done => exact done

/-- The first thread takes the only task and waits for its end. -/
theorem taken_run : ∃ trace state, Run (Step 1) started trace state ∧
    state.workers 0 = .running ⟨0, 0⟩ ∧ state.tasks = [] ∧ state.waiter = .outside ∧
    state.submitted = 1 ∧ state.finished = [] := by
  have pushed := (Run.nil : Run (Step 1) started [] started).snoc (.exec 0 0)
  have got := pushed.snoc (.get (by decide : 0 < 1) rfl rfl)
  have counted := got.snoc (@Step.count 1 _ 0 _ rfl)
  exact ⟨_, _, counted, rfl, rfl, rfl, rfl, rfl⟩

/-- A task that has ended when `waitForAllDone` is called. -/
theorem wait_for_all_done_iff_one :
    ∃ trace state next, Run (Step 1) started trace state ∧
      Step 1 state (.returned true) next ∧ next.before = 1 ∧ next.AllDone := by
  obtain ⟨trace, state, run, running, empty, outside, submitted, _⟩ := taken_run
  have timely : ¬ expired ⟨0, 0⟩ 0 := fun late => late.1 rfl
  have ended := run.snoc (.run 0 false running timely)
  have taken : Step 1 ((state.setWorker 0 .ended).finish 0) (.returned true)
      { (state.setWorker 0 .ended).finish 0 with before := state.submitted } :=
    .callEmpty outside (List.isEmpty_iff.mpr empty)
  refine ⟨_, _, _, ended, taken, submitted, (wait_for_all_done_iff ended taken).mpr ?_⟩
  intro worker task holds
  have held : ((state.setWorker 0 .ended).workers worker).holding = some task := holds
  by_cases here : worker = 0
  · rw [here] at held
    cases held
  · have sound := sound_run run
    have old : state.Held worker task.id := by
      refine ⟨task, ?_, rfl⟩
      rw [← held]
      exact congrArg Worker.holding (Function.update_of_ne here _ _).symm
    have first : state.Held 0 task.id := by
      have known := sound.held task.id worker old
      rw [submitted] at known
      exact ⟨⟨0, 0⟩, by rw [running]; rfl, by change 0 = task.id; omega⟩
    exact absurd (sound.apart _ worker 0 old first) here

/-- One thread has taken the only task when `waitForAllDone` is called: the queue is empty, so it
returns true although the task has not finished. -/
theorem wait_for_all_done_early :
    ∃ trace state next, Run (Step 1) started trace state ∧
      Step 1 state (.returned true) next ∧ next.before = 1 ∧ ¬ next.AllDone := by
  obtain ⟨trace, state, run, running, empty, outside, submitted, finished⟩ := taken_run
  refine ⟨trace, state, _, run, .callEmpty outside (List.isEmpty_iff.mpr empty), submitted, ?_⟩
  intro allDone
  have done := allDone 0 (by change 0 < state.submitted; omega)
  change 0 ∈ state.finished at done
  rw [finished] at done
  exact absurd done List.not_mem_nil

end BackendCpp.ZeroThreadpool
