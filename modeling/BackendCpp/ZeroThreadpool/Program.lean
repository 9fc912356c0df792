import Mathlib.Tactic

/-!
# The thread pool of zero_threadpool

Tasks are numbered by the `exec` that pushed them. A step is one atomic section: what is done
under `_mutex`, one operation on `_atomic`, or the end of a task. The pool is not stopped, so
`_bTerminate` is false throughout. A thread that waits on `_condition` may wake at any step, as
the standard allows, so who is notified makes no difference here.
-/

namespace BackendCpp.ZeroThreadpool

/-- `taskFunc`: what `_func` does is a part of the run. -/
structure TaskFunc where
  /-- The number of the task. -/
  id : Nat
  /-- `_expireTime`; zero for a task without a limit. -/
  expireTime : Int64

/-- Where a thread stands in `run`. -/
inductive Worker where
  /-- At the head of the loop, or in `get`. -/
  | idle
  /-- `get` returned the task; `_atomic` is not incremented yet. -/
  | taken (task : TaskFunc)
  /-- `_atomic` is incremented; the task has not ended. -/
  | running (task : TaskFunc)
  /-- The task has ended; `_atomic` is not decremented yet. -/
  | ended
  /-- `_atomic` is decremented; the locked notification is to come. -/
  | notifying

/-- Where the caller of `waitForAllDone` stands. -/
inductive Waiter where
  /-- It is not in the call. -/
  | outside
  /-- In `wait`, without a limit or with one. -/
  | waiting (limited : Bool)

/-- How a task ends. -/
inductive Ending where
  /-- Its function returned. -/
  | returned
  /-- Its function threw. -/
  | threw
  /-- It was expired and skipped. -/
  | skipped

/-- The pool with its threads and a caller of `waitForAllDone`. -/
structure State where
  /-- `_tasks`, front first. -/
  tasks : List TaskFunc
  /-- `_atomic`. -/
  atomic : Int
  /-- The threads. -/
  workers : Nat → Worker
  /-- The caller of `waitForAllDone`. -/
  waiter : Waiter
  /-- The number of tasks submitted so far. -/
  submitted : Nat
  /-- The tasks that had been submitted when `waitForAllDone` was called. -/
  before : Nat
  /-- The tasks that have ended. -/
  finished : List Nat

/-- What happens in a run. -/
inductive Event where
  /-- `exec` pushed a task and returned. -/
  | exec (id : Nat)
  /-- `get` gave a task to a thread. -/
  | got (worker id : Nat)
  /-- `++_atomic`. -/
  | counted (worker : Nat)
  /-- The task of a thread ended. -/
  | done (worker id : Nat) (ending : Ending)
  /-- `--_atomic`. -/
  | discounted (worker : Nat)
  /-- The locked section at the end of the loop of `run`; `all` tells whether it notifies. -/
  | notified (worker : Nat) (all : Bool)
  /-- `waitForAllDone` was called and waits. -/
  | called (milliseconds : Int)
  /-- A waiting `waitForAllDone` woke and went on waiting. -/
  | woke
  /-- `waitForAllDone` returned. -/
  | returned (answer : Bool)

/-- The expiry time that `exec` computes. -/
def expireTime (timeoutMs now : Int64) : Int64 := if timeoutMs = 0 then 0 else timeoutMs + now

/-- The test of `run` before the function is called. -/
def expired (task : TaskFunc) (now : Int64) : Prop := task.expireTime ≠ 0 ∧ task.expireTime < now

/-- A thread moves on. -/
def State.setWorker (state : State) (worker : Nat) (place : Worker) : State :=
  { state with workers := Function.update state.workers worker place }

/-- The task pushed by `exec`. -/
def State.push (state : State) (expire : Int64) : State :=
  { state with
    tasks := state.tasks ++ [⟨state.submitted, expire⟩]
    submitted := state.submitted + 1 }

/-- A task that has ended is recorded. -/
def State.finish (state : State) (id : Nat) : State :=
  { state with finished := id :: state.finished }

/-- One step of a pool with `threadNum` threads. -/
inductive Step (threadNum : Nat) : State → Event → State → Prop
  | exec {state : State} (timeoutMs now : Int64) :
      Step threadNum state (.exec state.submitted) (state.push (expireTime timeoutMs now))
  | get {state : State} {worker : Nat} {task : TaskFunc} {rest : List TaskFunc}
      (inside : worker < threadNum) (idle : state.workers worker = .idle)
      (front : state.tasks = task :: rest) :
      Step threadNum state (.got worker task.id)
        (State.setWorker { state with tasks := rest } worker (.taken task))
  | count {state : State} {worker : Nat} {task : TaskFunc}
      (taken : state.workers worker = .taken task) :
      Step threadNum state (.counted worker)
        (State.setWorker { state with atomic := state.atomic + 1 } worker (.running task))
  | skip {state : State} {worker : Nat} {task : TaskFunc} (now : Int64)
      (running : state.workers worker = .running task) (late : expired task now) :
      Step threadNum state (.done worker task.id .skipped)
        ((state.setWorker worker .ended).finish task.id)
  | run {state : State} {worker : Nat} {task : TaskFunc} (now : Int64) (throws : Bool)
      (running : state.workers worker = .running task) (timely : ¬ expired task now) :
      Step threadNum state (.done worker task.id (if throws then .threw else .returned))
        ((state.setWorker worker .ended).finish task.id)
  | discount {state : State} {worker : Nat} (ended : state.workers worker = .ended) :
      Step threadNum state (.discounted worker)
        (State.setWorker { state with atomic := state.atomic - 1 } worker .notifying)
  | notify {state : State} {worker : Nat} (notifying : state.workers worker = .notifying) :
      Step threadNum state
        (.notified worker (decide (state.atomic = 0 ∧ state.tasks.isEmpty = true)))
        (state.setWorker worker .idle)
  | callEmpty {state : State} (outside : state.waiter = .outside)
      (empty : state.tasks.isEmpty = true) :
      Step threadNum state (.returned true) { state with before := state.submitted }
  | callZero {state : State} (outside : state.waiter = .outside)
      (filled : ¬ state.tasks.isEmpty = true) :
      Step threadNum state (.returned false) { state with before := state.submitted }
  | call {state : State} (milliseconds : Int) (outside : state.waiter = .outside)
      (filled : ¬ state.tasks.isEmpty = true) (waits : milliseconds ≠ 0) :
      Step threadNum state (.called milliseconds)
        { state with before := state.submitted, waiter := .waiting (decide (milliseconds > 0)) }
  | wake {state : State} {limited : Bool} (waiting : state.waiter = .waiting limited)
      (filled : ¬ state.tasks.isEmpty = true) :
      Step threadNum state .woke state
  | wakeEmpty {state : State} {limited : Bool} (waiting : state.waiter = .waiting limited)
      (empty : state.tasks.isEmpty = true) :
      Step threadNum state (.returned true) { state with waiter := .outside }
  | timeout {state : State} (waiting : state.waiter = .waiting true) :
      Step threadNum state (.returned state.tasks.isEmpty) { state with waiter := .outside }

/-- A pool just started. -/
def started : State := ⟨[], 0, fun _ => .idle, .outside, 0, 0, []⟩

end BackendCpp.ZeroThreadpool
