import BackendCpp.Library.Run

/-!
# The program of thrd_pool.c

The thread pool of `6. 池式组件/thrd_pool.c`: a ring of tasks behind one mutex, threads that
take from it and callers that post. What a thread does between taking and giving back the
mutex is one section; the pool is the data that the sections read and write. Around it stand
the threads, and whether the mutex and the pool are still there.
-/

namespace BackendCpp.ThrdPool

/-- `task_t`. The functions and their arguments are addresses. -/
structure Task where
  /-- The function. -/
  func : UInt64
  /-- Its argument. -/
  arg : UInt64
  deriving DecidableEq

/-- `task_queue_t`. -/
structure TaskQueue where
  /-- The place of the first task. -/
  head : UInt32
  /-- The place for the next task. -/
  tail : UInt32
  /-- The number of tasks. -/
  count : UInt32
  /-- The array. -/
  queue : Nat → Task

/-- `struct thread_pool_t`, without the mutex, the condition and the handles of the threads. -/
structure Pool where
  /-- The tasks. -/
  taskQueue : TaskQueue
  /-- Whether the pool is closed. -/
  closed : Int
  /-- The number of threads that have not left. -/
  started : Int
  /-- The number of threads. -/
  thrdCount : Int
  /-- The size of the array, as it is used in unsigned arithmetic. -/
  queueSize : UInt32

/-- `thread_pool_create`, when memory and threads are given. The array has the contents that
`malloc` left. -/
def threadPoolCreate (memory : Nat → Task) (thrdCount queueSize : Int32) : Option Pool :=
  if thrdCount ≤ 0 ∨ queueSize ≤ 0 then none
  else some
    { taskQueue := ⟨0, 0, 0, memory⟩
      closed := 0
      started := thrdCount.toInt
      thrdCount := thrdCount.toInt
      queueSize := queueSize.toUInt32 }

/-- `thread_pool_post`: the code and the pool. The two flags say whether
`pthread_mutex_lock` and `pthread_cond_signal` succeed. -/
def threadPoolPost (pool : Pool) (locks signals : Bool) (func arg : UInt64) : Int × Pool :=
  if func = 0 then (-1, pool)
  else if !locks then (-2, pool)
  else if pool.closed ≠ 0 then (-3, pool)
  else if pool.taskQueue.count = pool.queueSize then (-4, pool)
  else
    let que := pool.taskQueue
    let posted : Pool := { pool with
      taskQueue :=
        { que with
          queue := Function.update que.queue que.tail.toNat ⟨func, arg⟩
          tail := (que.tail + 1) % pool.queueSize
          count := que.count + 1 } }
    if !signals then (-5, posted) else (0, posted)

/-- How a section of `thread_worker` ends. -/
inductive Section
  | wait
  | leave (pool : Pool)
  | take (task : Task) (pool : Pool)

/-- A section of `thread_worker`, from taking the mutex, or from being woken up with it, to
giving it back. -/
def threadWorker (pool : Pool) : Section :=
  if pool.taskQueue.count = 0 ∧ pool.closed = 0 then .wait
  else if pool.closed = 1 then .leave { pool with started := pool.started - 1 }
  else
    let que := pool.taskQueue
    .take (que.queue que.head.toNat)
      { pool with
        taskQueue :=
          { que with
            head := (que.head + 1) % pool.queueSize
            count := que.count - 1 } }

/-- `thread_pool_free`: whether the memory is given back. -/
def threadPoolFree (pool : Pool) : Bool := !(pool.started > 0)

/-- Where a thread is. -/
inductive Phase
  /-- It is about to lock the mutex. -/
  | ready
  /-- It waits for the condition. -/
  | waiting
  /-- It runs a task. -/
  | running (task : Task)
  /-- It has left. -/
  | exited
  deriving DecidableEq

/-- The pool and its threads. -/
structure System where
  /-- The pool. -/
  pool : Pool
  /-- Whether the mutex stays locked for ever. -/
  stuck : Bool
  /-- Whether the pool has been given back. -/
  freed : Bool
  /-- Where each thread is. -/
  phase : Nat → Phase

/-- The system after `thread_pool_create`. -/
def System.initial (pool : Pool) : System := ⟨pool, false, false, fun _ => .ready⟩

/-- Whose turn it is. -/
inductive Action
  | post (func arg : UInt64)
  | worker (thread : Nat)
  | done (thread : Nat)
  | destroy
  | free

/-- What a step is seen to do. -/
inductive Event
  | posted (task : Task) (code : Int)
  | took (thread : Nat) (task : Task)
  | waits (thread : Nat)
  | leaves (thread : Nat)
  | ran (thread : Nat)
  | closes
  | refuses
  | frees
  deriving DecidableEq

/-- A step, when it is possible: a section needs the mutex and the pool. The calls of
`pthread` succeed. A null function is refused before the mutex is taken. A thread that waits
may be woken at any time. A second call of `thread_pool_destroy` returns with the mutex; the
first one waits for all threads and gives the pool back. -/
def System.exec (s : System) : Action → Option (Event × System)
  | .post func arg =>
    if func ≠ 0 ∧ (s.stuck ∨ s.freed) then none
    else
      let result := threadPoolPost s.pool true true func arg
      some (.posted ⟨func, arg⟩ result.1, { s with pool := result.2 })
  | .worker thread =>
    if s.stuck ∨ s.freed ∨ s.pool.thrdCount ≤ thread ∨
        ¬ (s.phase thread = .ready ∨ s.phase thread = .waiting) then none
    else
      match threadWorker s.pool with
      | .wait =>
        some (.waits thread, { s with phase := Function.update s.phase thread .waiting })
      | .leave pool =>
        some (.leaves thread,
          { s with pool := pool, phase := Function.update s.phase thread .exited })
      | .take task pool =>
        some (.took thread task,
          { s with pool := pool, phase := Function.update s.phase thread (.running task) })
  | .done thread =>
    match s.phase thread with
    | .running _ =>
      some (.ran thread, { s with phase := Function.update s.phase thread .ready })
    | .ready | .waiting | .exited => none
  | .destroy =>
    if s.stuck ∨ s.freed then none
    else if s.pool.closed ≠ 0 then
      some (.refuses, { s with stuck := true, freed := threadPoolFree s.pool })
    else some (.closes, { s with pool := { s.pool with closed := 1 } })
  | .free =>
    if s.stuck ∨ s.freed ∨ s.pool.closed = 0 ∨
        ¬ ((List.range s.pool.thrdCount.toNat).all fun thread => s.phase thread = .exited) then
      none
    else some (.frees, { s with freed := threadPoolFree s.pool })

/-- A step with what it is seen to do. -/
def Step (s : System) (event : Event) (next : System) : Prop :=
  ∃ action, s.exec action = some (event, next)

/-- The tasks whose `thread_pool_post` returned 0, in order. -/
def accepted (trace : List Event) : List Task :=
  trace.filterMap fun event =>
    match event with
    | .posted task code => if code = 0 then some task else none
    | _ => none

/-- The tasks that threads took, in order. -/
def taken (trace : List Event) : List Task :=
  trace.filterMap fun event =>
    match event with
    | .took _ task => some task
    | _ => none

end BackendCpp.ThrdPool
