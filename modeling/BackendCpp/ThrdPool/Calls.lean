import BackendCpp.ThrdPool.Program

/-!
# The calls of thrd_pool.c, statement by statement

`thread_pool_post` and `thread_pool_destroy` with the mutex they share with the threads of the
pool. A caller is before one of the statements of the function it is in; it waits where
`pthread_mutex_lock` waits. A caller that locks the mutex a second time waits for itself and
does not come back. What a thread does while it has the mutex is one step.
-/

namespace BackendCpp.ThrdPool

/-- Who can have the mutex. -/
inductive Party
  /-- A caller of the functions. -/
  | caller (number : Nat)
  /-- A thread of the pool. -/
  | worker (thread : Nat)
  deriving DecidableEq

/-- The statement that a caller is before. In `thread_pool_post` it knows its task, and `entered`
is the pool as it was when the caller took the mutex. -/
inductive CallPoint
  | outside
  | postLock (task : Task)
  | postClosed (task : Task) (entered : Pool)
  | postFull (task : Task) (entered : Pool)
  | postWrite (task : Task) (entered : Pool)
  | postSignal (task : Task) (entered : Pool)
  | postUnlock (task : Task) (code : Int) (entered : Pool)
  | destroyLock
  | destroyClosed
  | destroyBroadcast
  | destroyUnlock
  | destroyJoin
  | free (code : Int)
  | freeLock (code : Int)
  | freeDestroy (code : Int)
  | deadlocked

/-- Whether the caller is in neither function. -/
def CallPoint.isOutside : CallPoint → Bool
  | .outside => true
  | .postLock _ | .postClosed _ _ | .postFull _ _ | .postWrite _ _ | .postSignal _ _
  | .postUnlock _ _ _ | .destroyLock | .destroyClosed | .destroyBroadcast | .destroyUnlock
  | .destroyJoin | .free _ | .freeLock _ | .freeDestroy _ | .deadlocked => false

/-- The pool, its mutex, those who call and the threads. -/
structure Locking where
  /-- The pool. -/
  pool : Pool
  /-- Who has `pool->mutex`. -/
  owner : Option Party
  /-- Whether the mutex was locked by someone who had it already. -/
  relocked : Bool
  /-- Whether the pool has been given back. -/
  freed : Bool
  /-- Where each caller is. -/
  point : Nat → CallPoint
  /-- Where each thread is. -/
  phase : Nat → Phase

/-- A pool that nobody has called yet. -/
def Locking.initial (pool : Pool) : Locking :=
  ⟨pool, none, false, false, fun _ => .outside, fun _ => .ready⟩

/-- What a call is seen to do: it goes on or it returns its code. For `thread_pool_post` the pool
is given as it was when the caller took the mutex and as it is when the caller gives it back; a
call that did not take it has the pool twice. -/
inductive CallEvent
  | goes
  | posted (caller : Nat) (task : Task) (code : Int) (entered left : Pool)
  | destroyed (caller : Nat) (code : Int)

/-- The caller goes to the next statement. -/
def Locking.go (s : Locking) (caller : Nat) (next : CallPoint) : CallEvent × Locking :=
  (.goes, { s with point := Function.update s.point caller next })

/-- `return code` in `thread_pool_destroy`. -/
def Locking.ret (s : Locking) (caller : Nat) (code : Int) : CallEvent × Locking :=
  (.destroyed caller code, { s with point := Function.update s.point caller .outside })

/-- `pthread_mutex_lock`, which waits while somebody has the mutex. -/
def Locking.lock (s : Locking) (caller : Nat) (next : CallPoint) :
    Option (CallEvent × Locking) :=
  if s.owner = none then some (Locking.go { s with owner := some (.caller caller) } caller next)
  else if s.owner = some (.caller caller) then
    some (Locking.go { s with relocked := true } caller .deadlocked)
  else none

/-- The four statements that write a task into the array. -/
def Pool.write (pool : Pool) (task : Task) : Pool :=
  let que := pool.taskQueue
  { pool with
    taskQueue :=
      { que with
        queue := Function.update que.queue que.tail.toNat task
        tail := (que.tail + 1) % pool.queueSize
        count := que.count + 1 } }

/-- The statement that the caller is before. `succeeds` is the outcome of the first
`pthread_mutex_lock`, of `pthread_cond_signal` or of `pthread_cond_broadcast`, when that is the
statement. `pthread_mutex_unlock` succeeds for who has the mutex. `pthread_mutex_destroy` does not
unlock: at the end of `thread_pool_free` the caller still has what it locked there. -/
def Locking.callNext (s : Locking) (caller : Nat) (succeeds : Bool) :
    Option (CallEvent × Locking) :=
  match s.point caller with
  | .outside => none
  | .postLock task =>
    if !succeeds then
      some (.posted caller task (-2) s.pool s.pool,
        { s with point := Function.update s.point caller .outside })
    else s.lock caller (.postClosed task s.pool)
  | .postClosed task entered =>
    if s.pool.closed ≠ 0 then some (s.go caller (.postUnlock task (-3) entered))
    else some (s.go caller (.postFull task entered))
  | .postFull task entered =>
    if s.pool.taskQueue.count = s.pool.queueSize then
      some (s.go caller (.postUnlock task (-4) entered))
    else some (s.go caller (.postWrite task entered))
  | .postWrite task entered =>
    some (Locking.go { s with pool := s.pool.write task } caller (.postSignal task entered))
  | .postSignal task entered =>
    if !succeeds then some (s.go caller (.postUnlock task (-5) entered))
    else some (s.go caller (.postUnlock task 0 entered))
  | .postUnlock task code entered =>
    some (.posted caller task code entered s.pool,
      { s with owner := none, point := Function.update s.point caller .outside })
  | .destroyLock =>
    if !succeeds then some (s.ret caller (-2)) else s.lock caller .destroyClosed
  | .destroyClosed =>
    if s.pool.closed ≠ 0 then some (s.go caller (.free (-3)))
    else some (Locking.go { s with pool := { s.pool with closed := 1 } } caller .destroyBroadcast)
  | .destroyBroadcast =>
    if !succeeds then some (s.go caller (.free (-4))) else some (s.go caller .destroyUnlock)
  | .destroyUnlock => some (Locking.go { s with owner := none } caller .destroyJoin)
  | .destroyJoin =>
    if (List.range s.pool.thrdCount.toNat).all fun thread => s.phase thread = .exited then
      some (s.go caller (.free 0))
    else none
  | .free code =>
    if threadPoolFree s.pool then some (s.go caller (.freeLock code)) else some (s.ret caller code)
  | .freeLock code => s.lock caller (.freeDestroy code)
  | .freeDestroy code => some (Locking.ret { s with freed := true } caller code)
  | .deadlocked => none

/-- What a thread does next: it takes the mutex, does a section and gives the mutex back, or ends
its task. `pthread_cond_wait` gives the mutex back and takes it again when the thread is woken. -/
def Locking.workerNext (s : Locking) (thread : Nat) : Option (CallEvent × Locking) :=
  if s.owner = some (.worker thread) then
    match threadWorker s.pool with
    | .wait =>
      some (.goes, { s with owner := none, phase := Function.update s.phase thread .waiting })
    | .leave pool =>
      some (.goes,
        { s with owner := none, pool := pool, phase := Function.update s.phase thread .exited })
    | .take task pool =>
      some (.goes,
        { s with owner := none, pool := pool,
                 phase := Function.update s.phase thread (.running task) })
  else
    match s.phase thread with
    | .ready | .waiting =>
      if s.owner = none then some (.goes, { s with owner := some (.worker thread) }) else none
    | .running _ => some (.goes, { s with phase := Function.update s.phase thread .ready })
    | .exited => none

/-- Whose turn it is. A caller begins a call, with a pointer to the pool that may be null, or goes
on with the one it is in; or it is the turn of a thread. -/
inductive Move
  | post (caller : Nat) (null : Bool) (func arg : UInt64)
  | destroy (caller : Nat) (null : Bool)
  | call (caller : Nat) (succeeds : Bool)
  | worker (thread : Nat)

/-- A step, when it is possible. Nobody goes on with a pool that has been given back. -/
def Locking.exec (s : Locking) : Move → Option (CallEvent × Locking)
  | .post caller null func arg =>
    if !(s.point caller).isOutside then none
    else if null ∨ func = 0 then some (.posted caller ⟨func, arg⟩ (-1) s.pool s.pool, s)
    else if s.freed then none
    else some (s.go caller (.postLock ⟨func, arg⟩))
  | .destroy caller null =>
    if !(s.point caller).isOutside then none
    else if null then some (.destroyed caller (-1), s)
    else if s.freed then none
    else some (s.go caller .destroyLock)
  | .call caller succeeds => if s.freed then none else s.callNext caller succeeds
  | .worker thread =>
    if s.freed ∨ s.pool.thrdCount ≤ thread then none else s.workerNext thread

end BackendCpp.ThrdPool
