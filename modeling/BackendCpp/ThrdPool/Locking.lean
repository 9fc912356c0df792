import BackendCpp.Library.Run
import BackendCpp.ThrdPool.Calls

/-!
# Who has the mutex when a call returns

A caller inside a call has the mutex, and nobody else then changes the pool: a post that returns
did what `threadPoolPost` does to the pool at the moment when it took the mutex. The mutex is kept
on return, or locked twice, when `thread_pool_destroy` finds the pool closed, when its broadcast
fails, and when it gives the pool back: `thread_pool_free` locks the mutex and destroys it without
unlocking it. A post that fails changes the queue only when its signal fails.
-/

namespace BackendCpp.ThrdPool

open BackendCpp.Library

/-- The statements before which the caller has the mutex by its own function. -/
def CallPoint.holds : CallPoint → Bool
  | .postClosed _ _ | .postFull _ _ | .postWrite _ _ | .postSignal _ _ | .postUnlock _ _ _
  | .destroyClosed | .destroyBroadcast | .destroyUnlock | .freeDestroy _ => true
  | .outside | .postLock _ | .destroyLock | .destroyJoin | .free _ | .freeLock _
  | .deadlocked => false

/-- Outside the calls there is none. -/
theorem CallPoint.holds_outside {point : CallPoint} (outside : point.isOutside = true) :
    point.holds = false := by
  cases point <;> first | rfl | cases outside

/-- What the caller knows of the pool before a statement of `thread_pool_post`. -/
def Pending (pool : Pool) : CallPoint → Prop
  | .postLock task => task.func ≠ 0
  | .postClosed task entered => task.func ≠ 0 ∧ entered = pool
  | .postFull task entered => task.func ≠ 0 ∧ entered = pool ∧ entered.closed = 0
  | .postWrite task entered =>
    task.func ≠ 0 ∧ entered = pool ∧ entered.closed = 0 ∧
      entered.taskQueue.count ≠ entered.queueSize
  | .postSignal task entered =>
    task.func ≠ 0 ∧ entered.write task = pool ∧ entered.closed = 0 ∧
      entered.taskQueue.count ≠ entered.queueSize
  | .postUnlock task code entered =>
    ∃ signals, threadPoolPost entered true signals task.func task.arg = (code, pool)
  | .outside | .destroyLock | .destroyClosed | .destroyBroadcast | .destroyUnlock | .destroyJoin
  | .free _ | .freeLock _ | .freeDestroy _ | .deadlocked => True

/-- Without the mutex the caller knows nothing of the pool. -/
theorem Pending.elsewhere {pool other : Pool} {point : CallPoint} (pending : Pending pool point)
    (without : point.holds = false) : Pending other point := by
  cases point <;> first | exact pending | cases without

/-- The callers that need the mutex have it. -/
structure Exclusive (pool : Pool) (owner : Option Party) (point : Nat → CallPoint) : Prop where
  /-- Who is before such a statement has it. -/
  holder : ∀ caller, (point caller).holds = true → owner = some (.caller caller)
  /-- What each caller knows of the pool is so. -/
  pending : ∀ caller, Pending pool (point caller)

section

variable {pool pool' : Pool} {owner owner' : Option Party} {point : Nat → CallPoint}
  {caller : Nat} {next : CallPoint}

/-- One caller goes on, and takes nothing from another that has the mutex. -/
theorem Exclusive.update (exclusive : Exclusive pool owner point)
    (others : ∀ other, other ≠ caller → owner = some (.caller other) →
      owner' = some (.caller other) ∧ pool' = pool)
    (mine : next.holds = true → owner' = some (.caller caller)) (pending : Pending pool' next) :
    Exclusive pool' owner' (Function.update point caller next) := by
  refine ⟨?_, ?_⟩
  · intro other holds
    by_cases same : other = caller
    · rw [same, Function.update_self] at holds
      rw [same]
      exact mine holds
    · rw [Function.update_of_ne same] at holds
      exact (others other same (exclusive.holder other holds)).1
  · intro other
    by_cases same : other = caller
    · rw [same, Function.update_self]
      exact pending
    · rw [Function.update_of_ne same]
      cases holds : (point other).holds with
      | true =>
        rw [(others other same (exclusive.holder other holds)).2]
        exact exclusive.pending other
      | false => exact (exclusive.pending other).elsewhere holds

/-- A statement that changes neither the mutex nor the pool. -/
theorem Exclusive.stay (exclusive : Exclusive pool owner point)
    (mine : next.holds = true → owner = some (.caller caller)) (pending : Pending pool next) :
    Exclusive pool owner (Function.update point caller next) :=
  exclusive.update (fun _ _ other => ⟨other, rfl⟩) mine pending

/-- A statement of a caller that has the mutex. -/
theorem Exclusive.act (exclusive : Exclusive pool owner point)
    (holds : owner = some (.caller caller))
    (mine : next.holds = true → owner' = some (.caller caller)) (pending : Pending pool' next) :
    Exclusive pool' owner' (Function.update point caller next) := by
  refine exclusive.update ?_ mine pending
  intro other different has
  rw [holds] at has
  cases has
  exact absurd rfl different

/-- When no caller has the mutex, a thread may take it or change the pool. -/
theorem Exclusive.section (exclusive : Exclusive pool owner point)
    (without : ∀ caller, owner ≠ some (.caller caller)) : Exclusive pool' owner' point := by
  have none_holds : ∀ caller, (point caller).holds = false := by
    intro caller
    by_contra holds
    exact without caller (exclusive.holder caller (Bool.eq_true_of_not_eq_false holds))
  refine ⟨?_, ?_⟩
  · intro caller holds
    rw [none_holds caller] at holds
    cases holds
  · intro caller
    exact (exclusive.pending caller).elsewhere (none_holds caller)

end

section

variable {s next : Locking} {event : CallEvent} {caller : Nat} {succeeds : Bool}
  {point : CallPoint}

/-- `pthread_mutex_lock` takes a mutex that is free, or waits for itself. -/
theorem Locking.lock_cases (step : s.lock caller point = some (event, next)) :
    event = .goes ∧
    ((s.owner = none ∧ next = { s with
        owner := some (.caller caller), point := Function.update s.point caller point }) ∨
      (s.owner = some (.caller caller) ∧ next = { s with
        relocked := true, point := Function.update s.point caller .deadlocked })) := by
  simp only [Locking.lock, Locking.go] at step
  split at step
  case isTrue free =>
    cases step
    exact ⟨rfl, Or.inl ⟨free, rfl⟩⟩
  case isFalse =>
    split at step
    case isTrue mine =>
      cases step
      exact ⟨rfl, Or.inr ⟨mine, rfl⟩⟩
    case isFalse => cases step

/-- It keeps the callers apart. -/
theorem Locking.lock_exclusive (exclusive : Exclusive s.pool s.owner s.point)
    (step : s.lock caller point = some (event, next)) (pending : Pending s.pool point) :
    Exclusive next.pool next.owner next.point := by
  obtain ⟨-, ⟨free, rfl⟩ | ⟨mine, rfl⟩⟩ := Locking.lock_cases step
  · refine exclusive.update ?_ (fun _ => rfl) pending
    intro other _ has
    rw [free] at has
    cases has
  · exact exclusive.stay (fun _ => mine) trivial

/-- A post that returns did what `threadPoolPost` does to the pool as it was when the mutex was
taken; without a pool it returns -1. -/
def Recorded : CallEvent → Prop
  | .posted _ task code entered left =>
    (code = -1 ∧ left = entered) ∨
      ∃ locks signals, threadPoolPost entered locks signals task.func task.arg = (code, left)
  | .goes | .destroyed _ _ => True

/-- Each statement of a call keeps the callers apart, and a post that returns is recorded. -/
theorem Locking.callNext_exclusive (exclusive : Exclusive s.pool s.owner s.point)
    (step : s.callNext caller succeeds = some (event, next)) :
    Exclusive next.pool next.owner next.point ∧ Recorded event := by
  have holder := exclusive.holder caller
  have pending := exclusive.pending caller
  cases here : s.point caller with
  | outside =>
    simp only [Locking.callNext, here] at step
    cases step
  | postLock task =>
    simp only [Locking.callNext, here] at step
    rw [here] at pending
    split at step
    · cases step
      refine ⟨exclusive.stay (fun holds => by cases holds) trivial, Or.inr ⟨false, true, ?_⟩⟩
      rw [threadPoolPost, if_neg pending]
      rfl
    · have goes := (Locking.lock_cases step).1
      rw [goes]
      exact ⟨Locking.lock_exclusive exclusive step ⟨pending, rfl⟩, trivial⟩
  | postClosed task entered =>
    simp only [Locking.callNext, here] at step
    rw [here] at pending holder
    obtain ⟨func, same⟩ := pending
    split at step
    case isTrue closed =>
      cases step
      refine ⟨exclusive.stay (fun _ => holder rfl) ⟨true, ?_⟩, trivial⟩
      rw [← same] at closed
      rw [threadPoolPost, if_neg func, if_neg (by decide), if_pos closed, same]
    case isFalse opened =>
      cases step
      refine ⟨exclusive.stay (fun _ => holder rfl) ⟨func, same, ?_⟩, trivial⟩
      rw [same]
      exact not_not.mp opened
  | postFull task entered =>
    simp only [Locking.callNext, here] at step
    rw [here] at pending holder
    obtain ⟨func, same, opened⟩ := pending
    split at step
    case isTrue full =>
      cases step
      refine ⟨exclusive.stay (fun _ => holder rfl) ⟨true, ?_⟩, trivial⟩
      rw [← same] at full
      rw [threadPoolPost, if_neg func, if_neg (by decide), if_neg (not_not.mpr opened),
        if_pos full, same]
    case isFalse room =>
      cases step
      rw [← same] at room
      exact ⟨exclusive.stay (fun _ => holder rfl) ⟨func, same, opened, room⟩, trivial⟩
  | postWrite task entered =>
    simp only [Locking.callNext, here] at step
    rw [here] at pending holder
    obtain ⟨func, same, opened, room⟩ := pending
    cases step
    refine ⟨exclusive.act (holder rfl) (fun _ => holder rfl) ⟨func, ?_, opened, room⟩, trivial⟩
    rw [same]
  | postSignal task entered =>
    simp only [Locking.callNext, here] at step
    rw [here] at pending holder
    obtain ⟨func, same, opened, room⟩ := pending
    have posted : ∀ signals : Bool, threadPoolPost entered true signals task.func task.arg =
        (if !signals then (-5, s.pool) else (0, s.pool)) := by
      intro signals
      rw [threadPoolPost, if_neg func, if_neg (by decide), if_neg (not_not.mpr opened),
        if_neg room, ← same]
      rfl
    split at step
    · cases step
      exact ⟨exclusive.stay (fun _ => holder rfl) ⟨false, posted false⟩, trivial⟩
    · cases step
      exact ⟨exclusive.stay (fun _ => holder rfl) ⟨true, posted true⟩, trivial⟩
  | postUnlock task code entered =>
    simp only [Locking.callNext, here] at step
    rw [here] at pending holder
    obtain ⟨signals, posted⟩ := pending
    cases step
    refine ⟨exclusive.act (holder rfl) (fun holds => by cases holds) trivial, Or.inr ?_⟩
    exact ⟨true, signals, posted⟩
  | destroyLock =>
    simp only [Locking.callNext, here, Locking.ret] at step
    split at step
    · cases step
      exact ⟨exclusive.stay (fun holds => by cases holds) trivial, trivial⟩
    · have goes := (Locking.lock_cases step).1
      rw [goes]
      exact ⟨Locking.lock_exclusive exclusive step trivial, trivial⟩
  | destroyClosed =>
    simp only [Locking.callNext, here, Locking.go] at step
    rw [here] at holder
    split at step
    · cases step
      exact ⟨exclusive.stay (fun _ => holder rfl) trivial, trivial⟩
    · cases step
      exact ⟨exclusive.act (holder rfl) (fun _ => holder rfl) trivial, trivial⟩
  | destroyBroadcast =>
    simp only [Locking.callNext, here, Locking.go] at step
    rw [here] at holder
    split at step
    · cases step
      exact ⟨exclusive.stay (fun _ => holder rfl) trivial, trivial⟩
    · cases step
      exact ⟨exclusive.stay (fun _ => holder rfl) trivial, trivial⟩
  | destroyUnlock =>
    simp only [Locking.callNext, here, Locking.go] at step
    rw [here] at holder
    cases step
    exact ⟨exclusive.act (holder rfl) (fun holds => by cases holds) trivial, trivial⟩
  | destroyJoin =>
    simp only [Locking.callNext, here, Locking.go] at step
    split at step
    · cases step
      exact ⟨exclusive.stay (fun holds => by cases holds) trivial, trivial⟩
    · cases step
  | free code =>
    simp only [Locking.callNext, here, Locking.go, Locking.ret] at step
    split at step
    · cases step
      exact ⟨exclusive.stay (fun holds => by cases holds) trivial, trivial⟩
    · cases step
      exact ⟨exclusive.stay (fun holds => by cases holds) trivial, trivial⟩
  | freeLock code =>
    simp only [Locking.callNext, here] at step
    have goes := (Locking.lock_cases step).1
    rw [goes]
    exact ⟨Locking.lock_exclusive exclusive step trivial, trivial⟩
  | freeDestroy code =>
    simp only [Locking.callNext, here, Locking.ret] at step
    cases step
    exact ⟨exclusive.stay (fun holds => by cases holds) trivial, trivial⟩
  | deadlocked =>
    simp only [Locking.callNext, here] at step
    cases step

/-- A thread does not touch the callers, nor the pool and the mutex while a caller has it. -/
theorem Locking.workerNext_cases {thread : Nat}
    (step : s.workerNext thread = some (event, next)) :
    event = .goes ∧ next.point = s.point ∧ next.relocked = s.relocked ∧
    ((next.pool = s.pool ∧ next.owner = s.owner) ∨
      ((∀ caller, s.owner ≠ some (.caller caller)) ∧
        ∀ caller, next.owner ≠ some (.caller caller))) := by
  have nobody : ∀ caller, (none : Option Party) ≠ some (.caller caller) := by
    intro caller has
    cases has
  have worker : ∀ caller, some (Party.worker thread) ≠ some (.caller caller) := by
    intro caller has
    cases has
  simp only [Locking.workerNext] at step
  split at step
  case isTrue mine =>
    rw [mine]
    split at step
    · cases step
      exact ⟨rfl, rfl, rfl, Or.inr ⟨worker, nobody⟩⟩
    · cases step
      exact ⟨rfl, rfl, rfl, Or.inr ⟨worker, nobody⟩⟩
    · cases step
      exact ⟨rfl, rfl, rfl, Or.inr ⟨worker, nobody⟩⟩
  case isFalse =>
    split at step
    · split at step
      case isTrue free =>
        rw [free]
        cases step
        exact ⟨rfl, rfl, rfl, Or.inr ⟨nobody, worker⟩⟩
      case isFalse => cases step
    · split at step
      case isTrue free =>
        rw [free]
        cases step
        exact ⟨rfl, rfl, rfl, Or.inr ⟨nobody, worker⟩⟩
      case isFalse => cases step
    · cases step
      exact ⟨rfl, rfl, rfl, Or.inl ⟨rfl, rfl⟩⟩
    · cases step

/-- A call is refused before it looks at the pool, or begins, or goes on; or a thread does. -/
inductive Moves (s : Locking) : Move → CallEvent → Locking → Prop
  | refused {caller : Nat} {null : Bool} {func arg : UInt64} :
      Moves s (.post caller null func arg) (.posted caller ⟨func, arg⟩ (-1) s.pool s.pool) s
  | posts {caller : Nat} {null : Bool} {func arg : UInt64}
      (outside : (s.point caller).isOutside = true) (given : func ≠ 0) :
      Moves s (.post caller null func arg) .goes
        { s with point := Function.update s.point caller (.postLock ⟨func, arg⟩) }
  | returned {caller : Nat} {null : Bool} :
      Moves s (.destroy caller null) (.destroyed caller (-1)) s
  | destroys {caller : Nat} {null : Bool} (outside : (s.point caller).isOutside = true) :
      Moves s (.destroy caller null) .goes
        { s with point := Function.update s.point caller .destroyLock }
  | call {caller : Nat} {succeeds : Bool} {event : CallEvent} {next : Locking}
      (step : s.callNext caller succeeds = some (event, next)) :
      Moves s (.call caller succeeds) event next
  | worker {thread : Nat} {event : CallEvent} {next : Locking}
      (step : s.workerNext thread = some (event, next)) : Moves s (.worker thread) event next

/-- Every step is one of these. -/
theorem Locking.exec_moves {move : Move} (step : s.exec move = some (event, next)) :
    Moves s move event next := by
  cases move with
  | post caller null func arg =>
    simp only [Locking.exec, Locking.go] at step
    split at step
    case isTrue => cases step
    case isFalse inside =>
      split at step
      case isTrue =>
        cases step
        exact .refused
      case isFalse given =>
        split at step
        · cases step
        · cases step
          exact .posts (by simpa using inside) fun zero => given (Or.inr zero)
  | destroy caller null =>
    simp only [Locking.exec, Locking.go] at step
    split at step
    case isTrue => cases step
    case isFalse inside =>
      split at step
      · cases step
        exact .returned
      · split at step
        · cases step
        · cases step
          exact .destroys (by simpa using inside)
  | call caller succeeds =>
    simp only [Locking.exec] at step
    split at step
    · cases step
    · exact .call step
  | worker thread =>
    simp only [Locking.exec] at step
    split at step
    · cases step
    · exact .worker step

/-- So does every step of the callers and the threads. -/
theorem Locking.exec_exclusive {move : Move} (exclusive : Exclusive s.pool s.owner s.point)
    (step : s.exec move = some (event, next)) :
    Exclusive next.pool next.owner next.point ∧ Recorded event := by
  cases Locking.exec_moves step with
  | refused => exact ⟨exclusive, Or.inl ⟨rfl, rfl⟩⟩
  | posts outside given =>
    exact ⟨exclusive.stay (fun holds => by cases holds) given, trivial⟩
  | returned => exact ⟨exclusive, trivial⟩
  | destroys outside => exact ⟨exclusive.stay (fun holds => by cases holds) trivial, trivial⟩
  | call step => exact Locking.callNext_exclusive exclusive step
  | worker step =>
    obtain ⟨goes, points, -, ⟨pool, owner⟩ | ⟨without, -⟩⟩ := Locking.workerNext_cases step
    · rw [goes, points, pool, owner]
      exact ⟨exclusive, trivial⟩
    · rw [goes, points]
      exact ⟨exclusive.section without, trivial⟩

end

/-- A step of the callers and the threads. -/
def CallStep (s : Locking) (event : CallEvent) (next : Locking) : Prop :=
  ∃ move, s.exec move = some (event, next)

/-- Before the first call nobody is apart from anybody. -/
theorem Exclusive.initial (pool : Pool) : Exclusive pool none fun _ => .outside :=
  ⟨fun _ holds => Bool.noConfusion holds, fun _ => trivial⟩

/-- A pool with one thread and room for one task, before the first call. -/
def oneThread : Pool := ⟨⟨0, 0, 0, fun _ => ⟨0, 0⟩⟩, 0, 1, 1, 1⟩

/-- A post that fails leaves the queue as it was unless it fails with -5. -/
theorem threadPoolPost_unchanged {pool next : Pool} {locks signals : Bool} {func arg : UInt64}
    {code : Int} (posted : threadPoolPost pool locks signals func arg = (code, next))
    (failed : code < 0) : next.taskQueue = pool.taskQueue ↔ code ≠ -5 := by
  have written : ∀ task, (pool.write task).taskQueue ≠ pool.taskQueue := by
    intro task same
    have count : pool.taskQueue.count + 1 = pool.taskQueue.count :=
      congrArg TaskQueue.count same
    have counted := congrArg UInt32.toNat count
    have bound := pool.taskQueue.count.toNat_lt
    rw [UInt32.toNat_add] at counted
    change (pool.taskQueue.count.toNat + 1) % 2 ^ 32 = pool.taskQueue.count.toNat at counted
    omega
  rw [threadPoolPost] at posted
  split at posted
  · cases posted
    exact iff_of_true rfl (by decide)
  · split at posted
    · cases posted
      exact iff_of_true rfl (by decide)
    · split at posted
      · cases posted
        exact iff_of_true rfl (by decide)
      · split at posted
        · cases posted
          exact iff_of_true rfl (by decide)
        · simp only at posted
          split at posted
          · cases posted
            exact iff_of_false (written ⟨func, arg⟩) (fun other => other rfl)
          · cases posted
            exact absurd failed (by decide)

/-- The condition on a step: a signal and a broadcast succeed, `thread_pool_destroy` finds the pool
open, and `thread_pool_free` does not give it back. -/
def Careful (s : Locking) : Move → Prop
  | .call caller succeeds =>
    match s.point caller with
    | .postSignal _ _ | .destroyBroadcast => succeeds = true
    | .destroyClosed => s.pool.closed = 0
    | .free _ => threadPoolFree s.pool = false
    | _ => True
  | .post _ _ _ _ | .destroy _ _ | .worker _ => True

/-- A step that meets it. -/
def CarefulStep (s : Locking) (event : CallEvent) (next : Locking) : Prop :=
  ∃ move, Careful s move ∧ s.exec move = some (event, next)

/-- Outside the calls nobody has the mutex, it was not locked by who had it, and a post that
failed left the queue as it was. -/
structure Disciplined (s : Locking) (trace : List CallEvent) : Prop where
  /-- Who has returned does not have the mutex. -/
  given : ∀ caller, (s.point caller).isOutside = true → s.owner ≠ some (.caller caller)
  /-- Nobody locked it twice. -/
  once : s.relocked = false
  /-- A post with a negative code changed nothing. -/
  atomic : ∀ caller task code entered left,
    CallEvent.posted caller task code entered left ∈ trace → code < 0 →
      left.taskQueue = entered.taskQueue

/-- The statements that a careful call comes to: no post is about to return -5, and
`thread_pool_free` goes no further than its first test. -/
def CallPoint.isCareful : CallPoint → Prop
  | .postUnlock _ code _ => code ≠ -5
  | .freeLock _ | .freeDestroy _ => False
  | .outside | .postLock _ | .postClosed _ _ | .postFull _ _ | .postWrite _ _ | .postSignal _ _
  | .destroyLock | .destroyClosed | .destroyBroadcast | .destroyUnlock | .destroyJoin | .free _
  | .deadlocked => True

/-- The invariant of careful runs. -/
structure Kept (s : Locking) : Prop where
  /-- The callers are apart. -/
  exclusive : Exclusive s.pool s.owner s.point
  /-- Who has the mutex is before a statement where it should have it. -/
  owned : ∀ caller, s.owner = some (.caller caller) → (s.point caller).holds = true
  /-- Nobody locked it twice. -/
  once : s.relocked = false
  /-- Each caller is before a statement of a careful call. -/
  careful : ∀ caller, (s.point caller).isCareful

section

variable {s next : Locking} {event : CallEvent} {caller : Nat} {succeeds : Bool}
  {point : CallPoint}

/-- One caller goes on. -/
theorem Kept.move (kept : Kept s) (exclusive : Exclusive next.pool next.owner next.point)
    (points : next.point = Function.update s.point caller point)
    (once : next.relocked = s.relocked)
    (mine : next.owner = some (.caller caller) → point.holds = true)
    (others : ∀ other, other ≠ caller → next.owner = some (.caller other) →
      s.owner = some (.caller other))
    (careful : point.isCareful) : Kept next := by
  refine ⟨exclusive, ?_, once.trans kept.once, ?_⟩
  · intro other has
    rw [points]
    by_cases same : other = caller
    · rw [same] at has ⊢
      rw [Function.update_self]
      exact mine has
    · rw [Function.update_of_ne same]
      exact kept.owned other (others other same has)
  · intro other
    rw [points]
    by_cases same : other = caller
    · rw [same, Function.update_self]
      exact careful
    · rw [Function.update_of_ne same]
      exact kept.careful other

/-- A statement that does not change the mutex, before which the caller has the mutex only if it
has it afterwards. -/
theorem Kept.stay (kept : Kept s) (exclusive : Exclusive next.pool next.owner next.point)
    (points : next.point = Function.update s.point caller point)
    (once : next.relocked = s.relocked) (owner : next.owner = s.owner)
    (holds : (s.point caller).holds = true → point.holds = true)
    (careful : point.isCareful) : Kept next := by
  refine kept.move exclusive points once ?_ ?_ careful
  · intro has
    rw [owner] at has
    exact holds (kept.owned caller has)
  · intro other _ has
    rw [owner] at has
    exact has

/-- A statement that gives the mutex back. -/
theorem Kept.give (kept : Kept s) (exclusive : Exclusive next.pool next.owner next.point)
    (points : next.point = Function.update s.point caller point)
    (once : next.relocked = s.relocked) (owner : next.owner = none)
    (careful : point.isCareful) : Kept next := by
  refine kept.move exclusive points once ?_ ?_ careful
  · intro has
    rw [owner] at has
    cases has
  · intro other _ has
    rw [owner] at has
    cases has

/-- A `pthread_mutex_lock` of a caller that does not have the mutex. -/
theorem Kept.lock (kept : Kept s) (exclusive : Exclusive next.pool next.owner next.point)
    (step : s.lock caller point = some (event, next))
    (without : (s.point caller).holds = false) (inside : point.holds = true)
    (careful : point.isCareful) : Kept next := by
  obtain ⟨-, ⟨free, rfl⟩ | ⟨mine, -⟩⟩ := Locking.lock_cases step
  · refine kept.move exclusive rfl rfl (fun _ => inside) ?_ careful
    intro other different has
    cases has
    exact absurd rfl different
  · have holds := kept.owned caller mine
    rw [without] at holds
    cases holds

/-- Each statement of a careful call keeps the invariant. -/
theorem Kept.callNext (kept : Kept s) (careful : Careful s (.call caller succeeds))
    (step : s.callNext caller succeeds = some (event, next)) : Kept next := by
  have exclusive := (Locking.callNext_exclusive kept.exclusive step).1
  have before := kept.careful caller
  simp only [Careful] at careful
  cases here : s.point caller with
  | outside =>
    simp only [Locking.callNext, here] at step
    cases step
  | postLock task =>
    simp only [Locking.callNext, here] at step
    split at step
    · cases step
      refine kept.stay exclusive rfl rfl rfl ?_ trivial
      rw [here]
      exact id
    · refine kept.lock exclusive step ?_ rfl trivial
      rw [here]
      rfl
  | postClosed task entered =>
    simp only [Locking.callNext, here, Locking.go] at step
    split at step
    · cases step
      exact kept.stay exclusive rfl rfl rfl (fun _ => rfl) (show (-3 : Int) ≠ -5 by decide)
    · cases step
      exact kept.stay exclusive rfl rfl rfl (fun _ => rfl) trivial
  | postFull task entered =>
    simp only [Locking.callNext, here, Locking.go] at step
    split at step
    · cases step
      exact kept.stay exclusive rfl rfl rfl (fun _ => rfl) (show (-4 : Int) ≠ -5 by decide)
    · cases step
      exact kept.stay exclusive rfl rfl rfl (fun _ => rfl) trivial
  | postWrite task entered =>
    simp only [Locking.callNext, here, Locking.go] at step
    cases step
    exact kept.stay exclusive rfl rfl rfl (fun _ => rfl) trivial
  | postSignal task entered =>
    rw [here] at careful
    simp only [Locking.callNext, here, careful, Locking.go] at step
    cases step
    exact kept.stay exclusive rfl rfl rfl (fun _ => rfl) (show (0 : Int) ≠ -5 by decide)
  | postUnlock task code entered =>
    simp only [Locking.callNext, here] at step
    cases step
    exact kept.give exclusive rfl rfl rfl trivial
  | destroyLock =>
    simp only [Locking.callNext, here, Locking.ret] at step
    split at step
    · cases step
      refine kept.stay exclusive rfl rfl rfl ?_ trivial
      rw [here]
      exact id
    · refine kept.lock exclusive step ?_ rfl trivial
      rw [here]
      rfl
  | destroyClosed =>
    rw [here] at careful
    simp only [Locking.callNext, here, careful, Locking.go] at step
    cases step
    exact kept.stay exclusive rfl rfl rfl (fun _ => rfl) trivial
  | destroyBroadcast =>
    rw [here] at careful
    simp only [Locking.callNext, here, careful, Locking.go] at step
    cases step
    exact kept.stay exclusive rfl rfl rfl (fun _ => rfl) trivial
  | destroyUnlock =>
    simp only [Locking.callNext, here, Locking.go] at step
    cases step
    exact kept.give exclusive rfl rfl rfl trivial
  | destroyJoin =>
    simp only [Locking.callNext, here, Locking.go] at step
    split at step
    · cases step
      refine kept.stay exclusive rfl rfl rfl ?_ trivial
      rw [here]
      exact id
    · cases step
  | free code =>
    rw [here] at careful
    simp only [Locking.callNext, here, careful, Locking.ret] at step
    cases step
    refine kept.stay exclusive rfl rfl rfl ?_ trivial
    rw [here]
    exact id
  | freeLock code | freeDestroy code =>
    rw [here] at before
    cases before
  | deadlocked =>
    simp only [Locking.callNext, here] at step
    cases step

/-- What a post returns, when it does not return -2, it has in hand at the last unlock. -/
theorem Locking.callNext_posted {number : Nat} {task : Task} {code : Int} {entered left : Pool}
    (step : s.callNext caller succeeds =
      some (.posted number task code entered left, next)) :
    code = -2 ∨ s.point caller = .postUnlock task code entered := by
  cases here : s.point caller <;>
    simp only [Locking.callNext, here, Locking.lock, Locking.go, Locking.ret] at step <;> grind

/-- A caller that begins a call does not have the mutex. -/
theorem Kept.begin (kept : Kept s) (exclusive : Exclusive next.pool next.owner next.point)
    (outside : (s.point caller).isOutside = true)
    (points : next.point = Function.update s.point caller point)
    (once : next.relocked = s.relocked) (owner : next.owner = s.owner)
    (careful : point.isCareful) : Kept next := by
  refine kept.stay exclusive points once owner ?_ careful
  intro holds
  rw [CallPoint.holds_outside outside] at holds
  cases holds

/-- Each careful step keeps the invariant. -/
theorem Kept.exec {move : Move} (kept : Kept s) (careful : Careful s move)
    (step : s.exec move = some (event, next)) : Kept next := by
  have exclusive := (Locking.exec_exclusive kept.exclusive step).1
  cases Locking.exec_moves step with
  | refused => exact kept
  | posts outside given => exact kept.begin exclusive outside rfl rfl rfl trivial
  | returned => exact kept
  | destroys outside => exact kept.begin exclusive outside rfl rfl rfl trivial
  | call step => exact kept.callNext careful step
  | worker step =>
    obtain ⟨-, points, once, owners⟩ := Locking.workerNext_cases step
    refine ⟨exclusive, ?_, once.trans kept.once, ?_⟩
    · intro caller has
      rw [points]
      rcases owners with ⟨-, owner⟩ | ⟨-, nobody⟩
      · rw [owner] at has
        exact kept.owned caller has
      · exact absurd has (nobody caller)
    · rw [points]
      exact kept.careful

/-- No step of a careful run returns -5. -/
theorem Kept.posted {move : Move} {number : Nat} {task : Task} {code : Int} {entered left : Pool}
    (kept : Kept s)
    (step : s.exec move = some (.posted number task code entered left, next)) : code ≠ -5 := by
  cases Locking.exec_moves step with
  | refused => decide
  | @call caller _ _ _ step =>
    rcases Locking.callNext_posted step with unlocked | here
    · rw [unlocked]
      decide
    · have careful := kept.careful caller
      rw [here] at careful
      exact careful
  | worker step => cases (Locking.workerNext_cases step).1

end

/-- A post that fails has left the queue as it was. -/
def Unchanged : CallEvent → Prop
  | .posted _ _ code entered left => code < 0 → left.taskQueue = entered.taskQueue
  | .goes | .destroyed _ _ => True

/-- A post that a careful step ends is one of these. -/
theorem Kept.unchanged {s next : Locking} {event : CallEvent} {move : Move} (kept : Kept s)
    (step : s.exec move = some (event, next)) : Unchanged event := by
  cases event with
  | posted number task code entered left =>
    intro failed
    rcases (Locking.exec_exclusive kept.exclusive step).2 with ⟨-, same⟩ | ⟨_, _, posted⟩
    · rw [same]
    · exact (threadPoolPost_unchanged posted failed).mpr (kept.posted step)
  | goes => trivial
  | destroyed number code => trivial

/-- In every run in which the signals and the broadcasts succeed, `thread_pool_destroy` finds the
pool open and `thread_pool_free` does not give it back, the mutex is given back and a post that
fails changes nothing. -/
theorem run_disciplined {pool : Pool} {trace : List CallEvent} {s : Locking}
    (run : Run CarefulStep (Locking.initial pool) trace s) : Disciplined s trace := by
  have init : Kept (Locking.initial pool) := by
    refine ⟨Exclusive.initial pool, ?_, rfl, fun _ => trivial⟩
    intro caller has
    cases has
  obtain ⟨kept, unchanged⟩ := run.labels Kept Unchanged init
    fun _ _ _ kept ⟨_, careful, step⟩ => ⟨kept.exec careful step, kept.unchanged step⟩
  refine ⟨?_, kept.once, ?_⟩
  · intro caller outside has
    have holds := kept.owned caller has
    rw [CallPoint.holds_outside outside] at holds
    cases holds
  · intro caller task code entered left member
    exact unchanged _ member

/-- A post into an open pool that is not full, and a post that finds it full; then
`thread_pool_destroy` closes the pool and waits for the thread. -/
theorem run_disciplined_post : ∃ trace s,
    Run CarefulStep (Locking.initial oneThread) trace s ∧ s.pool.taskQueue.count = 1 ∧
    s.point 1 = .destroyJoin ∧ Disciplined s trace := by
  have called : Run CarefulStep (Locking.initial oneThread) _ _ :=
    Run.nil.snoc ⟨.post 0 false 7 8, trivial, rfl⟩
  have locked := called.snoc ⟨.call 0 true, trivial, rfl⟩
  have opened := locked.snoc ⟨.call 0 true, trivial, rfl⟩
  have room := opened.snoc ⟨.call 0 true, trivial, rfl⟩
  have written := room.snoc ⟨.call 0 true, trivial, rfl⟩
  have signalled := written.snoc ⟨.call 0 true, rfl, rfl⟩
  have returned := signalled.snoc ⟨.call 0 true, trivial, rfl⟩
  have again := (returned.snoc ⟨.post 0 false 7 9, trivial, rfl⟩).snoc ⟨.call 0 true, trivial, rfl⟩
  have full := (again.snoc ⟨.call 0 true, trivial, rfl⟩).snoc ⟨.call 0 true, trivial, rfl⟩
  have refused := full.snoc ⟨.call 0 true, trivial, rfl⟩
  have closing := (refused.snoc ⟨.destroy 1 false, trivial, rfl⟩).snoc ⟨.call 1 true, trivial, rfl⟩
  have closed := closing.snoc ⟨.call 1 true, rfl, rfl⟩
  have waits := (closed.snoc ⟨.call 1 true, rfl, rfl⟩).snoc ⟨.call 1 true, trivial, rfl⟩
  exact ⟨_, _, waits, rfl, rfl, run_disciplined waits⟩

/-- `thread_pool_destroy` returns with the mutex that `thread_pool_free` locked for it; a second
`thread_pool_destroy` returns with the mutex while the thread has not left, and locks it twice when
it has; a post whose signal fails returns -5 with its task in the queue. -/
theorem run_undisciplined :
    (∃ trace s, Run CallStep (Locking.initial oneThread) trace s ∧
      .destroyed 0 0 ∈ trace ∧ s.owner = some (.caller 0) ∧ ¬ Disciplined s trace) ∧
    (∃ trace s, Run CallStep (Locking.initial oneThread) trace s ∧
      (s.point 1).isOutside = true ∧ s.owner = some (.caller 1) ∧ ¬ Disciplined s trace) ∧
    (∃ trace s, Run CallStep (Locking.initial oneThread) trace s ∧
      s.relocked = true ∧ ¬ Disciplined s trace) ∧
    ∃ trace s, Run CallStep (Locking.initial oneThread) trace s ∧
      s.pool.taskQueue.count = 1 ∧ ¬ Disciplined s trace := by
  have begun : Run CallStep (Locking.initial oneThread) _ _ :=
    Run.nil.snoc ⟨.destroy 0 false, rfl⟩
  have closing := ((begun.snoc ⟨.call 0 true, rfl⟩).snoc ⟨.call 0 true, rfl⟩).snoc
    ⟨.call 0 true, rfl⟩
  have closed := closing.snoc ⟨.call 0 true, rfl⟩
  have left := (closed.snoc ⟨.worker 0, rfl⟩).snoc ⟨.worker 0, rfl⟩
  refine ⟨?_, ?_, ?_, ?_⟩
  · have joined := (left.snoc ⟨.call 0 true, rfl⟩).snoc ⟨.call 0 true, rfl⟩
    have returned := (joined.snoc ⟨.call 0 true, rfl⟩).snoc ⟨.call 0 true, rfl⟩
    refine ⟨_, _, returned, List.mem_append_right _ List.mem_cons_self, rfl, ?_⟩
    intro disciplined
    exact disciplined.given 0 rfl rfl
  · have second := (closed.snoc ⟨.destroy 1 false, rfl⟩).snoc ⟨.call 1 true, rfl⟩
    have returned := (second.snoc ⟨.call 1 true, rfl⟩).snoc ⟨.call 1 true, rfl⟩
    refine ⟨_, _, returned, rfl, rfl, ?_⟩
    intro disciplined
    exact disciplined.given 1 rfl rfl
  · have second := (left.snoc ⟨.destroy 1 false, rfl⟩).snoc ⟨.call 1 true, rfl⟩
    have freeing := (second.snoc ⟨.call 1 true, rfl⟩).snoc ⟨.call 1 true, rfl⟩
    have relocked := freeing.snoc ⟨.call 1 true, rfl⟩
    refine ⟨_, _, relocked, rfl, ?_⟩
    intro disciplined
    exact absurd disciplined.once (by decide)
  · have called : Run CallStep (Locking.initial oneThread) _ _ :=
      Run.nil.snoc ⟨.post 0 false 7 8, rfl⟩
    have written := (((called.snoc ⟨.call 0 true, rfl⟩).snoc ⟨.call 0 true, rfl⟩).snoc
      ⟨.call 0 true, rfl⟩).snoc ⟨.call 0 true, rfl⟩
    have returned := (written.snoc ⟨.call 0 false, rfl⟩).snoc ⟨.call 0 true, rfl⟩
    refine ⟨_, _, returned, rfl, ?_⟩
    intro disciplined
    have same := disciplined.atomic 0 ⟨7, 8⟩ (-5) oneThread (oneThread.write ⟨7, 8⟩)
      (List.mem_append_right _ List.mem_cons_self) (by decide)
    exact absurd (congrArg TaskQueue.count same) (by decide)

end BackendCpp.ThrdPool
