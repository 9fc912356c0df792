import Mathlib.Tactic

/-!
# The program of deadlock_success.c

The hooks of `死锁检测/deadlock_success.c` around `pthread_mutex_lock` and
`pthread_mutex_unlock` keep a table of the mutexes that are held and a graph of the threads
that wait. The chain of vertices behind an entry of `list` is the list of what they hold.
Both tables have `MAX` places; a call that would reach behind a table answers `none`. The
threads and the mutexes themselves are a second layer: what each thread is about to do, and
who holds which mutex.
-/

namespace BackendCpp.Deadlock

/-- `MAX`. -/
def MAX : Nat := 100

/-- `enum Type`. -/
inductive Kind
  /-- A thread. -/
  | process
  /-- A resource. -/
  | resource
  deriving DecidableEq

/-- The part of `struct source_type` that a vertex uses. -/
structure SourceType where
  /-- The thread. -/
  id : UInt64
  /-- The field `type`. -/
  kind : Kind
  deriving DecidableEq

/-- An entry of `list`: a vertex and the targets of its edges, in the order of the chain. -/
structure Vertex where
  /-- The vertex. -/
  s : SourceType
  /-- The chain `next`. -/
  next : List SourceType
  deriving DecidableEq

/-- The part of `struct source_type` that an entry of `locklist` uses. -/
structure LockEntry where
  /-- The thread that is recorded. -/
  id : UInt64
  /-- The mutex, or 0. -/
  lockId : UInt64
  /-- The number of waiting threads that were counted. -/
  degress : Int
  deriving DecidableEq

/-- `struct task_graph`. -/
structure TaskGraph where
  /-- The vertices. -/
  list : Nat → Vertex
  /-- The number of vertices. -/
  num : Nat
  /-- The mutexes. -/
  locklist : Nat → LockEntry
  /-- The number of entries in use. -/
  lockidx : Nat

/-- `search_vertex`; `none` stands for `-1`. -/
def searchVertex (tg : TaskGraph) (type : SourceType) : Option Nat :=
  (List.range tg.num).find? fun i => (tg.list i).s.kind = type.kind ∧ (tg.list i).s.id = type.id

/-- `add_vertex`. -/
def addVertex (tg : TaskGraph) (type : SourceType) : Option TaskGraph :=
  match searchVertex tg type with
  | some _ => some tg
  | none =>
    if tg.num < MAX then
      some { tg with list := Function.update tg.list tg.num ⟨type, []⟩, num := tg.num + 1 }
    else none

/-- `add_edge`: the target goes to the end of the chain. -/
def addEdge (tg : TaskGraph) (source target : SourceType) : Option TaskGraph :=
  (addVertex tg source).bind fun tg =>
  (addVertex tg target).bind fun tg =>
  (searchVertex tg source).map fun i =>
  { tg with
    list := Function.update tg.list i { tg.list i with next := (tg.list i).next ++ [target] } }

/-- `verify_edge`. The walk begins with the vertex itself and compares `id` only. -/
def verifyEdge (tg : TaskGraph) (i j : SourceType) : Bool :=
  match searchVertex tg i with
  | none => false
  | some idx => ((tg.list idx).s :: (tg.list idx).next).any fun v => v.id = j.id

/-- `remove_edge`: the first vertex of the chain with the `id` leaves it. -/
def removeEdge (tg : TaskGraph) (source target : SourceType) : TaskGraph :=
  match searchVertex tg source, searchVertex tg target with
  | some idxi, some _ =>
    { tg with
      list := Function.update tg.list idxi
        { tg.list idxi with next := (tg.list idxi).next.eraseP fun v => v.id = target.id } }
  | _, _ => tg

/-- A loop over `locklist` that leaves at the first entry with a property. The outer option
says whether it stays inside the table. -/
def scanLocks (tg : TaskGraph) (test : LockEntry → Bool) : Option (Option Nat) :=
  match (List.range (min tg.lockidx MAX)).find? fun i => test (tg.locklist i) with
  | some i => some (some i)
  | none => if tg.lockidx ≤ MAX then some none else none

/-- `search_lock`; the inner `none` stands for `-1`. -/
def searchLock (tg : TaskGraph) (lock : UInt64) : Option (Option Nat) :=
  scanLocks tg fun entry => entry.lockId = lock

/-- `search_empty_lock`. -/
def searchEmptyLock (tg : TaskGraph) : Option Nat :=
  (scanLocks tg fun entry => entry.lockId = 0).map fun found => found.getD tg.lockidx

/-- Rewrite an entry of `locklist`. -/
def TaskGraph.setLock (tg : TaskGraph) (i : Nat) (entry : LockEntry) : TaskGraph :=
  { tg with locklist := Function.update tg.locklist i entry }

/-- One pass of the loop of `lock_before`. -/
def lockBeforePass (threadId lockaddr : UInt64) (tg : TaskGraph) (idx : Nat) :
    Option TaskGraph :=
  if (tg.locklist idx).lockId = lockaddr then
    let source : SourceType := ⟨threadId, .process⟩
    (addVertex tg source).bind fun tg =>
    let target : SourceType := ⟨(tg.locklist idx).id, .process⟩
    let tg := tg.setLock idx
      { tg.locklist idx with degress := (tg.locklist idx).degress + 1 }
    (addVertex tg target).bind fun tg =>
    if verifyEdge tg source target then some tg else addEdge tg source target
  else some tg

/-- `lock_before`. -/
def lockBefore (tg : TaskGraph) (threadId lockaddr : UInt64) : Option TaskGraph :=
  if tg.lockidx ≤ MAX then
    (List.range tg.lockidx).foldlM (lockBeforePass threadId lockaddr) tg
  else none

/-- `lock_after`. -/
def lockAfter (tg : TaskGraph) (threadId lockaddr : UInt64) : Option TaskGraph :=
  (searchLock tg lockaddr).bind fun found =>
  match found with
  | none =>
    (searchEmptyLock tg).bind fun eidx =>
    if eidx < MAX then
      some { tg.setLock eidx { tg.locklist eidx with id := threadId, lockId := lockaddr } with
        lockidx := tg.lockidx + 1 }
    else none
  | some idx =>
    let source : SourceType := ⟨threadId, .process⟩
    let target : SourceType := ⟨(tg.locklist idx).id, .process⟩
    let tg := tg.setLock idx
      { tg.locklist idx with degress := (tg.locklist idx).degress - 1 }
    let tg := if verifyEdge tg source target then removeEdge tg source target else tg
    some (tg.setLock idx { tg.locklist idx with id := threadId })

/-- `unlock_after`. When the mutex has no entry the program uses `locklist[-1]`: its field
`degress` is where `num` is, and when that is 0 two unused fields of `list[MAX-1]` are
cleared, so nothing changes that is read later. -/
def unlockAfter (tg : TaskGraph) (lockaddr : UInt64) : Option TaskGraph :=
  (searchLock tg lockaddr).map fun found =>
  match found with
  | none => tg
  | some idx =>
    if (tg.locklist idx).degress = 0 then
      tg.setLock idx { tg.locklist idx with id := 0, lockId := 0 }
    else tg

/-- `start_check`, on memory that is zero. -/
def TaskGraph.zero : TaskGraph := ⟨fun _ => ⟨⟨0, .process⟩, []⟩, 0, fun _ => ⟨0, 0, 0⟩, 0⟩

/-- Where a thread is in `pthread_mutex_lock` and `pthread_mutex_unlock`. -/
inductive Phase
  /-- It is outside the hooks. -/
  | running
  /-- It has passed `lock_before`. -/
  | waiting (lock : UInt64)
  /-- It has the mutex. -/
  | acquired (lock : UInt64)
  /-- It has given the mutex back. -/
  | released (lock : UInt64)
  deriving DecidableEq

/-- The detector, the mutexes and the threads. -/
structure System where
  /-- The detector. -/
  tg : TaskGraph
  /-- Which thread holds a mutex. -/
  holder : UInt64 → Option UInt64
  /-- Where each thread is. -/
  phase : UInt64 → Phase

/-- The program begins. -/
def System.initial : System := ⟨TaskGraph.zero, fun _ => none, fun _ => .running⟩

/-- A step of a thread. -/
inductive Action
  /-- `lock_before`. -/
  | lockBefore (thread lock : UInt64)
  /-- The mutex is taken. -/
  | acquire (thread lock : UInt64)
  /-- `lock_after`. -/
  | lockAfter (thread lock : UInt64)
  /-- The mutex is given back. -/
  | release (thread lock : UInt64)
  /-- `unlock_after`. -/
  | unlockAfter (thread lock : UInt64)

/-- The system after a step that is possible. A mutex has an address other than 0. -/
def System.exec (s : System) : Action → Option System
  | .lockBefore thread lock =>
    if s.phase thread = .running ∧ lock ≠ 0 then
      (lockBefore s.tg thread lock).map fun tg =>
        { s with tg := tg, phase := Function.update s.phase thread (.waiting lock) }
    else none
  | .acquire thread lock =>
    if s.phase thread = .waiting lock ∧ s.holder lock = none then
      some { s with
        holder := Function.update s.holder lock (some thread)
        phase := Function.update s.phase thread (.acquired lock) }
    else none
  | .lockAfter thread lock =>
    if s.phase thread = .acquired lock then
      (lockAfter s.tg thread lock).map fun tg =>
        { s with tg := tg, phase := Function.update s.phase thread .running }
    else none
  | .release thread lock =>
    if s.phase thread = .running ∧ s.holder lock = some thread then
      some { s with
        holder := Function.update s.holder lock none
        phase := Function.update s.phase thread (.released lock) }
    else none
  | .unlockAfter thread lock =>
    if s.phase thread = .released lock then
      (unlockAfter s.tg lock).map fun tg =>
        { s with tg := tg, phase := Function.update s.phase thread .running }
    else none

end BackendCpp.Deadlock
