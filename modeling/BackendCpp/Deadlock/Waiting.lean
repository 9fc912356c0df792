import BackendCpp.Deadlock.Room

/-!
# The edges and the waiting threads

Here the real acquire and its `lock_after` are one step, and so are the real release and its
`unlock_after`. An edge is drawn to the owner that is recorded when a thread begins to wait,
and it is only looked for again when that thread has the mutex. So the edges are the waiting
threads as long as no mutex changes hands while somebody waits for it, and no thread asks for
a mutex that it holds.
-/

namespace BackendCpp.Deadlock

open BackendCpp.Library

/-- A step of a thread, with the hook that follows the real call in it. -/
inductive Hook
  | lockBefore (thread lock : UInt64)
  | lock (thread lock : UInt64)
  | unlock (thread lock : UInt64)

/-- The system after a step that is possible. -/
def System.call (s : System) : Hook → Option System
  | .lockBefore thread lock => s.exec (.lockBefore thread lock)
  | .lock thread lock =>
    (s.exec (.acquire thread lock)).bind fun s => s.exec (.lockAfter thread lock)
  | .unlock thread lock =>
    (s.exec (.release thread lock)).bind fun s => s.exec (.unlockAfter thread lock)

/-- The thread and the mutex allow the step. -/
def System.Callable (s : System) : Hook → Prop
  | .lockBefore thread lock => s.Enabled (.lockBefore thread lock)
  | .lock thread lock => s.Enabled (.acquire thread lock)
  | .unlock thread lock => s.Enabled (.release thread lock)

/-- The hook in the step stays inside the tables. -/
def Within (s : System) : Hook → Prop
  | .lockBefore thread lock => Inside s (.lockBefore thread lock)
  | .lock thread lock => Inside s (.lockAfter thread lock)
  | .unlock thread lock => Inside s (.unlockAfter thread lock)

instance (s : System) (hook : Hook) : Decidable (Within s hook) :=
  match hook with
  | .lockBefore thread lock => inferInstanceAs (Decidable (Inside s (.lockBefore thread lock)))
  | .lock thread lock => inferInstanceAs (Decidable (Inside s (.lockAfter thread lock)))
  | .unlock thread lock => inferInstanceAs (Decidable (Inside s (.unlockAfter thread lock)))

/-- The first thread has executed `lock_before` on a mutex, not yet `lock_after`, and the second
thread holds that mutex. -/
def WaitsFor (s : System) (thread owner : UInt64) : Prop :=
  ∃ lock, s.phase thread = .waiting lock ∧ s.holder lock = some owner

/-- The adjacency lists contain the edges of the waiting threads and no others. -/
def Faithful (s : System) : Prop :=
  ∀ thread owner, Edge s.tg thread owner ↔ WaitsFor s thread owner

/-- The mutex does not change hands while somebody else waits for it, and nobody asks for a
mutex that they hold. -/
def Calm (s : System) : Hook → Prop
  | .lockBefore thread lock => s.holder lock ≠ some thread
  | .lock thread lock => ∀ other, other ≠ thread → s.phase other ≠ .waiting lock
  | .unlock _ lock => ∀ other, s.phase other ≠ .waiting lock

/-- What holds between the steps. -/
structure Waiting (s : System) : Prop where
  /-- The owners are recorded. -/
  records : Records s
  /-- No thread is between a real call and its hook. -/
  phases : ∀ thread, s.phase thread = .running ∨ ∃ lock, s.phase thread = .waiting lock
  /-- Every thread has one vertex at most. -/
  proper : Proper s.tg
  /-- The edges are the waiting threads. -/
  edges : Faithful s
  /-- An entry names the owner of its mutex. -/
  owned : ∀ i, i < s.tg.lockidx → (s.tg.locklist i).lockId ≠ 0 →
    s.holder (s.tg.locklist i).lockId = some (s.tg.locklist i).id
  /-- An entry without mutex counts nothing. -/
  counter : ∀ i, (s.tg.locklist i).lockId = 0 → (s.tg.locklist i).degress = 0
  /-- An entry counts nothing when nobody waits for its mutex. -/
  idle : ∀ i, (∀ thread, s.phase thread ≠ .waiting (s.tg.locklist i).lockId) →
    (s.tg.locklist i).degress = 0

/-- The edges depend on the adjacency lists only. -/
theorem edge_congr {tg tg' : TaskGraph} (list : tg'.list = tg.list) (num : tg'.num = tg.num)
    (source target : UInt64) : Edge tg' source target ↔ Edge tg source target := by
  unfold Edge
  rw [list, num]

/-- So does having one vertex each. -/
theorem Proper.congr {tg tg' : TaskGraph} (proper : Proper tg) (list : tg'.list = tg.list)
    (num : tg'.num = tg.num) : Proper tg' := by
  refine ⟨?_, ?_⟩
  · rw [list, num]
    exact proper.kind
  · rw [list, num]
    exact proper.distinct

/-- The pass of `lock_before` over the entry of the mutex counts the thread and draws the edge
to the recorded owner, unless the thread itself is recorded. -/
theorem lockBeforePass_spec {tg tg' : TaskGraph} (proper : Proper tg) {thread lock : UInt64}
    {i : Nat} (has : (tg.locklist i).lockId = lock)
    (passed : lockBeforePass thread lock tg i = some tg') :
    Proper tg' ∧ (∀ j, j ≠ i → tg'.locklist j = tg.locklist j) ∧
      ∀ x y, Edge tg' x y ↔
        Edge tg x y ∨ (x = thread ∧ y = (tg.locklist i).id ∧ thread ≠ (tg.locklist i).id) := by
  unfold lockBeforePass at passed
  rw [if_pos has] at passed
  simp only [Option.bind_eq_some_iff] at passed
  obtain ⟨one, first, two, second, last⟩ := passed
  obtain ⟨properOne, vertexOne, _, edgesOne⟩ := addVertex_spec proper first
  have listOne := (addVertex_locks first).2
  rw [listOne] at second last
  have properMid : Proper (one.setLock i
      { tg.locklist i with degress := (tg.locklist i).degress + 1 }) :=
    properOne.congr rfl rfl
  obtain ⟨properTwo, _, keeps, edgesTwo⟩ := addVertex_spec properMid second
  have vertexTwo : HasVertex two thread := keeps thread vertexOne
  have listTwo := (addVertex_locks second).2
  have edges : ∀ x y, Edge two x y ↔ Edge tg x y := by
    intro x y
    exact (edgesTwo x y).trans ((edge_congr rfl rfl x y).trans (edgesOne x y))
  have others : ∀ j, j ≠ i → two.locklist j = tg.locklist j := by
    intro j other
    rw [listTwo]
    change Function.update one.locklist i _ j = _
    rw [Function.update_of_ne other, listOne]
  have verified : verifyEdge two ⟨thread, .process⟩ ⟨(tg.locklist i).id, .process⟩ = true ↔
      thread = (tg.locklist i).id ∨ Edge tg thread (tg.locklist i).id := by
    rw [← edges]
    exact verifyEdge_iff properTwo vertexTwo
  split at last
  · rename_i known
    rw [← Option.some.inj last]
    refine ⟨properTwo, others, ?_⟩
    intro x y
    rw [edges x y]
    constructor
    · intro edge
      exact Or.inl edge
    · intro edge
      rcases edge with edge | ⟨isThread, isOwner, different⟩
      · exact edge
      · rw [isThread, isOwner]
        exact (verified.mp known).resolve_left different
  · rename_i unknown
    obtain ⟨properLast, edgesLast⟩ := addEdge_spec properTwo last
    have different : thread ≠ (tg.locklist i).id := by
      intro same
      exact unknown (verified.mpr (Or.inl same))
    refine ⟨properLast, ?_, ?_⟩
    · intro j other
      rw [(addEdge_locks last).2]
      exact others j other
    · intro x y
      rw [edgesLast x y, edges x y]
      simp only [different, ne_eq, not_false_eq_true, and_true]

/-- `lock_after` on a mutex without entry takes an empty one and leaves the edges alone. -/
theorem lockAfter_new {tg tg' : TaskGraph} {thread lock : UInt64}
    (absent : ∀ j, j < tg.lockidx → (tg.locklist j).lockId ≠ lock)
    (blank : ∀ j, tg.lockidx ≤ j → (tg.locklist j).lockId = 0)
    (done : lockAfter tg thread lock = some tg') :
    ∃ i, (tg.locklist i).lockId = 0 ∧
      tg' = { tg.setLock i { tg.locklist i with id := thread, lockId := lock } with
        lockidx := tg.lockidx + 1 } := by
  simp only [lockAfter, Option.bind_eq_some_iff] at done
  obtain ⟨found, searched, done⟩ := done
  rcases scanLocks_spec searched with ⟨i, _, below, hit⟩ | ⟨nothing, _⟩
  · simp only [decide_eq_true_eq] at hit
    exact absurd hit (absent i below)
  · rw [nothing] at done
    simp only [searchEmptyLock, Option.map_eq_some_iff, Option.bind_eq_some_iff] at done
    obtain ⟨eidx, ⟨empty, scanned, value⟩, done⟩ := done
    split at done
    · refine ⟨eidx, ?_, (Option.some.inj done).symm⟩
      rcases scanLocks_spec scanned with ⟨i, here, _, hit⟩ | ⟨full, _⟩
      · simp only [decide_eq_true_eq] at hit
        rw [here, Option.getD_some] at value
        rw [← value]
        exact hit
      · rw [full, Option.getD_none] at value
        rw [← value]
        exact blank tg.lockidx le_rfl
    · cases done

/-- `unlock_after` leaves the edges alone. -/
theorem unlockAfter_edges {tg tg' : TaskGraph} {lock : UInt64}
    (done : unlockAfter tg lock = some tg') : tg'.list = tg.list ∧ tg'.num = tg.num := by
  rcases unlockAfter_records done with ⟨same, _⟩ | ⟨i, _, _, _, cleared⟩
  · rw [same]
    exact ⟨rfl, rfl⟩
  · rw [cleared]
    exact ⟨rfl, rfl⟩

/-- Who waits for whom before a thread that is running begins to wait. -/
theorem waitsFor_lockBefore {s : System} {thread lock : UInt64} {tg : TaskGraph}
    (running : s.phase thread = .running) (x y : UInt64) :
    WaitsFor { s with tg := tg, phase := Function.update s.phase thread (.waiting lock) } x y ↔
      WaitsFor s x y ∨ (x = thread ∧ s.holder lock = some y) := by
  constructor
  · intro waits
    obtain ⟨mutex, waiting, holds⟩ := waits
    change Function.update s.phase thread (.waiting lock) x = .waiting mutex at waiting
    by_cases this : x = thread
    · rw [this, Function.update_self] at waiting
      rw [Phase.waiting.inj waiting]
      exact Or.inr ⟨this, holds⟩
    · rw [Function.update_of_ne this] at waiting
      exact Or.inl ⟨mutex, waiting, holds⟩
  · intro waits
    rcases waits with ⟨mutex, waiting, holds⟩ | ⟨this, holds⟩
    · have different : x ≠ thread := by
        intro same
        rw [same, running] at waiting
        cases waiting
      refine ⟨mutex, ?_, holds⟩
      change Function.update s.phase thread (.waiting lock) x = .waiting mutex
      rw [Function.update_of_ne different]
      exact waiting
    · refine ⟨lock, ?_, holds⟩
      change Function.update s.phase thread (.waiting lock) x = .waiting lock
      rw [this, Function.update_self]

/-- Who waits for whom stays the same when a thread takes a free mutex that only it waits for. -/
theorem waitsFor_lock {s next : System} {thread lock : UInt64}
    (waits : s.phase thread = .waiting lock) (unheld : s.holder lock = none)
    (calm : ∀ other, other ≠ thread → s.phase other ≠ .waiting lock)
    (holder : next.holder = Function.update s.holder lock (some thread))
    (phase : next.phase = Function.update s.phase thread .running) (x y : UInt64) :
    WaitsFor s x y ↔ WaitsFor next x y := by
  unfold WaitsFor
  rw [holder, phase]
  constructor
  · intro waitsFor
    obtain ⟨mutex, waits', holds⟩ := waitsFor
    have other : mutex ≠ lock := by
      intro same
      rw [same, unheld] at holds
      cases holds
    have different : x ≠ thread := by
      intro same
      rw [same, waits] at waits'
      exact other (Phase.waiting.inj waits').symm
    rw [Function.update_of_ne different]
    refine ⟨mutex, waits', ?_⟩
    rw [Function.update_of_ne other]
    exact holds
  · intro waitsFor
    obtain ⟨mutex, waits', holds⟩ := waitsFor
    have different : x ≠ thread := by
      intro same
      rw [same, Function.update_self] at waits'
      cases waits'
    rw [Function.update_of_ne different] at waits'
    have other : mutex ≠ lock := by
      intro same
      rw [same] at waits'
      exact calm x different waits'
    rw [Function.update_of_ne other] at holds
    exact ⟨mutex, waits', holds⟩

/-- It stays the same when a mutex is given away that nobody waits for. -/
theorem waitsFor_unlock {s next : System} {lock : UInt64}
    (calm : ∀ other, s.phase other ≠ .waiting lock)
    (holder : next.holder = Function.update s.holder lock none) (phase : next.phase = s.phase)
    (x y : UInt64) : WaitsFor s x y ↔ WaitsFor next x y := by
  unfold WaitsFor
  rw [holder, phase]
  apply exists_congr
  intro mutex
  apply and_congr_right
  intro waits
  have other : mutex ≠ lock := by
    intro same
    rw [same] at waits
    exact calm x waits
  rw [Function.update_of_ne other]

/-- Before the first step nobody waits. -/
theorem initial_waiting : Waiting System.initial := by
  refine ⟨initial_records, fun _ => Or.inl rfl, ⟨?_, ?_⟩, ?_, ?_, fun _ _ => rfl,
    fun _ _ => rfl⟩
  · intro i below
    exact absurd below (Nat.not_lt_zero i)
  · intro i j below
    exact absurd below (Nat.not_lt_zero i)
  · intro thread owner
    constructor
    · intro edge
      obtain ⟨i, below, _⟩ := edge
      exact absurd below (Nat.not_lt_zero i)
    · intro waits
      obtain ⟨lock, waiting, _⟩ := waits
      cases waiting
  · intro i below
    exact absurd below (Nat.not_lt_zero i)

/-- A held mutex has exactly one entry, which names the owner. -/
theorem Waiting.held {s : System} (waiting : Waiting s) {lock owner : UInt64}
    (holds : s.holder lock = some owner) :
    ∃ i, i < s.tg.lockidx ∧ (s.tg.locklist i).lockId = lock ∧ (s.tg.locklist i).id = owner ∧
      ∀ j, j < s.tg.lockidx → (s.tg.locklist j).lockId = lock → j = i := by
  apply waiting.records.recorded owner lock holds
  intro acquired
  rcases waiting.phases owner with running | ⟨mutex, waits⟩
  · rw [running] at acquired
    cases acquired
  · rw [waits] at acquired
    cases acquired

/-- A mutex that nobody holds has no entry. -/
theorem Waiting.free {s : System} (waiting : Waiting s) {lock : UInt64} (address : lock ≠ 0)
    (unheld : s.holder lock = none) (i : Nat) (below : i < s.tg.lockidx) :
    (s.tg.locklist i).lockId ≠ lock := by
  intro has
  have owner := waiting.owned i below (by rw [has]; exact address)
  rw [has, unheld] at owner
  cases owner

/-- A possible `lock_before` is the work of the hook, by a thread that runs. -/
theorem call_lockBefore {s next : System} {thread lock : UInt64}
    (done : s.call (.lockBefore thread lock) = some next) :
    s.phase thread = .running ∧ lock ≠ 0 ∧ ∃ tg, lockBefore s.tg thread lock = some tg ∧
      next = { s with tg := tg, phase := Function.update s.phase thread (.waiting lock) } := by
  simp only [System.call, System.exec] at done
  split at done
  · rename_i guard
    rw [Option.map_eq_some_iff] at done
    obtain ⟨tg, before, done⟩ := done
    exact ⟨guard.1, guard.2, tg, before, done.symm⟩
  · cases done

/-- A possible `lock` takes a mutex that is free. -/
theorem call_lock {s next : System} {thread lock : UInt64}
    (done : s.call (.lock thread lock) = some next) :
    s.phase thread = .waiting lock ∧ s.holder lock = none ∧
      ∃ tg, lockAfter s.tg thread lock = some tg ∧
        next = ⟨tg, Function.update s.holder lock (some thread),
          Function.update s.phase thread .running⟩ := by
  simp only [System.call, Option.bind_eq_some_iff] at done
  obtain ⟨middle, acquire, after⟩ := done
  simp only [System.exec] at acquire
  split at acquire
  · rename_i guard
    rw [← Option.some.inj acquire] at after
    simp only [System.exec, Function.update_self, if_true] at after
    rw [Option.map_eq_some_iff] at after
    obtain ⟨tg, recorded, done⟩ := after
    refine ⟨guard.1, guard.2, tg, recorded, ?_⟩
    rw [← done, Function.update_idem]
  · cases acquire

/-- A possible `unlock` gives a mutex away that the thread holds. -/
theorem call_unlock {s next : System} {thread lock : UInt64}
    (done : s.call (.unlock thread lock) = some next) :
    s.phase thread = .running ∧ s.holder lock = some thread ∧
      ∃ tg, unlockAfter s.tg lock = some tg ∧
        next = ⟨tg, Function.update s.holder lock none, s.phase⟩ := by
  simp only [System.call, Option.bind_eq_some_iff] at done
  obtain ⟨middle, release, after⟩ := done
  simp only [System.exec] at release
  split at release
  · rename_i guard
    rw [← Option.some.inj release] at after
    simp only [System.exec, Function.update_self, if_true] at after
    rw [Option.map_eq_some_iff] at after
    obtain ⟨tg, cleared, done⟩ := after
    refine ⟨guard.1, guard.2, tg, cleared, ?_⟩
    rw [← done, Function.update_idem, ← guard.1, Function.update_eq_self]
  · cases release

/-- Every step with its hook keeps the records: an `unlock_after` that follows its release at
once is never late. -/
theorem call_records {s next : System} (records : Records s) {hook : Hook}
    (done : s.call hook = some next) : Records next := by
  cases hook with
  | lockBefore thread lock => exact lockBefore_step records done
  | lock thread lock =>
    obtain ⟨middle, acquire, after⟩ := Option.bind_eq_some_iff.mp done
    exact lockAfter_step (acquire_step records acquire) after
  | unlock thread lock =>
    obtain ⟨middle, release, after⟩ := Option.bind_eq_some_iff.mp done
    apply unlockAfter_step (release_step records release) _ after
    intro i _ _ _ owner holds
    simp only [System.exec] at release
    split at release
    · rw [← Option.some.inj release] at holds
      change Function.update s.holder lock none lock = some owner at holds
      rw [Function.update_self] at holds
      cases holds
    · cases release

/-- `lock_before` draws the edge to the owner of the mutex, if it has one, and touches no other
entry. -/
theorem lockBefore_graph {s : System} (waiting : Waiting s) {thread lock : UInt64}
    (address : lock ≠ 0) (calm : s.holder lock ≠ some thread) {tg : TaskGraph}
    (before : lockBefore s.tg thread lock = some tg) :
    Proper tg ∧ (∀ i, (s.tg.locklist i).lockId ≠ lock → tg.locklist i = s.tg.locklist i) ∧
      ∀ x y, Edge tg x y ↔ Edge s.tg x y ∨ (x = thread ∧ s.holder lock = some y) := by
  cases unheld : s.holder lock with
  | none =>
    rw [lockBefore_absent (lockBefore_small before) (waiting.free address unheld)] at before
    rw [← Option.some.inj before]
    refine ⟨waiting.proper, fun _ _ => rfl, ?_⟩
    intro x y
    constructor
    · intro edge
      exact Or.inl edge
    · intro edge
      rcases edge with edge | ⟨_, impossible⟩
      · exact edge
      · cases impossible
  | some owner =>
    obtain ⟨i, below, has, recorded, only⟩ := waiting.held unheld
    rw [lockBefore_entry (lockBefore_small before) below only] at before
    obtain ⟨proper, others, edges⟩ := lockBeforePass_spec waiting.proper has before
    refine ⟨proper, ?_, ?_⟩
    · intro j other
      apply others
      intro equal
      rw [equal] at other
      exact other has
    · intro x y
      have different : thread ≠ owner := by
        intro equal
        rw [equal] at calm
        exact calm unheld
      rw [edges x y, recorded, Option.some.injEq]
      simp only [different, ne_eq, not_false_eq_true, and_true, eq_comm]

/-- `lock_before` on a mutex of another thread, or of nobody, keeps the graph faithful. -/
theorem lockBefore_waiting {s next : System} (waiting : Waiting s) {thread lock : UInt64}
    (calm : Calm s (.lockBefore thread lock))
    (done : s.call (.lockBefore thread lock) = some next) : Waiting next := by
  have records := call_records waiting.records done
  obtain ⟨running, address, tg, before, result⟩ := call_lockBefore done
  have same := lockBefore_records before
  rw [result] at records ⊢
  have earlier : ∀ other mutex, s.phase other = .waiting mutex →
      Function.update s.phase thread (.waiting lock) other = .waiting mutex := by
    intro other mutex waits
    have different : other ≠ thread := by
      intro equal
      rw [equal, running] at waits
      cases waits
    rw [Function.update_of_ne different]
    exact waits
  obtain ⟨proper, others, edges⟩ := lockBefore_graph waiting address calm before
  refine ⟨records, ?_, proper, ?_, ?_, ?_, ?_⟩
  · intro other
    by_cases this : other = thread
    · apply Or.inr
      refine ⟨lock, ?_⟩
      change Function.update s.phase thread (.waiting lock) other = .waiting lock
      rw [this, Function.update_self]
    · change Function.update s.phase thread (.waiting lock) other = .running ∨
        ∃ mutex, Function.update s.phase thread (.waiting lock) other = .waiting mutex
      rw [Function.update_of_ne this]
      exact waiting.phases other
  · intro x y
    rw [waitsFor_lockBefore running x y, ← waiting.edges x y]
    exact edges x y
  · intro i below present
    change i < tg.lockidx at below
    change (tg.locklist i).lockId ≠ 0 at present
    change s.holder (tg.locklist i).lockId = some (tg.locklist i).id
    rw [same.lockidx] at below
    rw [same.lockId] at present ⊢
    rw [same.id]
    exact waiting.owned i below present
  · intro i empty
    change (tg.locklist i).lockId = 0 at empty
    change (tg.locklist i).degress = 0
    rw [same.lockId] at empty
    rw [others i (by rw [empty]; exact address.symm)]
    exact waiting.counter i empty
  · intro i nobody
    change (tg.locklist i).degress = 0
    have elsewhere : (s.tg.locklist i).lockId ≠ lock := by
      intro has
      apply nobody thread
      change Function.update s.phase thread (.waiting lock) thread =
        .waiting (tg.locklist i).lockId
      rw [Function.update_self, same.lockId, has]
    rw [others i elsewhere]
    apply waiting.idle i
    intro other waits
    apply nobody other
    change Function.update s.phase thread (.waiting lock) other = .waiting (tg.locklist i).lockId
    rw [same.lockId]
    exact earlier other _ waits

/-- Taking a mutex leaves the edges as they were, and uses an entry without mutex. -/
theorem lock_graph {s next : System} (waiting : Waiting s) {thread lock : UInt64}
    (done : s.call (.lock thread lock) = some next) :
    (∀ x y, Edge next.tg x y ↔ Edge s.tg x y) ∧ Proper next.tg ∧
      ∃ i, (s.tg.locklist i).lockId = 0 ∧
        next.tg = { s.tg.setLock i { s.tg.locklist i with id := thread, lockId := lock } with
          lockidx := s.tg.lockidx + 1 } := by
  obtain ⟨waits, unheld, tg, after, result⟩ := call_lock done
  have address := waiting.records.threads.awaited thread lock waits
  obtain ⟨i, empty, entry⟩ := lockAfter_new (waiting.free address unheld)
    waiting.records.blank after
  have graph : next.tg = { s.tg.setLock i { s.tg.locklist i with id := thread, lockId := lock }
      with lockidx := s.tg.lockidx + 1 } := by
    rw [result, entry]
  refine ⟨?_, ?_, i, empty, graph⟩
  · intro x y
    rw [graph]
    exact edge_congr rfl rfl x y
  · rw [graph]
    exact waiting.proper.congr rfl rfl

/-- Taking a mutex that nobody else waits for keeps the graph faithful. -/
theorem lock_waiting {s next : System} (waiting : Waiting s) {thread lock : UInt64}
    (calm : Calm s (.lock thread lock))
    (done : s.call (.lock thread lock) = some next) : Waiting next := by
  have records := call_records waiting.records done
  obtain ⟨edges, proper, i, empty, graph⟩ := lock_graph waiting done
  obtain ⟨waits, unheld, tg, after, result⟩ := call_lock done
  have address := waiting.records.threads.awaited thread lock waits
  have holder : next.holder = Function.update s.holder lock (some thread) := by rw [result]
  have phase : next.phase = Function.update s.phase thread .running := by rw [result]
  have here : next.tg.locklist i = { s.tg.locklist i with id := thread, lockId := lock } := by
    rw [graph]
    exact Function.update_self ..
  have others : ∀ j, j ≠ i → next.tg.locklist j = s.tg.locklist j := by
    intro j other
    rw [graph]
    exact Function.update_of_ne other ..
  have size : next.tg.lockidx = s.tg.lockidx + 1 := by rw [graph]
  refine ⟨records, ?_, proper, ?_, ?_, ?_, ?_⟩
  · intro other
    rw [phase]
    by_cases this : other = thread
    · rw [this, Function.update_self]
      exact Or.inl rfl
    · rw [Function.update_of_ne this]
      exact waiting.phases other
  · intro x y
    rw [edges x y, waiting.edges x y]
    exact waitsFor_lock waits unheld calm holder phase x y
  · intro j below present
    rw [holder]
    by_cases this : j = i
    · rw [this, here]
      exact Function.update_self ..
    · rw [others j this] at present ⊢
      have inside : j < s.tg.lockidx := by
        by_contra outside
        exact present (waiting.records.blank j (by omega))
      have owner := waiting.owned j inside present
      have other : (s.tg.locklist j).lockId ≠ lock := by
        intro same
        rw [same, unheld] at owner
        cases owner
      rw [Function.update_of_ne other]
      exact owner
  · intro j empty'
    by_cases this : j = i
    · rw [this, here] at empty'
      exact absurd empty' address
    · rw [others j this] at empty' ⊢
      exact waiting.counter j empty'
  · intro j nobody
    by_cases this : j = i
    · rw [this, here]
      exact waiting.counter i empty
    · rw [others j this] at nobody ⊢
      by_cases absent : (s.tg.locklist j).lockId = 0
      · exact waiting.counter j absent
      · apply waiting.idle j
        intro other waits'
        apply nobody other
        have different : other ≠ thread := by
          intro same
          rw [same, waits] at waits'
          have inside : j < s.tg.lockidx := by
            by_contra outside
            exact absent (waiting.records.blank j (by omega))
          exact waiting.free address unheld j inside (Phase.waiting.inj waits').symm
        rw [phase, Function.update_of_ne different]
        exact waits'

/-- Giving a mutex away that nobody waits for keeps the graph faithful. -/
theorem unlock_waiting {s next : System} (waiting : Waiting s) {thread lock : UInt64}
    (calm : Calm s (.unlock thread lock))
    (done : s.call (.unlock thread lock) = some next) : Waiting next := by
  have records := call_records waiting.records done
  obtain ⟨running, holds, tg, after, result⟩ := call_unlock done
  have address := waiting.records.threads.held thread lock holds
  obtain ⟨i, below, has, recorded, only⟩ := waiting.held holds
  have cleared : tg = s.tg.setLock i { s.tg.locklist i with id := 0, lockId := 0 } := by
    rcases unlockAfter_records after with ⟨_, counted⟩ | ⟨j, belowJ, hasJ, _, cleared⟩
    · obtain ⟨j, belowJ, hasJ, nonzero⟩ := counted i below has
      apply absurd (waiting.idle j _) nonzero
      rw [hasJ]
      exact calm
    · rw [only j belowJ hasJ] at cleared
      exact cleared
  have zero : (s.tg.locklist i).degress = 0 := by
    apply waiting.idle i
    rw [has]
    exact calm
  have here : tg.locklist i = { s.tg.locklist i with id := 0, lockId := 0 } := by
    rw [cleared]
    exact Function.update_self ..
  have others : ∀ j, j ≠ i → tg.locklist j = s.tg.locklist j := by
    intro j other
    rw [cleared]
    exact Function.update_of_ne other ..
  have size : tg.lockidx = s.tg.lockidx := by
    rw [cleared]
    rfl
  obtain ⟨list, num⟩ := unlockAfter_edges after
  rw [result] at records ⊢
  refine ⟨records, waiting.phases, waiting.proper.congr list num, ?_, ?_, ?_, ?_⟩
  · intro x y
    rw [edge_congr list num x y, waiting.edges x y]
    apply waitsFor_unlock calm
    · rfl
    · rfl
  · intro j belowJ present
    change j < tg.lockidx at belowJ
    change (tg.locklist j).lockId ≠ 0 at present
    change Function.update s.holder lock none (tg.locklist j).lockId = some (tg.locklist j).id
    have different : j ≠ i := by
      intro same
      rw [same, here] at present
      exact present rfl
    rw [size] at belowJ
    rw [others j different] at present ⊢
    have other : (s.tg.locklist j).lockId ≠ lock := by
      intro same
      exact different (only j belowJ same)
    rw [Function.update_of_ne other]
    exact waiting.owned j belowJ present
  · intro j empty
    change (tg.locklist j).lockId = 0 at empty
    change (tg.locklist j).degress = 0
    by_cases this : j = i
    · rw [this, here]
      exact zero
    · rw [others j this] at empty ⊢
      exact waiting.counter j empty
  · intro j nobody
    change ∀ other, s.phase other ≠ .waiting (tg.locklist j).lockId at nobody
    change (tg.locklist j).degress = 0
    by_cases this : j = i
    · rw [this, here]
      exact zero
    · rw [others j this] at nobody ⊢
      exact waiting.idle j nobody

/-- Every calm step keeps the graph faithful. -/
theorem call_waiting {s next : System} (waiting : Waiting s) {hook : Hook} (calm : Calm s hook)
    (done : s.call hook = some next) : Waiting next := by
  cases hook with
  | lockBefore thread lock => exact lockBefore_waiting waiting calm done
  | lock thread lock => exact lock_waiting waiting calm done
  | unlock thread lock => exact unlock_waiting waiting calm done

/-- A step that is not calm leaves a graph that is not faithful. -/
theorem call_unfaithful {s next : System} (waiting : Waiting s) {hook : Hook}
    (restless : ¬ Calm s hook) (done : s.call hook = some next) : ¬ Faithful next := by
  intro faithful
  cases hook with
  | lockBefore thread lock =>
    obtain ⟨running, address, tg, before, result⟩ := call_lockBefore done
    have holds : s.holder lock = some thread := not_not.mp restless
    obtain ⟨i, below, has, recorded, only⟩ := waiting.held holds
    rw [lockBefore_entry (lockBefore_small before) below only] at before
    obtain ⟨_, _, edges⟩ := lockBeforePass_spec waiting.proper has before
    have edge : Edge tg thread thread := by
      rw [result] at faithful
      apply (faithful thread thread).mpr
      exact (waitsFor_lockBefore running thread thread).mpr (Or.inr ⟨rfl, holds⟩)
    rcases (edges thread thread).mp edge with old | ⟨_, _, different⟩
    · obtain ⟨mutex, waits, _⟩ := (waiting.edges thread thread).mp old
      rw [running] at waits
      cases waits
    · exact different recorded.symm
  | lock thread lock =>
    simp only [Calm, not_forall, not_not] at restless
    obtain ⟨other, different, waits⟩ := restless
    obtain ⟨edges, _, _⟩ := lock_graph waiting done
    obtain ⟨_, unheld, tg, after, result⟩ := call_lock done
    have edge : Edge next.tg other thread := by
      apply (faithful other thread).mpr
      rw [result]
      refine ⟨lock, ?_, Function.update_self ..⟩
      change Function.update s.phase thread .running other = .waiting lock
      rw [Function.update_of_ne different]
      exact waits
    obtain ⟨mutex, waits', holds⟩ := (waiting.edges other thread).mp ((edges other thread).mp edge)
    rw [waits] at waits'
    rw [← Phase.waiting.inj waits', unheld] at holds
    cases holds
  | unlock thread lock =>
    simp only [Calm, not_forall, not_not] at restless
    obtain ⟨other, waits⟩ := restless
    obtain ⟨_, holds, tg, after, result⟩ := call_unlock done
    obtain ⟨list, num⟩ := unlockAfter_edges after
    have edge : Edge s.tg other thread := (waiting.edges other thread).mpr ⟨lock, waits, holds⟩
    rw [result] at faithful
    obtain ⟨mutex, waits', holds'⟩ :=
      (faithful other thread).mp ((edge_congr list num other thread).mpr edge)
    change s.phase other = .waiting mutex at waits'
    change Function.update s.holder lock none mutex = some thread at holds'
    rw [waits] at waits'
    rw [← Phase.waiting.inj waits', Function.update_self] at holds'
    cases holds'

/-- A possible step has a result exactly when its hook stays inside the tables. -/
theorem call_within {s : System} (records : Records s) {hook : Hook} (possible : s.Callable hook) :
    (∃ next, s.call hook = some next) ↔ Within s hook := by
  cases hook with
  | lockBefore thread lock =>
    exact exec_inside records (show s.Enabled (.lockBefore thread lock) from possible)
  | lock thread lock =>
    let held : System := ⟨s.tg, Function.update s.holder lock (some thread),
      Function.update s.phase thread (.acquired lock)⟩
    have acquired : s.exec (.acquire thread lock) = some held := exec_acquire possible
    have behind : held.Enabled (.lockAfter thread lock) := Function.update_self ..
    rw [System.call, acquired, Option.bind_some, exec_lockAfter behind, exists_map]
    exact exists_lockAfter
  | unlock thread lock =>
    let given : System := ⟨s.tg, Function.update s.holder lock none,
      Function.update s.phase thread (.released lock)⟩
    have released : s.exec (.release thread lock) = some given := exec_release possible
    have behind : given.Enabled (.unlockAfter thread lock) := Function.update_self ..
    rw [System.call, released, Option.bind_some, exec_unlockAfter behind, exists_map]
    unfold unlockAfter
    rw [exists_map]
    exact exists_searchLock

/-- A step that is executed, stays inside the tables and is calm. -/
def CalmStep (s : System) (hook : Hook) (next : System) : Prop :=
  s.call hook = some next ∧ Within s hook ∧ Calm s hook

/-- In every run of calm steps inside the tables the edges are the waiting threads. A further step
that is possible has a result exactly when it stays inside, and the edges are then the waiting
threads exactly when it is calm. -/
theorem run_faithful {trace : List Hook} {s : System}
    (run : Run CalmStep System.initial trace s) :
    Faithful s ∧ ∀ hook, s.Callable hook →
      ((∃ next, s.call hook = some next) ↔ Within s hook) ∧
      ∀ next, s.call hook = some next → (Faithful next ↔ Calm s hook) := by
  have waiting : Waiting s := by
    apply run.invariant Waiting initial_waiting
    intro state hook next waiting taken
    exact call_waiting waiting taken.2.2 taken.1
  refine ⟨waiting.edges, ?_⟩
  intro hook possible
  refine ⟨call_within waiting.records possible, ?_⟩
  intro next done
  constructor
  · intro faithful
    by_contra restless
    exact call_unfaithful waiting restless done faithful
  · intro calm
    exact (call_waiting waiting calm done).edges

/-- Thread 1 takes mutex 8 and gives it back. Then it takes mutex 7, thread 2 waits for it, and the
edge is there. -/
theorem run_faithful_pair : ∃ trace s, Run CalmStep System.initial trace s ∧ Edge s.tg 2 1 := by
  let moved : Phase → (UInt64 → Phase) → UInt64 → Phase :=
    fun next phase => Function.update phase 1 next
  have kept : ∀ (next : Phase) (phase : UInt64 → Phase) (x : UInt64), x ≠ 1 →
      phase x = .running → moved next phase x = .running := by
    intro next phase x other runs
    exact (Function.update_of_ne other ..).trans runs
  have back : ∀ (first second : Phase) (phase : UInt64 → Phase), (∀ x, phase x = .running) →
      ∀ x, moved .running (moved second (moved first phase)) x = .running := by
    intro first second phase runs x
    by_cases here : x = 1
    · rw [here]
      exact Function.update_self ..
    · exact kept _ _ x here (kept _ _ x here (kept _ _ x here (runs x)))
  have idle := back (.waiting 8) (.acquired 8) (fun _ => .running) fun _ => rfl
  have first : Run CalmStep System.initial [.lockBefore 1 8] _ :=
    Run.nil.snoc ⟨rfl, by decide, show none ≠ some 1 by decide⟩
  have second : Run CalmStep System.initial [.lockBefore 1 8, .lock 1 8] _ :=
    first.snoc ⟨rfl, by decide, fun x other waits =>
      Phase.noConfusion ((kept _ _ x other rfl).symm.trans waits)⟩
  have third : Run CalmStep System.initial [.lockBefore 1 8, .lock 1 8, .unlock 1 8] _ :=
    second.snoc ⟨rfl, by decide, fun x waits => Phase.noConfusion ((idle x).symm.trans waits)⟩
  have fourth : Run CalmStep System.initial
      [.lockBefore 1 8, .lock 1 8, .unlock 1 8, .lockBefore 1 7] _ :=
    third.snoc ⟨rfl, by decide, show none ≠ some 1 by decide⟩
  have fifth : Run CalmStep System.initial
      [.lockBefore 1 8, .lock 1 8, .unlock 1 8, .lockBefore 1 7, .lock 1 7] _ :=
    fourth.snoc ⟨rfl, by decide, fun x other waits =>
      Phase.noConfusion ((kept _ _ x other (kept _ _ x other (kept _ _ x other (idle x)))).symm.trans
        waits)⟩
  have sixth : Run CalmStep System.initial
      [.lockBefore 1 8, .lock 1 8, .unlock 1 8, .lockBefore 1 7, .lock 1 7, .lockBefore 2 7] _ :=
    fifth.snoc ⟨rfl, by decide, show some 1 ≠ some 2 by decide⟩
  exact ⟨_, _, sixth, ((run_faithful sixth).1 2 1).mpr ⟨7, rfl, rfl⟩⟩

/-- Thread 1 gives mutex 7 away while thread 2 waits for it, and the edge stays. -/
theorem run_unfaithful : ∃ trace s,
    Run (fun s hook next => s.call hook = some next) System.initial trace s ∧
    ¬ Faithful s := by
  have facts : ([.lockBefore 1 7, .lock 1 7, .lockBefore 2 7, .unlock 1 7].foldlM System.call
      System.initial).any
      (fun s => s.phase 2 = .waiting 7 ∧ s.holder 7 = none ∧ 0 < s.tg.num ∧
        (s.tg.list 0).s.id = 2 ∧ ⟨1, .process⟩ ∈ (s.tg.list 0).next) = true := by
    decide +kernel
  obtain ⟨s, done, facts⟩ := (Option.any_eq_true _ _).mp facts
  refine ⟨_, s, Run.of_foldlM done, ?_⟩
  intro faithful
  obtain ⟨waits, unheld, inside, vertex, target⟩ := of_decide_eq_true facts
  obtain ⟨mutex, waits', holds⟩ := (faithful 2 1).mp ⟨0, inside, vertex, _, target, rfl⟩
  rw [waits] at waits'
  rw [← Phase.waiting.inj waits', unheld] at holds
  cases holds

end BackendCpp.Deadlock
