import BackendCpp.Deadlock.Program
import BackendCpp.Library.Run

/-!
# Who is recorded as the owner

`lock_after` records the new owner of a mutex and `unlock_after` clears the entry when nobody
waits. The release comes before its `unlock_after`, so another thread may be recorded in
between; an `unlock_after` that then finds the counter at 0 clears the entry of a mutex that
is held. That is the only way in which an owner is not recorded.
-/

namespace BackendCpp.Deadlock

open BackendCpp.Library

/-- The two graphs record the same owners in the same places. -/
structure SameRecords (tg tg' : TaskGraph) : Prop where
  /-- As many entries. -/
  lockidx : tg'.lockidx = tg.lockidx
  /-- The same owners. -/
  id : ∀ i, (tg'.locklist i).id = (tg.locklist i).id
  /-- The same mutexes. -/
  lockId : ∀ i, (tg'.locklist i).lockId = (tg.locklist i).lockId

/-- A task graph has its own records. -/
theorem SameRecords.refl (tg : TaskGraph) : SameRecords tg tg :=
  ⟨rfl, fun _ => rfl, fun _ => rfl⟩

/-- Keeping the records twice keeps them. -/
theorem SameRecords.trans {one two three : TaskGraph} (first : SameRecords one two)
    (second : SameRecords two three) : SameRecords one three :=
  ⟨second.lockidx.trans first.lockidx, fun i => (second.id i).trans (first.id i),
    fun i => (second.lockId i).trans (first.lockId i)⟩

/-- Graphs with the same table record the same. -/
theorem SameRecords.of_eq {tg tg' : TaskGraph} (lockidx : tg'.lockidx = tg.lockidx)
    (locklist : tg'.locklist = tg.locklist) : SameRecords tg tg' :=
  ⟨lockidx, fun i => by rw [locklist], fun i => by rw [locklist]⟩

/-- The counter of an entry may change. -/
theorem SameRecords.setLock (tg : TaskGraph) (i : Nat) (degress : Int) :
    SameRecords tg (tg.setLock i { tg.locklist i with degress := degress }) := by
  refine ⟨rfl, ?_, ?_⟩
  · intro j
    by_cases here : j = i
    · simp only [TaskGraph.setLock, here, Function.update_self]
    · simp only [TaskGraph.setLock, Function.update_of_ne here]
  · intro j
    by_cases here : j = i
    · simp only [TaskGraph.setLock, here, Function.update_self]
    · simp only [TaskGraph.setLock, Function.update_of_ne here]

/-- `add_vertex` leaves the table of mutexes alone. -/
theorem addVertex_locks {tg tg' : TaskGraph} {type : SourceType}
    (added : addVertex tg type = some tg') :
    tg'.lockidx = tg.lockidx ∧ tg'.locklist = tg.locklist := by
  unfold addVertex at added
  split at added
  · rw [← Option.some.inj added]
    exact ⟨rfl, rfl⟩
  · split at added
    · rw [← Option.some.inj added]
      exact ⟨rfl, rfl⟩
    · cases added

/-- `add_edge` leaves the table of mutexes alone. -/
theorem addEdge_locks {tg tg' : TaskGraph} {source target : SourceType}
    (added : addEdge tg source target = some tg') :
    tg'.lockidx = tg.lockidx ∧ tg'.locklist = tg.locklist := by
  simp only [addEdge, Option.bind_eq_some_iff, Option.map_eq_some_iff] at added
  obtain ⟨one, first, two, second, i, _, last⟩ := added
  obtain ⟨firstIdx, firstList⟩ := addVertex_locks first
  obtain ⟨secondIdx, secondList⟩ := addVertex_locks second
  rw [← last]
  exact ⟨secondIdx.trans firstIdx, secondList.trans firstList⟩

/-- `remove_edge` leaves the table of mutexes alone. -/
theorem removeEdge_locks (tg : TaskGraph) (source target : SourceType) :
    (removeEdge tg source target).lockidx = tg.lockidx ∧
      (removeEdge tg source target).locklist = tg.locklist := by
  unfold removeEdge
  split
  · exact ⟨rfl, rfl⟩
  · exact ⟨rfl, rfl⟩

/-- A pass of `lock_before` changes no record. -/
theorem lockBeforePass_records {tg tg' : TaskGraph} {thread lock : UInt64} {idx : Nat}
    (passed : lockBeforePass thread lock tg idx = some tg') : SameRecords tg tg' := by
  unfold lockBeforePass at passed
  split at passed
  · simp only [Option.bind_eq_some_iff] at passed
    obtain ⟨one, first, two, second, last⟩ := passed
    obtain ⟨firstIdx, firstList⟩ := addVertex_locks first
    obtain ⟨secondIdx, secondList⟩ := addVertex_locks second
    have toTwo : SameRecords tg two :=
      ((SameRecords.of_eq firstIdx firstList).trans (SameRecords.setLock one idx _)).trans
        (SameRecords.of_eq secondIdx secondList)
    split at last
    · rw [← Option.some.inj last]
      exact toTwo
    · obtain ⟨lastIdx, lastList⟩ := addEdge_locks last
      exact toTwo.trans (SameRecords.of_eq lastIdx lastList)
  · rw [← Option.some.inj passed]
    exact SameRecords.refl tg

/-- A loop whose passes change no record changes none. -/
theorem foldlM_records {pass : TaskGraph → Nat → Option TaskGraph}
    (keeps : ∀ tg idx tg', pass tg idx = some tg' → SameRecords tg tg') (indices : List Nat) :
    ∀ tg tg', indices.foldlM pass tg = some tg' → SameRecords tg tg' := by
  induction indices with
  | nil =>
    intro tg tg' done
    rw [← Option.some.inj done]
    exact SameRecords.refl tg
  | cons idx indices ih =>
    intro tg tg' done
    rw [List.foldlM_cons] at done
    obtain ⟨middle, first, rest⟩ := Option.bind_eq_some_iff.mp done
    exact (keeps tg idx middle first).trans (ih middle tg' rest)

/-- `lock_before` changes no record. -/
theorem lockBefore_records {tg tg' : TaskGraph} {thread lock : UInt64}
    (done : lockBefore tg thread lock = some tg') : SameRecords tg tg' := by
  unfold lockBefore at done
  split at done
  · exact foldlM_records (fun _ _ _ passed => lockBeforePass_records passed) _ _ _ done
  · cases done

/-- What a loop over `locklist` finds. -/
theorem scanLocks_spec {tg : TaskGraph} {test : LockEntry → Bool} {found : Option Nat}
    (scanned : scanLocks tg test = some found) :
    (∃ i, found = some i ∧ i < tg.lockidx ∧ test (tg.locklist i) = true) ∨
    (found = none ∧ ∀ i, i < tg.lockidx → test (tg.locklist i) = false) := by
  unfold scanLocks at scanned
  split at scanned
  · rename_i i hit
    apply Or.inl
    have passed := List.find?_some hit
    refine ⟨i, (Option.some.inj scanned).symm, ?_, passed⟩
    have member := List.mem_range.mp (List.mem_of_find?_eq_some hit)
    omega
  · rename_i miss
    split at scanned
    · rename_i inside
      apply Or.inr
      refine ⟨(Option.some.inj scanned).symm, ?_⟩
      intro i below
      have absent := List.find?_eq_none.mp miss i (List.mem_range.mpr (by omega))
      simpa using absent
    · cases scanned

/-- Where `lock_after` records the thread: in the entry of the mutex, or in an empty one when
there is none. -/
theorem lockAfter_records {tg tg' : TaskGraph} {thread lock : UInt64}
    (done : lockAfter tg thread lock = some tg') :
    ∃ i, tg'.lockidx ≥ tg.lockidx ∧ i < tg'.lockidx ∧ tg'.lockidx ≤ tg.lockidx + 1 ∧
      (tg'.locklist i).id = thread ∧ (tg'.locklist i).lockId = lock ∧
      (∀ j, j ≠ i → (tg'.locklist j).id = (tg.locklist j).id ∧
        (tg'.locklist j).lockId = (tg.locklist j).lockId) ∧
      ((i < tg.lockidx ∧ (tg.locklist i).lockId = lock) ∨
        ((∀ j, j < tg.lockidx → (tg.locklist j).lockId ≠ lock) ∧
          (i < tg.lockidx → (tg.locklist i).lockId = 0))) := by
  simp only [lockAfter, Option.bind_eq_some_iff] at done
  obtain ⟨found, searched, done⟩ := done
  rcases scanLocks_spec searched with ⟨i, rfl, below, hit⟩ | ⟨rfl, miss⟩
  · simp only [decide_eq_true_eq] at hit
    simp only [Option.some.injEq] at done
    refine ⟨i, ?_⟩
    have locks : ∀ (tg₁ : TaskGraph) (source target : SourceType),
        (if verifyEdge tg₁ source target then removeEdge tg₁ source target else tg₁).lockidx =
          tg₁.lockidx ∧
        (if verifyEdge tg₁ source target then removeEdge tg₁ source target else tg₁).locklist =
          tg₁.locklist := by
      intro tg₁ source target
      split
      · exact removeEdge_locks tg₁ source target
      · exact ⟨rfl, rfl⟩
    obtain ⟨idxSame, listSame⟩ := locks (tg.setLock i
      { tg.locklist i with degress := (tg.locklist i).degress - 1 }) ⟨thread, .process⟩
      ⟨(tg.locklist i).id, .process⟩
    rw [← done]
    simp only [TaskGraph.setLock] at idxSame listSame ⊢
    rw [idxSame, listSame]
    simp only [Function.update_self]
    refine ⟨le_rfl, below, by omega, trivial, hit, ?_, Or.inl ⟨below, hit⟩⟩
    intro j other
    rw [Function.update_of_ne other, Function.update_of_ne other]
    exact ⟨rfl, rfl⟩
  · simp only [searchEmptyLock, Option.map_eq_some_iff, Option.bind_eq_some_iff] at done
    obtain ⟨eidx, ⟨empty, scanned, value⟩, done⟩ := done
    split at done
    · rw [← Option.some.inj done]
      have place : eidx ≤ tg.lockidx ∧ (eidx < tg.lockidx → (tg.locklist eidx).lockId = 0) := by
        rcases scanLocks_spec scanned with ⟨i, rfl, below, hit⟩ | ⟨rfl, _⟩
        · simp only [decide_eq_true_eq, Option.getD_some] at hit value
          rw [← value]
          exact ⟨by omega, fun _ => hit⟩
        · simp only [Option.getD_none] at value
          rw [← value]
          exact ⟨le_rfl, fun impossible => absurd impossible (lt_irrefl _)⟩
      refine ⟨eidx, ?_⟩
      simp only [TaskGraph.setLock, Function.update_self]
      refine ⟨by omega, by omega, le_rfl, trivial, trivial, ?_, Or.inr ⟨?_, place.2⟩⟩
      · intro j other
        rw [Function.update_of_ne other]
        exact ⟨rfl, rfl⟩
      · intro j below
        have absent := miss j below
        simpa using absent
    · cases done

/-- `unlock_after` clears the entry of the mutex when the counter is 0. -/
theorem unlockAfter_records {tg tg' : TaskGraph} {lock : UInt64}
    (done : unlockAfter tg lock = some tg') :
    (tg' = tg ∧ ∀ i, i < tg.lockidx → (tg.locklist i).lockId = lock →
      ∃ j, j < tg.lockidx ∧ (tg.locklist j).lockId = lock ∧ (tg.locklist j).degress ≠ 0) ∨
    ∃ i, i < tg.lockidx ∧ (tg.locklist i).lockId = lock ∧ (tg.locklist i).degress = 0 ∧
      tg' = tg.setLock i { tg.locklist i with id := 0, lockId := 0 } := by
  simp only [unlockAfter, Option.map_eq_some_iff] at done
  obtain ⟨found, searched, done⟩ := done
  rcases scanLocks_spec searched with ⟨i, rfl, below, hit⟩ | ⟨rfl, miss⟩
  · simp only [decide_eq_true_eq] at hit
    simp only at done
    split at done
    · rename_i clear
      exact Or.inr ⟨i, below, hit, clear, done.symm⟩
    · rename_i counted
      exact Or.inl ⟨done.symm, fun _ _ _ => ⟨i, below, hit, counted⟩⟩
  · apply Or.inl
    refine ⟨done.symm, ?_⟩
    intro i below has
    have absent := miss i below
    simp [has] at absent

/-- Every thread that has finished `lock_after` and not released the mutex is recorded, in
exactly one entry. -/
def Recorded (s : System) : Prop :=
  ∀ thread lock, s.holder lock = some thread → s.phase thread ≠ .acquired lock →
    ∃ i, i < s.tg.lockidx ∧ (s.tg.locklist i).lockId = lock ∧ (s.tg.locklist i).id = thread ∧
      ∀ j, j < s.tg.lockidx → (s.tg.locklist j).lockId = lock → j = i

/-- An `unlock_after` that finds the counter of the mutex at 0 is not late: no thread has
finished its own `lock_after` on the mutex and holds it. -/
def Timely (s : System) : Action → Prop
  | .unlockAfter _ lock => ∀ i, i < s.tg.lockidx → (s.tg.locklist i).lockId = lock →
      (s.tg.locklist i).degress = 0 → ∀ thread, s.holder lock = some thread →
      s.phase thread = .acquired lock
  | .lockBefore _ _ | .acquire _ _ | .lockAfter _ _ | .release _ _ => True

/-- What holds of the threads and the mutexes, whatever the detector does. -/
structure Threads (holder : UInt64 → Option UInt64) (phase : UInt64 → Phase) : Prop where
  /-- A mutex that is held has an address. -/
  held : ∀ thread lock, holder lock = some thread → lock ≠ 0
  /-- So has one that is waited for. -/
  awaited : ∀ thread lock, phase thread = .waiting lock → lock ≠ 0
  /-- So has one that was released. -/
  given : ∀ thread lock, phase thread = .released lock → lock ≠ 0
  /-- A thread behind the real acquire holds the mutex. -/
  acquired : ∀ thread lock, phase thread = .acquired lock → holder lock = some thread

/-- One thread moves on. -/
theorem Threads.move {holder holder' : UInt64 → Option UInt64} {phase : UInt64 → Phase}
    (threads : Threads holder phase) {thread : UInt64} {next : Phase}
    (held : ∀ other lock, holder' lock = some other → lock ≠ 0)
    (stays : ∀ other lock, other ≠ thread → holder lock = some other → holder' lock = some other)
    (awaited : ∀ lock, next = .waiting lock → lock ≠ 0)
    (given : ∀ lock, next = .released lock → lock ≠ 0)
    (acquired : ∀ lock, next = .acquired lock → holder' lock = some thread) :
    Threads holder' (Function.update phase thread next) := by
  refine ⟨held, ?_, ?_, ?_⟩
  · intro other lock waits
    by_cases this : other = thread
    · rw [this, Function.update_self] at waits
      exact awaited lock waits
    · rw [Function.update_of_ne this] at waits
      exact threads.awaited other lock waits
  · intro other lock released
    by_cases this : other = thread
    · rw [this, Function.update_self] at released
      exact given lock released
    · rw [Function.update_of_ne this] at released
      exact threads.given other lock released
  · intro other lock behind
    by_cases this : other = thread
    · rw [this, Function.update_self] at behind
      rw [this]
      exact acquired lock behind
    · rw [Function.update_of_ne this] at behind
      exact stays other lock this (threads.acquired other lock behind)

/-- Every step keeps the threads and the mutexes in order. -/
theorem Threads.step {s next : System} (threads : Threads s.holder s.phase) {action : Action}
    (done : s.exec action = some next) : Threads next.holder next.phase := by
  cases action with
  | lockBefore thread lock =>
    simp only [System.exec] at done
    split at done
    · rename_i guard
      obtain ⟨tg, _, same⟩ := Option.map_eq_some_iff.mp done
      rw [← same]
      refine threads.move threads.held (fun _ _ _ holds => holds) ?_
        (fun _ impossible => by cases impossible) (fun _ impossible => by cases impossible)
      intro mutex waits
      rw [← Phase.waiting.inj waits]
      exact guard.2
    · cases done
  | acquire thread lock =>
    simp only [System.exec] at done
    split at done
    · rename_i guard
      obtain ⟨waits, free⟩ := guard
      rw [← Option.some.inj done]
      show Threads (Function.update s.holder lock (some thread))
        (Function.update s.phase thread (.acquired lock))
      apply threads.move
      · intro other mutex holds
        by_cases this : mutex = lock
        · rw [this]
          exact threads.awaited thread lock waits
        · rw [Function.update_of_ne this] at holds
          exact threads.held other mutex holds
      · intro other mutex _ holds
        by_cases this : mutex = lock
        · rw [this, free] at holds
          cases holds
        · rw [Function.update_of_ne this]
          exact holds
      · intro mutex impossible
        cases impossible
      · intro mutex impossible
        cases impossible
      · intro mutex behind
        rw [← Phase.acquired.inj behind, Function.update_self]
    · cases done
  | lockAfter thread lock =>
    simp only [System.exec] at done
    split at done
    · obtain ⟨tg, _, same⟩ := Option.map_eq_some_iff.mp done
      rw [← same]
      exact threads.move threads.held (fun _ _ _ holds => holds)
        (fun _ impossible => by cases impossible) (fun _ impossible => by cases impossible)
        (fun _ impossible => by cases impossible)
    · cases done
  | release thread lock =>
    simp only [System.exec] at done
    split at done
    · rename_i guard
      obtain ⟨running, holds⟩ := guard
      rw [← Option.some.inj done]
      show Threads (Function.update s.holder lock none)
        (Function.update s.phase thread (.released lock))
      apply threads.move
      · intro other mutex holds'
        by_cases this : mutex = lock
        · rw [this, Function.update_self] at holds'
          cases holds'
        · rw [Function.update_of_ne this] at holds'
          exact threads.held other mutex holds'
      · intro other mutex different holds'
        by_cases this : mutex = lock
        · rw [this, holds] at holds'
          exact absurd (Option.some.inj holds').symm different
        · rw [Function.update_of_ne this]
          exact holds'
      · intro mutex impossible
        cases impossible
      · intro mutex released
        rw [← Phase.released.inj released]
        exact threads.held thread lock holds
      · intro mutex impossible
        cases impossible
    · cases done
  | unlockAfter thread lock =>
    simp only [System.exec] at done
    split at done
    · obtain ⟨tg, _, same⟩ := Option.map_eq_some_iff.mp done
      rw [← same]
      exact threads.move threads.held (fun _ _ _ holds => holds)
        (fun _ impossible => by cases impossible) (fun _ impossible => by cases impossible)
        (fun _ impossible => by cases impossible)
    · cases done

/-- What holds between the steps. -/
structure Records (s : System) : Prop where
  /-- The threads and the mutexes are in order. -/
  threads : Threads s.holder s.phase
  /-- Entries that are not in use have no mutex. -/
  blank : ∀ i, s.tg.lockidx ≤ i → (s.tg.locklist i).lockId = 0
  /-- A mutex has one entry at most. -/
  unique : ∀ i j, i < s.tg.lockidx → j < s.tg.lockidx → (s.tg.locklist i).lockId ≠ 0 →
    (s.tg.locklist i).lockId = (s.tg.locklist j).lockId → i = j
  /-- A recorded owner has an entry. -/
  entry : ∀ thread lock, s.holder lock = some thread → s.phase thread ≠ .acquired lock →
    ∃ i, i < s.tg.lockidx ∧ (s.tg.locklist i).lockId = lock ∧ (s.tg.locklist i).id = thread

/-- The invariant says that owners are recorded. -/
theorem Records.recorded {s : System} (records : Records s) : Recorded s := by
  intro thread lock holds finished
  obtain ⟨i, below, has, owner⟩ := records.entry thread lock holds finished
  refine ⟨i, below, has, owner, ?_⟩
  intro j below' has'
  have address := records.threads.held thread lock holds
  exact (records.unique i j below below' (by rw [has]; exact address)
    (has.trans has'.symm)).symm

/-- Before the first step the records are right. -/
theorem initial_records : Records System.initial := by
  refine ⟨⟨?_, ?_, ?_, ?_⟩, fun _ _ => rfl, ?_, ?_⟩
  · intro thread lock holds
    cases holds
  · intro thread lock waits
    cases waits
  · intro thread lock released
    cases released
  · intro thread lock acquired
    cases acquired
  · intro i j below
    exact absurd below (Nat.not_lt_zero i)
  · intro thread lock holds
    cases holds

/-- Steps that change no record, and let no thread finish, keep the records. -/
theorem Records.quiet {s next : System} (records : Records s)
    (threads : Threads next.holder next.phase) (same : SameRecords s.tg next.tg)
    (earlier : ∀ thread lock, next.holder lock = some thread →
      next.phase thread ≠ .acquired lock →
      s.holder lock = some thread ∧ s.phase thread ≠ .acquired lock) : Records next := by
  refine ⟨threads, ?_, ?_, ?_⟩
  · intro i above
    rw [same.lockidx] at above
    rw [same.lockId]
    exact records.blank i above
  · intro i j below below'
    rw [same.lockidx] at below below'
    rw [same.lockId, same.lockId]
    exact records.unique i j below below'
  · intro thread lock holds finished
    obtain ⟨holds', finished'⟩ := earlier thread lock holds finished
    obtain ⟨i, below, has, owner⟩ := records.entry thread lock holds' finished'
    refine ⟨i, ?_, ?_, ?_⟩
    · rw [same.lockidx]
      exact below
    · rw [same.lockId]
      exact has
    · rw [same.id]
      exact owner

/-- A thread that has acquired a mutex is not the one that goes on from another phase. -/
theorem acquired_update {phase : UInt64 → Phase} {thread other mutex : UInt64} {here : Phase}
    (differs : phase thread ≠ .acquired mutex) (acquired : phase other = .acquired mutex) :
    Function.update phase thread here other = .acquired mutex := by
  have different : other ≠ thread := by
    intro equal
    rw [equal] at acquired
    exact differs acquired
  exact (Function.update_of_ne different ..).trans acquired

/-- Who holds a mutex after an acquire and is past acquiring it was so before. -/
theorem held_update {holder : UInt64 → Option UInt64} {phase : UInt64 → Phase}
    {thread other lock mutex : UInt64} (differs : phase thread ≠ .acquired mutex)
    (holds : Function.update holder lock (some thread) mutex = some other)
    (finished : Function.update phase thread (.acquired lock) other ≠ .acquired mutex) :
    holder mutex = some other ∧ phase other ≠ .acquired mutex := by
  by_cases this : mutex = lock
  · rw [this, Function.update_self] at holds
    rw [this, ← Option.some.inj holds, Function.update_self] at finished
    exact absurd rfl finished
  · rw [Function.update_of_ne this] at holds
    exact ⟨holds, fun acquired => finished (acquired_update differs acquired)⟩

/-- `lock_before` keeps the records. -/
theorem lockBefore_step {s next : System} (records : Records s) {thread lock : UInt64}
    (done : s.exec (.lockBefore thread lock) = some next) : Records next := by
  have threads := records.threads.step done
  simp only [System.exec] at done
  split at done
  · rename_i guard
    have running := guard.1
    rw [Option.map_eq_some_iff] at done
    obtain ⟨tg, before, done⟩ := done
    rw [← done] at threads ⊢
    refine records.quiet threads (lockBefore_records before) ?_
    · intro other mutex holds finished
      refine ⟨holds, fun acquired => finished (acquired_update ?_ acquired)⟩
      rw [running]
      exact Phase.noConfusion
  · cases done

/-- The real acquire keeps the records. -/
theorem acquire_step {s next : System} (records : Records s) {thread lock : UInt64}
    (done : s.exec (.acquire thread lock) = some next) : Records next := by
  have threads := records.threads.step done
  simp only [System.exec] at done
  split at done
  · rename_i guard
    obtain ⟨waits, free⟩ := guard
    rw [← Option.some.inj done] at threads ⊢
    refine records.quiet threads (SameRecords.refl _) ?_
    · intro other mutex holds finished
      refine held_update ?_ holds finished
      rw [waits]
      exact Phase.noConfusion
  · cases done

/-- `lock_after` records the owner. -/
theorem lockAfter_step {s next : System} (records : Records s) {thread lock : UInt64}
    (done : s.exec (.lockAfter thread lock) = some next) : Records next := by
  have threads := records.threads.step done
  simp only [System.exec] at done
  split at done
  · rename_i behind
    rw [Option.map_eq_some_iff] at done
    obtain ⟨tg, after, done⟩ := done
    obtain ⟨i, grows, below, bound, owner, mutexOf, others, place⟩ := lockAfter_records after
    have holds := records.threads.acquired thread lock behind
    have address := records.threads.held thread lock holds
    rw [← done] at threads ⊢
    refine ⟨threads, ?_, ?_, ?_⟩
    · intro j above
      change tg.lockidx ≤ j at above
      rw [(others j (by omega)).2]
      exact records.blank j (by omega)
    · intro j k below' below'' present same
      change j < tg.lockidx at below'
      change k < tg.lockidx at below''
      change (tg.locklist j).lockId ≠ 0 at present
      change (tg.locklist j).lockId = (tg.locklist k).lockId at same
      have elsewhere : ∀ m, m < tg.lockidx → m ≠ i → (tg.locklist m).lockId ≠ lock := by
        intro m inside other has
        rw [(others m other).2] at has
        by_cases listed : m < s.tg.lockidx
        · rcases place with ⟨old, hasOld⟩ | ⟨absent, _⟩
          · exact other (records.unique m i listed old (by rw [has]; exact address)
              (has.trans hasOld.symm))
          · exact absent m listed has
        · rw [records.blank m (by omega)] at has
          exact address has.symm
      by_cases first : j = i
      · by_cases second : k = i
        · rw [first, second]
        · rw [first, mutexOf] at same
          exact absurd same.symm (elsewhere k below'' second)
      · by_cases second : k = i
        · rw [second, mutexOf] at same
          exact absurd same (elsewhere j below' first)
        · rw [(others j first).2] at present same
          rw [(others k second).2] at same
          have inside : j < s.tg.lockidx := by
            by_contra outside
            exact present (records.blank j (by omega))
          have inside' : k < s.tg.lockidx := by
            by_contra outside
            rw [records.blank k (by omega)] at same
            exact present same
          exact records.unique j k inside inside' present same
    · intro other mutex holds' finished
      change s.holder mutex = some other at holds'
      change Function.update s.phase thread .running other ≠ .acquired mutex at finished
      by_cases this : mutex = lock
      · rw [this, holds] at holds'
        rw [← Option.some.inj holds', this]
        exact ⟨i, below, mutexOf, owner⟩
      · have earlier : s.phase other ≠ .acquired mutex := by
          intro acquired
          by_cases same : other = thread
          · rw [same, behind] at acquired
            exact this (Phase.acquired.inj acquired).symm
          · rw [Function.update_of_ne same] at finished
            exact finished acquired
        obtain ⟨j, below', has, owner'⟩ := records.entry other mutex holds' earlier
        have elsewhere : j ≠ i := by
          intro same
          rw [same] at has below'
          rcases place with ⟨_, hasOld⟩ | ⟨_, empty⟩
          · exact this (has.symm.trans hasOld)
          · exact records.threads.held other mutex holds' (has.symm.trans (empty below'))
        refine ⟨j, lt_of_lt_of_le below' grows, ?_, ?_⟩
        · exact (others j elsewhere).2.trans has
        · exact (others j elsewhere).1.trans owner'
  · cases done

/-- The real release keeps the records. -/
theorem release_step {s next : System} (records : Records s) {thread lock : UInt64}
    (done : s.exec (.release thread lock) = some next) : Records next := by
  have threads := records.threads.step done
  simp only [System.exec] at done
  split at done
  · rename_i guard
    obtain ⟨running, holds⟩ := guard
    rw [← Option.some.inj done] at threads ⊢
    refine records.quiet threads (SameRecords.refl _) ?_
    · intro other mutex holds' finished
      change Function.update s.holder lock none mutex = some other at holds'
      change Function.update s.phase thread (.released lock) other ≠ .acquired mutex at finished
      by_cases this : mutex = lock
      · rw [this, Function.update_self] at holds'
        cases holds'
      · rw [Function.update_of_ne this] at holds'
        refine ⟨holds', ?_⟩
        intro acquired
        by_cases same : other = thread
        · rw [same, running] at acquired
          cases acquired
        · rw [Function.update_of_ne same] at finished
          exact finished acquired
  · cases done

/-- `unlock_after` keeps the records when it is not late. -/
theorem unlockAfter_step {s next : System} (records : Records s) {thread lock : UInt64}
    (timely : Timely s (.unlockAfter thread lock))
    (done : s.exec (.unlockAfter thread lock) = some next) : Records next := by
  have threads := records.threads.step done
  simp only [System.exec] at done
  split at done
  · rename_i released
    rw [Option.map_eq_some_iff] at done
    obtain ⟨tg, after, done⟩ := done
    have earlier : ∀ other mutex,
        Function.update s.phase thread .running other ≠ .acquired mutex →
        s.phase other ≠ .acquired mutex := by
      intro other mutex finished acquired
      by_cases same : other = thread
      · rw [same, released] at acquired
        cases acquired
      · rw [Function.update_of_ne same] at finished
        exact finished acquired
    rw [← done] at threads ⊢
    rcases unlockAfter_records after with ⟨unchanged, _⟩ | ⟨i, below, has, counter, cleared⟩
    · rw [unchanged]
      exact records.quiet threads (SameRecords.refl _)
        (fun other mutex holds finished => ⟨holds, earlier other mutex finished⟩)
    · have size : tg.lockidx = s.tg.lockidx := by rw [cleared]; rfl
      have here : (tg.locklist i).lockId = 0 := by
        rw [cleared]
        simp only [TaskGraph.setLock, Function.update_self]
      have others : ∀ j, j ≠ i → tg.locklist j = s.tg.locklist j := by
        intro j other
        rw [cleared]
        exact Function.update_of_ne other ..
      refine ⟨threads, ?_, ?_, ?_⟩
      · intro j above
        change tg.lockidx ≤ j at above
        rw [size] at above
        rw [others j (by omega)]
        exact records.blank j above
      · intro j k below' below'' present same
        change j < tg.lockidx at below'
        change k < tg.lockidx at below''
        change (tg.locklist j).lockId ≠ 0 at present
        change (tg.locklist j).lockId = (tg.locklist k).lockId at same
        rw [size] at below' below''
        have first : j ≠ i := by
          intro equal
          rw [equal] at present
          exact present here
        have second : k ≠ i := by
          intro equal
          rw [equal, here] at same
          exact present same
        rw [others j first] at present same
        rw [others k second] at same
        exact records.unique j k below' below'' present same
      · intro other mutex holds finished
        change s.holder mutex = some other at holds
        have finished' := earlier other mutex finished
        have different : mutex ≠ lock := by
          intro same
          rw [same] at holds finished'
          exact finished' (timely i below has counter other holds)
        obtain ⟨j, below', has', owner⟩ := records.entry other mutex holds finished'
        have elsewhere : j ≠ i := by
          intro same
          rw [same, has] at has'
          exact different has'.symm
        refine ⟨j, ?_, ?_, ?_⟩
        · change j < tg.lockidx
          rw [size]
          exact below'
        · exact (congrArg LockEntry.lockId (others j elsewhere)).trans has'
        · exact (congrArg LockEntry.id (others j elsewhere)).trans owner
  · cases done

/-- Every timely step keeps the records. -/
theorem exec_records {s next : System} (records : Records s) {action : Action}
    (timely : Timely s action) (done : s.exec action = some next) : Records next := by
  cases action with
  | lockBefore thread lock => exact lockBefore_step records done
  | acquire thread lock => exact acquire_step records done
  | lockAfter thread lock => exact lockAfter_step records done
  | release thread lock => exact release_step records done
  | unlockAfter thread lock => exact unlockAfter_step records timely done

/-- A late `unlock_after` clears the entry of an owner. -/
theorem exec_late {s next : System} (records : Records s) {action : Action}
    (late : ¬ Timely s action) (done : s.exec action = some next) : ¬ Recorded next := by
  cases action with
  | unlockAfter thread lock =>
    simp only [Timely, not_forall] at late
    obtain ⟨i, below, has, counter, owner, holds, finished⟩ := late
    simp only [System.exec] at done
    split at done
    · rename_i released
      rw [Option.map_eq_some_iff] at done
      obtain ⟨tg, after, done⟩ := done
      have address := records.threads.held owner lock holds
      intro recorded
      rw [← done] at recorded
      have behind : Function.update s.phase thread .running owner ≠ .acquired lock := by
        by_cases same : owner = thread
        · rw [same, Function.update_self]
          exact Phase.noConfusion
        · rw [Function.update_of_ne same]
          exact finished
      obtain ⟨j, below', has', _⟩ := recorded owner lock holds behind
      change j < tg.lockidx at below'
      change (tg.locklist j).lockId = lock at has'
      rcases unlockAfter_records after with ⟨_, counted⟩ | ⟨k, belowK, hasK, _, cleared⟩
      · obtain ⟨k, belowK, hasK, nonzero⟩ := counted i below has
        have same := records.unique i k below belowK (by rw [has]; exact address)
          (has.trans hasK.symm)
        rw [same] at counter
        exact nonzero counter
      · have size : tg.lockidx = s.tg.lockidx := by rw [cleared]; rfl
        by_cases here : j = k
        · rw [here, cleared] at has'
          simp only [TaskGraph.setLock, Function.update_self] at has'
          exact address has'.symm
        · have unchanged : tg.locklist j = s.tg.locklist j := by
            rw [cleared]
            exact Function.update_of_ne here ..
          rw [unchanged] at has'
          rw [size] at below'
          exact here (records.unique j k below' belowK (by rw [has']; exact address)
            (has'.trans hasK.symm))
    · cases done
  | lockBefore thread lock => exact absurd trivial late
  | acquire thread lock => exact absurd trivial late
  | lockAfter thread lock => exact absurd trivial late
  | release thread lock => exact absurd trivial late

end BackendCpp.Deadlock
