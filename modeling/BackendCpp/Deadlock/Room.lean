import BackendCpp.Deadlock.Detector
import BackendCpp.Deadlock.Graph

/-!
# Room in the tables

Nothing in the hooks looks at the bound of a table: `add_vertex` writes to the place `num` of
`list`, `lock_after` to the place `lockidx` of `locklist`, and the loops over `locklist` run up to
`lockidx`. A step stays inside the tables under a condition on the state before it, and then it has
a result. So the owners are recorded as long as the steps stay inside and no `unlock_after` is late.
-/

namespace BackendCpp.Deadlock

open BackendCpp.Library

variable {tg : TaskGraph}

/-- The mutex has an entry. -/
def HasEntry (tg : TaskGraph) (lock : UInt64) : Prop :=
  ∃ i, i < tg.lockidx ∧ (tg.locklist i).lockId = lock

instance (tg : TaskGraph) (lock : UInt64) : Decidable (HasEntry tg lock) :=
  inferInstanceAs (Decidable (∃ i, i < tg.lockidx ∧ (tg.locklist i).lockId = lock))

/-- A search for the mutex ends inside the table: it meets an entry there, or `lockidx` is not
behind the table. -/
def Searchable (tg : TaskGraph) (lock : UInt64) : Prop :=
  tg.lockidx ≤ MAX ∨ ∃ i, i < MAX ∧ i < tg.lockidx ∧ (tg.locklist i).lockId = lock

instance (tg : TaskGraph) (lock : UInt64) : Decidable (Searchable tg lock) :=
  inferInstanceAs (Decidable (tg.lockidx ≤ MAX ∨
    ∃ i, i < MAX ∧ i < tg.lockidx ∧ (tg.locklist i).lockId = lock))

/-- `add_vertex` has a place for each of two threads that has no vertex. -/
def Admits (tg : TaskGraph) (thread owner : UInt64) : Prop :=
  (searchVertex tg ⟨thread, .process⟩ = none → tg.num < MAX) ∧
    (owner ≠ thread → searchVertex tg ⟨owner, .process⟩ = none →
      tg.num + (if searchVertex tg ⟨thread, .process⟩ = none then 1 else 0) < MAX)

instance (tg : TaskGraph) (thread owner : UInt64) : Decidable (Admits tg thread owner) :=
  inferInstanceAs (Decidable ((_ → _) ∧ (_ → _ → _)))

/-- The thread and the mutex allow the step. -/
def System.Enabled (s : System) : Action → Prop
  | .lockBefore thread lock => s.phase thread = .running ∧ lock ≠ 0
  | .acquire thread lock => s.phase thread = .waiting lock ∧ s.holder lock = none
  | .lockAfter thread lock => s.phase thread = .acquired lock
  | .release thread lock => s.phase thread = .running ∧ s.holder lock = some thread
  | .unlockAfter thread lock => s.phase thread = .released lock

/-- The step stays inside the tables. `lock_before` goes over all entries and adds the thread and
the owner as vertices; `lock_after` finds the entry of its mutex, a cleared one or a free place;
`unlock_after` searches for its mutex. -/
def Inside (s : System) : Action → Prop
  | .lockBefore thread lock => s.tg.lockidx ≤ MAX ∧
      ∀ i, i < s.tg.lockidx → (s.tg.locklist i).lockId = lock →
        Admits s.tg thread (s.tg.locklist i).id
  | .lockAfter _ lock => Searchable s.tg lock ∧
      (HasEntry s.tg lock ∨ s.tg.lockidx < MAX ∨
        ∃ i, i < s.tg.lockidx ∧ (s.tg.locklist i).lockId = 0)
  | .unlockAfter _ lock => Searchable s.tg lock
  | .acquire _ _ | .release _ _ => True

instance (s : System) (action : Action) : Decidable (Inside s action) :=
  match action with
  | .lockBefore thread lock => inferInstanceAs (Decidable (s.tg.lockidx ≤ MAX ∧
      ∀ i, i < s.tg.lockidx → (s.tg.locklist i).lockId = lock →
        Admits s.tg thread (s.tg.locklist i).id))
  | .lockAfter _ lock => inferInstanceAs (Decidable (Searchable s.tg lock ∧
      (HasEntry s.tg lock ∨ s.tg.lockidx < MAX ∨
        ∃ i, i < s.tg.lockidx ∧ (s.tg.locklist i).lockId = 0)))
  | .unlockAfter _ lock => inferInstanceAs (Decidable (Searchable s.tg lock))
  | .acquire _ _ | .release _ _ => isTrue trivial

/-- `add_vertex` has a result when the vertex is there or there is a place for it. -/
theorem exists_addVertex {type : SourceType} :
    (∃ tg', addVertex tg type = some tg') ↔ (searchVertex tg type = none → tg.num < MAX) := by
  unfold addVertex
  cases found : searchVertex tg type with
  | some i =>
    refine iff_of_true ⟨tg, rfl⟩ ?_
    intro impossible
    cases impossible
  | none =>
    by_cases room : tg.num < MAX
    · simp only [if_pos room]
      exact iff_of_true ⟨_, rfl⟩ fun _ => room
    · simp only [if_neg room]
      refine iff_of_false ?_ fun enough => room (enough trivial)
      rintro ⟨_, impossible⟩
      cases impossible

/-- `add_vertex` counts a vertex that was not there, and makes no other thread a vertex. -/
theorem addVertex_num {thread : UInt64} {tg' : TaskGraph}
    (added : addVertex tg ⟨thread, .process⟩ = some tg') :
    tg'.num = tg.num + (if searchVertex tg ⟨thread, .process⟩ = none then 1 else 0) ∧
      ∀ other, other ≠ thread → searchVertex tg ⟨other, .process⟩ = none →
        searchVertex tg' ⟨other, .process⟩ = none := by
  rcases addVertex_cells added with ⟨rfl, i, found⟩ | ⟨absent, _, count, old, last⟩
  · rw [found, if_neg (Option.some_ne_none i)]
    exact ⟨rfl, fun _ _ missing => missing⟩
  · rw [if_pos absent]
    refine ⟨count, ?_⟩
    intro other different missing
    apply List.find?_eq_none.mpr
    intro i member
    by_cases here : i = tg.num
    · rw [here, last, decide_eq_true_eq]
      exact fun same => different same.2.symm
    · have early : i < tg.num := by
        have bound := List.mem_range.mp member
        omega
      rw [old i early]
      exact List.find?_eq_none.mp missing i (List.mem_range.mpr early)

/-- `add_edge` between vertices has a result. -/
theorem exists_addEdge {source target : SourceType} {i j : Nat}
    (first : searchVertex tg source = some i) (second : searchVertex tg target = some j) :
    ∃ tg', addEdge tg source target = some tg' := by
  have one : addVertex tg source = some tg := by rw [addVertex, first]
  have two : addVertex tg target = some tg := by rw [addVertex, second]
  simp only [addEdge, one, two, first, Option.bind_some, Option.map_some]
  exact ⟨_, rfl⟩

/-- A pass of `lock_before` over the entry of the mutex has a result when there are places for the
thread and the owner. -/
theorem exists_lockBeforePass {thread lock : UInt64} {idx : Nat}
    (has : (tg.locklist idx).lockId = lock) :
    (∃ tg', lockBeforePass thread lock tg idx = some tg') ↔
      Admits tg thread (tg.locklist idx).id := by
  unfold lockBeforePass
  rw [if_pos has]
  cases first : addVertex tg ⟨thread, .process⟩ with
  | none =>
    simp only [first, Option.bind_none]
    refine iff_of_false ?_ fun admits => ?_
    · rintro ⟨_, impossible⟩
      cases impossible
    · obtain ⟨one, added⟩ := exists_addVertex.mpr admits.1
      rw [first] at added
      cases added
  | some one =>
    obtain ⟨count, others⟩ := addVertex_num first
    obtain ⟨⟨j, _, own⟩, kept⟩ := addVertex_found first
    have room := exists_addVertex.mp ⟨one, first⟩
    have sameOwner : (one.locklist idx).id = (tg.locklist idx).id := by
      rw [(addVertex_locks first).2]
    let counted := one.setLock idx
      { one.locklist idx with degress := (one.locklist idx).degress + 1 }
    have admits : Admits tg thread (tg.locklist idx).id ↔
        (searchVertex counted ⟨(tg.locklist idx).id, .process⟩ = none → counted.num < MAX) := by
      change _ ↔ (searchVertex one _ = none → one.num < MAX)
      rw [count]
      by_cases same : (tg.locklist idx).id = thread
      · rw [same, own]
        refine iff_of_true ⟨room, fun different => absurd rfl different⟩ ?_
        intro impossible
        cases impossible
      · constructor
        · intro admits missing
          apply admits.2 same
          cases before : searchVertex tg ⟨(tg.locklist idx).id, .process⟩ with
          | none => rfl
          | some k =>
            rw [kept _ k before] at missing
            cases missing
        · exact fun enough => ⟨room, fun different missing => enough (others _ different missing)⟩
    rw [admits, ← exists_addVertex]
    simp only [first, Option.bind_some, sameOwner]
    constructor
    · rintro ⟨last, done⟩
      obtain ⟨two, second, _⟩ := Option.bind_eq_some_iff.mp done
      exact ⟨two, by rw [← second, ← sameOwner]⟩
    · rintro ⟨two, second⟩
      obtain ⟨⟨k, _, target⟩, mono⟩ := addVertex_found second
      have source : searchVertex two ⟨thread, .process⟩ = some j := mono _ j own
      have added : addVertex (one.setLock idx ⟨(tg.locklist idx).id, (one.locklist idx).lockId,
          (one.locklist idx).degress + 1⟩) ⟨(tg.locklist idx).id, .process⟩ = some two := by
        rw [← second, ← sameOwner]
      rw [added, Option.bind_some]
      split
      · exact ⟨two, rfl⟩
      · exact exists_addEdge source target

/-- `lock_before` has a result when the table is not overrun and there are places for the thread and
the owner, in a table that has one entry of the mutex at most. -/
theorem exists_lockBefore {thread lock : UInt64}
    (unique : ∀ i j, i < tg.lockidx → j < tg.lockidx → (tg.locklist i).lockId = lock →
      (tg.locklist j).lockId = lock → i = j) :
    (∃ tg', lockBefore tg thread lock = some tg') ↔ tg.lockidx ≤ MAX ∧
      ∀ i, i < tg.lockidx → (tg.locklist i).lockId = lock →
        Admits tg thread (tg.locklist i).id := by
  by_cases small : tg.lockidx ≤ MAX
  · by_cases present : HasEntry tg lock
    · obtain ⟨i, below, has⟩ := present
      have only : ∀ j, j < tg.lockidx → (tg.locklist j).lockId = lock → j = i :=
        fun j inside same => unique j i inside below same has
      rw [lockBefore_entry small below only, exists_lockBeforePass has]
      constructor
      · intro admits
        refine ⟨small, fun j inside same => ?_⟩
        rw [only j inside same]
        exact admits
      · exact fun both => both.2 i below has
    · have absent : ∀ j, j < tg.lockidx → (tg.locklist j).lockId ≠ lock :=
        fun j below has => present ⟨j, below, has⟩
      rw [lockBefore_absent small absent]
      exact iff_of_true ⟨tg, rfl⟩ ⟨small, fun i below has => absurd has (absent i below)⟩
  · unfold lockBefore
    rw [if_neg small]
    exact iff_of_false (fun ⟨_, impossible⟩ => by cases impossible) fun both => small both.1

/-- A search has a result when it ends inside the table. -/
theorem exists_searchLock {lock : UInt64} :
    (∃ found, searchLock tg lock = some found) ↔ Searchable tg lock := by
  unfold searchLock scanLocks
  cases hit : (List.range (min tg.lockidx MAX)).find? fun i =>
      decide ((tg.locklist i).lockId = lock) with
  | some i =>
    have below := List.mem_range.mp (List.mem_of_find?_eq_some hit)
    have has := List.find?_some hit
    rw [decide_eq_true_eq] at has
    exact iff_of_true ⟨_, rfl⟩ (Or.inr ⟨i, by omega, by omega, has⟩)
  | none =>
    by_cases small : tg.lockidx ≤ MAX
    · exact iff_of_true ⟨none, if_pos small⟩ (Or.inl small)
    · refine iff_of_false ?_ ?_
      · rintro ⟨found, scanned⟩
        simp only [if_neg small] at scanned
        cases scanned
      · rintro (within | ⟨i, inside, below, has⟩)
        · exact small within
        · have miss := List.find?_eq_none.mp hit i (List.mem_range.mpr (by omega))
          exact miss (decide_eq_true has)

/-- A loop over `locklist` stays inside. -/
theorem exists_scanLocks (small : tg.lockidx ≤ MAX) (test : LockEntry → Bool) :
    ∃ found, scanLocks tg test = some found := by
  unfold scanLocks
  split
  · exact ⟨_, rfl⟩
  · exact ⟨none, if_pos small⟩

/-- A loop over `locklist` leaves at the first entry that it looks for. -/
theorem scanLocks_first {test : LockEntry → Bool} (used : 0 < tg.lockidx)
    (hit : test (tg.locklist 0) = true) : scanLocks tg test = some (some 0) := by
  obtain ⟨rest, count⟩ : ∃ rest, min tg.lockidx MAX = rest + 1 :=
    ⟨min tg.lockidx MAX - 1, by simp only [MAX]; omega⟩
  have found : (List.range (min tg.lockidx MAX)).find? (fun i => test (tg.locklist i)) =
      some 0 := by
    rw [count, List.range_succ_eq_map, List.find?_cons, hit]
  rw [scanLocks, found]

/-- `search_empty_lock` answers a cleared entry, or `lockidx` when there is none. -/
theorem searchEmptyLock_spec (small : tg.lockidx ≤ MAX) :
    ∃ eidx, searchEmptyLock tg = some eidx ∧
      ((eidx < tg.lockidx ∧ (tg.locklist eidx).lockId = 0) ∨
        (eidx = tg.lockidx ∧ ∀ i, i < tg.lockidx → (tg.locklist i).lockId ≠ 0)) := by
  obtain ⟨empty, searched⟩ := exists_scanLocks small fun entry => entry.lockId = 0
  refine ⟨empty.getD tg.lockidx, by rw [searchEmptyLock, searched]; rfl, ?_⟩
  rcases scanLocks_spec searched with ⟨i, rfl, below, hit⟩ | ⟨rfl, miss⟩
  · exact Or.inl ⟨below, of_decide_eq_true hit⟩
  · exact Or.inr ⟨rfl, fun i below => of_decide_eq_false (miss i below)⟩

/-- `lock_after` has a result when its search ends inside the table and there is an entry or a place
for its mutex. -/
theorem exists_lockAfter {thread lock : UInt64} :
    (∃ tg', lockAfter tg thread lock = some tg') ↔ Searchable tg lock ∧
      (HasEntry tg lock ∨ tg.lockidx < MAX ∨
        ∃ i, i < tg.lockidx ∧ (tg.locklist i).lockId = 0) := by
  rw [← exists_searchLock]
  cases searched : searchLock tg lock with
  | none =>
    rw [lockAfter, searched, Option.bind_none]
    refine iff_of_false ?_ ?_
    · rintro ⟨_, impossible⟩
      cases impossible
    · rintro ⟨⟨_, impossible⟩, _⟩
      cases impossible
  | some found =>
    rcases scanLocks_spec searched with ⟨i, rfl, below, hit⟩ | ⟨rfl, miss⟩
    · rw [lockAfter, searched, Option.bind_some]
      exact iff_of_true ⟨_, rfl⟩ ⟨⟨_, rfl⟩, Or.inl ⟨i, below, of_decide_eq_true hit⟩⟩
    · have absent : ¬ HasEntry tg lock := by
        rintro ⟨i, below, has⟩
        exact of_decide_eq_false (miss i below) has
      have small : tg.lockidx ≤ MAX := by
        rcases exists_searchLock.mp ⟨none, searched⟩ with within | ⟨i, _, below, has⟩
        · exact within
        · exact absurd ⟨i, below, has⟩ absent
      obtain ⟨eidx, empty, place⟩ := searchEmptyLock_spec small
      rw [lockAfter, searched, Option.bind_some]
      simp only [empty, Option.bind_some]
      by_cases room : eidx < MAX
      · rw [if_pos room]
        refine iff_of_true ⟨_, rfl⟩ ⟨⟨none, rfl⟩, Or.inr ?_⟩
        rcases place with ⟨below, cleared⟩ | ⟨last, _⟩
        · exact Or.inr ⟨eidx, below, cleared⟩
        · exact Or.inl (by omega)
      · rw [if_neg room]
        refine iff_of_false ?_ ?_
        · rintro ⟨_, impossible⟩
          cases impossible
        · rintro ⟨_, places⟩
          rcases place with ⟨below, _⟩ | ⟨last, full⟩
          · omega
          · rcases places with present | free | ⟨i, below, cleared⟩
            · exact absent present
            · omega
            · exact full i below cleared

/-- A step that is executed is possible. -/
theorem enabled_of_exec {s next : System} {action : Action} (done : s.exec action = some next) :
    s.Enabled action := by
  cases action with
  | lockBefore thread lock | acquire thread lock | lockAfter thread lock | release thread lock
  | unlockAfter thread lock =>
    simp only [System.exec] at done
    split at done
    · assumption
    · cases done

section Exec

variable {s : System} {thread lock : UInt64}

/-- `lock_before` of a thread that runs. -/
theorem exec_lockBefore (possible : s.Enabled (.lockBefore thread lock)) :
    s.exec (.lockBefore thread lock) = (lockBefore s.tg thread lock).map fun tg =>
      { s with tg := tg, phase := Function.update s.phase thread (.waiting lock) } :=
  if_pos possible

/-- The real acquire of a free mutex. -/
theorem exec_acquire (possible : s.Enabled (.acquire thread lock)) :
    s.exec (.acquire thread lock) = some { s with
      holder := Function.update s.holder lock (some thread)
      phase := Function.update s.phase thread (.acquired lock) } :=
  if_pos possible

/-- `lock_after` of a thread behind the real acquire. -/
theorem exec_lockAfter (possible : s.Enabled (.lockAfter thread lock)) :
    s.exec (.lockAfter thread lock) = (lockAfter s.tg thread lock).map fun tg =>
      { s with tg := tg, phase := Function.update s.phase thread .running } :=
  if_pos possible

/-- The real release of a mutex that is held. -/
theorem exec_release (possible : s.Enabled (.release thread lock)) :
    s.exec (.release thread lock) = some { s with
      holder := Function.update s.holder lock none
      phase := Function.update s.phase thread (.released lock) } :=
  if_pos possible

/-- `unlock_after` of a thread behind the real release. -/
theorem exec_unlockAfter (possible : s.Enabled (.unlockAfter thread lock)) :
    s.exec (.unlockAfter thread lock) = (unlockAfter s.tg lock).map fun tg =>
      { s with tg := tg, phase := Function.update s.phase thread .running } :=
  if_pos possible

end Exec

/-- A computation whose result is put into a state has a result when the state has one. -/
theorem exists_map {α β : Type} {f : α → β} {x : Option α} :
    (∃ y, x.map f = some y) ↔ ∃ y, x = some y := by
  cases x with
  | none => exact iff_of_false (fun ⟨_, h⟩ => by cases h) fun ⟨_, h⟩ => by cases h
  | some y => exact iff_of_true ⟨_, rfl⟩ ⟨y, rfl⟩

/-- A possible step has a result exactly when it stays inside the tables. -/
theorem exec_inside {s : System} (records : Records s) {action : Action}
    (possible : s.Enabled action) : (∃ next, s.exec action = some next) ↔ Inside s action := by
  cases action with
  | lockBefore thread lock =>
    rw [exec_lockBefore possible, exists_map]
    apply exists_lockBefore
    intro i j below below' has has'
    exact records.unique i j below below' (by rw [has]; exact possible.2) (has.trans has'.symm)
  | acquire thread lock =>
    rw [exec_acquire possible]
    exact iff_of_true ⟨_, rfl⟩ trivial
  | lockAfter thread lock =>
    rw [exec_lockAfter possible, exists_map]
    exact exists_lockAfter
  | release thread lock =>
    rw [exec_release possible]
    exact iff_of_true ⟨_, rfl⟩ trivial
  | unlockAfter thread lock =>
    rw [exec_unlockAfter possible, exists_map]
    unfold unlockAfter
    rw [exists_map]
    exact exists_searchLock

instance (s : System) (action : Action) : Decidable (Timely s action) :=
  match action with
  | .unlockAfter _ lock =>
    -- the holder is tested alone, and not every thread
    decidable_of_iff (∀ i, i < s.tg.lockidx → (s.tg.locklist i).lockId = lock →
      (s.tg.locklist i).degress = 0 →
        (s.holder lock).all (fun thread => s.phase thread = .acquired lock) = true)
      (by simp only [Timely, Option.all_eq_true, decide_eq_true_eq])
  | .lockBefore _ _ | .acquire _ _ | .lockAfter _ _ | .release _ _ => isTrue trivial

/-- A step that is executed, stays inside the tables and is not late. -/
def RecordStep (s : System) (action : Action) (next : System) : Prop :=
  s.exec action = some next ∧ Inside s action ∧ Timely s action

/-- In every run of timely steps inside the tables all owners are recorded. A further step that is
possible has a result exactly when it stays inside, and the owners are then recorded exactly when
it is timely. -/
theorem run_recorded {trace : List Action} {s : System}
    (run : Run RecordStep System.initial trace s) :
    Recorded s ∧ ∀ action, s.Enabled action →
      ((∃ next, s.exec action = some next) ↔ Inside s action) ∧
      ∀ next, s.exec action = some next → (Recorded next ↔ Timely s action) := by
  have records : Records s := by
    apply run.invariant Records initial_records
    intro state action next records taken
    exact exec_records records taken.2.2 taken.1
  refine ⟨records.recorded, ?_⟩
  intro action possible
  refine ⟨exec_inside records possible, ?_⟩
  intro next done
  constructor
  · intro recorded
    by_contra late
    exact exec_late records late done recorded
  · intro timely
    exact (exec_records records timely done).recorded

/-- Thread 1 locks two mutexes and thread 2 waits for the first; thread 1 unlocks it and keeps its
entry for thread 2, then it unlocks the second and clears its entry. -/
theorem run_recorded_handed : ∃ trace s, Run RecordStep System.initial trace s ∧
    s.holder 7 = some 2 ∧ s.holder 8 = none ∧ Recorded s := by
  have facts : ([.lockBefore 1 7, .acquire 1 7, .lockAfter 1 7, .lockBefore 1 8, .acquire 1 8,
      .lockAfter 1 8, .lockBefore 2 7, .release 1 7, .unlockAfter 1 7, .acquire 2 7, .lockAfter 2 7,
      .release 1 8, .unlockAfter 1 8].foldlM (fun s action =>
        if Inside s action ∧ Timely s action then s.exec action else none) System.initial).any
      (fun s => s.holder 7 = some 2 ∧ s.holder 8 = none) = true := by
    decide +kernel
  obtain ⟨s, done, facts⟩ := (Option.any_eq_true _ _).mp facts
  obtain ⟨first, second⟩ := of_decide_eq_true facts
  have run : Run RecordStep System.initial _ s := Run.of_tested done
  exact ⟨_, s, run, first, second, (run_recorded run).1⟩

/-- Thread 1 gives mutex 7 to thread 2, and its late `unlock_after` clears the entry of
thread 2. -/
theorem run_unrecorded : ∃ trace s,
    Run (fun s action next => s.exec action = some next) System.initial trace s ∧
    ¬ Recorded s := by
  have facts : ([.lockBefore 1 7, .acquire 1 7, .lockAfter 1 7, .lockBefore 2 7, .release 1 7,
      .acquire 2 7, .lockAfter 2 7, .unlockAfter 1 7].foldlM System.exec System.initial).any
      (fun s => s.holder 7 = some 2 ∧ s.phase 2 = .running ∧ s.tg.lockidx = 1 ∧
        (s.tg.locklist 0).lockId = 0) = true := by
    decide +kernel
  obtain ⟨s, done, facts⟩ := (Option.any_eq_true _ _).mp facts
  refine ⟨_, s, Run.of_foldlM done, ?_⟩
  intro recorded
  obtain ⟨holds, running, size, cleared⟩ := of_decide_eq_true facts
  obtain ⟨i, below, has, _⟩ := recorded 2 7 holds (by rw [running]; decide)
  have first : i = 0 := by omega
  rw [first, cleared] at has
  exact absurd has (by decide)

end BackendCpp.Deadlock
