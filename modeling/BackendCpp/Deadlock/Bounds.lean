import BackendCpp.Deadlock.Room

/-!
# The sizes of the detector's tables

`lock_after` counts `lockidx` up for every mutex that it finds without an entry, also when it takes
a place that was cleared. So `lockidx` is at most the number of mutexes as long as no cleared place
is taken again, and every time that one is taken adds 1. The place behind the entries then counts as
used although nothing wrote it, and what the memory holds there is taken for an entry. An
`unlock_after` that clears the entry while another thread still has its `unlock_after` to come
leaves that thread without an entry, and it uses `locklist[-1]`.
-/

namespace BackendCpp.Deadlock

open BackendCpp.Library

variable {tg : TaskGraph} {mutexes threads : Finset UInt64}

/-- The vertices are some of the threads, each at most once. -/
structure Fits (threads : Finset UInt64) (tg : TaskGraph) : Prop where
  /-- Each thread has one vertex at most. -/
  proper : Proper tg
  /-- A vertex is one of the threads. -/
  known : ∀ i, i < tg.num → (tg.list i).s.id ∈ threads

/-- There are no more vertices than threads. -/
theorem Fits.num_le (fits : Fits threads tg) : tg.num ≤ threads.card := by
  have few : (Finset.range tg.num).card ≤ threads.card := by
    apply Finset.card_le_card_of_injOn fun i => (tg.list i).s.id
    · intro i member
      exact fits.known i (Finset.mem_range.mp member)
    · intro i member j member' same
      exact fits.proper.distinct i j (Finset.mem_range.mp member) (Finset.mem_range.mp member') same
  rwa [Finset.card_range] at few

/-- A thread without vertex leaves one place at least. -/
theorem Fits.num_lt (fits : Fits threads tg) {thread : UInt64} (own : thread ∈ threads)
    (new : ¬ HasVertex tg thread) : tg.num < threads.card := by
  have others : Fits (threads.erase thread) tg := by
    refine ⟨fits.proper, fun i below => Finset.mem_erase.mpr ⟨fun same => ?_, fits.known i below⟩⟩
    exact new ⟨i, below, same⟩
  have few := others.num_le
  rw [Finset.card_erase_of_mem own] at few
  have positive := Finset.card_pos.mpr ⟨thread, own⟩
  omega

/-- Vertices that stay the same fit. -/
theorem Fits.congr {tg' : TaskGraph} (fits : Fits threads tg) (num : tg'.num = tg.num)
    (list : ∀ i, (tg'.list i).s = (tg.list i).s) : Fits threads tg' := by
  refine ⟨⟨?_, ?_⟩, ?_⟩
  · intro i below
    rw [num] at below
    rw [list]
    exact fits.proper.kind i below
  · intro i j below below' same
    rw [num] at below below'
    rw [list, list] at same
    exact fits.proper.distinct i j below below' same
  · intro i below
    rw [num] at below
    rw [list]
    exact fits.known i below

/-- Rewriting a chain keeps the vertices. -/
theorem Fits.chain (fits : Fits threads tg) (i : Nat) (chain : List SourceType) :
    Fits threads
      { tg with list := Function.update tg.list i { tg.list i with next := chain } } := by
  refine @Fits.congr _ _ _ fits rfl fun j => ?_
  change (Function.update tg.list i _ j).s = _
  by_cases here : j = i
  · rw [here, Function.update_self]
  · rw [Function.update_of_ne here]

/-- `add_vertex` has room for a thread. -/
theorem addVertex_fits (few : threads.card ≤ MAX) (fits : Fits threads tg) {thread : UInt64}
    (own : thread ∈ threads) :
    ∃ tg', addVertex tg ⟨thread, .process⟩ = some tg' ∧ Fits threads tg' := by
  cases found : searchVertex tg ⟨thread, .process⟩ with
  | some i =>
    refine ⟨tg, ?_, fits⟩
    rw [addVertex, found]
  | none =>
    have room := fits.num_lt own (searchVertex_none fits.proper found)
    have added : addVertex tg ⟨thread, .process⟩ = some { tg with
        list := Function.update tg.list tg.num ⟨⟨thread, .process⟩, []⟩
        num := tg.num + 1 } := by
      rw [addVertex, found]
      exact if_pos (Nat.lt_of_lt_of_le room few)
    refine ⟨_, added, (addVertex_spec fits.proper added).1, ?_⟩
    intro i below
    change (Function.update tg.list tg.num _ i).s.id ∈ threads
    by_cases last : i = tg.num
    · rw [last, Function.update_self]
      exact own
    · rw [Function.update_of_ne last]
      have inside : i < tg.num + 1 := below
      exact fits.known i (by omega)

/-- `add_edge` has room for two threads. -/
theorem addEdge_fits (few : threads.card ≤ MAX) (fits : Fits threads tg) {source target : UInt64}
    (first : source ∈ threads) (second : target ∈ threads) :
    ∃ tg', addEdge tg ⟨source, .process⟩ ⟨target, .process⟩ = some tg' ∧ Fits threads tg' := by
  obtain ⟨one, addOne, fitsOne⟩ := addVertex_fits few fits first
  obtain ⟨two, addTwo, fitsTwo⟩ := addVertex_fits few fitsOne second
  have present : HasVertex two source :=
    (addVertex_spec fitsOne.proper addTwo).2.2.1 source (addVertex_spec fits.proper addOne).2.1
  cases found : searchVertex two ⟨source, .process⟩ with
  | none => exact absurd present (searchVertex_none fitsTwo.proper found)
  | some i =>
    refine ⟨_, ?_, fitsTwo.chain i ((two.list i).next ++ [⟨target, .process⟩])⟩
    simp only [addEdge, addOne, addTwo, found, Option.bind_some, Option.map_some]

/-- `remove_edge` leaves the vertices alone. -/
theorem removeEdge_fits (fits : Fits threads tg) (source target : SourceType) :
    Fits threads (removeEdge tg source target) := by
  unfold removeEdge
  split
  · exact fits.chain _ _
  · exact fits

/-- A pass of `lock_before` has room when the entry names a thread. -/
theorem lockBeforePass_fits (few : threads.card ≤ MAX) (fits : Fits threads tg)
    {thread lock : UInt64} (own : thread ∈ threads) {idx : Nat}
    (recorded : (tg.locklist idx).lockId = lock → (tg.locklist idx).id ∈ threads) :
    ∃ tg', lockBeforePass thread lock tg idx = some tg' ∧ Fits threads tg' := by
  unfold lockBeforePass
  by_cases has : (tg.locklist idx).lockId = lock
  · rw [if_pos has]
    obtain ⟨one, addOne, fitsOne⟩ := addVertex_fits few fits own
    have locks := (addVertex_locks addOne).2
    have owner : (one.locklist idx).id ∈ threads := by
      rw [locks]
      exact recorded has
    have counted : Fits threads (one.setLock idx
        { one.locklist idx with degress := (one.locklist idx).degress + 1 }) :=
      fitsOne.congr rfl fun _ => rfl
    obtain ⟨two, addTwo, fitsTwo⟩ := addVertex_fits few counted owner
    simp only [addOne, addTwo, Option.bind_some]
    split
    · exact ⟨two, rfl, fitsTwo⟩
    · exact addEdge_fits few fitsTwo own owner
  · rw [if_neg has]
    exact ⟨tg, rfl, fits⟩

/-- `lock_before` has room when the entries of the mutex name threads. -/
theorem lockBefore_fits (few : threads.card ≤ MAX) (fits : Fits threads tg)
    (small : tg.lockidx ≤ MAX) {thread lock : UInt64} (own : thread ∈ threads)
    (recorded : ∀ i, i < tg.lockidx → (tg.locklist i).lockId = lock → (tg.locklist i).id ∈ threads) :
    ∃ tg', lockBefore tg thread lock = some tg' ∧ Fits threads tg' := by
  have passes : ∀ (indices : List Nat) (one : TaskGraph), Fits threads one →
      (∀ i ∈ indices, (one.locklist i).lockId = lock → (one.locklist i).id ∈ threads) →
      ∃ tg', indices.foldlM (lockBeforePass thread lock) one = some tg' ∧ Fits threads tg' := by
    intro indices
    induction indices with
    | nil => exact fun one fitsOne _ => ⟨one, rfl, fitsOne⟩
    | cons idx indices ih =>
      intro one fitsOne named
      obtain ⟨two, pass, fitsTwo⟩ :=
        lockBeforePass_fits few fitsOne own (named idx List.mem_cons_self)
      have same := lockBeforePass_records pass
      rw [List.foldlM_cons, pass]
      apply ih two fitsTwo
      intro i member
      rw [same.lockId, same.id]
      exact named i (List.mem_cons_of_mem _ member)
  unfold lockBefore
  rw [if_pos small]
  exact passes _ tg fits fun i member => recorded i (List.mem_range.mp member)

/-- `search_lock` finds an entry of the mutex if there is one. -/
theorem searchLock_iff (small : tg.lockidx ≤ MAX) (lock : UInt64) :
    (∃ i, i < MAX ∧ searchLock tg lock = some (some i)) ↔ HasEntry tg lock := by
  obtain ⟨found, scanned⟩ := exists_scanLocks small fun entry => entry.lockId = lock
  rcases scanLocks_spec scanned with ⟨i, rfl, below, hit⟩ | ⟨rfl, miss⟩
  · exact ⟨fun _ => ⟨i, below, of_decide_eq_true hit⟩, fun _ => ⟨i, by omega, scanned⟩⟩
  · constructor
    · rintro ⟨i, _, other⟩
      rw [searchLock, scanned] at other
      cases other
    · rintro ⟨i, below, has⟩
      exact absurd has (of_decide_eq_false (miss i below))

/-- `lock_after` has room when the mutex has an entry, a place was cleared or the table is not full,
and counts the mutexes without entry. -/
theorem lockAfter_fits (fits : Fits threads tg) (small : tg.lockidx ≤ MAX) (thread : UInt64)
    {lock : UInt64} (room : HasEntry tg lock ∨ tg.lockidx < MAX ∨
      ∃ i, i < tg.lockidx ∧ (tg.locklist i).lockId = 0) :
    ∃ tg', lockAfter tg thread lock = some tg' ∧ Fits threads tg' ∧
      tg'.lockidx = tg.lockidx + if HasEntry tg lock then 0 else 1 := by
  obtain ⟨found, scanned⟩ := exists_scanLocks small fun entry => entry.lockId = lock
  simp only [lockAfter, searchLock, scanned, Option.bind_some]
  rcases scanLocks_spec scanned with ⟨i, rfl, below, hit⟩ | ⟨rfl, miss⟩
  · rw [if_pos ⟨i, below, of_decide_eq_true hit⟩]
    have counted : Fits threads (tg.setLock i
        { tg.locklist i with degress := (tg.locklist i).degress - 1 }) :=
      fits.congr rfl fun _ => rfl
    refine ⟨_, rfl, ?_, ?_⟩
    · split
      · exact (removeEdge_fits counted _ _).congr rfl fun _ => rfl
      · exact counted.congr rfl fun _ => rfl
    · split
      · exact (removeEdge_locks _ _ _).1
      · rfl
  · have absent : ¬ HasEntry tg lock := by
      rintro ⟨i, below, has⟩
      exact of_decide_eq_false (miss i below) has
    have free := room.resolve_left absent
    rw [if_neg absent]
    obtain ⟨empty, searched⟩ := exists_scanLocks small fun entry => entry.lockId = 0
    simp only [searchEmptyLock, searched, Option.map_some, Option.bind_some]
    have inside : empty.getD tg.lockidx < MAX := by
      rcases scanLocks_spec searched with ⟨i, rfl, below, _⟩ | ⟨rfl, full⟩
      · exact Nat.lt_of_lt_of_le below small
      · rcases free with last | ⟨i, below, cleared⟩
        · exact last
        · exact absurd cleared (of_decide_eq_false (full i below))
    rw [if_pos inside]
    exact ⟨_, rfl, fits.congr rfl fun _ => rfl, rfl⟩

/-- The entries after `lock_after`: that of the mutex, and all others with a mutex. -/
theorem lockAfter_entry {tg' : TaskGraph} {thread lock : UInt64}
    (done : lockAfter tg thread lock = some tg') :
    HasEntry tg' lock ∧ ∀ other, other ≠ 0 → HasEntry tg other → HasEntry tg' other := by
  obtain ⟨i, grows, below, _, _, mutexOf, others, place⟩ := lockAfter_records done
  refine ⟨⟨i, below, mutexOf⟩, ?_⟩
  rintro other address ⟨j, inside, has⟩
  by_cases here : j = i
  · rw [here] at inside has
    rcases place with ⟨_, hasOld⟩ | ⟨_, empty⟩
    · rw [← has, hasOld]
      exact ⟨i, below, mutexOf⟩
    · exact absurd (has.symm.trans (empty inside)) address
  · exact ⟨j, Nat.lt_of_lt_of_le inside grows, (others j here).2.trans has⟩

/-- The entries after `unlock_after`: all of other mutexes, and those of the mutex unless the first
one counts nobody. -/
theorem unlockAfter_entry {tg' : TaskGraph} {lock : UInt64}
    (done : unlockAfter tg lock = some tg') :
    tg'.lockidx = tg.lockidx ∧ ∀ other, HasEntry tg other →
      HasEntry tg' other ∨ other = lock ∧
        ∃ i, searchLock tg lock = some (some i) ∧ (tg.locklist i).degress = 0 := by
  obtain ⟨found, searched, same⟩ := Option.map_eq_some_iff.mp done
  cases found with
  | none =>
    rw [← same]
    exact ⟨rfl, fun other has => .inl has⟩
  | some i =>
    by_cases counter : (tg.locklist i).degress = 0
    · rw [← same]
      simp only [if_pos counter]
      refine ⟨rfl, ?_⟩
      rintro other ⟨j, inside, has⟩
      by_cases here : j = i
      · rcases scanLocks_spec searched with ⟨k, first, _, hit⟩ | ⟨impossible, _⟩
        · rw [here, Option.some.inj first, of_decide_eq_true hit] at has
          exact .inr ⟨has.symm, i, searched, counter⟩
        · cases impossible
      · refine .inl ⟨j, inside, ?_⟩
        change (Function.update tg.locklist i _ j).lockId = other
        rw [Function.update_of_ne here]
        exact has
    · rw [← same]
      simp only [if_neg counter]
      exact ⟨trivial, fun other has => .inl has⟩

/-- `lock_after` takes a cleared place again for the mutex. -/
def Reuses (tg : TaskGraph) (lock : UInt64) : Prop :=
  ¬ HasEntry tg lock ∧ ∃ i, i < tg.lockidx ∧ (tg.locklist i).lockId = 0

instance (tg : TaskGraph) (lock : UInt64) : Decidable (Reuses tg lock) :=
  inferInstanceAs (Decidable (¬ HasEntry tg lock ∧
    ∃ i, i < tg.lockidx ∧ (tg.locklist i).lockId = 0))

/-- The system with a history. -/
structure Traced where
  /-- The system. -/
  system : System
  /-- History: how many calls of `lock_after` took a cleared place again. -/
  reuses : Nat

/-- The program begins, with anything in the memory of the detector. -/
def Traced.start (list : Nat → Vertex) (locklist : Nat → LockEntry) : Traced :=
  ⟨⟨startCheck list locklist, fun _ => none, fun _ => .running⟩, 0⟩

/-- The thread of a step. -/
def Action.thread : Action → UInt64
  | .lockBefore thread _ | .acquire thread _ | .lockAfter thread _ | .release thread _
  | .unlockAfter thread _ => thread

/-- The mutex of a step. -/
def Action.lock : Action → UInt64
  | .lockBefore _ lock | .acquire _ lock | .lockAfter _ lock | .release _ lock
  | .unlockAfter _ lock => lock

/-- The step is a `lock_after` that takes a cleared place again. -/
def System.reusing (s : System) : Action → Nat
  | .lockAfter _ lock => if Reuses s.tg lock then 1 else 0
  | .lockBefore _ _ | .acquire _ _ | .release _ _ | .unlockAfter _ _ => 0

/-- A step, with its history. -/
def Traced.exec (t : Traced) (action : Action) : Option Traced :=
  (t.system.exec action).map fun next => ⟨next, t.reuses + t.system.reusing action⟩

/-- The thread is behind its `lock_after` for the mutex, and not behind its `unlock_after`. -/
def Needs (s : System) (thread lock : UInt64) : Prop :=
  (s.holder lock = some thread ∧ s.phase thread ≠ .acquired lock) ∨
    s.phase thread = .released lock

/-- `lock_after` takes a cleared place again only as often as it may, and `unlock_after` clears no
entry that another thread needs. -/
def Careful (reuses : Nat) (t : Traced) : Action → Prop
  | .lockAfter _ lock => Reuses t.system.tg lock → t.reuses < reuses
  | .unlockAfter thread lock => ∀ i, searchLock t.system.tg lock = some (some i) →
      (t.system.tg.locklist i).degress = 0 → ∀ other, other ≠ thread → ¬ Needs t.system other lock
  | .lockBefore _ _ | .acquire _ _ | .release _ _ => True

/-- A step that is executed and careful, of one of the threads on one of the mutexes. -/
def CarefulStep (mutexes threads : Finset UInt64) (reuses : Nat) (t : Traced) (action : Action)
    (next : Traced) : Prop :=
  t.exec action = some next ∧ action.thread ∈ threads ∧ action.lock ∈ mutexes ∧
    Careful reuses t action

/-- A thread that has released a mutex does not hold it. -/
def Apart (s : System) : Prop :=
  ∀ thread lock, s.phase thread = .released lock → s.holder lock ≠ some thread

/-- Moving one thread to another place. -/
theorem phase_update {phase : UInt64 → Phase} {thread other : UInt64} {here there : Phase}
    (found : Function.update phase thread here other = there) :
    (other = thread ∧ here = there) ∨ (other ≠ thread ∧ phase other = there) := by
  by_cases same : other = thread
  · rw [same, Function.update_self] at found
    exact .inl ⟨same, found⟩
  · rw [Function.update_of_ne same] at found
    exact .inr ⟨same, found⟩

/-- Every step keeps the threads and their mutexes apart. -/
theorem Apart.step {s next : System} (apart : Apart s) {action : Action}
    (done : s.exec action = some next) : Apart next := by
  have possible := enabled_of_exec done
  cases action with
  | lockBefore thread lock | lockAfter thread lock | unlockAfter thread lock =>
    simp only [exec_lockBefore, exec_lockAfter, exec_unlockAfter, possible] at done
    obtain ⟨tg, _, same⟩ := Option.map_eq_some_iff.mp done
    rw [← same]
    intro other mutex released
    rcases phase_update released with ⟨_, impossible⟩ | ⟨_, before⟩
    · cases impossible
    · exact apart other mutex before
  | acquire thread lock =>
    rw [exec_acquire possible] at done
    rw [← Option.some.inj done]
    intro other mutex released
    rcases phase_update released with ⟨_, impossible⟩ | ⟨different, before⟩
    · cases impossible
    · change Function.update s.holder lock (some thread) mutex ≠ some other
      by_cases this : mutex = lock
      · rw [this, Function.update_self]
        exact fun same => different (Option.some.inj same).symm
      · rw [Function.update_of_ne this]
        exact apart other mutex before
  | release thread lock =>
    rw [exec_release possible] at done
    rw [← Option.some.inj done]
    intro other mutex released
    change Function.update s.holder lock none mutex ≠ some other
    by_cases this : mutex = lock
    · rw [this, Function.update_self]
      exact fun impossible => by cases impossible
    · rw [Function.update_of_ne this]
      rcases phase_update released with ⟨_, same⟩ | ⟨_, before⟩
      · exact absurd (Phase.released.inj same).symm this
      · exact apart other mutex before

/-- Who needs an entry after a step needed it before, unless the step is its own `lock_after`; and
its own `unlock_after` ends the need. -/
theorem needs_of_exec {s next : System} (apart : Apart s) {action : Action}
    (done : s.exec action = some next) {other mutex : UInt64} (needs : Needs next other mutex) :
    action = .lockAfter other mutex ∨
      (Needs s other mutex ∧ action ≠ .unlockAfter other mutex) := by
  have possible := enabled_of_exec done
  cases action with
  | lockBefore thread lock =>
    rw [exec_lockBefore possible] at done
    obtain ⟨tg, _, same⟩ := Option.map_eq_some_iff.mp done
    rw [← same] at needs
    refine .inr ⟨?_, Action.noConfusion⟩
    rcases needs with ⟨holds, finished⟩ | released
    · refine .inl ⟨holds, fun acquired => finished (acquired_update ?_ acquired)⟩
      rw [possible.1]
      exact Phase.noConfusion
    · rcases phase_update released with ⟨_, impossible⟩ | ⟨_, before⟩
      · cases impossible
      · exact .inr before
  | acquire thread lock =>
    rw [exec_acquire possible] at done
    rw [← Option.some.inj done] at needs
    refine .inr ⟨?_, Action.noConfusion⟩
    rcases needs with ⟨holds, finished⟩ | released
    · refine .inl (held_update ?_ holds finished)
      rw [possible.1]
      exact Phase.noConfusion
    · rcases phase_update released with ⟨_, impossible⟩ | ⟨_, before⟩
      · cases impossible
      · exact .inr before
  | lockAfter thread lock =>
    rw [exec_lockAfter possible] at done
    obtain ⟨tg, _, same⟩ := Option.map_eq_some_iff.mp done
    rw [← same] at needs
    rcases needs with ⟨holds, finished⟩ | released
    · change Function.update s.phase thread .running other ≠ .acquired mutex at finished
      by_cases acquired : s.phase other = .acquired mutex
      · by_cases equal : other = thread
        · rw [equal, show s.phase thread = .acquired lock from possible] at acquired
          rw [equal, Phase.acquired.inj acquired]
          exact .inl rfl
        · rw [Function.update_of_ne equal] at finished
          exact absurd acquired finished
      · exact .inr ⟨.inl ⟨holds, acquired⟩, Action.noConfusion⟩
    · rcases phase_update released with ⟨_, impossible⟩ | ⟨_, before⟩
      · cases impossible
      · exact .inr ⟨.inr before, Action.noConfusion⟩
  | release thread lock =>
    rw [exec_release possible] at done
    rw [← Option.some.inj done] at needs
    refine .inr ⟨?_, Action.noConfusion⟩
    rcases needs with ⟨holds, finished⟩ | released
    · change Function.update s.holder lock none mutex = some other at holds
      change Function.update s.phase thread (.released lock) other ≠ .acquired mutex at finished
      by_cases this : mutex = lock
      · rw [this, Function.update_self] at holds
        cases holds
      · rw [Function.update_of_ne this] at holds
        refine .inl ⟨holds, fun acquired => finished (acquired_update ?_ acquired)⟩
        rw [possible.1]
        exact Phase.noConfusion
    · rcases phase_update released with ⟨equal, same⟩ | ⟨_, before⟩
      · rw [equal, ← Phase.released.inj same]
        exact .inl ⟨possible.2, by rw [possible.1]; exact Phase.noConfusion⟩
      · exact .inr before
  | unlockAfter thread lock =>
    rw [exec_unlockAfter possible] at done
    obtain ⟨tg, _, same⟩ := Option.map_eq_some_iff.mp done
    rw [← same] at needs
    rcases needs with ⟨holds, finished⟩ | released
    · refine .inr ⟨.inl ⟨holds, fun acquired => finished (acquired_update ?_ acquired)⟩, ?_⟩
      · rw [show s.phase thread = .released lock from possible]
        exact Phase.noConfusion
      · intro own
        rw [(Action.unlockAfter.inj own).1, (Action.unlockAfter.inj own).2] at possible
        exact apart other mutex possible holds
    · rcases phase_update released with ⟨_, impossible⟩ | ⟨different, before⟩
      · cases impossible
      · exact .inr ⟨.inr before, fun own => different (Action.unlockAfter.inj own).1.symm⟩

/-- The places of `locklist` that `lock_after` has written. -/
structure Written (mutexes threads : Finset UInt64) (locklist : Nat → LockEntry)
    (places : Finset Nat) (tg : TaskGraph) : Prop where
  /-- They are below `lockidx`. -/
  below : ∀ i ∈ places, i < tg.lockidx
  /-- An entry that is not cleared names a mutex and a thread. -/
  known : ∀ i ∈ places, (tg.locklist i).lockId ≠ 0 →
    (tg.locklist i).lockId ∈ mutexes ∧ (tg.locklist i).id ∈ threads
  /-- A mutex has one of them at most. -/
  distinct : ∀ i ∈ places, ∀ j ∈ places, (tg.locklist i).lockId ≠ 0 →
    (tg.locklist i).lockId = (tg.locklist j).lockId → i = j
  /-- The other places hold what the memory held. -/
  old : ∀ i, i ∉ places → (tg.locklist i).lockId = (locklist i).lockId

section Written

variable {locklist : Nat → LockEntry} {places : Finset Nat}

/-- Steps that record nothing keep the places. -/
theorem Written.congr {tg' : TaskGraph} (written : Written mutexes threads locklist places tg)
    (same : SameRecords tg tg') : Written mutexes threads locklist places tg' := by
  refine ⟨?_, ?_, ?_, ?_⟩
  · intro i member
    rw [same.lockidx]
    exact written.below i member
  · intro i member
    rw [same.lockId, same.id]
    exact written.known i member
  · intro i member j member'
    rw [same.lockId, same.lockId]
    exact written.distinct i member j member'
  · intro i outside
    rw [same.lockId]
    exact written.old i outside

/-- When all places are in use, there is one for every written entry and none for a mutex without
entry. -/
theorem Written.card_lt (written : Written mutexes threads locklist places tg) {lock : UInt64}
    (own : lock ∈ mutexes) (absent : ¬ HasEntry tg lock)
    (full : ∀ i, i < tg.lockidx → (tg.locklist i).lockId ≠ 0) : places.card < mutexes.card := by
  have few : places.card ≤ (mutexes.erase lock).card := by
    apply Finset.card_le_card_of_injOn fun i => (tg.locklist i).lockId
    · intro i member
      have below := written.below i member
      refine Finset.mem_erase.mpr ⟨fun has => absent ⟨i, below, has⟩, ?_⟩
      exact (written.known i member (full i below)).1
    · intro i member j member' same
      exact written.distinct i member j member' (full i (written.below i member)) same
  rw [Finset.card_erase_of_mem own] at few
  have positive := Finset.card_pos.mpr ⟨lock, own⟩
  omega

/-- `lock_after` writes the entry of its mutex, or one more place unless it takes one again. -/
theorem Written.lockAfter (written : Written mutexes threads locklist places tg)
    {thread lock : UInt64} (isThread : thread ∈ threads) (isMutex : lock ∈ mutexes)
    (address : lock ≠ 0)
    (mine : ∀ i, i < tg.lockidx → (tg.locklist i).lockId = lock → i ∈ places) {tg' : TaskGraph}
    (done : lockAfter tg thread lock = some tg') :
    ∃ i, Written mutexes threads locklist (insert i places) tg' ∧
      (i ∈ places → HasEntry tg lock ∨ Reuses tg lock) := by
  obtain ⟨i, grows, below, _, owner, mutexOf, others, place⟩ := lockAfter_records done
  have only : ∀ j ∈ places, j ≠ i → (tg.locklist j).lockId ≠ lock := by
    intro j member other has
    rcases place with ⟨below', has'⟩ | ⟨absent, _⟩
    · exact other (written.distinct j member i (mine i below' has') (by rw [has]; exact address)
        (has.trans has'.symm))
    · exact absent j (written.below j member) has
  refine ⟨i, ⟨?_, ?_, ?_, ?_⟩, ?_⟩
  · intro j member
    rcases Finset.mem_insert.mp member with here | inside
    · rw [here]
      exact below
    · exact Nat.lt_of_lt_of_le (written.below j inside) grows
  · intro j member
    by_cases here : j = i
    · rw [here, mutexOf, owner]
      exact fun _ => ⟨isMutex, isThread⟩
    · rw [(others j here).1, (others j here).2]
      exact written.known j (Finset.mem_of_mem_insert_of_ne member here)
  · intro j member k member' used same
    by_cases here : j = i
    · by_cases here' : k = i
      · rw [here, here']
      · rw [here, mutexOf, (others k here').2] at same
        exact absurd same.symm (only k (Finset.mem_of_mem_insert_of_ne member' here') here')
    · have inside := Finset.mem_of_mem_insert_of_ne member here
      rw [(others j here).2] at used same
      by_cases here' : k = i
      · rw [here', mutexOf] at same
        exact absurd same (only j inside here)
      · rw [(others k here').2] at same
        exact written.distinct j inside k (Finset.mem_of_mem_insert_of_ne member' here') used same
  · intro j outside
    have both := not_or.mp (Finset.mem_insert.not.mp outside)
    rw [(others j both.1).2]
    exact written.old j both.2
  · intro member
    rcases place with ⟨below', has⟩ | ⟨absent, empty⟩
    · exact Or.inl ⟨i, below', has⟩
    · have inside := written.below i member
      exact Or.inr ⟨fun ⟨j, below', has⟩ => absent j below' has, i, inside, empty inside⟩

/-- `unlock_after` clears a written entry or none. -/
theorem Written.unlockAfter (written : Written mutexes threads locklist places tg)
    {lock : UInt64} (mine : ∀ i, i < tg.lockidx → (tg.locklist i).lockId = lock → i ∈ places)
    {tg' : TaskGraph} (done : unlockAfter tg lock = some tg') :
    Written mutexes threads locklist places tg' := by
  rcases unlockAfter_records done with ⟨same, _⟩ | ⟨i, below, has, _, cleared⟩
  · rw [same]
    exact written
  · have here : (tg'.locklist i).lockId = 0 := by
      rw [cleared]
      change (Function.update tg.locklist i _ i).lockId = 0
      rw [Function.update_self]
    have others : ∀ j, j ≠ i → tg'.locklist j = tg.locklist j := by
      intro j other
      rw [cleared]
      exact Function.update_of_ne other ..
    have usedIn : ∀ j, (tg'.locklist j).lockId ≠ 0 → j ≠ i := by
      intro j used same
      rw [same] at used
      exact used here
    refine ⟨?_, ?_, ?_, ?_⟩
    · intro j member
      rw [cleared]
      exact written.below j member
    · intro j member used
      have other := usedIn j used
      rw [others j other] at used ⊢
      exact written.known j member used
    · intro j member k member' used same
      have other := usedIn j used
      have other' := usedIn k (by rwa [← same])
      rw [others j other] at used same
      rw [others k other'] at same
      exact written.distinct j member k member' used same
    · intro j outside
      have other : j ≠ i := by
        intro same
        rw [same] at outside
        exact outside (mine i below has)
      rw [others j other]
      exact written.old j outside

end Written

/-- What holds of the tables between the steps. -/
structure Bounded (mutexes threads : Finset UInt64) (reuses : Nat) (locklist : Nat → LockEntry)
    (t : Traced) : Prop where
  /-- The threads and the mutexes are in order. -/
  order : Threads t.system.holder t.system.phase
  /-- A thread that has released a mutex does not hold it. -/
  apart : Apart t.system
  /-- The vertices are threads. -/
  fits : Fits threads t.system.tg
  /-- Cleared places were taken again as often as it may be. -/
  again : t.reuses ≤ reuses
  /-- `lockidx` counts a written place, or one that was taken again. -/
  counted : ∃ places, Written mutexes threads locklist places t.system.tg ∧
    t.system.tg.lockidx ≤ places.card + t.reuses
  /-- Without the places that were taken again there are at most as many as mutexes. -/
  size : t.system.tg.lockidx ≤ mutexes.card + t.reuses
  /-- Who needs an entry has one. -/
  entry : ∀ thread lock, Needs t.system thread lock → HasEntry t.system.tg lock

section Bounded

variable {reuses : Nat} {locklist : Nat → LockEntry} {t : Traced}

/-- The mutex of a thread that needs its entry has an address. -/
theorem Bounded.address (bounded : Bounded mutexes threads reuses locklist t)
    {thread lock : UInt64} (needs : Needs t.system thread lock) : lock ≠ 0 := by
  rcases needs with ⟨holds, _⟩ | released
  · exact bounded.order.held thread lock holds
  · exact bounded.order.given thread lock released

/-- The tables at the beginning. -/
theorem bounded_start (list : Nat → Vertex) (locklist : Nat → LockEntry) :
    Bounded mutexes threads reuses locklist (Traced.start list locklist) := by
  refine ⟨⟨?_, ?_, ?_, ?_⟩, ?_, ⟨⟨?_, ?_⟩, ?_⟩, Nat.zero_le _,
    ⟨∅, ⟨?_, ?_, ?_, ?_⟩, Nat.zero_le _⟩, Nat.zero_le _, ?_⟩
  · exact fun _ _ impossible => by cases impossible
  · exact fun _ _ impossible => by cases impossible
  · exact fun _ _ impossible => by cases impossible
  · exact fun _ _ impossible => by cases impossible
  · exact fun _ _ impossible => by cases impossible
  · exact fun i below => absurd below (Nat.not_lt_zero i)
  · exact fun i _ below => absurd below (Nat.not_lt_zero i)
  · exact fun i below => absurd below (Nat.not_lt_zero i)
  · exact fun i impossible => absurd impossible (Finset.notMem_empty i)
  · exact fun i impossible => absurd impossible (Finset.notMem_empty i)
  · exact fun i impossible => absurd impossible (Finset.notMem_empty i)
  · exact fun _ _ => rfl
  · rintro thread lock (⟨impossible, _⟩ | impossible)
    · cases impossible
    · cases impossible

/-- A step keeps what holds of the tables when its hook does. -/
theorem Bounded.step (bounded : Bounded mutexes threads reuses locklist t) {action : Action}
    {next : System} (done : t.system.exec action = some next) (fits : Fits threads next.tg)
    (again : t.reuses + t.system.reusing action ≤ reuses)
    (counted : ∃ places, Written mutexes threads locklist places next.tg ∧
      next.tg.lockidx ≤ places.card + (t.reuses + t.system.reusing action))
    (size : next.tg.lockidx ≤ mutexes.card + (t.reuses + t.system.reusing action))
    (own : ∀ thread lock, action = .lockAfter thread lock → HasEntry next.tg lock)
    (kept : ∀ thread lock, Needs t.system thread lock → action ≠ .unlockAfter thread lock →
      HasEntry next.tg lock) :
    Bounded mutexes threads reuses locklist ⟨next, t.reuses + t.system.reusing action⟩ := by
  refine ⟨bounded.order.step done, bounded.apart.step done, fits, again, counted, size, ?_⟩
  intro thread lock needs
  rcases needs_of_exec bounded.apart done needs with after | ⟨before, other⟩
  · exact own thread lock after
  · exact kept thread lock before other

/-- The counter stays within the table. -/
theorem Bounded.small (bounded : Bounded mutexes threads reuses locklist t)
    (room : mutexes.card + reuses ≤ MAX) : t.system.tg.lockidx ≤ MAX := by
  have size := bounded.size
  have again := bounded.again
  omega

/-- An entry of a mutex was written, when the memory held none or no place was taken again. -/
theorem Bounded.mine (bounded : Bounded mutexes threads reuses locklist t)
    (memory : reuses = 0 ∨ ∀ i, (locklist i).lockId ∉ mutexes) {places : Finset Nat}
    (written : Written mutexes threads locklist places t.system.tg)
    (counted : t.system.tg.lockidx ≤ places.card + t.reuses) {lock : UInt64}
    (own : lock ∈ mutexes) (i : Nat) (below : i < t.system.tg.lockidx)
    (has : (t.system.tg.locklist i).lockId = lock) : i ∈ places := by
  have again := bounded.again
  rcases memory with never | foreign
  · have all : places = Finset.range t.system.tg.lockidx := by
      apply Finset.eq_of_subset_of_card_le
      · intro j member
        exact Finset.mem_range.mpr (written.below j member)
      · rw [Finset.card_range]
        omega
    rw [all]
    exact Finset.mem_range.mpr below
  · by_contra outside
    apply foreign i
    rw [← written.old i outside, has]
    exact own

/-- A mutex without entry leaves room in the table, unless a cleared place is taken again. -/
theorem Bounded.fresh (bounded : Bounded mutexes threads reuses locklist t) {lock : UInt64}
    (own : lock ∈ mutexes) (absent : ¬ HasEntry t.system.tg lock)
    (unused : ¬ Reuses t.system.tg lock) :
    t.system.tg.lockidx + 1 ≤ mutexes.card + t.reuses := by
  obtain ⟨places, written, counted⟩ := bounded.counted
  have less := written.card_lt own absent fun i below cleared => unused ⟨absent, i, below, cleared⟩
  omega

/-- `lock_before` and the real calls keep what holds of the tables. -/
theorem Bounded.same (bounded : Bounded mutexes threads reuses locklist t) {action : Action}
    {next : System} (done : t.system.exec action = some next) (fits : Fits threads next.tg)
    (same : SameRecords t.system.tg next.tg) (quiet : t.system.reusing action = 0)
    (foreign : ∀ thread lock, action ≠ .lockAfter thread lock) :
    Bounded mutexes threads reuses locklist ⟨next, t.reuses + t.system.reusing action⟩ := by
  apply bounded.step done fits
  · rw [quiet]
    exact bounded.again
  · obtain ⟨places, written, counted⟩ := bounded.counted
    refine ⟨places, written.congr same, ?_⟩
    rw [same.lockidx, quiet]
    exact counted
  · rw [same.lockidx, quiet]
    exact bounded.size
  · exact fun thread lock impossible => absurd impossible (foreign thread lock)
  · intro other mutex needs _
    obtain ⟨i, below, has⟩ := bounded.entry other mutex needs
    exact ⟨i, by rw [same.lockidx]; exact below, (same.lockId i).trans has⟩

/-- A `lock_after` that is careful stays inside the tables. -/
theorem lockAfter_bounded (room : mutexes.card + reuses ≤ MAX)
    (memory : reuses = 0 ∨ ∀ i, (locklist i).lockId ∉ mutexes)
    (bounded : Bounded mutexes threads reuses locklist t) {thread lock : UInt64}
    (possible : t.system.Enabled (.lockAfter thread lock)) (isThread : thread ∈ threads)
    (isMutex : lock ∈ mutexes) (careful : Careful reuses t (.lockAfter thread lock)) :
    ∃ next, t.exec (.lockAfter thread lock) = some next ∧
      Bounded mutexes threads reuses locklist next := by
  have small := bounded.small room
  have again := bounded.again
  have address := bounded.order.held thread lock (bounded.order.acquired thread lock possible)
  have allowed : t.reuses + t.system.reusing (.lockAfter thread lock) ≤ reuses := by
    change t.reuses + (if Reuses t.system.tg lock then 1 else 0) ≤ reuses
    by_cases taken : Reuses t.system.tg lock
    · rw [if_pos taken]
      exact careful taken
    · rw [if_neg taken]
      exact again
  have place : HasEntry t.system.tg lock ∨ t.system.tg.lockidx < MAX ∨
      ∃ i, i < t.system.tg.lockidx ∧ (t.system.tg.locklist i).lockId = 0 := by
    by_cases present : HasEntry t.system.tg lock
    · exact Or.inl present
    · by_cases taken : Reuses t.system.tg lock
      · exact Or.inr (Or.inr taken.2)
      · have fresh := bounded.fresh isMutex present taken
        exact Or.inr (Or.inl (by omega))
  obtain ⟨tg, after, fits, size⟩ := lockAfter_fits bounded.fits small thread place
  obtain ⟨recorded, kept⟩ := lockAfter_entry after
  obtain ⟨places, written, counted⟩ := bounded.counted
  obtain ⟨i, written', reused⟩ := written.lockAfter isThread isMutex address
    (bounded.mine memory written counted isMutex) after
  have done := exec_lockAfter possible
  rw [after] at done
  refine ⟨_, congrArg (Option.map _) done,
    bounded.step done fits allowed ⟨_, written', ?_⟩ ?_ ?_ ?_⟩
  · change tg.lockidx ≤ _ + (t.reuses + if Reuses t.system.tg lock then 1 else 0)
    have more := Finset.card_le_card (Finset.subset_insert i places)
    by_cases present : HasEntry t.system.tg lock
    · rw [size, if_pos present]
      omega
    · by_cases taken : Reuses t.system.tg lock
      · rw [size, if_neg present, if_pos taken]
        omega
      · have new : i ∉ places := fun member => (reused member).elim present taken
        rw [size, if_neg present, if_neg taken, Finset.card_insert_of_notMem new]
        omega
  · change tg.lockidx ≤ _ + (t.reuses + if Reuses t.system.tg lock then 1 else 0)
    have before := bounded.size
    by_cases present : HasEntry t.system.tg lock
    · rw [size, if_pos present]
      omega
    · by_cases taken : Reuses t.system.tg lock
      · rw [size, if_neg present, if_pos taken]
        omega
      · rw [size, if_neg present, if_neg taken]
        exact bounded.fresh isMutex present taken
  · intro _ mutex same
    rw [← (Action.lockAfter.inj same).2]
    exact recorded
  · exact fun other mutex needs _ =>
      kept mutex (bounded.address needs) (bounded.entry other mutex needs)

/-- An `unlock_after` that is careful stays inside the tables. -/
theorem unlockAfter_bounded (room : mutexes.card + reuses ≤ MAX)
    (memory : reuses = 0 ∨ ∀ i, (locklist i).lockId ∉ mutexes)
    (bounded : Bounded mutexes threads reuses locklist t) {thread lock : UInt64}
    (possible : t.system.Enabled (.unlockAfter thread lock)) (isMutex : lock ∈ mutexes)
    (careful : Careful reuses t (.unlockAfter thread lock)) :
    ∃ next, t.exec (.unlockAfter thread lock) = some next ∧
      Bounded mutexes threads reuses locklist next := by
  have needed : HasEntry t.system.tg lock := bounded.entry thread lock (.inr possible)
  obtain ⟨i, _, searched⟩ := (searchLock_iff (bounded.small room) lock).mpr needed
  obtain ⟨tg, after⟩ : ∃ tg, unlockAfter t.system.tg lock = some tg := by
    rw [unlockAfter, searched]
    exact ⟨_, rfl⟩
  obtain ⟨size, kept⟩ := unlockAfter_entry after
  obtain ⟨list, num⟩ : tg.list = t.system.tg.list ∧ tg.num = t.system.tg.num := by
    rcases unlockAfter_records after with ⟨same, _⟩ | ⟨_, _, _, _, cleared⟩
    · rw [same]
      exact ⟨rfl, rfl⟩
    · rw [cleared]
      exact ⟨rfl, rfl⟩
  obtain ⟨places, written, counted⟩ := bounded.counted
  have done := exec_unlockAfter possible
  rw [after] at done
  refine ⟨_, congrArg (Option.map _) done,
    bounded.step done (bounded.fits.congr num fun j => by rw [list]) bounded.again
      ⟨places, written.unlockAfter (bounded.mine memory written counted isMutex) after, ?_⟩
      ?_ ?_ ?_⟩
  · exact size.le.trans counted
  · exact size.le.trans bounded.size
  · exact fun _ _ impossible => by cases impossible
  · intro other mutex needs foreign
    rcases kept mutex (bounded.entry other mutex needs) with has | ⟨same, j, first, counter⟩
    · exact has
    · rw [same] at needs foreign
      refine absurd needs (careful j first counter other fun equal => foreign ?_)
      rw [equal]

/-- A step that is possible stays inside the tables when it is careful. -/
theorem exec_bounded (few : threads.card ≤ MAX) (room : mutexes.card + reuses ≤ MAX)
    (memory : reuses = 0 ∨ ∀ i, (locklist i).lockId ∉ mutexes)
    (bounded : Bounded mutexes threads reuses locklist t) {action : Action}
    (possible : t.system.Enabled action) (isThread : action.thread ∈ threads)
    (isMutex : action.lock ∈ mutexes) (careful : Careful reuses t action) :
    ∃ next, t.exec action = some next ∧ Bounded mutexes threads reuses locklist next := by
  cases action with
  | lockBefore thread lock =>
    change thread ∈ threads at isThread
    have recorded : ∀ i, i < t.system.tg.lockidx → (t.system.tg.locklist i).lockId = lock →
        (t.system.tg.locklist i).id ∈ threads := by
      intro i below has
      obtain ⟨places, written, counted⟩ := bounded.counted
      have member := bounded.mine memory written counted isMutex i below has
      exact (written.known i member (by rw [has]; exact possible.2)).2
    obtain ⟨tg, before, fits⟩ :=
      lockBefore_fits few bounded.fits (bounded.small room) isThread recorded
    have done := exec_lockBefore possible
    rw [before] at done
    exact ⟨_, congrArg (Option.map _) done,
      bounded.same done fits (lockBefore_records before) rfl fun _ _ => Action.noConfusion⟩
  | acquire thread lock =>
    have done := exec_acquire possible
    exact ⟨_, congrArg (Option.map _) done,
      bounded.same done bounded.fits (SameRecords.refl _) rfl fun _ _ => Action.noConfusion⟩
  | lockAfter thread lock =>
    exact lockAfter_bounded room memory bounded possible isThread isMutex careful
  | release thread lock =>
    have done := exec_release possible
    exact ⟨_, congrArg (Option.map _) done,
      bounded.same done bounded.fits (SameRecords.refl _) rfl fun _ _ => Action.noConfusion⟩
  | unlockAfter thread lock =>
    exact unlockAfter_bounded room memory bounded possible isMutex careful

end Bounded

/-- In every run of careful steps with at most `MAX` threads, and at most `MAX` mutexes and cleared
places that are taken again, the counters stay within the tables; every further careful step that
is possible stays inside, and `unlock_after` finds an entry inside. The memory holds no mutex where
a place may be taken again. -/
theorem run_bounded {reuses : Nat} (few : threads.card ≤ MAX) (room : mutexes.card + reuses ≤ MAX)
    {list : Nat → Vertex} {locklist : Nat → LockEntry}
    (memory : reuses = 0 ∨ ∀ i, (locklist i).lockId ∉ mutexes) {trace : List Action} {t : Traced}
    (run : Run (CarefulStep mutexes threads reuses) (Traced.start list locklist) trace t) :
    t.system.tg.num ≤ MAX ∧ t.system.tg.lockidx ≤ MAX ∧
      ∀ action, t.system.Enabled action → action.thread ∈ threads → action.lock ∈ mutexes →
        Careful reuses t action →
        (∃ next, t.exec action = some next) ∧
        ∀ thread lock, action = .unlockAfter thread lock →
          ∃ i, i < MAX ∧ searchLock t.system.tg lock = some (some i) := by
  have bounded : Bounded mutexes threads reuses locklist t := by
    apply run.invariant (Bounded mutexes threads reuses locklist) (bounded_start list locklist)
    intro state action next bounded taken
    obtain ⟨done, isThread, isMutex, careful⟩ := taken
    obtain ⟨middle, executed, _⟩ := Option.map_eq_some_iff.mp done
    obtain ⟨other, done', bounded'⟩ :=
      exec_bounded few room memory bounded (enabled_of_exec executed) isThread isMutex careful
    rw [done] at done'
    rw [Option.some.inj done']
    exact bounded'
  refine ⟨bounded.fits.num_le.trans few, bounded.small room, ?_⟩
  intro action possible isThread isMutex careful
  obtain ⟨next, done, _⟩ := exec_bounded few room memory bounded possible isThread isMutex careful
  refine ⟨⟨next, done⟩, ?_⟩
  intro thread lock same
  rw [same] at possible
  exact (searchLock_iff (bounded.small room) lock).mpr (bounded.entry thread lock (.inr possible))

/-- Thread 1 locks mutex 7, unlocks it and locks it again, which takes the cleared place a second
time. -/
theorem run_bounded_again : ∃ trace t,
    Run (CarefulStep {7} {1} 99) (Traced.start TaskGraph.zero.list TaskGraph.zero.locklist) trace t ∧
    t.system.holder 7 = some 1 ∧ t.reuses = 1 ∧ t.system.tg.lockidx = 2 ∧
    t.system.tg.lockidx ≤ MAX := by
  have other : ∀ (phase : UInt64 → Phase) (next : Phase) (x : UInt64), x ≠ 1 →
      phase x = .running → Function.update phase 1 next x = .running := by
    intro phase next x different runs
    rw [Function.update_of_ne different]
    exact runs
  have idle : ∀ x : UInt64, x ≠ 1 → Function.update (Function.update (Function.update
      (Function.update (fun _ => Phase.running) 1 (.waiting 7)) 1 (.acquired 7)) 1 .running) 1
      (.released 7) x = .running := by
    intro x different
    exact other _ _ x different (other _ _ x different (other _ _ x different
      (other _ _ x different rfl)))
  let start := Traced.start TaskGraph.zero.list TaskGraph.zero.locklist
  let round : List Action :=
    [.lockBefore 1 7, .acquire 1 7, .lockAfter 1 7, .release 1 7, .unlockAfter 1 7]
  have before : Run (CarefulStep {7} {1} 99) start (round.take 1) _ :=
    Run.nil.snoc ⟨rfl, by decide, by decide, trivial⟩
  have acquired : Run (CarefulStep {7} {1} 99) start (round.take 2) _ :=
    before.snoc ⟨rfl, by decide, by decide, trivial⟩
  have holds : Run (CarefulStep {7} {1} 99) start (round.take 3) _ :=
    acquired.snoc ⟨rfl, by decide, by decide, fun _ => by decide⟩
  have released : Run (CarefulStep {7} {1} 99) start (round.take 4) _ :=
    holds.snoc ⟨rfl, by decide, by decide, trivial⟩
  have cleared : Run (CarefulStep {7} {1} 99) start round _ :=
    released.snoc ⟨rfl, by decide, by decide, fun _ _ _ x different needs => needs.elim
      (fun held => absurd (show none = some x from held.1) (Option.some_ne_none x).symm)
      (fun behind => Phase.noConfusion ((idle x different).symm.trans behind))⟩
  have before' : Run (CarefulStep {7} {1} 99) start (round ++ round.take 1) _ :=
    cleared.snoc ⟨rfl, by decide, by decide, trivial⟩
  have acquired' : Run (CarefulStep {7} {1} 99) start (round ++ round.take 2) _ :=
    before'.snoc ⟨rfl, by decide, by decide, trivial⟩
  have again : Run (CarefulStep {7} {1} 99) start (round ++ round.take 3) _ :=
    acquired'.snoc ⟨rfl, by decide, by decide, fun _ => by decide⟩
  exact ⟨_, _, again, rfl, rfl, rfl, (run_bounded (by decide) (by decide)
    (Or.inr fun _ => show (0 : UInt64) ∉ ({7} : Finset UInt64) by decide) again).2.1⟩

/-- The system when no mutex is held and `lockidx` entries are cleared. -/
def idle (lockidx : Nat) : System :=
  { System.initial with tg := { TaskGraph.zero with lockidx := lockidx } }

/-- Thread 1 locks and unlocks mutex 7. -/
def lockAndUnlock : List Action :=
  [.lockBefore 1 7, .acquire 1 7, .lockAfter 1 7, .release 1 7, .unlockAfter 1 7]

/-- `lock_after` takes the first of the cleared entries and counts a further one. -/
theorem lockAfter_idle {lockidx : Nat} (small : lockidx ≤ MAX) :
    lockAfter (idle lockidx).tg 1 7 =
      some { (idle (lockidx + 1)).tg.setLock 0 ⟨1, 7, 0⟩ with lockidx := lockidx + 1 } := by
  have nothing : scanLocks (idle lockidx).tg (fun entry => entry.lockId = 7) = some none := by
    have missing : (List.range (min (idle lockidx).tg.lockidx MAX)).find? (fun i =>
        decide (((idle lockidx).tg.locklist i).lockId = 7)) = none :=
      List.find?_eq_none.mpr fun i _ => by
        rw [decide_eq_true_eq]
        exact fun impossible => absurd (show (0 : UInt64) = 7 from impossible) (by decide)
    rw [scanLocks, missing]
    exact if_pos small
  have first : searchEmptyLock (idle lockidx).tg = some 0 := by
    cases lockidx with
    | zero => rfl
    | succ less =>
      rw [searchEmptyLock, scanLocks_first (Nat.succ_pos less) rfl]
      rfl
  simp only [lockAfter, searchLock, nothing, first, Option.bind_some]
  rfl

/-- `unlock_after` clears the entry again. -/
theorem unlockAfter_idle (lockidx : Nat) :
    unlockAfter { (idle (lockidx + 1)).tg.setLock 0 ⟨1, 7, 0⟩ with lockidx := lockidx + 1 } 7 =
      some (idle (lockidx + 1)).tg := by
  have found : searchLock { (idle (lockidx + 1)).tg.setLock 0 ⟨1, 7, 0⟩ with
      lockidx := lockidx + 1 } 7 = some (some 0) := scanLocks_first (Nat.succ_pos lockidx) rfl
  rw [unlockAfter, found]
  have cleared : Function.update (Function.update TaskGraph.zero.locklist 0 ⟨1, 7, 0⟩) 0
      ⟨0, 0, 0⟩ = TaskGraph.zero.locklist := by
    rw [Function.update_idem]
    exact Function.update_eq_self 0 TaskGraph.zero.locklist
  exact congrArg (fun locks => some { (idle (lockidx + 1)).tg with locklist := locks }) cleared

/-- One round of locking and unlocking counts one more entry. -/
theorem lockAndUnlock_idle {lockidx : Nat} (small : lockidx ≤ MAX) :
    lockAndUnlock.foldlM System.exec (idle lockidx) = some (idle (lockidx + 1)) := by
  have before : lockBefore (idle lockidx).tg 1 7 = some (idle lockidx).tg := by
    have skips := foldlM_skip 1 7 (List.range lockidx) (idle lockidx).tg fun j _ => by
      exact fun impossible => absurd (show (0 : UInt64) = 7 from impossible) (by decide)
    exact (if_pos small).trans skips
  let waits : System :=
    { idle lockidx with phase := Function.update (idle lockidx).phase 1 (.waiting 7) }
  let acquired : System := { waits with
    holder := Function.update waits.holder 7 (some 1)
    phase := Function.update waits.phase 1 (.acquired 7) }
  let holds : System := { acquired with
    tg := { (idle (lockidx + 1)).tg.setLock 0 ⟨1, 7, 0⟩ with lockidx := lockidx + 1 }
    phase := Function.update acquired.phase 1 .running }
  let released : System := { holds with
    holder := Function.update holds.holder 7 none
    phase := Function.update holds.phase 1 (.released 7) }
  have first : (idle lockidx).exec (.lockBefore 1 7) = some waits := by
    rw [exec_lockBefore ⟨rfl, by decide⟩, before]
    rfl
  have second : waits.exec (.acquire 1 7) = some acquired := exec_acquire ⟨rfl, rfl⟩
  have third : acquired.exec (.lockAfter 1 7) = some holds := by
    rw [exec_lockAfter (show acquired.phase 1 = .acquired 7 from rfl)]
    change Option.map _ (lockAfter (idle lockidx).tg 1 7) = _
    rw [lockAfter_idle small]
    rfl
  have fourth : holds.exec (.release 1 7) = some released := exec_release ⟨rfl, rfl⟩
  have fifth : released.exec (.unlockAfter 1 7) = some (idle (lockidx + 1)) := by
    rw [exec_unlockAfter (show released.phase 1 = .released 7 from rfl)]
    change Option.map _ (unlockAfter { (idle (lockidx + 1)).tg.setLock 0 ⟨1, 7, 0⟩ with
      lockidx := lockidx + 1 } 7) = _
    rw [unlockAfter_idle, Option.map_some]
    simp only [released, holds, acquired, waits, idle, System.initial, Function.update_idem,
      Function.update_eq_self_iff.mpr]
  simp only [lockAndUnlock, List.foldlM_cons, List.foldlM_nil, first, second, third, fourth, fifth,
    Option.bind_eq_bind, Option.bind_some]
  rfl

/-- When thread 1 locks and unlocks mutex 7 again and again, `lockidx` grows beyond the table. -/
theorem lockidx_overflow : ∃ trace s,
    Run (fun s action next => s.exec action = some next) System.initial trace s ∧
    (∀ action ∈ trace, action ∈ lockAndUnlock) ∧ MAX < s.tg.lockidx := by
  have rounds : ∀ count, count ≤ MAX + 1 →
      (List.replicate count lockAndUnlock).flatten.foldlM System.exec (idle 0) =
        some (idle count) := by
    intro count
    induction count with
    | zero => exact fun _ => rfl
    | succ count ih =>
      intro small
      rw [List.replicate_succ', List.flatten_append, List.foldlM_append, ih (by omega)]
      change List.foldlM System.exec (idle count) [lockAndUnlock].flatten = _
      rw [List.flatten_singleton]
      exact lockAndUnlock_idle (by omega)
  refine ⟨_, _, Run.of_foldlM (rounds (MAX + 1) le_rfl), ?_, Nat.lt_succ_self MAX⟩
  intro action member
  obtain ⟨round, copy, inside⟩ := List.mem_flatten.mp member
  rw [← List.eq_of_mem_replicate copy]
  exact inside

end BackendCpp.Deadlock
