import BackendCpp.Deadlock.Records

/-!
# The adjacency lists as a set of edges

As long as the vertices are threads and no thread has two of them, the operations on the
adjacency lists are operations on a set of edges. A walk along a chain begins with the vertex
itself, so `verify_edge` takes every vertex for its own neighbour.
-/

namespace BackendCpp.Deadlock

/-- The vertices are threads, each at most once. -/
structure Proper (tg : TaskGraph) : Prop where
  /-- All vertices are threads. -/
  kind : ∀ i, i < tg.num → (tg.list i).s.kind = .process
  /-- A thread has one vertex at most. -/
  distinct : ∀ i j, i < tg.num → j < tg.num → (tg.list i).s.id = (tg.list j).s.id → i = j

/-- The thread has a vertex. -/
def HasVertex (tg : TaskGraph) (thread : UInt64) : Prop :=
  ∃ i, i < tg.num ∧ (tg.list i).s.id = thread

/-- The adjacency lists contain an edge. -/
def Edge (tg : TaskGraph) (source target : UInt64) : Prop :=
  ∃ i, i < tg.num ∧ (tg.list i).s.id = source ∧ ∃ v ∈ (tg.list i).next, v.id = target

/-- `search_vertex` finds the vertex of a thread. -/
theorem searchVertex_some {tg : TaskGraph} {thread : UInt64} {i : Nat}
    (found : searchVertex tg ⟨thread, .process⟩ = some i) :
    i < tg.num ∧ (tg.list i).s.id = thread := by
  have test := List.find?_some found
  have member := List.mem_range.mp (List.mem_of_find?_eq_some found)
  simp only [decide_eq_true_eq] at test
  exact ⟨member, test.2⟩

/-- When `search_vertex` finds nothing, the thread has no vertex. -/
theorem searchVertex_none {tg : TaskGraph} (proper : Proper tg) {thread : UInt64}
    (missing : searchVertex tg ⟨thread, .process⟩ = none) : ¬ HasVertex tg thread := by
  intro present
  obtain ⟨i, below, same⟩ := present
  have absent := List.find?_eq_none.mp missing i (List.mem_range.mpr below)
  simp only [decide_eq_true_eq] at absent
  exact absent ⟨proper.kind i below, same⟩

/-- `add_vertex` makes sure that the thread has a vertex, and adds no edge. -/
theorem addVertex_spec {tg tg' : TaskGraph} (proper : Proper tg) {thread : UInt64}
    (added : addVertex tg ⟨thread, .process⟩ = some tg') :
    Proper tg' ∧ HasVertex tg' thread ∧ (∀ x, HasVertex tg x → HasVertex tg' x) ∧
      ∀ x y, Edge tg' x y ↔ Edge tg x y := by
  unfold addVertex at added
  cases found : searchVertex tg ⟨thread, .process⟩ with
  | some i =>
    simp only [found] at added
    rw [← Option.some.inj added]
    exact ⟨proper, ⟨i, searchVertex_some found⟩, fun x present => present, fun x y => Iff.rfl⟩
  | none =>
    simp only [found] at added
    split at added
    · have new := searchVertex_none proper found
      rw [← Option.some.inj added]
      have last : Function.update tg.list tg.num ⟨⟨thread, .process⟩, []⟩ tg.num =
          ⟨⟨thread, .process⟩, []⟩ := Function.update_self ..
      have old : ∀ i, i < tg.num →
          Function.update tg.list tg.num ⟨⟨thread, .process⟩, []⟩ i = tg.list i := by
        intro i below
        exact Function.update_of_ne (by omega) ..
      have split : ∀ i, i < tg.num + 1 → i < tg.num ∨ i = tg.num := by
        intro i below
        omega
      refine ⟨⟨?_, ?_⟩, ⟨tg.num, Nat.lt_succ_self _, ?_⟩, ?_, ?_⟩
      · intro i below
        rcases split i below with inside | here
        · simp only [old i inside]
          exact proper.kind i inside
        · simp only [here, last]
      · intro i j below below' same
        rcases split i below with inside | here
        · rcases split j below' with inside' | here'
          · simp only [old i inside, old j inside'] at same
            exact proper.distinct i j inside inside' same
          · simp only [old i inside, here', last] at same
            exact absurd ⟨i, inside, same⟩ new
        · rcases split j below' with inside' | here'
          · simp only [old j inside', here, last] at same
            exact absurd ⟨j, inside', same.symm⟩ new
          · rw [here, here']
      · simp only [last]
      · intro x present
        obtain ⟨i, below, same⟩ := present
        refine ⟨i, Nat.lt_succ_of_lt below, ?_⟩
        simp only [old i below]
        exact same
      · intro x y
        constructor
        · intro edge
          obtain ⟨i, below, same, v, member, target⟩ := edge
          rcases split i below with inside | here
          · simp only [old i inside] at same member
            exact ⟨i, inside, same, v, member, target⟩
          · simp only [here, last] at member
            cases member
        · intro edge
          obtain ⟨i, below, same, v, member, target⟩ := edge
          refine ⟨i, Nat.lt_succ_of_lt below, ?_, v, ?_, target⟩
          · simp only [old i below]
            exact same
          · simp only [old i below]
            exact member
    · cases added

/-- `add_edge` adds the edge. -/
theorem addEdge_spec {tg tg' : TaskGraph} (proper : Proper tg) {source target : UInt64}
    (added : addEdge tg ⟨source, .process⟩ ⟨target, .process⟩ = some tg') :
    Proper tg' ∧ ∀ x y, Edge tg' x y ↔ Edge tg x y ∨ (x = source ∧ y = target) := by
  simp only [addEdge, Option.bind_eq_some_iff, Option.map_eq_some_iff] at added
  obtain ⟨one, first, two, second, i, found, done⟩ := added
  obtain ⟨properOne, _, _, edgesOne⟩ := addVertex_spec proper first
  obtain ⟨properTwo, _, _, edgesTwo⟩ := addVertex_spec properOne second
  obtain ⟨below, owner⟩ := searchVertex_some found
  let longer : Vertex := { two.list i with next := (two.list i).next ++ [⟨target, .process⟩] }
  have here : Function.update two.list i longer i = longer := Function.update_self ..
  have vertex : ∀ j, (Function.update two.list i longer j).s = (two.list j).s := by
    intro j
    by_cases same : j = i
    · rw [same, here]
    · rw [Function.update_of_ne same]
  rw [← done]
  refine ⟨⟨?_, ?_⟩, ?_⟩
  · intro j inside
    change (Function.update two.list i longer j).s.kind = .process
    rw [vertex]
    exact properTwo.kind j inside
  · intro j k inside inside' same
    change (Function.update two.list i longer j).s.id =
      (Function.update two.list i longer k).s.id at same
    rw [vertex, vertex] at same
    exact properTwo.distinct j k inside inside' same
  · intro x y
    rw [← edgesOne x y, ← edgesTwo x y]
    constructor
    · intro edge
      obtain ⟨j, inside, same, v, member, named⟩ := edge
      change (Function.update two.list i longer j).s.id = x at same
      change v ∈ (Function.update two.list i longer j).next at member
      rw [vertex] at same
      by_cases at_i : j = i
      · rw [at_i, here] at member
        rcases List.mem_append.mp member with old | new
        · rw [at_i] at same
          exact Or.inl ⟨i, below, same, v, old, named⟩
        · rw [List.mem_singleton.mp new] at named
          rw [at_i, owner] at same
          exact Or.inr ⟨same.symm, named.symm⟩
      · rw [Function.update_of_ne at_i] at member
        exact Or.inl ⟨j, inside, same, v, member, named⟩
    · intro edge
      rcases edge with ⟨j, inside, same, v, member, named⟩ | ⟨isSource, isTarget⟩
      · refine ⟨j, inside, ?_, v, ?_, named⟩
        · change (Function.update two.list i longer j).s.id = x
          rw [vertex]
          exact same
        · change v ∈ (Function.update two.list i longer j).next
          by_cases at_i : j = i
          · rw [at_i] at member
            rw [at_i, here]
            exact List.mem_append_left _ member
          · rw [Function.update_of_ne at_i]
            exact member
      · refine ⟨i, below, ?_, ⟨target, .process⟩, ?_, isTarget.symm⟩
        · change (Function.update two.list i longer i).s.id = x
          rw [vertex, owner, isSource]
        · change _ ∈ (Function.update two.list i longer i).next
          rw [here]
          exact List.mem_append_right _ List.mem_cons_self

/-- `verify_edge` answers whether there is an edge, or source and target are the same. -/
theorem verifyEdge_iff {tg : TaskGraph} (proper : Proper tg) {source target : UInt64}
    (present : HasVertex tg source) :
    verifyEdge tg ⟨source, .process⟩ ⟨target, .process⟩ = true ↔
      source = target ∨ Edge tg source target := by
  unfold verifyEdge
  cases found : searchVertex tg ⟨source, .process⟩ with
  | none => exact absurd present (searchVertex_none proper found)
  | some i =>
    obtain ⟨below, owner⟩ := searchVertex_some found
    simp only [List.any_cons, Bool.or_eq_true, decide_eq_true_eq, List.any_eq_true, owner]
    constructor
    · intro hit
      rcases hit with same | ⟨v, member, named⟩
      · exact Or.inl same
      · exact Or.inr ⟨i, below, owner, v, member, named⟩
    · intro hit
      rcases hit with same | ⟨j, inside, same, v, member, named⟩
      · exact Or.inl same
      · have equal := proper.distinct j i inside below (same.trans owner.symm)
        rw [equal] at member
        exact Or.inr ⟨v, member, named⟩

/-- Passes of `lock_before` over other mutexes do nothing. -/
theorem foldlM_skip (thread lock : UInt64) (indices : List Nat) (tg : TaskGraph)
    (other : ∀ j ∈ indices, (tg.locklist j).lockId ≠ lock) :
    indices.foldlM (lockBeforePass thread lock) tg = some tg := by
  induction indices with
  | nil => rfl
  | cons j indices ih =>
    have skipped : lockBeforePass thread lock tg j = some tg :=
      if_neg (other j List.mem_cons_self)
    rw [List.foldlM_cons, skipped]
    exact ih fun k member => other k (List.mem_cons_of_mem j member)

/-- `lock_before` that has a result stays inside the table. -/
theorem lockBefore_small {tg tg' : TaskGraph} {thread lock : UInt64}
    (done : lockBefore tg thread lock = some tg') : tg.lockidx ≤ MAX := by
  by_contra large
  rw [lockBefore, if_neg large] at done
  cases done

/-- `lock_before` on a mutex without entry does nothing. -/
theorem lockBefore_absent {tg : TaskGraph} {thread lock : UInt64} (small : tg.lockidx ≤ MAX)
    (absent : ∀ j, j < tg.lockidx → (tg.locklist j).lockId ≠ lock) :
    lockBefore tg thread lock = some tg := by
  rw [lockBefore, if_pos small]
  exact foldlM_skip thread lock _ tg fun j member => absent j (List.mem_range.mp member)

/-- `lock_before` on a mutex with one entry makes one pass. -/
theorem lockBefore_entry {tg : TaskGraph} {thread lock : UInt64} {i : Nat}
    (small : tg.lockidx ≤ MAX) (below : i < tg.lockidx)
    (only : ∀ j, j < tg.lockidx → (tg.locklist j).lockId = lock → j = i) :
    lockBefore tg thread lock = lockBeforePass thread lock tg i := by
  rw [lockBefore, if_pos small]
  obtain ⟨before, after, split⟩ := List.append_of_mem (List.mem_range.mpr below)
  have distinct : (before ++ i :: after).Nodup := by
    rw [← split]
    exact List.nodup_range
  have listed : ∀ j ∈ before ++ i :: after, j < tg.lockidx := by
    intro j member
    rw [← split] at member
    exact List.mem_range.mp member
  rw [List.nodup_append] at distinct
  obtain ⟨_, distinctAfter, apart⟩ := distinct
  have skipBefore : before.foldlM (lockBeforePass thread lock) tg = some tg := by
    apply foldlM_skip
    intro j member has
    have equal := only j (listed j (by simp [member])) has
    exact apart j member i List.mem_cons_self equal
  rw [split, List.foldlM_append, skipBefore]
  change (i :: after).foldlM (lockBeforePass thread lock) tg = _
  rw [List.foldlM_cons]
  cases pass : lockBeforePass thread lock tg i with
  | none => rfl
  | some passed =>
    have same := lockBeforePass_records pass
    apply foldlM_skip
    intro j member has
    rw [same.lockId] at has
    have equal := only j (listed j (by simp [member])) has
    rw [equal] at member
    exact (List.nodup_cons.mp distinctAfter).1 member

end BackendCpp.Deadlock
