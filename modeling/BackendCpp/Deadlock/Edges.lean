import BackendCpp.Deadlock.Detector
import BackendCpp.Deadlock.Graph
import BackendCpp.Library.Run

/-!
# The set of edges

The calls on the adjacency lists are followed by a set of pairs. The lists hold exactly the pairs
of the set, but `verify_edge` begins its walk with the cell of the vertex itself, where
`add_edge` and `remove_edge` look behind it: the vertex counts as an edge to itself.
-/

namespace BackendCpp.Deadlock

open Library

/-- A call on the graph, for vertices that are threads. -/
inductive EdgeCall
  /-- `add_vertex`. -/
  | addVertex (thread : UInt64)
  /-- `add_edge`. -/
  | addEdge (source target : UInt64)
  /-- `remove_edge`. -/
  | removeEdge (source target : UInt64)
  deriving DecidableEq

/-- The calls; `add_edge` is called when `verify_edge` says no. -/
inductive EdgeStep : TaskGraph → EdgeCall → TaskGraph → Prop
  | addVertex {tg tg' : TaskGraph} {thread : UInt64}
      (done : Deadlock.addVertex tg ⟨thread, .process⟩ = some tg') :
      EdgeStep tg (.addVertex thread) tg'
  | addEdge {tg tg' : TaskGraph} {source target : UInt64}
      (absent : verifyEdge tg ⟨source, .process⟩ ⟨target, .process⟩ = false)
      (done : Deadlock.addEdge tg ⟨source, .process⟩ ⟨target, .process⟩ = some tg') :
      EdgeStep tg (.addEdge source target) tg'
  | removeEdge {tg tg' : TaskGraph} {source target : UInt64}
      (done : Deadlock.removeEdge tg ⟨source, .process⟩ ⟨target, .process⟩ = tg') :
      EdgeStep tg (.removeEdge source target) tg'

/-- The edges after a call. -/
def edgesAfter (edges : Finset (UInt64 × UInt64)) : EdgeCall → Finset (UInt64 × UInt64)
  | .addVertex _ => edges
  | .addEdge source target => insert (source, target) edges
  | .removeEdge source target => edges.erase (source, target)

/-- The pairs for which `add_edge` was performed more recently than any `remove_edge`. -/
def addedEdges (history : List EdgeCall) : Finset (UInt64 × UInt64) :=
  history.foldl edgesAfter ∅

/-- Another chain for one vertex. -/
def TaskGraph.withChain (tg : TaskGraph) (i : Nat) (chain : List SourceType) : TaskGraph :=
  { tg with list := Function.update tg.list i { tg.list i with next := chain } }

/-- The threads that a chain names. -/
def ids (chain : List SourceType) : List UInt64 := chain.map SourceType.id

/-- Edges are read from the names in a chain. -/
theorem edge_iff_ids (tg : TaskGraph) (x y : UInt64) :
    Edge tg x y ↔ ∃ i, i < tg.num ∧ (tg.list i).s.id = x ∧ y ∈ ids (tg.list i).next := by
  simp only [Edge, ids, List.mem_map]

/-- Another chain leaves the vertices. -/
theorem withChain_s (tg : TaskGraph) (i : Nat) (chain : List SourceType) (j : Nat) :
    ((tg.withChain i chain).list j).s = (tg.list j).s := by
  change (Function.update tg.list i _ j).s = _
  by_cases here : j = i
  · rw [here, Function.update_self]
  · rw [Function.update_of_ne here]

/-- Another chain for one vertex is the chain of that vertex. -/
theorem withChain_next (tg : TaskGraph) (i : Nat) (chain : List SourceType) (j : Nat) :
    ((tg.withChain i chain).list j).next = if j = i then chain else (tg.list j).next := by
  change (Function.update tg.list i _ j).next = _
  by_cases here : j = i
  · rw [here, Function.update_self, if_pos rfl]
  · rw [Function.update_of_ne here, if_neg here]

/-- Another chain keeps the vertices apart. -/
theorem Proper.withChain {tg : TaskGraph} (proper : Proper tg) (i : Nat)
    (chain : List SourceType) : Proper (tg.withChain i chain) := by
  constructor
  · intro j below
    rw [withChain_s]
    exact proper.kind j below
  · intro j k below below' same
    rw [withChain_s, withChain_s] at same
    exact proper.distinct j k below below' same

/-- Another chain gives no vertex. -/
theorem hasVertex_withChain (tg : TaskGraph) (i : Nat) (chain : List SourceType) (x : UInt64) :
    HasVertex (tg.withChain i chain) x ↔ HasVertex tg x := by
  simp only [HasVertex, withChain_s]
  exact Iff.rfl

/-- Another chain changes the edges from its vertex. -/
theorem edge_withChain {tg : TaskGraph} (proper : Proper tg) {i : Nat} (below : i < tg.num)
    (chain : List SourceType) (x y : UInt64) :
    Edge (tg.withChain i chain) x y ↔
      if x = (tg.list i).s.id then y ∈ ids chain else Edge tg x y := by
  rw [edge_iff_ids, edge_iff_ids]
  simp only [withChain_s, withChain_next]
  change (∃ j, j < tg.num ∧ _) ↔ _
  by_cases owner : x = (tg.list i).s.id
  · rw [if_pos owner]
    constructor
    · rintro ⟨j, inside, same, member⟩
      have here : j = i := proper.distinct j i inside below (same.trans owner)
      rw [if_pos here] at member
      exact member
    · intro member
      refine ⟨i, below, owner.symm, ?_⟩
      rw [if_pos rfl]
      exact member
  · rw [if_neg owner]
    have elsewhere : ∀ j, (tg.list j).s.id = x → j ≠ i := by
      intro j same here
      rw [here] at same
      exact owner same.symm
    constructor
    · rintro ⟨j, inside, same, member⟩
      rw [if_neg (elsewhere j same)] at member
      exact ⟨j, inside, same, member⟩
    · rintro ⟨j, inside, same, member⟩
      refine ⟨j, inside, same, ?_⟩
      rw [if_neg (elsewhere j same)]
      exact member

/-- The adjacency lists hold the edges of a set, each once, and lead to vertices. -/
structure Holds (tg : TaskGraph) (edges : Finset (UInt64 × UInt64)) : Prop where
  /-- The arrays and the lists are in order. -/
  proper : Proper tg
  /-- The lists have the edges of the set. -/
  edge : ∀ x y, Edge tg x y ↔ (x, y) ∈ edges
  /-- No list names a vertex twice. -/
  once : ∀ i, i < tg.num → (ids (tg.list i).next).Nodup
  /-- Every edge leads to a vertex. -/
  target : ∀ x y, (x, y) ∈ edges → HasVertex tg y

/-- `add_vertex` gives one thread a vertex and keeps the edges. -/
theorem Holds.addVertex {tg tg' : TaskGraph} {edges : Finset (UInt64 × UInt64)}
    (holds : Holds tg edges) {thread : UInt64}
    (added : Deadlock.addVertex tg ⟨thread, .process⟩ = some tg') :
    Holds tg' edges ∧ ∀ x, HasVertex tg' x ↔ HasVertex tg x ∨ x = thread := by
  obtain ⟨proper, present, more, same⟩ := addVertex_spec holds.proper added
  have vertices : ∀ x, HasVertex tg' x ↔ HasVertex tg x ∨ x = thread := by
    intro x
    constructor
    · rintro ⟨i, below, owner⟩
      rcases addVertex_cells added with ⟨unchanged, _⟩ | ⟨_, _, count, old, new⟩
      · rw [unchanged] at below owner
        exact Or.inl ⟨i, below, owner⟩
      · by_cases last : i = tg.num
        · rw [last, new] at owner
          exact Or.inr owner.symm
        · have inside : i < tg.num := by omega
          rw [old i inside] at owner
          exact Or.inl ⟨i, inside, owner⟩
    · rintro (before | here)
      · exact more x before
      · rw [here]
        exact present
  refine ⟨⟨proper, fun x y => (same x y).trans (holds.edge x y), ?_, ?_⟩, vertices⟩
  · intro i below
    rcases addVertex_cells added with ⟨unchanged, _⟩ | ⟨_, _, count, old, new⟩
    · rw [unchanged] at below ⊢
      exact holds.once i below
    · by_cases last : i = tg.num
      · rw [last, new]
        exact List.nodup_nil
      · have inside : i < tg.num := by omega
        rw [old i inside]
        exact holds.once i inside
  · intro x y member
    exact more y (holds.target x y member)

/-- `verify_edge` says yes for the edges, and for a vertex and itself. -/
theorem Holds.verifyEdge_iff {tg : TaskGraph} {edges : Finset (UInt64 × UInt64)}
    (holds : Holds tg edges) (i j : UInt64) :
    verifyEdge tg ⟨i, .process⟩ ⟨j, .process⟩ = true ↔ (i, j) ∈ edges ∨ i = j ∧ HasVertex tg i := by
  by_cases present : HasVertex tg i
  · rw [Deadlock.verifyEdge_iff holds.proper present, holds.edge]
    tauto
  · have missing : searchVertex tg ⟨i, .process⟩ = none := by
      rw [Option.eq_none_iff_forall_ne_some]
      intro k found
      exact present ⟨k, searchVertex_some found⟩
    have none : (i, j) ∉ edges := by
      rw [← holds.edge]
      rintro ⟨k, below, owner, _⟩
      exact present ⟨k, below, owner⟩
    unfold verifyEdge
    simp [missing, present, none]

/-- The chain of a vertex names the targets of its edges. -/
theorem Holds.ids_iff {tg : TaskGraph} {edges : Finset (UInt64 × UInt64)}
    (holds : Holds tg edges) {i : Nat} (below : i < tg.num) (y : UInt64) :
    y ∈ ids (tg.list i).next ↔ ((tg.list i).s.id, y) ∈ edges := by
  rw [← holds.edge, edge_iff_ids]
  constructor
  · intro member
    exact ⟨i, below, rfl, member⟩
  · rintro ⟨j, inside, same, member⟩
    rw [holds.proper.distinct j i inside below same] at member
    exact member

/-- A chain that names the targets of a set of edges, where the other vertices keep theirs. -/
theorem Holds.withChain {tg : TaskGraph} {edges edges' : Finset (UInt64 × UInt64)}
    (holds : Holds tg edges) {i : Nat} (below : i < tg.num) {chain : List SourceType}
    (once : (ids chain).Nodup) (own : ∀ y, y ∈ ids chain ↔ ((tg.list i).s.id, y) ∈ edges')
    (others : ∀ x y, x ≠ (tg.list i).s.id → ((x, y) ∈ edges' ↔ (x, y) ∈ edges))
    (target : ∀ y ∈ ids chain, HasVertex tg y) : Holds (tg.withChain i chain) edges' := by
  refine ⟨holds.proper.withChain i chain, ?_, ?_, ?_⟩
  · intro x y
    rw [edge_withChain holds.proper below]
    by_cases here : x = (tg.list i).s.id
    · rw [if_pos here, own, here]
    · rw [if_neg here, others x y here, holds.edge]
  · intro j inside
    rw [withChain_next]
    by_cases here : j = i
    · rw [if_pos here]
      exact once
    · rw [if_neg here]
      exact holds.once j inside
  · intro x y member
    rw [hasVertex_withChain]
    by_cases here : x = (tg.list i).s.id
    · rw [here, ← own] at member
      exact target y member
    · exact holds.target x y ((others x y here).mp member)

/-- `add_edge` adds a pair, and the vertices of the pair. -/
theorem Holds.addEdge {tg tg' : TaskGraph} {edges : Finset (UInt64 × UInt64)}
    (holds : Holds tg edges) {source target : UInt64}
    (absent : verifyEdge tg ⟨source, .process⟩ ⟨target, .process⟩ = false)
    (added : Deadlock.addEdge tg ⟨source, .process⟩ ⟨target, .process⟩ = some tg') :
    Holds tg' (insert (source, target) edges) ∧
    ∀ x, HasVertex tg' x ↔ HasVertex tg x ∨ x = source ∨ x = target := by
  have new : (source, target) ∉ edges := by
    intro member
    have known := (holds.verifyEdge_iff source target).mpr (Or.inl member)
    rw [absent] at known
    cases known
  simp only [Deadlock.addEdge, Option.bind_eq_some_iff, Option.map_eq_some_iff] at added
  obtain ⟨one, first, two, second, i, found, done⟩ := added
  obtain ⟨holdsOne, verticesOne⟩ := holds.addVertex first
  obtain ⟨holdsTwo, verticesTwo⟩ := holdsOne.addVertex second
  obtain ⟨below, owner⟩ := searchVertex_some found
  have names : ids ((two.list i).next ++ [⟨target, .process⟩]) =
      ids (two.list i).next ++ [target] := List.map_append
  have present : HasVertex two target := (verticesTwo target).mpr (Or.inr rfl)
  rw [← done]
  constructor
  · apply holdsTwo.withChain below
    · rw [names, List.nodup_append]
      refine ⟨holdsTwo.once i below, List.nodup_singleton target, ?_⟩
      intro y member z single same
      rw [same, List.mem_singleton.mp single, holdsTwo.ids_iff below, owner] at member
      exact new member
    · intro y
      rw [names, List.mem_append, List.mem_singleton, holdsTwo.ids_iff below, Finset.mem_insert,
        owner, Prod.mk.injEq]
      tauto
    · intro x y other
      rw [owner] at other
      rw [Finset.mem_insert, Prod.mk.injEq]
      tauto
    · intro y member
      rw [names, List.mem_append, List.mem_singleton, holdsTwo.ids_iff below] at member
      rcases member with before | last
      · exact holdsTwo.target _ y before
      · rw [last]
        exact present
  · intro x
    have vertices : HasVertex (two.withChain i ((two.list i).next ++ [⟨target, .process⟩])) x ↔ _ :=
      hasVertex_withChain two i _ x
    rw [verticesTwo, verticesOne, or_assoc] at vertices
    exact vertices

/-- `remove_edge` removes a pair, and no vertex. -/
theorem Holds.removeEdge {tg : TaskGraph} {edges : Finset (UInt64 × UInt64)}
    (holds : Holds tg edges) (source target : UInt64) :
    Holds (Deadlock.removeEdge tg ⟨source, .process⟩ ⟨target, .process⟩)
      (edges.erase (source, target)) ∧
    ∀ x, HasVertex (Deadlock.removeEdge tg ⟨source, .process⟩ ⟨target, .process⟩) x ↔
      HasVertex tg x := by
  have unchanged : (source, target) ∉ edges →
      Holds tg (edges.erase (source, target)) ∧ ∀ x, HasVertex tg x ↔ HasVertex tg x := by
    intro absent
    rw [Finset.erase_eq_of_notMem absent]
    exact ⟨holds, fun _ => Iff.rfl⟩
  unfold Deadlock.removeEdge
  cases first : searchVertex tg ⟨source, .process⟩ with
  | none =>
    apply unchanged
    intro member
    obtain ⟨i, below, owner, _⟩ := (holds.edge source target).mpr member
    exact searchVertex_none holds.proper first ⟨i, below, owner⟩
  | some i =>
    cases second : searchVertex tg ⟨target, .process⟩ with
    | none =>
      apply unchanged
      intro member
      exact searchVertex_none holds.proper second (holds.target source target member)
    | some j =>
      obtain ⟨below, owner⟩ := searchVertex_some first
      have names : ids ((tg.list i).next.eraseP fun v => v.id = target) =
          (ids (tg.list i).next).erase target := by
        rw [List.erase_eq_eraseP', ids, ids, List.eraseP_map]
        apply congrArg
        apply congrArg (List.eraseP · (tg.list i).next)
        funext v
        rw [Function.comp_apply, Bool.beq_eq_decide_eq]
      have left : ∀ y, y ∈ (ids (tg.list i).next).erase target ↔
          y ≠ target ∧ (source, y) ∈ edges := by
        intro y
        rw [(holds.once i below).mem_erase_iff, holds.ids_iff below, owner]
      refine ⟨?_, hasVertex_withChain tg i _⟩
      apply holds.withChain below
      · rw [names]
        exact (holds.once i below).erase target
      · intro y
        rw [names, left, Finset.mem_erase, owner, ne_eq, ne_eq, Prod.mk.injEq]
        tauto
      · intro x y other
        rw [owner] at other
        rw [Finset.mem_erase, ne_eq, Prod.mk.injEq]
        tauto
      · intro y member
        rw [names, left] at member
        exact holds.target source y member.2

/-- A call keeps the lists and the set together. -/
theorem Holds.step {tg tg' : TaskGraph} {edges : Finset (UInt64 × UInt64)} {call : EdgeCall}
    (holds : Holds tg edges) (step : EdgeStep tg call tg') :
    Holds tg' (edgesAfter edges call) := by
  cases step with
  | addVertex done => exact (holds.addVertex done).1
  | addEdge absent done => exact (holds.addEdge absent done).1
  | removeEdge done =>
    rw [← done]
    exact (holds.removeEdge _ _).1

/-- After every history of calls the lists hold the pairs that were added. -/
theorem run_holds {list : Nat → Vertex} {locklist : Nat → LockEntry} {history : List EdgeCall}
    {tg : TaskGraph} (run : Run EdgeStep (startCheck list locklist) history tg) :
    Holds tg (addedEdges history) := by
  have empty : Holds (startCheck list locklist) ∅ := by
    have none : ∀ i, ¬ i < (startCheck list locklist).num := fun i => Nat.not_lt_zero i
    refine ⟨⟨fun i inside => absurd inside (none i), fun i j inside => absurd inside (none i)⟩,
      ?_, fun i inside => absurd inside (none i), by simp⟩
    intro x y
    constructor
    · rintro ⟨i, inside, _⟩
      exact absurd inside (none i)
    · simp
  exact run.simulation edgesAfter Holds empty fun _ _ _ _ holds step => holds.step step

/-- Two graphs in which `verify_edge` gives one answer. -/
theorem verifyEdge_eq_iff {tg tg' : TaskGraph} {edges edges' : Finset (UInt64 × UInt64)}
    (holds : Holds tg edges) (holds' : Holds tg' edges') (i j : UInt64)
    (same : (i, j) ∈ edges' ↔ (i, j) ∈ edges) :
    verifyEdge tg' ⟨i, .process⟩ ⟨j, .process⟩ = verifyEdge tg ⟨i, .process⟩ ⟨j, .process⟩ ↔
      ((i, j) ∈ edges ∨ i ≠ j ∨ (HasVertex tg' i ↔ HasVertex tg i)) := by
  rw [Bool.eq_iff_iff, holds.verifyEdge_iff, holds'.verifyEdge_iff, same]
  tauto

/-- After every history of calls `verify_edge` says whether the pair was added, exactly unless the
pair is a vertex with itself and was not added; `add_edge` leaves what `verify_edge` says of
another pair, exactly unless it gives the thread of that pair its vertex; and `remove_edge` always
does. -/
theorem verify_edge_represents_iff {list : Nat → Vertex} {locklist : Nat → LockEntry}
    {history : List EdgeCall} {tg : TaskGraph}
    (run : Run EdgeStep (startCheck list locklist) history tg) :
    (∀ i j, (verifyEdge tg ⟨i, .process⟩ ⟨j, .process⟩ = true ↔ (i, j) ∈ addedEdges history) ↔
      i ≠ j ∨ ¬ HasVertex tg i ∨ (i, j) ∈ addedEdges history) ∧
    (∀ source target tg', EdgeStep tg (.addEdge source target) tg' →
      ∀ i j, (i, j) ≠ (source, target) →
        (verifyEdge tg' ⟨i, .process⟩ ⟨j, .process⟩ = verifyEdge tg ⟨i, .process⟩ ⟨j, .process⟩ ↔
          i ≠ j ∨ HasVertex tg i ∨ i ≠ source ∧ i ≠ target)) ∧
    ∀ source target tg', EdgeStep tg (.removeEdge source target) tg' →
      ∀ i j, (i, j) ≠ (source, target) →
        verifyEdge tg' ⟨i, .process⟩ ⟨j, .process⟩ = verifyEdge tg ⟨i, .process⟩ ⟨j, .process⟩ := by
  have holds := run_holds run
  refine ⟨?_, ?_, ?_⟩
  · intro i j
    rw [holds.verifyEdge_iff]
    tauto
  · intro source target tg' step i j other
    cases step with
    | addEdge absent done =>
      obtain ⟨holds', vertices⟩ := holds.addEdge absent done
      have same : (i, j) ∈ insert (source, target) (addedEdges history) ↔
          (i, j) ∈ addedEdges history := by
        rw [Finset.mem_insert]
        tauto
      have edgeVertex : (i, j) ∈ addedEdges history → HasVertex tg i := by
        intro member
        obtain ⟨k, below, owner, _⟩ := (holds.edge i j).mpr member
        exact ⟨k, below, owner⟩
      rw [verifyEdge_eq_iff holds holds' i j same, vertices]
      tauto
  · intro source target tg' step i j other
    cases step with
    | removeEdge done =>
      obtain ⟨holds', vertices⟩ := holds.removeEdge source target
      rw [done] at holds' vertices
      have same : (i, j) ∈ (addedEdges history).erase (source, target) ↔
          (i, j) ∈ addedEdges history := by
        rw [Finset.mem_erase]
        tauto
      exact (verifyEdge_eq_iff holds holds' i j same).mpr (Or.inr (Or.inr (vertices i)))

/-- The history in which thread 1 waits for thread 2. -/
theorem verify_edge_represents_pair :
    ∃ tg, Run EdgeStep (startCheck TaskGraph.zero.list TaskGraph.zero.locklist) [.addEdge 1 2] tg ∧
      verifyEdge tg ⟨1, .process⟩ ⟨2, .process⟩ = true := by
  have step : EdgeStep (startCheck TaskGraph.zero.list TaskGraph.zero.locklist)
      (.addEdge 1 2) _ := EdgeStep.addEdge rfl rfl
  have run := Run.nil.snoc step
  refine ⟨_, run, ?_⟩
  exact (((verify_edge_represents_iff run).1 1 2).mpr (Or.inl (by decide))).mpr (by decide)

/-- A vertex is taken for its own neighbour, although no edge was added. -/
theorem verify_edge_of_itself :
    ¬ ∀ (history : List EdgeCall) (tg : TaskGraph),
      Run EdgeStep (startCheck TaskGraph.zero.list TaskGraph.zero.locklist) history tg →
      ∀ i j, verifyEdge tg ⟨i, .process⟩ ⟨j, .process⟩ = true ↔ (i, j) ∈ addedEdges history := by
  intro always
  have step : EdgeStep (startCheck TaskGraph.zero.list TaskGraph.zero.locklist) (.addVertex 1) _ :=
    EdgeStep.addVertex rfl
  have added := (always _ _ (Run.nil.snoc step) 1 1).mp (by decide)
  revert added
  decide

end BackendCpp.Deadlock
