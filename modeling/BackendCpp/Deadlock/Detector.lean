import BackendCpp.Deadlock.Program
import BackendCpp.Library.DepthFirst
import BackendCpp.Library.Loop

/-!
# The search for cycles of deadlock_success.c

`check_dead_lock` searches from every vertex in turn, with the marks in `visited` and the vertices
of the current way in `path`. A call of `DFS` that cannot be resumed, or an access outside of
`list`, `visited` or `path`, has no result. What is left of `path` when the search is resumed is the
stack that leads to the vertex, so the search is a depth-first search with marks.
-/

namespace BackendCpp.Deadlock

open BackendCpp.Library

/-- The globals of the search. -/
structure Search where
  /-- `visited`. -/
  visited : Nat → Int
  /-- `path`. -/
  path : Nat → Int
  /-- `k`. -/
  k : Int
  /-- `deadlock`. -/
  deadlock : Int
  /-- History: the paths that `print_deadlock` was called with, in order. -/
  printed : List (List Int)
  /-- History: the greatest value of `k` after an increment. -/
  peak : Int

/-- `path[k++] = idx`. -/
def Search.push (s : Search) (idx : Nat) : Option Search :=
  if 0 ≤ s.k ∧ s.k ≤ MAX then
    some { s with
      path := Function.update s.path s.k.toNat idx
      k := s.k + 1
      peak := max s.peak (s.k + 1) }
  else none

/-- `print_deadlock`: the vertices on `path` up to `k`. -/
def printDeadlock (s : Search) : Search :=
  { s with printed := s.printed ++ [(List.range s.k.toNat).map s.path] }

/-- `DFS(idx)`; no index stands for `-1`. -/
def DFS : Nat → TaskGraph → Search → Option Nat → Option Search
  | 0, _, _, _ => none
  | _ + 1, _, _, none => none
  | fuel + 1, tg, s, some idx =>
    if s.visited idx = 1 then
      (s.push idx).map fun s =>
        let s := printDeadlock s
        { s with deadlock := 1 }
    else
      (Search.push { s with visited := Function.update s.visited idx 1 } idx).bind fun s =>
        (tg.list idx).next.foldlM (fun s v =>
          (DFS fuel tg s (searchVertex tg v)).map fun s => { s with k := s.k - 1 }) s

/-- A pass of the loop of `search_for_cycle`, for one neighbour of `idx`. -/
def searchNeighbour (fuel : Nat) (tg : TaskGraph) (idx : Nat) (s : Search) (v : SourceType) :
    Option Search :=
  DFS fuel tg { s with
    visited := fun i => if i < tg.num ∧ i ≠ idx then 0 else s.visited i
    path := fun i => if 1 ≤ i ∧ i ≤ MAX then -1 else s.path i
    k := 1 } (searchVertex tg v)

/-- `search_for_cycle(idx)`. -/
def searchForCycle (fuel : Nat) (tg : TaskGraph) (s : Search) (idx : Nat) : Option Search :=
  (Search.push { s with visited := Function.update s.visited idx 1, k := 0 } idx).bind fun s =>
    (tg.list idx).next.foldlM (searchNeighbour fuel tg idx) s

/-- `check_dead_lock`; the loop is left by `break` once there is a deadlock. -/
def checkDeadLock (fuel : Nat) (tg : TaskGraph) (s : Search) : Option Search :=
  (List.range tg.num).foldlM (fun s i =>
    if s.deadlock = 1 then some s else searchForCycle fuel tg s i) { s with deadlock := 0 }

/-- A call that changes the graph. -/
inductive GraphCall
  /-- `add_vertex`. -/
  | addVertex (type : SourceType)
  /-- `add_edge`. -/
  | addEdge (source target : SourceType)
  /-- `remove_edge`. -/
  | removeEdge (source target : SourceType)

/-- The graph after a call. -/
def TaskGraph.call (tg : TaskGraph) : GraphCall → Option TaskGraph
  | .addVertex type => addVertex tg type
  | .addEdge source target => addEdge tg source target
  | .removeEdge source target => some (removeEdge tg source target)

/-- `start_check`: the memory of the graph holds anything. -/
def startCheck (list : Nat → Vertex) (locklist : Nat → LockEntry) : TaskGraph :=
  ⟨list, 0, locklist, 0⟩

/-- Every vertex that an edge leads to is in `list`, which has room for all vertices. -/
structure Closed (tg : TaskGraph) : Prop where
  /-- The vertices fit in the table. -/
  fits : tg.num ≤ MAX
  /-- The edges lead to vertices. -/
  target : ∀ i < tg.num, ∀ v ∈ (tg.list i).next, ∃ j < tg.num, searchVertex tg v = some j

/-- The neighbours of a vertex, in the order of its chain. -/
def neighbours (tg : TaskGraph) (i : Nat) : List Nat :=
  (tg.list i).next.filterMap (searchVertex tg)

/-- The graph has an edge. -/
def Follows (tg : TaskGraph) (i j : Nat) : Prop := i < tg.num ∧ j ∈ neighbours tg i

/-- The graph has a directed cycle. -/
def Cyclic (tg : TaskGraph) : Prop := ∃ i, Relation.TransGen (Follows tg) i i

variable {tg : TaskGraph}

/-- A vertex that `search_vertex` finds is in `list`. -/
theorem searchVertex_lt {type : SourceType} {i : Nat} (found : searchVertex tg type = some i) :
    i < tg.num :=
  List.mem_range.mp (List.mem_of_find?_eq_some found)

/-- `search_vertex` depends on the vertices only, and finds what it found before others came. -/
theorem searchVertex_mono {later : TaskGraph} {type : SourceType} {i : Nat}
    (more : tg.num ≤ later.num) (same : ∀ j < tg.num, (later.list j).s = (tg.list j).s)
    (found : searchVertex tg type = some i) : searchVertex later type = some i := by
  have below := searchVertex_lt found
  obtain ⟨extra, count⟩ := Nat.exists_eq_add_of_le more
  have first : (List.range tg.num).find? (fun j =>
      decide ((later.list j).s.kind = type.kind ∧ (later.list j).s.id = type.id)) = some i := by
    rw [← found, searchVertex]
    apply List.find?_congr
    intro j member
    rw [same j (List.mem_range.mp member)]
  rw [searchVertex, count, List.range_add, List.find?_append, first]
  rfl

/-- `add_vertex` changes nothing, or puts a vertex without edges behind the others. -/
theorem addVertex_cells {tg' : TaskGraph} {type : SourceType}
    (added : addVertex tg type = some tg') :
    (tg' = tg ∧ ∃ i, searchVertex tg type = some i) ∨
      (searchVertex tg type = none ∧ tg.num < MAX ∧ tg'.num = tg.num + 1 ∧
        (∀ i, i < tg.num → tg'.list i = tg.list i) ∧ tg'.list tg.num = ⟨type, []⟩) := by
  unfold addVertex at added
  cases found : searchVertex tg type with
  | some i =>
    simp only [found] at added
    exact Or.inl ⟨(Option.some.inj added).symm, i, rfl⟩
  | none =>
    simp only [found] at added
    split at added
    · rename_i room
      rw [← Option.some.inj added]
      refine Or.inr ⟨rfl, room, rfl, ?_, Function.update_self ..⟩
      intro i below
      exact Function.update_of_ne (Nat.ne_of_lt below) ..
    · cases added

/-- `search_vertex` finds the vertex after `add_vertex`, and what it found before. -/
theorem addVertex_found {type : SourceType} {tg' : TaskGraph}
    (added : addVertex tg type = some tg') :
    (∃ j < tg'.num, searchVertex tg' type = some j) ∧
      ∀ other j, searchVertex tg other = some j → searchVertex tg' other = some j := by
  rcases addVertex_cells added with ⟨rfl, j, found⟩ | ⟨absent, _, count, old, last⟩
  · exact ⟨⟨j, searchVertex_lt found, found⟩, fun _ _ before => before⟩
  · refine ⟨⟨tg.num, by omega, ?_⟩, ?_⟩
    · have none : (List.range tg.num).find? (fun i =>
          decide ((tg'.list i).s.kind = type.kind ∧ (tg'.list i).s.id = type.id)) = none := by
        apply List.find?_eq_none.mpr
        intro i member
        rw [old i (List.mem_range.mp member)]
        exact List.find?_eq_none.mp absent i member
      rw [searchVertex, count, List.range_succ, List.find?_append, none, Option.none_or,
        List.find?_singleton, last]
      simp
    · intro other j before
      exact searchVertex_mono (by omega) (fun i inside => by rw [old i inside]) before

/-- `add_vertex` keeps the edges inside. -/
theorem Closed.addVertex (closed : Closed tg) {type : SourceType} {tg' : TaskGraph}
    (added : addVertex tg type = some tg') :
    Closed tg' ∧ (∃ j < tg'.num, searchVertex tg' type = some j) ∧
      ∀ other j, searchVertex tg other = some j → searchVertex tg' other = some j := by
  obtain ⟨own, mono⟩ := addVertex_found added
  refine ⟨?_, own, mono⟩
  rcases addVertex_cells added with ⟨rfl, _⟩ | ⟨_, room, count, old, last⟩
  · exact closed
  · refine ⟨by omega, ?_⟩
    intro i inside v member
    by_cases here : i = tg.num
    · rw [here, last] at member
      cases member
    · have early : i < tg.num := by omega
      rw [old i early] at member
      obtain ⟨j, within, reaches⟩ := closed.target i early v member
      exact ⟨j, by omega, mono v j reaches⟩

/-- Rewriting a chain keeps the vertices. -/
theorem searchVertex_chain (i : Nat) (chain : List SourceType) (type : SourceType) :
    searchVertex { tg with list := Function.update tg.list i { tg.list i with next := chain } }
      type = searchVertex tg type := by
  unfold searchVertex
  apply List.find?_congr
  intro j _
  change decide ((Function.update tg.list i _ j).s.kind = _ ∧
    (Function.update tg.list i _ j).s.id = _) = _
  by_cases same : j = i
  · rw [same, Function.update_self]
  · rw [Function.update_of_ne same]

/-- Rewriting a chain with edges that stay inside. -/
theorem Closed.chain (closed : Closed tg) (i : Nat) {chain : List SourceType}
    (inside : ∀ v ∈ chain, ∃ j < tg.num, searchVertex tg v = some j) :
    Closed { tg with list := Function.update tg.list i { tg.list i with next := chain } } := by
  refine ⟨closed.fits, ?_⟩
  intro j below v member
  change v ∈ (Function.update tg.list i _ j).next at member
  rw [searchVertex_chain]
  by_cases same : j = i
  · rw [same, Function.update_self] at member
    exact inside v member
  · rw [Function.update_of_ne same] at member
    exact closed.target j below v member

/-- A call keeps the edges inside. -/
theorem Closed.call (closed : Closed tg) {call : GraphCall} {tg' : TaskGraph}
    (done : tg.call call = some tg') : Closed tg' := by
  cases call with
  | addVertex type => exact (closed.addVertex done).1
  | addEdge source target =>
    simp only [TaskGraph.call, addEdge, Option.bind_eq_some_iff, Option.map_eq_some_iff] at done
    obtain ⟨one, first, two, second, i, found, rfl⟩ := done
    obtain ⟨closedOne, _, _⟩ := closed.addVertex first
    obtain ⟨closedTwo, ⟨j, below, reaches⟩, _⟩ := closedOne.addVertex second
    apply closedTwo.chain i
    intro v member
    cases List.mem_append.mp member with
    | inl old => exact closedTwo.target i (searchVertex_lt found) v old
    | inr new =>
      rw [List.mem_singleton.mp new]
      exact ⟨j, below, reaches⟩
  | removeEdge source target =>
    rw [← Option.some.inj done, removeEdge]
    cases found : searchVertex tg source with
    | none => exact closed
    | some i =>
      cases searchVertex tg target with
      | none => exact closed
      | some j =>
        exact closed.chain i fun v member =>
          closed.target i (searchVertex_lt found) v (List.mem_of_mem_eraseP member)

/-- A graph that is built by calls keeps its edges inside. -/
theorem closed_built {list : Nat → Vertex} {locklist : Nat → LockEntry} {calls : List GraphCall}
    (built : calls.foldlM TaskGraph.call (startCheck list locklist) = some tg) : Closed tg := by
  have start : Closed (startCheck list locklist) :=
    ⟨Nat.zero_le _, fun i inside => absurd inside (Nat.not_lt_zero i)⟩
  generalize startCheck list locklist = before at built start
  induction calls generalizing before with
  | nil => rw [← Option.some.inj built]; exact start
  | cons call calls ih =>
    rw [List.foldlM_cons] at built
    obtain ⟨next, first, rest⟩ := Option.bind_eq_some_iff.mp built
    exact ih next rest (start.call first)

/-- The neighbours of a vertex are vertices. -/
theorem neighbours_lt {i j : Nat} (member : j ∈ neighbours tg i) : j < tg.num := by
  obtain ⟨v, _, found⟩ := List.mem_filterMap.mp member
  exact searchVertex_lt found

/-- The state of a search: the marks are those of `marked`, and `path` holds the stack. -/
structure At (tg : TaskGraph) (s : Search) (marked stack : List Nat) : Prop where
  /-- The marks. -/
  visited : ∀ i < tg.num, s.visited i = 1 ↔ i ∈ marked
  /-- The depth. -/
  k : s.k = stack.length
  /-- The way to the vertex. -/
  path : (List.range stack.length).map s.path = stack.reverse.map Int.ofNat
  /-- The marked vertices are vertices. -/
  known : ∀ i ∈ marked, i < tg.num
  /-- The stack is marked. -/
  below : stack ⊆ marked
  /-- The stack has no vertex twice. -/
  distinct : stack.Nodup

/-- The stack of a search leaves room for one more vertex. -/
theorem At.room {s : Search} {marked stack : List Nat} (state : At tg s marked stack) :
    stack.length ≤ tg.num := by
  have sub : stack ⊆ List.range tg.num := fun i member =>
    List.mem_range.mpr (state.known i (state.below member))
  simpa using (List.subperm_of_subset state.distinct sub).length_le

/-- Putting a vertex on the path. -/
theorem At.push {s : Search} {marked stack : List Nat} (closed : Closed tg)
    (state : At tg s marked stack) (idx : Nat) :
    ∃ pushed, s.push idx = some pushed ∧ pushed.visited = s.visited ∧
      pushed.k = stack.length + 1 ∧
      (List.range (stack.length + 1)).map pushed.path = (idx :: stack).reverse.map Int.ofNat ∧
      pushed.deadlock = s.deadlock ∧ pushed.printed = s.printed ∧
      pushed.peak = max s.peak (stack.length + 1) := by
  have bound := state.room
  have fits := closed.fits
  have k := state.k
  refine ⟨_, if_pos ⟨by omega, by omega⟩, rfl, by rw [k], ?_, rfl, rfl, by rw [k]⟩
  have place : s.k.toNat = stack.length := by omega
  rw [List.range_succ, List.map_append, List.reverse_cons, List.map_append, ← state.path]
  congr 1
  · apply List.map_congr_left
    intro i member
    have other : i ≠ s.k.toNat := by
      have inside := List.mem_range.mp member
      omega
    exact Function.update_of_ne other ..
  · rw [List.map_singleton, List.map_singleton]
    congr 1
    change Function.update s.path s.k.toNat (idx : Int) stack.length = _
    rw [place, Function.update_self]
    rfl

/-- What a search reports is printed. -/
def printOf (report : List Nat) : List Int := report.reverse.map Int.ofNat

/-- A chain whose vertices are all found begins with the first vertex that is found. -/
theorem chain_cons {chain : List SourceType} {vertex : Nat} {todo : List Nat}
    (inside : ∀ v ∈ chain, ∃ j < tg.num, searchVertex tg v = some j)
    (same : vertex :: todo = chain.filterMap (searchVertex tg)) :
    ∃ v rest, chain = v :: rest ∧ searchVertex tg v = some vertex ∧
      todo = rest.filterMap (searchVertex tg) := by
  cases chain with
  | nil => cases same
  | cons v rest =>
    obtain ⟨j, _, found⟩ := inside v List.mem_cons_self
    rw [List.filterMap_cons_some found] at same
    have both := List.cons.inj same
    exact ⟨v, rest, rfl, by rw [found, both.1], both.2⟩

/-- The loop over a chain in `DFS`. -/
def chainLoop (fuel : Nat) (tg : TaskGraph) (chain : List SourceType) (s : Search) :
    Option Search :=
  chain.foldlM (fun s v =>
    (DFS fuel tg s (searchVertex tg v)).map fun s => { s with k := s.k - 1 }) s

/-- What a search has done to the globals: the marks, the reports and the depth that was reached. -/
structure Searched (tg : TaskGraph) (s s' : Search) (after stack : List Nat)
    (reports : List (List Nat)) : Prop where
  /-- The marks, and the stack again. -/
  state : At tg s' after stack
  /-- The reports are printed. -/
  printed : s'.printed = s.printed ++ reports.map printOf
  /-- A report is a deadlock. -/
  deadlock : s'.deadlock = if reports = [] then s.deadlock else 1
  /-- The depth stays within the vertices. -/
  peak : s'.peak ≤ max s.peak (tg.num + 1)

/-- Leaving a vertex gives the path back. -/
theorem At.pop {s : Search} {marked stack : List Nat} {vertex : Nat}
    (state : At tg s marked (vertex :: stack)) : At tg { s with k := s.k - 1 } marked stack := by
  have path := state.path
  rw [List.length_cons, List.range_succ, List.map_append, List.reverse_cons, List.map_append]
    at path
  refine ⟨state.visited, ?_, (List.append_inj' path rfl).1, state.known,
    (List.cons_subset.mp state.below).2, (List.nodup_cons.mp state.distinct).2⟩
  change s.k - 1 = _
  rw [state.k, List.length_cons]
  omega

/-- A call of `DFS` for a marked vertex reports it. -/
theorem dfs_seen (closed : Closed tg) {s : Search} {marked stack : List Nat} {vertex : Nat}
    (state : At tg s marked stack) (old : vertex ∈ marked) :
    ∃ s', (∀ fuel, DFS (fuel + 1) tg s (some vertex) = some s') ∧
      Searched tg s { s' with k := s'.k - 1 } marked stack [vertex :: stack] := by
  obtain ⟨pushed, done, visited, k, path, _, printed, peak⟩ := state.push closed vertex
  have mark := (state.visited vertex (state.known vertex old)).mpr old
  refine ⟨{ printDeadlock pushed with deadlock := 1 }, fun fuel => ?_, ?_⟩
  · rw [DFS, if_pos mark, done]
    rfl
  · have room := state.room
    have count : pushed.k.toNat = stack.length + 1 := by omega
    have under := path
    rw [List.range_succ, List.map_append, List.reverse_cons, List.map_append] at under
    refine ⟨⟨?_, ?_, (List.append_inj' under rfl).1, state.known, state.below, state.distinct⟩,
      ?_, rfl, ?_⟩
    · intro i inside
      change pushed.visited i = 1 ↔ _
      rw [visited]
      exact state.visited i inside
    · change pushed.k - 1 = _
      omega
    · change pushed.printed ++ [(List.range pushed.k.toNat).map pushed.path] = _
      rw [printed, count, path]
      rfl
    · change pushed.peak ≤ _
      rw [peak]
      apply max_le_max le_rfl
      omega

/-- A call of `DFS` for another vertex marks it and goes on with its neighbours. -/
theorem dfs_fresh (closed : Closed tg) {s : Search} {marked stack : List Nat} {vertex : Nat}
    (state : At tg s marked stack) (new : vertex ∉ marked) (inside : vertex < tg.num) :
    ∃ s', (∀ fuel, DFS (fuel + 1) tg s (some vertex) =
        chainLoop fuel tg (tg.list vertex).next s') ∧
      At tg s' (vertex :: marked) (vertex :: stack) ∧ s'.printed = s.printed ∧
      s'.deadlock = s.deadlock ∧ s'.peak ≤ max s.peak (tg.num + 1) := by
  have mark : ¬ s.visited vertex = 1 := fun one => new ((state.visited vertex inside).mp one)
  let marking : Search := { s with visited := Function.update s.visited vertex 1 }
  have room := state.room
  have k := state.k
  have fits := closed.fits
  let pushed : Search := { marking with
    path := Function.update s.path s.k.toNat vertex
    k := s.k + 1
    peak := max s.peak (s.k + 1) }
  have done : marking.push vertex = some pushed :=
    if_pos ⟨by change 0 ≤ s.k; omega, by change s.k ≤ _; omega⟩
  refine ⟨pushed, fun fuel => ?_, ?_, rfl, rfl, ?_⟩
  · rw [DFS, if_neg mark]
    change (marking.push vertex).bind _ = _
    rw [done]
    rfl
  · refine ⟨?_, ?_, ?_, ?_, List.cons_subset_cons vertex state.below,
      List.nodup_cons.mpr ⟨fun member => new (state.below member), state.distinct⟩⟩
    · intro i within
      change Function.update s.visited vertex 1 i = 1 ↔ _
      by_cases same : i = vertex
      · rw [same, Function.update_self]
        exact ⟨fun _ => List.mem_cons_self, fun _ => rfl⟩
      · rw [Function.update_of_ne same, state.visited i within, List.mem_cons]
        exact ⟨Or.inr, fun either => either.resolve_left same⟩
    · change s.k + 1 = _
      rw [k, List.length_cons]
      rfl
    · obtain ⟨pushed, pushes, _, _, path, _⟩ := state.push closed vertex
      have same : s.push vertex = some { s with
          path := Function.update s.path s.k.toNat vertex
          k := s.k + 1
          peak := max s.peak (s.k + 1) } := if_pos ⟨by omega, by omega⟩
      rw [same] at pushes
      rw [← Option.some.inj pushes] at path
      exact path
    · intro i member
      cases List.mem_cons.mp member with
      | inl here => rw [here]; exact inside
      | inr before => exact state.known i before
  · change max s.peak (s.k + 1) ≤ _
    apply max_le_max le_rfl
    omega

/-- The loop of `DFS` over a chain is a depth-first search. -/
theorem explores_dfs (closed : Closed tg) {stack todo marked after : List Nat}
    {reports : List (List Nat)}
    (search : Explores (neighbours tg) stack todo marked after reports) :
    ∀ s chain, At tg s marked stack →
      (∀ v ∈ chain, ∃ j < tg.num, searchVertex tg v = some j) →
      todo = chain.filterMap (searchVertex tg) →
      ∃ s', Leaves (fun fuel => chainLoop fuel tg chain s) s' ∧
        Searched tg s s' after stack reports := by
  induction search with
  | nil =>
    intro s chain state inside same
    cases chain with
    | nil => exact ⟨s, Leaves.of_forall fun _ => rfl, state, by simp, rfl, le_max_left _ _⟩
    | cons v rest =>
      obtain ⟨j, _, found⟩ := inside v List.mem_cons_self
      rw [List.filterMap_cons_some found] at same
      cases same
  | @seen stack todo marked after vertex reports old _ ih =>
    intro s chain state inside same
    obtain ⟨v, rest, rfl, found, same'⟩ := chain_cons inside same
    obtain ⟨s', done, searched⟩ := dfs_seen closed state old
    obtain ⟨final, ⟨bound, loops⟩, further⟩ := ih _ rest searched.state
      (fun u member => inside u (List.mem_cons_of_mem _ member)) same'
    refine ⟨final, ⟨bound + 1, fun fuel enough => ?_⟩, further.state, ?_, ?_, ?_⟩
    · obtain ⟨less, rfl⟩ : ∃ less, fuel = less + 1 := ⟨fuel - 1, by omega⟩
      change chainLoop (less + 1) tg (v :: rest) s = some final
      rw [chainLoop, List.foldlM_cons, found, done]
      exact loops (less + 1) (by omega)
    · rw [further.printed, searched.printed, List.append_assoc]
      rfl
    · rw [further.deadlock, searched.deadlock]
      by_cases none : reports = [] <;> simp [none]
    · exact further.peak.trans (max_le searched.peak (le_max_right _ _))
  | @fresh stack todo marked middle after vertex below reports new inner _ innerIH restIH =>
    intro s chain state inside same
    obtain ⟨v, rest, rfl, found, same'⟩ := chain_cons inside same
    have within := searchVertex_lt found
    obtain ⟨started, calls, entered, printed, deadlock, peak⟩ :=
      dfs_fresh closed state new within
    obtain ⟨left, ⟨innerBound, leaves⟩, searched⟩ := innerIH started (tg.list vertex).next
      entered (closed.target vertex within) rfl
    obtain ⟨final, ⟨restBound, loops⟩, further⟩ := restIH _ rest searched.state.pop
      (fun u member => inside u (List.mem_cons_of_mem _ member)) same'
    refine ⟨final, ⟨max innerBound restBound + 1, fun fuel enough => ?_⟩, further.state, ?_, ?_,
      ?_⟩
    · obtain ⟨less, rfl⟩ : ∃ less, fuel = less + 1 := ⟨fuel - 1, by omega⟩
      have below : chainLoop less tg (tg.list vertex).next started = some left :=
        leaves less (by omega)
      change chainLoop (less + 1) tg (v :: rest) s = some final
      rw [chainLoop, List.foldlM_cons, found, calls, below]
      exact loops (less + 1) (by omega)
    · rw [further.printed]
      change left.printed ++ _ = _
      rw [searched.printed, printed, List.append_assoc, List.map_append]
    · rw [further.deadlock]
      change (if reports = [] then left.deadlock else 1) = _
      rw [searched.deadlock, deadlock]
      by_cases none : reports = []
      · by_cases quiet : below = [] <;> simp [none, quiet]
      · simp [none]
    · have lower : left.peak ≤ max s.peak (tg.num + 1) :=
        searched.peak.trans (max_le peak (le_max_right _ _))
      exact further.peak.trans (max_le lower (le_max_right _ _))

/-- The reports of the search from a vertex over one of its edges. -/
def Reports (tg : TaskGraph) (idx n : Nat) (reports : List (List Nat)) : Prop :=
  ∃ after, Explores (neighbours tg) [idx] [n] [idx] after reports

/-- The reports of the search from a vertex over some of its edges, in order. -/
inductive Scans (tg : TaskGraph) (idx : Nat) : List Nat → List (List Nat) → Prop
  | nil : Scans tg idx [] []
  | cons {n : Nat} {rest : List Nat} {reports others : List (List Nat)}
      (first : Reports tg idx n reports) (later : Scans tg idx rest others) :
      Scans tg idx (n :: rest) (reports ++ others)

/-- The search over every edge ends. -/
theorem exists_scans (tg : TaskGraph) (idx : Nat) (todo : List Nat)
    (inside : ∀ n ∈ todo, n < tg.num) : ∃ reports, Scans tg idx todo reports := by
  induction todo with
  | nil => exact ⟨[], .nil⟩
  | cons n rest ih =>
    obtain ⟨others, later⟩ := ih fun m member => inside m (List.mem_cons_of_mem _ member)
    obtain ⟨after, reports, first⟩ := @Explores.exists_of_closed Nat (neighbours tg) _
      (List.range tg.num)
      (fun v _ next follows => List.mem_range.mpr (neighbours_lt follows)) _ [idx] le_rfl [idx] [n]
      (fun m member => by
        rw [List.mem_singleton.mp member]
        exact List.mem_range.mpr (inside n List.mem_cons_self))
    exact ⟨reports ++ others, .cons ⟨after, first⟩ later⟩

/-- The state between two neighbours of `search_for_cycle`. -/
structure Rooted (s : Search) (idx : Nat) : Prop where
  /-- The vertex is marked. -/
  mark : s.visited idx = 1
  /-- The vertex is the first on the path. -/
  root : s.path 0 = idx

/-- What a search from a vertex has done. -/
structure Reported (tg : TaskGraph) (s s' : Search) (reports : List (List Nat)) : Prop where
  /-- The reports are printed. -/
  printed : s'.printed = s.printed ++ reports.map printOf
  /-- A report is a deadlock. -/
  deadlock : s'.deadlock = if reports = [] then s.deadlock else 1
  /-- The depth stays within the vertices. -/
  peak : s'.peak ≤ max s.peak (tg.num + 1)

/-- The search over one edge. -/
theorem searchNeighbour_spec (closed : Closed tg) {s : Search} {idx n : Nat} (inside : idx < tg.num)
    (rooted : Rooted s idx) {v : SourceType} (found : searchVertex tg v = some n)
    {reports : List (List Nat)} (search : Reports tg idx n reports) :
    ∃ s', Leaves (fun fuel => searchNeighbour fuel tg idx s v) s' ∧ Rooted s' idx ∧
      Reported tg s s' reports := by
  obtain ⟨after, explores⟩ := search
  let reset : Search := { s with
    visited := fun i => if i < tg.num ∧ i ≠ idx then 0 else s.visited i
    path := fun i => if 1 ≤ i ∧ i ≤ MAX then -1 else s.path i
    k := 1 }
  have state : At tg reset [idx] [idx] := by
    refine ⟨?_, rfl, ?_, ?_, List.Subset.refl _, List.nodup_singleton idx⟩
    · intro i below
      change (if i < tg.num ∧ i ≠ idx then 0 else s.visited i) = 1 ↔ _
      by_cases same : i = idx
      · rw [if_neg (fun both => both.2 same), same]
        exact ⟨fun _ => List.mem_singleton_self idx, fun _ => rooted.mark⟩
      · rw [if_pos ⟨below, same⟩, List.mem_singleton]
        exact ⟨fun zero => absurd zero (by decide), fun here => absurd here same⟩
    · change [s.path 0] = _
      rw [rooted.root]
      rfl
    · intro i member
      rw [List.mem_singleton.mp member]
      exact inside
  obtain ⟨s', ⟨bound, loops⟩, searched⟩ := explores_dfs closed explores reset [v] state
    (fun u member => by
      rw [List.mem_singleton.mp member]
      exact ⟨n, searchVertex_lt found, found⟩)
    (by rw [List.filterMap_cons_some found]; rfl)
  have single : ∀ fuel, bound ≤ fuel →
      (DFS fuel tg reset (some n)).map (fun s => { s with k := s.k - 1 }) = some s' := by
    intro fuel enough
    have loop := loops fuel enough
    simp only [chainLoop, List.foldlM_cons, List.foldlM_nil, found] at loop
    cases result : DFS fuel tg reset (some n) with
    | none => rw [result] at loop; cases loop
    | some final => rw [result] at loop; exact loop
  obtain ⟨final, same, popped⟩ := Option.map_eq_some_iff.mp (single bound le_rfl)
  refine ⟨{ s' with k := s'.k + 1 }, ⟨bound, fun fuel enough => ?_⟩, ⟨?_, ?_⟩,
    searched.printed, searched.deadlock, searched.peak⟩
  · obtain ⟨other, same', popped'⟩ := Option.map_eq_some_iff.mp (single fuel enough)
    change DFS fuel tg reset (searchVertex tg v) = _
    rw [found, same', ← popped']
    congr 1
    change other = { other with k := other.k - 1 + 1 }
    rw [Int.sub_add_cancel]
  · exact (searched.state.visited idx inside).mpr (explores.subset (List.mem_singleton_self idx))
  · have path := searched.state.path
    exact (List.cons.inj path).1

/-- `search_for_cycle` searches over every edge of the vertex. -/
theorem searchForCycle_spec (closed : Closed tg) (s : Search) {idx : Nat} (inside : idx < tg.num)
    {reports : List (List Nat)} (scans : Scans tg idx (neighbours tg idx) reports) :
    ∃ s', Leaves (fun fuel => searchForCycle fuel tg s idx) s' ∧ Reported tg s s' reports := by
  have loop : ∀ (chain : List SourceType) (todo : List Nat) (reports : List (List Nat))
      (s : Search), Scans tg idx todo reports → Rooted s idx →
      (∀ v ∈ chain, ∃ j < tg.num, searchVertex tg v = some j) →
      todo = chain.filterMap (searchVertex tg) →
      ∃ s', Leaves (fun fuel => chain.foldlM (searchNeighbour fuel tg idx) s) s' ∧
        Reported tg s s' reports := by
    intro chain
    induction chain with
    | nil =>
      intro todo reports s scans rooted _ same
      rw [same] at scans
      cases scans
      exact ⟨s, Leaves.of_forall fun _ => rfl, by simp, rfl, le_max_left _ _⟩
    | cons v rest ih =>
      intro todo reports s scans rooted known same
      obtain ⟨j, _, found⟩ := known v List.mem_cons_self
      rw [List.filterMap_cons_some found] at same
      rw [same] at scans
      cases scans with
      | @cons _ _ first others search later =>
        obtain ⟨middle, one, rooted', reported⟩ :=
          searchNeighbour_spec closed inside rooted found search
        obtain ⟨final, more, further⟩ := ih _ _ middle later rooted'
          (fun u member => known u (List.mem_cons_of_mem _ member)) rfl
        refine ⟨final, ?_, ?_, ?_, ?_⟩
        · simp only [List.foldlM_cons]
          exact one.bind more
        · rw [further.printed, reported.printed, List.append_assoc, List.map_append]
        · rw [further.deadlock, reported.deadlock]
          by_cases none : others = []
          · by_cases quiet : first = [] <;> simp [none, quiet]
          · simp [none]
        · exact further.peak.trans (max_le reported.peak (le_max_right _ _))
  have fits := closed.fits
  let pushed : Search := { s with
    visited := Function.update s.visited idx 1
    path := Function.update s.path 0 idx
    k := 1
    peak := max s.peak 1 }
  have starts : Search.push { s with visited := Function.update s.visited idx 1, k := 0 } idx =
      some pushed := if_pos ⟨le_rfl, by change (0 : Int) ≤ MAX; omega⟩
  have rooted : Rooted pushed idx :=
    ⟨Function.update_self .., Function.update_self 0 (idx : Int) s.path⟩
  obtain ⟨final, loops, reported⟩ := loop (tg.list idx).next _ reports pushed scans rooted
    (closed.target idx inside) rfl
  refine ⟨final, ?_, reported.printed, reported.deadlock, ?_⟩
  · simp only [searchForCycle, starts, Option.bind_some]
    exact loops
  · apply reported.peak.trans
    apply max_le (max_le_max le_rfl _) (le_max_right _ _)
    omega

end BackendCpp.Deadlock
