import BackendCpp.Deadlock.Detector

/-!
# Reported and real deadlocks

`check_dead_lock` finds a deadlock in every graph with a directed cycle: what is marked without a
report is closed under following. It also reports whenever it comes to a vertex that was left
before, so it reports nothing but returns exactly if, up to the first vertex from which something is
reported, no vertex is reached over one edge in two ways.
-/

namespace BackendCpp.Deadlock

open BackendCpp.Library

variable {tg : TaskGraph}

/-- The reports of `check_dead_lock` for some vertices in order; it stops after the first vertex
with a report. -/
inductive Checks (tg : TaskGraph) : List Nat → List (List Nat) → Prop
  | nil : Checks tg [] []
  | stop {idx : Nat} {rest : List Nat} {reports : List (List Nat)}
      (scans : Scans tg idx (neighbours tg idx) reports) (found : reports ≠ []) :
      Checks tg (idx :: rest) reports
  | next {idx : Nat} {rest : List Nat} {reports : List (List Nat)}
      (scans : Scans tg idx (neighbours tg idx) []) (later : Checks tg rest reports) :
      Checks tg (idx :: rest) reports

/-- The checks of some vertices end. -/
theorem exists_checks (tg : TaskGraph) (roots : List Nat) :
    ∃ reports, Checks tg roots reports := by
  induction roots with
  | nil => exact ⟨[], .nil⟩
  | cons idx rest ih =>
    obtain ⟨reports, scans⟩ := exists_scans tg idx (neighbours tg idx) fun _ => neighbours_lt
    by_cases silent : reports = []
    · rw [silent] at scans
      obtain ⟨others, later⟩ := ih
      exact ⟨others, .next scans later⟩
    · exact ⟨reports, .stop scans silent⟩

/-- A pass of the loop of `check_dead_lock`. -/
def checkVertex (fuel : Nat) (tg : TaskGraph) (s : Search) (i : Nat) : Option Search :=
  if s.deadlock = 1 then some s else searchForCycle fuel tg s i

/-- Once there is a deadlock the loop does nothing. -/
theorem checkVertex_found (fuel : Nat) {s : Search} (found : s.deadlock = 1) (roots : List Nat) :
    roots.foldlM (checkVertex fuel tg) s = some s := by
  induction roots with
  | nil => rfl
  | cons idx rest ih =>
    rw [List.foldlM_cons, checkVertex, if_pos found]
    exact ih

/-- The loop of `check_dead_lock`. -/
theorem checkVertex_spec (closed : Closed tg) {roots : List Nat} {reports : List (List Nat)}
    (checks : Checks tg roots reports) (inside : ∀ idx ∈ roots, idx < tg.num) (s : Search)
    (clear : s.deadlock = 0) :
    ∃ s', Leaves (fun fuel => roots.foldlM (checkVertex fuel tg) s) s' ∧
      Reported tg s s' reports := by
  have open' : ¬ s.deadlock = 1 := by omega
  induction checks generalizing s with
  | nil => exact ⟨s, Leaves.of_forall fun _ => rfl, by simp, rfl, le_max_left _ _⟩
  | @stop idx rest reports scans found =>
    obtain ⟨s', search, reported⟩ :=
      searchForCycle_spec closed s (inside idx List.mem_cons_self) scans
    have stopped : s'.deadlock = 1 := by rw [reported.deadlock, if_neg found]
    refine ⟨s', ?_, reported⟩
    simp only [List.foldlM_cons, checkVertex, if_neg open']
    exact search.bind (Leaves.of_forall fun fuel => checkVertex_found fuel stopped rest)
  | @next idx rest reports scans _ ih =>
    obtain ⟨s', search, reported⟩ :=
      searchForCycle_spec closed s (inside idx List.mem_cons_self) scans
    have still : s'.deadlock = 0 := by rw [reported.deadlock, if_pos rfl, clear]
    obtain ⟨final, loops, further⟩ := ih
      (fun i member => inside i (List.mem_cons_of_mem _ member)) s' still (by omega)
    refine ⟨final, ?_, ?_, ?_, ?_⟩
    · simp only [List.foldlM_cons]
      refine Leaves.bind ?_ loops
      simp only [checkVertex, if_neg open']
      exact search
    · rw [further.printed, reported.printed, List.map_nil, List.append_nil]
    · rw [further.deadlock, still, clear]
    · exact further.peak.trans (max_le reported.peak (le_max_right _ _))

/-- `check_dead_lock` ends, and prints the reports of the vertices in order. -/
theorem checkDeadLock_spec (closed : Closed tg) (s : Search) {reports : List (List Nat)}
    (checks : Checks tg (List.range tg.num) reports) :
    ∃ s', Leaves (fun fuel => checkDeadLock fuel tg s) s' ∧
      Reported tg { s with deadlock := 0 } s' reports :=
  checkVertex_spec closed checks (fun _ => List.mem_range.mp) { s with deadlock := 0 } rfl

/-- Without reports no way from a vertex comes back to it. -/
theorem not_returning {idx : Nat} (silent : Scans tg idx (neighbours tg idx) []) :
    ¬ Relation.TransGen (Follows tg) idx idx := by
  have away : ∀ todo reports, Scans tg idx todo reports → reports = [] → ∀ n ∈ todo,
      Reports tg idx n [] := by
    intro todo reports scans
    induction scans with
    | nil => intro _ n member; cases member
    | cons first _ ih =>
      intro none n member
      obtain ⟨here, later⟩ := List.append_eq_nil_iff.mp none
      cases List.mem_cons.mp member with
      | inl same => rw [same, ← here]; exact first
      | inr further => exact ih later n further
  intro cycle
  obtain ⟨n, ⟨_, first⟩, ways⟩ := Relation.TransGen.head'_iff.mp cycle
  obtain ⟨after, search⟩ := away _ _ silent rfl n first
  obtain ⟨start, onward⟩ := search.closed_of_silent rfl
  have kept : ∀ v, Relation.ReflTransGen (Follows tg) n v → v ∈ after ∧ v ∉ [idx] := by
    intro v reached
    induction reached with
    | refl => exact start n List.mem_cons_self
    | tail _ step ih => exact onward _ ih.1 ih.2 _ step.2
  exact (kept idx ways).2 (List.mem_singleton_self idx)

/-- In a graph with a cycle something is reported. -/
theorem reports_of_cyclic {reports : List (List Nat)}
    (checks : Checks tg (List.range tg.num) reports) (cyclic : Cyclic tg) : reports ≠ [] := by
  obtain ⟨i, cycle⟩ := cyclic
  have silentAt : ∀ roots reports, Checks tg roots reports → reports = [] → ∀ idx ∈ roots,
      Scans tg idx (neighbours tg idx) [] := by
    intro roots reports checks
    induction checks with
    | nil => intro _ idx member; cases member
    | stop _ found => exact fun none => absurd none found
    | next scans _ ih =>
      intro none idx member
      cases List.mem_cons.mp member with
      | inl same => rw [same]; exact scans
      | inr further => exact ih none idx further
  intro none
  obtain ⟨_, first, _⟩ := Relation.TransGen.head'_iff.mp cycle
  exact not_returning (silentAt _ _ checks none i (List.mem_range.mpr first.1)) cycle

/-- `check_dead_lock` ends and finds a deadlock in every graph with a cycle, for any contents of
`visited`, `path` and `k`; `k` stays within `num + 1`. -/
theorem checkDeadLock_complete {list : Nat → Vertex} {locklist : Nat → LockEntry}
    {calls : List GraphCall}
    (built : calls.foldlM TaskGraph.call (startCheck list locklist) = some tg) (s : Search) :
    ∃ s', Leaves (fun fuel => checkDeadLock fuel tg { s with peak := 0 }) s' ∧
      (Cyclic tg → s'.deadlock = 1) ∧ s'.peak ≤ tg.num + 1 := by
  obtain ⟨reports, checks⟩ := exists_checks tg (List.range tg.num)
  obtain ⟨s', leaves, reported⟩ :=
    checkDeadLock_spec (closed_built built) { s with peak := 0 } checks
  refine ⟨s', leaves, fun cyclic => ?_, ?_⟩
  · rw [reported.deadlock, if_neg (reports_of_cyclic checks cyclic)]
  · apply reported.peak.trans
    exact max_le (by change (0 : Int) ≤ _; omega) le_rfl

/-- The graph that calls build on memory that is zero. -/
def graphOf (calls : List GraphCall) : TaskGraph :=
  (calls.foldlM TaskGraph.call TaskGraph.zero).getD TaskGraph.zero

/-- Calls that succeed build their graph. -/
theorem built_graphOf {calls : List GraphCall}
    (succeeds : (calls.foldlM TaskGraph.call TaskGraph.zero).isSome) :
    calls.foldlM TaskGraph.call (startCheck TaskGraph.zero.list TaskGraph.zero.locklist) =
      some (graphOf calls) := by
  obtain ⟨tg, built⟩ := Option.isSome_iff_exists.mp succeeds
  rw [graphOf, built]
  exact built

/-- Two threads that wait for each other. -/
def mutualWait : List GraphCall :=
  [.addEdge ⟨1, .process⟩ ⟨2, .process⟩, .addEdge ⟨2, .process⟩ ⟨1, .process⟩]

/-- The deadlock of two threads is found, whatever the marks and the path were. -/
theorem checkDeadLock_complete_pair : ∃ s' : Search,
    Leaves (fun fuel => checkDeadLock fuel (graphOf mutualWait)
      ⟨fun _ => 1, fun _ => 7, -3, 0, [], 0⟩) s' ∧ s'.deadlock = 1 ∧ s'.peak ≤ 3 := by
  have cyclic : Cyclic (graphOf mutualWait) :=
    ⟨0, .head (b := 1) ⟨by decide, by decide⟩ (.single ⟨by decide, by decide⟩)⟩
  obtain ⟨s', leaves, found, peak⟩ := checkDeadLock_complete
    (@built_graphOf mutualWait (by decide)) ⟨fun _ => 1, fun _ => 7, -3, 0, [], 0⟩
  exact ⟨s', leaves, found cyclic, peak⟩

/-- A path that is printed is a walk whose last vertex occurs earlier on it. -/
def CycleWalk (tg : TaskGraph) (path : List Int) : Prop :=
  ∃ (walk : List Nat) (last : Nat), path = (walk ++ [last]).map Int.ofNat ∧
    (walk ++ [last]).IsChain (Follows tg) ∧ last ∈ walk

/-- The deadlock that `check_dead_lock` reports is one, and so is every path that it prints. -/
def SoundReport (tg : TaskGraph) (s : Search) : Prop :=
  (s.deadlock = 1 → Cyclic tg) ∧ ∀ path ∈ s.printed, CycleWalk tg path

/-- Over the edge to `n` each vertex is reached from `idx` in at most one way. -/
def SingleWays (tg : TaskGraph) (idx n : Nat) : Prop :=
  (routeEnds (neighbours tg) tg.num [idx] n).Nodup

/-- No way from `idx` over the edge to `n` comes back to a vertex that is on it. -/
def NoReturn (tg : TaskGraph) (idx n : Nat) : Prop :=
  returns (neighbours tg) tg.num [idx] n = []

/-- Up to the first vertex from which something is reported, over each edge each vertex is reached
in at most one way. -/
def TreeLike (tg : TaskGraph) : Prop :=
  ∀ idx < tg.num,
    (∀ earlier < idx, ∀ n ∈ neighbours tg earlier, SingleWays tg earlier n ∧ NoReturn tg earlier n) →
    ∀ n ∈ neighbours tg idx, SingleWays tg idx n

/-- A walk with its last vertex on it goes round a cycle. -/
theorem CycleWalk.cyclic {path : List Int} (walk : CycleWalk tg path) : Cyclic tg := by
  obtain ⟨walk, last, _, chain, member⟩ := walk
  have further : (walk ++ [last]).IsChain (Relation.TransGen (Follows tg)) :=
    chain.imp fun _ _ => Relation.TransGen.single
  have apart := List.pairwise_append.mp (List.isChain_iff_pairwise.mp further)
  exact ⟨last, apart.2.2 last member last (List.mem_singleton_self last)⟩

/-- A report is printed as a walk that comes back to itself exactly if it returns. -/
theorem cycleWalk_iff {idx n : Nat} (inside : idx < tg.num) (edge : n ∈ neighbours tg idx)
    {reports : List (List Nat)} (search : Reports tg idx n reports) {report : List Nat}
    (member : report ∈ reports) : CycleWalk tg (printOf report) ↔ Closing report := by
  obtain ⟨after, search⟩ := search
  have chain := search.reports_chain
    (fun v here => by
      rw [List.mem_singleton.mp here]
      exact List.isChain_cons_cons.mpr ⟨edge, List.isChain_singleton idx⟩) report member
  have known := @Explores.reports_forall _ _ _ _ _ _ _ (· < tg.num)
    (fun _ _ _ => neighbours_lt) search (by simpa using inside)
    (by simpa using neighbours_lt edge) report member
  constructor
  · rintro ⟨walk, last, same, _, back⟩
    have injective : Function.Injective Int.ofNat := fun _ _ => Int.ofNat.inj
    have reversed : report.reverse = walk ++ [last] := List.map_injective_iff.mpr injective same
    refine ⟨last, walk.reverse, ?_, List.mem_reverse.mpr back⟩
    rw [← List.reverse_reverse report, reversed, List.reverse_append]
    rfl
  · rintro ⟨last, stack, rfl, back⟩
    refine ⟨stack.reverse, last, by rw [printOf, List.reverse_cons], ?_,
      List.mem_reverse.mpr back⟩
    rw [← List.reverse_cons, List.isChain_reverse]
    exact chain.imp_of_mem_imp fun v u _ below follows => ⟨known u below, follows⟩

/-- The search over an edge reports nothing but returns exactly if it comes to each vertex in one
way, and reports nothing exactly if no way comes back either. -/
theorem Reports.closing_iff {idx n : Nat} (inside : idx < tg.num)
    (edge : n ∈ neighbours tg idx) {reports : List (List Nat)} (search : Reports tg idx n reports) :
    ((∀ report ∈ reports, Closing report) ↔ SingleWays tg idx n) ∧
      (reports = [] ↔ SingleWays tg idx n ∧ NoReturn tg idx n) := by
  obtain ⟨after, search⟩ := search
  obtain ⟨closing, described⟩ := @Explores.closing_iff Nat _ _ (List.range tg.num) _ _ _ _ _
    (fun v _ next follows => List.mem_range.mpr (neighbours_lt follows)) search
    (fun m member => by
      rw [List.mem_singleton.mp member]
      exact List.mem_range.mpr (neighbours_lt edge))
    (List.Subset.refl _) (List.nodup_singleton idx)
    (List.cons_subset.mpr ⟨List.mem_range.mpr inside, List.nil_subset _⟩) tg.num
    (by rw [List.length_range, List.length_singleton]; omega)
  rw [List.flatMap_singleton] at closing described
  have equivalent : (∀ report ∈ reports, Closing report) ↔ SingleWays tg idx n := by
    rw [closing]
    exact ⟨fun both => both.1, fun single => ⟨single, fun _ => not_mem_of_mem_routeEnds⟩⟩
  refine ⟨equivalent, fun none => ?_, fun both => ?_⟩
  · have all : ∀ report ∈ reports, Closing report := by
      rw [none]
      intro report member
      cases member
    refine ⟨equivalent.mp all, ?_⟩
    have same := (described all).2
    rw [List.flatMap_singleton] at same
    rw [NoReturn, ← same, none]
  · rw [(described (equivalent.mpr both.1)).2, List.flatMap_singleton]
    exact both.2

/-- The search over some edges. -/
theorem Scans.closing_iff {idx : Nat} (inside : idx < tg.num) {todo : List Nat}
    {reports : List (List Nat)} (scans : Scans tg idx todo reports)
    (edges : ∀ n ∈ todo, n ∈ neighbours tg idx) :
    ((∀ report ∈ reports, Closing report) ↔ ∀ n ∈ todo, SingleWays tg idx n) ∧
      (reports = [] ↔ ∀ n ∈ todo, SingleWays tg idx n ∧ NoReturn tg idx n) := by
  induction scans with
  | nil => simp
  | cons first _ ih =>
    obtain ⟨closing, silent⟩ := first.closing_iff inside (edges _ List.mem_cons_self)
    obtain ⟨others, quiet⟩ := ih fun m member => edges m (List.mem_cons_of_mem _ member)
    rw [List.forall_mem_append, List.forall_mem_cons, List.append_eq_nil_iff,
      List.forall_mem_cons, closing, silent, others, quiet]
    exact ⟨Iff.rfl, Iff.rfl⟩

/-- A report of `check_dead_lock` is one of a search over an edge. -/
theorem Checks.report_mem {roots : List Nat} {reports : List (List Nat)}
    (checks : Checks tg roots reports) (inside : ∀ idx ∈ roots, idx < tg.num) {report : List Nat}
    (member : report ∈ reports) : CycleWalk tg (printOf report) ↔ Closing report := by
  have scanned : ∀ idx todo reports, Scans tg idx todo reports → idx < tg.num →
      (∀ n ∈ todo, n ∈ neighbours tg idx) → report ∈ reports →
      (CycleWalk tg (printOf report) ↔ Closing report) := by
    intro idx todo reports scans below edges member
    induction scans with
    | nil => cases member
    | cons first _ ih =>
      cases List.mem_append.mp member with
      | inl here => exact cycleWalk_iff below (edges _ List.mem_cons_self) first here
      | inr later => exact ih (fun m known => edges m (List.mem_cons_of_mem _ known)) later
  induction checks with
  | nil => cases member
  | stop scans _ => exact scanned _ _ _ scans (inside _ List.mem_cons_self) (fun _ => id) member
  | next _ _ ih => exact ih (fun i known => inside i (List.mem_cons_of_mem _ known)) member

/-- `check_dead_lock` reports nothing but returns exactly if, at each vertex after silent ones, each
vertex is reached in one way. -/
theorem Checks.closing_iff {roots : List Nat} {reports : List (List Nat)}
    (checks : Checks tg roots reports) (inside : ∀ idx ∈ roots, idx < tg.num) :
    (∀ report ∈ reports, Closing report) ↔
      ∀ before idx behind, roots = before ++ idx :: behind →
        (∀ earlier ∈ before, ∀ n ∈ neighbours tg earlier,
          SingleWays tg earlier n ∧ NoReturn tg earlier n) →
        ∀ n ∈ neighbours tg idx, SingleWays tg idx n := by
  induction checks with
  | nil => simp
  | @stop idx rest reports scans found =>
    obtain ⟨closing, silent⟩ := scans.closing_iff (inside idx List.mem_cons_self) fun _ => id
    rw [closing]
    constructor
    · intro single before other behind same quiet
      cases before with
      | nil => rw [← (List.cons.inj same).1]; exact single
      | cons first before =>
        rw [← (List.cons.inj same).1] at quiet
        exact absurd (silent.mpr (quiet idx List.mem_cons_self)) found
    · intro each
      exact each [] idx rest rfl (by simp)
  | @next idx rest reports scans _ ih =>
    obtain ⟨closing, silent⟩ := scans.closing_iff (inside idx List.mem_cons_self) fun _ => id
    have quietHere := silent.mp rfl
    rw [ih fun i known => inside i (List.mem_cons_of_mem _ known)]
    constructor
    · intro each before other behind same quiet
      cases before with
      | nil =>
        rw [← (List.cons.inj same).1]
        exact fun n edge => (quietHere n edge).1
      | cons first before =>
        exact each before other behind (List.cons.inj same).2 fun earlier known =>
          quiet earlier (List.mem_cons_of_mem _ known)
    · intro each before other behind same quiet
      apply each (idx :: before) other behind (by rw [same]; rfl)
      intro earlier known
      cases List.mem_cons.mp known with
      | inl here => rw [here]; exact quietHere
      | inr later => exact quiet earlier later

/-- What `check_dead_lock` reports is sound exactly if the graph is tree-like up to the first vertex
from which something is reported. -/
theorem soundReport_iff {list : Nat → Vertex} {locklist : Nat → LockEntry} {calls : List GraphCall}
    (built : calls.foldlM TaskGraph.call (startCheck list locklist) = some tg) (s : Search) :
    ∃ s', Leaves (fun fuel => checkDeadLock fuel tg { s with printed := [] }) s' ∧
      (SoundReport tg s' ↔ TreeLike tg) := by
  obtain ⟨reports, checks⟩ := exists_checks tg (List.range tg.num)
  obtain ⟨s', leaves, reported⟩ :=
    checkDeadLock_spec (closed_built built) { s with printed := [] } checks
  have inside : ∀ idx ∈ List.range tg.num, idx < tg.num := fun _ => List.mem_range.mp
  have printed : s'.printed = reports.map printOf := reported.printed
  have walks : (∀ path ∈ s'.printed, CycleWalk tg path) ↔ ∀ report ∈ reports, Closing report := by
    rw [printed, List.forall_mem_map]
    exact forall₂_congr fun report member => checks.report_mem inside member
  have sound : SoundReport tg s' ↔ ∀ path ∈ s'.printed, CycleWalk tg path := by
    refine ⟨fun both => both.2, fun paths => ⟨fun found => ?_, paths⟩⟩
    by_cases silent : reports = []
    · rw [reported.deadlock, if_pos silent] at found
      exact absurd (show (0 : Int) = 1 from found) (by decide)
    · obtain ⟨report, member⟩ := List.exists_mem_of_ne_nil reports silent
      exact (paths (printOf report) (by rw [printed]; exact List.mem_map_of_mem member)).cyclic
  refine ⟨s', leaves, ?_⟩
  rw [sound, walks, checks.closing_iff inside]
  constructor
  · intro each idx below quiet
    apply each (List.range idx) idx ((List.range' (idx + 1) (tg.num - idx - 1)))
    · obtain ⟨more, count⟩ := Nat.exists_eq_add_of_lt below
      have rest : tg.num - idx - 1 = more := by omega
      rw [rest, ← List.range'_succ, List.range_eq_range', List.range_eq_range', count]
      simpa [Nat.add_assoc] using (List.range'_append_1 (s := 0) (m := idx) (n := more + 1)).symm
    · exact fun earlier known => quiet earlier (List.mem_range.mp known)
  · intro each before idx behind same quiet
    have long : tg.num = before.length + 1 + behind.length := by
      have count := congrArg List.length same
      rw [List.length_range, List.length_append, List.length_cons] at count
      omega
    have place : ∀ j (bound : j < tg.num), (before ++ idx :: behind)[j]? = some j := by
      intro j bound
      rw [← same, List.getElem?_range bound]
    have here : idx = before.length := by
      have at' := place before.length (by omega)
      rw [List.getElem?_append_right le_rfl, Nat.sub_self] at at'
      exact Option.some.inj at'
    apply each idx (by omega)
    intro earlier less
    have at' := place earlier (by omega)
    rw [List.getElem?_append_left (by omega)] at at'
    exact quiet earlier (List.mem_of_getElem? at')

/-- The deadlock of two threads is reported as one. -/
theorem soundReport_iff_pair : ∃ s', Leaves (fun fuel => checkDeadLock fuel (graphOf mutualWait)
      ⟨fun _ => 0, fun _ => 0, 0, 0, [], 0⟩) s' ∧ SoundReport (graphOf mutualWait) s' := by
  obtain ⟨s', leaves, sound⟩ := soundReport_iff (@built_graphOf mutualWait (by decide))
    ⟨fun _ => 0, fun _ => 0, 0, 0, [], 0⟩
  have single : ∀ idx < (graphOf mutualWait).num, ∀ n ∈ neighbours (graphOf mutualWait) idx,
      (routeEnds (neighbours (graphOf mutualWait)) (graphOf mutualWait).num [idx] n).Nodup := by
    decide
  exact ⟨s', leaves, sound.mpr fun idx below _ => single idx below⟩

/-- One thread waits for two that wait for the same one. -/
def diamond : List GraphCall :=
  [.addEdge ⟨1, .process⟩ ⟨2, .process⟩, .addEdge ⟨2, .process⟩ ⟨3, .process⟩,
    .addEdge ⟨2, .process⟩ ⟨4, .process⟩, .addEdge ⟨3, .process⟩ ⟨5, .process⟩,
    .addEdge ⟨4, .process⟩ ⟨5, .process⟩]

/-- In a diamond a deadlock is reported, and there is no cycle. -/
theorem diamond_reported :
    diamond.foldlM TaskGraph.call (startCheck TaskGraph.zero.list TaskGraph.zero.locklist) =
      some (graphOf diamond) ∧
    (∃ s', checkDeadLock 9 (graphOf diamond) ⟨fun _ => 0, fun _ => 0, 0, 0, [], 0⟩ = some s' ∧
      s'.deadlock = 1) ∧ ¬ Cyclic (graphOf diamond) := by
  refine ⟨built_graphOf (by decide), ?_, ?_⟩
  · have found : (checkDeadLock 9 (graphOf diamond) ⟨fun _ => 0, fun _ => 0, 0, 0, [], 0⟩).map
        Search.deadlock = some 1 := by decide
    exact Option.map_eq_some_iff.mp found
  · have forward : ∀ i < (graphOf diamond).num, ∀ j ∈ neighbours (graphOf diamond) i, i < j := by
      decide
    rintro ⟨i, cycle⟩
    have less : ∀ j, Relation.TransGen (Follows (graphOf diamond)) i j → i < j := by
      intro j ways
      induction ways with
      | single step => exact forward _ step.1 _ step.2
      | tail _ step ih => exact ih.trans (forward _ step.1 _ step.2)
    exact Nat.lt_irrefl i (less i cycle)

end BackendCpp.Deadlock
