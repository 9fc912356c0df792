import Mathlib.Tactic

/-!
# Depth-first search with marks

A search goes through the vertices to be explored one after the other. A vertex that is marked is
reported together with the stack of vertices that led to it; another one is marked, and what follows
it is explored first, with the vertex on the stack. The search reports whenever a vertex is marked,
whether it is on the stack or was left before. The routes of a graph are the ways to go on from a
stack without coming back to it.
-/

namespace BackendCpp.Library

variable {V : Type*} {succ : V → List V}

/-- Exploring `todo` from a stack with some vertices marked; the marks afterwards and the reports,
each a stack with the marked vertex on top. -/
inductive Explores (succ : V → List V) :
    List V → List V → List V → List V → List (List V) → Prop
  | nil {stack marked : List V} : Explores succ stack [] marked marked []
  | seen {stack todo marked after : List V} {vertex : V} {reports : List (List V)}
      (old : vertex ∈ marked) (rest : Explores succ stack todo marked after reports) :
      Explores succ stack (vertex :: todo) marked after ((vertex :: stack) :: reports)
  | fresh {stack todo marked middle after : List V} {vertex : V} {below reports : List (List V)}
      (new : vertex ∉ marked)
      (inner : Explores succ (vertex :: stack) (succ vertex) (vertex :: marked) middle below)
      (rest : Explores succ stack todo middle after reports) :
      Explores succ stack (vertex :: todo) marked after (below ++ reports)

namespace Explores

variable {stack todo marked after : List V} {reports : List (List V)}

/-- Marks stay. -/
theorem subset (search : Explores succ stack todo marked after reports) : marked ⊆ after := by
  induction search with
  | nil => exact List.Subset.refl _
  | seen _ _ ih => exact ih
  | fresh _ _ _ inner rest =>
    exact fun vertex member => rest (inner (List.mem_cons_of_mem _ member))

/-- A search ends: every step down marks a vertex. -/
theorem exists_of_closed [DecidableEq V] {vertices : List V}
    (closed : ∀ vertex ∈ vertices, ∀ next ∈ succ vertex, next ∈ vertices) :
    ∀ size marked, (vertices.filter (· ∉ marked)).length ≤ size → ∀ stack todo,
      (∀ vertex ∈ todo, vertex ∈ vertices) →
      ∃ after reports, Explores succ stack todo marked after reports := by
  intro size
  induction size with
  | zero =>
    intro marked few stack todo inside
    have full : ∀ vertex ∈ vertices, vertex ∈ marked := by
      intro vertex member
      by_contra absent
      have kept : vertex ∈ vertices.filter (· ∉ marked) :=
        List.mem_filter.mpr ⟨member, decide_eq_true absent⟩
      rw [List.length_eq_zero_iff.mp (Nat.le_zero.mp few)] at kept
      cases kept
    induction todo with
    | nil => exact ⟨marked, [], .nil⟩
    | cons vertex todo ih =>
      obtain ⟨after, reports, rest⟩ := ih fun v member => inside v (List.mem_cons_of_mem _ member)
      exact ⟨after, _, .seen (full vertex (inside vertex List.mem_cons_self)) rest⟩
  | succ size smaller =>
    intro marked few stack todo inside
    induction todo generalizing marked with
    | nil => exact ⟨marked, [], .nil⟩
    | cons vertex todo ih =>
      have later : ∀ v ∈ todo, v ∈ vertices := fun v member =>
        inside v (List.mem_cons_of_mem _ member)
      have own := inside vertex List.mem_cons_self
      by_cases old : vertex ∈ marked
      · obtain ⟨after, reports, rest⟩ := ih marked few later
        exact ⟨after, _, .seen old rest⟩
      · have fewer : (vertices.filter (· ∉ vertex :: marked)).length ≤ size := by
          have strict : (vertices.filter (· ∉ vertex :: marked)).length <
              (vertices.filter (· ∉ marked)).length := by
            have sub : (vertices.filter (· ∉ vertex :: marked)) =
                (vertices.filter (· ∉ marked)).filter (· ≠ vertex) := by
              rw [List.filter_filter]
              congr 1
              funext v
              simp [not_or]
            rw [sub]
            apply List.length_filter_lt_length_iff_exists.mpr
            exact ⟨vertex, List.mem_filter.mpr ⟨own, decide_eq_true old⟩, by simp⟩
          omega
        obtain ⟨middle, below, inner⟩ := smaller (vertex :: marked) fewer (vertex :: stack)
          (succ vertex) (closed vertex own)
        have still : (vertices.filter (· ∉ middle)).length ≤ size + 1 := by
          have sub : (vertices.filter (· ∉ middle)).Sublist (vertices.filter (· ∉ marked)) := by
            apply List.monotone_filter_right
            intro v absent
            have missing := of_decide_eq_true absent
            exact decide_eq_true fun member =>
              missing (inner.subset (List.mem_cons_of_mem _ member))
          exact sub.length_le.trans few
        obtain ⟨after, reports, rest⟩ := ih middle still later
        exact ⟨after, _, .fresh old inner rest⟩

/-- When nothing is reported, the vertices marked by the search are closed under following, and
none of them was marked before. -/
theorem closed_of_silent (search : Explores succ stack todo marked after reports)
    (silent : reports = []) :
    (∀ vertex ∈ todo, vertex ∈ after ∧ vertex ∉ marked) ∧
      ∀ vertex ∈ after, vertex ∉ marked →
        ∀ next ∈ succ vertex, next ∈ after ∧ next ∉ marked := by
  induction search with
  | nil => exact ⟨by simp, fun vertex member absent => absurd member absent⟩
  | seen _ _ _ => cases silent
  | @fresh stack todo marked middle after vertex below reports new inner rest innerIH restIH =>
    obtain ⟨noneBelow, noneLater⟩ := List.append_eq_nil_iff.mp silent
    obtain ⟨children, downward⟩ := innerIH noneBelow
    obtain ⟨others, onward⟩ := restIH noneLater
    have up := rest.subset
    have first := inner.subset
    have outside : ∀ v, v ∉ vertex :: marked → v ∉ marked := fun v absent member =>
      absent (List.mem_cons_of_mem _ member)
    constructor
    · intro v member
      cases List.mem_cons.mp member with
      | inl same => rw [same]; exact ⟨up (first List.mem_cons_self), new⟩
      | inr later =>
        have placed := others v later
        exact ⟨placed.1, fun old => placed.2 (first (List.mem_cons_of_mem _ old))⟩
    · intro v member absent next follows
      by_cases early : v ∈ middle
      · by_cases same : v = vertex
        · rw [same] at follows
          have placed := children next follows
          exact ⟨up placed.1, outside next placed.2⟩
        · have fresh : v ∉ vertex :: marked := by
            intro old
            cases List.mem_cons.mp old with
            | inl here => exact same here
            | inr before => exact absent before
          have placed := downward v early fresh next follows
          exact ⟨up placed.1, outside next placed.2⟩
      · have placed := onward v member early next follows
        exact ⟨placed.1, fun old => placed.2 (first (List.mem_cons_of_mem _ old))⟩

/-- Reports are chains of followers from the stack on. -/
theorem reports_chain (search : Explores succ stack todo marked after reports)
    (chain : ∀ vertex ∈ todo, List.IsChain (fun v u => v ∈ succ u) (vertex :: stack)) :
    ∀ report ∈ reports, List.IsChain (fun v u => v ∈ succ u) report := by
  induction search with
  | nil => simp
  | seen _ _ ih =>
    intro report member
    cases List.mem_cons.mp member with
    | inl same => rw [same]; exact chain _ List.mem_cons_self
    | inr later => exact ih (fun v inside => chain v (List.mem_cons_of_mem _ inside)) report later
  | fresh _ _ _ innerIH restIH =>
    intro report member
    cases List.mem_append.mp member with
    | inl below =>
      apply innerIH _ report below
      intro next follows
      exact List.isChain_cons_cons.mpr ⟨follows, chain _ List.mem_cons_self⟩
    | inr later =>
      exact restIH (fun v inside => chain v (List.mem_cons_of_mem _ inside)) report later

/-- What holds of the stack and of what is explored, and passes on to followers, holds of every
vertex of a report. -/
theorem reports_forall {Holds : V → Prop}
    (passes : ∀ vertex, Holds vertex → ∀ next ∈ succ vertex, Holds next)
    (search : Explores succ stack todo marked after reports) (above : ∀ vertex ∈ stack, Holds vertex)
    (start : ∀ vertex ∈ todo, Holds vertex) :
    ∀ report ∈ reports, ∀ vertex ∈ report, Holds vertex := by
  induction search with
  | nil => simp
  | seen _ _ ih =>
    have own := start _ List.mem_cons_self
    intro report member
    cases List.mem_cons.mp member with
    | inl same => rw [same]; exact List.forall_mem_cons.mpr ⟨own, above⟩
    | inr later =>
      exact ih above (fun v inside => start v (List.mem_cons_of_mem _ inside)) report later
  | fresh _ _ _ innerIH restIH =>
    have own := start _ List.mem_cons_self
    intro report member
    cases List.mem_append.mp member with
    | inl below =>
      exact innerIH (List.forall_mem_cons.mpr ⟨own, above⟩) (passes _ own) report below
    | inr later =>
      exact restIH above (fun v inside => start v (List.mem_cons_of_mem _ inside)) report later

end Explores

section Routes

variable [DecidableEq V]

/-- The ends of the ways to go on from a stack by `vertex` without coming back to the stack. -/
def routeEnds (succ : V → List V) : Nat → List V → V → List V
  | 0, _, _ => []
  | fuel + 1, stack, vertex =>
    if vertex ∈ stack then []
    else vertex :: (succ vertex).flatMap (routeEnds succ fuel (vertex :: stack))

/-- The ways to go on from a stack by `vertex` until they come back to the stack. -/
def returns (succ : V → List V) : Nat → List V → V → List (List V)
  | 0, _, _ => []
  | fuel + 1, stack, vertex =>
    if vertex ∈ stack then [vertex :: stack]
    else (succ vertex).flatMap (returns succ fuel (vertex :: stack))

/-- The ways to go on do not end on the stack. -/
theorem not_mem_of_mem_routeEnds {fuel : Nat} {stack : List V} {vertex last : V}
    (ends : last ∈ routeEnds succ fuel stack vertex) : last ∉ stack := by
  induction fuel generalizing stack vertex with
  | zero => cases ends
  | succ fuel ih =>
    by_cases back : vertex ∈ stack
    · rw [routeEnds, if_pos back] at ends
      cases ends
    · rw [routeEnds, if_neg back, List.mem_cons] at ends
      cases ends with
      | inl here => rw [here]; exact back
      | inr further =>
        obtain ⟨next, _, reached⟩ := List.mem_flatMap.mp further
        exact fun member => ih reached (List.mem_cons_of_mem _ member)

/-- The vertex on top of a report is on its stack. -/
def Closing (report : List V) : Prop := ∃ vertex stack, report = vertex :: stack ∧ vertex ∈ stack

/-- A search reports nothing but returns to its stack exactly if it comes to every vertex in one
way, and to none that was marked; then it reports all returns. -/
theorem Explores.closing_iff {vertices stack todo marked after : List V} {reports : List (List V)}
    (closed : ∀ vertex ∈ vertices, ∀ next ∈ succ vertex, next ∈ vertices)
    (search : Explores succ stack todo marked after reports)
    (inside : ∀ vertex ∈ todo, vertex ∈ vertices) (below : stack ⊆ marked) (distinct : stack.Nodup)
    (known : stack ⊆ vertices) {fuel : Nat} (enough : vertices.length < stack.length + fuel) :
    ((∀ report ∈ reports, Closing report) ↔
      (todo.flatMap (routeEnds succ fuel stack)).Nodup ∧
        ∀ vertex ∈ todo.flatMap (routeEnds succ fuel stack), vertex ∉ marked) ∧
    ((∀ report ∈ reports, Closing report) →
      (∀ vertex, vertex ∈ after ↔
        vertex ∈ marked ∨ vertex ∈ todo.flatMap (routeEnds succ fuel stack)) ∧
      reports = todo.flatMap (returns succ fuel stack)) := by
  induction search generalizing fuel with
  | nil => simp
  | @seen stack todo marked after vertex reports old rest ih =>
    have few : stack.length ≤ vertices.length :=
      (List.subperm_of_subset distinct known).length_le
    obtain ⟨less, rfl⟩ : ∃ less, fuel = less + 1 := ⟨fuel - 1, by omega⟩
    obtain ⟨equivalent, described⟩ := ih
      (fun v member => inside v (List.mem_cons_of_mem _ member)) below distinct known enough
    rw [List.flatMap_cons, List.flatMap_cons]
    by_cases back : vertex ∈ stack
    · have noEnds : routeEnds succ (less + 1) stack vertex = [] := by
        rw [routeEnds, if_pos back]
      have oneReturn : returns succ (less + 1) stack vertex = [vertex :: stack] := by
        rw [returns, if_pos back]
      have own : Closing (vertex :: stack) := ⟨vertex, stack, rfl, back⟩
      rw [noEnds, oneReturn, List.nil_append, List.forall_mem_cons]
      constructor
      · rw [← equivalent]
        exact ⟨fun both => both.2, fun later => ⟨own, later⟩⟩
      · intro both
        have facts := described both.2
        exact ⟨facts.1, by rw [facts.2]; rfl⟩
    · have first : vertex ∈ routeEnds succ (less + 1) stack vertex := by
        rw [routeEnds, if_neg back]
        exact List.mem_cons_self
      have bad : ¬ ∀ report ∈ (vertex :: stack) :: reports, Closing report := by
        intro all
        obtain ⟨top, others, same, member⟩ := all _ List.mem_cons_self
        rw [← (List.cons.inj same).1, ← (List.cons.inj same).2] at member
        exact back member
      refine ⟨⟨fun all => absurd all bad, fun fine => ?_⟩, fun all => absurd all bad⟩
      exact absurd old (fine.2 vertex (List.mem_append_left _ first))
  | @fresh stack todo marked middle after vertex below' reports new inner rest innerIH restIH =>
    have few : stack.length ≤ vertices.length :=
      (List.subperm_of_subset distinct known).length_le
    obtain ⟨less, rfl⟩ : ∃ less, fuel = less + 1 := ⟨fuel - 1, by omega⟩
    have off : vertex ∉ stack := fun member => new (below member)
    have own := inside vertex List.mem_cons_self
    obtain ⟨innerIff, innerFacts⟩ := @innerIH (closed vertex own)
      (List.cons_subset_cons vertex below) (List.nodup_cons.mpr ⟨off, distinct⟩)
      (List.cons_subset.mpr ⟨own, known⟩) less (by rw [List.length_cons]; omega)
    obtain ⟨restIff, restFacts⟩ := @restIH
      (fun v member => inside v (List.mem_cons_of_mem _ member))
      (fun v member => inner.subset (List.mem_cons_of_mem _ (below member))) distinct known
      (less + 1) enough
    rw [List.flatMap_cons, List.flatMap_cons]
    have ends : routeEnds succ (less + 1) stack vertex =
        vertex :: (succ vertex).flatMap (routeEnds succ less (vertex :: stack)) := by
      rw [routeEnds, if_neg off]
    have back : returns succ (less + 1) stack vertex =
        (succ vertex).flatMap (returns succ less (vertex :: stack)) := by
      rw [returns, if_neg off]
    rw [ends, back, List.forall_mem_append]
    generalize (succ vertex).flatMap (routeEnds succ less (vertex :: stack)) = down at *
    generalize todo.flatMap (routeEnds succ (less + 1) stack) = onward at *
    constructor
    · constructor
      · intro all
        have lower := innerIff.mp all.1
        have later := restIff.mp all.2
        have marks := (innerFacts all.1).1
        constructor
        · refine List.nodup_append.mpr ⟨List.nodup_cons.mpr ⟨?_, lower.1⟩, later.1, ?_⟩
          · exact fun member => lower.2 vertex member List.mem_cons_self
          · intro v member u member' same
            rw [← same] at member'
            apply later.2 v member'
            apply (marks v).mpr
            cases List.mem_cons.mp member with
            | inl here => rw [here]; exact .inl List.mem_cons_self
            | inr under => exact .inr under
        · intro v member
          cases List.mem_append.mp member with
          | inl early =>
            cases List.mem_cons.mp early with
            | inl here => rw [here]; exact new
            | inr under => exact fun old => lower.2 v under (List.mem_cons_of_mem _ old)
          | inr late =>
            exact fun old => later.2 v late (inner.subset (List.mem_cons_of_mem _ old))
      · intro fine
        obtain ⟨whole, unmarked⟩ := fine
        obtain ⟨upper, lower, apart⟩ := List.nodup_append.mp whole
        obtain ⟨notBelow, downNodup⟩ := List.nodup_cons.mp upper
        have innerFine := innerIff.mpr ⟨downNodup, by
          intro v member old
          cases List.mem_cons.mp old with
          | inl here => rw [here] at member; exact notBelow member
          | inr before =>
            exact unmarked v (List.mem_append_left _ (List.mem_cons_of_mem _ member)) before⟩
        refine ⟨innerFine, restIff.mpr ⟨lower, ?_⟩⟩
        intro v member old
        cases ((innerFacts innerFine).1 v).mp old with
        | inl before =>
          cases List.mem_cons.mp before with
          | inl here => exact apart vertex List.mem_cons_self v member here.symm
          | inr early => exact unmarked v (List.mem_append_right _ member) early
        | inr under => exact apart v (List.mem_cons_of_mem _ under) v member rfl
    · intro all
      obtain ⟨marks, same⟩ := innerFacts all.1
      obtain ⟨marks', same'⟩ := restFacts all.2
      refine ⟨fun v => ?_, by rw [same, same']⟩
      rw [marks' v, marks v, List.mem_cons, List.mem_append, List.mem_cons]
      constructor
      · rintro (((rfl | before) | under) | later)
        · exact .inr (.inl (.inl rfl))
        · exact .inl before
        · exact .inr (.inl (.inr under))
        · exact .inr (.inr later)
      · rintro (before | (rfl | under) | later)
        · exact .inl (.inl (.inr before))
        · exact .inl (.inl (.inl rfl))
        · exact .inl (.inr under)
        · exact .inr later

end Routes

end BackendCpp.Library
