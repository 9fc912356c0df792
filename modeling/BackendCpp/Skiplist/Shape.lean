import BackendCpp.Skiplist.Search

/-!
# Changing the levels

The loops of an insertion and of a deletion change one successor, or two, on each of the
levels that they visit, and nothing else.
-/

namespace BackendCpp.Skiplist

open BackendCpp.Library

/-- Only successors differ. -/
structure SameNodes (zsl zsl' : Zskiplist) : Prop where
  /-- The same header. -/
  header : zsl'.header = zsl.header
  /-- As many levels. -/
  level : zsl'.level = zsl.level
  /-- As many nodes. -/
  length : zsl'.length = zsl.length
  /-- The same heights. -/
  height : ∀ x, zsl'.height x = zsl.height x
  /-- The same scores. -/
  scoreOf : ∀ x, zsl'.scoreOf x = zsl.scoreOf x

/-- A list has its own nodes. -/
theorem SameNodes.refl (zsl : Zskiplist) : SameNodes zsl zsl :=
  ⟨rfl, rfl, rfl, fun _ => rfl, fun _ => rfl⟩

/-- Keeping the nodes twice keeps them. -/
theorem SameNodes.trans {one two three : Zskiplist} (first : SameNodes one two)
    (second : SameNodes two three) : SameNodes one three :=
  ⟨second.header.trans first.header, second.level.trans first.level,
    second.length.trans first.length, fun x => (second.height x).trans (first.height x),
    fun x => (second.scoreOf x).trans (first.scoreOf x)⟩

/-- The same heights give the same levels. -/
theorem SameNodes.tall {zsl zsl' : Zskiplist} (same : SameNodes zsl zsl') (i : Nat)
    (order : List Nat) : zsl'.tall i order = zsl.tall i order := by
  unfold Zskiplist.tall
  simp only [same.height]

/-- Writing a successor changes it and nothing else. -/
theorem setForward_spec {zsl : Zskiplist} {x i : Nat} (below : i < zsl.height x)
    (value : Option Nat) : ∃ zsl', zsl.setForward x i value = some zsl' ∧ SameNodes zsl zsl' ∧
      ∀ j, zsl'.next j = if j = i then Function.update (zsl.next i) x value else zsl.next j := by
  have found : ∃ node, zsl.nodes x = some node ∧ i < node.levels := by
    unfold Zskiplist.height at below
    cases found : zsl.nodes x with
    | none =>
      rw [found] at below
      exact absurd below (Nat.not_lt_zero i)
    | some node =>
      rw [found] at below
      exact ⟨node, rfl, below⟩
  obtain ⟨node, found, high⟩ := found
  let changed : ZskiplistNode := { node with forward := Function.update node.forward i value }
  refine ⟨{ zsl with nodes := Function.update zsl.nodes x (some changed) }, ?_,
    ⟨rfl, rfl, rfl, ?_, ?_⟩, ?_⟩
  · simp only [Zskiplist.setForward, found, Option.bind_some, if_pos high]
    rfl
  · intro y
    by_cases here : y = x
    · simp only [Zskiplist.height, here, Function.update_self, found]
      rfl
    · simp only [Zskiplist.height, Function.update_of_ne here]
  · intro y
    by_cases here : y = x
    · simp only [Zskiplist.scoreOf, here, Function.update_self, found]
      rfl
    · simp only [Zskiplist.scoreOf, Function.update_of_ne here]
  · intro j
    funext y
    by_cases here : y = x
    · by_cases level : j = i
      · simp [Zskiplist.next, here, level, changed]
      · simp [Zskiplist.next, here, level, changed, found]
    · by_cases level : j = i
      · simp [Zskiplist.next, here, level]
      · simp [Zskiplist.next, here, level]

/-- A loop whose passes change one level each. -/
theorem foldlM_levels (pass : Zskiplist → Nat → Option Zskiplist)
    (change : Nat → (Nat → Option Nat) → Nat → Option Nat) (start : Zskiplist)
    (levels : List Nat)
    (passes : ∀ zsl i, i ∈ levels → SameNodes start zsl → zsl.next i = start.next i →
      ∃ zsl', pass zsl i = some zsl' ∧ SameNodes zsl zsl' ∧
        ∀ j, zsl'.next j = if j = i then change i (zsl.next i) else zsl.next j)
    (distinct : levels.Nodup) :
    ∃ zsl', levels.foldlM pass start = some zsl' ∧ SameNodes start zsl' ∧
      ∀ j, zsl'.next j = if j ∈ levels then change j (start.next j) else start.next j := by
  have step : ∀ (rest : List Nat) (zsl : Zskiplist), rest.Nodup → (∀ i ∈ rest, i ∈ levels) →
      SameNodes start zsl → (∀ i ∈ rest, zsl.next i = start.next i) →
      ∃ zsl', rest.foldlM pass zsl = some zsl' ∧ SameNodes start zsl' ∧
        ∀ j, zsl'.next j = if j ∈ rest then change j (start.next j) else zsl.next j := by
    intro rest
    induction rest with
    | nil =>
      intro zsl _ _ same _
      exact ⟨zsl, rfl, same, fun j => by simp⟩
    | cons i rest ih =>
      intro zsl single listed same untouched
      obtain ⟨new, single⟩ := List.nodup_cons.mp single
      obtain ⟨middle, passed, same', next⟩ := passes zsl i (listed i List.mem_cons_self) same
        (untouched i List.mem_cons_self)
      have later : ∀ j ∈ rest, middle.next j = start.next j := by
        intro j member
        have other : j ≠ i := by
          intro equal
          rw [equal] at member
          exact new member
        rw [next j, if_neg other]
        exact untouched j (List.mem_cons_of_mem i member)
      obtain ⟨zsl', done, same'', next'⟩ := ih middle single
        (fun j member => listed j (List.mem_cons_of_mem i member)) (same.trans same') later
      refine ⟨zsl', ?_, same'', ?_⟩
      · rw [List.foldlM_cons, passed]
        exact done
      · intro j
        rw [next' j, next j]
        by_cases inside : j ∈ rest
        · rw [if_pos inside, if_pos (List.mem_cons_of_mem i inside)]
        · rw [if_neg inside]
          by_cases here : j = i
          · rw [if_pos here, here, if_pos List.mem_cons_self, untouched i List.mem_cons_self]
          · rw [if_neg here, if_neg (by simp [here, inside])]
  exact step levels start distinct (fun i member => member) (SameNodes.refl start)
    (fun i _ => rfl)

/-- A pass of the loop of `zslInsert` puts the node behind another on its level. -/
theorem linkPass_spec {zsl : Zskiplist} {x i before : Nat} {update : Nat → Option Nat}
    (found : update i = some before) (high : i < zsl.height before) (tall : i < zsl.height x) :
    ∃ zsl', linkPass x update zsl i = some zsl' ∧ SameNodes zsl zsl' ∧
      ∀ j, zsl'.next j = if j = i then
        Function.update (Function.update (zsl.next i) x (zsl.next i before)) before (some x)
      else zsl.next j := by
  obtain ⟨middle, first, same, next⟩ := setForward_spec tall (zsl.next i before)
  have high' : i < middle.height before := by
    rw [same.height]
    exact high
  obtain ⟨last, second, same', next'⟩ := setForward_spec high' (some x)
  refine ⟨last, ?_, same.trans same', ?_⟩
  · simp only [linkPass, found, forward_eq high, Option.bind_some, first]
    exact second
  · intro j
    by_cases here : j = i
    · rw [next' j, if_pos here, if_pos here, next i, if_pos rfl]
    · rw [next' j, if_neg here, if_neg here, next j, if_neg here]

/-- A pass of the loop of a deletion takes the node out from behind another. -/
theorem unlinkPass_spec {zsl : Zskiplist} {x i before : Nat} {update : Nat → Option Nat}
    (found : update i = some before) (high : i < zsl.height before)
    (tall : zsl.next i before = some x → i < zsl.height x) :
    ∃ zsl', unlinkPass x update zsl i = some zsl' ∧ SameNodes zsl zsl' ∧
      ∀ j, zsl'.next j = if j = i then
        (if zsl.next i before = some x then
          Function.update (zsl.next i) before (zsl.next i x) else zsl.next i)
      else zsl.next j := by
  by_cases hit : zsl.next i before = some x
  · obtain ⟨last, written, same, next⟩ := setForward_spec high (zsl.next i x)
    refine ⟨last, ?_, same, ?_⟩
    · simp only [unlinkPass, found, forward_eq high, Option.bind_some, hit, if_true,
        forward_eq (tall hit)]
      exact written
    · intro j
      rw [next j, if_pos hit]
  · refine ⟨zsl, ?_, SameNodes.refl zsl, ?_⟩
    · simp only [unlinkPass, found, forward_eq high, Option.bind_some, hit, if_false]
    · intro j
      rw [if_neg hit]
      by_cases here : j = i
      · rw [if_pos here, here]
      · rw [if_neg here]

/-- What does not change at the header and the nodes does not change the shape. -/
theorem Shape.congr {zsl zsl' : Zskiplist} {order : List Nat} (shape : Shape zsl order)
    (header : zsl'.header = zsl.header) (level : zsl'.level = zsl.level)
    (length : zsl'.length = zsl.length)
    (nodes : ∀ x ∈ zsl.header :: order, zsl'.nodes x = zsl.nodes x) : Shape zsl' order := by
  have height : ∀ x ∈ zsl.header :: order, zsl'.height x = zsl.height x := by
    intro x member
    unfold Zskiplist.height
    rw [nodes x member]
  have score : ∀ x ∈ order, zsl'.scoreOf x = zsl.scoreOf x := by
    intro x member
    unfold Zskiplist.scoreOf
    rw [nodes x (List.mem_cons_of_mem _ member)]
  have inside : ∀ x ∈ order, zsl'.height x = zsl.height x := by
    intro x member
    exact height x (List.mem_cons_of_mem _ member)
  have tall : ∀ i, zsl'.tall i order = zsl.tall i order := by
    intro i
    apply List.filter_congr
    intro x member
    rw [inside x member]
  refine ⟨?_, ?_, ?_, ?_, ?_, ?_, ?_, ?_, ?_, ?_⟩
  · rw [header, height _ List.mem_cons_self]
    exact shape.header
  · intro x member
    rw [inside x member]
    exact shape.low x member
  · intro x member
    rw [inside x member]
    exact shape.high x member
  · rw [header]
    exact shape.distinct
  · apply shape.sorted.imp_of_mem
    intro x y first second le
    rw [score x first, score y second]
    exact le
  · intro i below
    rw [header, tall i]
    apply (shape.chain i below).congr
    intro x member
    have listed : x ∈ zsl.header :: order := by
      rcases List.mem_cons.mp member with here | node
      · rw [here]
        exact List.mem_cons_self
      · exact List.mem_cons_of_mem _ (List.mem_of_mem_filter node)
    unfold Zskiplist.next
    rw [nodes x listed]
  · rw [level]
    exact shape.positive
  · intro x member
    rw [inside x member, level]
    exact shape.covers x member
  · rw [level]
    rcases shape.reached with one | ⟨x, member, reached⟩
    · exact Or.inl one
    · refine Or.inr ⟨x, member, ?_⟩
      rw [inside x member]
      exact reached
  · rw [length]
    exact shape.length

/-- The nodes of a level before and behind the place of a score. -/
theorem Shape.split {zsl : Zskiplist} {before behind : List Nat}
    (shape : Shape zsl (before ++ behind)) {i : Nat} (below : i < ZSKIPLIST_MAXLEVEL) :
    Follows (zsl.next i) ((zsl.header :: zsl.tall i before).dropLast ++
      zsl.pred before i :: zsl.tall i behind) ∧
    zsl.pred before i ∉ (zsl.header :: zsl.tall i before).dropLast ∧
    zsl.pred before i ∉ zsl.tall i behind := by
  have whole : (zsl.header :: zsl.tall i before).dropLast ++
      zsl.pred before i :: zsl.tall i behind = zsl.header :: zsl.tall i (before ++ behind) := by
    have ends := dropLast_getLastD zsl.header (zsl.tall i before)
    calc (zsl.header :: zsl.tall i before).dropLast ++ zsl.pred before i :: zsl.tall i behind
        = ((zsl.header :: zsl.tall i before).dropLast ++ [zsl.pred before i]) ++
            zsl.tall i behind := by simp
      _ = (zsl.header :: zsl.tall i before) ++ zsl.tall i behind := by
          rw [Zskiplist.pred, ends]
      _ = zsl.header :: zsl.tall i (before ++ behind) := by
          rw [tall_append, List.cons_append]
  have distinct : (zsl.header :: zsl.tall i (before ++ behind)).Nodup :=
    List.Nodup.sublist (List.Sublist.cons_cons _ List.filter_sublist) shape.distinct
  rw [← whole] at distinct
  have apart := (List.nodup_middle.mp distinct)
  have fresh := (List.nodup_cons.mp apart).1
  rw [List.mem_append] at fresh
  refine ⟨?_, fun member => fresh (Or.inl member), fun member => fresh (Or.inr member)⟩
  rw [whole]
  exact shape.chain i below

/-- A node before the place of a score is the header or a node. -/
theorem pred_mem {zsl : Zskiplist} (before behind : List Nat) (i : Nat) :
    zsl.pred before i ∈ zsl.header :: (before ++ behind) := by
  have member : zsl.pred before i ∈ zsl.header :: zsl.tall i before := List.getLastD_mem_cons
  rcases List.mem_cons.mp member with here | node
  · rw [here]
    exact List.mem_cons_self
  · apply List.mem_cons_of_mem
    exact List.mem_append_left _ (List.mem_of_mem_filter node)

/-- Levels that are not in use have the header only. -/
theorem Shape.pred_header {zsl : Zskiplist} {before behind : List Nat}
    (shape : Shape zsl (before ++ behind)) {i : Nat} (above : zsl.level ≤ i) :
    zsl.pred before i = zsl.header := by
  have empty : zsl.tall i before = [] := by
    apply List.filter_eq_nil_iff.mpr
    intro x member
    have low := shape.covers x (List.mem_append_left _ member)
    rw [decide_eq_true_eq]
    omega
  rw [Zskiplist.pred, empty]
  rfl

end BackendCpp.Skiplist
