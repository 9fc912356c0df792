import BackendCpp.Skiplist.Shape

/-!
# Deletion

The first node behind the nodes that a search has passed leaves all of its levels. The two
deletions find the nodes before it in different ways: `zslDelete` by a search for the score,
so it takes the first of several nodes with one score, and `zslDeleteHead` at the header.
-/

namespace BackendCpp.Skiplist

open BackendCpp.Library

/-- The chain of a level when a node has left it. -/
theorem unlink_chain {zsl : Zskiplist} {before behind : List Nat} {x : Nat}
    (shape : Shape zsl (before ++ x :: behind)) {i : Nat} (below : i < ZSKIPLIST_MAXLEVEL) :
    Follows (if zsl.next i (zsl.pred before i) = some x then
      Function.update (zsl.next i) (zsl.pred before i) (zsl.next i x) else zsl.next i)
      (zsl.header :: zsl.tall i (before ++ behind)) := by
  obtain ⟨follows, notBefore, notBehind⟩ := shape.split below
  have front := dropLast_getLastD zsl.header (zsl.tall i before)
  have told := follows.next_eq
  rw [tall_append, ← List.cons_append, ← front, List.append_assoc]
  by_cases tall : i < zsl.height x
  · rw [tall_cons_pos tall] at follows told notBehind
    rw [List.head?_cons] at told
    rw [if_pos told]
    apply follows.remove
    · intro y member
      apply Function.update_of_ne
      intro equal
      rw [equal] at member
      exact notBefore member
    · intro y member
      apply Function.update_of_ne
      intro equal
      rw [equal] at member
      exact notBehind (List.mem_cons_of_mem _ member)
    · exact Function.update_self ..
  · rw [tall_cons_neg tall] at follows told notBehind
    have miss : ¬ zsl.next i (zsl.pred before i) = some x := by
      intro hit
      rw [told] at hit
      have member := List.mem_of_mem_filter (List.mem_of_mem_head? hit)
      have distinct := (List.nodup_cons.mp shape.distinct).2
      have apart := (List.nodup_cons.mp (List.nodup_middle.mp distinct)).1
      exact apart (List.mem_append_right _ member)
    rw [if_neg miss]
    exact follows

/-- The loop of a deletion takes the node out of all levels. -/
theorem unlink_levels {zsl : Zskiplist} {before behind : List Nat} {x : Nat}
    (shape : Shape zsl (before ++ x :: behind)) (update : Nat → Option Nat) (levels : List Nat)
    (updates : ∀ i, i < zsl.level → update i = some (zsl.pred before i))
    (distinct : levels.Nodup) (all : ∀ i, i ∈ levels ↔ i < zsl.level) :
    ∃ zsl', levels.foldlM (unlinkPass x update) zsl = some zsl' ∧ SameNodes zsl zsl' ∧
      ∀ i, i < ZSKIPLIST_MAXLEVEL →
        Follows (zsl'.next i) (zsl.header :: zsl.tall i (before ++ behind)) := by
  obtain ⟨zsl', done, same, next⟩ := foldlM_levels (unlinkPass x update)
    (fun i next => if next (zsl.pred before i) = some x then
      Function.update next (zsl.pred before i) (next x) else next) zsl levels (by
      intro state i member same untouched
      have inUse := (all i).mp member
      have below := lt_of_lt_of_le inUse shape.level_le
      apply unlinkPass_spec (updates i inUse)
      · rw [same.height]
        exact pred_height shape.header below
      · intro hit
        rw [untouched, (shape.split below).1.next_eq] at hit
        have high := (List.mem_filter.mp (List.mem_of_mem_head? hit)).2
        rw [same.height]
        simpa using high) distinct
  refine ⟨zsl', done, same, ?_⟩
  intro i below
  rw [next i]
  by_cases inUse : i < zsl.level
  · rw [if_pos ((all i).mpr inUse)]
    exact unlink_chain shape below
  · rw [if_neg fun member => inUse ((all i).mp member)]
    have low := shape.covers x (List.mem_append_right _ List.mem_cons_self)
    have chain := shape.chain i below
    rw [tall_append, tall_cons_neg (by omega), ← tall_append] at chain
    exact chain

/-- The loop that lowers the level stops at the highest node. -/
theorem lower_spec {zsl : Zskiplist} {order : List Nat}
    (header : zsl.height zsl.header = ZSKIPLIST_MAXLEVEL)
    (chain : ∀ i, i < ZSKIPLIST_MAXLEVEL →
      Follows (zsl.next i) (zsl.header :: zsl.tall i order)) (level : Nat) :
    0 < level → level ≤ ZSKIPLIST_MAXLEVEL → (∀ x ∈ order, zsl.height x ≤ level) →
      ∃ lowered, lower zsl level = some lowered ∧ 0 < lowered ∧
        (∀ x ∈ order, zsl.height x ≤ lowered) ∧
        (lowered = 1 ∨ ∃ x ∈ order, zsl.height x = lowered) := by
  induction level with
  | zero =>
    intro positive
    exact absurd positive (Nat.lt_irrefl 0)
  | succ level ih =>
    intro _ bounded covers
    cases level with
    | zero => exact ⟨1, rfl, Nat.one_pos, covers, Or.inl rfl⟩
    | succ level =>
      have below : level + 1 < ZSKIPLIST_MAXLEVEL := by omega
      have read : zsl.forward zsl.header (level + 1) =
          some (zsl.tall (level + 1) order).head? := by
        rw [forward_eq (by rw [header]; exact below), (chain (level + 1) below).1]
      cases list : zsl.tall (level + 1) order with
      | nil =>
        have low : ∀ x ∈ order, zsl.height x ≤ level + 1 := by
          intro x member
          have absent := List.filter_eq_nil_iff.mp list x member
          rw [decide_eq_true_eq] at absent
          omega
        obtain ⟨lowered, result, rest⟩ := ih (Nat.succ_pos level) (by omega) low
        refine ⟨lowered, ?_, rest⟩
        rw [lower, read, list]
        exact result
      | cons x others =>
        have member : x ∈ zsl.tall (level + 1) order := by
          rw [list]
          exact List.mem_cons_self
        obtain ⟨present, high⟩ := List.mem_filter.mp member
        rw [decide_eq_true_eq] at high
        have le := covers x present
        refine ⟨level + 2, ?_, by omega, covers, Or.inr ⟨x, present, by omega⟩⟩
        rw [lower, read, list]
        rfl

/-- The end of a deletion: one node less. -/
theorem shrink_shape {zsl zsl' : Zskiplist} {before behind : List Nat} {x : Nat}
    (shape : Shape zsl (before ++ x :: behind)) (same : SameNodes zsl zsl')
    (chain : ∀ i, i < ZSKIPLIST_MAXLEVEL →
      Follows (zsl'.next i) (zsl.header :: zsl.tall i (before ++ behind))) :
    ∃ final, shrink zsl' = some final ∧ Shape final (before ++ behind) ∧
      final.header = zsl.header ∧ final.height = zsl.height ∧ final.scoreOf = zsl.scoreOf := by
  have kept : ∀ y ∈ before ++ behind, y ∈ before ++ x :: behind := by
    intro y member
    rw [List.mem_append] at member
    rw [List.mem_append, List.mem_cons]
    tauto
  have sub : (before ++ behind).Sublist (before ++ x :: behind) :=
    List.Sublist.append_left (List.sublist_cons_self x behind) before
  have header : zsl'.height zsl'.header = ZSKIPLIST_MAXLEVEL := by
    rw [same.height, same.header]
    exact shape.header
  have chain' : ∀ i, i < ZSKIPLIST_MAXLEVEL →
      Follows (zsl'.next i) (zsl'.header :: zsl'.tall i (before ++ behind)) := by
    intro i below
    rw [same.header, same.tall]
    exact chain i below
  have covers : ∀ y ∈ before ++ behind, zsl'.height y ≤ zsl'.level := by
    intro y member
    rw [same.height, same.level]
    exact shape.covers y (kept y member)
  have level := shape.level_le
  have positive := shape.positive
  rw [← same.level] at level positive
  obtain ⟨lowered, result, above, cover, reached⟩ :=
    lower_spec header chain' zsl'.level positive level covers
  refine ⟨{ zsl' with level := lowered, length := zsl'.length - 1 }, ?_,
    ⟨header, ?_, ?_, ?_, ?_, chain', above, cover, reached, ?_⟩, same.header,
      funext same.height, funext same.scoreOf⟩
  · rw [shrink, result]
    rfl
  · intro y member
    show 0 < zsl'.height y
    rw [same.height]
    exact shape.low y (kept y member)
  · intro y member
    show zsl'.height y ≤ ZSKIPLIST_MAXLEVEL
    rw [same.height]
    exact shape.high y (kept y member)
  · show (zsl'.header :: (before ++ behind)).Nodup
    rw [same.header]
    exact List.Nodup.sublist (List.Sublist.cons_cons _ sub) shape.distinct
  · show (before ++ behind).Pairwise fun y z => zsl'.scoreOf y ≤ zsl'.scoreOf z
    simp only [same.scoreOf]
    exact List.Pairwise.sublist sub shape.sorted
  · show zsl'.length - 1 = ((before ++ behind).length : Int)
    rw [same.length, shape.length, List.length_append, List.length_append, List.length_cons]
    omega

/-- All nodes are on the lowest level. -/
theorem Shape.tall_zero {zsl : Zskiplist} {order : List Nat} (shape : Shape zsl order) :
    zsl.tall 0 order = order := by
  apply List.filter_eq_self.mpr
  intro x member
  exact decide_eq_true (shape.low x member)

/-- `zslMin` returns the first node. -/
theorem zslMin_eq {zsl : Zskiplist} {order : List Nat} (shape : Shape zsl order) :
    zslMin zsl = some order.head? := by
  have below : 0 < zsl.height zsl.header := by
    rw [shape.header]
    decide
  have lowest := shape.chain 0 (by decide)
  rw [shape.tall_zero] at lowest
  rw [zslMin, forward_eq below, lowest.1]

/-- `zslDeleteHead` takes the first node away, when there is one; its memory stays. -/
theorem zslDeleteHead_shape {zsl : Zskiplist} {order : List Nat} (shape : Shape zsl order) :
    ∃ zsl', zslDeleteHead zsl = some zsl' ∧ Shape zsl' order.tail ∧
      zsl'.height = zsl.height ∧ zsl'.scoreOf = zsl.scoreOf := by
  have least := zslMin_eq shape
  cases order with
  | nil =>
    refine ⟨zsl, ?_, shape, rfl, rfl⟩
    simp only [zslDeleteHead, least]
    rfl
  | cons x behind =>
    rw [List.head?_cons] at least
    have shape' : Shape zsl ([] ++ x :: behind) := shape
    obtain ⟨zsl', done, same, chain⟩ := unlink_levels shape' (fun _ => some zsl.header)
      (List.range zsl.level).reverse (fun i _ => rfl) (List.nodup_reverse.mpr List.nodup_range)
      (fun i => by simp)
    obtain ⟨final, shrunk, result, _, height, scoreOf⟩ := shrink_shape shape' same chain
    refine ⟨final, ?_, result, height, scoreOf⟩
    simp only [zslDeleteHead, least, Option.bind_some, done]
    exact shrunk

/-- `zslDelete` of a node takes the first node with its score away and frees it. -/
theorem zslDelete_shape {zsl : Zskiplist} {order : List Nat} (shape : Shape zsl order)
    {zn : Nat} (present : zn ∈ order) :
    ∃ zsl' x, Leaves (fun fuel => zslDelete fuel zsl zn) (zsl', some x) ∧ x ∈ order ∧
      zsl.scoreOf x = zsl.scoreOf zn ∧ Shape zsl' (order.erase x) ∧ zsl'.nodes x = none ∧
      (zsl.behind order (zsl.scoreOf zn)).head? = some x := by
  let score := zsl.scoreOf zn
  have split := before_append_behind zsl order score
  have late : zn ∈ zsl.behind order score := by
    rw [← split] at present
    rcases List.mem_append.mp present with early | late
    · have less : zsl.scoreOf zn < score := by simpa using List.mem_takeWhile_imp early
      exact absurd less (UInt64.lt_irrefl _)
    · exact late
  cases list : zsl.behind order score with
  | nil =>
    rw [list] at late
    cases late
  | cons x behind =>
    rw [list] at split late
    have shape' : Shape zsl (zsl.before order score ++ x :: behind) := by
      rw [split]
      exact shape
    have member : x ∈ order := by
      rw [← split]
      exact List.mem_append_right _ List.mem_cons_self
    have low := shape.low x member
    have equal : zsl.scoreOf x = score := by
      have ge : score ≤ zsl.scoreOf x := by
        apply UInt64.not_lt.mp
        apply dropWhile_ge shape.sorted
        show x ∈ zsl.behind order score
        rw [list]
        exact List.mem_cons_self
      have le : zsl.scoreOf x ≤ score := by
        rcases List.mem_cons.mp late with here | later
        · rw [← here]
          exact UInt64.le_refl _
        · have sorted := (List.pairwise_append.mp shape'.sorted).2.1
          exact (List.pairwise_cons.mp sorted).1 zn later
      exact UInt64.le_antisymm le ge
    obtain ⟨found, leaves, last, updates⟩ := search_header shape score
    have read : zsl.forward found.1 0 = some (some x) := by
      have below : 0 < ZSKIPLIST_MAXLEVEL := by decide
      rw [last, forward_eq (pred_height shape.header below), (shape'.split below).1.next_eq,
        tall_cons_pos low, List.head?_cons]
    obtain ⟨zsl', done, same, chain⟩ := unlink_levels shape' found.2 (List.range zsl.level) updates
      List.nodup_range (fun i => List.mem_range)
    obtain ⟨final, shrunk, result, header, _⟩ := shrink_shape shape' same chain
    have erased : order.erase x = zsl.before order score ++ behind := by
      have apart := (List.nodup_cons.mp (List.nodup_middle.mp
        (List.nodup_cons.mp shape'.distinct).2)).1
      calc order.erase x = (zsl.before order score ++ x :: behind).erase x := by rw [split]
        _ = zsl.before order score ++ (x :: behind).erase x :=
          List.erase_append_right _ fun early => apart (List.mem_append_left _ early)
        _ = zsl.before order score ++ behind := by rw [List.erase_cons_head]
    refine ⟨{ final with nodes := Function.update final.nodes x none }, x, ?_, member, equal, ?_,
      Function.update_self .., rfl⟩
    · have start : zsl.score zn = some score := score_eq (shape.low zn present)
      have removed : zslDeleteNode zsl x found.2 = some final := by
        simp only [zslDeleteNode, done, Option.bind_some]
        exact shrunk
      simp only [zslDelete, start, Option.bind_some]
      apply leaves.bind
      apply Leaves.of_forall
      intro fuel
      simp only [read, Option.bind_some, score_eq low, equal, if_true, removed, Option.map_some]
    · rw [erased]
      refine result.congr rfl rfl rfl ?_
      intro y inside
      have apart := (List.nodup_cons.mp shape'.distinct).1
      have apart' := (List.nodup_cons.mp (List.nodup_middle.mp
        (List.nodup_cons.mp shape'.distinct).2)).1
      apply Function.update_of_ne
      intro equal
      rw [equal] at inside
      rcases List.mem_cons.mp inside with here | node
      · rw [header] at here
        rw [← here] at apart
        exact apart (List.mem_append_right _ List.mem_cons_self)
      · exact apart' node

end BackendCpp.Skiplist
