import BackendCpp.Skiplist.Shape

/-!
# Insertion

The new node stands behind the nodes with a smaller score, on each of its levels.
-/

namespace BackendCpp.Skiplist

open BackendCpp.Library

/-- The outcome of `zslRandomLevel`. -/
theorem zslRandomLevel_bounds (hits : Nat) :
    0 < zslRandomLevel hits ∧ zslRandomLevel hits ≤ ZSKIPLIST_MAXLEVEL := by
  unfold zslRandomLevel ZSKIPLIST_MAXLEVEL
  split
  · omega
  · omega

/-- The list after the allocation of a node. -/
def allocate (zsl : Zskiplist) (score func : UInt64) (level address : Nat)
    (memory : Nat → Option Nat) : Zskiplist where
  header := zsl.header
  length := zsl.length
  level := if zsl.level < level then level else zsl.level
  nodes := Function.update zsl.nodes address (some ⟨score, func, level, memory⟩)

section Allocate

variable (zsl : Zskiplist) (score func : UInt64) (level address : Nat) (memory : Nat → Option Nat)

/-- The new node has its number of levels. -/
@[simp] theorem allocate_height_self :
    (allocate zsl score func level address memory).height address = level := by
  simp [Zskiplist.height, allocate]

/-- The new node has its score. -/
@[simp] theorem allocate_scoreOf_self :
    (allocate zsl score func level address memory).scoreOf address = score := by
  simp [Zskiplist.scoreOf, allocate]

variable {x : Nat} (other : x ≠ address)

include other

/-- Another node keeps its levels. -/
theorem allocate_height :
    (allocate zsl score func level address memory).height x = zsl.height x := by
  simp [Zskiplist.height, allocate, other]

/-- Another node keeps its score. -/
theorem allocate_scoreOf :
    (allocate zsl score func level address memory).scoreOf x = zsl.scoreOf x := by
  simp [Zskiplist.scoreOf, allocate, other]

/-- Another node keeps its pointers. -/
theorem allocate_next (i : Nat) :
    (allocate zsl score func level address memory).next i x = zsl.next i x := by
  simp [Zskiplist.next, allocate, other]

end Allocate

/-- An address without memory has no levels. -/
theorem height_eq_zero {zsl : Zskiplist} {address : Nat} (free : zsl.nodes address = none) :
    zsl.height address = 0 := by
  unfold Zskiplist.height
  rw [free]
  rfl

/-- An address without node is not in the list. -/
theorem Shape.absent {zsl : Zskiplist} {order : List Nat} (shape : Shape zsl order)
    {address : Nat} (free : zsl.height address = 0) : address ∉ zsl.header :: order := by
  intro member
  rcases List.mem_cons.mp member with here | node
  · have all := shape.header
    rw [← here, free] at all
    exact absurd all (by decide)
  · have low := shape.low address node
    omega

/-- What an insertion leaves: a new node behind the nodes of `before`, on each of its levels. -/
structure Inserted (zsl : Zskiplist) (before : List Nat) (score : UInt64) (level address : Nat)
    (zsl' : Zskiplist) : Prop where
  /-- The same header. -/
  header : zsl'.header = zsl.header
  /-- The length is not yet counted. -/
  length : zsl'.length = zsl.length
  /-- There are levels for the new node. -/
  levels : zsl'.level = if zsl.level < level then level else zsl.level
  /-- The new node is as high as it was made. -/
  heightNew : zsl'.height address = level
  /-- The heights of the others are the same. -/
  height : ∀ x, x ≠ address → zsl'.height x = zsl.height x
  /-- The new node has its score. -/
  scoreNew : zsl'.scoreOf address = score
  /-- The scores of the others are the same. -/
  scoreOf : ∀ x, x ≠ address → zsl'.scoreOf x = zsl.scoreOf x
  /-- On its levels the new node follows the last one before it. -/
  linked : ∀ i, i < level → zsl'.next i (zsl.pred before i) = some address
  /-- On its levels it is followed by what followed that one. -/
  follower : ∀ i, i < level → zsl'.next i address = zsl.next i (zsl.pred before i)
  /-- The other successors are the same. -/
  next : ∀ i x, x ≠ address → (i < level → x ≠ zsl.pred before i) →
    zsl'.next i x = zsl.next i x

/-- The last loop of `zslInsert` puts the new node behind the node before it, on each of its
levels. -/
theorem link_levels {zsl : Zskiplist} {before behind : List Nat}
    (shape : Shape zsl (before ++ behind)) (score func : UInt64) {level address : Nat}
    (memory : Nat → Option Nat) (bounded : level ≤ ZSKIPLIST_MAXLEVEL)
    (absent : address ∉ zsl.header :: (before ++ behind)) (update : Nat → Option Nat)
    (updates : ∀ i, i < level → update i = some (zsl.pred before i)) :
    ∃ zsl', (List.range level).foldlM (linkPass address update)
        (allocate zsl score func level address memory) = some zsl' ∧
      Inserted zsl before score level address zsl' := by
  have apart : ∀ i, zsl.pred before i ≠ address := by
    intro i same
    rw [← same] at absent
    exact absent (pred_mem before behind i)
  obtain ⟨zsl', done, same, next⟩ := foldlM_levels (linkPass address update)
    (fun i next => Function.update (Function.update next address
      (next (zsl.pred before i))) (zsl.pred before i) (some address))
    (allocate zsl score func level address memory) (List.range level) (by
      intro state i member same _
      have below := List.mem_range.mp member
      apply linkPass_spec (updates i below)
      · rw [same.height, allocate_height _ _ _ _ _ _ (apart i)]
        exact pred_height shape.header (lt_of_lt_of_le below bounded)
      · rw [same.height, allocate_height_self]
        exact below) List.nodup_range
  have onLevel : ∀ i, i < level → zsl'.next i = Function.update (Function.update
      ((allocate zsl score func level address memory).next i) address
      (zsl.next i (zsl.pred before i))) (zsl.pred before i) (some address) := by
    intro i below
    rw [next i, if_pos (List.mem_range.mpr below), allocate_next _ _ _ _ _ _ (apart i)]
  refine ⟨zsl', done, same.header, same.length, same.level, ?_, ?_, ?_, ?_, ?_, ?_, ?_⟩
  · rw [same.height, allocate_height_self]
  · intro x other
    rw [same.height, allocate_height _ _ _ _ _ _ other]
  · rw [same.scoreOf, allocate_scoreOf_self]
  · intro x other
    rw [same.scoreOf, allocate_scoreOf _ _ _ _ _ _ other]
  · intro i below
    rw [onLevel i below, Function.update_self]
  · intro i below
    rw [onLevel i below, Function.update_of_ne (apart i).symm, Function.update_self]
  · intro i x other different
    by_cases below : i < level
    · rw [onLevel i below, Function.update_of_ne (different below), Function.update_of_ne other,
        allocate_next _ _ _ _ _ _ other]
    · rw [next i, if_neg (fun member => below (List.mem_range.mp member)),
        allocate_next _ _ _ _ _ _ other]

section Inserted

variable {zsl zsl' : Zskiplist} {before behind : List Nat} {score : UInt64} {level address : Nat}
  (shape : Shape zsl (before ++ behind))
  (absent : address ∉ zsl.header :: (before ++ behind))
  (inserted : Inserted zsl before score level address zsl')

include absent in
/-- The new node is none of the old ones. -/
theorem ne_of_absent {x : Nat} (member : x ∈ zsl.header :: (before ++ behind)) : x ≠ address := by
  intro equal
  rw [equal] at member
  exact absent member

include absent in
/-- No node before the place is the new one. -/
theorem ne_of_absent_before {x : Nat} (member : x ∈ before) : x ≠ address :=
  ne_of_absent absent (List.mem_cons_of_mem _ (List.mem_append_left _ member))

include absent in
/-- No node behind the place is the new one. -/
theorem ne_of_absent_behind {x : Nat} (member : x ∈ behind) : x ≠ address :=
  ne_of_absent absent (List.mem_cons_of_mem _ (List.mem_append_right _ member))

/-- A node of the new list is the new node or an old one. -/
theorem mem_inserted {x : Nat} (member : x ∈ before ++ address :: behind) :
    x = address ∨ x ∈ before ++ behind := by
  rw [List.mem_append, List.mem_cons] at member
  rw [List.mem_append]
  tauto

include inserted

/-- The old nodes stay on their levels. -/
theorem Inserted.tall (i : Nat) {list : List Nat} (old : ∀ x ∈ list, x ≠ address) :
    zsl'.tall i list = zsl.tall i list := by
  apply List.filter_congr
  intro x member
  rw [inserted.height x (old x member)]

include absent

/-- The scores are in order when the new one is between its neighbours. -/
theorem Inserted.sorted
    (sorted : (before ++ behind).Pairwise fun x y => zsl.scoreOf x ≤ zsl.scoreOf y)
    (smaller : ∀ x ∈ before, zsl.scoreOf x < score)
    (larger : ∀ x ∈ behind, score ≤ zsl.scoreOf x) :
    (before ++ address :: behind).Pairwise fun x y => zsl'.scoreOf x ≤ zsl'.scoreOf y := by
  obtain ⟨first, second, across⟩ := List.pairwise_append.mp sorted
  have inBefore : ∀ x ∈ before, zsl'.scoreOf x = zsl.scoreOf x := fun x member =>
    inserted.scoreOf x (ne_of_absent_before absent member)
  have inBehind : ∀ x ∈ behind, zsl'.scoreOf x = zsl.scoreOf x := fun x member =>
    inserted.scoreOf x (ne_of_absent_behind absent member)
  refine List.pairwise_append.mpr ⟨?_, List.pairwise_cons.mpr ⟨?_, ?_⟩, ?_⟩
  · apply first.imp_of_mem
    intro x y memberX memberY le
    rw [inBefore x memberX, inBefore y memberY]
    exact le
  · intro y member
    rw [inserted.scoreNew, inBehind y member]
    exact larger y member
  · apply second.imp_of_mem
    intro x y memberX memberY le
    rw [inBehind x memberX, inBehind y memberY]
    exact le
  · intro x memberX y memberY
    rw [inBefore x memberX]
    rcases List.mem_cons.mp memberY with new | old
    · rw [new, inserted.scoreNew]
      exact UInt64.le_of_lt (smaller x memberX)
    · rw [inBehind y old]
      exact across x memberX y old

include shape

/-- On every level the nodes follow each other. -/
theorem Inserted.follows {i : Nat} (below : i < ZSKIPLIST_MAXLEVEL) :
    Follows (zsl'.next i) (zsl.header :: zsl'.tall i (before ++ address :: behind)) := by
  obtain ⟨follows, notBefore, notBehind⟩ := shape.split below
  have inFront : ∀ x ∈ (zsl.header :: zsl.tall i before).dropLast, x ≠ address := by
    intro x member
    rcases List.mem_cons.mp (List.mem_of_mem_dropLast member) with here | node
    · rw [here]
      exact ne_of_absent absent List.mem_cons_self
    · exact ne_of_absent_before absent (List.mem_of_mem_filter node)
  have inBack : ∀ x ∈ zsl.tall i behind, x ≠ address := fun x member =>
    ne_of_absent_behind absent (List.mem_of_mem_filter member)
  have differs : ∀ {x : Nat} {list : List Nat}, x ∈ list → zsl.pred before i ∉ list →
      x ≠ zsl.pred before i := by
    intro x list member without equal
    rw [equal] at member
    exact without member
  have front := dropLast_getLastD zsl.header (zsl.tall i before)
  have tallBefore := inserted.tall i fun x => ne_of_absent_before absent
  have tallBehind := inserted.tall i fun x => ne_of_absent_behind absent
  rw [tall_append, tallBefore, ← List.cons_append, ← front, List.append_assoc]
  by_cases tall : i < level
  · have kept : zsl'.tall i (address :: behind) = address :: zsl.tall i behind := by
      rw [tall_cons_pos (by rw [inserted.heightNew]; exact tall), tallBehind]
    rw [kept]
    apply follows.insert
    · intro x member
      exact inserted.next i x (inFront x member) fun _ => differs member notBefore
    · intro x member
      exact inserted.next i x (inBack x member) fun _ => differs member notBehind
    · exact inserted.linked i tall
    · exact inserted.follower i tall
  · have kept : zsl'.tall i (address :: behind) = zsl.tall i behind := by
      rw [tall_cons_neg (by rw [inserted.heightNew]; exact tall), tallBehind]
    rw [kept]
    apply follows.congr
    intro x member
    refine inserted.next i x ?_ fun below => absurd below tall
    rcases List.mem_append.mp member with inside | rest
    · exact inFront x inside
    · rcases List.mem_cons.mp rest with here | behind'
      · rw [here]
        exact ne_of_absent absent (pred_mem before behind i)
      · exact inBack x behind'

/-- The level is that of the highest node, or one. -/
theorem Inserted.reached : zsl'.level = 1 ∨
    ∃ x ∈ before ++ address :: behind, zsl'.height x = zsl'.level := by
  rw [inserted.levels]
  by_cases higher : zsl.level < level
  · rw [if_pos higher]
    exact Or.inr ⟨address, by simp, inserted.heightNew⟩
  · rw [if_neg higher]
    rcases shape.reached with one | ⟨x, member, reached⟩
    · exact Or.inl one
    · refine Or.inr ⟨x, ?_, ?_⟩
      · rw [List.mem_append] at member
        rw [List.mem_append, List.mem_cons]
        tauto
      · rw [inserted.height x (ne_of_absent absent (List.mem_cons_of_mem _ member))]
        exact reached

/-- The new node in the order of the list. -/
theorem insert_shape (positive : 0 < level) (bounded : level ≤ ZSKIPLIST_MAXLEVEL)
    (smaller : ∀ x ∈ before, zsl.scoreOf x < score)
    (larger : ∀ x ∈ behind, score ≤ zsl.scoreOf x) :
    Shape { zsl' with length := zsl'.length + 1 } (before ++ address :: behind) := by
  have height : ∀ x ∈ before ++ behind, zsl'.height x = zsl.height x := fun x member =>
    inserted.height x (ne_of_absent absent (List.mem_cons_of_mem _ member))
  have sorted := inserted.sorted absent shape.sorted smaller larger
  have reached := inserted.reached shape absent
  refine ⟨?_, ?_, ?_, ?_, sorted, ?_, ?_, ?_, reached, ?_⟩
  · show zsl'.height zsl'.header = ZSKIPLIST_MAXLEVEL
    rw [inserted.header, inserted.height _ (ne_of_absent absent List.mem_cons_self)]
    exact shape.header
  · intro x member
    show 0 < zsl'.height x
    rcases mem_inserted member with new | old
    · rw [new, inserted.heightNew]
      exact positive
    · rw [height x old]
      exact shape.low x old
  · intro x member
    show zsl'.height x ≤ ZSKIPLIST_MAXLEVEL
    rcases mem_inserted member with new | old
    · rw [new, inserted.heightNew]
      exact bounded
    · rw [height x old]
      exact shape.high x old
  · show (zsl'.header :: (before ++ address :: behind)).Nodup
    rw [inserted.header, ← List.cons_append]
    apply List.nodup_middle.mpr
    rw [List.cons_append]
    exact List.nodup_cons.mpr ⟨absent, shape.distinct⟩
  · intro i below
    show Follows (zsl'.next i) (zsl'.header :: zsl'.tall i (before ++ address :: behind))
    rw [inserted.header]
    exact inserted.follows shape absent below
  · show 0 < zsl'.level
    rw [inserted.levels]
    split
    · exact positive
    · exact shape.positive
  · intro x member
    show zsl'.height x ≤ zsl'.level
    rw [inserted.levels]
    rcases mem_inserted member with new | old
    · rw [new, inserted.heightNew]
      split
      · exact le_rfl
      · omega
    · have low := shape.covers x old
      rw [height x old]
      split
      · omega
      · exact low
  · show zsl'.length + 1 = ((before ++ address :: behind).length : Int)
    rw [inserted.length, shape.length, List.length_append, List.length_append, List.length_cons]
    omega

end Inserted

/-- Inserting keeps the shape; the new node stands behind the smaller scores, and the others stay
as they are. -/
theorem zslInsert_shape {zsl : Zskiplist} {order : List Nat} (shape : Shape zsl order)
    (score func : UInt64) (hits : Nat) {address : Nat} (memory : Nat → Option Nat)
    (free : zsl.height address = 0) (room : (order.length : Int) + 1 < 2 ^ 31) :
    ∃ zsl', Leaves (fun fuel => zslInsert fuel zsl score func hits address memory) zsl' ∧
      Shape zsl' (zsl.before order score ++ address :: zsl.behind order score) ∧
      0 < zsl'.height address ∧ zsl'.scoreOf address = score ∧
      ∀ x, x ≠ address → zsl'.height x = zsl.height x ∧ zsl'.scoreOf x = zsl.scoreOf x := by
  obtain ⟨positive, bounded⟩ := zslRandomLevel_bounds hits
  obtain ⟨found, leaves, _, lower⟩ := search_header shape score
  have absent := shape.absent free
  have split := before_append_behind zsl order score
  have shape' : Shape zsl (zsl.before order score ++ zsl.behind order score) := by
    rw [split]
    exact shape
  have absent' : address ∉ zsl.header :: (zsl.before order score ++ zsl.behind order score) := by
    rw [split]
    exact absent
  obtain ⟨zsl', done, inserted⟩ := link_levels shape' score func memory bounded absent'
    (fun i => if zsl.level ≤ i ∧ i < zslRandomLevel hits then some zsl.header
      else found.2 i) (by
      intro i below
      by_cases above : zsl.level ≤ i
      · rw [if_pos ⟨above, below⟩, shape'.pred_header above]
      · rw [if_neg (by omega), lower i (by omega)])
  have smaller : ∀ x ∈ zsl.before order score, zsl.scoreOf x < score := by
    intro x member
    simpa using List.mem_takeWhile_imp member
  have larger : ∀ x ∈ zsl.behind order score, score ≤ zsl.scoreOf x := by
    intro x member
    exact UInt64.not_lt.mp (dropWhile_ge shape.sorted x member)
  refine ⟨{ zsl' with length := zsl'.length + 1 }, ?_,
    insert_shape shape' absent' inserted positive bounded smaller larger,
    inserted.heightNew.symm ▸ positive, inserted.scoreNew,
    fun x other => ⟨inserted.height x other, inserted.scoreOf x other⟩⟩
  · apply leaves.bind
    apply Leaves.of_forall
    intro fuel
    have start : allocate zsl score func (zslRandomLevel hits) address memory =
        { (if zsl.level < zslRandomLevel hits then { zsl with level := zslRandomLevel hits }
          else zsl) with
          nodes := Function.update
            (if zsl.level < zslRandomLevel hits then { zsl with level := zslRandomLevel hits }
              else zsl).nodes address (some ⟨score, func, zslRandomLevel hits, memory⟩) } := by
      unfold allocate
      split
      · rfl
      · rfl
    rw [start] at done
    simp only [done, Option.bind_some]
    rw [inserted.length, shape.length, if_pos room]

end BackendCpp.Skiplist
