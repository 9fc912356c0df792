import BackendCpp.RbtreeC.Runs
import BackendCpp.RbtreeH.Fixup

/-!
# Where an insertion is repaired

The place of a new key is the free child pointer next to it in the order of the keys, and the
nodes above the place decide whether the fix-up mends the tree. Both are read off the memory
before the insertion; seen from the hole of the tree they are the innermost frame and
`Mendable`.
-/

namespace BackendCpp.RbtreeH

open BackendCpp.Library
open RbtreeC (Addr RbtreeNode Rbtree Cell Focus Sentinel Shape Valid Reach RED BLACK code ptr above
  pathCells nodeOf)

/-- The child of `father` on `side` is missing, and no key of the tree lies between the key of
`father` and the key of `z` on that side of it. -/
def Place (T : Rbtree) (z : Addr) : Side → Addr → Prop
  | .left, father => Reach T father ∧ (T.mem father).left = T.nil ∧
      (T.mem z).key < (T.mem father).key ∧
      ∀ a, Reach T a → (T.mem a).key < (T.mem father).key → (T.mem a).key < (T.mem z).key
  | .right, father => Reach T father ∧ (T.mem father).right = T.nil ∧
      (T.mem father).key < (T.mem z).key ∧
      ∀ a, Reach T a → (T.mem father).key < (T.mem a).key → (T.mem z).key < (T.mem a).key

/-- The side on which a node hangs. -/
def sideOf (T : Rbtree) (a : Addr) : Side :=
  if a = (T.mem (T.mem a).parent).left then .left else .right

/-- A red node on `side` of `father` is mended. The father is a black node; or father and uncle
are red, and a red grandfather is mended; or it is the LL case. -/
inductive Mends (T : Rbtree) : Side → Addr → Prop
  /-- A black father takes a red child. -/
  | black {side : Side} {father : Addr} (inner : father ≠ T.nil)
      (dark : (T.mem father).color = black) : Mends T side father
  /-- The colours of father, uncle and grandfather change, and the climb goes on. -/
  | uncle {side : Side} {father : Addr} (father_red : (T.mem father).color = red)
      (uncle_red : (T.mem (uncleOf T father)).color = red)
      (further : Mends T (sideOf T (T.mem father).parent) (T.mem (T.mem father).parent).parent) :
      Mends T side father
  /-- A rotation mends it. -/
  | ll {father : Addr} (father_red : (T.mem father).color = red)
      (uncle_black : (T.mem (uncleOf T father)).color = black)
      (outer : father = (T.mem (T.mem father).parent).left) : Mends T .left father

/-- The fix-up of an insertion of `z` repairs the tree: the tree is empty, or a red node at the
place of the key is mended. -/
def Repairs (T : Rbtree) (z : Addr) : Prop :=
  T.root = T.nil ∨ ∃ side father, Place T z side father ∧ Mends T side father

section mends

variable {T : Rbtree} {nil : Addr}

/-- Nothing is mended below the sentinel. -/
theorem not_mends_nil (sentinel : Sentinel nil (recode T)) (side : Side) : ¬ Mends T side T.nil := by
  have dark : (T.mem T.nil).color = black := by
    rw [← recode_black, ← recode_nil, sentinel.same, sentinel.black]
  have notRed : ¬ (T.mem T.nil).color = red := by
    rw [dark]
    decide
  intro mends
  cases mends with
  | black inner => exact inner rfl
  | uncle father_red => exact notRed father_red
  | ll father_red => exact notRed father_red

/-- The side on which the node in focus hangs is that of its frame. -/
theorem sideOf_eq {path : List (Frame Cell)} {frame : Frame Cell} {side : Side} {c : Colour}
    {near far : ColouredTree Cell} {cell : Cell}
    (focus : Focus (recode T) (frame :: path) (.join side c near cell far)) :
    sideOf T cell.addr = frame.side := by
  have parent : (T.mem cell.addr).parent = frame.item.addr := by
    rw [← recode_parent, focus.read, RbtreeC.nodeOf_parent, RbtreeC.above_cons]
  have test := focus.left_test (Or.inl (by simp))
  rw [RbtreeC.ptr_join, recode_left] at test
  unfold sideOf
  rw [parent]
  by_cases onLeft : frame.side = .left
  · rw [if_pos (test.mpr onLeft), onLeft]
  · rw [if_neg (fun same => onLeft (test.mp same))]
    cases side' : frame.side with
    | left => exact absurd side' onLeft
    | right => rfl

/-- Whether a red node is mended is read off the path above it. -/
theorem mends_iff {path : List (Frame Cell)} :
    ∀ {frame : Frame Cell} {t : ColouredTree Cell} {height : Nat}, Sentinel nil (recode T) →
      Focus (recode T) (frame :: path) t → Accepts (frame :: path) .black height →
      (Mends T frame.side frame.item.addr ↔ Mendable (frame :: path)) := by
  induction path using (measure List.length).wf.induction with
  | _ path ih =>
    intro frame t height sentinel focus accepts
    obtain ⟨side, c, p, sibling⟩ := frame
    have color : ((recode T).mem p.addr).color = code c := by
      rw [focus.read_above, RbtreeC.nodeOf_color]
    have inner : p.addr ≠ T.nil := focus.up.addr_ne_nil
    cases c with
    | black =>
      have dark : (T.mem p.addr).color = black := (recode_black ..).mp color
      exact iff_of_true (Mends.black inner dark) (mendable_black rfl path)
    | red =>
      have isRed : (T.mem p.addr).color = red := (recode_red ..).mp color
      have notBlack : ¬ (T.mem p.addr).color = black := by
        rw [isRed]
        decide
      obtain ⟨-, -, -, acceptsRed⟩ := accepts
      obtain ⟨outer, g, uncle, up, rfl, uncleBalanced, acceptsUp⟩ := acceptsRed.black_above
      have grand : (T.mem p.addr).parent = g.addr := focus.grand
      have top : (T.mem g.addr).parent = above T.nil up := by
        rw [← recode_parent, focus.up.read_above, RbtreeC.nodeOf_parent, recode_nil]
      have brother : uncleOf T p.addr = ptr T.nil uncle := uncleOf_eq focus
      have uncleColor : ((recode T).mem (ptr T.nil uncle)).color = code uncle.colour := by
        rw [← recode_nil, focus.up.across.color sentinel]
      have uncleRed : (T.mem (uncleOf T p.addr)).color = red ↔ uncle.colour = .red := by
        rw [brother, ← recode_red, uncleColor, RbtreeC.code_eq_red]
      have uncleBlack : (T.mem (uncleOf T p.addr)).color = black ↔ uncle.colour = .black := by
        rw [brother, ← recode_black, uncleColor, RbtreeC.code_eq_black]
      have outerLeft : p.addr = (T.mem g.addr).left ↔ outer = .left := focus.father_test
      have further : Mends T (sideOf T g.addr) (above T.nil up) ↔ Mendable up := by
        cases up with
        | nil => exact iff_of_false (not_mends_nil sentinel _) id
        | cons next up =>
          rw [sideOf_eq focus.up.up]
          have shorter : up.length < (next :: up).length + 1 := by
            rw [List.length_cons]
            omega
          exact ih up shorter sentinel focus.up.up acceptsUp
      constructor
      · intro mends
        cases mends with
        | black _ dark => exact absurd dark notBlack
        | uncle _ uncle_red more =>
          rw [grand, top] at more
          exact Or.inr (Or.inl ⟨uncleRed.mp uncle_red, further.mp more⟩)
        | ll _ uncle_black outside =>
          rw [grand] at outside
          exact Or.inr (Or.inr ⟨uncleBlack.mp uncle_black, outerLeft.mp outside, rfl⟩)
      · rintro (dark | ⟨uncle_red, more⟩ | ⟨uncle_black, outside, onLeft⟩)
        · cases dark
        · refine Mends.uncle isRed (uncleRed.mpr uncle_red) ?_
          rw [grand, top]
          exact further.mpr more
        · dsimp only at onLeft outside
          subst onLeft
          refine Mends.ll isRed (uncleBlack.mpr uncle_black) ?_
          rw [grand]
          exact outerLeft.mpr outside

end mends

/-- The descent of `rbtree_insert` finds every hole that the key fits. -/
theorem descent_finds {T : Rbtree} {key : Int} {lower : List (Frame Cell)} :
    ∀ {upper : List (Frame Cell)}, Focus T (lower ++ upper) .leaf →
      (∀ cell ∈ before (lower ++ upper), cell.key < key) →
      (∀ cell ∈ after (lower ++ upper), key < cell.key) →
      Leaves (fun fuel => loop (RbtreeC.insertDescentPass T key) fuel
        (ptr T.nil (fill lower .leaf), above T.nil upper)) (some (above T.nil (lower ++ upper))) := by
  induction lower using List.reverseRecOn with
  | nil =>
    intro upper _ _ _
    apply leaves_now
    simp [RbtreeC.insertDescentPass]
  | append_singleton lower frame ih =>
    intro upper focus low high
    have split : lower ++ [frame] ++ upper = lower ++ frame :: upper := by simp
    rw [split] at focus low high ⊢
    have below : Focus T (frame :: upper) (fill lower .leaf) := by
      rw [RbtreeC.focus_iff] at focus ⊢
      rw [fill_append] at focus
      exact focus
    have next := ih focus low high
    have inner : frame.item.addr ≠ T.nil := below.up.addr_ne_nil
    have keyAt : (T.mem frame.item.addr).key = frame.item.key := by
      rw [below.read_above, RbtreeC.nodeOf_key]
    have start : ptr T.nil (fill (lower ++ [frame]) .leaf) = frame.item.addr := by
      rw [fill_append, fill_cons, fill_nil, RbtreeC.ptr_join]
    rw [start]
    obtain ⟨side, c, item, sibling⟩ := frame
    have read := below.read_above
    refine leaves_next ?_ next
    simp only [RbtreeC.insertDescentPass, ne_eq, inner, not_false_eq_true, if_true, keyAt]
    cases side with
    | left =>
      have less : key < item.key := high item (by simp [after_append, after])
      rw [if_pos less, read]
      rfl
    | right =>
      have greater : item.key < key := low item (by simp [before_append, before])
      rw [if_neg (not_lt.mpr greater.le), if_pos greater, read]
      rfl

/-- Reachability does not look at colours. -/
theorem reach_recode {T : Rbtree} {a : Addr} : Reach (recode T) a ↔ Reach T a := by
  constructor
  · intro reach
    induction reach with
    | root inner => exact Reach.root inner
    | child side _ inner ih =>
      rw [recode_child] at inner ⊢
      exact Reach.child side ih inner
  · intro reach
    induction reach with
    | root inner => exact Reach.root (T := recode T) inner
    | @child a side _ inner ih =>
      rw [← recode_child] at inner ⊢
      exact Reach.child side ih inner

/-- The tree of the memory has a hole that the key of `z` fits. -/
structure Gap (T : Rbtree) (z : Addr) (cells : List Cell) (hole : List (Frame Cell)) : Prop where
  /-- The memory is a red-black tree with these cells. -/
  valid : Valid T.nil cells (recode T)
  /-- The keys increase. -/
  sorted : cells.Pairwise (fun a b => a.key < b.key)
  /-- The hole is a missing child. -/
  focus : Focus (recode T) hole .leaf
  /-- The cells around it are all cells. -/
  split : cells = before hole ++ after hole
  /-- The cells before it have smaller keys. -/
  low : ∀ cell ∈ before hole, cell.key < (T.mem z).key
  /-- The cells after it have greater keys. -/
  high : ∀ cell ∈ after hole, (T.mem z).key < cell.key

section place

variable {T : Rbtree} {z : Addr} {cells : List Cell}

/-- The reachable nodes and their keys. -/
theorem Gap.reach_iff {hole : List (Frame Cell)} (gap : Gap T z cells hole) (a : Addr) :
    Reach T a ↔ ∃ cell ∈ cells, cell.addr = a ∧ (T.mem a).key = cell.key := by
  rw [← reach_recode, gap.valid.reach_iff, List.mem_map]
  constructor
  · rintro ⟨cell, member, rfl⟩
    exact ⟨cell, member, rfl, (gap.valid.read member).2.1⟩
  · rintro ⟨cell, member, place, -⟩
    exact ⟨cell, member, place⟩

/-- The search for the key ends above the hole. -/
theorem Gap.endsBelow {hole : List (Frame Cell)} (gap : Gap T z cells hole) :
    EndsBelow T z (above T.nil hole) := by
  have focus := gap.focus
  have root : T.root = ptr T.nil (fill hole .leaf) := (RbtreeC.focus_iff.mp focus).root
  rw [← List.append_nil hole] at focus
  have low : ∀ cell ∈ before (hole ++ []), cell.key < (T.mem z).key := by
    rw [List.append_nil]
    exact gap.low
  have high : ∀ cell ∈ after (hole ++ []), (T.mem z).key < cell.key := by
    rw [List.append_nil]
    exact gap.high
  have found := descent_finds focus low high
  rw [List.append_nil, recode_nil, ← root] at found
  exact found

/-- The place of the key is at the innermost frame of the hole. -/
theorem Gap.place {frame : Frame Cell} {up : List (Frame Cell)}
    (gap : Gap T z cells (frame :: up)) : Place T z frame.side frame.item.addr := by
  have sorted := gap.sorted
  rw [gap.split] at sorted
  have read := gap.focus.read_above
  have member : frame.item ∈ cells := by
    rw [gap.split]
    obtain ⟨side, c, item, sibling⟩ := frame
    cases side <;> simp [before, after]
  have reach : Reach T frame.item.addr :=
    (gap.reach_iff _).mpr ⟨frame.item, member, rfl, (gap.valid.read member).2.1⟩
  have keyAt : (T.mem frame.item.addr).key = frame.item.key := (gap.valid.read member).2.1
  have low := gap.low
  have high := gap.high
  obtain ⟨side, c, item, sibling⟩ := frame
  cases side with
  | left =>
    refine ⟨reach, ?_, ?_, ?_⟩
    · rw [← recode_left, read]
      rfl
    · rw [keyAt]
      exact high item (by simp [after])
    · intro a reachable less
      obtain ⟨cell, listed, -, key⟩ := (gap.reach_iff a).mp reachable
      rw [key, keyAt] at less
      rw [key]
      rw [gap.split, List.mem_append] at listed
      rcases listed with inLow | inHigh
      · exact low cell inLow
      · rw [List.pairwise_append] at sorted
        simp only [after, List.cons_append, List.mem_cons] at inHigh sorted
        rcases inHigh with rfl | beyond
        · exact absurd less (lt_irrefl _)
        · exact absurd less ((List.pairwise_cons.mp sorted.2.1).1 cell beyond).not_gt
  | right =>
    refine ⟨reach, ?_, ?_, ?_⟩
    · rw [← recode_right, read]
      rfl
    · rw [keyAt]
      exact low item (by simp [before])
    · intro a reachable greater
      obtain ⟨cell, listed, -, key⟩ := (gap.reach_iff a).mp reachable
      rw [key, keyAt] at greater
      rw [key]
      rw [gap.split, List.mem_append] at listed
      rcases listed with inLow | inHigh
      · simp only [before] at inLow sorted
        rw [← List.append_assoc, List.mem_append, List.mem_singleton] at inLow
        rw [← List.append_assoc, List.pairwise_append, List.pairwise_append] at sorted
        rcases inLow with before | rfl
        · exact absurd greater (sorted.1.2.2 cell before item List.mem_cons_self).not_gt
        · exact absurd greater (lt_irrefl _)
      · exact high cell inHigh

/-- A place of the key is a hole that the key fits. -/
theorem Gap.of_place {hole : List (Frame Cell)} (gap : Gap T z cells hole) {side : Side}
    {father : Addr} (place : Place T z side father) :
    ∃ hole', Gap T z cells hole' ∧ above T.nil hole' = father := by
  have valid := gap.valid
  have sorted := gap.sorted
  obtain ⟨-, t, shape, -, items⟩ := gap.valid
  have locate : Reach T father → ∃ cell path c left right, cell.addr = father ∧
      (T.mem father).key = cell.key ∧ Focus (recode T) path (.node c left cell right) ∧
      cells = before path ++ (left.items ++ cell :: right.items) ++ after path := by
    intro reach
    obtain ⟨cell, member, at_father, key⟩ := (gap.reach_iff father).mp reach
    rw [← items] at member
    obtain ⟨path, c, left, right, whole, focus⟩ := shape.focus_of_mem member
    refine ⟨cell, path, c, left, right, at_father, key, focus, ?_⟩
    rw [← items, ← whole, items_fill]
    rfl
  have keyOf : ∀ other ∈ cells, Reach T other.addr ∧ (T.mem other.addr).key = other.key := by
    intro other member
    have key : (T.mem other.addr).key = other.key := (valid.read member).2.1
    exact ⟨(gap.reach_iff _).mpr ⟨other, member, rfl, key⟩, key⟩
  cases side with
  | left =>
    obtain ⟨reach, missing, less, adjacent⟩ := place
    obtain ⟨cell, path, c, left, right, rfl, key, focus, split⟩ := locate reach
    have fromLeft : Focus (recode T) path (.join .left c left cell right) := focus
    have empty : left = .leaf := by
      have pointer : (T.mem cell.addr).left = ptr T.nil left := by
        rw [← recode_left, focus.stored.1]
        rfl
      exact fromLeft.down.ptr_eq_nil.mp (pointer.symm.trans missing)
    subst empty
    have split' : cells = before path ++ cell :: (right.items ++ after path) := by
      rw [split]
      simp [ColouredTree.items]
    rw [split', List.pairwise_append, List.pairwise_cons] at sorted
    rw [key] at less adjacent
    refine ⟨⟨.left, c, cell, right⟩ :: path, ⟨valid, gap.sorted, fromLeft.down, ?_, ?_, ?_⟩, rfl⟩
    · exact split'
    · intro other member
      obtain ⟨reachable, otherKey⟩ := keyOf other (by rw [split']; exact List.mem_append_left _ member)
      have smaller := adjacent other.addr reachable
        (by rw [otherKey]; exact sorted.2.2 other member cell List.mem_cons_self)
      rw [otherKey] at smaller
      exact smaller
    · intro other member
      simp only [after, List.cons_append, List.mem_cons] at member
      rcases member with rfl | beyond
      · exact less
      · exact less.trans (sorted.2.1.1 other beyond)
  | right =>
    obtain ⟨reach, missing, greater, adjacent⟩ := place
    obtain ⟨cell, path, c, left, right, rfl, key, focus, split⟩ := locate reach
    have fromRight : Focus (recode T) path (.join .right c right cell left) := focus
    have empty : right = .leaf := by
      have pointer : (T.mem cell.addr).right = ptr T.nil right := by
        rw [← recode_right, focus.stored.1]
        rfl
      exact fromRight.down.ptr_eq_nil.mp (pointer.symm.trans missing)
    subst empty
    have split' : cells = (before path ++ left.items) ++ cell :: after path := by
      rw [split]
      simp [ColouredTree.items]
    rw [split', List.pairwise_append, List.pairwise_cons] at sorted
    rw [key] at greater adjacent
    refine ⟨⟨.right, c, cell, left⟩ :: path, ⟨valid, gap.sorted, fromRight.down, ?_, ?_, ?_⟩, rfl⟩
    · rw [split']
      simp [before, after]
    · intro other member
      simp only [before] at member
      rw [← List.append_assoc, List.mem_append, List.mem_singleton] at member
      rcases member with earlier | rfl
      · exact (sorted.2.2 other earlier cell List.mem_cons_self).trans greater
      · exact greater
    · intro other member
      obtain ⟨reachable, otherKey⟩ := keyOf other
        (by rw [split']; exact List.mem_append_right _ (List.mem_cons_of_mem _ member))
      have beyond := adjacent other.addr reachable
        (by rw [otherKey]; exact sorted.2.1.1 other member)
      rw [otherKey] at beyond
      exact beyond

/-- The key has one place. -/
theorem Gap.place_unique {frame : Frame Cell} {up : List (Frame Cell)}
    (gap : Gap T z cells (frame :: up)) {side : Side} {father : Addr}
    (place : Place T z side father) : side = frame.side ∧ father = frame.item.addr := by
  obtain ⟨hole', gap', at_father⟩ := gap.of_place place
  have ends : EndsBelow T z father := at_father ▸ gap'.endsBelow
  have same : father = frame.item.addr := Option.some.inj (ends.unique gap.endsBelow)
  subst same
  refine ⟨?_, rfl⟩
  have mine := gap.place
  cases side with
  | left =>
    cases here : frame.side with
    | left => rfl
    | right =>
      rw [here] at mine
      exact absurd place.2.2.1 mine.2.2.1.not_gt
  | right =>
    cases here : frame.side with
    | left =>
      rw [here] at mine
      exact absurd place.2.2.1 mine.2.2.1.not_gt
    | right => rfl

/-- Whether an insertion is repaired is read off the hole of its key. -/
theorem Gap.repairs_iff {hole : List (Frame Cell)} (gap : Gap T z cells hole)
    (accepts : Accepts hole .black 0) : Repairs T z ↔ hole = [] ∨ Mendable hole := by
  have shape := RbtreeC.focus_iff.mp gap.focus
  cases hole with
  | nil => exact iff_of_true (Or.inl shape.root) (Or.inl rfl)
  | cons frame up =>
    have mends := mends_iff gap.valid.sentinel gap.focus accepts
    have nonempty : T.root ≠ T.nil := by
      intro clash
      have below := gap.focus.root_ne
      rw [RbtreeC.ptr_leaf] at below
      exact below clash.symm
    constructor
    · rintro (isEmpty | ⟨side, father, place, mended⟩)
      · exact absurd isEmpty nonempty
      · obtain ⟨rfl, rfl⟩ := gap.place_unique place
        exact Or.inr (mends.mp mended)
    · rintro (isEmpty | mendable)
      · cases isEmpty
      · exact Or.inr ⟨_, _, gap.place, mends.mpr mendable⟩

end place

end BackendCpp.RbtreeH
