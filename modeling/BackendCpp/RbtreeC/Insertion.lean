import BackendCpp.RbtreeC.Rotation

/-!
# Insertion

The loop of `rbtree_insert_fixup` runs with one red node `z` below a path that accepts a
black one of the same height: the only possible fault is a red parent. A red uncle moves
the fault two frames up; a black uncle ends it with one or two rotations. Every pass keeps
the in-order sequence and shortens the path, so the loop leaves with a red-black tree.
-/

namespace BackendCpp.RbtreeC

open BackendCpp.Library

/-- The memory spells a red-black tree with the given cells in order. -/
structure Valid (nil : Addr) (cells : List Cell) (T : Rbtree) : Prop where
  /-- The sentinel is in place. -/
  sentinel : Sentinel nil T
  /-- The tree and its balance. -/
  shape : ∃ t, Shape T t ∧ t.RedBlack ∧ t.items = cells

section passes

variable {T : Rbtree} {nil : Addr} {inner outer : Side} {p g : Cell}
  {sibling uncle t : ColouredTree Cell} {up : List (Frame Cell)} {c d : Colour}

/-- The red-uncle branch: parent and uncle become black, the grandparent red. -/
theorem insertRecolour_spec (sentinel : Sentinel nil T)
    (focus : Focus T (⟨inner, c, p, sibling⟩ :: ⟨outer, d, g, uncle⟩ :: up) t)
    (node : t ≠ .leaf) (uncleNode : uncle ≠ .leaf) :
    Sentinel nil (insertRecolour T (ptr T.nil t) (ptr T.nil uncle)).1 ∧
      Focus (insertRecolour T (ptr T.nil t) (ptr T.nil uncle)).1 up
        (.join outer .red (.join inner .black t p sibling) g (uncle.paint .black)) ∧
      (insertRecolour T (ptr T.nil t) (ptr T.nil uncle)).2 = g.addr := by
  obtain ⟨uncleNear, u, uncleFar, uncleJoin⟩ := ColouredTree.exists_join inner uncleNode
  have parent : (T.mem (ptr T.nil t)).parent = p.addr := focus.parent node
  let T1 := T.setColor p.addr BLACK
  have first : Focus T1 (⟨outer, d, g, uncle⟩ :: up) (.join inner .black t p sibling) :=
    focus.up.setColor .black
  have firstSentinel : Sentinel nil T1 := sentinel.setColor focus.up.addr_ne_nil BLACK
  have atUncle := first.across
  rw [uncleJoin] at atUncle
  let T2 := T1.setColor u.addr BLACK
  have painted : Focus T2 (⟨outer.flip, d, g, .join inner .black t p sibling⟩ :: up)
      (.join inner .black uncleNear u uncleFar) := atUncle.setColor .black
  have secondSentinel : Sentinel nil T2 := firstSentinel.setColor atUncle.addr_ne_nil BLACK
  have second := painted.across
  rw [Side.flip_flip] at second
  have parent2 : (T2.mem (ptr T.nil t)).parent = p.addr := second.down.parent node
  have grand2 : (T2.mem p.addr).parent = g.addr := by rw [second.read, nodeOf_parent, above_cons]
  let T3 := T2.setColor g.addr RED
  have third : Focus T3 up (.join outer .red (.join inner .black t p sibling) g
      (.join inner .black uncleNear u uncleFar)) := second.up.setColor .red
  have thirdSentinel : Sentinel nil T3 := secondSentinel.setColor second.up.addr_ne_nil RED
  have parent3 : (T3.mem (ptr T.nil t)).parent = p.addr := third.down.down.parent node
  have grand3 : (T3.mem p.addr).parent = g.addr := by
    rw [third.down.read, nodeOf_parent, above_cons]
  have unclePtr : ptr T.nil uncle = u.addr := by rw [uncleJoin, ptr_join]
  have result : insertRecolour T (ptr T.nil t) (ptr T.nil uncle) = (T3, g.addr) := by
    unfold insertRecolour
    extract_lets A B C
    have sameA : A = T1 := by simp only [A, T1, parent]
    have sameB : B = T2 := by simp only [B, T2, sameA, unclePtr]
    have sameC : C = T3 := by simp only [C, T3, sameB, parent2, grand2]
    rw [sameC, parent3, grand3]
  have unclePaint : uncle.paint .black = .join inner .black uncleNear u uncleFar := by
    rw [uncleJoin, ColouredTree.paint_join]
  rw [result, unclePaint]
  exact ⟨thirdSentinel, third, rfl⟩

/-- The inner-child test turns an inner `z` into an outer one and leaves an outer one. -/
theorem insertStraighten_spec (sentinel : Sentinel nil T)
    (focus : Focus T (⟨inner, .red, p, sibling⟩ :: ⟨outer, .black, g, uncle⟩ :: up) t)
    {height : Nat} (red : t.colour = .red) (balanced : t.Balanced height)
    (siblingBlack : sibling.colour = .black) (siblingBalanced : sibling.Balanced height) :
    ∃ p' sibling' t',
      Sentinel nil (insertStraighten outer T (ptr T.nil t)).1 ∧
      Focus (insertStraighten outer T (ptr T.nil t)).1
        (⟨outer, .red, p', sibling'⟩ :: ⟨outer, .black, g, uncle⟩ :: up) t' ∧
      (insertStraighten outer T (ptr T.nil t)).2 = ptr T.nil t' ∧
      (insertStraighten outer T (ptr T.nil t)).1.nil = T.nil ∧
      t'.colour = .red ∧ t'.Balanced height ∧ sibling'.colour = .black ∧
      sibling'.Balanced height ∧
      (ColouredTree.join outer .red t' p' sibling').items =
        (ColouredTree.join inner .red t p sibling).items := by
  have node : t ≠ .leaf := by
    rintro rfl
    simp at red
  have parent : (T.mem (ptr T.nil t)).parent = p.addr := focus.parent node
  by_cases straight : inner = outer
  · subst straight
    have outside : ptr T.nil t ≠ (T.mem p.addr).child inner.flip := by
      have apart := focus.ptr_ne_sibling (Or.inl node)
      rw [focus.read_above, nodeOf_child_flip]
      exact apart
    have result : insertStraighten inner T (ptr T.nil t) = (T, ptr T.nil t) := by
      simp only [insertStraighten, parent, if_neg outside]
    rw [result]
    exact ⟨p, sibling, t, sentinel, focus, rfl, rfl, red, balanced, siblingBlack,
      siblingBalanced, rfl⟩
  · have bent := Side.eq_flip straight
    subst bent
    obtain ⟨near, z, far, whole⟩ := ColouredTree.exists_join outer node
    rw [red] at whole
    subst whole
    have turned := focus.up
    simp only [ColouredTree.join_flip] at turned
    obtain ⟨rotated, kept⟩ := turned.rotate
    have inside : z.addr = (T.mem p.addr).child outer.flip := by
      rw [focus.read_above, nodeOf_child, ptr_join]
    have result : insertStraighten outer T z.addr = (rotate outer T p.addr, p.addr) := by
      rw [ptr_join] at parent
      simp only [insertStraighten, parent, if_pos inside]
    rw [ColouredTree.balanced_join_red] at balanced
    obtain ⟨nearBlack, farBlack, nearBalanced, farBalanced⟩ := balanced
    rw [ptr_join, result]
    refine ⟨z, far, .join outer .red sibling p near, sentinel.rotate kept, rotated.down, ?_, ?_,
      ?_, ?_, farBlack, farBalanced, ?_⟩
    · rw [ptr_join]
    · exact nil_rotate outer T p.addr
    · exact ColouredTree.colour_join ..
    · exact ColouredTree.balanced_join_red.mpr
        ⟨siblingBlack, nearBlack, siblingBalanced, nearBalanced⟩
    · cases outer <;> simp [ColouredTree.join, ColouredTree.items, Side.flip]

/-- The last rotation lifts the parent of an outer `z` above the grandparent. -/
theorem insertLift_spec (sentinel : Sentinel nil T)
    (focus : Focus T (⟨outer, c, p, sibling⟩ :: ⟨outer, d, g, uncle⟩ :: up) t)
    (node : t ≠ .leaf) :
    Sentinel nil (insertLift outer T (ptr T.nil t)).1 ∧
      Focus (insertLift outer T (ptr T.nil t)).1
        (⟨outer, .black, p, .join outer.flip .red uncle g sibling⟩ :: up) t ∧
      (insertLift outer T (ptr T.nil t)).2 = ptr T.nil t := by
  have parent : (T.mem (ptr T.nil t)).parent = p.addr := focus.parent node
  let T1 := T.setColor p.addr BLACK
  have first : Focus T1 (⟨outer, d, g, uncle⟩ :: up) (.join outer .black t p sibling) :=
    focus.up.setColor .black
  have firstSentinel : Sentinel nil T1 := sentinel.setColor focus.up.addr_ne_nil BLACK
  have parent1 : (T1.mem (ptr T.nil t)).parent = p.addr := first.down.parent node
  have grand1 : (T1.mem p.addr).parent = g.addr := by rw [first.read, nodeOf_parent, above_cons]
  let T2 := T1.setColor g.addr RED
  have second : Focus T2 up (.join outer .red (.join outer .black t p sibling) g uncle) :=
    first.up.setColor .red
  have secondSentinel : Sentinel nil T2 := firstSentinel.setColor first.up.addr_ne_nil RED
  have parent2 : (T2.mem (ptr T.nil t)).parent = p.addr := second.down.down.parent node
  have grand2 : (T2.mem p.addr).parent = g.addr := by
    rw [second.down.read, nodeOf_parent, above_cons]
  have result : insertLift outer T (ptr T.nil t) =
      (rotate outer.flip T2 g.addr, ptr T.nil t) := by
    unfold insertLift
    extract_lets A B
    have sameA : A = T1 := by simp only [A, T1, parent]
    have sameB : B = T2 := by simp only [B, T2, sameA, parent1, grand1]
    rw [sameB, parent2, grand2]
  simp only [← ColouredTree.join_flip outer] at second
  obtain ⟨rotated, kept⟩ := second.rotate
  rw [ColouredTree.join_flip] at rotated
  rw [result]
  exact ⟨secondSentinel.rotate kept, rotated.down, rfl⟩

end passes

/-- The invariant of the loop of `rbtree_insert_fixup`, with the length of the path above
`z` as its measure. -/
def InsertInv (nil : Addr) (cells : List Cell) (size : Nat) (state : Rbtree × Addr) : Prop :=
  ∃ path t height, path.length = size ∧ Sentinel nil state.1 ∧ Focus state.1 path t ∧
    state.2 = ptr state.1.nil t ∧ t.colour = .red ∧ t.Balanced height ∧
    Accepts path .black height ∧ (fill path t).items = cells

/-- Blackening the root. -/
theorem Shape.blacken {T : Rbtree} {t : ColouredTree Cell} (shape : Shape T t) (node : t ≠ .leaf) :
    Shape (T.setColor T.root BLACK) (t.paint .black) := by
  obtain ⟨near, item, far, whole⟩ := ColouredTree.exists_join .left node
  have root : T.root = item.addr := by rw [shape.root, whole, ptr_join]
  have focus : Focus T [] (.join .left t.colour near item far) := by
    rw [focus_iff, fill_nil, ← whole]
    exact shape
  have painted := focus_iff.mp (focus.setColor .black)
  rw [root, whole, ColouredTree.paint_join]
  exact painted

/-- The loop of `rbtree_insert_fixup` ends in a red-black tree once the parent of `z` is not
red. -/
theorem insertFixup_leaves {T : Rbtree} {nil : Addr} {path : List (Frame Cell)}
    {t : ColouredTree Cell} {height : Nat} (sentinel : Sentinel nil T) (focus : Focus T path t)
    (balanced : t.Balanced height) (node : t ≠ .leaf)
    (accepts : path = [] ∨ Accepts path t.colour height) :
    Valid nil (fill path t).items (T.setColor T.root BLACK) := by
  have shape := focus_iff.mp focus
  have inner : fill path t ≠ .leaf := by
    intro leaf
    have cells := congrArg ColouredTree.items leaf
    rw [items_fill] at cells
    obtain ⟨near, item, far, whole⟩ := ColouredTree.exists_join .left node
    rw [whole] at cells
    simp [ColouredTree.join, ColouredTree.items] at cells
  have root : T.root ≠ T.nil := by
    rw [shape.root]
    have top : Focus T [] (fill path t) := focus_iff.mpr shape
    exact fun clash => inner (top.ptr_eq_nil.mp clash)
  refine ⟨sentinel.setColor root BLACK, (fill path t).paint .black, shape.blacken inner, ?_,
    ColouredTree.items_paint ..⟩
  rcases accepts with rfl | accepts
  · obtain ⟨near, item, far, whole⟩ := ColouredTree.exists_join .left node
    rw [fill_nil, whole, ColouredTree.paint_join]
    refine ⟨ColouredTree.colour_join .., ?_⟩
    rw [whole] at balanced
    cases colour : t.colour with
    | red =>
      rw [colour, ColouredTree.balanced_join_red] at balanced
      exact ⟨height + 1, ColouredTree.balanced_join_black.mpr balanced.2.2⟩
    | black =>
      rw [colour] at balanced
      exact ⟨height, balanced⟩
  · have whole := (redBlack_fill path t).mpr ⟨height, balanced, accepts⟩
    have same : (fill path t).paint .black = fill path t := by
      rw [← whole.1]
      exact ColouredTree.paint_colour _
    rw [same]
    exact whole

/-- One half of the body, run at a red parent on `outer`: the invariant holds again, two or
one frames further up. -/
theorem insertFixupSide_spec {T : Rbtree} {nil : Addr} {inner outer : Side} {p g : Cell}
    {sibling uncle t : ColouredTree Cell} {up : List (Frame Cell)} {height : Nat}
    (sentinel : Sentinel nil T)
    (focus : Focus T (⟨inner, .red, p, sibling⟩ :: ⟨outer, .black, g, uncle⟩ :: up) t)
    (red : t.colour = .red) (balanced : t.Balanced height)
    (siblingBlack : sibling.colour = .black) (siblingBalanced : sibling.Balanced height)
    (uncleBalanced : uncle.Balanced height) (accepts : Accepts up .black (height + 1)) :
    ∃ size, size < up.length + 2 ∧
      InsertInv nil
        (fill (⟨inner, .red, p, sibling⟩ :: ⟨outer, .black, g, uncle⟩ :: up) t).items size
        (insertFixupSide outer T (ptr T.nil t)) := by
  have node : t ≠ .leaf := by
    rintro rfl
    simp at red
  have parent : (T.mem (ptr T.nil t)).parent = p.addr := focus.parent node
  have grand : (T.mem p.addr).parent = g.addr := focus.grand
  have unclePtr : (T.mem g.addr).child outer.flip = ptr T.nil uncle := by
    rw [focus.up.read_above, nodeOf_child_flip]
  have uncleColor : (T.mem (ptr T.nil uncle)).color = code uncle.colour :=
    focus.up.across.color sentinel
  cases colour : uncle.colour with
  | red =>
    have uncleNode : uncle ≠ .leaf := by
      rintro rfl
      simp at colour
    obtain ⟨kept, moved, atG⟩ := insertRecolour_spec sentinel focus node uncleNode
    have result : insertFixupSide outer T (ptr T.nil t) =
        insertRecolour T (ptr T.nil t) (ptr T.nil uncle) := by
      simp only [insertFixupSide, parent, grand, unclePtr, uncleColor, colour, code, if_pos]
    rw [result]
    refine ⟨up.length, by omega, up, _, height + 1, rfl, kept, moved, ?_,
      ColouredTree.colour_join .., ?_, accepts, ?_⟩
    · rw [ptr_join, atG]
    · obtain ⟨uncleNear, u, uncleFar, uncleJoin⟩ := ColouredTree.exists_join inner uncleNode
      rw [uncleJoin, colour] at uncleBalanced
      rw [uncleJoin, ColouredTree.paint_join]
      simp only [ColouredTree.balanced_join_red, ColouredTree.colour_join] at uncleBalanced ⊢
      simp only [ColouredTree.balanced_join_black]
      exact ⟨trivial, trivial, ⟨balanced, siblingBalanced⟩, uncleBalanced.2.2⟩
    · refine items_fill_congr up ?_
      cases outer <;> cases inner <;>
        simp [ColouredTree.join, ColouredTree.items, ColouredTree.items_paint]
  | black =>
    obtain ⟨p', sibling', t', kept, straight, atT', sameNil, red', balanced', siblingBlack',
      siblingBalanced', order⟩ :=
      insertStraighten_spec sentinel focus red balanced siblingBlack siblingBalanced
    have node' : t' ≠ .leaf := by
      rintro rfl
      simp at red'
    have lifted := insertLift_spec kept straight node'
    rw [sameNil, ← atT'] at lifted
    obtain ⟨lastSentinel, last, atZ⟩ := lifted
    have result : insertFixupSide outer T (ptr T.nil t) =
        insertLift outer (insertStraighten outer T (ptr T.nil t)).1
          (insertStraighten outer T (ptr T.nil t)).2 := by
      have notRed : ¬ BLACK = RED := by decide
      simp only [insertFixupSide, parent, grand, unclePtr, uncleColor, colour, code, if_neg notRed]
    rw [result]
    refine ⟨up.length + 1, by omega, _, t', height, by simp, lastSentinel, last, ?_, red',
      balanced', ?_, ?_⟩
    · rw [lastSentinel.same, atZ, atT', sentinel.same]
    · rw [accepts_black]
      exact ⟨ColouredTree.balanced_join_red.mpr
        ⟨colour, siblingBlack', uncleBalanced, siblingBalanced'⟩, accepts⟩
    · refine items_fill_congr up ?_
      cases outer with
      | left =>
        change _ = (ColouredTree.join inner .red t p sibling).items ++ g :: uncle.items
        rw [← order]
        simp [ColouredTree.join, ColouredTree.items, Side.flip]
      | right =>
        change _ = uncle.items ++ g :: (ColouredTree.join inner .red t p sibling).items
        rw [← order]
        simp [ColouredTree.join, ColouredTree.items, Side.flip]

/-- One pass of the loop of `rbtree_insert_fixup` from an invariant state. -/
theorem insertFixupPass_spec (nil : Addr) (cells : List Cell) (size : Nat)
    (state : Rbtree × Addr) (inv : InsertInv nil cells size state) :
    (∃ smaller next, smaller < size ∧ insertFixupPass state = .inl next ∧
        InsertInv nil cells smaller next) ∨
      (∃ result, insertFixupPass state = .inr result ∧ Valid nil cells result) := by
  obtain ⟨T, z⟩ := state
  obtain ⟨path, t, height, rfl, sentinel, focus, atT, red, balanced, accepts, rfl⟩ := inv
  dsimp only at sentinel focus atT
  subst atT
  have node : t ≠ .leaf := by
    rintro rfl
    simp at red
  have parent : (T.mem (ptr T.nil t)).parent = above T.nil path := focus.parent node
  have notRed : ¬ BLACK = RED := by decide
  cases path with
  | nil =>
    right
    have color : (T.mem T.nil).color = BLACK := by rw [sentinel.same, sentinel.black]
    refine ⟨_, ?_, insertFixup_leaves sentinel focus balanced node (Or.inl rfl)⟩
    simp only [insertFixupPass, parent, above_nil, color, if_neg notRed]
  | cons frame path =>
    obtain ⟨inner, c, p, sibling⟩ := frame
    rw [above_cons] at parent
    have color : (T.mem p.addr).color = code c := by rw [focus.read_above, nodeOf_color]
    cases c with
    | black =>
      right
      refine ⟨_, ?_, insertFixup_leaves sentinel focus balanced node (Or.inr accepts)⟩
      simp only [insertFixupPass, parent, color, code, if_neg notRed]
    | red =>
      left
      obtain ⟨-, siblingBlack, siblingBalanced, acceptsRed⟩ := accepts
      obtain ⟨outer, g, uncle, up, rfl, uncleBalanced, acceptsUp⟩ := acceptsRed.black_above
      have grand : (T.mem p.addr).parent = g.addr := focus.grand
      have test : p.addr = (T.mem g.addr).left ↔ outer = .left := focus.father_test
      obtain ⟨smaller, less, next⟩ := insertFixupSide_spec sentinel focus red balanced
        siblingBlack siblingBalanced uncleBalanced acceptsUp
      refine ⟨smaller, _, by simp only [List.length_cons]; omega, ?_, next⟩
      cases outer with
      | left =>
        simp only [insertFixupPass, parent, color, code, grand, if_pos (test.mpr rfl), if_pos]
      | right =>
        have other : ¬ p.addr = (T.mem g.addr).left := fun same => by simpa using test.mp same
        simp only [insertFixupPass, parent, color, code, grand, if_neg other, if_pos]

/-- `rbtree_insert_fixup` returns, and the tree is then a red-black tree on the same cells. -/
theorem rbtreeInsertFixup_spec {T : Rbtree} {nil z : Addr} {cells : List Cell} {size : Nat}
    (inv : InsertInv nil cells size (T, z)) :
    ∃ T', Leaves (fun fuel => rbtreeInsertFixup fuel T z) T' ∧ Valid nil cells T' :=
  loop_rule (InsertInv nil cells) (Valid nil cells) (insertFixupPass_spec nil cells) size (T, z) inv

/-- The descent of `rbtree_insert` below a focus. It finds the key, or the hole between the
cells with smaller and those with greater keys. -/
theorem insertDescent_spec {T : Rbtree} (key : Int) {t : ColouredTree Cell}
    {path : List (Frame Cell)} (focus : Focus T path t)
    (sorted : t.items.Pairwise (fun a b => a.key < b.key))
    (low : ∀ cell ∈ before path, cell.key < key) (high : ∀ cell ∈ after path, key < cell.key) :
    (∃ cell ∈ t.items, cell.key = key ∧
      Leaves (fun fuel => loop (insertDescentPass T key) fuel (ptr T.nil t, above T.nil path))
        none) ∨
    (∃ hole, fill hole .leaf = fill path t ∧ (∀ cell ∈ before hole, cell.key < key) ∧
      (∀ cell ∈ after hole, key < cell.key) ∧
      Leaves (fun fuel => loop (insertDescentPass T key) fuel (ptr T.nil t, above T.nil path))
        (some (above T.nil hole))) := by
  induction t generalizing path with
  | leaf =>
    right
    refine ⟨path, rfl, low, high, leaves_now ?_⟩
    simp [insertDescentPass]
  | node c left cell right ihLeft ihRight =>
    have fromLeft : Focus T path (.join .left c left cell right) := focus
    have fromRight : Focus T path (.join .right c right cell left) := focus
    have inner := fromLeft.addr_ne_nil
    have keyAt : (T.mem cell.addr).key = cell.key := by rw [focus.stored.1, nodeOf_key]
    have leftAt : (T.mem cell.addr).left = ptr T.nil left := by rw [focus.stored.1]; rfl
    have rightAt : (T.mem cell.addr).right = ptr T.nil right := by rw [focus.stored.1]; rfl
    simp only [ColouredTree.items, List.pairwise_append, List.pairwise_cons] at sorted
    obtain ⟨sortedLeft, ⟨cellRight, sortedRight⟩, leftRest⟩ := sorted
    rcases lt_trichotomy key cell.key with less | same | greater
    · have pass : insertDescentPass T key (cell.addr, above T.nil path) =
          .inl (ptr T.nil left, cell.addr) := by
        simp only [insertDescentPass, keyAt, leftAt, if_pos less, ne_eq, inner,
          not_false_eq_true, if_true]
      have highLeft : ∀ other ∈ after (⟨.left, c, cell, right⟩ :: path), key < other.key := by
        intro other member
        simp only [after, List.cons_append, List.mem_cons, List.mem_append] at member
        rcases member with rfl | inRight | above
        · exact less
        · exact less.trans (cellRight other inRight)
        · exact high other above
      rcases ihLeft fromLeft.down sortedLeft low highLeft with ⟨found, member, hit, leaves⟩ |
        ⟨hole, whole, lowHole, highHole, leaves⟩
      · exact Or.inl ⟨found, by simp [ColouredTree.items, member], hit, leaves_next pass leaves⟩
      · exact Or.inr ⟨hole, whole, lowHole, highHole, leaves_next pass leaves⟩
    · left
      refine ⟨cell, by simp [ColouredTree.items], same.symm, leaves_now ?_⟩
      have pass : insertDescentPass T key (cell.addr, above T.nil path) = .inr none := by
        simp only [insertDescentPass, keyAt, same, lt_irrefl, if_false, ne_eq, inner,
          not_false_eq_true, if_true]
      exact pass
    · have notLess : ¬ key < cell.key := not_lt.mpr greater.le
      have pass : insertDescentPass T key (cell.addr, above T.nil path) =
          .inl (ptr T.nil right, cell.addr) := by
        simp only [insertDescentPass, keyAt, rightAt, if_neg notLess, if_pos greater, ne_eq,
          inner, not_false_eq_true, if_true, gt_iff_lt]
      have lowRight : ∀ other ∈ before (⟨.right, c, cell, left⟩ :: path), other.key < key := by
        intro other member
        simp only [before, List.mem_append, List.mem_singleton] at member
        rcases member with above | inLeft | rfl
        · exact low other above
        · exact (leftRest other inLeft cell List.mem_cons_self).trans greater
        · exact greater
      rcases ihRight fromRight.down sortedRight lowRight high with ⟨found, member, hit, leaves⟩ |
        ⟨hole, whole, lowHole, highHole, leaves⟩
      · exact Or.inl ⟨found, by simp [ColouredTree.items, member], hit, leaves_next pass leaves⟩
      · exact Or.inr ⟨hole, whole, lowHole, highHole, leaves_next pass leaves⟩

/-- The memory after `z` was hung below `y`. -/
theorem mem_insertLink (T : Rbtree) (z y : Addr) (apart : y ≠ z) (a : Addr) :
    (insertLink T z y).mem a =
      if a = z then ⟨RED, T.nil, T.nil, y, (T.mem z).key, (T.mem z).value⟩
      else if a = y ∧ a ≠ T.nil then
        (T.mem a).withChild (if (T.mem z).key < (T.mem y).key then .left else .right) z
      else T.mem a := by
  unfold insertLink
  extract_lets T1 T2 T3 T4
  have mem1 : ∀ a, T1.mem a = if a = z then (T.mem z).withParent y else T.mem a := by
    intro a
    rw [Rbtree.mem_setParent]
    split
    · rename_i same
      rw [same]
    · rfl
  have nil1 : T1.nil = T.nil := rfl
  clear_value T1
  have mem2 : ∀ a, T2.mem a =
      if a = z then (T.mem z).withParent y
      else if a = y ∧ a ≠ T.nil then
        (T.mem a).withChild (if (T.mem z).key < (T.mem y).key then .left else .right) z
      else T.mem a := by
    intro a
    have keyZ : (T1.mem z).key = (T.mem z).key := by rw [mem1, if_pos rfl]; rfl
    have keyY : (T1.mem y).key = (T.mem y).key := by rw [mem1, if_neg apart]
    simp only [T2, nil1, keyZ, keyY]
    split
    · rw [Rbtree.mem_setRoot, mem1]
      grind
    · split <;> rw [Rbtree.mem_setChild, mem1] <;> grind
  have nil2 : T2.nil = T.nil := by
    simp only [T2]
    split
    · exact nil1
    · split <;> exact nil1
  clear_value T2
  simp only [T4, T3, Rbtree.mem_setColor, Rbtree.mem_setChild, Rbtree.nil_setChild, nil2, mem2]
  split
  · rfl
  · rfl

/-- Linking keeps the sentinel. -/
@[simp] theorem nil_insertLink (T : Rbtree) (z y : Addr) : (insertLink T z y).nil = T.nil := by
  unfold insertLink
  extract_lets T1 T2 T3 T4
  have nil2 : T2.nil = T.nil := by
    simp only [T2]
    split
    · rfl
    · split <;> rfl
  exact nil2

/-- The header after `z` was hung below `y`. -/
theorem root_insertLink (T : Rbtree) (z y : Addr) :
    (insertLink T z y).root = if y = T.nil then z else T.root := by
  unfold insertLink
  extract_lets T1 T2 T3 T4
  have root2 : T2.root = if y = T.nil then z else T.root := by
    simp only [T2]
    split
    · rename_i top
      rw [if_pos (show y = T.nil from top)]
      rfl
    · rename_i inner
      rw [if_neg (show ¬ y = T.nil from inner)]
      split <;> rfl
  exact root2

/-- Hanging a fresh node into the hole where its key belongs. -/
theorem Focus.insertLink {T : Rbtree} {hole : List (Frame Cell)} (focus : Focus T hole .leaf)
    {z : Addr} (inner : T.nil ≠ z) (fresh : z ∉ (pathCells hole).map Cell.addr)
    (low : ∀ cell ∈ before hole, cell.key < (T.mem z).key)
    (high : ∀ cell ∈ after hole, (T.mem z).key < cell.key) :
    Focus (insertLink T z (above T.nil hole)) hole
      (.node .red .leaf ⟨z, (T.mem z).key, (T.mem z).value⟩ .leaf) := by
  obtain ⟨hung, -, distinct, sentinel⟩ := focus
  simp only [ColouredTree.items, List.nil_append] at distinct sentinel
  have apart : above T.nil hole ≠ z := ne_of_sentinel_or_mem (above_mem T.nil hole) inner fresh
  have mem := mem_insertLink T z (above T.nil hole) apart
  refine ⟨?_, ?_, ?_, ?_⟩
  · refine hung.repoint (nil_insertLink ..) distinct ?_ ?_ ?_
    · rw [root_insertLink]
      cases hole with
      | nil => simp [ptr]
      | cons frame rest =>
        have inside : frame.item.addr ≠ T.nil := by
          intro clash
          exact sentinel (by simp [pathCells, clash])
        rw [above_cons, if_neg inside, if_neg (by simp)]
    · rintro frame rest rfl
      obtain ⟨side, c, item, sibling⟩ := frame
      have inside : item.addr ≠ T.nil := by
        intro clash
        exact sentinel (by simp [pathCells, clash])
      have keyAt : (T.mem item.addr).key = item.key := by rw [hung.1, nodeOf_key]
      change (RbtreeC.insertLink T z item.addr).mem item.addr = (T.mem item.addr).withChild side z
      have itemZ : item.addr ≠ z := apart
      rw [mem_insertLink T z item.addr itemZ, if_neg itemZ, if_pos ⟨rfl, inside⟩, keyAt]
      cases side with
      | left =>
        rw [if_pos (high item (by simp [after]))]
      | right =>
        rw [if_neg (not_lt.mpr (low item (by simp [before])).le)]
    · intro cell member different
      have listed := List.mem_map_of_mem (f := Cell.addr) member
      rw [mem, if_neg (ne_of_mem_of_not_mem listed fresh), if_neg (fun both => different both.1)]
  · refine ⟨?_, trivial, trivial⟩
    rw [mem, if_pos rfl, nil_insertLink]
    rfl
  · simpa [ColouredTree.items] using ⟨by simpa using fresh, distinct⟩
  · rw [nil_insertLink]
    simpa [ColouredTree.items, inner] using sentinel

/-- The descent of `rbtree_insert` finds that the key exists, or a hole between the cells with
smaller and those with greater keys. The new node hangs there as a red node that may have a red
parent. -/
theorem rbtreeInsert_hole {T : Rbtree} {nil z : Addr} {cells : List Cell}
    (valid : Valid nil cells T) (sorted : cells.Pairwise (fun a b => a.key < b.key))
    (inner : nil ≠ z) (fresh : z ∉ cells.map Cell.addr) :
    ((∃ cell ∈ cells, cell.key = (T.mem z).key) ∧
      Leaves (fun fuel => loop (insertDescentPass T (T.mem z).key) fuel (T.root, T.nil)) none) ∨
    ∃ hole, Focus T hole .leaf ∧ cells = before hole ++ after hole ∧
      (∀ cell ∈ before hole, cell.key < (T.mem z).key) ∧
      (∀ cell ∈ after hole, (T.mem z).key < cell.key) ∧
      Leaves (fun fuel => loop (insertDescentPass T (T.mem z).key) fuel (T.root, T.nil))
        (some (above T.nil hole)) ∧
      Accepts hole .black 0 ∧ Sentinel nil (insertLink T z (above T.nil hole)) ∧
      Focus (insertLink T z (above T.nil hole)) hole
        (.node .red .leaf ⟨z, (T.mem z).key, (T.mem z).value⟩ .leaf) := by
  obtain ⟨sentinel, t, shape, redBlack, rfl⟩ := valid
  have top : Focus T [] t := focus_iff.mpr shape
  have notNil : T.nil ≠ z := sentinel.same ▸ inner
  have start : (T.root, T.nil) = (ptr T.nil t, above T.nil []) := by
    rw [shape.root, above_nil]
  rw [start]
  rcases insertDescent_spec (T.mem z).key top sorted (by simp [before])
    (by simp [after]) with ⟨cell, member, hit, leaves⟩ | ⟨hole, whole, low, high, leaves⟩
  · exact Or.inl ⟨⟨cell, member, hit⟩, leaves⟩
  · rw [fill_nil] at whole
    have focus : Focus T hole .leaf := by
      rw [focus_iff, whole]
      exact shape
    have cells : t.items = before hole ++ after hole := by
      rw [← whole, items_fill]
      simp [ColouredTree.items]
    have freshPath : z ∉ (pathCells hole).map Cell.addr := by
      intro member
      have listed := ((items_fill_perm hole .leaf).map Cell.addr).mem_iff.mpr
        (show z ∈ (ColouredTree.leaf.items ++ pathCells hole).map Cell.addr from member)
      rw [whole] at listed
      exact fresh listed
    have apart : above T.nil hole ≠ z :=
      ne_of_sentinel_or_mem (above_mem T.nil hole) notNil freshPath
    have linkedSentinel : Sentinel nil (insertLink T z (above T.nil hole)) := by
      refine ⟨(nil_insertLink ..).trans sentinel.same, ?_⟩
      rw [mem_insertLink T z _ apart, if_neg inner, if_neg (fun both => both.2 sentinel.same.symm),
        sentinel.black]
    obtain ⟨height, empty, accepts⟩ := (redBlack_fill hole .leaf).mp (whole ▸ redBlack)
    rw [ColouredTree.balanced_leaf] at empty
    subst empty
    exact Or.inr ⟨hole, focus, cells, low, high, leaves, accepts, linkedSentinel,
      focus.insertLink notNil freshPath low high⟩

/-- The state that `rbtree_insert` hands to its fix-up. -/
theorem rbtreeInsert_reaches {T : Rbtree} {nil z : Addr} {cells : List Cell}
    (valid : Valid nil cells T) (sorted : cells.Pairwise (fun a b => a.key < b.key))
    (inner : nil ≠ z) (fresh : z ∉ cells.map Cell.addr) :
    ((∃ cell ∈ cells, cell.key = (T.mem z).key) ∧
      Leaves (fun fuel => loop (insertDescentPass T (T.mem z).key) fuel (T.root, T.nil)) none) ∨
    ∃ y low high size, cells = low ++ high ∧ (∀ cell ∈ low, cell.key < (T.mem z).key) ∧
      (∀ cell ∈ high, (T.mem z).key < cell.key) ∧
      Leaves (fun fuel => loop (insertDescentPass T (T.mem z).key) fuel (T.root, T.nil)) (some y) ∧
      InsertInv nil (low ++ ⟨z, (T.mem z).key, (T.mem z).value⟩ :: high) size
        (insertLink T z y, z) := by
  rcases rbtreeInsert_hole valid sorted inner fresh with
    present | ⟨hole, -, split, low, high, leaves, accepts, sentinel, linked⟩
  · exact Or.inl present
  · have single : (ColouredTree.node .red .leaf
        (⟨z, (T.mem z).key, (T.mem z).value⟩ : Cell) .leaf).Balanced 0 := ⟨rfl, rfl, rfl, rfl⟩
    refine Or.inr ⟨above T.nil hole, before hole, after hole, hole.length, split, low, high, leaves,
      hole, _, 0, rfl, sentinel, linked, rfl, rfl, single, accepts, ?_⟩
    rw [items_fill]
    simp [ColouredTree.items]

/-- `rbtree_insert` of a fresh node returns. A key that exists leaves everything as it is;
a new key comes to stand between the cells with smaller and those with greater keys. -/
theorem rbtreeInsert_spec {T : Rbtree} {nil z : Addr} {cells : List Cell}
    (valid : Valid nil cells T) (sorted : cells.Pairwise (fun a b => a.key < b.key))
    (inner : nil ≠ z) (fresh : z ∉ cells.map Cell.addr) :
    ∃ T', Leaves (fun fuel => rbtreeInsert fuel T z) T' ∧
      (((∃ cell ∈ cells, cell.key = (T.mem z).key) ∧ T' = T) ∨
        ∃ low high, cells = low ++ high ∧ (∀ cell ∈ low, cell.key < (T.mem z).key) ∧
          (∀ cell ∈ high, (T.mem z).key < cell.key) ∧
          Valid nil (low ++ ⟨z, (T.mem z).key, (T.mem z).value⟩ :: high) T') := by
  rcases rbtreeInsert_reaches valid sorted inner fresh with
    ⟨present, leaves⟩ | ⟨y, low, high, size, split, below, above, leaves, inv⟩
  · exact ⟨T, leaves.bind (Leaves.of_forall fun _ => rfl), Or.inl ⟨present, rfl⟩⟩
  · obtain ⟨T', fixed, valid'⟩ := rbtreeInsertFixup_spec inv
    exact ⟨T', leaves.bind fixed, Or.inr ⟨low, high, split, below, above, valid'⟩⟩

end BackendCpp.RbtreeC
