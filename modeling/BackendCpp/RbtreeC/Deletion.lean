import BackendCpp.RbtreeC.Insertion

/-!
# The fix-up of deletion

The loop of `rbtree_delete_fixup` runs at a subtree `x` that is one black node short of
what its path expects. A red sibling is first rotated above the parent; a black sibling
with black children is painted red and the deficit moves up; otherwise one or two rotations
close it. `x` may be the sentinel, whose parent field then says where the deficit is: no
step writes it, which is what `Hooked` records.
-/

namespace BackendCpp.RbtreeC

open BackendCpp.Library

section stages

variable {T : Rbtree} {nil : Addr} {side : Side} {c : Colour} {p : Cell}
  {sibling t : ColouredTree Cell} {up : List (Frame Cell)} {height : Nat}

/-- What a step of the body leaves behind: the sibling of `x` is the tree at `w`, the
deficit at `x` is the same, and so is the in-order sequence. -/
structure Deficit (nil : Addr) (cells : List Cell) (side : Side) (height : Nat) (c : Colour)
    (p : Cell) (sibling t : ColouredTree Cell) (up : List (Frame Cell)) (T : Rbtree) (w : Addr) :
    Prop where
  /-- The sentinel is in place. -/
  sentinel : Sentinel nil T
  /-- The shape around `x`. -/
  focus : Focus T (⟨side, c, p, sibling⟩ :: up) t
  /-- The parent field of `x` is right, also when `x` is the sentinel. -/
  hooked : Hooked T (⟨side, c, p, sibling⟩ :: up) t
  /-- `w` is the sibling. -/
  atSibling : w = ptr T.nil sibling
  /-- The path expects one black node more. -/
  accepts : Accepts (⟨side, c, p, sibling⟩ :: up) .black (height + 1)
  /-- The in-order sequence. -/
  items : (fill (⟨side, c, p, sibling⟩ :: up) t).items = cells

/-- The sibling of a deficit is balanced at the height that `x` lacks. -/
theorem Deficit.sibling_balanced {cells : List Cell} {w : Addr}
    (deficit : Deficit nil cells side height c p sibling t up T w) :
    sibling.Balanced (height + 1) := by
  have accepts := deficit.accepts
  cases c with
  | red => exact accepts.2.2.1
  | black => exact accepts.1

/-- The sibling of a deficit is a node. -/
theorem Deficit.sibling_node {cells : List Cell} {w : Addr}
    (deficit : Deficit nil cells side height c p sibling t up T w) : sibling ≠ .leaf :=
  ColouredTree.ne_leaf_of_balanced deficit.sibling_balanced

/-- A black sibling is a node between two nephews. -/
theorem Deficit.nephews {cells : List Cell} {w : Addr}
    (deficit : Deficit nil cells side height c p sibling t up T w)
    (siblingBlack : sibling.colour = .black) :
    ∃ near cell far, sibling = .join side .black near cell far ∧ w = cell.addr := by
  obtain ⟨near, cell, far, whole⟩ := ColouredTree.exists_join side deficit.sibling_node
  rw [siblingBlack] at whole
  refine ⟨near, cell, far, whole, ?_⟩
  rw [deficit.atSibling, whole, ptr_join]

/-- A subtree below a path that expects one black node more is a deficit. -/
theorem Focus.deficit (sentinel : Sentinel nil T)
    (focus : Focus T (⟨side, c, p, sibling⟩ :: up) t)
    (hooked : Hooked T (⟨side, c, p, sibling⟩ :: up) t)
    (accepts : Accepts (⟨side, c, p, sibling⟩ :: up) .black (height + 1)) :
    Deficit nil (fill (⟨side, c, p, sibling⟩ :: up) t).items side height c p sibling t up T
      (ptr T.nil sibling) :=
  ⟨sentinel, focus, hooked, rfl, accepts, rfl⟩

/-- The red-sibling step: the sibling is black afterwards. A rotation puts one more frame
on the path, and then the parent of `x` is red. -/
theorem deleteLowerRed_spec {cells : List Cell} {w : Addr}
    (deficit : Deficit nil cells side height c p sibling t up T w) :
    ∃ c' sibling' up',
      Deficit nil cells side height c' p sibling' t up'
        (deleteLowerRed side T (ptr T.nil t) w).1 (deleteLowerRed side T (ptr T.nil t) w).2 ∧
      (deleteLowerRed side T (ptr T.nil t) w).1.nil = T.nil ∧ sibling'.colour = .black ∧
      (up'.length = up.length ∨ (up'.length = up.length + 1 ∧ c' = .red)) := by
  obtain ⟨sentinel, focus, hooked, rfl, accepts, items⟩ := deficit
  have color : (T.mem (ptr T.nil sibling)).color = code sibling.colour := focus.across.color sentinel
  cases colour : sibling.colour with
  | black =>
    have result : deleteLowerRed side T (ptr T.nil t) (ptr T.nil sibling) =
        (T, ptr T.nil sibling) := by
      have notRed : ¬ BLACK = RED := by decide
      simp only [deleteLowerRed, color, colour, code, if_neg notRed]
    rw [result]
    exact ⟨c, sibling, up, ⟨sentinel, focus, hooked, rfl, accepts, items⟩, rfl, colour,
      Or.inl rfl⟩
  | red =>
    cases c with
    | red => simp [colour] at accepts
    | black =>
      obtain ⟨balanced, acceptsUp⟩ := accepts
      have siblingNode : sibling ≠ .leaf := by
        rintro rfl
        simp at colour
      obtain ⟨near, w, far, whole⟩ := ColouredTree.exists_join side siblingNode
      rw [colour] at whole
      subst whole
      rw [ColouredTree.balanced_join_red] at balanced
      obtain ⟨nearBlack, farBlack, nearBalanced, farBalanced⟩ := balanced
      let T1 := T.setColor w.addr BLACK
      have first : Focus T1 (⟨side, .black, p, .join side .black near w far⟩ :: up) t := by
        have painted := (focus.across.setColor .black).across
        rw [Side.flip_flip] at painted
        exact painted
      have firstSentinel : Sentinel nil T1 := sentinel.setColor focus.across.addr_ne_nil BLACK
      have firstHooked : (T1.mem (ptr T.nil t)).parent = p.addr := hooked.setColor _ _
      let T2 := T1.setColor p.addr RED
      have second : Focus T2 up (.join side .red t p (.join side .black near w far)) :=
        first.up.setColor .red
      have secondSentinel : Sentinel nil T2 := firstSentinel.setColor first.up.addr_ne_nil RED
      have secondHooked : (T2.mem (ptr T.nil t)).parent = p.addr := by
        rw [parent_setColor]
        exact firstHooked
      obtain ⟨rotated, kept⟩ := second.rotate
      let T3 := rotate side T2 p.addr
      have sameNil : T3.nil = T.nil := nil_rotate side T2 p.addr
      have thirdHooked : Hooked T3 (⟨side, .red, p, near⟩ :: ⟨side, .black, w, far⟩ :: up) t := by
        refine rotated.down.down.hooked fun leaf => ?_
        subst leaf
        rw [sameNil, show T3.mem T.nil = T2.mem T.nil from kept]
        exact secondHooked
      have result : deleteLowerRed side T (ptr T.nil t) w.addr = (T3, ptr T.nil near) := by
        rw [ptr_join] at color
        have red : (T.mem w.addr).color = RED := by rw [color, ColouredTree.colour_join]; rfl
        have atP : (T3.mem (ptr T.nil t)).parent = p.addr := by
          have hook := thirdHooked
          unfold Hooked at hook
          rw [sameNil] at hook
          exact hook
        have nearAt : (T3.mem p.addr).child side.flip = ptr T.nil near := by
          rw [rotated.down.read, nodeOf_child_flip, sameNil]
        unfold deleteLowerRed
        rw [if_pos red]
        extract_lets A B
        have sameA : A = T2 := by simp only [A, T2, firstHooked]
        have sameB : B = T3 := by simp only [B, T3, sameA, secondHooked]
        rw [sameB, atP, nearAt]
      rw [ptr_join, result]
      refine ⟨.red, near, ⟨side, .black, w, far⟩ :: up,
        ⟨secondSentinel.rotate kept, rotated.down.down, thirdHooked, ?_, ?_, ?_⟩, sameNil, nearBlack,
        Or.inr ⟨by simp, rfl⟩⟩
      · rw [sameNil]
      · exact ⟨rfl, nearBlack, nearBalanced, farBalanced, acceptsUp⟩
      · rw [← items]
        refine items_fill_congr up ?_
        cases side <;> simp [ColouredTree.join, ColouredTree.items]

/-- The step for a black far nephew: afterwards the far nephew is red. -/
theorem deleteRaiseNear_spec {cells : List Cell} {near far : ColouredTree Cell} {w : Cell}
    (deficit : Deficit nil cells side height c p (.join side .black near w far) t up T w.addr)
    (someRed : ¬ (near.colour = .black ∧ far.colour = .black)) :
    ∃ near' w' far',
      Deficit nil cells side height c p (.join side .black near' w' far') t up
        (deleteRaiseNear side T (ptr T.nil t) w.addr).1
        (deleteRaiseNear side T (ptr T.nil t) w.addr).2 ∧
      (deleteRaiseNear side T (ptr T.nil t) w.addr).1.nil = T.nil ∧ far'.colour = .red := by
  have balanced := deficit.sibling_balanced
  obtain ⟨sentinel, focus, hooked, -, accepts, items⟩ := deficit
  have farAt : (T.mem w.addr).child side.flip = ptr T.nil far := by
    rw [focus.across.read, nodeOf_child_flip]
  have nearAt : (T.mem w.addr).child side = ptr T.nil near := by
    rw [focus.across.read, nodeOf_child]
  have atFar := focus.across
  rw [← ColouredTree.join_flip] at atFar
  have farColor : (T.mem (ptr T.nil far)).color = code far.colour := atFar.down.color sentinel
  cases farColour : far.colour with
  | red =>
    have result : deleteRaiseNear side T (ptr T.nil t) w.addr = (T, w.addr) := by
      have notBlack : ¬ RED = BLACK := by decide
      simp only [deleteRaiseNear, farAt, farColor, farColour, code, if_neg notBlack]
    rw [result]
    exact ⟨near, w, far, ⟨sentinel, focus, hooked, (ptr_join ..).symm, accepts, items⟩, rfl,
      farColour⟩
  | black =>
    have nearRed : near.colour = .red := by
      cases colour : near.colour with
      | red => rfl
      | black => exact absurd ⟨colour, farColour⟩ someRed
    have nearNode : near ≠ .leaf := by
      rintro rfl
      simp at nearRed
    obtain ⟨inner, b, outer, whole⟩ := ColouredTree.exists_join side.flip nearNode
    rw [nearRed] at whole
    subst whole
    rw [ColouredTree.balanced_join_black, ColouredTree.balanced_join_red] at balanced
    obtain ⟨⟨innerBlack, outerBlack, innerBalanced, outerBalanced⟩, farBalanced⟩ := balanced
    have atNear := focus.across.down
    let T1 := T.setColor b.addr BLACK
    have first : Focus T1 (⟨side.flip, c, p, t⟩ :: up)
        (.join side .black (.join side.flip .black inner b outer) w far) :=
      (atNear.setColor .black).up
    have firstSentinel : Sentinel nil T1 := sentinel.setColor atNear.addr_ne_nil BLACK
    let T2 := T1.setColor w.addr RED
    have second : Focus T2 (⟨side.flip, c, p, t⟩ :: up)
        (.join side.flip .red far w (.join side.flip .black inner b outer)) := by
      rw [ColouredTree.join_flip]
      exact first.setColor .red
    have secondSentinel : Sentinel nil T2 := firstSentinel.setColor first.addr_ne_nil RED
    have secondHooked : (T2.mem (ptr T.nil t)).parent = p.addr :=
      (hooked.setColor b.addr BLACK).setColor w.addr RED
    obtain ⟨rotated, kept⟩ := second.rotate
    let T3 := rotate side.flip T2 w.addr
    have sameNil : T3.nil = T.nil := nil_rotate side.flip T2 w.addr
    have third : Focus T3
        (⟨side, c, p, .join side .black outer b (.join side .red inner w far)⟩ :: up) t := by
      have moved := rotated.across
      rw [Side.flip_flip, ColouredTree.join_flip, ColouredTree.join_flip] at moved
      exact moved
    have thirdHooked : Hooked T3
        (⟨side, c, p, .join side .black outer b (.join side .red inner w far)⟩ :: up) t := by
      refine third.hooked fun leaf => ?_
      subst leaf
      rw [sameNil, show T3.mem T.nil = T2.mem T.nil from kept]
      exact secondHooked
    have result : deleteRaiseNear side T (ptr T.nil t) w.addr = (T3, b.addr) := by
      have black : (T.mem (ptr T.nil far)).color = BLACK := by rw [farColor, farColour]; rfl
      have atP : (T3.mem (ptr T.nil t)).parent = p.addr := by
        have hook := thirdHooked
        unfold Hooked at hook
        rw [sameNil] at hook
        exact hook
      have raised : (T3.mem p.addr).child side.flip = b.addr := by
        rw [third.read_above, nodeOf_child_flip, ptr_join]
      unfold deleteRaiseNear
      rw [farAt, if_pos black, nearAt, ptr_join]
      change (T3, (T3.mem (T3.mem (ptr T.nil t)).parent).child side.flip) = _
      rw [atP, raised]
    rw [result]
    refine ⟨outer, b, .join side .red inner w far,
      ⟨secondSentinel.rotate kept, third, thirdHooked, (ptr_join ..).symm, ?_, ?_⟩, sameNil,
      ColouredTree.colour_join ..⟩
    · have sibling : (ColouredTree.join side .black outer b
          (.join side .red inner w far)).Balanced (height + 1) :=
        ColouredTree.balanced_join_black.mpr ⟨outerBalanced, ColouredTree.balanced_join_red.mpr
          ⟨innerBlack, farColour, innerBalanced, farBalanced⟩⟩
      cases c with
      | red => exact ⟨rfl, ColouredTree.colour_join .., sibling, accepts.2.2.2⟩
      | black => exact ⟨sibling, accepts.2⟩
    · rw [← items]
      refine items_fill_congr up ?_
      cases side <;> simp [ColouredTree.join, ColouredTree.items, Side.flip]

/-- The last rotation closes the deficit: the whole is a red-black tree. -/
theorem deleteClose_spec {cells : List Cell} {near far : ColouredTree Cell} {w : Cell}
    (deficit : Deficit nil cells side height c p (.join side .black near w far) t up T w.addr)
    (balanced : t.Balanced height) (farRed : far.colour = .red) :
    Valid nil cells (deleteClose side T (ptr T.nil t) w.addr).1 ∧
      (deleteClose side T (ptr T.nil t) w.addr).2 =
        (deleteClose side T (ptr T.nil t) w.addr).1.root := by
  have siblingBalanced := deficit.sibling_balanced
  obtain ⟨sentinel, focus, hooked, -, accepts, items⟩ := deficit
  have farNode : far ≠ .leaf := by
    rintro rfl
    simp at farRed
  obtain ⟨farNear, f, farFar, whole⟩ := ColouredTree.exists_join side farNode
  rw [farRed] at whole
  subst whole
  rw [ColouredTree.balanced_join_black, ColouredTree.balanced_join_red] at siblingBalanced
  obtain ⟨nearBalanced, -, -, farNearBalanced, farFarBalanced⟩ := siblingBalanced
  have atP : (T.mem (ptr T.nil t)).parent = p.addr := hooked
  have color : (T.mem p.addr).color = code c := by rw [focus.read_above, nodeOf_color]
  let T1 := T.setColor w.addr (code c)
  have first : Focus T1 (⟨side, c, p, .join side c near w (.join side .red farNear f farFar)⟩ :: up)
      t := by
    have painted := (focus.across.setColor c).across
    rw [Side.flip_flip] at painted
    exact painted
  have firstSentinel : Sentinel nil T1 := sentinel.setColor focus.across.addr_ne_nil (code c)
  have firstHooked : (T1.mem (ptr T.nil t)).parent = p.addr := hooked.setColor _ _
  let T2 := T1.setColor p.addr BLACK
  have second : Focus T2 up
      (.join side .black t p (.join side c near w (.join side .red farNear f farFar))) :=
    first.up.setColor .black
  have secondSentinel : Sentinel nil T2 := firstSentinel.setColor first.up.addr_ne_nil BLACK
  have secondHooked : (T2.mem (ptr T.nil t)).parent = p.addr := by
    rw [parent_setColor]
    exact firstHooked
  have atW := second.down.across
  rw [← ColouredTree.join_flip] at atW
  have farAt : (T2.mem w.addr).child side.flip = f.addr := by
    rw [atW.read, nodeOf_child, ptr_join]
  let T3 := T2.setColor f.addr BLACK
  have third : Focus T3 up
      (.join side .black t p (.join side c near w (.join side .black farNear f farFar))) := by
    have painted := (atW.down.setColor .black).up
    simp only [ColouredTree.join_flip] at painted
    have moved := painted.across
    rw [Side.flip_flip] at moved
    exact moved.up
  have thirdSentinel : Sentinel nil T3 := secondSentinel.setColor atW.down.addr_ne_nil BLACK
  have thirdHooked : (T3.mem (ptr T.nil t)).parent = p.addr := by
    rw [parent_setColor]
    exact secondHooked
  obtain ⟨rotated, kept⟩ := third.rotate
  let T4 := rotate side T3 p.addr
  have result : deleteClose side T (ptr T.nil t) w.addr = (T4, T4.root) := by
    unfold deleteClose
    rw [atP, color]
    extract_lets A B C
    have sameA : A = T2 := by simp only [A, T2, firstHooked]
    have sameB : B = T3 := by simp only [B, T3, sameA, farAt]
    have sameC : C = T4 := by simp only [C, T4, sameB, thirdHooked]
    rw [sameC]
  rw [result]
  refine ⟨⟨thirdSentinel.rotate kept, _, focus_iff.mp rotated, ?_, ?_⟩, rfl⟩
  · have low : (ColouredTree.join side .black t p near).Balanced (height + 1) :=
      ColouredTree.balanced_join_black.mpr ⟨balanced, nearBalanced⟩
    have high : (ColouredTree.join side .black farNear f farFar).Balanced (height + 1) :=
      ColouredTree.balanced_join_black.mpr ⟨farNearBalanced, farFarBalanced⟩
    rw [redBlack_fill]
    cases c with
    | red =>
      refine ⟨height + 1, ColouredTree.balanced_join_red.mpr
        ⟨ColouredTree.colour_join .., ColouredTree.colour_join .., low, high⟩, ?_⟩
      rw [ColouredTree.colour_join]
      exact accepts.2.2.2
    | black =>
      refine ⟨height + 2, ColouredTree.balanced_join_black.mpr ⟨low, high⟩, ?_⟩
      rw [ColouredTree.colour_join]
      exact accepts.2
  · rw [← items]
    refine items_fill_congr up ?_
    cases side <;> simp [ColouredTree.join, ColouredTree.items]

end stages

/-- The invariant of the loop of `rbtree_delete_fixup`. Either `x` is a black tree that is
one black node short, or blackening its red root makes up for it. The measure counts two for
every frame above `x` and one for a black `x`: a rotation at a red sibling adds a frame, and
then the loop stops at a red node. -/
def DeleteInv (nil : Addr) (cells : List Cell) (size : Nat) (state : Rbtree × Addr) : Prop :=
  ∃ path t height, size = 2 * path.length + (if t.colour = .black then 1 else 0) ∧
    Sentinel nil state.1 ∧ Focus state.1 path t ∧ state.2 = ptr state.1.nil t ∧
    (path ≠ [] → Hooked state.1 path t) ∧
    (t.paint .black).Balanced (if t.colour = .black then height else height + 1) ∧
    Accepts path .black (height + 1) ∧ (fill path t).items = cells

/-- A red-black tree is an invariant state at its root: the loop stops there. -/
theorem Valid.deleteInv {T : Rbtree} {nil : Addr} {cells : List Cell} (valid : Valid nil cells T) :
    DeleteInv nil cells 1 (T, T.root) := by
  obtain ⟨sentinel, t, shape, redBlack, items⟩ := valid
  obtain ⟨black, height, balanced⟩ := redBlack
  refine ⟨[], t, height, by simp [black], sentinel, focus_iff.mpr shape, shape.root,
    fun inner => absurd rfl inner, ?_, rfl, items⟩
  have same : t.paint .black = t := by
    rw [← black]
    exact ColouredTree.paint_colour t
  rw [if_pos black, same]
  exact balanced

/-- The part of the body after the red-sibling step. Below a red parent the deficit does not
move up as a black tree. -/
theorem deleteBlackSibling_spec {T : Rbtree} {nil : Addr} {side : Side} {c : Colour} {p : Cell}
    {sibling t : ColouredTree Cell} {up : List (Frame Cell)} {height : Nat} {cells : List Cell}
    {w : Addr} (deficit : Deficit nil cells side height c p sibling t up T w)
    (siblingBlack : sibling.colour = .black) (balanced : t.Balanced height) :
    ∃ size, (size ≤ 2 * up.length + 1 ∧ (c = .red → size ≤ 2 * up.length ∨ size = 1)) ∧
      DeleteInv nil cells size (deleteBlackSibling side T (ptr T.nil t) w) := by
  have siblingBalanced := deficit.sibling_balanced
  obtain ⟨near, cell, far, rfl, rfl⟩ := deficit.nephews siblingBlack
  have atNear := deficit.focus.across
  have atFar := deficit.focus.across
  rw [← ColouredTree.join_flip] at atFar
  have nearColor := atNear.down.color deficit.sentinel
  have farColor := atFar.down.color deficit.sentinel
  have test : ((T.mem (T.mem cell.addr).left).color = BLACK ∧
      (T.mem (T.mem cell.addr).right).color = BLACK) ↔
      (near.colour = .black ∧ far.colour = .black) := by
    rw [atNear.read]
    cases side with
    | left =>
      simp only [nodeOf]
      rw [nearColor, farColor, code_eq_black, code_eq_black]
    | right =>
      simp only [nodeOf]
      rw [nearColor, farColor, code_eq_black, code_eq_black, and_comm]
  by_cases blacks : near.colour = .black ∧ far.colour = .black
  · have painted := (atNear.setColor .red).across
    rw [Side.flip_flip] at painted
    have parent : ((T.setColor cell.addr RED).mem (ptr T.nil t)).parent = p.addr :=
      deficit.hooked.setColor _ _
    have result : deleteBlackSibling side T (ptr T.nil t) cell.addr =
        (T.setColor cell.addr RED, p.addr) := by
      unfold deleteBlackSibling
      rw [if_pos (test.mpr blacks)]
      dsimp only
      rw [parent]
    rw [result]
    rw [ColouredTree.balanced_join_black] at siblingBalanced
    have reddened : (ColouredTree.join side .red near cell far).Balanced height :=
      ColouredTree.balanced_join_red.mpr ⟨blacks.1, blacks.2, siblingBalanced⟩
    have lower : (ColouredTree.join side .black t p
        (.join side .red near cell far)).Balanced (height + 1) :=
      ColouredTree.balanced_join_black.mpr ⟨balanced, reddened⟩
    have sentinel : Sentinel nil (T.setColor cell.addr RED) :=
      deficit.sentinel.setColor atNear.addr_ne_nil RED
    have accepts := deficit.accepts
    have order : (fill up (.join side c t p (.join side .red near cell far))).items = cells := by
      rw [← deficit.items]
      refine items_fill_congr up ?_
      cases side <;> simp [ColouredTree.join, ColouredTree.items]
    cases c with
    | red =>
      refine ⟨2 * up.length, ⟨by omega, fun _ => Or.inl le_rfl⟩, up, _, height, ?_, sentinel,
        painted.up, (ptr_join ..).symm, fun _ => ?_, ?_, accepts.2.2.2.black, order⟩
      · simp
      · exact painted.up.hooked fun leaf => absurd leaf (by simp)
      · rw [ColouredTree.colour_join, if_neg (by simp), ColouredTree.paint_join]
        exact lower
    | black =>
      refine ⟨2 * up.length + 1, ⟨le_rfl, by simp⟩, up, _, height + 1, ?_, sentinel,
        painted.up, (ptr_join ..).symm, fun _ => ?_, ?_, accepts.2, order⟩
      · simp
      · exact painted.up.hooked fun leaf => absurd leaf (by simp)
      · rw [ColouredTree.colour_join, if_pos rfl, ColouredTree.paint_join]
        exact lower
  · obtain ⟨near', w', far', raised, sameNil, farRed⟩ := deleteRaiseNear_spec deficit blacks
    have atW' := raised.atSibling
    rw [ptr_join] at atW'
    rw [atW'] at raised
    have closed := deleteClose_spec raised balanced farRed
    rw [sameNil, ← atW'] at closed
    have result : deleteBlackSibling side T (ptr T.nil t) cell.addr =
        deleteClose side (deleteRaiseNear side T (ptr T.nil t) cell.addr).1 (ptr T.nil t)
          (deleteRaiseNear side T (ptr T.nil t) cell.addr).2 := by
      unfold deleteBlackSibling
      rw [if_neg (fun both => blacks (test.mp both))]
    rw [result]
    refine ⟨1, ⟨by omega, fun _ => Or.inr rfl⟩, ?_⟩
    have root := closed.1.deleteInv
    rw [← closed.2] at root
    exact root

/-- One half of the body, run at a black `x` on `side`. -/
theorem deleteFixupSide_spec {T : Rbtree} {nil : Addr} {side : Side} {c : Colour} {p : Cell}
    {sibling t : ColouredTree Cell} {up : List (Frame Cell)} {height : Nat} {cells : List Cell}
    (deficit : Deficit nil cells side height c p sibling t up T (ptr T.nil sibling))
    (balanced : t.Balanced height) :
    ∃ size, size < 2 * up.length + 3 ∧
      DeleteInv nil cells size (deleteFixupSide side T (ptr T.nil t)) := by
  have parent : (T.mem (ptr T.nil t)).parent = p.addr := deficit.hooked
  have atSibling : (T.mem p.addr).child side.flip = ptr T.nil sibling := by
    rw [deficit.focus.read_above, nodeOf_child_flip]
  obtain ⟨c', sibling', up', lowered, sameNil, black, longer⟩ := deleteLowerRed_spec deficit
  obtain ⟨size, bound, next⟩ := deleteBlackSibling_spec lowered black balanced
  rw [sameNil] at next
  have result : deleteFixupSide side T (ptr T.nil t) =
      deleteBlackSibling side (deleteLowerRed side T (ptr T.nil t) (ptr T.nil sibling)).1
        (ptr T.nil t) (deleteLowerRed side T (ptr T.nil t) (ptr T.nil sibling)).2 := by
    simp only [deleteFixupSide, parent, atSibling]
  rw [result]
  refine ⟨size, ?_, next⟩
  rcases longer with same | ⟨one, red⟩
  · omega
  · rcases bound.2 red with small | single
    · omega
    · omega

/-- Blackening the node where the loop of `rbtree_delete_fixup` stops. -/
theorem deleteFixup_leaves {T : Rbtree} {nil : Addr} {path : List (Frame Cell)}
    {t : ColouredTree Cell} {height : Nat} (sentinel : Sentinel nil T) (focus : Focus T path t)
    (balanced : (t.paint .black).Balanced height) (accepts : Accepts path .black height) :
    Valid nil (fill path t).items (T.setColor (ptr T.nil t) BLACK) := by
  have order : (fill path (t.paint .black)).items = (fill path t).items :=
    items_fill_congr path (ColouredTree.items_paint ..)
  have black : (t.paint .black).colour = .black := by cases t <;> rfl
  have redBlack : (fill path (t.paint .black)).RedBlack := by
    refine (redBlack_fill ..).mpr ⟨height, balanced, ?_⟩
    rw [black]
    exact accepts
  cases t with
  | leaf =>
    have unchanged : T.setColor T.nil BLACK = T := by
      have color : (T.mem T.nil).withColor BLACK = T.mem T.nil := by
        have now := sentinel.black
        rw [← sentinel.same] at now
        rw [RbtreeNode.withColor, ← now]
      simp only [Rbtree.setColor, Rbtree.modify, color, Function.update_eq_self]
    rw [ptr_leaf, unchanged]
    exact ⟨sentinel, _, focus_iff.mp focus, redBlack, rfl⟩
  | node c left cell right =>
    have fromLeft : Focus T path (.join .left c left cell right) := focus
    exact ⟨sentinel.setColor fromLeft.addr_ne_nil BLACK, _,
      focus_iff.mp (fromLeft.setColor .black), redBlack, order⟩

/-- One pass of the loop of `rbtree_delete_fixup` from an invariant state. -/
theorem deleteFixupPass_spec (nil : Addr) (cells : List Cell) (size : Nat)
    (state : Rbtree × Addr) (inv : DeleteInv nil cells size state) :
    (∃ smaller next, smaller < size ∧ deleteFixupPass state = .inl next ∧
        DeleteInv nil cells smaller next) ∨
      (∃ result, deleteFixupPass state = .inr result ∧ Valid nil cells result) := by
  obtain ⟨T, x⟩ := state
  obtain ⟨path, t, height, rfl, sentinel, focus, atT, hooked, balanced, accepts, rfl⟩ := inv
  dsimp only at sentinel focus atT hooked
  subst atT
  have color := focus.color sentinel
  cases path with
  | nil =>
    right
    have root : ¬ (ptr T.nil t ≠ T.root ∧ (T.mem (ptr T.nil t)).color = BLACK) := by
      intro both
      exact both.1 (focus_iff.mp focus).root.symm
    refine ⟨_, ?_, deleteFixup_leaves sentinel focus balanced rfl⟩
    simp only [deleteFixupPass, if_neg root]
  | cons frame up =>
    obtain ⟨side, c, p, sibling⟩ := frame
    cases colour : t.colour with
    | red =>
      right
      have red : ¬ (ptr T.nil t ≠ T.root ∧ (T.mem (ptr T.nil t)).color = BLACK) := by
        intro both
        rw [color, code_eq_black, colour] at both
        exact absurd both.2 (by simp)
      rw [colour, if_neg (by simp)] at balanced
      refine ⟨_, ?_, deleteFixup_leaves sentinel focus balanced accepts⟩
      simp only [deleteFixupPass, if_neg red]
    | black =>
      left
      have same : t.paint .black = t := by
        rw [← colour]
        exact ColouredTree.paint_colour t
      rw [colour, if_pos rfl, same] at balanced
      have deficit := focus.deficit sentinel (hooked (by simp)) accepts
      have parent : (T.mem (ptr T.nil t)).parent = p.addr := deficit.hooked
      have runs : ptr T.nil t ≠ T.root ∧ (T.mem (ptr T.nil t)).color = BLACK :=
        ⟨focus.root_ne, by rw [color, colour]; rfl⟩
      have test := focus.left_test (Or.inr deficit.sibling_node)
      obtain ⟨smaller, less, next⟩ := deleteFixupSide_spec deficit balanced
      refine ⟨smaller, _, ?_, ?_, next⟩
      · simp only [List.length_cons, if_pos]
        omega
      · cases side with
        | left => simp only [deleteFixupPass, if_pos runs, parent, if_pos (test.mpr rfl)]
        | right =>
          have other : ¬ ptr T.nil t = (T.mem p.addr).left := fun same => by
            simpa using test.mp same
          simp only [deleteFixupPass, if_pos runs, parent, if_neg other]

/-- `rbtree_delete_fixup` returns, and the tree is then a red-black tree on the same cells. -/
theorem rbtreeDeleteFixup_spec {T : Rbtree} {nil x : Addr} {cells : List Cell} {size : Nat}
    (inv : DeleteInv nil cells size (T, x)) :
    ∃ T', Leaves (fun fuel => rbtreeDeleteFixup fuel T x) T' ∧ Valid nil cells T' :=
  loop_rule (DeleteInv nil cells) (Valid nil cells) (deleteFixupPass_spec nil cells) size (T, x) inv

end BackendCpp.RbtreeC
