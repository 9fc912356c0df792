import BackendCpp.RbtreeC.Checked
import BackendCpp.RbtreeC.Runs

/-!
# The fix-ups meet no fault

At every state with one red node too many, and at every state with one black node too few,
the checks of a pass all hold, so the loops with checks run as the loops without. The
grandparent that the fix-up of insertion reads exists because a red node has a black
parent above it; the sibling and the nephews that the fix-up of deletion reads exist because
the sibling of a black tree that is one black node short has positive black height.
-/

namespace BackendCpp.RbtreeC.Checked

open BackendCpp.Library

section insertion

variable {T : Rbtree} {nil : Addr} {inner outer : Side} {p g : Cell}
  {sibling uncle t : ColouredTree Cell} {up : List (Frame Cell)} {c d : Colour}

/-- The red-uncle branch paints no sentinel red. -/
theorem insertRecolour_ok {z y : Addr} (grand : (T.mem (T.mem z).parent).parent ≠ T.nil) :
    insertRecolour T z y = .ok (RbtreeC.insertRecolour T z y) := by
  let T2 := (T.setColor (T.mem z).parent BLACK).setColor y BLACK
  have grand' : (T2.mem (T2.mem z).parent).parent ≠ T2.nil := by
    simp only [T2, parent_setColor]
    exact grand
  unfold insertRecolour RbtreeC.insertRecolour
  rw [setColor_black, ok_bind, setColor_black, ok_bind]
  change setColor T2 _ RED >>= _ = _
  rw [setColor_ok grand', ok_bind]

/-- The rotation that turns an inner `z` into an outer one lifts `z`. -/
theorem insertStraighten_ok {z : Addr} (side : Side) (inner : z ≠ T.nil)
    (parent : (T.mem z).parent ≠ T.nil) :
    insertStraighten side T z = .ok (RbtreeC.insertStraighten side T z) := by
  unfold insertStraighten RbtreeC.insertStraighten
  rw [readChild_ok _ parent, ok_bind]
  by_cases bent : z = (T.mem (T.mem z).parent).child side.flip
  · have lifted : (T.mem (T.mem z).parent).child side.flip ≠ T.nil := bent ▸ inner
    rw [if_pos bent, if_pos bent, rotate_ok side parent lifted, map_ok]
  · rw [if_neg bent, if_neg bent]

/-- The last rotation of insertion lifts the parent. -/
theorem insertLift_ok (focus : Focus T (⟨outer, c, p, sibling⟩ :: ⟨outer, d, g, uncle⟩ :: up) t)
    (node : t ≠ .leaf) :
    insertLift outer T (ptr T.nil t) = .ok (RbtreeC.insertLift outer T (ptr T.nil t)) := by
  have parent : (T.mem (ptr T.nil t)).parent = p.addr := focus.parent node
  have grand : (T.mem p.addr).parent = g.addr := focus.grand
  have first : Focus (T.setColor p.addr BLACK) (⟨outer, d, g, uncle⟩ :: up)
      (.join outer .black t p sibling) := focus.up.setColor .black
  have second : Focus ((T.setColor p.addr BLACK).setColor g.addr RED) up
      (.join outer .red (.join outer .black t p sibling) g uncle) := first.up.setColor .red
  have lifted : (((T.setColor p.addr BLACK).setColor g.addr RED).mem g.addr).child
      outer.flip.flip ≠ T.nil := by
    rw [Side.flip_flip, second.read, nodeOf_child, ptr_join]
    exact focus.up.addr_ne_nil
  unfold insertLift RbtreeC.insertLift
  simp only [setColor_black, ok_bind, parent_setColor, parent, grand]
  rw [setColor_ok (show g.addr ≠ (T.setColor p.addr BLACK).nil from focus.up.up.addr_ne_nil), ok_bind]
  simp only [parent_setColor, parent, grand]
  rw [rotate_ok outer.flip
    (show g.addr ≠ ((T.setColor p.addr BLACK).setColor g.addr RED).nil from
      focus.up.up.addr_ne_nil) lifted, map_ok]

/-- One half of the body of `rbtree_insert_fixup`, run at a red parent. -/
theorem insertFixupSide_ok {height : Nat} (sentinel : Sentinel nil T)
    (focus : Focus T (⟨inner, .red, p, sibling⟩ :: ⟨outer, .black, g, uncle⟩ :: up) t)
    (red : t.colour = .red) (balanced : t.Balanced height)
    (siblingBlack : sibling.colour = .black) (siblingBalanced : sibling.Balanced height) :
    insertFixupSide outer T (ptr T.nil t) = .ok (RbtreeC.insertFixupSide outer T (ptr T.nil t)) := by
  have node : t ≠ .leaf := by
    rintro rfl
    simp at red
  have parent : (T.mem (ptr T.nil t)).parent = p.addr := focus.parent node
  have grand : (T.mem p.addr).parent = g.addr := focus.grand
  have notNil : ptr T.nil t ≠ T.nil := fun clash => node (focus.ptr_eq_nil.mp clash)
  have parentNotNil : (T.mem (ptr T.nil t)).parent ≠ T.nil := by
    rw [parent]
    exact focus.up.addr_ne_nil
  have grandNotNil : (T.mem (T.mem (ptr T.nil t)).parent).parent ≠ T.nil := by
    rw [parent, grand]
    exact focus.up.up.addr_ne_nil
  unfold insertFixupSide RbtreeC.insertFixupSide
  rw [readChild_ok _ grandNotNil, ok_bind]
  dsimp only
  split
  · exact insertRecolour_ok grandNotNil
  · obtain ⟨p', sibling', t', -, straight, atT', sameNil, red', -⟩ :=
      insertStraighten_spec sentinel focus red balanced siblingBlack siblingBalanced
    have node' : t' ≠ .leaf := by
      rintro rfl
      simp at red'
    have lift := insertLift_ok straight node'
    rw [sameNil, ← atT'] at lift
    rw [insertStraighten_ok outer notNil parentNotNil, ok_bind]
    exact lift

/-- One pass of the loop of `rbtree_insert_fixup` from an invariant state. -/
theorem insertFixupPass_ok {cells : List Cell} {size : Nat} {state : Rbtree × Addr}
    (inv : InsertInv nil cells size state) :
    insertFixupPass state = .ok (RbtreeC.insertFixupPass state) := by
  obtain ⟨T, z⟩ := state
  obtain ⟨path, t, height, rfl, sentinel, focus, atT, red, balanced, accepts, rfl⟩ := inv
  dsimp only at sentinel focus atT
  subst atT
  have node : t ≠ .leaf := by
    rintro rfl
    simp at red
  have parent : (T.mem (ptr T.nil t)).parent = above T.nil path := focus.parent node
  unfold insertFixupPass RbtreeC.insertFixupPass
  dsimp only
  by_cases again : (T.mem (T.mem (ptr T.nil t)).parent).color = RED
  · rw [if_pos again, if_pos again]
    cases path with
    | nil =>
      rw [parent, above_nil, sentinel.same, sentinel.black] at again
      exact absurd again (by decide)
    | cons frame path =>
      obtain ⟨inner, c, p, sibling⟩ := frame
      rw [above_cons] at parent
      rw [parent, focus.read_above, nodeOf_color, code_eq_red] at again
      subst again
      obtain ⟨-, siblingBlack, siblingBalanced, acceptsRed⟩ := accepts
      obtain ⟨outer, g, uncle, up, rfl, -⟩ := acceptsRed.black_above
      have grand : (T.mem p.addr).parent = g.addr := focus.grand
      have test : p.addr = (T.mem g.addr).left ↔ outer = .left := focus.father_test
      have half := insertFixupSide_ok sentinel focus red balanced siblingBlack siblingBalanced
      rw [parent, grand, readChild_ok _ focus.up.up.addr_ne_nil, ok_bind]
      cases outer with
      | left =>
        have here : p.addr = (T.mem g.addr).left := test.mpr rfl
        rw [if_pos here, if_pos (show p.addr = (T.mem g.addr).child .left from here), half, map_ok]
      | right =>
        have other : ¬ p.addr = (T.mem g.addr).left := fun same => by simpa using test.mp same
        rw [if_neg other, if_neg (show ¬ p.addr = (T.mem g.addr).child .left from other), half,
          map_ok]
  · rw [if_neg again, if_neg again, setColor_black, map_ok]

end insertion

/-- Painting changes no child. -/
theorem child_setColor (T : Rbtree) (a b : Addr) (color : UInt8) (side : Side) :
    ((T.setColor a color).mem b).child side = (T.mem b).child side := by
  rw [Rbtree.mem_setColor]
  split
  · cases side <;> rfl
  · rfl

section deletion

variable {T : Rbtree} {nil : Addr} {side : Side} {c : Colour} {p : Cell}
  {sibling near far t : ColouredTree Cell} {up : List (Frame Cell)} {height : Nat}
  {cells : List Cell}

/-- The parent of a deficit is an inner node, in every tree in which the deficit is. -/
theorem parent_ne_nil {w : Addr} (deficit : Deficit nil cells side height c p sibling t up T w) :
    (T.mem (ptr T.nil t)).parent ≠ T.nil := by
  rw [show (T.mem (ptr T.nil t)).parent = p.addr from deficit.hooked]
  exact deficit.focus.up.addr_ne_nil

/-- The red-sibling step lifts the sibling above the parent. -/
theorem deleteLowerRed_ok {w : Addr}
    (deficit : Deficit nil cells side height c p sibling t up T w) :
    deleteLowerRed side T (ptr T.nil t) w =
      .ok (RbtreeC.deleteLowerRed side T (ptr T.nil t) w) := by
  obtain ⟨c', sibling', up', lowered, sameNil, -⟩ := deleteLowerRed_spec deficit
  have after := parent_ne_nil lowered
  rw [sameNil] at after
  have parent : (T.mem (ptr T.nil t)).parent = p.addr := deficit.hooked
  have inner : p.addr ≠ T.nil := deficit.focus.up.addr_ne_nil
  have notNil : w ≠ T.nil := by
    rw [deficit.atSibling]
    exact fun clash => deficit.sibling_node (deficit.focus.across.ptr_eq_nil.mp clash)
  have far : (T.mem p.addr).child side.flip = w := by
    rw [deficit.focus.read_above, nodeOf_child_flip, deficit.atSibling]
  unfold deleteLowerRed
  unfold RbtreeC.deleteLowerRed at after ⊢
  by_cases red : (T.mem w).color = RED
  · rw [if_pos red] at after
    rw [if_pos red, if_pos red]
    simp only [setColor_black, ok_bind, parent_setColor, parent] at after ⊢
    have lifted : (((T.setColor w BLACK).setColor p.addr RED).mem p.addr).child side.flip ≠
        T.nil := by
      rw [child_setColor, child_setColor, far]
      exact notNil
    rw [setColor_ok (T := T.setColor w BLACK) inner, ok_bind]
    simp only [parent_setColor, parent]
    rw [rotate_ok (T := (T.setColor w BLACK).setColor p.addr RED) side inner lifted, ok_bind,
      readChild_ok (T := RbtreeC.rotate side ((T.setColor w BLACK).setColor p.addr RED) p.addr) _
        (by rw [nil_rotate]; exact after), map_ok]
  · rw [if_neg red, if_neg red]

/-- The step for a black far nephew lifts the red near one. -/
theorem deleteRaiseNear_ok {w : Cell}
    (deficit : Deficit nil cells side height c p (.join side .black near w far) t up T w.addr)
    (someRed : ¬ (near.colour = .black ∧ far.colour = .black)) :
    deleteRaiseNear side T (ptr T.nil t) w.addr =
      .ok (RbtreeC.deleteRaiseNear side T (ptr T.nil t) w.addr) := by
  obtain ⟨near', w', far', raised, sameNil, -⟩ := deleteRaiseNear_spec deficit someRed
  have after := parent_ne_nil raised
  rw [sameNil] at after
  have inner : w.addr ≠ T.nil := deficit.focus.across.addr_ne_nil
  have nearAt : (T.mem w.addr).child side = ptr T.nil near := by
    rw [deficit.focus.across.read, nodeOf_child]
  have farAt : (T.mem w.addr).child side.flip = ptr T.nil far := by
    rw [deficit.focus.across.read, nodeOf_child_flip]
  have atFar := deficit.focus.across
  rw [← ColouredTree.join_flip] at atFar
  have farColor := atFar.down.color deficit.sentinel
  unfold deleteRaiseNear
  unfold RbtreeC.deleteRaiseNear at after ⊢
  rw [readChild_ok _ inner, ok_bind]
  by_cases black : (T.mem ((T.mem w.addr).child side.flip)).color = BLACK
  · rw [if_pos black] at after
    rw [if_pos black, if_pos black, readChild_ok _ inner, ok_bind, setColor_black, ok_bind,
      setColor_ok (T := T.setColor ((T.mem w.addr).child side) BLACK) inner, ok_bind]
    rw [farAt, farColor, code_eq_black] at black
    have nearNode : near ≠ .leaf := by
      rintro rfl
      exact someRed ⟨rfl, black⟩
    have lifted : (((T.setColor ((T.mem w.addr).child side) BLACK).setColor w.addr RED).mem
        w.addr).child side.flip.flip ≠ T.nil := by
      rw [Side.flip_flip, child_setColor, child_setColor, nearAt]
      exact fun clash => nearNode (deficit.focus.across.down.ptr_eq_nil.mp clash)
    rw [rotate_ok (T := (T.setColor ((T.mem w.addr).child side) BLACK).setColor w.addr RED)
        side.flip inner lifted, ok_bind, readChild_ok _ (by rw [nil_rotate]; exact after), map_ok]
  · rw [if_neg black, if_neg black]

/-- The last rotation of deletion lifts the sibling. -/
theorem deleteClose_ok {w : Cell}
    (deficit : Deficit nil cells side height c p (.join side .black near w far) t up T w.addr) :
    deleteClose side T (ptr T.nil t) w.addr =
      .ok (RbtreeC.deleteClose side T (ptr T.nil t) w.addr) := by
  have parent : (T.mem (ptr T.nil t)).parent = p.addr := deficit.hooked
  have inner : w.addr ≠ T.nil := deficit.focus.across.addr_ne_nil
  have top : p.addr ≠ T.nil := deficit.focus.up.addr_ne_nil
  have sibling : (T.mem p.addr).child side.flip = w.addr := by
    rw [deficit.focus.read_above, nodeOf_child_flip, ptr_join]
  unfold deleteClose RbtreeC.deleteClose
  simp only [setColor_ok inner, ok_bind, setColor_black, parent_setColor, parent]
  rw [readChild_ok _ (show w.addr ≠ ((T.setColor w.addr (T.mem p.addr).color).setColor p.addr
    BLACK).nil from inner), ok_bind]
  rw [rotate_ok side ?_ ?_, ok_bind]
  · exact top
  · rw [child_setColor, child_setColor, child_setColor, sibling]
    exact inner

/-- The part of the body after the red-sibling step. -/
theorem deleteBlackSibling_ok {w : Addr}
    (deficit : Deficit nil cells side height c p sibling t up T w)
    (siblingBlack : sibling.colour = .black) :
    deleteBlackSibling side T (ptr T.nil t) w =
      .ok (RbtreeC.deleteBlackSibling side T (ptr T.nil t) w) := by
  obtain ⟨near, cell, far, rfl, rfl⟩ := deficit.nephews siblingBlack
  have inner : cell.addr ≠ T.nil := deficit.focus.across.addr_ne_nil
  have atFar := deficit.focus.across
  rw [← ColouredTree.join_flip] at atFar
  have nearColor := deficit.focus.across.down.color deficit.sentinel
  have farColor := atFar.down.color deficit.sentinel
  unfold deleteBlackSibling RbtreeC.deleteBlackSibling
  rw [readChild_ok _ inner, ok_bind, readChild_ok _ inner, ok_bind]
  change (if (T.mem (T.mem cell.addr).left).color = BLACK ∧
    (T.mem (T.mem cell.addr).right).color = BLACK then _ else _) = _
  by_cases blacks : (T.mem (T.mem cell.addr).left).color = BLACK ∧
      (T.mem (T.mem cell.addr).right).color = BLACK
  · rw [if_pos blacks, if_pos blacks, setColor_ok inner, map_ok]
  · have someRed : ¬ (near.colour = .black ∧ far.colour = .black) := by
      intro both
      apply blacks
      rw [deficit.focus.across.read]
      cases side with
      | left =>
        simp only [nodeOf]
        rw [nearColor, farColor, code_eq_black, code_eq_black]
        exact both
      | right =>
        simp only [nodeOf]
        rw [nearColor, farColor, code_eq_black, code_eq_black]
        exact both.symm
    obtain ⟨near', w', far', raised, sameNil, -⟩ := deleteRaiseNear_spec deficit someRed
    have atW' := raised.atSibling
    rw [ptr_join] at atW'
    rw [atW'] at raised
    have closed := deleteClose_ok raised
    rw [sameNil, ← atW'] at closed
    rw [if_neg blacks, if_neg blacks, deleteRaiseNear_ok deficit someRed, ok_bind]
    exact closed

/-- One half of the body of `rbtree_delete_fixup`, run at a deficit. -/
theorem deleteFixupSide_ok
    (deficit : Deficit nil cells side height c p sibling t up T (ptr T.nil sibling)) :
    deleteFixupSide side T (ptr T.nil t) = .ok (RbtreeC.deleteFixupSide side T (ptr T.nil t)) := by
  have parent : (T.mem (ptr T.nil t)).parent = p.addr := deficit.hooked
  have atSibling : (T.mem (T.mem (ptr T.nil t)).parent).child side.flip = ptr T.nil sibling := by
    rw [parent, deficit.focus.read_above, nodeOf_child_flip]
  obtain ⟨c', sibling', up', lowered, sameNil, black, -⟩ := deleteLowerRed_spec deficit
  have rest := deleteBlackSibling_ok lowered black
  rw [sameNil] at rest
  unfold deleteFixupSide RbtreeC.deleteFixupSide
  rw [readChild_ok _ (parent_ne_nil deficit), ok_bind, atSibling, deleteLowerRed_ok deficit, ok_bind]
  exact rest

/-- One pass of the loop of `rbtree_delete_fixup` from an invariant state. -/
theorem deleteFixupPass_ok {size : Nat} {state : Rbtree × Addr}
    (inv : DeleteInv nil cells size state) :
    deleteFixupPass state = .ok (RbtreeC.deleteFixupPass state) := by
  obtain ⟨T, x⟩ := state
  obtain ⟨path, t, height, rfl, sentinel, focus, atT, hooked, balanced, accepts, rfl⟩ := inv
  dsimp only at sentinel focus atT hooked
  subst atT
  have color := focus.color sentinel
  unfold deleteFixupPass RbtreeC.deleteFixupPass
  dsimp only
  by_cases again : ptr T.nil t ≠ T.root ∧ (T.mem (ptr T.nil t)).color = BLACK
  · rw [if_pos again, if_pos again]
    cases path with
    | nil => exact absurd (focus_iff.mp focus).root.symm again.1
    | cons frame up =>
      obtain ⟨side, c, p, sibling⟩ := frame
      have deficit := focus.deficit sentinel (hooked (by simp)) accepts
      have parent : (T.mem (ptr T.nil t)).parent = p.addr := deficit.hooked
      have test := focus.left_test (Or.inr deficit.sibling_node)
      have half := deleteFixupSide_ok deficit
      rw [readChild_ok _ (parent_ne_nil deficit), ok_bind, parent]
      cases side with
      | left =>
        have here : ptr T.nil t = (T.mem p.addr).left := test.mpr rfl
        rw [if_pos here, if_pos (show ptr T.nil t = (T.mem p.addr).child .left from here), half,
          map_ok]
      | right =>
        have other : ¬ ptr T.nil t = (T.mem p.addr).left := fun same => by simpa using test.mp same
        rw [if_neg other, if_neg (show ¬ ptr T.nil t = (T.mem p.addr).child .left from other), half,
          map_ok]
  · rw [if_neg again, if_neg again, setColor_black, map_ok]

end deletion

/-- A red node `z` too many: the whole is a red-black tree but for the colour of `z`, whose
parent may be red. -/
def RedViolation (T : Rbtree) (z : Addr) : Prop :=
  ∃ cells size, InsertInv T.nil cells size (T, z)

/-- A black node too few: the whole is a red-black tree but for the paths through `x`, which
lack one black node. -/
def BlackDeficit (T : Rbtree) (x : Addr) : Prop :=
  ∃ cells size, DeleteInv T.nil cells size (T, x)

/-- The loop of `rbtree_insert_fixup` with checks runs as the one without. -/
theorem rbtreeInsertFixup_eq {T : Rbtree} {nil z : Addr} {cells : List Cell} {size : Nat}
    (inv : InsertInv nil cells size (T, z)) (fuel : Nat) :
    rbtreeInsertFixup fuel T z = (RbtreeC.rbtreeInsertFixup fuel T z).map .ok := by
  refine loop_guarded (fun state => ∃ size, InsertInv nil cells size state) ?_ ?_ fuel _ ⟨size, inv⟩
  · intro state ⟨size, inv⟩
    exact insertFixupPass_ok inv
  · exact loop_rule_keeps (InsertInv nil cells) (Valid nil cells) (insertFixupPass_spec nil cells)

/-- The loop of `rbtree_delete_fixup` with checks runs as the one without. -/
theorem rbtreeDeleteFixup_eq {T : Rbtree} {nil x : Addr} {cells : List Cell} {size : Nat}
    (inv : DeleteInv nil cells size (T, x)) (fuel : Nat) :
    rbtreeDeleteFixup fuel T x = (RbtreeC.rbtreeDeleteFixup fuel T x).map .ok := by
  refine loop_guarded (fun state => ∃ size, DeleteInv nil cells size state) ?_ ?_ fuel _ ⟨size, inv⟩
  · intro state ⟨size, inv⟩
    exact deleteFixupPass_ok inv
  · exact loop_rule_keeps (DeleteInv nil cells) (Valid nil cells) (deleteFixupPass_spec nil cells)

/-- `rbtree_insert` of a fresh node runs its fix-up without a fault. -/
theorem rbtreeInsert_ok {T : Rbtree} {nil z : Addr} {cells : List Cell}
    (valid : Valid nil cells T) (sorted : cells.Pairwise (fun a b => a.key < b.key))
    (inner : nil ≠ z) (fresh : z ∉ cells.map Cell.addr) :
    ∃ T', Leaves (fun fuel => rbtreeInsert fuel T z) (.ok T') ∧
      Leaves (fun fuel => RbtreeC.rbtreeInsert fuel T z) T' := by
  rcases rbtreeInsert_reaches valid sorted inner fresh with
    ⟨-, leaves⟩ | ⟨y, low, high, size, -, -, -, leaves, inv⟩
  · exact ⟨T, leaves.bind (Leaves.of_forall fun _ => rfl),
      leaves.bind (Leaves.of_forall fun _ => rfl)⟩
  · obtain ⟨T', fixed, -⟩ := rbtreeInsertFixup_spec inv
    have checked := fixed.map (Except.ok (ε := Fault))
    simp only [← rbtreeInsertFixup_eq inv] at checked
    exact ⟨T', leaves.bind checked, leaves.bind fixed⟩

/-- `rbtree_delete` of a node of the tree runs its fix-up without a fault. -/
theorem rbtreeDelete_ok {T : Rbtree} {nil : Addr} {cells : List Cell} {z : Cell}
    (valid : Valid nil cells T) (member : z ∈ cells) :
    ∃ result, Leaves (fun fuel => rbtreeDelete fuel T z.addr) (.ok result) ∧
      Leaves (fun fuel => RbtreeC.rbtreeDelete fuel T z.addr) result := by
  obtain ⟨c, y, low, high, remaining, chosen, color, unlinked, -⟩ :=
    rbtreeDelete_reaches valid member
  obtain ⟨T', leaves, -⟩ := unlinked.fixed
  have checked : Leaves (fun fuel => if code c = BLACK then rbtreeDeleteFixup fuel
      (deleteCopy (deleteUnlink T y (onlyChild T y)) z.addr y) (onlyChild T y)
      else some (.ok (deleteCopy (deleteUnlink T y (onlyChild T y)) z.addr y)))
      (.ok T' : Except Fault Rbtree) := by
    have mapped := leaves.map (Except.ok (ε := Fault))
    rcases unlinked with ⟨rfl, -⟩ | ⟨rfl, size, inv⟩
    · exact mapped
    · simp only [rbtreeDeleteFixup_eq inv]
      exact mapped
  rw [← color] at leaves checked
  exact ⟨(T', y), chosen.bind (checked.map fun outcome => outcome.map fun T => (T, y)),
    chosen.bind (leaves.map fun T => (T, y))⟩

/-- The loops of the fix-ups end, and they meet no fault: from every tree with one red node too
many, and from every tree with one black node too few, the loop with checks leaves with the
tree with which the loop without checks leaves. In every run from the empty tree these are the
states in which `rbtree_insert` and `rbtree_delete` call them, so the calls meet no fault. -/
theorem fixups_meet_no_fault :
    (∀ T z, RedViolation T z → ∃ T', Leaves (fun fuel => rbtreeInsertFixup fuel T z) (.ok T') ∧
      Leaves (fun fuel => RbtreeC.rbtreeInsertFixup fuel T z) T') ∧
    (∀ T x, BlackDeficit T x → ∃ T', Leaves (fun fuel => rbtreeDeleteFixup fuel T x) (.ok T') ∧
      Leaves (fun fuel => RbtreeC.rbtreeDeleteFixup fuel T x) T') ∧
    (∀ start trace T, Empty start → Run Step start trace T →
      (∀ z node, Fresh T z →
        ∃ T', Leaves (fun fuel => rbtreeInsert fuel (allocate T z node) z) (.ok T') ∧
          Step T (.insert z node) T') ∧
      (∀ key z, Leaves (fun fuel => rbtreeSearch fuel T key) z → z ≠ T.nil →
        ∃ T' y, Leaves (fun fuel => rbtreeDelete fuel T z) (.ok (T', y)) ∧
          Leaves (fun fuel => RbtreeC.rbtreeDelete fuel T z) (T', y))) := by
  refine ⟨?_, ?_, ?_⟩
  · rintro T z ⟨cells, size, inv⟩
    obtain ⟨T', leaves, -⟩ := rbtreeInsertFixup_spec inv
    refine ⟨T', ?_, leaves⟩
    simp only [rbtreeInsertFixup_eq inv]
    exact leaves.map Except.ok
  · rintro T x ⟨cells, size, inv⟩
    obtain ⟨T', leaves, -⟩ := rbtreeDeleteFixup_spec inv
    refine ⟨T', ?_, leaves⟩
    simp only [rbtreeDeleteFixup_eq inv]
    exact leaves.map Except.ok
  · intro start trace T empty run
    obtain ⟨cells, valid, sorted, -⟩ := run_represents empty run
    constructor
    · intro z node fresh
      have outside : z ∉ cells.map Cell.addr :=
        fun member => fresh.2 ((valid.reach_iff z).mpr member)
      obtain ⟨T', checked, leaves⟩ :=
        rbtreeInsert_ok (valid.allocate fresh node) sorted fresh.1.symm outside
      exact ⟨T', checked, Step.insert fresh leaves⟩
    · intro key z found present
      rcases rbtreeSearch_spec valid sorted key with ⟨cell, member, -, leaves⟩ | ⟨-, leaves⟩
      · rw [found.unique leaves]
        obtain ⟨⟨T', y⟩, checked, unchecked⟩ := rbtreeDelete_ok valid member
        exact ⟨T', y, checked, unchecked⟩
      · exact absurd (found.unique leaves) present

/-- A black root 1 with a black right child 2; the left subtree of the root lacks a black
node. -/
def lopsided : Rbtree :=
  ⟨1, 0, fun a =>
    if a = 1 then ⟨BLACK, 2, 0, 0, 5, 0⟩
    else if a = 2 then ⟨BLACK, 0, 0, 1, 7, 0⟩
    else ⟨BLACK, 0, 0, 1, 0, 0⟩⟩

/-- The missing black node of the left subtree is made up for without a fault. -/
theorem fixups_meet_no_fault_lopsided :
    ∃ T', Leaves (fun fuel => rbtreeDeleteFixup fuel lopsided 0) (.ok T') ∧
      Leaves (fun fuel => RbtreeC.rbtreeDeleteFixup fuel lopsided 0) T' := by
  refine fixups_meet_no_fault.2.1 lopsided 0 ⟨[⟨1, 5, 0⟩, ⟨2, 7, 0⟩], 3,
    [⟨.left, .black, ⟨1, 5, 0⟩, .node .black .leaf ⟨2, 7, 0⟩ .leaf⟩], .leaf, 0, rfl, ⟨rfl, rfl⟩,
    ⟨?_, trivial, by decide, by decide⟩, rfl, fun _ => rfl, rfl, ⟨?_, rfl⟩, rfl⟩
  · exact ⟨rfl, ⟨rfl, trivial, trivial⟩, rfl⟩
  · exact ⟨rfl, rfl⟩

end BackendCpp.RbtreeC.Checked
