import BackendCpp.RbtreeH.Climb
import BackendCpp.RbtreeH.Recoding

/-!
# The fix-up climbs

Every pass of the loop of `rbtree_insert_fixup` that meets a written case is one step of the
climb on the tree that the memory spells. So the loop ends, and its tree is a red-black tree
where the path mends the new red node, and none where it does not.
-/

namespace BackendCpp.RbtreeH

open BackendCpp.Library
open RbtreeC (Addr RbtreeNode Rbtree Cell Focus Sentinel Shape RED BLACK code ptr above pathCells
  nodeOf)

section writes

variable {T : Rbtree} {nil : Addr} {path : List (Frame Cell)} {side : Side} {c : Colour}
  {near far : ColouredTree Cell} {cell : Cell}

/-- `change_color` of the node in focus. -/
theorem changeColor_spec (sentinel : Sentinel nil (recode T))
    (focus : Focus (recode T) path (.join side c near cell far)) (d : Colour) (flips : c ≠ d) :
    Sentinel nil (recode (changeColor T cell.addr)) ∧
      Focus (recode (changeColor T cell.addr)) path (.join side d near cell far) := by
  have flipped : (if code c = RED then BLACK else RED) = code d := by
    cases c <;> cases d <;> first | rfl | exact absurd rfl flips
  rw [recode_changeColor, focus.read, RbtreeC.nodeOf_color, flipped]
  exact ⟨sentinel.setColor focus.addr_ne_nil _, focus.setColor d⟩

/-- The pointer to the subtree in focus is not the address of a node of the path. -/
theorem ptr_ne_above {T : Rbtree} {t : ColouredTree Cell} (focus : Focus T path t)
    (member : cell ∈ pathCells path) : ptr T.nil t ≠ cell.addr := by
  have unique := focus.distinct
  have outside := focus.sentinel
  have listed : cell.addr ∈ (pathCells path).map Cell.addr := List.mem_map_of_mem member
  rw [List.map_append] at unique outside
  refine RbtreeC.ne_of_sentinel_or_mem (RbtreeC.ptr_mem T.nil t) ?_ ?_
  · intro clash
    exact outside (List.mem_append_right _ (clash ▸ listed))
  · intro inTree
    exact (List.nodup_append.mp unique).2.2 _ inTree _ listed rfl

/-- A rotation at the node in focus. -/
theorem rotate_spec {cx cy : Colour} {near inner outer : ColouredTree Cell} {x y : Cell}
    (sentinel : Sentinel nil (recode T))
    (focus : Focus (recode T) path (.join side cx near x (.join side cy inner y outer))) :
    Sentinel nil (recode (rotate side T x.addr)) ∧
      Focus (recode (rotate side T x.addr)) path
        (.join side cy (.join side cx near x inner) y outer) := by
  have parent : (T.mem x.addr).parent = above T.nil path := by
    have read := congrArg RbtreeNode.parent focus.read
    rw [RbtreeC.nodeOf_parent] at read
    exact read
  have farAt : (T.mem x.addr).child side.flip = y.addr := by
    rw [← recode_child, focus.read, RbtreeC.nodeOf_child_flip, RbtreeC.ptr_join]
  have atY := focus
  rw [← ColouredTree.join_flip] at atY
  have innerAt : (T.mem y.addr).child side = ptr T.nil inner := by
    rw [← recode_child, atY.down.read, RbtreeC.nodeOf_child, recode_nil]
  have header : x.addr = T.root ↔ (T.mem x.addr).parent = T.nil := by
    rw [parent]
    cases path with
    | nil =>
      have root : T.root = x.addr := by
        have hung : (recode T).root = _ := focus.hung
        rw [RbtreeC.ptr_join] at hung
        exact hung
      exact iff_of_true root.symm rfl
    | cons frame up =>
      have below := focus.root_ne
      rw [RbtreeC.ptr_join] at below
      exact iff_of_false below focus.up.addr_ne_nil
  have apart : (T.mem ((T.mem x.addr).child side.flip)).child side ≠ x.addr := by
    rw [farAt, innerAt]
    show ptr (recode T).nil inner ≠ x.addr
    exact ptr_ne_above atY.down.down (by simp [pathCells])
  obtain ⟨rotated, kept⟩ := focus.rotate
  rw [rotate_eq header apart, recode_rotate]
  exact ⟨sentinel.rotate kept, rotated⟩

end writes

section cases

variable {T : Rbtree} {nil : Addr} {p g z : Cell} {sibling uncle t near far : ColouredTree Cell}
  {up : List (Frame Cell)}

/-- The red-uncle case. -/
theorem fixupRecolour_spec {inner outer : Side} (sentinel : Sentinel nil (recode T))
    (focus : Focus (recode T) (⟨inner, .red, p, sibling⟩ :: ⟨outer, .black, g, uncle⟩ :: up) t)
    (uncle_red : uncle.colour = .red) :
    Sentinel nil (recode (fixupRecolour T p.addr g.addr (ptr T.nil uncle))) ∧
      Focus (recode (fixupRecolour T p.addr g.addr (ptr T.nil uncle))) up
        (.join outer .red (.join inner .black t p sibling) g (uncle.paint .black)) := by
  obtain ⟨uncleNear, u, uncleFar, uncleJoin⟩ := ColouredTree.exists_join inner
    (show uncle ≠ .leaf by
      rintro rfl
      simp at uncle_red)
  rw [uncle_red] at uncleJoin
  subst uncleJoin
  rw [RbtreeC.ptr_join, ColouredTree.paint_join]
  obtain ⟨firstSentinel, first⟩ := changeColor_spec sentinel focus.up .black (by simp)
  obtain ⟨secondSentinel, second⟩ := changeColor_spec firstSentinel first.up .red (by simp)
  obtain ⟨thirdSentinel, third⟩ :=
    changeColor_spec secondSentinel second.down.across .black (by simp)
  have back := third.across
  rw [Side.flip_flip] at back
  exact ⟨thirdSentinel, back.up⟩

/-- The LL case. -/
theorem fixupLL_spec (sentinel : Sentinel nil (recode T))
    (focus : Focus (recode T) (⟨.left, .red, p, sibling⟩ :: ⟨.left, .black, g, uncle⟩ :: up) t) :
    Sentinel nil (recode (fixupLL T p.addr g.addr)) ∧
      Focus (recode (fixupLL T p.addr g.addr))
        (⟨.left, .black, p, .node .red sibling g uncle⟩ :: up) t := by
  have whole : Focus (recode T) up
      (.join .right .black uncle g (.join .right .red sibling p t)) := focus.up.up
  obtain ⟨firstSentinel, first⟩ := rotate_spec sentinel whole
  obtain ⟨secondSentinel, second⟩ := changeColor_spec firstSentinel first .black (by simp)
  obtain ⟨thirdSentinel, third⟩ :=
    changeColor_spec secondSentinel second.down .red (by simp)
  exact ⟨thirdSentinel, third.across⟩

/-- The LR case: the father is painted black and the new top stays red. -/
theorem fixupLR_spec (sentinel : Sentinel nil (recode T))
    (focus : Focus (recode T) (⟨.right, .red, p, sibling⟩ :: ⟨.left, .black, g, uncle⟩ :: up)
      (.node .red near z far)) :
    Sentinel nil (recode (fixupLR T p.addr g.addr)) ∧
      Focus (recode (fixupLR T p.addr g.addr)) up
        (.node .red (.node .black sibling p near) z (.node .red far g uncle)) := by
  have low : Focus (recode T) (⟨.left, .black, g, uncle⟩ :: up)
      (.join .left .red sibling p (.join .left .red near z far)) := focus.up
  obtain ⟨firstSentinel, first⟩ := rotate_spec sentinel low
  have whole : Focus (recode (rotate .left T p.addr)) up
      (.join .right .black uncle g
        (.join .right .red far z (.join .left .red sibling p near))) := first.up
  obtain ⟨secondSentinel, second⟩ := rotate_spec firstSentinel whole
  obtain ⟨thirdSentinel, third⟩ :=
    changeColor_spec secondSentinel second.down .red (by simp)
  obtain ⟨fourthSentinel, fourth⟩ :=
    changeColor_spec thirdSentinel third.across .black (by simp)
  exact ⟨fourthSentinel, fourth.up⟩

/-- The uncle of a focus is the brother of the father. -/
theorem uncleOf_eq {frame : Frame Cell} {outer : Side} {d : Colour}
    (focus : Focus (recode T) (frame :: ⟨outer, d, g, uncle⟩ :: up) t) :
    uncleOf T frame.item.addr = ptr T.nil uncle := by
  have grand : (T.mem frame.item.addr).parent = g.addr := focus.grand
  have read := focus.up.read_above
  have test := focus.father_test
  unfold uncleOf
  dsimp only
  rw [grand]
  cases outer with
  | left =>
    have here : (T.mem g.addr).left = frame.item.addr := (test.mpr rfl).symm
    rw [if_pos here, ← recode_right, read]
    rfl
  | right =>
    have other : ¬ (T.mem g.addr).left = frame.item.addr := fun same => by
      simpa using test.mp same.symm
    rw [if_neg other, ← recode_left, read]
    rfl

end cases

/-- One pass of the loop of `rbtree_insert_fixup` from a red node: it leaves below a black
father, or it climbs. -/
theorem insertFixupPass_spec {T : Rbtree} {nil : Addr} {path : List (Frame Cell)}
    {t : ColouredTree Cell} {height : Nat} (sentinel : Sentinel nil (recode T))
    (focus : Focus (recode T) path t) (is_red : t.colour = .red)
    (accepts : Accepts path .black height) (written : ¬ Unwritten (T, ptr T.nil t)) :
    ((path = [] ∨ ∃ frame up, path = frame :: up ∧ frame.colour = .black) ∧
      insertFixupPass (T, ptr T.nil t) = .inr T) ∨
    ∃ T' path' t', Climb path t path' t' ∧ Sentinel nil (recode T') ∧
      Focus (recode T') path' t' ∧ insertFixupPass (T, ptr T.nil t) = .inl (T', ptr T'.nil t') := by
  have node : t ≠ .leaf := by
    rintro rfl
    simp at is_red
  have parent : (T.mem (ptr T.nil t)).parent = above T.nil path := focus.parent node
  cases path with
  | nil =>
    left
    have dark : ¬ (T.mem T.nil).color = red := by
      rw [← recode_red, ← recode_nil, sentinel.same, sentinel.black]
      decide
    refine ⟨Or.inl rfl, ?_⟩
    simp only [insertFixupPass, parent, RbtreeC.above_nil, if_neg dark]
  | cons frame path =>
    obtain ⟨inner, c, p, sibling⟩ := frame
    rw [RbtreeC.above_cons] at parent
    have color : (T.mem p.addr).color = red ↔ c = .red := by
      rw [← recode_red, focus.read_above, RbtreeC.nodeOf_color, RbtreeC.code_eq_red]
    cases c with
    | black =>
      left
      have dark : ¬ (T.mem p.addr).color = red := fun isRed => by simpa using color.mp isRed
      refine ⟨Or.inr ⟨_, _, rfl, rfl⟩, ?_⟩
      simp only [insertFixupPass, parent, if_neg dark]
    | red =>
      right
      obtain ⟨-, -, -, acceptsRed⟩ := accepts
      obtain ⟨outer, g, uncle, up, rfl, -⟩ := acceptsRed.black_above
      have fatherRed : (T.mem p.addr).color = red := color.mpr rfl
      have grand : (T.mem p.addr).parent = g.addr := focus.grand
      have brother : uncleOf T p.addr = ptr T.nil uncle := uncleOf_eq focus
      have uncleRed : (T.mem (ptr T.nil uncle)).color = red ↔ uncle.colour = .red := by
        rw [← recode_red, ← recode_nil, focus.up.across.color sentinel, RbtreeC.code_eq_red]
      have outerLeft : p.addr = (T.mem g.addr).left ↔ outer = .left := focus.father_test
      have innerLeft : ptr T.nil t = (T.mem p.addr).left ↔ inner = .left :=
        focus.left_test (Or.inl node)
      have innerRight : ptr T.nil t = (T.mem p.addr).right ↔ inner = .right := by
        have apart := focus.ptr_ne_sibling (Or.inl node)
        rw [← recode_right, focus.read_above]
        cases inner with
        | left => exact iff_of_false apart (by simp)
        | right => exact iff_of_true rfl rfl
      cases colour : uncle.colour with
      | red =>
        obtain ⟨kept, moved⟩ := fixupRecolour_spec sentinel focus colour
        refine ⟨_, _, _, Climb.uncle colour, kept, moved, ?_⟩
        rw [RbtreeC.ptr_join]
        simp only [insertFixupPass, parent, fatherRed, grand, brother, if_pos,
          if_pos (uncleRed.mpr colour)]
      | black =>
        have uncleBlack : ¬ (T.mem (ptr T.nil uncle)).color = red := fun isRed => by
          simp [uncleRed.mp isRed] at colour
        have cases : outer = .left := by
          cases outer with
          | left => rfl
          | right =>
            refine absurd ?_ written
            have notLeft : ¬ p.addr = (T.mem g.addr).left := fun same => by
              simpa using outerLeft.mp same
            simp only [Unwritten, parent, grand, brother, fatherRed]
            exact ⟨trivial, uncleBlack, fun both => notLeft both.1, fun both => notLeft both.1⟩
        subst cases
        have outside := outerLeft.mpr rfl
        cases inner with
        | left =>
          obtain ⟨kept, moved⟩ := fixupLL_spec sentinel focus
          have sameNil : (fixupLL T p.addr g.addr).nil = T.nil := kept.same.trans sentinel.same.symm
          refine ⟨_, _, _, Climb.ll colour, kept, moved, ?_⟩
          rw [sameNil]
          simp only [insertFixupPass, parent, fatherRed, grand, brother, if_pos, if_neg uncleBlack,
            if_pos (And.intro outside (innerLeft.mpr rfl))]
        | right =>
          cases t with
          | leaf => exact absurd rfl node
          | node c near z far =>
            cases is_red
            obtain ⟨kept, moved⟩ := fixupLR_spec sentinel focus
            have notLL : ¬ (p.addr = (T.mem g.addr).left ∧
                ptr T.nil (.node .red near z far) = (T.mem p.addr).left) := fun both => by
              simpa using innerLeft.mp both.2
            refine ⟨_, _, _, Climb.lr colour, kept, moved, ?_⟩
            simp only [insertFixupPass, parent, fatherRed, grand, brother, if_pos, if_neg uncleBlack,
              if_neg notLL, if_pos (And.intro outside (innerRight.mpr rfl))]
            rfl

/-- The loop of `rbtree_insert_fixup` ends, on the same cells. Its tree is a red-black tree where
a balanced red node below a mending path came in, and none where the climb was spoiled. -/
theorem insertFixup_spec {nil : Addr} {path : List (Frame Cell)} :
    ∀ {T : Rbtree} {t : ColouredTree Cell} {height : Nat}, Sentinel nil (recode T) →
      Focus (recode T) path t → t.colour = .red → Accepts path .black height →
      Finished (T, ptr T.nil t) →
      ∃ T' whole, Leaves (fun fuel => loop insertFixupPass fuel (T, ptr T.nil t)) T' ∧
        Sentinel nil (recode T') ∧ Shape (recode T') whole ∧
        whole.items = (fill path t).items ∧
        (t.Balanced height → Mendable path → whole.RedBlack) ∧
        (Spoiled path t → ¬ whole.RedBlack) := by
  induction path using (measure List.length).wf.induction with
  | _ path ih =>
    intro T t height sentinel focus is_red accepts finished
    have written := finished _ Relation.ReflTransGen.refl
    rcases insertFixupPass_spec sentinel focus is_red accepts written with
      ⟨top, pass⟩ | ⟨T', path', t', climb, sentinel', focus', pass⟩
    · obtain ⟨mended, spoiled⟩ := redBlack_of_climb is_red accepts top
      exact ⟨T, fill path t, leaves_now pass, sentinel, RbtreeC.focus_iff.mp focus, rfl, mended,
        spoiled⟩
    · obtain ⟨height', accepts', mends, spoils⟩ := climb.accepts accepts
      have finished' : Finished (T', ptr T'.nil t') := fun state later =>
        finished state (Relation.ReflTransGen.head pass later)
      obtain ⟨last, whole, leaves, sentinel'', shape, items, mended, spoiled⟩ :=
        ih path' climb.shorter sentinel' focus' (climb.red is_red) accepts' finished'
      refine ⟨last, whole, leaves_next pass leaves, sentinel'', shape, items.trans climb.items, ?_,
        fun lost => spoiled (spoils lost)⟩
      intro balanced mendable
      obtain ⟨balanced', mendable'⟩ := mends balanced mendable
      exact mended balanced' mendable'

end BackendCpp.RbtreeH
