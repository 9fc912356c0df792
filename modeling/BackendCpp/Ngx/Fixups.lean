import BackendCpp.Ngx.Recoding
import BackendCpp.RbtreeC.Safety

/-!
# The fix-ups of the timers' tree

At every state of the invariants of `1. Data_structure/rbtree.c` a pass of a fix-up of the
timers' tree is, read through `recode`, the pass of that tree's fix-up. The loops test for the
root by its address where the other tree tests for a parent that is the sentinel, and they read
parent fields only below the root. So the invariants and the measures of that tree carry over.
-/

namespace BackendCpp.Ngx

open BackendCpp.Library
open RbtreeC (Addr Rbtree Cell Focus Hooked Sentinel RED BLACK code ptr above Deficit InsertInv
  DeleteInv Valid)

/-- A state of a fix-up in the coding of `1. Data_structure/rbtree.c`. -/
def recodeState (state : NgxRbtree × Addr) : Rbtree × Addr := (recode state.1, state.2)

/-- Painting changes no parent field. -/
theorem parent_setColor (T : NgxRbtree) (a b : Addr) (color : UInt8) :
    ((T.setColor a color).mem b).parent = (T.mem b).parent := by
  rw [NgxRbtree.setColor, mem_modify]
  split <;> rfl

/-- Painting changes no child. -/
theorem child_setColor (T : NgxRbtree) (a b : Addr) (color : UInt8) (side : Side) :
    ((T.setColor a color).mem b).child side = (T.mem b).child side := by
  rw [NgxRbtree.setColor, mem_modify]
  split
  · cases side <;> rfl
  · rfl

/-- Below a frame the parent field itself is right, for a hooked tree. -/
theorem raw_parent {T : NgxRbtree} {path : List (Frame Cell)} {frame : Frame Cell}
    {t : ColouredTree Cell} (focus : Focus (recode T) (frame :: path) t)
    (hooked : Hooked (recode T) (frame :: path) t) :
    (T.mem (ptr T.sentinel t)).parent = frame.item.addr := by
  have below : ptr T.sentinel t ≠ T.root := focus.root_ne
  rw [← up_of_ne T _ below]
  exact hooked

/-- Of two frames above a focus the inner one has the outer one as its parent. -/
theorem raw_grand {T : NgxRbtree} {path : List (Frame Cell)} {frame next : Frame Cell}
    {t : ColouredTree Cell} (focus : Focus (recode T) (frame :: next :: path) t) :
    (T.mem frame.item.addr).parent = next.item.addr := by
  have below := focus.up.root_ne
  rw [RbtreeC.ptr_join] at below
  rw [← up_of_ne T _ below]
  exact focus.grand

section insertion

variable {T : NgxRbtree} {nil : Addr} {inner outer : Side} {p g : Cell}
  {sibling uncle t : ColouredTree Cell} {up : List (Frame Cell)} {c d : Colour}

/-- The red branch. -/
theorem recode_insertRecolour (temp : Addr)
    (focus : Focus (recode T) (⟨inner, c, p, sibling⟩ :: ⟨outer, d, g, uncle⟩ :: up) t)
    (node : t ≠ .leaf) :
    recodeState (insertRecolour T (ptr T.sentinel t) temp) =
      RbtreeC.insertRecolour (recode T) (ptr T.sentinel t) temp := by
  have raw : (T.mem (ptr T.sentinel t)).parent = p.addr := raw_parent focus (focus.parent node)
  have rawGrand : (T.mem p.addr).parent = g.addr := raw_grand focus
  have coded : ((recode T).mem (ptr T.sentinel t)).parent = p.addr := focus.parent node
  have codedGrand : ((recode T).mem p.addr).parent = g.addr := focus.grand
  simp only [recodeState, insertRecolour, RbtreeC.insertRecolour, NgxRbtree.ngxRbtBlack,
    NgxRbtree.ngxRbtRed, parent_setColor, RbtreeC.parent_setColor, raw, rawGrand, coded,
    codedGrand, recode_setColor]
  rfl

/-- The inner-child test. -/
theorem recode_insertStraighten
    (focus : Focus (recode T) (⟨inner, .red, p, sibling⟩ :: ⟨outer, .black, g, uncle⟩ :: up) t)
    (node : t ≠ .leaf) :
    recodeState (insertStraighten outer T (ptr T.sentinel t)) =
      RbtreeC.insertStraighten outer (recode T) (ptr T.sentinel t) := by
  have raw : (T.mem (ptr T.sentinel t)).parent = p.addr := raw_parent focus (focus.parent node)
  have coded : ((recode T).mem (ptr T.sentinel t)).parent = p.addr := focus.parent node
  unfold insertStraighten RbtreeC.insertStraighten
  rw [raw, coded, recode_child]
  by_cases bent : ptr T.sentinel t = (T.mem p.addr).child outer.flip
  · have turn : inner = outer.flip := by
      by_contra straight
      have same : inner = outer := (Side.eq_flip straight).trans (Side.flip_flip outer)
      have far : ((recode T).mem p.addr).child outer.flip = ptr T.sentinel sibling := by
        rw [focus.read_above, ← same, RbtreeC.nodeOf_child_flip]
        rfl
      rw [recode_child] at far
      exact focus.ptr_ne_sibling (Or.inl node) (bent.trans far)
    subst turn
    obtain ⟨near, z, far, whole⟩ := ColouredTree.exists_join outer node
    have turned := focus.up
    rw [whole, ColouredTree.join_flip] at turned
    rw [if_pos bent, if_pos bent, ← recode_rotate turned]
    rfl
  · rw [if_neg bent, if_neg bent]
    rfl

/-- The last rotation. -/
theorem recode_insertLift
    (focus : Focus (recode T) (⟨outer, c, p, sibling⟩ :: ⟨outer, d, g, uncle⟩ :: up) t)
    (node : t ≠ .leaf) :
    recodeState (insertLift outer T (ptr T.sentinel t)) =
      RbtreeC.insertLift outer (recode T) (ptr T.sentinel t) := by
  have raw : (T.mem (ptr T.sentinel t)).parent = p.addr := raw_parent focus (focus.parent node)
  have rawGrand : (T.mem p.addr).parent = g.addr := raw_grand focus
  have coded : ((recode T).mem (ptr T.sentinel t)).parent = p.addr := focus.parent node
  have codedGrand : ((recode T).mem p.addr).parent = g.addr := focus.grand
  have first : Focus (recode (T.ngxRbtBlack p.addr)) (⟨outer, d, g, uncle⟩ :: up)
      (.join outer .black t p sibling) := by
    rw [recode_ngxRbtBlack]
    exact focus.up.setColor .black
  have second : Focus (recode ((T.ngxRbtBlack p.addr).ngxRbtRed g.addr)) up
      (.join outer .red (.join outer .black t p sibling) g uncle) := by
    rw [recode_ngxRbtRed]
    exact first.up.setColor .red
  rw [← ColouredTree.join_flip outer, ← ColouredTree.join_flip outer .black] at second
  have lifted := recode_rotate second
  rw [recode_ngxRbtRed, recode_ngxRbtBlack] at lifted
  simp only [recodeState, insertLift, RbtreeC.insertLift, RbtreeC.parent_setColor, coded,
    codedGrand]
  simp only [NgxRbtree.ngxRbtBlack, NgxRbtree.ngxRbtRed, parent_setColor, raw, rawGrand] at lifted ⊢
  rw [lifted]

/-- One half of the body, at a red parent. -/
theorem recode_insertFixupSide {height : Nat} (sentinel : Sentinel nil (recode T))
    (focus : Focus (recode T) (⟨inner, .red, p, sibling⟩ :: ⟨outer, .black, g, uncle⟩ :: up) t)
    (red : t.colour = .red) (balanced : t.Balanced height)
    (siblingBlack : sibling.colour = .black) (siblingBalanced : sibling.Balanced height) :
    recodeState (insertFixupSide outer T (ptr T.sentinel t)) =
      RbtreeC.insertFixupSide outer (recode T) (ptr T.sentinel t) := by
  have node : t ≠ .leaf := by
    rintro rfl
    simp at red
  have raw : (T.mem (ptr T.sentinel t)).parent = p.addr := raw_parent focus (focus.parent node)
  have rawGrand : (T.mem p.addr).parent = g.addr := raw_grand focus
  have coded : ((recode T).mem (ptr T.sentinel t)).parent = p.addr := focus.parent node
  have codedGrand : ((recode T).mem p.addr).parent = g.addr := focus.grand
  unfold insertFixupSide RbtreeC.insertFixupSide
  simp only [raw, rawGrand, coded, codedGrand, recode_child, recode_red]
  split
  · exact recode_insertRecolour _ focus node
  · obtain ⟨p', sibling', t', -, straight, atT', sameNil, red', -⟩ :=
      RbtreeC.insertStraighten_spec sentinel focus red balanced siblingBlack siblingBalanced
    have node' : t' ≠ .leaf := by
      rintro rfl
      simp at red'
    have same := recode_insertStraighten focus node
    rw [recode_nil, ← same] at straight atT' sameNil
    have lifted := recode_insertLift straight node'
    have place : ptr (insertStraighten outer T (ptr T.sentinel t)).1.sentinel t' =
        (insertStraighten outer T (ptr T.sentinel t)).2 := by
      have named : (insertStraighten outer T (ptr T.sentinel t)).1.sentinel = T.sentinel := sameNil
      rw [named]
      exact atT'.symm
    rw [place] at lifted
    rw [lifted, ← same]
    rfl

/-- A pass of the loop of `ngx_rbtree_insert`. -/
theorem recode_insertFixupPass {cells : List Cell} {size : Nat} {state : NgxRbtree × Addr}
    (inv : InsertInv nil cells size (recodeState state)) :
    RbtreeC.insertFixupPass (recodeState state) =
      (insertFixupPass state).map recodeState recode := by
  obtain ⟨T, z⟩ := state
  obtain ⟨path, t, height, rfl, sentinel, focus, atT, red, balanced, accepts, rfl⟩ := inv
  dsimp only [recodeState] at sentinel focus atT
  rw [recode_nil] at atT
  subst atT
  have node : t ≠ .leaf := by
    rintro rfl
    simp at red
  have coded : ((recode T).mem (ptr T.sentinel t)).parent = above T.sentinel path :=
    focus.parent node
  cases path with
  | nil =>
    have top : T.root = ptr T.sentinel t := focus.hung
    have notRed : ¬ ((recode T).mem ((recode T).mem (ptr T.sentinel t)).parent).color = RED := by
      rw [coded, RbtreeC.above_nil, show T.sentinel = nil from sentinel.same, sentinel.black]
      decide
    have stop : ¬ (ptr T.sentinel t ≠ T.root ∧
        T.ngxRbtIsRed (T.mem (ptr T.sentinel t)).parent = true) := fun both => both.1 top.symm
    have pass : insertFixupPass (T, ptr T.sentinel t) = .inr (T.ngxRbtBlack T.root) := if_neg stop
    rw [pass, Sum.map_inr, recode_ngxRbtBlack]
    exact if_neg notRed
  | cons frame path =>
    obtain ⟨inner, c, p, sibling⟩ := frame
    rw [RbtreeC.above_cons] at coded
    have raw : (T.mem (ptr T.sentinel t)).parent = p.addr := raw_parent focus (focus.parent node)
    have below : ptr T.sentinel t ≠ T.root := focus.root_ne
    have test : ((recode T).mem p.addr).color = RED ↔
        (ptr T.sentinel t ≠ T.root ∧ T.ngxRbtIsRed p.addr = true) := by
      rw [recode_red]
      exact (and_iff_right below).symm
    have color : ((recode T).mem p.addr).color = code c := by
      rw [focus.read_above, RbtreeC.nodeOf_color]
    simp only [RbtreeC.insertFixupPass, insertFixupPass, recodeState, coded, raw]
    cases c with
    | black =>
      have notRed : ¬ ((recode T).mem p.addr).color = RED := by
        rw [color]
        decide
      rw [if_neg notRed, if_neg (fun both => notRed (test.mpr both)), Sum.map_inr,
        recode_ngxRbtBlack]
      rfl
    | red =>
      obtain ⟨-, siblingBlack, siblingBalanced, acceptsRed⟩ := accepts
      obtain ⟨outer, g, uncle, up, rfl, -⟩ := acceptsRed.black_above
      have rawGrand : (T.mem p.addr).parent = g.addr := raw_grand focus
      have codedGrand : ((recode T).mem p.addr).parent = g.addr := focus.grand
      have half := recode_insertFixupSide sentinel focus red balanced siblingBlack siblingBalanced
      have side : p.addr = (T.mem g.addr).left ↔ outer = .left := focus.father_test
      have isRed : ((recode T).mem p.addr).color = RED := color
      rw [if_pos isRed, if_pos (test.mp isRed), codedGrand, rawGrand, recode_left]
      cases outer with
      | left =>
        rw [if_pos (side.mpr rfl), if_pos (side.mpr rfl), ← half]
        rfl
      | right =>
        have other : ¬ p.addr = (T.mem g.addr).left := fun same => by simpa using side.mp same
        rw [if_neg other, if_neg other, ← half]
        rfl

end insertion

section deletion

variable {T : NgxRbtree} {nil w : Addr} {side : Side} {c : Colour} {p v : Cell}
  {sibling near far t : ColouredTree Cell} {up : List (Frame Cell)} {height : Nat}
  {cells : List Cell}

/-- Below a frame the two codings have the same parent field. -/
theorem coded_parent {path : List (Frame Cell)} {frame : Frame Cell}
    (focus : Focus (recode T) (frame :: path) t) :
    ((recode T).mem (ptr T.sentinel t)).parent = (T.mem (ptr T.sentinel t)).parent :=
  up_of_ne T _ focus.root_ne

/-- The red-sibling step. -/
theorem recode_deleteLowerRed
    (deficit : Deficit nil cells side height c p sibling t up (recode T) w) :
    recodeState (deleteLowerRed side T (ptr T.sentinel t) w) =
      RbtreeC.deleteLowerRed side (recode T) (ptr T.sentinel t) w := by
  obtain ⟨near, v, far, whole⟩ := ColouredTree.exists_join side deficit.sibling_node
  have atSibling := deficit.atSibling
  rw [whole, RbtreeC.ptr_join] at atSibling
  subst atSibling
  have raw : (T.mem (ptr T.sentinel t)).parent = p.addr := raw_parent deficit.focus deficit.hooked
  have coded : ((recode T).mem (ptr T.sentinel t)).parent = p.addr := deficit.hooked
  have first : Focus (recode (T.ngxRbtBlack v.addr))
      (⟨side, c, p, .join side .black near v far⟩ :: up) t := by
    have across := deficit.focus.across
    rw [whole] at across
    have painted := (across.setColor .black).across
    rw [Side.flip_flip] at painted
    rw [recode_ngxRbtBlack]
    exact painted
  have second : Focus (recode ((T.ngxRbtBlack v.addr).ngxRbtRed p.addr)) up
      (.join side .red t p (.join side .black near v far)) := by
    rw [recode_ngxRbtRed]
    exact first.up.setColor .red
  have lowered := recode_rotate second
  obtain ⟨turned, -⟩ := second.rotate
  rw [← lowered] at turned
  have below := coded_parent turned.down.down
  have sentinel : (rotate side ((T.ngxRbtBlack v.addr).ngxRbtRed p.addr) p.addr).sentinel =
      T.sentinel := by
    have named := congrArg Rbtree.nil lowered
    rw [RbtreeC.nil_rotate] at named
    exact named
  rw [sentinel] at below
  unfold deleteLowerRed RbtreeC.deleteLowerRed
  by_cases red : ((recode T).mem v.addr).color = RED
  · rw [if_pos red, if_pos ((recode_red T v.addr).mp red)]
    have rawBlack : ((T.ngxRbtBlack v.addr).mem (ptr T.sentinel t)).parent = p.addr := by
      rw [NgxRbtree.ngxRbtBlack, parent_setColor, raw]
    have rawRed : (((T.ngxRbtBlack v.addr).ngxRbtRed p.addr).mem (ptr T.sentinel t)).parent =
        p.addr := by
      rw [NgxRbtree.ngxRbtRed, parent_setColor, rawBlack]
    dsimp only
    rw [rawBlack, rawRed, RbtreeC.parent_setColor, coded, RbtreeC.parent_setColor,
      RbtreeC.parent_setColor, coded, ← recode_ngxRbtBlack, ← recode_ngxRbtRed, ← lowered, below,
      recode_child]
    rfl
  · rw [if_neg red, if_neg (fun isRed => red ((recode_red T v.addr).mpr isRed))]
    rfl

/-- The step for a black far nephew. -/
theorem recode_deleteRaiseNear
    (deficit : Deficit nil cells side height c p (.join side .black near v far) t up (recode T)
      v.addr)
    (someRed : ¬ (near.colour = .black ∧ far.colour = .black)) :
    recodeState (deleteRaiseNear side T (ptr T.sentinel t) v.addr) =
      RbtreeC.deleteRaiseNear side (recode T) (ptr T.sentinel t) v.addr := by
  have farAt : ((recode T).mem v.addr).child side.flip = ptr T.sentinel far := by
    rw [deficit.focus.across.read, RbtreeC.nodeOf_child_flip]
    rfl
  have nearAt : ((recode T).mem v.addr).child side = ptr T.sentinel near := by
    rw [deficit.focus.across.read, RbtreeC.nodeOf_child]
    rfl
  have atFar := deficit.focus.across
  rw [← ColouredTree.join_flip] at atFar
  have farColor := atFar.down.color deficit.sentinel
  rw [recode_nil] at farColor
  unfold deleteRaiseNear RbtreeC.deleteRaiseNear
  rw [farAt, nearAt]
  rw [recode_child] at farAt nearAt
  rw [farAt, nearAt]
  by_cases black : ((recode T).mem (ptr T.sentinel far)).color = BLACK
  · rw [if_pos black, if_pos ((recode_black T _).mp black)]
    rw [farColor, RbtreeC.code_eq_black] at black
    have nearNode : near ≠ .leaf := by
      rintro rfl
      exact someRed ⟨rfl, black⟩
    obtain ⟨inner, b, outer, whole⟩ := ColouredTree.exists_join side.flip nearNode
    generalize near.colour = d at whole
    subst whole
    have first : Focus (recode (T.ngxRbtBlack b.addr)) (⟨side.flip, c, p, t⟩ :: up)
        (.join side .black (.join side.flip .black inner b outer) v far) := by
      rw [recode_ngxRbtBlack]
      exact (deficit.focus.across.down.setColor .black).up
    have second : Focus (recode ((T.ngxRbtBlack b.addr).ngxRbtRed v.addr))
        (⟨side.flip, c, p, t⟩ :: up)
        (.join side.flip .red far v (.join side.flip .black inner b outer)) := by
      rw [ColouredTree.join_flip, recode_ngxRbtRed]
      exact first.setColor .red
    have raised := recode_rotate second
    obtain ⟨turned, -⟩ := second.rotate
    rw [← raised] at turned
    have around := turned.across
    rw [Side.flip_flip] at around
    have below := coded_parent around
    have sentinel : (rotate side.flip ((T.ngxRbtBlack b.addr).ngxRbtRed v.addr) v.addr).sentinel =
        T.sentinel := by
      have named := congrArg Rbtree.nil raised
      rw [RbtreeC.nil_rotate] at named
      exact named
    rw [sentinel] at below
    rw [RbtreeC.ptr_join]
    dsimp only
    rw [← recode_ngxRbtBlack, ← recode_ngxRbtRed, ← raised, below, recode_child]
    rfl
  · rw [if_neg black, if_neg (fun isBlack => black ((recode_black T _).mpr isBlack))]
    rfl

/-- The last rotation. -/
theorem recode_deleteClose
    (deficit : Deficit nil cells side height c p (.join side .black near v far) t up (recode T)
      v.addr)
    (farRed : far.colour = .red) :
    recodeState (deleteClose side T (ptr T.sentinel t) v.addr) =
      RbtreeC.deleteClose side (recode T) (ptr T.sentinel t) v.addr := by
  have farNode : far ≠ .leaf := by
    rintro rfl
    simp at farRed
  obtain ⟨farNear, f, farFar, whole⟩ := ColouredTree.exists_join side farNode
  rw [farRed] at whole
  subst whole
  have raw : (T.mem (ptr T.sentinel t)).parent = p.addr := raw_parent deficit.focus deficit.hooked
  have coded : ((recode T).mem (ptr T.sentinel t)).parent = p.addr := deficit.hooked
  have color : ((recode T).mem p.addr).color = code c := by
    rw [deficit.focus.read_above, RbtreeC.nodeOf_color]
  have farAt : (T.mem v.addr).child side.flip = f.addr := by
    rw [← recode_child, deficit.focus.across.read, RbtreeC.nodeOf_child_flip, RbtreeC.ptr_join]
  have first : Focus (recode (T.ngxRbtCopyColor v.addr p.addr))
      (⟨side, c, p, .join side c near v (.join side .red farNear f farFar)⟩ :: up) t := by
    have painted := (deficit.focus.across.setColor c).across
    rw [Side.flip_flip] at painted
    rw [recode_ngxRbtCopyColor, color]
    exact painted
  have second : Focus (recode ((T.ngxRbtCopyColor v.addr p.addr).ngxRbtBlack p.addr)) up
      (.join side .black t p (.join side c near v (.join side .red farNear f farFar))) := by
    rw [recode_ngxRbtBlack]
    exact first.up.setColor .black
  have third : Focus
      (recode (((T.ngxRbtCopyColor v.addr p.addr).ngxRbtBlack p.addr).ngxRbtBlack f.addr)) up
      (.join side .black t p (.join side c near v (.join side .black farNear f farFar))) := by
    have atV := second.down.across
    rw [← ColouredTree.join_flip] at atV
    have painted := (atV.down.setColor .black).up
    simp only [ColouredTree.join_flip] at painted
    have moved := painted.across
    rw [Side.flip_flip] at moved
    rw [recode_ngxRbtBlack]
    exact moved.up
  have closed := recode_rotate third
  rw [recode_ngxRbtBlack, recode_ngxRbtBlack, recode_ngxRbtCopyColor] at closed
  have header := congrArg Rbtree.root closed
  simp only [recodeState, deleteClose, RbtreeC.deleteClose, RbtreeC.parent_setColor, coded,
    RbtreeC.Checked.child_setColor, recode_child, farAt]
  simp only [NgxRbtree.ngxRbtBlack, NgxRbtree.ngxRbtCopyColor, parent_setColor, child_setColor,
    raw, farAt] at closed header ⊢
  rw [closed, ← header]
  rfl

/-- The part of the body after the red-sibling step. -/
theorem recode_deleteBlackSibling
    (deficit : Deficit nil cells side height c p sibling t up (recode T) w)
    (siblingBlack : sibling.colour = .black) :
    recodeState (deleteBlackSibling side T (ptr T.sentinel t) w) =
      RbtreeC.deleteBlackSibling side (recode T) (ptr T.sentinel t) w := by
  obtain ⟨near, v, far, rfl, rfl⟩ := deficit.nephews siblingBlack
  have raw : (T.mem (ptr T.sentinel t)).parent = p.addr := raw_parent deficit.focus deficit.hooked
  have coded : ((recode T).mem (ptr T.sentinel t)).parent = p.addr := deficit.hooked
  have atFar := deficit.focus.across
  rw [← ColouredTree.join_flip] at atFar
  have nearColor := deficit.focus.across.down.color deficit.sentinel
  have farColor := atFar.down.color deficit.sentinel
  have test : (((recode T).mem ((recode T).mem v.addr).left).color = BLACK ∧
      ((recode T).mem ((recode T).mem v.addr).right).color = BLACK) ↔
      (T.ngxRbtIsBlack (T.mem v.addr).left = true ∧ T.ngxRbtIsBlack (T.mem v.addr).right = true) := by
    rw [recode_black, recode_black, recode_left, recode_right]
  unfold deleteBlackSibling RbtreeC.deleteBlackSibling
  by_cases blacks : T.ngxRbtIsBlack (T.mem v.addr).left = true ∧
      T.ngxRbtIsBlack (T.mem v.addr).right = true
  · rw [if_pos blacks, if_pos (test.mpr blacks)]
    dsimp only
    rw [RbtreeC.parent_setColor, coded, NgxRbtree.ngxRbtRed, parent_setColor, raw, recodeState,
      recode_setColor]
    rfl
  · have someRed : ¬ (near.colour = .black ∧ far.colour = .black) := by
      intro both
      refine blacks (test.mp ?_)
      rw [deficit.focus.across.read]
      cases side with
      | left =>
        simp only [RbtreeC.nodeOf]
        rw [nearColor, farColor, RbtreeC.code_eq_black, RbtreeC.code_eq_black]
        exact both
      | right =>
        simp only [RbtreeC.nodeOf]
        rw [nearColor, farColor, RbtreeC.code_eq_black, RbtreeC.code_eq_black]
        exact both.symm
    have same := recode_deleteRaiseNear deficit someRed
    obtain ⟨near', v', far', raised, sameNil, farRed⟩ :=
      RbtreeC.deleteRaiseNear_spec deficit someRed
    rw [recode_nil, ← same] at raised sameNil
    have atV' := raised.atSibling
    rw [RbtreeC.ptr_join] at atV'
    rw [atV'] at raised
    have closed := recode_deleteClose raised farRed
    have named : (deleteRaiseNear side T (ptr T.sentinel t) v.addr).1.sentinel = T.sentinel := sameNil
    rw [named, ← atV'] at closed
    rw [if_neg blacks, if_neg (fun both => blacks (test.mp both)), ← same]
    exact closed

/-- One half of the body, at a deficit. -/
theorem recode_deleteFixupSide
    (deficit : Deficit nil cells side height c p sibling t up (recode T) (ptr T.sentinel sibling)) :
    recodeState (deleteFixupSide side T (ptr T.sentinel t)) =
      RbtreeC.deleteFixupSide side (recode T) (ptr T.sentinel t) := by
  have raw : (T.mem (ptr T.sentinel t)).parent = p.addr := raw_parent deficit.focus deficit.hooked
  have coded : ((recode T).mem (ptr T.sentinel t)).parent = p.addr := deficit.hooked
  have atSibling : (T.mem p.addr).child side.flip = ptr T.sentinel sibling := by
    rw [← recode_child, deficit.focus.read_above, RbtreeC.nodeOf_child_flip]
    rfl
  have same := recode_deleteLowerRed deficit
  obtain ⟨c', sibling', up', lowered, sameNil, black, -⟩ := RbtreeC.deleteLowerRed_spec deficit
  rw [recode_nil, ← same] at lowered sameNil
  have rest := recode_deleteBlackSibling lowered black
  have named : (deleteLowerRed side T (ptr T.sentinel t) (ptr T.sentinel sibling)).1.sentinel =
      T.sentinel := sameNil
  rw [named] at rest
  unfold deleteFixupSide RbtreeC.deleteFixupSide
  rw [raw, coded, recode_child, atSibling, ← same]
  exact rest

/-- A pass of the loop of `ngx_rbtree_delete`. -/
theorem recode_deleteFixupPass {size : Nat} {state : NgxRbtree × Addr}
    (inv : DeleteInv nil cells size (recodeState state)) :
    RbtreeC.deleteFixupPass (recodeState state) =
      (deleteFixupPass state).map recodeState recode := by
  obtain ⟨T, x⟩ := state
  obtain ⟨path, t, height, rfl, sentinel, focus, atT, hooked, balanced, accepts, rfl⟩ := inv
  dsimp only [recodeState] at sentinel focus atT hooked
  rw [recode_nil] at atT
  subst atT
  have test : (ptr T.sentinel t ≠ (recode T).root ∧
      ((recode T).mem (ptr T.sentinel t)).color = BLACK) ↔
      (ptr T.sentinel t ≠ T.root ∧ T.ngxRbtIsBlack (ptr T.sentinel t) = true) := by
    rw [recode_black]
    rfl
  unfold RbtreeC.deleteFixupPass deleteFixupPass
  dsimp only [recodeState]
  by_cases again : ptr T.sentinel t ≠ T.root ∧ T.ngxRbtIsBlack (ptr T.sentinel t) = true
  · rw [if_pos again, if_pos (test.mpr again)]
    cases path with
    | nil => exact absurd focus.hung.symm again.1
    | cons frame up =>
      obtain ⟨side, c, p, sibling⟩ := frame
      have deficit := focus.deficit sentinel (hooked (by simp)) accepts
      have half := recode_deleteFixupSide deficit
      have raw : (T.mem (ptr T.sentinel t)).parent = p.addr :=
        raw_parent deficit.focus deficit.hooked
      have coded : ((recode T).mem (ptr T.sentinel t)).parent = p.addr := deficit.hooked
      have left : ptr T.sentinel t = (T.mem p.addr).left ↔ side = .left :=
        focus.left_test (Or.inr deficit.sibling_node)
      rw [raw, coded, recode_left]
      cases side with
      | left =>
        rw [if_pos (left.mpr rfl), if_pos (left.mpr rfl), ← half]
        rfl
      | right =>
        have other : ¬ ptr T.sentinel t = (T.mem p.addr).left := fun same => by
          simpa using left.mp same
        rw [if_neg other, if_neg other, ← half]
        rfl
  · rw [if_neg again, if_neg (fun both => again (test.mp both)), Sum.map_inr, recode_ngxRbtBlack]

end deletion

/-- The loop of `ngx_rbtree_insert` ends in a red-black tree on the same cells. -/
theorem insertFixup_spec {T : NgxRbtree} {nil node : Addr} {cells : List Cell} {size : Nat}
    (inv : InsertInv nil cells size (recode T, node)) :
    ∃ T', Leaves (fun fuel => loop insertFixupPass fuel (T, node)) T' ∧
      Valid nil cells (recode T') :=
  loop_rule_map recodeState recode (InsertInv nil cells) (Valid nil cells)
    (RbtreeC.insertFixupPass_spec nil cells) (fun _ _ => recode_insertFixupPass) size (T, node) inv

/-- The loop of `ngx_rbtree_delete` ends in a red-black tree on the same cells. -/
theorem deleteFixup_spec {T : NgxRbtree} {nil temp : Addr} {cells : List Cell} {size : Nat}
    (inv : DeleteInv nil cells size (recode T, temp)) :
    ∃ T', Leaves (fun fuel => loop deleteFixupPass fuel (T, temp)) T' ∧
      Valid nil cells (recode T') :=
  loop_rule_map recodeState recode (DeleteInv nil cells) (Valid nil cells)
    (RbtreeC.deleteFixupPass_spec nil cells) (fun _ _ => recode_deleteFixupPass) size (T, temp) inv

end BackendCpp.Ngx
