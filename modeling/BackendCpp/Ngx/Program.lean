import BackendCpp.RbtreeC.Program

/-!
# The program of the timers' rbtree.c

`2207-timers/rbtree.c` and `rbtree.h` keep nodes that point at each other and at a sentinel
of the caller's. The root of a tree need not have a null parent: it keeps whatever its parent
field held before, and only the header says that it is the root. The two rotations, and the
two halves of each fix-up, are mirror images in the source; they are one definition over the
side. What an insertion compares with is an argument, as `tree->insert` is.
-/

namespace BackendCpp.Ngx

open BackendCpp.Library
open RbtreeC (Addr)

/-- `NULL`. -/
def NULL : Addr := 0

/-- `struct ngx_rbtree_node_s`. -/
structure NgxRbtreeNode where
  /-- Key. -/
  key : UInt32
  /-- Left child. -/
  left : Addr
  /-- Right child. -/
  right : Addr
  /-- Parent. -/
  parent : Addr
  /-- Zero is black, anything else is red. -/
  color : UInt8
  /-- `data`, which the tree never looks at. -/
  data : UInt8
  deriving DecidableEq

/-- The child of a node on one side. -/
def NgxRbtreeNode.child (node : NgxRbtreeNode) : Side → Addr
  | .left => node.left
  | .right => node.right

/-- A node with another child on one side. -/
def NgxRbtreeNode.withChild (node : NgxRbtreeNode) (side : Side) (child : Addr) : NgxRbtreeNode :=
  match side with
  | .left => { node with left := child }
  | .right => { node with right := child }

/-- A node with another parent. -/
def NgxRbtreeNode.withParent (node : NgxRbtreeNode) (parent : Addr) : NgxRbtreeNode :=
  { node with parent }

/-- `struct ngx_rbtree_s` with the memory of its nodes. -/
structure NgxRbtree where
  /-- `tree->root`. -/
  root : Addr
  /-- `tree->sentinel`. -/
  sentinel : Addr
  /-- The node stored at each address. -/
  mem : Addr → NgxRbtreeNode

namespace NgxRbtree

/-- Rewrite the node at one address. -/
def modify (T : NgxRbtree) (a : Addr) (change : NgxRbtreeNode → NgxRbtreeNode) : NgxRbtree :=
  { T with mem := Function.update T.mem a (change (T.mem a)) }

/-- `tree->root = a`. -/
def setRoot (T : NgxRbtree) (a : Addr) : NgxRbtree := { T with root := a }

/-- `a->color = color`. -/
def setColor (T : NgxRbtree) (a : Addr) (color : UInt8) : NgxRbtree :=
  T.modify a fun node => { node with color }

/-- `a->parent = parent`. -/
def setParent (T : NgxRbtree) (a parent : Addr) : NgxRbtree :=
  T.modify a fun node => node.withParent parent

/-- `a->left = child` or `a->right = child`. -/
def setChild (T : NgxRbtree) (a : Addr) (side : Side) (child : Addr) : NgxRbtree :=
  T.modify a fun node => node.withChild side child

/-- `ngx_rbt_red`. -/
def ngxRbtRed (T : NgxRbtree) (a : Addr) : NgxRbtree := T.setColor a 1

/-- `ngx_rbt_black`. -/
def ngxRbtBlack (T : NgxRbtree) (a : Addr) : NgxRbtree := T.setColor a 0

/-- `ngx_rbt_is_red`. -/
def ngxRbtIsRed (T : NgxRbtree) (a : Addr) : Bool := (T.mem a).color ≠ 0

/-- `ngx_rbt_is_black`. -/
def ngxRbtIsBlack (T : NgxRbtree) (a : Addr) : Bool := !T.ngxRbtIsRed a

/-- `ngx_rbt_copy_color`. -/
def ngxRbtCopyColor (T : NgxRbtree) (a b : Addr) : NgxRbtree := T.setColor a (T.mem b).color

end NgxRbtree

/-- `ngx_rbtree_init`, on whatever the memory holds. -/
def ngxRbtreeInit (mem : Addr → NgxRbtreeNode) (s : Addr) : NgxRbtree :=
  { (⟨s, s, mem⟩ : NgxRbtree).ngxRbtBlack s with root := s, sentinel := s }

/-- One pass of the loop of `ngx_rbtree_min`. -/
def ngxRbtreeMinPass (T : NgxRbtree) (node : Addr) : Addr ⊕ Addr :=
  if (T.mem node).left ≠ T.sentinel then .inl (T.mem node).left else .inr node

/-- `ngx_rbtree_min`. -/
def ngxRbtreeMin (fuel : Nat) (T : NgxRbtree) (node : Addr) : Option Addr :=
  loop (ngxRbtreeMinPass T) fuel node

/-- The header, or the parent of `node`, points at `temp` instead of `node`. The child on `side`
is tested first. -/
def replaceChild (side : Side) (T : NgxRbtree) (node temp : Addr) : NgxRbtree :=
  if node = T.root then T.setRoot temp
  else if node = (T.mem (T.mem node).parent).child side then
    T.setChild (T.mem node).parent side temp
  else T.setChild (T.mem node).parent side.flip temp

/-- The child of `temp` on `side`, if there is one, points up to `node`. -/
def adoptChild (side : Side) (T : NgxRbtree) (node temp : Addr) : NgxRbtree :=
  if (T.mem temp).child side ≠ T.sentinel then T.setParent ((T.mem temp).child side) node else T

/-- The common body of the rotations. -/
def rotate (side : Side) (T : NgxRbtree) (node : Addr) : NgxRbtree :=
  let temp := (T.mem node).child side.flip
  let T := T.setChild node side.flip ((T.mem temp).child side)
  let T := adoptChild side T node temp
  let T := T.setParent temp (T.mem node).parent
  let T := replaceChild side T node temp
  let T := T.setChild temp side node
  T.setParent node temp

/-- `ngx_rbtree_left_rotate`. -/
def ngxRbtreeLeftRotate (T : NgxRbtree) (node : Addr) : NgxRbtree := rotate .left T node

/-- `ngx_rbtree_right_rotate`. -/
def ngxRbtreeRightRotate (T : NgxRbtree) (node : Addr) : NgxRbtree := rotate .right T node

/-- One pass of the descent of the insertion functions: `p` is a child pointer of `temp`. -/
def insertValuePass (less : UInt32 → UInt32 → Bool) (T : NgxRbtree) (node temp : Addr) :
    Addr ⊕ (Addr × Side) :=
  let p := if less (T.mem node).key (T.mem temp).key then Side.left else Side.right
  if (T.mem temp).child p = T.sentinel then .inr (temp, p) else .inl ((T.mem temp).child p)

/-- The writes of the insertion functions after the descent. -/
def insertLink (T : NgxRbtree) (node temp : Addr) (p : Side) : NgxRbtree :=
  let T := T.setChild temp p node
  let T := T.setParent node temp
  let T := T.setChild node .left T.sentinel
  let T := T.setChild node .right T.sentinel
  T.ngxRbtRed node

/-- The common body of the insertion functions. -/
def insertValue (less : UInt32 → UInt32 → Bool) (fuel : Nat) (T : NgxRbtree) (temp node : Addr) :
    Option NgxRbtree :=
  (loop (insertValuePass less T node) fuel temp).map fun (temp, p) => insertLink T node temp p

/-- The comparison of `ngx_rbtree_insert_value`. -/
def keyLess (one other : UInt32) : Bool := one < other

/-- `ngx_rbtree_insert_value`. -/
def ngxRbtreeInsertValue : Nat → NgxRbtree → Addr → Addr → Option NgxRbtree := insertValue keyLess

/-- The comparison of `ngx_rbtree_insert_timer_value`. -/
def timerLess (one other : UInt32) : Bool := (one - other).toInt32 < 0

/-- `ngx_rbtree_insert_timer_value`. -/
def ngxRbtreeInsertTimerValue : Nat → NgxRbtree → Addr → Addr → Option NgxRbtree :=
  insertValue timerLess

/-- The red branch of the fix-up of an insertion. -/
def insertRecolour (T : NgxRbtree) (node temp : Addr) : NgxRbtree × Addr :=
  let T := T.ngxRbtBlack (T.mem node).parent
  let T := T.ngxRbtBlack temp
  let T := T.ngxRbtRed (T.mem (T.mem node).parent).parent
  (T, (T.mem (T.mem node).parent).parent)

/-- The inner-child test of the fix-up of an insertion. -/
def insertStraighten (side : Side) (T : NgxRbtree) (node : Addr) : NgxRbtree × Addr :=
  if node = (T.mem (T.mem node).parent).child side.flip then
    let node := (T.mem node).parent
    (rotate side T node, node)
  else (T, node)

/-- The last rotation of the fix-up of an insertion. -/
def insertLift (side : Side) (T : NgxRbtree) (node : Addr) : NgxRbtree × Addr :=
  let T := T.ngxRbtBlack (T.mem node).parent
  let T := T.ngxRbtRed (T.mem (T.mem node).parent).parent
  (rotate side.flip T (T.mem (T.mem node).parent).parent, node)

/-- One half of the body of the fix-up of an insertion: the parent of `node` is the child of the
grandparent on `side`. -/
def insertFixupSide (side : Side) (T : NgxRbtree) (node : Addr) : NgxRbtree × Addr :=
  let temp := (T.mem (T.mem (T.mem node).parent).parent).child side.flip
  if T.ngxRbtIsRed temp then insertRecolour T node temp
  else
    let straight := insertStraighten side T node
    insertLift side straight.1 straight.2

/-- One pass of the loop of `ngx_rbtree_insert`; leaving it blackens the root. -/
def insertFixupPass (state : NgxRbtree × Addr) : (NgxRbtree × Addr) ⊕ NgxRbtree :=
  let T := state.1
  let node := state.2
  if node ≠ T.root ∧ T.ngxRbtIsRed (T.mem node).parent then
    if (T.mem node).parent = (T.mem (T.mem (T.mem node).parent).parent).left then
      .inl (insertFixupSide .left T node)
    else .inl (insertFixupSide .right T node)
  else .inr (T.ngxRbtBlack T.root)

/-- The branch of `ngx_rbtree_insert` for an empty tree. -/
def insertFirst (T : NgxRbtree) (node : Addr) : NgxRbtree :=
  let T := T.setParent node NULL
  let T := T.setChild node .left T.sentinel
  let T := T.setChild node .right T.sentinel
  let T := T.ngxRbtBlack node
  T.setRoot node

/-- `ngx_rbtree_insert`; `insert` is `tree->insert`. -/
def ngxRbtreeInsert (insert : Nat → NgxRbtree → Addr → Addr → Option NgxRbtree) (fuel : Nat)
    (T : NgxRbtree) (node : Addr) : Option NgxRbtree :=
  if T.root = T.sentinel then some (insertFirst T node)
  else (insert fuel T T.root node).bind fun T => loop insertFixupPass fuel (T, node)

/-- The pointers `subst` and `temp` of `ngx_rbtree_delete`: the node that leaves its place, and
the child that moves up there. -/
def chooseSubst (fuel : Nat) (T : NgxRbtree) (node : Addr) : Option (Addr × Addr) :=
  if (T.mem node).left = T.sentinel then some (node, (T.mem node).right)
  else if (T.mem node).right = T.sentinel then some (node, (T.mem node).left)
  else (ngxRbtreeMin fuel T (T.mem node).right).map fun subst =>
    if (T.mem subst).left ≠ T.sentinel then (subst, (T.mem subst).left)
    else (subst, (T.mem subst).right)

/-- `subst` takes the place, the children and the colour of `node`. -/
def takePlace (T : NgxRbtree) (node subst : Addr) : NgxRbtree :=
  let T := T.setChild subst .left (T.mem node).left
  let T := T.setChild subst .right (T.mem node).right
  let T := T.setParent subst (T.mem node).parent
  let T := T.ngxRbtCopyColor subst node
  let T := replaceChild .left T node subst
  let T := adoptChild .left T subst subst
  adoptChild .right T subst subst

/-- The unlinking part of `ngx_rbtree_delete`, where `subst` is not the root. -/
def deleteUnlink (T : NgxRbtree) (node subst temp : Addr) : NgxRbtree :=
  let T :=
    if subst = (T.mem (T.mem subst).parent).left then T.setChild (T.mem subst).parent .left temp
    else T.setChild (T.mem subst).parent .right temp
  if subst = node then T.setParent temp (T.mem subst).parent
  else
    let T :=
      if (T.mem subst).parent = node then T.setParent temp subst
      else T.setParent temp (T.mem subst).parent
    takePlace T node subst

/-- What `ngx_rbtree_delete` leaves in the deleted node. -/
def clearNode (T : NgxRbtree) (node : Addr) : NgxRbtree :=
  T.modify node fun old => { old with left := NULL, right := NULL, parent := NULL, key := 0 }

/-- The red-sibling step of the fix-up of a deletion; it gives the tree and the sibling `w` of
`temp` after it. -/
def deleteLowerRed (side : Side) (T : NgxRbtree) (temp w : Addr) : NgxRbtree × Addr :=
  if T.ngxRbtIsRed w then
    let T := T.ngxRbtBlack w
    let T := T.ngxRbtRed (T.mem temp).parent
    let T := rotate side T (T.mem temp).parent
    (T, (T.mem (T.mem temp).parent).child side.flip)
  else (T, w)

/-- The black-far-nephew step of the fix-up of a deletion. -/
def deleteRaiseNear (side : Side) (T : NgxRbtree) (temp w : Addr) : NgxRbtree × Addr :=
  if T.ngxRbtIsBlack ((T.mem w).child side.flip) then
    let T := T.ngxRbtBlack ((T.mem w).child side)
    let T := T.ngxRbtRed w
    let T := rotate side.flip T w
    (T, (T.mem (T.mem temp).parent).child side.flip)
  else (T, w)

/-- The last rotation of the fix-up of a deletion; the loop goes on at the root. -/
def deleteClose (side : Side) (T : NgxRbtree) (temp w : Addr) : NgxRbtree × Addr :=
  let T := T.ngxRbtCopyColor w (T.mem temp).parent
  let T := T.ngxRbtBlack (T.mem temp).parent
  let T := T.ngxRbtBlack ((T.mem w).child side.flip)
  let T := rotate side T (T.mem temp).parent
  (T, T.root)

/-- The part of the body of the fix-up of a deletion after the red-sibling step. -/
def deleteBlackSibling (side : Side) (T : NgxRbtree) (temp w : Addr) : NgxRbtree × Addr :=
  if T.ngxRbtIsBlack (T.mem w).left ∧ T.ngxRbtIsBlack (T.mem w).right then
    let T := T.ngxRbtRed w
    (T, (T.mem temp).parent)
  else
    let raised := deleteRaiseNear side T temp w
    deleteClose side raised.1 temp raised.2

/-- One half of the body of the fix-up of a deletion: `temp` is the child of its parent on
`side`. -/
def deleteFixupSide (side : Side) (T : NgxRbtree) (temp : Addr) : NgxRbtree × Addr :=
  let lowered := deleteLowerRed side T temp ((T.mem (T.mem temp).parent).child side.flip)
  deleteBlackSibling side lowered.1 temp lowered.2

/-- One pass of the loop of `ngx_rbtree_delete`; leaving it blackens `temp`. -/
def deleteFixupPass (state : NgxRbtree × Addr) : (NgxRbtree × Addr) ⊕ NgxRbtree :=
  let T := state.1
  let temp := state.2
  if temp ≠ T.root ∧ T.ngxRbtIsBlack temp then
    if temp = (T.mem (T.mem temp).parent).left then .inl (deleteFixupSide .left T temp)
    else .inl (deleteFixupSide .right T temp)
  else .inr (T.ngxRbtBlack temp)

/-- `ngx_rbtree_delete`. -/
def ngxRbtreeDelete (fuel : Nat) (T : NgxRbtree) (node : Addr) : Option NgxRbtree :=
  (chooseSubst fuel T node).bind fun (subst, temp) =>
    if subst = T.root then
      let T := T.setRoot temp
      some (clearNode (T.ngxRbtBlack temp) node)
    else
      let red := T.ngxRbtIsRed subst
      let T := clearNode (deleteUnlink T node subst temp) node
      if red then some T else loop deleteFixupPass fuel (T, temp)

/-- One pass of the upward loop of `ngx_rbtree_next`. -/
def ngxRbtreeNextPass (T : NgxRbtree) (node : Addr) : Addr ⊕ Addr :=
  let parent := (T.mem node).parent
  if node = T.root then .inr NULL
  else if node = (T.mem parent).left then .inr parent
  else .inl parent

/-- `ngx_rbtree_next`. -/
def ngxRbtreeNext (fuel : Nat) (T : NgxRbtree) (node : Addr) : Option Addr :=
  if (T.mem node).right ≠ T.sentinel then ngxRbtreeMin fuel T (T.mem node).right
  else loop (ngxRbtreeNextPass T) fuel node

end BackendCpp.Ngx
