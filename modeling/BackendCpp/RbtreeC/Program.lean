import BackendCpp.Library.Loop
import BackendCpp.Library.RedBlack

/-!
# The program of rbtree.c

`1. Data_structure/rbtree.c` keeps its tree in nodes that point at each other and at one
shared sentinel `T->nil`. The model keeps the pointers: a tree is the two pointers of the
header and the node stored at every address. Each function writes the fields in the order
of the source. The two rotations, and the two halves of each fix-up loop, are mirror
images in the source; they are one definition over the side. Keys are compared only, so
`int` is `Int`; a `void *` value is an address.
-/

namespace BackendCpp.RbtreeC

open BackendCpp.Library

/-- Addresses of nodes and of values. -/
abbrev Addr := Nat

/-- `RED`. -/
def RED : UInt8 := 1

/-- `BLACK`. -/
def BLACK : UInt8 := 2

/-- `struct _rbtree_node`. -/
structure RbtreeNode where
  /-- `RED`, `BLACK`, or whatever the allocator left there. -/
  color : UInt8
  /-- Right child. -/
  right : Addr
  /-- Left child. -/
  left : Addr
  /-- Parent. -/
  parent : Addr
  /-- Key. -/
  key : Int
  /-- Value. -/
  value : Addr
  deriving DecidableEq

/-- The child of a node on one side. -/
def RbtreeNode.child (node : RbtreeNode) : Side → Addr
  | .left => node.left
  | .right => node.right

/-- A node with another child on one side. -/
def RbtreeNode.withChild (node : RbtreeNode) (side : Side) (child : Addr) : RbtreeNode :=
  match side with
  | .left => { node with left := child }
  | .right => { node with right := child }

/-- A node with another parent. -/
def RbtreeNode.withParent (node : RbtreeNode) (parent : Addr) : RbtreeNode := { node with parent }

/-- A node with another colour byte. -/
def RbtreeNode.withColor (node : RbtreeNode) (color : UInt8) : RbtreeNode := { node with color }

/-- `struct _rbtree` with the memory of its nodes. -/
structure Rbtree where
  /-- `T->root`. -/
  root : Addr
  /-- `T->nil`. -/
  nil : Addr
  /-- The node stored at each address. -/
  mem : Addr → RbtreeNode

namespace Rbtree

/-- Rewrite the node at one address. -/
def modify (T : Rbtree) (a : Addr) (change : RbtreeNode → RbtreeNode) : Rbtree :=
  { T with mem := Function.update T.mem a (change (T.mem a)) }

/-- `T->root = a`. -/
def setRoot (T : Rbtree) (a : Addr) : Rbtree := { T with root := a }

/-- `a->color = color`. -/
def setColor (T : Rbtree) (a : Addr) (color : UInt8) : Rbtree :=
  T.modify a fun node => node.withColor color

/-- `a->parent = parent`. -/
def setParent (T : Rbtree) (a parent : Addr) : Rbtree :=
  T.modify a fun node => node.withParent parent

/-- `a->left = child` or `a->right = child`. -/
def setChild (T : Rbtree) (a : Addr) (side : Side) (child : Addr) : Rbtree :=
  T.modify a fun node => node.withChild side child

/-- `a->key = key`. -/
def setKey (T : Rbtree) (a : Addr) (key : Int) : Rbtree :=
  T.modify a fun node => { node with key }

/-- `a->value = value`. -/
def setValue (T : Rbtree) (a : Addr) (value : Addr) : Rbtree :=
  T.modify a fun node => { node with value }

section reads

variable (T : Rbtree) (a b : Addr)

/-- Reading after a rewrite of one node. -/
theorem mem_modify (change : RbtreeNode → RbtreeNode) :
    (T.modify a change).mem b = if b = a then change (T.mem b) else T.mem b := by
  simp only [modify, Function.update_apply]
  split
  · rename_i same
    rw [same]
  · rfl

/-- Rewriting a node keeps the sentinel. -/
@[simp] theorem nil_modify (change : RbtreeNode → RbtreeNode) :
    (T.modify a change).nil = T.nil := rfl

/-- Rewriting a node keeps the root. -/
@[simp] theorem root_modify (change : RbtreeNode → RbtreeNode) :
    (T.modify a change).root = T.root := rfl

/-- Setting the root keeps the sentinel. -/
@[simp] theorem nil_setRoot : (T.setRoot a).nil = T.nil := rfl

/-- The root is the one that was set. -/
@[simp] theorem root_setRoot : (T.setRoot a).root = a := rfl

/-- Setting the root keeps the nodes. -/
@[simp] theorem mem_setRoot : (T.setRoot a).mem = T.mem := rfl

/-- Setting a colour keeps the sentinel. -/
@[simp] theorem nil_setColor (color : UInt8) : (T.setColor a color).nil = T.nil := rfl

/-- Setting a colour keeps the root. -/
@[simp] theorem root_setColor (color : UInt8) : (T.setColor a color).root = T.root := rfl

/-- One node has the new colour. -/
theorem mem_setColor (color : UInt8) :
    (T.setColor a color).mem b = if b = a then (T.mem b).withColor color else T.mem b :=
  mem_modify ..

/-- Setting a parent keeps the sentinel. -/
@[simp] theorem nil_setParent (parent : Addr) : (T.setParent a parent).nil = T.nil := rfl

/-- Setting a parent keeps the root. -/
@[simp] theorem root_setParent (parent : Addr) : (T.setParent a parent).root = T.root := rfl

/-- One node has the new parent. -/
theorem mem_setParent (parent : Addr) :
    (T.setParent a parent).mem b = if b = a then (T.mem b).withParent parent else T.mem b :=
  mem_modify ..

/-- Setting a child keeps the sentinel. -/
@[simp] theorem nil_setChild (side : Side) (child : Addr) :
    (T.setChild a side child).nil = T.nil := rfl

/-- Setting a child keeps the root. -/
@[simp] theorem root_setChild (side : Side) (child : Addr) :
    (T.setChild a side child).root = T.root := rfl

/-- One node has the new child. -/
theorem mem_setChild (side : Side) (child : Addr) :
    (T.setChild a side child).mem b =
      if b = a then (T.mem b).withChild side child else T.mem b :=
  mem_modify ..

end reads

end Rbtree

/-- One pass of the loop of `rbtree_mini`. -/
def rbtreeMiniPass (T : Rbtree) (x : Addr) : Addr ⊕ Addr :=
  if (T.mem x).left ≠ T.nil then .inl (T.mem x).left else .inr x

/-- `rbtree_mini` — the leftmost node below `x`. -/
def rbtreeMini (fuel : Nat) (T : Rbtree) (x : Addr) : Option Addr :=
  loop (rbtreeMiniPass T) fuel x

/-- One pass of the upward loop of `rbtree_successor`, on the pair of `x` and `y`. -/
def rbtreeSuccessorPass (T : Rbtree) (state : Addr × Addr) : (Addr × Addr) ⊕ Addr :=
  if state.2 ≠ T.nil ∧ state.1 = (T.mem state.2).right then
    .inl (state.2, (T.mem state.2).parent)
  else .inr state.2

/-- `rbtree_successor` — the node with the next key. -/
def rbtreeSuccessor (fuel : Nat) (T : Rbtree) (x : Addr) : Option Addr :=
  if (T.mem x).right ≠ T.nil then rbtreeMini fuel T (T.mem x).right
  else loop (rbtreeSuccessorPass T) fuel (x, (T.mem x).parent)

/-- Put `y` in the place of `x`: the parent of `x`, or the header, points at `y`. The
child on `side` is tested first. -/
def replaceChild (side : Side) (T : Rbtree) (x y : Addr) : Rbtree :=
  if (T.mem x).parent = T.nil then T.setRoot y
  else if x = (T.mem (T.mem x).parent).child side then T.setChild (T.mem x).parent side y
  else T.setChild (T.mem x).parent side.flip y

/-- The child of `y` on `side`, if there is one, points up to `x`. -/
def adoptChild (side : Side) (T : Rbtree) (x y : Addr) : Rbtree :=
  if (T.mem y).child side ≠ T.nil then T.setParent ((T.mem y).child side) x else T

/-- The common body of the rotations: the child `y` of `x` on the far side takes the
place of `x`, and `x` becomes its child on `side`. -/
def rotate (side : Side) (T : Rbtree) (x : Addr) : Rbtree :=
  let y := (T.mem x).child side.flip
  let T := T.setChild x side.flip ((T.mem y).child side)
  let T := adoptChild side T x y
  let T := T.setParent y (T.mem x).parent
  let T := replaceChild side T x y
  let T := T.setChild y side x
  T.setParent x y

/-- `rbtree_left_rotate`. -/
def rbtreeLeftRotate (T : Rbtree) (x : Addr) : Rbtree := rotate .left T x

/-- `rbtree_right_rotate`. -/
def rbtreeRightRotate (T : Rbtree) (y : Addr) : Rbtree := rotate .right T y

/-- The red-uncle branch of `rbtree_insert_fixup`: push the red colour of the parent and
of the uncle `y` up to the grandparent. -/
def insertRecolour (T : Rbtree) (z y : Addr) : Rbtree × Addr :=
  let T := T.setColor (T.mem z).parent BLACK
  let T := T.setColor y BLACK
  let T := T.setColor (T.mem (T.mem z).parent).parent RED
  (T, (T.mem (T.mem z).parent).parent)

/-- The inner-child test of `rbtree_insert_fixup`: turn an inner `z` into an outer one. -/
def insertStraighten (side : Side) (T : Rbtree) (z : Addr) : Rbtree × Addr :=
  if z = (T.mem (T.mem z).parent).child side.flip then
    (rotate side T (T.mem z).parent, (T.mem z).parent)
  else (T, z)

/-- The last rotation of `rbtree_insert_fixup`. -/
def insertLift (side : Side) (T : Rbtree) (z : Addr) : Rbtree × Addr :=
  let T := T.setColor (T.mem z).parent BLACK
  let T := T.setColor (T.mem (T.mem z).parent).parent RED
  (rotate side.flip T (T.mem (T.mem z).parent).parent, z)

/-- One half of the body of `rbtree_insert_fixup`: the parent of `z` is the child of the
grandparent on `side`. -/
def insertFixupSide (side : Side) (T : Rbtree) (z : Addr) : Rbtree × Addr :=
  let y := (T.mem (T.mem (T.mem z).parent).parent).child side.flip
  if (T.mem y).color = RED then insertRecolour T z y
  else
    let straight := insertStraighten side T z
    insertLift side straight.1 straight.2

/-- One pass of the loop of `rbtree_insert_fixup`; leaving it blackens the root. -/
def insertFixupPass (state : Rbtree × Addr) : (Rbtree × Addr) ⊕ Rbtree :=
  let T := state.1
  let z := state.2
  if (T.mem (T.mem z).parent).color = RED then
    if (T.mem z).parent = (T.mem (T.mem (T.mem z).parent).parent).left then
      .inl (insertFixupSide .left T z)
    else .inl (insertFixupSide .right T z)
  else .inr (T.setColor T.root BLACK)

/-- `rbtree_insert_fixup`. -/
def rbtreeInsertFixup (fuel : Nat) (T : Rbtree) (z : Addr) : Option Rbtree :=
  loop insertFixupPass fuel (T, z)

/-- One pass of the descent of `rbtree_insert`, on the pair of `x` and `y`. It leaves with
the parent of the new node, or with `none` when the key exists. -/
def insertDescentPass (T : Rbtree) (key : Int) (state : Addr × Addr) :
    (Addr × Addr) ⊕ Option Addr :=
  let x := state.1
  if x ≠ T.nil then
    if key < (T.mem x).key then .inl ((T.mem x).left, x)
    else if key > (T.mem x).key then .inl ((T.mem x).right, x)
    else .inr none
  else .inr (some state.2)

/-- The linking part of `rbtree_insert`: hang `z` below `y` as a red node without
children. -/
def insertLink (T : Rbtree) (z y : Addr) : Rbtree :=
  let T := T.setParent z y
  let T :=
    if y = T.nil then T.setRoot z
    else if (T.mem z).key < (T.mem y).key then T.setChild y .left z
    else T.setChild y .right z
  let T := T.setChild z .left T.nil
  let T := T.setChild z .right T.nil
  T.setColor z RED

/-- `rbtree_insert`. -/
def rbtreeInsert (fuel : Nat) (T : Rbtree) (z : Addr) : Option Rbtree :=
  (loop (insertDescentPass T (T.mem z).key) fuel (T.root, T.nil)).bind fun
    | none => some T
    | some y => rbtreeInsertFixup fuel (insertLink T z y) z

/-- The red-sibling step of `rbtree_delete_fixup`; it gives the tree and the sibling `w` of
`x` after it. -/
def deleteLowerRed (side : Side) (T : Rbtree) (x w : Addr) : Rbtree × Addr :=
  if (T.mem w).color = RED then
    let T := T.setColor w BLACK
    let T := T.setColor (T.mem x).parent RED
    let T := rotate side T (T.mem x).parent
    (T, (T.mem (T.mem x).parent).child side.flip)
  else (T, w)

/-- The black-far-nephew step of `rbtree_delete_fixup`: bring the red near child of `w` up
to the place of `w`. -/
def deleteRaiseNear (side : Side) (T : Rbtree) (x w : Addr) : Rbtree × Addr :=
  if (T.mem ((T.mem w).child side.flip)).color = BLACK then
    let T := T.setColor ((T.mem w).child side) BLACK
    let T := T.setColor w RED
    let T := rotate side.flip T w
    (T, (T.mem (T.mem x).parent).child side.flip)
  else (T, w)

/-- The last rotation of `rbtree_delete_fixup`; the loop goes on at the root. -/
def deleteClose (side : Side) (T : Rbtree) (x w : Addr) : Rbtree × Addr :=
  let T := T.setColor w (T.mem (T.mem x).parent).color
  let T := T.setColor (T.mem x).parent BLACK
  let T := T.setColor ((T.mem w).child side.flip) BLACK
  let T := rotate side T (T.mem x).parent
  (T, T.root)

/-- The part of the body of `rbtree_delete_fixup` after the red-sibling step. -/
def deleteBlackSibling (side : Side) (T : Rbtree) (x w : Addr) : Rbtree × Addr :=
  if (T.mem (T.mem w).left).color = BLACK ∧ (T.mem (T.mem w).right).color = BLACK then
    let T := T.setColor w RED
    (T, (T.mem x).parent)
  else
    let raised := deleteRaiseNear side T x w
    deleteClose side raised.1 x raised.2

/-- One half of the body of `rbtree_delete_fixup`: `x` is the child of its parent on
`side`. -/
def deleteFixupSide (side : Side) (T : Rbtree) (x : Addr) : Rbtree × Addr :=
  let lowered := deleteLowerRed side T x ((T.mem (T.mem x).parent).child side.flip)
  deleteBlackSibling side lowered.1 x lowered.2

/-- One pass of the loop of `rbtree_delete_fixup`; leaving it blackens `x`. -/
def deleteFixupPass (state : Rbtree × Addr) : (Rbtree × Addr) ⊕ Rbtree :=
  let T := state.1
  let x := state.2
  if x ≠ T.root ∧ (T.mem x).color = BLACK then
    if x = (T.mem (T.mem x).parent).left then .inl (deleteFixupSide .left T x)
    else .inl (deleteFixupSide .right T x)
  else .inr (T.setColor x BLACK)

/-- `rbtree_delete_fixup`. -/
def rbtreeDeleteFixup (fuel : Nat) (T : Rbtree) (x : Addr) : Option Rbtree :=
  loop deleteFixupPass fuel (T, x)

/-- The only child of `y` in `rbtree_delete`, or the sentinel. -/
def onlyChild (T : Rbtree) (y : Addr) : Addr :=
  if (T.mem y).left ≠ T.nil then (T.mem y).left
  else if (T.mem y).right ≠ T.nil then (T.mem y).right
  else T.nil

/-- The unlinking part of `rbtree_delete`: `x` takes the place of `y`. -/
def deleteUnlink (T : Rbtree) (y x : Addr) : Rbtree :=
  let T := T.setParent x (T.mem y).parent
  replaceChild .left T y x

/-- The copying part of `rbtree_delete`. -/
def deleteCopy (T : Rbtree) (z y : Addr) : Rbtree :=
  if y ≠ z then
    let T := T.setKey z (T.mem y).key
    T.setValue z (T.mem y).value
  else T

/-- `rbtree_delete` — the tree afterwards and the node that was unlinked. -/
def rbtreeDelete (fuel : Nat) (T : Rbtree) (z : Addr) : Option (Rbtree × Addr) :=
  (if (T.mem z).left = T.nil ∨ (T.mem z).right = T.nil then some z
    else rbtreeSuccessor fuel T z).bind fun y =>
  let x := onlyChild T y
  let T := deleteCopy (deleteUnlink T y x) z y
  (if (T.mem y).color = BLACK then rbtreeDeleteFixup fuel T x else some T).map fun T => (T, y)

/-- One pass of the loop of `rbtree_search`. -/
def rbtreeSearchPass (T : Rbtree) (key : Int) (node : Addr) : Addr ⊕ Addr :=
  if node ≠ T.nil then
    if key < (T.mem node).key then .inl (T.mem node).left
    else if key > (T.mem node).key then .inl (T.mem node).right
    else .inr node
  else .inr T.nil

/-- `rbtree_search`. -/
def rbtreeSearch (fuel : Nat) (T : Rbtree) (key : Int) : Option Addr :=
  loop (rbtreeSearchPass T key) fuel T.root

end BackendCpp.RbtreeC
