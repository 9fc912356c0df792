import BackendCpp.RbtreeC.Program
import Mathlib.Logic.Relation

/-!
# The program of rbtree.h

`1. Data_structure/rbtree.h` is a second red-black tree. Its nodes have the fields of the
nodes of `rbtree.c`, so the two models share them; the colour bytes are other ones. Colours
are flipped, not set, by the fix-up, and a rotation tests for the root by the header. Of the
six cases of the fix-up, RR and RL are comments: a pass that meets one changes nothing.
-/

namespace BackendCpp.RbtreeH

open BackendCpp.Library
open RbtreeC (Addr RbtreeNode Rbtree)

/-- `red`. -/
def red : UInt8 := 0

/-- `black`. -/
def black : UInt8 := 1

/-- `change_color`. -/
def changeColor (T : Rbtree) (x : Addr) : Rbtree :=
  T.setColor x (if (T.mem x).color = red then black else red)

/-- Put `y` in the place of `x`: the header, or the parent of `x`, points at `y`. The child
on `side` is tested first. -/
def replaceChild (side : Side) (T : Rbtree) (x y : Addr) : Rbtree :=
  if x = T.root then T.setRoot y
  else if (T.mem (T.mem x).parent).child side = x then T.setChild (T.mem x).parent side y
  else T.setChild (T.mem x).parent side.flip y

/-- The common body of the rotations. -/
def rotate (side : Side) (T : Rbtree) (x : Addr) : Rbtree :=
  let y := (T.mem x).child side.flip
  let T := T.setChild x side.flip ((T.mem y).child side)
  let T := RbtreeC.adoptChild side T x y
  let T := T.setParent y (T.mem x).parent
  let T := replaceChild side T x y
  let T := T.setChild y side x
  T.setParent x y

/-- `rbtree_left_rotate`. -/
def rbtreeLeftRotate (T : Rbtree) (x : Addr) : Rbtree := rotate .left T x

/-- `rbtree_right_rotate`. -/
def rbtreeRightRotate (T : Rbtree) (y : Addr) : Rbtree := rotate .right T y

/-- The brother of the father of the node. -/
def uncleOf (T : Rbtree) (father : Addr) : Addr :=
  let grandfather := (T.mem father).parent
  if (T.mem grandfather).left = father then (T.mem grandfather).right
  else (T.mem grandfather).left

/-- The red-uncle branch of `rbtree_insert_fixup`. -/
def fixupRecolour (T : Rbtree) (father grandfather uncle : Addr) : Rbtree :=
  let T := changeColor T father
  let T := changeColor T grandfather
  changeColor T uncle

/-- The LL branch of `rbtree_insert_fixup`. -/
def fixupLL (T : Rbtree) (father grandfather : Addr) : Rbtree :=
  let T := rbtreeRightRotate T grandfather
  let T := changeColor T father
  changeColor T grandfather

/-- The LR branch of `rbtree_insert_fixup`. -/
def fixupLR (T : Rbtree) (father grandfather : Addr) : Rbtree :=
  let T := rbtreeLeftRotate T father
  let T := rbtreeRightRotate T grandfather
  let T := changeColor T grandfather
  changeColor T father

/-- One pass of the loop of `rbtree_insert_fixup`. -/
def insertFixupPass (state : Rbtree × Addr) : (Rbtree × Addr) ⊕ Rbtree :=
  let T := state.1
  let z := state.2
  let father := (T.mem z).parent
  if (T.mem father).color = red then
    let grandfather := (T.mem father).parent
    let uncle := uncleOf T father
    if (T.mem uncle).color = red then .inl (fixupRecolour T father grandfather uncle, grandfather)
    else if father = (T.mem grandfather).left ∧ z = (T.mem father).left then
      .inl (fixupLL T father grandfather, z)
    else if father = (T.mem grandfather).left ∧ z = (T.mem father).right then
      .inl (fixupLR T father grandfather, z)
    else .inl (T, z)  -- RR and RL are still to be written
  else .inr T

/-- `rbtree_insert_fixup` — the root is painted only before the loop. -/
def rbtreeInsertFixup (fuel : Nat) (T : Rbtree) (z : Addr) : Option Rbtree :=
  if z = T.root then some (T.setColor z black) else loop insertFixupPass fuel (T, z)

/-- One pass of the descent of `rbtree_insert`, on the pair of `cur` and `prev`. -/
def insertDescentPass (T : Rbtree) (key : Int) (state : Addr × Addr) :
    (Addr × Addr) ⊕ Option Addr :=
  let cur := state.1
  if cur ≠ T.nil then
    if key < (T.mem cur).key then .inl ((T.mem cur).left, cur)
    else if key > (T.mem cur).key then .inl ((T.mem cur).right, cur)
    else .inr none
  else .inr (some state.2)

/-- The linking part of `rbtree_insert`. -/
def insertLink (T : Rbtree) (z prev : Addr) : Rbtree :=
  let T :=
    if prev = T.nil then T.setRoot z
    else if (T.mem prev).key > (T.mem z).key then T.setChild prev .left z
    else T.setChild prev .right z
  let T := T.setParent z prev
  let T := T.setChild z .left T.nil
  let T := T.setChild z .right T.nil
  T.setColor z red

/-- `rbtree_insert`. -/
def rbtreeInsert (fuel : Nat) (T : Rbtree) (z : Addr) : Option Rbtree :=
  (loop (insertDescentPass T (T.mem z).key) fuel (T.root, T.nil)).bind fun
    | none => some T
    | some prev => rbtreeInsertFixup fuel (insertLink T z prev) z

/-- The search for the key of `z` ends below `prev`. -/
def EndsBelow (T : Rbtree) (z prev : Addr) : Prop :=
  Leaves (fun fuel => loop (insertDescentPass T (T.mem z).key) fuel (T.root, T.nil)) (some prev)

/-- A state of the loop at one of the comments: the uncle is not red, and it is neither LL nor
LR. -/
def Unwritten (state : Rbtree × Addr) : Prop :=
  let T := state.1
  let z := state.2
  let father := (T.mem z).parent
  let grandfather := (T.mem father).parent
  (T.mem father).color = red ∧ (T.mem (uncleOf T father)).color ≠ red ∧
    ¬ (father = (T.mem grandfather).left ∧ z = (T.mem father).left) ∧
    ¬ (father = (T.mem grandfather).left ∧ z = (T.mem father).right)

/-- A pass leads from one state of the loop to the next. -/
def Goes (state next : Rbtree × Addr) : Prop := insertFixupPass state = .inl next

/-- The states of the loop from a start on meet only the cases that are written. -/
def Finished (start : Rbtree × Addr) : Prop :=
  ∀ state, Relation.ReflTransGen Goes start state → ¬ Unwritten state

/-- An insertion of `z` meets only the cases that are written. -/
def OnlyWritten (T : Rbtree) (z : Addr) : Prop :=
  ∀ prev, EndsBelow T z prev → Finished (insertLink T z prev, z)

end BackendCpp.RbtreeH
