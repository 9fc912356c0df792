import BackendCpp.RbtreeC.Removal

/-!
# The fix-ups with their checks

The functions of the fix-ups once more, with a check at every read of a child, at every
rotation and at every write of a colour. A check that fails ends the computation with what
went wrong: a child of the sentinel was read, a rotation found no child to lift, or the
sentinel was to become red. Each function has one lemma: where the pointers it follows are
not the sentinel, it succeeds with the result of the function without checks.
-/

namespace BackendCpp.RbtreeC

open BackendCpp.Library

/-- What the fix-ups must not do. -/
inductive Fault where
  /-- `T->nil->left` or `T->nil->right` was read. -/
  | childOfNil
  /-- A rotation about a node without a child on the far side. -/
  | missingChild
  /-- `T->nil->color = RED`. -/
  | redNil
  deriving DecidableEq

namespace Checked

/-- Read a child. -/
def readChild (T : Rbtree) (a : Addr) (side : Side) : Except Fault Addr :=
  if a = T.nil then .error .childOfNil else .ok ((T.mem a).child side)

/-- Write a colour. -/
def setColor (T : Rbtree) (a : Addr) (color : UInt8) : Except Fault Rbtree :=
  if a = T.nil ∧ color = RED then .error .redNil else .ok (T.setColor a color)

/-- `replaceChild` with its read checked. -/
def replaceChild (side : Side) (T : Rbtree) (x y : Addr) : Except Fault Rbtree :=
  if (T.mem x).parent = T.nil then .ok (T.setRoot y)
  else do
    let child ← readChild T (T.mem x).parent side
    if x = child then .ok (T.setChild (T.mem x).parent side y)
    else .ok (T.setChild (T.mem x).parent side.flip y)

/-- `adoptChild` with its read checked. -/
def adoptChild (side : Side) (T : Rbtree) (x y : Addr) : Except Fault Rbtree := do
  let child ← readChild T y side
  if child ≠ T.nil then .ok (T.setParent child x) else .ok T

/-- `rotate` with its reads checked, and with a check that there is a child to lift. -/
def rotate (side : Side) (T : Rbtree) (x : Addr) : Except Fault Rbtree := do
  let y ← readChild T x side.flip
  if y = T.nil then .error .missingChild
  else do
    let inner ← readChild T y side
    let T := T.setChild x side.flip inner
    let T ← adoptChild side T x y
    let T := T.setParent y (T.mem x).parent
    let T ← replaceChild side T x y
    let T := T.setChild y side x
    .ok (T.setParent x y)

/-- `insertRecolour` with its writes checked. -/
def insertRecolour (T : Rbtree) (z y : Addr) : Except Fault (Rbtree × Addr) := do
  let T ← setColor T (T.mem z).parent BLACK
  let T ← setColor T y BLACK
  let T ← setColor T (T.mem (T.mem z).parent).parent RED
  .ok (T, (T.mem (T.mem z).parent).parent)

/-- `insertStraighten` with its read and its rotation checked. -/
def insertStraighten (side : Side) (T : Rbtree) (z : Addr) : Except Fault (Rbtree × Addr) := do
  let child ← readChild T (T.mem z).parent side.flip
  if z = child then (rotate side T (T.mem z).parent).map fun T' => (T', (T.mem z).parent)
  else .ok (T, z)

/-- `insertLift` with its writes and its rotation checked. -/
def insertLift (side : Side) (T : Rbtree) (z : Addr) : Except Fault (Rbtree × Addr) := do
  let T ← setColor T (T.mem z).parent BLACK
  let T ← setColor T (T.mem (T.mem z).parent).parent RED
  (rotate side.flip T (T.mem (T.mem z).parent).parent).map fun T => (T, z)

/-- `insertFixupSide` with its read of the uncle checked. -/
def insertFixupSide (side : Side) (T : Rbtree) (z : Addr) : Except Fault (Rbtree × Addr) := do
  let y ← readChild T (T.mem (T.mem z).parent).parent side.flip
  if (T.mem y).color = RED then insertRecolour T z y
  else do
    let straight ← insertStraighten side T z
    insertLift side straight.1 straight.2

/-- One pass of the loop of `rbtree_insert_fixup`, with its checks. -/
def insertFixupPass (state : Rbtree × Addr) : Except Fault ((Rbtree × Addr) ⊕ Rbtree) :=
  let T := state.1
  let z := state.2
  if (T.mem (T.mem z).parent).color = RED then do
    let left ← readChild T (T.mem (T.mem z).parent).parent .left
    if (T.mem z).parent = left then (insertFixupSide .left T z).map .inl
    else (insertFixupSide .right T z).map .inl
  else (setColor T T.root BLACK).map .inr

/-- `rbtree_insert_fixup` with its checks. -/
def rbtreeInsertFixup (fuel : Nat) (T : Rbtree) (z : Addr) : Option (Except Fault Rbtree) :=
  loop (guarded insertFixupPass) fuel (T, z)

/-- `deleteLowerRed` with its writes, its rotation and its read checked. -/
def deleteLowerRed (side : Side) (T : Rbtree) (x w : Addr) : Except Fault (Rbtree × Addr) :=
  if (T.mem w).color = RED then do
    let T ← setColor T w BLACK
    let T ← setColor T (T.mem x).parent RED
    let T ← rotate side T (T.mem x).parent
    (readChild T (T.mem x).parent side.flip).map fun w => (T, w)
  else .ok (T, w)

/-- `deleteRaiseNear` with its reads, its writes and its rotation checked. -/
def deleteRaiseNear (side : Side) (T : Rbtree) (x w : Addr) : Except Fault (Rbtree × Addr) := do
  let far ← readChild T w side.flip
  if (T.mem far).color = BLACK then do
    let near ← readChild T w side
    let T ← setColor T near BLACK
    let T ← setColor T w RED
    let T ← rotate side.flip T w
    (readChild T (T.mem x).parent side.flip).map fun w => (T, w)
  else .ok (T, w)

/-- `deleteClose` with its reads, its writes and its rotation checked. -/
def deleteClose (side : Side) (T : Rbtree) (x w : Addr) : Except Fault (Rbtree × Addr) := do
  let T ← setColor T w (T.mem (T.mem x).parent).color
  let T ← setColor T (T.mem x).parent BLACK
  let far ← readChild T w side.flip
  let T ← setColor T far BLACK
  let T ← rotate side T (T.mem x).parent
  .ok (T, T.root)

/-- `deleteBlackSibling` with its reads and its write checked. -/
def deleteBlackSibling (side : Side) (T : Rbtree) (x w : Addr) :
    Except Fault (Rbtree × Addr) := do
  let left ← readChild T w .left
  let right ← readChild T w .right
  if (T.mem left).color = BLACK ∧ (T.mem right).color = BLACK then
    (setColor T w RED).map fun T => (T, (T.mem x).parent)
  else do
    let raised ← deleteRaiseNear side T x w
    deleteClose side raised.1 x raised.2

/-- `deleteFixupSide` with its read of the sibling checked. -/
def deleteFixupSide (side : Side) (T : Rbtree) (x : Addr) : Except Fault (Rbtree × Addr) := do
  let w ← readChild T (T.mem x).parent side.flip
  let lowered ← deleteLowerRed side T x w
  deleteBlackSibling side lowered.1 x lowered.2

/-- One pass of the loop of `rbtree_delete_fixup`, with its checks. -/
def deleteFixupPass (state : Rbtree × Addr) : Except Fault ((Rbtree × Addr) ⊕ Rbtree) :=
  let T := state.1
  let x := state.2
  if x ≠ T.root ∧ (T.mem x).color = BLACK then do
    let left ← readChild T (T.mem x).parent .left
    if x = left then (deleteFixupSide .left T x).map .inl
    else (deleteFixupSide .right T x).map .inl
  else (setColor T x BLACK).map .inr

/-- `rbtree_delete_fixup` with its checks. -/
def rbtreeDeleteFixup (fuel : Nat) (T : Rbtree) (x : Addr) : Option (Except Fault Rbtree) :=
  loop (guarded deleteFixupPass) fuel (T, x)

/-- `rbtree_insert` with the checks of its fix-up. -/
def rbtreeInsert (fuel : Nat) (T : Rbtree) (z : Addr) : Option (Except Fault Rbtree) :=
  (loop (insertDescentPass T (T.mem z).key) fuel (T.root, T.nil)).bind fun
    | none => some (.ok T)
    | some y => rbtreeInsertFixup fuel (insertLink T z y) z

/-- `rbtree_delete` with the checks of its fix-up. -/
def rbtreeDelete (fuel : Nat) (T : Rbtree) (z : Addr) :
    Option (Except Fault (Rbtree × Addr)) :=
  (if (T.mem z).left = T.nil ∨ (T.mem z).right = T.nil then some z
    else rbtreeSuccessor fuel T z).bind fun y =>
  let x := onlyChild T y
  let T := deleteCopy (deleteUnlink T y x) z y
  (if (T.mem y).color = BLACK then rbtreeDeleteFixup fuel T x else some (.ok T)).map
    fun outcome => outcome.map fun T => (T, y)

section primitives

variable {T : Rbtree} {a x y : Addr} (side : Side)

/-- A child of an inner node may be read. -/
theorem readChild_ok (inner : a ≠ T.nil) : readChild T a side = .ok ((T.mem a).child side) :=
  if_neg inner

/-- Anything may be painted black. -/
theorem setColor_black (T : Rbtree) (a : Addr) : setColor T a BLACK = .ok (T.setColor a BLACK) := by
  have notRed : ¬ (a = T.nil ∧ BLACK = RED) := by
    intro both
    exact absurd both.2 (by decide)
  exact if_neg notRed

/-- An inner node may be painted in any colour. -/
theorem setColor_ok (inner : a ≠ T.nil) (color : UInt8) :
    setColor T a color = .ok (T.setColor a color) :=
  if_neg fun both => inner both.1

/-- `replaceChild` tests the parent before it reads its child. -/
theorem replaceChild_ok (T : Rbtree) (x y : Addr) :
    replaceChild side T x y = .ok (RbtreeC.replaceChild side T x y) := by
  unfold replaceChild RbtreeC.replaceChild
  by_cases top : (T.mem x).parent = T.nil
  · rw [if_pos top, if_pos top]
  · rw [if_neg top, if_neg top, readChild_ok side top, ok_bind]
    split <;> rfl

/-- `adoptChild` of an inner node. -/
theorem adoptChild_ok (inner : y ≠ T.nil) :
    adoptChild side T x y = .ok (RbtreeC.adoptChild side T x y) := by
  unfold adoptChild RbtreeC.adoptChild
  rw [readChild_ok side inner, ok_bind]
  split <;> rfl

/-- A rotation about an inner node with a child to lift. -/
theorem rotate_ok (inner : x ≠ T.nil) (child : (T.mem x).child side.flip ≠ T.nil) :
    rotate side T x = .ok (RbtreeC.rotate side T x) := by
  unfold rotate RbtreeC.rotate
  have adopt : ∀ b, adoptChild side (T.setChild x side.flip b) x ((T.mem x).child side.flip) = _ :=
    fun b => adoptChild_ok (T := T.setChild x side.flip b) (x := x) side child
  rw [readChild_ok _ inner, ok_bind, if_neg child, readChild_ok _ child, ok_bind]
  dsimp only
  rw [adopt, ok_bind, replaceChild_ok, ok_bind]

end primitives

end Checked

end BackendCpp.RbtreeC
