import Mathlib.Tactic

/-!
# Coloured binary trees and paths into them

A tree carries a colour and an item at every inner node. A path is the list of frames
between a hole and the root, innermost frame first; `fill` puts a subtree back into the
hole. The two sides of a node are values of `Side`, so a statement about a case and its
mirror image is one statement. `Balanced` is the red-black balance of a tree, `Accepts`
the matching condition on a path: which root colour and which black height the hole takes.
`balanced_fill` joins the two, and `items_fill` says that the in-order sequence of the
whole is the sequence of the subtree between the items before and after the hole.
-/

namespace BackendCpp.Library

/-- Node colours. -/
inductive Colour where
  /-- Red. -/
  | red
  /-- Black. -/
  | black
  deriving DecidableEq, Repr

/-- The two children of a node. -/
inductive Side where
  /-- Left. -/
  | left
  /-- Right. -/
  | right
  deriving DecidableEq, Repr

/-- The other side. -/
def Side.flip : Side → Side
  | .left => .right
  | .right => .left

/-- Flipping twice is the identity. -/
@[simp] theorem Side.flip_flip (side : Side) : side.flip.flip = side := by
  cases side <;> rfl

/-- Of two sides that differ one is the mirror image of the other. -/
theorem Side.eq_flip {one other : Side} (different : one ≠ other) : one = other.flip := by
  cases one <;> cases other <;> simp_all [Side.flip]

/-- A binary tree with a colour and an item at each inner node. -/
inductive ColouredTree (α : Type*) where
  /-- Nothing. -/
  | leaf
  /-- An item with its colour between two trees. -/
  | node (colour : Colour) (left : ColouredTree α) (item : α) (right : ColouredTree α)

namespace ColouredTree

variable {α : Type*}

/-- The colour of the root; a leaf counts as black. -/
def colour : ColouredTree α → Colour
  | leaf => .black
  | node colour _ _ _ => colour

/-- Give the root a colour. -/
def paint (colour : Colour) : ColouredTree α → ColouredTree α
  | leaf => leaf
  | node _ left item right => node colour left item right

/-- The items in order. -/
def items : ColouredTree α → List α
  | leaf => []
  | node _ left item right => left.items ++ item :: right.items

/-- A node with one subtree on the given side and another on the opposite side. -/
def join (side : Side) (colour : Colour) (near : ColouredTree α) (item : α)
    (far : ColouredTree α) : ColouredTree α :=
  match side with
  | .left => node colour near item far
  | .right => node colour far item near

/-- A leaf is black. -/
@[simp] theorem colour_leaf : (leaf : ColouredTree α).colour = .black := rfl

/-- A node has its colour. -/
@[simp] theorem colour_node (c : Colour) (left right : ColouredTree α) (item : α) :
    (node c left item right).colour = c := rfl

/-- So has one that is given by its sides. -/
@[simp] theorem colour_join (side : Side) (c : Colour) (near far : ColouredTree α) (item : α) :
    (join side c near item far).colour = c := by
  cases side <;> rfl

/-- Painting changes the colour only. -/
@[simp] theorem paint_join (side : Side) (c d : Colour) (near far : ColouredTree α) (item : α) :
    (join side c near item far).paint d = join side d near item far := by
  cases side <;> rfl

/-- A node is no leaf. -/
@[simp] theorem join_ne_leaf (side : Side) (c : Colour) (near far : ColouredTree α) (item : α) :
    join side c near item far ≠ leaf := by
  cases side <;> simp [join]

/-- Painting keeps the in-order sequence. -/
@[simp] theorem items_paint (c : Colour) (tree : ColouredTree α) :
    (tree.paint c).items = tree.items := by
  cases tree <;> rfl

/-- Painting a tree in its own colour changes nothing. -/
theorem paint_colour (tree : ColouredTree α) : tree.paint tree.colour = tree := by
  cases tree <;> rfl

/-- The two subtrees of a node may be named from either side. -/
theorem join_flip (side : Side) (c : Colour) (near far : ColouredTree α) (item : α) :
    join side.flip c near item far = join side c far item near := by
  cases side <;> rfl

/-- Every inner node is a join at either side. -/
theorem exists_join (side : Side) {tree : ColouredTree α} (inner : tree ≠ leaf) :
    ∃ near item far, tree = join side tree.colour near item far := by
  cases tree with
  | leaf => exact absurd rfl inner
  | node c left item right =>
    cases side
    · exact ⟨left, item, right, rfl⟩
    · exact ⟨right, item, left, rfl⟩

/-- Red-black balance: a red node has black children, and every path down to a leaf
passes the same number of black nodes, which is the second argument. -/
def Balanced : ColouredTree α → Nat → Prop
  | leaf, height => height = 0
  | node .red left _ right, height =>
    left.colour = .black ∧ right.colour = .black ∧ left.Balanced height ∧ right.Balanced height
  | node .black _ _ _, 0 => False
  | node .black left _ right, height + 1 => left.Balanced height ∧ right.Balanced height

/-- A red-black tree: balanced under a black root. -/
def RedBlack (tree : ColouredTree α) : Prop := tree.colour = .black ∧ ∃ height, tree.Balanced height

/-- A leaf is as high as nothing. -/
@[simp] theorem balanced_leaf {height : Nat} : (leaf : ColouredTree α).Balanced height ↔ height = 0 :=
  Iff.rfl

/-- Balance of a red node, from either side. -/
@[simp] theorem balanced_join_red {side : Side} {near far : ColouredTree α} {item : α} {height : Nat} :
    (join side .red near item far).Balanced height ↔
      near.colour = .black ∧ far.colour = .black ∧ near.Balanced height ∧ far.Balanced height := by
  cases side with
  | left => exact Iff.rfl
  | right =>
    simp only [join, Balanced]
    tauto

/-- Balance of a black node, from either side. -/
@[simp] theorem balanced_join_black {side : Side} {near far : ColouredTree α} {item : α} {height : Nat} :
    (join side .black near item far).Balanced (height + 1) ↔
      near.Balanced height ∧ far.Balanced height := by
  cases side with
  | left => exact Iff.rfl
  | right => exact and_comm

/-- A black node has positive black height. -/
theorem exists_height_of_black {side : Side} {near far : ColouredTree α} {item : α} {height : Nat}
    (balanced : (join side .black near item far).Balanced height) :
    ∃ lower, height = lower + 1 := by
  cases height with
  | zero => cases side <;> exact balanced.elim
  | succ lower => exact ⟨lower, rfl⟩

/-- A tree of positive black height is not a leaf. -/
theorem ne_leaf_of_balanced {tree : ColouredTree α} {height : Nat}
    (balanced : tree.Balanced (height + 1)) :
    tree ≠ leaf := by
  rintro rfl
  exact absurd balanced (by simp)

end ColouredTree

/-- One step of a path: the node passed, the side the path came from, and the subtree on
the opposite side. -/
structure Frame (α : Type*) where
  /-- The side of the node on which the hole lies. -/
  side : Side
  /-- The colour of the node. -/
  colour : Colour
  /-- The item of the node. -/
  item : α
  /-- The subtree on the opposite side. -/
  sibling : ColouredTree α

variable {α : Type*}

/-- Fill the hole of a path with a subtree. -/
def fill : List (Frame α) → ColouredTree α → ColouredTree α
  | [], tree => tree
  | frame :: path, tree =>
    fill path (.join frame.side frame.colour tree frame.item frame.sibling)

/-- At the root there is nothing to fill. -/
@[simp] theorem fill_nil (tree : ColouredTree α) : fill [] tree = tree := rfl

/-- A tree is filled into its innermost frame first. -/
@[simp] theorem fill_cons (frame : Frame α) (path : List (Frame α)) (tree : ColouredTree α) :
    fill (frame :: path) tree =
      fill path (.join frame.side frame.colour tree frame.item frame.sibling) := rfl

/-- The items in order before the hole. -/
def before : List (Frame α) → List α
  | [] => []
  | ⟨.left, _, _, _⟩ :: path => before path
  | ⟨.right, _, item, sibling⟩ :: path => before path ++ (sibling.items ++ [item])

/-- The items in order after the hole. -/
def after : List (Frame α) → List α
  | [] => []
  | ⟨.left, _, item, sibling⟩ :: path => item :: sibling.items ++ after path
  | ⟨.right, _, _, _⟩ :: path => after path

/-- The in-order sequence of a filled path. -/
theorem items_fill (path : List (Frame α)) (tree : ColouredTree α) :
    (fill path tree).items = before path ++ tree.items ++ after path := by
  induction path generalizing tree with
  | nil => simp [before, after]
  | cons frame path ih =>
    obtain ⟨side, c, item, sibling⟩ := frame
    cases side <;> simp [ih, before, after, ColouredTree.join, ColouredTree.items]

/-- Filling a path that continues another. -/
theorem fill_append (lower upper : List (Frame α)) (tree : ColouredTree α) :
    fill (lower ++ upper) tree = fill upper (fill lower tree) := by
  induction lower generalizing tree with
  | nil => rfl
  | cons frame lower ih => exact ih _

/-- The items before the hole of a path that continues another. -/
theorem before_append (lower upper : List (Frame α)) :
    before (lower ++ upper) = before upper ++ before lower := by
  induction lower with
  | nil => simp [before]
  | cons frame lower ih =>
    obtain ⟨side, c, item, sibling⟩ := frame
    cases side <;> simp [before, ih]

/-- The items after the hole of a path that continues another. -/
theorem after_append (lower upper : List (Frame α)) :
    after (lower ++ upper) = after lower ++ after upper := by
  induction lower with
  | nil => simp [after]
  | cons frame lower ih =>
    obtain ⟨side, c, item, sibling⟩ := frame
    cases side <;> simp [after, ih]

/-- Every item of a tree is the root of a subtree below some path. -/
theorem exists_path_of_mem {tree : ColouredTree α} {item : α} (member : item ∈ tree.items) :
    ∃ path c left right, fill path (.node c left item right) = tree := by
  induction tree with
  | leaf => simp [ColouredTree.items] at member
  | node c left root right ihLeft ihRight =>
    simp only [ColouredTree.items, List.mem_append, List.mem_cons] at member
    rcases member with inLeft | rfl | inRight
    · obtain ⟨path, d, l, r, whole⟩ := ihLeft inLeft
      exact ⟨path ++ [⟨.left, c, root, right⟩], d, l, r, by rw [fill_append, whole]; rfl⟩
    · exact ⟨[], c, left, right, rfl⟩
    · obtain ⟨path, d, l, r, whole⟩ := ihRight inRight
      exact ⟨path ++ [⟨.right, c, root, left⟩], d, l, r, by rw [fill_append, whole]; rfl⟩

/-- Subtrees with the same in-order sequence fill a path to the same sequence. -/
theorem items_fill_congr (path : List (Frame α)) {one other : ColouredTree α}
    (same : one.items = other.items) : (fill path one).items = (fill path other).items := by
  rw [items_fill, items_fill, same]

/-- The hole of a path takes a subtree whose root has the given colour and whose black
height is the given number, and the whole is then balanced under a black root. -/
def Accepts : List (Frame α) → Colour → Nat → Prop
  | [], c, _ => c = .black
  | ⟨_, .red, _, sibling⟩ :: path, c, height =>
    c = .black ∧ sibling.colour = .black ∧ sibling.Balanced height ∧ Accepts path .red height
  | ⟨_, .black, _, sibling⟩ :: path, _, height =>
    sibling.Balanced height ∧ Accepts path .black (height + 1)

/-- At the root a black tree is accepted. -/
@[simp] theorem accepts_nil {c : Colour} {height : Nat} :
    Accepts ([] : List (Frame α)) c height ↔ c = .black := Iff.rfl

/-- Below a red node a black tree is accepted. -/
@[simp] theorem accepts_red {side : Side} {item : α} {sibling : ColouredTree α} {path : List (Frame α)}
    {c : Colour} {height : Nat} :
    Accepts (⟨side, .red, item, sibling⟩ :: path) c height ↔
      c = .black ∧ sibling.colour = .black ∧ sibling.Balanced height ∧ Accepts path .red height :=
  Iff.rfl

/-- Below a black node a tree of any colour is accepted. -/
@[simp] theorem accepts_black {side : Side} {item : α} {sibling : ColouredTree α} {path : List (Frame α)}
    {c : Colour} {height : Nat} :
    Accepts (⟨side, .black, item, sibling⟩ :: path) c height ↔
      sibling.Balanced height ∧ Accepts path .black (height + 1) := Iff.rfl

/-- Whether a hole accepts a subtree does not depend on the items of its path. -/
theorem accepts_congr (lower upper : List (Frame α)) (side : Side) (c : Colour) (one other : α)
    (sibling : ColouredTree α) (d : Colour) (height : Nat)
    (accepts : Accepts (lower ++ ⟨side, c, one, sibling⟩ :: upper) d height) :
    Accepts (lower ++ ⟨side, c, other, sibling⟩ :: upper) d height := by
  induction lower generalizing d height with
  | nil => cases c <;> exact accepts
  | cons frame lower ih =>
    obtain ⟨frameSide, e, item, frameSibling⟩ := frame
    cases e with
    | red => exact ⟨accepts.1, accepts.2.1, accepts.2.2.1, ih _ _ accepts.2.2.2⟩
    | black => exact ⟨accepts.1, ih _ _ accepts.2⟩

/-- A hole that takes a red root takes a black one of the same height. -/
theorem Accepts.black {path : List (Frame α)} {c : Colour} {height : Nat}
    (accepts : Accepts path c height) : Accepts path .black height := by
  cases path with
  | nil => rfl
  | cons frame path =>
    obtain ⟨side, d, item, sibling⟩ := frame
    cases d with
    | red => exact ⟨rfl, accepts.2⟩
    | black => exact accepts

/-- Above a red frame there is a black one. -/
theorem Accepts.black_above {path : List (Frame α)} {height : Nat}
    (accepts : Accepts path .red height) :
    ∃ side item sibling above, path = ⟨side, .black, item, sibling⟩ :: above ∧
      sibling.Balanced height ∧ Accepts above .black (height + 1) := by
  cases path with
  | nil => simp at accepts
  | cons frame path =>
    obtain ⟨side, d, item, sibling⟩ := frame
    cases d with
    | red => simp at accepts
    | black => exact ⟨side, item, sibling, path, rfl, accepts.1, accepts.2⟩

/-- A filled path is a red-black tree exactly when the subtree is balanced at some height
and the path accepts its root colour at that height. -/
theorem redBlack_fill (path : List (Frame α)) (tree : ColouredTree α) :
    (fill path tree).RedBlack ↔ ∃ height, tree.Balanced height ∧ Accepts path tree.colour height := by
  induction path generalizing tree with
  | nil => simp [ColouredTree.RedBlack, and_comm]
  | cons frame path ih =>
    obtain ⟨side, d, item, sibling⟩ := frame
    rw [fill_cons, ih]
    cases d with
    | red =>
      simp only [ColouredTree.balanced_join_red, ColouredTree.colour_join, accepts_red]
      constructor
      · rintro ⟨height, ⟨black, siblingBlack, balanced, siblingBalanced⟩, accepts⟩
        exact ⟨height, balanced, black, siblingBlack, siblingBalanced, accepts⟩
      · rintro ⟨height, balanced, black, siblingBlack, siblingBalanced, accepts⟩
        exact ⟨height, ⟨black, siblingBlack, balanced, siblingBalanced⟩, accepts⟩
    | black =>
      simp only [ColouredTree.colour_join, accepts_black]
      constructor
      · rintro ⟨height, balanced, accepts⟩
        obtain ⟨lower, rfl⟩ := ColouredTree.exists_height_of_black balanced
        rw [ColouredTree.balanced_join_black] at balanced
        exact ⟨lower, balanced.1, balanced.2, accepts⟩
      · rintro ⟨height, balanced, siblingBalanced, accepts⟩
        exact ⟨height + 1, by simp [balanced, siblingBalanced], accepts⟩

end BackendCpp.Library
