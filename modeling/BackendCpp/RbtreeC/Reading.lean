import BackendCpp.RbtreeC.Removal

/-!
# What a reader of the memory finds

The notions of this module name only pointers and fields: which nodes are reachable, in
which order an in-order walk meets them, how many black nodes a walk down to the sentinel
passes. `Valid` gives each of them, and the result of `rbtree_search`.
-/

namespace BackendCpp.RbtreeC

open BackendCpp.Library

/-- Nodes reachable from the root over child pointers. -/
inductive Reach (T : Rbtree) : Addr → Prop
  | root (inner : T.root ≠ T.nil) : Reach T T.root
  | child {a : Addr} (side : Side) (up : Reach T a) (inner : (T.mem a).child side ≠ T.nil) :
      Reach T ((T.mem a).child side)

/-- The nodes that an in-order walk below a pointer meets, as `rbtree_traversal` does. -/
inductive InOrder (T : Rbtree) : Addr → List Addr → Prop
  | nil : InOrder T T.nil []
  | node {a : Addr} {low high : List Addr} (inner : a ≠ T.nil)
      (left : InOrder T (T.mem a).left low) (right : InOrder T (T.mem a).right high) :
      InOrder T a (low ++ a :: high)

/-- Some walk from a pointer down to the sentinel passes that many black nodes. -/
inductive Blacks (T : Rbtree) : Addr → Nat → Prop
  | nil : Blacks T T.nil 0
  | node {a : Addr} {count : Nat} (side : Side) (inner : a ≠ T.nil)
      (below : Blacks T ((T.mem a).child side) count) :
      Blacks T a (count + if (T.mem a).color = BLACK then 1 else 0)

/-- A valid red-black tree, in terms of the pointers and fields of the program. -/
structure RedBlackTree (T : Rbtree) : Prop where
  /-- The sentinel is black. -/
  nil_black : (T.mem T.nil).color = BLACK
  /-- The root is black. -/
  root_black : (T.mem T.root).color = BLACK
  /-- Every node of the tree has one of the two colours. -/
  coloured : ∀ a, Reach T a → (T.mem a).color = RED ∨ (T.mem a).color = BLACK
  /-- No red node has a red child. -/
  red_child : ∀ a, Reach T a → (T.mem a).color = RED →
    ∀ side, (T.mem ((T.mem a).child side)).color ≠ RED
  /-- All walks from the root to the sentinel pass the same number of black nodes. -/
  black_height : ∃ height, ∀ count, Blacks T T.root count → count = height
  /-- The nodes form a finite tree, and the keys strictly increase in order. -/
  keys : ∃ order, InOrder T T.root order ∧
    (order.map fun a => (T.mem a).key).Pairwise (· < ·)
  /-- Every child points up to its parent. -/
  parent : ∀ a, Reach T a → ∀ side, (T.mem a).child side ≠ T.nil →
    (T.mem ((T.mem a).child side)).parent = a
  /-- The root points up to the sentinel. -/
  root_parent : T.root ≠ T.nil → (T.mem T.root).parent = T.nil

/-- A node of the tree has its cell and its subtrees in focus. -/
theorem Shape.focus_of_mem {T : Rbtree} {t : ColouredTree Cell} (shape : Shape T t) {cell : Cell}
    (member : cell ∈ t.items) :
    ∃ path c left right, fill path (.node c left cell right) = t ∧
      Focus T path (.node c left cell right) := by
  obtain ⟨path, c, left, right, whole⟩ := exists_path_of_mem member
  refine ⟨path, c, left, right, whole, ?_⟩
  rw [focus_iff, whole]
  exact shape

/-- A child pointer of a node in focus points at the subtree on that side. -/
theorem Focus.child {T : Rbtree} {path : List (Frame Cell)} {c : Colour}
    {left right : ColouredTree Cell} {cell : Cell} (focus : Focus T path (.node c left cell right))
    (side : Side) :
    ∃ near far, ColouredTree.node c left cell right = .join side c near cell far ∧
      (T.mem cell.addr).child side = ptr T.nil near := by
  cases side with
  | left =>
    refine ⟨left, right, rfl, ?_⟩
    rw [focus.stored.1]
    rfl
  | right =>
    refine ⟨right, left, rfl, ?_⟩
    rw [focus.stored.1]
    rfl

/-- Every cell below a pointer that is reachable is reachable. -/
theorem Stored.reach {T : Rbtree} {t : ColouredTree Cell} {parent : Addr}
    (stored : Stored T parent t) (sentinel : T.nil ∉ t.items.map Cell.addr)
    (top : ptr T.nil t ≠ T.nil → Reach T (ptr T.nil t)) :
    ∀ cell ∈ t.items, Reach T cell.addr := by
  induction t generalizing parent with
  | leaf => simp [ColouredTree.items]
  | node c left cell right ihLeft ihRight =>
    obtain ⟨node, storedLeft, storedRight⟩ := stored
    simp only [ColouredTree.items, List.map_append, List.map_cons, List.mem_append, List.mem_cons,
      not_or] at sentinel
    have here : Reach T cell.addr := top fun clash => sentinel.2.1 clash.symm
    have leftAt : (T.mem cell.addr).child .left = ptr T.nil left := by rw [node]; rfl
    have rightAt : (T.mem cell.addr).child .right = ptr T.nil right := by rw [node]; rfl
    have below : ∀ side, (T.mem cell.addr).child side ≠ T.nil →
        Reach T ((T.mem cell.addr).child side) := fun side inner => here.child side inner
    intro other member
    simp only [ColouredTree.items, List.mem_append, List.mem_cons] at member
    rcases member with inLeft | rfl | inRight
    · exact ihLeft storedLeft sentinel.1 (leftAt ▸ below .left) other inLeft
    · exact here
    · exact ihRight storedRight sentinel.2.2 (rightAt ▸ below .right) other inRight

/-- The reachable nodes are the cells of the tree. -/
theorem Shape.reach_iff {T : Rbtree} {t : ColouredTree Cell} (shape : Shape T t) (a : Addr) :
    Reach T a ↔ a ∈ t.items.map Cell.addr := by
  constructor
  · intro reach
    induction reach with
    | root inner =>
      rw [shape.root] at inner ⊢
      rcases ptr_mem T.nil t with isNil | member
      · exact absurd isNil inner
      · exact member
    | @child a side up inner ih =>
      obtain ⟨cell, member, rfl⟩ := List.mem_map.mp ih
      obtain ⟨path, c, left, right, whole, focus⟩ := shape.focus_of_mem member
      obtain ⟨near, far, node, childAt⟩ := focus.child side
      rw [childAt] at inner ⊢
      rcases ptr_mem T.nil near with isNil | below
      · exact absurd isNil inner
      · have inNode := ((items_join_perm side c near far cell).map Cell.addr).mem_iff.mpr
          (show ptr T.nil near ∈ (cell :: (near.items ++ far.items)).map Cell.addr by
            rw [List.map_cons, List.map_append, List.mem_cons, List.mem_append]
            exact Or.inr (Or.inl below))
        have inTree := ((items_fill_perm path (.join side c near cell far)).map
          Cell.addr).mem_iff.mpr
          (show ptr T.nil near ∈
              ((ColouredTree.join side c near cell far).items ++ pathCells path).map Cell.addr by
            rw [List.map_append, List.mem_append]
            exact Or.inl inNode)
        rw [← node, whole] at inTree
        exact inTree
  · intro member
    obtain ⟨cell, listed, rfl⟩ := List.mem_map.mp member
    refine shape.stored.reach shape.sentinel ?_ cell listed
    intro inner
    rw [← shape.root] at inner ⊢
    exact Reach.root inner

/-- An in-order walk meets the cells of the tree in order. -/
theorem Stored.inOrder {T : Rbtree} {t : ColouredTree Cell} {parent : Addr}
    (stored : Stored T parent t) (sentinel : T.nil ∉ t.items.map Cell.addr) :
    InOrder T (ptr T.nil t) (t.items.map Cell.addr) := by
  induction t generalizing parent with
  | leaf => exact InOrder.nil
  | node c left cell right ihLeft ihRight =>
    obtain ⟨node, storedLeft, storedRight⟩ := stored
    simp only [ColouredTree.items, List.map_append, List.map_cons, List.mem_append, List.mem_cons,
      not_or] at sentinel ⊢
    have low := ihLeft storedLeft sentinel.1
    have high := ihRight storedRight sentinel.2.2
    have leftAt : (T.mem cell.addr).left = ptr T.nil left := by rw [node]; rfl
    have rightAt : (T.mem cell.addr).right = ptr T.nil right := by rw [node]; rfl
    exact InOrder.node (fun clash => sentinel.2.1 clash.symm) (leftAt ▸ low) (rightAt ▸ high)

/-- Every walk down a stored balanced tree passes as many black nodes as its height says. -/
theorem Stored.blacks {T : Rbtree} {t : ColouredTree Cell} {parent : Addr} {height : Nat}
    (stored : Stored T parent t) (sentinel : T.nil ∉ t.items.map Cell.addr)
    (balanced : t.Balanced height) {count : Nat} (walk : Blacks T (ptr T.nil t) count) :
    count = height := by
  induction t generalizing parent height count with
  | leaf =>
    rw [ptr_leaf] at walk
    rw [ColouredTree.balanced_leaf] at balanced
    cases walk with
    | nil => exact balanced.symm
    | node side inner below => exact absurd rfl inner
  | node c left cell right ihLeft ihRight =>
    obtain ⟨node, storedLeft, storedRight⟩ := stored
    simp only [ColouredTree.items, List.map_append, List.map_cons, List.mem_append, List.mem_cons,
      not_or] at sentinel
    have color : (T.mem cell.addr).color = code c := by rw [node, nodeOf_color]
    have leftAt : (T.mem cell.addr).child .left = ptr T.nil left := by rw [node]; rfl
    have rightAt : (T.mem cell.addr).child .right = ptr T.nil right := by rw [node]; rfl
    have lower : ∃ h, left.Balanced h ∧ right.Balanced h ∧
        height = h + if code c = BLACK then 1 else 0 := by
      cases c with
      | red => exact ⟨height, balanced.2.2.1, balanced.2.2.2, rfl⟩
      | black =>
        obtain ⟨h, rfl⟩ := ColouredTree.exists_height_of_black
          (show (ColouredTree.join .left .black left cell right).Balanced height from balanced)
        exact ⟨h, balanced.1, balanced.2, rfl⟩
    obtain ⟨h, balancedLeft, balancedRight, rfl⟩ := lower
    have here : ptr T.nil (.node c left cell right) = cell.addr := rfl
    generalize ptr T.nil (.node c left cell right) = a at here walk
    cases walk with
    | nil => exact absurd here sentinel.2.1
    | @node _ n side inner below =>
      subst here
      rw [color]
      have same : n = h := by
        cases side with
        | left => exact ihLeft storedLeft sentinel.1 balancedLeft (leftAt ▸ below)
        | right => exact ihRight storedRight sentinel.2.2 balancedRight (rightAt ▸ below)
      rw [same]

section valid

variable {T : Rbtree} {nil : Addr} {cells : List Cell} (valid : Valid nil cells T)

include valid

/-- The root of a valid memory is black. -/
theorem Valid.root_black : (T.mem T.root).color = BLACK := by
  obtain ⟨sentinel, t, shape, redBlack, rfl⟩ := valid
  have top : Focus T [] t := focus_iff.mpr shape
  rw [shape.root, top.color sentinel, redBlack.1]
  rfl

/-- No red node of a valid memory has a red child. -/
theorem Valid.red_child {a : Addr} (reachable : Reach T a) (red : (T.mem a).color = RED)
    (side : Side) : (T.mem ((T.mem a).child side)).color ≠ RED := by
  obtain ⟨sentinel, t, shape, redBlack, rfl⟩ := valid
  obtain ⟨cell, member, rfl⟩ := List.mem_map.mp ((shape.reach_iff a).mp reachable)
  obtain ⟨path, c, left, right, whole, focus⟩ := shape.focus_of_mem member
  obtain ⟨near, far, node, childAt⟩ := focus.child side
  rw [focus.stored.1, nodeOf_color, code_eq_red] at red
  subst red
  have inner : (fill path (.node .red left cell right)).RedBlack := by
    rw [whole]
    exact redBlack
  obtain ⟨h, redBalanced, -⟩ := (redBlack_fill ..).mp inner
  rw [node] at focus redBalanced
  rw [ColouredTree.balanced_join_red] at redBalanced
  rw [childAt, focus.down.color sentinel, redBalanced.1]
  decide

/-- All walks down a valid memory pass the same number of black nodes. -/
theorem Valid.black_height : ∃ height, ∀ count, Blacks T T.root count → count = height := by
  obtain ⟨-, t, shape, ⟨-, height, balanced⟩, rfl⟩ := valid
  refine ⟨height, ?_⟩
  intro count walk
  rw [shape.root] at walk
  exact shape.stored.blacks shape.sentinel balanced walk

/-- An in-order walk of a valid memory meets its cells. -/
theorem Valid.inOrder : InOrder T T.root (cells.map Cell.addr) := by
  obtain ⟨-, t, shape, -, rfl⟩ := valid
  rw [shape.root]
  exact shape.stored.inOrder shape.sentinel

/-- Every child of a valid memory points up to its parent. -/
theorem Valid.child_parent {a : Addr} (reachable : Reach T a) {side : Side}
    (inner : (T.mem a).child side ≠ T.nil) : (T.mem ((T.mem a).child side)).parent = a := by
  obtain ⟨-, t, shape, -, rfl⟩ := valid
  obtain ⟨cell, member, rfl⟩ := List.mem_map.mp ((shape.reach_iff a).mp reachable)
  obtain ⟨path, c, left, right, whole, focus⟩ := shape.focus_of_mem member
  obtain ⟨near, far, node, childAt⟩ := focus.child side
  rw [node] at focus
  rw [childAt] at inner ⊢
  have inside : near ≠ .leaf := by
    rintro rfl
    exact inner rfl
  exact focus.down.parent inside

end valid

/-- A valid memory is a red-black tree in the words of the program. -/
theorem Valid.redBlackTree {T : Rbtree} {nil : Addr} {cells : List Cell}
    (valid : Valid nil cells T) (sorted : cells.Pairwise (fun a b => a.key < b.key)) :
    RedBlackTree T := by
  have rootBlack := valid.root_black
  have redChild := fun a => valid.red_child (a := a)
  have blackHeight := valid.black_height
  have order := valid.inOrder
  have childParent := fun a => valid.child_parent (a := a)
  obtain ⟨sentinel, t, shape, -, rfl⟩ := valid
  have top : Focus T [] t := focus_iff.mpr shape
  have nilBlack : (T.mem T.nil).color = BLACK := by rw [sentinel.same, sentinel.black]
  refine ⟨nilBlack, rootBlack, ?_, redChild, blackHeight, ⟨t.items.map Cell.addr, order, ?_⟩,
    fun a reachable side => childParent a reachable, ?_⟩
  · intro a reachable
    obtain ⟨cell, member, rfl⟩ := List.mem_map.mp ((shape.reach_iff a).mp reachable)
    obtain ⟨path, c, left, right, whole, focus⟩ := shape.focus_of_mem member
    rw [focus.stored.1, nodeOf_color]
    cases c with
    | red => exact Or.inl rfl
    | black => exact Or.inr rfl
  · have keys : (t.items.map Cell.addr).map (fun a => (T.mem a).key) = t.items.map Cell.key := by
      rw [List.map_map]
      refine List.map_congr_left fun cell member => ?_
      obtain ⟨path, c, left, right, whole, focus⟩ := shape.focus_of_mem member
      change (T.mem cell.addr).key = cell.key
      rw [focus.stored.1, nodeOf_key]
    rw [keys, List.pairwise_map]
    exact sorted
  · intro inner
    rw [shape.root] at inner ⊢
    have inside : t ≠ .leaf := by
      rintro rfl
      exact inner rfl
    exact top.parent inside

/-- `rbtree_search` below a focus returns the node with the key, or the sentinel when no
cell below has it. -/
theorem searchBelow_spec {T : Rbtree} (key : Int) {t : ColouredTree Cell}
    {path : List (Frame Cell)} (focus : Focus T path t)
    (sorted : t.items.Pairwise (fun a b => a.key < b.key)) :
    (∃ cell ∈ t.items, cell.key = key ∧
      Leaves (fun fuel => loop (rbtreeSearchPass T key) fuel (ptr T.nil t)) cell.addr) ∨
    ((∀ cell ∈ t.items, cell.key ≠ key) ∧
      Leaves (fun fuel => loop (rbtreeSearchPass T key) fuel (ptr T.nil t)) T.nil) := by
  induction t generalizing path with
  | leaf =>
    right
    refine ⟨by simp [ColouredTree.items], leaves_now ?_⟩
    simp [rbtreeSearchPass]
  | node c left cell right ihLeft ihRight =>
    have fromLeft : Focus T path (.join .left c left cell right) := focus
    have fromRight : Focus T path (.join .right c right cell left) := focus
    have inner := fromLeft.addr_ne_nil
    have keyAt : (T.mem cell.addr).key = cell.key := by rw [focus.stored.1, nodeOf_key]
    have leftAt : (T.mem cell.addr).left = ptr T.nil left := by rw [focus.stored.1]; rfl
    have rightAt : (T.mem cell.addr).right = ptr T.nil right := by rw [focus.stored.1]; rfl
    simp only [ColouredTree.items, List.pairwise_append, List.pairwise_cons] at sorted
    obtain ⟨sortedLeft, ⟨cellRight, sortedRight⟩, leftRest⟩ := sorted
    rcases lt_trichotomy key cell.key with less | same | greater
    · have pass : rbtreeSearchPass T key cell.addr = .inl (ptr T.nil left) := by
        simp only [rbtreeSearchPass, keyAt, leftAt, if_pos less, ne_eq, inner, not_false_eq_true,
          if_true]
      rcases ihLeft fromLeft.down sortedLeft with ⟨found, member, hit, leaves⟩ | ⟨none, leaves⟩
      · exact Or.inl ⟨found, by simp [ColouredTree.items, member], hit, leaves_next pass leaves⟩
      · refine Or.inr ⟨?_, leaves_next pass leaves⟩
        intro other member
        simp only [ColouredTree.items, List.mem_append, List.mem_cons] at member
        rcases member with inLeft | rfl | inRight
        · exact none other inLeft
        · exact less.ne'
        · exact (less.trans (cellRight other inRight)).ne'
    · left
      have pass : rbtreeSearchPass T key cell.addr = .inr cell.addr := by
        simp only [rbtreeSearchPass, keyAt, same, lt_irrefl, if_false, ne_eq, inner,
          not_false_eq_true, if_true]
      exact ⟨cell, by simp [ColouredTree.items], same.symm, leaves_now pass⟩
    · have notLess : ¬ key < cell.key := not_lt.mpr greater.le
      have pass : rbtreeSearchPass T key cell.addr = .inl (ptr T.nil right) := by
        simp only [rbtreeSearchPass, keyAt, rightAt, if_neg notLess, if_pos greater, ne_eq, inner,
          not_false_eq_true, if_true, gt_iff_lt]
      rcases ihRight fromRight.down sortedRight with ⟨found, member, hit, leaves⟩ | ⟨none, leaves⟩
      · exact Or.inl ⟨found, by simp [ColouredTree.items, member], hit, leaves_next pass leaves⟩
      · refine Or.inr ⟨?_, leaves_next pass leaves⟩
        intro other member
        simp only [ColouredTree.items, List.mem_append, List.mem_cons] at member
        rcases member with inLeft | rfl | inRight
        · exact ((leftRest other inLeft cell List.mem_cons_self).trans greater).ne
        · exact greater.ne
        · exact none other inRight

/-- `rbtree_search` returns the node with the key, or the sentinel when there is none. -/
theorem rbtreeSearch_spec {T : Rbtree} {nil : Addr} {cells : List Cell}
    (valid : Valid nil cells T) (sorted : cells.Pairwise (fun a b => a.key < b.key)) (key : Int) :
    (∃ cell ∈ cells, cell.key = key ∧ Leaves (fun fuel => rbtreeSearch fuel T key) cell.addr) ∨
      ((∀ cell ∈ cells, cell.key ≠ key) ∧ Leaves (fun fuel => rbtreeSearch fuel T key) T.nil) := by
  obtain ⟨sentinel, t, shape, redBlack, rfl⟩ := valid
  have below := searchBelow_spec key (focus_iff.mpr shape : Focus T [] t) sorted
  rw [← shape.root] at below
  exact below

end BackendCpp.RbtreeC
