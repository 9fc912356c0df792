import BackendCpp.RbtreeC.Reading

/-!
# Reading a tree off the memory

A red-black tree in the words of the program spells exactly one tree of cells. The in-order
walk makes the tree finite, the parent pointers of its nodes are right, and equal counts of
black nodes give its balance. So `RedBlackTree` and `Valid` say the same of a memory.
-/

namespace BackendCpp.RbtreeC

open BackendCpp.Library

/-- The bytes of different colours differ. -/
theorem code_injective : Function.Injective code := by
  intro one other same
  cases one <;> cases other <;> first | rfl | exact absurd same (by decide)

/-- An in-order walk in a red-black tree spells a tree of cells. -/
theorem InOrder.spelled {T : Rbtree} (tree : RedBlackTree T) {a : Addr} {order : List Addr}
    (walk : InOrder T a order) {parent : Addr} (reach : a ≠ T.nil → Reach T a)
    (up : a ≠ T.nil → (T.mem a).parent = parent) :
    ∃ t, ptr T.nil t = a ∧ Stored T parent t ∧ t.items.map Cell.addr = order ∧ T.nil ∉ order := by
  induction walk generalizing parent with
  | nil => exact ⟨.leaf, rfl, trivial, rfl, List.not_mem_nil⟩
  | @node a low high inner left right ihLeft ihRight =>
    have here := reach inner
    obtain ⟨leftTree, leftPtr, leftStored, leftOrder, leftNil⟩ :=
      ihLeft (here.child .left) (tree.parent a here .left)
    obtain ⟨rightTree, rightPtr, rightStored, rightOrder, rightNil⟩ :=
      ihRight (here.child .right) (tree.parent a here .right)
    have colour : ∃ c, (T.mem a).color = code c := by
      rcases tree.coloured a here with isRed | isBlack
      · exact ⟨.red, isRed⟩
      · exact ⟨.black, isBlack⟩
    obtain ⟨c, color⟩ := colour
    refine ⟨.node c leftTree ⟨a, (T.mem a).key, (T.mem a).value⟩ rightTree, rfl,
      ⟨?_, leftStored, rightStored⟩, ?_, ?_⟩
    · show T.mem a = ⟨code c, ptr T.nil rightTree, ptr T.nil leftTree, parent, (T.mem a).key,
        (T.mem a).value⟩
      rw [leftPtr, rightPtr, ← color, ← up inner]
    · simp only [ColouredTree.items, List.map_append, List.map_cons, leftOrder, rightOrder]
    · simp only [List.mem_append, List.mem_cons, not_or]
      exact ⟨leftNil, Ne.symm inner, rightNil⟩

/-- Some walk leads down to the sentinel. -/
theorem Stored.exists_blacks {T : Rbtree} {t : ColouredTree Cell} {parent : Addr}
    (stored : Stored T parent t) (sentinel : T.nil ∉ t.items.map Cell.addr) :
    ∃ count, Blacks T (ptr T.nil t) count := by
  induction t generalizing parent with
  | leaf => exact ⟨0, Blacks.nil⟩
  | node c left cell right ihLeft _ =>
    obtain ⟨node, storedLeft, -⟩ := stored
    simp only [ColouredTree.items, List.map_append, List.map_cons, List.mem_append, List.mem_cons,
      not_or] at sentinel
    obtain ⟨count, below⟩ := ihLeft storedLeft sentinel.1
    have leftAt : (T.mem cell.addr).child .left = ptr T.nil left := by rw [node]; rfl
    exact ⟨_, Blacks.node .left (fun clash => sentinel.2.1 clash.symm) (leftAt ▸ below)⟩

/-- A pointer that is not red points at a tree with a black root. -/
theorem Stored.colour_black {T : Rbtree} {t : ColouredTree Cell} {parent : Addr}
    (stored : Stored T parent t) (notRed : (T.mem (ptr T.nil t)).color ≠ RED) :
    t.colour = .black := by
  cases t with
  | leaf => rfl
  | node c left cell right =>
    cases c with
    | red =>
      rw [show ptr T.nil (.node .red left cell right) = cell.addr from rfl, stored.1,
        nodeOf_color] at notRed
      exact absurd rfl notRed
    | black => rfl

/-- Equal counts of black nodes make the stored tree balanced. -/
theorem Stored.balanced {T : Rbtree} (tree : RedBlackTree T) {t : ColouredTree Cell}
    {parent : Addr} {height : Nat} (stored : Stored T parent t)
    (sentinel : T.nil ∉ t.items.map Cell.addr) (reach : ∀ cell ∈ t.items, Reach T cell.addr)
    (counts : ∀ count, Blacks T (ptr T.nil t) count → count = height) : t.Balanced height := by
  induction t generalizing parent height with
  | leaf => exact (counts 0 Blacks.nil).symm
  | node c left cell right ihLeft ihRight =>
    obtain ⟨node, storedLeft, storedRight⟩ := stored
    simp only [ColouredTree.items, List.map_append, List.map_cons, List.mem_append, List.mem_cons,
      not_or] at sentinel reach
    have here : Reach T cell.addr := reach cell (Or.inr (Or.inl rfl))
    have inner : cell.addr ≠ T.nil := fun clash => sentinel.2.1 clash.symm
    have color : (T.mem cell.addr).color = code c := by rw [node, nodeOf_color]
    have leftAt : (T.mem cell.addr).child .left = ptr T.nil left := by rw [node]; rfl
    have rightAt : (T.mem cell.addr).child .right = ptr T.nil right := by rw [node]; rfl
    have leftReach : ∀ other ∈ left.items, Reach T other.addr := fun other member =>
      reach other (Or.inl member)
    have rightReach : ∀ other ∈ right.items, Reach T other.addr := fun other member =>
      reach other (Or.inr (Or.inr member))
    have leftCounts : ∀ count, Blacks T (ptr T.nil left) count →
        count + (if (T.mem cell.addr).color = BLACK then 1 else 0) = height := by
      intro count below
      exact counts _ (Blacks.node .left inner (leftAt ▸ below))
    have rightCounts : ∀ count, Blacks T (ptr T.nil right) count →
        count + (if (T.mem cell.addr).color = BLACK then 1 else 0) = height := by
      intro count below
      exact counts _ (Blacks.node .right inner (rightAt ▸ below))
    cases c with
    | red =>
      have notBlack : ¬ (T.mem cell.addr).color = BLACK := by
        rw [color]
        decide
      rw [if_neg notBlack] at leftCounts rightCounts
      have children := tree.red_child cell.addr here color
      refine ⟨storedLeft.colour_black ?_, storedRight.colour_black ?_,
        ihLeft storedLeft sentinel.1 leftReach leftCounts,
        ihRight storedRight sentinel.2.2 rightReach rightCounts⟩
      · rw [← leftAt]
        exact children .left
      · rw [← rightAt]
        exact children .right
    | black =>
      rw [if_pos (show (T.mem cell.addr).color = BLACK from color)] at leftCounts rightCounts
      obtain ⟨lower, walk⟩ := storedLeft.exists_blacks sentinel.1
      have whole := leftCounts lower walk
      subst whole
      exact ⟨ihLeft storedLeft sentinel.1 leftReach fun count below =>
          Nat.succ_injective (leftCounts count below),
        ihRight storedRight sentinel.2.2 rightReach fun count below =>
          Nat.succ_injective (rightCounts count below)⟩

/-- A red-black tree in the words of the program is a valid memory with increasing keys. -/
theorem RedBlackTree.valid {T : Rbtree} (tree : RedBlackTree T) :
    ∃ cells, Valid T.nil cells T ∧ cells.Pairwise (fun a b => a.key < b.key) := by
  obtain ⟨order, walk, sorted⟩ := tree.keys
  obtain ⟨t, root, stored, items, outside⟩ := walk.spelled tree Reach.root tree.root_parent
  rw [← items] at outside
  have distinct : (t.items.map Cell.addr).Nodup := by
    rw [items]
    rw [List.pairwise_map] at sorted
    refine sorted.imp ?_
    rintro one other less rfl
    exact lt_irrefl _ less
  have shape : Shape T t := ⟨root.symm, stored, distinct, outside⟩
  have reach : ∀ cell ∈ t.items, Reach T cell.addr := fun cell member =>
    (shape.reach_iff _).mpr (List.mem_map_of_mem member)
  obtain ⟨height, counts⟩ := tree.black_height
  rw [← root] at counts
  have black : t.colour = .black := by
    refine stored.colour_black ?_
    rw [root, tree.root_black]
    decide
  have redBlack : t.RedBlack := ⟨black, height, stored.balanced tree outside reach counts⟩
  refine ⟨t.items, ⟨⟨rfl, tree.nil_black⟩, t, shape, redBlack, rfl⟩, ?_⟩
  rw [← items, List.map_map, List.pairwise_map] at sorted
  refine sorted.imp_of_mem ?_
  intro one other inOne inOther less
  obtain ⟨_, _, _, _, -, atOne⟩ := shape.focus_of_mem inOne
  obtain ⟨_, _, _, _, -, atOther⟩ := shape.focus_of_mem inOther
  have first : (T.mem one.addr).key = one.key := by rw [atOne.stored.1, nodeOf_key]
  have second : (T.mem other.addr).key = other.key := by rw [atOther.stored.1, nodeOf_key]
  rw [← first, ← second]
  exact less

/-- A memory spells at most one tree below a pointer. -/
theorem Stored.unique {T : Rbtree} {one other : ColouredTree Cell} {up up' : Addr}
    (first : Stored T up one) (second : Stored T up' other)
    (outside : T.nil ∉ one.items.map Cell.addr) (outside' : T.nil ∉ other.items.map Cell.addr)
    (same : ptr T.nil one = ptr T.nil other) : one = other := by
  induction one generalizing other up up' with
  | leaf =>
    cases other with
    | leaf => rfl
    | node c left cell right =>
      refine absurd ?_ outside'
      rw [show T.nil = cell.addr from same]
      simp [ColouredTree.items]
  | node c left cell right ihLeft ihRight =>
    cases other with
    | leaf =>
      refine absurd ?_ outside
      rw [show T.nil = cell.addr from same.symm]
      simp [ColouredTree.items]
    | node c' left' cell' right' =>
      obtain ⟨node, storedLeft, storedRight⟩ := first
      obtain ⟨node', storedLeft', storedRight'⟩ := second
      have place : cell.addr = cell'.addr := same
      rw [place, node', nodeOf, nodeOf, RbtreeNode.mk.injEq] at node
      obtain ⟨color, rightPtr, leftPtr, -, key, value⟩ := node
      simp only [ColouredTree.items, List.map_append, List.map_cons, List.mem_append, List.mem_cons,
        not_or] at outside outside'
      have cells : cell = cell' := by
        cases cell
        cases cell'
        exact Cell.mk.injEq .. ▸ ⟨place, key.symm, value.symm⟩
      rw [code_injective color, cells,
        ihLeft storedLeft storedLeft' outside.1 outside'.1 leftPtr.symm,
        ihRight storedRight storedRight' outside.2.2 outside'.2.2 rightPtr.symm]

/-- A memory has at most one shape. -/
theorem Shape.unique {T : Rbtree} {one other : ColouredTree Cell} (first : Shape T one)
    (second : Shape T other) : one = other :=
  first.stored.unique second.stored first.sentinel second.sentinel
    (first.root.symm.trans second.root)

end BackendCpp.RbtreeC
