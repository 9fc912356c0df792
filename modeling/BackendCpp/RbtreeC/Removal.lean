import BackendCpp.RbtreeC.Deletion

/-!
# Deletion

`rbtree_delete` unlinks a node `y` with at most one child: `z` itself, or its successor,
whose key and value then move to `z`. Only where the unlinked node was black does the path
lack a black node, and the fix-up runs.
-/

namespace BackendCpp.RbtreeC

open BackendCpp.Library

/-- The memory after `x` took the place of `y`. -/
theorem mem_deleteUnlink (T : Rbtree) (y x a : Addr) (apart : y ≠ x)
    (up : (T.mem y).parent = x → x = T.nil) :
    (deleteUnlink T y x).mem a =
      if a = x then (T.mem a).withParent (T.mem y).parent
      else if a = (T.mem y).parent ∧ a ≠ T.nil then
        (T.mem a).withChild (if y = (T.mem a).left then .left else .right) x
      else T.mem a := by
  have parent : ((T.setParent x (T.mem y).parent).mem y).parent = (T.mem y).parent := by
    rw [Rbtree.mem_setParent, if_neg apart]
  unfold deleteUnlink
  rw [mem_replaceChild, parent, Rbtree.nil_setParent, Rbtree.mem_setParent]
  by_cases here : a = x
  · have top : ¬ (a = (T.mem y).parent ∧ a ≠ T.nil) := by
      intro both
      exact both.2 (here.trans (up (both.1.symm.trans here)))
    rw [if_neg top, if_pos here, if_pos here]
  · rw [if_neg here, if_neg here]
    rfl

/-- Unlinking keeps the sentinel. -/
@[simp] theorem nil_deleteUnlink (T : Rbtree) (y x : Addr) :
    (deleteUnlink T y x).nil = T.nil := by
  unfold deleteUnlink
  rw [nil_replaceChild, Rbtree.nil_setParent]

/-- The header after `x` took the place of `y`. -/
theorem root_deleteUnlink (T : Rbtree) (y x : Addr) (apart : y ≠ x) :
    (deleteUnlink T y x).root = if (T.mem y).parent = T.nil then x else T.root := by
  unfold deleteUnlink
  rw [root_replaceChild, Rbtree.nil_setParent, Rbtree.root_setParent, Rbtree.mem_setParent,
    if_neg apart]

section unlink

variable {T : Rbtree} {nil : Addr} {path : List (Frame Cell)} {side : Side} {c : Colour}
  {child : ColouredTree Cell} {y : Cell}

/-- The pointer `x` of `rbtree_delete` is the child of a node that has no child on the other
side. -/
theorem Focus.onlyChild (focus : Focus T path (.join side c child y .leaf)) :
    onlyChild T y.addr = ptr T.nil child := by
  unfold RbtreeC.onlyChild
  rw [focus.read]
  cases side with
  | left =>
    by_cases empty : ptr T.nil child = T.nil
    · simp [nodeOf, empty]
    · simp [nodeOf, empty]
  | right =>
    by_cases empty : ptr T.nil child = T.nil
    · simp [nodeOf, empty]
    · simp [nodeOf, empty]

/-- Unlinking a node with at most one child. The node itself is not written, the child is
hooked below the path also when it is the sentinel, and the sentinel keeps its colour. -/
theorem Focus.deleteUnlink (sentinel : Sentinel nil T)
    (focus : Focus T path (.join side c child y .leaf)) :
    Focus (deleteUnlink T y.addr (ptr T.nil child)) path child ∧
      Hooked (deleteUnlink T y.addr (ptr T.nil child)) path child ∧
      Sentinel nil (deleteUnlink T y.addr (ptr T.nil child)) ∧
      (deleteUnlink T y.addr (ptr T.nil child)).mem y.addr = T.mem y.addr := by
  have parent : (T.mem y.addr).parent = above T.nil path := by rw [focus.read, nodeOf_parent]
  have inner := focus.addr_ne_nil
  obtain ⟨hung, stored, distinct, outside⟩ := focus
  obtain ⟨-, storedChild, -⟩ := stored_join.mp stored
  rw [ptr_join] at hung
  have order : ((ColouredTree.join side c child y .leaf).items ++ pathCells path).Perm
      (y :: (child.items ++ pathCells path)) := by
    have node := (items_join_perm side c child .leaf y).append_right (pathCells path)
    simpa [ColouredTree.items] using node
  have unique := (order.map Cell.addr).nodup_iff.mp distinct
  have apart : T.nil ∉ (y :: (child.items ++ pathCells path)).map Cell.addr :=
    fun member => outside ((order.map Cell.addr).mem_iff.mpr member)
  simp only [List.map_cons, List.map_append, List.nodup_cons, List.mem_cons, List.mem_append,
    List.nodup_append, not_or] at unique apart
  obtain ⟨⟨yChild, yPath⟩, childUnique, pathUnique, childPath⟩ := unique
  obtain ⟨nilY, nilChild, nilPath⟩ := apart
  have ptrChild := ptr_mem T.nil child
  have ptrAbove := above_mem T.nil path
  have yNotChild : y.addr ≠ ptr T.nil child := (ne_of_sentinel_or_mem ptrChild nilY yChild).symm
  have yNotAbove : y.addr ≠ above T.nil path := (ne_of_sentinel_or_mem ptrAbove nilY yPath).symm
  have meet : above T.nil path = ptr T.nil child → ptr T.nil child = T.nil := by
    intro same
    rcases ptrAbove with top | member
    · exact same.symm.trans top
    · exact same.symm.trans (sentinel_of_eq ptrChild
        (fun b listed clash => childPath b listed _ member clash.symm) same)
  have mem : ∀ a, (RbtreeC.deleteUnlink T y.addr (ptr T.nil child)).mem a =
      if a = ptr T.nil child then (T.mem a).withParent (above T.nil path)
      else if a = above T.nil path ∧ a ≠ T.nil then
        (T.mem a).withChild (if y.addr = (T.mem a).left then .left else .right) (ptr T.nil child)
      else T.mem a := by
    intro a
    rw [mem_deleteUnlink T y.addr (ptr T.nil child) a yNotChild (by rw [parent]; exact meet), parent]
  have keep : ∀ a, a ≠ ptr T.nil child → (a = above T.nil path → a = T.nil) →
      (RbtreeC.deleteUnlink T y.addr (ptr T.nil child)).mem a = T.mem a := by
    intro a notChild notAbove
    rw [mem, if_neg notChild, if_neg (fun both => both.2 (notAbove both.1))]
  have root := root_deleteUnlink T y.addr (ptr T.nil child) yNotChild
  rw [parent] at root
  refine ⟨⟨?_, ?_, ?_, ?_⟩, ?_, ⟨?_, ?_⟩, ?_⟩
  · rw [nil_deleteUnlink]
    refine hung.replace (nil_deleteUnlink ..) .left pathUnique nilPath nilY yPath root ?_ ?_
    · intro inside
      have notChild : above T.nil path ≠ ptr T.nil child := fun same =>
        inside (same.trans (meet same))
      rw [mem, if_neg notChild, if_pos ⟨rfl, inside⟩]
      rfl
    · intro other member different
      have listed := List.mem_map_of_mem (f := Cell.addr) member
      have notChild : other.addr ≠ ptr T.nil child := by
        intro same
        rcases ptrChild with empty | inChild
        · exact nilPath ((same.trans empty) ▸ listed)
        · exact childPath _ inChild _ listed same.symm
      exact keep _ notChild (fun same => absurd same different)
  · refine storedChild.reparent (nil_deleteUnlink ..) childUnique ?_ ?_
    · intro _
      rw [mem, if_pos rfl, nil_deleteUnlink]
    · intro other member different
      have listed := List.mem_map_of_mem (f := Cell.addr) member
      exact keep _ different (sentinel_of_eq ptrAbove fun b pathMember =>
        childPath _ listed b pathMember)
  · rw [List.map_append, List.nodup_append]
    exact ⟨childUnique, pathUnique, childPath⟩
  · rw [nil_deleteUnlink, List.map_append, List.mem_append, not_or]
    exact ⟨nilChild, nilPath⟩
  · unfold Hooked
    rw [nil_deleteUnlink, mem, if_pos rfl]
    rfl
  · rw [nil_deleteUnlink, sentinel.same]
  · rw [← sentinel.same, mem]
    have black := sentinel.black
    rw [← sentinel.same] at black
    split
    · exact black
    · rw [if_neg (fun both => both.2 rfl)]
      exact black
  · exact keep _ yNotChild (fun same => absurd same yNotAbove)

end unlink

/-- Blackening a balanced tree: a black root keeps the height, a red one adds to it. -/
theorem balanced_blacken {t : ColouredTree Cell} {height : Nat} (balanced : t.Balanced height) :
    (t.paint .black).Balanced (if t.colour = .black then height else height + 1) := by
  cases colour : t.colour with
  | black =>
    have same : t.paint .black = t := by
      rw [← colour]
      exact ColouredTree.paint_colour t
    rw [if_pos rfl, same]
    exact balanced
  | red =>
    have node : t ≠ .leaf := by
      rintro rfl
      simp at colour
    obtain ⟨near, item, far, whole⟩ := ColouredTree.exists_join .left node
    rw [colour] at whole
    subst whole
    rw [ColouredTree.balanced_join_red] at balanced
    rw [if_neg (by simp), ColouredTree.paint_join, ColouredTree.balanced_join_black]
    exact balanced.2.2

/-- What `rbtree_delete` has when it has unlinked a node: a red-black tree where the node was
red, and a tree that lacks a black node at `x` where it was black. -/
def Unlinked (nil : Addr) (cells : List Cell) (T : Rbtree) (c : Colour) (x : Addr) : Prop :=
  (c = .red ∧ Valid nil cells T) ∨ (c = .black ∧ ∃ size, DeleteInv nil cells size (T, x))

/-- A tree without a node of its path is unlinked at the hole. -/
theorem Focus.unlinked {T : Rbtree} {nil : Addr} {path : List (Frame Cell)} {side : Side}
    {c : Colour} {child : ColouredTree Cell} {y : Cell} {height : Nat} (sentinel : Sentinel nil T)
    (focus : Focus T path child) (hooked : Hooked T path child)
    (balanced : (ColouredTree.join side c child y .leaf).Balanced height)
    (accepts : Accepts path c height) :
    Unlinked nil (fill path child).items T c (ptr T.nil child) := by
  cases c with
  | red =>
    rw [ColouredTree.balanced_join_red] at balanced
    refine Or.inl ⟨rfl, sentinel, _, focus_iff.mp focus, ?_, rfl⟩
    refine (redBlack_fill ..).mpr ⟨height, balanced.2.2.1, ?_⟩
    rw [balanced.1]
    exact accepts.black
  | black =>
    obtain ⟨lower, rfl⟩ := ColouredTree.exists_height_of_black balanced
    rw [ColouredTree.balanced_join_black] at balanced
    exact Or.inr ⟨rfl, _, path, child, lower, rfl, sentinel, focus, rfl, fun _ => hooked,
      balanced_blacken balanced.1, accepts, rfl⟩

/-- The end of `rbtree_delete`: the fix-up where the unlinked node was black. -/
theorem Unlinked.fixed {T : Rbtree} {nil x : Addr} {cells : List Cell} {c : Colour}
    (unlinked : Unlinked nil cells T c x) :
    ∃ T', Leaves (fun fuel => if code c = BLACK then rbtreeDeleteFixup fuel T x else some T) T' ∧
      Valid nil cells T' := by
  rcases unlinked with ⟨rfl, valid⟩ | ⟨rfl, size, inv⟩
  · have notBlack : ¬ code .red = BLACK := by decide
    exact ⟨T, Leaves.of_forall fun fuel => if_neg notBlack, valid⟩
  · obtain ⟨T', leaves, valid⟩ := rbtreeDeleteFixup_spec inv
    refine ⟨T', ?_, valid⟩
    simp only [code, if_pos]
    exact leaves

/-- `rbtree_mini` below a focus returns the leftmost node: nothing comes before it in order,
and it has no left child. -/
theorem rbtreeMini_spec {T : Rbtree} {t : ColouredTree Cell} {path : List (Frame Cell)}
    (focus : Focus T path t) (node : t ≠ .leaf) :
    ∃ lower c y right, t = fill lower (.node c .leaf y right) ∧ before lower = [] ∧
      Leaves (fun fuel => rbtreeMini fuel T (ptr T.nil t)) y.addr := by
  induction t generalizing path with
  | leaf => exact absurd rfl node
  | node c left cell right ihLeft _ =>
    have fromLeft : Focus T path (.join .left c left cell right) := focus
    have leftAt : (T.mem cell.addr).left = ptr T.nil left := by rw [focus.stored.1]; rfl
    by_cases empty : left = .leaf
    · subst empty
      refine ⟨[], c, cell, right, rfl, rfl, leaves_now ?_⟩
      rw [ptr_leaf] at leftAt
      simp [rbtreeMiniPass, ptr, leftAt]
    · obtain ⟨lower, d, y, r, whole, first, leaves⟩ := ihLeft fromLeft.down empty
      refine ⟨lower ++ [⟨.left, c, cell, right⟩], d, y, r, ?_, ?_, leaves_next ?_ leaves⟩
      · rw [fill_append, ← whole]
        rfl
      · rw [before_append, first]
        rfl
      · have inner : (T.mem cell.addr).left ≠ T.nil := by
          rw [leftAt]
          exact fun clash => empty (fromLeft.down.ptr_eq_nil.mp clash)
        have pass : rbtreeMiniPass T cell.addr = .inl (ptr T.nil left) := by
          unfold rbtreeMiniPass
          rw [if_pos inner, leftAt]
        exact pass

/-- `rbtree_successor` of a node with a right child is the leftmost node below that child. -/
theorem rbtreeSuccessor_spec {T : Rbtree} {path : List (Frame Cell)} {c : Colour}
    {left right : ColouredTree Cell} {cell : Cell} (focus : Focus T path (.node c left cell right))
    (node : right ≠ .leaf) :
    ∃ lower d y r, right = fill lower (.node d .leaf y r) ∧ before lower = [] ∧
      Leaves (fun fuel => rbtreeSuccessor fuel T cell.addr) y.addr := by
  have fromRight : Focus T path (.join .right c right cell left) := focus
  have rightAt : (T.mem cell.addr).right = ptr T.nil right := by rw [focus.stored.1]; rfl
  obtain ⟨lower, d, y, r, whole, first, leaves⟩ := rbtreeMini_spec fromRight.down node
  refine ⟨lower, d, y, r, whole, first, ?_⟩
  have inner : (T.mem cell.addr).right ≠ T.nil := by
    rw [rightAt]
    exact fun clash => node (fromRight.down.ptr_eq_nil.mp clash)
  unfold rbtreeSuccessor
  simp only [if_pos inner]
  rw [rightAt]
  exact leaves

/-- The copying part of `rbtree_delete` rewrites one node. -/
theorem deleteCopy_eq (T : Rbtree) (z y : Addr) (apart : y ≠ z) :
    deleteCopy T z y = T.modify z fun node =>
      { node with key := (T.mem y).key, value := (T.mem y).value } := by
  have same : (T.setKey z (T.mem y).key).mem y = T.mem y := by
    simp only [Rbtree.setKey, Rbtree.mem_modify, if_neg apart]
  unfold deleteCopy
  rw [if_pos apart]
  dsimp only
  rw [same]
  simp only [Rbtree.setKey, Rbtree.setValue, Rbtree.modify, Function.update_self,
    Function.update_idem]

/-- The copying part of `rbtree_delete`, at a node on the path above the focus. -/
theorem Focus.deleteCopy {T : Rbtree} {nil : Addr} {lower upper : List (Frame Cell)} {side : Side}
    {c : Colour} {z : Cell} {sibling t : ColouredTree Cell} (sentinel : Sentinel nil T)
    (focus : Focus T (lower ++ ⟨side, c, z, sibling⟩ :: upper) t)
    (hooked : Hooked T (lower ++ ⟨side, c, z, sibling⟩ :: upper) t) {y : Addr} (apart : y ≠ z.addr) :
    Focus (deleteCopy T z.addr y)
        (lower ++ ⟨side, c, ⟨z.addr, (T.mem y).key, (T.mem y).value⟩, sibling⟩ :: upper) t ∧
      Hooked (deleteCopy T z.addr y)
        (lower ++ ⟨side, c, ⟨z.addr, (T.mem y).key, (T.mem y).value⟩, sibling⟩ :: upper) t ∧
      Sentinel nil (deleteCopy T z.addr y) := by
  have inside : Focus T upper (.join side c (fill lower t) z sibling) := by
    rw [focus_iff] at focus ⊢
    rw [fill_append, fill_cons] at focus
    exact focus
  have rewritten := inside.rewrite
    (fun node => { node with key := (T.mem y).key, value := (T.mem y).value }) c
    ⟨z.addr, (T.mem y).key, (T.mem y).value⟩ rfl (fun left right up => by cases side <;> rfl)
  rw [deleteCopy_eq T z.addr y apart]
  refine ⟨?_, ?_, sentinel.modify inside.addr_ne_nil _⟩
  · rw [focus_iff] at rewritten ⊢
    rw [fill_append, fill_cons]
    exact rewritten
  · unfold Hooked at hooked ⊢
    rw [Rbtree.nil_modify, Rbtree.mem_modify]
    have same : ∀ cell : Cell, cell.addr = z.addr →
        above T.nil (lower ++ ⟨side, c, cell, sibling⟩ :: upper) =
          above T.nil (lower ++ ⟨side, c, z, sibling⟩ :: upper) := by
      intro cell place
      cases lower with
      | nil => exact place
      | cons frame lower => rfl
    rw [same ⟨z.addr, (T.mem y).key, (T.mem y).value⟩ rfl, ← hooked]
    split <;> rfl

/-- The node of a frame is among the cells of a path that goes through it. -/
theorem mem_pathCells_append (lower upper : List (Frame Cell)) (frame : Frame Cell) :
    frame.item ∈ pathCells (lower ++ frame :: upper) := by
  induction lower with
  | nil => simp [pathCells]
  | cons first lower ih => simp [pathCells, ih]

/-- The state that `rbtree_delete` has when it comes to its fix-up. Either the node itself is
unlinked, or the next node is and its contents have moved to the node. -/
theorem rbtreeDelete_reaches {T : Rbtree} {nil : Addr} {cells : List Cell} {z : Cell}
    (valid : Valid nil cells T) (member : z ∈ cells) :
    ∃ c y low high remaining,
      Leaves (fun fuel => if (T.mem z.addr).left = T.nil ∨ (T.mem z.addr).right = T.nil then
        some z.addr else rbtreeSuccessor fuel T z.addr) y ∧
      ((deleteCopy (deleteUnlink T y (onlyChild T y)) z.addr y).mem y).color = code c ∧
      Unlinked nil remaining (deleteCopy (deleteUnlink T y (onlyChild T y)) z.addr y) c
        (onlyChild T y) ∧
      cells = low ++ z :: high ∧
      ((((T.mem z.addr).left = T.nil ∨ (T.mem z.addr).right = T.nil) ∧ y = z.addr ∧
          remaining = low ++ high) ∨
        ∃ next rest, high = next :: rest ∧ y = next.addr ∧
          remaining = low ++ ⟨z.addr, next.key, next.value⟩ :: rest) := by
  obtain ⟨sentinel, t, shape, redBlack, rfl⟩ := valid
  obtain ⟨path, c, left, right, whole⟩ := exists_path_of_mem member
  have focus : Focus T path (.node c left z right) := by
    rw [focus_iff, whole]
    exact shape
  have leftAt : (T.mem z.addr).left = ptr T.nil left := by rw [focus.stored.1]; rfl
  have rightAt : (T.mem z.addr).right = ptr T.nil right := by rw [focus.stored.1]; rfl
  have leftNil : (T.mem z.addr).left = T.nil ↔ left = .leaf := by
    rw [leftAt]
    have fromLeft : Focus T path (.join .left c left z right) := focus
    exact fromLeft.down.ptr_eq_nil
  have rightNil : (T.mem z.addr).right = T.nil ↔ right = .leaf := by
    rw [rightAt]
    have fromRight : Focus T path (.join .right c right z left) := focus
    exact fromRight.down.ptr_eq_nil
  have order : t.items = (before path ++ left.items) ++ z :: (right.items ++ after path) := by
    rw [← whole, items_fill]
    simp [ColouredTree.items]
  rw [← whole] at redBlack
  by_cases few : left = .leaf ∨ right = .leaf
  · have single : ∃ side child, ColouredTree.node c left z right = .join side c child z .leaf ∧
        child.items = left.items ++ right.items := by
      rcases few with empty | empty
      · exact ⟨.right, right, by rw [empty]; rfl, by simp [empty, ColouredTree.items]⟩
      · exact ⟨.left, left, by rw [empty]; rfl, by simp [empty, ColouredTree.items]⟩
    obtain ⟨side, child, node, children⟩ := single
    rw [node] at focus redBlack
    obtain ⟨height, balanced, accepts⟩ := (redBlack_fill ..).mp redBlack
    rw [ColouredTree.colour_join] at accepts
    have color : (T.mem z.addr).color = code c := by rw [focus.read, nodeOf_color]
    obtain ⟨hole, hooked, kept, same⟩ := focus.deleteUnlink sentinel
    have unlinked := hole.unlinked kept hooked balanced accepts
    rw [nil_deleteUnlink] at unlinked
    have test : (T.mem z.addr).left = T.nil ∨ (T.mem z.addr).right = T.nil := by
      rw [leftNil, rightNil]
      exact few
    have stays : deleteCopy (deleteUnlink T z.addr (ptr T.nil child)) z.addr z.addr =
        deleteUnlink T z.addr (ptr T.nil child) := if_neg (fun differ => differ rfl)
    refine ⟨c, z.addr, before path ++ left.items, right.items ++ after path,
      (fill path child).items, Leaves.of_forall fun fuel => if_pos test, ?_, ?_, order,
      Or.inl ⟨test, rfl, ?_⟩⟩
    · rw [focus.onlyChild, stays, same, color]
    · rw [focus.onlyChild, stays]
      exact unlinked
    · rw [items_fill, children]
      simp
  · have both : left ≠ .leaf ∧ right ≠ .leaf := by tauto
    obtain ⟨lower, d, y, r, inRight, first, found⟩ := rbtreeSuccessor_spec focus both.2
    have deep : fill path (.node c left z right) =
        fill (lower ++ ⟨.right, c, z, left⟩ :: path) (.join .right d r y .leaf) := by
      rw [fill_append, fill_cons, inRight]
      rfl
    have atY : Focus T (lower ++ ⟨.right, c, z, left⟩ :: path) (.join .right d r y .leaf) := by
      rw [focus_iff, ← deep, ← focus_iff]
      exact focus
    rw [deep] at redBlack
    obtain ⟨height, balanced, accepts⟩ := (redBlack_fill ..).mp redBlack
    rw [ColouredTree.colour_join] at accepts
    have color : (T.mem y.addr).color = code d := by rw [atY.read, nodeOf_color]
    have key : (T.mem y.addr).key = y.key := by rw [atY.read, nodeOf_key]
    have value : (T.mem y.addr).value = y.value := by rw [atY.read, nodeOf_value]
    have apart : y.addr ≠ z.addr := by
      have cells := (items_join_perm .right d r .leaf y).append_right
        (pathCells (lower ++ ⟨.right, c, z, left⟩ :: path))
      have unique := (cells.map Cell.addr).nodup_iff.mp atY.distinct
      rw [List.cons_append, List.map_cons, List.nodup_cons] at unique
      intro clash
      have listed := List.mem_map_of_mem (f := Cell.addr)
        (mem_pathCells_append lower path ⟨.right, c, z, left⟩)
      rw [List.map_append, List.mem_append, clash, not_or] at unique
      exact unique.1.2 listed
    obtain ⟨hole, hooked, kept, same⟩ := atY.deleteUnlink sentinel
    obtain ⟨copied, hookedCopy, keptCopy⟩ := hole.deleteCopy kept hooked apart
    rw [same, key, value] at copied hookedCopy
    have acceptsCopy := accepts_congr lower path .right c z ⟨z.addr, y.key, y.value⟩ left d height
      accepts
    have unlinked := copied.unlinked keptCopy hookedCopy balanced acceptsCopy
    rw [keptCopy.same.trans sentinel.same.symm] at unlinked
    have next : right.items ++ after path = y :: (r.items ++ (after lower ++ after path)) := by
      rw [inRight, items_fill, first]
      simp [ColouredTree.items]
    have test : ¬ ((T.mem z.addr).left = T.nil ∨ (T.mem z.addr).right = T.nil) := by
      rw [leftNil, rightNil]
      exact few
    refine ⟨d, y.addr, before path ++ left.items, right.items ++ after path,
      (fill (lower ++ ⟨.right, c, ⟨z.addr, y.key, y.value⟩, left⟩ :: path) r).items, ?_, ?_, ?_,
      order, Or.inr ⟨y, _, next, rfl, ?_⟩⟩
    · simp only [if_neg test]
      exact found
    · rw [atY.onlyChild, deleteCopy_eq _ _ _ apart, Rbtree.mem_modify, if_neg apart, same, color]
    · rw [atY.onlyChild]
      exact unlinked
    · rw [items_fill, before_append, after_append]
      simp [before, after, first, List.append_assoc]

/-- `rbtree_delete` of a node of the tree returns. Either the node itself is unlinked, or
the next node is and its contents move to the node. -/
theorem rbtreeDelete_spec {T : Rbtree} {nil : Addr} {cells : List Cell} {z : Cell}
    (valid : Valid nil cells T) (member : z ∈ cells) :
    ∃ T' y low high, Leaves (fun fuel => rbtreeDelete fuel T z.addr) (T', y) ∧
      cells = low ++ z :: high ∧
      ((((T.mem z.addr).left = T.nil ∨ (T.mem z.addr).right = T.nil) ∧ y = z.addr ∧
          Valid nil (low ++ high) T') ∨
        ∃ next rest, high = next :: rest ∧ y = next.addr ∧
          Valid nil (low ++ ⟨z.addr, next.key, next.value⟩ :: rest) T') := by
  obtain ⟨c, y, low, high, remaining, chosen, color, unlinked, split, outcome⟩ :=
    rbtreeDelete_reaches valid member
  obtain ⟨T', leaves, valid'⟩ := unlinked.fixed
  rw [← color] at leaves
  refine ⟨T', y, low, high, chosen.bind (leaves.map fun T => (T, y)), split, ?_⟩
  rcases outcome with ⟨few, place, rfl⟩ | ⟨next, rest, rfl, place, rfl⟩
  · exact Or.inl ⟨few, place, valid'⟩
  · exact Or.inr ⟨next, rest, rfl, place, valid'⟩

end BackendCpp.RbtreeC
