import BackendCpp.RbtreeC.Program

/-!
# Trees that the memory spells out

A cell is an address with the key and the value stored there. `Stored T parent t` says
that the memory of `T` holds the nodes of the tree `t` of cells with all their pointers,
the root of `t` pointing up to `parent`; `Hung T path hole` says the same of the nodes of a
path whose hole is pointed at by `hole`. `Shape T t` is the whole: the memory reachable
from `T->root` is exactly the tree `t`, on distinct addresses other than the sentinel.
Every primitive write of the program has one lemma here that says how the shape changes.
-/

namespace BackendCpp.RbtreeC

open BackendCpp.Library

/-- An address with the contents that an insertion put there. -/
structure Cell where
  /-- Address of the node. -/
  addr : Addr
  /-- Key stored there. -/
  key : Int
  /-- Value stored there. -/
  value : Addr
  deriving DecidableEq

/-- The byte that stands for a colour. -/
def code : Colour → UInt8
  | .red => RED
  | .black => BLACK

/-- Only red has the byte of red. -/
@[simp] theorem code_eq_red {c : Colour} : code c = RED ↔ c = .red := by
  cases c <;> decide

/-- Only black has the byte of black. -/
@[simp] theorem code_eq_black {c : Colour} : code c = BLACK ↔ c = .black := by
  cases c <;> decide

/-- The pointer to a tree: its root, or the sentinel. -/
def ptr (nil : Addr) : ColouredTree Cell → Addr
  | .leaf => nil
  | .node _ _ cell _ => cell.addr

/-- The pointer to the node above a hole: its innermost frame, or the sentinel. -/
def above (nil : Addr) : List (Frame Cell) → Addr
  | [] => nil
  | frame :: _ => frame.item.addr

/-- The pointer to a leaf is the sentinel. -/
@[simp] theorem ptr_leaf (nil : Addr) : ptr nil .leaf = nil := rfl

/-- The pointer to a node is its address. -/
@[simp] theorem ptr_join (nil : Addr) (side : Side) (c : Colour) (near far : ColouredTree Cell)
    (cell : Cell) : ptr nil (.join side c near cell far) = cell.addr := by
  cases side <;> rfl

/-- Above the root stands the sentinel. -/
@[simp] theorem above_nil (nil : Addr) : above nil [] = nil := rfl

/-- Above a hole stands the node of its frame. -/
@[simp] theorem above_cons (nil : Addr) (frame : Frame Cell) (path : List (Frame Cell)) :
    above nil (frame :: path) = frame.item.addr := rfl

/-- The node that a cell becomes when its children on `side` and on the other side are
`near` and `far`. -/
def nodeOf (side : Side) (c : Colour) (near far parent : Addr) (cell : Cell) : RbtreeNode :=
  match side with
  | .left => ⟨code c, far, near, parent, cell.key, cell.value⟩
  | .right => ⟨code c, near, far, parent, cell.key, cell.value⟩

section nodeOf

variable (side : Side) (c : Colour) (near far parent : Addr) (cell : Cell)

/-- The node has the byte of its colour. -/
@[simp] theorem nodeOf_color : (nodeOf side c near far parent cell).color = code c := by
  cases side <;> rfl

/-- The node points at its parent. -/
@[simp] theorem nodeOf_parent : (nodeOf side c near far parent cell).parent = parent := by
  cases side <;> rfl

/-- The node has the key of the cell. -/
@[simp] theorem nodeOf_key : (nodeOf side c near far parent cell).key = cell.key := by
  cases side <;> rfl

/-- The node has the value of the cell. -/
@[simp] theorem nodeOf_value : (nodeOf side c near far parent cell).value = cell.value := by
  cases side <;> rfl

/-- The child on `side` is the near one. -/
@[simp] theorem nodeOf_child : (nodeOf side c near far parent cell).child side = near := by
  cases side <;> rfl

/-- The child on the other side is the far one. -/
@[simp] theorem nodeOf_child_flip :
    (nodeOf side c near far parent cell).child side.flip = far := by
  cases side <;> rfl

/-- Painting the node changes the colour. -/
theorem nodeOf_withColor (d : Colour) : (nodeOf side c near far parent cell).withColor (code d) =
    nodeOf side d near far parent cell := by
  cases side <;> rfl

/-- Hanging the node elsewhere changes the parent. -/
theorem nodeOf_withParent (up : Addr) : (nodeOf side c near far parent cell).withParent up =
    nodeOf side c near far up cell := by
  cases side <;> rfl

/-- Setting the child on `side` changes the near one. -/
theorem nodeOf_withChild (child : Addr) : (nodeOf side c near far parent cell).withChild side child =
    nodeOf side c child far parent cell := by
  cases side <;> rfl

/-- Setting the child on the other side changes the far one. -/
theorem nodeOf_withChild_flip (child : Addr) :
    (nodeOf side c near far parent cell).withChild side.flip child =
      nodeOf side c near child parent cell := by
  cases side <;> rfl

/-- The test on one side that replaces a child finds the side on which the child is. -/
theorem nodeOf_replace (tested : Side) (child : Addr) (different : near ≠ far) :
    (nodeOf side c near far parent cell).withChild
      (if near = (nodeOf side c near far parent cell).child tested then tested else tested.flip)
      child = nodeOf side c child far parent cell := by
  by_cases same : side = tested
  · subst same
    rw [nodeOf_child, if_pos rfl, nodeOf_withChild]
  · have other := Side.eq_flip (Ne.symm same)
    subst other
    rw [nodeOf_child_flip, if_neg different, Side.flip_flip, nodeOf_withChild]

/-- The two children may be named from either side. -/
theorem nodeOf_flip : nodeOf side.flip c near far parent cell =
    nodeOf side c far near parent cell := by
  cases side <;> rfl

end nodeOf

/-- The memory holds the nodes of a tree whose root points up to `parent`. -/
def Stored (T : Rbtree) (parent : Addr) : ColouredTree Cell → Prop
  | .leaf => True
  | .node c left cell right =>
    T.mem cell.addr = nodeOf .left c (ptr T.nil left) (ptr T.nil right) parent cell ∧
      Stored T cell.addr left ∧ Stored T cell.addr right

/-- The memory holds the nodes of a path whose hole is pointed at by `hole`. -/
def Hung (T : Rbtree) : List (Frame Cell) → Addr → Prop
  | [], hole => T.root = hole
  | frame :: path, hole =>
    T.mem frame.item.addr = nodeOf frame.side frame.colour hole (ptr T.nil frame.sibling)
        (above T.nil path) frame.item ∧
      Stored T frame.item.addr frame.sibling ∧ Hung T path frame.item.addr

/-- The memory reachable from the root is the given tree: its nodes are stored with all
their pointers, at distinct addresses that are not the sentinel's. -/
structure Shape (T : Rbtree) (t : ColouredTree Cell) : Prop where
  /-- The header points at the root of the tree. -/
  root : T.root = ptr T.nil t
  /-- The nodes are stored; the root points up to the sentinel. -/
  stored : Stored T T.nil t
  /-- No two nodes share an address. -/
  distinct : (t.items.map Cell.addr).Nodup
  /-- The sentinel is no node of the tree. -/
  sentinel : T.nil ∉ t.items.map Cell.addr

/-- Storage of a node, from either side. -/
theorem stored_join {T : Rbtree} {parent : Addr} {side : Side} {c : Colour}
    {near far : ColouredTree Cell} {cell : Cell} :
    Stored T parent (.join side c near cell far) ↔
      T.mem cell.addr = nodeOf side c (ptr T.nil near) (ptr T.nil far) parent cell ∧
        Stored T cell.addr near ∧ Stored T cell.addr far := by
  cases side with
  | left => exact Iff.rfl
  | right =>
    rw [show (Side.right) = Side.left.flip from rfl, nodeOf_flip]
    simp only [ColouredTree.join, Side.flip, Stored]
    tauto

/-- The cells of a path, innermost frame first. -/
def pathCells : List (Frame Cell) → List Cell
  | [] => []
  | frame :: path => frame.item :: frame.sibling.items ++ pathCells path

/-- The cells of a node, the node itself first. -/
theorem items_join_perm (side : Side) (c : Colour) (near far : ColouredTree Cell) (cell : Cell) :
    (ColouredTree.join side c near cell far).items.Perm (cell :: (near.items ++ far.items)) := by
  cases side with
  | left => exact List.perm_middle
  | right => exact List.perm_middle.trans (List.Perm.cons _ List.perm_append_comm)

/-- The cells of a filled path are those of the subtree and of the path. -/
theorem items_fill_perm (path : List (Frame Cell)) (t : ColouredTree Cell) :
    (fill path t).items.Perm (t.items ++ pathCells path) := by
  induction path generalizing t with
  | nil => simp [pathCells]
  | cons frame path ih =>
    refine (ih _).trans ?_
    have node : (ColouredTree.join frame.side frame.colour t frame.item frame.sibling).items.Perm
        (t.items ++ (frame.item :: frame.sibling.items)) := by
      obtain ⟨side, c, item, sibling⟩ := frame
      cases side with
      | left => exact List.Perm.refl _
      | right =>
        refine List.perm_middle.trans ?_
        refine List.Perm.trans ?_ List.perm_middle.symm
        exact List.Perm.cons _ List.perm_append_comm
    simpa [pathCells] using List.Perm.append_right (pathCells path) node

/-- A filled path is stored exactly when the subtree and the path are. -/
theorem stored_fill (T : Rbtree) (path : List (Frame Cell)) (t : ColouredTree Cell) :
    (T.root = ptr T.nil (fill path t) ∧ Stored T T.nil (fill path t)) ↔
      Hung T path (ptr T.nil t) ∧ Stored T (above T.nil path) t := by
  induction path generalizing t with
  | nil => exact Iff.rfl
  | cons frame path ih =>
    rw [fill_cons, ih, stored_join]
    simp only [Hung, ptr_join, above_cons]
    tauto

/-- Storage of a tree depends only on the memory at its own addresses. -/
theorem Stored.congr {T T' : Rbtree} (sameNil : T'.nil = T.nil) {t : ColouredTree Cell} {parent : Addr}
    (same : ∀ cell ∈ t.items, T'.mem cell.addr = T.mem cell.addr)
    (stored : Stored T parent t) : Stored T' parent t := by
  induction t generalizing parent with
  | leaf => trivial
  | node c left cell right ihLeft ihRight =>
    obtain ⟨node, storedLeft, storedRight⟩ := stored
    refine ⟨?_, ?_, ?_⟩
    · rw [same cell (by simp [ColouredTree.items]), sameNil]
      exact node
    · exact ihLeft (fun other member => same other (by simp [ColouredTree.items, member])) storedLeft
    · exact ihRight (fun other member => same other (by simp [ColouredTree.items, member])) storedRight

/-- Storage of a path depends only on the header and the memory at its own addresses. -/
theorem Hung.congr {T T' : Rbtree} (sameNil : T'.nil = T.nil) (sameRoot : T'.root = T.root)
    {path : List (Frame Cell)} {hole : Addr}
    (same : ∀ cell ∈ pathCells path, T'.mem cell.addr = T.mem cell.addr)
    (hung : Hung T path hole) : Hung T' path hole := by
  induction path generalizing hole with
  | nil => exact sameRoot.trans hung
  | cons frame path ih =>
    obtain ⟨node, storedSibling, hungPath⟩ := hung
    refine ⟨?_, ?_, ?_⟩
    · rw [same frame.item (by simp [pathCells]), sameNil]
      exact node
    · exact storedSibling.congr sameNil fun other member => same other (by simp [pathCells, member])
    · exact ih (fun other member => same other (by simp [pathCells, member])) hungPath

/-- A pointer to a tree is the sentinel or the address of one of its cells. -/
theorem ptr_mem (nil : Addr) (t : ColouredTree Cell) :
    ptr nil t = nil ∨ ptr nil t ∈ t.items.map Cell.addr := by
  cases t with
  | leaf => exact Or.inl rfl
  | node c left cell right => exact Or.inr (by simp [ptr, ColouredTree.items])

/-- The pointer above a hole is the sentinel or the address of a cell of the path. -/
theorem above_mem (nil : Addr) (path : List (Frame Cell)) :
    above nil path = nil ∨ above nil path ∈ (pathCells path).map Cell.addr := by
  cases path with
  | nil => exact Or.inl rfl
  | cons frame path => exact Or.inr (by simp [pathCells])

/-- A pointer that is the sentinel or one of some addresses is not an address apart from
all of these. -/
theorem ne_of_sentinel_or_mem {nil q a : Addr} {addrs : List Addr} (either : q = nil ∨ q ∈ addrs)
    (notNil : nil ≠ a) (outside : a ∉ addrs) : q ≠ a := by
  rintro rfl
  rcases either with same | member
  · exact notNil same.symm
  · exact outside member

/-- An address apart from all of some addresses meets a pointer that is the sentinel or one
of them only at the sentinel. -/
theorem sentinel_of_eq {nil q a : Addr} {addrs : List Addr} (either : q = nil ∨ q ∈ addrs)
    (apart : ∀ b ∈ addrs, a ≠ b) (same : a = q) : a = nil := by
  rcases either with isNil | member
  · exact same.trans isNil
  · exact absurd same (apart q member)

/-- A path points at another subtree once the pointer in its innermost node, or in the
header, is rewritten and nothing else of the path is. -/
theorem Hung.repoint {T T' : Rbtree} (sameNil : T'.nil = T.nil) {path : List (Frame Cell)}
    {old new : Addr} (distinct : ((pathCells path).map Cell.addr).Nodup)
    (header : T'.root = if path = [] then new else T.root)
    (head : ∀ frame rest, path = frame :: rest →
      T'.mem frame.item.addr = (T.mem frame.item.addr).withChild frame.side new)
    (same : ∀ cell ∈ pathCells path, cell.addr ≠ above T.nil path →
      T'.mem cell.addr = T.mem cell.addr)
    (hung : Hung T path old) : Hung T' path new := by
  cases path with
  | nil => simpa [Hung] using header
  | cons frame path =>
    obtain ⟨node, storedSibling, hungPath⟩ := hung
    simp only [pathCells, List.cons_append, List.map_cons, List.nodup_cons] at distinct
    have apart : ∀ cell ∈ frame.sibling.items ++ pathCells path,
        T'.mem cell.addr = T.mem cell.addr := by
      intro cell member
      refine same cell (by simpa [pathCells] using Or.inr (List.mem_append.mp member)) ?_
      intro clash
      have listed := List.mem_map_of_mem (f := Cell.addr) member
      rw [clash] at listed
      exact distinct.1 listed
    refine ⟨?_, ?_, ?_⟩
    · rw [head frame path rfl, node, nodeOf_withChild, sameNil]
    · exact storedSibling.congr sameNil fun cell member => apart cell (by simp [member])
    · refine hungPath.congr sameNil (by simpa using header) fun cell member => ?_
      exact apart cell (by simp [member])

/-- The same for the way `replaceChild` finds the pointer: a test of one side of the node
above, or of the header. -/
theorem Hung.replace {T T' : Rbtree} (sameNil : T'.nil = T.nil) {path : List (Frame Cell)}
    {old new : Addr} (side : Side) (distinct : ((pathCells path).map Cell.addr).Nodup)
    (sentinel : T.nil ∉ (pathCells path).map Cell.addr) (notNil : T.nil ≠ old)
    (outside : old ∉ (pathCells path).map Cell.addr)
    (header : T'.root = if above T.nil path = T.nil then new else T.root)
    (parent : above T.nil path ≠ T.nil → T'.mem (above T.nil path) =
      (T.mem (above T.nil path)).withChild
        (if old = (T.mem (above T.nil path)).child side then side else side.flip) new)
    (same : ∀ cell ∈ pathCells path, cell.addr ≠ above T.nil path →
      T'.mem cell.addr = T.mem cell.addr)
    (hung : Hung T path old) : Hung T' path new := by
  cases path with
  | nil => exact hung.repoint sameNil distinct (by simpa using header) (by simp) same
  | cons frame path =>
    simp only [pathCells, List.cons_append, List.map_cons, List.map_append, List.mem_cons,
      List.mem_append, not_or] at sentinel outside
    have inner : frame.item.addr ≠ T.nil := fun clash => sentinel.1 clash.symm
    refine hung.repoint sameNil distinct (by simpa [inner] using header) ?_ same
    rintro first rest same
    obtain ⟨rfl, rfl⟩ := List.cons.inj same
    have sibling : old ≠ ptr T.nil frame.sibling :=
      (ne_of_sentinel_or_mem (ptr_mem T.nil frame.sibling) notNil outside.2.1).symm
    rw [above_cons] at parent
    rw [parent inner, hung.1, nodeOf_replace _ _ _ _ _ _ _ _ sibling, nodeOf_withChild]

/-- The stored root of a tree may be redirected to another parent. -/
theorem Stored.reparent {T T' : Rbtree} (sameNil : T'.nil = T.nil) {t : ColouredTree Cell}
    {old new : Addr} (distinct : (t.items.map Cell.addr).Nodup)
    (root : t ≠ .leaf → T'.mem (ptr T.nil t) = (T.mem (ptr T.nil t)).withParent new)
    (same : ∀ cell ∈ t.items, cell.addr ≠ ptr T.nil t → T'.mem cell.addr = T.mem cell.addr)
    (stored : Stored T old t) : Stored T' new t := by
  cases t with
  | leaf => trivial
  | node c left cell right =>
    obtain ⟨node, storedLeft, storedRight⟩ := stored
    have unique := ((items_join_perm .left c left right cell).map Cell.addr).nodup_iff.mp distinct
    have apart : ∀ other ∈ left.items ++ right.items, T'.mem other.addr = T.mem other.addr := by
      intro other member
      have inTree : other ∈ (ColouredTree.node c left cell right).items := by
        simp only [ColouredTree.items, List.mem_append, List.mem_cons] at member ⊢
        tauto
      refine same other inTree ?_
      intro clash
      have listed := List.mem_map_of_mem (f := Cell.addr) member
      rw [clash] at listed
      exact (List.nodup_cons.mp unique).1 listed
    refine ⟨?_, ?_, ?_⟩
    · have changed := root (by simp)
      simp only [ptr] at changed
      rw [changed, node, nodeOf_withParent, sameNil]
    · exact storedLeft.congr sameNil fun other member => apart other (by simp [member])
    · exact storedRight.congr sameNil fun other member => apart other (by simp [member])

/-- The shape of a filled path, seen from the hole. -/
structure Focus (T : Rbtree) (path : List (Frame Cell)) (t : ColouredTree Cell) : Prop where
  /-- The path is stored and its hole points at the subtree. -/
  hung : Hung T path (ptr T.nil t)
  /-- The subtree is stored and points up to the path. -/
  stored : Stored T (above T.nil path) t
  /-- No two nodes share an address. -/
  distinct : ((t.items ++ pathCells path).map Cell.addr).Nodup
  /-- The sentinel is no node. -/
  sentinel : T.nil ∉ (t.items ++ pathCells path).map Cell.addr

/-- The shape of a filled path is the same seen from the root and from the hole. -/
theorem focus_iff {T : Rbtree} {path : List (Frame Cell)} {t : ColouredTree Cell} :
    Focus T path t ↔ Shape T (fill path t) := by
  have cells := (items_fill_perm path t).map Cell.addr
  have stored := stored_fill T path t
  constructor
  · intro focus
    obtain ⟨root, all⟩ := stored.mpr ⟨focus.hung, focus.stored⟩
    exact ⟨root, all, cells.nodup_iff.mpr focus.distinct, fun member =>
      focus.sentinel (cells.mem_iff.mp member)⟩
  · intro shape
    obtain ⟨hung, inner⟩ := stored.mp ⟨shape.root, shape.stored⟩
    exact ⟨hung, inner, cells.nodup_iff.mp shape.distinct, fun member =>
      shape.sentinel (cells.mem_iff.mpr member)⟩

/-- The node in the focus, as it is stored. -/
theorem Focus.read {T : Rbtree} {path : List (Frame Cell)} {side : Side} {c : Colour}
    {near far : ColouredTree Cell} {cell : Cell} (focus : Focus T path (.join side c near cell far)) :
    T.mem cell.addr =
      nodeOf side c (ptr T.nil near) (ptr T.nil far) (above T.nil path) cell :=
  (stored_join.mp focus.stored).1

/-- The node right above the focus, as it is stored. -/
theorem Focus.read_above {T : Rbtree} {path : List (Frame Cell)} {frame : Frame Cell}
    {t : ColouredTree Cell} (focus : Focus T (frame :: path) t) :
    T.mem frame.item.addr = nodeOf frame.side frame.colour (ptr T.nil t)
      (ptr T.nil frame.sibling) (above T.nil path) frame.item :=
  focus.hung.1

/-- The focus may move up to the parent. -/
theorem Focus.up {T : Rbtree} {path : List (Frame Cell)} {frame : Frame Cell}
    {t : ColouredTree Cell} (focus : Focus T (frame :: path) t) :
    Focus T path (.join frame.side frame.colour t frame.item frame.sibling) := by
  rw [focus_iff] at focus ⊢
  exact focus

/-- The focus may move down to a child. -/
theorem Focus.down {T : Rbtree} {path : List (Frame Cell)} {side : Side} {c : Colour}
    {near far : ColouredTree Cell} {cell : Cell} (focus : Focus T path (.join side c near cell far)) :
    Focus T (⟨side, c, cell, far⟩ :: path) near := by
  rw [focus_iff] at focus ⊢
  exact focus

/-- The focus may move to the sibling. -/
theorem Focus.across {T : Rbtree} {path : List (Frame Cell)} {side : Side} {c : Colour}
    {sibling t : ColouredTree Cell} {cell : Cell}
    (focus : Focus T (⟨side, c, cell, sibling⟩ :: path) t) :
    Focus T (⟨side.flip, c, cell, t⟩ :: path) sibling := by
  have whole := focus.up
  simp only [← ColouredTree.join_flip side] at whole
  exact whole.down

/-- A pointer to a tree in focus is the sentinel only when the tree is a leaf. -/
theorem Focus.ptr_eq_nil {T : Rbtree} {path : List (Frame Cell)} {t : ColouredTree Cell}
    (focus : Focus T path t) : ptr T.nil t = T.nil ↔ t = .leaf := by
  cases t with
  | leaf => simp
  | node c left cell right =>
    have apart := focus.sentinel
    simp only [List.map_append, ColouredTree.items, List.map_cons, List.mem_append,
      List.mem_cons, not_or] at apart
    simp only [ptr, reduceCtorEq, iff_false]
    exact fun clash => apart.1.2.1 clash.symm

/-- The node in the focus is not the sentinel. -/
theorem Focus.addr_ne_nil {T : Rbtree} {path : List (Frame Cell)} {side : Side} {c : Colour}
    {near far : ColouredTree Cell} {cell : Cell} (focus : Focus T path (.join side c near cell far)) :
    cell.addr ≠ T.nil := by
  have apart := focus.ptr_eq_nil
  rw [ptr_join] at apart
  intro clash
  have leaf := apart.mp clash
  cases side <;> simp [ColouredTree.join] at leaf

/-- The sentinel has kept its address and its colour. -/
structure Sentinel (nil : Addr) (T : Rbtree) : Prop where
  /-- The header points at it. -/
  same : T.nil = nil
  /-- It is black. -/
  black : (T.mem nil).color = BLACK

/-- The colour byte at a pointer to a tree in focus. -/
theorem Focus.color {T : Rbtree} {path : List (Frame Cell)} {t : ColouredTree Cell} {nil : Addr}
    (focus : Focus T path t) (sentinel : Sentinel nil T) :
    (T.mem (ptr T.nil t)).color = code t.colour := by
  cases t with
  | leaf =>
    rw [ptr_leaf, sentinel.same, sentinel.black]
    rfl
  | node c left cell right =>
    rw [show ptr T.nil (.node c left cell right) = cell.addr from rfl, focus.stored.1, nodeOf_color]
    rfl

/-- The parent pointer of a node in focus. -/
theorem Focus.parent {T : Rbtree} {path : List (Frame Cell)} {t : ColouredTree Cell}
    (focus : Focus T path t) (inner : t ≠ .leaf) :
    (T.mem (ptr T.nil t)).parent = above T.nil path := by
  cases t with
  | leaf => exact absurd rfl inner
  | node c left cell right =>
    rw [show ptr T.nil (.node c left cell right) = cell.addr from rfl, focus.stored.1, nodeOf_parent]

/-- The pointers to the hole and to its sibling differ, when one of the two is an inner
node. -/
theorem Focus.ptr_ne_sibling {T : Rbtree} {path : List (Frame Cell)} {frame : Frame Cell}
    {t : ColouredTree Cell} (focus : Focus T (frame :: path) t)
    (inner : t ≠ .leaf ∨ frame.sibling ≠ .leaf) :
    ptr T.nil t ≠ ptr T.nil frame.sibling := by
  have unique := focus.distinct
  simp only [pathCells, List.map_append, List.map_cons, List.cons_append,
    List.nodup_append] at unique
  have apart := unique.2.2
  have notBoth : ¬ (t = .leaf ∧ frame.sibling = .leaf) := by tauto
  intro clash
  rcases ptr_mem T.nil t with isNil | member
  · exact notBoth ⟨focus.ptr_eq_nil.mp isNil, focus.across.ptr_eq_nil.mp (clash ▸ isNil)⟩
  · rcases ptr_mem T.nil frame.sibling with isNil | siblingMember
    · exact notBoth ⟨focus.ptr_eq_nil.mp (clash.trans isNil), focus.across.ptr_eq_nil.mp isNil⟩
    · exact apart _ member _ (by simp [siblingMember]) clash

/-- The test for the left child finds the side of the hole, when the hole or its sibling is
an inner node. -/
theorem Focus.left_test {T : Rbtree} {path : List (Frame Cell)} {frame : Frame Cell}
    {t : ColouredTree Cell} (focus : Focus T (frame :: path) t)
    (inner : t ≠ .leaf ∨ frame.sibling ≠ .leaf) :
    ptr T.nil t = (T.mem frame.item.addr).left ↔ frame.side = .left := by
  have apart := focus.ptr_ne_sibling inner
  obtain ⟨side, c, cell, sibling⟩ := frame
  rw [focus.read_above]
  cases side with
  | left => exact iff_of_true rfl rfl
  | right => exact iff_of_false apart (by simp)

/-- The parent of the node above the hole is that of the next frame. -/
theorem Focus.grand {T : Rbtree} {frame next : Frame Cell} {up : List (Frame Cell)}
    {t : ColouredTree Cell} (focus : Focus T (frame :: next :: up) t) :
    (T.mem frame.item.addr).parent = next.item.addr := by
  rw [focus.read_above, nodeOf_parent, above_cons]

/-- The test for the left child finds the side of the node above the hole. -/
theorem Focus.father_test {T : Rbtree} {frame next : Frame Cell} {up : List (Frame Cell)}
    {t : ColouredTree Cell} (focus : Focus T (frame :: next :: up) t) :
    frame.item.addr = (T.mem next.item.addr).left ↔ next.side = .left := by
  have test := focus.up.left_test (Or.inl (by simp))
  rw [ptr_join] at test
  exact test

/-- Rewriting the colour or the contents of the node in the focus. -/
theorem Focus.rewrite {T : Rbtree} {path : List (Frame Cell)} {side : Side} {c : Colour}
    {near far : ColouredTree Cell} {cell : Cell} (focus : Focus T path (.join side c near cell far))
    (change : RbtreeNode → RbtreeNode) (d : Colour) (cell' : Cell) (place : cell'.addr = cell.addr)
    (becomes : ∀ left right up,
      change (nodeOf side c left right up cell) = nodeOf side d left right up cell') :
    Focus (T.modify cell.addr change) path (.join side d near cell' far) := by
  obtain ⟨hung, stored, distinct, sentinel⟩ := focus
  obtain ⟨node, storedNear, storedFar⟩ := stored_join.mp stored
  have same := ((items_join_perm side c near far cell).append_right (pathCells path)).map Cell.addr
  have same' := ((items_join_perm side d near far cell').append_right (pathCells path)).map Cell.addr
  have order := same'
  rw [List.cons_append, List.map_cons, place, ← List.map_cons, ← List.cons_append] at order
  have both := same.trans order.symm
  have apart : ∀ other ∈ near.items ++ far.items ++ pathCells path,
      (T.modify cell.addr change).mem other.addr = T.mem other.addr := by
    intro other member
    rw [Rbtree.mem_modify, if_neg]
    intro clash
    have listed := List.mem_map_of_mem (f := Cell.addr) member
    rw [clash] at listed
    have unique := same.nodup_iff.mp distinct
    exact (List.nodup_cons.mp unique).1 listed
  refine ⟨?_, ?_, both.nodup_iff.mp distinct, fun member => sentinel (both.mem_iff.mpr member)⟩
  · rw [ptr_join] at hung ⊢
    rw [place]
    exact hung.congr (T.nil_modify _ _) rfl fun other member => apart other (by simp [member])
  · refine stored_join.mpr ⟨?_, ?_, ?_⟩
    · rw [place, Rbtree.mem_modify, if_pos rfl, node, becomes]
      rfl
    · rw [place]
      exact storedNear.congr (T.nil_modify _ _) fun other member => apart other (by simp [member])
    · rw [place]
      exact storedFar.congr (T.nil_modify _ _) fun other member => apart other (by simp [member])

/-- Painting the node in the focus. -/
theorem Focus.setColor {T : Rbtree} {path : List (Frame Cell)} {side : Side} {c : Colour}
    {near far : ColouredTree Cell} {cell : Cell} (focus : Focus T path (.join side c near cell far))
    (d : Colour) :
    Focus (T.setColor cell.addr (code d)) path (.join side d near cell far) := by
  apply focus.rewrite _ d cell rfl
  intro left right up
  exact nodeOf_withColor ..

/-- Rewriting a node of the tree keeps the sentinel. -/
theorem Sentinel.modify {T : Rbtree} {nil : Addr} (sentinel : Sentinel nil T) {a : Addr}
    (inner : a ≠ T.nil) (change : RbtreeNode → RbtreeNode) : Sentinel nil (T.modify a change) := by
  have apart : nil ≠ a := by
    intro clash
    exact inner (clash.symm.trans sentinel.same.symm)
  refine ⟨sentinel.same, ?_⟩
  rw [Rbtree.mem_modify, if_neg apart, sentinel.black]

/-- Painting a node of the tree keeps the sentinel. -/
theorem Sentinel.setColor {T : Rbtree} {nil : Addr} (sentinel : Sentinel nil T) {a : Addr}
    (inner : a ≠ T.nil) (color : UInt8) : Sentinel nil (T.setColor a color) :=
  sentinel.modify inner _

/-- What a pointer to a tree finds in its parent field is the node above. For an inner node
this is part of the shape; for a leaf it is what the last deletion left in the sentinel. -/
def Hooked (T : Rbtree) (path : List (Frame Cell)) (t : ColouredTree Cell) : Prop :=
  (T.mem (ptr T.nil t)).parent = above T.nil path

/-- A focus is hooked once it is at a leaf. -/
theorem Focus.hooked {T : Rbtree} {path : List (Frame Cell)} {t : ColouredTree Cell}
    (focus : Focus T path t) (leaf : t = .leaf → (T.mem T.nil).parent = above T.nil path) :
    Hooked T path t := by
  by_cases isLeaf : t = .leaf
  · subst isLeaf
    exact leaf rfl
  · exact focus.parent isLeaf

/-- Painting changes no parent field. -/
theorem parent_setColor (T : Rbtree) (a b : Addr) (color : UInt8) :
    ((T.setColor a color).mem b).parent = (T.mem b).parent := by
  rw [Rbtree.mem_setColor]
  split <;> rfl

/-- Painting keeps a pointer hooked. -/
theorem Hooked.setColor {T : Rbtree} {path : List (Frame Cell)} {t : ColouredTree Cell}
    (hooked : Hooked T path t) (a : Addr) (color : UInt8) : Hooked (T.setColor a color) path t := by
  unfold Hooked
  rw [parent_setColor]
  exact hooked

/-- Below a frame the header does not point at the hole. -/
theorem Focus.root_ne {T : Rbtree} {path : List (Frame Cell)} {frame : Frame Cell}
    {t : ColouredTree Cell} (focus : Focus T (frame :: path) t) : ptr T.nil t ≠ T.root := by
  have listed : ∀ {frames : List (Frame Cell)} {first : Frame Cell} {hole : Addr},
      Hung T (first :: frames) hole → T.root ∈ (pathCells (first :: frames)).map Cell.addr := by
    intro frames
    induction frames with
    | nil =>
      intro first hole hung
      have root : T.root = first.item.addr := hung.2.2
      simp [pathCells, root]
    | cons next frames ih =>
      intro first hole hung
      have above := ih hung.2.2
      rw [pathCells, List.map_append]
      exact List.mem_append_right _ above
  have inPath := listed focus.hung
  have unique := focus.distinct
  have outside := focus.sentinel
  rw [List.map_append] at unique outside
  rw [List.mem_append, not_or] at outside
  intro clash
  rcases ptr_mem T.nil t with isNil | member
  · exact outside.2 ((clash.symm.trans isNil) ▸ inPath)
  · exact (List.nodup_append.mp unique).2.2 _ member _ inPath clash

end BackendCpp.RbtreeC
