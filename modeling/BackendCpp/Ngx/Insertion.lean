import BackendCpp.Ngx.Fixups

/-!
# Insertion into the timers' tree

The descent of `ngx_rbtree_insert_value` and of `ngx_rbtree_insert_timer_value` goes left where
the new key is less and right otherwise, so equal keys stay in the order of their insertion.
Nothing is asked of the comparison but that the new key, once it is less than a node, is less
than all nodes after that one; for the timers' comparison, which wraps around, this is not so
for all keys. The new node then comes to stand where an ordered insertion puts it.
-/

namespace BackendCpp.Ngx

open BackendCpp.Library
open RbtreeC (Addr Rbtree RbtreeNode Cell Focus Sentinel Shape RED BLACK ptr above pathCells nodeOf
  InsertInv Valid)

/-- The key that a cell stands for. -/
def ngxKey (cell : Cell) : UInt32 := UInt32.ofNat cell.key.toNat

/-- The cell of a node with the key and the data that the memory holds. -/
def cellOf (T : NgxRbtree) (node : Addr) : Cell :=
  ⟨node, (T.mem node).key.toNat, (T.mem node).data.toNat⟩

/-- The key of a cell is read back. -/
@[simp] theorem ngxKey_cellOf (T : NgxRbtree) (node : Addr) :
    ngxKey (cellOf T node) = (T.mem node).key := by
  simp [ngxKey, cellOf]

/-- The order of the cells that a comparison of keys gives. -/
def Before (less : UInt32 → UInt32 → Bool) (one other : Cell) : Prop :=
  less (ngxKey one) (ngxKey other) = true

instance (less : UInt32 → UInt32 → Bool) : DecidableRel (Before less) := fun one other =>
  inferInstanceAs (Decidable (less (ngxKey one) (ngxKey other) = true))

/-- The cells of a binary tree with a new one linked where the descent ends. -/
def linked (less : UInt32 → UInt32 → Bool) (new : Cell) : ColouredTree Cell → List Cell
  | .leaf => [new]
  | .node _ left cell right =>
    if Before less new cell then linked less new left ++ cell :: right.items
    else left.items ++ cell :: linked less new right

/-- A new cell that is less than one of the cells is less than all after that one. -/
def Consistent (less : UInt32 → UInt32 → Bool) (new : Cell) (cells : List Cell) : Prop :=
  cells.Pairwise fun one other => Before less new one → Before less new other

/-- An ordered insertion goes past cells that are not greater. -/
theorem orderedInsert_append {less : UInt32 → UInt32 → Bool} {new : Cell} {low : List Cell}
    (high : List Cell) (notLess : ∀ cell ∈ low, ¬ Before less new cell) :
    (low ++ high).orderedInsert (Before less) new =
      low ++ high.orderedInsert (Before less) new := by
  induction low with
  | nil => rfl
  | cons cell low ih =>
    have further := ih fun other member => notLess other (List.mem_cons_of_mem _ member)
    rw [List.cons_append, List.orderedInsert_of_not_le (Before less) _
      (notLess cell List.mem_cons_self), further]
    rfl

/-- An ordered insertion ends before cells that are greater. -/
theorem orderedInsert_before {less : UInt32 → UInt32 → Bool} {new : Cell} {low high : List Cell}
    (greater : ∀ cell ∈ high, Before less new cell) :
    (low ++ high).orderedInsert (Before less) new =
      low.orderedInsert (Before less) new ++ high := by
  induction low with
  | nil =>
    cases high with
    | nil => rfl
    | cons cell high =>
      exact List.orderedInsert_cons_of_le (Before less) high (greater cell List.mem_cons_self)
  | cons cell low ih =>
    by_cases here : Before less new cell
    · rw [List.cons_append, List.orderedInsert_cons_of_le (Before less) _ here,
        List.orderedInsert_cons_of_le (Before less) _ here]
      rfl
    · rw [List.cons_append, List.orderedInsert_of_not_le (Before less) _ here, ih,
        List.orderedInsert_of_not_le (Before less) _ here]
      rfl

/-- For a consistent comparison the descent ends where an ordered insertion does. -/
theorem linked_eq {less : UInt32 → UInt32 → Bool} {new : Cell} {t : ColouredTree Cell}
    (consistent : Consistent less new t.items) :
    linked less new t = t.items.orderedInsert (Before less) new := by
  induction t with
  | leaf => rfl
  | node c left cell right ihLeft ihRight =>
    unfold Consistent at consistent
    simp only [ColouredTree.items, List.pairwise_append, List.pairwise_cons] at consistent
    obtain ⟨consistentLeft, ⟨cellRight, consistentRight⟩, leftRest⟩ := consistent
    unfold linked
    by_cases goesLeft : Before less new cell
    · have greater : ∀ other ∈ cell :: right.items, Before less new other := by
        intro other member
        rcases List.mem_cons.mp member with rfl | inRight
        · exact goesLeft
        · exact cellRight other inRight goesLeft
      rw [if_pos goesLeft, ihLeft consistentLeft]
      exact (orderedInsert_before greater).symm
    · have notLess : ∀ other ∈ left.items ++ [cell], ¬ Before less new other := by
        intro other member less'
        rw [List.mem_append, List.mem_singleton] at member
        rcases member with inLeft | rfl
        · exact goesLeft (leftRest other inLeft cell List.mem_cons_self less')
        · exact goesLeft less'
      have past := orderedInsert_append right.items notLess
      rw [if_neg goesLeft, ihRight consistentRight]
      simpa [ColouredTree.items] using past.symm

/-- The key stored at a cell of a tree in focus. -/
theorem focus_key {T : NgxRbtree} {path : List (Frame Cell)} {side : Side} {c : Colour}
    {near far : ColouredTree Cell} {cell : Cell}
    (focus : Focus (recode T) path (.join side c near cell far)) :
    (T.mem cell.addr).key = ngxKey cell := by
  have key : ((recode T).mem cell.addr).key = cell.key := by
    rw [focus.read, RbtreeC.nodeOf_key]
  rw [recode_key] at key
  simp [ngxKey, ← key]

/-- The descent below a focus at a node ends at a hole. -/
theorem insertDescent_spec {T : NgxRbtree} (less : UInt32 → UInt32 → Bool) {node : Addr} {new : Cell}
    (newKey : (T.mem node).key = ngxKey new) {t : ColouredTree Cell} {path : List (Frame Cell)}
    (focus : Focus (recode T) path t) (inner : t ≠ .leaf) :
    ∃ frame lower, fill (frame :: lower) .leaf = t ∧
      before (frame :: lower) ++ new :: after (frame :: lower) = linked less new t ∧
      Leaves (fun fuel => loop (insertValuePass less T node) fuel (ptr T.sentinel t))
        (frame.item.addr, frame.side) := by
  induction t generalizing path with
  | leaf => exact absurd rfl inner
  | node c left cell right ihLeft ihRight =>
    have fromLeft : Focus (recode T) path (.join .left c left cell right) := focus
    have fromRight : Focus (recode T) path (.join .right c right cell left) := focus
    have keyAt : (T.mem cell.addr).key = ngxKey cell := focus_key fromLeft
    have leftAt : (T.mem cell.addr).left = ptr T.sentinel left := by
      rw [← recode_left, focus.stored.1]
      rfl
    have rightAt : (T.mem cell.addr).right = ptr T.sentinel right := by
      rw [← recode_right, focus.stored.1]
      rfl
    unfold linked
    by_cases goesLeft : Before less new cell
    · have chosen : (if less (T.mem node).key (T.mem cell.addr).key = true then Side.left
          else Side.right) = .left := by
        rw [newKey, keyAt]
        exact if_pos goesLeft
      rw [if_pos goesLeft]
      by_cases empty : left = .leaf
      · subst empty
        refine ⟨⟨.left, c, cell, right⟩, [], rfl, by simp [before, after, linked], leaves_now ?_⟩
        show insertValuePass less T node cell.addr = _
        unfold insertValuePass
        rw [chosen]
        exact if_pos leftAt
      · obtain ⟨frame, lower, whole, order, leaves⟩ := ihLeft fromLeft.down empty
        refine ⟨frame, lower ++ [⟨.left, c, cell, right⟩], ?_, ?_, leaves_next ?_ leaves⟩
        · rw [← List.cons_append, fill_append, whole]
          rfl
        · rw [← List.cons_append, before_append, after_append, ← order]
          simp [before, after]
        · have further : ¬ (T.mem cell.addr).left = T.sentinel := by
            rw [leftAt]
            exact fun clash => empty (fromLeft.down.ptr_eq_nil.mp clash)
          show insertValuePass less T node cell.addr = _
          unfold insertValuePass
          rw [chosen]
          exact (if_neg further).trans (congrArg Sum.inl leftAt)
    · have chosen : (if less (T.mem node).key (T.mem cell.addr).key = true then Side.left
          else Side.right) = .right := by
        rw [newKey, keyAt]
        exact if_neg goesLeft
      rw [if_neg goesLeft]
      by_cases empty : right = .leaf
      · subst empty
        refine ⟨⟨.right, c, cell, left⟩, [], rfl, by simp [before, after, linked], leaves_now ?_⟩
        show insertValuePass less T node cell.addr = _
        unfold insertValuePass
        rw [chosen]
        exact if_pos rightAt
      · obtain ⟨frame, lower, whole, order, leaves⟩ := ihRight fromRight.down empty
        refine ⟨frame, lower ++ [⟨.right, c, cell, left⟩], ?_, ?_, leaves_next ?_ leaves⟩
        · rw [← List.cons_append, fill_append, whole]
          rfl
        · rw [← List.cons_append, before_append, after_append, ← order]
          simp [before, after]
        · have further : ¬ (T.mem cell.addr).right = T.sentinel := by
            rw [rightAt]
            exact fun clash => empty (fromRight.down.ptr_eq_nil.mp clash)
          show insertValuePass less T node cell.addr = _
          unfold insertValuePass
          rw [chosen]
          exact (if_neg further).trans (congrArg Sum.inl rightAt)

/-- The memory after `node` was linked below `temp`, in the coding of
`1. Data_structure/rbtree.c`. -/
theorem mem_insertLink (T : NgxRbtree) {node temp : Addr} (p : Side) (apart : temp ≠ node)
    (below : node ≠ T.root) (a : Addr) :
    (recode (insertLink T node temp p)).mem a =
      if a = node then ⟨RED, T.sentinel, T.sentinel, temp, (T.mem node).key.toNat,
        (T.mem node).data.toNat⟩
      else if a = temp then ((recode T).mem a).withChild p node
      else (recode T).mem a := by
  have linked : recode (insertLink T node temp p) =
      (((((recode T).setChild temp p node).setParent node temp).setChild node .left
        T.sentinel).setChild node .right T.sentinel).setColor node RED := by
    unfold insertLink
    dsimp only
    rw [recode_ngxRbtRed, recode_setChild, recode_setChild,
      recode_setParent (T.setChild temp p node) node temp below, recode_setChild]
    rfl
  rw [linked, Rbtree.mem_setColor, Rbtree.mem_setChild, Rbtree.mem_setChild, Rbtree.mem_setParent,
    Rbtree.mem_setChild]
  by_cases here : a = node
  · subst here
    simp only [if_pos, if_neg apart.symm]
    rfl
  · simp only [if_neg here]

/-- Linking a fresh node into the hole at which the descent ended. -/
theorem focus_insertLink {T : NgxRbtree} {frame : Frame Cell} {lower : List (Frame Cell)}
    (focus : Focus (recode T) (frame :: lower) .leaf) {node : Addr} (inner : T.sentinel ≠ node)
    (fresh : node ∉ (pathCells (frame :: lower)).map Cell.addr) (below : node ≠ T.root) :
    Focus (recode (insertLink T node frame.item.addr frame.side)) (frame :: lower)
      (.node .red .leaf (cellOf T node) .leaf) := by
  have apart : frame.item.addr ≠ node := by
    intro clash
    exact fresh (clash ▸ by simp [pathCells])
  have mem := mem_insertLink T frame.side apart below
  obtain ⟨hung, -, distinct, sentinel⟩ := focus
  simp only [ColouredTree.items, List.nil_append] at distinct sentinel
  refine ⟨?_, ?_, ?_, ?_⟩
  · have nil : (recode (insertLink T node frame.item.addr frame.side)).nil = (recode T).nil := rfl
    refine hung.repoint nil distinct ?_ ?_ ?_
    · rw [if_neg (by simp)]
      rfl
    · intro first rest same
      obtain ⟨rfl, rfl⟩ := List.cons.inj same
      rw [mem, if_neg apart, if_pos rfl]
      rfl
    · intro cell member different
      have listed := List.mem_map_of_mem (f := Cell.addr) member
      have notFrame : cell.addr ≠ frame.item.addr := different
      rw [mem, if_neg (ne_of_mem_of_not_mem listed fresh), if_neg notFrame]
  · refine ⟨?_, trivial, trivial⟩
    rw [show (cellOf T node).addr = node from rfl, mem, if_pos rfl]
    rfl
  · simpa [ColouredTree.items, cellOf] using ⟨by simpa using fresh, distinct⟩
  · show T.sentinel ∉ _
    simpa [ColouredTree.items, cellOf, inner] using sentinel

/-- A tree of one black node. -/
theorem insertFirst_valid {T : NgxRbtree} {s node : Addr} (sentinel : Sentinel s (recode T))
    (inner : node ≠ s) : Valid s [cellOf T node] (recode (insertFirst T node)) := by
  have same : T.sentinel = s := sentinel.same
  have mem : ∀ a, (insertFirst T node).mem a =
      if a = node then ⟨(T.mem node).key, T.sentinel, T.sentinel, NULL, 0, (T.mem node).data⟩
      else T.mem a := by
    intro a
    unfold insertFirst
    simp only [NgxRbtree.setRoot, NgxRbtree.ngxRbtBlack, NgxRbtree.setColor, NgxRbtree.setChild,
      NgxRbtree.setParent, mem_modify]
    by_cases here : a = node
    · subst here
      simp only [if_pos]
      rfl
    · simp only [if_neg here]
  refine ⟨⟨same, ?_⟩, .node .black .leaf (cellOf T node) .leaf, ⟨rfl, ⟨?_, trivial, trivial⟩, ?_, ?_⟩,
    ⟨rfl, 1, ?_⟩, rfl⟩
  · have black := (recode_black T s).mp sentinel.black
    rw [recode_black, NgxRbtree.ngxRbtIsBlack, NgxRbtree.ngxRbtIsRed, mem, if_neg inner.symm]
    exact black
  · show ((insertFirst T node).mem node).recode ((insertFirst T node).up node) = _
    rw [mem, if_pos rfl, NgxRbtree.up, if_pos (show node = (insertFirst T node).root from rfl)]
    rfl
  · simp [ColouredTree.items]
  · show T.sentinel ∉ _
    simp only [ColouredTree.items, cellOf, List.nil_append, List.map_cons, List.map_nil,
      List.mem_singleton]
    rw [same]
    exact inner.symm
  · exact ⟨rfl, rfl⟩

/-- `ngx_rbtree_insert` of a fresh node returns, and the tree is a red-black tree on the cells
with the new one linked where the descent ends. -/
theorem ngxRbtreeInsert_links {T : NgxRbtree} {s node : Addr} {cells : List Cell}
    (less : UInt32 → UInt32 → Bool) (valid : Valid s cells (recode T)) (inner : node ≠ s)
    (fresh : node ∉ cells.map Cell.addr) :
    ∃ t T', t.items = cells ∧
      Leaves (fun fuel => ngxRbtreeInsert (insertValue less) fuel T node) T' ∧
      Valid s (linked less (cellOf T node) t) (recode T') := by
  obtain ⟨sentinel, t, shape, redBlack, rfl⟩ := valid
  have same : T.sentinel = s := sentinel.same
  have root : T.root = ptr T.sentinel t := shape.root
  have top : Focus (recode T) [] t := RbtreeC.focus_iff.mpr shape
  by_cases empty : t = .leaf
  · subst empty
    refine ⟨.leaf, insertFirst T node, rfl, Leaves.of_forall fun fuel => if_pos root, ?_⟩
    exact insertFirst_valid sentinel inner
  · have nonempty : ¬ T.root = T.sentinel := by
      rw [root]
      exact fun clash => empty (top.ptr_eq_nil.mp clash)
    obtain ⟨frame, lower, whole, order, leaves⟩ :=
      insertDescent_spec less (ngxKey_cellOf T node).symm top empty
    rw [← root] at leaves
    have focus : Focus (recode T) (frame :: lower) .leaf := by
      rw [RbtreeC.focus_iff, whole]
      exact shape
    have freshPath : node ∉ (pathCells (frame :: lower)).map Cell.addr := by
      intro member
      have listed := ((RbtreeC.items_fill_perm (frame :: lower) .leaf).map Cell.addr).mem_iff.mpr
        (show node ∈ (ColouredTree.leaf.items ++ pathCells (frame :: lower)).map Cell.addr
          from member)
      rw [whole] at listed
      exact fresh listed
    have below : node ≠ T.root := by
      intro clash
      rcases RbtreeC.ptr_mem T.sentinel t with isNil | member
      · exact nonempty (root.trans isNil)
      · exact fresh (clash ▸ root ▸ member)
    have hung := focus_insertLink focus (same ▸ inner.symm) freshPath below
    have apart : frame.item.addr ≠ node := by
      intro clash
      exact freshPath (clash ▸ by simp [pathCells])
    have kept : Sentinel s (recode (insertLink T node frame.item.addr frame.side)) := by
      refine ⟨same, ?_⟩
      have notFrame : s ≠ frame.item.addr := by
        rw [← same]
        exact focus.up.addr_ne_nil.symm
      rw [mem_insertLink T frame.side apart below, if_neg inner.symm, if_neg notFrame,
        sentinel.black]
    obtain ⟨height, leafBalanced, accepts⟩ :=
      (redBlack_fill (frame :: lower) .leaf).mp (whole ▸ redBlack)
    rw [ColouredTree.balanced_leaf] at leafBalanced
    subst leafBalanced
    have single : (ColouredTree.node .red .leaf (cellOf T node) .leaf).Balanced 0 :=
      ⟨rfl, rfl, rfl, rfl⟩
    have items : (fill (frame :: lower) (.node .red .leaf (cellOf T node) .leaf)).items =
        linked less (cellOf T node) t := by
      rw [← order, items_fill]
      simp [ColouredTree.items]
    have inv : InsertInv s (linked less (cellOf T node) t) (lower.length + 1)
        (recode (insertLink T node frame.item.addr frame.side), node) :=
      ⟨frame :: lower, _, 0, rfl, kept, hung, rfl, rfl, single, accepts, items⟩
    obtain ⟨T', fixed, valid⟩ := insertFixup_spec inv
    refine ⟨t, T', rfl, ?_, valid⟩
    have linking := leaves.map fun place => insertLink T node place.1 place.2
    have both : Leaves (fun fuel => (insertValue less fuel T T.root node).bind fun T =>
        loop insertFixupPass fuel (T, node)) T' := linking.bind fixed
    unfold ngxRbtreeInsert
    simp only [if_neg nonempty]
    exact both

/-- With a consistent comparison the new node comes to stand in order. -/
theorem ngxRbtreeInsert_spec {T : NgxRbtree} {s node : Addr} {cells : List Cell}
    {less : UInt32 → UInt32 → Bool} (valid : Valid s cells (recode T)) (inner : node ≠ s)
    (fresh : node ∉ cells.map Cell.addr) (consistent : Consistent less (cellOf T node) cells) :
    ∃ T', Leaves (fun fuel => ngxRbtreeInsert (insertValue less) fuel T node) T' ∧
      Valid s (cells.orderedInsert (Before less) (cellOf T node)) (recode T') := by
  obtain ⟨t, T', rfl, leaves, valid'⟩ := ngxRbtreeInsert_links less valid inner fresh
  rw [linked_eq consistent] at valid'
  exact ⟨T', leaves, valid'⟩

end BackendCpp.Ngx
