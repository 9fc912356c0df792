import BackendCpp.Ngx.Exchange

/-!
# Deletion from the timers' tree

`subst`, which is `node` or the next node, leaves its place to its only child `temp`, and in the
second case takes the place of `node`. So the node that a caller deletes is the one that leaves
the tree, and no other node changes its contents. Where `subst` is the right child of `node` and
has no child, the parent field of the sentinel, where the fix-up starts, is `subst`. Where `node`
is the root and `subst`, there is no fix-up: `temp` becomes the root and black.
-/

namespace BackendCpp.Ngx

open BackendCpp.Library
open RbtreeC (Addr Rbtree RbtreeNode Cell Focus Hooked Sentinel RED BLACK code ptr above
  pathCells nodeOf Valid Unlinked)

section clear

variable {T : NgxRbtree} {s node : Addr}

/-- Clearing a node changes no other. -/
theorem mem_clearNode (T : NgxRbtree) {node a : Addr} (apart : a ≠ node) :
    (recode (clearNode T node)).mem a = (recode T).mem a := by
  have same : (clearNode T node).mem a = T.mem a := by
    unfold clearNode
    rw [mem_modify, if_neg apart]
  show ((clearNode T node).mem a).recode ((clearNode T node).up a) = _
  unfold NgxRbtree.up
  rw [same]
  rfl

/-- Clearing a node that is out of the tree. -/
theorem focus_clearNode {path : List (Frame Cell)} {t : ColouredTree Cell}
    (focus : Focus (recode T) path t)
    (outside : node ∉ (t.items ++ pathCells path).map Cell.addr) :
    Focus (recode (clearNode T node)) path t :=
  focus_congr (T := recode T) rfl rfl (fun _ member => mem_clearNode T
    (ne_of_mem_of_not_mem (List.mem_map_of_mem (f := Cell.addr) member) outside)) focus

/-- Clearing a node keeps the sentinel. -/
theorem sentinel_clearNode (sentinel : Sentinel s (recode T)) (apart : s ≠ node) :
    Sentinel s (recode (clearNode T node)) := by
  refine ⟨sentinel.same, ?_⟩
  rw [mem_clearNode T apart]
  exact sentinel.black

/-- Clearing a node that is out of the tree keeps a hooked tree hooked. -/
theorem hooked_clearNode {path : List (Frame Cell)} {t : ColouredTree Cell}
    (hooked : Hooked (recode T) path t) (apart : ptr T.sentinel t ≠ node) :
    Hooked (recode (clearNode T node)) path t := by
  unfold Hooked
  show ((recode (clearNode T node)).mem (ptr T.sentinel t)).parent = above T.sentinel path
  rw [mem_clearNode T apart]
  exact hooked

end clear

section unlink

variable {T : NgxRbtree} {s : Addr} {side : Side} {c : Colour} {child : ColouredTree Cell}
  {y : Cell}

/-- The first write of `deleteUnlink`: the parent of `subst` points at `temp`. -/
def passOver (T : NgxRbtree) (subst temp : Addr) : NgxRbtree :=
  if subst = (T.mem (T.mem subst).parent).left then T.setChild (T.mem subst).parent .left temp
  else T.setChild (T.mem subst).parent .right temp

/-- Passing over a node changes no parent field. -/
theorem parent_passOver (T : NgxRbtree) (subst temp a : Addr) :
    ((passOver T subst temp).mem a).parent = (T.mem a).parent := by
  unfold passOver
  split <;>
  · rw [NgxRbtree.setChild, mem_modify]
    split <;> rfl

/-- `deleteUnlink` where the node itself leaves its place. -/
theorem deleteUnlink_self (T : NgxRbtree) (node temp : Addr) :
    deleteUnlink T node node temp =
      (passOver T node temp).setParent temp (T.mem node).parent := by
  rw [← parent_passOver T node temp node]
  exact if_pos rfl

/-- `deleteUnlink` where another node takes the place. -/
theorem deleteUnlink_next (T : NgxRbtree) {node subst : Addr} (temp : Addr) (apart : subst ≠ node) :
    deleteUnlink T node subst temp =
      takePlace ((passOver T subst temp).setParent temp
        (if (T.mem subst).parent = node then subst else (T.mem subst).parent)) node subst := by
  have parent := parent_passOver T subst temp subst
  have whole : deleteUnlink T node subst temp =
      takePlace (if ((passOver T subst temp).mem subst).parent = node then
        (passOver T subst temp).setParent temp subst
        else (passOver T subst temp).setParent temp ((passOver T subst temp).mem subst).parent)
        node subst := if_neg apart
  rw [whole, parent]
  split <;> rfl

/-- Below the root the two writes around a node with at most one child are those of
`1. Data_structure/rbtree.c`. -/
theorem recode_passOver {frame : Frame Cell} {path : List (Frame Cell)}
    (focus : Focus (recode T) (frame :: path) (.join side c child y .leaf)) :
    recode ((passOver T y.addr (ptr T.sentinel child)).setParent (ptr T.sentinel child)
        (T.mem y.addr).parent) =
      RbtreeC.deleteUnlink (recode T) y.addr (ptr T.sentinel child) := by
  have raw : (T.mem y.addr).parent = frame.item.addr := by
    have found := raw_parent focus (focus.parent (by simp))
    rwa [RbtreeC.ptr_join] at found
  have coded : ((recode T).mem y.addr).parent = frame.item.addr := by
    rw [focus.read, RbtreeC.nodeOf_parent]
    rfl
  have notRoot : ptr T.sentinel child ≠ T.root := focus.down.root_ne
  have notY : y.addr ≠ ptr T.sentinel child := (ptr_ne_frame focus.down List.mem_cons_self).symm
  have notChild : frame.item.addr ≠ ptr T.sentinel child :=
    (ptr_ne_frame focus.down (List.mem_cons_of_mem _ List.mem_cons_self)).symm
  have inner : frame.item.addr ≠ (recode T).nil := focus.up.addr_ne_nil
  -- both write the child pointer of the parent on the same side
  have ours : passOver T y.addr (ptr T.sentinel child) = T.setChild frame.item.addr
      (if y.addr = (T.mem frame.item.addr).left then .left else .right) (ptr T.sentinel child) := by
    unfold passOver
    rw [raw]
    split <;> rfl
  have header : (T.setChild frame.item.addr
      (if y.addr = (T.mem frame.item.addr).left then .left else .right)
      (ptr T.sentinel child)).root = T.root := rfl
  rw [ours, raw, recode_setParent _ _ _ (by rw [header]; exact notRoot), recode_setChild]
  refine rbtree_ext ?_ ?_ fun a => ?_
  · rw [RbtreeC.root_deleteUnlink _ _ _ notY, coded, if_neg inner]
    rfl
  · rw [RbtreeC.nil_deleteUnlink]
    rfl
  · rw [RbtreeC.mem_deleteUnlink _ _ _ _ notY (by rw [coded]; exact fun same => absurd same notChild),
      coded, Rbtree.mem_setParent, Rbtree.mem_setChild]
    by_cases here : a = ptr T.sentinel child
    · have notAbove : a ≠ frame.item.addr := here ▸ notChild.symm
      rw [if_pos here, if_pos here, if_neg notAbove]
    · rw [if_neg here, if_neg here]
      by_cases atParent : a = frame.item.addr
      · have both : a = frame.item.addr ∧ a ≠ (recode T).nil := ⟨atParent, atParent ▸ inner⟩
        rw [if_pos atParent, if_pos both, atParent, recode_left]
      · rw [if_neg atParent, if_neg (fun both => atParent both.1)]

/-- Deleting the root where it has at most one child: the child becomes the root and black. -/
theorem deleteRoot_valid {z : Cell} (sentinel : Sentinel s (recode T))
    (focus : Focus (recode T) [] (.join side c child z .leaf))
    (redBlack : (ColouredTree.join side c child z .leaf).RedBlack) :
    Valid s child.items (recode (clearNode
      ((T.setRoot (ptr T.sentinel child)).ngxRbtBlack (ptr T.sentinel child)) z.addr)) := by
  obtain ⟨black, height, balanced⟩ := redBlack
  rw [ColouredTree.colour_join] at black
  subst black
  obtain ⟨lower, rfl⟩ := ColouredTree.exists_height_of_black balanced
  rw [ColouredTree.balanced_join_black] at balanced
  have zNotNil : z.addr ≠ T.sentinel := focus.addr_ne_nil
  have root : T.root = z.addr := by
    have hung : T.root = ptr T.sentinel (.join side .black child z .leaf) := focus.hung
    rwa [RbtreeC.ptr_join] at hung
  have below := focus.down
  obtain ⟨-, storedChild, distinct, outside⟩ := below
  have unique := distinct
  simp only [pathCells, ColouredTree.items, List.append_nil, List.map_append, List.map_cons,
    List.map_nil, List.nodup_append, List.mem_singleton, forall_eq] at unique
  obtain ⟨childUnique, -, zApart⟩ := unique
  have zChild : z.addr ∉ child.items.map Cell.addr := fun member => zApart _ member rfl
  have nilChild : T.sentinel ∉ child.items.map Cell.addr := by
    intro member
    refine outside ?_
    rw [List.map_append]
    exact List.mem_append_left _ member
  have moved : Focus (recode (T.setRoot (ptr T.sentinel child))) [] child := by
    refine ⟨rfl, ?_, by simpa [pathCells] using childUnique, ?_⟩
    swap
    · show T.sentinel ∉ _
      simpa [pathCells] using nilChild
    have nil : (recode (T.setRoot (ptr T.sentinel child))).nil = (recode T).nil := rfl
    refine storedChild.reparent nil childUnique ?_ ?_
    · intro _
      show (T.mem (ptr T.sentinel child)).recode
        ((T.setRoot (ptr T.sentinel child)).up (ptr T.sentinel child)) = _
      rw [NgxRbtree.up, if_pos (show ptr T.sentinel child =
        (T.setRoot (ptr T.sentinel child)).root from rfl)]
      rfl
    · intro cell member different
      have listed := List.mem_map_of_mem (f := Cell.addr) member
      have notZ : cell.addr ≠ T.root := by
        rw [root]
        exact ne_of_mem_of_not_mem listed zChild
      have notTop : cell.addr ≠ (T.setRoot (ptr T.sentinel child)).root := different
      show (T.mem cell.addr).recode ((T.setRoot (ptr T.sentinel child)).up cell.addr) =
        (T.mem cell.addr).recode (T.up cell.addr)
      rw [up_of_ne _ _ notTop, up_of_ne _ _ notZ]
      rfl
  have kept : Sentinel s (recode (T.setRoot (ptr T.sentinel child))) :=
    ⟨sentinel.same, sentinel.black⟩
  have painted := RbtreeC.deleteFixup_leaves kept moved (RbtreeC.balanced_blacken balanced.1) rfl
  have same : recode ((T.setRoot (ptr T.sentinel child)).ngxRbtBlack (ptr T.sentinel child)) =
      (recode (T.setRoot (ptr T.sentinel child))).setColor (ptr T.sentinel child) BLACK :=
    recode_ngxRbtBlack ..
  change Valid s child.items ((recode (T.setRoot (ptr T.sentinel child))).setColor
    (ptr T.sentinel child) BLACK) at painted
  rw [← same] at painted
  obtain ⟨lastSentinel, t, shape, last, items⟩ := painted
  have cleared : Focus (recode (clearNode
      ((T.setRoot (ptr T.sentinel child)).ngxRbtBlack (ptr T.sentinel child)) z.addr)) [] t := by
    refine focus_clearNode (RbtreeC.focus_iff.mpr shape) ?_
    simpa [pathCells, items] using zChild
  have notZ : s ≠ z.addr := by
    rw [← show T.sentinel = s from sentinel.same]
    exact zNotNil.symm
  exact ⟨sentinel_clearNode lastSentinel notZ, t, RbtreeC.focus_iff.mp cleared, last, items⟩

/-- Unlinking a node that has at most one child and is not the root. -/
theorem deleteUnlink_self_unlinked {frame : Frame Cell} {path : List (Frame Cell)}
    (sentinel : Sentinel s (recode T))
    (focus : Focus (recode T) (frame :: path) (.join side c child y .leaf))
    (redBlack : (fill (frame :: path) (.join side c child y .leaf)).RedBlack) :
    Unlinked s (fill (frame :: path) child).items
      (recode (clearNode (deleteUnlink T y.addr y.addr (ptr T.sentinel child)) y.addr)) c
      (ptr T.sentinel child) := by
  obtain ⟨height, balanced, accepts⟩ := (redBlack_fill ..).mp redBlack
  rw [ColouredTree.colour_join] at accepts
  obtain ⟨hole, hooked, kept, -⟩ := focus.deleteUnlink sentinel
  have notY : ptr T.sentinel child ≠ y.addr := ptr_ne_frame focus.down List.mem_cons_self
  have notNil : s ≠ y.addr := by
    rw [← show T.sentinel = s from sentinel.same]
    exact focus.addr_ne_nil.symm
  have outside : y.addr ∉ (child.items ++ pathCells (frame :: path)).map Cell.addr := by
    have order := ((RbtreeC.items_join_perm side c child .leaf y).append_right
      (pathCells (frame :: path))).map Cell.addr
    have unique := order.nodup_iff.mp focus.distinct
    simp only [ColouredTree.items, List.append_nil] at unique
    exact (List.nodup_cons.mp unique).1
  have same : recode (deleteUnlink T y.addr y.addr (ptr T.sentinel child)) =
      RbtreeC.deleteUnlink (recode T) y.addr (ptr T.sentinel child) := by
    rw [deleteUnlink_self]
    exact recode_passOver focus
  rw [recode_nil, ← same] at hole hooked kept
  have named : (deleteUnlink T y.addr y.addr (ptr T.sentinel child)).sentinel = T.sentinel :=
    kept.same.trans sentinel.same.symm
  have cleared := focus_clearNode hole outside
  have hookedClear := hooked_clearNode hooked (by rw [named]; exact notY)
  have keptClear := sentinel_clearNode kept notNil
  have unlinked := cleared.unlinked keptClear hookedClear balanced accepts
  have nil : (recode (clearNode (deleteUnlink T y.addr y.addr (ptr T.sentinel child))
      y.addr)).nil = T.sentinel := named
  rw [nil] at unlinked
  exact unlinked

end unlink

section next

variable {T : NgxRbtree} {s : Addr} {c d : Colour} {lower upper : List (Frame Cell)}
  {left right child : ColouredTree Cell} {y z : Cell}

/-- `takePlace` keeps the sentinel. -/
theorem takePlace_keeps (sentinel : Sentinel s (recode T))
    (focus : Focus (recode T) upper (.join .left c left z right))
    (outside : y.addr ∉
      ((ColouredTree.join .left c left z right).items ++ pathCells upper).map Cell.addr)
    (inner : y.addr ≠ T.sentinel) (cell : cellOf T y.addr = y) :
    Focus (recode (takePlace T z.addr y.addr)) upper (.join .left c left y right) ∧
      Sentinel s (recode (takePlace T z.addr y.addr)) ∧
      (takePlace T z.addr y.addr).mem s = T.mem s := by
  obtain ⟨placed, named, kept⟩ := focus_takePlace focus outside inner
  have same : T.sentinel = s := sentinel.same
  rw [same] at kept named
  rw [cell] at placed
  refine ⟨placed, ⟨named, ?_⟩, kept⟩
  have black := (recode_black T s).mp sentinel.black
  rw [recode_black, NgxRbtree.ngxRbtIsBlack, NgxRbtree.ngxRbtIsRed, kept]
  exact black

/-- The parent field of the sentinel, where a leaf below a frame is in focus. -/
theorem hooked_leaf {frame : Frame Cell} {path : List (Frame Cell)} {t : ColouredTree Cell}
    (focus : Focus (recode T) (frame :: path) t)
    (parent : t = .leaf → (T.mem T.sentinel).parent = frame.item.addr) :
    Hooked (recode T) (frame :: path) t := by
  refine focus.hooked fun leaf => ?_
  subst leaf
  exact (coded_parent focus).trans (parent rfl)

/-- Writing one parent field changes no other node. -/
theorem mem_recode_setParent (T : NgxRbtree) {a b : Addr} (parent : Addr) (apart : a ≠ b) :
    (recode (T.setParent b parent)).mem a = (recode T).mem a := by
  have same : (T.setParent b parent).mem a = T.mem a := by
    rw [NgxRbtree.setParent, mem_modify, if_neg apart]
  show ((T.setParent b parent).mem a).recode ((T.setParent b parent).up a) = _
  unfold NgxRbtree.up
  rw [same]
  rfl

/-- The tree after the next node has left its place and before it takes the other one. -/
theorem passOver_next {frame : Frame Cell} {path : List (Frame Cell)}
    (sentinel : Sentinel s (recode T))
    (focus : Focus (recode T) (frame :: path) (.join .right d child y .leaf)) :
    ∃ T2, T2 = (passOver T y.addr (ptr T.sentinel child)).setParent (ptr T.sentinel child)
        frame.item.addr ∧
      (T.mem y.addr).parent = frame.item.addr ∧ Focus (recode T2) (frame :: path) child ∧
      (T2.mem (ptr T.sentinel child)).parent = frame.item.addr ∧ Sentinel s (recode T2) ∧
      cellOf T2 y.addr = y ∧ T2.sentinel = T.sentinel := by
  have raw : (T.mem y.addr).parent = frame.item.addr := by
    have found := raw_parent focus (focus.parent (by simp))
    rwa [RbtreeC.ptr_join] at found
  obtain ⟨hole, hooked, kept, stays⟩ := focus.deleteUnlink sentinel
  have same := recode_passOver focus
  rw [raw] at same
  rw [recode_nil, ← same] at hole hooked kept stays
  refine ⟨_, rfl, raw, hole, ?_, kept, ?_, kept.same.trans sentinel.same.symm⟩
  · rw [NgxRbtree.setParent, mem_modify, if_pos rfl]
    rfl
  · show (⟨y.addr, ((recode _).mem y.addr).key, ((recode _).mem y.addr).value⟩ : Cell) = y
    rw [stays, focus.read, RbtreeC.nodeOf_key, RbtreeC.nodeOf_value]

/-- The next node has taken the place of `z`, and `z` is not yet cleared. Where the next node was
the right child of `z`, its child was hooked to it before; for an inner child that makes no
difference to `takePlace`, and the sentinel keeps it. -/
theorem deleteUnlink_next_focus (sentinel : Sentinel s (recode T))
    (focus : Focus (recode T) (lower ++ ⟨.right, c, z, left⟩ :: upper)
      (.join .right d child y .leaf))
    (apart : y.addr ≠ z.addr)
    (outside : y.addr ∉ ((ColouredTree.join .left c left z (fill lower child)).items ++
      pathCells upper).map Cell.addr) :
    Focus (recode (deleteUnlink T z.addr y.addr (ptr T.sentinel child))) upper
        (.join .left c left y (fill lower child)) ∧
      Sentinel s (recode (deleteUnlink T z.addr y.addr (ptr T.sentinel child))) ∧
      Hooked (recode (deleteUnlink T z.addr y.addr (ptr T.sentinel child)))
        (lower ++ ⟨.right, c, y, left⟩ :: upper) child := by
  have named : T.sentinel = s := sentinel.same
  have innerY : y.addr ≠ T.sentinel := focus.addr_ne_nil
  have deep : ∀ {U : NgxRbtree} {cell : Cell},
      Focus (recode U) (lower ++ ⟨.right, c, cell, left⟩ :: upper) child ↔
        Focus (recode U) upper (.join .left c left cell (fill lower child)) := by
    intro U cell
    rw [RbtreeC.focus_iff, RbtreeC.focus_iff, fill_append]
    rfl
  rw [deleteUnlink_next T _ apart]
  cases lower with
  | nil =>
    obtain ⟨T2, known, raw, hole, parent, kept, cell, same⟩ := passOver_next sentinel focus
    rw [raw, if_pos rfl]
    have inside := deep.mp hole
    have twice : (passOver T y.addr (ptr T.sentinel child)).setParent (ptr T.sentinel child) y.addr =
        T2.setParent (ptr T.sentinel child) y.addr := by
      rw [known]
      simp only [NgxRbtree.setParent, NgxRbtree.modify, Function.update_self, Function.update_idem]
      rfl
    rw [twice]
    by_cases leaf : child = .leaf
    · subst leaf
      rw [RbtreeC.ptr_leaf]
      have moved : Focus (recode (T2.setParent T.sentinel y.addr)) upper
          (.join .left c left z (fill [] .leaf)) := by
        refine focus_congr (T := recode T2) rfl rfl (fun other member => ?_) inside
        refine mem_recode_setParent T2 y.addr ?_
        have notNil := inside.sentinel
        rw [recode_nil, same] at notNil
        exact ne_of_mem_of_not_mem (List.mem_map_of_mem (f := Cell.addr) member) notNil
      have movedSentinel : Sentinel s (recode (T2.setParent T.sentinel y.addr)) := by
        refine ⟨kept.same, ?_⟩
        have black := (recode_black T2 s).mp kept.black
        rw [recode_black, NgxRbtree.ngxRbtIsBlack, NgxRbtree.ngxRbtIsRed, NgxRbtree.setParent,
          mem_modify, named, if_pos rfl]
        exact black
      have movedCell : cellOf (T2.setParent T.sentinel y.addr) y.addr = y := by
        have untouched : (T2.setParent T.sentinel y.addr).mem y.addr = T2.mem y.addr := by
          rw [NgxRbtree.setParent, mem_modify, if_neg innerY]
        unfold cellOf at cell ⊢
        rw [untouched]
        exact cell
      obtain ⟨placed, placedSentinel, written⟩ := takePlace_keeps movedSentinel moved outside
        (by rw [show (T2.setParent T.sentinel y.addr).sentinel = T.sentinel from same]; exact innerY)
        movedCell
      refine ⟨placed, placedSentinel, hooked_leaf (deep.mpr placed) fun _ => ?_⟩
      have nil : (takePlace (T2.setParent T.sentinel y.addr) z.addr y.addr).sentinel = s :=
        placedSentinel.same
      rw [nil, written, NgxRbtree.setParent, mem_modify, named, if_pos rfl]
      rfl
    · have adopted := takePlace_adopted inside outside (by rw [same]; exact innerY) leaf
      rw [fill_nil, same] at adopted
      rw [adopted]
      obtain ⟨placed, placedSentinel, -⟩ := takePlace_keeps kept inside outside
        (by rw [same]; exact innerY) cell
      exact ⟨placed, placedSentinel, (deep.mpr placed).hooked fun none => absurd none leaf⟩
  | cons frame lower =>
    obtain ⟨T2, known, raw, hole, parent, kept, cell, same⟩ := passOver_next sentinel focus
    have differ : ¬ frame.item.addr = z.addr := by
      have turned := hole.up
      have apart' := ptr_ne_frame turned (List.mem_append_right lower List.mem_cons_self)
      rwa [RbtreeC.ptr_join] at apart'
    rw [raw, if_neg differ, ← known]
    have inside := deep.mp hole
    obtain ⟨placed, placedSentinel, written⟩ := takePlace_keeps kept inside outside
      (by rw [same]; exact innerY) cell
    refine ⟨placed, placedSentinel, hooked_leaf (deep.mpr placed) fun leaf => ?_⟩
    subst leaf
    have nil : (takePlace T2 z.addr y.addr).sentinel = s := placedSentinel.same
    rw [RbtreeC.ptr_leaf, named] at parent
    rw [nil, written, parent]

/-- Unlinking the next node, which takes the place of `z`. -/
theorem deleteUnlink_next_unlinked (sentinel : Sentinel s (recode T))
    (focus : Focus (recode T) (lower ++ ⟨.right, c, z, left⟩ :: upper)
      (.join .right d child y .leaf))
    (redBlack : (fill (lower ++ ⟨.right, c, z, left⟩ :: upper)
      (.join .right d child y .leaf)).RedBlack) :
    y.addr ≠ z.addr ∧
    Unlinked s (fill (lower ++ ⟨.right, c, y, left⟩ :: upper) child).items
      (recode (clearNode (deleteUnlink T z.addr y.addr (ptr T.sentinel child)) z.addr)) d
      (ptr T.sentinel child) := by
  obtain ⟨height, balanced, accepts⟩ := (redBlack_fill ..).mp redBlack
  rw [ColouredTree.colour_join] at accepts
  have first := ((RbtreeC.items_join_perm .right d child .leaf y).append_right
    (pathCells (lower ++ ⟨.right, c, z, left⟩ :: upper))).map Cell.addr
  have unique := first.nodup_iff.mp focus.distinct
  simp only [ColouredTree.items, List.append_nil, List.cons_append, List.map_cons,
    List.nodup_cons] at unique
  obtain ⟨yOutside, restUnique⟩ := unique
  -- the cells without `y`, seen from the place of `z`
  have around : ((child.items ++ pathCells (lower ++ ⟨.right, c, z, left⟩ :: upper)).map
      Cell.addr).Perm (((ColouredTree.join .left c left z (fill lower child)).items ++
      pathCells upper).map Cell.addr) := by
    have whole := RbtreeC.items_fill_perm (lower ++ ⟨.right, c, z, left⟩ :: upper) child
    rw [fill_append] at whole
    exact (whole.symm.trans (RbtreeC.items_fill_perm upper _)).map Cell.addr
  have outside := fun member => yOutside (around.mem_iff.mpr member)
  have second := ((RbtreeC.items_join_perm .left c left (fill lower child) z).append_right
    (pathCells upper)).map Cell.addr
  have zUnique := second.nodup_iff.mp (around.nodup_iff.mp restUnique)
  rw [List.cons_append, List.map_cons, List.nodup_cons] at zUnique
  have apart : y.addr ≠ z.addr := by
    intro clash
    refine outside (second.mem_iff.mpr ?_)
    rw [clash, List.cons_append, List.map_cons]
    exact List.mem_cons_self
  refine ⟨apart, ?_⟩
  obtain ⟨placed, kept, hooked⟩ := deleteUnlink_next_focus sentinel focus apart outside
  have zOutside : z.addr ∉ ((ColouredTree.join .left c left y (fill lower child)).items ++
      pathCells upper).map Cell.addr := by
    intro member
    have third := ((RbtreeC.items_join_perm .left c left (fill lower child) y).append_right
      (pathCells upper)).map Cell.addr
    have listed := third.mem_iff.mp member
    rw [List.cons_append, List.map_cons, List.mem_cons] at listed
    rcases listed with same | rest
    · exact apart same.symm
    · exact zUnique.1 rest
  have named : (deleteUnlink T z.addr y.addr (ptr T.sentinel child)).sentinel = T.sentinel :=
    kept.same.trans sentinel.same.symm
  have notZ : ptr T.sentinel child ≠ z.addr := by
    have below : Focus (recode T) (⟨.right, d, y, .leaf⟩ :: (lower ++ ⟨.right, c, z, left⟩ :: upper))
        child := focus.down
    exact ptr_ne_frame below (List.mem_cons_of_mem _ (List.mem_append_right lower
      List.mem_cons_self))
  have nilNotZ : s ≠ z.addr := by
    rw [← show T.sentinel = s from sentinel.same]
    have top : Focus (recode T) upper
        (.join .right c (fill lower (.join .right d child y .leaf)) z left) := by
      rw [RbtreeC.focus_iff] at focus ⊢
      rw [fill_append] at focus
      exact focus
    exact top.addr_ne_nil.symm
  have cleared := focus_clearNode placed zOutside
  have deep : Focus (recode (clearNode (deleteUnlink T z.addr y.addr (ptr T.sentinel child)) z.addr))
      (lower ++ ⟨.right, c, y, left⟩ :: upper) child := by
    rw [RbtreeC.focus_iff] at cleared ⊢
    rw [fill_append]
    exact cleared
  have hookedClear := hooked_clearNode hooked (by rw [named]; exact notZ)
  have keptClear := sentinel_clearNode kept nilNotZ
  have unlinked := deep.unlinked keptClear hookedClear balanced
    (accepts_congr lower upper .right c z y left d height accepts)
  have nil : (recode (clearNode (deleteUnlink T z.addr y.addr (ptr T.sentinel child))
      z.addr)).nil = T.sentinel := named
  rw [nil] at unlinked
  exact unlinked

end next

/-- The end of `ngx_rbtree_delete`: the fix-up where the unlinked node was black. -/
theorem unlinked_fixed {T : NgxRbtree} {s temp : Addr} {cells : List Cell} {c : Colour}
    (unlinked : Unlinked s cells (recode T) c temp) :
    ∃ T', Leaves (fun fuel => if c = .red then some T else loop deleteFixupPass fuel (T, temp)) T' ∧
      Valid s cells (recode T') := by
  rcases unlinked with ⟨rfl, valid⟩ | ⟨rfl, size, inv⟩
  · exact ⟨T, Leaves.of_forall fun _ => if_pos rfl, valid⟩
  · obtain ⟨T', leaves, valid⟩ := deleteFixup_spec inv
    have black : ¬ Colour.black = .red := by simp
    simp only [if_neg black]
    exact ⟨T', leaves, valid⟩

/-- The branch of `ngx_rbtree_delete` after the choice of `subst` and `temp`, where `subst` is not
the root. -/
theorem deleteChosen_spec {T : NgxRbtree} {s node subst temp : Addr} {cells : List Cell} {d : Colour}
    (notRoot : subst ≠ T.root) (color : ((recode T).mem subst).color = code d)
    (chosen : Leaves (fun fuel => chooseSubst fuel T node) (subst, temp))
    (unlinked : Unlinked s cells (recode (clearNode (deleteUnlink T node subst temp) node)) d temp) :
    ∃ T', Leaves (fun fuel => ngxRbtreeDelete fuel T node) T' ∧ Valid s cells (recode T') := by
  obtain ⟨T', leaves, valid⟩ := unlinked_fixed unlinked
  have red : T.ngxRbtIsRed subst = true ↔ d = .red := by
    rw [← recode_red, color, RbtreeC.code_eq_red]
  refine ⟨T', chosen.bind ?_, valid⟩
  dsimp only
  simp only [if_neg notRoot, red]
  exact leaves

/-- `ngx_rbtree_delete` of a node of the tree returns, and the tree is a red-black tree on the
other cells, in their order and with their contents. -/
theorem ngxRbtreeDelete_spec {T : NgxRbtree} {s : Addr} {cells : List Cell} {z : Cell}
    (valid : Valid s cells (recode T)) (member : z ∈ cells) :
    ∃ T' low high, cells = low ++ z :: high ∧
      Leaves (fun fuel => ngxRbtreeDelete fuel T z.addr) T' ∧ Valid s (low ++ high) (recode T') := by
  obtain ⟨sentinel, t, shape, redBlack, rfl⟩ := valid
  obtain ⟨path, c, left, right, whole⟩ := exists_path_of_mem member
  have focus : Focus (recode T) path (.node c left z right) := by
    rw [RbtreeC.focus_iff, whole]
    exact shape
  have fromLeft : Focus (recode T) path (.join .left c left z right) := focus
  have fromRight : Focus (recode T) path (.join .right c right z left) := focus
  have leftAt : (T.mem z.addr).left = ptr T.sentinel left := by
    rw [← recode_left, focus.stored.1]
    rfl
  have rightAt : (T.mem z.addr).right = ptr T.sentinel right := by
    rw [← recode_right, focus.stored.1]
    rfl
  have leftNil : ptr T.sentinel left = T.sentinel ↔ left = .leaf := fromLeft.down.ptr_eq_nil
  have rightNil : ptr T.sentinel right = T.sentinel ↔ right = .leaf := fromRight.down.ptr_eq_nil
  have order : t.items = (before path ++ left.items) ++ z :: (right.items ++ after path) := by
    rw [← whole, items_fill]
    simp [ColouredTree.items]
  rw [← whole] at redBlack
  suffices found : ∃ T' items, Leaves (fun fuel => ngxRbtreeDelete fuel T z.addr) T' ∧
      Valid s items (recode T') ∧ items = (before path ++ left.items) ++ (right.items ++ after path) by
    obtain ⟨T', items, leaves, valid, rfl⟩ := found
    exact ⟨T', _, _, order, leaves, valid⟩
  by_cases few : left = .leaf ∨ right = .leaf
  · have single : ∃ side child, ColouredTree.node c left z right = .join side c child z .leaf ∧
        child.items = left.items ++ right.items ∧
        ∀ fuel, chooseSubst fuel T z.addr = some (z.addr, ptr T.sentinel child) := by
      by_cases empty : left = .leaf
      · refine ⟨.right, right, by rw [empty]; rfl, by simp [empty, ColouredTree.items], ?_⟩
        intro fuel
        unfold chooseSubst
        rw [if_pos (leftAt.trans (leftNil.mpr empty)), rightAt]
      · have emptyRight := few.resolve_left empty
        refine ⟨.left, left, by rw [emptyRight]; rfl, by simp [emptyRight, ColouredTree.items], ?_⟩
        intro fuel
        have inner : ¬ (T.mem z.addr).left = T.sentinel := by
          rw [leftAt]
          exact fun clash => empty (leftNil.mp clash)
        unfold chooseSubst
        rw [if_neg inner, if_pos (rightAt.trans (rightNil.mpr emptyRight)), leftAt]
    obtain ⟨side, child, node, children, chosen⟩ := single
    rw [node] at focus redBlack
    have color : ((recode T).mem z.addr).color = code c := by
      rw [focus.read, RbtreeC.nodeOf_color]
    cases path with
    | nil =>
      have root : z.addr = T.root := by
        have hung : T.root = ptr T.sentinel (.join side c child z .leaf) := focus.hung
        rw [RbtreeC.ptr_join] at hung
        exact hung.symm
      refine ⟨_, child.items, ?_, deleteRoot_valid sentinel focus redBlack, ?_⟩
      · refine (Leaves.of_forall chosen).bind ?_
        dsimp only
        simp only [if_pos root]
        exact Leaves.of_forall fun _ => rfl
      · rw [children]
        simp [before, after]
    | cons frame up =>
      have notRoot : z.addr ≠ T.root := by
        have below : ptr T.sentinel (.join side c child z .leaf) ≠ T.root := focus.root_ne
        rwa [RbtreeC.ptr_join] at below
      have unlinked := deleteUnlink_self_unlinked sentinel focus redBlack
      obtain ⟨T', leaves, valid⟩ :=
        deleteChosen_spec notRoot color (Leaves.of_forall chosen) unlinked
      refine ⟨T', _, leaves, valid, ?_⟩
      rw [items_fill, children]
      simp
  · have both : left ≠ .leaf ∧ right ≠ .leaf := by tauto
    obtain ⟨lower, d, y, r, inRight, first, found⟩ := RbtreeC.rbtreeMini_spec fromRight.down both.2
    have deep : fill path (.node c left z right) =
        fill (lower ++ ⟨.right, c, z, left⟩ :: path) (.join .right d r y .leaf) := by
      rw [fill_append, fill_cons, inRight]
      rfl
    have atY : Focus (recode T) (lower ++ ⟨.right, c, z, left⟩ :: path)
        (.join .right d r y .leaf) := by
      rw [RbtreeC.focus_iff, ← deep, ← RbtreeC.focus_iff]
      exact focus
    rw [deep] at redBlack
    have color : ((recode T).mem y.addr).color = code d := by
      rw [atY.read, RbtreeC.nodeOf_color]
    have leftY : (T.mem y.addr).left = T.sentinel := by
      rw [← recode_left, atY.read]
      rfl
    have rightY : (T.mem y.addr).right = ptr T.sentinel r := by
      rw [← recode_right, atY.read]
      rfl
    have notLeft : ¬ (T.mem z.addr).left = T.sentinel := by
      rw [leftAt]
      exact fun clash => both.1 (leftNil.mp clash)
    have notRight : ¬ ptr T.sentinel right = T.sentinel := fun clash => both.2 (rightNil.mp clash)
    have chosen : Leaves (fun fuel => chooseSubst fuel T z.addr) (y.addr, ptr T.sentinel r) := by
      have least : Leaves (fun fuel => ngxRbtreeMin fuel T (ptr T.sentinel right)) y.addr := found
      have pair := least.map fun subst =>
        if (T.mem subst).left ≠ T.sentinel then (subst, (T.mem subst).left)
        else (subst, (T.mem subst).right)
      simp only [leftY, rightY, ne_eq, not_true_eq_false, if_false] at pair
      unfold chooseSubst
      simp only [if_neg notLeft, rightAt, if_neg notRight]
      exact pair
    have notRoot : y.addr ≠ T.root := by
      have below : ∀ {frames : List (Frame Cell)} {frame : Frame Cell} {rest : List (Frame Cell)},
          Focus (recode T) (frames ++ frame :: rest) (.join .right d r y .leaf) →
          y.addr ≠ T.root := by
        intro frames frame rest there
        have distinct : ptr T.sentinel (.join .right d r y .leaf) ≠ T.root := by
          cases frames with
          | nil => exact there.root_ne
          | cons next frames => exact there.root_ne
        rwa [RbtreeC.ptr_join] at distinct
      exact below atY
    obtain ⟨-, unlinked⟩ := deleteUnlink_next_unlinked sentinel atY redBlack
    obtain ⟨T', leaves, valid⟩ := deleteChosen_spec notRoot color chosen unlinked
    refine ⟨T', _, leaves, valid, ?_⟩
    have next : right.items ++ after path = y :: (r.items ++ (after lower ++ after path)) := by
      rw [inRight, items_fill, first]
      simp [ColouredTree.items]
    rw [next, items_fill, before_append, after_append]
    simp [before, after, first, List.append_assoc]

end BackendCpp.Ngx
