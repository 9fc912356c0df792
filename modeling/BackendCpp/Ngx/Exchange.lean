import BackendCpp.Ngx.Insertion

/-!
# A node takes the place of another

Where `1. Data_structure/rbtree.c` copies the contents of the next node into the deleted one,
`ngx_rbtree_delete` moves the next node itself: it gets the pointers and the colour of the
deleted node, and the nodes around that one point at it. The header says which node is the root;
the parent field of the root is copied along and means nothing.
-/

namespace BackendCpp.Ngx

open BackendCpp.Library
open RbtreeC (Addr Rbtree RbtreeNode Cell Focus ptr above pathCells nodeOf code)

section exchange

variable {T T' : Rbtree} {path : List (Frame Cell)} {t : ColouredTree Cell} {side : Side}
  {c : Colour} {near far : ColouredTree Cell} {y z : Cell}

/-- A focus depends only on the header and on the memory at the cells. -/
theorem focus_congr (sameNil : T'.nil = T.nil) (sameRoot : T'.root = T.root)
    (same : ∀ cell ∈ t.items ++ pathCells path, T'.mem cell.addr = T.mem cell.addr)
    (focus : Focus T path t) : Focus T' path t := by
  obtain ⟨hung, stored, distinct, sentinel⟩ := focus
  refine ⟨?_, ?_, distinct, sameNil ▸ sentinel⟩
  · rw [sameNil]
    exact hung.congr sameNil sameRoot fun cell member => same cell (List.mem_append_right _ member)
  · rw [sameNil]
    exact stored.congr sameNil fun cell member => same cell (List.mem_append_left _ member)

/-- A node `y` from outside takes the place of the node `z` in the focus: it gets the pointers and
the colour of `z`, and its parent, or the header, and its children point at it. -/
theorem focus_exchange (focus : Focus T path (.join side c near z far)) (sameNil : T'.nil = T.nil)
    (outside : y.addr ∉ ((ColouredTree.join side c near z far).items ++ pathCells path).map Cell.addr)
    (inner : y.addr ≠ T.nil) (root : T'.root = if path = [] then y.addr else T.root)
    (place : T'.mem y.addr = nodeOf side c (ptr T.nil near) (ptr T.nil far) (above T.nil path) y)
    (children : ∀ a, a ≠ T.nil → a = ptr T.nil near ∨ a = ptr T.nil far →
      T'.mem a = (T.mem a).withParent y.addr)
    (parent : ∀ frame rest, path = frame :: rest →
      T'.mem frame.item.addr = (T.mem frame.item.addr).withChild frame.side y.addr)
    (others : ∀ a, a ≠ y.addr → a ≠ z.addr → a ≠ ptr T.nil near → a ≠ ptr T.nil far →
      a ≠ above T.nil path → a ≠ T.nil → T'.mem a = T.mem a) :
    Focus T' path (.join side c near y far) := by
  obtain ⟨hung, stored, distinct, sentinel⟩ := focus
  obtain ⟨-, storedNear, storedFar⟩ := RbtreeC.stored_join.mp stored
  have order := ((RbtreeC.items_join_perm side c near far z).append_right (pathCells path)).map
    Cell.addr
  have order' := ((RbtreeC.items_join_perm side c near far y).append_right (pathCells path)).map
    Cell.addr
  have unique := order.nodup_iff.mp distinct
  have nilOutside : T.nil ∉ (z :: (near.items ++ far.items) ++ pathCells path).map Cell.addr :=
    fun member => sentinel (order.mem_iff.mpr member)
  have yOutside : y.addr ∉ (z :: (near.items ++ far.items) ++ pathCells path).map Cell.addr :=
    fun member => outside (order.mem_iff.mpr member)
  simp only [List.cons_append, List.map_cons, List.map_append, List.nodup_cons, List.mem_cons,
    List.mem_append, List.nodup_append, not_or] at unique nilOutside yOutside
  obtain ⟨⟨⟨zNear, zFar⟩, zPath⟩, ⟨⟨nearUnique, farUnique, nearFar⟩, pathUnique, restPath⟩⟩ := unique
  obtain ⟨-, ⟨nilNear, nilFar⟩, nilPath⟩ := nilOutside
  obtain ⟨-, ⟨yNear, yFar⟩, yPath⟩ := yOutside
  have ptrNear := RbtreeC.ptr_mem T.nil near
  have ptrFar := RbtreeC.ptr_mem T.nil far
  have ptrAbove := RbtreeC.above_mem T.nil path
  -- a listed address of one part meets the pointers of the other parts only at the sentinel
  have apart : ∀ {addrs : List Addr} {a q : Addr}, (q = T.nil ∨ q ∈ addrs) → a ≠ T.nil →
      (∀ b ∈ addrs, a ≠ b) → a ≠ q := by
    intro addrs a q either notNil different same
    exact notNil (RbtreeC.sentinel_of_eq either different same)
  refine ⟨?_, ?_, ?_, ?_⟩
  · rw [RbtreeC.ptr_join] at hung ⊢
    refine hung.repoint sameNil pathUnique root parent ?_
    intro cell member different
    have listed := List.mem_map_of_mem (f := Cell.addr) member
    have notNil : cell.addr ≠ T.nil := ne_of_mem_of_not_mem listed nilPath
    refine others _ (ne_of_mem_of_not_mem listed yPath) (ne_of_mem_of_not_mem listed zPath) ?_ ?_
      different notNil
    · exact apart ptrNear notNil fun b inNear clash =>
        restPath b (Or.inl inNear) _ listed clash.symm
    · exact apart ptrFar notNil fun b inFar clash =>
        restPath b (Or.inr inFar) _ listed clash.symm
  · refine RbtreeC.stored_join.mpr ⟨?_, ?_, ?_⟩
    · rw [place, sameNil]
    · refine storedNear.reparent sameNil nearUnique ?_ ?_
      · intro notLeaf
        have notNil : ptr T.nil near ≠ T.nil := by
          cases near with
          | leaf => exact absurd rfl notLeaf
          | node d left cell right =>
            exact fun clash => nilNear (clash ▸ by simp [ptr, ColouredTree.items])
        exact children _ notNil (Or.inl rfl)
      · intro cell member different
        have listed := List.mem_map_of_mem (f := Cell.addr) member
        have notNil : cell.addr ≠ T.nil := ne_of_mem_of_not_mem listed nilNear
        refine others _ (ne_of_mem_of_not_mem listed yNear) (ne_of_mem_of_not_mem listed zNear)
          different ?_ ?_ notNil
        · exact apart ptrFar notNil fun b inFar => nearFar _ listed b inFar
        · exact apart ptrAbove notNil fun b inPath => restPath _ (Or.inl listed) b inPath
    · refine storedFar.reparent sameNil farUnique ?_ ?_
      · intro notLeaf
        have notNil : ptr T.nil far ≠ T.nil := by
          cases far with
          | leaf => exact absurd rfl notLeaf
          | node d left cell right =>
            exact fun clash => nilFar (clash ▸ by simp [ptr, ColouredTree.items])
        exact children _ notNil (Or.inr rfl)
      · intro cell member different
        have listed := List.mem_map_of_mem (f := Cell.addr) member
        have notNil : cell.addr ≠ T.nil := ne_of_mem_of_not_mem listed nilFar
        refine others _ (ne_of_mem_of_not_mem listed yFar) (ne_of_mem_of_not_mem listed zFar)
          ?_ different ?_ notNil
        · exact apart ptrNear notNil fun b inNear clash => nearFar b inNear _ listed clash.symm
        · exact apart ptrAbove notNil fun b inPath => restPath _ (Or.inr listed) b inPath
  · refine order'.nodup_iff.mpr ?_
    simp only [List.cons_append, List.map_cons, List.map_append, List.nodup_cons, List.mem_append,
      List.nodup_append, not_or]
    exact ⟨⟨⟨yNear, yFar⟩, yPath⟩, ⟨nearUnique, farUnique, nearFar⟩, pathUnique, restPath⟩
  · rw [sameNil]
    intro member
    have listed := order'.mem_iff.mp member
    simp only [List.cons_append, List.map_cons, List.map_append, List.mem_cons,
      List.mem_append] at listed
    rcases listed with same | (inNear | inFar) | inPath
    · exact inner same.symm
    · exact nilNear inNear
    · exact nilFar inFar
    · exact nilPath inPath

end exchange

section place

variable {T : NgxRbtree} {y z l r : Addr}

/-- The memory and the header after `y` took the place of `z`, whose children are `l` and `r`. Only
below the root is the parent field of `z` looked at. -/
theorem takePlace_eq (left : (T.mem z).left = l) (right : (T.mem z).right = r) (yz : y ≠ z)
    (yl : y ≠ l) (yr : y ≠ r)
    (below : z ≠ T.root → (T.mem z).parent ≠ y ∧ (T.mem z).parent ≠ l ∧ (T.mem z).parent ≠ r) :
    (takePlace T z y).root = (if z = T.root then y else T.root) ∧
    (takePlace T z y).sentinel = T.sentinel ∧
    ∀ a, (takePlace T z y).mem a =
      if a = y then ⟨(T.mem y).key, l, r, (T.mem z).parent, (T.mem z).color, (T.mem y).data⟩
      else if (a = l ∨ a = r) ∧ a ≠ T.sentinel then (T.mem a).withParent y
      else if a = (T.mem z).parent ∧ z ≠ T.root then
        (T.mem a).withChild (if z = (T.mem a).left then .left else .right) y
      else T.mem a := by
  unfold takePlace
  extract_lets T1 T2 T3 T4 T5 T6
  have mem4 : ∀ a, T4.mem a =
      if a = y then ⟨(T.mem y).key, l, r, (T.mem z).parent, (T.mem z).color, (T.mem y).data⟩
      else T.mem a := by
    intro a
    simp only [T4, T3, T2, T1, NgxRbtree.ngxRbtCopyColor, NgxRbtree.setColor, NgxRbtree.setParent,
      NgxRbtree.setChild, mem_modify, if_neg yz.symm, left, right]
    by_cases here : a = y
    · subst here
      simp only [if_pos]
      rfl
    · simp only [if_neg here]
  have root4 : T4.root = T.root := rfl
  have sentinel4 : T4.sentinel = T.sentinel := rfl
  clear_value T4
  have parent4 : (T4.mem z).parent = (T.mem z).parent := by rw [mem4, if_neg yz.symm]
  have mem5 : ∀ a, T5.mem a =
      if a = (T.mem z).parent ∧ z ≠ T.root then
        (T.mem a).withChild (if z = (T.mem a).left then .left else .right) y
      else T4.mem a := by
    intro a
    simp only [T5, replaceChild, root4, parent4]
    by_cases top : z = T.root
    · rw [if_pos top, if_neg (fun both => both.2 top)]
      rfl
    · obtain ⟨py, -, -⟩ := below top
      have untouched : T4.mem (T.mem z).parent = T.mem (T.mem z).parent := by rw [mem4, if_neg py]
      rw [if_neg top, untouched]
      by_cases tested : z = (T.mem (T.mem z).parent).child .left
      · rw [if_pos tested, NgxRbtree.setChild, mem_modify]
        by_cases here : a = (T.mem z).parent
        · subst here
          rw [if_pos rfl, untouched, if_pos ⟨rfl, top⟩]
          rw [if_pos (show z = (T.mem (T.mem z).parent).left from tested)]
        · rw [if_neg here, if_neg (fun both => here both.1)]
      · rw [if_neg tested, NgxRbtree.setChild, mem_modify]
        by_cases here : a = (T.mem z).parent
        · subst here
          rw [if_pos rfl, untouched, if_pos ⟨rfl, top⟩]
          rw [if_neg (show ¬ z = (T.mem (T.mem z).parent).left from tested)]
          rfl
        · rw [if_neg here, if_neg (fun both => here both.1)]
  have root5 : T5.root = if z = T.root then y else T.root := by
    simp only [T5, replaceChild, root4]
    split
    · rfl
    · split <;> exact root4
  have sentinel5 : T5.sentinel = T.sentinel := by
    simp only [T5, replaceChild]
    split
    · exact sentinel4
    · split <;> exact sentinel4
  clear_value T5
  have notAbove : ¬ (y = (T.mem z).parent ∧ z ≠ T.root) := fun both => (below both.2).1 both.1.symm
  have atY5 : T5.mem y =
      ⟨(T.mem y).key, l, r, (T.mem z).parent, (T.mem z).color, (T.mem y).data⟩ := by
    rw [mem5, if_neg notAbove, mem4, if_pos rfl]
  have mem6 : ∀ a, T6.mem a = if a = l ∧ a ≠ T.sentinel then (T5.mem a).withParent y
      else T5.mem a := by
    intro a
    simp only [T6, adoptChild, NgxRbtreeNode.child, atY5, sentinel5]
    by_cases leaf : l = T.sentinel
    · rw [if_neg (not_not.mpr leaf), if_neg (fun both => both.2 (both.1.trans leaf))]
    · rw [if_pos leaf, NgxRbtree.setParent, mem_modify]
      by_cases here : a = l
      · rw [if_pos here, if_pos ⟨here, here ▸ leaf⟩]
      · rw [if_neg here, if_neg (fun both => here both.1)]
  have root6 : T6.root = T5.root := by
    simp only [T6, adoptChild]
    split <;> rfl
  have sentinel6 : T6.sentinel = T.sentinel := by
    simp only [T6, adoptChild]
    split <;> exact sentinel5
  clear_value T6
  have atY6 : T6.mem y =
      ⟨(T.mem y).key, l, r, (T.mem z).parent, (T.mem z).color, (T.mem y).data⟩ := by
    rw [mem6, if_neg (fun both => yl both.1), atY5]
  refine ⟨?_, ?_, ?_⟩
  · unfold adoptChild
    rw [← root5, ← root6]
    split <;> rfl
  · unfold adoptChild
    split <;> exact sentinel6
  · intro a
    have mem7 : (adoptChild .right T6 y y).mem a =
        if a = r ∧ a ≠ T.sentinel then (T6.mem a).withParent y else T6.mem a := by
      simp only [adoptChild, NgxRbtreeNode.child, atY6, sentinel6]
      by_cases leaf : r = T.sentinel
      · rw [if_neg (not_not.mpr leaf), if_neg (fun both => both.2 (both.1.trans leaf))]
      · rw [if_pos leaf, NgxRbtree.setParent, mem_modify]
        by_cases here : a = r
        · rw [if_pos here, if_pos ⟨here, here ▸ leaf⟩]
        · rw [if_neg here, if_neg (fun both => here both.1)]
    rw [mem7]
    by_cases atY : a = y
    · subst atY
      rw [if_neg (fun both => yr both.1), atY6, if_pos rfl]
    · by_cases child : (a = l ∨ a = r) ∧ a ≠ T.sentinel
      · have notParent : ¬ (a = (T.mem z).parent ∧ z ≠ T.root) := by
          rintro ⟨same, inner⟩
          obtain ⟨-, pl, pr⟩ := below inner
          rcases child.1 with here | here
          · exact pl (same.symm.trans here)
          · exact pr (same.symm.trans here)
        have plain : T5.mem a = T.mem a := by rw [mem5, if_neg notParent, mem4, if_neg atY]
        rw [if_neg atY, if_pos child, mem6, plain]
        by_cases atR : a = r
        · rw [if_pos ⟨atR, child.2⟩]
          split <;> rfl
        · have atL : a = l := child.1.resolve_right atR
          rw [if_neg (fun both => atR both.1), if_pos ⟨atL, child.2⟩]
      · rw [if_neg atY, if_neg child, if_neg (fun both => child ⟨Or.inr both.1, both.2⟩), mem6,
          if_neg (fun both => child ⟨Or.inl both.1, both.2⟩), mem5, mem4, if_neg atY]

end place

section takePlace

variable {T : NgxRbtree} {path : List (Frame Cell)} {c : Colour} {left right : ColouredTree Cell}
  {z : Cell} {y : Addr}

/-- What `takePlace` finds around the node that leaves its place. -/
theorem place_apart (focus : Focus (recode T) path (.join .left c left z right))
    (outside : y ∉ ((ColouredTree.join .left c left z right).items ++ pathCells path).map Cell.addr)
    (inner : y ≠ T.sentinel) :
    (T.mem z.addr).left = ptr T.sentinel left ∧ (T.mem z.addr).right = ptr T.sentinel right ∧
      y ≠ z.addr ∧ y ≠ ptr T.sentinel left ∧ y ≠ ptr T.sentinel right ∧ T.root ≠ y ∧
      (z.addr = T.root ↔ path = []) ∧
      ∀ frame rest, path = frame :: rest → (T.mem z.addr).parent = frame.item.addr ∧
        frame.item.addr ≠ y ∧ frame.item.addr ≠ ptr T.sentinel left ∧
        frame.item.addr ≠ ptr T.sentinel right := by
  have leftAt : ((recode T).mem z.addr).left = ptr T.sentinel left := by
    rw [focus.read]
    rfl
  have rightAt : ((recode T).mem z.addr).right = ptr T.sentinel right := by
    rw [focus.read]
    rfl
  have fromRight : Focus (recode T) path (.join .right c right z left) := focus
  have rootMem := RbtreeC.ptr_mem T.sentinel (fill path (.join .left c left z right))
  have order := (RbtreeC.items_fill_perm path (.join .left c left z right)).map Cell.addr
  have notRoot : T.root ≠ y := by
    have root : T.root = ptr T.sentinel (fill path (.join .left c left z right)) :=
      (RbtreeC.focus_iff.mp focus).root
    rw [root]
    exact RbtreeC.ne_of_sentinel_or_mem rootMem inner.symm fun member =>
      outside (order.mem_iff.mp member)
  simp only [ColouredTree.join, ColouredTree.items, List.map_append, List.map_cons, List.mem_append,
    List.mem_cons, not_or] at outside
  obtain ⟨⟨yLeft, yz, yRight⟩, yPath⟩ := outside
  refine ⟨leftAt, rightAt, yz, ?_, ?_, notRoot, ?_, ?_⟩
  · exact (RbtreeC.ne_of_sentinel_or_mem (RbtreeC.ptr_mem _ left) inner.symm yLeft).symm
  · exact (RbtreeC.ne_of_sentinel_or_mem (RbtreeC.ptr_mem _ right) inner.symm yRight).symm
  · cases path with
    | nil =>
      have root : T.root = z.addr := focus.hung
      exact iff_of_true root.symm rfl
    | cons frame path =>
      have below : z.addr ≠ T.root := focus.root_ne
      exact iff_of_false below (by simp)
  · rintro frame rest rfl
    refine ⟨raw_parent focus (focus.parent (by simp)), ?_, ?_, ?_⟩
    · intro clash
      exact yPath (clash ▸ by simp [pathCells])
    · exact (ptr_ne_frame focus.down (List.mem_cons_of_mem _ List.mem_cons_self)).symm
    · exact (ptr_ne_frame fromRight.down (List.mem_cons_of_mem _ List.mem_cons_self)).symm

/-- `y` takes the place of the node in the focus; the sentinel is not written. -/
theorem focus_takePlace (focus : Focus (recode T) path (.join .left c left z right))
    (outside : y ∉ ((ColouredTree.join .left c left z right).items ++ pathCells path).map Cell.addr)
    (inner : y ≠ T.sentinel) :
    Focus (recode (takePlace T z.addr y)) path (.join .left c left (cellOf T y) right) ∧
      (takePlace T z.addr y).sentinel = T.sentinel ∧
      (takePlace T z.addr y).mem T.sentinel = T.mem T.sentinel := by
  obtain ⟨leftAt, rightAt, yz, yl, yr, rootNotY, top, above'⟩ := place_apart focus outside inner
  have fromRight : Focus (recode T) path (.join .right c right z left) := focus
  have below : z.addr ≠ T.root → ∃ frame rest, path = frame :: rest := by
    intro notRoot
    cases path with
    | nil => exact absurd (top.mpr rfl) notRoot
    | cons frame rest => exact ⟨frame, rest, rfl⟩
  have apart : z.addr ≠ T.root → (T.mem z.addr).parent ≠ y ∧
      (T.mem z.addr).parent ≠ ptr T.sentinel left ∧
      (T.mem z.addr).parent ≠ ptr T.sentinel right := by
    intro notRoot
    obtain ⟨frame, rest, whole⟩ := below notRoot
    obtain ⟨raw, rest⟩ := above' frame rest whole
    rw [raw]
    exact rest
  obtain ⟨root, sentinel, mem⟩ := takePlace_eq leftAt rightAt yz yl yr apart
  -- the header of both trees is at the same address unless `z` is the root
  have up : ∀ a, a ≠ y → a ≠ z.addr → ((takePlace T z.addr y).mem a).parent = (T.mem a).parent →
      (takePlace T z.addr y).up a = T.up a := by
    intro a notY notZ same
    unfold NgxRbtree.up
    rw [root, sentinel, same]
    by_cases isTop : z.addr = T.root
    · rw [if_pos isTop, if_neg notY, if_neg (isTop ▸ notZ)]
    · rw [if_neg isTop]
  have others : ∀ a, a ≠ y → a ≠ z.addr → a ≠ ptr T.sentinel left ∨ a = T.sentinel →
      a ≠ ptr T.sentinel right ∨ a = T.sentinel → a ≠ above T.sentinel path ∨ a = T.sentinel →
      (takePlace T z.addr y).mem a = T.mem a := by
    intro a notY notZ notL notR notAbove
    have noChild : ¬ ((a = ptr T.sentinel left ∨ a = ptr T.sentinel right) ∧ a ≠ T.sentinel) := by
      rintro ⟨here | here, node⟩
      · exact node (notL.resolve_left (not_not.mpr here))
      · exact node (notR.resolve_left (not_not.mpr here))
    have noParent : ¬ (a = (T.mem z.addr).parent ∧ z.addr ≠ T.root) := by
      rintro ⟨same, notRoot⟩
      obtain ⟨frame, rest, rfl⟩ := below notRoot
      obtain ⟨raw, -⟩ := above' frame rest rfl
      rcases notAbove with differ | isNil
      · exact differ (same.trans raw)
      · exact focus.up.addr_ne_nil ((same.trans raw).symm.trans isNil)
    rw [mem, if_neg notY, if_neg noChild, if_neg noParent]
  have nilNotY : T.sentinel ≠ y := inner.symm
  have nilNotZ : T.sentinel ≠ z.addr := focus.addr_ne_nil.symm
  refine ⟨focus_exchange focus sentinel outside inner ?_ ?_ ?_ ?_ ?_, sentinel,
    others _ nilNotY nilNotZ (Or.inr rfl) (Or.inr rfl) (Or.inr rfl)⟩
  · show (takePlace T z.addr y).root = if path = [] then y else T.root
    rw [root]
    by_cases empty : path = []
    · rw [if_pos empty, if_pos (top.mpr empty)]
    · rw [if_neg empty, if_neg (fun isTop => empty (top.mp isTop))]
  · show ((takePlace T z.addr y).mem y).recode ((takePlace T z.addr y).up y) = _
    have color : recodeColor (T.mem z.addr).color = code c := by
      have stored : ((recode T).mem z.addr).color = code c := by
        rw [focus.read, RbtreeC.nodeOf_color]
      exact stored
    have parent : (takePlace T z.addr y).up y = above T.sentinel path := by
      unfold NgxRbtree.up
      rw [root, sentinel, mem, if_pos rfl]
      cases path with
      | nil =>
        rw [if_pos (top.mpr rfl), if_pos rfl]
        rfl
      | cons frame rest =>
        have notTop : ¬ z.addr = T.root := fun isTop => by simpa using top.mp isTop
        rw [if_neg notTop, if_neg rootNotY.symm]
        exact (above' frame rest rfl).1
    rw [parent, mem, if_pos rfl]
    unfold NgxRbtreeNode.recode
    rw [color]
    rfl
  · intro a notNil child
    have notNil' : a ≠ T.sentinel := notNil
    have notY : a ≠ y := by
      rcases child with rfl | rfl
      · exact yl.symm
      · exact yr.symm
    have written : (takePlace T z.addr y).mem a = (T.mem a).withParent y := by
      rw [mem, if_neg notY, if_pos ⟨child, notNil'⟩]
    have notTop : a ≠ (takePlace T z.addr y).root := by
      have notRoot : a ≠ T.root := by
        rcases child with rfl | rfl
        · exact focus.down.root_ne
        · exact fromRight.down.root_ne
      rw [root]
      split
      · exact notY
      · exact notRoot
    show ((takePlace T z.addr y).mem a).recode ((takePlace T z.addr y).up a) = _
    rw [up_of_ne _ _ notTop, written]
    rfl
  · intro frame rest whole
    obtain ⟨raw, notY, notL, notR⟩ := above' frame rest whole
    have notTop : z.addr ≠ T.root := by
      intro isTop
      rw [whole] at top
      simpa using top.mp isTop
    have notZ : frame.item.addr ≠ z.addr := by
      have differ := ptr_ne_frame (whole ▸ focus) List.mem_cons_self
      exact differ.symm
    have notChild : ¬ ((frame.item.addr = ptr T.sentinel left ∨
        frame.item.addr = ptr T.sentinel right) ∧ frame.item.addr ≠ T.sentinel) := by
      rintro ⟨here | here, -⟩
      · exact notL here
      · exact notR here
    have side : (if z.addr = (T.mem frame.item.addr).left then Side.left else .right) =
        frame.side := by
      have test := (whole ▸ focus : Focus (recode T) (frame :: rest) _).left_test
        (Or.inl (by simp))
      have test' : z.addr = (T.mem frame.item.addr).left ↔ frame.side = .left := test
      cases which : frame.side with
      | left => exact if_pos (test'.mpr which)
      | right =>
        rw [if_neg]
        intro same
        rw [which] at test'
        exact absurd (test'.mp same) (by simp)
    have written : (takePlace T z.addr y).mem frame.item.addr =
        (T.mem frame.item.addr).withChild frame.side y := by
      rw [mem, if_neg notY, if_neg notChild, if_pos ⟨raw.symm, notTop⟩, side]
    have keeps : ((takePlace T z.addr y).mem frame.item.addr).parent =
        (T.mem frame.item.addr).parent := by
      rw [written]
      cases frame.side <;> rfl
    show ((takePlace T z.addr y).mem frame.item.addr).recode
      ((takePlace T z.addr y).up frame.item.addr) = _
    rw [up _ notY notZ keeps, written]
    show _ = ((T.mem frame.item.addr).recode (T.up frame.item.addr)).withChild frame.side y
    cases frame.side <;> rfl
  · intro a notY notZ notL notR notAbove _
    have same := others a notY notZ (Or.inl notL) (Or.inl notR) (Or.inl notAbove)
    show ((takePlace T z.addr y).mem a).recode ((takePlace T z.addr y).up a) = _
    rw [up a notY notZ (by rw [same]), same]
    rfl

/-- It does not matter for `takePlace` whether the right child of `z` pointed at `y` before. -/
theorem takePlace_adopted (focus : Focus (recode T) path (.join .left c left z right))
    (outside : y ∉ ((ColouredTree.join .left c left z right).items ++ pathCells path).map Cell.addr)
    (inner : y ≠ T.sentinel) (node : right ≠ .leaf) :
    takePlace (T.setParent (ptr T.sentinel right) y) z.addr y = takePlace T z.addr y := by
  obtain ⟨leftAt, rightAt, yz, yl, yr, rootNotY, top, above'⟩ := place_apart focus outside inner
  have fromRight : Focus (recode T) path (.join .right c right z left) := focus
  have zr : ptr T.sentinel right ≠ z.addr := ptr_ne_frame fromRight.down List.mem_cons_self
  have notNil : ptr T.sentinel right ≠ T.sentinel :=
    fun clash => node (fromRight.down.ptr_eq_nil.mp clash)
  have apart : z.addr ≠ T.root → (T.mem z.addr).parent ≠ y ∧
      (T.mem z.addr).parent ≠ ptr T.sentinel left ∧
      (T.mem z.addr).parent ≠ ptr T.sentinel right := by
    intro notRoot
    cases path with
    | nil => exact absurd (top.mpr rfl) notRoot
    | cons frame rest =>
      obtain ⟨raw, rest⟩ := above' frame rest rfl
      rw [raw]
      exact rest
  have read : ∀ a, (T.setParent (ptr T.sentinel right) y).mem a =
      if a = ptr T.sentinel right then (T.mem a).withParent y else T.mem a :=
    fun a => mem_modify T _ a _
  have atZ : (T.setParent (ptr T.sentinel right) y).mem z.addr = T.mem z.addr := by
    rw [read, if_neg zr.symm]
  have atY : (T.setParent (ptr T.sentinel right) y).mem y = T.mem y := by
    rw [read, if_neg yr]
  obtain ⟨root, sentinel, mem⟩ := takePlace_eq leftAt rightAt yz yl yr apart
  obtain ⟨root', sentinel', mem'⟩ := takePlace_eq (T := T.setParent (ptr T.sentinel right) y)
    (by rw [atZ]; exact leftAt) (by rw [atZ]; exact rightAt) yz yl yr (by rw [atZ]; exact apart)
  have same : (takePlace (T.setParent (ptr T.sentinel right) y) z.addr y).mem =
      (takePlace T z.addr y).mem := by
    funext a
    rw [mem', mem, atY, atZ]
    by_cases isY : a = y
    · rw [if_pos isY, if_pos isY]
    · rw [if_neg isY, if_neg isY]
      by_cases here : a = ptr T.sentinel right
      · have child : (a = ptr T.sentinel left ∨ a = ptr T.sentinel right) ∧ a ≠ T.sentinel :=
          ⟨Or.inr here, here ▸ notNil⟩
        rw [if_pos child, read, if_pos here]
        exact (if_pos child).trans rfl
      · rw [read, if_neg here]
        rfl
  cases first : takePlace (T.setParent (ptr T.sentinel right) y) z.addr y
  cases second : takePlace T z.addr y
  rw [first] at root' sentinel' same
  rw [second] at root sentinel same
  simp only [NgxRbtree.mk.injEq]
  exact ⟨root'.trans root.symm, sentinel'.trans sentinel.symm, same⟩

end takePlace

end BackendCpp.Ngx
