import BackendCpp.RbtreeC.Shape

/-!
# Rotations

A rotation writes up to six pointers: two in each of the nodes that change places, one in
the subtree that changes parents, one in the node above or in the header. `mem_rotate`
gives the memory afterwards in closed form; `Focus.rotate` reads it as a change of shape,
on either side, wherever in the tree the rotation happens. The sentinel is not written.
-/

namespace BackendCpp.RbtreeC

open BackendCpp.Library

/-- Setting a child keeps the parent. -/
@[simp] theorem withChild_parent (node : RbtreeNode) (side : Side) (child : Addr) :
    (node.withChild side child).parent = node.parent := by
  cases side <;> rfl

/-- Writes to different fields commute. -/
theorem withParent_withChild (node : RbtreeNode) (side : Side) (child parent : Addr) :
    (node.withParent parent).withChild side child =
      (node.withChild side child).withParent parent := by
  cases side <;> rfl

/-- The memory after `y` took the place of `x`. -/
theorem mem_replaceChild (side : Side) (T : Rbtree) (x y a : Addr) :
    (replaceChild side T x y).mem a =
      if a = (T.mem x).parent ∧ a ≠ T.nil then
        (T.mem a).withChild (if x = (T.mem a).child side then side else side.flip) y
      else T.mem a := by
  unfold replaceChild
  split
  · rename_i top
    rw [Rbtree.mem_setRoot, if_neg]
    rintro ⟨same, inner⟩
    exact inner (same.trans top)
  · split <;> rw [Rbtree.mem_setChild] <;> grind

/-- Replacing a child leaves the sentinel pointer alone. -/
@[simp] theorem nil_replaceChild (side : Side) (T : Rbtree) (x y : Addr) :
    (replaceChild side T x y).nil = T.nil := by
  unfold replaceChild
  split
  · rfl
  · split <;> rfl

/-- The header after `y` took the place of `x`. -/
theorem root_replaceChild (side : Side) (T : Rbtree) (x y : Addr) :
    (replaceChild side T x y).root = if (T.mem x).parent = T.nil then y else T.root := by
  unfold replaceChild
  split
  · rfl
  · split <;> rfl

/-- The memory after the child of `y` points up to `x`. -/
theorem mem_adoptChild (side : Side) (T : Rbtree) (x y a : Addr) :
    (adoptChild side T x y).mem a =
      if a = (T.mem y).child side ∧ a ≠ T.nil then (T.mem a).withParent x else T.mem a := by
  unfold adoptChild
  split
  · rw [Rbtree.mem_setParent]
    grind
  · grind

/-- Adopting a child keeps the sentinel. -/
@[simp] theorem nil_adoptChild (side : Side) (T : Rbtree) (x y : Addr) :
    (adoptChild side T x y).nil = T.nil := by
  unfold adoptChild
  split <;> rfl

/-- Adopting a child keeps the root. -/
@[simp] theorem root_adoptChild (side : Side) (T : Rbtree) (x y : Addr) :
    (adoptChild side T x y).root = T.root := by
  unfold adoptChild
  split <;> rfl

/-- A rotation keeps the sentinel. -/
@[simp] theorem nil_rotate (side : Side) (T : Rbtree) (x : Addr) :
    (rotate side T x).nil = T.nil := by
  simp only [rotate, Rbtree.nil_setParent, Rbtree.nil_setChild, nil_replaceChild, nil_adoptChild]

section rotate

variable (side : Side) (T : Rbtree) {x y b p : Addr}
variable (far : (T.mem x).child side.flip = y) (inner : (T.mem y).child side = b)
  (up : (T.mem x).parent = p) (xy : x ≠ y) (bx : b ≠ x)

include far inner up xy bx in
/-- The memory and the header after a rotation at `x`, whose far child is `y`, the near
child of `y` being `b` and the parent of `x` being `p`. -/
theorem mem_rotate (px : p ≠ x) (bNotY : b ≠ y) (py : p ≠ y) (pb : p = b → p = T.nil) (a : Addr) :
    (rotate side T x).mem a =
      if a = x then ((T.mem x).withChild side.flip b).withParent y
      else if a = y then ((T.mem y).withChild side x).withParent p
      else if a = b ∧ a ≠ T.nil then (T.mem a).withParent x
      else if a = p ∧ a ≠ T.nil then
        (T.mem a).withChild (if x = (T.mem a).child side then side else side.flip) y
      else T.mem a := by
  unfold rotate
  extract_lets y' T1 T2 T3 T4 T5
  have sameY : y = y' := far.symm
  clear_value y'
  subst sameY
  have mem1 : ∀ a, T1.mem a = if a = x then (T.mem x).withChild side.flip b else T.mem a := by
    intro a
    simp only [T1, inner, Rbtree.mem_setChild]
    split
    · rename_i same
      rw [same]
    · rfl
  have nil1 : T1.nil = T.nil := rfl
  clear_value T1
  have mem2 : ∀ a, T2.mem a =
      if a = b ∧ a ≠ T.nil then (T.mem a).withParent x else T1.mem a := by
    intro a
    have near : (T1.mem y).child side = b := by rw [mem1, if_neg xy.symm, inner]
    rw [mem_adoptChild, near, nil1]
    grind
  have nil2 : T2.nil = T.nil := by rw [nil_adoptChild, nil1]
  clear_value T2
  have mem3 : ∀ a, T3.mem a = if a = y then (T.mem y).withParent p else T2.mem a := by
    intro a
    simp only [T3, mem2, mem1, Rbtree.mem_setParent]
    grind [withChild_parent]
  have nil3 : T3.nil = T.nil := nil2
  clear_value T3
  have mem4 : ∀ a, T4.mem a =
      if a = p ∧ a ≠ T.nil then
        (T.mem a).withChild (if x = (T.mem a).child side then side else side.flip) y
      else T3.mem a := by
    intro a
    have parent : (T3.mem x).parent = p := by
      rw [mem3, if_neg xy, mem2, mem1]
      grind [withChild_parent]
    simp only [T4, mem_replaceChild, parent, nil3]
    grind
  clear_value T4
  simp only [T5, Rbtree.mem_setParent, Rbtree.mem_setChild, mem4, mem3, mem2, mem1]
  grind [withParent_withChild]

include far inner up xy bx in
/-- The header after a rotation. -/
theorem root_rotate : (rotate side T x).root = if p = T.nil then y else T.root := by
  unfold rotate
  extract_lets y' T1 T2 T3 T4 T5
  have sameY : y = y' := far.symm
  clear_value y'
  subst sameY
  have near : (T1.mem y).child side = b := by
    rw [Rbtree.mem_setChild, if_neg xy.symm, inner]
  have parent : (T3.mem x).parent = p := by
    rw [Rbtree.mem_setParent, if_neg xy, mem_adoptChild, near, if_neg (fun h => bx h.1.symm),
      Rbtree.mem_setChild, if_pos rfl, withChild_parent, up]
  have header : T5.root = if p = T.nil then y else T.root := by
    simp only [T5, T4, Rbtree.root_setChild, root_replaceChild, parent]
    simp only [T3, T2, T1, Rbtree.nil_setParent, nil_adoptChild, Rbtree.nil_setChild,
      Rbtree.root_setParent, root_adoptChild, Rbtree.root_setChild]
  exact header

end rotate

/-- A rotation at the node in focus: the far child takes its place, and the tree between
the two changes parents. The sentinel keeps its fields. -/
theorem Focus.rotate {T : Rbtree} {path : List (Frame Cell)} {side : Side} {cx cy : Colour}
    {near inner outer : ColouredTree Cell} {x y : Cell}
    (focus : Focus T path (.join side cx near x (.join side cy inner y outer))) :
    Focus (rotate side T x.addr) path (.join side cy (.join side cx near x inner) y outer) ∧
      (rotate side T x.addr).mem T.nil = T.mem T.nil := by
  obtain ⟨hung, stored, distinct, sentinel⟩ := focus
  obtain ⟨nodeX, storedNear, storedY⟩ := stored_join.mp stored
  obtain ⟨nodeY, storedInner, storedOuter⟩ := stored_join.mp storedY
  rw [ptr_join] at hung nodeX
  have order : ((ColouredTree.join side cx near x (.join side cy inner y outer)).items ++
      pathCells path).Perm
      (x :: y :: (near.items ++ (inner.items ++ (outer.items ++ pathCells path)))) := by
    have first := items_join_perm side cx near (.join side cy inner y outer) x
    have second := items_join_perm side cy inner outer y
    have both := first.trans (((second.append_left near.items).trans List.perm_middle).cons x)
    simpa using both.append_right (pathCells path)
  have order' : ((ColouredTree.join side cy (.join side cx near x inner) y outer).items ++
      pathCells path).Perm
      (x :: y :: (near.items ++ (inner.items ++ (outer.items ++ pathCells path)))) := by
    have first := items_join_perm side cy (.join side cx near x inner) outer y
    have second := items_join_perm side cx near inner x
    have both := first.trans ((second.append_right outer.items).cons y)
    simpa using (both.trans (List.Perm.swap x y _)).append_right (pathCells path)
  have unique := (order.map Cell.addr).nodup_iff.mp distinct
  have outside : T.nil ∉
      (x :: y :: (near.items ++ (inner.items ++ (outer.items ++ pathCells path)))).map Cell.addr :=
    fun member => sentinel ((order.map Cell.addr).mem_iff.mpr member)
  have far : (T.mem x.addr).child side.flip = y.addr := by rw [nodeX, nodeOf_child_flip]
  have near' : (T.mem y.addr).child side = ptr T.nil inner := by rw [nodeY, nodeOf_child]
  have up : (T.mem x.addr).parent = above T.nil path := by rw [nodeX, nodeOf_parent]
  simp only [List.map_cons, List.map_append, List.nodup_cons, List.mem_cons, List.mem_append,
    List.nodup_append, not_or] at unique outside
  obtain ⟨⟨xy, xNear, xInner, xOuter, xPath⟩, ⟨yNear, yInner, yOuter, yPath⟩, -,
    ⟨innerUnique, ⟨-, pathUnique, outerPath⟩, innerRest⟩, nearRest⟩ := unique
  obtain ⟨nilX, nilY, -, nilInner, -, nilPath⟩ := outside
  have ptrInner := ptr_mem T.nil inner
  have ptrAbove := above_mem T.nil path
  have innerX : ptr T.nil inner ≠ x.addr := ne_of_sentinel_or_mem ptrInner nilX xInner
  have innerY : ptr T.nil inner ≠ y.addr := ne_of_sentinel_or_mem ptrInner nilY yInner
  have aboveX : above T.nil path ≠ x.addr := ne_of_sentinel_or_mem ptrAbove nilX xPath
  have aboveY : above T.nil path ≠ y.addr := ne_of_sentinel_or_mem ptrAbove nilY yPath
  have aboveInner : above T.nil path = ptr T.nil inner → above T.nil path = T.nil := by
    intro same
    rcases ptrAbove with top | member
    · exact top
    · exact sentinel_of_eq ptrInner
        (fun b listed clash => innerRest b listed _ (Or.inr member) clash.symm) same
  have mem := mem_rotate side T far near' up xy innerX aboveX innerY aboveY aboveInner
  have root := root_rotate side T far near' up xy innerX
  have keep : ∀ a, a ≠ x.addr → a ≠ y.addr → (a = ptr T.nil inner → a = T.nil) →
      (a = above T.nil path → a = T.nil) →
      (RbtreeC.rotate side T x.addr).mem a = T.mem a := by
    intro a notX notY notInner notAbove
    rw [mem, if_neg notX, if_neg notY, if_neg (fun both => both.2 (notInner both.1)),
      if_neg (fun both => both.2 (notAbove both.1))]
  refine ⟨⟨?_, ?_, (order.trans order'.symm |>.map Cell.addr).nodup_iff.mp distinct, ?_⟩, ?_⟩
  · rw [ptr_join]
    refine hung.replace (nil_rotate ..) side pathUnique nilPath nilX xPath root ?_ ?_
    · intro inside
      rw [mem, if_neg aboveX, if_neg aboveY, if_neg (fun both => both.2 (aboveInner both.1)),
        if_pos ⟨rfl, inside⟩]
    · intro other member different
      have listed := List.mem_map_of_mem (f := Cell.addr) member
      exact keep _ (ne_of_mem_of_not_mem listed xPath) (ne_of_mem_of_not_mem listed yPath)
        (sentinel_of_eq ptrInner fun b innerMember clash =>
          innerRest b innerMember _ (Or.inr listed) clash.symm) (fun same => absurd same different)
  · refine stored_join.mpr ⟨?_, stored_join.mpr ⟨?_, ?_, ?_⟩, ?_⟩
    · rw [mem, if_neg (Ne.symm xy), if_pos rfl, nodeY, nodeOf_withChild, nodeOf_withParent,
        ptr_join, nil_rotate]
    · rw [mem, if_pos rfl, nodeX, nodeOf_withChild_flip, nodeOf_withParent, nil_rotate]
    · refine storedNear.congr (nil_rotate ..) fun other member => ?_
      have listed := List.mem_map_of_mem (f := Cell.addr) member
      exact keep _ (ne_of_mem_of_not_mem listed xNear) (ne_of_mem_of_not_mem listed yNear)
        (sentinel_of_eq ptrInner fun b innerMember => nearRest _ listed b (Or.inl innerMember))
        (sentinel_of_eq ptrAbove fun b pathMember => nearRest _ listed b (Or.inr (Or.inr pathMember)))
    · refine storedInner.reparent (nil_rotate ..) innerUnique ?_ ?_
      · intro notLeaf
        have inside : ptr T.nil inner ≠ T.nil := by
          cases inner with
          | leaf => exact absurd rfl notLeaf
          | node c left cell right =>
            exact fun clash => nilInner (clash ▸ by simp [ptr, ColouredTree.items])
        rw [mem, if_neg innerX, if_neg innerY, if_pos ⟨rfl, inside⟩]
      · intro other member different
        have listed := List.mem_map_of_mem (f := Cell.addr) member
        exact keep _ (ne_of_mem_of_not_mem listed xInner) (ne_of_mem_of_not_mem listed yInner)
          (fun same => absurd same different)
          (sentinel_of_eq ptrAbove fun b pathMember => innerRest _ listed b (Or.inr pathMember))
    · refine storedOuter.congr (nil_rotate ..) fun other member => ?_
      have listed := List.mem_map_of_mem (f := Cell.addr) member
      exact keep _ (ne_of_mem_of_not_mem listed xOuter) (ne_of_mem_of_not_mem listed yOuter)
        (sentinel_of_eq ptrInner fun b innerMember clash =>
          innerRest b innerMember _ (Or.inl listed) clash.symm)
        (sentinel_of_eq ptrAbove fun b pathMember => outerPath _ listed b pathMember)
  · intro member
    rw [nil_rotate] at member
    exact sentinel ((order.trans order'.symm).map Cell.addr |>.mem_iff.mpr member)
  · exact keep _ nilX nilY (fun _ => rfl) (fun _ => rfl)
/-- A rotation keeps the sentinel. -/
theorem Sentinel.rotate {T : Rbtree} {nil x : Addr} {side : Side} (sentinel : Sentinel nil T)
    (kept : (rotate side T x).mem T.nil = T.mem T.nil) :
    Sentinel nil (RbtreeC.rotate side T x) := by
  have black := sentinel.black
  rw [← sentinel.same, ← kept, sentinel.same] at black
  exact ⟨(nil_rotate side T x).trans sentinel.same, black⟩

end BackendCpp.RbtreeC
