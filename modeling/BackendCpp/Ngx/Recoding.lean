import BackendCpp.Ngx.Program
import BackendCpp.RbtreeC.Rotation

/-!
# The memory of the timers' tree, read as one of rbtree.c

`recode` reads a memory of the timers' `rbtree.c` as one of `1. Data_structure/rbtree.c`: the
colour bytes differ, and the root, whose parent field may hold anything here, points up to the
sentinel there. The shapes and the focus lemmas of that tree then describe this one. Writes of
colours and children are the same in both; where the shape is right, so is a rotation.
-/

namespace BackendCpp.Ngx

open BackendCpp.Library
open RbtreeC (Addr Rbtree RbtreeNode Cell Focus RED BLACK code ptr above pathCells nodeOf)

/-- The byte of `1. Data_structure/rbtree.c` for a colour. -/
def recodeColor (color : UInt8) : UInt8 := if color = 0 then BLACK else RED

/-- A node in the coding of `1. Data_structure/rbtree.c`, below a given parent. -/
def NgxRbtreeNode.recode (node : NgxRbtreeNode) (parent : Addr) : RbtreeNode where
  color := recodeColor node.color
  right := node.right
  left := node.left
  parent := parent
  key := node.key.toNat
  value := node.data.toNat

/-- The parent of a node, which for the root is the sentinel. -/
def NgxRbtree.up (T : NgxRbtree) (a : Addr) : Addr :=
  if a = T.root then T.sentinel else (T.mem a).parent

/-- A memory in the coding of `1. Data_structure/rbtree.c`. -/
def recode (T : NgxRbtree) : Rbtree := ⟨T.root, T.sentinel, fun a => (T.mem a).recode (T.up a)⟩

section reads

variable (T : NgxRbtree) (a b : Addr)

/-- Reading after a rewrite of one node. -/
theorem mem_modify (change : NgxRbtreeNode → NgxRbtreeNode) :
    (T.modify a change).mem b = if b = a then change (T.mem b) else T.mem b := by
  simp only [NgxRbtree.modify, Function.update_apply]
  split
  · rename_i same
    rw [same]
  · rfl

/-- The root is kept. -/
@[simp] theorem recode_root : (recode T).root = T.root := rfl

/-- The sentinel is kept. -/
@[simp] theorem recode_nil : (recode T).nil = T.sentinel := rfl

/-- Left children are kept. -/
@[simp] theorem recode_left : ((recode T).mem a).left = (T.mem a).left := rfl

/-- Right children are kept. -/
@[simp] theorem recode_right : ((recode T).mem a).right = (T.mem a).right := rfl

/-- The parent of the root becomes the sentinel. -/
@[simp] theorem recode_parent : ((recode T).mem a).parent = T.up a := rfl

/-- Keys become numbers. -/
@[simp] theorem recode_key : ((recode T).mem a).key = (T.mem a).key.toNat := rfl

/-- The contents become a number. -/
@[simp] theorem recode_value : ((recode T).mem a).value = (T.mem a).data.toNat := rfl

/-- Children are kept on either side. -/
@[simp] theorem recode_child (side : Side) :
    ((recode T).mem a).child side = (T.mem a).child side := by
  cases side <;> rfl

/-- Off the root the parent field is what it says. -/
theorem up_of_ne (below : a ≠ T.root) : T.up a = (T.mem a).parent := if_neg below

/-- Every byte but zero is red. -/
theorem recodeColor_red (color : UInt8) : recodeColor color = RED ↔ color ≠ 0 := by
  unfold recodeColor
  split
  · rename_i zero
    exact iff_of_false (by decide) (not_not.mpr zero)
  · rename_i other
    exact iff_of_true rfl other

/-- Zero is black. -/
theorem recodeColor_black (color : UInt8) : recodeColor color = BLACK ↔ color = 0 := by
  unfold recodeColor
  split
  · rename_i zero
    exact iff_of_true rfl zero
  · rename_i other
    exact iff_of_false (by decide) other

/-- The red nodes are the same. -/
theorem recode_red : ((recode T).mem a).color = RED ↔ T.ngxRbtIsRed a = true := by
  show recodeColor (T.mem a).color = RED ↔ decide ((T.mem a).color ≠ 0) = true
  rw [recodeColor_red, decide_eq_true_iff]

/-- The black nodes are the same. -/
theorem recode_black : ((recode T).mem a).color = BLACK ↔ T.ngxRbtIsBlack a = true := by
  show recodeColor (T.mem a).color = BLACK ↔ (!decide ((T.mem a).color ≠ 0)) = true
  rw [recodeColor_black]
  simp

end reads

section writes

variable (T : NgxRbtree) (a : Addr)

/-- Two trees with the same header and the same memory are the same. -/
theorem rbtree_ext {one other : Rbtree} (root : one.root = other.root) (nil : one.nil = other.nil)
    (mem : ∀ a, one.mem a = other.mem a) : one = other := by
  cases one
  cases other
  simp only [Rbtree.mk.injEq]
  exact ⟨root, nil, funext mem⟩

/-- A rewrite that leaves the parent field alone. -/
theorem recode_modify {change : NgxRbtreeNode → NgxRbtreeNode} {change' : RbtreeNode → RbtreeNode}
    (parent : ∀ node, (change node).parent = node.parent)
    (same : ∀ node up, (change node).recode up = change' (node.recode up)) :
    recode (T.modify a change) = (recode T).modify a change' := by
  refine rbtree_ext rfl rfl fun b => ?_
  have up : (T.modify a change).up b = T.up b := by
    show (if b = T.root then T.sentinel else ((T.modify a change).mem b).parent) = T.up b
    rw [mem_modify]
    split
    · rename_i root
      rw [NgxRbtree.up, if_pos root]
    · rename_i below
      rw [NgxRbtree.up, if_neg below]
      split
      · exact parent _
      · rfl
  show ((T.modify a change).mem b).recode ((T.modify a change).up b) = _
  rw [up, mem_modify, Rbtree.mem_modify]
  split
  · exact same _ _
  · rfl

/-- Setting a child is setting it in the other coding. -/
@[simp] theorem recode_setChild (side : Side) (child : Addr) :
    recode (T.setChild a side child) = (recode T).setChild a side child :=
  recode_modify T a (fun node => by cases side <;> rfl) fun node up => by cases side <;> rfl

/-- Setting a colour is setting the byte that stands for it. -/
theorem recode_setColor (color : UInt8) :
    recode (T.setColor a color) = (recode T).setColor a (recodeColor color) :=
  recode_modify T a (fun _ => rfl) fun _ _ => rfl

/-- `ngx_rbt_red` paints red. -/
@[simp] theorem recode_ngxRbtRed : recode (T.ngxRbtRed a) = (recode T).setColor a RED :=
  recode_setColor T a 1

/-- `ngx_rbt_black` paints black. -/
@[simp] theorem recode_ngxRbtBlack : recode (T.ngxRbtBlack a) = (recode T).setColor a BLACK :=
  recode_setColor T a 0

/-- `ngx_rbt_copy_color` copies the colour. -/
@[simp] theorem recode_ngxRbtCopyColor (b : Addr) :
    recode (T.ngxRbtCopyColor a b) = (recode T).setColor a ((recode T).mem b).color :=
  recode_setColor T a _

/-- A parent field below the root. -/
theorem recode_setParent (parent : Addr) (below : a ≠ T.root) :
    recode (T.setParent a parent) = (recode T).setParent a parent := by
  refine rbtree_ext rfl rfl fun b => ?_
  have root : (T.setParent a parent).root = T.root := rfl
  show ((T.setParent a parent).mem b).recode ((T.setParent a parent).up b) = _
  rw [Rbtree.mem_setParent, NgxRbtree.up, root]
  simp only [NgxRbtree.setParent, mem_modify]
  by_cases here : b = a
  · subst here
    rw [if_pos rfl, if_pos rfl, if_neg below]
    rfl
  · rw [if_neg here, if_neg here]
    rfl

end writes

section rotation

variable {T : NgxRbtree} {path : List (Frame Cell)} {side : Side} {cx cy : Colour}
  {near inner outer t : ColouredTree Cell} {x y : Cell}

/-- A pointer to a tree in focus is none of the nodes above it. -/
theorem ptr_ne_frame {T : Rbtree} (focus : Focus T path t) {frame : Frame Cell}
    (member : frame ∈ path) : ptr T.nil t ≠ frame.item.addr := by
  have listed : frame.item.addr ∈ (pathCells path).map Cell.addr := by
    clear focus
    induction path with
    | nil => cases member
    | cons first path ih =>
      rw [pathCells, List.cons_append, List.map_cons, List.map_append]
      rcases List.mem_cons.mp member with rfl | later
      · exact List.mem_cons_self
      · exact List.mem_cons_of_mem _ (List.mem_append_right _ (ih later))
  have unique := focus.distinct
  have outside := focus.sentinel
  rw [List.map_append] at unique outside
  rw [List.mem_append, not_or] at outside
  intro clash
  rcases RbtreeC.ptr_mem T.nil t with isNil | inside
  · exact outside.2 (isNil ▸ clash ▸ listed)
  · exact (List.nodup_append.mp unique).2.2 _ inside _ listed clash

/-- What a rotation finds around the nodes that change places. -/
theorem rotation_apart {T : Rbtree}
    (focus : Focus T path (.join side cx near x (.join side cy inner y outer))) :
    (T.mem x.addr).child side.flip = y.addr ∧ (T.mem y.addr).child side = ptr T.nil inner ∧
      (T.mem x.addr).parent = above T.nil path ∧ x.addr ≠ y.addr ∧ ptr T.nil inner ≠ x.addr ∧
      ptr T.nil inner ≠ y.addr ∧
      ∀ frame ∈ path, frame.item.addr ≠ x.addr ∧ frame.item.addr ≠ y.addr ∧
        frame.item.addr ≠ ptr T.nil inner := by
  have whole := focus
  rw [← ColouredTree.join_flip] at focus
  have atY := focus.down
  have atInner := atY.down
  have far : (T.mem x.addr).child side.flip = y.addr := by
    rw [whole.read, RbtreeC.nodeOf_child_flip, RbtreeC.ptr_join]
  have near' : (T.mem y.addr).child side = ptr T.nil inner := by
    rw [atY.read, RbtreeC.nodeOf_child]
  have up : (T.mem x.addr).parent = above T.nil path := by
    rw [whole.read, RbtreeC.nodeOf_parent]
  have xy : y.addr ≠ x.addr := by
    have apart := ptr_ne_frame atY List.mem_cons_self
    rwa [RbtreeC.ptr_join] at apart
  refine ⟨far, near', up, xy.symm, ?_, ptr_ne_frame atInner List.mem_cons_self, ?_⟩
  · exact ptr_ne_frame atInner (List.mem_cons_of_mem _ List.mem_cons_self)
  · intro frame member
    have one := ptr_ne_frame whole member
    have two := ptr_ne_frame atY (List.mem_cons_of_mem _ member)
    rw [RbtreeC.ptr_join] at one two
    exact ⟨one.symm, two.symm,
      (ptr_ne_frame atInner (List.mem_cons_of_mem _ (List.mem_cons_of_mem _ member))).symm⟩

/-- The memory and the header after a rotation at `x`, whose far child is `y`, the near child of
`y` being `b`. Only below the root is the parent field of `x` looked at. -/
theorem rotate_eq (T : NgxRbtree) {x y b : Addr} (far : (T.mem x).child side.flip = y)
    (inner : (T.mem y).child side = b) (xy : x ≠ y) (bx : b ≠ x) (bNotY : b ≠ y)
    (below : x ≠ T.root → (T.mem x).parent ≠ x ∧ (T.mem x).parent ≠ y ∧ (T.mem x).parent ≠ b) :
    (rotate side T x).root = (if x = T.root then y else T.root) ∧
    (rotate side T x).sentinel = T.sentinel ∧
    ∀ a, (rotate side T x).mem a =
      if a = x then ((T.mem x).withChild side.flip b).withParent y
      else if a = y then ((T.mem y).withChild side x).withParent (T.mem x).parent
      else if a = b ∧ a ≠ T.sentinel then (T.mem a).withParent x
      else if a = (T.mem x).parent ∧ x ≠ T.root then
        (T.mem a).withChild (if x = (T.mem a).child side then side else side.flip) y
      else T.mem a := by
  unfold rotate
  extract_lets y' T1 T2 T3 T4 T5
  have sameY : y = y' := far.symm
  clear_value y'
  subst sameY
  have mem1 : ∀ a, T1.mem a = if a = x then (T.mem x).withChild side.flip b else T.mem a := by
    intro a
    simp only [T1, inner, NgxRbtree.setChild, mem_modify]
    split
    · rename_i same
      rw [same]
    · rfl
  have root1 : T1.root = T.root := rfl
  have sentinel1 : T1.sentinel = T.sentinel := rfl
  clear_value T1
  have near : (T1.mem y).child side = b := by rw [mem1, if_neg xy.symm, inner]
  have mem2 : ∀ a, T2.mem a =
      if a = b ∧ a ≠ T.sentinel then (T.mem a).withParent x else T1.mem a := by
    intro a
    simp only [T2, adoptChild, near, sentinel1]
    by_cases leaf : b = T.sentinel
    · rw [if_neg (not_not.mpr leaf), if_neg]
      rintro ⟨same, node⟩
      exact node (same.trans leaf)
    · rw [if_pos leaf, NgxRbtree.setParent, mem_modify]
      by_cases here : a = b
      · rw [if_pos here, if_pos ⟨here, here ▸ leaf⟩, mem1, if_neg (here ▸ bx)]
      · rw [if_neg here, if_neg (fun both => here both.1)]
  have root2 : T2.root = T.root := by
    simp only [T2, adoptChild]
    split
    · exact root1
    · exact root1
  have sentinel2 : T2.sentinel = T.sentinel := by
    simp only [T2, adoptChild]
    split
    · exact sentinel1
    · exact sentinel1
  clear_value T2
  have parent2 : (T2.mem x).parent = (T.mem x).parent := by
    rw [mem2, if_neg (fun both => bx both.1.symm), mem1, if_pos rfl]
    cases side <;> rfl
  have mem3 : ∀ a, T3.mem a =
      if a = y then (T.mem y).withParent (T.mem x).parent else T2.mem a := by
    intro a
    simp only [T3, NgxRbtree.setParent, mem_modify, parent2]
    split
    · rename_i here
      rw [here, mem2, if_neg (fun both => bNotY both.1.symm), mem1, if_neg xy.symm]
    · rfl
  have root3 : T3.root = T.root := root2
  have sentinel3 : T3.sentinel = T.sentinel := sentinel2
  clear_value T3
  have parent3 : (T3.mem x).parent = (T.mem x).parent := by rw [mem3, if_neg xy, parent2]
  have mem4 : ∀ a, T4.mem a =
      if a = (T.mem x).parent ∧ x ≠ T.root then
        (T.mem a).withChild (if x = (T.mem a).child side then side else side.flip) y
      else T3.mem a := by
    intro a
    simp only [T4, replaceChild, root3, parent3]
    by_cases top : x = T.root
    · rw [if_pos top, if_neg (fun both => both.2 top)]
      rfl
    · obtain ⟨px, py, pb⟩ := below top
      have untouched : T3.mem (T.mem x).parent = T.mem (T.mem x).parent := by
        rw [mem3, if_neg py, mem2, if_neg (fun both => pb both.1), mem1, if_neg px]
      rw [if_neg top, untouched]
      by_cases tested : x = (T.mem (T.mem x).parent).child side
      · rw [if_pos tested, NgxRbtree.setChild, mem_modify]
        by_cases here : a = (T.mem x).parent
        · subst here
          rw [if_pos rfl, untouched, if_pos ⟨rfl, top⟩, if_pos tested]
        · rw [if_neg here, if_neg (fun both => here both.1)]
      · rw [if_neg tested, NgxRbtree.setChild, mem_modify]
        by_cases here : a = (T.mem x).parent
        · subst here
          rw [if_pos rfl, untouched, if_pos ⟨rfl, top⟩, if_neg tested]
        · rw [if_neg here, if_neg (fun both => here both.1)]
  have root4 : T4.root = if x = T.root then y else T.root := by
    simp only [T4, replaceChild, root3]
    split
    · rfl
    · split <;> exact root3
  have sentinel4 : T4.sentinel = T.sentinel := by
    simp only [T4, replaceChild]
    split
    · exact sentinel3
    · split <;> exact sentinel3
  clear_value T4
  refine ⟨root4, sentinel4, ?_⟩
  intro a
  simp only [T5, NgxRbtree.setParent, NgxRbtree.setChild, mem_modify, mem4, mem3, mem2, mem1]
  by_cases atX : a = x
  · subst atX
    have notAbove : ¬ (a = (T.mem a).parent ∧ a ≠ T.root) := fun both => (below both.2).1 both.1.symm
    simp only [if_pos, if_neg xy, if_neg notAbove, if_neg (fun both : a = b ∧ _ => bx both.1.symm)]
  · by_cases atY : a = y
    · subst atY
      have notAbove : ¬ (a = (T.mem x).parent ∧ x ≠ T.root) := fun both =>
        (below both.2).2.1 both.1.symm
      simp only [if_pos, if_neg atX, if_neg notAbove]
      cases side <;> rfl
    · by_cases atB : a = b ∧ a ≠ T.sentinel
      · have notAbove : ¬ (a = (T.mem x).parent ∧ x ≠ T.root) := fun both =>
          (below both.2).2.2 (both.1.symm.trans atB.1)
        simp only [if_neg atX, if_neg atY, if_pos atB, if_neg notAbove]
      · simp only [if_neg atX, if_neg atY, if_neg atB]

/-- Where the shape is right, a rotation is that of `1. Data_structure/rbtree.c`. -/
theorem recode_rotate {T : NgxRbtree}
    (focus : Focus (recode T) path (.join side cx near x (.join side cy inner y outer))) :
    recode (rotate side T x.addr) = RbtreeC.rotate side (recode T) x.addr := by
  obtain ⟨far, near', up, xy, bx, bNotY, apart⟩ := rotation_apart focus
  have notRootY : y.addr ≠ T.root := by
    have turned := focus
    rw [← ColouredTree.join_flip] at turned
    have apart := turned.down.root_ne
    rwa [RbtreeC.ptr_join] at apart
  have notRootB : ptr T.sentinel inner ≠ T.root := by
    have turned := focus
    rw [← ColouredTree.join_flip] at turned
    exact turned.down.down.root_ne
  have nilX : x.addr ≠ T.sentinel := focus.addr_ne_nil
  have nilY : y.addr ≠ T.sentinel := by
    have turned := focus
    rw [← ColouredTree.join_flip] at turned
    exact turned.down.addr_ne_nil
  rw [recode_child] at far near'
  rw [recode_parent] at up
  have top : x.addr = T.root ↔ above T.sentinel path = T.sentinel := by
    cases path with
    | nil =>
      have root : T.root = x.addr := by
        have hung := focus.hung
        rwa [RbtreeC.ptr_join] at hung
      exact iff_of_true root.symm rfl
    | cons frame path =>
      have below := focus.root_ne
      rw [RbtreeC.ptr_join] at below
      exact iff_of_false below focus.up.addr_ne_nil
  have aboveNe : above T.sentinel path ≠ x.addr ∧ above T.sentinel path ≠ y.addr ∧
      (above T.sentinel path = ptr T.sentinel inner → above T.sentinel path = T.sentinel) := by
    cases path with
    | nil => exact ⟨nilX.symm, nilY.symm, fun _ => rfl⟩
    | cons frame path =>
      obtain ⟨notX, notY, notB⟩ := apart frame List.mem_cons_self
      exact ⟨notX, notY, fun same => absurd same notB⟩
  obtain ⟨px, py, pb⟩ := aboveNe
  have below : x.addr ≠ T.root → (T.mem x.addr).parent = above T.sentinel path ∧
      (T.mem x.addr).parent ≠ x.addr ∧ (T.mem x.addr).parent ≠ y.addr ∧
      (T.mem x.addr).parent ≠ ptr T.sentinel inner := by
    intro notTop
    have raw : (T.mem x.addr).parent = above T.sentinel path := by
      rw [← up_of_ne T x.addr notTop]
      exact up
    rw [raw]
    exact ⟨rfl, px, py, fun same => notTop (top.mpr (pb same))⟩
  obtain ⟨root, sentinel, mem⟩ := rotate_eq T far near' xy bx bNotY fun notTop => (below notTop).2
  have mem' := RbtreeC.mem_rotate side (recode T) (by rw [recode_child]; exact far)
    (by rw [recode_child]; exact near') (by rw [recode_parent]; exact up) xy bx px bNotY py pb
  have root' := RbtreeC.root_rotate side (recode T) (by rw [recode_child]; exact far)
    (by rw [recode_child]; exact near') rfl xy bx
  rw [recode_nil] at mem mem' root' up
  refine rbtree_ext ?_ ?_ fun a => ?_
  · rw [recode_root, root, root', recode_root, recode_parent, up]
    by_cases isTop : x.addr = T.root
    · rw [if_pos isTop, if_pos (top.mp isTop)]
    · rw [if_neg isTop, if_neg (fun none => isTop (top.mpr none))]
  · rw [recode_nil, sentinel, RbtreeC.nil_rotate, recode_nil]
  · rw [mem' a]
    show ((rotate side T x.addr).mem a).recode ((rotate side T x.addr).up a) = _
    rw [NgxRbtree.up, root, sentinel, mem a]
    by_cases atX : a = x.addr
    · have below' : a ≠ if x.addr = T.root then y.addr else T.root := by
        split
        · rw [atX]
          exact xy
        · rename_i notTop
          rw [atX]
          exact notTop
      rw [if_neg below', if_pos atX, if_pos atX]
      cases side <;> rfl
    · by_cases atY : a = y.addr
      · rw [if_neg atX, if_pos atY, if_neg atX, if_pos atY]
        by_cases isTop : x.addr = T.root
        · rw [if_pos isTop, if_pos atY, top.mp isTop]
          cases side <;> rfl
        · rw [if_neg isTop, if_neg (atY ▸ notRootY), ← (below isTop).1]
          cases side <;> rfl
      · have notNew : (a = if x.addr = T.root then y.addr else T.root) ↔ a = T.root := by
          by_cases isTop : x.addr = T.root
          · rw [if_pos isTop]
            exact iff_of_false atY (isTop ▸ atX)
          · rw [if_neg isTop]
        have header : ∀ parent, (if a = if x.addr = T.root then y.addr else T.root then T.sentinel
            else parent) = if a = T.root then T.sentinel else parent := by
          intro parent
          by_cases isRoot : a = T.root
          · rw [if_pos (notNew.mpr isRoot), if_pos isRoot]
          · rw [if_neg (fun here => isRoot (notNew.mp here)), if_neg isRoot]
        rw [header, if_neg atX, if_neg atY, if_neg atX, if_neg atY]
        by_cases atB : a = ptr T.sentinel inner ∧ a ≠ T.sentinel
        · have notRoot : a ≠ T.root := by
            rw [atB.1]
            exact notRootB
          rw [if_pos atB, if_pos atB, if_neg notRoot]
          rfl
        · rw [if_neg atB, if_neg atB]
          by_cases isTop : x.addr = T.root
          · have nowhere : ¬ (a = T.sentinel ∧ a ≠ T.sentinel) := fun both => both.2 both.1
            rw [if_neg (fun both => both.2 isTop), top.mp isTop, if_neg nowhere]
            rfl
          · obtain ⟨raw, -⟩ := below isTop
            have same : (a = (T.mem x.addr).parent ∧ x.addr ≠ T.root) ↔
                (a = above T.sentinel path ∧ a ≠ T.sentinel) := by
              rw [raw]
              constructor
              · rintro ⟨here, -⟩
                exact ⟨here, fun none => isTop (top.mpr (here ▸ none))⟩
              · rintro ⟨here, -⟩
                exact ⟨here, isTop⟩
            by_cases atP : a = above T.sentinel path ∧ a ≠ T.sentinel
            · rw [if_pos (same.mpr atP), if_pos atP]
              have keep : ∀ some child, (if a = T.root then T.sentinel
                  else ((T.mem a).withChild some child).parent) = T.up a := by
                intro some child
                unfold NgxRbtree.up
                split
                · rfl
                · cases some <;> rfl
              rw [recode_child, keep]
              split <;> cases side <;> rfl
            · rw [if_neg (fun here => atP (same.mp here)), if_neg atP]
              rfl

end rotation

end BackendCpp.Ngx
