import BackendCpp.RbtreeC.Spelling
import BackendCpp.RbtreeH.Program

/-!
# One memory in two codings

A colour byte of `rbtree.h` is one less than the byte of `rbtree.c` for the same colour, and
the nodes are the same otherwise. `recode` reads a memory of the one as a memory of the other,
so the shapes of `rbtree.c` and the lemmas about its writes describe the memories of
`rbtree.h` too. Where the shape is right, a rotation is the rotation of `rbtree.c`.
-/

namespace BackendCpp.RbtreeH

open BackendCpp.Library
open RbtreeC (Addr RbtreeNode Rbtree Cell Focus Sentinel RED BLACK code ptr above pathCells nodeOf)

/-- A node in the coding of `rbtree.c`. -/
def recodeNode (node : RbtreeNode) : RbtreeNode := node.withColor (node.color + 1)

/-- The coding does not touch the children. -/
theorem recodeNode_withChild (node : RbtreeNode) (side : Side) (child : Addr) :
    recodeNode (node.withChild side child) = (recodeNode node).withChild side child := by
  cases side <;> rfl

/-- A memory in the coding of `rbtree.c`. -/
def recode (T : Rbtree) : Rbtree := { T with mem := fun a => recodeNode (T.mem a) }

section reads

variable (T : Rbtree) (a : Addr)

/-- The root is kept. -/
@[simp] theorem recode_root : (recode T).root = T.root := rfl

/-- The sentinel is kept. -/
@[simp] theorem recode_nil : (recode T).nil = T.nil := rfl

/-- Left children are kept. -/
@[simp] theorem recode_left : ((recode T).mem a).left = (T.mem a).left := rfl

/-- Right children are kept. -/
@[simp] theorem recode_right : ((recode T).mem a).right = (T.mem a).right := rfl

/-- Parents are kept. -/
@[simp] theorem recode_parent : ((recode T).mem a).parent = (T.mem a).parent := rfl

/-- Keys are kept. -/
@[simp] theorem recode_key : ((recode T).mem a).key = (T.mem a).key := rfl

/-- Values are kept. -/
@[simp] theorem recode_value : ((recode T).mem a).value = (T.mem a).value := rfl

/-- Children are kept on either side. -/
@[simp] theorem recode_child (side : Side) :
    ((recode T).mem a).child side = (T.mem a).child side := by
  cases side <;> rfl

/-- The red nodes are the same. -/
theorem recode_red : ((recode T).mem a).color = RED ↔ (T.mem a).color = red := by
  show (T.mem a).color + 1 = 0 + 1 ↔ (T.mem a).color = 0
  exact UInt8.add_left_inj 1

/-- The black nodes are the same. -/
theorem recode_black : ((recode T).mem a).color = BLACK ↔ (T.mem a).color = black := by
  show (T.mem a).color + 1 = 1 + 1 ↔ (T.mem a).color = 1
  exact UInt8.add_left_inj 1

end reads

/-- Two trees with the same header and the same memory are the same. -/
theorem eq_of_mem {T T' : Rbtree} (root : T.root = T'.root) (nil : T.nil = T'.nil)
    (mem : ∀ a, T.mem a = T'.mem a) : T = T' := by
  cases T
  cases T'
  simp only [Rbtree.mk.injEq]
  exact ⟨root, nil, funext mem⟩

section writes

variable (T : Rbtree) (a : Addr)

/-- A rewrite of one node, in the other coding. -/
theorem recode_modify {change change' : RbtreeNode → RbtreeNode}
    (same : ∀ node, recodeNode (change node) = change' (recodeNode node)) :
    recode (T.modify a change) = (recode T).modify a change' := by
  refine eq_of_mem rfl rfl fun b => ?_
  show recodeNode ((T.modify a change).mem b) = _
  rw [Rbtree.mem_modify, Rbtree.mem_modify]
  split
  · exact same _
  · rfl

/-- Setting the root is setting it in the other coding. -/
@[simp] theorem recode_setRoot : recode (T.setRoot a) = (recode T).setRoot a := rfl

/-- Setting a parent is setting it in the other coding. -/
@[simp] theorem recode_setParent (parent : Addr) :
    recode (T.setParent a parent) = (recode T).setParent a parent :=
  recode_modify T a fun _ => rfl

/-- Setting a child is setting it in the other coding. -/
@[simp] theorem recode_setChild (side : Side) (child : Addr) :
    recode (T.setChild a side child) = (recode T).setChild a side child :=
  recode_modify T a fun node => recodeNode_withChild node side child

/-- Setting a colour is setting the next byte in the other coding. -/
theorem recode_setColor (color : UInt8) :
    recode (T.setColor a color) = (recode T).setColor a (color + 1) :=
  recode_modify T a fun _ => rfl

/-- A flip of a colour, in the other coding. -/
theorem recode_changeColor : recode (changeColor T a) =
    (recode T).setColor a (if ((recode T).mem a).color = RED then BLACK else RED) := by
  unfold changeColor
  rw [recode_setColor, apply_ite (· + 1)]
  simp only [recode_red]
  rfl

/-- A rotation of `rbtree.c` does the same in either coding. -/
theorem recode_rotate (side : Side) :
    recode (RbtreeC.rotate side T a) = RbtreeC.rotate side (recode T) a := by
  have adopt : ∀ (T : Rbtree) x y,
      recode (RbtreeC.adoptChild side T x y) = RbtreeC.adoptChild side (recode T) x y := by
    intro T x y
    unfold RbtreeC.adoptChild
    simp only [recode_child, recode_nil]
    split
    · exact recode_setParent ..
    · rfl
  have replace : ∀ (T : Rbtree) x y,
      recode (RbtreeC.replaceChild side T x y) = RbtreeC.replaceChild side (recode T) x y := by
    intro T x y
    unfold RbtreeC.replaceChild
    simp only [recode_child, recode_parent, recode_nil]
    split
    · rfl
    · split <;> exact recode_setChild ..
  unfold RbtreeC.rotate
  simp only [recode_setParent, recode_setChild, replace, adopt, recode_child]
  simp only [← recode_setChild, ← adopt, recode_parent]

end writes

/-- Where a node is the root exactly when it has no parent, and the child that changes sides is
not the node itself, the rotation is that of `rbtree.c`. -/
theorem rotate_eq {side : Side} {T : Rbtree} {x : Addr}
    (header : x = T.root ↔ (T.mem x).parent = T.nil)
    (apart : (T.mem ((T.mem x).child side.flip)).child side ≠ x) :
    rotate side T x = RbtreeC.rotate side T x := by
  have replace : ∀ (T' : Rbtree) y, T'.root = T.root → T'.nil = T.nil →
      (T'.mem x).parent = (T.mem x).parent →
      replaceChild side T' x y = RbtreeC.replaceChild side T' x y := by
    intro T' y root nil parent
    unfold replaceChild RbtreeC.replaceChild
    rw [root, nil, parent]
    by_cases top : x = T.root
    · rw [if_pos top, if_pos (header.mp top)]
    · rw [if_neg top, if_neg (fun none => top (header.mpr none))]
      by_cases here : x = (T'.mem (T.mem x).parent).child side
      · rw [if_pos here, if_pos here.symm]
      · rw [if_neg here, if_neg (Ne.symm here)]
  unfold rotate RbtreeC.rotate
  extract_lets y T1 T2 T3 T4 T5 T4' T5'
  have parent1 : (T1.mem x).parent = (T.mem x).parent := by
    simp only [T1, Rbtree.mem_setChild, if_pos, RbtreeC.withChild_parent]
  have child1 : (T1.mem y).child side = (T.mem y).child side := by
    simp only [T1, Rbtree.mem_setChild]
    split
    · cases side <;> rfl
    · rfl
  have parent2 : (T2.mem x).parent = (T.mem x).parent := by
    simp only [T2, RbtreeC.mem_adoptChild, child1]
    rw [if_neg (fun both => apart both.1.symm), parent1]
  have parent3 : (T3.mem x).parent = (T.mem x).parent := by
    simp only [T3, Rbtree.mem_setParent]
    split
    · exact parent2
    · exact parent2
  have same : replaceChild side T3 x y = RbtreeC.replaceChild side T3 x y := by
    refine replace T3 y ?_ ?_ parent3
    · simp only [T3, T2, T1, Rbtree.root_setParent, RbtreeC.root_adoptChild, Rbtree.root_setChild]
    · simp only [T3, T2, T1, Rbtree.nil_setParent, RbtreeC.nil_adoptChild, Rbtree.nil_setChild]
  simp only [T5, T5', T4, T4', same]

end BackendCpp.RbtreeH
