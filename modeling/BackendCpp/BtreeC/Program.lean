import BackendCpp.Library.Slots

/-!
# The B-tree of btree.c

Nodes are kept in a store under the number of their allocation; `free` takes a node out of the
store, and a number is not used again. Following `NULL` or a pointer to a node that is not in the
store is a fault, and so is an index outside `keys` or `childrens`. A loop variable that goes down
to `-1` is kept as one more than it is. A function that ends in a call of itself is a loop over its
calls; `calloc` succeeds. Keys are compared and copied only, and the numbers of keys are natural
numbers, since `2 * t` is taken to fit an `int`.
-/

namespace BackendCpp.BtreeC

open BackendCpp.Library

/-- An access that is undefined. -/
inductive Fault
  /-- `NULL` or a pointer to a freed node is followed. -/
  | dangling
  /-- An index is outside of its array. -/
  | outside
  deriving DecidableEq, Repr

/-- `btree_node`; the arrays have the length they are allocated with. -/
structure BtreeNode where
  /-- The keys. -/
  keys : List Int
  /-- The pointers to the children, `none` for `NULL`. -/
  childrens : List (Option Nat)
  /-- The number of keys. -/
  num : Nat
  /-- Whether the node is a leaf. -/
  leaf : Bool
  deriving DecidableEq

/-- `btree`, with the store of the nodes. -/
structure Btree where
  /-- The root, `none` for `NULL`. -/
  root : Option Nat
  /-- The degree. -/
  t : Nat
  /-- The nodes that are allocated. -/
  nodes : Nat → Option BtreeNode
  /-- The number of the next node. -/
  next : Nat
  /-- The nodes that have been freed, the last one first. -/
  freed : List Nat

namespace BtreeNode

/-- `node->keys[i]`. -/
def key (node : BtreeNode) (i : Nat) : Except Fault Int := fetch .outside node.keys i

/-- `node->childrens[i]`. -/
def child (node : BtreeNode) (i : Nat) : Except Fault (Option Nat) :=
  fetch .outside node.childrens i

/-- `node->keys[i] = k`. -/
def setKey (node : BtreeNode) (i : Nat) (k : Int) : Except Fault BtreeNode :=
  (assign .outside node.keys i k).map fun keys => { node with keys := keys }

/-- `node->childrens[i] = p`. -/
def setChild (node : BtreeNode) (i : Nat) (p : Option Nat) : Except Fault BtreeNode :=
  (assign .outside node.childrens i p).map fun childrens => { node with childrens := childrens }

end BtreeNode

namespace Btree

/-- The node a pointer points to. -/
def look (T : Btree) (pointer : Option Nat) : Except Fault BtreeNode :=
  match pointer with
  | none => .error .dangling
  | some address =>
    match T.nodes address with
    | none => .error .dangling
    | some node => .ok node

/-- `node` at `address`. -/
def put (T : Btree) (address : Nat) (node : BtreeNode) : Btree :=
  { T with nodes := Function.update T.nodes address (some node) }

/-- Assignments to the fields and arrays of the node a pointer points to. -/
def update (T : Btree) (pointer : Option Nat) (change : BtreeNode → Except Fault BtreeNode) :
    Except Fault Btree :=
  match pointer with
  | none => .error .dangling
  | some address =>
    match T.nodes address with
    | none => .error .dangling
    | some node =>
      match change node with
      | .error fault => .error fault
      | .ok changed => .ok (T.put address changed)

/-- The store without the node at `address`. -/
def drop (T : Btree) (address : Nat) : Btree :=
  { T with nodes := Function.update T.nodes address none, freed := address :: T.freed }

/-- `free(node)`. -/
def free (T : Btree) (pointer : Option Nat) : Except Fault Btree :=
  match pointer with
  | none => .error .dangling
  | some address =>
    match T.nodes address with
    | none => .error .dangling
    | some _ => .ok (T.drop address)

end Btree

/-- The node `btree_create_node` fills in. -/
def emptyNode (t : Nat) (leaf : Bool) : BtreeNode :=
  ⟨List.replicate (2 * t - 1) 0, List.replicate (2 * t) none, 0, leaf⟩

/-- The tree after `btree_create_node(t, leaf)`; the new node has the number `T.next`. -/
def btreeCreateNode (T : Btree) (leaf : Bool) : Btree :=
  { T with nodes := Function.update T.nodes T.next (some (emptyNode T.t leaf)), next := T.next + 1 }

/-- `btree_destroy_node(node)`: the arrays of a node leave the store with it. -/
def btreeDestroyNode (T : Btree) (node : Option Nat) : Except Fault Btree := T.free node

/-- `btree_create(T, t)` with nothing allocated. -/
def btreeCreate (t : Nat) : Btree :=
  { btreeCreateNode ⟨none, t, fun _ => none, 0, []⟩ true with root := some 0 }

/-- The new node of `btree_split_child`, filled from the upper half of `y`. -/
def splitRight (t : Nat) (y z : BtreeNode) : Except Fault BtreeNode := do
  let z ← countUp (fun j z => do z.setKey j (← y.key (j + t))) 0 (t - 1) { z with num := t - 1 }
  if y.leaf then .ok z
  else countUp (fun j z => do z.setChild j (← y.child (j + t))) 0 t z

/-- The parent in `btree_split_child`: `z` and `middle` are put in at `i`. -/
def splitParent (i : Nat) (z : Option Nat) (middle : Except Fault Int) (x : BtreeNode) :
    Except Fault BtreeNode := do
  let x ← countDown (fun j x => do x.setChild (j + 1) (← x.child j)) (i + 1) (x.num - i) x
  let x ← x.setChild (i + 1) z
  let x ← countDown (fun j x => do x.setKey (j + 1) (← x.key j)) i (x.num - i) x
  let x ← x.setKey i (← middle)
  .ok { x with num := x.num + 1 }

/-- `btree_split_child(T, x, i)`. -/
def btreeSplitChild (T : Btree) (x : Option Nat) (i : Nat) : Except Fault Btree := do
  let y ← (← T.look x).child i
  let upper ← T.look y
  let z := T.next
  let T := btreeCreateNode T upper.leaf
  let T ← T.update (some z) (splitRight T.t upper)
  let T ← T.update y fun y => .ok { y with num := T.t - 1 }
  T.update x (splitParent i (some z) (upper.key (T.t - 1)))

/-- `while (i >= 0 && x->keys[i] > k) { x->keys[i+1] = x->keys[i]; i --; }`; the place is `i + 1`. -/
def shiftGreater (k : Int) : Nat → BtreeNode → Except Fault (BtreeNode × Nat)
  | 0, x => .ok (x, 0)
  | place + 1, x => do
    let key ← x.key place
    if key > k then
      let x ← x.setKey (place + 1) key
      shiftGreater k place x
    else .ok (x, place + 1)

/-- `while (i >= 0 && x->keys[i] > k) i --;`; the place is `i + 1`. -/
def skipGreater (k : Int) (x : BtreeNode) : Nat → Except Fault Nat
  | 0 => .ok 0
  | place + 1 => do
    let key ← x.key place
    if key > k then skipGreater k x place else .ok (place + 1)

/-- The branch of `btree_insert_nonfull` for a leaf. -/
def insertIntoLeaf (k : Int) (x : BtreeNode) : Except Fault BtreeNode := do
  let (x, place) ← shiftGreater k x.num x
  let x ← x.setKey place k
  .ok { x with num := x.num + 1 }

/-- One call of `btree_insert_nonfull(T, x, k)`, up to the call it ends in. -/
def insertNonfullCall (k : Int) (call : Btree × Option Nat) :
    Except Fault (Btree × Option Nat ⊕ Btree) := do
  let (T, x) := call
  let node ← T.look x
  if node.leaf then do
    let T ← T.update x (insertIntoLeaf k)
    .ok (.inr T)
  else do
    let place ← skipGreater k node node.num
    let child ← node.child place
    if (← T.look child).num = 2 * T.t - 1 then do
      let T ← btreeSplitChild T x place
      let node ← T.look x
      let child ← node.child (if k > (← node.key place) then place + 1 else place)
      .ok (.inl (T, child))
    else .ok (.inl (T, child))

/-- `btree_insert_nonfull(T, x, k)`. -/
def btreeInsertNonfull (fuel : Nat) (T : Btree) (x : Option Nat) (k : Int) :
    Option (Except Fault Btree) :=
  loop (guarded (insertNonfullCall k)) fuel (T, x)

/-- `btree_insert(T, key)` up to its call of `btree_insert_nonfull`. -/
def insertCall (T : Btree) (key : Int) : Except Fault (Btree × Option Nat) := do
  let r := T.root
  if (← T.look r).num = 2 * T.t - 1 then do
    let node := T.next
    let T := { btreeCreateNode T false with root := some node }
    let T ← T.update (some node) fun node => node.setChild 0 r
    let T ← btreeSplitChild T (some node) 0
    let x ← T.look (some node)
    let child ← x.child (if (← x.key 0) < key then 1 else 0)
    .ok (T, child)
  else .ok (T, r)

/-- `btree_insert(T, key)`. -/
def btreeInsert (fuel : Nat) (T : Btree) (key : Int) : Option (Except Fault Btree) :=
  match insertCall T key with
  | .error fault => some (.error fault)
  | .ok (T, x) => btreeInsertNonfull fuel T x key

/-- `btree_traverse(x)`: the keys in the order they are printed. -/
def btreeTraverse (T : Btree) : Nat → Option Nat → ExceptT Fault Option (List Int)
  | 0, _ => ExceptT.mk none
  | fuel + 1, x => do
    let node ← ExceptT.mk (some (T.look x))
    let below : Nat → ExceptT Fault Option (List Int) := fun i =>
      if node.leaf then pure []
      else do btreeTraverse T fuel (← ExceptT.mk (some (node.child i)))
    let printed ← (List.range node.num).foldlM (fun printed i => do
      let before ← below i
      let k ← ExceptT.mk (some (node.key i))
      pure (printed ++ before ++ [k])) []
    let after ← below node.num
    pure (printed ++ after)

/-- The node on the left in `btree_merge`: the key between and all of `right` are appended. -/
def mergeLeft (t : Nat) (between : Except Fault Int) (right left : BtreeNode) :
    Except Fault BtreeNode := do
  let left ← left.setKey (t - 1) (← between)
  let left ← countUp (fun i left => do left.setKey (t + i) (← right.key i)) 0 (t - 1) left
  let left ← if left.leaf then .ok left
    else countUp (fun i left => do left.setChild (t + i) (← right.child i)) 0 t left
  .ok { left with num := left.num + t }

/-- The parent in `btree_merge`: the gap at `idx` is closed. -/
def mergeParent (idx : Nat) (node : BtreeNode) : Except Fault BtreeNode := do
  let node ← countUp (fun i node => do
    let node ← node.setKey (i - 1) (← node.key i)
    node.setChild i (← node.child (i + 1))) (idx + 1) (node.num - (idx + 1)) node
  let node ← node.setChild (max (idx + 1) node.num + 1) none
  .ok { node with num := node.num - 1 }

/-- `btree_merge(T, node, idx)`. -/
def btreeMerge (T : Btree) (node : Option Nat) (idx : Nat) : Except Fault Btree := do
  let x ← T.look node
  let left ← x.child idx
  let right ← x.child (idx + 1)
  let moved ← T.look right
  let T ← T.update left (mergeLeft T.t (x.key idx) moved)
  let T ← btreeDestroyNode T right
  let T ← T.update node (mergeParent idx)
  if (← T.look node).num = 0 then btreeDestroyNode { T with root := left } node
  else .ok T

/-- `while (idx < node->num && key > node->keys[idx]) idx ++;` with `left` keys to go. -/
def keyIndex (node : BtreeNode) (key : Int) : Nat → Nat → Except Fault Nat
  | idx, 0 => .ok idx
  | idx, left + 1 => do
    if key > (← node.key idx) then keyIndex node key (idx + 1) left else .ok idx

/-- `idx < node->num && key == node->keys[idx]`. -/
def keyFound (node : BtreeNode) (idx : Nat) (key : Int) : Except Fault Bool :=
  if idx < node.num then do
    let found ← node.key idx
    .ok (key == found)
  else .ok false

/-- The leaf of `btree_delete_key` without its key at `idx`. -/
def closeLeaf (idx : Nat) (node : BtreeNode) : Except Fault BtreeNode := do
  let node ← countUp (fun i node => do node.setKey i (← node.key (i + 1)))
    idx (node.num - 1 - idx) node
  let node ← node.setKey (node.num - 1) 0
  .ok { node with num := node.num - 1 }

/-- The branch of `btree_delete_key` for a key found in a leaf. -/
def deleteFromLeaf (T : Btree) (node : Option Nat) (idx : Nat) : Except Fault Btree := do
  let T ← T.update node (closeLeaf idx)
  if (← T.look node).num = 0 then do
    let T ← T.free node
    .ok { T with root := none }
  else .ok T

/-- The branches of `btree_delete_key` for a key found in a node with children. -/
def deleteFound (T : Btree) (node : Option Nat) (idx : Nat) (key : Int) :
    Except Fault (Btree × Option Nat × Int) := do
  let x ← T.look node
  let left ← x.child idx
  let leftNode ← T.look left
  if leftNode.num ≥ T.t then do
    let last ← leftNode.key (leftNode.num - 1)
    let T ← T.update node fun x => x.setKey idx last
    .ok (T, left, last)
  else do
    let right ← x.child (idx + 1)
    let rightNode ← T.look right
    if rightNode.num ≥ T.t then do
      let first ← rightNode.key 0
      let T ← T.update node fun x => x.setKey idx first
      .ok (T, right, first)
    else do
      let T ← btreeMerge T node idx
      let x ← T.look node
      .ok (T, ← x.child idx, key)

/-- The child in "borrow from next". -/
def borrowNextChild (between : Except Fault Int) (right child : BtreeNode) :
    Except Fault BtreeNode := do
  let child ← child.setKey child.num (← between)
  let child ← child.setChild (child.num + 1) (← right.child 0)
  .ok { child with num := child.num + 1 }

/-- The node on the right in "borrow from next". -/
def borrowNextRight (right : BtreeNode) : Except Fault BtreeNode := do
  let right ← countUp (fun i right => do
    let right ← right.setKey i (← right.key (i + 1))
    right.setChild i (← right.child (i + 1))) 0 (right.num - 1) right
  let right ← right.setKey (right.num - 1) 0
  let right ← right.setChild (right.num - 1) (← right.child right.num)
  let right ← right.setChild right.num none
  .ok { right with num := right.num - 1 }

/-- "borrow from next". -/
def borrowNext (T : Btree) (node : Option Nat) (idx : Nat) (child right : Option Nat) :
    Except Fault Btree := do
  let x ← T.look node
  let rightNode ← T.look right
  let T ← T.update child (borrowNextChild (x.key idx) rightNode)
  let first ← rightNode.key 0
  let T ← T.update node fun x => x.setKey idx first
  T.update right borrowNextRight

/-- The child in "borrow from prev". -/
def borrowPrevChild (between : Except Fault Int) (left child : BtreeNode) :
    Except Fault BtreeNode := do
  let child ← countDown (fun i child => do
    let child ← child.setKey i (← child.key (i - 1))
    child.setChild (i + 1) (← child.child i)) 1 child.num child
  let child ← child.setChild 1 (← child.child 0)
  let child ← child.setChild 0 (← left.child left.num)
  let child ← child.setKey 0 (← between)
  .ok { child with num := child.num + 1 }

/-- The node on the left in "borrow from prev". -/
def borrowPrevLeft (left : BtreeNode) : Except Fault BtreeNode := do
  let left ← left.setKey (left.num - 1) 0
  let left ← left.setChild left.num none
  .ok { left with num := left.num - 1 }

/-- "borrow from prev". -/
def borrowPrev (T : Btree) (node : Option Nat) (idx : Nat) (child left : Option Nat) :
    Except Fault Btree := do
  let x ← T.look node
  let leftNode ← T.look left
  let T ← T.update child (borrowPrevChild (x.key (idx - 1)) leftNode)
  let last ← leftNode.key (leftNode.num - 1)
  let T ← T.update node fun x => x.setKey (idx - 1) last
  T.update left borrowPrevLeft

/-- `sibling && sibling->num >= T->t`. -/
def rich (T : Btree) (sibling : Option Nat) : Except Fault Bool :=
  if sibling = none then .ok false
  else do
    let node ← T.look sibling
    .ok (decide (node.num ≥ T.t))

/-- `sibling && sibling->num == T->t - 1`. -/
def poor (T : Btree) (sibling : Option Nat) : Except Fault Bool :=
  if sibling = none then .ok false
  else do
    let node ← T.look sibling
    .ok (decide (node.num = T.t - 1))

/-- `richR`. -/
def richR (T : Btree) (left right : Option Nat) : Except Fault Bool :=
  if left = none ∨ right = none then .ok (decide (right ≠ none))
  else do
    let leftNode ← T.look left
    let rightNode ← T.look right
    .ok (decide (rightNode.num > leftNode.num))

/-- What `btree_delete_key` does about a child with `T->t - 1` keys; the child to go on with. -/
def refill (T : Btree) (node : Option Nat) (idx : Nat) (child : Option Nat) :
    Except Fault (Btree × Option Nat) := do
  let x ← T.look node
  let left ← if 1 ≤ idx then x.child (idx - 1) else .ok none
  let right ← if idx + 1 ≤ x.num then x.child (idx + 1) else .ok none
  let leftRich ← rich T left
  let rightRich ← rich T right
  if leftRich || rightRich then do
    if rightRich && (← richR T left right) then do
      let T ← borrowNext T node idx child right
      .ok (T, child)
    else do
      let T ← borrowPrev T node idx child left
      .ok (T, child)
  else do
    let leftPoor ← poor T left
    let rightPoor ← poor T right
    if (left = none || leftPoor) && (right = none || rightPoor) then
      if leftPoor then do
        let T ← btreeMerge T node (idx - 1)
        .ok (T, left)
      else if rightPoor then do
        let T ← btreeMerge T node idx
        .ok (T, child)
      else .ok (T, child)
    else .ok (T, child)

/-- The branches of `btree_delete_key` for a key that is not found in the node. -/
def deleteBelow (T : Btree) (node : Option Nat) (idx : Nat) (key : Int) :
    Except Fault (Btree × Option Nat × Int ⊕ Btree) := do
  let x ← T.look node
  let child ← x.child idx
  if child = none then .ok (.inr T)
  else if (← T.look child).num = T.t - 1 then do
    let (T, child) ← refill T node idx child
    .ok (.inl (T, child, key))
  else .ok (.inl (T, child, key))

/-- One call of `btree_delete_key(T, node, key)`, up to the call it ends in. -/
def deleteKeyCall (call : Btree × Option Nat × Int) :
    Except Fault (Btree × Option Nat × Int ⊕ Btree) := do
  let (T, node, key) := call
  if node = none then .ok (.inr T)
  else do
    let x ← T.look node
    let idx ← keyIndex x key 0 x.num
    if ← keyFound x idx key then
      if x.leaf then do
        let T ← deleteFromLeaf T node idx
        .ok (.inr T)
      else do
        let call ← deleteFound T node idx key
        .ok (.inl call)
    else deleteBelow T node idx key

/-- `btree_delete_key(T, node, key)`. -/
def btreeDeleteKey (fuel : Nat) (T : Btree) (node : Option Nat) (key : Int) :
    Option (Except Fault Btree) :=
  loop (guarded deleteKeyCall) fuel (T, node, key)

/-- `btree_delete(T, key)`: the tree afterwards and the value returned. -/
def btreeDelete (fuel : Nat) (T : Btree) (key : Int) : Option (Except Fault (Btree × Int)) :=
  if T.root = none then some (.ok (T, -1))
  else (btreeDeleteKey fuel T T.root key).map fun result => result.map fun T => (T, 0)

end BackendCpp.BtreeC
