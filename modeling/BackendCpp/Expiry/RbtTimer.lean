import BackendCpp.Expiry.Clock

/-!
# The timer of rbt-timer.h

The queue is a binary tree of deadlines. A new node descends as in
`ngx_rbtree_insert_timer_value`; after that, and when a node is deleted, the tree may take
any shape that keeps the order of its nodes.
-/

namespace BackendCpp.Expiry

/-- A tree of `ngx_rbtree_node_t` by their keys. -/
inductive RbTree where
  /-- The sentinel. -/
  | sentinel
  /-- A node with `left`, `key` and `right`. -/
  | node (left : RbTree) (key : UInt32) (right : RbTree)

namespace RbTree

/-- The keys in the order of the nodes. -/
def keys : RbTree → List UInt32
  | sentinel => []
  | node left key right => left.keys ++ key :: right.keys

/-- `ngx_rbtree_insert_timer_value`. -/
def insertTimerValue : RbTree → UInt32 → RbTree
  | sentinel, new => node sentinel new sentinel
  | node left key right, new =>
    if (new - key).toInt32 < 0 then node (left.insertTimerValue new) key right
    else node left key (right.insertTimerValue new)

/-- `ngx_rbtree_min`; the sentinel has none. -/
def min : RbTree → Option UInt32
  | sentinel => none
  | node sentinel key _ => some key
  | node (node left key right) _ _ => (node left key right).min

/-- `find_nearest_expire_timer` at a reading of the clock. -/
def findNearestExpireTimer (tree : RbTree) (now : UInt32) : Option Int :=
  match tree.min with
  | none => some (-1)
  | some key => some (nearest key now)

end RbTree

/-- The trees built by `add_timer`: the clock is read, the node inserted, the tree rebalanced. -/
inductive RbtBuilt : RbTree → Prop
  | init : RbtBuilt .sentinel
  | add {tree rebalanced : RbTree} (built : RbtBuilt tree) (now msec : UInt32)
      (same : rebalanced.keys = (tree.insertTimerValue (msec + now)).keys) : RbtBuilt rebalanced

/-- `expire_timer` at a reading: the keys whose handlers run, in order, and the tree it leaves.
The deleted node is the least one. -/
inductive RbtExpire (now : UInt32) : RbTree → List UInt32 → RbTree → Prop
  | empty : RbtExpire now .sentinel [] .sentinel
  | later {tree : RbTree} {key : UInt32} (least : tree.min = some key) (late : key > now) :
      RbtExpire now tree [] tree
  | run {tree deleted final : RbTree} {key : UInt32} {keys : List UInt32}
      (least : tree.min = some key) (due : ¬ key > now) (same : deleted.keys = tree.keys.tail)
      (rest : RbtExpire now deleted keys final) : RbtExpire now tree (key :: keys) final

/-- `expire_timer` at a reading runs a handler. -/
def RbtFires (tree : RbTree) (now : UInt32) : Prop :=
  ∃ key keys final, RbtExpire now tree (key :: keys) final

/-- A tree with one node for each key. -/
def RbTree.chain : List UInt32 → RbTree
  | [] => .sentinel
  | key :: rest => .node .sentinel key (chain rest)

/-- The chain has the keys it is made from. -/
theorem RbTree.keys_chain (keys : List UInt32) : (RbTree.chain keys).keys = keys := by
  induction keys with
  | nil => rfl
  | cons key rest ih => rw [chain, RbTree.keys, ih, RbTree.keys, List.nil_append]

/-- `expire_timer` returns on every tree. -/
theorem RbtExpire.exists (now : UInt32) (size : Nat) :
    ∀ tree : RbTree, tree.keys.length ≤ size → ∃ keys final, RbtExpire now tree keys final := by
  induction size with
  | zero =>
    intro tree short
    cases tree with
    | sentinel => exact ⟨[], .sentinel, .empty⟩
    | node left key right =>
      rw [RbTree.keys, List.length_append, List.length_cons] at short
      omega
  | succ size ih =>
    intro tree short
    cases least : tree.min with
    | none =>
      cases tree with
      | sentinel => exact ⟨[], .sentinel, .empty⟩
      | node left key right =>
        exfalso
        clear short ih
        induction left generalizing key right with
        | sentinel => cases least
        | node left' key' right' first _ => exact first key' right' least
    | some key =>
      by_cases late : key > now
      · exact ⟨[], tree, .later least late⟩
      · have smaller : (RbTree.chain tree.keys.tail).keys.length ≤ size := by
          rw [RbTree.keys_chain, List.length_tail]
          omega
        obtain ⟨keys, final, rest⟩ := ih _ smaller
        exact ⟨key :: keys, final, .run least late (RbTree.keys_chain _) rest⟩

/-- A handler runs exactly when the least key is due. -/
theorem rbtFires_iff {tree : RbTree} {key : UInt32} (least : tree.min = some key)
    (now : UInt32) : RbtFires tree now ↔ ¬ key > now := by
  constructor
  · intro fires
    obtain ⟨first, keys, final, expire⟩ := fires
    cases expire with
    | run found due same rest =>
      rw [least] at found
      rw [Option.some.inj found]
      exact due
  · intro due
    obtain ⟨keys, final, rest⟩ := RbtExpire.exists now _ (RbTree.chain tree.keys.tail) le_rfl
    exact ⟨key, keys, final, .run least due (RbTree.keys_chain _) rest⟩

/-- No handler runs on the sentinel. -/
theorem not_rbtFires {tree : RbTree} (empty : tree.min = none) (now : UInt32) :
    ¬ RbtFires tree now := by
  intro fires
  obtain ⟨first, keys, final, expire⟩ := fires
  cases expire with
  | run found due same rest =>
    rw [empty] at found
    cases found

/-- In rbt-timer.h the decisions agree exactly when the least key, if any, is near. -/
theorem rbt_agrees (tree : RbTree) (now : UInt32) :
    Agrees tree.findNearestExpireTimer (RbtFires tree) now ↔
      ∀ key, tree.min = some key → Near key now := by
  cases least : tree.min with
  | none =>
    constructor
    · intro _ key found
      cases found
    · intro _
      apply agrees_empty
      · rw [RbTree.findNearestExpireTimer, least]
      · exact not_rbtFires least
  | some key =>
    have found : tree.findNearestExpireTimer now = some (nearest key now) := by
      rw [RbTree.findNearestExpireTimer, least]
    rw [agrees_iff_near found (rbtFires_iff least)]
    · constructor
      · intro near other found
        exact Option.some.inj found ▸ near
      · intro all
        exact all key rfl

end BackendCpp.Expiry
