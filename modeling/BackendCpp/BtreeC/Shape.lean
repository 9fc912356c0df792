import BackendCpp.BtreeC.Contents

/-!
# Trees in the store

A tree is described by its nodes, and the store holds it when each address has the node and no
address occurs twice. The number of levels is given with the tree, so its leaves have the same
depth. A change of the store evolves one tree to another when it keeps the address of the tree and
leaves all other nodes as they are; changes of a subtree are changes of the tree.
-/

namespace BackendCpp.BtreeC

open BackendCpp.Library

/-- A node with its subtrees. -/
structure Tree where
  /-- The address. -/
  address : Nat
  /-- The keys. -/
  keys : List Int
  /-- The subtrees; a leaf has none. -/
  children : List Tree

/-- What the store has at an address. -/
structure Entry where
  /-- The address. -/
  address : Nat
  /-- Whether the node is a leaf. -/
  leaf : Bool
  /-- The keys. -/
  keys : List Int
  /-- The addresses of the children. -/
  children : List Nat
  deriving DecidableEq

namespace Tree

/-- The node itself, with a number of levels below it. -/
def entry (n : Nat) (x : Tree) : Entry := ⟨x.address, n == 0, x.keys, x.children.map address⟩

/-- The nodes of a tree with a number of levels. -/
def entries : Nat → Tree → List Entry
  | 0, _ => []
  | n + 1, x => x.entry n :: x.children.flatMap (entries n)

/-- The addresses of a tree. -/
def addresses (n : Nat) (x : Tree) : List Nat := (x.entries n).map Entry.address

/-- The keys of a tree in order. -/
def inorder : Nat → Tree → List Int
  | 0, _ => []
  | n + 1, x => weave x.keys (x.children.map (inorder n))

/-- The numbers of keys and children: a node that is not the root has `t - 1` to `2 * t - 1` keys, a
node with children has one more of them, and the leaves are on the last level. -/
def Filled (t : Nat) : Nat → Tree → Prop
  | 0, _ => False
  | n + 1, x => Fits (n == 0) x.keys x.children ∧ x.keys.length ≤ 2 * t - 1 ∧
      ∀ c ∈ x.children, t - 1 ≤ c.keys.length ∧ Filled t n c

/-- The node in focus. -/
def ofFocus (address : Nat) (f : Focus Int Tree) : Tree := ⟨address, f.keys, f.children⟩

/-- The nodes beside the subtree in focus. -/
def others (n : Nat) (f : Focus Int Tree) : List Entry :=
  (f.front.map Prod.fst ++ f.back.map Prod.snd).flatMap (entries n)

/-- The nodes of a tree are its root, those of the subtree in focus and the others. -/
theorem entries_focus (a n : Nat) (f : Focus Int Tree) :
    ((ofFocus a f).entries (n + 1)).Perm
      ((ofFocus a f).entry n :: (f.child.entries n ++ others n f)) := by
  refine List.Perm.cons _ ?_
  have moved : f.children.Perm (f.child :: (f.front.map Prod.fst ++ f.back.map Prod.snd)) := by
    rw [Focus.children]
    exact List.perm_middle.trans (List.Perm.cons _ ((List.reverse_perm _).append_right _))
  exact moved.flatMap_right (entries n)

/-- The nodes beside a subtree are those of the next subtree and the others. -/
theorem others_next (n : Nat) (front : List (Tree × Int)) (u v w : Tree) (m : Int)
    (back : List (Int × Tree)) :
    (others n ⟨front, u, (m, v) :: back⟩).Perm (v.entries n ++ others n ⟨front, w, back⟩) := by
  have moved : (front.map Prod.fst ++ v :: back.map Prod.snd).Perm
      (v :: (front.map Prod.fst ++ back.map Prod.snd)) := List.perm_middle
  exact moved.flatMap_right (entries n)

/-- The nodes of a tree are its root, the root of the subtree in focus and the rest. -/
theorem entries_single (a n : Nat) (f : Focus Int Tree) :
    ((ofFocus a f).entries (n + 2)).Perm
      ([(ofFocus a f).entry (n + 1), f.child.entry n] ++
        (f.child.children.flatMap (entries n) ++ others (n + 1) f)) :=
  entries_focus a (n + 1) f

/-- The nodes of a tree are its root, the roots of two neighbours and the rest. -/
theorem entries_pair (a n : Nat) (front : List (Tree × Int)) (u v w : Tree) (m : Int)
    (back : List (Int × Tree)) :
    ((ofFocus a ⟨front, u, (m, v) :: back⟩).entries (n + 2)).Perm
      ([(ofFocus a ⟨front, u, (m, v) :: back⟩).entry (n + 1), u.entry n, v.entry n] ++
        ((u.children ++ v.children).flatMap (entries n) ++ others (n + 1) ⟨front, w, back⟩)) := by
  have next := others_next (n + 1) front u v w m back
  have rest : ((u.children.flatMap (entries n)) ++ others (n + 1) ⟨front, u, (m, v) :: back⟩).Perm
      (v.entry n :: ((u.children ++ v.children).flatMap (entries n) ++
        others (n + 1) ⟨front, w, back⟩)) := by
    rw [List.flatMap_append, List.append_assoc]
    exact (next.append_left _).trans List.perm_middle
  exact (entries_single a n _).trans ((rest.cons _).cons _)

/-- The pointers to the subtrees on both sides. -/
theorem child_addresses (f : Focus Int Tree) :
    f.children.map address = f.left.map address ++ f.child.address :: f.right.map address := by
  rw [Focus.children_eq, List.map_append, List.map_cons]

/-- A node in focus is read as its focus is. -/
theorem inorder_focus (a n : Nat) (f : Focus Int Tree) :
    (ofFocus a f).inorder (n + 1) = f.text (inorder n) :=
  Focus.weave_eq (inorder n) f

/-- The focus moves over a key. -/
theorem ofFocus_next (a : Nat) (front : List (Tree × Int)) (u : Tree) (m : Int) (v : Tree)
    (back : List (Int × Tree)) :
    ofFocus a ⟨front, u, (m, v) :: back⟩ = ofFocus a ⟨(u, m) :: front, v, back⟩ := by
  simp [ofFocus, Focus.keys, Focus.children]

/-- A node with children is the node in focus. -/
theorem eq_ofFocus {x : Tree} {f : Focus Int Tree} (keys : f.keys = x.keys)
    (children : f.children = x.children) : ofFocus x.address f = x := by
  rw [ofFocus, keys, children]
  cases x
  rfl

/-- A node with children has a focus on each of them. -/
theorem exists_focus {x : Tree} {i : Nat} (fit : Fits false x.keys x.children)
    (inside : i ≤ x.keys.length) :
    ∃ f : Focus Int Tree, ofFocus x.address f = x ∧ f.children = x.children ∧
      i = f.left.length := by
  obtain ⟨f, low, high, children⟩ := @Focus.exists_at Int Tree (x.keys.take i) (x.keys.drop i)
    x.children (by rw [List.take_append_drop]; exact fit)
  refine ⟨f, eq_ofFocus ?_ children, children, ?_⟩
  · rw [Focus.keys_eq, low, high, List.take_append_drop]
  · rw [← Focus.low_length, low, List.length_take, Nat.min_eq_left inside]

/-- A subtree as its parent has it. -/
def Below (t n : Nat) (c : Tree) : Prop := t - 1 ≤ c.keys.length ∧ c.Filled t n

/-- The numbers of keys and children of a node in focus. -/
theorem filled_focus {t n a : Nat} {f : Focus Int Tree} :
    (ofFocus a f).Filled t (n + 2) ↔ f.keys.length ≤ 2 * t - 1 ∧ f.child.Below t (n + 1) ∧
      (∀ pair ∈ f.front, pair.1.Below t (n + 1)) ∧ ∀ pair ∈ f.back, pair.2.Below t (n + 1) := by
  have all : (∀ c ∈ f.children, c.Below t (n + 1)) ↔ f.child.Below t (n + 1) ∧
      (∀ pair ∈ f.front, pair.1.Below t (n + 1)) ∧ ∀ pair ∈ f.back, pair.2.Below t (n + 1) := by
    simp only [Focus.children, List.forall_mem_append, List.forall_mem_cons, List.mem_reverse,
      List.forall_mem_map]
    exact and_left_comm
  rw [← all]
  exact and_iff_right f.fits

/-- A node that is two nodes with a key between them; below it are a number of levels. -/
structure Joins (n : Nat) (x u : Tree) (m : Int) (v : Tree) : Prop where
  /-- The keys. -/
  keys : x.keys = u.keys ++ m :: v.keys
  /-- The children. -/
  children : x.children = u.children ++ v.children
  /-- The numbers on the left. -/
  first : Fits (n == 0) u.keys u.children
  /-- The numbers on the right. -/
  second : Fits (n == 0) v.keys v.children

/-- The keys of a node that is two nodes. -/
theorem Joins.inorder {n : Nat} {x u v : Tree} {m : Int} (joins : Joins n x u m v) :
    x.inorder (n + 1) = u.inorder (n + 1) ++ m :: v.inorder (n + 1) := by
  rw [Tree.inorder, Tree.inorder, Tree.inorder, joins.keys, joins.children, List.map_append]
  exact weave_append m ((Fits.map _).mpr joins.first) ((Fits.map _).mpr joins.second)

/-- Joining two neighbours changes nothing about the keys. -/
theorem inorder_joins {n : Nat} {x u v : Tree} {m : Int} (joins : Joins n x u m v) (a b : Nat)
    (front : List (Tree × Int)) (back : List (Int × Tree)) :
    (ofFocus a ⟨front, x, back⟩).inorder (n + 2) =
      (ofFocus b ⟨front, u, (m, v) :: back⟩).inorder (n + 2) := by
  rw [inorder_focus, inorder_focus, Focus.text, Focus.text, joins.inorder]
  simp

/-- The two parts of a node with enough keys. -/
theorem Joins.filled {t n : Nat} {x u v : Tree} {m : Int} (joins : Joins n x u m v)
    (filled : x.Filled t (n + 1)) : u.Filled t (n + 1) ∧ v.Filled t (n + 1) := by
  obtain ⟨-, room, below⟩ := filled
  rw [joins.keys, List.length_append, List.length_cons] at room
  rw [joins.children] at below
  exact ⟨⟨joins.first, by omega, fun c member => below c (List.mem_append_left _ member)⟩,
    ⟨joins.second, by omega, fun c member => below c (List.mem_append_right _ member)⟩⟩

/-- Two parts that there is room for. -/
theorem Joins.of_filled {t n : Nat} {x u v : Tree} {m : Int} (joins : Joins n x u m v)
    (left : u.Filled t (n + 1)) (right : v.Filled t (n + 1)) (room : x.keys.length ≤ 2 * t - 1) :
    x.Filled t (n + 1) := by
  refine ⟨?_, room, ?_⟩
  · rw [joins.keys, joins.children]
    exact Fits.append m joins.first joins.second
  · intro c member
    rw [joins.children] at member
    cases List.mem_append.mp member with
    | inl before => exact left.2.2 c before
    | inr after => exact right.2.2 c after

end Tree

namespace Btree

/-- The store has the node. -/
def Shown (T : Btree) (e : Entry) : Prop :=
  ∃ node, T.nodes e.address = some node ∧ Shows T.t node e.leaf e.keys e.children

/-- The store has the nodes of a tree, each at an address of its own. -/
structure Holds (T : Btree) (n : Nat) (x : Tree) : Prop where
  /-- Every node is there. -/
  shown : ∀ e ∈ x.entries n, T.Shown e
  /-- No two nodes are at one address. -/
  nodup : (x.addresses n).Nodup

/-- What every store is. -/
structure Sane (T : Btree) : Prop where
  /-- A number that is not given out yet is not in the store. -/
  fresh : ∀ a, T.next ≤ a → T.nodes a = none
  /-- A freed node is not in the store. -/
  gone : ∀ a ∈ T.freed, T.nodes a = none
  /-- A freed node has been allocated. -/
  past : ∀ a ∈ T.freed, a < T.next
  /-- A node is freed once. -/
  once : T.freed.Nodup

variable {T T' T'' : Btree} {n : Nat} {x x' x'' : Tree} {a : Nat} {node : BtreeNode}

/-- A node in the store has been allocated. -/
theorem Sane.lt_next (sane : T.Sane) (there : T.nodes a = some node) : a < T.next := by
  by_contra late
  rw [sane.fresh a (not_lt.mp late)] at there
  cases there

/-- Following a pointer to a node in the store. -/
theorem look_some (there : T.nodes a = some node) : T.look (some a) = .ok node := by
  simp only [look, there]

/-- Following a pointer to a node that is not in the store. -/
theorem look_gone (gone : T.nodes a = none) : T.look (some a) = .error .dangling := by
  simp only [look, gone]

/-- Assigning to a node in the store. -/
theorem update_some {change : BtreeNode → Except Fault BtreeNode} {changed : BtreeNode}
    (there : T.nodes a = some node) (result : change node = .ok changed) :
    T.update (some a) change = .ok (T.put a changed) := by
  simp only [update, there, result]

/-- An assignment that is undefined. -/
theorem update_error {change : BtreeNode → Except Fault BtreeNode} {fault : Fault}
    (there : T.nodes a = some node) (result : change node = .error fault) :
    T.update (some a) change = .error fault := by
  simp only [update, there, result]

/-- Freeing a node in the store. -/
theorem free_some (there : T.nodes a = some node) : T.free (some a) = .ok (T.drop a) := by
  simp only [free, there]

/-- The node that has been put. -/
@[simp] theorem put_self : (T.put a node).nodes a = some node := Function.update_self _ _ _

/-- Another node than the one that has been put. -/
theorem put_other {b : Nat} (other : b ≠ a) : (T.put a node).nodes b = T.nodes b :=
  Function.update_of_ne other _ _

/-- The node that has been freed. -/
@[simp] theorem drop_self : (T.drop a).nodes a = none := Function.update_self _ _ _

/-- Another node than the one that has been freed. -/
theorem drop_other {b : Nat} (other : b ≠ a) : (T.drop a).nodes b = T.nodes b :=
  Function.update_of_ne other _ _

/-- The node that has been allocated. -/
@[simp] theorem create_self {leaf : Bool} :
    (btreeCreateNode T leaf).nodes T.next = some (emptyNode T.t leaf) := Function.update_self _ _ _

/-- Another node than the one that has been allocated. -/
theorem create_other {leaf : Bool} {b : Nat} (other : b ≠ T.next) :
    (btreeCreateNode T leaf).nodes b = T.nodes b := Function.update_of_ne other _ _

/-- Storing a node keeps the degree. -/
@[simp] theorem put_t : (T.put a node).t = T.t := rfl

/-- Freeing a node keeps the degree. -/
@[simp] theorem drop_t : (T.drop a).t = T.t := rfl

/-- Allocating a node keeps the degree. -/
@[simp] theorem create_t {leaf : Bool} : (btreeCreateNode T leaf).t = T.t := rfl

/-- Assigning to a node keeps the store sane. -/
theorem Sane.put {changed : BtreeNode} (sane : T.Sane) (there : T.nodes a = some node) :
    (T.put a changed).Sane where
  fresh b late := by
    have differs : b ≠ a := (lt_of_lt_of_le (sane.lt_next there) late).ne'
    rw [put_other differs]
    exact sane.fresh b late
  gone b freed := by
    have differs : b ≠ a := by
      rintro rfl
      rw [sane.gone b freed] at there
      cases there
    rw [put_other differs]
    exact sane.gone b freed
  past := sane.past
  once := sane.once

/-- Freeing a node keeps the store sane. -/
theorem Sane.drop (sane : T.Sane) (there : T.nodes a = some node) : (T.drop a).Sane where
  fresh b late := by
    have differs : b ≠ a := (lt_of_lt_of_le (sane.lt_next there) late).ne'
    rw [drop_other differs]
    exact sane.fresh b late
  gone b freed := by
    by_cases same : b = a
    · rw [same]
      exact drop_self
    · rw [drop_other same]
      exact sane.gone b (List.mem_of_ne_of_mem same freed)
  past b freed := by
    cases List.mem_cons.mp freed with
    | inl same => rw [same]; exact sane.lt_next there
    | inr old => exact sane.past b old
  once := by
    refine List.nodup_cons.mpr ⟨fun freed => ?_, sane.once⟩
    rw [sane.gone a freed] at there
    cases there

/-- Allocating a node keeps the store sane. -/
theorem Sane.create {leaf : Bool} (sane : T.Sane) : (btreeCreateNode T leaf).Sane where
  fresh b late := by
    have differs : b ≠ T.next := (Nat.lt_of_succ_le late).ne'
    exact (Function.update_of_ne differs _ _).trans (sane.fresh b (Nat.le_of_succ_le late))
  gone b freed :=
    (Function.update_of_ne (sane.past b freed).ne _ _).trans (sane.gone b freed)
  past b freed := (sane.past b freed).trans (Nat.lt_succ_self _)
  once := sane.once

/-- The addresses of a tree in the store have been allocated. -/
theorem Holds.lt_next (holds : T.Holds n x) (sane : T.Sane) : ∀ a ∈ x.addresses n, a < T.next := by
  intro a member
  obtain ⟨e, entry, rfl⟩ := List.mem_map.mp member
  obtain ⟨node, there, -⟩ := holds.shown e entry
  exact sane.lt_next there

/-- The root of a tree in the store. -/
theorem Holds.root (holds : T.Holds (n + 1) x) :
    ∃ node, T.nodes x.address = some node ∧
      Shows T.t node (n == 0) x.keys (x.children.map Tree.address) :=
  holds.shown (x.entry n) List.mem_cons_self

/-- A node in the store is the root of a tree. -/
theorem shown_entry (there : T.nodes x.address = some node)
    (shows : Shows T.t node (n == 0) x.keys (x.children.map Tree.address)) :
    T.Shown (x.entry n) := ⟨node, there, shows⟩

/-- A node in the store is the node in focus. -/
theorem shown_focus {f : Focus Int Tree} (there : T.nodes a = some node)
    (shows : Shows T.t node false (f.low ++ f.high)
      (f.left.map Tree.address ++ f.child.address :: f.right.map Tree.address)) :
    T.Shown ((Tree.ofFocus a f).entry (n + 1)) := by
  rw [← Tree.child_addresses] at shows
  exact ⟨node, there, shows⟩

/-- The node in focus in the store. -/
theorem Holds.focus {f : Focus Int Tree} (holds : T.Holds (n + 2) (Tree.ofFocus a f)) :
    ∃ node, T.nodes a = some node ∧ Shows T.t node false (f.low ++ f.high)
      (f.left.map Tree.address ++ f.child.address :: f.right.map Tree.address) := by
  obtain ⟨node, there, shows⟩ := holds.root
  rw [← Tree.child_addresses]
  exact ⟨node, there, shows⟩

/-- The node in focus is not its subtree. -/
theorem Holds.apart {f : Focus Int Tree} (holds : T.Holds (n + 2) (Tree.ofFocus a f)) :
    f.child.address ≠ a := by
  have parts := ((Tree.entries_single a n f).map Entry.address).nodup_iff.mp holds.nodup
  intro same
  rw [List.cons_append, List.map_cons] at parts
  refine (List.nodup_cons.mp parts).1 ?_
  rw [List.cons_append, List.map_cons]
  exact List.mem_cons.mpr (.inl same.symm)

/-- A subtree of a tree in the store. -/
theorem Holds.child {f : Focus Int Tree} (holds : T.Holds (n + 1) (Tree.ofFocus a f)) :
    T.Holds n f.child := by
  have parts := Tree.entries_focus a n f
  constructor
  · intro e member
    exact holds.shown e (parts.mem_iff.mpr (List.mem_cons_of_mem _ (List.mem_append_left _ member)))
  · have whole := (parts.map Entry.address).nodup_iff.mp holds.nodup
    rw [List.map_cons, List.map_append] at whole
    exact (List.nodup_append.mp (List.nodup_cons.mp whole).2).1

/-- The store changes a tree to another one and nothing besides. -/
structure Evolves (T T' : Btree) (n : Nat) (x x' : Tree) : Prop where
  /-- The store stays sane. -/
  sane : T'.Sane
  /-- The new tree is in the store. -/
  holds : T'.Holds n x'
  /-- Its root is where it was. -/
  address : x'.address = x.address
  /-- The degree stays. -/
  degree : T'.t = T.t
  /-- The root of the whole tree stays. -/
  root : T'.root = T.root
  /-- Numbers are given out in order. -/
  next : T.next ≤ T'.next
  /-- The nodes of the new tree are old ones of the tree or new ones. -/
  within : ∀ a ∈ x'.addresses n, a ∈ x.addresses n ∨ T.next ≤ a
  /-- The other nodes stay. -/
  frame : ∀ a < T.next, a ∉ x.addresses n → T'.nodes a = T.nodes a

/-- Nothing changes. -/
theorem Evolves.refl (sane : T.Sane) (holds : T.Holds n x) : Evolves T T n x x :=
  ⟨sane, holds, rfl, rfl, rfl, le_rfl, fun _ member => .inl member, fun _ _ _ => rfl⟩

/-- One change after another. -/
theorem Evolves.trans (first : Evolves T T' n x x') (second : Evolves T' T'' n x' x'') :
    Evolves T T'' n x x'' where
  sane := second.sane
  holds := second.holds
  address := second.address.trans first.address
  degree := second.degree.trans first.degree
  root := second.root.trans first.root
  next := first.next.trans second.next
  within a member := by
    cases second.within a member with
    | inl old => exact first.within a old
    | inr new => exact .inr (first.next.trans new)
  frame a old outside := by
    rw [second.frame a (lt_of_lt_of_le old first.next), first.frame a old outside]
    intro member
    cases first.within a member with
    | inl inside => exact outside inside
    | inr new => exact absurd old (not_lt.mpr new)

/-- A change of some nodes of a tree. -/
theorem Evolves.of_rewrite {changed changed' kept : List Entry} (sane : T.Sane)
    (holds : T.Holds n x) (sane' : T'.Sane) (address : x'.address = x.address)
    (degree : T'.t = T.t) (root : T'.root = T.root) (next : T.next ≤ T'.next)
    (old : (x.entries n).Perm (changed ++ kept)) (new : (x'.entries n).Perm (changed' ++ kept))
    (shown : ∀ e ∈ changed', T'.Shown e) (nodup : (changed'.map Entry.address).Nodup)
    (within : ∀ a ∈ changed'.map Entry.address, a ∈ changed.map Entry.address ∨ T.next ≤ a)
    (frame : ∀ a < T.next, a ∉ changed.map Entry.address → T'.nodes a = T.nodes a) :
    Evolves T T' n x x' := by
  have oldAddresses := old.map Entry.address
  have newAddresses := new.map Entry.address
  rw [List.map_append] at oldAddresses newAddresses
  have apart := List.nodup_append.mp (oldAddresses.nodup_iff.mp holds.nodup)
  have keptOld : ∀ a ∈ kept.map Entry.address, a < T.next := fun a member =>
    holds.lt_next sane a (oldAddresses.mem_iff.mpr (List.mem_append_right _ member))
  have stays : ∀ a ∈ kept.map Entry.address, T'.nodes a = T.nodes a := fun a member =>
    frame a (keptOld a member) fun inside => apart.2.2 a inside a member rfl
  refine ⟨sane', ⟨?_, ?_⟩, address, degree, root, next, ?_, ?_⟩
  · intro e member
    cases List.mem_append.mp (new.mem_iff.mp member) with
    | inl moved => exact shown e moved
    | inr stayed =>
      obtain ⟨node, there, shows⟩ :=
        holds.shown e (old.mem_iff.mpr (List.mem_append_right _ stayed))
      rw [← degree] at shows
      exact ⟨node, (stays e.address (List.mem_map_of_mem stayed)).trans there, shows⟩
  · rw [Tree.addresses, newAddresses.nodup_iff]
    refine List.nodup_append.mpr ⟨nodup, apart.2.1, fun a moved b stayed same => ?_⟩
    subst same
    cases within a moved with
    | inl inside => exact apart.2.2 a inside a stayed rfl
    | inr fresh => exact absurd (keptOld a stayed) (not_lt.mpr fresh)
  · intro a member
    cases List.mem_append.mp (newAddresses.mem_iff.mp member) with
    | inl moved =>
      cases within a moved with
      | inl inside => exact .inl (oldAddresses.mem_iff.mpr (List.mem_append_left _ inside))
      | inr fresh => exact .inr fresh
    | inr stayed => exact .inl (oldAddresses.mem_iff.mpr (List.mem_append_right _ stayed))
  · intro a allocated outside
    exact frame a allocated fun inside =>
      outside (oldAddresses.mem_iff.mpr (List.mem_append_left _ inside))

/-- A change of the subtree in focus is a change of the tree. -/
theorem Evolves.child {f : Focus Int Tree} {c : Tree} (sane : T.Sane)
    (holds : T.Holds (n + 1) (Tree.ofFocus a f)) (below : Evolves T T' n f.child c) :
    Evolves T T' (n + 1) (Tree.ofFocus a f) (Tree.ofFocus a { f with child := c }) := by
  have same : (Tree.ofFocus a { f with child := c }).entry n = (Tree.ofFocus a f).entry n := by
    simp [Tree.entry, Tree.ofFocus, Focus.keys, Focus.children, below.address]
  have old := Tree.entries_focus a n f
  have new := Tree.entries_focus a n { f with child := c }
  rw [same] at new
  exact .of_rewrite sane holds below.sane rfl below.degree below.root below.next
    (old.trans List.perm_middle.symm) (new.trans List.perm_middle.symm) below.holds.shown
    below.holds.nodup below.within below.frame

/-- Reading a node is reading what is below it with the keys between. -/
theorem traverse_node {leaf : Bool} {keys : List Int} {children : List Nat}
    {texts : List (List Int)} {below : Nat → ExceptT Fault Option (List Int)}
    (shows : Shows T.t node leaf keys children) (number : texts.length = keys.length + 1)
    (read : ∀ i ≤ keys.length, below i = pure (texts[i]?.getD [])) :
    (do
      let printed ← (List.range keys.length).foldlM (fun printed i => do
        let before ← below i
        let k ← ExceptT.mk (some (node.key i))
        pure (printed ++ before ++ [k])) []
      let after ← below keys.length
      pure (printed ++ after)) = pure (weave keys texts) := by
  have pass : ∀ text, ∀ i < keys.length, (do
      let before ← below i
      let k ← ExceptT.mk (some (node.key i))
      pure (text ++ before ++ [k])) =
      (pure (text ++ (texts[i]?.getD [] ++ keys[i]?.toList)) :
        ExceptT Fault Option (List Int)) := by
    intro text i less
    have parts : keys = keys.take i ++ keys[i] :: keys.drop (i + 1) := by
      rw [← List.drop_eq_getElem_cons less, List.take_append_drop]
    have key : ExceptT.mk (some (node.key i)) = (pure keys[i] : ExceptT Fault Option Int) := by
      rw [parts] at shows
      rw [shows.key_at (by rw [List.length_take]; omega)]
      rfl
    rw [read i less.le, key]
    simp [List.getElem?_eq_getElem less]
  rw [foldlM_append pass, pure_bind, read keys.length le_rfl, pure_bind, weave_eq_flatMap number]

/-- A tree in the store is read in order. -/
theorem traverse_spec {t : Nat} (fuel : Nat) : ∀ {n : Nat} {x : Tree}, T.Holds n x → x.Filled t n →
    n ≤ fuel → btreeTraverse T fuel (some x.address) = pure (x.inorder n) := by
  induction fuel with
  | zero =>
    intro n x _ filled less
    rw [Nat.le_zero.mp less] at filled
    exact absurd filled id
  | succ fuel ih =>
    intro n x holds filled less
    cases n with
    | zero => exact absurd filled id
    | succ n =>
      obtain ⟨node, there, shows⟩ := holds.root
      have look : ExceptT.mk (some (T.look (some x.address))) =
          (pure node : ExceptT Fault Option BtreeNode) := by
        rw [look_some there]
        rfl
      rw [btreeTraverse, look, pure_bind]
      simp only [shows.kind, shows.count]
      cases n with
      | zero =>
        rw [Tree.inorder, filled.1.nil, List.map_nil, weave_nil]
        nth_rewrite 3 [← weave_replicate x.keys]
        refine traverse_node shows List.length_replicate fun i _ => ?_
        simp [List.getElem?_replicate]
        split <;> rfl
      | succ n =>
        have number : x.children.length = x.keys.length + 1 := filled.1
        refine traverse_node shows (by rw [List.length_map, number]) fun i inside => ?_
        obtain ⟨f, whole, children, place⟩ := Tree.exists_focus filled.1 inside
        rw [← children, Tree.child_addresses] at shows
        rw [← whole] at holds filled
        have child := (Tree.filled_focus.mp filled).2.1
        rw [shows.child_at (by rw [List.length_map]; exact place)]
        have text : (x.children.map (Tree.inorder (n + 1)))[i]? =
            some (f.child.inorder (n + 1)) := by
          rw [← children, Focus.children_eq, place]
          simp
        rw [text, Option.getD_some, ← ih holds.child child.2 (by omega)]
        simp
        rfl

end Btree

end BackendCpp.BtreeC
