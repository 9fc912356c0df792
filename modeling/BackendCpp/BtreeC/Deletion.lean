import BackendCpp.BtreeC.DeleteCalls

/-!
# Deletion

The calls of `btree_delete_key` follow the descent from the root to the leaf. A deletion that
neither writes behind an array nor reads a freed root takes one key out of the text of the tree,
and the text stays in order unless the key that replaces the deleted one is not next to it.
-/

namespace BackendCpp.BtreeC

open BackendCpp.Library

namespace Btree

variable {T T' T'' : Btree} {n a : Nat} {key : Int}

/-- What a deletion leaves of a tree. -/
structure Deleted (key : Int) (T T' : Btree) (n : Nat) (x x' : Tree) : Prop where
  /-- Only the tree changes. -/
  evolves : Evolves T T' n x x'
  /-- The numbers of keys and children. -/
  filled : x'.Filled T.t n
  /-- The node has at most one key less. -/
  number : x.keys.length ≤ x'.keys.length + 1
  /-- The key is gone once. -/
  erased : Ascending (x.inorder n) → (x'.inorder n).Perm ((x.inorder n).erase key)
  /-- The order is kept if no key is misplaced. -/
  sorted : Ascending (x.inorder n) → (Ascending (x'.inorder n) ↔ ¬ Tree.Misplaced T.t n x key)

/-- A deletion from a leaf. -/
theorem LeafLeft.deleted {x : Tree} {keys : List Int} (left : LeafLeft key T T' x keys)
    (filled : x.Filled T.t 1) : Deleted key T T' 1 x ⟨x.address, keys, []⟩ := by
  have empty : x.children = [] := filled.1.nil
  have text : x.inorder 1 = x.keys := by rw [Tree.inorder, empty, List.map_nil, weave_nil]
  have text' : (⟨x.address, keys, []⟩ : Tree).inorder 1 = keys := weave_nil keys
  refine ⟨left.evolves, ⟨rfl, left.fewer.trans filled.2.1, fun c none => ?_⟩, left.number,
    fun sorted => ?_, fun sorted => ?_⟩
  · exact absurd none List.not_mem_nil
  · rw [text] at sorted ⊢
    rw [text', left.erased sorted]
  · rw [text] at sorted
    rw [text', left.erased sorted]
    refine iff_of_true ?_ (Tree.not_misplaced_leaf empty)
    exact sorted.sublist List.erase_sublist

/-- A deletion below a node is one from the node. -/
theorem Deleted.of_child {x c : Tree} {f : Focus Int Tree} (two : 2 ≤ T.t)
    (filled : x.Filled T.t (n + 2)) (placed : Tree.place key x = some f)
    (whole : Tree.ofFocus x.address f = x) (places : Tree.Places key f) (neighbour : f.keys ≠ [])
    (evolves : Evolves T T' (n + 2) x (Tree.ofFocus x.address (Tree.descend T.t key f).1))
    (below : Deleted (Tree.descend T.t key f).2 T' T'' (n + 1) (Tree.descend T.t key f).1.child c) :
    Deleted key T T'' (n + 2) x
      (Tree.ofFocus x.address { (Tree.descend T.t key f).1 with child := c }) := by
  have order := below.sorted
  rw [evolves.degree] at order
  have texts := Tree.text_deleted two filled placed whole places neighbour below.erased order
  have read := Tree.inorder_focus x.address (n + 1) { (Tree.descend T.t key f).1 with child := c }
  rw [← whole] at filled
  have passes := (Tree.descend_descends key two filled neighbour).passes two filled
  obtain ⟨total, child, before, after⟩ := Tree.filled_focus.mp passes.filled
  have enough := passes.enough
  have number := below.number
  have own := below.filled
  rw [evolves.degree] at own
  have size : x.keys.length = f.keys.length := congrArg (fun y => y.keys.length) whole.symm
  refine ⟨evolves.trans (.child evolves.sane evolves.holds below.evolves), ?_, ?_,
    fun sorted => ?_, fun sorted => ?_⟩
  · refine Tree.filled_focus.mpr ⟨total, ⟨?_, own⟩, before, after⟩
    change T.t - 1 ≤ c.keys.length
    omega
  · rw [size]
    exact passes.number
  · rw [read]
    exact (texts sorted).1
  · rw [read]
    exact (texts sorted).2

/-- `btree_delete_key` from a node with enough keys. -/
def DeletesAt (n : Nat) : Prop :=
  ∀ {T : Btree} {x : Tree} (key : Int), T.Sane → T.Holds n x → x.Filled T.t n →
    T.t ≤ x.keys.length → 2 ≤ T.t →
    (Tree.Overfull T.t n x key →
      Leaves (fun fuel => btreeDeleteKey fuel T (some x.address) key) (.error .outside)) ∧
    (¬ Tree.Overfull T.t n x key → ∃ T' x',
      Leaves (fun fuel => btreeDeleteKey fuel T (some x.address) key) (.ok T') ∧
      Deleted key T T' n x x')

/-- The next call, for the child in focus. -/
theorem DeletesAt.child {f : Focus Int Tree} (deletes : DeletesAt (n + 1)) (two : 2 ≤ T.t)
    (filled : (Tree.ofFocus a f).Filled T.t (n + 2)) (neighbour : f.keys ≠ []) (sane : T'.Sane)
    (degree : T'.t = T.t) (holds : T'.Holds (n + 1) (Tree.descend T.t key f).1.child) :
    (Tree.Overfull T.t (n + 1) (Tree.descend T.t key f).1.child (Tree.descend T.t key f).2 →
      Leaves (fun fuel => btreeDeleteKey fuel T' (some (Tree.descend T.t key f).1.child.address)
        (Tree.descend T.t key f).2) (.error .outside)) ∧
    (¬ Tree.Overfull T.t (n + 1) (Tree.descend T.t key f).1.child (Tree.descend T.t key f).2 →
      ∃ T'' c, Leaves (fun fuel => btreeDeleteKey fuel T'
          (some (Tree.descend T.t key f).1.child.address) (Tree.descend T.t key f).2) (.ok T'') ∧
        Deleted (Tree.descend T.t key f).2 T' T'' (n + 1) (Tree.descend T.t key f).1.child c) := by
  have passes := (Tree.descend_descends key two filled neighbour).passes two filled
  obtain ⟨-, child, -, -⟩ := Tree.filled_focus.mp passes.filled
  have deeper := deletes (Tree.descend T.t key f).2 sane holds (by rw [degree]; exact child.2)
    (by rw [degree]; exact passes.enough) (by rw [degree]; exact two)
  rw [degree] at deeper
  exact deeper

/-- `btree_delete_key` writes behind an array if it merges two children of a full node, and deletes
the key otherwise. -/
theorem btreeDeleteKey_spec (n : Nat) : DeletesAt (n + 1) := by
  induction n with
  | zero =>
    intro T x key sane holds filled enough two
    have empty : x.children = [] := filled.1.nil
    have left := (deleteKeyCall_leaf key sane holds filled (by omega)).resolve_right fun alone => by
      have size := congrArg List.length alone.1
      rw [List.length_singleton] at size
      omega
    obtain ⟨-, T', keys, call, left⟩ := left
    refine ⟨fun wrong => absurd wrong (Tree.not_overfull_leaf empty), fun _ => ?_⟩
    exact ⟨T', _, leaves_now (guarded_leave call), left.deleted filled⟩
  | succ n ih =>
    intro T x key sane holds filled enough two
    obtain ⟨f, placed, whole, places⟩ := Tree.exists_place key filled.1
    have size : x.keys.length = f.keys.length := congrArg (fun y => y.keys.length) whole.symm
    have neighbour : f.keys ≠ [] := List.ne_nil_of_length_pos (by omega)
    have holds' := holds
    have filled' := filled
    rw [← whole] at holds' filled'
    have descends := Tree.descend_descends key two filled' neighbour
    have unfreed : ¬ Tree.Frees T.t key f := fun freed => by
      have single := freed.1
      omega
    rw [Tree.overfull_iff placed]
    by_cases first : Tree.Merges T.t key f ∧ f.keys.length = 2 * T.t - 1
    · have call := deleteKeyCall_full sane holds' filled' two places descends first.1 first.2
      refine ⟨fun _ => leaves_now (guarded_fail call), fun none => absurd (.inl first) none⟩
    · obtain ⟨T', call, evolves⟩ := deleteKeyCall_regular sane holds' filled' two places descends
        fun merges => ⟨fun full => first ⟨merges, full⟩, by omega⟩
      rw [whole] at evolves
      have deeper := ih.child two filled' neighbour evolves.sane evolves.degree evolves.holds.child
      refine ⟨fun overfull => ?_, fun fits => ?_⟩
      · have below := (overfull.resolve_left first).2
        exact leaves_next (guarded_next call) (deeper.1 below)
      · obtain ⟨T'', c, leaves, below⟩ := deeper.2 fun below => fits (.inr ⟨unfreed, below⟩)
        exact ⟨T'', _, leaves_next (guarded_next call) leaves,
          below.of_child two filled placed whole places neighbour evolves⟩

/-- What `btree_delete` leaves of a tree from the root: nothing, or a tree without the key. -/
structure Remains (key : Int) (T T' : Btree) (n : Nat) (x : Tree) : Prop where
  /-- The degree stays. -/
  degree : T'.t = T.t
  /-- The store stays sane. -/
  sane : T'.Sane
  /-- The key was the last one, or there is a tree from the root. -/
  rest : T'.root = none ∧ n = 0 ∧ x.keys = [key] ∨ ∃ n' x', Rooted T' n' x' ∧
    (Ascending (x.inorder (n + 1)) → (x'.inorder (n' + 1)).Perm ((x.inorder (n + 1)).erase key) ∧
      (Ascending (x'.inorder (n' + 1)) ↔ ¬ Tree.Misplaced T.t (n + 1) x key))

/-- `btree_delete` of a tree with a root. -/
theorem leaves_btreeDelete {result : Except Fault Btree} (root : T.root = some a)
    (leaves : Leaves (fun fuel => btreeDeleteKey fuel T (some a) key) result) :
    Leaves (fun fuel => btreeDelete fuel T key) (result.map fun T => (T, 0)) := by
  simp only [btreeDelete, root, reduceCtorEq, if_false]
  exact leaves.map _

/-- A tree from the root that a deletion has changed. -/
theorem Deleted.remains {x x' : Tree} (rooted : Rooted T n x)
    (deleted : Deleted key T T' (n + 1) x x') (grown : 0 < n → x'.keys ≠ []) :
    Remains key T T' n x := by
  refine ⟨deleted.evolves.degree, deleted.evolves.sane, .inr ⟨n, x', ?_, fun sorted =>
    ⟨deleted.erased sorted, deleted.sorted sorted⟩⟩⟩
  refine ⟨deleted.evolves.sane, ?_, deleted.evolves.holds, ?_, grown⟩
  · rw [deleted.evolves.root, deleted.evolves.address, rooted.root]
  · rw [deleted.evolves.degree]
    exact deleted.filled

/-- A deletion that has merged the children of the root goes on in the new root. -/
theorem Deleted.lowered {x c : Tree} {f : Focus Int Tree} (two : 2 ≤ T.t)
    (filled : x.Filled T.t (n + 2)) (placed : Tree.place key x = some f)
    (whole : Tree.ofFocus x.address f = x) (places : Tree.Places key f) (single : f.keys.length = 1)
    (merges : Tree.Merges T.t key f) (degree : T'.t = T.t)
    (root : T'.root = some (Tree.descend T.t key f).1.child.address)
    (below : Deleted (Tree.descend T.t key f).2 T' T'' (n + 1) (Tree.descend T.t key f).1.child c) :
    Remains key T T'' (n + 1) x := by
  have neighbour : f.keys ≠ [] := List.ne_nil_of_length_pos (by omega)
  have order := below.sorted
  rw [degree] at order
  have texts := Tree.text_deleted two filled placed whole places neighbour below.erased order
  rw [← whole] at filled
  have passes := (Tree.descend_descends key two filled neighbour).passes two filled
  have enough := passes.enough
  have number := below.number
  have own := below.filled
  rw [Tree.Merges, single] at merges
  have alone : (Tree.descend T.t key f).1.front = [] ∧ (Tree.descend T.t key f).1.back = [] := by
    have none := List.length_eq_zero_iff.mp (Nat.lt_one_iff.mp merges)
    simpa [Focus.keys] using none
  rw [alone.1, alone.2, Focus.before_nil, Focus.after_nil, List.nil_append,
    List.append_nil] at texts
  refine ⟨below.evolves.degree.trans degree, below.evolves.sane, .inr ⟨n, c, ?_, texts⟩⟩
  refine ⟨below.evolves.sane, ?_, below.evolves.holds, ?_, fun _ => ?_⟩
  · rw [below.evolves.root, root, below.evolves.address]
  · rw [below.evolves.degree]
    exact own
  · exact List.ne_nil_of_length_pos (by omega)

/-- `btree_delete` writes behind an array if it merges two children of a full node, follows a node
it has freed if it frees the root for the key, and deletes the key otherwise. -/
theorem btreeDelete_spec {x : Tree} (key : Int) (rooted : Rooted T n x) (two : 2 ≤ T.t) :
    (Tree.Overfull T.t (n + 1) x key →
      Leaves (fun fuel => btreeDelete fuel T key) (.error .outside)) ∧
    (Tree.RootFreed T.t x key →
      Leaves (fun fuel => btreeDelete fuel T key) (.error .dangling)) ∧
    (¬ Tree.Overfull T.t (n + 1) x key → ¬ Tree.RootFreed T.t x key → ∃ T',
      Leaves (fun fuel => btreeDelete fuel T key) (.ok (T', 0)) ∧ Remains key T T' n x) := by
  cases n with
  | zero =>
    have empty : x.children = [] := rooted.filled.1.nil
    refine ⟨fun wrong => absurd wrong (Tree.not_overfull_leaf empty), fun wrong => ?_,
      fun _ _ => ?_⟩
    · obtain ⟨c, r, -, children, -⟩ := wrong
      rw [empty] at children
      cases children
    · rcases deleteKeyCall_leaf key rooted.sane rooted.holds rooted.filled (by omega) with
        ⟨-, T', keys, call, left⟩ | ⟨alone, T', call, sane, root, degree⟩
      · have leaves := leaves_btreeDelete rooted.root (leaves_now (guarded_leave call))
        exact ⟨T', leaves, (left.deleted rooted.filled).remains rooted
          fun wrong => absurd wrong (lt_irrefl 0)⟩
      · have leaves := leaves_btreeDelete rooted.root (leaves_now (guarded_leave call))
        exact ⟨T', leaves, degree, sane, .inl ⟨root, rfl, alone⟩⟩
  | succ n =>
    have filled := rooted.filled
    obtain ⟨f, placed, whole, places⟩ := Tree.exists_place key filled.1
    have size : x.keys.length = f.keys.length := congrArg (fun y => y.keys.length) whole.symm
    have positive := List.length_pos_iff.mpr (rooted.grown n.succ_pos)
    have neighbour : f.keys ≠ [] := List.ne_nil_of_length_pos (by omega)
    have holds' := rooted.holds
    have filled' := rooted.filled
    rw [← whole] at holds' filled'
    have descends := Tree.descend_descends key two filled' neighbour
    rw [Tree.overfull_iff placed, Tree.rootFreed_iff two filled placed whole]
    by_cases first : Tree.Merges T.t key f ∧ f.keys.length = 2 * T.t - 1
    · have call := deleteKeyCall_full rooted.sane holds' filled' two places descends first.1 first.2
      refine ⟨fun _ => leaves_btreeDelete rooted.root (leaves_now (guarded_fail call)),
        fun freed => ?_, fun none => absurd (.inl first) none⟩
      have single := freed.1
      omega
    by_cases freed : Tree.Frees T.t key f
    · have call := deleteKeyCall_freed rooted.sane holds' filled' two places descends freed.2.2
        freed.1 freed.2.1
      refine ⟨fun overfull => ?_, fun _ => leaves_btreeDelete rooted.root
        (leaves_now (guarded_fail call)), fun _ none => absurd freed none⟩
      exact absurd freed (overfull.resolve_left first).1
    by_cases lowers : Tree.Merges T.t key f ∧ f.keys.length = 1
    · obtain ⟨T', call, sane, root, degree, holds⟩ := deleteKeyCall_lowered rooted.sane holds'
        filled' two places descends lowers.1 lowers.2 fun found => freed ⟨lowers.2, found, lowers.1⟩
      have deeper := DeletesAt.child (btreeDeleteKey_spec n) two filled' neighbour sane degree holds
      refine ⟨fun overfull => ?_, fun none => absurd none freed, fun fits _ => ?_⟩
      · have below := (overfull.resolve_left first).2
        exact leaves_btreeDelete rooted.root (leaves_next (guarded_next call) (deeper.1 below))
      · obtain ⟨T'', c, leaves, below⟩ := deeper.2 fun below => fits (.inr ⟨freed, below⟩)
        refine ⟨T'', leaves_btreeDelete rooted.root (leaves_next (guarded_next call) leaves), ?_⟩
        exact below.lowered two filled placed whole places lowers.2 lowers.1 degree root
    · obtain ⟨T', call, evolves⟩ := deleteKeyCall_regular rooted.sane holds' filled' two places
        descends fun merges =>
          ⟨fun full => first ⟨merges, full⟩, fun single => lowers ⟨merges, single⟩⟩
      rw [whole] at evolves
      have deeper := DeletesAt.child (btreeDeleteKey_spec n) two filled' neighbour evolves.sane
        evolves.degree evolves.holds.child
      refine ⟨fun overfull => ?_, fun none => absurd none freed, fun fits _ => ?_⟩
      · have below := (overfull.resolve_left first).2
        exact leaves_btreeDelete rooted.root (leaves_next (guarded_next call) (deeper.1 below))
      · obtain ⟨T'', c, leaves, below⟩ := deeper.2 fun below => fits (.inr ⟨freed, below⟩)
        refine ⟨T'', leaves_btreeDelete rooted.root (leaves_next (guarded_next call) leaves), ?_⟩
        refine (below.of_child two filled placed whole places neighbour evolves).remains rooted
          fun _ => ?_
        have number := (descends.passes two filled').number
        change (Tree.descend T.t key f).1.keys ≠ []
        refine List.ne_nil_of_length_pos ?_
        by_contra none
        refine lowers ⟨?_, by omega⟩
        rw [Tree.Merges]
        omega

/-- Two trees from the root in one store are read the same. -/
theorem Rooted.inorder_unique {n' : Nat} {x x' : Tree} (one : Rooted T n x)
    (other : Rooted T n' x') : x.inorder (n + 1) = x'.inorder (n' + 1) :=
  Except.ok.inj (one.traverse.unique other.traverse)

end Btree

section Stores

variable {t n : Nat} {x : Tree} {e : Entry}

/-- The numbers of keys and children of every node. -/
theorem Tree.Filled.entries : ∀ {n : Nat} {x : Tree}, x.Filled t n → ∀ e ∈ x.entries n,
    e.keys.length ≤ 2 * t - 1 ∧ Fits e.leaf e.keys e.children := by
  intro n
  induction n with
  | zero => exact fun wrong => absurd wrong id
  | succ n ih =>
    intro x filled e member
    rcases List.mem_cons.mp member with rfl | below
    · exact ⟨filled.2.1, (Fits.map _).mpr filled.1⟩
    · obtain ⟨c, child, inside⟩ := List.mem_flatMap.mp below
      exact ih (filled.2.2 c child).2 e inside

/-- A node with the keys and children, in arrays as `btree_create_node` allocates them. -/
def Entry.node (t : Nat) (e : Entry) : BtreeNode :=
  ⟨e.keys ++ List.replicate (2 * t - 1 - e.keys.length) 0,
    slots e.leaf e.keys.length e.children ++ List.replicate (2 * t - 1 - e.keys.length) none,
    e.keys.length, e.leaf⟩

/-- The node shows the keys and children. -/
theorem Entry.shows (positive : 0 < t) (room : e.keys.length ≤ 2 * t - 1)
    (fits : Fits e.leaf e.keys e.children) :
    Shows t (e.node t) e.leaf e.keys e.children := by
  refine ⟨rfl, rfl, ?_, ?_, ⟨_, rfl⟩, ⟨_, rfl, fun _ p member => List.eq_of_mem_replicate member⟩⟩
  · simp only [Entry.node, List.length_append, List.length_replicate]
    omega
  · simp only [Entry.node, List.length_append, List.length_replicate, slots_length fits]
    omega

/-- A store with a tree and nothing besides. -/
def Btree.ofTree (t n : Nat) (x : Tree) : Btree :=
  ⟨some x.address, t,
    fun a => ((x.entries (n + 1)).find? fun e => e.address == a).map (Entry.node t),
    (x.addresses (n + 1)).sum + 1, []⟩

/-- Every tree with the right numbers is in a store. -/
theorem Btree.rooted_ofTree (positive : 0 < t) (filled : x.Filled t (n + 1))
    (nodup : (x.addresses (n + 1)).Nodup) (grown : 0 < n → x.keys ≠ []) :
    Rooted (ofTree t n x) n x := by
  refine ⟨⟨fun a late => ?_, fun a none => absurd none List.not_mem_nil,
    fun a none => absurd none List.not_mem_nil, List.nodup_nil⟩, rfl, ⟨fun e member => ?_, nodup⟩,
    filled, grown⟩
  · have missing : (x.entries (n + 1)).find? (fun e => e.address == a) = none := by
      refine List.find?_eq_none.mpr fun e member same => ?_
      have small := List.le_sum_of_mem (List.mem_map_of_mem (f := Entry.address) member)
      rw [beq_iff_eq.mp same] at small
      exact absurd (small.trans_lt late) (lt_irrefl a)
    change ((x.entries (n + 1)).find? fun e => e.address == a).map (Entry.node t) = none
    rw [missing, Option.map_none]
  · have found : (x.entries (n + 1)).find? (fun other => other.address == e.address) = some e := by
      obtain ⟨front, back, parts⟩ := List.append_of_mem member
      refine List.find?_eq_some_iff_append.mpr ⟨beq_self_eq_true _, front, back, parts, ?_⟩
      intro other early
      rw [Tree.addresses, parts, List.map_append] at nodup
      have differs := (List.nodup_append.mp nodup).2.2 _ (List.mem_map_of_mem early) e.address
        (by simp)
      simpa using differs
    obtain ⟨room, fits⟩ := filled.entries e member
    refine ⟨e.node t, ?_, Entry.shows positive room fits⟩
    change ((x.entries (n + 1)).find? fun other => other.address == e.address).map
      (Entry.node t) = _
    rw [found, Option.map_some]

end Stores

/-- What a deletion is to do: the key asked for is gone once and nothing else, and the tree is a
B-tree again or was the key alone. -/
def Deletes (T : Btree) (n : Nat) (x : Tree) (key : Int) : Prop :=
  ∃ T', Leaves (fun fuel => btreeDelete fuel T key) (.ok (T', 0)) ∧ T'.t = T.t ∧
    (T'.root = none ∧ x.inorder (n + 1) = [key] ∨
      ∃ n' x', T'.Stands n' x' ∧ x'.inorder (n' + 1) = (x.inorder (n + 1)).erase key)

/-- A deletion does what it is to do exactly if it merges no children of a full node, does not free
a root that has the key, and takes no key that is not next to the one it replaces. -/
theorem deletes_iff (T : Btree) (n : Nat) (x : Tree) (key : Int) (two : 2 ≤ T.t)
    (stands : T.Stands n x) :
    Deletes T n x key ↔ ¬ x.Overfull T.t (n + 1) key ∧ ¬ x.RootFreed T.t key ∧
      ¬ x.Misplaced T.t (n + 1) key := by
  obtain ⟨outside, dangling, deletes⟩ := Btree.btreeDelete_spec key stands.toRooted two
  constructor
  · rintro ⟨T', leaves, degree, rest⟩
    have inside : ¬ x.Overfull T.t (n + 1) key := fun overfull => by
      cases leaves.unique (outside overfull)
    have kept : ¬ x.RootFreed T.t key := fun freed => by
      cases leaves.unique (dangling freed)
    refine ⟨inside, kept, ?_⟩
    obtain ⟨T'', leaves', remains⟩ := deletes inside kept
    obtain rfl : T' = T'' := congrArg Prod.fst (Except.ok.inj (leaves.unique leaves'))
    rcases remains.rest with ⟨-, rfl, -⟩ | ⟨n', x', rooted, texts⟩
    · exact Tree.not_misplaced_leaf stands.filled.1.nil
    · rw [← (texts stands.sorted).2]
      rcases rest with ⟨empty, -⟩ | ⟨m, y, stands', -⟩
      · rw [rooted.root] at empty
        cases empty
      · rw [rooted.inorder_unique stands'.toRooted]
        exact stands'.sorted
  · rintro ⟨inside, kept, placed⟩
    obtain ⟨T', leaves, remains⟩ := deletes inside kept
    refine ⟨T', leaves, remains.degree, ?_⟩
    rcases remains.rest with ⟨root, rfl, alone⟩ | ⟨n', x', rooted, texts⟩
    · refine .inl ⟨root, ?_⟩
      rw [Tree.inorder, stands.filled.1.nil, List.map_nil, weave_nil, alone]
    · obtain ⟨perm, sorted⟩ := texts stands.sorted
      have ascending := sorted.mpr placed
      refine .inr ⟨n', x', ⟨rooted, ascending⟩, ?_⟩
      exact List.Perm.eq_of_pairwise (fun a b _ _ => le_antisymm) ascending
        (stands.sorted.sublist List.erase_sublist) perm

/-- A root with one key and two leaves with one key each. -/
def pairTree : Tree := ⟨0, [2], [⟨1, [1], []⟩, ⟨2, [3], []⟩]⟩

/-- The two leaves and their root are a B-tree of degree two. -/
theorem stands_pair : (Btree.ofTree 2 1 pairTree).Stands 1 pairTree := by
  refine ⟨Btree.rooted_ofTree (by decide) ?_ (by decide) (fun _ => by decide), by decide⟩
  simp [Tree.Filled, Fits, pairTree]

/-- One key of two leaves. -/
theorem deletes_iff_pair :
    Deletes (.ofTree 2 1 pairTree) 1 pairTree 3 ↔ ¬ pairTree.Overfull 2 2 3 ∧
      ¬ pairTree.RootFreed 2 3 ∧ ¬ pairTree.Misplaced 2 2 3 :=
  deletes_iff (.ofTree 2 1 pairTree) 1 pairTree 3 le_rfl stands_pair

/-- Deleting the key of the root follows the root after it has been freed. -/
theorem not_deletes_pair :
    2 ≤ (Btree.ofTree 2 1 pairTree).t ∧ (Btree.ofTree 2 1 pairTree).Stands 1 pairTree ∧
      ¬ Deletes (.ofTree 2 1 pairTree) 1 pairTree 2 := by
  refine ⟨le_rfl, stands_pair, ?_⟩
  rintro ⟨T', leaves, -⟩
  have dangling := (Btree.btreeDelete_spec 2 stands_pair.toRooted le_rfl).2.1
    ⟨⟨1, [1], []⟩, ⟨2, [3], []⟩, rfl, rfl, rfl, rfl⟩
  cases leaves.unique dangling

/-- A deletion that returns under one fuel leaves with that result. -/
theorem btreeDelete_leaves {T : Btree} {key : Int} {fuel : Nat}
    {result : Except Fault (Btree × Int)} (returned : btreeDelete fuel T key = some result) :
    Leaves (fun fuel => btreeDelete fuel T key) result := by
  by_cases empty : T.root = none
  · simp only [btreeDelete, empty, if_true] at returned ⊢
    exact .of_forall fun _ => returned
  · simp only [btreeDelete, empty, if_false] at returned ⊢
    obtain ⟨inner, ran, rfl⟩ := Option.map_eq_some_iff.mp returned
    exact (leaves_of_loop ran).map _

/-- No access of a deletion is outside of its array. -/
def Inside (T : Btree) (key : Int) : Prop :=
  ∀ fuel, btreeDelete fuel T key ≠ some (.error .outside)

/-- A deletion stays inside the arrays exactly if it merges no children of a full node. -/
theorem inside_iff (T : Btree) (n : Nat) (x : Tree) (key : Int) (two : 2 ≤ T.t)
    (stands : T.Stands n x) : Inside T key ↔ ¬ x.Overfull T.t (n + 1) key := by
  obtain ⟨outside, dangling, deletes⟩ := Btree.btreeDelete_spec key stands.toRooted two
  constructor
  · intro inside overfull
    obtain ⟨fuel, returned⟩ := (outside overfull).exists_fuel
    exact inside fuel returned
  · intro fits fuel returned
    have leaves := btreeDelete_leaves returned
    by_cases freed : x.RootFreed T.t key
    · cases leaves.unique (dangling freed)
    · obtain ⟨T', leaves', -⟩ := deletes fits freed
      cases leaves.unique leaves'

/-- A full root with four leaves with one key each. -/
def wideTree : Tree :=
  ⟨0, [2, 4, 6], [⟨1, [1], []⟩, ⟨2, [3], []⟩, ⟨3, [5], []⟩, ⟨4, [7], []⟩]⟩

/-- The four leaves and their root are a B-tree of degree two. -/
theorem stands_wide : (Btree.ofTree 2 1 wideTree).Stands 1 wideTree := by
  refine ⟨Btree.rooted_ofTree (by decide) ?_ (by decide) (fun _ => by decide), by decide⟩
  simp [Tree.Filled, Fits, wideTree]

/-- One key of two leaves. -/
theorem inside_iff_pair :
    Inside (.ofTree 2 1 pairTree) 3 ↔ ¬ pairTree.Overfull 2 2 3 :=
  inside_iff (.ofTree 2 1 pairTree) 1 pairTree 3 le_rfl stands_pair

/-- Deleting the first key merges two children of the full root. -/
theorem not_inside_wide :
    2 ≤ (Btree.ofTree 2 1 wideTree).t ∧ (Btree.ofTree 2 1 wideTree).Stands 1 wideTree ∧
      ¬ Inside (.ofTree 2 1 wideTree) 1 := by
  refine ⟨le_rfl, stands_wide, fun inside => ?_⟩
  have placed : wideTree.place 1 = some ⟨[], ⟨1, [1], []⟩,
      [(2, ⟨2, [3], []⟩), (4, ⟨3, [5], []⟩), (6, ⟨4, [7], []⟩)]⟩ := rfl
  have overfull : wideTree.Overfull 2 2 1 := by
    refine (Tree.overfull_iff placed).mpr (.inl ⟨?_, rfl⟩)
    simp [Tree.Merges, Tree.descend, Tree.refilled, Focus.keys]
  have outside := (Btree.btreeDelete_spec 1 stands_wide.toRooted le_rfl).1 overfull
  obtain ⟨fuel, returned⟩ := outside.exists_fuel
  exact inside fuel returned

end BackendCpp.BtreeC
