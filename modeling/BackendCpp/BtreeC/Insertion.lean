import BackendCpp.BtreeC.Shape
import BackendCpp.Library.Run

/-!
# Insertion

On the way down a full child is split before it is entered, so there is room for a key wherever one
is put. A split changes neither the keys in order nor the depth of a leaf; the key is put where the
order wants it. So every tree built by insertions has the shape of a B-tree and is in order.
-/

namespace BackendCpp.BtreeC

open BackendCpp.Library

/-- No key before the place is greater. -/
theorem Divides.below {k : Int} {low high : List Int} (divides : Divides k low high)
    (sorted : Ascending low) : ∀ value ∈ low, value ≤ k := by
  intro value member
  rcases List.eq_nil_or_concat low with empty | ⟨front, last, split⟩
  · rw [empty] at member
    cases member
  · rw [split, List.concat_eq_append] at sorted member divides
    have nearest : last ≤ k := divides.2 last (by simp)
    rcases List.mem_append.mp member with early | here
    · exact ((List.pairwise_append.mp sorted).2.2 value early last
        (List.mem_singleton_self last)).trans nearest
    · rw [List.mem_singleton.mp here]
      exact nearest

/-- A key that is not greater comes before. -/
theorem Divides.beyond {k m : Int} {low high : List Int} (divides : Divides k low high)
    (before : m ≤ k) : Divides k (low ++ [m]) high := by
  refine ⟨divides.1, ?_⟩
  intro value last
  rw [List.getLast?_append_of_ne_nil _ (List.cons_ne_nil m [])] at last
  rw [← Option.some.inj last]
  exact before

/-- A key that is not less comes behind. -/
theorem Divides.upto {k m : Int} {low high : List Int} (divides : Divides k low high)
    (behind : k ≤ m) : Divides k low (m :: high) :=
  ⟨List.forall_mem_cons.mpr ⟨behind, divides.1⟩, divides.2⟩

namespace Btree

variable {T : Btree} {n a : Nat} {front : List (Tree × Int)} {back : List (Int × Tree)}

/-- Splitting the child in focus. -/
theorem btreeSplitChild_spec {y u v : Tree} {m : Int} (sane : T.Sane)
    (holds : T.Holds (n + 2) (Tree.ofFocus a ⟨front, y, back⟩)) (joins : Tree.Joins n y u m v)
    (kept : u.address = y.address) (new : v.address = T.next) (leftSize : u.keys.length = T.t - 1)
    (rightSize : v.keys.length = T.t - 1) (positive : 0 < T.t)
    (notFull : (Focus.mk front y back).keys.length < 2 * T.t - 1) :
    ∃ T', btreeSplitChild T (some a) front.length = .ok T' ∧
      Evolves T T' (n + 2) (Tree.ofFocus a ⟨front, y, back⟩)
        (Tree.ofFocus a ⟨front, u, (m, v) :: back⟩) := by
  obtain ⟨x, thereX, showsX⟩ := holds.focus
  obtain ⟨lower, thereY, showsY⟩ := holds.child.root
  have apart := holds.apart
  have belowX := (sane.lt_next thereX).ne
  have belowY := (sane.lt_next thereY).ne
  rw [joins.keys, joins.children, List.map_append] at showsY
  have place : front.length = (Focus.mk front y back).low.length := by simp [Focus.low]
  have place' : front.length = ((Focus.mk front y back).left.map Tree.address).length := by
    simp [Focus.left]
  obtain ⟨z, upper, showsZ⟩ := showsY.splitRight ((Fits.map _).mpr joins.first)
    ((Fits.map _).mpr joins.second) leftSize rightSize positive
  have showsLeft := showsY.splitLeft leftSize
  obtain ⟨changed, parent, showsParent⟩ := @Shows.splitParent _ _ _ _ _ _ _ T.next _ m showsX place
    place' (by simp [Focus.high, Focus.right]) notFull
  have middle : lower.key (T.t - 1) = .ok m := showsY.key_at leftSize.symm
  have first : (btreeCreateNode T lower.leaf).update (some T.next)
      (splitRight T.t lower) = .ok ((btreeCreateNode T lower.leaf).put T.next z) :=
    update_some create_self upper
  have atY : ((btreeCreateNode T lower.leaf).put T.next z).nodes y.address = some lower := by
    rw [put_other belowY]
    exact (create_other belowY).trans thereY
  have second := @update_some _ _ _ (fun y => .ok { y with num := T.t - 1 }) _ atY rfl
  have atX : (((btreeCreateNode T lower.leaf).put T.next z).put y.address
      { lower with num := T.t - 1 }).nodes a = some x := by
    rw [put_other apart.symm, put_other belowX]
    exact (create_other belowX).trans thereX
  have third := update_some atX parent
  refine ⟨(((btreeCreateNode T lower.leaf).put T.next z).put y.address
    { lower with num := T.t - 1 }).put a changed, ?_, ?_⟩
  · rw [btreeSplitChild]
    simp only [look_some thereX, showsX.child_at place', look_some thereY, ok_bind, create_t, first,
      put_t, second, middle, third]
  · refine .of_rewrite sane holds (((sane.create.put create_self).put atY).put atX) rfl rfl rfl
      (Nat.le_succ _) (Tree.entries_single a n _)
      (joins.children ▸ Tree.entries_pair a n front u v y m back) ?_ ?_ ?_ ?_
    · simp only [List.forall_mem_cons, List.not_mem_nil, false_implies, implies_true, and_true]
      refine ⟨shown_focus put_self ?_, shown_entry ?_ showsLeft, shown_entry ?_ showsZ⟩
      · rw [← kept, ← new] at showsParent
        exact showsParent
      · rw [kept, put_other apart]
        exact put_self
      · rw [new, put_other belowX.symm, put_other belowY.symm]
        exact put_self
    · simp [Tree.entry, Tree.ofFocus, kept, new, apart.symm, belowX, belowY]
    · simp [Tree.entry, Tree.ofFocus, kept, new]
    · intro b old outside
      simp only [List.map_cons, List.map_nil, List.mem_cons, List.not_mem_nil, or_false, not_or,
        Tree.entry, Tree.ofFocus] at outside
      rw [put_other outside.1, put_other outside.2, put_other old.ne, create_other old.ne]

/-- A full child is split into two halves that are filled. -/
theorem split_full {y : Tree} (sane : T.Sane)
    (holds : T.Holds (n + 2) (Tree.ofFocus a ⟨front, y, back⟩))
    (filled : (Tree.ofFocus a ⟨front, y, back⟩).Filled T.t (n + 2))
    (full : y.keys.length = 2 * T.t - 1) (positive : 0 < T.t)
    (notFull : (Focus.mk front y back).keys.length < 2 * T.t - 1) :
    ∃ T' u m v, btreeSplitChild T (some a) front.length = .ok T' ∧ Tree.Joins n y u m v ∧
      u.keys.length = T.t - 1 ∧ v.keys.length = T.t - 1 ∧
      (Tree.ofFocus a ⟨front, u, (m, v) :: back⟩).Filled T.t (n + 2) ∧
      Evolves T T' (n + 2) (Tree.ofFocus a ⟨front, y, back⟩)
        (Tree.ofFocus a ⟨front, u, (m, v) :: back⟩) := by
  obtain ⟨-, child, before, after⟩ := Tree.filled_focus.mp filled
  have middle : T.t - 1 < y.keys.length := by omega
  obtain ⟨left, m, right, leftChildren, rightChildren, keys, leftSize, children, first, second⟩ :=
    child.2.1.cut middle
  have rightSize : right.length = T.t - 1 := by
    rw [keys, List.length_append, List.length_cons] at full
    omega
  have joins : Tree.Joins n y ⟨y.address, left, leftChildren⟩ m ⟨T.next, right, rightChildren⟩ :=
    ⟨keys, children, first, second⟩
  obtain ⟨T', splits, evolves⟩ := btreeSplitChild_spec sane holds joins rfl rfl leftSize rightSize
    positive notFull
  have halves := joins.filled child.2
  refine ⟨T', _, m, _, splits, joins, leftSize, rightSize, ?_, evolves⟩
  refine Tree.filled_focus.mpr ⟨?_, ⟨leftSize.ge, halves.1⟩, before, ?_⟩
  · simp only [Focus.keys, List.length_append, List.map_cons, List.length_cons] at notFull ⊢
    omega
  · exact List.forall_mem_cons.mpr ⟨⟨rightSize.ge, halves.2⟩, after⟩

/-- A call of `btree_insert_nonfull` goes on in a subtree with room. -/
structure Enters (k : Int) (T T' : Btree) (n : Nat) (x : Tree) (f : Focus Int Tree) : Prop where
  /-- Only the tree changes. -/
  evolves : Evolves T T' (n + 2) x (Tree.ofFocus x.address f)
  /-- The numbers of keys and children. -/
  filled : (Tree.ofFocus x.address f).Filled T.t (n + 2)
  /-- There is room in the subtree. -/
  room : f.child.keys.length < 2 * T.t - 1
  /-- The keys in order stay. -/
  text : (Tree.ofFocus x.address f).inorder (n + 2) = x.inorder (n + 2)
  /-- The node has no fewer keys. -/
  more : x.keys.length ≤ f.keys.length
  /-- The key belongs in the subtree. -/
  divides : Divides k f.low f.high

/-- After the split of a full child the call goes on in one of its halves. -/
theorem split_enters {y : Tree} {k : Int} (sane : T.Sane)
    (holds : T.Holds (n + 2) (Tree.ofFocus a ⟨front, y, back⟩))
    (filled : (Tree.ofFocus a ⟨front, y, back⟩).Filled T.t (n + 2))
    (full : y.keys.length = 2 * T.t - 1) (positive : 0 < T.t)
    (notFull : (Focus.mk front y back).keys.length < 2 * T.t - 1)
    (divides : Divides k (Focus.mk front y back).low (Focus.mk front y back).high) :
    ∃ T' node m f, btreeSplitChild T (some a) front.length = .ok T' ∧
      T'.nodes a = some node ∧ node.key front.length = .ok m ∧
      node.child (if k > m then front.length + 1 else front.length) = .ok (some f.child.address) ∧
      Enters k T T' n (Tree.ofFocus a ⟨front, y, back⟩) f ∧
      (Focus.mk front y back).keys.length < f.keys.length := by
  obtain ⟨T', u, m, v, splits, joins, leftSize, rightSize, filled', evolves⟩ :=
    split_full sane holds filled full positive notFull
  obtain ⟨node, there, shows⟩ := evolves.holds.focus
  have middle : node.key front.length = .ok m := shows.key_at (by simp [Focus.low])
  have text := (Tree.inorder_joins joins a a front back).symm
  by_cases beyond : k > m
  · have moved := Tree.ofFocus_next a front u m v back
    rw [moved] at evolves filled' text
    obtain ⟨node', there', shows'⟩ := evolves.holds.focus
    rw [Option.some.inj (there'.symm.trans there)] at shows'
    have right : node.child (front.length + 1) = .ok (some v.address) :=
      shows'.child_at (by simp [Focus.left])
    refine ⟨T', node, m, ⟨(u, m) :: front, v, back⟩, splits, there, middle, ?_,
      ⟨evolves, filled', ?_, text, ?_, ?_⟩, ?_⟩
    · rw [if_pos beyond]
      exact right
    · change v.keys.length < 2 * T.t - 1
      omega
    · simp [Tree.ofFocus, Focus.keys]
    · have fits := divides.beyond (le_of_lt beyond)
      simpa [Focus.low, Focus.high] using fits
    · simp [Focus.keys]
  · have left : node.child front.length = .ok (some u.address) :=
      shows.child_at (by simp [Focus.left])
    refine ⟨T', node, m, ⟨front, u, (m, v) :: back⟩, splits, there, middle, ?_,
      ⟨evolves, filled', ?_, text, ?_, ?_⟩, ?_⟩
    · rw [if_neg beyond]
      exact left
    · change u.keys.length < 2 * T.t - 1
      omega
    · simp [Tree.ofFocus, Focus.keys]
    · have fits := divides.upto (not_lt.mp beyond)
      simpa [Focus.low, Focus.high] using fits
    · simp [Focus.keys]

/-- One call of `btree_insert_nonfull` for a node with children. -/
theorem insertNonfullCall_node {x : Tree} (k : Int) (sane : T.Sane) (holds : T.Holds (n + 2) x)
    (filled : x.Filled T.t (n + 2)) (room : x.keys.length < 2 * T.t - 1) (positive : 0 < T.t) :
    ∃ T' f, insertNonfullCall k (T, some x.address) = .ok (.inl (T', some f.child.address)) ∧
      Enters k T T' n x f := by
  obtain ⟨node, there, shows⟩ := holds.root
  obtain ⟨low, high, keys, divides, skips⟩ := shows.skipGreater k
  obtain ⟨f, lowIs, highIs, children⟩ := @Focus.exists_at Int Tree low high x.children
    (keys ▸ filled.1)
  have keysAre : f.keys = x.keys := by rw [Focus.keys_eq, lowIs, highIs, keys]
  have whole : Tree.ofFocus x.address f = x := Tree.eq_ofFocus keysAre children
  rw [← lowIs, ← highIs] at divides
  have holds' := holds
  have filled' := filled
  rw [← whole] at holds' filled'
  obtain ⟨child, belowThere, belowShows⟩ := holds'.child.root
  rw [← children, Tree.child_addresses] at shows
  have place : low.length = (f.left.map Tree.address).length := by
    rw [List.length_map, ← lowIs, Focus.low_length]
  have kind : node.leaf = false := shows.kind
  rw [insertNonfullCall]
  simp only [look_some there, ok_bind, kind, Bool.false_eq_true, if_false, skips,
    shows.child_at place, look_some belowThere, belowShows.count]
  by_cases isFull : f.child.keys.length = 2 * T.t - 1
  · obtain ⟨front, y, back⟩ := f
    have number : low.length = front.length := by
      rw [place]
      simp [Focus.left]
    obtain ⟨T', parent, m, f', splits, there', middle, chosen, enters, -⟩ :=
      split_enters sane holds' filled' isFull positive (keysAre ▸ room) divides
    rw [whole] at enters
    rw [if_pos isFull, number, splits]
    simp only [ok_bind, look_some there', middle, chosen]
    exact ⟨T', f', rfl, enters⟩
  · have full := (Tree.filled_focus.mp filled').2.1.2.2.1
    rw [if_neg isFull]
    refine ⟨T, f, rfl, ⟨?_, filled', by omega, by rw [whole], by rw [keysAre], divides⟩⟩
    rw [whole]
    exact .refl sane holds

/-- A change of a leaf. -/
theorem Evolves.of_leaf {x : Tree} {node changed : BtreeNode} {keys : List Int} (sane : T.Sane)
    (holds : T.Holds 1 x) (empty : x.children = []) (there : T.nodes x.address = some node)
    (shows : Shows T.t changed true keys []) :
    Evolves T (T.put x.address changed) 1 x ⟨x.address, keys, []⟩ := by
  have new : ((⟨x.address, keys, []⟩ : Tree).entries 1).Perm
      ([⟨x.address, true, keys, []⟩] ++ []) := List.Perm.refl _
  have old : (x.entries 1).Perm ([x.entry 0] ++ []) := by
    rw [Tree.entries, empty]
    exact List.Perm.refl _
  refine .of_rewrite sane holds (sane.put there) rfl rfl rfl le_rfl old new ?_ ?_ ?_ ?_
  · intro e member
    rw [List.mem_singleton.mp member]
    exact ⟨changed, put_self, shows⟩
  · exact List.nodup_singleton _
  · intro b member
    exact .inl member
  · intro b _ outside
    refine put_other ?_
    simpa [Tree.entry] using outside

/-- One call of `btree_insert_nonfull` for a leaf. -/
theorem insertNonfullCall_leaf {x : Tree} (k : Int) (sane : T.Sane) (holds : T.Holds 1 x)
    (filled : x.Filled T.t 1) (room : x.keys.length < 2 * T.t - 1) :
    ∃ T' low high, x.keys = low ++ high ∧ Divides k low high ∧
      insertNonfullCall k (T, some x.address) = .ok (.inr T') ∧
      Evolves T T' 1 x ⟨x.address, low ++ k :: high, []⟩ := by
  obtain ⟨node, there, shows⟩ := holds.root
  have empty : x.children = [] := filled.1.nil
  have kind : node.leaf = true := shows.kind
  rw [empty, List.map_nil] at shows
  obtain ⟨low, high, changed, keys, divides, runs, shows'⟩ := shows.insertIntoLeaf k room
  refine ⟨T.put x.address changed, low, high, keys, divides, ?_, ?_⟩
  · rw [insertNonfullCall]
    simp only [look_some there, ok_bind, kind, if_true, update_some there runs]
  · exact .of_leaf sane holds empty there shows'

/-- What is read before the subtree in focus is at most the key that belongs there. -/
theorem before_le_of_divides {k : Int} {f : Focus Int Tree} {read : Tree → List Int}
    (sorted : Ascending (f.text read)) (divides : Divides k f.low f.high) :
    (∀ value ∈ Focus.before read f.front, value ≤ k) ∧
      ∀ value ∈ Focus.after read f.back, k ≤ value := by
  obtain ⟨front, child, back⟩ := f
  have parts := List.pairwise_append.mp sorted
  have rest := List.pairwise_append.mp parts.2.1
  constructor
  · intro value member
    cases front with
    | nil => cases member
    | cons pair front =>
      obtain ⟨previous, key⟩ := pair
      have nearest : key ≤ k := divides.2 key (by simp [Focus.low])
      exact (before_le parts.1 value member).trans nearest
  · intro value member
    cases back with
    | nil => cases member
    | cons pair back =>
      obtain ⟨key, later⟩ := pair
      have nearest : k ≤ key := divides.1 key (by simp [Focus.high])
      exact nearest.trans (le_after rest.2.1 value member)

/-- What `btree_insert_nonfull` leaves behind. -/
structure Inserted (k : Int) (T T' : Btree) (n : Nat) (x x' : Tree) : Prop where
  /-- Only the tree changes. -/
  evolves : Evolves T T' n x x'
  /-- The numbers of keys and children. -/
  filled : x'.Filled T.t n
  /-- A node has no fewer keys. -/
  more : x.keys.length ≤ x'.keys.length
  /-- The keys are the old ones and one more. -/
  perm : (x'.inorder n).Perm (k :: x.inorder n)
  /-- They stay in order. -/
  sorted : Ascending (x.inorder n) → Ascending (x'.inorder n)

/-- A key inserted below is inserted in the tree. -/
theorem Inserted.of_child {T' : Btree} {k : Int} {f : Focus Int Tree} {c : Tree} (sane : T.Sane)
    (holds : T.Holds (n + 2) (Tree.ofFocus a f)) (filled : (Tree.ofFocus a f).Filled T.t (n + 2))
    (divides : Divides k f.low f.high)
    (inserted : Inserted k T T' (n + 1) f.child c) :
    Inserted k T T' (n + 2) (Tree.ofFocus a f) (Tree.ofFocus a { f with child := c }) := by
  obtain ⟨total, child, before, after⟩ := Tree.filled_focus.mp filled
  refine ⟨Evolves.child sane holds inserted.evolves, ?_, le_rfl, ?_, ?_⟩
  · exact Tree.filled_focus.mpr
      ⟨total, ⟨child.1.trans inserted.more, inserted.filled⟩, before, after⟩
  · rw [Tree.inorder_focus, Tree.inorder_focus]
    refine (List.Perm.append_left _ (inserted.perm.append_right _)).trans ?_
    exact List.perm_middle
  · intro sorted
    rw [Tree.inorder_focus] at sorted ⊢
    have sides := before_le_of_divides sorted divides
    exact Ascending.insert sorted inserted.perm (inserted.sorted sorted.middle) sides.1 sides.2

/-- A key inserted where a call goes on is inserted in the tree the call was made for. -/
theorem Enters.inserted {T' T'' : Btree} {k : Int} {x c : Tree} {f : Focus Int Tree}
    (enters : Enters k T T' n x f) (inserted : Inserted k T' T'' (n + 1) f.child c) :
    Inserted k T T'' (n + 2) x (Tree.ofFocus x.address { f with child := c }) := by
  have degree := enters.evolves.degree
  have filled := enters.filled
  rw [← degree] at filled
  have whole := inserted.of_child enters.evolves.sane enters.evolves.holds filled
    enters.divides
  have filled' := whole.filled
  rw [degree] at filled'
  have perm := whole.perm
  have sorted := whole.sorted
  rw [enters.text] at perm sorted
  exact ⟨enters.evolves.trans whole.evolves, filled', enters.more, perm, sorted⟩

/-- `btree_insert_nonfull` for the trees with a number of levels. -/
def InsertsAt (k : Int) (n : Nat) : Prop :=
  ∀ {T : Btree} {x : Tree}, T.Sane → T.Holds n x → x.Filled T.t n →
    x.keys.length < 2 * T.t - 1 → 0 < T.t →
    ∃ T' x', Leaves (fun fuel => btreeInsertNonfull fuel T (some x.address) k) (.ok T') ∧
      Inserted k T T' n x x'

/-- The subtree where a call goes on is ready for the next call. -/
theorem Enters.below {T' : Btree} {k : Int} {x : Tree} {f : Focus Int Tree}
    (enters : Enters k T T' n x f) (positive : 0 < T.t) (inserts : InsertsAt k (n + 1)) :
    ∃ T'' c, Leaves (fun fuel => btreeInsertNonfull fuel T' (some f.child.address) k) (.ok T'') ∧
      Inserted k T' T'' (n + 1) f.child c := by
  obtain ⟨-, child, -, -⟩ := Tree.filled_focus.mp enters.filled
  have degree := enters.evolves.degree
  exact inserts enters.evolves.sane enters.evolves.holds.child (by rw [degree]; exact child.2)
    (by rw [degree]; exact enters.room) (by rw [degree]; exact positive)

/-- `btree_insert_nonfull` from a node with room. -/
theorem btreeInsertNonfull_spec (k : Int) (n : Nat) : InsertsAt k (n + 1) := by
  induction n with
  | zero =>
    intro T x sane holds filled room _
    obtain ⟨T', low, high, keys, divides, call, evolves⟩ :=
      insertNonfullCall_leaf k sane holds filled room
    have empty : x.children = [] := filled.1.nil
    have text : x.inorder 1 = low ++ high := by
      rw [Tree.inorder, empty, List.map_nil, weave_nil, keys]
    have text' : (⟨x.address, low ++ k :: high, []⟩ : Tree).inorder 1 = low ++ k :: high := by
      rw [Tree.inorder, List.map_nil, weave_nil]
    refine ⟨T', _, leaves_now (guarded_leave call), evolves, ?_, ?_, ?_, ?_⟩
    · refine ⟨rfl, ?_, fun c member => absurd member List.not_mem_nil⟩
      rw [keys, List.length_append] at room
      rw [List.length_append, List.length_cons]
      omega
    · rw [keys, List.length_append, List.length_append, List.length_cons]
      omega
    · rw [text, text']
      exact List.perm_middle
    · intro sorted
      rw [text] at sorted
      rw [text']
      have parts := List.pairwise_append.mp sorted
      refine List.pairwise_append.mpr ⟨parts.1, List.pairwise_cons.mpr ⟨divides.1, parts.2.1⟩, ?_⟩
      intro value early other late
      rcases List.mem_cons.mp late with same | old
      · rw [same]
        exact divides.below parts.1 value early
      · exact parts.2.2 value early other old
  | succ n ih =>
    intro T x sane holds filled room positive
    obtain ⟨T', f, call, enters⟩ := insertNonfullCall_node k sane holds filled room positive
    obtain ⟨T'', c, leaves, inserted⟩ := enters.below positive ih
    exact ⟨T'', _, leaves_next (guarded_next call) leaves, enters.inserted inserted⟩

/-- The tree from the root: a node has at most `2 * t - 1` keys, and at least `t - 1` if it is not
the root, a root with children has one, and all leaves are on the last level. -/
structure Rooted (T : Btree) (n : Nat) (x : Tree) : Prop where
  /-- The store is sane. -/
  sane : T.Sane
  /-- The root. -/
  root : T.root = some x.address
  /-- The nodes. -/
  holds : T.Holds (n + 1) x
  /-- The numbers of keys and children. -/
  filled : x.Filled T.t (n + 1)
  /-- A root with children has a key. -/
  grown : 0 < n → x.keys ≠ []

/-- The tree from the root with its keys in order. -/
structure Stands (T : Btree) (n : Nat) (x : Tree) : Prop extends Rooted T n x where
  /-- The keys are in order. -/
  sorted : Ascending (x.inorder (n + 1))

/-- The store while the new root is not linked yet. -/
def withRoot (T : Btree) : Btree := { btreeCreateNode T false with root := some T.next }

/-- A new root above the old one. -/
theorem Rooted.raise {x : Tree} (rooted : Rooted T n x) (positive : 0 < T.t) :
    ∃ T', T.withRoot.update (some T.next) (fun node => node.setChild 0 T.root) = .ok T' ∧
      T'.Sane ∧ T'.root = some T.next ∧ T'.t = T.t ∧
      T'.Holds (n + 2) (Tree.ofFocus T.next ⟨[], x, []⟩) := by
  have shape : (emptyNode T.t false).childrens =
      [] ++ none :: List.replicate (2 * T.t - 1) none := by
    have size : 2 * T.t = 2 * T.t - 1 + 1 := by omega
    rw [List.nil_append, ← List.replicate_succ, ← size]
    rfl
  have linked := @BtreeNode.setChild_at _ 0 _ _ _ T.root shape rfl
  have there : T.withRoot.nodes T.next = some (emptyNode T.t false) := create_self
  have new : (btreeCreateNode T false).Sane := rooted.sane.create
  have created : T.withRoot.Sane := ⟨new.fresh, new.gone, new.past, new.once⟩
  have parts := Tree.entries_focus T.next (n + 1) ⟨[], x, []⟩
  have below := rooted.holds.lt_next rooted.sane
  refine ⟨_, update_some there linked, created.put there, rfl, rfl, ?_, ?_⟩
  · intro e member
    rcases List.mem_cons.mp (parts.mem_iff.mp member) with same | old
    · rw [same]
      refine shown_focus put_self ?_
      refine ⟨rfl, rfl, List.length_replicate, ?_, ⟨List.replicate (2 * T.t - 1) 0, rfl⟩,
        ⟨List.replicate (2 * T.t - 1) none, ?_, fun wrong => absurd wrong Bool.false_ne_true⟩⟩
      · simp [withRoot]
        omega
      · rw [rooted.root]
        rfl
    · have inside : e ∈ x.entries (n + 1) := by simpa [Tree.others] using old
      have less := below e.address (List.mem_map_of_mem inside)
      obtain ⟨node, stays, shows⟩ := rooted.holds.shown e inside
      refine ⟨node, ?_, shows⟩
      rw [put_other less.ne]
      exact (create_other less.ne).trans stays
  · rw [Tree.addresses, (parts.map Entry.address).nodup_iff]
    have rest : (Focus.mk [] x [] : Focus Int Tree).child.entries (n + 1) ++
        Tree.others (n + 1) ⟨[], x, []⟩ = x.entries (n + 1) := by simp [Tree.others]
    rw [rest, List.map_cons]
    refine List.nodup_cons.mpr ⟨fun member => ?_, rooted.holds.nodup⟩
    exact absurd (below _ member) (lt_irrefl _)

/-- The new root has the old one below it and is filled. -/
theorem Rooted.raise_filled {x : Tree} (rooted : Rooted T n x) (a : Nat) (two : 2 ≤ T.t)
    (full : x.keys.length = 2 * T.t - 1) : (Tree.ofFocus a ⟨[], x, []⟩).Filled T.t (n + 2) := by
  refine Tree.filled_focus.mpr ⟨Nat.zero_le _, ⟨?_, rooted.filled⟩, ?_, ?_⟩
  · change T.t - 1 ≤ x.keys.length
    omega
  · exact fun pair member => absurd member List.not_mem_nil
  · exact fun pair member => absurd member List.not_mem_nil

/-- The new root is read as the old one is. -/
theorem inorder_raise (a n : Nat) (x : Tree) :
    (Tree.ofFocus a ⟨[], x, []⟩).inorder (n + 2) = x.inorder (n + 1) := by
  rw [Tree.inorder_focus]
  simp [Focus.text, Focus.before, Focus.after]

/-- The first call of an insertion into a tree with a full root. -/
theorem insertCall_full {x : Tree} (key : Int) (rooted : Rooted T n x) (two : 2 ≤ T.t)
    (full : x.keys.length = 2 * T.t - 1) :
    ∃ raised T' f, insertCall T key = .ok (T', some f.child.address) ∧
      raised.root = some T.next ∧ raised.t = T.t ∧
      Enters key raised T' n (Tree.ofFocus T.next ⟨[], x, []⟩) f ∧ f.keys ≠ [] := by
  obtain ⟨raised, links, sane, root, degree, holds⟩ := rooted.raise (by omega)
  have filled := rooted.raise_filled T.next two full
  rw [← degree] at filled full
  have divides : Divides key (Focus.mk [] x [] : Focus Int Tree).low
      (Focus.mk [] x [] : Focus Int Tree).high := by
    simp [Divides, Focus.low, Focus.high]
  obtain ⟨T', node, m, f, splits, there, middle, chosen, enters, more⟩ :=
    split_enters sane holds filled full (by omega) (by simp [Focus.keys]; omega) divides
  obtain ⟨top, thereTop, shows⟩ := rooted.holds.root
  refine ⟨raised, T', f, ?_, root, degree, enters, List.ne_nil_of_length_pos (by omega)⟩
  have choice : node.child (if m < key then 1 else 0) = .ok (some f.child.address) := chosen
  rw [degree] at full
  rw [rooted.root, withRoot] at links
  rw [List.length_nil] at splits middle
  rw [insertCall]
  simp only [rooted.root, look_some thereTop, shows.count, ok_bind, full, if_true, links, splits,
    look_some there, middle, choice]

/-- The first call of an insertion into a tree with room in the root. -/
theorem insertCall_room {x : Tree} (key : Int) (rooted : Rooted T n x)
    (room : x.keys.length ≠ 2 * T.t - 1) : insertCall T key = .ok (T, some x.address) := by
  obtain ⟨top, there, shows⟩ := rooted.holds.root
  rw [insertCall]
  simp only [rooted.root, look_some there, shows.count, ok_bind, room, if_false]

/-- A tree that an insertion has changed below the root rooted. -/
theorem Rooted.of_inserted {T' : Btree} {key : Int} {x x' : Tree} (root : T.root = some x.address)
    (inserted : Inserted key T T' (n + 1) x x') (grown : 0 < n → x'.keys ≠ []) :
    Rooted T' n x' where
  sane := inserted.evolves.sane
  root := by rw [inserted.evolves.root, inserted.evolves.address, root]
  holds := inserted.evolves.holds
  filled := by rw [inserted.evolves.degree]; exact inserted.filled
  grown := grown

/-- `btree_insert` adds the key. -/
theorem btreeInsert_spec {x : Tree} (key : Int) (rooted : Rooted T n x) (two : 2 ≤ T.t) :
    ∃ T' n' x', Leaves (fun fuel => btreeInsert fuel T key) (.ok T') ∧ Rooted T' n' x' ∧
      T'.t = T.t ∧ (x'.inorder (n' + 1)).Perm (key :: x.inorder (n + 1)) ∧
      (Ascending (x.inorder (n + 1)) → Ascending (x'.inorder (n' + 1))) := by
  by_cases full : x.keys.length = 2 * T.t - 1
  · obtain ⟨raised, T', f, call, root, degree, enters, some_key⟩ :=
      insertCall_full key rooted two full
    obtain ⟨T'', c, leaves, below⟩ := enters.below (by omega) (btreeInsertNonfull_spec key n)
    have inserted := enters.inserted below
    have perm := inserted.perm
    have sorted := inserted.sorted
    rw [inorder_raise] at perm sorted
    refine ⟨T'', n + 1, _, ?_, .of_inserted root inserted fun _ => some_key, ?_, perm, sorted⟩
    · simp only [btreeInsert, call]
      exact leaves
    · rw [inserted.evolves.degree, degree]
  · have room : x.keys.length < 2 * T.t - 1 :=
      lt_of_le_of_ne rooted.filled.2.1 full
    obtain ⟨T', x', leaves, inserted⟩ := btreeInsertNonfull_spec key n rooted.sane rooted.holds
      rooted.filled room (by omega)
    have call := insertCall_room key rooted full
    refine ⟨T', n, x', ?_, ?_, inserted.evolves.degree, inserted.perm, inserted.sorted⟩
    · simp only [btreeInsert, call]
      exact leaves
    · refine .of_inserted rooted.root inserted fun inner => ?_
      have old := List.length_pos_iff.mpr (rooted.grown inner)
      exact List.length_pos_iff.mp (old.trans_le inserted.more)

/-- A new tree is a root without keys. -/
theorem stands_create {t : Nat} (positive : 0 < t) : Stands (btreeCreate t) 0 ⟨0, [], []⟩ where
  sane := by
    refine ⟨fun a late => ?_, fun a freed => absurd freed List.not_mem_nil,
      fun a freed => absurd freed List.not_mem_nil, List.nodup_nil⟩
    exact Function.update_of_ne (Nat.pos_iff_ne_zero.mp late) _ _
  root := rfl
  holds := by
    refine ⟨fun e member => ?_, List.nodup_singleton _⟩
    rw [List.mem_singleton.mp member]
    refine ⟨emptyNode t true, rfl, rfl, rfl, List.length_replicate, List.length_replicate,
      ⟨_, rfl⟩, ⟨List.replicate (2 * t - 1) none, ?_, ?_⟩⟩
    · have size : 1 + (2 * t - 1) = 2 * t := by omega
      change List.replicate (2 * t) none =
        List.replicate 1 none ++ List.replicate (2 * t - 1) none
      rw [List.replicate_append_replicate, size]
    · exact fun _ p member => List.eq_of_mem_replicate member
  filled := ⟨rfl, Nat.zero_le _, fun c member => absurd member List.not_mem_nil⟩
  grown none := absurd none (lt_irrefl 0)
  sorted := List.Pairwise.nil

/-- `btree_traverse` prints the keys. -/
theorem Rooted.traverse {x : Tree} (rooted : Rooted T n x) :
    Leaves (fun fuel => (btreeTraverse T fuel T.root).run) (.ok (x.inorder (n + 1))) := by
  refine ⟨n + 1, fun fuel enough => ?_⟩
  rw [rooted.root]
  exact congrArg ExceptT.run (traverse_spec fuel rooted.holds rooted.filled enough)

end Btree

/-- The trees that `btree_create` and calls of `btree_insert` make. -/
inductive Built (t : Nat) : Btree → Prop
  /-- `btree_create(T, t)`. -/
  | create : Built t (btreeCreate t)
  /-- `btree_insert(T, key)`. -/
  | insert {T T' : Btree} {key : Int} (built : Built t T)
    (inserts : Leaves (fun fuel => btreeInsert fuel T key) (.ok T')) : Built t T'

/-- A tree that insertions make stands. -/
theorem Built.stands {t : Nat} {T : Btree} (two : 2 ≤ t) (built : Built t T) :
    T.t = t ∧ ∃ n x, Btree.Stands T n x := by
  induction built with
  | create => exact ⟨rfl, 0, _, Btree.stands_create (by omega)⟩
  | @insert T T' key built inserts ih =>
    obtain ⟨degree, n, x, stands⟩ := ih
    obtain ⟨T'', n', x', leaves, rooted, degree', -, sorted⟩ :=
      Btree.btreeInsert_spec key stands.toRooted (degree ▸ two)
    have same : T' = T'' := Except.ok.inj (inserts.unique leaves)
    rw [same]
    exact ⟨degree'.trans degree, n', x', rooted, sorted stands.sorted⟩

/-- Every insertion into a tree that insertions make returns, without an index outside of its array
or a pointer to no node. The new tree has the shape of a B-tree, and what is printed of it is in
order and is what was printed before with the key put in. -/
theorem btreeInsert_grows (t : Nat) (two : 2 ≤ t) (T : Btree) (built : Built t T) (key : Int) :
    ∃ T' n x old new, Leaves (fun fuel => btreeInsert fuel T key) (.ok T') ∧ T'.t = t ∧
      T'.Stands n x ∧ Leaves (fun fuel => (btreeTraverse T fuel T.root).run) (.ok old) ∧
      Leaves (fun fuel => (btreeTraverse T' fuel T'.root).run) (.ok new) ∧
      Ascending new ∧ new.Perm (key :: old) := by
  obtain ⟨degree, n, x, stands⟩ := built.stands two
  obtain ⟨T', n', x', leaves, rooted, degree', perm, sorted⟩ :=
    Btree.btreeInsert_spec key stands.toRooted (degree ▸ two)
  have ascending := sorted stands.sorted
  exact ⟨T', n', x', _, _, leaves, degree'.trans degree, ⟨rooted, ascending⟩, stands.traverse,
    rooted.traverse, ascending, perm⟩

/-- An insertion that returned under one fuel. -/
theorem leaves_btreeInsert {T : Btree} {key : Int} {fuel : Nat} {result : Except Fault Btree}
    (returned : btreeInsert fuel T key = some result) :
    Leaves (fun fuel => btreeInsert fuel T key) result := by
  cases begins : insertCall T key with
  | error fault =>
    simp only [btreeInsert, begins] at returned ⊢
    exact Leaves.of_forall fun _ => returned
  | ok call =>
    obtain ⟨T', x⟩ := call
    simp only [btreeInsert, begins] at returned ⊢
    exact leaves_of_loop returned

/-- Insert a key under a fuel. -/
def insertKey (fuel : Nat) (T : Btree) (key : Int) : Option Btree :=
  (btreeInsert fuel T key).bind Except.toOption

/-- A key that was inserted under one fuel. -/
theorem leaves_insertKey {T T' : Btree} {key : Int} {fuel : Nat}
    (done : insertKey fuel T key = some T') :
    Leaves (fun fuel => btreeInsert fuel T key) (.ok T') := by
  obtain ⟨result, returned, same⟩ := Option.bind_eq_some_iff.mp done
  cases result with
  | error fault => cases same
  | ok T'' =>
    rw [← Option.some.inj same]
    exact leaves_btreeInsert returned

/-- A tree that keys were inserted into. -/
theorem built_of_foldlM {t fuel : Nat} {T : Btree} {keys : List Int}
    (done : keys.foldlM (insertKey fuel) (btreeCreate t) = some T) : Built t T := by
  refine (Run.of_foldlM done).invariant (Built t) .create ?_
  exact fun T key T' built inserted => built.insert (leaves_insertKey inserted)

/-- The fourth key splits the root, and the last one a full leaf below the new root. -/
theorem btreeInsert_grows_split : ∃ T T' n x old new, Built 2 T ∧
    Leaves (fun fuel => btreeInsert fuel T 1) (.ok T') ∧
    (T.nodes 1 = some ⟨[5, 0, 0], [some 0, some 2, none, none], 1, false⟩ ∧
      T.nodes 0 = some ⟨[2, 3, 4], [none, none, none, none], 3, true⟩) ∧
    T'.nodes 1 = some ⟨[3, 5, 0], [some 0, some 3, some 2, none], 2, false⟩ ∧
    T'.t = 2 ∧ T'.Stands n x ∧
    Leaves (fun fuel => (btreeTraverse T fuel T.root).run) (.ok old) ∧
    Leaves (fun fuel => (btreeTraverse T' fuel T'.root).run) (.ok new) ∧
    Ascending new ∧ new.Perm (1 :: old) := by
  have ends : (([5, 3, 8, 4, 2].foldlM (insertKey 9) (btreeCreate 2)).any fun T : Btree =>
      (T.nodes 1 = some ⟨[5, 0, 0], [some 0, some 2, none, none], 1, false⟩ ∧
        T.nodes 0 = some ⟨[2, 3, 4], [none, none, none, none], 3, true⟩) ∧
      (insertKey 9 T 1).any fun T' : Btree =>
        T'.nodes 1 = some ⟨[3, 5, 0], [some 0, some 3, some 2, none], 2, false⟩) = true := by
    decide +kernel
  obtain ⟨T, done, facts⟩ := (Option.any_eq_true _ _).mp ends
  obtain ⟨before, rest⟩ := of_decide_eq_true facts
  obtain ⟨T', inserted, after⟩ := (Option.any_eq_true _ _).mp rest
  have built := built_of_foldlM done
  obtain ⟨T'', n, x, old, new, leaves, facts⟩ := btreeInsert_grows 2 le_rfl T built 1
  have same : T'' = T' := Except.ok.inj (leaves.unique (leaves_insertKey inserted))
  rw [same] at leaves facts
  exact ⟨T, T', n, x, old, new, built, leaves, before, of_decide_eq_true after, facts⟩

end BackendCpp.BtreeC
