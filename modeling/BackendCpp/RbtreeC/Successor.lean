import BackendCpp.RbtreeC.Runs

/-!
# The next node

`rbtree_successor` goes down where the node has a right child and climbs where it has none.
Seen from a focus both ways end at the first item after the node in order, so the function
computes the in-order sequence of the tree one node at a time. The climb ends at the latest
above the root, whose parent is the sentinel whatever rotations and deletions came before.
-/

namespace BackendCpp.RbtreeC

open BackendCpp.Library

/-- The first of some cells, or the sentinel. -/
def following (nil : Addr) : List Cell → Addr
  | [] => nil
  | cell :: _ => cell.addr

/-- The upward loop of `rbtree_successor` ends at the first node after the focus. -/
theorem climb_spec {T : Rbtree} {path : List (Frame Cell)} {t : ColouredTree Cell}
    (focus : Focus T path t) (node : t ≠ .leaf) :
    Leaves (fun fuel => loop (rbtreeSuccessorPass T) fuel (ptr T.nil t, above T.nil path))
      (following T.nil (after path)) := by
  induction path generalizing t with
  | nil =>
    apply leaves_now
    simp [rbtreeSuccessorPass, after, following]
  | cons frame path ih =>
    have apart := focus.ptr_ne_sibling (Or.inl node)
    have stored := focus.read_above
    have inner : frame.item.addr ≠ T.nil := focus.up.addr_ne_nil
    obtain ⟨side, c, item, sibling⟩ := frame
    cases side with
    | left =>
      have right : (T.mem item.addr).right = ptr T.nil sibling := by rw [stored]; rfl
      have pass : rbtreeSuccessorPass T (ptr T.nil t, item.addr) = .inr item.addr := by
        unfold rbtreeSuccessorPass
        rw [if_neg]
        rw [right]
        exact fun both => apart both.2
      exact leaves_now pass
    | right =>
      have right : (T.mem item.addr).right = ptr T.nil t := by rw [stored]; rfl
      have parent : (T.mem item.addr).parent = above T.nil path := by rw [stored]; rfl
      have pass : rbtreeSuccessorPass T (ptr T.nil t, item.addr) =
          .inl (item.addr, above T.nil path) := by
        unfold rbtreeSuccessorPass
        rw [if_pos ⟨inner, right.symm⟩, parent]
      have above := ih focus.up (by simp [ColouredTree.join])
      exact leaves_next pass above

/-- `rbtree_successor` of a node in focus is the first node after it in order. -/
theorem Focus.successor {T : Rbtree} {path : List (Frame Cell)} {c : Colour}
    {left right : ColouredTree Cell} {cell : Cell} (focus : Focus T path (.node c left cell right)) :
    Leaves (fun fuel => rbtreeSuccessor fuel T cell.addr)
      (following T.nil (right.items ++ after path)) := by
  by_cases empty : right = .leaf
  · subst empty
    have rightAt : (T.mem cell.addr).right = T.nil := by rw [focus.stored.1]; rfl
    have parent : (T.mem cell.addr).parent = above T.nil path := focus.parent (by simp)
    have climb := climb_spec focus (by simp)
    unfold rbtreeSuccessor
    simp only [rightAt, ne_eq, not_true_eq_false, if_false, parent]
    exact climb
  · obtain ⟨lower, d, y, r, whole, first, leaves⟩ := rbtreeSuccessor_spec focus empty
    have items : right.items = y :: (r.items ++ after lower) := by
      rw [whole, items_fill, first]
      rfl
    rw [items]
    exact leaves

/-- The focus at a cell of a valid memory: the cells after it are those after the focus. -/
theorem Valid.focus_at {T : Rbtree} {nil : Addr} {low high : List Cell} {cell : Cell}
    (valid : Valid nil (low ++ cell :: high) T) :
    ∃ path c left right, Focus T path (.node c left cell right) ∧
      right.items ++ after path = high := by
  have distinct := valid.distinct.of_map
  obtain ⟨-, t, shape, -, items⟩ := valid
  have member : cell ∈ t.items := by simp [items]
  obtain ⟨path, c, left, right, whole, focus⟩ := shape.focus_of_mem member
  have order : (before path ++ left.items) ++ cell :: (right.items ++ after path) =
      low ++ cell :: high := by
    rw [← items, ← whole, items_fill]
    simp [ColouredTree.items]
  rw [← order, List.nodup_append, List.nodup_cons] at distinct
  obtain ⟨-, ⟨notAfter, -⟩, apart⟩ := distinct
  have notBefore : cell ∉ before path ++ left.items := fun listed =>
    apart cell listed cell List.mem_cons_self rfl
  obtain ⟨-, -, rest⟩ := (List.append_cons_inj_of_notMem notBefore notAfter).mp order
  exact ⟨path, c, left, right, focus, rest⟩

/-- `rbtree_successor` of a cell of a valid memory is the next cell. -/
theorem Valid.successor {T : Rbtree} {nil : Addr} {low high : List Cell} {cell : Cell}
    (valid : Valid nil (low ++ cell :: high) T) :
    Leaves (fun fuel => rbtreeSuccessor fuel T cell.addr) (following T.nil high) := by
  obtain ⟨path, c, left, right, focus, rest⟩ := valid.focus_at
  rw [← rest]
  exact focus.successor

/-- `rbtree_mini` of the root of a valid memory is the first cell. -/
theorem Valid.mini {T : Rbtree} {nil : Addr} {cells : List Cell} (valid : Valid nil cells T)
    (nonempty : T.root ≠ T.nil) :
    Leaves (fun fuel => rbtreeMini fuel T T.root) (following T.nil cells) := by
  obtain ⟨-, t, shape, -, rfl⟩ := valid
  have node : t ≠ .leaf := by
    rintro rfl
    exact nonempty shape.root
  obtain ⟨lower, c, y, right, whole, first, leaves⟩ :=
    rbtreeMini_spec (focus_iff.mpr shape : Focus T [] t) node
  have items : t.items = y :: (right.items ++ after lower) := by
    rw [whole, items_fill, first]
    rfl
  rw [shape.root, items]
  exact leaves

/-- The node `y` has the least of the keys greater than that of `x`, or `y` is the sentinel
and no key is greater. -/
def Next (T : Rbtree) (x y : Addr) : Prop :=
  (Reach T y ∧ (T.mem x).key < (T.mem y).key ∧
    ∀ a, Reach T a → (T.mem x).key < (T.mem a).key → a = y ∨ (T.mem y).key < (T.mem a).key) ∨
  (y = T.nil ∧ ∀ a, Reach T a → (T.mem a).key ≤ (T.mem x).key)

/-- The nodes that a loop visits which starts at a node and goes on with `rbtree_successor`
until it finds the sentinel. -/
inductive Walk (T : Rbtree) : Addr → List Addr → Prop
  | nil : Walk T T.nil []
  | visit {x next : Addr} {rest : List Addr} (inner : x ≠ T.nil)
      (successor : Leaves (fun fuel => rbtreeSuccessor fuel T x) next)
      (further : Walk T next rest) : Walk T x (x :: rest)

/-- A walk is determined by its start. -/
theorem Walk.unique {T : Rbtree} {x : Addr} {one other : List Addr} (first : Walk T x one)
    (second : Walk T x other) : one = other := by
  induction first generalizing other with
  | nil =>
    cases second with
    | nil => rfl
    | visit inner => exact absurd rfl inner
  | visit inner successor further ih =>
    cases second with
    | nil => exact absurd rfl inner
    | visit _ successor' further' =>
      rw [← successor.unique successor'] at further'
      rw [ih further']

/-- The cells of a valid memory from some cell on are walked one by one. -/
theorem Valid.walk {T : Rbtree} {nil : Addr} (high : List Cell) :
    ∀ low, Valid nil (low ++ high) T → Walk T (following T.nil high) (high.map Cell.addr) := by
  induction high with
  | nil => exact fun _ _ => Walk.nil
  | cons cell high ih =>
    intro low valid
    have inner := (valid.read (show cell ∈ low ++ cell :: high by simp)).1
    have further := ih (low ++ [cell]) (by simpa using valid)
    exact Walk.visit inner valid.successor further

/-- The next cell of a valid memory with increasing keys has the next key. -/
theorem Valid.next {T : Rbtree} {nil : Addr} {low high : List Cell} {cell : Cell}
    (valid : Valid nil (low ++ cell :: high) T)
    (sorted : (low ++ cell :: high).Pairwise (fun a b => a.key < b.key)) :
    Next T cell.addr (following T.nil high) := by
  have keyAt : ∀ other ∈ low ++ cell :: high, (T.mem other.addr).key = other.key :=
    fun other member => (valid.read member).2.1
  have here := keyAt cell (by simp)
  have listed : ∀ a, Reach T a → ∃ other ∈ low ++ cell :: high, other.addr = a := by
    intro a reach
    exact List.mem_map.mp ((valid.reach_iff a).mp reach)
  rw [List.pairwise_append, List.pairwise_cons] at sorted
  obtain ⟨-, ⟨cellHigh, sortedHigh⟩, lowRest⟩ := sorted
  have upTo : ∀ other ∈ low ++ cell :: high, other ∉ high → other.key ≤ cell.key := by
    intro other member notHigh
    simp only [List.mem_append, List.mem_cons] at member
    rcases member with inLow | rfl | inHigh
    · exact (lowRest other inLow cell List.mem_cons_self).le
    · exact le_refl _
    · exact absurd inHigh notHigh
  cases high with
  | nil =>
    refine Or.inr ⟨rfl, ?_⟩
    intro a reach
    obtain ⟨other, member, rfl⟩ := listed a reach
    rw [keyAt other member, here]
    exact upTo other member List.not_mem_nil
  | cons next rest =>
    have keyNext := keyAt next (by simp)
    have present : next ∈ low ++ cell :: next :: rest := by simp
    refine Or.inl ⟨(valid.reach_iff _).mpr (List.mem_map_of_mem present), ?_, ?_⟩
    · show (T.mem cell.addr).key < (T.mem next.addr).key
      rw [here, keyNext]
      exact cellHigh next List.mem_cons_self
    · intro a reach greater
      obtain ⟨other, member, rfl⟩ := listed a reach
      rw [keyAt other member, here] at greater
      have inHigh : other ∈ next :: rest := by
        by_contra notHigh
        exact absurd greater (not_lt.mpr (upTo other member notHigh))
      rcases List.mem_cons.mp inHigh with rfl | inRest
      · exact Or.inl rfl
      · right
        show (T.mem next.addr).key < (T.mem other.addr).key
        rw [keyAt other member, keyNext]
        exact (List.pairwise_cons.mp sortedHigh).1 other inRest

/-- In every run from the empty tree `rbtree_successor` of a node of the tree returns the
node with the next key, or the sentinel at the greatest key. So a loop that starts at
`rbtree_mini` of the root of a non-empty tree and goes on with `rbtree_successor` ends, and
it visits every node once, in the order of the keys. -/
theorem successor_visits_in_order {start T : Rbtree} {trace : List Call} (empty : Empty start)
    (run : Run Step start trace T) :
    (∀ x, Reach T x → ∃ y, Leaves (fun fuel => rbtreeSuccessor fuel T x) y ∧ Next T x y) ∧
    (T.root ≠ T.nil → ∃ first order,
      Leaves (fun fuel => rbtreeMini fuel T T.root) first ∧
      (∀ visited, Walk T first visited ↔ visited = order) ∧
      order.Nodup ∧ (∀ a, a ∈ order ↔ Reach T a) ∧
      (order.map fun a => (T.mem a).key).Pairwise (· < ·)) := by
  obtain ⟨cells, valid, sorted, -⟩ := run_represents empty run
  constructor
  · intro x reach
    obtain ⟨cell, member, rfl⟩ := List.mem_map.mp ((valid.reach_iff x).mp reach)
    obtain ⟨low, high, rfl⟩ := List.append_of_mem member
    exact ⟨following T.nil high, valid.successor, valid.next sorted⟩
  · intro nonempty
    have walk : Walk T (following T.nil cells) (cells.map Cell.addr) := Valid.walk cells [] valid
    refine ⟨following T.nil cells, cells.map Cell.addr, valid.mini nonempty, ?_, valid.distinct, ?_,
      ?_⟩
    · intro visited
      constructor
      · exact fun other => other.unique walk
      · rintro rfl
        exact walk
    · exact fun a => (valid.reach_iff a).symm
    · rw [List.map_map, List.pairwise_map]
      refine sorted.imp_of_mem ?_
      intro one other inOne inOther less
      show (T.mem one.addr).key < (T.mem other.addr).key
      rw [(valid.read inOne).2.1, (valid.read inOther).2.1]
      exact less

/-- After a rotation and a deletion `rbtree_successor` returns the next node. -/
theorem successor_visits_turned : ∃ T, Run Step blackMemory turned T ∧
    (∀ x, Reach T x → ∃ y, Leaves (fun fuel => rbtreeSuccessor fuel T x) y ∧ Next T x y) ∧
    ∃ first, Leaves (fun fuel => rbtreeMini fuel T T.root) first := by
  obtain ⟨empty, T, run, nil, root, -⟩ := turned_run
  obtain ⟨next, walk⟩ := successor_visits_in_order empty run
  have nonempty : T.root ≠ T.nil := by
    rw [nil, root]
    decide
  obtain ⟨first, -, mini, -⟩ := walk nonempty
  exact ⟨T, run, next, first, mini⟩

end BackendCpp.RbtreeC
