import BackendCpp.Library.Run
import BackendCpp.RbtreeC.Reading

/-!
# Runs of insertions and deletions

A caller starts from the empty tree of `main`, inserts nodes it has just allocated and
deletes nodes that a search has just returned. The abstract state is the map from the keys
present to their values; each call of the program is one step of the map, in every run.
-/

namespace BackendCpp.RbtreeC

open BackendCpp.Library

/-- The tree that `main` starts with. Nothing is said of the other fields of the sentinel or
of the rest of the memory. -/
structure Empty (T : Rbtree) : Prop where
  /-- `T->root = T->nil`. -/
  root : T.root = T.nil
  /-- `T->nil->color = BLACK`. -/
  black : (T.mem T.nil).color = BLACK

/-- `malloc` of a node: whatever the allocator and the caller put into it. -/
def allocate (T : Rbtree) (z : Addr) (node : RbtreeNode) : Rbtree := T.modify z fun _ => node

/-- An address that `malloc` may give: it is in no use by the tree. -/
def Fresh (T : Rbtree) (z : Addr) : Prop := z ≠ T.nil ∧ ¬ Reach T z

/-- The calls of a run. -/
inductive Call where
  /-- `rbtree_insert` of a node allocated at `z` with these contents. -/
  | insert (z : Addr) (node : RbtreeNode)
  /-- `rbtree_delete` of the node that `rbtree_search` returns for a key. -/
  | delete (key : Int)

/-- A call returns and leaves a tree behind. -/
inductive Step : Rbtree → Call → Rbtree → Prop
  | insert {T T' : Rbtree} {z : Addr} {node : RbtreeNode} (fresh : Fresh T z)
      (returns : Leaves (fun fuel => rbtreeInsert fuel (allocate T z node) z) T') :
      Step T (.insert z node) T'
  | delete {T T' : Rbtree} {key : Int} {z y : Addr}
      (found : Leaves (fun fuel => rbtreeSearch fuel T key) z) (present : z ≠ T.nil)
      (returns : Leaves (fun fuel => rbtreeDelete fuel T z) (T', y)) :
      Step T (.delete key) T'

/-- The abstract state: the value of every key that is present. -/
abbrev Contents := Int → Option Addr

/-- What a call means for the map. An insertion of a key that is present changes nothing. -/
def Contents.update (map : Contents) : Call → Contents
  | .insert _ node =>
    if map node.key = none then Function.update map node.key (some node.value) else map
  | .delete key => Function.update map key none

/-- The map after the calls of a run. -/
def contents (trace : List Call) : Contents := trace.foldl Contents.update fun _ => none

/-- The tree is valid and its cells are the pairs of the map. -/
def Represents (T : Rbtree) (map : Contents) : Prop :=
  ∃ cells, Valid T.nil cells T ∧ cells.Pairwise (fun a b => a.key < b.key) ∧
    ∀ key value, map key = some value ↔ ∃ cell ∈ cells, cell.key = key ∧ cell.value = value

/-- The empty tree represents the empty map. -/
theorem Empty.represents {T : Rbtree} (empty : Empty T) : Represents T fun _ => none := by
  refine ⟨[], ⟨⟨rfl, empty.black⟩, .leaf, ⟨empty.root, trivial, ?_, ?_⟩, ⟨rfl, 0, rfl⟩, rfl⟩, ?_, ?_⟩
  · simp [ColouredTree.items]
  · simp [ColouredTree.items]
  · exact List.Pairwise.nil
  · simp

/-- Reachability, for a valid memory. -/
theorem Valid.reach_iff {T : Rbtree} {nil : Addr} {cells : List Cell} (valid : Valid nil cells T)
    (a : Addr) : Reach T a ↔ a ∈ cells.map Cell.addr := by
  obtain ⟨-, t, shape, -, rfl⟩ := valid
  exact shape.reach_iff a

/-- The node stored at a cell holds its key and its value. -/
theorem Valid.read {T : Rbtree} {nil : Addr} {cells : List Cell} (valid : Valid nil cells T)
    {cell : Cell} (member : cell ∈ cells) :
    cell.addr ≠ T.nil ∧ (T.mem cell.addr).key = cell.key ∧
      (T.mem cell.addr).value = cell.value := by
  obtain ⟨-, t, shape, -, rfl⟩ := valid
  obtain ⟨path, c, left, right, whole, focus⟩ := shape.focus_of_mem member
  have fromLeft : Focus T path (.join .left c left cell right) := focus
  refine ⟨fromLeft.addr_ne_nil, ?_, ?_⟩
  · rw [focus.stored.1, nodeOf_key]
  · rw [focus.stored.1, nodeOf_value]

/-- No two cells of a valid memory share an address. -/
theorem Valid.distinct {T : Rbtree} {nil : Addr} {cells : List Cell} (valid : Valid nil cells T) :
    (cells.map Cell.addr).Nodup := by
  obtain ⟨-, t, shape, -, rfl⟩ := valid
  exact shape.distinct

/-- Allocating a fresh node leaves the tree as it is. -/
theorem Valid.allocate {T : Rbtree} {nil z : Addr} {cells : List Cell} (valid : Valid nil cells T)
    (fresh : Fresh T z) (node : RbtreeNode) : Valid nil cells (allocate T z node) := by
  have outside : z ∉ cells.map Cell.addr := fun member => fresh.2 ((valid.reach_iff z).mpr member)
  obtain ⟨sentinel, t, shape, redBlack, rfl⟩ := valid
  refine ⟨sentinel.modify fresh.1 _, t, ⟨shape.root, ?_, shape.distinct, shape.sentinel⟩, redBlack,
    rfl⟩
  have nil : (RbtreeC.allocate T z node).nil = T.nil := rfl
  refine shape.stored.congr nil fun cell member => ?_
  have listed := List.mem_map_of_mem (f := Cell.addr) member
  unfold RbtreeC.allocate
  rw [Rbtree.mem_modify, if_neg (ne_of_mem_of_not_mem listed outside)]

/-- A cell put between the smaller and the greater ones leaves the keys increasing. -/
theorem pairwise_between {low high : List Cell} {cell : Cell}
    (sorted : (low ++ high).Pairwise (fun a b => a.key < b.key))
    (below : ∀ other ∈ low, other.key < cell.key) (above : ∀ other ∈ high, cell.key < other.key) :
    (low ++ cell :: high).Pairwise (fun a b => a.key < b.key) := by
  rw [List.pairwise_append] at sorted
  rw [List.pairwise_append, List.pairwise_cons]
  refine ⟨sorted.1, ⟨above, sorted.2.1⟩, ?_⟩
  intro one inLow other inRest
  rw [List.mem_cons] at inRest
  rcases inRest with rfl | inHigh
  · exact below one inLow
  · exact sorted.2.2 one inLow other inHigh

/-- `rbtree_insert` of a fresh node returns and does to the map what an insertion means. When
the key is present, no field of any node changes. -/
theorem insert_step {T : Rbtree} {map : Contents} (represents : Represents T map) {z : Addr}
    (fresh : Fresh T z) (node : RbtreeNode) :
    ∃ T', Leaves (fun fuel => rbtreeInsert fuel (allocate T z node) z) T' ∧
      Represents T' (map.update (.insert z node)) ∧
      (map node.key ≠ none → T' = allocate T z node) := by
  obtain ⟨cells, valid, sorted, pairs⟩ := represents
  have outside : z ∉ cells.map Cell.addr := fun member => fresh.2 ((valid.reach_iff z).mpr member)
  have written : (allocate T z node).mem z = node := by
    unfold allocate
    rw [Rbtree.mem_modify, if_pos rfl]
  obtain ⟨T', leaves, outcome⟩ :=
    rbtreeInsert_spec (valid.allocate fresh node) sorted fresh.1.symm outside
  rw [written] at outcome
  rcases outcome with ⟨⟨cell, member, hit⟩, same⟩ | ⟨low, high, split, below, above, valid'⟩
  · have present : map node.key = some cell.value := (pairs ..).mpr ⟨cell, member, hit, rfl⟩
    refine ⟨T', leaves, ?_, fun _ => same⟩
    have unchanged : map.update (.insert z node) = map := by
      simp only [Contents.update, present, reduceCtorEq, if_false]
    rw [unchanged, same]
    exact ⟨cells, valid.allocate fresh node, sorted, pairs⟩
  · have absent : map node.key = none := by
      cases present : map node.key with
      | none => rfl
      | some value =>
        obtain ⟨cell, member, hit, -⟩ := (pairs ..).mp present
        rw [split, List.mem_append] at member
        rcases member with inLow | inHigh
        · exact absurd hit (below cell inLow).ne
        · exact absurd hit (above cell inHigh).ne'
    refine ⟨T', leaves, ?_, fun present => absurd absent present⟩
    have nil : T'.nil = T.nil := valid'.sentinel.same
    refine ⟨low ++ ⟨z, node.key, node.value⟩ :: high, nil ▸ valid', ?_, ?_⟩
    · exact pairwise_between (split ▸ sorted) below above
    · intro key value
      simp only [Contents.update, if_pos absent, List.mem_append, List.mem_cons]
      by_cases same : key = node.key
      · subst same
        rw [Function.update_self]
        constructor
        · intro chosen
          exact ⟨⟨z, node.key, node.value⟩, Or.inr (Or.inl rfl), rfl, Option.some.inj chosen⟩
        · rintro ⟨cell, inLow | rfl | inHigh, hit, stored⟩
          · exact absurd hit (below cell inLow).ne
          · exact congrArg some stored
          · exact absurd hit (above cell inHigh).ne'
      · rw [Function.update_of_ne same, pairs, split]
        constructor
        · rintro ⟨cell, member, hit, stored⟩
          rw [List.mem_append] at member
          exact ⟨cell, member.imp id Or.inr, hit, stored⟩
        · rintro ⟨cell, inLow | rfl | inHigh, hit, stored⟩
          · exact ⟨cell, by simp [inLow], hit, stored⟩
          · exact absurd hit.symm same
          · exact ⟨cell, by simp [inHigh], hit, stored⟩

/-- The pair that a cell stands for. -/
def Cell.pair (cell : Cell) : Int × Addr := (cell.key, cell.value)

/-- A valid memory whose pairs are those of another one without one cell represents the map
without that key. -/
theorem represents_without {T : Rbtree} {map : Contents} {low high cells : List Cell} {z : Cell}
    (sorted : (low ++ z :: high).Pairwise (fun a b => a.key < b.key))
    (pairs : ∀ key value, map key = some value ↔
      ∃ cell ∈ low ++ z :: high, cell.key = key ∧ cell.value = value)
    (valid : Valid T.nil cells T) (same : cells.map Cell.pair = (low ++ high).map Cell.pair) :
    Represents T (Function.update map z.key none) := by
  have keys : cells.map Cell.key = (low ++ high).map Cell.key := by
    have firsts := congrArg (List.map Prod.fst) same
    simpa [List.map_map, Function.comp_def, Cell.pair] using firsts
  have rest : (low ++ high).Pairwise (fun a b => a.key < b.key) :=
    sorted.sublist (List.Sublist.append_left (List.sublist_cons_self z high) low)
  refine ⟨cells, valid, ?_, ?_⟩
  · rw [← List.pairwise_map (f := Cell.key) (R := fun a b => a < b), keys, List.pairwise_map]
    exact rest
  · intro key value
    have moved : (∃ cell ∈ cells, cell.key = key ∧ cell.value = value) ↔
        ∃ cell ∈ low ++ high, cell.key = key ∧ cell.value = value := by
      have listed : (key, value) ∈ cells.map Cell.pair ↔
          (key, value) ∈ (low ++ high).map Cell.pair := by rw [same]
      simpa only [List.mem_map, Cell.pair, Prod.mk.injEq] using listed
    rw [moved]
    rw [List.pairwise_append, List.pairwise_cons] at sorted
    by_cases here : key = z.key
    · subst here
      rw [Function.update_self]
      simp only [reduceCtorEq, false_iff, not_exists, not_and]
      intro cell member hit
      rw [List.mem_append] at member
      rcases member with inLow | inHigh
      · exact absurd hit (sorted.2.2 cell inLow z List.mem_cons_self).ne
      · exact absurd hit (sorted.2.1.1 cell inHigh).ne'
    · rw [Function.update_of_ne here, pairs]
      constructor
      · rintro ⟨cell, member, hit, stored⟩
        simp only [List.mem_append, List.mem_cons] at member
        rcases member with inLow | rfl | inHigh
        · exact ⟨cell, by simp [inLow], hit, stored⟩
        · exact absurd hit.symm here
        · exact ⟨cell, by simp [inHigh], hit, stored⟩
      · rintro ⟨cell, member, hit, stored⟩
        rw [List.mem_append] at member
        refine ⟨cell, ?_, hit, stored⟩
        simp only [List.mem_append, List.mem_cons]
        tauto

/-- `rbtree_search` finds what the map holds. -/
theorem search_step {T : Rbtree} {map : Contents} (represents : Represents T map) (key : Int) :
    ∃ z, Leaves (fun fuel => rbtreeSearch fuel T key) z ∧
      ((map key = none ∧ z = T.nil) ∨
        ∃ value, map key = some value ∧ Reach T z ∧ z ≠ T.nil ∧ (T.mem z).key = key ∧
          (T.mem z).value = value) := by
  obtain ⟨cells, valid, sorted, pairs⟩ := represents
  rcases rbtreeSearch_spec valid sorted key with ⟨cell, member, hit, leaves⟩ | ⟨none, leaves⟩
  · obtain ⟨inner, keyAt, valueAt⟩ := valid.read member
    refine ⟨cell.addr, leaves, Or.inr ⟨cell.value, (pairs ..).mpr ⟨cell, member, hit, rfl⟩, ?_,
      inner, keyAt.trans hit, valueAt⟩⟩
    exact (valid.reach_iff _).mpr (List.mem_map_of_mem member)
  · refine ⟨T.nil, leaves, Or.inl ⟨?_, rfl⟩⟩
    cases present : map key with
    | none => rfl
    | some value =>
      obtain ⟨cell, member, hit, -⟩ := (pairs ..).mp present
      exact absurd hit (none cell member)

/-- `rbtree_delete` of a found node returns, removes the key from the map, and gives back the
one node that is no longer reachable. -/
theorem delete_step {T : Rbtree} {map : Contents} (represents : Represents T map) {key : Int}
    {z : Addr} (found : Leaves (fun fuel => rbtreeSearch fuel T key) z) (present : z ≠ T.nil) :
    ∃ T' y, Leaves (fun fuel => rbtreeDelete fuel T z) (T', y) ∧
      Represents T' (map.update (.delete key)) ∧ Reach T y ∧
      (∀ a, Reach T' a ↔ Reach T a ∧ a ≠ y) ∧
      ((T.mem z).left ≠ T.nil → (T.mem z).right ≠ T.nil →
        y ≠ z ∧ (T'.mem z).key = (T.mem y).key ∧ (T'.mem z).value = (T.mem y).value) := by
  obtain ⟨cells, valid, sorted, pairs⟩ := represents
  rcases rbtreeSearch_spec valid sorted key with ⟨cell, member, hit, leaves⟩ | ⟨none, leaves⟩
  · have place : z = cell.addr := found.unique leaves
    subst place
    subst hit
    obtain ⟨T', y, low, high, returns, split, outcome⟩ := rbtreeDelete_spec valid member
    have distinct := valid.distinct
    rw [split, List.map_append, List.map_cons, List.nodup_append, List.nodup_cons] at distinct
    obtain ⟨lowUnique, ⟨cellHigh, highUnique⟩, lowRest⟩ := distinct
    refine ⟨T', y, returns, ?_⟩
    rcases outcome with ⟨few, rfl, valid'⟩ | ⟨next, rest, rfl, rfl, valid'⟩
    · have nil : T'.nil = T.nil := valid'.sentinel.same
      refine ⟨?_, ?_, ?_, fun left right => absurd few (by tauto)⟩
      · exact represents_without (split ▸ sorted) (split ▸ pairs) (nil ▸ valid') rfl
      · exact (valid.reach_iff _).mpr (List.mem_map_of_mem member)
      · intro a
        rw [valid'.reach_iff, valid.reach_iff, split]
        simp only [List.map_append, List.map_cons, List.mem_append, List.mem_cons]
        constructor
        · rintro (inLow | inHigh)
          · exact ⟨Or.inl inLow, lowRest a inLow _ List.mem_cons_self⟩
          · exact ⟨Or.inr (Or.inr inHigh), ne_of_mem_of_not_mem inHigh cellHigh⟩
        · tauto
    · have nil : T'.nil = T.nil := valid'.sentinel.same
      rw [List.map_cons, List.mem_cons, not_or] at cellHigh
      rw [List.map_cons, List.nodup_cons] at highUnique
      have atNext := valid.read (show next ∈ cells by simp [split])
      have atZ := valid'.read
        (show (⟨cell.addr, next.key, next.value⟩ : Cell) ∈ _ from by simp)
      refine ⟨?_, ?_, ?_, fun _ _ => ⟨Ne.symm cellHigh.1, ?_, ?_⟩⟩
      · refine represents_without (split ▸ sorted) (split ▸ pairs) (nil ▸ valid') ?_
        simp [Cell.pair]
      · refine (valid.reach_iff _).mpr (List.mem_map_of_mem ?_)
        simp [split]
      · intro a
        rw [valid'.reach_iff, valid.reach_iff, split]
        simp only [List.map_append, List.map_cons, List.mem_append, List.mem_cons]
        constructor
        · rintro (inLow | rfl | inRest)
          · refine ⟨Or.inl inLow, lowRest a inLow _ ?_⟩
            simp
          · exact ⟨Or.inr (Or.inl rfl), cellHigh.1⟩
          · exact ⟨Or.inr (Or.inr (Or.inr inRest)), ne_of_mem_of_not_mem inRest highUnique.1⟩
        · tauto
      · exact atZ.2.1.trans atNext.2.1.symm
      · exact atZ.2.2.trans atNext.2.2.symm
  · exact absurd (found.unique leaves) present

/-- Every call does to the represented map what it means. -/
theorem Step.represents {T T' : Rbtree} {map : Contents} {call : Call}
    (represents : Represents T map) (step : Step T call T') : Represents T' (map.update call) := by
  cases step with
  | insert fresh returns =>
    obtain ⟨T'', leaves, represents', -⟩ := insert_step represents fresh _
    rw [returns.unique leaves]
    exact represents'
  | delete found present returns =>
    obtain ⟨T'', y, leaves, represents', -⟩ := delete_step represents found present
    have same := returns.unique leaves
    rw [(Prod.mk.inj same).1]
    exact represents'

/-- The pairs that the reachable nodes hold. -/
def Holds (T : Rbtree) (key : Int) (value : Addr) : Prop :=
  ∃ a, Reach T a ∧ (T.mem a).key = key ∧ (T.mem a).value = value

/-- The reachable nodes hold exactly the pairs of the represented map. -/
theorem Represents.holds_iff {T : Rbtree} {map : Contents} (represents : Represents T map)
    (key : Int) (value : Addr) : Holds T key value ↔ map key = some value := by
  obtain ⟨cells, valid, -, pairs⟩ := represents
  rw [pairs]
  constructor
  · rintro ⟨a, reach, keyAt, valueAt⟩
    obtain ⟨cell, member, rfl⟩ := List.mem_map.mp ((valid.reach_iff a).mp reach)
    obtain ⟨-, key', value'⟩ := valid.read member
    exact ⟨cell, member, key'.symm.trans keyAt, value'.symm.trans valueAt⟩
  · rintro ⟨cell, member, hit, stored⟩
    obtain ⟨-, key', value'⟩ := valid.read member
    exact ⟨cell.addr, (valid.reach_iff _).mpr (List.mem_map_of_mem member), key'.trans hit,
      value'.trans stored⟩

/-- In every run from the empty tree the memory represents the map that the calls made. -/
theorem run_represents {start T : Rbtree} {trace : List Call} (empty : Empty start)
    (run : Run Step start trace T) : Represents T (contents trace) := by
  refine run.simulation Contents.update Represents empty.represents ?_
  intro state ghost label next represents step
  exact step.represents represents

/-- In every run from the empty tree every state between calls is a red-black tree, and every
call that a caller may make next returns. -/
theorem run_redBlackTree {start T : Rbtree} {trace : List Call} (empty : Empty start)
    (run : Run Step start trace T) :
    RedBlackTree T ∧
      (∀ z node, Fresh T z → ∃ T', Step T (.insert z node) T') ∧
      (∀ key z, Leaves (fun fuel => rbtreeSearch fuel T key) z → z ≠ T.nil →
        ∃ T', Step T (.delete key) T') := by
  have represents := run_represents empty run
  refine ⟨?_, ?_, ?_⟩
  · obtain ⟨cells, valid, sorted, -⟩ := represents
    exact valid.redBlackTree sorted
  · intro z node fresh
    obtain ⟨T', leaves, -⟩ := insert_step represents fresh node
    exact ⟨T', Step.insert fresh leaves⟩
  · intro key z found present
    obtain ⟨T', y, leaves, -⟩ := delete_step represents found present
    exact ⟨T', Step.delete found present leaves⟩

/-- An address above all that the tree points to is in no use. -/
theorem fresh_above {T : Rbtree} {z : Addr} (inner : z ≠ T.nil) (root : T.root < z)
    (children : ∀ a, a < z → (T.mem a).left < z ∧ (T.mem a).right < z) : Fresh T z := by
  have below : ∀ a, Reach T a → a < z := by
    intro a reach
    induction reach with
    | root => exact root
    | child side _ _ ih =>
      cases side with
      | left => exact (children _ ih).1
      | right => exact (children _ ih).2
  exact ⟨inner, fun reach => absurd (below z reach) (lt_irrefl z)⟩

/-- An insertion that returns under one fuel leaves with that tree. -/
theorem leaves_rbtreeInsert {T T' : Rbtree} {z : Addr} {fuel : Nat}
    (returned : rbtreeInsert fuel T z = some T') :
    Leaves (fun fuel => rbtreeInsert fuel T z) T' := by
  obtain ⟨place, descent, linked⟩ := Option.bind_eq_some_iff.mp returned
  refine Leaves.bind (leaves_of_loop descent) ?_
  cases place with
  | none => exact Leaves.of_forall fun _ => linked
  | some y => exact leaves_of_loop linked

/-- A deletion that returns under one fuel leaves with that tree. -/
theorem leaves_rbtreeDelete {T T' : Rbtree} {z y : Addr} {fuel : Nat}
    (returned : rbtreeDelete fuel T z = some (T', y)) :
    Leaves (fun fuel => rbtreeDelete fuel T z) (T', y) := by
  obtain ⟨x, chosen, fixed⟩ := Option.bind_eq_some_iff.mp returned
  have start : Leaves (fun fuel => if (T.mem z).left = T.nil ∨ (T.mem z).right = T.nil then some z
      else rbtreeSuccessor fuel T z) x := by
    by_cases few : (T.mem z).left = T.nil ∨ (T.mem z).right = T.nil
    · simp only [if_pos few] at chosen ⊢
      exact Leaves.of_forall fun _ => chosen
    · simp only [if_neg few, rbtreeSuccessor] at chosen ⊢
      split_ifs at chosen ⊢
      · exact leaves_of_loop chosen
      · exact leaves_of_loop chosen
  obtain ⟨T'', repaired, same⟩ := Option.map_eq_some_iff.mp fixed
  rw [← same]
  refine start.bind (Leaves.map ?_ fun T => (T, x))
  split_ifs at repaired ⊢ with black
  · exact leaves_of_loop repaired
  · exact Leaves.of_forall fun _ => repaired

/-- A call with a bound on its loops. -/
def Call.exec (fuel : Nat) (T : Rbtree) : Call → Option Rbtree
  | .insert z node => rbtreeInsert fuel (allocate T z node) z
  | .delete key => (rbtreeSearch fuel T key).bind fun z =>
      if z = T.nil then none else (rbtreeDelete fuel T z).map Prod.fst

/-- An insertion is at an address above those before it. -/
def Call.Above (T : Rbtree) : Call → Prop
  | .insert z _ => z ≠ T.nil ∧ T.root < z ∧
      ∀ a, a < z → (T.mem a).left < z ∧ (T.mem a).right < z
  | .delete _ => True

instance (T : Rbtree) : (call : Call) → Decidable (call.Above T)
  | .insert z _ => inferInstanceAs (Decidable (z ≠ T.nil ∧ T.root < z ∧
      ∀ a, a < z → (T.mem a).left < z ∧ (T.mem a).right < z))
  | .delete _ => isTrue trivial

/-- Calls that return are steps. -/
theorem step_of_exec {fuel : Nat} {T T' : Rbtree} {call : Call}
    (done : call.exec fuel T = some T') (above : call.Above T) : Step T call T' := by
  cases call with
  | insert z node =>
    exact Step.insert (fresh_above above.1 above.2.1 above.2.2) (leaves_rbtreeInsert done)
  | delete key =>
    obtain ⟨z, found, deleted⟩ := Option.bind_eq_some_iff.mp done
    split_ifs at deleted with absent
    obtain ⟨⟨T'', y⟩, returned, rfl⟩ := Option.map_eq_some_iff.mp deleted
    exact Step.delete (leaves_of_loop found) absent (leaves_rbtreeDelete returned)

/-- A memory of black nodes, with an empty tree in it. -/
def blackMemory : Rbtree := ⟨0, 0, fun _ => ⟨BLACK, 0, 0, 0, 0, 0⟩⟩

/-- The third insertion turns the tree to the left, the fifth finds its key; the root, which has two
children, is deleted. -/
def turned : List Call :=
  [.insert 1 ⟨RED, 9, 9, 9, 4, 40⟩, .insert 2 ⟨RED, 9, 9, 9, 5, 50⟩, .insert 3 ⟨RED, 9, 9, 9, 6, 60⟩,
    .insert 4 ⟨RED, 9, 9, 9, 7, 70⟩, .insert 5 ⟨RED, 9, 9, 9, 6, 61⟩, .delete 5]

/-- The root receives the contents of its successor. -/
theorem turned_run : Empty blackMemory ∧ ∃ T, Run Step blackMemory turned T ∧ T.nil = 0 ∧
    T.root = 2 ∧ (T.mem 2).key = 6 ∧ (T.mem 2).left = 1 ∧ (T.mem 2).right = 4 := by
  have ends : (turned.foldlM (fun T call => if Call.Above T call then call.exec 9 T else none)
      blackMemory).any (fun T : Rbtree => T.nil = 0 ∧ T.root = 2 ∧ (T.mem 2).key = 6 ∧
        (T.mem 2).left = 1 ∧ (T.mem 2).right = 4) = true := by
    decide +kernel
  obtain ⟨T, done, facts⟩ := (Option.any_eq_true _ _).mp ends
  exact ⟨⟨rfl, rfl⟩, T, (Run.of_tested done).mono fun _ _ _ taken => step_of_exec taken.1 taken.2,
    of_decide_eq_true facts⟩

/-- After the rotation and the deletion the tree is valid. -/
theorem run_redBlackTree_turned :
    ∃ T, Run Step blackMemory turned T ∧ T.root = 2 ∧ RedBlackTree T := by
  obtain ⟨empty, T, run, -, root, -⟩ := turned_run
  exact ⟨T, run, root, (run_redBlackTree empty run).1⟩

/-- In every run from the empty tree the tree is the map that the calls made. A search finds
what the map holds. An insertion of a key that is present changes nothing. A deletion takes
away the key of the node, keeps every other pair and gives back the one node that is no
longer reachable; a node with two children receives the contents of that other node. -/
theorem run_refines_map {start T : Rbtree} {trace : List Call} (empty : Empty start)
    (run : Run Step start trace T) :
    (∀ key value, Holds T key value ↔ contents trace key = some value) ∧
    (∀ key, ∃ z, Leaves (fun fuel => rbtreeSearch fuel T key) z ∧
      ((contents trace key = none ∧ z = T.nil) ∨
        ∃ value, contents trace key = some value ∧ Reach T z ∧ z ≠ T.nil ∧
          (T.mem z).key = key ∧ (T.mem z).value = value)) ∧
    (∀ z node, Fresh T z → contents trace node.key ≠ none →
      Leaves (fun fuel => rbtreeInsert fuel (allocate T z node) z) (allocate T z node)) ∧
    (∀ key z, Leaves (fun fuel => rbtreeSearch fuel T key) z → z ≠ T.nil →
      ∃ T' y, Leaves (fun fuel => rbtreeDelete fuel T z) (T', y) ∧
        (∀ k v, Holds T' k v ↔ Holds T k v ∧ k ≠ (T.mem z).key) ∧
        Reach T y ∧ (∀ a, Reach T' a ↔ Reach T a ∧ a ≠ y) ∧
        ((T.mem z).left ≠ T.nil → (T.mem z).right ≠ T.nil →
          y ≠ z ∧ (T'.mem z).key = (T.mem y).key ∧ (T'.mem z).value = (T.mem y).value)) := by
  have represents := run_represents empty run
  refine ⟨represents.holds_iff, search_step represents, ?_, ?_⟩
  · intro z node fresh present
    obtain ⟨T', leaves, -, same⟩ := insert_step represents fresh node
    rw [same present] at leaves
    exact leaves
  · intro key z found present
    obtain ⟨z', found', outcome⟩ := search_step represents key
    have place := found.unique found'
    subst place
    have keyAt : (T.mem z).key = key := by
      rcases outcome with ⟨-, absent⟩ | ⟨value, -, -, -, keyAt, -⟩
      · exact absurd absent present
      · exact keyAt
    obtain ⟨T', y, leaves, represents', reachY, reach, moved⟩ :=
      delete_step represents found present
    refine ⟨T', y, leaves, ?_, reachY, reach, moved⟩
    intro k v
    rw [represents'.holds_iff, represents.holds_iff, keyAt, Contents.update]
    by_cases here : k = key
    · rw [here, Function.update_self]
      simp
    · rw [Function.update_of_ne here]
      simp [here]

/-- The pairs of three keys are held, and that of the deleted key is not. -/
theorem run_refines_map_turned : ∃ T, Run Step blackMemory turned T ∧ Holds T 4 40 ∧ Holds T 6 60 ∧
    Holds T 7 70 ∧ ∀ value, ¬ Holds T 5 value := by
  obtain ⟨empty, T, run, -⟩ := turned_run
  have holds := (run_refines_map empty run).1
  refine ⟨T, run, (holds 4 40).mpr (by decide), (holds 6 60).mpr (by decide),
    (holds 7 70).mpr (by decide), fun value wrong => ?_⟩
  have absent : contents turned 5 = none := by decide
  rw [(holds 5 value).mp wrong] at absent
  cases absent

end BackendCpp.RbtreeC
