import BackendCpp.RbtreeH.Repair

/-!
# Insertion, where it is finished

An insertion that meets only the written cases ends, and the cells of the tree are then the
old ones with the new one between them. The tree is a red-black tree exactly where the place of
the key is mended: a climb over red uncles that comes to the root leaves a red root, and an LR
case leaves a red node above a red one.
-/

namespace BackendCpp.RbtreeH

open BackendCpp.Library
open RbtreeC (Addr RbtreeNode Rbtree Cell Focus Sentinel Shape Valid Reach RED BLACK code ptr above
  pathCells nodeOf RedBlackTree)

/-- Linking writes the same fields as the linking of `rbtree.c`, in another order. -/
theorem recode_insertLink (T : Rbtree) (z prev : Addr) (apart : prev ≠ z) :
    recode (insertLink T z prev) = RbtreeC.insertLink (recode T) z prev := by
  unfold insertLink
  extract_lets T1 T2 T3 T4
  have nil1 : T1.nil = T.nil := by
    simp only [T1]
    split
    · rfl
    · split <;> rfl
  have root1 : T1.root = if prev = T.nil then z else T.root := by
    simp only [T1]
    split
    · rfl
    · split <;> rfl
  have mem1 : ∀ a, T1.mem a =
      if a = prev ∧ a ≠ T.nil then
        (T.mem a).withChild (if (T.mem z).key < (T.mem prev).key then .left else .right) z
      else T.mem a := by
    intro a
    simp only [T1]
    split
    · rw [Rbtree.mem_setRoot]
      grind
    · split <;> rw [Rbtree.mem_setChild] <;> grind
  clear_value T1
  refine eq_of_mem ?_ ?_ fun a => ?_
  · rw [RbtreeC.root_insertLink]
    exact root1
  · rw [RbtreeC.nil_insertLink]
    exact nil1
  · rw [RbtreeC.mem_insertLink _ _ _ apart]
    show recodeNode ((T4.setColor z red).mem a) = _
    simp only [T4, T3, T2, Rbtree.mem_setColor, Rbtree.mem_setChild, Rbtree.mem_setParent,
      Rbtree.nil_setParent, Rbtree.nil_setChild, nil1, mem1, recode_key, recode_value]
    by_cases here : a = z
    · subst here
      have away : ¬ (a = prev ∧ a ≠ T.nil) := fun both => apart both.1.symm
      simp only [if_pos, if_neg away]
      rfl
    · by_cases below : a = prev ∧ a ≠ T.nil
      · rw [if_neg here, if_neg here, if_neg here, if_neg here, if_neg here, if_pos below,
          if_pos (show a = prev ∧ a ≠ (recode T).nil from below)]
        exact recodeNode_withChild ..
      · rw [if_neg here, if_neg here, if_neg here, if_neg here, if_neg here, if_neg below,
          if_neg (show ¬ (a = prev ∧ a ≠ (recode T).nil) from below)]
        rfl

/-- What an insertion of `z` with a new key is to do: the tree is a red-black tree, `z` is its
only new node, and every node has its key and its value. -/
structure AddsKey (T : Rbtree) (z : Addr) (T' : Rbtree) : Prop where
  /-- The tree afterwards. -/
  tree : RedBlackTree (recode T')
  /-- Its nodes. -/
  nodes : ∀ a, Reach T' a ↔ a = z ∨ Reach T a
  /-- Their contents. -/
  contents : ∀ a, Reach T' a → (T'.mem a).key = (T.mem a).key ∧ (T'.mem a).value = (T.mem a).value

section insertion

variable {T : Rbtree} {z : Addr} {cells : List Cell} {hole : List (Frame Cell)}

/-- The cells of the tree with the new one at the hole. -/
def withNew (T : Rbtree) (z : Addr) (hole : List (Frame Cell)) : List Cell :=
  before hole ++ ⟨z, (T.mem z).key, (T.mem z).value⟩ :: after hole

/-- A valid memory with the new cell at the hole is what an insertion is to bring about. -/
theorem Gap.addsKey (gap : Gap T z cells hole) {nil : Addr} {T' : Rbtree}
    (valid' : Valid nil (withNew T z hole) (recode T')) : AddsKey T z T' := by
  have sorted := gap.sorted
  rw [gap.split] at sorted
  have listed : ∀ cell ∈ withNew T z hole,
      cell = ⟨z, (T.mem z).key, (T.mem z).value⟩ ∨ cell ∈ cells := by
    intro cell member
    rw [gap.split]
    simp only [withNew, List.mem_append, List.mem_cons] at member ⊢
    tauto
  refine ⟨valid'.redBlackTree (RbtreeC.pairwise_between sorted gap.low gap.high), ?_, ?_⟩
  · intro a
    rw [← reach_recode, valid'.reach_iff, ← reach_recode, gap.valid.reach_iff, gap.split]
    simp only [withNew, List.map_append, List.map_cons, List.mem_append, List.mem_cons]
    tauto
  · intro a reach
    rw [← reach_recode, valid'.reach_iff] at reach
    obtain ⟨cell, member, rfl⟩ := List.mem_map.mp reach
    obtain ⟨-, key', value'⟩ := valid'.read member
    rcases listed cell member with rfl | old
    · exact ⟨key', value'⟩
    · obtain ⟨-, key, value⟩ := gap.valid.read old
      exact ⟨key'.trans key.symm, value'.trans value.symm⟩

/-- The fix-up of a node that is the root paints it black. -/
theorem insertRoot_spec {nil : Addr} (sentinel : Sentinel nil (recode T)) {c : Cell}
    (focus : Focus (recode T) [] (.node .red .leaf c .leaf)) (fuel : Nat) :
    rbtreeInsertFixup fuel T c.addr = some (T.setColor c.addr black) ∧
      Valid nil [c] (recode (T.setColor c.addr black)) := by
  have root : T.root = c.addr := focus.hung
  have fromLeft : Focus (recode T) [] (.join .left .red .leaf c .leaf) := focus
  have painted : recode (T.setColor c.addr black) = (recode T).setColor c.addr BLACK :=
    recode_setColor ..
  refine ⟨if_pos root.symm, ?_⟩
  rw [painted]
  exact ⟨sentinel.setColor fromLeft.addr_ne_nil _, _, RbtreeC.focus_iff.mp (fromLeft.setColor .black),
    ⟨rfl, 1, rfl, rfl⟩, rfl⟩

end insertion

/-- An insertion of a fresh node with a new key that meets only the written cases ends in a
red-black tree with one key more if and only if the tree is empty, or the place of the key is
mended: climbing from it over pairs of a red father and a red uncle one comes to a black node,
or to LL, before one comes to the root or to LR. -/
theorem rbtree_insert_adds_key_iff {T : Rbtree} {z : Addr} (tree : RedBlackTree (recode T))
    (inner : z ≠ T.nil) (fresh : ¬ Reach T z)
    (new_key : ∀ a, Reach T a → (T.mem a).key ≠ (T.mem z).key) (written : OnlyWritten T z) :
    (∃ T', Leaves (fun fuel => rbtreeInsert fuel T z) T' ∧ AddsKey T z T') ↔ Repairs T z := by
  obtain ⟨cells, valid, sorted⟩ := tree.valid
  have outside : z ∉ cells.map Cell.addr := fun member =>
    fresh (reach_recode.mp ((valid.reach_iff z).mpr member))
  rcases RbtreeC.rbtreeInsert_hole valid sorted inner.symm outside with
    ⟨⟨cell, member, hit⟩, -⟩ | ⟨hole, focus, split, low, high, leaves, accepts, sentinel, linked⟩
  · have reach : Reach T cell.addr :=
      reach_recode.mp ((valid.reach_iff _).mpr (List.mem_map_of_mem member))
    exact absurd ((valid.read member).2.1.trans hit) (new_key _ reach)
  · have gap : Gap T z cells hole := ⟨valid, sorted, focus, split, low, high⟩
    rw [gap.repairs_iff accepts]
    have finished := written _ gap.endsBelow
    have unique := linked.distinct
    simp only [ColouredTree.items, List.nil_append, List.cons_append, List.map_cons,
      List.nodup_cons] at unique
    have apart : above T.nil hole ≠ z :=
      RbtreeC.ne_of_sentinel_or_mem (RbtreeC.above_mem T.nil hole) inner.symm unique.1
    rw [recode_nil, ← recode_insertLink T z _ apart] at sentinel linked
    have single : (ColouredTree.node .red .leaf
        (⟨z, (T.mem z).key, (T.mem z).value⟩ : Cell) .leaf).Balanced 0 := ⟨rfl, rfl, rfl, rfl⟩
    cases hole with
    | nil =>
      refine iff_of_true ?_ (Or.inl rfl)
      have painted := insertRoot_spec sentinel linked
      exact ⟨_, leaves.bind (Leaves.of_forall fun fuel => (painted fuel).1),
        gap.addsKey (painted 0).2⟩
    | cons frame up =>
      have notRoot : z ≠ (insertLink T z (above T.nil (frame :: up))).root := linked.root_ne
      obtain ⟨T', whole, fixed, sentinel', shape, items, mended, spoiled⟩ :=
        insertFixup_spec sentinel linked rfl accepts finished
      have returns : Leaves (fun fuel => rbtreeInsert fuel T z) T' := by
        have runs : ∀ fuel, rbtreeInsertFixup fuel (insertLink T z (above T.nil (frame :: up))) z =
            loop insertFixupPass fuel (insertLink T z (above T.nil (frame :: up)), z) :=
          fun fuel => if_neg notRoot
        refine leaves.bind ?_
        simp only [recode_nil, runs]
        exact fixed
      constructor
      · rintro ⟨last, leaves', adds⟩
        right
        by_contra lost
        rw [leaves'.unique returns] at adds
        obtain ⟨-, ⟨-, other, shape', redBlack, -⟩, -⟩ := adds.tree.valid
        rw [shape'.unique shape] at redBlack
        exact spoiled (Or.inr lost) redBlack
      · rintro (isNil | mendable)
        · cases isNil
        · have order : whole.items = withNew T z (frame :: up) := by
            rw [items, items_fill]
            simp [withNew, ColouredTree.items]
          exact ⟨T', returns, gap.addsKey ⟨sentinel', whole, shape, mended single mendable, order⟩⟩

/-- A loop that leaves at once meets one state. -/
theorem finished_now {state : Rbtree × Addr} {T : Rbtree} (leaves : insertFixupPass state = .inr T)
    (written : ¬ Unwritten state) : Finished state := by
  intro other later
  rcases Relation.ReflTransGen.cases_head later with rfl | ⟨next, goes, -⟩
  · exact written
  · exact absurd (leaves.symm.trans goes) (by simp)

/-- A loop that goes on meets its state and those of the rest. -/
theorem finished_next {state next : Rbtree × Addr} (goes : insertFixupPass state = .inl next)
    (written : ¬ Unwritten state) (rest : Finished next) : Finished state := by
  intro other later
  rcases Relation.ReflTransGen.cases_head later with rfl | ⟨after, goes', more⟩
  · exact written
  · have same : next = after := Sum.inl.inj (goes.symm.trans goes')
    subst same
    exact rest other more

/-- A tree of seven nodes with the red node 2 below the root, two red leaves below its left
child 4, and a node 8 of key 5 to insert below the left one of them. -/
def climbing : Rbtree :=
  ⟨1, 0, fun a =>
    if a = 1 then ⟨black, 3, 2, 0, 50, 0⟩
    else if a = 2 then ⟨red, 5, 4, 1, 30, 0⟩
    else if a = 3 then ⟨black, 0, 0, 1, 70, 0⟩
    else if a = 4 then ⟨black, 7, 6, 2, 20, 0⟩
    else if a = 5 then ⟨black, 0, 0, 2, 40, 0⟩
    else if a = 6 then ⟨red, 0, 0, 4, 10, 0⟩
    else if a = 7 then ⟨red, 0, 0, 4, 25, 0⟩
    else if a = 8 then ⟨black, 0, 0, 0, 5, 0⟩
    else ⟨black, 0, 0, 0, 0, 0⟩⟩

/-- The seven nodes are a valid memory. -/
theorem climbing_valid :
    Valid 0 [⟨6, 10, 0⟩, ⟨4, 20, 0⟩, ⟨7, 25, 0⟩, ⟨2, 30, 0⟩, ⟨5, 40, 0⟩, ⟨1, 50, 0⟩, ⟨3, 70, 0⟩]
      (recode climbing) :=
  ⟨⟨rfl, rfl⟩,
    .node .black
      (.node .red
        (.node .black (.node .red .leaf ⟨6, 10, 0⟩ .leaf) ⟨4, 20, 0⟩
          (.node .red .leaf ⟨7, 25, 0⟩ .leaf))
        ⟨2, 30, 0⟩ (.node .black .leaf ⟨5, 40, 0⟩ .leaf))
      ⟨1, 50, 0⟩ (.node .black .leaf ⟨3, 70, 0⟩ .leaf),
    ⟨rfl, ⟨rfl, ⟨rfl, ⟨rfl, ⟨rfl, trivial, trivial⟩, rfl, trivial, trivial⟩,
      rfl, trivial, trivial⟩, rfl, trivial, trivial⟩, by decide, by decide⟩,
    ⟨rfl, 2, ⟨rfl, rfl, ⟨⟨rfl, rfl, rfl, rfl⟩, rfl, rfl, rfl, rfl⟩, rfl, rfl⟩, rfl, rfl⟩, rfl⟩

/-- The insertion climbs over the red leaves and rotates at the root. -/
theorem rbtree_insert_adds_key_climbing :
    ∃ T', Leaves (fun fuel => rbtreeInsert fuel climbing 8) T' ∧ AddsKey climbing 8 T' := by
  have nodes : ∀ a, Reach climbing a →
      a = 6 ∨ a = 4 ∨ a = 7 ∨ a = 2 ∨ a = 5 ∨ a = 1 ∨ a = 3 := by
    intro a reach
    have listed := (climbing_valid.reach_iff a).mp (reach_recode.mpr reach)
    simpa using listed
  have ends : EndsBelow climbing 8 6 :=
    leaves_next rfl (leaves_next rfl (leaves_next rfl (leaves_next rfl (leaves_now rfl))))
  let linked := insertLink climbing 8 6
  let risen := fixupRecolour linked 6 4 7
  let turned := fixupLL risen 2 1
  have first : insertFixupPass (linked, 8) = .inl (risen, 4) := by
    have father : (linked.mem 8).parent = 6 := by decide
    have fatherRed : (linked.mem 6).color = red := by decide
    have grand : (linked.mem 6).parent = 4 := by decide
    have uncle : uncleOf linked 6 = 7 := by decide
    have uncleRed : (linked.mem 7).color = red := by decide
    simp only [insertFixupPass, father, fatherRed, grand, uncle, uncleRed, if_pos]
    rfl
  have second : insertFixupPass (risen, 4) = .inl (turned, 4) := by
    have father : (risen.mem 4).parent = 2 := by decide +kernel
    have fatherRed : (risen.mem 2).color = red := by decide +kernel
    have grand : (risen.mem 2).parent = 1 := by decide +kernel
    have uncleBlack : (risen.mem (uncleOf risen 2)).color ≠ red := by decide +kernel
    have outer : 2 = (risen.mem 1).left ∧ 4 = (risen.mem 2).left := by decide +kernel
    simp only [insertFixupPass, father, fatherRed, grand, uncleBlack, if_pos, ← outer.1, ← outer.2,
      and_self]
    rfl
  have fatherBlack : (turned.mem (turned.mem 4).parent).color ≠ red := by decide +kernel
  have writtenFirst : ¬ Unwritten (linked, 8) := by unfold Unwritten; decide +kernel
  have writtenSecond : ¬ Unwritten (risen, 4) := by unfold Unwritten; decide +kernel
  have third : insertFixupPass (turned, 4) = .inr turned := by
    unfold insertFixupPass
    exact if_neg fatherBlack
  have writtenThird : ¬ Unwritten (turned, 4) := fun bad => fatherBlack bad.1
  refine (rbtree_insert_adds_key_iff (climbing_valid.redBlackTree (by decide))
    (by decide) ?_ ?_ ?_).mpr (Or.inr ⟨.left, 6, ⟨?_, rfl, by decide, ?_⟩, ?_⟩)
  · exact fun reach => absurd (nodes 8 reach) (by decide)
  · intro a reach
    rcases nodes a reach with rfl | rfl | rfl | rfl | rfl | rfl | rfl <;> decide
  · intro prev found
    rw [Option.some.inj (found.unique ends)]
    exact finished_next first writtenFirst
      (finished_next second writtenSecond (finished_now third writtenThird))
  · exact reach_recode.mp ((climbing_valid.reach_iff 6).mpr (by decide))
  · intro a reach less
    rcases nodes a reach with rfl | rfl | rfl | rfl | rfl | rfl | rfl <;> revert less <;> decide
  · exact Mends.uncle (by decide) (by decide) (Mends.ll (by decide) (by decide) (by decide))

/-- A black node 1 of key 5 with the red children 2 of key 3 and 3 of key 7, and a node 4 of
key 8 to insert. -/
def crowded : Rbtree :=
  ⟨1, 0, fun a =>
    if a = 1 then ⟨black, 3, 2, 0, 5, 0⟩
    else if a = 2 then ⟨red, 0, 0, 1, 3, 0⟩
    else if a = 3 then ⟨red, 0, 0, 1, 7, 0⟩
    else if a = 4 then ⟨black, 0, 0, 0, 8, 0⟩
    else ⟨black, 0, 0, 0, 0, 0⟩⟩

/-- The three nodes are a valid memory. -/
theorem crowded_valid : Valid 0 [⟨2, 3, 0⟩, ⟨1, 5, 0⟩, ⟨3, 7, 0⟩] (recode crowded) :=
  ⟨⟨rfl, rfl⟩, .node .black (.node .red .leaf ⟨2, 3, 0⟩ .leaf) ⟨1, 5, 0⟩
      (.node .red .leaf ⟨3, 7, 0⟩ .leaf),
    ⟨rfl, ⟨rfl, ⟨rfl, trivial, trivial⟩, rfl, trivial, trivial⟩, by decide, by decide⟩,
    ⟨rfl, 1, ⟨rfl, rfl, rfl, rfl⟩, rfl, rfl, rfl, rfl⟩, rfl⟩

/-- A red uncle below the root: the insertion meets only that case, and the root is red in the
end. -/
theorem rbtree_insert_leaves_red_root :
    RedBlackTree (recode crowded) ∧ (4 : Addr) ≠ crowded.nil ∧ ¬ Reach crowded 4 ∧
      (∀ a, Reach crowded a → (crowded.mem a).key ≠ (crowded.mem 4).key) ∧
      OnlyWritten crowded 4 ∧
      ¬ ∃ T', Leaves (fun fuel => rbtreeInsert fuel crowded 4) T' ∧ AddsKey crowded 4 T' := by
  have nodes : ∀ a, Reach crowded a → a = 2 ∨ a = 1 ∨ a = 3 := by
    intro a reach
    have listed := (crowded_valid.reach_iff a).mp (reach_recode.mpr reach)
    simpa using listed
  have ends : EndsBelow crowded 4 3 := leaves_next rfl (leaves_next rfl (leaves_now rfl))
  let linked := insertLink crowded 4 3
  let last := fixupRecolour linked 3 1 2
  have father : (linked.mem 4).parent = 3 := by decide
  have fatherRed : (linked.mem 3).color = red := by decide
  have grand : (linked.mem 3).parent = 1 := by decide
  have uncle : uncleOf linked 3 = 2 := by decide
  have uncleRed : (linked.mem 2).color = red := by decide
  have first : insertFixupPass (linked, 4) = .inl (last, 1) := by
    simp only [insertFixupPass, father, fatherRed, grand, uncle, uncleRed, if_pos]
    rfl
  have second : insertFixupPass (last, 1) = .inr last := rfl
  refine ⟨crowded_valid.redBlackTree (by decide), by decide, ?_, ?_, ?_, ?_⟩
  · exact fun reach => absurd (nodes 4 reach) (by decide)
  · intro a reach
    rcases nodes a reach with rfl | rfl | rfl <;> decide
  · intro prev found
    rw [Option.some.inj (found.unique ends)]
    have writtenFirst : ¬ Unwritten (linked, 4) := fun bad => absurd bad.2.1 (by decide)
    have writtenSecond : ¬ Unwritten (last, 1) := fun bad => absurd bad.1 (by decide)
    exact finished_next first writtenFirst (finished_now second writtenSecond)
  · rintro ⟨T', leaves, adds⟩
    have fixed : Leaves (fun fuel => rbtreeInsertFixup fuel linked 4) last :=
      leaves_next first (leaves_now second)
    have returns : Leaves (fun fuel => rbtreeInsert fuel crowded 4) last := ends.bind fixed
    rw [leaves.unique returns] at adds
    exact absurd adds.tree.root_black (by decide)

end BackendCpp.RbtreeH
