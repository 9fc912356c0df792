import BackendCpp.BtreeC.Descent

/-!
# Borrowing and merging in the store

The assignments of "borrow from next", "borrow from prev" and `btree_merge` to the node, the child
and its neighbour, as changes of a tree in the store.
-/

namespace BackendCpp.BtreeC

open BackendCpp.Library

namespace Btree

variable {T T' : Btree} {n a : Nat} {front : List (Tree × Int)} {u v u' v' : Tree} {m m' : Int}
  {back : List (Int × Tree)}

/-- Two neighbours and the node above them are at three addresses. -/
theorem Holds.pair_apart (holds : T.Holds (n + 2) (Tree.ofFocus a ⟨front, u, (m, v) :: back⟩)) :
    u.address ≠ a ∧ v.address ≠ a ∧ u.address ≠ v.address := by
  have parts := (Tree.entries_pair a n front u v v m back).map Entry.address
  have nodup := parts.nodup_iff.mp holds.nodup
  simp only [List.map_append, List.map_cons, List.cons_append, List.nil_append, List.nodup_cons,
    List.mem_cons, not_or] at nodup
  exact ⟨Ne.symm nodup.1.1, Ne.symm nodup.1.2.1, nodup.2.1.1⟩

/-- The second of two neighbours in the store. -/
theorem Holds.next (holds : T.Holds (n + 2) (Tree.ofFocus a ⟨front, u, (m, v) :: back⟩)) :
    T.Holds (n + 1) v := by
  rw [Tree.ofFocus_next] at holds
  exact holds.child

/-- The node above two neighbours in the store. -/
theorem Holds.above (holds : T.Holds (n + 2) (Tree.ofFocus a ⟨front, u, (m, v) :: back⟩)) :
    ∃ x, T.nodes a = some x ∧ Shows T.t x false
      ((front.map Prod.snd).reverse ++ m :: back.map Prod.fst)
      (((front.map Prod.fst).reverse.map Tree.address) ++ u.address :: v.address ::
        (back.map Prod.snd).map Tree.address) := by
  obtain ⟨x, there, shows⟩ := holds.focus
  exact ⟨x, there, shows⟩

/-- A change of the boundary between two neighbours. -/
theorem Evolves.of_pair (sane : T.Sane)
    (holds : T.Holds (n + 2) (Tree.ofFocus a ⟨front, u, (m, v) :: back⟩)) (sane' : T'.Sane)
    (first : u'.address = u.address) (second : v'.address = v.address)
    (children : u'.children ++ v'.children = u.children ++ v.children) (degree : T'.t = T.t)
    (root : T'.root = T.root) (next : T'.next = T.next)
    (shownNode : T'.Shown ((Tree.ofFocus a ⟨front, u', (m', v') :: back⟩).entry (n + 1)))
    (shownFirst : T'.Shown (u'.entry n)) (shownSecond : T'.Shown (v'.entry n))
    (frame : ∀ b, b ≠ a → b ≠ u.address → b ≠ v.address → T'.nodes b = T.nodes b) :
    Evolves T T' (n + 2) (Tree.ofFocus a ⟨front, u, (m, v) :: back⟩)
      (Tree.ofFocus a ⟨front, u', (m', v') :: back⟩) := by
  have apart := holds.pair_apart
  have new := Tree.entries_pair a n front u' v' v m' back
  rw [children] at new
  have same : [(Tree.ofFocus a ⟨front, u', (m', v') :: back⟩).entry (n + 1), u'.entry n,
      v'.entry n].map Entry.address =
      [(Tree.ofFocus a ⟨front, u, (m, v) :: back⟩).entry (n + 1), u.entry n,
        v.entry n].map Entry.address := by
    simp [Tree.entry, Tree.ofFocus, first, second]
  refine .of_rewrite sane holds sane' rfl degree root next.ge (Tree.entries_pair a n front u v v m
    back) new ?_ ?_ ?_ ?_
  · simp only [List.forall_mem_cons, List.not_mem_nil, false_implies, implies_true, and_true]
    exact ⟨shownNode, shownFirst, shownSecond⟩
  · rw [same]
    simp [Tree.entry, Tree.ofFocus, apart.1.symm, apart.2.1.symm, apart.2.2]
  · intro b member
    rw [same] at member
    exact .inl member
  · intro b _ outside
    simp only [List.map_cons, List.map_nil, List.mem_cons, List.not_mem_nil, or_false, not_or,
      Tree.entry, Tree.ofFocus] at outside
    exact frame b outside.1 outside.2.1 outside.2.2

/-- "borrow from next". -/
theorem borrowNext_spec {c r : Tree} {k : Int} {high : List Int} (sane : T.Sane)
    (holds : T.Holds (n + 2) (Tree.ofFocus a ⟨front, c, (m, r) :: back⟩))
    (left : c.Filled T.t (n + 1)) (right : r.Filled T.t (n + 1)) (keys : r.keys = k :: high)
    (room : c.keys.length < 2 * T.t - 1) :
    ∃ T', borrowNext T (some a) front.length (some c.address) (some r.address) = .ok T' ∧
      Evolves T T' (n + 2) (Tree.ofFocus a ⟨front, c, (m, r) :: back⟩)
        (Tree.ofFocus a (Tree.fromNext front c m r back)) := by
  obtain ⟨x, thereX, showsX⟩ := holds.above
  obtain ⟨child, thereC, showsC⟩ := holds.child.root
  obtain ⟨next, thereR, showsR⟩ := holds.next.root
  have apart := holds.pair_apart
  have parts := Tree.joins_first right keys
  have separator : r.keys.headD 0 = k := by rw [keys, List.headD_cons]
  have moved := showsR
  rw [parts.keys, parts.children, List.map_append, List.nil_append] at moved
  have place : front.length = (front.map Prod.snd).reverse.length := by simp
  have single : Single (n == 0) (r.children.head?.toList.map Tree.address) := by
    rw [Single, List.length_map]
    exact parts.first
  have between : x.key front.length = .ok m := showsX.key_at place
  obtain ⟨taller, grows, showsTaller⟩ := @Shows.borrowNextChild _ _ _ _ _ _ _ _ _ m showsC moved
    single (List.cons_ne_nil _ _) ((Fits.map _).mpr left.1) room
  obtain ⟨shorter, shrinks, showsShorter⟩ := moved.borrowNextRight single
    ((Fits.map _).mpr parts.second)
  obtain ⟨changed, sets, showsChanged⟩ := @Shows.setKey _ _ _ _ _ _ _ k _ showsX place
  have value : next.key 0 = .ok k := @Shows.key_at _ _ _ _ [] _ k 0 moved rfl
  have first := @update_some _ _ _ (borrowNextChild (.ok m) next) _ thereC grows
  have atX : (T.put c.address taller).nodes a = some x := (put_other apart.1.symm).trans thereX
  have second := @update_some _ _ _ (fun x => x.setKey front.length k) _ atX sets
  have atR : ((T.put c.address taller).put a changed).nodes r.address = some next :=
    (put_other apart.2.1).trans ((put_other apart.2.2.symm).trans thereR)
  have third := @update_some _ _ _ borrowNextRight _ atR shrinks
  refine ⟨((T.put c.address taller).put a changed).put r.address shorter, ?_, ?_⟩
  · rw [borrowNext]
    simp only [look_some thereX, look_some thereR, ok_bind, between, value, first, second, third]
  · rw [Tree.fromNext, separator]
    refine .of_pair sane holds (((sane.put thereC).put atX).put atR) rfl rfl
      (Tree.joins_fromNext left right keys).children.symm rfl rfl rfl ?_ ?_ ?_ ?_
    · exact shown_focus ((put_other apart.2.1.symm).trans put_self) showsChanged
    · rw [← List.map_append] at showsTaller
      refine shown_entry ?_ showsTaller
      exact (put_other apart.2.2).trans ((put_other apart.1).trans put_self)
    · exact shown_entry put_self showsShorter
    · intro b notNode notFirst notSecond
      rw [put_other notSecond, put_other notNode, put_other notFirst]

/-- "borrow from prev". -/
theorem borrowPrev_spec {l c : Tree} {k : Int} {low : List Int} {idx : Nat} (sane : T.Sane)
    (holds : T.Holds (n + 2) (Tree.ofFocus a ⟨front, l, (m, c) :: back⟩))
    (left : l.Filled T.t (n + 1)) (right : c.Filled T.t (n + 1)) (keys : l.keys = low ++ [k])
    (room : c.keys.length < 2 * T.t - 1) (index : idx - 1 = front.length) :
    ∃ T', borrowPrev T (some a) idx (some c.address) (some l.address) = .ok T' ∧
      Evolves T T' (n + 2) (Tree.ofFocus a ⟨front, l, (m, c) :: back⟩)
        (Tree.ofFocus a (Tree.fromPrevious front l m c back)) := by
  obtain ⟨x, thereX, showsX⟩ := holds.above
  obtain ⟨previous, thereL, showsL⟩ := holds.child.root
  obtain ⟨child, thereC, showsC⟩ := holds.next.root
  have apart := holds.pair_apart
  have parts := Tree.joins_last left keys
  have separator : l.keys.getLastD 0 = k := by rw [keys, List.getLastD_concat]
  have moved := showsL
  rw [parts.keys, parts.children, List.map_append] at moved
  have place : front.length = (front.map Prod.snd).reverse.length := by simp
  have single : Single (n == 0) (l.children.getLast?.toList.map Tree.address) := by
    rw [Single, List.length_map]
    exact parts.second
  have rest : Fits (n == 0) (l.withoutLast.keys ++ [k]).dropLast
      (l.withoutLast.children.map Tree.address) := by
    rw [List.dropLast_concat]
    exact (Fits.map _).mpr parts.first
  have between : x.key front.length = .ok m := showsX.key_at place
  obtain ⟨taller, grows, showsTaller⟩ := @Shows.borrowPrevChild _ _ _ _ _ _ _ _ _ m showsC moved
    single (by simp) rest ((Fits.map _).mpr right.1) room
  obtain ⟨shorter, shrinks, showsShorter⟩ := moved.borrowPrevLeft single
    ((Fits.map _).mpr parts.first)
  obtain ⟨changed, sets, showsChanged⟩ := @Shows.setKey _ _ _ _ _ _ _ k _ showsX place
  have size : previous.num - 1 = l.withoutLast.keys.length := by
    rw [moved.count]
    simp
  have value : previous.key (previous.num - 1) = .ok k := moved.key_at size
  have first := @update_some _ _ _ (borrowPrevChild (.ok m) previous) _ thereC grows
  have atX : (T.put c.address taller).nodes a = some x := (put_other apart.2.1.symm).trans thereX
  have second := @update_some _ _ _ (fun x => x.setKey front.length k) _ atX sets
  have atL : ((T.put c.address taller).put a changed).nodes l.address = some previous :=
    (put_other apart.1).trans ((put_other apart.2.2).trans thereL)
  have third := @update_some _ _ _ borrowPrevLeft _ atL shrinks
  refine ⟨((T.put c.address taller).put a changed).put l.address shorter, ?_, ?_⟩
  · rw [borrowPrev]
    simp only [look_some thereX, look_some thereL, ok_bind, index, between, value, first, second,
      third]
  · rw [Tree.fromPrevious, separator, ← Tree.ofFocus_next]
    refine .of_pair sane holds (((sane.put thereC).put atX).put atL) rfl rfl
      (Tree.joins_fromPrevious left right keys).children.symm rfl rfl rfl ?_ ?_ ?_ ?_
    · exact shown_focus ((put_other apart.1.symm).trans put_self) showsChanged
    · exact shown_entry put_self showsShorter
    · rw [← List.map_append] at showsTaller
      refine shown_entry ?_ showsTaller
      exact (put_other apart.2.2.symm).trans ((put_other apart.2.1).trans put_self)
    · intro b notNode notFirst notSecond
      rw [put_other notFirst, put_other notNode, put_other notSecond]

/-- `btree_merge` up to its changes of the node above. -/
theorem btreeMerge_start {l r : Tree}
    (holds : T.Holds (n + 2) (Tree.ofFocus a ⟨front, l, (m, r) :: back⟩))
    (left : l.Filled T.t (n + 1)) (right : r.Filled T.t (n + 1)) (poor : l.keys.length = T.t - 1)
    (poor' : r.keys.length = T.t - 1) (positive : 0 < T.t) :
    ∃ first second merged, T.nodes l.address = some first ∧ T.nodes r.address = some second ∧
      Shows T.t merged (n == 0) (Tree.joined l m r).keys
        ((Tree.joined l m r).children.map Tree.address) ∧
      btreeMerge T (some a) front.length = (do
        let T ← ((T.put l.address merged).drop r.address).update (some a)
          (mergeParent front.length)
        if (← T.look (some a)).num = 0 then
          btreeDestroyNode { T with root := some l.address } (some a)
        else .ok T) := by
  obtain ⟨x, thereX, showsX⟩ := holds.above
  obtain ⟨first, thereL, showsL⟩ := holds.child.root
  obtain ⟨second, thereR, showsR⟩ := holds.next.root
  have apart := holds.pair_apart
  obtain ⟨merged, runs, shows⟩ := @Shows.mergeLeft _ _ _ _ _ _ _ _ m showsL showsR
    ((Fits.map _).mpr left.1) ((Fits.map _).mpr right.1) poor poor' positive
  have childL : x.child front.length = .ok (some l.address) := showsX.child_at (by simp)
  have childR : x.child (front.length + 1) = .ok (some r.address) :=
    @Shows.child_at _ _ _ ((front.map Prod.fst).reverse.map Tree.address ++ [l.address])
      ((back.map Prod.snd).map Tree.address) _ _ (by simpa using showsX) (by simp)
  have between : x.key front.length = .ok m := showsX.key_at (by simp)
  have step := @update_some _ _ _ (mergeLeft T.t (.ok m) second) _ thereL runs
  have atR : (T.put l.address merged).nodes r.address = some second :=
    (put_other apart.2.2.symm).trans thereR
  rw [← List.map_append] at shows
  refine ⟨first, second, merged, thereL, thereR, shows, ?_⟩
  rw [btreeMerge]
  simp only [look_some thereX, ok_bind, childL, childR, look_some thereR, between, step,
    btreeDestroyNode, free_some atR]

/-- `btree_merge` up to the question whether the node still has a key. -/
theorem btreeMerge_steps {l r : Tree} (sane : T.Sane)
    (holds : T.Holds (n + 2) (Tree.ofFocus a ⟨front, l, (m, r) :: back⟩))
    (left : l.Filled T.t (n + 1)) (right : r.Filled T.t (n + 1)) (poor : l.keys.length = T.t - 1)
    (poor' : r.keys.length = T.t - 1) (positive : 0 < T.t)
    (notFull : (Focus.mk front l ((m, r) :: back)).keys.length < 2 * T.t - 1) :
    ∃ T' x, btreeMerge T (some a) front.length =
        (if x.num = 0 then btreeDestroyNode { T' with root := some l.address } (some a)
          else .ok T') ∧
      T'.nodes a = some x ∧ x.num = (Focus.mk front (Tree.joined l m r) back).keys.length ∧
      Evolves T T' (n + 2) (Tree.ofFocus a ⟨front, l, (m, r) :: back⟩)
        (Tree.ofFocus a ⟨front, Tree.joined l m r, back⟩) := by
  obtain ⟨first, second, merged, thereL, thereR, showsMerged, runs⟩ :=
    btreeMerge_start holds left right poor poor' positive
  obtain ⟨x, thereX, showsX⟩ := holds.above
  have apart := holds.pair_apart
  obtain ⟨changed, closes, showsChanged⟩ :=
    showsX.mergeParent (i := front.length) (by simp) (by simp) (by simp) notFull
  have atR : (T.put l.address merged).nodes r.address = some second :=
    (put_other apart.2.2.symm).trans thereR
  have atX : ((T.put l.address merged).drop r.address).nodes a = some x :=
    (drop_other apart.2.1.symm).trans ((put_other apart.1.symm).trans thereX)
  have last := @update_some _ _ _ (mergeParent front.length) _ atX closes
  refine ⟨((T.put l.address merged).drop r.address).put a changed, changed, ?_, put_self,
    showsChanged.count, ?_⟩
  · rw [runs]
    simp only [last, ok_bind, look_some put_self]
  · refine .of_rewrite sane holds (((sane.put thereL).drop atR).put atX) rfl rfl rfl le_rfl
      (Tree.entries_pair a n front l r (Tree.joined l m r) m back)
      (Tree.entries_single a n ⟨front, Tree.joined l m r, back⟩) ?_ ?_ ?_ ?_
    · simp only [List.forall_mem_cons, List.not_mem_nil, false_implies, implies_true, and_true]
      refine ⟨shown_focus put_self showsChanged, shown_entry ?_ showsMerged⟩
      exact (put_other apart.1).trans ((drop_other apart.2.2).trans put_self)
    · simpa [Tree.entry, Tree.ofFocus, Tree.joined] using apart.1.symm
    · intro b member
      simp only [List.map_cons, List.map_nil, List.mem_cons, List.not_mem_nil, or_false, Tree.entry,
        Tree.ofFocus, Tree.joined] at member ⊢
      rcases member with node | kept
      · exact .inl (.inl node)
      · exact .inl (.inr (.inl kept))
    · intro b _ outside
      simp only [List.map_cons, List.map_nil, List.mem_cons, List.not_mem_nil, or_false, not_or,
        Tree.entry, Tree.ofFocus] at outside
      rw [put_other outside.1, drop_other outside.2.2, put_other outside.2.1]

/-- `btree_merge` in a node that has other keys. -/
theorem btreeMerge_spec {l r : Tree} (sane : T.Sane)
    (holds : T.Holds (n + 2) (Tree.ofFocus a ⟨front, l, (m, r) :: back⟩))
    (left : l.Filled T.t (n + 1)) (right : r.Filled T.t (n + 1)) (poor : l.keys.length = T.t - 1)
    (poor' : r.keys.length = T.t - 1) (positive : 0 < T.t)
    (notFull : (Focus.mk front l ((m, r) :: back)).keys.length < 2 * T.t - 1)
    (others : (Focus.mk front l ((m, r) :: back)).keys.length ≠ 1) :
    ∃ T', btreeMerge T (some a) front.length = .ok T' ∧
      Evolves T T' (n + 2) (Tree.ofFocus a ⟨front, l, (m, r) :: back⟩)
        (Tree.ofFocus a ⟨front, Tree.joined l m r, back⟩) := by
  obtain ⟨T', x, runs, there, count, evolves⟩ :=
    btreeMerge_steps sane holds left right poor poor' positive notFull
  have some_key : x.num ≠ 0 := by
    simp only [Focus.keys, List.length_append, List.length_reverse, List.length_map,
      List.length_cons] at count others
    omega
  exact ⟨T', by rw [runs, if_neg some_key], evolves⟩

/-- `btree_merge` in a root without another key: the node is freed and the tree goes on below it. -/
theorem btreeMerge_root {l r : Tree} (sane : T.Sane)
    (holds : T.Holds (n + 2) (Tree.ofFocus a ⟨[], l, [(m, r)]⟩))
    (left : l.Filled T.t (n + 1)) (right : r.Filled T.t (n + 1)) (poor : l.keys.length = T.t - 1)
    (poor' : r.keys.length = T.t - 1) (two : 2 ≤ T.t) :
    ∃ T', btreeMerge T (some a) 0 = .ok T' ∧ T'.nodes a = none ∧ T'.Sane ∧
      T'.root = some l.address ∧ T'.t = T.t ∧ T'.Holds (n + 1) (Tree.joined l m r) := by
  obtain ⟨T', x, runs, there, count, evolves⟩ :=
    btreeMerge_steps sane holds left right poor poor' (by omega) (by simp [Focus.keys]; omega)
  have empty : x.num = 0 := count
  have below := evolves.holds.child
  have apart : a ∉ (Tree.joined l m r).addresses (n + 1) := by
    have parts := (Tree.entries_focus a (n + 1) ⟨[], Tree.joined l m r, []⟩).map Entry.address
    have nodup := parts.nodup_iff.mp evolves.holds.nodup
    rw [List.map_cons, List.map_append] at nodup
    exact fun member => (List.nodup_cons.mp nodup).1 (List.mem_append_left _ member)
  have sane' : ({ T' with root := some l.address } : Btree).Sane :=
    ⟨evolves.sane.fresh, evolves.sane.gone, evolves.sane.past, evolves.sane.once⟩
  have there' : ({ T' with root := some l.address } : Btree).nodes a = some x := there
  refine ⟨({ T' with root := some l.address } : Btree).drop a, ?_, drop_self, sane'.drop there',
    rfl, evolves.degree, ?_, below.nodup⟩
  · rw [List.length_nil] at runs
    rw [runs, if_pos empty, btreeDestroyNode, free_some there']
  · intro e member
    obtain ⟨node, inside, shows⟩ := below.shown e member
    refine ⟨node, ?_, shows⟩
    have differs : e.address ≠ a := fun same => apart (same ▸ List.mem_map_of_mem member)
    rw [drop_other differs]
    exact inside

/-- `btree_merge` in a full node writes behind its array. -/
theorem btreeMerge_full {l r : Tree}
    (holds : T.Holds (n + 2) (Tree.ofFocus a ⟨front, l, (m, r) :: back⟩))
    (left : l.Filled T.t (n + 1)) (right : r.Filled T.t (n + 1)) (poor : l.keys.length = T.t - 1)
    (poor' : r.keys.length = T.t - 1) (positive : 0 < T.t)
    (full : (Focus.mk front l ((m, r) :: back)).keys.length = 2 * T.t - 1) :
    btreeMerge T (some a) front.length = .error .outside := by
  obtain ⟨first, second, merged, thereL, thereR, -, runs⟩ :=
    btreeMerge_start holds left right poor poor' positive
  obtain ⟨x, thereX, showsX⟩ := holds.above
  have apart := holds.pair_apart
  have atX : ((T.put l.address merged).drop r.address).nodes a = some x :=
    (drop_other apart.2.1.symm).trans ((put_other apart.1.symm).trans thereX)
  have fails := showsX.mergeParent_full (i := front.length) (by simp) (by simp) (by simp) full
    positive
  rw [runs, update_error atX fails]
  rfl

end Btree

end BackendCpp.BtreeC
