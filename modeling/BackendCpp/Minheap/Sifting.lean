import BackendCpp.Library.BinaryHeap
import BackendCpp.Minheap.Program

/-!
# The sifting loops

While a loop runs, one slot is a hole: the entry that belongs there is not placed yet. Each
pass moves an entry into the hole and leaves its slot as the new one; the entries of the
heap stay the same, and each placed entry knows its slot. The loops end with a heap.
-/

namespace BackendCpp.Minheap

open BackendCpp.Library

/-- The order of the heap: the deadline, zero for an entry that is not allocated. -/
def Timers.key (s : Timers) (e : Nat) : Nat := ((s.time e).map UInt32.toNat).getD 0

/-- Times are those of `base`, and entries that are no member are as in `base`. -/
structure Kept (base : Timers) (members : Nat → Prop) (s : Timers) : Prop where
  /-- The number of entries. -/
  n : s.n = base.n
  /-- The number of slots. -/
  a : s.a = base.a
  /-- The next entry. -/
  fresh : s.fresh = base.fresh
  /-- The deadlines. -/
  time : ∀ e, s.time e = base.time e
  /-- The entries outside the heap. -/
  frame : ∀ e, ¬ members e → s.entries e = base.entries e

/-- An entry that is placed in a slot and knows it. -/
def Timers.Placed (s : Timers) (index : Nat) : Prop :=
  ∃ entry, s.entries (s.p index) = some entry ∧ entry.minHeapIdx = index

/-- The heap in the middle of a loop: `hole` waits for `e`. -/
structure Moving (base : Timers) (members : Nat → Prop) (s : Timers) (hole e : Nat) : Prop
    extends Kept base members s where
  /-- The hole is a slot of the heap. -/
  inside : hole < s.n
  /-- The heap fits in its slots. -/
  fits : s.n ≤ s.a
  /-- Every other slot is placed. -/
  placed : ∀ index < s.n, index ≠ hole → s.Placed index
  /-- The waiting entry is in no other slot. -/
  apart : ∀ index < s.n, index ≠ hole → s.p index ≠ e
  /-- The waiting entry is allocated. -/
  item : ∃ entry, s.entries e = some entry
  /-- The members are the waiting entry and those in the other slots. -/
  contents : ∀ id, members id ↔ id = e ∨ ∃ index < s.n, index ≠ hole ∧ s.p index = id

/-- The heap after a loop. -/
structure Settled (base : Timers) (members : Nat → Prop) (s : Timers) : Prop
    extends Kept base members s where
  /-- Every slot is placed. -/
  placed : ∀ index < s.n, s.Placed index
  /-- The members are the entries in the slots. -/
  contents : ∀ id, members id ↔ ∃ index < s.n, s.p index = id

variable {base s : Timers} {members : Nat → Prop} {hole e : Nat}

/-- Placing an entry changes no deadline. -/
theorem time_place {x : Nat} {entry : TimerEntry} (found : s.entries x = some entry)
    (index : Nat) (slots : Nat → Nat) (id : Nat) :
    Timers.time { s with
      p := slots
      entries := Function.update s.entries x (some { entry with minHeapIdx := index }) } id =
      s.time id := by
  simp only [Timers.time]
  by_cases same : id = x
  · rw [same, Function.update_self, found]
    rfl
  · rw [Function.update_of_ne same]

/-- Placing an allocated entry in an allocated slot. -/
theorem put_eq {x index : Nat} {entry : TimerEntry} (found : s.entries x = some entry)
    (bound : index < s.a) :
    s.put index x = some { s with
      p := Function.update s.p index x
      entries := Function.update s.entries x (some { entry with minHeapIdx := index }) } := by
  rw [Timers.put, if_pos bound, found]
  rfl

/-- Placing a member keeps the times and the entries outside. -/
theorem Kept.place (kept : Kept base members s) {x : Nat} {entry : TimerEntry}
    (found : s.entries x = some entry) (member : members x) (index : Nat) (slots : Nat → Nat) :
    Kept base members { s with
      p := slots
      entries := Function.update s.entries x (some { entry with minHeapIdx := index }) } := by
  constructor
  · exact kept.n
  · exact kept.a
  · exact kept.fresh
  · intro id
    rw [time_place found]
    exact kept.time id
  · intro id outside
    have differs : id ≠ x := fun same => outside (same ▸ member)
    change Function.update s.entries _ _ id = _
    rw [Function.update_of_ne differs]
    exact kept.frame id outside

/-- The slot in which an entry is placed, and one that holds another entry. -/
theorem placed_place {x index i : Nat} {entry : TimerEntry}
    (others : i ≠ index → s.Placed i ∧ s.p i ≠ x) :
    Timers.Placed { s with
      p := Function.update s.p index x
      entries := Function.update s.entries x (some { entry with minHeapIdx := index }) } i := by
  by_cases here : i = index
  · refine ⟨{ entry with minHeapIdx := index }, ?_, here.symm⟩
    change Function.update s.entries _ _ (Function.update s.p index _ i) = _
    rw [here, Function.update_self, Function.update_self]
  · obtain ⟨⟨old, foundOld, indexOld⟩, unlike⟩ := others here
    refine ⟨old, ?_, indexOld⟩
    change Function.update s.entries _ _ (Function.update s.p index _ i) = _
    rw [Function.update_of_ne here, Function.update_of_ne unlike]
    exact foundOld

/-- Two placed slots hold different entries. -/
theorem placed_ne {left right : Nat} (first : s.Placed left) (second : s.Placed right)
    (differ : left ≠ right) : s.p left ≠ s.p right := by
  intro same
  obtain ⟨one, foundOne, indexOne⟩ := first
  obtain ⟨two, foundTwo, indexTwo⟩ := second
  rw [same, foundTwo] at foundOne
  rw [Option.some.inj foundOne] at indexTwo
  exact differ (indexOne.symm.trans indexTwo)

/-- Moving the entry of a slot into the hole. -/
theorem Moving.move (moving : Moving base members s hole e) {from' : Nat} (within : from' < s.n)
    (other : from' ≠ hole) :
    ∃ moved, s.put hole (s.p from') = some moved ∧ Moving base members moved from' e ∧
      moved.p = Function.update s.p hole (s.p from') := by
  obtain ⟨entry, found, index⟩ := moving.placed from' within other
  have bound : hole < s.a := lt_of_lt_of_le moving.inside moving.fits
  refine ⟨_, put_eq found bound, ?_, rfl⟩
  have member : members (s.p from') := (moving.contents _).mpr (.inr ⟨from', within, other, rfl⟩)
  have distinct (i : Nat) (inside : i < s.n) (notHole : i ≠ hole) (notFrom : i ≠ from') :
      s.p i ≠ s.p from' :=
    placed_ne (moving.placed i inside notHole) (moving.placed from' within other) notFrom
  have unlike : e ≠ s.p from' := Ne.symm (moving.apart from' within other)
  constructor
  · exact moving.place found member hole _
  · exact within
  · exact moving.fits
  · intro i inside notFrom
    apply placed_place
    intro here
    exact ⟨moving.placed i inside here, distinct i inside here notFrom⟩
  · intro i inside notFrom
    change Function.update s.p hole _ i ≠ e
    by_cases here : i = hole
    · rw [here, Function.update_self]
      exact unlike.symm
    · rw [Function.update_of_ne here]
      exact moving.apart i inside here
  · obtain ⟨item, foundItem⟩ := moving.item
    refine ⟨item, ?_⟩
    change Function.update s.entries _ _ e = _
    rw [Function.update_of_ne unlike]
    exact foundItem
  · intro id
    rw [moving.contents id]
    change _ ↔ id = e ∨ ∃ i < s.n, i ≠ from' ∧ Function.update s.p hole (s.p from') i = id
    constructor
    · intro old
      cases old with
      | inl same => exact .inl same
      | inr slot =>
        obtain ⟨i, inside, notHole, same⟩ := slot
        right
        by_cases here : i = from'
        · refine ⟨hole, moving.inside, Ne.symm other, ?_⟩
          rw [Function.update_self, ← here]
          exact same
        · refine ⟨i, inside, here, ?_⟩
          rw [Function.update_of_ne notHole]
          exact same
    · intro new
      cases new with
      | inl same => exact .inl same
      | inr slot =>
        obtain ⟨i, inside, notFrom, same⟩ := slot
        right
        by_cases here : i = hole
        · rw [here, Function.update_self] at same
          exact ⟨from', within, other, same⟩
        · rw [Function.update_of_ne here] at same
          exact ⟨i, inside, here, same⟩

/-- Placing the waiting entry in the hole. -/
theorem Moving.settle (moving : Moving base members s hole e) :
    ∃ result, s.put hole e = some result ∧ Settled base members result ∧
      result.p = Function.update s.p hole e := by
  obtain ⟨entry, found⟩ := moving.item
  have bound : hole < s.a := lt_of_lt_of_le moving.inside moving.fits
  refine ⟨_, put_eq found bound, ?_, rfl⟩
  have member : members e := (moving.contents e).mpr (.inl rfl)
  constructor
  · exact moving.place found member hole _
  · intro i inside
    apply placed_place
    intro here
    exact ⟨moving.placed i inside here, moving.apart i inside here⟩
  · intro id
    rw [moving.contents id]
    change _ ↔ ∃ i < s.n, Function.update s.p hole e i = id
    constructor
    · intro old
      cases old with
      | inl same =>
        refine ⟨hole, moving.inside, ?_⟩
        rw [Function.update_self]
        exact same.symm
      | inr slot =>
        obtain ⟨i, inside, notHole, same⟩ := slot
        refine ⟨i, inside, ?_⟩
        rw [Function.update_of_ne notHole]
        exact same
    · intro new
      obtain ⟨i, inside, same⟩ := new
      by_cases here : i = hole
      · rw [here, Function.update_self] at same
        exact .inl same.symm
      · rw [Function.update_of_ne here] at same
        exact .inr ⟨i, inside, here, same⟩

/-- The deadline of an entry of the moving heap. -/
theorem Moving.key (moving : Moving base members s hole e) : s.key = base.key := by
  funext id
  rw [Timers.key, Timers.key, moving.time id]

/-- The comparison of two allocated entries is that of their keys. -/
theorem elemGreater_eq {x y : Nat} {left right : TimerEntry} (first : s.entries x = some left)
    (second : s.entries y = some right) :
    s.elemGreater x y = some (decide (s.key x > s.key y)) := by
  simp only [Timers.elemGreater, Timers.key, Timers.time, first, second, Option.map_some,
    Option.getD_some, Option.bind_eq_bind, Option.bind_some, gt_iff_lt, UInt32.lt_iff_toNat_lt]
  rfl

/-- An allocated slot is read. -/
theorem slot_eq {index : Nat} (bound : index < s.a) : s.slot index = some (s.p index) := by
  rw [Timers.slot, if_pos bound]

/-- The parent index does not wrap. -/
theorem parentIndex_eq {index : Nat} (positive : 0 < index) : parentIndex index = parent index := by
  rw [parentIndex, pred, if_neg (Nat.ne_of_gt positive), parent]

/-- The child index does not wrap. -/
theorem childIndex_eq {index : Nat} (small : 2 * (index + 1) < word) :
    childIndex index = 2 * (index + 1) :=
  Nat.mod_eq_of_lt small

/-- The predecessor of a positive index. -/
theorem pred_eq {index : Nat} (positive : 0 < index) : pred index = index - 1 :=
  if_neg (Nat.ne_of_gt positive)

/-- What a loop that starts in a moving heap ends with. -/
structure Sifted (base : Timers) (members : Nat → Prop) (result : Timers) : Prop
    extends Settled base members result where
  /-- The heap is in order. -/
  heaped : Heaped base.key result.n result.p

/-- A last pass of either loop places the waiting entry. -/
theorem Moving.sifted (moving : Moving base members s hole e)
    (heaped : Heaped base.key s.n (Function.update s.p hole e)) :
    ∃ result, s.put hole e = some result ∧ Sifted base members result ∧
      result.p = Function.update s.p hole e := by
  obtain ⟨result, placed, settled, slots⟩ := moving.settle
  refine ⟨result, placed, ⟨settled, ?_⟩, slots⟩
  rw [settled.n, slots, ← moving.n]
  exact heaped

/-- The pass of `min_heap_shift_up_` at the root. -/
theorem shiftUpPass_root (s : Timers) (e : Nat) :
    shiftUpPass e (s, 0) = (s.put 0 e).map Sum.inr := by
  simp only [shiftUpPass, if_true]
  cases s.put 0 e <;> rfl

/-- The pass of `min_heap_shift_up_` below the root. -/
theorem Moving.shiftUpPass (moving : Moving base members s hole e) (positive : 0 < hole) :
    shiftUpPass e (s, hole) =
      if s.key (s.p (parent hole)) > s.key e then
        (s.put hole (s.p (parent hole))).map (fun moved => Sum.inl (moved, parent hole))
      else (s.put hole e).map Sum.inr := by
  have above := parent_lt positive
  have inside := moving.inside
  have fits := moving.fits
  obtain ⟨item, found⟩ := moving.item
  obtain ⟨upper, foundUpper, _⟩ := moving.placed (parent hole) (by omega) (by omega)
  have index : parentIndex hole = parent hole := parentIndex_eq positive
  have start : hole ≠ 0 := by omega
  simp only [Minheap.shiftUpPass, index, slot_eq (show parent hole < s.a by omega),
    elemGreater_eq foundUpper found, if_neg start, Option.bind_eq_bind, Option.bind_some]
  by_cases greater : s.key (s.p (parent hole)) > s.key e
  · simp only [greater, decide_true, if_true]
    cases s.put hole (s.p (parent hole)) <;> rfl
  · simp only [greater, decide_false, if_false, Bool.false_eq_true]
    cases s.put hole e <;> rfl

/-- The way up from slot `start`: the state of the loop at slot `size`. -/
structure Climbing (base : Timers) (members : Nat → Prop) (e root : Nat) (calm : Prop)
    (size : Nat) (state : Timers × Nat) : Prop where
  /-- The hole is the measure. -/
  measure : state.2 = size
  /-- The heap has a hole. -/
  moving : Moving base members state.1 state.2 e
  /-- Only the waiting entry is out of order. -/
  rising : Rising base.key state.1.n state.2 (Function.update state.1.p state.2 e)
  /-- A waiting entry that is not due before the root stays below it. -/
  keeps : calm → 0 < state.2 ∧ state.1.p 0 = root ∧ base.key root ≤ base.key e

/-- The end of the way up. -/
def Climbed (base : Timers) (members : Nat → Prop) (root : Nat) (calm : Prop)
    (answer : Option Timers) : Prop :=
  ∃ result, answer = some result ∧ Sifted base members result ∧ (calm → result.p 0 = root)

/-- A pass of `min_heap_shift_up_` climbs or ends. -/
theorem Climbing.pass {root size : Nat} {calm : Prop} {state : Timers × Nat}
    (climbing : Climbing base members e root calm size state) :
    (∃ smaller next, smaller < size ∧
      attempt (Minheap.shiftUpPass e) state = .inl next ∧
      Climbing base members e root calm smaller next) ∨
    (∃ answer, attempt (Minheap.shiftUpPass e) state = .inr answer ∧
      Climbed base members root calm answer) := by
  obtain ⟨t, index⟩ := state
  obtain ⟨measure, moving, rising, keeps⟩ := climbing
  change index = size at measure
  change Rising base.key t.n index (Function.update t.p index e) at rising
  have inside : index < t.n := moving.inside
  by_cases start : index = 0
  · right
    subst start
    obtain ⟨result, placed, sifted, _⟩ :=
      moving.sifted (rising.heaped (fun positive => absurd positive (lt_irrefl 0)))
    refine ⟨some result, attempt_leave ?_, result, rfl, sifted, ?_⟩
    · rw [shiftUpPass_root, placed]
      rfl
    · intro holds
      exact absurd (keeps holds).1 (lt_irrefl 0)
  · have positive : 0 < index := Nat.pos_of_ne_zero start
    have above := parent_lt positive
    have pass := moving.shiftUpPass positive
    change Moving base members t index e at moving
    rw [moving.key] at pass
    by_cases greater : base.key (t.p (parent index)) > base.key e
    · left
      rw [if_pos greater] at pass
      obtain ⟨moved, put, next, slots⟩ :=
        moving.move (show parent index < t.n by omega) (by omega)
      have same : moved.n = t.n := next.n.trans moving.n.symm
      rw [put] at pass
      refine ⟨parent index, (moved, parent index), by omega, attempt_next pass, rfl, next, ?_, ?_⟩
      · rw [slots, same]
        exact rising.pass inside positive greater
      · intro holds
        have before := keeps holds
        have other : parent index ≠ 0 := by
          intro zero
          rw [zero, before.2.1] at greater
          have calmer := before.2.2
          omega
        refine ⟨Nat.pos_of_ne_zero other, ?_, before.2.2⟩
        rw [slots, Function.update_of_ne (Ne.symm start)]
        exact before.2.1
    · right
      rw [if_neg greater] at pass
      have heaped : Heaped base.key t.n (Function.update t.p index e) := by
        apply rising.heaped
        intro _
        rw [Function.update_self, Function.update_of_ne (by omega)]
        exact not_lt.mp greater
      obtain ⟨result, placed, sifted, slots⟩ := moving.sifted heaped
      rw [placed] at pass
      refine ⟨some result, attempt_leave pass, result, rfl, sifted, ?_⟩
      intro holds
      rw [slots, Function.update_of_ne (Ne.symm start)]
      exact (keeps holds).2.1

/-- An entry that is not due before its parent stays in the hole. -/
theorem Moving.shiftUp_stay (moving : Moving base members s hole e)
    (ordered : 0 < hole → base.key (s.p (parent hole)) ≤ base.key e) :
    Leaves (fun fuel => minHeapShiftUp fuel s hole e) (s.put hole e) := by
  have pass : Minheap.shiftUpPass e (s, hole) = (s.put hole e).map Sum.inr := by
    by_cases start : hole = 0
    · rw [start]
      exact shiftUpPass_root s e
    · have positive : 0 < hole := Nat.pos_of_ne_zero start
      have calm := ordered positive
      rw [moving.shiftUpPass positive, moving.key, if_neg (not_lt.mpr calm)]
  obtain ⟨result, placed, _⟩ := moving.settle
  rw [placed] at pass ⊢
  exact leaves_now (attempt_leave pass)

/-- `min_heap_shift_up_` ends with a heap of the same entries. An entry that is not due before
the root leaves the root where it is. -/
theorem Moving.shiftUp (moving : Moving base members s hole e)
    (rising : Rising base.key s.n hole (Function.update s.p hole e)) :
    ∃ result, Leaves (fun fuel => minHeapShiftUp fuel s hole e) (some result) ∧
      Sifted base members result ∧
      (0 < hole → base.key (s.p 0) ≤ base.key e → result.p 0 = s.p 0) ∧
      ((0 < hole → base.key (s.p (parent hole)) ≤ base.key e) →
        result.p = Function.update s.p hole e) := by
  have start : Climbing base members e (s.p 0) (0 < hole ∧ base.key (s.p 0) ≤ base.key e) hole
      (s, hole) := ⟨rfl, moving, rising, fun calm => ⟨calm.1, rfl, calm.2⟩⟩
  obtain ⟨answer, leaves, result, same, sifted, root⟩ :=
    loop_rule _ _ (fun _ _ holds => Climbing.pass holds) hole (s, hole) start
  rw [same] at leaves
  refine ⟨result, leaves, sifted, fun deep calm => root ⟨deep, calm⟩, fun ordered => ?_⟩
  obtain ⟨placed, put, _, slots⟩ := moving.settle
  have stays := leaves.unique (moving.shiftUp_stay ordered)
  rw [put] at stays
  rw [Option.some.inj stays]
  exact slots

/-- The child chosen by `min_heap_shift_down_` is a least one. -/
theorem Moving.lesserChild (moving : Moving base members s hole e)
    (small : 2 * (hole + 1) < word) (exists' : 2 * (hole + 1) ≤ s.n) :
    ∃ child, Minheap.lesserChild s (childIndex hole) = some child ∧ 0 < child ∧ child < s.n ∧
      parent child = hole ∧
      ∀ index < s.n, 0 < index → parent index = hole →
        s.key (s.p child) ≤ s.key (s.p index) := by
  have fits := moving.fits
  have before : pred (2 * (hole + 1)) = 2 * hole + 1 := by
    rw [pred_eq (by omega)]
    omega
  have children (index : Nat) (positive : 0 < index) (below : parent index = hole) :
      index = 2 * hole + 1 ∨ index = 2 * (hole + 1) := by
    rw [parent] at below
    omega
  have up (index : Nat) (child : index = 2 * hole + 1 ∨ index = 2 * (hole + 1)) :
      parent index = hole := by
    rw [parent]
    omega
  rw [childIndex_eq small, Minheap.lesserChild, before]
  by_cases last : 2 * (hole + 1) = s.n
  · refine ⟨2 * hole + 1, ?_, by omega, by omega, up _ (.inl rfl), ?_⟩
    · rw [if_pos last]
      rfl
    · intro index inside positive below
      have only : index = 2 * hole + 1 := by
        have either := children index positive below
        omega
      rw [only]
  · obtain ⟨left, foundLeft, _⟩ := moving.placed (2 * hole + 1) (by omega) (by omega)
    obtain ⟨right, foundRight, _⟩ := moving.placed (2 * (hole + 1)) (by omega) (by omega)
    simp only [if_neg last, slot_eq (show 2 * (hole + 1) < s.a by omega),
      slot_eq (show 2 * hole + 1 < s.a by omega), elemGreater_eq foundRight foundLeft,
      Option.bind_eq_bind, Option.bind_some]
    by_cases greater : s.key (s.p (2 * (hole + 1))) > s.key (s.p (2 * hole + 1))
    · refine ⟨2 * hole + 1, ?_, by omega, by omega, up _ (.inl rfl), ?_⟩
      · simp only [greater, decide_true, if_true]
        rfl
      · intro index inside positive below
        cases children index positive below with
        | inl same => rw [same]
        | inr same =>
          rw [same]
          exact le_of_lt greater
    · refine ⟨2 * (hole + 1), ?_, by omega, by omega, up _ (.inr rfl), ?_⟩
      · simp only [greater, decide_false, Bool.false_eq_true, if_false]
        rfl
      · intro index inside positive below
        cases children index positive below with
        | inl same =>
          rw [same]
          exact not_lt.mp greater
        | inr same => rw [same]

/-- The pass of `min_heap_shift_down_` at a slot without children. -/
theorem shiftDownPass_leaf (s : Timers) {hole : Nat} (e : Nat) (small : 2 * (hole + 1) < word)
    (leaf : s.n < 2 * (hole + 1)) : shiftDownPass e (s, hole) = (s.put hole e).map Sum.inr := by
  have none : ¬ 2 * (hole + 1) ≤ s.n := by omega
  simp only [shiftDownPass, childIndex_eq small, if_neg none]
  cases s.put hole e <;> rfl

/-- The pass of `min_heap_shift_down_` at a slot with children. -/
theorem Moving.shiftDownPass (moving : Moving base members s hole e)
    (small : 2 * (hole + 1) < word) (exists' : 2 * (hole + 1) ≤ s.n) {child : Nat}
    (chosen : Minheap.lesserChild s (childIndex hole) = some child) (inside : child < s.n)
    (other : child ≠ hole) :
    Minheap.shiftDownPass e (s, hole) =
      if s.key e > s.key (s.p child) then
        (s.put hole (s.p child)).map (fun moved => Sum.inl (moved, child))
      else (s.put hole e).map Sum.inr := by
  have fits := moving.fits
  obtain ⟨item, found⟩ := moving.item
  obtain ⟨lower, foundLower, _⟩ := moving.placed child inside other
  have going : childIndex hole ≤ s.n := by
    rw [childIndex_eq small]
    exact exists'
  simp only [Minheap.shiftDownPass, if_pos going, chosen, slot_eq (show child < s.a by omega),
    elemGreater_eq found foundLower, Option.bind_eq_bind, Option.bind_some]
  by_cases greater : s.key e > s.key (s.p child)
  · simp only [greater, decide_true, if_true]
    cases s.put hole (s.p child) <;> rfl
  · simp only [greater, decide_false, if_false, Bool.false_eq_true]
    cases s.put hole e <;> rfl

/-- The way down: the state of the loop with `size` slots from the hole on. -/
structure Descending (base : Timers) (members : Nat → Prop) (e root : Nat) (deep : Prop)
    (size : Nat) (state : Timers × Nat) : Prop where
  /-- The slots left are the measure. -/
  measure : state.1.n - state.2 = size
  /-- The heap has a hole. -/
  moving : Moving base members state.1 state.2 e
  /-- Indices do not wrap. -/
  small : 2 * state.1.n < word
  /-- Only the children of the hole are out of order with the waiting entry. -/
  sinking : Sinking base.key state.1.n state.2 (Function.update state.1.p state.2 e)
  /-- A loop that starts below the root stays there. -/
  keeps : deep → 0 < state.2 ∧ state.1.p 0 = root

/-- A pass of `min_heap_shift_down_` descends or ends. -/
theorem Descending.pass {root size : Nat} {deep : Prop} {state : Timers × Nat}
    (descending : Descending base members e root deep size state) :
    (∃ smaller next, smaller < size ∧
      attempt (Minheap.shiftDownPass e) state = .inl next ∧
      Descending base members e root deep smaller next) ∨
    (∃ answer, attempt (Minheap.shiftDownPass e) state = .inr answer ∧
      Climbed base members root deep answer) := by
  obtain ⟨t, index⟩ := state
  obtain ⟨measure, moving, small, sinking, keeps⟩ := descending
  change t.n - index = size at measure
  change 2 * t.n < word at small
  change Moving base members t index e at moving
  change Sinking base.key t.n index (Function.update t.p index e) at sinking
  have inside : index < t.n := moving.inside
  have bound : 2 * (index + 1) < word := by omega
  have ending (heaped : Heaped base.key t.n (Function.update t.p index e))
      (pass : Minheap.shiftDownPass e (t, index) = (t.put index e).map Sum.inr) :
      ∃ answer, attempt (Minheap.shiftDownPass e) (t, index) = .inr answer ∧
        Climbed base members root deep answer := by
    obtain ⟨result, placed, sifted, slots⟩ := moving.sifted heaped
    rw [placed] at pass
    refine ⟨some result, attempt_leave pass, result, rfl, sifted, ?_⟩
    intro holds
    have before := keeps holds
    have other : 0 ≠ index := Nat.ne_of_lt before.1
    rw [slots, Function.update_of_ne other]
    exact before.2
  by_cases going : 2 * (index + 1) ≤ t.n
  · obtain ⟨child, chosen, positive, within, below, least⟩ := moving.lesserChild bound going
    have above := parent_lt positive
    have other : child ≠ index := by omega
    have pass := moving.shiftDownPass bound going chosen within other
    rw [moving.key] at pass least
    by_cases greater : base.key e > base.key (t.p child)
    · left
      rw [if_pos greater] at pass
      obtain ⟨moved, put, next, slots⟩ := moving.move within other
      have same : moved.n = t.n := next.n.trans moving.n.symm
      rw [put] at pass
      refine ⟨t.n - child, (moved, child), by omega, attempt_next pass, ?_, next, ?_, ?_, ?_⟩
      · exact congrArg (· - child) same
      · exact same ▸ small
      · rw [slots, same]
        exact sinking.pass within positive below least greater
      · intro holds
        have before := keeps holds
        have apart : 0 ≠ index := Nat.ne_of_lt before.1
        refine ⟨positive, ?_⟩
        rw [slots, Function.update_of_ne apart]
        exact before.2
    · right
      rw [if_neg greater] at pass
      apply ending _ pass
      apply sinking.heaped
      intro i within' nonzero beneath
      have later := parent_lt nonzero
      rw [Function.update_self, Function.update_of_ne (by omega)]
      exact le_trans (not_lt.mp greater) (least i within' nonzero beneath)
  · right
    apply ending _ (shiftDownPass_leaf t e bound (by omega))
    apply sinking.heaped
    intro i within' nonzero beneath
    rw [parent] at beneath
    omega

/-- `min_heap_shift_down_` ends with a heap of the same entries, and leaves the root where it is
when it starts below it. -/
theorem Moving.shiftDown (moving : Moving base members s hole e) (small : 2 * s.n < word)
    (sinking : Sinking base.key s.n hole (Function.update s.p hole e)) :
    ∃ result, Leaves (fun fuel => minHeapShiftDown fuel s hole e) (some result) ∧
      Sifted base members result ∧ (0 < hole → result.p 0 = s.p 0) := by
  have start : Descending base members e (s.p 0) (0 < hole) (s.n - hole) (s, hole) :=
    ⟨rfl, moving, small, sinking, fun deep => ⟨deep, rfl⟩⟩
  obtain ⟨answer, leaves, result, same, sifted, root⟩ :=
    loop_rule _ _ (fun _ _ holds => Descending.pass holds) (s.n - hole) (s, hole) start
  rw [same] at leaves
  exact ⟨result, leaves, sifted, root⟩

/-- `min_heap_shift_down_` at the slot after the heap only places the entry there. -/
theorem shiftDown_last (s : Timers) {hole : Nat} (e : Nat) (after : s.n ≤ hole)
    (small : 2 * (hole + 1) < word) :
    Leaves (fun fuel => minHeapShiftDown fuel s hole e) (s.put hole e) := by
  have pass := shiftDownPass_leaf s e small (show s.n < 2 * (hole + 1) by omega)
  cases placed : s.put hole e with
  | none =>
    rw [placed] at pass
    exact leaves_now (attempt_undefined pass)
  | some result =>
    rw [placed] at pass
    exact leaves_now (attempt_leave pass)

end BackendCpp.Minheap
