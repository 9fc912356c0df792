import Mathlib.Tactic

/-!
# Binary heaps with a hole

The first `size` slots of an array form a heap when no slot holds a smaller key than the
slot of its parent. Sifting works on a heap with one slot in question: going up, only that
slot may be smaller than its parent; going down, only its children may be smaller than it.
One pass moves the question to the parent or to the smaller child, and equal keys end it.
-/

namespace BackendCpp.Library

variable {α κ : Type*} [LinearOrder κ] {key : α → κ} {size hole : Nat} {slots : Nat → α}

/-- The slot above a slot. -/
def parent (index : Nat) : Nat := (index - 1) / 2

/-- No slot holds a smaller key than its parent. -/
def Heaped (key : α → κ) (size : Nat) (slots : Nat → α) : Prop :=
  ∀ index < size, 0 < index → key (slots (parent index)) ≤ key (slots index)

/-- Only `hole` may hold a smaller key than its parent, and its children are not smaller than
that parent either. -/
structure Rising (key : α → κ) (size hole : Nat) (slots : Nat → α) : Prop where
  /-- Every other slot is in order with its parent. -/
  others : ∀ index < size, 0 < index → index ≠ hole →
    key (slots (parent index)) ≤ key (slots index)
  /-- The children of the slot are in order with the parent of the slot. -/
  skip : ∀ index < size, 0 < index → parent index = hole → 0 < hole →
    key (slots (parent hole)) ≤ key (slots index)

/-- Only the children of `hole` may hold a smaller key than it, and they are not smaller than
the parent of `hole`. -/
structure Sinking (key : α → κ) (size hole : Nat) (slots : Nat → α) : Prop where
  /-- Every slot that is not a child of the slot is in order with its parent. -/
  others : ∀ index < size, 0 < index → parent index ≠ hole →
    key (slots (parent index)) ≤ key (slots index)
  /-- The children of the slot are in order with the parent of the slot. -/
  skip : ∀ index < size, 0 < index → parent index = hole → 0 < hole →
    key (slots (parent hole)) ≤ key (slots index)

/-- A parent comes before its children. -/
theorem parent_lt {index : Nat} (positive : 0 < index) : parent index < index := by
  rw [parent]
  omega

/-- The root of a heap holds a least key. -/
theorem Heaped.root_le (heaped : Heaped key size slots) :
    ∀ index < size, key (slots 0) ≤ key (slots index) := by
  intro index
  induction index using Nat.strongRecOn with
  | ind index ih =>
    intro inside
    by_cases start : index = 0
    · rw [start]
    · have positive : 0 < index := Nat.pos_of_ne_zero start
      have above := parent_lt positive
      exact le_trans (ih (parent index) above (by omega)) (heaped index inside positive)

/-- A shorter heap. -/
theorem Heaped.shrink (heaped : Heaped key size slots) {fewer : Nat} (less : fewer ≤ size) :
    Heaped key fewer slots :=
  fun index inside positive => heaped index (by omega) positive

/-- A new last slot is the only one in question. -/
theorem Heaped.rising_append (heaped : Heaped key size slots) (item : α) :
    Rising key (size + 1) size (Function.update slots size item) := by
  have untouched (index : Nat) (other : index ≠ size) :
      Function.update slots size item index = slots index := Function.update_of_ne other _ _
  constructor
  · intro index inside positive other
    have above := parent_lt positive
    rw [untouched index other, untouched (parent index) (by omega)]
    exact heaped index (by omega) positive
  · intro index inside positive child _
    have above := parent_lt positive
    omega

/-- An item not smaller than its parent ends the way up. -/
theorem Rising.heaped (rising : Rising key size hole slots)
    (done : 0 < hole → key (slots (parent hole)) ≤ key (slots hole)) :
    Heaped key size slots := by
  intro index inside positive
  by_cases here : index = hole
  · rw [here] at positive ⊢
    exact done positive
  · exact rising.others index inside positive here

/-- An item not greater than its children ends the way down. -/
theorem Sinking.heaped (sinking : Sinking key size hole slots)
    (done : ∀ index < size, 0 < index → parent index = hole →
      key (slots hole) ≤ key (slots index)) : Heaped key size slots := by
  intro index inside positive
  by_cases child : parent index = hole
  · rw [child]
    exact done index inside positive child
  · exact sinking.others index inside positive child

section Change

variable {β : Type*} {other : β → κ} {changed : Nat → β}

/-- A slot whose key becomes smaller, or stays below that of its parent, is the only one in
question. -/
theorem Heaped.rising_change (heaped : Heaped key size slots) (inside : hole < size)
    (same : ∀ index < size, index ≠ hole → other (changed index) = key (slots index))
    (positive : 0 < hole) (small : other (changed hole) ≤ key (slots (parent hole))) :
    Rising other size hole changed := by
  have above := parent_lt positive
  have middle := heaped hole inside positive
  constructor
  · intro index within nonzero differs
    have below := heaped index within nonzero
    have later := parent_lt nonzero
    rw [same index within differs]
    by_cases child : parent index = hole
    · rw [child] at below ⊢
      exact le_trans small (le_trans middle below)
    · rw [same (parent index) (by omega) child]
      exact below
  · intro index within nonzero child _
    have below := heaped index within nonzero
    have later := parent_lt nonzero
    rw [child] at below
    rw [same index within (by omega), same (parent hole) (by omega) (by omega)]
    exact le_trans middle below

/-- When the key of a slot changes and is not smaller than that of its parent, only its children
are in question. -/
theorem Heaped.sinking_change (heaped : Heaped key size slots) (inside : hole < size)
    (same : ∀ index < size, index ≠ hole → other (changed index) = key (slots index))
    (large : 0 < hole → key (slots (parent hole)) ≤ other (changed hole)) :
    Sinking other size hole changed := by
  constructor
  · intro index within nonzero differs
    have later := parent_lt nonzero
    rw [same (parent index) (by omega) differs]
    by_cases here : index = hole
    · rw [here] at nonzero ⊢
      exact large nonzero
    · rw [same index within here]
      exact heaped index within nonzero
  · intro index within nonzero child positive
    have below := heaped index within nonzero
    have later := parent_lt nonzero
    have above := parent_lt positive
    have middle := heaped hole inside positive
    rw [child] at below
    rw [same index within (by omega), same (parent hole) (by omega) (by omega)]
    exact le_trans middle below

end Change

/-- Put a small item where a slot was: only that slot is in question. -/
theorem Heaped.rising_replace (heaped : Heaped key size slots) (inside : hole < size)
    {item : α} (positive : 0 < hole) (small : key item ≤ key (slots (parent hole))) :
    Rising key size hole (Function.update slots hole item) := by
  apply heaped.rising_change inside _ positive
  · rw [Function.update_self]
    exact small
  · intro index _ differs
    rw [Function.update_of_ne differs]

/-- Put an item not smaller than its parent where a slot was: only the children of that slot
are in question. -/
theorem Heaped.sinking_replace (heaped : Heaped key size slots) (inside : hole < size)
    {item : α} (large : 0 < hole → key (slots (parent hole)) ≤ key item) :
    Sinking key size hole (Function.update slots hole item) := by
  apply heaped.sinking_change inside
  · intro index _ differs
    rw [Function.update_of_ne differs]
  · rw [Function.update_self]
    exact large

/-- One pass up: a smaller item changes places with its parent. -/
theorem Rising.pass {item : α} (rising : Rising key size hole (Function.update slots hole item))
    (inside : hole < size) (positive : 0 < hole) (small : key item < key (slots (parent hole))) :
    Rising key size (parent hole)
      (Function.update (Function.update slots hole (slots (parent hole))) (parent hole) item) := by
  have above := parent_lt positive
  have apart : parent hole ≠ hole := by omega
  have moved (index : Nat) (away : index ≠ parent hole) (other : index ≠ hole) :
      Function.update (Function.update slots hole (slots (parent hole))) (parent hole) item index =
        slots index := by
    rw [Function.update_of_ne away, Function.update_of_ne other]
  have atHole : Function.update (Function.update slots hole (slots (parent hole))) (parent hole)
      item hole = slots (parent hole) := by
    rw [Function.update_of_ne (Ne.symm apart), Function.update_self]
  have before (index : Nat) (other : index ≠ hole) :
      Function.update slots hole item index = slots index := Function.update_of_ne other _ _
  constructor
  · intro index within nonzero other
    by_cases here : index = hole
    · rw [here, atHole, Function.update_self]
      exact le_of_lt small
    · rw [moved index other here]
      by_cases sibling : parent index = parent hole
      · have old := rising.others index within nonzero here
        rw [before index here, sibling, before _ apart] at old
        rw [sibling, Function.update_self]
        exact le_trans (le_of_lt small) old
      · by_cases child : parent index = hole
        · have old := rising.skip index within nonzero child positive
          rw [before index here, before _ apart] at old
          rw [child, atHole]
          exact old
        · have old := rising.others index within nonzero here
          rw [before index here, before _ child] at old
          rw [moved _ sibling child]
          exact old
  · intro index within nonzero child deep
    have higher := parent_lt deep
    have up := rising.others (parent hole) (by omega) deep apart
    rw [before _ apart, before (parent (parent hole)) (by omega)] at up
    rw [moved (parent (parent hole)) (by omega) (by omega)]
    by_cases here : index = hole
    · rw [here, atHole]
      exact up
    · have later := parent_lt nonzero
      have old := rising.others index within nonzero here
      rw [before index here, child, before _ apart] at old
      rw [moved index (by omega) here]
      exact le_trans up old

/-- One pass down: a greater item changes places with its least child. -/
theorem Sinking.pass {item : α} {child : Nat}
    (sinking : Sinking key size hole (Function.update slots hole item)) (inside : child < size)
    (positive : 0 < child) (below : parent child = hole)
    (least : ∀ index < size, 0 < index → parent index = hole →
      key (slots child) ≤ key (slots index))
    (large : key (slots child) < key item) :
    Sinking key size child
      (Function.update (Function.update slots hole (slots child)) child item) := by
  have above := parent_lt positive
  have apart : hole ≠ child := by omega
  have moved (index : Nat) (away : index ≠ child) (other : index ≠ hole) :
      Function.update (Function.update slots hole (slots child)) child item index =
        slots index := by
    rw [Function.update_of_ne away, Function.update_of_ne other]
  have atHole : Function.update (Function.update slots hole (slots child)) child item hole =
      slots child := by
    rw [Function.update_of_ne apart, Function.update_self]
  have before (index : Nat) (other : index ≠ hole) :
      Function.update slots hole item index = slots index := Function.update_of_ne other _ _
  constructor
  · intro index within nonzero other
    have later := parent_lt nonzero
    by_cases beneath : parent index = hole
    · rw [beneath, atHole]
      by_cases here : index = child
      · rw [here, Function.update_self]
        exact le_of_lt large
      · rw [moved index here (by omega)]
        exact least index within nonzero beneath
    · rw [moved _ other beneath]
      by_cases here : index = hole
      · have up := sinking.skip child inside positive below (by omega)
        rw [before child (Ne.symm apart), before (parent hole) (by rw [← here]; omega)] at up
        rw [here, atHole]
        exact up
      · have differs : index ≠ child := by
          intro same
          rw [same] at beneath
          exact beneath below
        have old := sinking.others index within nonzero beneath
        rw [before index here, before _ beneath] at old
        rw [moved index differs here]
        exact old
  · intro index within nonzero beneath _
    have later := parent_lt nonzero
    have old := sinking.others index within nonzero (by omega)
    rw [beneath, before _ (Ne.symm apart), before index (by omega)] at old
    rw [below, atHole, moved index (by omega) (by omega)]
    exact old

end BackendCpp.Library
