import Mathlib.Tactic

/-!
# Rings of cells

A queue in an array of `size` cells: the elements begin at `head`, go around the end of the
array and stop before `tail`. Writing at `tail` appends an element, and moving `head` takes
the first one away. A window is an array that is written around without an end: it keeps the
last `size` of all elements written.
-/

namespace BackendCpp.Library

variable {α : Type*}

/-- The cells from `head` to `tail` are the elements of the queue. -/
structure Ring (size : Nat) (cells : Nat → α) (head tail : Nat) (items : List α) : Prop where
  /-- The queue fits into the array. -/
  fits : items.length ≤ size
  /-- The first element has a cell. -/
  inside : head < size
  /-- The end of the queue. -/
  finish : tail = (head + items.length) % size
  /-- The cells in the order of the queue. -/
  cell : ∀ k (below : k < items.length), cells ((head + k) % size) = items[k]

variable {size head tail : Nat} {cells : Nat → α} {items : List α}

/-- An empty queue. -/
theorem Ring.nil (cells : Nat → α) (positive : 0 < size) : Ring size cells 0 0 [] := by
  refine ⟨Nat.zero_le size, positive, ?_, ?_⟩
  · simp
  · intro k below
    exact absurd below (Nat.not_lt_zero k)

/-- The end of the queue is a cell. -/
theorem Ring.tail_lt (ring : Ring size cells head tail items) : tail < size := by
  rw [ring.finish]
  have positive : 0 < size := Nat.lt_of_le_of_lt (Nat.zero_le head) ring.inside
  exact Nat.mod_lt _ positive

/-- Two different offsets below the size are two different cells. -/
theorem ring_offset_ne {k l : Nat} (below : k < l) (bound : l < size) :
    (head + k) % size ≠ (head + l) % size := by
  intro same
  have congruent : k ≡ l [MOD size] := Nat.ModEq.add_left_cancel' head same
  rw [Nat.ModEq, Nat.mod_eq_of_lt (by omega), Nat.mod_eq_of_lt bound] at congruent
  omega

/-- Writing at the end appends. -/
theorem Ring.push (ring : Ring size cells head tail items) (space : items.length < size)
    (item : α) :
    Ring size (Function.update cells tail item) head ((tail + 1) % size) (items ++ [item]) := by
  refine ⟨?_, ring.inside, ?_, ?_⟩
  · rw [List.length_append, List.length_singleton]
    exact space
  · rw [ring.finish, List.length_append, List.length_singleton, Nat.mod_add_mod]
    rfl
  · intro k below
    rw [List.length_append, List.length_singleton] at below
    by_cases last : k = items.length
    · subst last
      rw [← ring.finish, Function.update_self, List.getElem_concat_length rfl]
    · have old : k < items.length := by omega
      have apart : (head + k) % size ≠ tail := by
        rw [ring.finish]
        exact ring_offset_ne old space
      rw [Function.update_of_ne apart, ring.cell k old, List.getElem_append_left old]

/-- The first element is in the first cell. -/
theorem Ring.first {item : α} (ring : Ring size cells head tail (item :: items)) :
    cells head = item := by
  have first := ring.cell 0 (Nat.zero_lt_succ _)
  rw [Nat.add_zero, Nat.mod_eq_of_lt ring.inside] at first
  exact first

/-- Moving the begin takes the first element away. -/
theorem Ring.pop {item : α} (ring : Ring size cells head tail (item :: items)) :
    Ring size cells ((head + 1) % size) tail items := by
  have fits := ring.fits
  rw [List.length_cons] at fits
  refine ⟨by omega, Nat.mod_lt _ (by omega), ?_, ?_⟩
  · rw [ring.finish, List.length_cons, Nat.mod_add_mod]
    congr 1
    omega
  · intro k below
    have next := ring.cell (k + 1) (Nat.succ_lt_succ below)
    rw [List.getElem_cons_succ] at next
    rw [← next, Nat.mod_add_mod]
    congr 2
    omega

/-- The cells hold the last elements of a list, each at its place in the list modulo the size. -/
def Window (size : Nat) (cells : Nat → α) (items : List α) : Prop :=
  ∀ k (below : k < items.length), items.length ≤ k + size → cells (k % size) = items[k]

/-- Nothing was written. -/
theorem Window.nil (size : Nat) (cells : Nat → α) : Window size cells [] := by
  intro k below
  exact absurd below (Nat.not_lt_zero k)

/-- Writing at the end appends and overwrites the oldest element. -/
theorem Window.push (window : Window size cells items) (item : α) :
    Window size (Function.update cells (items.length % size) item) (items ++ [item]) := by
  intro k below recent
  rw [List.length_append, List.length_singleton] at below recent
  by_cases last : k = items.length
  · subst last
    rw [Function.update_self, List.getElem_concat_length rfl]
  · have old : k < items.length := by omega
    have apart : k % size ≠ items.length % size := by
      have offset : (k + 0) % size ≠ (k + (items.length - k)) % size :=
        ring_offset_ne (by omega) (by omega)
      rw [Nat.add_zero, Nat.add_sub_of_le old.le] at offset
      exact offset
    rw [Function.update_of_ne apart, window k old (by omega), List.getElem_append_left old]

/-- When the window is full its cells are the last elements, in some order. -/
theorem Window.perm (window : Window size cells items) (full : size ≤ items.length) :
    ((List.range size).map cells).Perm (items.drop (items.length - size)) := by
  let first := items.length - size
  have places : ((List.range' first size).map (· % size)).Perm (List.range size) := by
    have counted := Nat.multiset_Ico_map_mod first size
    have interval : Multiset.Ico first (first + size) =
        ↑(List.range' first (first + size - first)) := rfl
    rw [interval, Nat.add_sub_cancel_left] at counted
    exact Multiset.coe_eq_coe.mp counted
  have values : (List.range' first size).map (fun k => cells (k % size)) = items.drop first := by
    apply List.ext_getElem
    · rw [List.length_map, List.length_range', List.length_drop]
      omega
    · intro k below below'
      rw [List.getElem_map, List.getElem_range', List.getElem_drop, Nat.one_mul]
      rw [List.length_map, List.length_range'] at below
      exact window (first + k) (by omega) (by omega)
  rw [← values]
  have mapped := (places.map cells).symm
  rw [List.map_map] at mapped
  exact mapped

end BackendCpp.Library
