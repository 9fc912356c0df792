import Mathlib.Tactic

/-!
# Linked lists

A function that gives the successor of an element spells lists: each element of the list has
the next one as its successor, and the last has none. An element is put behind another, or
taken out from behind another, by changing successors of these two only.
-/

namespace BackendCpp.Library

variable {α : Type*}

/-- Each element is followed by the next, and the last by nothing. -/
def Follows (next : α → Option α) : List α → Prop
  | [] => True
  | a :: rest => next a = rest.head? ∧ Follows next rest

variable {next next' : α → Option α}

/-- Only the successors of the elements matter. -/
theorem Follows.congr {list : List α} (same : ∀ a ∈ list, next' a = next a)
    (follows : Follows next list) : Follows next' list := by
  induction list with
  | nil => trivial
  | cons a rest ih =>
    obtain ⟨head, tail⟩ := follows
    refine ⟨(same a List.mem_cons_self).trans head, ih ?_ tail⟩
    intro b member
    exact same b (List.mem_cons_of_mem a member)

/-- The successor of an element. -/
theorem Follows.next_eq {before behind : List α} {a : α}
    (follows : Follows next (before ++ a :: behind)) : next a = behind.head? := by
  induction before with
  | nil => exact follows.1
  | cons b before ih => exact ih follows.2

/-- The first element and the successors determine the list. -/
theorem Follows.unique {one other : List α} (first : Follows next one)
    (second : Follows next other) (same : one.head? = other.head?) : one = other := by
  induction one generalizing other with
  | nil => exact (List.head?_eq_none_iff.mp same.symm).symm
  | cons a rest ih =>
    cases other with
    | nil => cases same
    | cons b rest' =>
      have head : a = b := Option.some.inj same
      rw [head] at first ⊢
      rw [ih first.2 second.2 (first.1.symm.trans second.1)]

/-- The end of a list may be exchanged when the element before it is told. -/
theorem Follows.splice {before behind behind' : List α} {a : α}
    (follows : Follows next (before ++ a :: behind)) (same : ∀ b ∈ before, next' b = next b)
    (told : next' a = behind'.head?) (rest : Follows next' behind') :
    Follows next' (before ++ a :: behind') := by
  induction before with
  | nil => exact ⟨told, rest⟩
  | cons b before ih =>
    obtain ⟨head, tail⟩ := follows
    refine ⟨?_, ih tail fun c member => same c (List.mem_cons_of_mem b member)⟩
    rw [same b List.mem_cons_self, head]
    cases before with
    | nil => rfl
    | cons c before => rfl

/-- The end of a list is a list. -/
theorem Follows.suffix {before behind : List α} (follows : Follows next (before ++ behind)) :
    Follows next behind := by
  induction before with
  | nil => exact follows
  | cons b before ih => exact ih follows.2

/-- A new element behind another. -/
theorem Follows.insert {before behind : List α} {a new : α}
    (follows : Follows next (before ++ a :: behind)) (same : ∀ b ∈ before, next' b = next b)
    (rest : ∀ b ∈ behind, next' b = next b) (told : next' a = some new)
    (copied : next' new = next a) : Follows next' (before ++ a :: new :: behind) := by
  refine follows.splice same told ⟨?_, ?_⟩
  · rw [copied]
    exact follows.next_eq
  · have split : before ++ a :: behind = (before ++ [a]) ++ behind := by simp
    rw [split] at follows
    exact follows.suffix.congr rest

/-- An element leaves. -/
theorem Follows.remove {before behind : List α} {a old : α}
    (follows : Follows next (before ++ a :: old :: behind)) (same : ∀ b ∈ before, next' b = next b)
    (rest : ∀ b ∈ behind, next' b = next b) (copied : next' a = next old) :
    Follows next' (before ++ a :: behind) := by
  have split : before ++ a :: old :: behind = (before ++ [a]) ++ old :: behind := by simp
  apply follows.splice same
  · rw [split] at follows
    rw [copied]
    exact follows.next_eq
  · have split' : before ++ a :: old :: behind = (before ++ [a, old]) ++ behind := by simp
    rw [split'] at follows
    exact follows.suffix.congr rest

/-- A list with a first element ends with its last one. -/
theorem dropLast_getLastD (a : α) (list : List α) :
    (a :: list).dropLast ++ [list.getLastD a] = a :: list := by
  have whole := List.dropLast_append_getLast (List.cons_ne_nil a list)
  rw [List.getLast_eq_getLastD] at whole
  exact whole

end BackendCpp.Library
