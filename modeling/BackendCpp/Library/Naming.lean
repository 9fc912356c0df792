import Mathlib.Tactic

/-!
# Objects that are found by a name

Objects on a list carry a name, or none. A history records for each name the object to which
it was given last. As long as a name is given out only while no listed object carries it, the
listed objects have different names and a search along the list finds, for each name, the
object to which it was given last.
-/

namespace BackendCpp.Library

variable {α ν : Type*}

/-- The names on the list agree with the history. -/
structure Naming (objects : List α) (name : α → Option ν) (latest : ν → Option α) : Prop where
  /-- No object is listed twice. -/
  nodup : objects.Nodup
  /-- A listed object carries exactly the names that were given to it last. -/
  agrees : ∀ o ∈ objects, ∀ n, name o = some n ↔ latest n = some o

section

variable {objects others : List α} {name name' : α → Option ν} {latest : ν → Option α}

/-- Nothing is listed at first. -/
theorem Naming.nil : Naming [] name latest := ⟨List.nodup_nil, by simp⟩

/-- Objects may leave the list, or change in other respects than their names. -/
theorem Naming.sub (naming : Naming objects name latest) (distinct : others.Nodup)
    (listed : ∀ o ∈ others, o ∈ objects) (same : ∀ o ∈ others, name' o = name o) :
    Naming others name' latest := by
  refine ⟨distinct, ?_⟩
  intro o member n
  rw [same o member]
  exact naming.agrees o (listed o member) n

/-- Different objects do not share a name. -/
theorem Naming.pairwise (naming : Naming objects name latest) :
    objects.Pairwise fun o o' => ∀ n, name o = some n → name o' ≠ some n := by
  apply naming.nodup.pairwise_of_forall_ne
  intro o member o' member' different n named named'
  apply different
  have last := (naming.agrees o member n).mp named
  have last' := (naming.agrees o' member' n).mp named'
  exact Option.some.inj (last.symm.trans last')

/-- An object without a name joins. -/
theorem Naming.add (naming : Naming objects name latest) {o : α}
    (joined : List.Perm others (o :: objects)) (new : o ∉ objects)
    (unknown : ∀ n, latest n ≠ some o) (same : ∀ o' ∈ objects, name' o' = name o')
    (unnamed : name' o = none) : Naming others name' latest := by
  refine ⟨joined.nodup_iff.mpr (List.nodup_cons.mpr ⟨new, naming.nodup⟩), ?_⟩
  intro o' member n
  rcases List.mem_cons.mp (joined.mem_iff.mp member) with here | old
  · rw [here, unnamed]
    constructor
    · intro absent
      cases absent
    · intro last
      exact absurd last (unknown n)
  · rw [same o' old]
    exact naming.agrees o' old n

variable [DecidableEq ν]

/-- A free name is given to an object that is listed without a name. -/
theorem Naming.give (naming : Naming objects name latest) {o : α} {n : ν}
    (unnamed : name o = none) (free : ∀ o' ∈ objects, name o' ≠ some n)
    (same : ∀ o' ∈ objects, o' ≠ o → name' o' = name o') (named : name' o = some n) :
    Naming objects name' (Function.update latest n (some o)) := by
  refine ⟨naming.nodup, ?_⟩
  intro o' member' m
  have old := naming.agrees o' member' m
  by_cases here : o' = o
  · rw [here, named]
    by_cases this : m = n
    · rw [this, Function.update_self]
      exact ⟨fun _ => rfl, fun _ => rfl⟩
    · rw [Function.update_of_ne this]
      rw [here, unnamed] at old
      constructor
      · intro other
        exact absurd (Option.some.inj other).symm this
      · intro last
        exact absurd (old.mpr last) (by simp)
  · rw [same o' member' here]
    by_cases this : m = n
    · rw [this, Function.update_self]
      constructor
      · intro taken
        exact absurd taken (free o' member')
      · intro last
        exact absurd (Option.some.inj last).symm here
    · rw [Function.update_of_ne this]
      exact old

/-- An object joins with a free name. -/
theorem Naming.join [DecidableEq α] (naming : Naming objects name latest) {o : α} {n : ν}
    (joined : List.Perm others (o :: objects)) (new : o ∉ objects)
    (unknown : ∀ n, latest n ≠ some o) (free : ∀ o' ∈ objects, name o' ≠ some n)
    (same : ∀ o' ∈ objects, name' o' = name o') (named : name' o = some n) :
    Naming others name' (Function.update latest n (some o)) := by
  have before : Naming others (Function.update name' o none) latest := by
    apply naming.add joined new unknown
    · intro o' member
      rw [Function.update_of_ne (ne_of_mem_of_not_mem member new)]
      exact same o' member
    · exact Function.update_self ..
  apply before.give (Function.update_self ..)
  · intro o' member
    rcases List.mem_cons.mp (joined.mem_iff.mp member) with here | old
    · rw [here, Function.update_self]
      exact Option.some_ne_none n ∘ Eq.symm
    · rw [Function.update_of_ne (ne_of_mem_of_not_mem old new), same o' old]
      exact free o' old
  · intro o' _ other
    exact (Function.update_of_ne other ..).symm
  · exact named

/-- A free name is given to nothing on the list. -/
theorem Naming.reserve (naming : Naming objects name latest) {n : ν}
    (free : ∀ o' ∈ objects, name o' ≠ some n) :
    Naming objects name (Function.update latest n none) := by
  refine ⟨naming.nodup, ?_⟩
  intro o' member' m
  by_cases this : m = n
  · rw [this, Function.update_self]
    constructor
    · intro taken
      exact absurd taken (free o' member')
    · intro last
      cases last
  · rw [Function.update_of_ne this]
    exact naming.agrees o' member' m

/-- The search for a name finds the object to which it was given last, if it is listed. -/
theorem Naming.find (naming : Naming objects name latest) (n : ν) (o : α) :
    (objects.find? fun o => name o = some n) = some o ↔ latest n = some o ∧ o ∈ objects := by
  constructor
  · intro found
    have member := List.mem_of_find?_eq_some found
    have named := List.find?_some found
    simp only [decide_eq_true_eq] at named
    exact ⟨(naming.agrees o member n).mp named, member⟩
  · intro last
    obtain ⟨last, member⟩ := last
    have named := (naming.agrees o member n).mpr last
    cases found : objects.find? fun o => name o = some n with
    | none =>
      have absent := List.find?_eq_none.mp found o member
      simp only [decide_eq_true_eq] at absent
      exact absurd named absent
    | some o' =>
      have member' := List.mem_of_find?_eq_some found
      have named' := List.find?_some found
      simp only [decide_eq_true_eq] at named'
      have last' := (naming.agrees o' member' n).mp named'
      exact congrArg some (Option.some.inj (last'.symm.trans last))

end

/-- A search along a list does not miss an object that is erased without being found. -/
theorem find?_erase [DecidableEq α] {p : α → Bool} {objects : List α} {o : α}
    (other : objects.find? p ≠ some o) : (objects.erase o).find? p = objects.find? p := by
  induction objects with
  | nil => rfl
  | cons first rest ih =>
    by_cases here : first = o
    · have fails : ¬ p first = true := by
        intro holds
        apply other
        rw [List.find?_cons_of_pos holds, here]
      rw [here, List.erase_cons_head, ← here, List.find?_cons_of_neg fails]
    · rw [List.erase_cons_tail (by simpa using here)]
      by_cases holds : p first = true
      · rw [List.find?_cons_of_pos holds, List.find?_cons_of_pos holds]
      · rw [List.find?_cons_of_neg holds, List.find?_cons_of_neg holds]
        apply ih
        rw [← List.find?_cons_of_neg holds]
        exact other

end BackendCpp.Library
