import BackendCpp.Library.Linked
import BackendCpp.Library.Loop

/-!
# Walking linked lists, forwards and backwards

A walk follows a successor function until it ends. When successors spell a list, the walk from
its first element visits that list, and what can be reached from there is what is on it. A list
is linked doubly when the successors spell it and the predecessors spell its reversal; both
statements are then about the same function, read from either end.
-/

namespace BackendCpp.Library

variable {α : Type*}

/-- The elements met on the way from a start, for at most `fuel` of them. -/
def walk (next : α → Option α) : Nat → Option α → Option (List α)
  | _, none => some []
  | 0, some _ => none
  | fuel + 1, some a => (walk next fuel (next a)).map (a :: ·)

variable {next next' prev prev' : α → Option α}

/-- The walk from the first element of a list visits the list and ends. -/
theorem Follows.walk {list : List α} (follows : Follows next list) :
    Leaves (fun fuel => walk next fuel list.head?) list := by
  refine ⟨list.length, ?_⟩
  induction list with
  | nil =>
    intro fuel _
    cases fuel <;> rfl
  | cons a rest ih =>
    intro fuel enough
    obtain ⟨told, behind⟩ := follows
    rw [List.length_cons] at enough
    obtain ⟨less, same⟩ : ∃ less, fuel = less + 1 := ⟨fuel - 1, by omega⟩
    have visited : Library.walk next less rest.head? = some rest := ih behind less (by omega)
    rw [same]
    change (Library.walk next less (next a)).map (a :: ·) = some (a :: rest)
    rw [told, visited]
    rfl

/-- An element can be reached from a start by following successors. -/
def Reached (next : α → Option α) (start : Option α) (a : α) : Prop :=
  ∃ first, start = some first ∧ Relation.ReflTransGen (fun b c => next b = some c) first a

/-- What can be reached from the first element of a list is on the list. -/
theorem Follows.reached_iff {list : List α} (follows : Follows next list) (a : α) :
    Reached next list.head? a ↔ a ∈ list := by
  constructor
  · rintro ⟨first, head, path⟩
    induction path with
    | refl => exact List.mem_of_head? head
    | tail _ told ih =>
      obtain ⟨before, behind, split⟩ := List.append_of_mem ih
      rw [split] at follows ⊢
      rw [follows.next_eq] at told
      exact List.mem_append_right before (List.mem_cons_of_mem _ (List.mem_of_head? told))
  · induction list with
    | nil => exact fun member => absurd member List.not_mem_nil
    | cons b rest ih =>
      intro member
      obtain ⟨told, behind⟩ := follows
      refine ⟨b, rfl, ?_⟩
      rcases List.mem_cons.mp member with here | further
      · rw [here]
      · obtain ⟨first, head, path⟩ := ih behind further
        exact Relation.ReflTransGen.head (told.trans head) path

/-- An element leaves: the one before it, if there is one, gets its successor. -/
theorem Follows.unlink {before behind : List α} {old : α}
    (follows : Follows next (before ++ old :: behind))
    (told : ∀ b, before.getLast? = some b → next' b = next old)
    (same : ∀ b ∈ before, before.getLast? ≠ some b → next' b = next b)
    (rest : ∀ b ∈ behind, next' b = next b) (distinct : before.Nodup) :
    Follows next' (before ++ behind) := by
  cases before using List.reverseRecOn with
  | nil => exact follows.2.congr rest
  | append_singleton first last =>
    rw [List.append_assoc, List.singleton_append] at follows ⊢
    rw [List.nodup_append] at distinct
    refine follows.remove ?_ rest (told last (List.getLast?_concat ..))
    intro b member
    apply same b (List.mem_append_left _ member)
    rw [List.getLast?_concat]
    intro equal
    exact distinct.2.2 b member last (List.mem_singleton_self last) (Option.some.inj equal).symm

/-- A list that is linked in both directions. -/
structure Doubly (next prev : α → Option α) (list : List α) : Prop where
  /-- One direction. -/
  forward : Follows next list
  /-- The other direction. -/
  backward : Follows prev list.reverse
  /-- No element is there twice. -/
  distinct : list.Nodup

/-- The empty list. -/
theorem Doubly.nil : Doubly next prev ([] : List α) :=
  ⟨trivial, trivial, List.nodup_nil⟩

/-- The successor of an element is the next one. -/
theorem Doubly.next_eq {before behind : List α} {a : α}
    (doubly : Doubly next prev (before ++ a :: behind)) : next a = behind.head? :=
  doubly.forward.next_eq

/-- The predecessor of an element is the one before. -/
theorem Doubly.prev_eq {before behind : List α} {a : α}
    (doubly : Doubly next prev (before ++ a :: behind)) : prev a = before.getLast? := by
  have reversed := doubly.backward
  rw [List.reverse_append, List.reverse_cons, List.append_assoc, List.singleton_append] at reversed
  rw [reversed.next_eq, List.head?_reverse]

/-- A new element at the front: only it and the first element are written. -/
theorem Doubly.push {list : List α} {new : α} (doubly : Doubly next prev list)
    (fresh : new ∉ list) (forward : ∀ b ∈ list, next' b = next b)
    (others : ∀ b ∈ list, list.head? ≠ some b → prev' b = prev b)
    (head : ∀ b, list.head? = some b → prev' b = some new)
    (told : next' new = list.head?) (alone : prev' new = none) :
    Doubly next' prev' (new :: list) := by
  refine ⟨⟨told, doubly.forward.congr forward⟩, ?_, List.nodup_cons.mpr ⟨fresh, doubly.distinct⟩⟩
  cases list with
  | nil => exact ⟨alone, trivial⟩
  | cons first rest =>
    have reversed := doubly.backward
    rw [List.reverse_cons] at reversed
    rw [List.reverse_cons, List.reverse_cons, List.append_assoc, List.singleton_append]
    have notFirst := (List.nodup_cons.mp doubly.distinct).1
    refine reversed.splice ?_ (head first rfl) ⟨alone, trivial⟩
    intro b member
    have inside : b ∈ rest := List.mem_reverse.mp member
    apply others b (List.mem_cons_of_mem first inside)
    intro equal
    rw [Option.some.inj equal] at notFirst
    exact notFirst inside

/-- An element leaves: only its two neighbours are written. -/
theorem Doubly.unlink {before behind : List α} {old : α}
    (doubly : Doubly next prev (before ++ old :: behind))
    (toldNext : ∀ b, before.getLast? = some b → next' b = next old)
    (sameNext : ∀ b ∈ before ++ behind, before.getLast? ≠ some b → next' b = next b)
    (toldPrev : ∀ b, behind.head? = some b → prev' b = prev old)
    (samePrev : ∀ b ∈ before ++ behind, behind.head? ≠ some b → prev' b = prev b) :
    Doubly next' prev' (before ++ behind) := by
  have distinct := doubly.distinct
  rw [List.nodup_append] at distinct
  obtain ⟨first, rest, apart⟩ := distinct
  have second := (List.nodup_cons.mp rest).2
  have separate : ∀ b ∈ before, b ∉ behind := by
    intro b member other
    exact apart b member b (List.mem_cons_of_mem old other) rfl
  refine ⟨?_, ?_, List.nodup_append.mpr ⟨first, second, ?_⟩⟩
  · refine doubly.forward.unlink toldNext ?_ ?_ first
    · exact fun b member => sameNext b (List.mem_append_left behind member)
    · intro b member
      apply sameNext b (List.mem_append_right before member)
      exact fun last => separate b (List.mem_of_getLast? last) member
  · have reversed := doubly.backward
    rw [List.reverse_append, List.reverse_cons, List.append_assoc, List.singleton_append]
      at reversed
    rw [List.reverse_append]
    refine reversed.unlink ?_ ?_ ?_ (List.nodup_reverse.mpr second)
    · intro b last
      rw [List.getLast?_reverse] at last
      exact toldPrev b last
    · intro b member last
      rw [List.getLast?_reverse] at last
      exact samePrev b (List.mem_append_right before (List.mem_reverse.mp member)) last
    · intro b member
      have inside := List.mem_reverse.mp member
      apply samePrev b (List.mem_append_left behind inside)
      exact fun last => separate b inside (List.mem_of_head? last)
  · intro b member c other equal
    rw [equal] at member
    exact separate c member other

end BackendCpp.Library
