import Mathlib.Tactic

/-!
# Readers

A reader takes a value from the front of a list and leaves the rest; it fails when the list is too
short. Readers of encodings of one size are put together from smaller ones. Values are read one after
the other from their encodings, and those before the cut from encodings that are cut off.
-/

namespace BackendCpp.Library

variable {ε α β γ ι : Type}

/-- Takes a value from the front of a list, or fails. -/
abbrev Reader (ε β α : Type) := StateT (List β) (Except ε) α

/-- Reads a number of items as a value. -/
def readFixed (size : Nat) (value : List β → α) (error : ε) : Reader ε β α := fun text =>
  if text.length < size then .error error else .ok (value (text.take size), text.drop size)

/-- The values that are read one after the other, and what is left, if no value is missing. -/
def readMany (read : Reader ε β α) : Nat → List β → List α × Except ε (List β)
  | 0, text => ([], .ok text)
  | count + 1, text =>
    match read text with
    | .error error => ([], .error error)
    | .ok (value, text) =>
      let (values, left) := readMany read count text
      (value :: values, left)

/-- A reader of encodings of one size. -/
structure Reads (read : Reader ε β α) (size : Nat) (encode : ι → List β) (value : ι → α)
    (good : ι → Prop) : Prop where
  /-- It fails on less. -/
  short : ∀ text, text.length < size → ∃ error, read text = .error error
  /-- It takes no more and no less. -/
  takes : ∀ text value rest, read text = .ok (value, rest) → text.length = size + rest.length
  /-- It reads an encoding. -/
  back : ∀ item, good item → ∀ rest, read (encode item ++ rest) = .ok (value item, rest)
  /-- Encodings have the size. -/
  length : ∀ item, (encode item).length = size

/-- A number of items is read as the value that they encode. -/
theorem readFixed_reads {size : Nat} {decode : List β → α} {error : ε} {encode : ι → List β}
    {value : ι → α} {good : ι → Prop}
    (back : ∀ item, good item → decode (encode item) = value item)
    (length : ∀ item, (encode item).length = size) :
    Reads (readFixed size decode error) size encode value good := by
  refine ⟨fun text few => ⟨error, if_pos few⟩, fun text value rest done => ?_,
    fun item fine rest => ?_, length⟩
  · unfold readFixed at done
    split_ifs at done with few
    obtain ⟨-, left⟩ := Prod.mk.inj (Except.ok.inj done)
    rw [← left, List.length_drop]
    omega
  · have long : ¬(encode item ++ rest).length < size := by
      rw [List.length_append, length]
      omega
    unfold readFixed
    rw [if_neg long, List.take_left' (length item), List.drop_left' (length item),
      back item fine]

/-- A value that takes nothing. -/
theorem pure_reads {result : α} {value : ι → α} {good : ι → Prop}
    (same : ∀ item, good item → value item = result) :
    Reads (pure result : Reader ε β α) 0 (fun _ => []) value good := by
  refine ⟨fun text few => absurd few (Nat.not_lt_zero _), fun text value rest done => ?_,
    fun item fine rest => ?_, fun _ => rfl⟩
  · obtain ⟨-, left⟩ := Prod.mk.inj (Except.ok.inj done)
    rw [left, Nat.zero_add]
  · rw [same item fine]
    rfl

section compose

variable {read : Reader ε β α} {size : Nat} {encode : ι → List β} {value : ι → α} {good : ι → Prop}

/-- One reader after the other; the second knows what the first has read. -/
theorem Reads.bind {next : α → Reader ε β γ} {size' : Nat} {encode' : ι → List β} {value' : ι → γ}
    (first : Reads read size encode value good)
    (second : ∀ found,
      Reads (next found) size' encode' value' fun item => good item ∧ value item = found) :
    Reads (read >>= next) (size + size') (fun item => encode item ++ encode' item) value' good := by
  have unfolds : ∀ text, (read >>= next) text = match read text with
      | .error error => .error error
      | .ok (found, text) => next found text := by
    intro text
    show (read text >>= fun found => next found.1 found.2) = _
    cases read text <;> rfl
  refine ⟨fun text few => ?_, fun text result rest done => ?_, fun item fine rest => ?_,
    fun item => ?_⟩
  · rw [unfolds]
    cases here : read text with
    | error error => exact ⟨error, rfl⟩
    | ok found =>
      have less := first.takes text found.1 found.2 here
      exact (second found.1).short found.2 (by omega)
  · rw [unfolds] at done
    cases here : read text with
    | error error =>
      rw [here] at done
      cases done
    | ok found =>
      rw [here] at done
      have less := first.takes text found.1 found.2 here
      have less' := (second found.1).takes found.2 result rest done
      omega
  · rw [unfolds, List.append_assoc, first.back item fine]
    exact (second (value item)).back item ⟨fine, rfl⟩ rest
  · rw [List.length_append, first.length, (second (value item)).length]

/-- An encoding is read, or cut off. -/
theorem Reads.take (reads : Reads read size encode value good) (item : ι) (fine : good item)
    (tail : List β) (count : Nat) :
    (count < size ∧ ∃ error, read ((encode item ++ tail).take count) = .error error) ∨
      (size ≤ count ∧ read ((encode item ++ tail).take count) =
        .ok (value item, tail.take (count - size))) := by
  by_cases cut : count < size
  · refine .inl ⟨cut, reads.short _ ?_⟩
    rw [List.length_take]
    omega
  · have whole : (encode item).take count = encode item :=
      List.take_of_length_le (by rw [reads.length]; omega)
    refine .inr ⟨by omega, ?_⟩
    rw [List.take_append, whole, reads.length, reads.back item fine]

/-- Encodings one after the other are read, or they are cut off: then those before the cut are. -/
theorem Reads.many_take (reads : Reads read size encode value good) {items : List ι}
    (fine : ∀ item ∈ items, good item) (tail : List β) (count : Nat) :
    (count < (items.flatMap encode).length ∧
      ∃ k error, readMany read items.length ((items.flatMap encode ++ tail).take count) =
        ((items.map value).take k, .error error)) ∨
      ((items.flatMap encode).length ≤ count ∧
        readMany read items.length ((items.flatMap encode ++ tail).take count) =
          (items.map value, .ok (tail.take (count - (items.flatMap encode).length)))) := by
  induction items generalizing count with
  | nil => exact .inr ⟨Nat.zero_le _, rfl⟩
  | cons item items ih =>
    have here := reads.take item (fine item List.mem_cons_self) (items.flatMap encode ++ tail) count
    have more := ih (fun other member => fine other (List.mem_cons_of_mem _ member)) (count - size)
    rw [List.flatMap_cons, List.append_assoc, List.length_append, reads.length, List.length_cons,
      readMany]
    rcases here with ⟨cut, error, fails⟩ | ⟨long, first⟩
    · rw [fails]
      exact .inl ⟨by omega, 0, error, rfl⟩
    · rw [first]
      rcases more with ⟨cut, k, error, rest⟩ | ⟨long', rest⟩
      · exact .inl ⟨by omega, k + 1, error, by simp only [rest, List.map_cons, List.take_succ_cons]⟩
      · refine .inr ⟨by omega, ?_⟩
        simp only [rest, List.map_cons]
        rw [Nat.sub_sub]

end compose

end BackendCpp.Library
