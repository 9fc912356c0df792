import BackendCpp.Library.Loop

/-!
# Arrays and the loops that move their cells

An array is a list of cells of fixed length; an access outside of it is a failure. The counted
loops that copy a block of cells, or shift a block by one cell in place, are described by what is
before, in and after the block.
-/

namespace BackendCpp.Library

section Lifting

variable {ε σ τ : Type}

/-- A loop on a part of a state leaves the rest of the state as it is. -/
theorem countUp_lift {wrap : τ → σ} {body : Nat → σ → Except ε σ} {own : Nat → τ → Except ε τ}
    (same : ∀ i part, body i (wrap part) = (own i part).map wrap) (first count : Nat) (part : τ) :
    countUp body first count (wrap part) = (countUp own first count part).map wrap := by
  induction count generalizing first part with
  | zero => rfl
  | succ count ih =>
    rw [countUp, countUp, same]
    cases own first part with
    | error failure => rfl
    | ok next => exact ih (first + 1) next

/-- A loop that goes down, on a part of a state. -/
theorem countDown_lift {wrap : τ → σ} {body : Nat → σ → Except ε σ} {own : Nat → τ → Except ε τ}
    (same : ∀ i part, body i (wrap part) = (own i part).map wrap) (last count : Nat) (part : τ) :
    countDown body last count (wrap part) = (countDown own last count part).map wrap := by
  induction count generalizing part with
  | zero => rfl
  | succ count ih =>
    rw [countDown, countDown, same]
    cases own (last + count) part with
    | error failure => rfl
    | ok next => exact ih next

/-- A loop over two parts of a state is a loop over each. -/
theorem countUp_pair {one : Nat → σ → Except ε σ} {two : Nat → τ → Except ε τ}
    {first count : Nat} {left left' : σ} {right right' : τ}
    (leftDone : countUp one first count left = .ok left')
    (rightDone : countUp two first count right = .ok right') :
    countUp (fun i (pair : σ × τ) => do
      let x ← one i pair.1
      let y ← two i pair.2
      Except.ok (x, y)) first count (left, right) = .ok (left', right') := by
  induction count generalizing first left right with
  | zero =>
    rw [countUp] at leftDone rightDone ⊢
    rw [Except.ok.inj leftDone, Except.ok.inj rightDone]
  | succ count ih =>
    rw [countUp] at leftDone rightDone ⊢
    cases head : one first left with
    | error failure => simp [head] at leftDone
    | ok x =>
      cases other : two first right with
      | error failure => simp [other] at rightDone
      | ok y =>
        rw [head, ok_bind] at leftDone
        rw [other, ok_bind] at rightDone
        simpa [head, other] using ih leftDone rightDone

/-- A loop that goes down over two parts of a state. -/
theorem countDown_pair {one : Nat → σ → Except ε σ} {two : Nat → τ → Except ε τ}
    {last count : Nat} {left left' : σ} {right right' : τ}
    (leftDone : countDown one last count left = .ok left')
    (rightDone : countDown two last count right = .ok right') :
    countDown (fun i (pair : σ × τ) => do
      let x ← one i pair.1
      let y ← two i pair.2
      Except.ok (x, y)) last count (left, right) = .ok (left', right') := by
  induction count generalizing left right with
  | zero =>
    rw [countDown] at leftDone rightDone ⊢
    rw [Except.ok.inj leftDone, Except.ok.inj rightDone]
  | succ count ih =>
    rw [countDown] at leftDone rightDone ⊢
    cases head : one (last + count) left with
    | error failure => simp [head] at leftDone
    | ok x =>
      cases other : two (last + count) right with
      | error failure => simp [other] at rightDone
      | ok y =>
        rw [head, ok_bind] at leftDone
        rw [other, ok_bind] at rightDone
        simpa [head, other] using ih leftDone rightDone

end Lifting

section Cells

variable {ε α : Type}

/-- `cells[i]`. -/
def fetch (failure : ε) (cells : List α) (i : Nat) : Except ε α :=
  match cells[i]? with
  | some value => .ok value
  | none => .error failure

/-- `cells[i] = value`. -/
def assign (failure : ε) (cells : List α) (i : Nat) (value : α) : Except ε (List α) :=
  if i < cells.length then .ok (cells.set i value) else .error failure

/-- The cell behind a block. -/
theorem fetch_at {failure : ε} {before after : List α} {value : α} {i : Nat}
    (place : i = before.length) : fetch failure (before ++ value :: after) i = .ok value := by
  simp [fetch, place]

/-- Assigning to the cell behind a block. -/
theorem assign_at {failure : ε} {before after : List α} {value new : α} {i : Nat}
    (place : i = before.length) :
    assign failure (before ++ value :: after) i new = .ok (before ++ new :: after) := by
  simp [assign, place]

/-- A loop that copies a block from one array to another. -/
theorem copy_spec {failure : ε} (dst src : Nat → Nat) {source before old after front values
    rear : List α} {first base start : Nat} (into : ∀ k, dst (first + k) = base + k)
    (out : ∀ k, src (first + k) = start + k) (shape : source = front ++ (values ++ rear))
    (place : before.length = base) (origin : front.length = start)
    (size : old.length = values.length) :
    countUp (fun i cells => do
      let value ← fetch failure source (src i)
      assign failure cells (dst i) value) first values.length (before ++ (old ++ after)) =
      .ok (before ++ (values ++ after)) := by
  induction values generalizing first base start before old front with
  | nil =>
    rw [List.length_eq_zero_iff.mp size]
    rfl
  | cons value values ih =>
    cases old with
    | nil => simp at size
    | cons gone old =>
      have position := into 0
      have origin' := out 0
      rw [Nat.add_zero, Nat.add_zero] at position origin'
      have read : fetch failure source (src first) = .ok value := by
        rw [shape, List.cons_append]
        exact fetch_at (by rw [origin', origin])
      have written : assign failure (before ++ (gone :: old ++ after)) (dst first) value =
          .ok (before ++ value :: (old ++ after)) := by
        rw [List.cons_append]
        exact assign_at (by rw [position, place])
      rw [List.length_cons, countUp, read, ok_bind, written, ok_bind]
      have rest := @ih (before ++ [value]) old (front ++ [value]) (first + 1) (base + 1) (start + 1)
        (fun k => by rw [Nat.add_right_comm, Nat.add_assoc, into]; omega)
        (fun k => by rw [Nat.add_right_comm, Nat.add_assoc, out]; omega)
        (by simp [shape]) (by simp [place]) (by simp [origin]) (by simpa using size)
      simpa using rest

/-- A loop that moves a block down by one cell. -/
theorem shiftDown_spec {failure : ε} (dst src : Nat → Nat) {before values after : List α}
    {gone : α} {first base : Nat} (into : ∀ k, dst (first + k) = base + k)
    (out : ∀ k, src (first + k) = base + k + 1) (place : before.length = base) :
    ∃ stale, countUp (fun i cells => do
      let value ← fetch failure cells (src i)
      assign failure cells (dst i) value) first values.length
        (before ++ gone :: (values ++ after)) = .ok (before ++ (values ++ stale :: after)) := by
  induction values generalizing first base before gone with
  | nil => exact ⟨gone, rfl⟩
  | cons value values ih =>
    have position := into 0
    have origin := out 0
    rw [Nat.add_zero, Nat.add_zero] at position origin
    have read : fetch failure (before ++ gone :: (value :: values ++ after)) (src first) =
        .ok value := by
      have split : before ++ gone :: (value :: values ++ after) =
          (before ++ [gone]) ++ value :: (values ++ after) := by simp
      rw [split]
      exact fetch_at (by simp [origin, place])
    have written : assign failure (before ++ gone :: (value :: values ++ after)) (dst first) value =
        .ok (before ++ value :: (value :: values ++ after)) :=
      assign_at (by rw [position, place])
    obtain ⟨stale, rest⟩ := @ih (before ++ [value]) value (first + 1) (base + 1)
      (fun k => by rw [Nat.add_right_comm, Nat.add_assoc, into]; omega)
      (fun k => by rw [Nat.add_right_comm, Nat.add_assoc, out]; omega) (by simp [place])
    refine ⟨stale, ?_⟩
    rw [List.length_cons, countUp, read, ok_bind, written, ok_bind]
    simpa using rest

/-- A loop that moves a block up by one cell, from its end. -/
theorem shiftUp_spec {failure : ε} (dst src : Nat → Nat) {before values after : List α}
    {gone : α} {last base : Nat} (into : ∀ k, dst (last + k) = base + k + 1)
    (out : ∀ k, src (last + k) = base + k) (place : before.length = base) :
    ∃ stale, countDown (fun i cells => do
      let value ← fetch failure cells (src i)
      assign failure cells (dst i) value) last values.length
        (before ++ (values ++ gone :: after)) = .ok (before ++ stale :: (values ++ after)) := by
  induction values using List.reverseRecOn generalizing gone after with
  | nil => exact ⟨gone, rfl⟩
  | append_singleton values value ih =>
    have read : fetch failure (before ++ (values ++ [value] ++ gone :: after))
        (src (last + values.length)) = .ok value := by
      have split : before ++ (values ++ [value] ++ gone :: after) =
          (before ++ values) ++ value :: gone :: after := by simp
      rw [split]
      exact fetch_at (by simp [out, place])
    have written : assign failure (before ++ (values ++ [value] ++ gone :: after))
        (dst (last + values.length)) value = .ok (before ++ (values ++ value :: value :: after)) := by
      have split : before ++ (values ++ [value] ++ gone :: after) =
          (before ++ values ++ [value]) ++ gone :: after := by simp
      rw [split, assign_at (by simp [into, place]; omega)]
      simp
    obtain ⟨stale, rest⟩ := @ih (value :: after) value
    refine ⟨stale, ?_⟩
    rw [List.length_append, List.length_singleton, countDown, read, ok_bind, written, ok_bind]
    simpa using rest

end Cells

end BackendCpp.Library
