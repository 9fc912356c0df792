import Mathlib.Tactic

/-!
# Bounded execution of loops

A loop body maps a state either to the state of the next pass or to the result the
loop leaves with. `loop` runs a body for at most `fuel` passes and answers `none` when
the fuel is spent, so an unbounded loop of a program is a total function here and its
termination is a theorem about large enough fuel. The rules below give the result of a
loop from an invariant and a measure.
-/

namespace BackendCpp.Library

variable {σ ρ : Type*}

/-- Run `body` until it leaves with a result, for at most `fuel` passes. -/
def loop (body : σ → σ ⊕ ρ) : Nat → σ → Option ρ
  | 0, _ => none
  | fuel + 1, state =>
    match body state with
    | .inl next => loop body fuel next
    | .inr result => some result

/-- A pass that goes on hands the remaining fuel to the next pass. -/
theorem loop_next {body : σ → σ ⊕ ρ} {state next : σ} (pass : body state = .inl next)
    (fuel : Nat) : loop body (fuel + 1) state = loop body fuel next := by
  simp only [loop, pass]

/-- A pass that leaves gives the result under every positive fuel. -/
theorem loop_leave {body : σ → σ ⊕ ρ} {state : σ} {result : ρ}
    (pass : body state = .inr result) (fuel : Nat) :
    loop body (fuel + 1) state = some result := by
  simp only [loop, pass]

/-- The body of a loop whose pass may be undefined; an undefined pass ends the loop with no
result. -/
def attempt (body : σ → Option (σ ⊕ ρ)) (state : σ) : σ ⊕ Option ρ :=
  match body state with
  | none => .inr none
  | some (.inl next) => .inl next
  | some (.inr result) => .inr (some result)

/-- A defined pass that goes on. -/
theorem attempt_next {body : σ → Option (σ ⊕ ρ)} {state next : σ}
    (pass : body state = some (.inl next)) : attempt body state = .inl next := by
  simp only [attempt, pass]

/-- A defined pass that leaves. -/
theorem attempt_leave {body : σ → Option (σ ⊕ ρ)} {state : σ} {result : ρ}
    (pass : body state = some (.inr result)) : attempt body state = .inr (some result) := by
  simp only [attempt, pass]

/-- An undefined pass. -/
theorem attempt_undefined {body : σ → Option (σ ⊕ ρ)} {state : σ} (pass : body state = none) :
    attempt body state = .inr none := by
  simp only [attempt, pass]

/-- The body of a loop whose pass may fail; a pass that fails ends the loop with its error. -/
def guarded {ε : Type*} (body : σ → Except ε (σ ⊕ ρ)) (state : σ) : σ ⊕ Except ε ρ :=
  match body state with
  | .error failure => .inr (.error failure)
  | .ok (.inl next) => .inl next
  | .ok (.inr result) => .inr (.ok result)

/-- A pass that succeeds and goes on. -/
theorem guarded_next {ε : Type*} {body : σ → Except ε (σ ⊕ ρ)} {state next : σ}
    (pass : body state = .ok (.inl next)) : guarded body state = .inl next := by
  simp only [guarded, pass]

/-- A pass that succeeds and leaves. -/
theorem guarded_leave {ε : Type*} {body : σ → Except ε (σ ⊕ ρ)} {state : σ} {result : ρ}
    (pass : body state = .ok (.inr result)) : guarded body state = .inr (.ok result) := by
  simp only [guarded, pass]

/-- A pass that fails. -/
theorem guarded_fail {ε : Type*} {body : σ → Except ε (σ ⊕ ρ)} {state : σ} {failure : ε}
    (pass : body state = .error failure) : guarded body state = .inr (.error failure) := by
  simp only [guarded, pass]

section Except

variable {ε σ τ : Type}

/-- The value of a computation that succeeds is handed on. -/
@[simp] theorem ok_bind (value : σ) (next : σ → Except ε τ) :
    ((Except.ok value : Except ε σ) >>= next) = next value := rfl

/-- A failure is the result of the whole. -/
@[simp] theorem error_bind (failure : ε) (next : σ → Except ε τ) :
    ((Except.error failure : Except ε σ) >>= next) = .error failure := rfl

/-- A function of a value. -/
@[simp] theorem map_ok (f : σ → τ) (value : σ) :
    (Except.ok value : Except ε σ).map f = .ok (f value) := rfl

end Except

/-- `for (i = first; …; i++)` with `count` passes. -/
def countUp {ε : Type*} (body : Nat → σ → Except ε σ) : Nat → Nat → σ → Except ε σ
  | _, 0, state => .ok state
  | first, count + 1, state => do
    let next ← body first state
    countUp body (first + 1) count next

/-- `for (i = …; i >= last; i--)` with `count` passes. -/
def countDown {ε : Type*} (body : Nat → σ → Except ε σ) (last : Nat) : Nat → σ → Except ε σ
  | 0, state => .ok state
  | count + 1, state => do
    let next ← body (last + count) state
    countDown body last count next

/-- A loop that gives `result` gives it under all fuels from some bound on. -/
def Leaves (run : Nat → Option ρ) (result : ρ) : Prop :=
  ∃ bound, ∀ fuel, bound ≤ fuel → run fuel = some result

/-- A run with the result at every fuel leaves with it. -/
theorem Leaves.of_forall {run : Nat → Option ρ} {result : ρ}
    (same : ∀ fuel, run fuel = some result) : Leaves run result :=
  ⟨0, fun fuel _ => same fuel⟩

/-- A run that leaves has an actual fuel at which it returns. -/
theorem Leaves.exists_fuel {run : Nat → Option ρ} {result : ρ} (leaves : Leaves run result) :
    ∃ fuel, run fuel = some result := by
  obtain ⟨bound, returns⟩ := leaves
  exact ⟨bound, returns bound le_rfl⟩

/-- A run leaves with at most one result. -/
theorem Leaves.unique {run : Nat → Option ρ} {one other : ρ} (first : Leaves run one)
    (second : Leaves run other) : one = other := by
  obtain ⟨firstBound, firstReturns⟩ := first
  obtain ⟨secondBound, secondReturns⟩ := second
  have left := firstReturns (max firstBound secondBound) (le_max_left _ _)
  have right := secondReturns (max firstBound secondBound) (le_max_right _ _)
  exact Option.some.inj (left.symm.trans right)

/-- Sequencing: a run that leaves feeds a continuation that leaves. -/
theorem Leaves.bind {τ : Type*} {run : Nat → Option ρ} {middle : ρ}
    {continuation : Nat → ρ → Option τ} {result : τ} (first : Leaves run middle)
    (second : Leaves (fun fuel => continuation fuel middle) result) :
    Leaves (fun fuel => (run fuel).bind (continuation fuel)) result := by
  obtain ⟨firstBound, firstReturns⟩ := first
  obtain ⟨secondBound, secondReturns⟩ := second
  refine ⟨max firstBound secondBound, fun fuel enough => ?_⟩
  have head := firstReturns fuel (le_trans (le_max_left _ _) enough)
  have tail := secondReturns fuel (le_trans (le_max_right _ _) enough)
  simp only [head, Option.bind_some, tail]

/-- When the first of two runs leaves, the second one leaves with what both leave with. -/
theorem Leaves.of_bind {τ : Type*} {run : Nat → Option ρ} {middle : ρ}
    {continuation : Nat → ρ → Option τ} {result : τ}
    (both : Leaves (fun fuel => (run fuel).bind (continuation fuel)) result)
    (first : Leaves run middle) : Leaves (fun fuel => continuation fuel middle) result := by
  obtain ⟨bothBound, bothReturn⟩ := both
  obtain ⟨firstBound, firstReturns⟩ := first
  refine ⟨max bothBound firstBound, fun fuel enough => ?_⟩
  have whole := bothReturn fuel (le_trans (le_max_left _ _) enough)
  have head := firstReturns fuel (le_trans (le_max_right _ _) enough)
  simpa only [head, Option.bind_some] using whole

/-- A function of the result may be applied afterwards. -/
theorem Leaves.map {τ : Type*} {run : Nat → Option ρ} {result : ρ} (leaves : Leaves run result)
    (f : ρ → τ) : Leaves (fun fuel => (run fuel).map f) (f result) := by
  obtain ⟨bound, returns⟩ := leaves
  refine ⟨bound, fun fuel enough => ?_⟩
  simp only [returns fuel enough, Option.map_some]

/-- A loop over richer states runs as the loop over what they show. -/
theorem loop_map {τ π : Type*} {body : σ → σ ⊕ ρ} {body' : τ → τ ⊕ π} (f : σ → τ) (g : ρ → π)
    (pass : ∀ state, body' (f state) = (body state).map f g) :
    ∀ fuel state, loop body' fuel (f state) = (loop body fuel state).map g := by
  intro fuel
  induction fuel with
  | zero => exact fun _ => rfl
  | succ fuel ih =>
    intro state
    have same := pass state
    cases taken : body state with
    | inl next =>
      rw [taken] at same
      rw [loop_next same, loop_next taken]
      exact ih next
    | inr result =>
      rw [taken] at same
      rw [loop_leave same, loop_leave taken]
      rfl

/-- What the passes keep holds of the result. -/
theorem loop_keeps {body : σ → σ ⊕ ρ} (inv : σ → Prop) (post : ρ → Prop)
    (next : ∀ state after, inv state → body state = .inl after → inv after)
    (leave : ∀ state result, inv state → body state = .inr result → post result) :
    ∀ fuel state result, inv state → loop body fuel state = some result → post result := by
  intro fuel
  induction fuel with
  | zero => intro state result _ returned; cases returned
  | succ fuel ih =>
    intro state result holds returned
    cases pass : body state with
    | inl after =>
      rw [loop_next pass] at returned
      exact ih after result (next state after holds pass) returned
    | inr left =>
      rw [loop_leave pass] at returned
      rw [← Option.some.inj returned]
      exact leave state left holds pass

/-- A body with checks whose checks all hold at the states of an invariant runs as the body
without them. -/
theorem loop_guarded {ε : Type*} {body : σ → σ ⊕ ρ} {checked : σ → Except ε (σ ⊕ ρ)}
    (inv : σ → Prop) (safe : ∀ state, inv state → checked state = .ok (body state))
    (keeps : ∀ state next, inv state → body state = .inl next → inv next) :
    ∀ fuel state, inv state →
      loop (guarded checked) fuel state = (loop body fuel state).map .ok := by
  intro fuel
  induction fuel with
  | zero => exact fun _ _ => rfl
  | succ fuel ih =>
    intro state holds
    have same := safe state holds
    cases pass : body state with
    | inl next =>
      rw [pass] at same
      rw [loop_next (guarded_next same), loop_next pass]
      exact ih next (keeps state next holds pass)
    | inr result =>
      rw [pass] at same
      rw [loop_leave (guarded_leave same), loop_leave pass]
      rfl

/-- Fuel beyond a returning amount does not change the result. -/
theorem loop_add (body : σ → σ ⊕ ρ) (result : ρ) (extra : Nat) :
    ∀ fuel state, loop body fuel state = some result →
      loop body (fuel + extra) state = some result := by
  intro fuel
  induction fuel with
  | zero => intro state returned; simp [loop] at returned
  | succ fuel ih =>
    intro state returned
    rw [Nat.add_right_comm]
    cases pass : body state with
    | inl next =>
      rw [loop_next pass] at returned ⊢
      exact ih next returned
    | inr left =>
      rw [loop_leave pass] at returned ⊢
      exact returned

/-- A loop that returns under one fuel leaves with that result. -/
theorem leaves_of_loop {body : σ → σ ⊕ ρ} {result : ρ} {fuel : Nat} {state : σ}
    (returned : loop body fuel state = some result) :
    Leaves (fun fuel => loop body fuel state) result := by
  refine ⟨fuel, fun more enough => ?_⟩
  obtain ⟨extra, rfl⟩ := Nat.exists_eq_add_of_le enough
  exact loop_add body result extra fuel state returned

/-- A loop that goes on leaves as its next pass does. -/
theorem leaves_next {body : σ → σ ⊕ ρ} {state next : σ} {result : ρ}
    (pass : body state = .inl next) (leaves : Leaves (fun fuel => loop body fuel next) result) :
    Leaves (fun fuel => loop body fuel state) result := by
  obtain ⟨fuel, returned⟩ := leaves.exists_fuel
  exact leaves_of_loop (by rw [loop_next pass fuel]; exact returned)

/-- A loop whose pass leaves does so at once. -/
theorem leaves_now {body : σ → σ ⊕ ρ} {state : σ} {result : ρ}
    (pass : body state = .inr result) : Leaves (fun fuel => loop body fuel state) result :=
  leaves_of_loop (loop_leave pass 0)

/-- The loop rule. The invariant is indexed by a number. When every pass from an invariant
state either leaves with a result that satisfies `post` or goes on to a state that is
invariant at a smaller number, the loop leaves with a result that satisfies `post`. -/
theorem loop_rule {body : σ → σ ⊕ ρ} (inv : Nat → σ → Prop) (post : ρ → Prop)
    (step : ∀ size state, inv size state →
      (∃ smaller next, smaller < size ∧ body state = .inl next ∧ inv smaller next) ∨
      (∃ result, body state = .inr result ∧ post result))
    (size : Nat) (state : σ) (start : inv size state) :
    ∃ result, Leaves (fun fuel => loop body fuel state) result ∧ post result := by
  induction size using Nat.strongRecOn generalizing state with
  | ind size ih =>
    rcases step size state start with ⟨smaller, next, less, pass, keeps⟩ | ⟨result, pass, holds⟩
    · obtain ⟨result, leaves, holds⟩ := ih smaller less next keeps
      exact ⟨result, leaves_next pass leaves, holds⟩
    · exact ⟨result, leaves_now pass, holds⟩

/-- The loop rule for a loop that runs as another one whose states and results it shows under
`f` and `g`: the invariant and the measure are those of the other loop. -/
theorem loop_rule_map {τ π : Type*} {body : σ → σ ⊕ ρ} {body' : τ → τ ⊕ π} (f : σ → τ) (g : ρ → π)
    (inv : Nat → τ → Prop) (post : π → Prop)
    (step : ∀ size state, inv size state →
      (∃ smaller next, smaller < size ∧ body' state = .inl next ∧ inv smaller next) ∨
      (∃ result, body' state = .inr result ∧ post result))
    (same : ∀ size state, inv size (f state) → body' (f state) = (body state).map f g)
    (size : Nat) (state : σ) (start : inv size (f state)) :
    ∃ result, Leaves (fun fuel => loop body fuel state) result ∧ post (g result) := by
  refine loop_rule (fun size state => inv size (f state)) (fun result => post (g result)) ?_ size
    state start
  intro size state holds
  have pass := same size state holds
  cases taken : body state with
  | inl next =>
    rw [taken, Sum.map_inl] at pass
    rcases step size (f state) holds with ⟨smaller, after, less, goes, keeps⟩ | ⟨result, leaves, -⟩
    · rw [pass] at goes
      exact Or.inl ⟨smaller, next, less, rfl, Sum.inl.inj goes ▸ keeps⟩
    · rw [pass] at leaves
      cases leaves
  | inr left =>
    rw [taken, Sum.map_inr] at pass
    rcases step size (f state) holds with ⟨smaller, after, -, goes, -⟩ | ⟨result, leaves, ends⟩
    · rw [pass] at goes
      cases goes
    · rw [pass] at leaves
      exact Or.inr ⟨left, rfl, Sum.inr.inj leaves ▸ ends⟩

/-- Under the premise of the loop rule a pass that goes on keeps the invariant. -/
theorem loop_rule_keeps {body : σ → σ ⊕ ρ} (inv : Nat → σ → Prop) (post : ρ → Prop)
    (step : ∀ size state, inv size state →
      (∃ smaller next, smaller < size ∧ body state = .inl next ∧ inv smaller next) ∨
      (∃ result, body state = .inr result ∧ post result))
    (state next : σ) (holds : ∃ size, inv size state) (pass : body state = .inl next) :
    ∃ size, inv size next := by
  obtain ⟨size, holds⟩ := holds
  rcases step size state holds with ⟨smaller, after, -, pass', keeps⟩ | ⟨result, pass', -⟩
  · rw [pass] at pass'
    rw [Sum.inl.inj pass']
    exact ⟨smaller, keeps⟩
  · rw [pass] at pass'
    cases pass'

end BackendCpp.Library
