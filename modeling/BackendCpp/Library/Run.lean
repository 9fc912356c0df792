import Mathlib.Tactic

/-!
# Runs of labelled steps

A system is a relation between a state, the label of a step and the state after it. A run
is a finite sequence of steps; its trace is the list of their labels, in order. What every
step preserves holds at the end of every run, and a ghost that the labels drive can be
carried along.
-/

namespace BackendCpp.Library

variable {σ ι γ : Type*}

/-- Runs from `start`: their traces and the states they end in. -/
inductive Run (step : σ → ι → σ → Prop) (start : σ) : List ι → σ → Prop
  /-- No step. -/
  | nil : Run step start [] start
  /-- One more step. -/
  | snoc {trace : List ι} {state next : σ} {label : ι} (before : Run step start trace state)
      (taken : step state label next) : Run step start (trace ++ [label]) next

/-- The run rule: what holds at the start and is kept by every step holds at the end. -/
theorem Run.invariant {step : σ → ι → σ → Prop} {start : σ} (inv : σ → Prop) (init : inv start)
    (keeps : ∀ state label next, inv state → step state label next → inv next)
    {trace : List ι} {state : σ} (run : Run step start trace state) : inv state := by
  induction run with
  | nil => exact init
  | snoc _ taken ih => exact keeps _ _ _ ih taken

/-- The run rule with a property of the labels: what the invariant says of each step's label holds
of all labels in the trace. -/
theorem Run.labels {step : σ → ι → σ → Prop} {start : σ} (inv : σ → Prop) (good : ι → Prop)
    (init : inv start)
    (keeps : ∀ state label next, inv state → step state label next → inv next ∧ good label)
    {trace : List ι} {state : σ} (run : Run step start trace state) :
    inv state ∧ ∀ label ∈ trace, good label := by
  induction run with
  | nil => exact ⟨init, fun _ member => absurd member List.not_mem_nil⟩
  | snoc _ taken ih =>
    obtain ⟨after, fine⟩ := keeps _ _ _ ih.1 taken
    refine ⟨after, ?_⟩
    intro label member
    rcases List.mem_append.mp member with earlier | last
    · exact ih.2 label earlier
    · rw [List.mem_singleton.mp last]
      exact fine

/-- The run rule with a ghost that follows the labels. -/
theorem Run.simulation {step : σ → ι → σ → Prop} {start : σ} (update : γ → ι → γ)
    (related : σ → γ → Prop) {ghost : γ} (init : related start ghost)
    (keeps : ∀ state ghost label next, related state ghost → step state label next →
      related next (update ghost label))
    {trace : List ι} {state : σ} (run : Run step start trace state) :
    related state (trace.foldl update ghost) := by
  induction run with
  | nil => exact init
  | snoc _ taken ih =>
    rw [List.foldl_append]
    exact keeps _ _ _ _ ih taken

/-- A run of steps that are steps of another system. -/
theorem Run.mono {step step' : σ → ι → σ → Prop} {start : σ} {trace : List ι} {state : σ}
    (run : Run step start trace state)
    (less : ∀ state label next, step state label next → step' state label next) :
    Run step' start trace state := by
  induction run with
  | nil => exact Run.nil
  | snoc _ taken ih => exact Run.snoc ih (less _ _ _ taken)

/-- Executing the labels one after the other gives a run. -/
theorem Run.of_foldlM {exec : σ → ι → Option σ} {start : σ} {trace : List ι} :
    ∀ {state : σ}, trace.foldlM exec start = some state →
      Run (fun state label next => exec state label = some next) start trace state := by
  induction trace using List.reverseRecOn with
  | nil =>
    intro state done
    rw [← Option.some.inj done]
    exact Run.nil
  | append_singleton trace label ih =>
    intro state done
    rw [List.foldlM_append] at done
    obtain ⟨middle, before, last⟩ := Option.bind_eq_some_iff.mp done
    rw [List.foldlM_cons] at last
    obtain ⟨next, taken, same⟩ := Option.bind_eq_some_iff.mp last
    rw [← Option.some.inj same]
    exact Run.snoc (ih before) taken

/-- Executing the labels one after the other, each tested first, gives a run of steps that pass the
test. -/
theorem Run.of_tested {exec : σ → ι → Option σ} {good : σ → ι → Prop}
    [∀ state label, Decidable (good state label)] {start state : σ} {trace : List ι}
    (done : trace.foldlM (fun state label =>
      if good state label then exec state label else none) start = some state) :
    Run (fun state label next => exec state label = some next ∧ good state label) start trace
      state := by
  apply (Run.of_foldlM done).mono
  intro before label after taken
  by_cases passes : good before label
  · rw [if_pos passes] at taken
    exact ⟨taken, passes⟩
  · rw [if_neg passes] at taken
    cases taken

end BackendCpp.Library
