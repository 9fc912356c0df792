import Mathlib.Tactic

/-!
# Deterministic machines

A machine is a partial step function. A path is a finite run in which every configuration
that is left behind is good. When a path ends in a good configuration without a step, all
configurations that the machine ever reaches are good.
-/

namespace BackendCpp.Library

variable {σ : Type*}

/-- The configuration after a number of steps. -/
def afterSteps (step : σ → Option σ) : Nat → σ → Option σ
  | 0, c => some c
  | n + 1, c => (step c).bind (afterSteps step n)

/-- Some steps and then some more. -/
theorem afterSteps_add (step : σ → Option σ) (first second : Nat) (c : σ) :
    afterSteps step (first + second) c =
      (afterSteps step first c).bind (afterSteps step second) := by
  induction first generalizing c with
  | zero =>
    rw [Nat.zero_add]
    rfl
  | succ first ih =>
    rw [Nat.succ_add, afterSteps, afterSteps]
    cases step c with
    | none => rfl
    | some d => exact ih d

/-- Runs through good configurations. -/
inductive Path (step : σ → Option σ) (good : σ → Prop) : σ → σ → Prop
  | refl (c : σ) : Path step good c c
  | head {c d e : σ} (ok : good c) (taken : step c = some d) (rest : Path step good d e) :
      Path step good c e

variable {step : σ → Option σ} {good : σ → Prop} {c d e : σ}

/-- One step. -/
theorem Path.single (ok : good c) (taken : step c = some d) : Path step good c d :=
  Path.head ok taken (Path.refl d)

/-- One run after the other. -/
theorem Path.trans (first : Path step good c d) (second : Path step good d e) :
    Path step good c e := by
  induction first with
  | refl => exact second
  | head ok taken _ ih => exact Path.head ok taken (ih second)

/-- A path through better configurations. -/
theorem Path.mono {better : σ → Prop} (path : Path step better c d)
    (implies : ∀ x, better x → good x) : Path step good c d := by
  induction path with
  | refl c => exact Path.refl c
  | head ok taken _ ih => exact Path.head (implies _ ok) taken ih

/-- The end of a path is reached. -/
theorem Path.reached (path : Path step good c d) : ∃ n, afterSteps step n c = some d := by
  induction path with
  | refl c => exact ⟨0, rfl⟩
  | head ok taken _ ih =>
    obtain ⟨n, reached⟩ := ih
    refine ⟨n + 1, ?_⟩
    rw [afterSteps, taken]
    exact reached

/-- When a path ends for good, everything that is reached is good. -/
theorem Path.all (path : Path step good c d) (last : good d) (stops : step d = none) :
    ∀ n e, afterSteps step n c = some e → good e := by
  induction path with
  | refl c =>
    intro n e reached
    cases n with
    | zero =>
      rw [← Option.some.inj reached]
      exact last
    | succ n =>
      rw [afterSteps, stops] at reached
      cases reached
  | head ok taken _ ih =>
    intro n e reached
    cases n with
    | zero =>
      rw [← Option.some.inj reached]
      exact ok
    | succ n =>
      rw [afterSteps, taken] at reached
      exact ih last stops n e reached

/-- Runs with the configurations that they leave behind. -/
inductive Trail (step : σ → Option σ) : σ → List σ → σ → Prop
  | refl (c : σ) : Trail step c [] c
  | head {c d e : σ} {passed : List σ} (taken : step c = some d) (rest : Trail step d passed e) :
      Trail step c (c :: passed) e

/-- One trail after the other. -/
theorem Trail.trans {first second : List σ} (before : Trail step c first d)
    (after : Trail step d second e) : Trail step c (first ++ second) e := by
  induction before with
  | refl => exact after
  | head taken _ ih => exact Trail.head taken (ih after)

/-- A path has a trail of good configurations. -/
theorem Path.trail (path : Path step good c d) :
    ∃ passed, Trail step c passed d ∧ ∀ x ∈ passed, good x := by
  induction path with
  | refl c => exact ⟨[], Trail.refl c, fun _ member => absurd member List.not_mem_nil⟩
  | head ok taken _ ih =>
    obtain ⟨passed, trail, all⟩ := ih
    refine ⟨_, Trail.head taken trail, ?_⟩
    intro x member
    rcases List.mem_cons.mp member with first | later
    · rw [first]
      exact ok
    · exact all x later

/-- When the end of a trail has no step, the trail with its end is all that is ever reached. -/
theorem Trail.complete {passed : List σ} (trail : Trail step c passed d) (stops : step d = none)
    (n : Nat) : afterSteps step n c = (passed ++ [d])[n]? := by
  induction trail generalizing n with
  | refl c =>
    cases n with
    | zero => rfl
    | succ n =>
      rw [afterSteps, stops]
      rfl
  | head taken _ ih =>
    cases n with
    | zero => rfl
    | succ n =>
      rw [afterSteps, taken]
      exact ih stops n

/-- What comes after a configuration: exactly one is marked, this one is `hit`, and those before it
are `inside`. -/
def OnceAfter (inside hit mark : σ → Prop) (passed : List σ) : Prop :=
  ∃ before x after, passed = before ++ x :: after ∧ hit x ∧
    (∀ y ∈ before, inside y ∧ ¬ mark y) ∧ ∀ y ∈ after, ¬ mark y

/-- The same by the places in the list. -/
theorem onceAfter_iff {inside hit mark : σ → Prop} {passed : List σ} :
    OnceAfter inside hit mark passed ↔
      ∃ (m : Nat) (x : σ), passed[m]? = some x ∧ hit x ∧
        (∀ (j : Nat) (y : σ), j < m → passed[j]? = some y → inside y) ∧
        ∀ (m' : Nat) (y : σ), passed[m']? = some y → mark y → m' = m := by
  constructor
  · rintro ⟨before, x, after, rfl, hits, earlier, later⟩
    refine ⟨before.length, x, ?_, hits, ?_, ?_⟩
    · rw [List.getElem?_append_right le_rfl, Nat.sub_self]
      rfl
    · intro j y below found
      rw [List.getElem?_append_left below] at found
      exact (earlier y (List.mem_of_getElem? found)).1
    · intro m' y found mark
      by_contra other
      rcases Nat.lt_or_gt_of_ne other with below | above
      · rw [List.getElem?_append_left below] at found
        exact (earlier y (List.mem_of_getElem? found)).2 mark
      · rw [List.getElem?_append_right (Nat.le_of_lt above)] at found
        obtain ⟨k, same⟩ := Nat.exists_eq_succ_of_ne_zero (Nat.sub_ne_zero_of_lt above)
        rw [same, List.getElem?_cons_succ] at found
        exact later y (List.mem_of_getElem? found) mark
  · rintro ⟨m, x, found, hits, earlier, unique⟩
    obtain ⟨below, same⟩ := List.getElem?_eq_some_iff.mp found
    refine ⟨passed.take m, x, passed.drop (m + 1), ?_, hits, ?_, ?_⟩
    · rw [← same, List.getElem_cons_drop, List.take_append_drop]
    · intro y member
      obtain ⟨j, found'⟩ := List.mem_iff_getElem?.mp member
      rw [List.getElem?_take] at found'
      split at found'
      · rename_i before
        refine ⟨earlier j y before found', ?_⟩
        intro mark
        have same' := unique j y found' mark
        omega
      · cases found'
    · intro y member mark
      obtain ⟨j, found'⟩ := List.mem_iff_getElem?.mp member
      rw [List.getElem?_drop] at found'
      have same' := unique _ y found' mark
      omega

/-- Nothing that comes later and is not marked makes a difference. -/
theorem onceAfter_append {inside hit mark : σ → Prop} (marked : ∀ x, hit x → mark x)
    {first second : List σ} (quiet : ∀ x ∈ second, ¬ mark x) :
    OnceAfter inside hit mark (first ++ second) ↔ OnceAfter inside hit mark first := by
  constructor
  · rintro ⟨before, x, after, split, hits, earlier, later⟩
    rcases List.append_eq_append_iff.mp split with ⟨middle, rfl, found⟩ | ⟨middle, rfl, found⟩
    · have member : x ∈ second := by
        rw [found]
        exact List.mem_append_right _ List.mem_cons_self
      exact absurd (marked x hits) (quiet x member)
    · cases middle with
      | nil =>
        rw [List.nil_append] at found
        have member : x ∈ second := by
          rw [← found]
          exact List.mem_cons_self
        exact absurd (marked x hits) (quiet x member)
      | cons y middle =>
        rw [List.cons_append, List.cons.injEq] at found
        obtain ⟨rfl, rfl⟩ := found
        exact ⟨before, x, middle, rfl, hits, earlier,
          fun y member => later y (List.mem_append_left _ member)⟩
  · rintro ⟨before, x, after, rfl, hits, earlier, later⟩
    refine ⟨before, x, after ++ second, by rw [List.append_assoc]; rfl, hits, earlier, ?_⟩
    intro y member
    rcases List.mem_append.mp member with first | last
    · exact later y first
    · exact quiet y last

/-- Every configuration of a trail with what comes after it. -/
def Everywhere (holds : σ → List σ → Prop) : List σ → Prop
  | [] => True
  | x :: after => holds x after ∧ Everywhere holds after

/-- The same by the places in the list. -/
theorem everywhere_iff {holds : σ → List σ → Prop} {passed : List σ} :
    Everywhere holds passed ↔
      ∀ n x, passed[n]? = some x → holds x (passed.drop (n + 1)) := by
  induction passed with
  | nil =>
    refine ⟨?_, fun _ => trivial⟩
    intro _ n x found
    cases found
  | cons x after ih =>
    rw [Everywhere, ih]
    constructor
    · rintro ⟨here, later⟩ n y found
      cases n with
      | zero =>
        rw [← Option.some.inj found]
        exact here
      | succ n => exact later n y found
    · intro all
      exact ⟨all 0 x rfl, fun n y found => all (n + 1) y found⟩

/-- One part and then another that makes no difference to the first. -/
theorem everywhere_append {holds : σ → List σ → Prop} {first second : List σ}
    (apart : ∀ x ∈ first, ∀ after, holds x (after ++ second) ↔ holds x after) :
    Everywhere holds (first ++ second) ↔ Everywhere holds first ∧ Everywhere holds second := by
  induction first with
  | nil => exact ⟨fun all => ⟨trivial, all⟩, fun all => all.2⟩
  | cons x after ih =>
    rw [List.cons_append, Everywhere, Everywhere, apart x List.mem_cons_self,
      ih fun y member => apart y (List.mem_cons_of_mem _ member), and_assoc]

end BackendCpp.Library
