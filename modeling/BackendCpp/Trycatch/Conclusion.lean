import BackendCpp.Trycatch.Structured

/-!
# The blocks of Finally

Every entry into a `Try` has a frame of its own, by whose number it is known. The block of
`Finally` begins when the innermost scope is that of the entry. It always runs when after each
entry it begins once, and until then the scope of the entry has not been left. When a handler is
left by an exception, the block behind it is not reached; a program settles when that happens to
no handler with a block behind it.
-/

namespace BackendCpp.Trycatch

open BackendCpp.Library

/-- The block of `Finally`, if there is one. -/
def Clauses.block : Clauses → Option Prog
  | .endTry => none
  | .final block => some block
  | .handler _ _ rest => rest.block

/-- The first statement behind `Finally`. -/
def finalizing : Stmt := .branch (.flagIs .entered) (.setFlag .finalized) .skip

/-- What stands between `Finally` and `EndTry`. -/
def concluding (block : Prog) : Stmt := .seq finalizing (.seq block.expand closing)

/-- Without `Finally` the clauses end at once. -/
theorem Clauses.expandTail_none {clauses : Clauses} (none' : clauses.block = none) :
    clauses.expandTail = ending := by
  match clauses with
  | .endTry => rfl
  | .final block => cases none'
  | .handler _ _ rest => exact rest.expandTail_none none'

/-- With `Finally` its block stands before the end. -/
theorem Clauses.expandTail_some {clauses : Clauses} {block : Prog}
    (some' : clauses.block = some block) : clauses.expandTail = .seq (concluding block) ending := by
  match clauses with
  | .endTry => cases some'
  | .final other =>
    cases some'
    rfl
  | .handler _ _ rest => exact rest.expandTail_some some'

/-- Control enters a `Try` with this block. -/
def Enters (c : Config) (block : Prog) : Prop :=
  ∃ body clauses rest, c.control = .stmt (Prog.attempt body clauses).expand :: rest ∧
    clauses.block = some block

/-- This block begins, for the entry with this number. -/
def Begins (number : Nat) (block : Prog) (c : Config) : Prop :=
  (∃ rest, c.control = .stmt (concluding block) :: rest) ∧ c.scopes.head? = some number

/-- Some block begins for this entry. -/
def Begun (number : Nat) (c : Config) : Prop :=
  (∃ second rest, c.control = .stmt (.seq finalizing second) :: rest) ∧
    c.scopes.head? = some number

/-- After an entry its block begins once, and until then its scope has not been left: control has
neither passed its `EndTry` nor reached a handler of a `Try` around it. -/
def Concludes (c : Config) (block : Prog) : Prop :=
  ∃ m d, afterSteps Config.step (m + 1) c = some d ∧ Begins c.fresh block d ∧
    (∀ j e, j < m → afterSteps Config.step (j + 1) c = some e → c.fresh ∈ e.scopes) ∧
    ∀ m' e, afterSteps Config.step (m' + 1) c = some e → Begun c.fresh e → m' = m

/-- Every entry that is ever made is concluded. -/
def FinallyRuns (start : Config) : Prop :=
  ∀ n c block, afterSteps Config.step n start = some c → Enters c block → Concludes c block

mutual

/-- No handler that is executed and has a block of `Finally` behind it is left by an exception. -/
def Prog.settles (active : Bool) : Prog → Bool
  | .skip => true
  | .seq first second =>
    first.settles active && ((first.meaning active).thrown.isSome || second.settles active)
  | .output _ => true
  | .throw _ => true
  | .attempt body clauses =>
    body.settles true &&
      match (body.meaning true).thrown with
      | none => clauses.concludes active
      | some e =>
        clauses.handles active e &&
          match clauses.handle active e with
          | none => clauses.concludes active
          | some handled =>
            match handled.thrown with
            | none => clauses.concludes active
            | some _ => clauses.block.isNone

/-- The handler of the exception settles. -/
def Clauses.handles (active : Bool) (e : Nat) : Clauses → Bool
  | .endTry => true
  | .final _ => true
  | .handler e' block rest =>
    if e = e' then block.settles active else rest.handles active e

/-- The block of `Finally` settles. -/
def Clauses.concludes (active : Bool) : Clauses → Bool
  | .endTry => true
  | .final block => block.settles active
  | .handler _ _ rest => rest.concludes active

end

/-- A configuration with what comes after it: when it enters a `Try`, the block begins once, and
until then the scope has not been left. -/
def Served (c : Config) (after : List Config) : Prop :=
  ∀ block, Enters c block →
    OnceAfter (fun e => c.fresh ∈ e.scopes) (Begins c.fresh block) (Begun c.fresh) after

/-- The block of an entry is a block. -/
theorem Begins.begun {number : Nat} {block : Prog} {c : Config} (begins : Begins number block c) :
    Begun number c := by
  obtain ⟨⟨rest, control⟩, head⟩ := begins
  exact ⟨⟨_, rest, control⟩, head⟩

/-- What begins no block for it makes no difference to an entry. -/
theorem served_append {c : Config} {first second : List Config}
    (quiet : ∀ block, Enters c block → ∀ x ∈ second, ¬ Begun c.fresh x) :
    Served c (first ++ second) ↔ Served c first := by
  refine forall₂_congr fun block enters => ?_
  exact onceAfter_append (fun _ => Begins.begun) (quiet block enters)

/-- In a finished run every entry is concluded when every configuration is served by what comes
after it. -/
theorem finallyRuns_iff_everywhere {start last : Config} {passed : List Config}
    (trail : Trail Config.step start passed last) (stops : last.step = none) :
    FinallyRuns start ↔ Everywhere Served (passed ++ [last]) := by
  have reached := trail.complete stops
  rw [everywhere_iff, FinallyRuns]
  refine forall₂_congr fun n c => ?_
  rw [forall_comm, reached]
  refine forall_congr' fun found => forall₂_congr fun block enters => ?_
  have later : ∀ j, afterSteps Config.step (j + 1) c =
      ((passed ++ [last]).drop (n + 1))[j]? := by
    intro j
    have whole := afterSteps_add Config.step n (j + 1) start
    rw [reached, reached, found, Option.bind_some] at whole
    rw [← whole, List.getElem?_drop, Nat.add_assoc, Nat.add_comm 1 j]
  rw [onceAfter_iff, Concludes]
  simp only [later]

end BackendCpp.Trycatch
