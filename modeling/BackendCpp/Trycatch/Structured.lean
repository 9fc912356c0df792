import BackendCpp.Trycatch.Program

/-!
# Structured exceptions

The meaning of a program with structured exceptions says what it prints and whether an
exception leaves it. The machine that executes the expansion of the macros prints the same,
ends in the same way, and `ExceptionStack` is as it was at a `Try` whenever one of its
handlers begins and when its `EndTry` is passed.
-/

namespace BackendCpp.Trycatch

open BackendCpp.Library

/-- What a program prints, and the exception that leaves it. -/
structure Result where
  /-- What is printed. -/
  out : List Event
  /-- The exception that leaves it. -/
  thrown : Option Nat

/-- First the one, then the other unless an exception leaves the first. -/
def Result.andThen (first second : Result) : Result :=
  match first.thrown with
  | none => ⟨first.out ++ second.out, second.thrown⟩
  | some _ => first

/-- Nothing after it. -/
@[simp] theorem Result.andThen_nil (first : Result) : first.andThen ⟨[], none⟩ = first := by
  obtain ⟨events, thrown⟩ := first
  cases thrown with
  | none => simp only [Result.andThen, List.append_nil]
  | some e => rfl

/-- Nothing before it. -/
@[simp] theorem Result.nil_andThen (second : Result) :
    Result.andThen ⟨[], none⟩ second = second := rfl

/-- A result without exception. -/
theorem Result.andThen_of_none {first : Result} (quiet : first.thrown = none)
    (second : Result) : first.andThen second = Result.andThen ⟨first.out, none⟩ second := by
  simp only [Result.andThen, quiet]

/-- A throw. When no body of a `Try` is active it prints, and execution goes on. -/
def raise (active : Bool) (e : Nat) : Result :=
  if active then ⟨[], some e⟩ else ⟨[.uncaught e], none⟩

mutual

/-- The meaning of a program; `active` says whether the body of some `Try` around it is
active. The body of a `Try` is active. An exception that leaves it goes to the first clause
that names it; when there is none, the block of `Finally` is executed and the exception is
thrown again, outside of the `Try`. A handler and the block of `Finally` stand outside. -/
def Prog.meaning (active : Bool) : Prog → Result
  | .skip => ⟨[], none⟩
  | .seq first second => (first.meaning active).andThen (second.meaning active)
  | .output value => ⟨[.output value], none⟩
  | .throw e => raise active e
  | .attempt body clauses =>
    match (body.meaning true).thrown with
    | none => (body.meaning true).andThen (clauses.conclude active)
    | some e =>
      Result.andThen ⟨(body.meaning true).out, none⟩
        (match clauses.handle active e with
        | some handled => handled.andThen (clauses.conclude active)
        | none => (clauses.conclude active).andThen (raise active e))

/-- The first clause that names the exception. -/
def Clauses.handle (active : Bool) (e : Nat) : Clauses → Option Result
  | .endTry => none
  | .final _ => none
  | .handler e' block rest =>
    if e = e' then some (block.meaning active) else rest.handle active e

/-- The block of `Finally`. -/
def Clauses.conclude (active : Bool) : Clauses → Result
  | .endTry => ⟨[], none⟩
  | .final block => block.meaning active
  | .handler _ _ rest => rest.conclude active

end

/-- A handler inside of a body, and a throw after it that the outer clause takes. -/
example : (Prog.attempt
    (.seq (.attempt (.throw 2) (.handler 2 (.output 1) .endTry)) (.throw 1))
    (.handler 1 (.output 2) (.final (.output 3)))).meaning false =
      ⟨[.output 1, .output 2, .output 3], none⟩ := rfl

/-- When a handler begins, and when an `EndTry` is passed, `ExceptionStack` is what it was when
the scope of the `Try` was entered. -/
def Observed (c : Config) : Prop :=
  ∀ rest, c.control = .stmt (.setFlag .handled) :: rest ∨ c.control = .leave :: rest →
    ∃ id, c.scopes.head? = some id ∧ c.stack = (c.frames id).entered

/-- Runs of the machine in which the stack is observed. -/
abbrev Runs : Config → Config → Prop := Path Config.step Observed

/-- A statement other than the begin of a handler is executed. -/
theorem Runs.stmt {c d : Config} {statement : Stmt} {rest : List Item}
    (control : c.control = .stmt statement :: rest) (plain : statement ≠ .setFlag .handled)
    (taken : Config.exec { c with control := rest } statement = some d) : Runs c d := by
  apply Path.single
  · intro rest' observed
    rw [control] at observed
    rcases observed with same | same
    · cases same
      exact absurd rfl plain
    · cases same
  · rw [Config.step, control]
    exact taken

/-- Statements other than the begin of a scope, of a handler and of the block of `Finally`. -/
def Stmt.isOrdinary : Stmt → Bool
  | .scope _ => false
  | .setFlag .handled => false
  | .seq (.branch (.flagIs .entered) (.setFlag .finalized) .skip) _ => false
  | _ => true

/-- Runs of ordinary statements in the same scopes. -/
abbrev Walks (scopes : List Nat) : Config → Config → Prop :=
  Path Config.step fun c => c.scopes = scopes ∧
    ∃ statement rest, c.control = .stmt statement :: rest ∧ statement.isOrdinary = true

/-- An ordinary statement is executed. -/
theorem Walks.stmt {c d : Config} {scopes : List Nat} {statement : Stmt} {rest : List Item}
    (control : c.control = .stmt statement :: rest) (ordinary : statement.isOrdinary = true)
    (same : c.scopes = scopes)
    (taken : Config.exec { c with control := rest } statement = some d) : Walks scopes c d := by
  apply Path.single ⟨same, statement, rest, control, ordinary⟩
  rw [Config.step, control]
  exact taken

/-- The stack is observed in such runs. -/
theorem Walks.runs {scopes : List Nat} {c d : Config} (walk : Walks scopes c d) : Runs c d := by
  apply walk.mono
  rintro x ⟨-, statement, rest, control, ordinary⟩ rest' observed
  rw [control] at observed
  rcases observed with same | same
  · cases same
    cases ordinary
  · cases same

/-- What an execution leaves as it was. -/
structure Keeps (c d : Config) : Prop where
  /-- The stack. -/
  stack : d.stack = c.stack
  /-- No jump out of the program. -/
  escaped : d.escaped = c.escaped
  /-- Frames are only added. -/
  fresh : c.fresh ≤ d.fresh
  /-- The frames that were there. -/
  frames : ∀ i, i < c.fresh → d.frames i = c.frames i

/-- A configuration keeps itself. -/
theorem Keeps.refl (c : Config) : Keeps c c := ⟨rfl, rfl, le_rfl, fun _ _ => rfl⟩

/-- Keeping twice keeps. -/
theorem Keeps.trans {c d e : Config} (first : Keeps c d) (second : Keeps d e) : Keeps c e := by
  refine ⟨second.stack.trans first.stack, second.escaped.trans first.escaped,
    first.fresh.trans second.fresh, ?_⟩
  intro i below
  rw [second.frames i (lt_of_lt_of_le below first.fresh), first.frames i below]

/-- From `d` the machine prints what the result says, and comes to `rest` with everything as in
`c`, or throws from there the exception of the result. -/
def Arrives (c d : Config) (rest : List Item) (result : Result) : Prop :=
  match result.thrown with
  | none => ∃ e, Runs d e ∧ e.control = rest ∧ e.scopes = c.scopes ∧ Keeps c e ∧
      e.out = d.out ++ result.out
  | some excep => ∃ e, Runs d (e.ntyExceptionThrow excep) ∧ Keeps c e ∧
      e.out = d.out ++ result.out ∧ ∃ top, c.stack = some top

/-- Steps before. -/
theorem Arrives.before {c d d' : Config} {rest : List Item} {result : Result}
    {printed : List Event} (run : Runs d d') (out : d'.out = d.out ++ printed)
    (arrives : Arrives c d' rest result) :
    Arrives c d rest (Result.andThen ⟨printed, none⟩ result) := by
  obtain ⟨events, thrown⟩ := result
  cases thrown with
  | none =>
    obtain ⟨e, run', control, scopes, keeps, out'⟩ := arrives
    refine ⟨e, run.trans run', control, scopes, keeps, ?_⟩
    rw [out', out, List.append_assoc]
    rfl
  | some excep =>
    obtain ⟨e, run', keeps, out', top⟩ := arrives
    refine ⟨e, run.trans run', keeps, ?_, top⟩
    rw [out', out, List.append_assoc]
    rfl

/-- Steps before that print nothing. -/
theorem Arrives.silent {c d d' : Config} {rest : List Item} {result : Result}
    (run : Runs d d') (out : d'.out = d.out) (arrives : Arrives c d' rest result) :
    Arrives c d rest result := by
  have whole : Arrives c d rest (Result.andThen ⟨[], none⟩ result) :=
    Arrives.before run (by rw [out, List.append_nil]) arrives
  exact whole

/-- What was kept before is kept. -/
theorem Arrives.weaken {c c' d : Config} {rest : List Item} {result : Result}
    (keeps : Keeps c c') (scopes : c'.scopes = c.scopes) (arrives : Arrives c' d rest result) :
    Arrives c d rest result := by
  obtain ⟨events, thrown⟩ := result
  cases thrown with
  | none =>
    obtain ⟨e, run, control, scopes', keeps', out⟩ := arrives
    exact ⟨e, run, control, scopes'.trans scopes, keeps.trans keeps', out⟩
  | some excep =>
    obtain ⟨e, run, keeps', out, top⟩ := arrives
    rw [keeps.stack] at top
    exact ⟨e, run, keeps.trans keeps', out, top⟩

/-- One execution after the other. -/
theorem Arrives.andThen {c d : Config} {middle rest : List Item} {result next : Result}
    (first : Arrives c d middle result)
    (second : ∀ e, e.control = middle → e.scopes = c.scopes → Keeps c e →
      Arrives c e rest next) : Arrives c d rest (result.andThen next) := by
  obtain ⟨events, thrown⟩ := result
  cases thrown with
  | none =>
    obtain ⟨e, run, control, scopes, keeps, out⟩ := first
    exact Arrives.before run out (second e control scopes keeps)
  | some excep => exact first

/-- A throw without frame prints. -/
theorem throw_none {c : Config} (empty : c.stack = none) (e : Nat) :
    c.ntyExceptionThrow e = { c with out := c.out ++ [.uncaught e] } := by
  simp only [Config.ntyExceptionThrow, empty]

/-- A throw with a frame of the program jumps. -/
theorem throw_some {c : Config} {top : Nat} {control : List Item} {scopes : List Nat}
    (found : c.stack = some top) (env : (c.frames top).env = some (control, scopes)) (e : Nat) :
    c.ntyExceptionThrow e =
      { c with
        control := control
        scopes := scopes
        stack := (c.frames top).prev
        frames := Function.update c.frames top
          { c.frames top with exception := e, flag := .thrown } } := by
  simp only [Config.ntyExceptionThrow, found, env]

/-- A throw in a configuration like `c`. -/
theorem arrives_throw {c d : Config} {rest : List Item} (e : Nat) (keeps : Keeps c d)
    (run : Runs c (d.ntyExceptionThrow e)) (scopes : d.scopes = c.scopes)
    (control : d.control = rest) (out : d.out = c.out) :
    Arrives c c rest (raise c.stack.isSome e) := by
  cases found : c.stack with
  | none =>
    have stack : d.stack = none := keeps.stack.trans found
    rw [throw_none stack] at run
    refine ⟨_, run, control, scopes, ⟨keeps.stack, keeps.escaped, keeps.fresh, keeps.frames⟩, ?_⟩
    show d.out ++ [.uncaught e] = c.out ++ [.uncaught e]
    rw [out]
  | some top =>
    refine ⟨d, run, keeps, ?_, top, found⟩
    rw [out]
    exact (List.append_nil _).symm

/-- The inside of the scope of a `Try` that was entered in `c`, after its frame has left the
stack. -/
structure Inside (c : Config) (flag : Flag) (d : Config) : Prop where
  /-- The frame of the `Try` is the innermost. -/
  scopes : d.scopes = c.fresh :: c.scopes
  /-- The stack is as it was. -/
  stack : d.stack = c.stack
  /-- No jump out of the program. -/
  escaped : d.escaped = c.escaped
  /-- The frame has been allocated. -/
  fresh : c.fresh < d.fresh
  /-- The frames that were there. -/
  frames : ∀ i, i < c.fresh → d.frames i = c.frames i
  /-- The flag. -/
  flag : (d.frames c.fresh).flag = flag
  /-- What the stack was. -/
  entered : (d.frames c.fresh).entered = c.stack

/-- Executions inside of the scope. -/
theorem Inside.keeps {c d e : Config} {flag : Flag} (inside : Inside c flag d)
    (keeps : Keeps d e) (scopes : e.scopes = d.scopes) :
    Inside c flag e ∧ e.frames c.fresh = d.frames c.fresh := by
  have frame := keeps.frames c.fresh inside.fresh
  refine ⟨⟨scopes.trans inside.scopes, keeps.stack.trans inside.stack,
    keeps.escaped.trans inside.escaped, lt_of_lt_of_le inside.fresh keeps.fresh, ?_, ?_, ?_⟩,
    frame⟩
  · intro i below
    rw [keeps.frames i (lt_trans below inside.fresh), inside.frames i below]
  · rw [frame]
    exact inside.flag
  · rw [frame]
    exact inside.entered

/-- Seen from outside of the scope. -/
theorem Inside.outside {c d e : Config} {flag : Flag} (inside : Inside c flag d)
    (keeps : Keeps d e) : Keeps c e := by
  refine ⟨keeps.stack.trans inside.stack, keeps.escaped.trans inside.escaped,
    (le_of_lt inside.fresh).trans keeps.fresh, ?_⟩
  intro i below
  rw [keeps.frames i (lt_trans below inside.fresh), inside.frames i below]

/-- An execution inside of the scope, and what follows it there. -/
theorem Inside.andThen {c d : Config} {flag : Flag} {middle rest : List Item}
    {result next : Result} (inside : Inside c flag d) (first : Arrives d d middle result)
    (second : ∀ e, e.control = middle → Inside c flag e →
      e.frames c.fresh = d.frames c.fresh → Arrives c e rest next) :
    Arrives c d rest (result.andThen next) := by
  obtain ⟨events, thrown⟩ := result
  cases thrown with
  | none =>
    obtain ⟨e, run, control, scopes, keeps, out⟩ := first
    obtain ⟨still, frame⟩ := inside.keeps keeps scopes
    exact Arrives.before run out (second e control still frame)
  | some excep =>
    obtain ⟨e, run, keeps, out, top⟩ := first
    rw [inside.stack] at top
    exact ⟨e, run, inside.outside keeps, out, top⟩

/-- Moving on inside of the scope. -/
theorem Inside.control {c d : Config} {flag : Flag} (inside : Inside c flag d)
    (rest : List Item) : Inside c flag { d with control := rest } :=
  ⟨inside.scopes, inside.stack, inside.escaped, inside.fresh, inside.frames, inside.flag,
    inside.entered⟩

/-- A test inside of the scope reads the frame of the `Try`. -/
theorem Inside.branch {c d : Config} {flag : Flag} (inside : Inside c flag d) {cond : Cond}
    {yes no : Stmt} {rest : List Item} (control : d.control = .stmt (.branch cond yes no) :: rest) :
    Walks d.scopes d { d with
      control := .stmt (if cond.holds (d.frames c.fresh) then yes else no) :: rest } := by
  apply Walks.stmt control rfl rfl
  simp only [Config.exec, inside.scopes, List.head?_cons, Option.map_some]

/-- `setFlag` writes the frame of the `Try`. -/
theorem Inside.setFlag {c d : Config} {flag new : Flag} (inside : Inside c flag d)
    {rest : List Item} (control : d.control = .stmt (.setFlag new) :: rest) :
    ∃ e, d.step = some e ∧ e.control = rest ∧ e.out = d.out ∧ e.fresh = d.fresh ∧
      Inside c new e ∧ (e.frames c.fresh).exception = (d.frames c.fresh).exception := by
  let frame : Frame := { d.frames c.fresh with flag := new }
  refine ⟨{ d with control := rest, frames := Function.update d.frames c.fresh frame }, ?_, rfl,
    rfl, rfl, ⟨inside.scopes, inside.stack, inside.escaped, inside.fresh, ?_, ?_, ?_⟩, ?_⟩
  · simp only [Config.step, control, Config.exec, inside.scopes, List.head?_cons,
      Option.map_some]
    rfl
  · intro i below
    show Function.update d.frames c.fresh frame i = c.frames i
    rw [Function.update_of_ne (by omega)]
    exact inside.frames i below
  · show (Function.update d.frames c.fresh frame c.fresh).flag = new
    rw [Function.update_self]
  · show (Function.update d.frames c.fresh frame c.fresh).entered = c.stack
    rw [Function.update_self]
    exact inside.entered
  · show (Function.update d.frames c.fresh frame c.fresh).exception = _
    rw [Function.update_self]

/-- Inside of the scope the stack is as it has to be. -/
theorem Inside.observed {c d : Config} {flag : Flag} (inside : Inside c flag d) : Observed d := by
  intro rest _
  refine ⟨c.fresh, ?_, ?_⟩
  · rw [inside.scopes]
    rfl
  · rw [inside.stack, inside.entered]

/-- `closing` does nothing unless the body has just ended. -/
theorem Inside.closing {c d : Config} {flag : Flag} (inside : Inside c flag d)
    (other : flag ≠ .entered) {rest : List Item} (control : d.control = .stmt closing :: rest) :
    Walks d.scopes d { d with control := rest } := by
  have test := inside.branch control
  have skipped : (Cond.flagIs .entered).holds (d.frames c.fresh) = false := by
    simp only [Cond.holds, inside.flag, other, decide_false]
  rw [skipped] at test
  exact test.trans (Walks.stmt rfl rfl rfl rfl)

/-- The end of the scope. -/
theorem Inside.leave {c d : Config} {flag : Flag} (inside : Inside c flag d) {rest : List Item}
    (control : d.control = .leave :: rest) : Arrives c d rest ⟨[], none⟩ := by
  refine ⟨{ d with control := rest, scopes := d.scopes.tail }, ?_, rfl, ?_,
    ⟨inside.stack, inside.escaped, le_of_lt inside.fresh, inside.frames⟩, ?_⟩
  · apply Path.single inside.observed
    simp only [Config.step, control]
  · show d.scopes.tail = c.scopes
    rw [inside.scopes]
    rfl
  · exact (List.append_nil _).symm

/-- The end of `EndTry` throws again what nobody handled. -/
theorem Inside.ending {c d : Config} {flag : Flag} (inside : Inside c flag d)
    {rest : List Item} (control : d.control = .stmt ending :: .leave :: rest) :
    Arrives c d rest (if flag = .thrown then
      raise c.stack.isSome (d.frames c.fresh).exception else ⟨[], none⟩) := by
  have test := inside.branch control
  by_cases thrown : flag = .thrown
  · have hit : (Cond.flagIs .thrown).holds (d.frames c.fresh) = true := by
      simp only [Cond.holds, inside.flag, thrown, decide_true]
    rw [hit, if_pos rfl] at test
    rw [if_pos thrown]
    have again : Runs d (Config.ntyExceptionThrow { d with control := .leave :: rest }
        (d.frames c.fresh).exception) := by
      apply test.runs.trans
      apply Runs.stmt rfl Stmt.noConfusion
      simp only [Config.exec, inside.scopes, List.head?_cons, Option.map_some]
    have moved := inside.control (.leave :: rest)
    cases found : c.stack with
    | none =>
      have stack : d.stack = none := inside.stack.trans found
      rw [throw_none (by exact stack)] at again
      have printed : Inside c flag { d with
          control := .leave :: rest
          out := d.out ++ [.uncaught (d.frames c.fresh).exception] } :=
        ⟨moved.scopes, moved.stack, moved.escaped, moved.fresh, moved.frames, moved.flag,
          moved.entered⟩
      exact Arrives.before again rfl (printed.leave rfl)
    | some top =>
      refine ⟨_, again, moved.outside (Keeps.refl _), ?_, top, found⟩
      exact (List.append_nil _).symm
  · have miss : (Cond.flagIs .thrown).holds (d.frames c.fresh) = false := by
      simp only [Cond.holds, inside.flag, thrown, decide_false]
    rw [miss] at test
    rw [if_neg thrown]
    have skip : Walks d.scopes d { d with control := .leave :: rest } :=
      test.trans (Walks.stmt rfl rfl rfl rfl)
    exact Arrives.silent skip.runs rfl ((inside.control _).leave rfl)

/-- The code behind `setjmp`. -/
def resume (body : Prog) (clauses : Clauses) (rest : List Item) : List Item :=
  .stmt (.seq (.branch (.flagIs .entered) (.seq body.expand closing) clauses.expandElse)
    clauses.expandTail) :: .leave :: rest

/-- A configuration in the body of a `Try` that was entered in `c`. -/
structure Body (c : Config) (env : List Item) (d : Config) : Prop where
  /-- The frame of the `Try` is the innermost. -/
  scopes : d.scopes = c.fresh :: c.scopes
  /-- The frame is on the stack. -/
  stack : d.stack = some c.fresh
  /-- No jump out of the program. -/
  escaped : d.escaped = c.escaped
  /-- The frame has been allocated. -/
  fresh : c.fresh < d.fresh
  /-- The frames that were there. -/
  frames : ∀ i, i < c.fresh → d.frames i = c.frames i
  /-- The body was entered. -/
  flag : (d.frames c.fresh).flag = .entered
  /-- What the stack was. -/
  entered : (d.frames c.fresh).entered = c.stack
  /-- The frame below. -/
  prev : (d.frames c.fresh).prev = c.stack
  /-- Where a throw goes. -/
  env : (d.frames c.fresh).env = some (env, c.fresh :: c.scopes)

/-- No program begins with the first statement behind `Finally`. -/
theorem Prog.expand_seq (program : Prog) (second : Stmt) :
    (Stmt.seq program.expand second).isOrdinary = true := by
  cases program <;> rfl

/-- The way into the body: the scope is entered, and then `setjmp` returns 0. -/
theorem attempt_body {c : Config} {body : Prog} {clauses : Clauses} {rest : List Item}
    (control : c.control = .stmt (Prog.attempt body clauses).expand :: rest) :
    ∃ entered d, c.step = some entered ∧ Walks (c.fresh :: c.scopes) entered d ∧
      d.control = .stmt body.expand :: .stmt closing :: .stmt clauses.expandTail ::
        .leave :: rest ∧
      d.out = c.out ∧ d.fresh = c.fresh + 1 ∧ Body c (resume body clauses rest) d := by
  rw [Prog.expand] at control
  let entered : Config := { c with
    control := .stmt (.seq .pushFrame (.seq .setjmp
      (.seq (.branch (.flagIs .entered) (.seq body.expand closing) clauses.expandElse)
        clauses.expandTail))) :: .leave :: rest
    scopes := c.fresh :: c.scopes
    fresh := c.fresh + 1
    frames := Function.update c.frames c.fresh
      { c.frames c.fresh with entered := c.stack } }
  have scope : c.step = some entered := by
    rw [Config.step, control]
    rfl
  have pushes : Walks entered.scopes entered _ := Walks.stmt rfl rfl rfl rfl
  have pushed : Walks entered.scopes entered _ := pushes.trans (Walks.stmt rfl rfl rfl rfl)
  have jumps : Walks entered.scopes entered _ := pushed.trans (Walks.stmt rfl rfl rfl rfl)
  have saved : Walks entered.scopes entered _ := jumps.trans (Walks.stmt rfl rfl rfl rfl)
  have tests : Walks entered.scopes entered _ := saved.trans (Walks.stmt rfl rfl rfl rfl)
  have tested : Walks entered.scopes entered _ := tests.trans (Walks.stmt rfl rfl rfl rfl)
  have chosen := tested
  simp only [entered, Function.update_idem, Function.update_self, Cond.holds, decide_true, if_true]
    at chosen
  have done := chosen.trans (Walks.stmt rfl (body.expand_seq closing) rfl rfl)
  refine ⟨entered, _, scope, done, rfl, rfl, rfl,
    ⟨rfl, rfl, rfl, Nat.lt_succ_self _, ?_, ?_, ?_, ?_, ?_⟩⟩
  · intro i below
    exact Function.update_of_ne (by omega) ..
  · simp only [Function.update_self]
  · simp only [Function.update_self]
  · simp only [Function.update_self]
  · simp only [Function.update_self]
    rfl

/-- Two statements in order. -/
theorem Inside.opens {c d : Config} {flag : Flag} (inside : Inside c flag d)
    {first second : Stmt} {rest : List Item}
    (control : d.control = .stmt (.seq first second) :: rest) :
    ∃ e, d.step = some e ∧ e.control = .stmt first :: .stmt second :: rest ∧ e.out = d.out ∧
      e.fresh = d.fresh ∧ Inside c flag e ∧ e.frames = d.frames := by
  refine ⟨{ d with control := .stmt first :: .stmt second :: rest }, ?_, rfl, rfl, rfl,
    inside.control _, rfl⟩
  rw [Config.step, control]
  rfl

/-- `Finally` marks that the body has ended. -/
theorem Inside.marks {c d : Config} {flag : Flag} (inside : Inside c flag d)
    {rest : List Item} (control : d.control =
      .stmt (.branch (.flagIs .entered) (.setFlag .finalized) .skip) :: rest) :
    ∃ flag' e, Walks d.scopes d e ∧ e.control = rest ∧ e.out = d.out ∧ e.fresh = d.fresh ∧
      Inside c flag' e ∧ flag' ≠ .entered ∧ (flag' = .thrown ↔ flag = .thrown) ∧
      (e.frames c.fresh).exception = (d.frames c.fresh).exception := by
  have test := inside.branch control
  simp only [Cond.holds, inside.flag, decide_eq_true_eq] at test
  by_cases entered : flag = .entered
  · rw [if_pos entered] at test
    obtain ⟨e, step, control', out, fresh, inside', exception⟩ := (inside.control _).setFlag rfl
    have set : Walks d.scopes { d with control := .stmt (.setFlag .finalized) :: rest } e :=
      Path.single ⟨rfl, _, _, rfl, rfl⟩ step
    refine ⟨.finalized, e, test.trans set, control', out, fresh, inside', Flag.noConfusion, ?_,
      exception⟩
    simp [entered]
  · rw [if_neg entered] at test
    have skip : Walks d.scopes d { d with control := rest } :=
      test.trans (Walks.stmt rfl rfl rfl rfl)
    exact ⟨flag, _, skip, rfl, rfl, rfl, inside.control rest, entered, Iff.rfl, rfl⟩

/-- The end of the body takes the frame off the stack. -/
theorem Body.closes {c d e : Config} {env rest : List Item} (inBody : Body c env d)
    (keeps : Keeps d e) (scopes : e.scopes = d.scopes)
    (control : e.control = .stmt closing :: rest) :
    ∃ e', Walks e.scopes e e' ∧ e'.control = rest ∧ e'.out = e.out ∧ e'.fresh = e.fresh ∧
      Inside c .entered e' := by
  have frame := keeps.frames c.fresh inBody.fresh
  have scopes' := scopes.trans inBody.scopes
  have hit : (Cond.flagIs .entered).holds (e.frames c.fresh) = true := by
    simp only [Cond.holds, frame, inBody.flag, decide_true]
  have test : Walks e.scopes e { e with control := .stmt .popStack :: rest } := by
    apply Walks.stmt control rfl rfl
    simp only [closing, Config.exec, scopes', List.head?_cons, Option.map_some, hit, if_true]
  have pop : Walks e.scopes { e with control := .stmt .popStack :: rest }
      { e with control := rest, stack := c.stack } := by
    refine Walks.stmt rfl rfl rfl ?_
    simp only [Config.exec, keeps.stack, inBody.stack, Option.map_some, frame, inBody.prev]
  refine ⟨_, test.trans pop, rfl, rfl, rfl, ⟨scopes', rfl, keeps.escaped.trans inBody.escaped,
    lt_of_lt_of_le inBody.fresh keeps.fresh, ?_, ?_, ?_⟩⟩
  · intro i below
    exact (keeps.frames i (lt_trans below inBody.fresh)).trans (inBody.frames i below)
  · show (e.frames c.fresh).flag = .entered
    rw [frame, inBody.flag]
  · show (e.frames c.fresh).entered = c.stack
    rw [frame, inBody.entered]

/-- A throw that leaves the body goes to the code behind `setjmp`, without the frame. -/
theorem Body.throws {c d e : Config} {env : List Item} (inBody : Body c env d)
    (keeps : Keeps d e) (excep : Nat) :
    (e.ntyExceptionThrow excep).control = env ∧ (e.ntyExceptionThrow excep).out = e.out ∧
      Inside c .thrown (e.ntyExceptionThrow excep) ∧
      ((e.ntyExceptionThrow excep).frames c.fresh).exception = excep := by
  have frame := keeps.frames c.fresh inBody.fresh
  have env' : (e.frames c.fresh).env = some (env, c.fresh :: c.scopes) := by
    rw [frame, inBody.env]
  rw [throw_some (keeps.stack.trans inBody.stack) env' excep]
  refine ⟨rfl, rfl, ⟨rfl, ?_, keeps.escaped.trans inBody.escaped,
    lt_of_lt_of_le inBody.fresh keeps.fresh, ?_, ?_, ?_⟩, ?_⟩
  · show (e.frames c.fresh).prev = c.stack
    rw [frame, inBody.prev]
  · intro i below
    show Function.update e.frames c.fresh _ i = c.frames i
    rw [Function.update_of_ne (by omega), keeps.frames i (lt_trans below inBody.fresh),
      inBody.frames i below]
  · simp only [Function.update_self]
  · simp only [Function.update_self, frame, inBody.entered]
  · simp only [Function.update_self]

/-- Behind `setjmp`, after a throw, the clauses are tried. -/
theorem resume_else {c d : Config} {body : Prog} {clauses : Clauses} {rest : List Item}
    (inside : Inside c .thrown d) (control : d.control = resume body clauses rest) :
    Walks d.scopes d { d with
      control := .stmt clauses.expandElse :: .stmt clauses.expandTail :: .leave :: rest } := by
  have split : Walks d.scopes d _ := Walks.stmt control rfl rfl rfl
  have miss : (Cond.flagIs .entered).holds (d.frames c.fresh) = false := by
    simp only [Cond.holds, inside.flag]
    decide
  have test := (inside.control (.stmt (.branch (.flagIs .entered) (.seq body.expand closing)
    clauses.expandElse) :: .stmt clauses.expandTail :: .leave :: rest)).branch rfl
  simp only [miss, Bool.false_eq_true, if_false] at test
  exact split.trans test

mutual

/-- The machine executes the expansion of a program as the program means. -/
theorem Prog.arrives (program : Prog) (c : Config) (rest : List Item)
    (control : c.control = .stmt program.expand :: rest) :
    Arrives c c rest (program.meaning c.stack.isSome) := by
  match program with
  | .skip =>
    rw [Prog.expand] at control
    refine ⟨_, Runs.stmt control Stmt.noConfusion rfl, rfl, rfl, ?_, ?_⟩
    · exact ⟨rfl, rfl, le_rfl, fun _ _ => rfl⟩
    · exact (List.append_nil _).symm
  | .output value =>
    rw [Prog.expand] at control
    refine ⟨_, Runs.stmt control Stmt.noConfusion rfl, rfl, rfl, ?_, rfl⟩
    exact ⟨rfl, rfl, le_rfl, fun _ _ => rfl⟩
  | .throw e =>
    rw [Prog.expand] at control
    have run : Runs c (Config.ntyExceptionThrow { c with control := rest } e) :=
      Runs.stmt control Stmt.noConfusion rfl
    have keeps : Keeps c { c with control := rest } := ⟨rfl, rfl, le_rfl, fun _ _ => rfl⟩
    rw [Prog.meaning]
    exact arrives_throw e keeps run rfl rfl rfl
  | .seq first second =>
    rw [Prog.expand] at control
    have split : Runs c { c with
        control := .stmt first.expand :: .stmt second.expand :: rest } :=
      Runs.stmt control Stmt.noConfusion rfl
    rw [Prog.meaning]
    apply Arrives.silent split rfl
    have begins := first.arrives { c with
      control := .stmt first.expand :: .stmt second.expand :: rest } _ rfl
    have keeps : Keeps c { c with
        control := .stmt first.expand :: .stmt second.expand :: rest } :=
      ⟨rfl, rfl, le_rfl, fun _ _ => rfl⟩
    apply (begins.weaken keeps rfl).andThen
    intro e control' scopes keeps'
    have ends := second.arrives e rest control'
    rw [keeps'.stack] at ends
    exact ends.weaken keeps' scopes
  | .attempt body clauses =>
    obtain ⟨entered, d, scope, walk, control', out, _, inBody⟩ := attempt_body control
    have outside : Observed c := by
      intro rest' observed
      rw [control, Prog.expand] at observed
      rcases observed with same | same
      · cases same
      · cases same
    have enter : Runs c d := (Path.single outside scope).trans walk.runs
    have active : d.stack.isSome = true := by
      rw [inBody.stack]
      rfl
    have runs := body.arrives d _ control'
    rw [active] at runs
    apply Arrives.silent enter out
    rw [Prog.meaning]
    cases thrown : (body.meaning true).thrown with
    | none =>
      simp only [Arrives, thrown] at runs
      obtain ⟨e, run, control'', scopes, keeps, out'⟩ := runs
      obtain ⟨e', close, control₃, out'', _, inside⟩ := inBody.closes keeps scopes control''
      have tail := clauses.concluded c e' rest .entered inside control₃
      rw [if_neg Flag.noConfusion] at tail
      rw [Result.andThen_nil] at tail
      show Arrives c d rest ((body.meaning true).andThen (clauses.conclude c.stack.isSome))
      rw [Result.andThen_of_none thrown]
      exact Arrives.before (run.trans close.runs) (out''.trans out') tail
    | some excep =>
      simp only [Arrives, thrown] at runs
      obtain ⟨e, run, keeps, out', _⟩ := runs
      obtain ⟨control'', out'', inside, exception⟩ := inBody.throws keeps excep
      apply Arrives.before run (by rw [out'', out'])
      apply Arrives.silent (resume_else inside control'').runs rfl
      have moved := inside.control
        (.stmt clauses.expandElse :: .stmt clauses.expandTail :: .leave :: rest)
      have search := clauses.handled c _ (.stmt clauses.expandTail :: .leave :: rest) rest excep
        (clauses.conclude c.stack.isSome) moved exception rfl
        (fun e control inside => by
          have tail := clauses.concluded c e rest .handled inside control
          rw [if_neg Flag.noConfusion, Result.andThen_nil] at tail
          exact tail)
      cases found : clauses.handle c.stack.isSome excep with
      | none =>
        rw [found] at search
        apply Arrives.silent search rfl
        have tail := clauses.concluded c _ rest .thrown (moved.control _) rfl
        rw [if_pos rfl, show (Config.frames _ c.fresh).exception = excep from exception] at tail
        exact tail
      | some result =>
        rw [found] at search
        exact search

/-- The `else` branches execute the first clause that names the exception. -/
theorem Clauses.handled (clauses : Clauses) (c d : Config) (middle rest : List Item)
    (excep : Nat) (next : Result) (inside : Inside c .thrown d)
    (exception : (d.frames c.fresh).exception = excep)
    (control : d.control = .stmt clauses.expandElse :: middle)
    (continues : ∀ e, e.control = middle → Inside c .handled e → Arrives c e rest next) :
    match clauses.handle c.stack.isSome excep with
    | none => Runs d { d with control := middle }
    | some result => Arrives c d rest (result.andThen next) := by
  match clauses with
  | .endTry => exact Runs.stmt control Stmt.noConfusion rfl
  | .final block => exact Runs.stmt control Stmt.noConfusion rfl
  | .handler e block others =>
    rw [Clauses.expandElse] at control
    have test := inside.branch control
    simp only [Cond.holds, exception, decide_eq_true_eq] at test
    by_cases same : excep = e
    · rw [if_pos same] at test
      simp only [Clauses.handle, if_pos same]
      obtain ⟨d₁, split, control₁, out₁, _, inside₁, _⟩ := (inside.control _).opens rfl
      obtain ⟨d₂, flagged, control₂, out₂, _, inside₂, _⟩ := inside₁.setFlag control₁
      obtain ⟨d₃, opened, control₃, out₃, _, inside₃, _⟩ := inside₂.opens control₂
      have way : Runs d d₃ := test.runs.trans ((Path.single (inside.control _).observed split).trans
        ((Path.single inside₁.observed flagged).trans (Path.single inside₂.observed opened)))
      apply Arrives.silent way (out₃.trans (out₂.trans out₁))
      have runs := block.arrives d₃ _ control₃
      rw [inside₃.stack] at runs
      apply inside₃.andThen runs
      intro e' control' inside' _
      apply Arrives.silent (inside'.closing Flag.noConfusion control').runs rfl
      exact continues _ rfl (inside'.control middle)
    · rw [if_neg same] at test
      have search := others.handled c { d with control := .stmt others.expandElse :: middle }
        middle rest excep next (inside.control _) exception rfl continues
      simp only [Clauses.handle, if_neg same]
      cases found : others.handle c.stack.isSome excep with
      | none =>
        simp only [found] at search ⊢
        exact test.runs.trans search
      | some result =>
        simp only [found] at search ⊢
        exact Arrives.silent test.runs rfl search

/-- The rest of the scope executes the block of `Finally` and throws again what nobody
handled. -/
theorem Clauses.concluded (clauses : Clauses) (c d : Config) (rest : List Item) (flag : Flag)
    (inside : Inside c flag d)
    (control : d.control = .stmt clauses.expandTail :: .leave :: rest) :
    Arrives c d rest ((clauses.conclude c.stack.isSome).andThen
      (if flag = .thrown then raise c.stack.isSome (d.frames c.fresh).exception
        else ⟨[], none⟩)) := by
  match clauses with
  | .endTry =>
    have last := inside.ending control
    rw [Clauses.conclude, Result.nil_andThen]
    exact last
  | .final block =>
    rw [Clauses.expandTail] at control
    obtain ⟨d₁, split, control₁, out₁, _, inside₁, frame₁⟩ := inside.opens control
    obtain ⟨d₂, split', control₂, out₂, _, inside₂, frame₂⟩ := inside₁.opens control₁
    obtain ⟨flag', d₃, marked, control₃, out₃, _, inside₃, done, kind, exception⟩ :=
      inside₂.marks control₂
    obtain ⟨d₄, opened, control₄, out₄, _, inside₄, frame₄⟩ := inside₃.opens control₃
    have way : Runs d d₄ := (((Path.single inside.observed split).trans
      (Path.single inside₁.observed split')).trans marked.runs).trans
      (Path.single inside₃.observed opened)
    apply Arrives.silent way (by rw [out₄, out₃, out₂, out₁])
    have runs := block.arrives d₄ _ control₄
    rw [inside₄.stack] at runs
    apply inside₄.andThen runs
    intro e control' inside' frame'
    apply Arrives.silent (inside'.closing done control').runs rfl
    have last := (inside'.control (.stmt ending :: .leave :: rest)).ending rfl
    have same : (e.frames c.fresh).exception = (d.frames c.fresh).exception := by
      rw [frame', frame₄, exception, frame₂, frame₁]
    simp only [kind, same] at last
    exact last
  | .handler e block others =>
    exact others.concluded c d rest flag inside control

end

/-- An exception that leaves a program goes to the frame that was on top, and the machine stops. -/
theorem throw_initial {program : Prog} {depth : Nat} {memory : Nat → Frame} {d : Config}
    (keeps : Keeps (Config.initial program depth memory) d) {top : Nat}
    (found : (Config.initial program depth memory).stack = some top) (e : Nat) :
    0 < depth ∧ (d.frames (depth - 1)).prev = (if depth - 1 = 0 then none else some (depth - 2)) ∧
      d.ntyExceptionThrow e = { d with
        control := []
        scopes := []
        stack := (d.frames (depth - 1)).prev
        frames := Function.update d.frames (depth - 1)
          { d.frames (depth - 1) with exception := e }
        escaped := some (depth - 1) } := by
  have positive : 0 < depth := by
    by_contra empty
    have zero : depth = 0 := by omega
    simp [Config.initial, zero] at found
  have stack : d.stack = some (depth - 1) := by
    rw [keeps.stack]
    simp [Config.initial, Nat.ne_of_gt positive]
  have frame := keeps.frames (depth - 1) (show depth - 1 < depth by omega)
  have outer : d.frames (depth - 1) = { memory (depth - 1) with
      prev := if depth - 1 = 0 then none else some (depth - 2), env := none } := by
    rw [frame]
    simp only [Config.initial, show depth - 1 < depth by omega, if_true]
    rfl
  have env : (d.frames (depth - 1)).env = none := by rw [outer]
  refine ⟨positive, by rw [outer], ?_⟩
  simp only [Config.ntyExceptionThrow, stack, env]

/-- The machine executes the expansion of every program, from every exception stack: at all
times the stack is as it has to be, and the machine stops, having printed what the program
means; when an exception leaves the program it is with the frame that was on top. -/
theorem run_structured (program : Prog) (depth : Nat) (memory : Nat → Frame) :
    (∀ n d, afterSteps Config.step n (Config.initial program depth memory) = some d →
      Observed d) ∧
    ∃ n d, afterSteps Config.step n (Config.initial program depth memory) = some d ∧
      d.step = none ∧ d.out = (program.meaning (0 < depth)).out ∧
      match (program.meaning (0 < depth)).thrown with
      | none => d.escaped = none ∧ d.stack = (Config.initial program depth memory).stack
      | some e => 0 < depth ∧ d.escaped = some (depth - 1) ∧
          (d.frames (depth - 1)).exception = e ∧
          d.stack = if depth - 1 = 0 then none else some (depth - 2) := by
  have arrives := program.arrives (Config.initial program depth memory) [] rfl
  have active : (Config.initial program depth memory).stack.isSome = decide (0 < depth) := by
    by_cases empty : depth = 0
    · simp [Config.initial, empty]
    · have positive : 0 < depth := Nat.pos_of_ne_zero empty
      simp [Config.initial, empty, positive]
  rw [active] at arrives
  have stopped : ∀ d : Config, d.control = [] → Observed d ∧ d.step = none := by
    intro d control
    refine ⟨?_, ?_⟩
    · intro rest observed
      rw [control] at observed
      simp at observed
    · simp only [Config.step, control]
  cases thrown : (program.meaning (0 < depth)).thrown with
  | none =>
    simp only [Arrives, thrown] at arrives
    obtain ⟨d, run, control, _, keeps, out⟩ := arrives
    obtain ⟨observed, stops⟩ := stopped d control
    obtain ⟨n, reached⟩ := run.reached
    exact ⟨run.all observed stops, n, d, reached, stops, out, keeps.escaped, keeps.stack⟩
  | some e =>
    simp only [Arrives, thrown] at arrives
    obtain ⟨d, run, keeps, out, top, found⟩ := arrives
    obtain ⟨positive, prev, jumps⟩ := throw_initial keeps found e
    rw [jumps] at run
    obtain ⟨n, reached⟩ := run.reached
    refine ⟨run.all (stopped _ rfl).1 (stopped _ rfl).2, n, _, reached, (stopped _ rfl).2, out,
      positive, rfl, ?_, prev⟩
    simp only [Function.update_self]

end BackendCpp.Trycatch
