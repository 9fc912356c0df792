import BackendCpp.Library.Machine

/-!
# The program of trycatch_finally.c

The macros `Try`, `Catch`, `Finally` and `EndTry` of
`7.高性能组件/1.原子操作/trycatch_finally.c` expand to nested C statements. Here the
expansion is a statement of a small language with `setjmp` and `longjmp`, and a machine
executes it: `setjmp` saves what is left to execute, and `longjmp` takes that up again. An
exception is the address of its record, and a frame the number of its allocation.
-/

namespace BackendCpp.Trycatch

/-- The values of `Exception_flag`. -/
inductive Flag
  /-- `ExceptionEntered`. -/
  | entered
  /-- `ExceptionThrown`. -/
  | thrown
  /-- `ExceptionHandled`. -/
  | handled
  /-- `ExceptionFinalized`. -/
  | finalized
  deriving DecidableEq

/-- The conditions that the macros test. -/
inductive Cond
  | flagIs (flag : Flag)
  | exceptionIs (e : Nat)

/-- The statements that the macros expand to. `scope` is `do { ... } while (0)` with the
declarations of `Exception_flag` and `frame`. -/
inductive Stmt
  | skip
  | seq (first second : Stmt)
  | output (value : Nat)
  | throw (e : Nat)
  | reThrow
  | popStack
  | setFlag (flag : Flag)
  | branch (cond : Cond) (yes no : Stmt)
  | scope (body : Stmt)
  | pushFrame
  | setjmp

/-- What is left to execute: a statement, or the end of a scope. -/
inductive Item
  | stmt (statement : Stmt)
  | leave

/-- `ntyExceptionFrame`, with the flag that is declared beside it. -/
structure Frame where
  /-- The frame below. -/
  prev : Option Nat
  /-- The exception. -/
  exception : Nat
  /-- Where `longjmp` goes on, with the scopes there; `none` outside of the program. -/
  env : Option (List Item × List Nat)
  /-- `Exception_flag`. -/
  flag : Flag
  /-- What `ExceptionStack` was when the scope was entered. -/
  entered : Option Nat

/-- What is printed: by an output action, or by a throw without a frame. -/
inductive Event
  | output (value : Nat)
  | uncaught (e : Nat)
  deriving DecidableEq

/-- The state of one thread. -/
structure Config where
  /-- What is left to execute. -/
  control : List Item
  /-- The frames of the scopes, innermost first. -/
  scopes : List Nat
  /-- The frames. -/
  frames : Nat → Frame
  /-- The next frame. -/
  fresh : Nat
  /-- `ExceptionStack`. -/
  stack : Option Nat
  /-- What was printed. -/
  out : List Event
  /-- The frame outside of the program that `longjmp` went to. -/
  escaped : Option Nat

/-- Whether a condition holds. -/
def Cond.holds (frame : Frame) : Cond → Bool
  | .flagIs flag => frame.flag = flag
  | .exceptionIs e => frame.exception = e

/-- `ntyExceptionThrow`. -/
def Config.ntyExceptionThrow (c : Config) (excep : Nat) : Config :=
  match c.stack with
  | none => { c with out := c.out ++ [.uncaught excep] }
  | some top =>
    match (c.frames top).env with
    | some (control, scopes) =>
      { c with
        control := control
        scopes := scopes
        stack := (c.frames top).prev
        frames := Function.update c.frames top
          { c.frames top with exception := excep, flag := .thrown } }
    | none =>
      { c with
        control := []
        scopes := []
        stack := (c.frames top).prev
        frames := Function.update c.frames top { c.frames top with exception := excep }
        escaped := some top }

/-- Execute a statement; the control is what is left after it. -/
def Config.exec (c : Config) : Stmt → Option Config
  | .skip => some c
  | .seq first second =>
    some { c with control := .stmt first :: .stmt second :: c.control }
  | .output value => some { c with out := c.out ++ [.output value] }
  | .throw e => some (c.ntyExceptionThrow e)
  | .reThrow =>
    c.scopes.head?.map fun id => c.ntyExceptionThrow (c.frames id).exception
  | .popStack => c.stack.map fun top => { c with stack := (c.frames top).prev }
  | .setFlag flag =>
    c.scopes.head?.map fun id =>
      { c with frames := Function.update c.frames id { c.frames id with flag := flag } }
  | .branch cond yes no =>
    c.scopes.head?.map fun id =>
      { c with control := .stmt (if cond.holds (c.frames id) then yes else no) :: c.control }
  | .scope body =>
    some { c with
      control := .stmt body :: .leave :: c.control
      scopes := c.fresh :: c.scopes
      fresh := c.fresh + 1
      frames := Function.update c.frames c.fresh
        { c.frames c.fresh with entered := c.stack } }
  | .pushFrame =>
    c.scopes.head?.map fun id =>
      { c with
        frames := Function.update c.frames id { c.frames id with prev := c.stack }
        stack := some id }
  | .setjmp =>
    c.scopes.head?.map fun id =>
      { c with
        frames := Function.update c.frames id
          { c.frames id with env := some (c.control, c.scopes), flag := .entered } }

/-- A step of the machine. -/
def Config.step (c : Config) : Option Config :=
  match c.control with
  | [] => none
  | .leave :: rest => some { c with control := rest, scopes := c.scopes.tail }
  | .stmt statement :: rest => Config.exec { c with control := rest } statement

mutual

/-- Programs with structured exceptions. -/
inductive Prog
  | skip
  | seq (first second : Prog)
  | output (value : Nat)
  | throw (e : Nat)
  | attempt (body : Prog) (clauses : Clauses)

/-- What follows the body of a `Try`: `Catch` clauses, `Finally` or not, `EndTry`. -/
inductive Clauses
  | endTry
  | final (block : Prog)
  | handler (e : Nat) (block : Prog) (rest : Clauses)

end

/-- How `Catch`, `Finally` and `EndTry` begin. -/
def closing : Stmt := .branch (.flagIs .entered) .popStack .skip

/-- How `EndTry` ends. -/
def ending : Stmt := .branch (.flagIs .thrown) .reThrow .skip

mutual

/-- The expansion of a program. -/
def Prog.expand : Prog → Stmt
  | .skip => .skip
  | .seq first second => .seq first.expand second.expand
  | .output value => .output value
  | .throw e => .throw e
  | .attempt body clauses =>
    .scope (.seq .pushFrame (.seq .setjmp
      (.seq (.branch (.flagIs .entered) (.seq body.expand closing) clauses.expandElse)
        clauses.expandTail)))

/-- The `else` branches that the `Catch` clauses open. -/
def Clauses.expandElse : Clauses → Stmt
  | .endTry => .skip
  | .final _ => .skip
  | .handler e block rest =>
    .branch (.exceptionIs e) (.seq (.setFlag .handled) (.seq block.expand closing))
      rest.expandElse

/-- The block of `Finally`, and the end. -/
def Clauses.expandTail : Clauses → Stmt
  | .endTry => ending
  | .final block =>
    .seq (.seq (.branch (.flagIs .entered) (.setFlag .finalized) .skip)
      (.seq block.expand closing)) ending
  | .handler _ _ rest => rest.expandTail

end

/-- A thread before a program, with a stack of frames of its surroundings. -/
def Config.initial (program : Prog) (depth : Nat) (memory : Nat → Frame) : Config where
  control := [.stmt program.expand]
  scopes := []
  frames i := if i < depth then
      { memory i with prev := if i = 0 then none else some (i - 1), env := none }
    else memory i
  fresh := depth
  stack := if depth = 0 then none else some (depth - 1)
  out := []
  escaped := none

end BackendCpp.Trycatch
