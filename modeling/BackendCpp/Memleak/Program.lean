import Mathlib.Tactic

/-!
# The leak tracer

The hooked `malloc` and `free` of memleak.cpp, with the files under `./mem` and the blocks of the
allocator behind them. The allocator is asked through `malloc_f` and `free_f`: it answers with the
null pointer or with a block that it has not given out, and to take back a block that it has not
given out is undefined (`none`). What libc itself allocates inside the hooks is left out.
-/

namespace BackendCpp.Memleak

/-- What is written into a file: the caller, the address and the size. -/
structure Record where
  /-- Who called `malloc`. -/
  caller : Nat
  /-- What it returned. -/
  addr : Nat
  /-- What it was asked for. -/
  size : Nat
  deriving DecidableEq

/-- The flags, the files by the pointer in their name, the blocks given out, and what was
printed. -/
structure Tracer where
  /-- `enable_malloc_hook`. -/
  enableMallocHook : Int
  /-- `enable_free_hook`. -/
  enableFreeHook : Int
  /-- The files, by the pointer in their name. -/
  mem : Nat → Option Record
  /-- The blocks that the allocator has given out. -/
  heap : Finset Nat
  /-- What was printed. -/
  printed : List String

/-- The program after `init_hook`. -/
def Tracer.initial : Tracer where
  enableMallocHook := 1
  enableFreeHook := 1
  mem := fun _ => none
  heap := ∅
  printed := []

/-- `malloc_f` when it answers with `ptr`. -/
def mallocF (ptr : Nat) (t : Tracer) : Tracer :=
  if ptr = 0 then t else { t with heap := insert ptr t.heap }

/-- `free_f`. -/
def freeF (ptr : Nat) (t : Tracer) : Option Tracer :=
  if ptr = 0 then some t
  else if ptr ∈ t.heap then some { t with heap := t.heap.erase ptr }
  else none

/-- `malloc`, called from `caller`, when `malloc_f` answers with `ptr`. -/
def malloc (size caller ptr : Nat) (t : Tracer) : Nat × Tracer :=
  if t.enableMallocHook ≠ 0 then
    let t := { t with enableMallocHook := 0, printed := t.printed ++ ["malloc \n"] }
    let t := mallocF ptr t
    let t := { t with mem := Function.update t.mem ptr (some ⟨caller, ptr, size⟩) }
    (ptr, { t with enableMallocHook := 1 })
  else
    (ptr, mallocF ptr t)

/-- `free`. -/
def free (ptr : Nat) (t : Tracer) : Option Tracer :=
  if t.enableFreeHook ≠ 0 then
    let t := { t with enableFreeHook := 0 }
    match t.mem ptr with
    | none => some { t with printed := t.printed ++ ["too much free\n"] }
    | some _ =>
      let t := { t with mem := Function.update t.mem ptr none }
      (freeF ptr t).map fun t => { t with enableFreeHook := 1 }
  else freeF ptr t

/-- A call of the traced program. -/
inductive Call
  /-- `malloc`, with what it returned. -/
  | malloc (size caller answer : Nat)
  /-- `free`. -/
  | free (ptr : Nat)
  deriving DecidableEq

/-- A call, by what the tracer and the allocator do. -/
inductive Step : Tracer → Call → Tracer → Prop
  | malloc {t t' : Tracer} {size caller ptr answer : Nat} (given : ptr = 0 ∨ ptr ∉ t.heap)
      (returned : Memleak.malloc size caller ptr t = (answer, t')) :
      Step t (.malloc size caller answer) t'
  | free {t t' : Tracer} {ptr : Nat} (returned : Memleak.free ptr t = some t') :
      Step t (.free ptr) t'

/-- The pointers after a call that were returned by `malloc` and not yet freed. -/
def liveAfter (live : Finset Nat) : Call → Finset Nat
  | .malloc _ _ answer => insert answer live
  | .free ptr => live.erase ptr

/-- The pointers that were returned by `malloc` and not yet freed. -/
def live (history : List Call) : Finset Nat :=
  history.foldl liveAfter ∅

end BackendCpp.Memleak
