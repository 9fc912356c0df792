import BackendCpp.Library.Loop

/-!
# The timer of mh-timer.h over minheap.c

Entries are numbered by their allocation; a freed entry is looked up in vain. The array
`p` has `a` allocated slots, and an access outside them is undefined (`none`), as is one to
an entry that has been freed. Indices are `unsigned`, so the index arithmetic is written
with its remainder by `2 ^ 32`; times are the wrapping milliseconds of `current_time`.
Whether `malloc` and `realloc` succeed is an input.
-/

namespace BackendCpp.Minheap

open BackendCpp.Library

/-- The values of an `unsigned`. -/
def word : Nat := 4294967296

/-- The `min_heap_idx` of an entry that is in no heap: `-1` as an `unsigned`. -/
def noIndex : Nat := word - 1

/-- `timer_entry_t`. The handler is not a value here: what it does is a part of the run. -/
structure TimerEntry where
  /-- The deadline in milliseconds. -/
  time : UInt32
  /-- The slot of the entry. -/
  minHeapIdx : Nat
  deriving DecidableEq

/-- The allocated entries and the heap. -/
structure Timers where
  /-- The entries that are allocated. -/
  entries : Nat → Option TimerEntry
  /-- The number of the next entry. -/
  fresh : Nat
  /-- The slots of the heap. -/
  p : Nat → Nat
  /-- The number of entries in the heap. -/
  n : Nat
  /-- The number of allocated slots. -/
  a : Nat

namespace Timers

/-- `s->p[index]`. -/
def slot (s : Timers) (index : Nat) : Option Nat :=
  if index < s.a then some (s.p index) else none

/-- `e->time`. -/
def time (s : Timers) (e : Nat) : Option UInt32 := (s.entries e).map TimerEntry.time

/-- `min_heap_elem_greater(x, y)`. -/
def elemGreater (s : Timers) (x y : Nat) : Option Bool := do
  let left ← s.time x
  let right ← s.time y
  return decide (left > right)

/-- `(s->p[index] = e)->min_heap_idx = index`. -/
def put (s : Timers) (index e : Nat) : Option Timers :=
  if index < s.a then
    (s.entries e).map fun entry =>
      { s with
        p := Function.update s.p index e
        entries := Function.update s.entries e (some { entry with minHeapIdx := index }) }
  else none

/-- `entry` at `e` leaves the heap. -/
def detached (s : Timers) (e : Nat) (entry : TimerEntry) : Timers :=
  { s with entries := Function.update s.entries e (some { entry with minHeapIdx := noIndex }) }

/-- `e->min_heap_idx = -1`. -/
def detach (s : Timers) (e : Nat) : Option Timers := (s.entries e).map (s.detached e)

/-- `free(e)`. -/
def free (s : Timers) (e : Nat) : Timers :=
  { s with entries := Function.update s.entries e none }

/-- `e->time = time`. -/
def setTime (s : Timers) (e : Nat) (time : UInt32) : Option Timers :=
  (s.entries e).map fun entry =>
    { s with entries := Function.update s.entries e (some { entry with time := time }) }

end Timers

/-- `index - 1` on an `unsigned`. -/
def pred (index : Nat) : Nat := if index = 0 then word - 1 else index - 1

/-- `(hole_index - 1) / 2`. -/
def parentIndex (hole : Nat) : Nat := pred hole / 2

/-- `2 * (hole_index + 1)`. -/
def childIndex (hole : Nat) : Nat := 2 * (hole + 1) % word

/-- `init_timer`: the slots hold what they happen to hold. -/
def minHeapCtor (rest : Nat → Nat) : Timers := ⟨fun _ => none, 0, rest, 0, 0⟩

/-- A new entry due at `time`, after `min_heap_elem_init_`. -/
def minHeapElemInit (s : Timers) (time : UInt32) : Timers :=
  { s with
    entries := Function.update s.entries s.fresh (some ⟨time, noIndex⟩)
    fresh := s.fresh + 1 }

/-- `min_heap_top_`; the answer may be `NULL`. -/
def minHeapTop (s : Timers) : Option (Option Nat) :=
  if s.n ≠ 0 then (s.slot 0).map some else some none

/-- One pass of the loop of `min_heap_shift_up_`, and what follows it. -/
def shiftUpPass (e : Nat) (state : Timers × Nat) : Option ((Timers × Nat) ⊕ Timers) := do
  let s := state.1
  let hole := state.2
  if hole = 0 then
    return .inr (← s.put hole e)
  let above ← s.slot (parentIndex hole)
  if ← s.elemGreater above e then
    return .inl (← s.put hole above, parentIndex hole)
  else
    return .inr (← s.put hole e)

/-- `min_heap_shift_up_`. -/
def minHeapShiftUp (fuel : Nat) (s : Timers) (hole e : Nat) : Option (Option Timers) :=
  loop (attempt (shiftUpPass e)) fuel (s, hole)

/-- `min_heap_shift_up_unconditional_`: a first pass without the test. -/
def minHeapShiftUpUnconditional (fuel : Nat) (s : Timers) (hole e : Nat) :
    Option (Option Timers) :=
  match (s.slot (parentIndex hole)).bind (s.put hole) with
  | none => some none
  | some moved => minHeapShiftUp fuel moved (parentIndex hole) e

/-- The child that the loop of `min_heap_shift_down_` compares with. -/
def lesserChild (s : Timers) (minChild : Nat) : Option Nat := do
  if minChild = s.n then
    return pred minChild
  let right ← s.slot minChild
  let left ← s.slot (pred minChild)
  return if ← s.elemGreater right left then pred minChild else minChild

/-- One pass of the loop of `min_heap_shift_down_`, and what follows it. -/
def shiftDownPass (e : Nat) (state : Timers × Nat) : Option ((Timers × Nat) ⊕ Timers) := do
  let s := state.1
  let hole := state.2
  if childIndex hole ≤ s.n then
    let minChild ← lesserChild s (childIndex hole)
    let child ← s.slot minChild
    if ← s.elemGreater e child then
      return .inl (← s.put hole child, minChild)
    else
      return .inr (← s.put hole e)
  else
    return .inr (← s.put hole e)

/-- `min_heap_shift_down_`. -/
def minHeapShiftDown (fuel : Nat) (s : Timers) (hole e : Nat) : Option (Option Timers) :=
  loop (attempt (shiftDownPass e)) fuel (s, hole)

/-- `min_heap_reserve_`; no answer means that `realloc` failed. -/
def minHeapReserve (s : Timers) (n : Nat) (reallocs : Bool) : Option Timers :=
  if s.a < n then
    let a := if s.a ≠ 0 then s.a * 2 % word else 8
    let a := if a < n then n else a
    if reallocs then some { s with a := a } else none
  else some s

/-- `min_heap_push_`; the answer tells whether the entry was pushed. -/
def minHeapPush (fuel : Nat) (s : Timers) (e : Nat) (reallocs : Bool) :
    Option (Option (Timers × Bool)) :=
  match minHeapReserve s ((s.n + 1) % word) reallocs with
  | none => some (some (s, false))
  | some s =>
    (minHeapShiftUp fuel { s with n := (s.n + 1) % word } s.n e).map
      (Option.map fun s => (s, true))

/-- `add_timer` at the reading `now`; the answer is the entry or `NULL`. -/
def addTimer (fuel : Nat) (s : Timers) (now msec : UInt32) (mallocs reallocs : Bool) :
    Option (Option (Timers × Option Nat)) :=
  if !mallocs then some (some (s, none))
  else
    let te := s.fresh
    let s := { s with
      entries := Function.update s.entries te (some ⟨now + msec, 0⟩)
      fresh := te + 1 }
    match minHeapReserve s ((s.n + 1) % word) reallocs with
    | none => some (some (s.free te, none))
    | some s =>
      (minHeapShiftUp fuel { s with n := (s.n + 1) % word } s.n te).map
        (Option.map fun s => (s, some te))

/-- The shift of `min_heap_erase_`: `last` goes to the slot of the erased entry. -/
def eraseShift (fuel : Nat) (s : Timers) (index last : Nat) : Option (Option Timers) :=
  if index > 0 then
    match (s.slot (parentIndex index)).bind (s.elemGreater · last) with
    | none => some none
    | some true => minHeapShiftUpUnconditional fuel s index last
    | some false => minHeapShiftDown fuel s index last
  else minHeapShiftDown fuel s index last

/-- `del_timer`, which is `min_heap_erase_`; the answer tells whether the entry was erased. -/
def delTimer (fuel : Nat) (s : Timers) (e : Nat) : Option (Option (Timers × Bool)) :=
  match s.entries e with
  | none => some none
  | some entry =>
    if entry.minHeapIdx = noIndex then some (some (s, false))
    else
      match s.slot (pred s.n) with
      | none => some none
      | some last =>
        (eraseShift fuel { s with n := pred s.n } entry.minHeapIdx last).map fun shifted =>
          (shifted.bind (Timers.detach · e)).map fun s => (s, true)

/-- `min_heap_adjust_`, whose shift is that of `min_heap_erase_` with the entry itself; the answer
tells whether the entry is in the heap. -/
def minHeapAdjust (fuel : Nat) (s : Timers) (e : Nat) (reallocs : Bool) :
    Option (Option (Timers × Bool)) :=
  match s.entries e with
  | none => some none
  | some entry =>
    if entry.minHeapIdx = noIndex then minHeapPush fuel s e reallocs
    else (eraseShift fuel s entry.minHeapIdx e).map (Option.map fun s => (s, true))

/-- `min_heap_pop_`; the answer is the popped entry or `NULL`. -/
def minHeapPop (fuel : Nat) (s : Timers) : Option (Option (Timers × Option Nat)) :=
  if s.n ≠ 0 then
    match s.slot 0, s.slot (pred s.n) with
    | some e, some last =>
      (minHeapShiftDown fuel { s with n := pred s.n } 0 last).map fun shifted =>
        (shifted.bind (Timers.detach · e)).map fun s => (s, some e)
    | _, _ => some none
  else some (some (s, none))

/-- Where `expire_timer` stands. -/
inductive Control where
  /-- It is not running. -/
  | outside
  /-- At the head of its loop. -/
  | scanning (cur : UInt32)
  /-- In the handler of an entry. -/
  | handling (cur : UInt32) (te : Nat)

/-- The timers with the control of `expire_timer`. -/
structure State where
  /-- The entries and the heap. -/
  timers : Timers
  /-- The point that `expire_timer` has reached. -/
  control : Control

/-- What happens in a run. -/
inductive Event where
  /-- `add_timer` returned `te`, with the deadline `time`. -/
  | added (te : Option Nat) (time : UInt32)
  /-- `del_timer(e)` returned `erased`. -/
  | deleted (e : Nat) (erased : Bool)
  /-- `expire_timer` read the clock. -/
  | called (cur : UInt32)
  /-- The handler of `te`, due at `time`, was called. -/
  | ran (te : Nat) (time : UInt32)
  /-- The handler of `te` returned, `popped` was taken off the heap and `freed` was freed. -/
  | finished (te : Nat) (popped : Option Nat) (freed : Nat)
  /-- `expire_timer` returned. -/
  | returned (cur : UInt32)
  deriving DecidableEq

/-- The timers that may be added or deleted: any outside `expire_timer`; in a handler, deadlines
not below that of the running entry and other entries than it. -/
inductive Allowed : State → Event → Prop
  | outside {timers : Timers} {event : Event} : Allowed ⟨timers, .outside⟩ event
  | add {timers : Timers} {cur deadline time : UInt32} {te : Nat} {added : Option Nat}
      (running : timers.time te = some deadline) (later : deadline ≤ time) :
      Allowed ⟨timers, .handling cur te⟩ (.added added time)
  | del {timers : Timers} {cur : UInt32} {te e : Nat} {erased : Bool} (other : e ≠ te) :
      Allowed ⟨timers, .handling cur te⟩ (.deleted e erased)

/-- One step of the program. -/
inductive Step : State → Event → State → Prop
  | add {state : State} {now msec : UInt32} {mallocs reallocs : Bool} {timers : Timers}
      {te : Option Nat} (allowed : Allowed state (.added te (now + msec)))
      (done : Leaves (fun fuel => addTimer fuel state.timers now msec mallocs reallocs)
        (some (timers, te))) :
      Step state (.added te (now + msec)) ⟨timers, state.control⟩
  | del {state : State} {e : Nat} {timers : Timers} {erased : Bool}
      (allowed : Allowed state (.deleted e erased))
      (done : Leaves (fun fuel => delTimer fuel state.timers e) (some (timers, erased))) :
      Step state (.deleted e erased) ⟨timers, state.control⟩
  | call {timers : Timers} {cur : UInt32} :
      Step ⟨timers, .outside⟩ (.called cur) ⟨timers, .scanning cur⟩
  | run {timers : Timers} {cur time : UInt32} {te : Nat}
      (top : minHeapTop timers = some (some te)) (due : timers.time te = some time)
      (now : ¬ time > cur) :
      Step ⟨timers, .scanning cur⟩ (.ran te time) ⟨timers, .handling cur te⟩
  | finish {timers after : Timers} {cur : UInt32} {te : Nat} {popped : Option Nat}
      (done : Leaves (fun fuel => minHeapPop fuel timers) (some (after, popped))) :
      Step ⟨timers, .handling cur te⟩ (.finished te popped te) ⟨after.free te, .scanning cur⟩
  | leaveEmpty {timers : Timers} {cur : UInt32} (top : minHeapTop timers = some none) :
      Step ⟨timers, .scanning cur⟩ (.returned cur) ⟨timers, .outside⟩
  | leave {timers : Timers} {cur time : UInt32} {te : Nat}
      (top : minHeapTop timers = some (some te)) (due : timers.time te = some time)
      (later : time > cur) :
      Step ⟨timers, .scanning cur⟩ (.returned cur) ⟨timers, .outside⟩

end BackendCpp.Minheap
