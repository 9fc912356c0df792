import BackendCpp.Library.Loop

/-!
# The program of timewheel.c

The wheel of `2207-timers/timewheel.c` is 256 near lists and four levels of 64 lists of
nodes. A list is the sequence of its nodes; a node is known by the number of its allocation,
so that memory reuse cannot confuse two nodes. The `cancel` byte is kept apart, because
`del_timer` writes it while the node is in a list, and `add_timer` never does: a fresh node
has whatever `malloc` left there.

Callbacks are code of the caller. A tick is given the requests that its callbacks will make,
one list for each callback that runs, in order; a callback that a non-positive delay runs at
once makes its requests as part of the same list. The lock is held or released by one thread
at a time and is left out, as are the fields that only `expire_timer` reads. At the end stand
the lists that some function empties again, and the delays for which `add_timer` picks another.
-/

namespace BackendCpp.Timewheel

open BackendCpp.Library

/-- `TIME_NEAR_SHIFT`. -/
def TIME_NEAR_SHIFT : UInt32 := 8

/-- `TIME_NEAR`. -/
def TIME_NEAR : UInt32 := 1 <<< TIME_NEAR_SHIFT

/-- `TIME_LEVEL_SHIFT`. -/
def TIME_LEVEL_SHIFT : UInt32 := 6

/-- `TIME_LEVEL`. -/
def TIME_LEVEL : UInt32 := 1 <<< TIME_LEVEL_SHIFT

/-- `TIME_NEAR_MASK`. -/
def TIME_NEAR_MASK : UInt32 := TIME_NEAR - 1

/-- `TIME_LEVEL_MASK`. -/
def TIME_LEVEL_MASK : UInt32 := TIME_LEVEL - 1

/-- `struct timer_node`, without its callback and its cancel byte. -/
structure TimerNode where
  /-- Number of the allocation. -/
  addr : Nat
  /-- `expire`. -/
  expire : UInt32
  deriving DecidableEq

/-- The lists of the wheel. -/
inductive Slot where
  /-- `T->near[idx]`. -/
  | near (idx : Fin 256)
  /-- `T->t[level][idx]`. -/
  | t (level : Fin 4) (idx : Fin 64)
  deriving DecidableEq, Fintype

/-- `struct timer`. -/
structure Wheel where
  /-- The nodes of every list, from head to tail. -/
  lists : Slot → List TimerNode
  /-- `T->time`. -/
  time : UInt32

/-- `timer_create_timer`. -/
def timerCreateTimer : Wheel := ⟨fun _ => [], 0⟩

/-- `link_clear` — empty a list; what it held is `T.lists list`. -/
def linkClear (T : Wheel) (list : Slot) : Wheel :=
  { T with lists := Function.update T.lists list [] }

/-- `link` — append a node to a list. -/
def link (T : Wheel) (list : Slot) (node : TimerNode) : Wheel :=
  { T with lists := Function.update T.lists list (T.lists list ++ [node]) }

/-- `time & TIME_NEAR_MASK`. -/
def nearIdx (time : UInt32) : Fin 256 := Fin.ofNat 256 (time &&& TIME_NEAR_MASK).toNat

/-- `time & TIME_LEVEL_MASK`. -/
def levelIdx (time : UInt32) : Fin 64 := Fin.ofNat 64 (time &&& TIME_LEVEL_MASK).toNat

/-- The list that `add_node` picks for an expiry at a current time. -/
def slotFor (time currentTime : UInt32) : Slot :=
  let msec := time - currentTime
  if msec < TIME_NEAR then .near (nearIdx time)
  else if msec < 1 <<< (TIME_NEAR_SHIFT + TIME_LEVEL_SHIFT) then
    .t 0 (levelIdx (time >>> TIME_NEAR_SHIFT))
  else if msec < 1 <<< (TIME_NEAR_SHIFT + 2 * TIME_LEVEL_SHIFT) then
    .t 1 (levelIdx (time >>> (TIME_NEAR_SHIFT + TIME_LEVEL_SHIFT)))
  else if msec < 1 <<< (TIME_NEAR_SHIFT + 3 * TIME_LEVEL_SHIFT) then
    .t 2 (levelIdx (time >>> (TIME_NEAR_SHIFT + 2 * TIME_LEVEL_SHIFT)))
  else .t 3 (levelIdx (time >>> (TIME_NEAR_SHIFT + 3 * TIME_LEVEL_SHIFT)))

/-- `add_node`. -/
def addNode (T : Wheel) (node : TimerNode) : Wheel := link T (slotFor node.expire T.time) node

/-- `move_list` — take the nodes of a list and add each again. -/
def moveList (T : Wheel) (level : Fin 4) (idx : Fin 64) : Wheel :=
  (T.lists (.t level idx)).foldl addNode (linkClear T (.t level idx))

/-- One pass of the loop of `timer_shift`, on `mask`, `time` and `i`. It leaves with the list
to move, if any; a level beyond the fourth would be an access out of bounds. -/
def timerShiftPass (ct : UInt32) (state : UInt32 × UInt32 × Nat) :
    (UInt32 × UInt32 × Nat) ⊕ Option (Option (Fin 4 × Fin 64)) :=
  let (mask, time, i) := state
  if ct &&& (mask - 1) = 0 then
    if levelIdx time ≠ 0 then
      .inr (if bound : i < 4 then some (some (⟨i, bound⟩, levelIdx time)) else none)
    else .inl (mask <<< TIME_LEVEL_SHIFT, time >>> TIME_LEVEL_SHIFT, i + 1)
  else .inr (some none)

/-- `timer_shift` — advance the time by one and move the list that has come up. -/
def timerShift (fuel : Nat) (T : Wheel) : Option Wheel :=
  let T : Wheel := { T with time := T.time + 1 }
  if T.time = 0 then some (moveList T 3 0)
  else
    (loop (timerShiftPass T.time) fuel (TIME_NEAR, T.time >>> TIME_NEAR_SHIFT, 0)).join.map fun
      | some (level, idx) => moveList T level idx
      | none => T

/-- What the caller may ask for, between ticks or from a callback. -/
inductive Request where
  /-- `add_timer` with a delay; `junk` is what `malloc` left in the cancel byte. -/
  | add (time : Int32) (junk : UInt8)
  /-- `del_timer` of a node. -/
  | del (addr : Nat)

/-- A node handed to `dispatch_list`. -/
structure Dispatch where
  /-- The node. -/
  node : TimerNode
  /-- `T->time` at that moment. -/
  time : UInt32
  /-- How many ticks had passed. -/
  tick : Nat
  /-- Whether its callback ran. -/
  called : Bool

/-- A timer that `add_timer` put into the wheel. -/
structure Added where
  /-- The node. -/
  node : TimerNode
  /-- `T->time` at the call. -/
  time : UInt32
  /-- The delay asked for. -/
  delay : Int32
  /-- How many ticks had passed. -/
  tick : Nat
  deriving DecidableEq

/-- The wheel `TI` with the memory around it and the history of the run. -/
structure World where
  /-- The wheel. -/
  wheel : Wheel
  /-- The cancel byte of every node. -/
  cancel : Nat → UInt8
  /-- How many nodes were allocated. -/
  allocated : Nat
  /-- The requests of the callbacks that are still to run in this tick. -/
  script : List (List Request)
  /-- History: the nodes dispatched so far, in order. -/
  dispatched : List Dispatch
  /-- History: the timers added so far, in order. -/
  added : List Added
  /-- History: how often the time was advanced. -/
  ticks : Nat

/-- The world after `init_timer`. -/
def initTimer (cancel : Nat → UInt8) : World := ⟨timerCreateTimer, cancel, 0, [], [], [], 0⟩

/-- `add_timer`. A delay that is not positive puts nothing into the wheel. -/
def addTimer (w : World) (time : Int32) (junk : UInt8) : World :=
  let node : TimerNode := ⟨w.allocated, time.toUInt32 + w.wheel.time⟩
  let w : World :=
    { w with allocated := w.allocated + 1, cancel := Function.update w.cancel w.allocated junk }
  if time ≤ 0 then w
  else
    { w with
      wheel := addNode w.wheel node
      added := w.added ++ [⟨node, w.wheel.time, time, w.ticks⟩] }

/-- `del_timer`. -/
def delTimer (w : World) (addr : Nat) : World :=
  { w with cancel := Function.update w.cancel addr 1 }

/-- Serve one request. -/
def request (w : World) : Request → World
  | .add time junk => addTimer w time junk
  | .del addr => delTimer w addr

/-- Run the next callback: it makes the requests at the head of the script. -/
def callback (w : World) : World :=
  match w.script with
  | [] => w
  | requests :: script => requests.foldl request { w with script }

/-- The body of the loop of `dispatch_list`. -/
def dispatchNode (w : World) (node : TimerNode) : World :=
  let called := w.cancel node.addr == 0
  let w : World :=
    { w with dispatched := w.dispatched ++ [⟨node, w.wheel.time, w.ticks, called⟩] }
  if called then callback w else w

/-- `dispatch_list`. -/
def dispatchList (w : World) (current : List TimerNode) : World := current.foldl dispatchNode w

/-- One pass of the loop of `timer_execute`. -/
def timerExecutePass (idx : Fin 256) (w : World) : World ⊕ World :=
  if w.wheel.lists (.near idx) ≠ [] then
    .inl (dispatchList { w with wheel := linkClear w.wheel (.near idx) }
      (w.wheel.lists (.near idx)))
  else .inr w

/-- `timer_execute`. -/
def timerExecute (fuel : Nat) (w : World) : Option World :=
  loop (timerExecutePass (nearIdx w.wheel.time)) fuel w

/-- `timer_update`. -/
def timerUpdate (fuel : Nat) (w : World) : Option World :=
  (timerExecute fuel w).bind fun w =>
  (timerShift fuel w.wheel).bind fun wheel =>
  timerExecute fuel { w with wheel, ticks := w.ticks + 1 }

/-- What happens in a run. -/
inductive Event where
  /-- A request between ticks. -/
  | request (request : Request)
  /-- `timer_update`, with the requests that its callbacks make. -/
  | update (script : List (List Request))

/-- An event and the world after it. -/
inductive Step : World → Event → World → Prop
  | request {w : World} (r : Request) : Step w (.request r) (request w r)
  | update {w w' : World} (script : List (List Request))
      (returns : Leaves (fun fuel => timerUpdate fuel { w with script }) w') :
      Step w (.update script) w'

/-- The lists that `timer_shift` or `timer_execute` ever empties. -/
def Live : Slot → Prop
  | .near _ => True
  | .t level idx => level = 3 ∨ idx ≠ 0

/-- The length of the block of time that one list of a level stands for. -/
def unit (level : Fin 4) : Nat := 256 * 64 ^ level.val

/-- `add_timer` puts the node into one of the lists that nothing ever empties. -/
def Lost (time : UInt32) (delay : Int32) : Prop :=
  ∃ level : Fin 4, level ≠ 3 ∧ (unit level : Int) ≤ delay.toInt ∧
    delay.toInt < unit level * 64 ∧ (delay.toUInt32 + time).toNat / unit level % 64 = 0

end BackendCpp.Timewheel
