import BackendCpp.Library.Loop

/-!
# The program of skiplist.c

The skip list of `7.高性能组件/3. 定时器/2207-timers/2207-timers/skiplist.c`. A node is an
address with as many `forward` pointers as its level; the memory says which nodes there are.
An access to a node that is not there, or to a level that it does not have, answers `none`.
The loops that follow `forward` run with fuel.
-/

namespace BackendCpp.Skiplist

open BackendCpp.Library

/-- `ZSKIPLIST_MAXLEVEL`. -/
def ZSKIPLIST_MAXLEVEL : Nat := 32

/-- `struct zskiplistNode`, with the number of levels it was allocated with. -/
structure ZskiplistNode where
  /-- The score. -/
  score : UInt64
  /-- The handler. -/
  handler : UInt64
  /-- The number of levels. -/
  levels : Nat
  /-- `level[i].forward`. -/
  forward : Nat → Option Nat

/-- `struct zskiplist`, with the memory of the nodes. -/
structure Zskiplist where
  /-- The header. -/
  header : Nat
  /-- The number of nodes. -/
  length : Int
  /-- The number of levels in use. -/
  level : Nat
  /-- The memory. -/
  nodes : Nat → Option ZskiplistNode

/-- Read `x->level[i].forward`. -/
def Zskiplist.forward (zsl : Zskiplist) (x i : Nat) : Option (Option Nat) :=
  (zsl.nodes x).bind fun node => if i < node.levels then some (node.forward i) else none

/-- Write `x->level[i].forward`. -/
def Zskiplist.setForward (zsl : Zskiplist) (x i : Nat) (value : Option Nat) :
    Option Zskiplist :=
  (zsl.nodes x).bind fun node =>
    if i < node.levels then
      some { zsl with
        nodes := Function.update zsl.nodes x
          (some { node with forward := Function.update node.forward i value }) }
    else none

/-- Read `x->score`. -/
def Zskiplist.score (zsl : Zskiplist) (x : Nat) : Option UInt64 :=
  (zsl.nodes x).map fun node => node.score

/-- `zslCreate`; the header is at an address of its own. -/
def zslCreate (header : Nat) : Zskiplist where
  header := header
  length := 0
  level := 1
  nodes := Function.update (fun _ => none) header
    (some ⟨0, 0, ZSKIPLIST_MAXLEVEL, fun _ => none⟩)

/-- `zslRandomLevel`; `hits` is how often the loop goes on. -/
def zslRandomLevel (hits : Nat) : Nat :=
  if 1 + hits < ZSKIPLIST_MAXLEVEL then 1 + hits else ZSKIPLIST_MAXLEVEL

/-- A pass of the loop that follows one level. It leaves with the node it is at, or with
`none` after an access that is not possible. -/
def advancePass (zsl : Zskiplist) (score : UInt64) (i x : Nat) : Nat ⊕ Option Nat :=
  match zsl.forward x i with
  | none => .inr none
  | some none => .inr (some x)
  | some (some y) =>
    match zsl.score y with
    | none => .inr none
    | some s => if s < score then .inl y else .inr (some x)

/-- The inner loop of a search. -/
def advance (fuel : Nat) (zsl : Zskiplist) (score : UInt64) (i x : Nat) : Option Nat :=
  (loop (advancePass zsl score i) fuel x).bind id

/-- The outer loop of a search, from the highest level down: the last node, and `update`. -/
def search (fuel : Nat) (zsl : Zskiplist) (score : UInt64) :
    Nat → Nat → (Nat → Option Nat) → Option (Nat × (Nat → Option Nat))
  | 0, x, update => some (x, update)
  | i + 1, x, update =>
    (advance fuel zsl score i x).bind fun x =>
      search fuel zsl score i x (Function.update update i (some x))

/-- A pass of the last loop of `zslInsert`. -/
def linkPass (x : Nat) (update : Nat → Option Nat) (zsl : Zskiplist) (i : Nat) :
    Option Zskiplist :=
  (update i).bind fun before =>
  (zsl.forward before i).bind fun next =>
  (zsl.setForward x i next).bind fun zsl =>
  zsl.setForward before i (some x)

/-- `zslInsert`: the node is allocated at an address that is free, and its `forward` pointers
are what `malloc` left. An overflow of `length` has no result. -/
def zslInsert (fuel : Nat) (zsl : Zskiplist) (score func : UInt64) (hits address : Nat)
    (memory : Nat → Option Nat) : Option Zskiplist :=
  (search fuel zsl score zsl.level zsl.header fun _ => none).bind fun found =>
  let level := zslRandomLevel hits
  let update := fun i => if zsl.level ≤ i ∧ i < level then some zsl.header else found.2 i
  let zsl := if zsl.level < level then { zsl with level := level } else zsl
  let zsl := { zsl with
    nodes := Function.update zsl.nodes address (some ⟨score, func, level, memory⟩) }
  ((List.range level).foldlM (linkPass address update) zsl).bind fun zsl =>
  if zsl.length + 1 < 2 ^ 31 then some { zsl with length := zsl.length + 1 } else none

/-- `zslMin`. -/
def zslMin (zsl : Zskiplist) : Option (Option Nat) := zsl.forward zsl.header 0

/-- The loop that lowers `zsl->level`. -/
def lower (zsl : Zskiplist) : Nat → Option Nat
  | 0 => some 0
  | 1 => some 1
  | level + 2 =>
    (zsl.forward zsl.header (level + 1)).bind fun next =>
    if next = none then lower zsl (level + 1) else some (level + 2)

/-- The end of a deletion. -/
def shrink (zsl : Zskiplist) : Option Zskiplist :=
  (lower zsl zsl.level).map fun level => { zsl with level := level, length := zsl.length - 1 }

/-- A pass of the loop that takes a node out of the levels. -/
def unlinkPass (x : Nat) (update : Nat → Option Nat) (zsl : Zskiplist) (i : Nat) :
    Option Zskiplist :=
  (update i).bind fun before =>
  (zsl.forward before i).bind fun next =>
  if next = some x then
    (zsl.forward x i).bind fun next => zsl.setForward before i next
  else some zsl

/-- `zslDeleteHead`. -/
def zslDeleteHead (zsl : Zskiplist) : Option Zskiplist :=
  (zslMin zsl).bind fun found =>
  match found with
  | none => some zsl
  | some x =>
    ((List.range zsl.level).reverse.foldlM (unlinkPass x fun _ => some zsl.header) zsl).bind
      shrink

/-- `zslDeleteNode`. -/
def zslDeleteNode (zsl : Zskiplist) (x : Nat) (update : Nat → Option Nat) : Option Zskiplist :=
  ((List.range zsl.level).foldlM (unlinkPass x update) zsl).bind shrink

/-- `zslDelete`, with the node that is freed. -/
def zslDelete (fuel : Nat) (zsl : Zskiplist) (zn : Nat) : Option (Zskiplist × Option Nat) :=
  (zsl.score zn).bind fun score =>
  (search fuel zsl score zsl.level zsl.header fun _ => none).bind fun found =>
  (zsl.forward found.1 0).bind fun next =>
  match next with
  | none => some (zsl, none)
  | some x =>
    (zsl.score x).bind fun s =>
    if score = s then
      (zslDeleteNode zsl x found.2).map fun zsl =>
        ({ zsl with nodes := Function.update zsl.nodes x none }, some x)
    else some (zsl, none)

end BackendCpp.Skiplist
