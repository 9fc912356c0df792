import BackendCpp.Timewheel.Runs

/-!
# Cancelled timers

`del_timer` sets the cancel byte of a node, and `dispatch_list` skips a node whose byte is not 0.
`add_timer` does not write the byte, so a node for which `malloc` left another value is skipped as
well. Beside the world stand a history of the bytes that `malloc` left and of the nodes that
`del_timer` was called on, and what was known of each node when it was dispatched.
-/

namespace BackendCpp.Timewheel

open BackendCpp.Library

/-- What was known of a node when it was dispatched. -/
structure Judged where
  /-- Number of the allocation. -/
  addr : Nat
  /-- Whether its callback ran. -/
  called : Bool
  /-- What `malloc` left in its cancel byte. -/
  junk : UInt8
  /-- Whether `del_timer` was called on it after its `add_timer`. -/
  deleted : Bool

/-- The world with a history. -/
structure Logged where
  /-- The world. -/
  world : World
  /-- History: what `malloc` left in the cancel byte of every node. -/
  junk : Nat → UInt8
  /-- History: whether `del_timer` was called on a node after its `add_timer`. -/
  deleted : Nat → Bool
  /-- History: the nodes dispatched so far, in order. -/
  judged : List Judged

/-- The world after `init_timer`, with its history. -/
def Logged.init (cancel : Nat → UInt8) : Logged := ⟨initTimer cancel, cancel, fun _ => false, []⟩

/-- Serve one request. -/
def Logged.request (l : Logged) : Request → Logged
  | .add time junk =>
    { l with
      world := addTimer l.world time junk
      junk := Function.update l.junk l.world.allocated junk
      deleted := Function.update l.deleted l.world.allocated false }
  | .del addr =>
    { l with
      world := delTimer l.world addr
      deleted := Function.update l.deleted addr true }

/-- Run the next callback. -/
def Logged.callback (l : Logged) : Logged :=
  match l.world.script with
  | [] => l
  | requests :: script => requests.foldl Logged.request { l with world := { l.world with script } }

/-- The body of the loop of `dispatch_list`. -/
def Logged.dispatchNode (l : Logged) (node : TimerNode) : Logged :=
  let called := l.world.cancel node.addr == 0
  let l : Logged :=
    { l with
      world := { l.world with
        dispatched := l.world.dispatched ++ [⟨node, l.world.wheel.time, l.world.ticks, called⟩] }
      judged := l.judged ++ [⟨node.addr, called, l.junk node.addr, l.deleted node.addr⟩] }
  if called then l.callback else l

/-- `dispatch_list`. -/
def Logged.dispatchList (l : Logged) (current : List TimerNode) : Logged :=
  current.foldl Logged.dispatchNode l

/-- One pass of the loop of `timer_execute`. -/
def Logged.timerExecutePass (idx : Fin 256) (l : Logged) : Logged ⊕ Logged :=
  if l.world.wheel.lists (.near idx) ≠ [] then
    .inl (Logged.dispatchList
      { l with world := { l.world with wheel := linkClear l.world.wheel (.near idx) } }
      (l.world.wheel.lists (.near idx)))
  else .inr l

/-- `timer_execute`. -/
def Logged.timerExecute (fuel : Nat) (l : Logged) : Option Logged :=
  loop (Logged.timerExecutePass (nearIdx l.world.wheel.time)) fuel l

/-- `timer_update`. -/
def Logged.timerUpdate (fuel : Nat) (l : Logged) : Option Logged :=
  (l.timerExecute fuel).bind fun l =>
  (timerShift fuel l.world.wheel).bind fun wheel =>
  Logged.timerExecute fuel { l with world := { l.world with wheel, ticks := l.world.ticks + 1 } }

/-- An event and the world after it, with the history. -/
inductive LoggedStep : Logged → Event → Logged → Prop
  | request {l : Logged} (r : Request) : LoggedStep l (.request r) (l.request r)
  | update {l l' : Logged} (script : List (List Request))
      (returns : Leaves (fun fuel =>
        Logged.timerUpdate fuel { l with world := { l.world with script } }) l') :
      LoggedStep l (.update script) l'

section World

/-- The history does not change what a request does. -/
theorem world_request (l : Logged) (r : Request) :
    (l.request r).world = Timewheel.request l.world r := by
  cases r <;> rfl

/-- Nor what a callback does. -/
theorem world_callback (l : Logged) : l.callback.world = Timewheel.callback l.world := by
  unfold Logged.callback Timewheel.callback
  cases l.world.script with
  | nil => rfl
  | cons requests script =>
    have fold : ∀ (requests : List Request) (l : Logged), (requests.foldl Logged.request l).world =
        requests.foldl Timewheel.request l.world := by
      intro requests
      induction requests with
      | nil => exact fun _ => rfl
      | cons r requests ih =>
        intro l
        rw [List.foldl_cons, List.foldl_cons, ih, world_request]
    exact fold requests _

/-- Nor what `dispatch_list` does. -/
theorem world_dispatchList (current : List TimerNode) (l : Logged) :
    (l.dispatchList current).world = Timewheel.dispatchList l.world current := by
  unfold Logged.dispatchList Timewheel.dispatchList
  induction current generalizing l with
  | nil => rfl
  | cons node current ih =>
    rw [List.foldl_cons, List.foldl_cons, ih]
    congr 1
    unfold Logged.dispatchNode Timewheel.dispatchNode
    simp only
    split
    · exact world_callback _
    · rfl

/-- Nor what `timer_execute` does. -/
theorem world_timerExecute (fuel : Nat) (l : Logged) :
    Timewheel.timerExecute fuel l.world = (l.timerExecute fuel).map Logged.world := by
  apply loop_map Logged.world Logged.world
  intro state
  unfold Logged.timerExecutePass Timewheel.timerExecutePass
  split
  · rw [Sum.map_inl, world_dispatchList]
  · rfl

/-- `timer_execute` with the history leaves when it leaves without. -/
theorem leaves_timerExecute {l : Logged} {w : World}
    (leaves : Leaves (fun fuel => Timewheel.timerExecute fuel l.world) w) :
    ∃ l', Leaves (fun fuel => l.timerExecute fuel) l' ∧ l'.world = w := by
  obtain ⟨fuel, returned⟩ := leaves.exists_fuel
  rw [world_timerExecute] at returned
  obtain ⟨l', result, same⟩ := Option.map_eq_some_iff.mp returned
  exact ⟨l', leaves_of_loop result, same⟩

/-- A step has its history. -/
theorem exists_loggedStep {l : Logged} {event : Event} {w : World} (step : Step l.world event w) :
    ∃ l', LoggedStep l event l' ∧ l'.world = w := by
  cases step with
  | request r => exact ⟨l.request r, .request r, world_request l r⟩
  | update script returns =>
    let begins : Logged := { l with world := { l.world with script } }
    obtain ⟨fuel, returned⟩ := returns.exists_fuel
    obtain ⟨middle, first, _⟩ := Option.bind_eq_some_iff.mp returned
    have executed : Leaves (fun fuel => Timewheel.timerExecute fuel begins.world) middle :=
      leaves_of_loop first
    obtain ⟨l₁, executed', rfl⟩ := leaves_timerExecute executed
    obtain ⟨wheel, shifted, _⟩ := timerShift_spec l₁.world.wheel
    have last := (returns.of_bind executed).of_bind shifted
    let ticked : Logged :=
      { l₁ with world := { l₁.world with wheel, ticks := l₁.world.ticks + 1 } }
    have start : Leaves (fun fuel => Timewheel.timerExecute fuel ticked.world) w := last
    obtain ⟨l₂, executed'', same⟩ := leaves_timerExecute start
    exact ⟨l₂, .update script (executed'.bind (shifted.bind executed'')), same⟩

end World

/-- What the history says of the bytes and of the nodes that were dispatched. -/
structure Told (l : Logged) : Prop where
  /-- A byte is what `del_timer` wrote, or else what `malloc` left. -/
  cancel : ∀ addr, l.world.cancel addr = if l.deleted addr then 1 else l.junk addr
  /-- A callback ran when the node was not deleted and `malloc` had left 0. -/
  judged : ∀ j ∈ l.judged, j.called = (!j.deleted && j.junk == 0)
  /-- The history has the nodes that were dispatched. -/
  dispatched : l.judged.map (fun j => (j.addr, j.called)) =
    l.world.dispatched.map fun entry => (entry.node.addr, entry.called)

/-- A request is told. -/
theorem Told.request {l : Logged} (told : Told l) (r : Request) : Told (l.request r) := by
  cases r with
  | add time junk =>
    have bytes : (addTimer l.world time junk).cancel =
        Function.update l.world.cancel l.world.allocated junk := by
      unfold addTimer
      simp only
      split <;> rfl
    have history : (addTimer l.world time junk).dispatched = l.world.dispatched := by
      unfold addTimer
      simp only
      split <;> rfl
    refine ⟨fun addr => ?_, told.judged, ?_⟩
    · change (addTimer l.world time junk).cancel addr =
        if Function.update l.deleted l.world.allocated false addr = true then 1
        else Function.update l.junk l.world.allocated junk addr
      rw [bytes]
      by_cases new : addr = l.world.allocated
      · rw [new, Function.update_self, Function.update_self, Function.update_self]
        rfl
      · rw [Function.update_of_ne new, Function.update_of_ne new, Function.update_of_ne new]
        exact told.cancel addr
    · change _ = (addTimer l.world time junk).dispatched.map _
      rw [history]
      exact told.dispatched
  | del addr =>
    refine ⟨fun other => ?_, told.judged, told.dispatched⟩
    change Function.update l.world.cancel addr 1 other =
      if Function.update l.deleted addr true other = true then 1 else l.junk other
    by_cases same : other = addr
    · rw [same, Function.update_self, Function.update_self, if_pos rfl]
    · rw [Function.update_of_ne same, Function.update_of_ne same]
      exact told.cancel other

/-- A callback is told. -/
theorem Told.callback {l : Logged} (told : Told l) : Told l.callback := by
  unfold Logged.callback
  cases l.world.script with
  | nil => exact told
  | cons requests script =>
    have fold : ∀ (requests : List Request) (l : Logged), Told l →
        Told (requests.foldl Logged.request l) := by
      intro requests
      induction requests with
      | nil => exact fun _ told => told
      | cons r requests ih => exact fun l told => ih _ (told.request r)
    exact fold requests _ ⟨told.cancel, told.judged, told.dispatched⟩

/-- A node that is dispatched is told. -/
theorem Told.dispatchNode {l : Logged} (told : Told l) (node : TimerNode) :
    Told (l.dispatchNode node) := by
  have byte := told.cancel node.addr
  have entry : ∀ called, called = (l.world.cancel node.addr == 0) →
      called = (!l.deleted node.addr && l.junk node.addr == 0) := by
    intro called same
    rw [same, byte]
    cases l.deleted node.addr with
    | true => rfl
    | false => rfl
  have next : Told { l with
      world := { l.world with
        dispatched := l.world.dispatched ++ [⟨node, l.world.wheel.time, l.world.ticks,
          l.world.cancel node.addr == 0⟩] }
      judged := l.judged ++ [⟨node.addr, l.world.cancel node.addr == 0, l.junk node.addr,
        l.deleted node.addr⟩] } := by
    refine ⟨told.cancel, ?_, ?_⟩
    · intro j member
      cases List.mem_append.mp member with
      | inl old => exact told.judged j old
      | inr new =>
        rw [List.mem_singleton.mp new]
        exact entry _ rfl
    · rw [List.map_append, List.map_append, told.dispatched]
      rfl
  unfold Logged.dispatchNode
  simp only
  split
  · exact next.callback
  · exact next

/-- `timer_execute` is told. -/
theorem Told.timerExecute {l l' : Logged} (told : Told l)
    (leaves : Leaves (fun fuel => l.timerExecute fuel) l') : Told l' := by
  obtain ⟨fuel, returned⟩ := leaves.exists_fuel
  refine loop_keeps Told Told ?_ ?_ fuel l l' told returned
  · intro state after told pass
    unfold Logged.timerExecutePass at pass
    split at pass
    · rw [← Sum.inl.inj pass]
      have fold : ∀ (current : List TimerNode) (l : Logged), Told l →
          Told (l.dispatchList current) := by
        intro current
        induction current with
        | nil => exact fun _ told => told
        | cons node current ih => exact fun l told => ih _ (told.dispatchNode node)
      exact fold _ _ ⟨told.cancel, told.judged, told.dispatched⟩
    · cases pass
  · intro state result told pass
    unfold Logged.timerExecutePass at pass
    split at pass
    · cases pass
    · rw [← Sum.inr.inj pass]
      exact told

/-- A step is told. -/
theorem Told.step {l l' : Logged} (told : Told l) {event : Event} (step : LoggedStep l event l') :
    Told l' := by
  cases step with
  | request r => exact told.request r
  | update script returns =>
    obtain ⟨fuel, returned⟩ := returns.exists_fuel
    obtain ⟨l₁, first, _⟩ := Option.bind_eq_some_iff.mp returned
    have executed := leaves_of_loop first
    have begins : Told { l with world := { l.world with script } } :=
      ⟨told.cancel, told.judged, told.dispatched⟩
    have middle := begins.timerExecute executed
    obtain ⟨wheel, shifted, _⟩ := timerShift_spec l₁.world.wheel
    have ticked : Told
        { l₁ with world := { l₁.world with wheel, ticks := l₁.world.ticks + 1 } } :=
      ⟨middle.cancel, middle.judged, middle.dispatched⟩
    exact ticked.timerExecute ((returns.of_bind executed).of_bind shifted)

/-- A node is skipped exactly if `del_timer` was called on it after its `add_timer`. -/
def ExactlyCancelled (l : Logged) : Prop := ∀ j ∈ l.judged, j.called = false ↔ j.deleted = true

/-- In every run, with any contents of the memory, the nodes that were skipped are those that
`del_timer` was called on exactly if `malloc` had left 0 in the cancel byte of every other node that
was dispatched. -/
theorem run_cancels_iff {cancel : Nat → UInt8} {trace : List Event} {w : World}
    (run : Run Step (initTimer cancel) trace w) :
    ∃ l, Run LoggedStep (Logged.init cancel) trace l ∧ l.world = w ∧
      l.judged.map (fun j => (j.addr, j.called)) =
        w.dispatched.map (fun entry => (entry.node.addr, entry.called)) ∧
      (ExactlyCancelled l ↔ ∀ j ∈ l.judged, j.deleted = true ∨ j.junk = 0) := by
  have history : ∃ l, Run LoggedStep (Logged.init cancel) trace l ∧ l.world = w := by
    induction run with
    | nil => exact ⟨Logged.init cancel, Run.nil, rfl⟩
    | snoc _ taken ih =>
      obtain ⟨l, before, rfl⟩ := ih
      obtain ⟨l', step, same⟩ := exists_loggedStep taken
      exact ⟨l', before.snoc step, same⟩
  obtain ⟨l, logged, same⟩ := history
  have told : Told l := by
    apply logged.invariant Told
    · exact ⟨fun _ => rfl, by simp [Logged.init], rfl⟩
    · exact fun state event next told step => told.step step
  refine ⟨l, logged, same, by rw [told.dispatched, same], ?_⟩
  apply forall₂_congr
  intro j member
  rw [told.judged j member]
  cases j.deleted with
  | true => simp
  | false => simp

/-- Two nodes are skipped: one that was deleted, and one for which `malloc` left 9. -/
theorem run_cancels_iff_cascaded : ∃ w l, Run Step (initTimer fun _ => 0) cascaded w ∧
    Run LoggedStep (Logged.init fun _ => 0) cascaded l ∧ l.world = w ∧
    l.judged.map (fun j => (j.addr, j.called)) =
      [(1, false), (2, true), (4, false), (0, true), (3, true)] ∧
    (ExactlyCancelled l ↔ ∀ j ∈ l.judged, j.deleted = true ∨ j.junk = 0) := by
  obtain ⟨w, run, -, -, history⟩ := cascaded_run
  obtain ⟨l, logged, same, judged, exact'⟩ := run_cancels_iff run
  have handed := congrArg (List.map fun entry : Nat × Nat × Bool => (entry.1, entry.2.2)) history
  rw [List.map_map] at handed
  exact ⟨w, l, run, logged, same, judged.trans handed, exact'⟩

/-- A timer of delay 1 for which `malloc` left 7 in the cancel byte is skipped, although
`del_timer` was not called. -/
theorem skipped_by_malloc : ∃ l, Logged.timerUpdate 9
    ((Logged.init fun _ => 0).request (.add 1 7)) = some l ∧
    ∃ j ∈ l.judged, j.called = false ∧ j.deleted = false := by
  have found : (Logged.timerUpdate 9 ((Logged.init fun _ => 0).request (.add 1 7))).any
      (fun l => l.judged.any fun j => j.called = false ∧ j.deleted = false) = true := by
    decide
  obtain ⟨l, returned, facts⟩ := (Option.any_eq_true _ _).mp found
  obtain ⟨j, member, skipped⟩ := List.any_eq_true.mp facts
  exact ⟨l, returned, j, member, of_decide_eq_true skipped⟩

end BackendCpp.Timewheel
