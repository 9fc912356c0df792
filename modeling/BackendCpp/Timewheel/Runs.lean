import BackendCpp.Library.Run
import BackendCpp.Timewheel.Invariant

/-!
# Runs of the time wheel

`timer_execute` hands out the nodes that expire now and nothing else; `timer_shift` carries
the invariant over the tick. Between two calls the list of the moment is empty, and so every
node in a live list is still ahead of the time. Over whole runs it follows that the wheel is
never early, late or repeating itself, and that it loses exactly the nodes for which
`add_node` picks a list that is not live.
-/

namespace BackendCpp.Timewheel

open BackendCpp.Library

/-- Callbacks keep the invariant. -/
theorem Core.callback {hand : List TimerNode} {w : World} (core : Core hand w) :
    Core hand (callback w) ∧ Quiet w (callback w) := by
  have served : ∀ (requests : List Request) (w : World), Core hand w →
      Core hand (requests.foldl Timewheel.request w) ∧
        Quiet w (requests.foldl Timewheel.request w) := by
    intro requests
    induction requests with
    | nil => exact fun w core => ⟨core, rfl, rfl, fun _ => id, id⟩
    | cons r requests ih =>
      intro w core
      obtain ⟨first, quiet⟩ := core.request r
      obtain ⟨rest, quiet'⟩ := ih _ first
      exact ⟨rest, quiet.trans quiet'⟩
  unfold Timewheel.callback
  split
  · exact ⟨core, rfl, rfl, fun _ => id, id⟩
  · rename_i requests script _
    obtain ⟨kept, quiet⟩ := served requests { w with script } (core.memory w.cancel le_rfl script)
    exact ⟨kept, quiet.time, quiet.ticks, quiet.added, quiet.silent⟩

/-- The present lies at distance zero. -/
theorem distance_self (time : UInt32) : distance time time = 0 := by
  unfold distance
  rw [UInt32.sub_self]
  rfl

/-- Dispatching a node that expires now. -/
theorem Core.dispatchNode {node : TimerNode} {hand : List TimerNode} {w : World}
    (core : Core (node :: hand) w) (now : node.expire = w.wheel.time) :
    Core hand (dispatchNode w node) ∧ Quiet w (dispatchNode w node) := by
  have logged : ∀ called,
      Core hand { w with
        dispatched := w.dispatched ++ [⟨node, w.wheel.time, w.ticks, called⟩] } := by
    intro called
    refine ⟨core.fits, ?_, core.distinct, core.allocated, ?_, core.clock, core.recorded, core.due,
      fun timer known held => core.ready timer known (List.mem_cons_of_mem node held), ?_,
      core.stuck, core.dead⟩
    · rw [← core.conserved, List.map_append, ← Multiset.coe_add, ← Multiset.cons_coe,
        ← Multiset.singleton_add]
      change _ + _ + (_ + {node}) = _
      ac_rfl
    · intro entry listed
      rw [List.mem_append, List.mem_singleton] at listed
      rcases listed with old | rfl
      · exact core.onTime entry old
      · exact now
    · intro timer known entry listed same
      rw [List.mem_append, List.mem_singleton] at listed
      rcases listed with old | rfl
      · exact core.exactly timer known entry old same
      · have held : timer.node ∈ node :: hand := by
          rw [← show node = timer.node from same]
          exact List.mem_cons_self
        have ready := core.ready timer known held
        rw [← show node = timer.node from same, now, distance_self] at ready
        exact ready.symm
  unfold Timewheel.dispatchNode
  dsimp only
  split
  · obtain ⟨kept, quiet⟩ := (logged (w.cancel node.addr == 0)).callback
    exact ⟨kept, quiet.time, quiet.ticks, quiet.added, quiet.silent⟩
  · exact ⟨logged _, rfl, rfl, fun _ => id, id⟩

/-- Dispatching a list of nodes that expire now. -/
theorem Core.dispatchList {current : List TimerNode} {w : World} (core : Core current w)
    (now : ∀ node ∈ current, node.expire = w.wheel.time) :
    Core [] (dispatchList w current) ∧ Quiet w (dispatchList w current) := by
  unfold Timewheel.dispatchList
  induction current generalizing w with
  | nil => exact ⟨core, rfl, rfl, fun _ => id, id⟩
  | cons node current ih =>
    obtain ⟨kept, quiet⟩ := core.dispatchNode (now node List.mem_cons_self)
    have later : ∀ other ∈ current, other.expire = (Timewheel.dispatchNode w node).wheel.time := by
      intro other listed
      rw [quiet.time]
      exact now other (List.mem_cons_of_mem node listed)
    obtain ⟨rest, quiet'⟩ := ih kept later
    exact ⟨rest, quiet.trans quiet'⟩

/-- Taking the nodes of the list of the moment into the hand. -/
theorem Core.take {w : World} (core : Core [] w) (idx : Fin 256) :
    Core (w.wheel.lists (.near idx)) { w with wheel := linkClear w.wheel (.near idx) } := by
  have member : ∀ {slot node}, node ∈ (linkClear w.wheel (.near idx)).lists slot ↔
      slot ≠ .near idx ∧ node ∈ w.wheel.lists slot := by
    intro slot node
    unfold linkClear
    by_cases here : slot = .near idx
    · subst here
      simp
    · simp [here]
  refine ⟨?_, ?_, core.distinct, core.allocated, core.onTime, core.clock, core.recorded, ?_, ?_,
    core.exactly, ?_, ?_⟩
  · intro slot live node listed
    exact core.fits slot live node (member.mp listed).2
  · have before := core.conserved
    rw [Multiset.coe_nil, add_zero] at before
    rw [pending_linkClear]
    exact before
  · intro timer known slot live listed
    exact core.due timer known slot live (member.mp listed).2
  · intro timer known held
    exact core.due timer known (.near idx) trivial held
  · intro timer known isLost
    refine member.mpr ⟨?_, core.stuck timer known isLost⟩
    intro clash
    have dead := (lost_iff (core.recorded timer known).1).mp isLost
    rw [← (core.recorded timer known).2.2, clash] at dead
    exact dead trivial
  · intro timer known slot dead listed
    exact core.dead timer known slot dead (member.mp listed).2

/-- The nodes of the list of the moment expire now. -/
theorem Core.expire_now {w : World} (core : Core [] w) :
    ∀ node ∈ w.wheel.lists (.near (nearIdx w.wheel.time)), node.expire = w.wheel.time := by
  intro node listed
  obtain ⟨near, index⟩ := core.fits (.near _) trivial node listed
  rw [nearIdx_val] at index
  rw [distance_eq] at near
  have bound := w.wheel.time.toNat_lt
  have bound' := node.expire.toNat_lt
  rw [← UInt32.toNat_inj]
  omega

/-- The state between calls. -/
structure Idle (w : World) : Prop where
  /-- The invariant, with nothing in the hand. -/
  core : Core [] w
  /-- The list of the moment is empty. -/
  silent : w.wheel.lists (.near (nearIdx w.wheel.time)) = []

/-- `timer_execute` returns, with the list of the moment empty. -/
theorem timerExecute_spec {w : World} (core : Core [] w) :
    ∃ w', Leaves (fun fuel => timerExecute fuel w) w' ∧ Idle w' ∧ Quiet w w' := by
  by_cases empty : w.wheel.lists (.near (nearIdx w.wheel.time)) = []
  · refine ⟨w, leaves_now ?_, ⟨core, empty⟩, rfl, rfl, fun _ => id, id⟩
    simp [timerExecutePass, empty]
  · have now := core.expire_now
    obtain ⟨kept, quiet⟩ := (core.take (nearIdx w.wheel.time)).dispatchList now
    have cleared := quiet.silent (by simp [linkClear])
    have time := quiet.time
    change _ = w.wheel.time at time
    change Wheel.lists _ (.near (nearIdx w.wheel.time)) = [] at cleared
    refine ⟨_, leaves_next (if_pos empty) (leaves_now (if_neg (fun more => more cleared))),
      ⟨kept, ?_⟩, time, quiet.ticks, quiet.added, fun nothing => absurd nothing empty⟩
    rw [time]
    exact cleared

/-- Between calls every node in a live list is ahead of the time. -/
theorem Idle.ahead {w : World} (idle : Idle w) {slot : Slot} (live : Live slot) {node : TimerNode}
    (listed : node ∈ w.wheel.lists slot) : 0 < distance w.wheel.time node.expire := by
  have fits := idle.core.fits slot live node listed
  cases slot with
  | t level idx =>
    obtain ⟨-, block, -⟩ := fits
    exact lt_of_le_of_lt (Nat.zero_le _) block
  | near idx =>
    by_contra late
    have index := fits.2
    have zero : distance w.wheel.time node.expire = 0 := by omega
    rw [distance_eq] at zero
    have bound := w.wheel.time.toNat_lt
    have bound' := node.expire.toNat_lt
    have here : idx = nearIdx w.wheel.time := by
      apply Fin.ext
      rw [nearIdx_val]
      omega
    rw [here, idle.silent] at listed
    exact absurd listed (by simp)

/-- What `timer_shift` does to the lists: a live list whose block begins is distributed, and
everything else stays. -/
theorem timerShift_lists (T : Wheel) :
    ∃ T', Leaves (fun fuel => timerShift fuel T) T' ∧ T'.time = T.time + 1 ∧
      T'.pending = T.pending ∧
      (∀ slot node, node ∈ T'.lists slot →
        (node ∈ T.lists slot ∧ ∀ level idx, Comes (T.time + 1) level idx → slot ≠ .t level idx) ∨
        ∃ level idx, Comes (T.time + 1) level idx ∧ node ∈ T.lists (.t level idx) ∧
          slotFor node.expire (T.time + 1) = slot) ∧
      (∀ slot node, ¬ Live slot → node ∈ T.lists slot → node ∈ T'.lists slot) := by
  obtain ⟨T', leaves, moved⟩ := timerShift_spec T
  have samePending : Wheel.pending { T with time := T.time + 1 } = T.pending := by
    unfold Wheel.pending
    rfl
  refine ⟨T', leaves, ?_⟩
  rcases moved with ⟨level, idx, comes, rfl⟩ | ⟨none, rfl⟩
  · refine ⟨time_moveList .., ?_, ?_, ?_⟩
    · rw [pending_moveList, samePending]
    · intro slot node listed
      rcases mem_moveList.mp listed with ⟨other, old⟩ | ⟨old, picked⟩
      · refine Or.inl ⟨old, ?_⟩
        intro level' idx' comes' same
        obtain ⟨rfl, rfl⟩ := comes.unique comes'
        exact other same
      · exact Or.inr ⟨level, idx, comes, old, picked⟩
    · intro slot node dead old
      refine mem_moveList.mpr (Or.inl ⟨?_, old⟩)
      intro same
      rw [same] at dead
      exact dead comes.2.2
  · refine ⟨rfl, samePending, ?_, ?_⟩
    · intro slot node listed
      exact Or.inl ⟨listed, fun level idx comes => absurd comes (none level idx)⟩
    · exact fun slot node _ old => old

/-- `timer_shift` returns and carries the invariant over the tick. -/
theorem Idle.shift {w : World} (idle : Idle w) :
    ∃ wheel, Leaves (fun fuel => timerShift fuel w.wheel) wheel ∧
      Core [] { w with wheel, ticks := w.ticks + 1 } := by
  obtain ⟨wheel, leaves, time, pending, placed, kept⟩ := timerShift_lists w.wheel
  have core := idle.core
  refine ⟨wheel, leaves, ?_, ?_, core.distinct, core.allocated, core.onTime, ?_, core.recorded, ?_,
    fun timer _ held => absurd held (by simp), core.exactly, ?_, ?_⟩
  · intro slot live node listed
    change Fits wheel.time node.expire slot
    rw [time]
    rcases placed slot node listed with ⟨old, stays⟩ | ⟨level, idx, comes, old, picked⟩
    · rcases (core.fits slot live node old).tick (idle.ahead live old) with fits |
        ⟨level, idx, rfl, start, index⟩
      · exact fits
      · exact absurd rfl (stays level idx ⟨start, index, live⟩)
    · rw [← picked]
      exact slotFor_fits ..
  · change wheel.pending + _ + _ = _
    rw [pending]
    exact core.conserved
  · change wheel.time.toNat = (w.ticks + 1) % 4294967296
    have next : (w.wheel.time + 1).toNat = (w.wheel.time.toNat + 1) % 4294967296 :=
      UInt32.toNat_add w.wheel.time 1
    have now := core.clock
    rw [time, next]
    omega
  · intro timer known slot live listed
    change _ = w.ticks + 1 + distance wheel.time timer.node.expire
    have closer : ∀ slot, Live slot → timer.node ∈ w.wheel.lists slot →
        timer.tick + timer.delay.toUInt32.toNat =
          w.ticks + 1 + distance (w.wheel.time + 1) timer.node.expire := by
      intro slot live old
      have due := core.due timer known slot live old
      have tick := distance_tick (idle.ahead live old)
      omega
    rw [time]
    rcases placed slot timer.node listed with ⟨old, -⟩ | ⟨level, idx, comes, old, -⟩
    · exact closer slot live old
    · exact closer _ comes.2.2 old
  · intro timer known isLost
    have dead := (lost_iff (core.recorded timer known).1).mp isLost
    rw [← (core.recorded timer known).2.2] at dead
    exact kept _ _ dead (core.stuck timer known isLost)
  · intro timer known slot dead listed
    rcases placed slot timer.node listed with ⟨old, -⟩ | ⟨level, idx, comes, old, picked⟩
    · exact core.dead timer known slot dead old
    · have begins := (core.fits _ comes.2.2 _ old).begins (idle.ahead comes.2.2 old) comes
      rw [← picked] at dead
      exact absurd (slotFor_live begins) dead

/-- `timer_update` returns, one tick later. -/
theorem Idle.update {w : World} (idle : Idle w) (script : List (List Request)) :
    ∃ w', Leaves (fun fuel => timerUpdate fuel { w with script }) w' ∧ Idle w' ∧
      w'.ticks = w.ticks + 1 ∧ ∀ timer ∈ w.added, timer ∈ w'.added := by
  have start : Core [] { w with script } := idle.core.memory w.cancel le_rfl script
  have first : Leaves (fun fuel => timerExecute fuel { w with script }) { w with script } := by
    refine leaves_now ?_
    have empty := idle.silent
    simp [timerExecutePass, empty]
  have scripted : Idle { w with script } := ⟨start, idle.silent⟩
  obtain ⟨wheel, shifted, core⟩ := scripted.shift
  obtain ⟨w', executed, idle', quiet⟩ := timerExecute_spec core
  exact ⟨w', first.bind (shifted.bind executed), idle', quiet.ticks, quiet.added⟩

/-- Every event keeps the state between calls. -/
theorem Idle.step {w w' : World} {event : Event} (idle : Idle w) (step : Step w event w') :
    Idle w' := by
  cases step with
  | request r =>
    obtain ⟨core, quiet⟩ := idle.core.request r
    refine ⟨core, ?_⟩
    rw [quiet.time]
    exact quiet.silent idle.silent
  | update script returns =>
    obtain ⟨w'', leaves, idle', -⟩ := idle.update script
    rw [returns.unique leaves]
    exact idle'

/-- Every run from `init_timer` ends in a state between calls. -/
theorem run_idle {cancel : Nat → UInt8} {trace : List Event} {w : World}
    (run : Run Step (initTimer cancel) trace w) : Idle w := by
  refine run.invariant Idle ⟨core_init cancel, rfl⟩ ?_
  intro state event next idle step
  exact idle.step step

/-- Any number of ticks can follow a run. -/
theorem run_ticks {cancel : Nat → UInt8} {trace : List Event} {w : World} (count : Nat)
    (run : Run Step (initTimer cancel) trace w) :
    ∃ trace' w', Run Step (initTimer cancel) trace' w' ∧ w'.ticks = w.ticks + count ∧
      ∀ timer ∈ w.added, timer ∈ w'.added := by
  induction count with
  | zero => exact ⟨trace, w, run, rfl, fun _ => id⟩
  | succ count ih =>
    obtain ⟨trace', w', run', ticks, kept⟩ := ih
    obtain ⟨w'', leaves, -, tick, kept'⟩ := (run_idle run').update []
    refine ⟨_, w'', run'.snoc (Step.update [] leaves), by omega, ?_⟩
    exact fun timer old => kept' timer (kept timer old)

/-- The numbers of the added nodes are distinct, also as a multiset of nodes. -/
theorem Core.addr_nodup {hand : List TimerNode} {w : World} (core : Core hand w) :
    Multiset.Nodup (Multiset.map TimerNode.addr
      (w.added.map Added.node : Multiset TimerNode)) := by
  rw [Multiset.map_coe, Multiset.coe_nodup, List.map_map]
  exact core.distinct

/-- A dispatched node is in no list. -/
theorem Core.not_listed {hand : List TimerNode} {w : World} (core : Core hand w)
    {entry : Dispatch} (logged : entry ∈ w.dispatched) (slot : Slot) :
    entry.node ∉ w.wheel.lists slot := by
  have unique := Multiset.Nodup.of_map _ core.addr_nodup
  rw [← core.conserved, Multiset.nodup_add] at unique
  intro listed
  have inLists : entry.node ∈ w.wheel.pending + hand :=
    Multiset.mem_add.mpr (Or.inl (mem_pending.mpr ⟨slot, listed⟩))
  exact Multiset.disjoint_left.mp unique.2.2 inLists
    (Multiset.mem_coe.mpr (List.mem_map_of_mem logged))

/-- Once its delay has passed, a timer is in a list exactly when it is lost. -/
theorem Idle.listed_iff {w : World} (idle : Idle w) {timer : Added} (known : timer ∈ w.added)
    (passed : timer.tick + timer.delay.toUInt32.toNat ≤ w.ticks) :
    (∃ slot, timer.node ∈ w.wheel.lists slot) ↔ Lost timer.time timer.delay := by
  constructor
  · rintro ⟨slot, listed⟩
    by_cases live : Live slot
    · have due := idle.core.due timer known slot live listed
      have ahead := idle.ahead live listed
      omega
    · exact idle.core.dead timer known slot live listed
  · intro isLost
    exact ⟨_, idle.core.stuck timer known isLost⟩

/-- In every run from `init_timer` every node handed to `dispatch_list` expires at that very
moment, after as many ticks as were asked for, no node is handed over twice, and between
calls the list of the moment is empty. Every next tick returns. -/
theorem run_fires_on_time {cancel : Nat → UInt8} {trace : List Event} {w : World}
    (run : Run Step (initTimer cancel) trace w) :
    (∀ entry ∈ w.dispatched, entry.node.expire = entry.time) ∧
    (∀ entry ∈ w.dispatched, ∃ timer ∈ w.added, timer.node = entry.node ∧
      entry.tick = timer.tick + timer.delay.toUInt32.toNat) ∧
    (w.dispatched.map fun entry => entry.node.addr).Nodup ∧
    w.wheel.lists (.near (nearIdx w.wheel.time)) = [] ∧
    ∀ script, ∃ w', Step w (.update script) w' := by
  have idle := run_idle run
  refine ⟨idle.core.onTime, ?_, ?_, idle.silent, ?_⟩
  · intro entry logged
    obtain ⟨timer, known, same⟩ :=
      (idle.core.known_iff entry.node).mpr (Or.inr (Or.inr ⟨entry, logged, rfl⟩))
    exact ⟨timer, known, same, idle.core.exactly timer known entry logged same.symm⟩
  · have part : (w.dispatched.map Dispatch.node : Multiset TimerNode) ≤
        (w.added.map Added.node : Multiset TimerNode) := by
      rw [← idle.core.conserved]
      exact Multiset.le_add_left _ _
    have inherited := Multiset.nodup_of_le (Multiset.map_le_map part) idle.core.addr_nodup
    rw [Multiset.map_coe, Multiset.coe_nodup, List.map_map] at inherited
    exact inherited
  · intro script
    obtain ⟨w', leaves, -⟩ := idle.update script
    exact ⟨w', Step.update script leaves⟩

/-- A shift that returns under one fuel leaves with that wheel. -/
theorem leaves_timerShift {fuel : Nat} {T T' : Wheel} (returned : timerShift fuel T = some T') :
    Leaves (fun fuel => timerShift fuel T) T' := by
  unfold timerShift at returned ⊢
  dsimp only at returned ⊢
  split_ifs at returned ⊢ with wrapped
  · exact Leaves.of_forall fun _ => returned
  · obtain ⟨moved, left, rfl⟩ := Option.map_eq_some_iff.mp returned
    obtain ⟨bound, passes⟩ := leaves_of_loop (Option.join_eq_some_iff.mp left)
    refine ⟨bound, fun fuel enough => ?_⟩
    have found := passes fuel enough
    dsimp only at found ⊢
    rw [found]
    rfl

/-- Execute an event under a fuel. -/
def Event.exec (fuel : Nat) (w : World) : Event → Option World
  | .request r => some (Timewheel.request w r)
  | .update script => timerUpdate fuel { w with script }

/-- An event that was executed is a step. -/
theorem step_of_exec {fuel : Nat} {w w' : World} {event : Event}
    (done : event.exec fuel w = some w') : Step w event w' := by
  cases event with
  | request r =>
    rw [← Option.some.inj done]
    exact Step.request r
  | update script =>
    refine Step.update script ?_
    obtain ⟨before, executed, ticked⟩ := Option.bind_eq_some_iff.mp done
    obtain ⟨wheel, shifted, last⟩ := Option.bind_eq_some_iff.mp ticked
    exact (leaves_of_loop executed).bind ((leaves_timerShift shifted).bind (leaves_of_loop last))

/-- Two timers of delay 2, one of them deleted; the callback of the other adds two more. The timers
of delay 300 and 298 come down from a level to the near lists at time 256. -/
def cascaded : List Event :=
  [.request (.add 300 0), .request (.add 2 0), .request (.add 2 0), .request (.del 1), .update [],
    .update [[.add 298 0, .add 5 9]]] ++ List.replicate 298 (.update [])

/-- The deleted node and the one for which `malloc` left 9 are skipped. -/
theorem cascaded_run : ∃ w, Run Step (initTimer fun _ => 0) cascaded w ∧
    (⟨⟨0, 300⟩, 0, 300, 0⟩ : Added) ∈ w.added ∧ w.ticks = 300 ∧
    w.dispatched.map (fun entry => (entry.node.addr, entry.tick, entry.called)) =
      [(1, 2, false), (2, 2, true), (4, 7, false), (0, 300, true), (3, 300, true)] := by
  have ends : (cascaded.foldlM (Event.exec 9) (initTimer fun _ => 0)).any (fun w : World =>
      w.added.head? = some ⟨⟨0, 300⟩, 0, 300, 0⟩ ∧ w.ticks = 300 ∧
      w.dispatched.map (fun entry => (entry.node.addr, entry.tick, entry.called)) =
        [(1, 2, false), (2, 2, true), (4, 7, false), (0, 300, true), (3, 300, true)]) = true := by
    decide +kernel
  obtain ⟨w, done, facts⟩ := (Option.any_eq_true _ _).mp ends
  obtain ⟨first, rest⟩ := of_decide_eq_true facts
  exact ⟨w, (Run.of_foldlM done).mono fun _ _ _ => step_of_exec, List.mem_of_mem_head? first, rest⟩

/-- The node of the timer that came down from a level is handed over after 300 ticks, at its
expiry. -/
theorem run_fires_on_time_cascaded : ∃ w, Run Step (initTimer fun _ => 0) cascaded w ∧
    ∃ entry ∈ w.dispatched, (entry.node.addr, entry.tick, entry.called) = (0, 300, true) ∧
      entry.node.expire = entry.time ∧
      ∃ timer ∈ w.added, timer.node = entry.node ∧
        entry.tick = timer.tick + timer.delay.toUInt32.toNat := by
  obtain ⟨w, run, -, -, history⟩ := cascaded_run
  have logged : (0, 300, true) ∈
      w.dispatched.map (fun entry => (entry.node.addr, entry.tick, entry.called)) := by
    rw [history]
    decide
  obtain ⟨entry, member, same⟩ := List.mem_map.mp logged
  obtain ⟨onTime, exactly, -⟩ := run_fires_on_time run
  exact ⟨w, run, entry, member, same, onTime entry member, exactly entry member⟩

/-- In every run from `init_timer`, once the delay of a timer has passed, its node is gone
from all lists, and was dispatched, exactly when `add_node` did not put it into a list that
nothing empties. -/
theorem run_loses_iff {cancel : Nat → UInt8} {trace : List Event} {w : World}
    (run : Run Step (initTimer cancel) trace w) (timer : Added) (known : timer ∈ w.added)
    (passed : timer.tick + timer.delay.toUInt32.toNat ≤ w.ticks) :
    ((∀ slot, timer.node ∉ w.wheel.lists slot) ↔ ¬ Lost timer.time timer.delay) ∧
    ((∃ entry ∈ w.dispatched, entry.node = timer.node) ↔ ¬ Lost timer.time timer.delay) := by
  have idle := run_idle run
  have listed := idle.listed_iff known passed
  have places := (idle.core.known_iff timer.node).mp ⟨timer, known, rfl⟩
  refine ⟨?_, ?_, ?_⟩
  · rw [← listed, not_exists]
  · rintro ⟨entry, logged, same⟩ isLost
    obtain ⟨slot, held⟩ := listed.mpr isLost
    rw [← same] at held
    exact idle.core.not_listed logged slot held
  · intro found
    rcases places with held | held | dispatched
    · exact absurd (listed.mp held) found
    · exact absurd held (by simp)
    · exact dispatched

/-- A delay of 16383 asked for at time 1 expires at 16384, which is a multiple of 16384. -/
theorem lost_example : Lost 1 16383 := by
  refine ⟨0, by decide, by decide, by decide, by decide⟩

/-- A run in which a timer of delay 16383 is added at time 1, and as many ticks follow. -/
theorem lost_run : ∃ trace w timer, Run Step (initTimer fun _ => 0) trace w ∧
    timer ∈ w.added ∧ timer.time = 1 ∧ timer.delay = 16383 ∧
    timer.tick + timer.delay.toUInt32.toNat = w.ticks := by
  have start : Run Step (initTimer fun _ => 0) [] (initTimer fun _ => 0) := Run.nil
  obtain ⟨trace, w, run, ticks, -⟩ := run_ticks 1 start
  have idle := run_idle run
  have clock := idle.core.clock
  have time : w.wheel.time = 1 := by
    rw [← UInt32.toNat_inj, clock, ticks]
    rfl
  have added := run.snoc (Step.request (.add 16383 0))
  obtain ⟨trace', w', run', ticks', kept⟩ := run_ticks 16383 added
  have known := kept ⟨⟨w.allocated, (16383 : Int32).toUInt32 + w.wheel.time⟩, w.wheel.time, 16383,
    w.ticks⟩ (List.mem_append_right _ List.mem_cons_self)
  refine ⟨trace', w', _, run', known, time, rfl, ?_⟩
  rw [ticks']
  rfl

/-- At time 1 a timer with delay 16383 is added; 16383 ticks later its node is in a list. -/
theorem run_loses_timer : ∃ trace w timer, Run Step (initTimer fun _ => 0) trace w ∧
    timer ∈ w.added ∧ timer.time = 1 ∧ timer.delay = 16383 ∧
    timer.tick + timer.delay.toUInt32.toNat = w.ticks ∧
    ∃ slot, timer.node ∈ w.wheel.lists slot := by
  obtain ⟨trace, w, timer, run, known, time, delay, passed⟩ := lost_run
  refine ⟨trace, w, timer, run, known, time, delay, passed, ?_⟩
  refine ((run_idle run).listed_iff known passed.le).mpr ?_
  rw [time, delay]
  exact lost_example

/-- A timer of delay 300, added at time 0, is not lost. -/
theorem not_lost_cascaded : ¬ Lost 0 300 := by
  rintro ⟨level, -, low, -, zero⟩
  have delay : (300 : Int32).toInt = 300 := by decide
  have far : ∀ level : Fin 4, level ≠ 0 → 16384 ≤ unit level := by decide
  by_cases first : level = 0
  · rw [first] at zero
    exact absurd zero (by decide)
  · have above := far level first
    omega

/-- A timer that came down from a level is handed over; one that `add_node` put into a list that
nothing empties is not. -/
theorem run_loses_iff_cascaded :
    (∃ w, Run Step (initTimer fun _ => 0) cascaded w ∧
      ∃ entry ∈ w.dispatched, entry.node = ⟨0, 300⟩) ∧
    ∃ trace w timer, Run Step (initTimer fun _ => 0) trace w ∧ timer ∈ w.added ∧
      timer.tick + timer.delay.toUInt32.toNat = w.ticks ∧
      ¬ ∃ entry ∈ w.dispatched, entry.node = timer.node := by
  constructor
  · obtain ⟨w, run, known, ticks, -⟩ := cascaded_run
    have passed : 0 + (300 : Int32).toUInt32.toNat ≤ w.ticks := by
      rw [ticks]
      decide
    exact ⟨w, run, (run_loses_iff run _ known passed).2.mpr not_lost_cascaded⟩
  · obtain ⟨trace, w, timer, run, known, time, delay, passed⟩ := lost_run
    have isLost : Lost timer.time timer.delay := by
      rw [time, delay]
      exact lost_example
    refine ⟨trace, w, timer, run, known, passed, ?_⟩
    intro found
    exact (run_loses_iff run timer known passed.le).2.mp found isLost

end BackendCpp.Timewheel
