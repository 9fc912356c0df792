import BackendCpp.Timewheel.Slots

/-!
# The invariant of the wheel

Between any two writes of the wheel every node that was added is in exactly one place: in
one list, or in the hand of `dispatch_list`, or dispatched. `Core` says so as an equation of
multisets, together with what the place means for the time that is left. Nodes in a list
that is not live are the exception: nothing takes them out again, and they are exactly the
nodes that were put there when they were added.
-/

namespace BackendCpp.Timewheel

open BackendCpp.Library

/-- All nodes in lists of the wheel. -/
@[irreducible] def Wheel.pending (T : Wheel) : Multiset TimerNode :=
  ∑ slot, (T.lists slot : Multiset TimerNode)

/-- Changing one summand. -/
theorem sum_update_add {κ α : Type*} [Fintype κ] [DecidableEq κ] [AddCommMonoid α] (f : κ → α)
    (k : κ) (b : α) : ∑ x, Function.update f k b x + f k = ∑ x, f x + b := by
  rw [Finset.sum_update_of_mem (Finset.mem_univ k),
    Finset.sum_eq_add_sum_sdiff_singleton_of_mem (Finset.mem_univ k) f]
  ac_rfl

/-- A node is pending when some list has it. -/
theorem mem_pending {T : Wheel} {node : TimerNode} :
    node ∈ T.pending ↔ ∃ slot, node ∈ T.lists slot := by
  unfold Wheel.pending
  rw [Multiset.mem_sum]
  simp only [Finset.mem_univ, true_and, Multiset.mem_coe]

/-- Rewriting one list of the wheel. -/
theorem pending_update (T : Wheel) (slot : Slot) (list : List TimerNode) :
    Wheel.pending { T with lists := Function.update T.lists slot list } + T.lists slot =
      T.pending + list := by
  have change := sum_update_add (fun slot => (T.lists slot : Multiset TimerNode)) slot list
  have same : (fun other => ((Function.update T.lists slot list other : List TimerNode) :
      Multiset TimerNode)) =
      Function.update (fun slot => (T.lists slot : Multiset TimerNode)) slot list := by
    funext other
    by_cases here : other = slot
    · subst here
      simp
    · simp [Function.update_of_ne here]
  unfold Wheel.pending
  rw [same]
  exact change

/-- Appending a node. -/
theorem pending_link (T : Wheel) (slot : Slot) (node : TimerNode) :
    (link T slot node).pending = T.pending + {node} := by
  have change := pending_update T slot (T.lists slot ++ [node])
  have split : ((T.lists slot ++ [node] : List TimerNode) : Multiset TimerNode) =
      {node} + T.lists slot := by
    rw [← Multiset.coe_add, add_comm]
    rfl
  rw [split, ← add_assoc] at change
  exact add_right_cancel change

/-- Emptying a list. -/
theorem pending_linkClear (T : Wheel) (slot : Slot) :
    (linkClear T slot).pending + T.lists slot = T.pending := by
  have change := pending_update T slot []
  rw [Multiset.coe_nil, add_zero] at change
  exact change

/-- Adding nodes one by one puts each at the end of the list that `add_node` picks. -/
theorem foldl_addNode (nodes : List TimerNode) (T : Wheel) :
    (nodes.foldl addNode T).time = T.time ∧
      (∀ slot, (nodes.foldl addNode T).lists slot =
        T.lists slot ++ nodes.filter fun node => slotFor node.expire T.time = slot) ∧
      (nodes.foldl addNode T).pending = T.pending + nodes := by
  induction nodes generalizing T with
  | nil => simp
  | cons node nodes ih =>
    obtain ⟨time, lists, pending⟩ := ih (addNode T node)
    have sameTime : (addNode T node).time = T.time := rfl
    rw [sameTime] at time lists
    refine ⟨time, ?_, ?_⟩
    · intro slot
      rw [List.foldl_cons, lists slot, List.filter_cons]
      unfold addNode link
      by_cases here : slotFor node.expire T.time = slot
      · subst here
        simp
      · have other : slot ≠ slotFor node.expire T.time := fun same => here same.symm
        simp [here, Function.update_of_ne other]
    · rw [List.foldl_cons, pending]
      unfold addNode
      rw [pending_link, add_assoc]
      rfl

/-- `move_list` loses and invents no node. -/
theorem pending_moveList (T : Wheel) (level : Fin 4) (idx : Fin 64) :
    (moveList T level idx).pending = T.pending := by
  unfold moveList
  rw [(foldl_addNode _ _).2.2, pending_linkClear]

/-- Where the nodes are after `move_list`. -/
theorem mem_moveList {T : Wheel} {level : Fin 4} {idx : Fin 64} {slot : Slot} {node : TimerNode} :
    node ∈ (moveList T level idx).lists slot ↔
      (slot ≠ .t level idx ∧ node ∈ T.lists slot) ∨
        (node ∈ T.lists (.t level idx) ∧ slotFor node.expire T.time = slot) := by
  unfold moveList
  rw [(foldl_addNode _ _).2.1, List.mem_append, List.mem_filter]
  have sameTime : (linkClear T (.t level idx)).time = T.time := rfl
  rw [sameTime]
  unfold linkClear
  by_cases here : slot = .t level idx
  · subst here
    simp
  · simp [here]

/-- Moving a list keeps the time. -/
@[simp] theorem time_moveList (T : Wheel) (level : Fin 4) (idx : Fin 64) :
    (moveList T level idx).time = T.time := (foldl_addNode _ _).1

/-- The delay that `add_node` sees for a positive delay. -/
theorem distance_added (delay : Int32) (time : UInt32) :
    distance time (delay.toUInt32 + time) = delay.toUInt32.toNat := by
  unfold distance
  rw [UInt32.add_sub_cancel]

/-- A positive `int` is the same number as a word. -/
theorem toUInt32_of_pos {delay : Int32} (positive : 0 < delay) :
    (delay.toUInt32.toNat : Int) = delay.toInt := by
  have nonneg : 0 ≤ delay := Int32.le_of_lt positive
  have value : 0 ≤ delay.toInt := Int32.le_iff_toInt_le.mp nonneg
  rw [Int32.toNat_toUInt32_of_le nonneg, ← Int32.toNat_toInt]
  exact Int.toNat_of_nonneg value

/-- The lost nodes are those for which `add_node` picks a list that is not live. -/
theorem lost_iff {time : UInt32} {delay : Int32} (positive : 0 < delay) :
    Lost time delay ↔ ¬ Live (slotFor (delay.toUInt32 + time) time) := by
  have size := toUInt32_of_pos positive
  have far := distance_added delay time
  rcases slotFor_cases (delay.toUInt32 + time) time with ⟨near, picked⟩ |
    ⟨level, idx, picked, index, low, high⟩
  · rw [picked]
    constructor
    · rintro ⟨level, -, low, -⟩
      have smallest : 256 ≤ unit level := Nat.le_mul_of_pos_right 256 (Nat.pow_pos (by decide))
      omega
    · intro dead
      exact absurd trivial dead
  · rw [picked]
    constructor
    · rintro ⟨other, inner, low', high', zero⟩ live
      have same : other = level := by
        fin_cases other <;> fin_cases level <;> simp at low high low' high' ⊢ <;> omega
      subst same
      rcases live with last | nonzero
      · exact inner last
      · exact nonzero (Fin.ext (index.trans zero))
    · intro dead
      have parts : level ≠ 3 ∧ idx = 0 := by
        have unfolded : ¬ (level = 3 ∨ idx ≠ 0) := dead
        tauto
      refine ⟨level, parts.1, by omega, by omega, ?_⟩
      rw [← index, parts.2]
      rfl

/-- The state of the world between two writes, while `hand` is being dispatched. -/
structure Core (hand : List TimerNode) (w : World) : Prop where
  /-- Nodes in live lists are rightly there. -/
  fits : ∀ slot, Live slot → ∀ node ∈ w.wheel.lists slot, Fits w.wheel.time node.expire slot
  /-- Every added node is in a list, in the hand or dispatched, and in one of them only. -/
  conserved : w.wheel.pending + hand + (w.dispatched.map Dispatch.node : Multiset TimerNode) =
    (w.added.map Added.node : Multiset TimerNode)
  /-- No two added nodes are the same. -/
  distinct : (w.added.map fun timer => timer.node.addr).Nodup
  /-- The numbers of the added nodes are in use. -/
  allocated : ∀ timer ∈ w.added, timer.node.addr < w.allocated
  /-- Every node was dispatched at its expiry. -/
  onTime : ∀ entry ∈ w.dispatched, entry.node.expire = entry.time
  /-- The time counts the ticks. -/
  clock : w.wheel.time.toNat = w.ticks % 4294967296
  /-- What `add_timer` recorded. -/
  recorded : ∀ timer ∈ w.added, 0 < timer.delay ∧ timer.time.toNat = timer.tick % 4294967296 ∧
    timer.node.expire = timer.delay.toUInt32 + timer.time
  /-- A node in a live list has as many ticks to go as its distance says. -/
  due : ∀ timer ∈ w.added, ∀ slot, Live slot → timer.node ∈ w.wheel.lists slot →
    timer.tick + timer.delay.toUInt32.toNat = w.ticks + distance w.wheel.time timer.node.expire
  /-- A node in the hand is at the tick that was asked for. -/
  ready : ∀ timer ∈ w.added, timer.node ∈ hand →
    timer.tick + timer.delay.toUInt32.toNat = w.ticks + distance w.wheel.time timer.node.expire
  /-- A dispatched node was dispatched after as many ticks as were asked for. -/
  exactly : ∀ timer ∈ w.added, ∀ entry ∈ w.dispatched, entry.node = timer.node →
    entry.tick = timer.tick + timer.delay.toUInt32.toNat
  /-- A lost node stays where it was put. -/
  stuck : ∀ timer ∈ w.added, Lost timer.time timer.delay →
    timer.node ∈ w.wheel.lists (slotFor timer.node.expire timer.time)
  /-- Only lost nodes are in lists that are not live. -/
  dead : ∀ timer ∈ w.added, ∀ slot, ¬ Live slot → timer.node ∈ w.wheel.lists slot →
    Lost timer.time timer.delay

/-- The added nodes are those in lists, in the hand and dispatched. -/
theorem Core.known_iff {hand : List TimerNode} {w : World} (core : Core hand w)
    (node : TimerNode) :
    (∃ timer ∈ w.added, timer.node = node) ↔
      (∃ slot, node ∈ w.wheel.lists slot) ∨ node ∈ hand ∨
        ∃ entry ∈ w.dispatched, entry.node = node := by
  have total : node ∈ (w.added.map Added.node : Multiset TimerNode) ↔
      ((∃ slot, node ∈ w.wheel.lists slot) ∨ node ∈ hand) ∨
        node ∈ w.dispatched.map Dispatch.node := by
    rw [← core.conserved, Multiset.mem_add, Multiset.mem_add, mem_pending, Multiset.mem_coe,
      Multiset.mem_coe]
  rw [Multiset.mem_coe, List.mem_map, List.mem_map, or_assoc] at total
  exact total

/-- The world at the start. -/
theorem core_init (cancel : Nat → UInt8) : Core [] (initTimer cancel) where
  fits := by simp [initTimer, timerCreateTimer]
  conserved := by
    have empty : timerCreateTimer.pending = 0 := by
      unfold Wheel.pending
      exact Finset.sum_eq_zero fun _ _ => rfl
    change timerCreateTimer.pending + 0 + 0 = 0
    rw [empty]
    rfl
  distinct := by simp [initTimer]
  allocated := by simp [initTimer]
  onTime := by simp [initTimer]
  clock := rfl
  recorded := by simp [initTimer]
  due := by simp [initTimer]
  ready := by simp [initTimer]
  exactly := by simp [initTimer]
  stuck := by simp [initTimer]
  dead := by simp [initTimer]

/-- The memory around the wheel may change as long as the count of allocations grows. -/
theorem Core.memory {hand : List TimerNode} {w : World} (core : Core hand w) (cancel : Nat → UInt8)
    {allocated : Nat} (grows : w.allocated ≤ allocated) (script : List (List Request)) :
    Core hand { w with cancel, allocated, script } where
  fits := core.fits
  conserved := core.conserved
  distinct := core.distinct
  allocated timer member := lt_of_lt_of_le (core.allocated timer member) grows
  onTime := core.onTime
  clock := core.clock
  recorded := core.recorded
  due := core.due
  ready := core.ready
  exactly := core.exactly
  stuck := core.stuck
  dead := core.dead

/-- A new node with a positive delay. -/
theorem Core.added {hand : List TimerNode} {w : World} (core : Core hand w) {delay : Int32}
    (positive : 0 < delay) {node : TimerNode} (expire : node.expire = delay.toUInt32 + w.wheel.time)
    (fresh : ∀ timer ∈ w.added, timer.node.addr ≠ node.addr) (inUse : node.addr < w.allocated) :
    Core hand { w with
      wheel := addNode w.wheel node
      added := w.added ++ [⟨node, w.wheel.time, delay, w.ticks⟩] } := by
  have lists : ∀ slot, (addNode w.wheel node).lists slot =
      w.wheel.lists slot ++ [node].filter fun node => slotFor node.expire w.wheel.time = slot :=
    (foldl_addNode [node] w.wheel).2.1
  have member : ∀ {slot other}, other ∈ (addNode w.wheel node).lists slot ↔
      other ∈ w.wheel.lists slot ∨ (other = node ∧ slotFor node.expire w.wheel.time = slot) := by
    intro slot other
    rw [lists, List.mem_append, List.mem_filter, List.mem_singleton, decide_eq_true_eq]
    constructor
    · rintro (old | ⟨rfl, picked⟩)
      · exact Or.inl old
      · exact Or.inr ⟨rfl, picked⟩
    · rintro (old | ⟨rfl, picked⟩)
      · exact Or.inl old
      · exact Or.inr ⟨rfl, picked⟩
  have unknown : ¬ ((∃ slot, node ∈ w.wheel.lists slot) ∨ node ∈ hand ∨
      ∃ entry ∈ w.dispatched, entry.node = node) := by
    intro old
    obtain ⟨timer, listed, same⟩ := (core.known_iff node).mpr old
    exact fresh timer listed (congrArg TimerNode.addr same)
  have notNew : ∀ timer ∈ w.added, timer.node ≠ node := by
    intro timer listed same
    exact fresh timer listed (congrArg TimerNode.addr same)
  have lost := @lost_iff w.wheel.time _ positive
  rw [← expire] at lost
  refine ⟨?_, ?_, ?_, ?_, core.onTime, core.clock, ?_, ?_, ?_, ?_, ?_, ?_⟩
  · intro slot live other listed
    rcases member.mp listed with old | ⟨rfl, rfl⟩
    · exact core.fits slot live other old
    · exact slotFor_fits other.expire w.wheel.time
  · have pending : (addNode w.wheel node).pending = w.wheel.pending + {node} := pending_link ..
    have before := core.conserved
    rw [List.map_append, ← Multiset.coe_add, ← before, pending]
    change _ = _ + {node}
    ac_rfl
  · rw [List.map_append, List.nodup_append]
    refine ⟨core.distinct, List.nodup_singleton _, ?_⟩
    intro addr old other new clash
    obtain ⟨timer, listed, rfl⟩ := List.mem_map.mp old
    rw [List.map_singleton, List.mem_singleton] at new
    exact fresh timer listed (clash.trans new)
  · intro timer listed
    rw [List.mem_append, List.mem_singleton] at listed
    rcases listed with old | rfl
    · exact core.allocated timer old
    · exact inUse
  · intro timer listed
    rw [List.mem_append, List.mem_singleton] at listed
    rcases listed with old | rfl
    · exact core.recorded timer old
    · exact ⟨positive, core.clock, expire⟩
  · intro timer listed slot live place
    rw [List.mem_append, List.mem_singleton] at listed
    rcases listed with old | rfl
    · rcases member.mp place with held | ⟨same, -⟩
      · exact core.due timer old slot live held
      · exact absurd same (notNew timer old)
    · change w.ticks + delay.toUInt32.toNat = w.ticks + distance w.wheel.time node.expire
      rw [expire, distance_added]
  · intro timer listed held
    rw [List.mem_append, List.mem_singleton] at listed
    rcases listed with old | rfl
    · exact core.ready timer old held
    · exact absurd (Or.inr (Or.inl held)) unknown
  · intro timer listed entry logged same
    rw [List.mem_append, List.mem_singleton] at listed
    rcases listed with old | rfl
    · exact core.exactly timer old entry logged same
    · exact absurd (Or.inr (Or.inr ⟨entry, logged, same⟩)) unknown
  · intro timer listed isLost
    rw [List.mem_append, List.mem_singleton] at listed
    rcases listed with old | rfl
    · exact member.mpr (Or.inl (core.stuck timer old isLost))
    · exact member.mpr (Or.inr ⟨rfl, rfl⟩)
  · intro timer listed slot dead place
    rw [List.mem_append, List.mem_singleton] at listed
    rcases listed with old | rfl
    · rcases member.mp place with held | ⟨same, -⟩
      · exact core.dead timer old slot dead held
      · exact absurd same (notNew timer old)
    · rcases member.mp place with held | ⟨-, rfl⟩
      · exact absurd (Or.inl ⟨slot, held⟩) unknown
      · exact lost.mpr dead

/-- What a request leaves as it is: the time, the timers added before, and the emptiness of
the list of the moment. -/
structure Quiet (w w' : World) : Prop where
  /-- The time does not move. -/
  time : w'.wheel.time = w.wheel.time
  /-- The count of ticks neither. -/
  ticks : w'.ticks = w.ticks
  /-- No timer is forgotten. -/
  added : ∀ timer ∈ w.added, timer ∈ w'.added
  /-- Nothing enters the list of the moment. -/
  silent : w.wheel.lists (.near (nearIdx w.wheel.time)) = [] →
    w'.wheel.lists (.near (nearIdx w.wheel.time)) = []

/-- Quietness composes. -/
theorem Quiet.trans {w w' w'' : World} (first : Quiet w w') (second : Quiet w' w'') :
    Quiet w w'' where
  time := second.time.trans first.time
  ticks := second.ticks.trans first.ticks
  added timer old := second.added timer (first.added timer old)
  silent empty := by
    have next := second.silent
    rw [first.time] at next
    exact next (first.silent empty)

/-- A positive delay never leads to the list of the moment. -/
theorem slotFor_ne_now {time expire : UInt32} (ahead : 0 < distance time expire) :
    slotFor expire time ≠ .near (nearIdx time) := by
  rcases slotFor_cases expire time with ⟨near, picked⟩ | ⟨level, idx, picked, -⟩
  · rw [picked]
    intro same
    have index := congrArg Fin.val (Slot.near.inj same)
    rw [nearIdx_val, nearIdx_val] at index
    rw [distance_eq] at near ahead
    have bound := time.toNat_lt
    have bound' := expire.toNat_lt
    omega
  · rw [picked]
    exact fun same => nomatch same

/-- Serving a request keeps the invariant. -/
theorem Core.request {hand : List TimerNode} {w : World} (core : Core hand w) (r : Request) :
    Core hand (request w r) ∧ Quiet w (request w r) := by
  cases r with
  | del addr => exact ⟨core.memory _ le_rfl _, rfl, rfl, fun _ => id, id⟩
  | add delay junk =>
    have grown := core.memory (Function.update w.cancel w.allocated junk)
      (Nat.le_succ w.allocated) w.script
    by_cases none : delay ≤ 0
    · have result : Timewheel.request w (.add delay junk) =
          { w with
            allocated := w.allocated + 1
            cancel := Function.update w.cancel w.allocated junk } := if_pos none
      rw [result]
      exact ⟨grown, rfl, rfl, fun _ => id, id⟩
    · have positive : 0 < delay := Int32.not_le.mp none
      have result : Timewheel.request w (.add delay junk) =
          { w with
            allocated := w.allocated + 1
            cancel := Function.update w.cancel w.allocated junk
            wheel := addNode w.wheel ⟨w.allocated, delay.toUInt32 + w.wheel.time⟩
            added := w.added ++ [⟨⟨w.allocated, delay.toUInt32 + w.wheel.time⟩, w.wheel.time, delay,
              w.ticks⟩] } := if_neg none
      rw [result]
      have ahead : 0 < distance w.wheel.time (delay.toUInt32 + w.wheel.time) := by
        have size := toUInt32_of_pos positive
        have value : (0 : Int) < delay.toInt := Int32.lt_iff_toInt_lt.mp positive
        rw [distance_added]
        omega
      refine ⟨grown.added positive rfl ?_ (Nat.lt_succ_self _), rfl, rfl, ?_, ?_⟩
      · intro timer listed
        exact (core.allocated timer listed).ne
      · intro timer listed
        exact List.mem_append_left _ listed
      · intro empty
        have other := (slotFor_ne_now ahead).symm
        change Function.update w.wheel.lists _ _ _ = []
        rw [Function.update_of_ne other]
        exact empty

end BackendCpp.Timewheel
