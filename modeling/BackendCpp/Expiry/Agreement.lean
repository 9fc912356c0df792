import BackendCpp.Expiry.RbtTimer
import BackendCpp.Minheap.Runs

/-!
# What is due, in mh-timer.h and rbt-timer.h

Queues are built by `add_timer`. In the heap the first deadline is the least unsigned one, in
the tree it is the key of the least node. In both the two decisions agree exactly when the
first deadline is near the reading; a deadline beyond the wrap of the clock is run at once
although `find_nearest_expire_timer` says that there is time.
-/

namespace BackendCpp.Minheap

open BackendCpp.Library BackendCpp.Expiry

/-- `find_nearest_expire_timer` of mh-timer.h. -/
def findNearestExpireTimer (s : Timers) (now : UInt32) : Option Int :=
  match minHeapTop s with
  | none => none
  | some none => some (-1)
  | some (some te) => (s.time te).map (nearest · now)

/-- `expire_timer` of mh-timer.h, called at a reading, runs a handler first. -/
def Fires (s : Timers) (cur : UInt32) : Prop :=
  ∃ te time next, Step ⟨s, .scanning cur⟩ (.ran te time) next

/-- The queues built by `add_timer`. -/
def Built (s : Timers) : Prop :=
  ∃ rest trace, Run Step (start rest) trace ⟨s, .outside⟩ ∧
    ∀ event ∈ trace, ∃ te time, event = .added te time

/-- A deadline that is pending and not after any other. -/
def Timers.First (s : Timers) (time : UInt32) : Prop :=
  (∃ e, s.Pending e ∧ s.time e = some time) ∧
  ∀ e other, s.Pending e → s.time e = some other → time ≤ other

variable {s : Timers}

/-- Outside the slots nothing is moved up. -/
theorem shiftUpPass_outside {hole : Nat} (e : Nat) (positive : 0 < hole) (outside : s.a ≤ hole) :
    shiftUpPass e (s, hole) = none := by
  have start : hole ≠ 0 := Nat.ne_of_gt positive
  have refused (x : Nat) : s.put hole x = none := by
    rw [Timers.put, if_neg (not_lt.mpr outside)]
  cases above : s.slot (parentIndex hole) with
  | none => simp only [shiftUpPass, if_neg start, above, Option.bind_eq_bind, Option.bind_none]
  | some upper =>
    cases compared : s.elemGreater upper e with
    | none =>
      simp only [shiftUpPass, if_neg start, above, compared, Option.bind_eq_bind,
        Option.bind_some, Option.bind_none]
    | some answer =>
      simp only [shiftUpPass, if_neg start, above, compared, refused, Option.bind_eq_bind,
        Option.bind_some, Option.bind_none]
      cases answer <;> rfl

/-- When the number of entries would wrap, `add_timer` writes outside the slots. -/
theorem Sound.add_full (sound : Sound s) (full : s.n + 1 = word) (now msec : UInt32)
    (reallocs : Bool) :
    Leaves (fun fuel => addTimer fuel s now msec true reallocs) none := by
  have capacity := sound.capacity
  have wraps : (s.n + 1) % word = 0 := by rw [full, Nat.mod_self]
  have unfolded : ∀ fuel, addTimer fuel s now msec true reallocs =
      (minHeapShiftUp fuel (⟨Function.update s.entries s.fresh (some ⟨now + msec, 0⟩),
        s.fresh + 1, s.p, 0, s.a⟩ : Timers) s.n s.fresh).map
        (Option.map fun s' => (s', some s.fresh)) := by
    intro fuel
    simp only [addTimer, Bool.not_true, Bool.false_eq_true, if_false, minHeapReserve, wraps,
      Nat.not_lt_zero]
  have positive : 0 < s.n := by
    simp only [word] at full
    omega
  have pass := @shiftUpPass_outside (⟨Function.update s.entries s.fresh (some ⟨now + msec, 0⟩),
    s.fresh + 1, s.p, 0, s.a⟩ : Timers) s.n s.fresh positive (show s.a ≤ s.n by omega)
  have undefined := leaves_now (attempt_undefined pass)
  simp only [unfolded]
  exact undefined.map _

/-- `add_timer`, whenever it is defined, keeps the heap sound. -/
theorem Sound.add_any (sound : Sound s) {now msec : UInt32} {mallocs reallocs : Bool}
    {after : Timers} {te : Option Nat}
    (done : Leaves (fun fuel => addTimer fuel s now msec mallocs reallocs) (some (after, te))) :
    Sound after := by
  cases mallocs with
  | false =>
    have refused : Leaves (fun fuel => addTimer fuel s now msec false reallocs)
        (some (s, none)) := Leaves.of_forall fun _ => rfl
    cases done.unique refused
    exact sound
  | true =>
    have small := sound.small
    by_cases room : s.n + 1 < word
    · cases reserves : minHeapReserve { s with
        entries := Function.update s.entries s.fresh (some ⟨now + msec, 0⟩)
        fresh := s.fresh + 1 } ((s.n + 1) % word) reallocs with
      | none =>
        cases done.unique (Leaves.of_forall (sound.add_refused now msec reserves))
        exact sound.skip
      | some reserved =>
        obtain ⟨result, leaves, after, _⟩ := sound.add room now msec reserves
        cases done.unique leaves
        exact after
    · have full : s.n + 1 = word := by omega
      cases done.unique (sound.add_full full now msec reallocs)

/-- A queue built by `add_timer` is sound. -/
theorem Built.sound (built : Built s) : Sound s := by
  obtain ⟨rest, trace, run, adds⟩ := built
  have general : ∀ {labels : List Event} {state : State}, Run Step (start rest) labels state →
      (∀ event ∈ labels, ∃ te time, event = .added te time) → Sound state.timers := by
    intro labels state run
    induction run with
    | nil =>
      intro _
      exact sound_ctor rest
    | snoc before taken ih =>
      intro adds
      have sound := ih fun event member => adds event (List.mem_append_left _ member)
      obtain ⟨te, time, last⟩ := adds _ (List.mem_append_right _ (List.mem_singleton.mpr rfl))
      subst last
      cases taken with
      | add allowed done => exact sound.add_any done
  exact general run adds

/-- The root of a filled heap has the first deadline. -/
theorem Sound.first (sound : Sound s) (filled : 0 < s.n) :
    ∃ time, s.time (s.p 0) = some time ∧ s.First time := by
  obtain ⟨entry, found, _⟩ := sound.placed 0 filled
  have due : s.time (s.p 0) = some entry.time := by
    rw [Timers.time, found]
    rfl
  refine ⟨entry.time, due, ⟨s.p 0, ⟨0, filled, rfl⟩, due⟩, ?_⟩
  intro e other pending time
  obtain ⟨index, inside, same⟩ := pending
  have least := sound.heaped.root_le index inside
  rw [same, key_of_time due, key_of_time time] at least
  exact UInt32.le_iff_toNat_le.mpr least

/-- In mh-timer.h the decisions agree exactly when the first deadline, if any, is near. -/
theorem Sound.agrees (sound : Sound s) (now : UInt32) :
    Agrees (findNearestExpireTimer s) (Fires s) now ↔ ∀ time, s.First time → Near time now := by
  by_cases filled : 0 < s.n
  · have top := sound.top filled
    obtain ⟨time, due, first⟩ := sound.first filled
    have found : findNearestExpireTimer s now = some (nearest time now) := by
      rw [findNearestExpireTimer, top]
      change (s.time (s.p 0)).map _ = _
      rw [due]
      rfl
    have fires (reading : UInt32) : Fires s reading ↔ ¬ time > reading := by
      constructor
      · intro runs
        obtain ⟨te, other, next, step⟩ := runs
        cases step with
        | run isTop dueTop now =>
          rw [top] at isTop
          rw [← Option.some.inj (Option.some.inj isTop), due] at dueTop
          rw [Option.some.inj dueTop]
          exact now
      · intro now
        exact ⟨_, _, _, .run top due now⟩
    rw [agrees_iff_near found fires]
    constructor
    · intro near other firstOther
      obtain ⟨⟨e, pending, timeE⟩, least⟩ := first
      obtain ⟨⟨e', pending', timeE'⟩, least'⟩ := firstOther
      have same : other = time :=
        UInt32.le_antisymm (least' e time pending timeE) (least e' other pending' timeE')
      exact same ▸ near
    · intro all
      exact all time first
  · have empty : s.n = 0 := by omega
    constructor
    · intro _ time first
      obtain ⟨⟨e, ⟨index, inside, _⟩, _⟩, _⟩ := first
      omega
    · intro _
      apply agrees_empty
      · rw [findNearestExpireTimer, top_empty empty]
      · intro reading runs
        obtain ⟨te, other, next, step⟩ := runs
        cases step with
        | run isTop _ _ =>
          rw [top_empty empty] at isTop
          cases isTop

end BackendCpp.Minheap

namespace BackendCpp.Expiry

open BackendCpp.Library BackendCpp.Minheap

/-- In both timers the time to wait and the test for what is due agree exactly when the first
deadline, if there is one, is near the reading. -/
theorem due_decisions_agree (now : UInt32) :
    (∀ s, Built s →
      (Agrees (findNearestExpireTimer s) (Fires s) now ↔
        ∀ time, s.First time → Near time now)) ∧
    (∀ tree, RbtBuilt tree →
      (Agrees tree.findNearestExpireTimer (RbtFires tree) now ↔
        ∀ key, tree.min = some key → Near key now)) :=
  ⟨fun _ built => built.sound.agrees now, fun tree _ => rbt_agrees tree now⟩

/-- A heap with one timer, added at the reading `0xFFFFFFF0` with a delay of 32. -/
theorem one_timer :
    ∃ s, Built s ∧ minHeapTop s = some (some 0) ∧ s.time 0 = some 16 ∧ s.First 16 := by
  have room : (minHeapCtor fun _ => 0).n + 1 < word := by
    simp only [minHeapCtor, word]
    omega
  obtain ⟨reserved, reserves⟩ := reserve_granted { minHeapCtor (fun _ => 0) with
    entries := Function.update (fun _ => none) 0 (some ⟨4294967280 + 32, 0⟩)
    fresh := 0 + 1 } ((0 + 1) % word)
  obtain ⟨timers, leaves, sound, _, count, created, _, pending, _⟩ :=
    (sound_ctor fun _ => 0).add room 4294967280 32 reserves
  have size : timers.n = 1 := count
  have due : timers.time 0 = some 16 := created
  obtain ⟨index, inside, same⟩ := (pending 0).mpr (.inr rfl)
  have start' : index = 0 := by omega
  rw [start'] at same
  have top := sound.top (show 0 < timers.n by omega)
  obtain ⟨time, isDue, first⟩ := sound.first (show 0 < timers.n by omega)
  rw [same] at top isDue
  have sixteen : time = 16 := Option.some.inj (isDue.symm.trans due)
  have run : Run Step (start fun _ => 0) ([] ++ [.added (some 0) (4294967280 + 32)])
      ⟨timers, .outside⟩ := Run.nil.snoc (.add .outside leaves)
  refine ⟨timers, ⟨_, _, run, ?_⟩, top, due, sixteen ▸ first⟩
  intro event member
  exact ⟨some 0, _, List.mem_singleton.mp member⟩

/-- At the reading 4 the deadline 16 is near, and both queues agree. -/
theorem due_decisions_agree_sixteen :
    (∃ s, Built s ∧ s.First 16 ∧ Agrees (findNearestExpireTimer s) (Fires s) 4) ∧
      Agrees (RbTree.node .sentinel 16 .sentinel).findNearestExpireTimer
        (RbtFires (.node .sentinel 16 .sentinel)) 4 := by
  have near : Near 16 4 := by
    constructor <;> decide
  constructor
  · obtain ⟨timers, built, _, _, first⟩ := one_timer
    refine ⟨timers, built, first, ((due_decisions_agree 4).1 timers built).mpr ?_⟩
    intro time other
    obtain ⟨⟨e, pending, due⟩, least⟩ := first
    obtain ⟨⟨e', pending', due'⟩, least'⟩ := other
    have same : time = 16 :=
      UInt32.le_antisymm (least' e 16 pending due) (least e' time pending' due')
    exact same ▸ near
  · have built : RbtBuilt (.node .sentinel 16 .sentinel) := .add .init 4294967280 32 rfl
    apply ((due_decisions_agree 4).2 _ built).mpr
    intro key found
    exact Option.some.inj found ▸ near

/-- With a timer added at the reading `0xFFFFFFF0` with a delay of 32, both queues say at that
reading that there are 32 milliseconds left, and both run its handler at once. -/
theorem due_decisions_differ :
    (∃ s, Built s ∧ findNearestExpireTimer s 4294967280 = some 32 ∧ Fires s 4294967280 ∧
      ¬ Agrees (findNearestExpireTimer s) (Fires s) 4294967280) ∧
    (RbtBuilt (.node .sentinel 16 .sentinel) ∧
      (RbTree.node .sentinel 16 .sentinel).findNearestExpireTimer 4294967280 = some 32 ∧
      RbtFires (.node .sentinel 16 .sentinel) 4294967280 ∧
      ¬ Agrees (RbTree.node .sentinel 16 .sentinel).findNearestExpireTimer
        (RbtFires (.node .sentinel 16 .sentinel)) 4294967280) := by
  constructor
  · obtain ⟨timers, built, top, due, _⟩ := one_timer
    have waits : findNearestExpireTimer timers 4294967280 = some 32 := by
      rw [findNearestExpireTimer, top]
      change (timers.time 0).map _ = _
      rw [due]
      decide
    have fires : Fires timers 4294967280 := ⟨_, _, _, .run top due (by decide)⟩
    refine ⟨timers, built, waits, fires, fun agrees => ?_⟩
    have zero := agrees.1.mpr fires
    rw [waits] at zero
    exact absurd zero (by decide)
  · have waits : (RbTree.node .sentinel 16 .sentinel).findNearestExpireTimer 4294967280 =
        some 32 := by decide
    have fires : RbtFires (.node .sentinel 16 .sentinel) 4294967280 :=
      (rbtFires_iff rfl _).mpr (by decide)
    refine ⟨.add .init 4294967280 32 rfl, waits, fires, fun agrees => ?_⟩
    have zero := agrees.1.mpr fires
    rw [waits] at zero
    exact absurd zero (by decide)

end BackendCpp.Expiry
