import BackendCpp.Library.Run
import BackendCpp.Minheap.Operations

/-!
# Runs of expire_timer with handlers that add and delete timers

A history is read off the events of a run. While a handler runs, its entry stays at the
root: an entry with the same deadline never displaces it, neither when it is added nor when
another one is erased. So the entry that is popped and freed is the one that ran.
-/

namespace BackendCpp.Minheap

open BackendCpp.Library

/-- What has happened so far; lists are newest first. -/
structure History where
  /-- The entries that `add_timer` returned. -/
  added : List Nat
  /-- The entries that `del_timer` erased. -/
  deleted : List Nat
  /-- The entries whose handlers were called. -/
  ran : List Nat
  /-- The entries that were popped. -/
  finished : List Nat
  /-- The deadlines of the entries run by the last call of `expire_timer`. -/
  batch : List UInt32
  /-- The reading of that call. -/
  reading : UInt32

/-- Nothing has happened. -/
def History.blank : History := ⟨[], [], [], [], [], 0⟩

/-- The history after one more event. -/
def History.update (history : History) : Event → History
  | .added (some e) _ => { history with added := e :: history.added }
  | .added none _ => history
  | .deleted e true => { history with deleted := e :: history.deleted }
  | .deleted _ false => history
  | .called cur => { history with batch := [], reading := cur }
  | .ran te time => { history with ran := te :: history.ran, batch := time :: history.batch }
  | .finished te _ _ => { history with finished := te :: history.finished }
  | .returned _ => history

/-- The sizes for which the index arithmetic of a step does not wrap. -/
def Within (state : State) : Event → Prop
  | .added _ _ => state.timers.n + 1 < word
  | .deleted _ _ => 2 * state.timers.n < word
  | .finished _ _ _ => 2 * (state.timers.n - 1) < word
  | _ => True

/-- What the history says about the entries. -/
structure Accounted (s : Timers) (history : History) : Prop where
  /-- The heap is sound. -/
  sound : Sound s
  /-- Pending are the entries added that have gone in no way. -/
  pending : ∀ e, s.Pending e ↔
    e ∈ history.added ∧ e ∉ history.deleted ∧ e ∉ history.finished
  /-- Only entries added so far have been deleted or popped. -/
  known : ∀ e, e ∈ history.added ∨ e ∈ history.deleted ∨ e ∈ history.finished → e < s.fresh

/-- Nothing that is pending is due before a deadline that was run. -/
def Later (s : Timers) (history : History) : Prop :=
  ∀ time ∈ history.batch, ∀ e, s.Pending e → time.toNat ≤ s.key e

/-- What holds while the handler of `te` runs. -/
structure Handling (s : Timers) (history : History) (cur : UInt32) (te : Nat) : Prop where
  /-- The deadlines run so far. -/
  later : Later s history
  /-- The reading of the call. -/
  reading : history.reading = cur
  /-- The running entry is the only one that ran and is not popped. -/
  ran : history.ran = te :: history.finished
  /-- There is a root. -/
  filled : 0 < s.n
  /-- The running entry is the root. -/
  root : s.p 0 = te

/-- What holds at each point of `expire_timer`. -/
def AtControl (s : Timers) (history : History) : Control → Prop
  | .outside => history.ran = history.finished
  | .scanning cur => history.ran = history.finished ∧ history.reading = cur ∧ Later s history
  | .handling cur te => Handling s history cur te

/-- The invariant of runs. -/
structure Tracks (state : State) (history : History) : Prop where
  /-- The entries are accounted for. -/
  accounted : Accounted state.timers history
  /-- No handler ran twice. -/
  distinct : history.ran.Nodup
  /-- Deadlines do not decrease. -/
  batch : history.batch.Pairwise (· ≥ ·)
  /-- They are not later than the reading. -/
  due : ∀ time ∈ history.batch, time ≤ history.reading
  /-- The point reached. -/
  control : AtControl state.timers history state.control

variable {s : Timers} {history : History}

/-- The key of an entry is its deadline. -/
theorem key_of_time {e : Nat} {time : UInt32} (found : s.time e = some time) :
    s.key e = time.toNat := by
  rw [Timers.key, found]
  rfl

/-- Adding an entry keeps the account. -/
theorem Accounted.add (accounted : Accounted s history) {after : Timers} {time : UInt32}
    (sound : Sound after) (fresh : after.fresh = s.fresh + 1)
    (pending : ∀ e, after.Pending e ↔ s.Pending e ∨ e = s.fresh) :
    Accounted after (history.update (.added (some s.fresh) time)) := by
  have new : s.fresh ∉ history.deleted ∧ s.fresh ∉ history.finished := by
    constructor
    · intro member
      exact lt_irrefl _ (accounted.known _ (.inr (.inl member)))
    · intro member
      exact lt_irrefl _ (accounted.known _ (.inr (.inr member)))
  refine ⟨sound, ?_, ?_⟩
  · intro e
    rw [pending e, accounted.pending e]
    change _ ↔ e ∈ s.fresh :: history.added ∧ e ∉ history.deleted ∧ e ∉ history.finished
    rw [List.mem_cons]
    by_cases same : e = s.fresh
    · rw [same]
      simp only [new, not_false_iff, and_self, and_true, or_true, true_or]
    · simp only [same, false_or, or_false]
  · intro e member
    rw [fresh]
    have before : e = s.fresh ∨
        (e ∈ history.added ∨ e ∈ history.deleted ∨ e ∈ history.finished) := by
      change e ∈ s.fresh :: history.added ∨ e ∈ history.deleted ∨ e ∈ history.finished at member
      rw [List.mem_cons, or_assoc] at member
      exact member
    cases before with
    | inl same => exact same ▸ Nat.lt_succ_self _
    | inr old => exact Nat.lt_succ_of_lt (accounted.known e old)

/-- A refused entry keeps the account. -/
theorem Accounted.skip (accounted : Accounted s history) :
    Accounted { s with fresh := s.fresh + 1 } history :=
  ⟨accounted.sound.skip, accounted.pending,
    fun e member => Nat.lt_succ_of_lt (accounted.known e member)⟩

/-- Erasing an entry keeps the account. -/
theorem Accounted.del (accounted : Accounted s history) {after : Timers} {e : Nat}
    (pending : s.Pending e) (removed : Removed s after e) :
    Accounted after (history.update (.deleted e true)) := by
  refine ⟨removed.sound, ?_, ?_⟩
  · intro other
    rw [removed.pending other, accounted.pending other]
    change _ ↔ other ∈ history.added ∧ other ∉ e :: history.deleted ∧ other ∉ history.finished
    rw [List.mem_cons, not_or]
    constructor
    · intro both
      exact ⟨both.1.1, ⟨both.2, both.1.2.1⟩, both.1.2.2⟩
    · intro both
      exact ⟨⟨both.1, both.2.1.2, both.2.2⟩, both.2.1.1⟩
  · intro other member
    rw [removed.fresh]
    change other ∈ history.added ∨ other ∈ e :: history.deleted ∨ other ∈ history.finished at member
    rw [List.mem_cons] at member
    by_cases same : other = e
    · rw [same]
      exact accounted.sound.pending_lt pending
    · apply accounted.known other
      simp only [same, false_or] at member
      exact member

/-- Freeing the entry that was popped keeps the account. -/
theorem Accounted.finish (accounted : Accounted s history) {after : Timers} {e : Nat}
    {popped : Option Nat} {freed : Nat} (pending : s.Pending e) (removed : Removed s after e) :
    Accounted (after.free e) (history.update (.finished e popped freed)) := by
  have others (other : Nat) (differs : other ≠ e) :
      (after.free e).entries other = after.entries other := Function.update_of_ne differs _ _
  have unlike (index : Nat) (inside : index < after.n) : after.p index ≠ e :=
    ((removed.pending _).mp ⟨index, inside, rfl⟩).2
  have sound := removed.sound
  refine ⟨⟨sound.fits, sound.small, sound.capacity, ?_, ?_, ?_, ?_⟩, ?_, ?_⟩
  · intro index inside
    obtain ⟨entry, found, names⟩ := sound.placed index inside
    refine ⟨entry, ?_, names⟩
    rw [← found]
    exact others _ (unlike index inside)
  · intro other entry found names
    by_cases same : other = e
    · rw [same] at found
      change Function.update after.entries e none e = _ at found
      rw [Function.update_self] at found
      cases found
    · rw [others other same] at found
      exact sound.listed other entry found names
  · intro index inside positive
    have above := parent_lt positive
    have inside' : index < after.n := inside
    have keys (i : Nat) (within : i < after.n) :
        (after.free e).key (after.p i) = after.key (after.p i) := by
      apply key_congr
      rw [Timers.time, Timers.time, others _ (unlike i within)]
    change (after.free e).key (after.p (parent index)) ≤ (after.free e).key (after.p index)
    rw [keys index inside', keys (parent index) (by omega)]
    exact sound.heaped index inside' positive
  · intro other late
    change after.fresh ≤ other at late
    by_cases same : other = e
    · rw [same]
      exact Function.update_self _ _ _
    · rw [others other same]
      exact sound.unborn other late
  · intro other
    rw [show (after.free e).Pending other ↔ after.Pending other from Iff.rfl,
      removed.pending other, accounted.pending other]
    change _ ↔ other ∈ history.added ∧ other ∉ history.deleted ∧ other ∉ e :: history.finished
    rw [List.mem_cons, not_or]
    constructor
    · intro both
      exact ⟨both.1.1, both.1.2.1, both.2, both.1.2.2⟩
    · intro both
      exact ⟨⟨both.1, both.2.1, both.2.2.2⟩, both.2.2.1⟩
  · intro other member
    change other < after.fresh
    rw [removed.fresh]
    change other ∈ history.added ∨ other ∈ history.deleted ∨ other ∈ e :: history.finished at member
    rw [List.mem_cons] at member
    by_cases same : other = e
    · rw [same]
      exact accounted.sound.pending_lt pending
    · apply accounted.known other
      simp only [same, false_or] at member
      exact member

/-- The running entry is pending. -/
theorem Handling.pending {cur : UInt32} {te : Nat} (handling : Handling s history cur te) :
    s.Pending te :=
  ⟨0, handling.filled, handling.root⟩

/-- No deadline that was run is later than that of the running entry. -/
theorem Handling.least {cur deadline : UInt32} {te : Nat} (handling : Handling s history cur te)
    (running : s.time te = some deadline) :
    ∀ time ∈ history.batch, time.toNat ≤ deadline.toNat := by
  intro time member
  have bound := handling.later time member te handling.pending
  rw [key_of_time running] at bound
  exact bound

/-- Adding a timer keeps the invariant. -/
theorem Tracks.add {control : Control} (tracks : Tracks ⟨s, control⟩ history)
    (room : s.n + 1 < word) {now msec : UInt32} {mallocs reallocs : Bool} {after : Timers}
    {te : Option Nat} (allowed : Allowed ⟨s, control⟩ (.added te (now + msec)))
    (done : Leaves (fun fuel => addTimer fuel s now msec mallocs reallocs) (some (after, te))) :
    Tracks ⟨after, control⟩ (history.update (.added te (now + msec))) := by
  have accounted : Accounted s history := tracks.accounted
  cases mallocs with
  | false =>
    have refused : Leaves (fun fuel => addTimer fuel s now msec false reallocs)
        (some (s, none)) := Leaves.of_forall fun _ => rfl
    cases done.unique refused
    exact tracks
  | true =>
    cases reserves : minHeapReserve { s with
      entries := Function.update s.entries s.fresh (some ⟨now + msec, 0⟩)
      fresh := s.fresh + 1 } ((s.n + 1) % word) reallocs with
    | none =>
      have refused := Leaves.of_forall (accounted.sound.add_refused now msec reserves)
      cases done.unique refused
      refine ⟨accounted.skip, tracks.distinct, tracks.batch, tracks.due, ?_⟩
      cases control with
      | outside => exact tracks.control
      | scanning cur => exact tracks.control
      | handling cur te =>
        have handling : Handling s history cur te := tracks.control
        exact ⟨handling.later, handling.reading, handling.ran, handling.filled, handling.root⟩
    | some reserved =>
      obtain ⟨result, leaves, sound, fresh, count, created, elsewhere, pending, root, _⟩ :=
        accounted.sound.add room now msec reserves
      cases done.unique leaves
      refine ⟨accounted.add sound fresh pending, tracks.distinct, tracks.batch, tracks.due, ?_⟩
      cases control with
      | outside => exact tracks.control
      | scanning cur => cases allowed
      | handling cur te =>
        have handling : Handling s history cur te := tracks.control
        cases allowed with
        | add running later =>
          rename_i deadline
          have bound : deadline.toNat ≤ (now + msec).toNat := UInt32.le_iff_toNat_le.mp later
          refine ⟨?_, handling.reading, handling.ran, ?_, ?_⟩
          · intro time member e isPending
            cases (pending e).mp isPending with
            | inl old =>
              have differs : e ≠ s.fresh := Nat.ne_of_lt (accounted.sound.pending_lt old)
              rw [key_congr (elsewhere.time e differs)]
              exact handling.later time member e old
            | inr new =>
              rw [new, key_of_time created]
              exact le_trans (handling.least running time member) bound
          · rw [count]
            exact Nat.succ_pos _
          · have stays : after.p 0 = s.p 0 := by
              apply root handling.filled
              rw [handling.root, key_of_time running]
              exact bound
            exact stays.trans handling.root

/-- Deleting a timer keeps the invariant. -/
theorem Tracks.del {control : Control} (tracks : Tracks ⟨s, control⟩ history)
    (small : 2 * s.n < word) {e : Nat} {after : Timers} {erased : Bool}
    (allowed : Allowed ⟨s, control⟩ (.deleted e erased))
    (done : Leaves (fun fuel => delTimer fuel s e) (some (after, erased))) :
    Tracks ⟨after, control⟩ (history.update (.deleted e erased)) := by
  have accounted : Accounted s history := tracks.accounted
  by_cases pending : s.Pending e
  · obtain ⟨result, leaves, removed, root⟩ := accounted.sound.del pending small
    cases done.unique leaves
    refine ⟨accounted.del pending removed, tracks.distinct, tracks.batch, tracks.due, ?_⟩
    cases control with
    | outside => exact tracks.control
    | scanning cur => cases allowed
    | handling cur te =>
      have handling : Handling s history cur te := tracks.control
      cases allowed with
      | del other =>
        have unlike : e ≠ s.p 0 := fun same => other (same.trans handling.root)
        have stays := removed.pending te
        refine ⟨?_, handling.reading, handling.ran, ?_, (root unlike).trans handling.root⟩
        · intro time member x isPending
          have both := (removed.pending x).mp isPending
          rw [key_congr (removed.elsewhere.time x both.2)]
          exact handling.later time member x both.1
        · obtain ⟨index, inside, _⟩ := stays.mpr ⟨handling.pending, Ne.symm other⟩
          exact Nat.lt_of_le_of_lt (Nat.zero_le _) inside
  · obtain ⟨fuel, returns⟩ := done.exists_fuel
    cases found : s.entries e with
    | none =>
      simp only [delTimer, found] at returns
      cases returns
    | some entry =>
      rw [accounted.sound.del_idle found pending fuel] at returns
      cases returns
      exact tracks

/-- Calling a handler keeps the invariant. -/
theorem Tracks.run {cur time : UInt32} {te : Nat} (tracks : Tracks ⟨s, .scanning cur⟩ history)
    (top : minHeapTop s = some (some te)) (due : s.time te = some time) (now : ¬ time > cur) :
    Tracks ⟨s, .handling cur te⟩ (history.update (.ran te time)) := by
  have accounted : Accounted s history := tracks.accounted
  obtain ⟨ran, reading, later⟩ := tracks.control
  have filled : 0 < s.n := by
    by_contra empty
    rw [top_empty (by omega)] at top
    cases top
  rw [accounted.sound.top filled] at top
  have root : s.p 0 = te := Option.some.inj (Option.some.inj top)
  have isPending : s.Pending te := ⟨0, filled, root⟩
  have key := key_of_time due
  refine ⟨⟨accounted.sound, accounted.pending, accounted.known⟩, ?_, ?_, ?_, ?_, reading, ?_,
    filled, root⟩
  · change (te :: history.ran).Nodup
    rw [List.nodup_cons, ran]
    have distinct : history.ran.Nodup := tracks.distinct
    exact ⟨((accounted.pending te).mp isPending).2.2, ran ▸ distinct⟩
  · change (time :: history.batch).Pairwise (· ≥ ·)
    rw [List.pairwise_cons]
    refine ⟨?_, tracks.batch⟩
    intro before member
    have bound := later before member te isPending
    rw [key] at bound
    exact UInt32.le_iff_toNat_le.mpr bound
  · intro before member
    change before ≤ history.reading
    change before ∈ time :: history.batch at member
    rw [List.mem_cons] at member
    cases member with
    | inl same =>
      rw [same, reading]
      exact UInt32.not_lt.mp now
    | inr old => exact tracks.due before old
  · intro before member e other
    change before ∈ time :: history.batch at member
    rw [List.mem_cons] at member
    cases member with
    | inl same =>
      obtain ⟨index, inside, at'⟩ := other
      have least := accounted.sound.heaped.root_le index inside
      rw [root, at', key] at least
      rw [same]
      exact least
    | inr old => exact later before old e other
  · change te :: history.ran = te :: history.finished
    rw [ran]

/-- Popping and freeing the entry that ran keeps the invariant. -/
theorem Tracks.finish {cur : UInt32} {te : Nat} (tracks : Tracks ⟨s, .handling cur te⟩ history)
    (small : 2 * (s.n - 1) < word) {after : Timers} {popped : Option Nat}
    (done : Leaves (fun fuel => minHeapPop fuel s) (some (after, popped))) :
    popped = some te ∧
      Tracks ⟨after.free te, .scanning cur⟩ (history.update (.finished te popped te)) := by
  have accounted : Accounted s history := tracks.accounted
  have handling : Handling s history cur te := tracks.control
  obtain ⟨result, leaves, removed⟩ := accounted.sound.pop handling.filled small
  cases done.unique leaves
  rw [handling.root] at removed ⊢
  refine ⟨rfl, accounted.finish handling.pending removed, tracks.distinct, tracks.batch,
    tracks.due, ?_, handling.reading, ?_⟩
  · exact handling.ran
  · intro time member e isPending
    have both := (removed.pending e).mp isPending
    have same : (after.free te).time e = s.time e := by
      rw [← removed.elsewhere.time e both.2, Timers.time, Timers.time]
      exact congrArg (Option.map TimerEntry.time) (Function.update_of_ne both.2 _ _)
    rw [key_congr same]
    exact handling.later time member e both.1

/-- When `expire_timer` returns, nothing that is pending is due. -/
theorem Tracks.drained {cur : UInt32} (tracks : Tracks ⟨s, .scanning cur⟩ history)
    (head : minHeapTop s = some none ∨
      ∃ te time, minHeapTop s = some (some te) ∧ s.time te = some time ∧ time > cur) :
    ∀ e, s.Pending e → ∃ time, s.time e = some time ∧ time > cur := by
  intro e isPending
  have accounted : Accounted s history := tracks.accounted
  obtain ⟨entry, found, _⟩ := accounted.sound.pending isPending
  have due : s.time e = some entry.time := by
    rw [Timers.time, found]
    rfl
  obtain ⟨index, inside, same⟩ := isPending
  have top := accounted.sound.top (show 0 < s.n by omega)
  refine ⟨entry.time, due, ?_⟩
  cases head with
  | inl empty =>
    rw [top] at empty
    cases empty
  | inr first =>
    obtain ⟨te, time, isTop, dueTop, late⟩ := first
    rw [top] at isTop
    have root : s.p 0 = te := Option.some.inj (Option.some.inj isTop)
    have least := accounted.sound.heaped.root_le index inside
    rw [same, root, key_of_time due, key_of_time dueTop] at least
    exact UInt32.lt_iff_toNat_lt.mpr (lt_of_lt_of_le (UInt32.lt_iff_toNat_lt.mp late) least)

/-- A step whose sizes do not wrap. -/
def SmallStep (state : State) (event : Event) (next : State) : Prop :=
  Within state event ∧ Step state event next

/-- Every such step keeps the invariant. -/
theorem Tracks.step {state next : State} {event : Event} (tracks : Tracks state history)
    (taken : SmallStep state event next) : Tracks next (history.update event) := by
  obtain ⟨within, step⟩ := taken
  cases step with
  | add allowed done => exact tracks.add within allowed done
  | del allowed done => exact tracks.del within allowed done
  | @call timers cur =>
    have accounted := tracks.accounted
    exact ⟨⟨accounted.sound, accounted.pending, accounted.known⟩, tracks.distinct,
      List.Pairwise.nil, fun time member => absurd member List.not_mem_nil, tracks.control, rfl,
      fun time member => absurd member List.not_mem_nil⟩
  | run top due now => exact tracks.run top due now
  | finish done => exact (tracks.finish within done).2
  | leaveEmpty top =>
    exact ⟨tracks.accounted, tracks.distinct, tracks.batch, tracks.due, tracks.control.1⟩
  | leave top due later =>
    exact ⟨tracks.accounted, tracks.distinct, tracks.batch, tracks.due, tracks.control.1⟩

/-- The state before any timer is added. -/
def start (rest : Nat → Nat) : State := ⟨minHeapCtor rest, .outside⟩

/-- The invariant holds at the start. -/
theorem tracks_start (rest : Nat → Nat) : Tracks (start rest) History.blank := by
  refine ⟨⟨sound_ctor rest, ?_, ?_⟩, List.nodup_nil, List.Pairwise.nil, ?_, rfl⟩
  · intro e
    constructor
    · intro pending
      obtain ⟨index, inside, _⟩ := pending
      exact absurd inside (Nat.not_lt_zero index)
    · intro added
      exact absurd added.1 List.not_mem_nil
  · intro e member
    simp only [History.blank, List.not_mem_nil, or_self] at member
  · intro time member
    exact absurd member List.not_mem_nil

/-- The invariant holds after every run. -/
theorem tracks_run {rest : Nat → Nat} {trace : List Event} {state : State}
    (run : Run SmallStep (start rest) trace state) :
    Tracks state (trace.foldl History.update History.blank) :=
  run.simulation History.update Tracks (tracks_start rest)
    fun _ _ _ _ tracks taken => tracks.step taken

/-- The entry popped and freed is the one that ran. -/
theorem finished_label {rest : Nat → Nat} {trace : List Event} {state : State}
    (run : Run SmallStep (start rest) trace state) :
    ∀ te popped freed, Event.finished te popped freed ∈ trace → popped = some te ∧ freed = te := by
  induction run with
  | nil =>
    intro te popped freed member
    exact absurd member List.not_mem_nil
  | snoc before taken ih =>
    intro te popped freed member
    rw [List.mem_append, List.mem_singleton] at member
    cases member with
    | inl old => exact ih te popped freed old
    | inr last =>
      obtain ⟨within, step⟩ := taken
      have tracks := tracks_run before
      subst last
      cases step with
      | finish done => exact ⟨(tracks.finish within done).1, rfl⟩

/-- After `expire_timer` has returned, everything pending is due later. -/
theorem returned_label {rest : Nat → Nat} {trace : List Event} {state : State} {cur : UInt32}
    (run : Run SmallStep (start rest) (trace ++ [.returned cur]) state) :
    ∀ e, state.timers.Pending e → ∃ time, state.timers.time e = some time ∧ time > cur := by
  generalize whole : trace ++ [Event.returned cur] = labels at run
  cases run with
  | nil => exact absurd whole (by simp)
  | snoc before taken =>
    obtain ⟨_, last⟩ := List.append_inj' whole rfl
    obtain ⟨_, step⟩ := taken
    have tracks := tracks_run before
    rw [← List.singleton_inj.mp last] at step
    cases step with
    | leaveEmpty top => exact tracks.drained (.inl top)
    | leave top due later => exact tracks.drained (.inr ⟨_, _, top, due, later⟩)

/-- At the head of its loop `expire_timer` goes on or returns. -/
theorem Tracks.scans {cur : UInt32} (tracks : Tracks ⟨s, .scanning cur⟩ history) :
    ∃ event next, SmallStep ⟨s, .scanning cur⟩ event next := by
  have accounted : Accounted s history := tracks.accounted
  by_cases filled : 0 < s.n
  · have top := accounted.sound.top filled
    obtain ⟨entry, found, _⟩ := accounted.sound.placed 0 filled
    have due : s.time (s.p 0) = some entry.time := by
      rw [Timers.time, found]
      rfl
    by_cases late : entry.time > cur
    · exact ⟨.returned cur, _, trivial, .leave top due late⟩
    · exact ⟨.ran (s.p 0) entry.time, _, trivial, .run top due late⟩
  · exact ⟨.returned cur, _, trivial, .leaveEmpty (top_empty (by omega))⟩

/-- `expire_timer` is safe under handlers that add and delete timers, as long as no index
wraps. The entry popped and freed is the one that ran, entries run in the order of their
deadlines, none of them before it is due and none twice; entries that neither ran nor were
deleted are still pending, later than the reading once `expire_timer` has returned; and
neither its loop nor a call of `add_timer` or `del_timer` gets stuck. -/
theorem expire_timer_reentrant (rest : Nat → Nat) {trace : List Event} {state : State}
    (run : Run SmallStep (start rest) trace state) :
    let history := trace.foldl History.update History.blank
    (∀ te popped freed, Event.finished te popped freed ∈ trace → popped = some te ∧ freed = te) ∧
    (history.batch.Pairwise (· ≥ ·) ∧ (∀ time ∈ history.batch, time ≤ history.reading) ∧
      history.ran.Nodup) ∧
    (∀ before cur, trace = before ++ [.returned cur] →
      ∀ e, state.timers.Pending e → ∃ time, state.timers.time e = some time ∧ time > cur) ∧
    (∀ e, e ∈ history.added → e ∉ history.deleted → e ∉ history.ran → state.timers.Pending e) ∧
    (∀ cur te, state.control = .handling cur te → history.ran.head? = some te ∧
      state.timers.entries te ≠ none ∧
      (2 * (state.timers.n - 1) < word → ∃ after,
        Leaves (fun fuel => minHeapPop fuel state.timers) (some (after, some te)))) ∧
    (∀ cur, state.control = .scanning cur → ∃ event next, SmallStep state event next) ∧
    (∀ now msec mallocs reallocs, state.timers.n + 1 < word → ∃ after te,
      Leaves (fun fuel => addTimer fuel state.timers now msec mallocs reallocs)
        (some (after, te))) ∧
    (∀ e, state.timers.entries e ≠ none → 2 * state.timers.n < word → ∃ after erased,
      Leaves (fun fuel => delTimer fuel state.timers e) (some (after, erased))) := by
  intro history
  have tracks : Tracks state history := tracks_run run
  have sound := tracks.accounted.sound
  refine ⟨finished_label run, ⟨tracks.batch, tracks.due, tracks.distinct⟩, ?_, ?_, ?_, ?_, ?_, ?_⟩
  · intro before cur last
    rw [last] at run
    exact returned_label run
  · intro e added deleted ran
    apply (tracks.accounted.pending e).mpr
    refine ⟨added, deleted, fun finished => ran ?_⟩
    have control := tracks.control
    cases point : state.control with
    | outside =>
      rw [point] at control
      have same : history.ran = history.finished := control
      exact same ▸ finished
    | scanning cur =>
      rw [point] at control
      exact control.1 ▸ finished
    | handling cur te =>
      rw [point] at control
      rw [Handling.ran control]
      exact List.mem_cons_of_mem _ finished
  · intro cur te point
    have control := tracks.control
    rw [point] at control
    have handling : Handling state.timers history cur te := control
    refine ⟨?_, ?_, fun small => ?_⟩
    · rw [handling.ran]
      rfl
    · obtain ⟨entry, found, _⟩ := sound.pending handling.pending
      rw [found]
      exact Option.some_ne_none _
    · obtain ⟨after, leaves, _⟩ := sound.pop handling.filled small
      rw [handling.root] at leaves
      exact ⟨after, leaves⟩
  · intro cur point
    obtain ⟨timers, control⟩ := state
    change control = _ at point
    subst point
    exact tracks.scans
  · intro now msec mallocs reallocs room
    cases mallocs with
    | false => exact ⟨state.timers, none, Leaves.of_forall fun _ => rfl⟩
    | true =>
      cases reserves : minHeapReserve { state.timers with
        entries := Function.update state.timers.entries state.timers.fresh (some ⟨now + msec, 0⟩)
        fresh := state.timers.fresh + 1 } ((state.timers.n + 1) % word) reallocs with
      | none => exact ⟨_, _, Leaves.of_forall (sound.add_refused now msec reserves)⟩
      | some reserved =>
        obtain ⟨result, leaves, _⟩ := sound.add room now msec reserves
        exact ⟨result, _, leaves⟩
  · intro e allocated small
    obtain ⟨entry, found⟩ := Option.ne_none_iff_exists'.mp allocated
    by_cases pending : state.timers.Pending e
    · obtain ⟨result, leaves, _⟩ := sound.del pending small
      exact ⟨result, true, leaves⟩
    · exact ⟨_, _, Leaves.of_forall (sound.del_idle found pending)⟩

/-- What is done next. -/
inductive Move where
  /-- A call of `add_timer`. -/
  | add (now msec : UInt32) (mallocs reallocs : Bool)
  /-- A call of `del_timer`. -/
  | del (e : Nat)
  /-- A call of `expire_timer`. -/
  | call (cur : UInt32)
  /-- The next step of `expire_timer`. -/
  | onward

/-- `expire_timer` at the head of its loop. -/
def scan (timers : Timers) (cur : UInt32) : Option (Event × State) :=
  match minHeapTop timers with
  | none => none
  | some none => some (.returned cur, ⟨timers, .outside⟩)
  | some (some te) => (timers.time te).map fun time =>
    if time > cur then (.returned cur, ⟨timers, .outside⟩)
    else (.ran te time, ⟨timers, .handling cur te⟩)

/-- Execute a move under a fuel. -/
def Move.exec (fuel : Nat) (state : State) : Move → Option (Event × State)
  | .add now msec mallocs reallocs =>
    (addTimer fuel state.timers now msec mallocs reallocs).join.map fun (timers, te) =>
      (.added te (now + msec), ⟨timers, state.control⟩)
  | .del e => (delTimer fuel state.timers e).join.map fun (timers, erased) =>
    (.deleted e erased, ⟨timers, state.control⟩)
  | .call cur =>
    match state.control with
    | .outside => some (.called cur, ⟨state.timers, .scanning cur⟩)
    | _ => none
  | .onward =>
    match state.control with
    | .outside => none
    | .scanning cur => scan state.timers cur
    | .handling cur te => (minHeapPop fuel state.timers).join.map fun (after, popped) =>
      (.finished te popped te, ⟨after.free te, .scanning cur⟩)

/-- Whether the move is allowed and far from every bound. -/
def Move.fine (state : State) (move : Move) : Bool :=
  decide (2 * (state.timers.n + 1) < word) &&
    match state.control, move with
    | .handling _ te, .add now msec _ _ => (state.timers.time te).any (· ≤ now + msec)
    | .handling _ te, .del e => e != te
    | .scanning _, .add .. => false
    | .scanning _, .del _ => false
    | _, _ => true

/-- A step of `expire_timer` at the head of its loop. -/
theorem smallStep_of_scan {timers : Timers} {cur : UInt32} {event : Event} {next : State}
    (done : scan timers cur = some (event, next)) :
    SmallStep ⟨timers, .scanning cur⟩ event next := by
  unfold scan at done
  split at done
  · cases done
  · rename_i top
    obtain ⟨rfl, rfl⟩ := Prod.mk.inj (Option.some.inj done)
    exact ⟨trivial, .leaveEmpty top⟩
  · rename_i te top
    obtain ⟨time, due, chosen⟩ := Option.map_eq_some_iff.mp done
    split_ifs at chosen with later
    · obtain ⟨rfl, rfl⟩ := Prod.mk.inj chosen
      exact ⟨trivial, .leave top due later⟩
    · obtain ⟨rfl, rfl⟩ := Prod.mk.inj chosen
      exact ⟨trivial, .run top due later⟩

/-- A fine move that was executed is a step. -/
theorem smallStep_of_exec {fuel : Nat} {state next : State} {move : Move} {event : Event}
    (done : move.exec fuel state = some (event, next)) (fine : move.fine state = true) :
    SmallStep state event next := by
  obtain ⟨small, suits⟩ := (Bool.and_eq_true _ _).mp fine
  have room := of_decide_eq_true small
  obtain ⟨timers, control⟩ := state
  dsimp only at room
  cases move with
  | add now msec mallocs reallocs =>
    obtain ⟨⟨after, te⟩, returned, same⟩ := Option.map_eq_some_iff.mp done
    obtain ⟨rfl, rfl⟩ := Prod.mk.inj same
    have within : Within ⟨timers, control⟩ (.added te (now + msec)) := by
      change timers.n + 1 < word
      omega
    refine ⟨within, .add ?_ (leaves_addTimer (Option.join_eq_some_iff.mp returned))⟩
    cases control with
    | outside => exact .outside
    | scanning cur => cases suits
    | handling cur running =>
      obtain ⟨deadline, due, later⟩ := (Option.any_eq_true _ _).mp suits
      exact .add due (of_decide_eq_true later)
  | del e =>
    obtain ⟨⟨after, erased⟩, returned, same⟩ := Option.map_eq_some_iff.mp done
    obtain ⟨rfl, rfl⟩ := Prod.mk.inj same
    have within : Within ⟨timers, control⟩ (.deleted e erased) := by
      change 2 * timers.n < word
      omega
    refine ⟨within, .del ?_ (leaves_delTimer (Option.join_eq_some_iff.mp returned))⟩
    cases control with
    | outside => exact .outside
    | scanning cur => cases suits
    | handling cur running => exact .del (bne_iff_ne.mp suits)
  | call cur =>
    cases control with
    | outside =>
      obtain ⟨rfl, rfl⟩ := Prod.mk.inj (Option.some.inj done)
      exact ⟨trivial, .call⟩
    | scanning cur => cases done
    | handling cur te => cases done
  | onward =>
    cases control with
    | outside => cases done
    | scanning cur => exact smallStep_of_scan done
    | handling cur te =>
      obtain ⟨⟨after, popped⟩, returned, same⟩ := Option.map_eq_some_iff.mp done
      obtain ⟨rfl, rfl⟩ := Prod.mk.inj same
      have within : Within ⟨timers, .handling cur te⟩ (.finished te popped te) := by
        change 2 * (timers.n - 1) < word
        omega
      exact ⟨within, .finish (leaves_minHeapPop (Option.join_eq_some_iff.mp returned))⟩

/-- Play moves one after the other, and note the events. -/
def play (fuel : Nat) (so : List Event × State) (move : Move) : Option (List Event × State) :=
  if move.fine so.2 then (move.exec fuel so.2).map fun done => (so.1 ++ [done.1], done.2) else none

/-- Moves that were played are a run. -/
theorem run_of_play {fuel : Nat} {moves : List Move} {begin state : State} {trace : List Event}
    (done : moves.foldlM (play fuel) ([], begin) = some (trace, state)) :
    Run SmallStep begin trace state := by
  refine (Run.of_foldlM done).invariant (fun so => Run SmallStep begin so.1 so.2) Run.nil ?_
  intro so move next run played
  obtain ⟨fine, played⟩ := Option.ite_none_right_eq_some.mp played
  obtain ⟨⟨event, after⟩, executed, rfl⟩ := Option.map_eq_some_iff.mp played
  exact run.snoc (smallStep_of_exec executed fine)

/-- Three timers are added. The first handler adds a timer that is due in the same call, and deletes
another one; the second handler adds one that is due later. -/
def reentered : List Move :=
  [.add 0 5 true true, .add 0 7 true true, .add 0 9 true true, .call 8, .onward,
    .add 8 0 true true, .del 1, .onward, .onward, .add 8 3 true true, .onward, .onward]

/-- The timers that ran are those that were due and not deleted; the others are due later. -/
theorem expire_timer_reentrant_reentered :
    ∃ trace state, Run SmallStep (start fun _ => 0) trace state ∧
      (trace.foldl History.update History.blank).ran = [3, 0] ∧
      (trace.foldl History.update History.blank).deleted = [1] ∧
      state.timers.Pending 2 ∧ state.timers.Pending 4 ∧
      ∀ e, state.timers.Pending e → ∃ time, state.timers.time e = some time ∧ time > 8 := by
  have ends : (reentered.foldlM (play 9) ([], start fun _ => 0)).any
      (fun so : List Event × State => (so.1.foldl History.update History.blank).added =
          [4, 3, 2, 1, 0] ∧
        (so.1.foldl History.update History.blank).ran = [3, 0] ∧
        (so.1.foldl History.update History.blank).deleted = [1] ∧
        so.1.getLast? = some (.returned 8)) = true := by
    decide +kernel
  obtain ⟨⟨trace, state⟩, played, facts⟩ := (Option.any_eq_true _ _).mp ends
  obtain ⟨added, ran, deleted, last⟩ := of_decide_eq_true facts
  dsimp only at added ran deleted last
  have run := run_of_play played
  obtain ⟨_, _, returned, kept, _⟩ := expire_timer_reentrant (fun _ => 0) run
  obtain ⟨before, split⟩ := List.getLast?_eq_some_iff.mp last
  refine ⟨trace, state, run, ran, deleted, kept 2 ?_ ?_ ?_, kept 4 ?_ ?_ ?_,
    returned before 8 split⟩
  · rw [added]
    decide
  · rw [deleted]
    decide
  · rw [ran]
    decide
  · rw [added]
    decide
  · rw [deleted]
    decide
  · rw [ran]
    decide

/-- A state of the counterexample: `count` timers with the deadlines 0, 1, 2, and so on. -/
structure Ascending (s : Timers) (count : Nat) : Prop where
  /-- The heap is sound. -/
  sound : Sound s
  /-- All timers are in the heap. -/
  n : s.n = count
  /-- No other number is used up. -/
  fresh : s.fresh = count
  /-- They lie in the slots as they were added. -/
  slots : ∀ index < count, s.p index = index
  /-- Their deadlines. -/
  time : ∀ index < count, s.time index = some (UInt32.ofNat index)

/-- The key of a timer in the counterexample. -/
theorem Ascending.key {count index : Nat} (ascending : Ascending s count) (inside : index < count)
    (small : index < word) : s.key index = index := by
  rw [key_of_time (ascending.time index inside), UInt32.toNat_ofNat']
  exact Nat.mod_eq_of_lt small

/-- Adding timers with ascending deadlines fills the slots in order. -/
theorem ascending_run (rest : Nat → Nat) (count : Nat) (small : count + 1 < word) :
    ∃ trace timers, Run Step (start rest) trace ⟨timers, .outside⟩ ∧ Ascending timers count := by
  induction count with
  | zero =>
    refine ⟨[], minHeapCtor rest, Run.nil, sound_ctor rest, rfl, rfl, ?_, ?_⟩
    · intro index inside
      exact absurd inside (Nat.not_lt_zero index)
    · intro index inside
      exact absurd inside (Nat.not_lt_zero index)
  | succ count ih =>
    obtain ⟨trace, timers, run, ascending⟩ := ih (by omega)
    have room : timers.n + 1 < word := by
      rw [ascending.n]
      omega
    obtain ⟨reserved, reserves⟩ := reserve_granted { timers with
      entries := Function.update timers.entries timers.fresh (some ⟨UInt32.ofNat count + 0, 0⟩)
      fresh := timers.fresh + 1 } ((timers.n + 1) % word)
    obtain ⟨after, leaves, sound, fresh, size, created, elsewhere, _, _, stays⟩ :=
      ascending.sound.add room (UInt32.ofNat count) 0 reserves
    have slots : after.p = Function.update timers.p count count := by
      rw [ascending.n, ascending.fresh] at stays
      apply stays
      intro filled
      have above := parent_lt filled
      have bound : count < 2 ^ 32 := show count < word by omega
      rw [ascending.slots _ above, ascending.key above (by omega), UInt32.add_zero,
        UInt32.toNat_ofNat', Nat.mod_eq_of_lt bound]
      exact le_of_lt above
    refine ⟨_, after, run.snoc (.add .outside leaves), sound, ?_, ?_, ?_, ?_⟩
    · rw [size, ascending.n]
    · rw [fresh, ascending.fresh]
    · intro index inside
      rw [slots]
      by_cases last : index = count
      · rw [last, Function.update_self]
      · rw [Function.update_of_ne last]
        exact ascending.slots index (by omega)
    · intro index inside
      by_cases last : index = count
      · rw [last, ← ascending.fresh, created, UInt32.add_zero, ascending.fresh]
      · rw [elsewhere.time index (by rw [ascending.fresh]; exact last)]
        exact ascending.time index (by omega)

/-- The way down of the counterexample: on a heap of `2 ^ 31` timers the hole goes to the left
child each time, and at slot `2 ^ 31 - 1` the index of its children wraps to zero, so that a slot
before the first one is read. -/
theorem leftmost_undefined {base : Timers} {members : Nat → Prop} {e : Nat}
    (large : 2147483648 ≤ base.key e) (capacity : base.a < word)
    (keys : ∀ index < 2147483648, base.key index = index) (left : Nat) :
    ∀ {t : Timers} {hole : Nat}, Moving base members t hole e → t.n = 2147483648 →
      left ≤ 31 → hole + 1 = 2 ^ (31 - left) →
      (∀ index < 2147483648, hole < index → t.p index = index) →
      Leaves (fun fuel => minHeapShiftDown fuel t hole e) none := by
  induction left with
  | zero =>
    intro t hole moving size _ depth _
    have last : hole = 2147483647 := by
      have same : hole + 1 = 2147483648 := depth
      omega
    have room : t.a < word := by
      rw [moving.a]
      exact capacity
    have wraps : childIndex 2147483647 = 0 := by decide
    have filled : 0 ≠ t.n := by omega
    have before : t.slot (pred 0) = none := by
      rw [Timers.slot, pred, if_pos rfl, if_neg (by omega)]
    have pass : shiftDownPass e (t, hole) = none := by
      rw [last]
      simp only [shiftDownPass, wraps, lesserChild, if_neg filled, before, Nat.zero_le, if_true,
        Option.bind_eq_bind, Option.bind_none]
      cases t.slot 0 <;> rfl
    exact leaves_now (attempt_undefined pass)
  | succ left ih =>
    intro t hole moving size deep depth rest
    have split : 31 - left = 31 - (left + 1) + 1 := by omega
    have double : 2 ^ (31 - left) = 2 * (hole + 1) := by
      rw [split, pow_succ, ← depth, mul_comm]
    have bound : 2 ^ (31 - left) ≤ 2 ^ 31 := Nat.pow_le_pow_right (by omega) (Nat.sub_le _ _)
    have fits : 2 * (hole + 1) ≤ 2147483648 := by
      rw [← double]
      exact bound
    have small : 2 * (hole + 1) < word := by
      simp only [word]
      omega
    obtain ⟨child, chosen, positive, inside, below, least⟩ := moving.lesserChild small (by omega)
    have children : child = 2 * hole + 1 ∨ child = 2 * hole + 2 := by
      rw [parent] at below
      omega
    rw [moving.key] at least
    have leftSlot := rest (2 * hole + 1) (by omega) (by omega)
    have chosenLeft : child = 2 * hole + 1 := by
      cases children with
      | inl same => exact same
      | inr same =>
        have smaller := least (2 * hole + 1) (by omega) (by omega) (by rw [parent]; omega)
        rw [leftSlot, rest child (by omega) (by omega), keys child (by omega),
          keys (2 * hole + 1) (by omega)] at smaller
        omega
    have pass := moving.shiftDownPass small (by omega) chosen inside (by omega)
    have greater : base.key e > base.key (t.p child) := by
      rw [rest child (by omega) (by omega), keys child (by omega)]
      omega
    obtain ⟨moved, put, next, slots⟩ := moving.move inside (by omega)
    rw [moving.key, if_pos greater, put] at pass
    have ends : Leaves (fun fuel => minHeapShiftDown fuel moved child e) none := by
      apply ih next
      · rw [next.n, ← moving.n]
        exact size
      · omega
      · rw [double]
        omega
      · intro index within later
        rw [slots, Function.update_of_ne (by omega)]
        exact rest index within (by omega)
    exact leaves_next (attempt_next pass) ends

/-- With `2 ^ 31 + 1` timers the pop after the first handler reads outside the slots, so it
does not take the entry whose handler ran. -/
theorem expire_timer_wraps :
    ∃ trace state, Run Step (start fun _ => 0) trace state ∧
      state.control = .handling 4294967295 0 ∧
      Leaves (fun fuel => minHeapPop fuel state.timers) none ∧
      ¬ ∃ after, Leaves (fun fuel => minHeapPop fuel state.timers) (some (after, some 0)) := by
  obtain ⟨trace, timers, run, ascending⟩ :=
    ascending_run (fun _ => 0) 2147483649 (by simp only [word]; omega)
  have sound := ascending.sound
  have size := ascending.n
  have top := sound.top (by omega)
  have root := ascending.slots 0 (by omega)
  rw [root] at top
  have due := ascending.time 0 (by omega)
  have last := ascending.slots 2147483648 (by omega)
  have called := (run.snoc (.call : Step _ (.called 4294967295) _)).snoc
    (.run top due (by decide))
  have moving := sound.refill (show 0 < timers.n - 1 by omega)
  have slot : timers.p (timers.n - 1) = 2147483648 := by
    rw [size]
    exact last
  rw [slot] at moving
  have shift : Leaves (fun fuel => minHeapShiftDown fuel timers.shorter 0 2147483648) none := by
    apply leftmost_undefined _ _ _ 31 moving
    · change timers.n - 1 = _
      rw [size]
    · omega
    · rfl
    · intro index within _
      exact ascending.slots index (by omega)
    · change _ ≤ timers.key _
      rw [ascending.key (by omega) (by simp only [word]; omega)]
    · exact sound.capacity
    · intro index within
      exact ascending.key (by omega) (by simp only [word]; omega)
  have fits := sound.fits
  have first : timers.slot 0 = some 0 := by
    rw [slot_eq (by omega), root]
  have final : timers.slot (timers.n - 1) = some 2147483648 := by
    rw [slot_eq (by omega), slot]
  have shrinks : pred timers.n = timers.n - 1 := pred_eq (by omega)
  have unfolded : ∀ fuel, minHeapPop fuel timers =
      (minHeapShiftDown fuel timers.shorter 0 2147483648).map fun shifted =>
        (shifted.bind (Timers.detach · 0)).map fun t => (t, some 0) := by
    intro fuel
    simp only [minHeapPop, if_pos (show timers.n ≠ 0 by omega), first, shrinks, final]
    rfl
  have undefined : Leaves (fun fuel => minHeapPop fuel timers) none := by
    simp only [unfolded]
    exact shift.map (fun shifted : Option Timers =>
      (shifted.bind (Timers.detach · 0)).map fun t => (t, some 0))
  refine ⟨_, _, called, rfl, undefined, ?_⟩
  intro defined
  obtain ⟨after, leaves⟩ := defined
  cases undefined.unique leaves

end BackendCpp.Minheap
