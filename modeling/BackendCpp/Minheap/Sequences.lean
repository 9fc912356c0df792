import BackendCpp.Library.Run
import BackendCpp.Minheap.Operations

/-!
# Sequences of pushes, pops, erasures and adjustments

The functions of minheap.c in any order: an entry is pushed again after it was removed, its
deadline is changed and adjusted while it is in the heap, and each growth may fail. A ledger
read off the answers lists the entries that are in the heap. An entry that is in the heap is
not pushed a second time, and its deadline only changes together with an adjustment.
-/

namespace BackendCpp.Minheap

open BackendCpp.Library

/-- What a user of the heap does, with the answers. -/
inductive Action where
  /-- A new entry was initialised. -/
  | inited (time : UInt32)
  /-- The deadline of an entry outside the heap was set. -/
  | timed (e : Nat) (time : UInt32)
  /-- `add_timer` returned `te`. -/
  | added (te : Option Nat)
  /-- `min_heap_push_(e)` succeeded or failed. -/
  | pushed (e : Nat) (done : Bool)
  /-- `min_heap_pop_` returned an entry or `NULL`. -/
  | popped (e : Option Nat)
  /-- `min_heap_erase_(e)` erased the entry or answered `-1`. -/
  | erased (e : Nat) (done : Bool)
  /-- The deadline of `e` became `time`, and `min_heap_adjust_(e)` succeeded or failed. -/
  | adjusted (e : Nat) (time : UInt32) (done : Bool)

/-- One action. -/
inductive Acts (s : Timers) : Action → Timers → Prop
  | init {time : UInt32} : Acts s (.inited time) (minHeapElemInit s time)
  | retime {e : Nat} {time : UInt32} {after : Timers} (done : s.setTime e time = some after) :
      Acts s (.timed e time) after
  | add {now msec : UInt32} {mallocs reallocs : Bool} {after : Timers} {te : Option Nat}
      (done : Leaves (fun fuel => addTimer fuel s now msec mallocs reallocs)
        (some (after, te))) : Acts s (.added te) after
  | push {e : Nat} {reallocs : Bool} {after : Timers} {answer : Bool}
      (done : Leaves (fun fuel => minHeapPush fuel s e reallocs) (some (after, answer))) :
      Acts s (.pushed e answer) after
  | pop {after : Timers} {e : Option Nat}
      (done : Leaves (fun fuel => minHeapPop fuel s) (some (after, e))) :
      Acts s (.popped e) after
  | erase {e : Nat} {after : Timers} {answer : Bool}
      (done : Leaves (fun fuel => delTimer fuel s e) (some (after, answer))) :
      Acts s (.erased e answer) after
  | adjust {e : Nat} {time : UInt32} {reallocs : Bool} {timed after : Timers} {answer : Bool}
      (set : s.setTime e time = some timed)
      (done : Leaves (fun fuel => minHeapAdjust fuel timed e reallocs) (some (after, answer))) :
      Acts s (.adjusted e time answer) after

/-- The actions of a user that pushes no entry twice and adjusts each entry of the heap whose
deadline it changes. -/
def Proper (s : Timers) : Action → Prop
  | .timed e _ => ¬ s.Pending e
  | .pushed e _ => ¬ s.Pending e ∧ ∃ entry, s.entries e = some entry
  | _ => True

/-- The entries that are in the heap, and those that were and are not. -/
structure Ledger where
  /-- Pushed and not removed since. -/
  inside : List Nat
  /-- Removed and not pushed since. -/
  removed : List Nat

namespace Ledger

/-- An entry comes. -/
def enter (ledger : Ledger) (e : Nat) : Ledger :=
  ⟨e :: ledger.inside, ledger.removed.filter (· ≠ e)⟩

/-- An entry goes. -/
def leave (ledger : Ledger) (e : Nat) : Ledger := ⟨ledger.inside.erase e, e :: ledger.removed⟩

/-- The ledger after one more action. -/
def update (ledger : Ledger) : Action → Ledger
  | .added (some te) => ledger.enter te
  | .pushed e true => ledger.enter e
  | .popped (some e) => ledger.leave e
  | .erased e true => ledger.leave e
  | .adjusted e _ true => if e ∈ ledger.inside then ledger else ledger.enter e
  | _ => ledger

end Ledger

/-- The invariant of sequences. -/
structure Balanced (s : Timers) (ledger : Ledger) : Prop where
  /-- The heap is sound. -/
  sound : Sound s
  /-- The entries of the heap are those that the ledger lists. -/
  pending : ∀ e, s.Pending e ↔ e ∈ ledger.inside
  /-- Each of them once. -/
  distinct : ledger.inside.Nodup
  /-- A removed entry is in no slot. -/
  apart : ∀ e ∈ ledger.removed, e ∉ ledger.inside
  /-- It is still allocated. -/
  allocated : ∀ e ∈ ledger.removed, s.entries e ≠ none

variable {s after : Timers} {ledger : Ledger} {e : Nat}

/-- An entry that comes leaves the ledger balanced. -/
theorem Balanced.enter (balanced : Balanced s ledger) (sound : Sound after)
    (pending : ∀ other, after.Pending other ↔ s.Pending other ∨ other = e)
    (idle : ¬ s.Pending e)
    (kept : ∀ other ∈ ledger.removed, other ≠ e → after.entries other ≠ none) :
    Balanced after (ledger.enter e) := by
  have removed (other : Nat) : other ∈ (ledger.enter e).removed ↔
      other ∈ ledger.removed ∧ other ≠ e := by
    change other ∈ ledger.removed.filter (· ≠ e) ↔ _
    simp only [List.mem_filter, decide_eq_true_eq]
  constructor
  · exact sound
  · intro other
    rw [pending other, balanced.pending other]
    exact or_comm.trans List.mem_cons.symm
  · apply List.nodup_cons.mpr ⟨_, balanced.distinct⟩
    rw [← balanced.pending]
    exact idle
  · intro other member
    have both := (removed other).mp member
    intro inside
    cases List.mem_cons.mp inside with
    | inl same => exact both.2 same
    | inr old => exact balanced.apart other both.1 old
  · intro other member
    have both := (removed other).mp member
    exact kept other both.1 both.2

/-- An entry that goes leaves the ledger balanced. -/
theorem Balanced.leave (balanced : Balanced s ledger) (removed : Removed s after e) :
    Balanced after (ledger.leave e) := by
  have inside (other : Nat) : other ∈ (ledger.leave e).inside ↔
      other ∈ ledger.inside ∧ other ≠ e := by
    change other ∈ ledger.inside.erase e ↔ _
    rw [balanced.distinct.mem_erase_iff]
    exact and_comm
  constructor
  · exact removed.sound
  · intro other
    rw [removed.pending other, balanced.pending other, inside other]
  · exact balanced.distinct.erase e
  · intro other member within
    have both := (inside other).mp within
    cases List.mem_cons.mp member with
    | inl same => exact both.2 same
    | inr old => exact balanced.apart other old both.1
  · intro other member
    by_cases same : other = e
    · rw [same]
      exact removed.entry.2
    · have old := (List.mem_cons.mp member).resolve_left same
      have idle : ¬ s.Pending other := by
        rw [balanced.pending]
        exact balanced.apart other old
      rw [removed.elsewhere.entries other same idle]
      exact balanced.allocated other old

/-- A heap with the same pending entries leaves the ledger balanced. -/
theorem Balanced.stay (balanced : Balanced s ledger) (sound : Sound after)
    (pending : ∀ other, after.Pending other ↔ s.Pending other)
    (kept : ∀ other ∈ ledger.removed, after.entries other ≠ none) : Balanced after ledger :=
  ⟨sound, fun other => (pending other).trans (balanced.pending other), balanced.distinct,
    balanced.apart, kept⟩

/-- A removed entry is not pending. -/
theorem Balanced.idle (balanced : Balanced s ledger) (member : e ∈ ledger.removed) :
    ¬ s.Pending e := by
  rw [balanced.pending]
  exact balanced.apart e member

/-- The heap with another deadline for `e`. -/
def Timers.retimed (s : Timers) (e : Nat) (entry : TimerEntry) (time : UInt32) : Timers :=
  { s with entries := Function.update s.entries e (some { entry with time := time }) }

section Deadline

variable {entry : TimerEntry} {time : UInt32}

/-- The deadline of an allocated entry may be set. -/
theorem setTime_eq (found : s.entries e = some entry) (time : UInt32) :
    s.setTime e time = some (s.retimed e entry time) := by
  rw [Timers.setTime, found]
  rfl

/-- Only the deadline of an allocated entry may be set. -/
theorem setTime_some (set : s.setTime e time = some after) :
    ∃ entry, s.entries e = some entry ∧ after = s.retimed e entry time := by
  cases found : s.entries e with
  | none =>
    rw [Timers.setTime, found] at set
    cases set
  | some entry =>
    rw [setTime_eq found] at set
    exact ⟨entry, rfl, (Option.some.inj set).symm⟩

/-- The other entries stay. -/
theorem retimed_entries {other : Nat} (differs : other ≠ e) :
    (s.retimed e entry time).entries other = s.entries other :=
  Function.update_of_ne differs _ _

/-- The entry itself. -/
theorem retimed_self : (s.retimed e entry time).entries e = some { entry with time := time } :=
  Function.update_self _ _ _

/-- The deadlines of the other entries stay. -/
theorem retimed_time {other : Nat} (differs : other ≠ e) :
    (s.retimed e entry time).time other = s.time other := by
  rw [Timers.time, retimed_entries differs, Timers.time]

/-- No entry is lost. -/
theorem retimed_allocated {other : Nat} (allocated : s.entries other ≠ none) :
    (s.retimed e entry time).entries other ≠ none := by
  by_cases same : other = e
  · rw [same, retimed_self]
    exact Option.some_ne_none _
  · rw [retimed_entries same]
    exact allocated

/-- An entry stays where it is placed. -/
theorem retimed_placed (found : s.entries e = some entry) {index : Nat} (placed : s.Placed index) :
    (s.retimed e entry time).Placed index := by
  obtain ⟨old, foundOld, names⟩ := placed
  by_cases same : s.p index = e
  · rw [same, found] at foundOld
    rw [← Option.some.inj foundOld] at names
    refine ⟨{ entry with time := time }, ?_, names⟩
    change (s.retimed e entry time).entries (s.p index) = _
    rw [same]
    exact retimed_self
  · exact ⟨old, (retimed_entries same).trans foundOld, names⟩

/-- An entry that names a slot is in it, whatever its deadline. -/
theorem Sound.retimed_listed (sound : Sound s) (found : s.entries e = some entry) {other : Nat}
    {item : TimerEntry} (foundItem : (s.retimed e entry time).entries other = some item)
    (names : item.minHeapIdx ≠ noIndex) : s.Pending other := by
  by_cases same : other = e
  · rw [same, retimed_self] at foundItem
    rw [← Option.some.inj foundItem] at names
    rw [same]
    exact sound.listed e entry found names
  · rw [retimed_entries same] at foundItem
    exact sound.listed other item foundItem names

/-- Entries yet to come are not allocated. -/
theorem Sound.retimed_unborn (sound : Sound s) (found : s.entries e = some entry) {other : Nat}
    (late : s.fresh ≤ other) : (s.retimed e entry time).entries other = none := by
  have differs : other ≠ e := by
    intro same
    rw [← same, sound.unborn other late] at found
    cases found
  rw [retimed_entries differs]
  exact sound.unborn other late

/-- Setting the deadline of an entry outside the heap keeps the heap sound. -/
theorem Sound.retime (sound : Sound s) (found : s.entries e = some entry) (idle : ¬ s.Pending e)
    (time : UInt32) : Sound (s.retimed e entry time) := by
  have keys (index : Nat) (inside : index < s.n) :
      (s.retimed e entry time).key (s.p index) = s.key (s.p index) :=
    key_congr (retimed_time fun same => idle ⟨index, inside, same⟩)
  refine ⟨sound.fits, sound.small, sound.capacity, ?_, ?_, ?_, ?_⟩
  · intro index inside
    exact retimed_placed found (sound.placed index inside)
  · intro other item foundItem names
    exact sound.retimed_listed found foundItem names
  · intro index inside positive
    have above := parent_lt positive
    have within : index < s.n := inside
    change (s.retimed e entry time).key (s.p (parent index)) ≤
      (s.retimed e entry time).key (s.p index)
    rw [keys index within, keys (parent index) (by omega)]
    exact sound.heaped index inside positive
  · intro other late
    exact sound.retimed_unborn found late

/-- The entry whose deadline changed waits for its own slot. -/
theorem Sound.retimed_moving (sound : Sound s) (found : s.entries e = some entry)
    (inside : entry.minHeapIdx < s.n) (slot : s.p entry.minHeapIdx = e) :
    Moving (s.retimed e entry time) s.Pending (s.retimed e entry time) entry.minHeapIdx e := by
  constructor
  · exact ⟨rfl, rfl, rfl, fun _ => rfl, fun _ _ => rfl⟩
  · exact inside
  · exact sound.fits
  · intro index within _
    exact retimed_placed found (sound.placed index within)
  · intro index within other same
    apply sound.slots_ne within inside other
    rw [slot]
    exact same
  · exact ⟨_, retimed_self⟩
  · intro id
    constructor
    · intro pending
      obtain ⟨index, within, same⟩ := pending
      by_cases here : index = entry.minHeapIdx
      · left
        rw [← same, here, slot]
      · exact .inr ⟨index, within, here, same⟩
    · intro either
      cases either with
      | inl same =>
        rw [same]
        exact ⟨entry.minHeapIdx, inside, slot⟩
      | inr other =>
        obtain ⟨index, within, _, same⟩ := other
        exact ⟨index, within, same⟩

/-- `min_heap_adjust_` of a pending entry after its deadline changed. -/
theorem Sound.adjust (sound : Sound s) (pending : s.Pending e)
    (found : s.entries e = some entry) (small : 2 * s.n < word) (time : UInt32) (reallocs : Bool) :
    ∃ result, Leaves (fun fuel => minHeapAdjust fuel (s.retimed e entry time) e reallocs)
        (some (result, true)) ∧
      Sound result ∧ result.n = s.n ∧ (∀ other, result.Pending other ↔ s.Pending other) ∧
      (∀ other, ¬ s.Pending other → result.entries other = s.entries other) := by
  obtain ⟨item, foundItem, inside, slot⟩ := sound.pending pending
  rw [found] at foundItem
  cases foundItem
  have bound := sound.small
  have named : entry.minHeapIdx ≠ noIndex := by
    simp only [noIndex, word] at bound ⊢
    omega
  have moving := @Sound.retimed_moving _ _ _ time sound found inside slot
  have same (index : Nat) (within : index < s.n) (other : index ≠ entry.minHeapIdx) :
      (s.retimed e entry time).key (s.p index) = s.key (s.p index) := by
    apply key_congr
    apply retimed_time
    intro here
    apply sound.slots_ne within inside other
    rw [slot]
    exact here
  have stays : Function.update s.p entry.minHeapIdx e = s.p := by
    rw [← slot, Function.update_eq_self]
  have above (deep : 0 < entry.minHeapIdx) :
      (s.retimed e entry time).key (s.p (parent entry.minHeapIdx)) =
        s.key (s.p (parent entry.minHeapIdx)) := by
    have less := parent_lt deep
    exact same _ (by omega) (by omega)
  obtain ⟨result, leaves, sifted, _⟩ := moving.resettle small
    (by
      intro deep less
      change Rising _ s.n _ (Function.update s.p _ e)
      rw [stays]
      apply sound.heaped.rising_change inside same deep
      rw [slot, ← above deep]
      exact le_of_lt less)
    (by
      intro large
      change Sinking _ s.n _ (Function.update s.p _ e)
      rw [stays]
      apply sound.heaped.sinking_change inside same
      intro deep
      rw [slot, ← above deep]
      exact large deep)
  refine ⟨result, ?_, ?_, sifted.n, fun other => (sifted.contents other).symm, ?_⟩
  · have unfolded : ∀ fuel, minHeapAdjust fuel (s.retimed e entry time) e reallocs =
        (eraseShift fuel (s.retimed e entry time) entry.minHeapIdx e).map
          (Option.map fun t => (t, true)) := by
      intro fuel
      simp only [minHeapAdjust, retimed_self, if_neg named]
    simp only [unfolded]
    exact leaves.map _
  · apply sifted.sound sound.fits sound.capacity
    · intro other member
      exact sound.pending_lt member
    · intro other late
      exact sound.retimed_unborn found late
    · intro other item outside foundItem
      by_contra names
      exact outside (sound.retimed_listed found foundItem names)
  · intro other outside
    have differs : other ≠ e := fun here => outside (here ▸ pending)
    rw [sifted.frame other outside]
    exact retimed_entries differs

/-- `min_heap_adjust_` of an entry outside the heap is `min_heap_push_`. -/
theorem Sound.adjust_idle (sound : Sound s) (found : s.entries e = some entry)
    (idle : ¬ s.Pending e) (fuel : Nat) (reallocs : Bool) :
    minHeapAdjust fuel s e reallocs = minHeapPush fuel s e reallocs := by
  have marked : entry.minHeapIdx = noIndex := by
    by_contra names
    exact idle (sound.listed e entry found names)
  simp only [minHeapAdjust, found, if_pos marked]

end Deadline

/-- `min_heap_push_` of an entry outside the heap either changes nothing, when memory is refused,
or pushes the entry. -/
theorem Sound.push_cases (sound : Sound s) (small : 2 * s.n < word) {entry : TimerEntry}
    (found : s.entries e = some entry) (idle : ¬ s.Pending e) (reallocs : Bool) :
    (reallocs = false ∧
      Leaves (fun fuel => minHeapPush fuel s e reallocs) (some (s, false))) ∨
    ∃ result, Leaves (fun fuel => minHeapPush fuel s e reallocs) (some (result, true)) ∧
      Pushed s result e := by
  cases reserves : minHeapReserve s ((s.n + 1) % word) reallocs with
  | none =>
    refine .inl ⟨?_, Leaves.of_forall (push_refused reserves)⟩
    cases reallocs with
    | false => rfl
    | true =>
      obtain ⟨reserved, grows⟩ := reserve_granted s ((s.n + 1) % word)
      rw [grows] at reserves
      cases reserves
  | some reserved =>
    have room : s.n + 1 < word := by
      simp only [word] at small ⊢
      omega
    exact .inr ((sound.ready found idle).push room reserves)

/-- `min_heap_push_` keeps the ledger balanced. -/
theorem Balanced.push (balanced : Balanced s ledger) (small : 2 * s.n < word) {entry : TimerEntry}
    (found : s.entries e = some entry) (idle : ¬ s.Pending e) {reallocs answer : Bool}
    (done : Leaves (fun fuel => minHeapPush fuel s e reallocs) (some (after, answer))) :
    Balanced after (if answer then ledger.enter e else ledger) := by
  cases balanced.sound.push_cases small found idle reallocs with
  | inl refused =>
    cases done.unique refused.2
    exact balanced
  | inr granted =>
    obtain ⟨result, leaves, pushed⟩ := granted
    cases done.unique leaves
    apply balanced.enter pushed.sound pushed.pending idle
    intro other member differs
    rw [pushed.elsewhere.entries other differs (balanced.idle member)]
    exact balanced.allocated other member

/-- `add_timer` keeps the ledger balanced. -/
theorem Balanced.add (balanced : Balanced s ledger) (small : 2 * s.n < word) {now msec : UInt32}
    {mallocs reallocs : Bool} {te : Option Nat}
    (done : Leaves (fun fuel => addTimer fuel s now msec mallocs reallocs) (some (after, te))) :
    Balanced after (ledger.update (.added te)) := by
  cases mallocs with
  | false =>
    cases done.unique (Leaves.of_forall fun _ => rfl)
    exact balanced
  | true =>
    cases reserves : minHeapReserve { s with
      entries := Function.update s.entries s.fresh (some ⟨now + msec, 0⟩)
      fresh := s.fresh + 1 } ((s.n + 1) % word) reallocs with
    | none =>
      cases done.unique (Leaves.of_forall (balanced.sound.add_refused now msec reserves))
      exact balanced.stay balanced.sound.skip (fun _ => Iff.rfl) balanced.allocated
    | some reserved =>
      have room : s.n + 1 < word := by
        simp only [word] at small ⊢
        omega
      obtain ⟨result, leaves, sound, _, _, _, elsewhere, pending, _⟩ :=
        balanced.sound.add room now msec reserves
      cases done.unique leaves
      apply balanced.enter sound pending
      · intro isPending
        exact lt_irrefl _ (balanced.sound.pending_lt isPending)
      · intro other member differs
        rw [elsewhere.entries other differs (balanced.idle member)]
        exact balanced.allocated other member

/-- `min_heap_pop_` keeps the ledger balanced. -/
theorem Balanced.pop (balanced : Balanced s ledger) (small : 2 * s.n < word) {top : Option Nat}
    (done : Leaves (fun fuel => minHeapPop fuel s) (some (after, top))) :
    Balanced after (ledger.update (.popped top)) := by
  by_cases filled : 0 < s.n
  · obtain ⟨result, leaves, removed⟩ := balanced.sound.pop filled (by omega)
    cases done.unique leaves
    exact balanced.leave removed
  · have empty : Leaves (fun fuel => minHeapPop fuel s) (some (s, none)) := by
      apply Leaves.of_forall
      intro fuel
      simp only [minHeapPop, Nat.eq_zero_of_not_pos filled, ne_eq, not_true_eq_false, if_false]
    cases done.unique empty
    exact balanced

/-- `min_heap_erase_` keeps the ledger balanced. -/
theorem Balanced.erase (balanced : Balanced s ledger) (small : 2 * s.n < word) {answer : Bool}
    (done : Leaves (fun fuel => delTimer fuel s e) (some (after, answer))) :
    Balanced after (ledger.update (.erased e answer)) := by
  by_cases pending : s.Pending e
  · obtain ⟨result, leaves, removed, _⟩ := balanced.sound.del pending small
    cases done.unique leaves
    exact balanced.leave removed
  · obtain ⟨fuel, returns⟩ := done.exists_fuel
    cases found : s.entries e with
    | none =>
      simp only [delTimer, found] at returns
      cases returns
    | some entry =>
      rw [balanced.sound.del_idle found pending fuel] at returns
      cases returns
      exact balanced

/-- `min_heap_adjust_` keeps the ledger balanced. -/
theorem Balanced.adjust (balanced : Balanced s ledger) (small : 2 * s.n < word) {timed : Timers}
    {time : UInt32} {reallocs answer : Bool} (set : s.setTime e time = some timed)
    (done : Leaves (fun fuel => minHeapAdjust fuel timed e reallocs) (some (after, answer))) :
    Balanced after (ledger.update (.adjusted e time answer)) := by
  obtain ⟨entry, found, rfl⟩ := setTime_some set
  by_cases pending : s.Pending e
  · obtain ⟨result, leaves, sound, _, same, kept⟩ :=
      balanced.sound.adjust pending found small time reallocs
    cases done.unique leaves
    have member : e ∈ ledger.inside := (balanced.pending e).mp pending
    simp only [Ledger.update, if_pos member]
    apply balanced.stay sound same
    intro other removed
    rw [kept other (balanced.idle removed)]
    exact balanced.allocated other removed
  · have outside : e ∉ ledger.inside := fun member => pending ((balanced.pending e).mpr member)
    have retimed : Balanced (s.retimed e entry time) ledger :=
      balanced.stay (balanced.sound.retime found pending time) (fun _ => Iff.rfl)
        (fun other removed => retimed_allocated (balanced.allocated other removed))
    simp only [retimed.sound.adjust_idle retimed_self pending] at done
    have pushed := retimed.push small retimed_self pending done
    cases answer with
    | false => exact pushed
    | true =>
      simp only [Ledger.update, if_neg outside]
      exact pushed

/-- Every proper action keeps the ledger balanced. -/
theorem Balanced.acts (balanced : Balanced s ledger) (small : 2 * s.n < word) {action : Action}
    (proper : Proper s action) (acts : Acts s action after) :
    Balanced after (ledger.update action) := by
  cases acts with
  | init =>
    apply balanced.stay (balanced.sound.elemInit _) (fun _ => Iff.rfl)
    intro other member
    have older : other ≠ s.fresh := by
      intro same
      exact balanced.allocated other member (same ▸ balanced.sound.unborn s.fresh le_rfl)
    change Function.update s.entries s.fresh _ other ≠ none
    rw [Function.update_of_ne older]
    exact balanced.allocated other member
  | retime done =>
    obtain ⟨entry, found, rfl⟩ := setTime_some done
    exact balanced.stay (balanced.sound.retime found proper _) (fun _ => Iff.rfl)
      (fun other removed => retimed_allocated (balanced.allocated other removed))
  | add done => exact balanced.add small done
  | push done =>
    rename_i answer
    obtain ⟨idle, entry, found⟩ := proper
    have pushed := balanced.push small found idle done
    cases answer <;> exact pushed
  | pop done => exact balanced.pop small done
  | erase done => exact balanced.erase small done
  | adjust set done => exact balanced.adjust small set done

/-- Every call returns, with the answer that the heap and the memory give. -/
structure Serves (s : Timers) : Prop where
  /-- A push fails only when memory is refused. -/
  push : ∀ e reallocs, s.entries e ≠ none → ¬ s.Pending e →
    ∃ after answer, Leaves (fun fuel => minHeapPush fuel s e reallocs) (some (after, answer)) ∧
      (reallocs = true → answer = true)
  /-- A pop answers the root. -/
  pop : ∃ after, Leaves (fun fuel => minHeapPop fuel s)
    (some (after, if s.n = 0 then none else some (s.p 0)))
  /-- Exactly the entries of the heap are erased. -/
  erase : ∀ e, s.entries e ≠ none →
    ∃ after answer, Leaves (fun fuel => delTimer fuel s e) (some (after, answer)) ∧
      (answer = true ↔ s.Pending e)
  /-- An adjustment fails only where a push does. -/
  adjust : ∀ e time reallocs, s.entries e ≠ none →
    ∃ timed after answer, s.setTime e time = some timed ∧
      Leaves (fun fuel => minHeapAdjust fuel timed e reallocs) (some (after, answer)) ∧
      (s.Pending e ∨ reallocs = true → answer = true)

/-- A push of an entry outside the heap returns. -/
theorem Sound.push_returns (sound : Sound s) (small : 2 * s.n < word) {entry : TimerEntry}
    (found : s.entries e = some entry) (idle : ¬ s.Pending e) (reallocs : Bool) :
    ∃ after answer, Leaves (fun fuel => minHeapPush fuel s e reallocs) (some (after, answer)) ∧
      (reallocs = true → answer = true) := by
  cases sound.push_cases small found idle reallocs with
  | inl refused =>
    refine ⟨s, false, refused.2, fun granted => ?_⟩
    rw [refused.1] at granted
    cases granted
  | inr granted =>
    obtain ⟨result, leaves, _⟩ := granted
    exact ⟨result, true, leaves, fun _ => rfl⟩

/-- A sound heap below half of the index range serves every call. -/
theorem Sound.serves (sound : Sound s) (small : 2 * s.n < word) : Serves s := by
  constructor
  · intro e reallocs allocated idle
    obtain ⟨entry, found⟩ := Option.ne_none_iff_exists'.mp allocated
    exact sound.push_returns small found idle reallocs
  · by_cases empty : s.n = 0
    · refine ⟨s, Leaves.of_forall fun fuel => ?_⟩
      simp only [minHeapPop, empty, ne_eq, not_true_eq_false, if_false, if_true]
    · obtain ⟨result, leaves, _⟩ := sound.pop (Nat.pos_of_ne_zero empty) (by omega)
      refine ⟨result, ?_⟩
      rw [if_neg empty]
      exact leaves
  · intro e allocated
    obtain ⟨entry, found⟩ := Option.ne_none_iff_exists'.mp allocated
    by_cases pending : s.Pending e
    · obtain ⟨result, leaves, _⟩ := sound.del pending small
      exact ⟨result, true, leaves, iff_of_true rfl pending⟩
    · exact ⟨s, false, Leaves.of_forall (sound.del_idle found pending),
        iff_of_false Bool.false_ne_true pending⟩
  · intro e time reallocs allocated
    obtain ⟨entry, found⟩ := Option.ne_none_iff_exists'.mp allocated
    refine ⟨s.retimed e entry time, ?_⟩
    by_cases pending : s.Pending e
    · obtain ⟨result, leaves, _⟩ := sound.adjust pending found small time reallocs
      exact ⟨result, true, setTime_eq found time, leaves, fun _ => rfl⟩
    · have retimed := sound.retime found pending time
      obtain ⟨result, answer, leaves, granted⟩ :=
        retimed.push_returns small retimed_self pending reallocs
      refine ⟨result, answer, setTime_eq found time, ?_, ?_⟩
      · simp only [retimed.adjust_idle retimed_self pending]
        exact leaves
      · intro either
        exact granted (either.resolve_left pending)

/-- What is true of the heap after a sequence of actions. -/
structure Exact (s : Timers) (ledger : Ledger) : Prop where
  /-- The deadlines are in heap order. -/
  ordered : ∀ i < s.n, 0 < i → ∃ above below, s.time (s.p ((i - 1) / 2)) = some above ∧
    s.time (s.p i) = some below ∧ above ≤ below
  /-- Every entry of the heap names its slot. -/
  indexed : ∀ i < s.n, ∃ entry, s.entries (s.p i) = some entry ∧ entry.minHeapIdx = i
  /-- Every removed entry names none. -/
  unindexed : ∀ e ∈ ledger.removed, ∃ entry, s.entries e = some entry ∧
    entry.minHeapIdx = noIndex
  /-- The slots hold the entries that were pushed and not removed. -/
  contents : ((List.range s.n).map s.p).Perm ledger.inside
  /-- Each of them once. -/
  once : ledger.inside.Nodup
  /-- Erasing a removed entry answers `-1` and changes nothing. -/
  idle : ∀ e ∈ ledger.removed, ∀ fuel, delTimer fuel s e = some (some (s, false))
  /-- A push that fails changes nothing. -/
  refused : ∀ e reallocs after, s.entries e ≠ none → ¬ s.Pending e →
    Leaves (fun fuel => minHeapPush fuel s e reallocs) (some (after, false)) → after = s
  /-- Every call returns. -/
  serves : Serves s

/-- Two deadlines that are in order by their keys. -/
theorem time_le_of_key {upper lower : Nat} {above below : TimerEntry}
    (foundAbove : s.entries upper = some above) (foundBelow : s.entries lower = some below)
    (ordered : s.key upper ≤ s.key lower) : above.time ≤ below.time := by
  simp only [Timers.key, Timers.time, foundAbove, foundBelow, Option.map_some,
    Option.getD_some] at ordered
  exact UInt32.le_iff_toNat_le.mpr ordered

/-- A push that fails leaves the heap as it was. -/
theorem Sound.push_failed (sound : Sound s) (small : 2 * s.n < word) {entry : TimerEntry}
    (found : s.entries e = some entry) (idle : ¬ s.Pending e) {reallocs : Bool}
    (done : Leaves (fun fuel => minHeapPush fuel s e reallocs) (some (after, false))) :
    after = s := by
  cases sound.push_cases small found idle reallocs with
  | inl refused =>
    cases done.unique refused.2
    rfl
  | inr granted =>
    obtain ⟨result, leaves, _⟩ := granted
    cases done.unique leaves

/-- A balanced ledger is exact. -/
theorem Balanced.exact (balanced : Balanced s ledger) (small : 2 * s.n < word) :
    Exact s ledger := by
  have sound := balanced.sound
  have unindexed (e : Nat) (member : e ∈ ledger.removed) :
      ∃ entry, s.entries e = some entry ∧ entry.minHeapIdx = noIndex := by
    obtain ⟨entry, found⟩ := Option.ne_none_iff_exists'.mp (balanced.allocated e member)
    refine ⟨entry, found, ?_⟩
    by_contra names
    exact balanced.idle member (sound.listed e entry found names)
  constructor
  · intro i inside positive
    have less := parent_lt positive
    obtain ⟨above, foundAbove, _⟩ := sound.placed (parent i) (by omega)
    obtain ⟨below, foundBelow, _⟩ := sound.placed i inside
    refine ⟨above.time, below.time, congrArg (Option.map TimerEntry.time) foundAbove,
      congrArg (Option.map TimerEntry.time) foundBelow, ?_⟩
    exact time_le_of_key foundAbove foundBelow (sound.heaped i inside positive)
  · exact sound.placed
  · exact unindexed
  · have nodup : ((List.range s.n).map s.p).Nodup := by
      apply List.Nodup.map_on _ List.nodup_range
      intro left first right second same
      by_contra differ
      exact sound.slots_ne (List.mem_range.mp first) (List.mem_range.mp second) differ same
    apply (List.perm_ext_iff_of_nodup nodup balanced.distinct).mpr
    intro e
    rw [← balanced.pending e, List.mem_map]
    simp only [List.mem_range, Timers.Pending]
  · exact balanced.distinct
  · intro e member fuel
    obtain ⟨entry, found, _⟩ := unindexed e member
    exact sound.del_idle found (balanced.idle member) fuel
  · intro e reallocs after allocated idle done
    obtain ⟨entry, found⟩ := Option.ne_none_iff_exists'.mp allocated
    exact sound.push_failed small found idle done
  · exact sound.serves small

/-- The empty heap is balanced. -/
theorem balanced_ctor (rest : Nat → Nat) : Balanced (minHeapCtor rest) ⟨[], []⟩ := by
  refine ⟨sound_ctor rest, ?_, List.nodup_nil, ?_, ?_⟩
  · intro e
    apply iff_of_false
    · intro pending
      obtain ⟨index, inside, _⟩ := pending
      exact absurd inside (Nat.not_lt_zero index)
    · exact List.not_mem_nil
  · intro e member
    exact absurd member List.not_mem_nil
  · intro e member
    exact absurd member List.not_mem_nil

/-- In every sequence of proper actions with fewer than `2 ^ 31` entries the heap is exact. -/
theorem sequence_exact {rest : Nat → Nat} {trace : List Action}
    (run : Run (fun state action next =>
      state.n < 2147483648 ∧ Proper state action ∧ Acts state action next)
      (minHeapCtor rest) trace s) (bounded : s.n < 2147483648) :
    Exact s (trace.foldl Ledger.update ⟨[], []⟩) := by
  have balanced : Balanced s (trace.foldl Ledger.update ⟨[], []⟩) := by
    apply run.simulation Ledger.update Balanced (balanced_ctor rest)
    intro state ghost action next holds taken
    obtain ⟨less, proper, acts⟩ := taken
    have small : 2 * state.n < word := by
      simp only [word]
      omega
    exact holds.acts small proper acts
  apply balanced.exact
  simp only [word]
  omega

/-- Execute an action under a fuel; `add_timer` is called with the delay `msec` at the reading 0, and
memory is refused to the actions that are to fail. -/
def Action.exec (fuel : Nat) (msec : UInt32) (s : Timers) : Action → Option Timers
  | .inited time => some (minHeapElemInit s time)
  | .timed e time => if e ∉ (List.range s.n).map s.p then s.setTime e time else none
  | .added te => (addTimer fuel s 0 msec te.isSome te.isSome).join.bind fun (after, te') =>
    if te' = te then some after else none
  | .pushed e answer =>
    if e ∉ (List.range s.n).map s.p ∧ (s.entries e).isSome = true then
      (minHeapPush fuel s e answer).join.bind fun (after, answer') =>
        if answer' = answer then some after else none
    else none
  | .popped e => (minHeapPop fuel s).join.bind fun (after, e') =>
    if e' = e then some after else none
  | .erased e answer => (delTimer fuel s e).join.bind fun (after, answer') =>
    if answer' = answer then some after else none
  | .adjusted e time answer =>
    (s.setTime e time).bind fun timed =>
      (minHeapAdjust fuel timed e answer).join.bind fun (after, answer') =>
        if answer' = answer then some after else none

/-- An entry that is not listed is not in the heap. -/
theorem not_pending_of_not_mem (outside : e ∉ (List.range s.n).map s.p) : ¬ s.Pending e := by
  rintro ⟨index, inside, same⟩
  exact outside (List.mem_map.mpr ⟨index, List.mem_range.mpr inside, same⟩)

/-- A call with its answer. -/
theorem answered {α β : Type} [DecidableEq β] {call : Option (Option (α × β))} {after : α}
    {answer : β} (done : (call.join.bind fun result =>
      if result.2 = answer then some result.1 else none) = some after) :
    call = some (some (after, answer)) := by
  obtain ⟨result, returned, rest⟩ := Option.bind_eq_some_iff.mp done
  obtain ⟨agrees, same⟩ := Option.ite_none_right_eq_some.mp rest
  rw [← Option.some.inj same, ← agrees]
  exact Option.join_eq_some_iff.mp returned

/-- An action that was executed is a proper one. -/
theorem acts_of_exec {fuel : Nat} {msec : UInt32} {action : Action}
    (done : action.exec fuel msec s = some after) : Proper s action ∧ Acts s action after := by
  cases action with
  | inited time =>
    rw [← Option.some.inj done]
    exact ⟨trivial, .init⟩
  | timed e time =>
    obtain ⟨outside, done⟩ := Option.ite_none_right_eq_some.mp done
    exact ⟨not_pending_of_not_mem outside, .retime done⟩
  | added te => exact ⟨trivial, .add (leaves_addTimer (answered done))⟩
  | pushed e answer =>
    obtain ⟨⟨outside, allocated⟩, done⟩ := Option.ite_none_right_eq_some.mp done
    exact ⟨⟨not_pending_of_not_mem outside, Option.isSome_iff_exists.mp allocated⟩,
      .push (leaves_minHeapPush (answered done))⟩
  | popped e => exact ⟨trivial, .pop (leaves_minHeapPop (answered done))⟩
  | erased e answer => exact ⟨trivial, .erase (leaves_delTimer (answered done))⟩
  | adjusted e time answer =>
    obtain ⟨timed, set, done⟩ := Option.bind_eq_some_iff.mp done
    exact ⟨trivial, .adjust set (leaves_minHeapAdjust (answered done))⟩

/-- The first push fails, and every other kind of action follows; an entry that was erased is pushed
again, and one that was popped is erased in vain. -/
def assorted : List Action :=
  [.inited 5, .inited 3, .inited 8, .inited 1, .pushed 0 false, .pushed 0 true, .pushed 1 true,
    .pushed 2 true, .added (some 4), .erased 1 true, .adjusted 0 9 true, .pushed 1 true, .timed 3 2,
    .pushed 3 true, .popped (some 3), .erased 3 false]

/-- Four entries are in the heap afterwards, and the fifth one was removed. -/
theorem sequence_exact_assorted : ∃ s, Exact s ⟨[1, 4, 2, 0], [3]⟩ ∧ s.p 0 = 1 ∧ s.n = 4 := by
  have ledger : assorted.foldl Ledger.update ⟨[], []⟩ = ⟨[1, 4, 2, 0], [3]⟩ := rfl
  have ends : (assorted.foldlM (fun s action =>
      if s.n < 2147483648 then action.exec 9 4 s else none) (minHeapCtor fun _ => 0)).any
        (fun s : Timers => s.p 0 = 1 ∧ s.n = 4) = true := by
    decide +kernel
  obtain ⟨s, done, facts⟩ := (Option.any_eq_true _ _).mp ends
  obtain ⟨root, size⟩ := of_decide_eq_true facts
  have run := (Run.of_tested done).mono fun _ _ _ taken => And.intro taken.2 (acts_of_exec taken.1)
  have exact' := sequence_exact run (by omega)
  rw [ledger] at exact'
  exact ⟨s, exact', root, size⟩

end BackendCpp.Minheap
