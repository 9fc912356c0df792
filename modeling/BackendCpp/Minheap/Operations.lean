import BackendCpp.Minheap.Sifting

/-!
# Adding, erasing and popping entries

Between two operations every entry of the heap sits in the slot it names, every other
allocated entry names none, and the deadlines are in heap order. Each operation keeps this
and changes the set of pending entries by exactly its own entry. A root that is not erased
or popped stays the root unless an entry with an earlier deadline is added.
-/

namespace BackendCpp.Minheap

open BackendCpp.Library

/-- An entry that is in the heap. -/
def Timers.Pending (s : Timers) (e : Nat) : Prop := ∃ index < s.n, s.p index = e

/-- The heap between two operations. -/
structure Sound (s : Timers) : Prop where
  /-- The heap fits in its slots. -/
  fits : s.n ≤ s.a
  /-- Indices are `unsigned`, and none of them is `-1`. -/
  small : s.n < word
  /-- So is the number of slots. -/
  capacity : s.a < word
  /-- Every slot is placed. -/
  placed : ∀ index < s.n, s.Placed index
  /-- An entry that names a slot is in it. -/
  listed : ∀ e entry, s.entries e = some entry → entry.minHeapIdx ≠ noIndex → s.Pending e
  /-- The deadlines are in heap order. -/
  heaped : Heaped s.key s.n s.p
  /-- Entries yet to come are not allocated. -/
  unborn : ∀ e, s.fresh ≤ e → s.entries e = none

variable {s : Timers}

/-- A pending entry is allocated and names its slot. -/
theorem Sound.pending (sound : Sound s) {e : Nat} (pending : s.Pending e) :
    ∃ entry, s.entries e = some entry ∧ entry.minHeapIdx < s.n ∧
      s.p entry.minHeapIdx = e := by
  obtain ⟨index, inside, same⟩ := pending
  obtain ⟨entry, found, names⟩ := sound.placed index inside
  rw [same] at found
  refine ⟨entry, found, ?_, ?_⟩
  · rw [names]
    exact inside
  · rw [names]
    exact same

/-- A pending entry was added before. -/
theorem Sound.pending_lt (sound : Sound s) {e : Nat} (pending : s.Pending e) : e < s.fresh := by
  obtain ⟨entry, found, _⟩ := sound.pending pending
  by_contra late
  have missing := sound.unborn e (not_lt.mp late)
  rw [found] at missing
  cases missing

/-- The entries of two slots differ. -/
theorem Sound.slots_ne (sound : Sound s) {left right : Nat} (first : left < s.n)
    (second : right < s.n) (differ : left ≠ right) : s.p left ≠ s.p right :=
  placed_ne (sound.placed left first) (sound.placed right second) differ

/-- Two states agree on the deadlines. -/
theorem key_congr {t : Timers} {e : Nat} (same : t.time e = s.time e) : t.key e = s.key e := by
  rw [Timers.key, Timers.key, same]

/-- The heap at the start. -/
theorem sound_ctor (rest : Nat → Nat) : Sound (minHeapCtor rest) := by
  constructor
  · exact le_refl 0
  · change 0 < word
    simp only [word, Nat.ofNat_pos]
  · change 0 < word
    simp only [word, Nat.ofNat_pos]
  · intro index inside
    exact absurd inside (Nat.not_lt_zero index)
  · intro e entry found
    cases found
  · intro index inside
    exact absurd inside (Nat.not_lt_zero index)
  · intro e _
    rfl

/-- `min_heap_top_` reads the root. -/
theorem Sound.top (sound : Sound s) (filled : 0 < s.n) :
    minHeapTop s = some (some (s.p 0)) := by
  have fits := sound.fits
  rw [minHeapTop, if_pos (by omega), slot_eq (by omega)]
  rfl

/-- `min_heap_top_` of an empty heap. -/
theorem top_empty (empty : s.n = 0) : minHeapTop s = some none := by
  rw [minHeapTop, if_neg (by omega)]

/-- `min_heap_reserve_` makes room for the next entry and changes nothing else. -/
theorem reserve_room {n : Nat} {reserved : Timers} {reallocs : Bool}
    (done : minHeapReserve s n reallocs = some reserved) :
    n ≤ reserved.a ∧ (n < word → s.a < word → reserved.a < word) ∧
      reserved = { s with a := reserved.a } := by
  rw [minHeapReserve] at done
  by_cases short : s.a < n
  · simp only [if_pos short] at done
    cases reallocs with
    | false => exact absurd done (by simp)
    | true =>
      simp only [if_true, Option.some.injEq] at done
      have enough (grown : Nat) : n ≤ if grown < n then n else grown := by
        split
        · exact le_refl n
        · omega
      have bounded (grown : Nat) (fits : n < word) (less : grown < word) :
          (if grown < n then n else grown) < word := by
        split
        · exact fits
        · exact less
      have doubled : (if s.a ≠ 0 then s.a * 2 % word else 8) < word := by
        simp only [word]
        split
        · omega
        · omega
      rw [← done]
      exact ⟨enough _, fun fits _ => bounded _ fits doubled, rfl⟩
  · rw [if_neg short] at done
    rw [← Option.some.inj done]
    exact ⟨by omega, fun _ less => less, rfl⟩

/-- `realloc` that succeeds makes room. -/
theorem reserve_granted (s : Timers) (n : Nat) :
    ∃ reserved, minHeapReserve s n true = some reserved := by
  rw [minHeapReserve]
  split
  · exact ⟨_, rfl⟩
  · exact ⟨_, rfl⟩

/-- A settled heap with the marks of its surroundings is sound. -/
theorem Sifted.sound {base result : Timers} {members : Nat → Prop}
    (sifted : Sifted base members result) (fits : base.n ≤ base.a) (capacity : base.a < word)
    (members_lt : ∀ e, members e → e < base.fresh)
    (unborn : ∀ e, base.fresh ≤ e → base.entries e = none)
    (unlisted : ∀ e entry, ¬ members e → base.entries e = some entry →
      entry.minHeapIdx = noIndex) : Sound result := by
  have keys : result.key = base.key := by
    funext e
    exact key_congr (sifted.time e)
  constructor
  · rw [sifted.n, sifted.a]
    exact fits
  · rw [sifted.n]
    exact lt_of_le_of_lt fits capacity
  · rw [sifted.a]
    exact capacity
  · exact sifted.placed
  · intro e entry found names
    by_cases member : members e
    · exact (sifted.contents e).mp member
    · rw [sifted.frame e member] at found
      exact absurd (unlisted e entry member found) names
  · rw [keys]
    exact sifted.heaped
  · intro e late
    rw [sifted.fresh] at late
    have outside : ¬ members e := fun member => absurd (members_lt e member) (by omega)
    rw [sifted.frame e outside]
    exact unborn e late

/-- What an operation on `e` does to the other entries: their deadlines stay, and so do the
entries that are not in the heap. -/
structure Elsewhere (before after : Timers) (e : Nat) : Prop where
  /-- Deadlines stay. -/
  time : ∀ other, other ≠ e → after.time other = before.time other
  /-- Entries outside the heap stay. -/
  entries : ∀ other, other ≠ e → ¬ before.Pending other →
    after.entries other = before.entries other

/-- A heap that the allocated entry `e` may be pushed on: sound but for the index of `e`. -/
structure Ready (s : Timers) (e : Nat) : Prop where
  /-- The heap fits in its slots. -/
  fits : s.n ≤ s.a
  /-- The number of slots is an `unsigned`. -/
  capacity : s.a < word
  /-- Every slot is placed. -/
  placed : ∀ index < s.n, s.Placed index
  /-- Another entry that names a slot is in it. -/
  listed : ∀ other entry, other ≠ e → s.entries other = some entry →
    entry.minHeapIdx ≠ noIndex → s.Pending other
  /-- The deadlines are in heap order. -/
  heaped : Heaped s.key s.n s.p
  /-- Entries yet to come are not allocated. -/
  unborn : ∀ other, s.fresh ≤ other → s.entries other = none
  /-- The entry is allocated. -/
  allocated : ∃ entry, s.entries e = some entry
  /-- It is in no slot. -/
  idle : ¬ s.Pending e

/-- The end of `min_heap_push_`. -/
structure Pushed (before after : Timers) (e : Nat) : Prop where
  /-- The heap is sound. -/
  sound : Sound after
  /-- No entry is allocated. -/
  fresh : after.fresh = before.fresh
  /-- One entry more. -/
  n : after.n = before.n + 1
  /-- The other entries. -/
  elsewhere : Elsewhere before after e
  /-- The entry keeps its deadline. -/
  time : after.time e = before.time e
  /-- Only that entry comes. -/
  pending : ∀ other, after.Pending other ↔ before.Pending other ∨ other = e
  /-- An entry that is not due before the root leaves the root where it is. -/
  root : 0 < before.n → before.key (before.p 0) ≤ before.key e → after.p 0 = before.p 0
  /-- An entry that is not due before its parent leaves every slot as it is. -/
  slots : (0 < before.n → before.key (before.p (parent before.n)) ≤ before.key e) →
    after.p = Function.update before.p before.n e

/-- A sound heap is ready for an entry that is in no heap. -/
theorem Sound.ready (sound : Sound s) {e : Nat} {entry : TimerEntry}
    (found : s.entries e = some entry) (idle : ¬ s.Pending e) : Ready s e :=
  ⟨sound.fits, sound.capacity, sound.placed, fun other item _ => sound.listed other item,
    sound.heaped, sound.unborn, ⟨entry, found⟩, idle⟩

/-- An entry that is pushed is not one of those yet to come. -/
theorem Ready.lt {e : Nat} (ready : Ready s e) : e < s.fresh := by
  obtain ⟨entry, found⟩ := ready.allocated
  by_contra late
  rw [ready.unborn e (not_lt.mp late)] at found
  cases found

/-- The new last slot waits for the entry that is pushed. -/
theorem Ready.moving {e : Nat} (ready : Ready s e) {capacity : Nat} (large : s.n + 1 ≤ capacity) :
    Moving { s with n := s.n + 1, a := capacity } (fun other => other = e ∨ s.Pending other)
      { s with n := s.n + 1, a := capacity } s.n e := by
  constructor
  · exact ⟨rfl, rfl, rfl, fun _ => rfl, fun _ _ => rfl⟩
  · exact Nat.lt_succ_self _
  · exact large
  · intro index inside other
    have within : index < s.n + 1 := inside
    exact ready.placed index (by omega)
  · intro index inside other same
    have within : index < s.n + 1 := inside
    exact ready.idle ⟨index, by omega, same⟩
  · exact ready.allocated
  · intro id
    apply or_congr_right
    constructor
    · intro pending
      obtain ⟨index, inside, same⟩ := pending
      exact ⟨index, Nat.lt_succ_of_lt inside, Nat.ne_of_lt inside, same⟩
    · intro pending
      obtain ⟨index, inside, other, same⟩ := pending
      have within : index < s.n + 1 := inside
      exact ⟨index, by omega, same⟩

/-- `min_heap_push_` when memory is granted. -/
theorem Ready.push {e : Nat} (ready : Ready s e) (room : s.n + 1 < word) {reserved : Timers}
    {reallocs : Bool} (reserves : minHeapReserve s ((s.n + 1) % word) reallocs = some reserved) :
    ∃ result, Leaves (fun fuel => minHeapPush fuel s e reallocs) (some (result, true)) ∧
      Pushed s result e := by
  have wraps : (s.n + 1) % word = s.n + 1 := Nat.mod_eq_of_lt room
  obtain ⟨large, bounded, shape⟩ := reserve_room reserves
  rw [wraps] at large bounded
  have moving := ready.moving large
  have rising := ready.heaped.rising_append e
  obtain ⟨result, leaves, sifted, root, stays⟩ := moving.shiftUp rising
  have time (other : Nat) : result.time other = s.time other := sifted.time other
  refine ⟨result, ?_, ?_, sifted.fresh, sifted.n, ⟨?_, ?_⟩, time e, ?_, root, stays⟩
  · have unfolded : ∀ fuel, minHeapPush fuel s e reallocs =
        (minHeapShiftUp fuel { s with n := s.n + 1, a := reserved.a } s.n e).map
          (Option.map fun t => (t, true)) := by
      intro fuel
      simp only [minHeapPush, reserves]
      rw [shape]
      simp only [wraps]
    simp only [unfolded]
    exact leaves.map _
  · apply sifted.sound large (bounded room ready.capacity)
    · intro other member
      cases member with
      | inl same => exact same ▸ ready.lt
      | inr pending =>
        obtain ⟨index, inside, same⟩ := pending
        obtain ⟨entry, found, _⟩ := ready.placed index inside
        by_contra late
        rw [same, ready.unborn other (not_lt.mp late)] at found
        cases found
    · exact ready.unborn
    · intro other entry outside found
      by_contra names
      exact outside (.inr (ready.listed other entry (fun same => outside (.inl same)) found names))
  · intro other _
    exact time other
  · intro other differs outside
    exact sifted.frame other (fun member => member.elim differs outside)
  · intro other
    exact (sifted.contents other).symm.trans or_comm

/-- `min_heap_push_` when memory is refused. -/
theorem push_refused {e : Nat} {reallocs : Bool}
    (refused : minHeapReserve s ((s.n + 1) % word) reallocs = none) (fuel : Nat) :
    minHeapPush fuel s e reallocs = some (some (s, false)) := by
  simp only [minHeapPush, refused]

/-- A heap that is ready for an entry that names no slot is sound. -/
theorem Ready.sound {e : Nat} {entry : TimerEntry} (ready : Ready s e)
    (found : s.entries e = some entry) (marked : entry.minHeapIdx = noIndex) : Sound s := by
  refine ⟨ready.fits, lt_of_le_of_lt ready.fits ready.capacity, ready.capacity, ready.placed, ?_,
    ready.heaped, ready.unborn⟩
  intro other item foundItem names
  by_cases same : other = e
  · rw [same, found] at foundItem
    rw [← Option.some.inj foundItem] at names
    exact absurd marked names
  · exact ready.listed other item same foundItem names

/-- The heap with a new entry that is allocated. -/
def Timers.allocated (s : Timers) (item : TimerEntry) : Timers :=
  { s with
    entries := Function.update s.entries s.fresh (some item)
    fresh := s.fresh + 1 }

/-- An entry that is there before is as it was after another one is allocated. -/
theorem Sound.key_allocated (sound : Sound s) (item : TimerEntry) {index : Nat}
    (inside : index < s.n) : (s.allocated item).key (s.p index) = s.key (s.p index) := by
  have older : s.p index ≠ s.fresh := Nat.ne_of_lt (sound.pending_lt ⟨index, inside, rfl⟩)
  apply key_congr
  exact congrArg (Option.map TimerEntry.time) (Function.update_of_ne older _ _)

/-- An entry that was just allocated may be pushed. -/
theorem Sound.ready_allocated (sound : Sound s) (item : TimerEntry) :
    Ready (s.allocated item) s.fresh := by
  have entries (e : Nat) (other : e ≠ s.fresh) : (s.allocated item).entries e = s.entries e :=
    Function.update_of_ne other _ _
  have older (index : Nat) (inside : index < s.n) : s.p index ≠ s.fresh :=
    Nat.ne_of_lt (sound.pending_lt ⟨index, inside, rfl⟩)
  constructor
  · exact sound.fits
  · exact sound.capacity
  · intro index inside
    obtain ⟨entry, found, names⟩ := sound.placed index inside
    exact ⟨entry, (entries _ (older index inside)).trans found, names⟩
  · intro other entry differs found names
    rw [entries other differs] at found
    exact sound.listed other entry found names
  · intro index inside positive
    have above := parent_lt positive
    have within : index < s.n := inside
    change (s.allocated item).key (s.p (parent index)) ≤ (s.allocated item).key (s.p index)
    rw [sound.key_allocated item within,
      sound.key_allocated item (show parent index < s.n by omega)]
    exact sound.heaped index inside positive
  · intro other late
    have later : s.fresh + 1 ≤ other := late
    rw [entries other (by omega)]
    exact sound.unborn other (by omega)
  · exact ⟨_, Function.update_self _ _ _⟩
  · intro pending
    obtain ⟨index, inside, same⟩ := pending
    exact older index inside same

/-- A new entry that names no slot leaves the heap sound. -/
theorem Sound.elemInit (sound : Sound s) (time : UInt32) : Sound (minHeapElemInit s time) :=
  (sound.ready_allocated ⟨time, noIndex⟩).sound (Function.update_self _ _ _) rfl

/-- Adding an entry when memory is granted. -/
theorem Sound.add (sound : Sound s) (room : s.n + 1 < word) (now msec : UInt32)
    {reserved : Timers} {reallocs : Bool}
    (reserves : minHeapReserve { s with
      entries := Function.update s.entries s.fresh (some ⟨now + msec, 0⟩)
      fresh := s.fresh + 1 } ((s.n + 1) % word) reallocs = some reserved) :
    ∃ result, Leaves (fun fuel => addTimer fuel s now msec true reallocs)
        (some (result, some s.fresh)) ∧
      Sound result ∧ result.fresh = s.fresh + 1 ∧ result.n = s.n + 1 ∧
      result.time s.fresh = some (now + msec) ∧ Elsewhere s result s.fresh ∧
      (∀ e, result.Pending e ↔ s.Pending e ∨ e = s.fresh) ∧
      (0 < s.n → s.key (s.p 0) ≤ (now + msec).toNat → result.p 0 = s.p 0) ∧
      ((0 < s.n → s.key (s.p (parent s.n)) ≤ (now + msec).toNat) →
        result.p = Function.update s.p s.n s.fresh) := by
  have ready := sound.ready_allocated ⟨now + msec, 0⟩
  obtain ⟨result, leaves, pushed⟩ := ready.push room reserves
  have entries (e : Nat) (other : e ≠ s.fresh) :
      (s.allocated ⟨now + msec, 0⟩).entries e = s.entries e := Function.update_of_ne other _ _
  have timeNew : (s.allocated ⟨now + msec, 0⟩).time s.fresh = some (now + msec) := by
    change Option.map _ (Function.update s.entries s.fresh _ s.fresh) = _
    rw [Function.update_self]
    rfl
  have keyNew : (s.allocated ⟨now + msec, 0⟩).key s.fresh = (now + msec).toNat := by
    rw [Timers.key, timeNew]
    rfl
  refine ⟨result, ?_, pushed.sound, pushed.fresh, pushed.n, pushed.time.trans timeNew, ⟨?_, ?_⟩,
    pushed.pending, ?_, ?_⟩
  · have unfolded : ∀ fuel, addTimer fuel s now msec true reallocs =
        (minHeapPush fuel (s.allocated ⟨now + msec, 0⟩) s.fresh reallocs).map
          (Option.map fun answer => (answer.1, some s.fresh)) := by
      intro fuel
      have reserves' : minHeapReserve (s.allocated ⟨now + msec, 0⟩)
          (((s.allocated ⟨now + msec, 0⟩).n + 1) % word) reallocs = some reserved := reserves
      simp only [addTimer, minHeapPush, Bool.not_true, Bool.false_eq_true, if_false, reserves,
        reserves', Option.map_map, Option.map_comp_map]
      rfl
    simp only [unfolded]
    exact leaves.map _
  · intro other differs
    rw [pushed.elsewhere.time other differs, Timers.time, Timers.time, entries other differs]
  · intro other differs outside
    rw [pushed.elsewhere.entries other differs outside]
    exact entries other differs
  · intro filled later
    apply pushed.root filled
    rw [keyNew]
    exact (le_of_eq (sound.key_allocated _ filled)).trans later
  · intro ordered
    apply pushed.slots
    intro filled
    rw [keyNew]
    exact (le_of_eq (sound.key_allocated _ (parent_lt filled))).trans (ordered filled)

/-- Adding an entry when memory is refused only uses up a number. -/
theorem Sound.add_refused (sound : Sound s) (now msec : UInt32) {reallocs : Bool}
    (refused : minHeapReserve { s with
      entries := Function.update s.entries s.fresh (some ⟨now + msec, 0⟩)
      fresh := s.fresh + 1 } ((s.n + 1) % word) reallocs = none) (fuel : Nat) :
    addTimer fuel s now msec true reallocs =
      some (some ({ s with fresh := s.fresh + 1 }, none)) := by
  simp only [addTimer, Bool.not_true, Bool.false_eq_true, if_false, refused, Timers.free,
    Function.update_idem]
  rw [← sound.unborn s.fresh le_rfl, Function.update_eq_self]

/-- A number that is used up leaves the heap sound. -/
theorem Sound.skip (sound : Sound s) : Sound { s with fresh := s.fresh + 1 } := by
  refine ⟨sound.fits, sound.small, sound.capacity, sound.placed, sound.listed, sound.heaped, ?_⟩
  intro e late
  have later : s.fresh + 1 ≤ e := late
  exact sound.unborn e (by omega)

/-- The heap without its last slot. -/
def Timers.shorter (s : Timers) : Timers := { s with n := s.n - 1 }

/-- The entries that stay when the entry of a slot goes. -/
def Timers.Staying (s : Timers) (index e : Nat) : Prop := s.Pending e ∧ e ≠ s.p index

/-- Taking the last entry out to fill the slot of another one. -/
theorem Sound.refill (sound : Sound s) {index : Nat} (inside : index < s.n - 1) :
    Moving s.shorter (s.Staying index) s.shorter index (s.p (s.n - 1)) := by
  have fits := sound.fits
  constructor
  · exact ⟨rfl, rfl, rfl, fun _ => rfl, fun _ _ => rfl⟩
  · exact inside
  · exact le_trans (Nat.sub_le _ _) fits
  · intro other within _
    have within' : other < s.n - 1 := within
    exact sound.placed other (by omega)
  · intro other within _
    have within' : other < s.n - 1 := within
    exact sound.slots_ne (by omega) (by omega) (by omega)
  · obtain ⟨entry, found, _⟩ := sound.placed (s.n - 1) (by omega)
    exact ⟨entry, found⟩
  · intro e
    constructor
    · intro staying
      obtain ⟨⟨slot, within, same⟩, other⟩ := staying
      by_cases last : slot = s.n - 1
      · left
        rw [← same, last]
      · right
        refine ⟨slot, ?_, ?_, same⟩
        · change slot < s.n - 1
          omega
        · intro here
          rw [← same, here] at other
          exact other rfl
    · intro either
      cases either with
      | inl same =>
        rw [same]
        exact ⟨⟨s.n - 1, by omega, rfl⟩, sound.slots_ne (by omega) (by omega) (by omega)⟩
      | inr slot =>
        obtain ⟨slot, within, other, same⟩ := slot
        have within' : slot < s.n - 1 := within
        rw [← same]
        exact ⟨⟨slot, by omega, rfl⟩, sound.slots_ne (by omega) (by omega) other⟩

/-- The heap without its last slot, when the entry of that slot goes. -/
theorem Sound.drop_last (sound : Sound s) (filled : 0 < s.n) :
    Sifted s.shorter (s.Staying (s.n - 1)) s.shorter := by
  constructor
  · constructor
    · exact ⟨rfl, rfl, rfl, fun _ => rfl, fun _ _ => rfl⟩
    · intro index within
      have within' : index < s.n - 1 := within
      exact sound.placed index (by omega)
    · intro e
      constructor
      · intro staying
        obtain ⟨⟨slot, within, same⟩, other⟩ := staying
        refine ⟨slot, ?_, same⟩
        change slot < s.n - 1
        by_contra late
        have last : slot = s.n - 1 := by omega
        rw [← same, last] at other
        exact other rfl
      · intro slot
        obtain ⟨slot, within, same⟩ := slot
        have within' : slot < s.n - 1 := within
        rw [← same]
        exact ⟨⟨slot, by omega, rfl⟩, sound.slots_ne (by omega) (by omega) (by omega)⟩
  · exact sound.heaped.shrink (Nat.sub_le _ _)

/-- Placing the last entry where it was changes nothing. -/
theorem Sound.put_last (sound : Sound s) (filled : 0 < s.n) :
    s.shorter.put (s.n - 1) (s.p (s.n - 1)) = some s.shorter := by
  have fits := sound.fits
  obtain ⟨entry, found, names⟩ := sound.placed (s.n - 1) (by omega)
  have same : ({ entry with minHeapIdx := s.n - 1 } : TimerEntry) = entry := by
    rw [← names]
  have bound : s.n - 1 < s.shorter.a := by
    change s.n - 1 < s.a
    omega
  rw [@put_eq s.shorter (s.p (s.n - 1)) (s.n - 1) entry found bound, same, ← found]
  change some (Timers.mk (Function.update s.entries _ (s.entries _)) s.fresh
    (Function.update s.p _ (s.p _)) (s.n - 1) s.a) = _
  rw [Function.update_eq_self, Function.update_eq_self]
  rfl

/-- `min_heap_shift_down_` fills the slot of an entry that goes, when the last entry is not due
before the parent of the slot. -/
theorem Sound.sift_down (sound : Sound s) {index : Nat} (inside : index < s.n)
    (small : 2 * (s.n - 1) < word) (wide : index = s.n - 1 → 2 * s.n < word)
    (large : 0 < index → s.key (s.p (parent index)) ≤ s.key (s.p (s.n - 1))) :
    ∃ result, Leaves (fun fuel => minHeapShiftDown fuel s.shorter index (s.p (s.n - 1)))
        (some result) ∧
      Sifted s.shorter (s.Staying index) result ∧ (0 < index → result.p 0 = s.p 0) := by
  by_cases last : index = s.n - 1
  · refine ⟨s.shorter, ?_, ?_, fun _ => rfl⟩
    · have leaves := shiftDown_last s.shorter (s.p (s.n - 1)) (le_of_eq last.symm)
        (by have := wide last; omega)
      rw [last] at leaves ⊢
      rw [sound.put_last (by omega)] at leaves
      exact leaves
    · rw [last]
      exact sound.drop_last (by omega)
  · have within : index < s.n - 1 := by omega
    apply (sound.refill within).shiftDown small
    exact Heaped.sinking_replace (sound.heaped.shrink (Nat.sub_le s.n 1)) within large

/-- The shift of `min_heap_erase_` settles the entry that waits for a slot, upward when it is due
before the parent of the slot and downward otherwise. -/
theorem Moving.resettle {base : Timers} {members : Nat → Prop} {hole e : Nat}
    (moving : Moving base members s hole e) (small : 2 * s.n < word)
    (rising : 0 < hole → base.key e < base.key (s.p (parent hole)) →
      Rising base.key s.n hole (Function.update s.p hole e))
    (sinking : (0 < hole → base.key (s.p (parent hole)) ≤ base.key e) →
      Sinking base.key s.n hole (Function.update s.p hole e)) :
    ∃ result, Leaves (fun fuel => eraseShift fuel s hole e) (some result) ∧
      Sifted base members result ∧
      (0 < hole → base.key (s.p 0) ≤ base.key e → result.p 0 = s.p 0) := by
  have fits := moving.fits
  have inside := moving.inside
  by_cases deep : 0 < hole
  · have above := parent_lt deep
    obtain ⟨upper, foundUpper, _⟩ := moving.placed (parent hole) (by omega) (by omega)
    obtain ⟨lower, foundLower⟩ := moving.item
    have read : s.slot (parent hole) = some (s.p (parent hole)) := slot_eq (by omega)
    have tested : (s.slot (parent hole)).bind (s.elemGreater · e) =
        some (decide (base.key (s.p (parent hole)) > base.key e)) := by
      rw [read, Option.bind_some, elemGreater_eq foundUpper foundLower, moving.key]
    by_cases greater : base.key (s.p (parent hole)) > base.key e
    · obtain ⟨moved, put, next, slots⟩ :=
        moving.move (show parent hole < s.n by omega) (Nat.ne_of_lt above)
      have filled : (s.slot (parent hole)).bind (s.put hole) = some moved := by
        rw [read, Option.bind_some]
        exact put
      have count : moved.n = s.n := next.n.trans moving.n.symm
      have climbing : Rising base.key moved.n (parent hole)
          (Function.update moved.p (parent hole) e) := by
        rw [slots, count]
        exact (rising deep greater).pass inside deep greater
      obtain ⟨result, leaves, sifted, root, _⟩ := next.shiftUp climbing
      refine ⟨result, ?_, sifted, fun _ calm => ?_⟩
      · have unfolded : ∀ fuel, eraseShift fuel s hole e =
            minHeapShiftUp fuel moved (parent hole) e := by
          intro fuel
          simp only [eraseShift, if_pos deep, parentIndex_eq deep, tested, decide_eq_true greater,
            minHeapShiftUpUnconditional, filled]
        simp only [unfolded]
        exact leaves
      · have deeper : parent hole ≠ 0 := by
          intro zero
          rw [zero] at greater
          exact absurd greater (not_lt.mpr calm)
        have atRoot : moved.p 0 = s.p 0 := by
          rw [slots]
          exact Function.update_of_ne (Nat.ne_of_lt deep) _ _
        rw [← atRoot]
        apply root (Nat.pos_of_ne_zero deeper)
        rw [atRoot]
        exact calm
    · obtain ⟨result, leaves, sifted, root⟩ :=
        moving.shiftDown small (sinking fun _ => not_lt.mp greater)
      refine ⟨result, ?_, sifted, fun positive _ => root positive⟩
      have unfolded : ∀ fuel, eraseShift fuel s hole e = minHeapShiftDown fuel s hole e := by
        intro fuel
        simp only [eraseShift, if_pos deep, parentIndex_eq deep, tested, decide_eq_false greater]
      simp only [unfolded]
      exact leaves
  · obtain ⟨result, leaves, sifted, root⟩ :=
      moving.shiftDown small (sinking fun positive => absurd positive deep)
    refine ⟨result, ?_, sifted, fun positive _ => root positive⟩
    simp only [eraseShift, if_neg deep]
    exact leaves

/-- The shift of `min_heap_erase_` at the last slot leaves the rest of the heap as it is. -/
theorem Sound.erase_last (sound : Sound s) (filled : 0 < s.n) (small : 2 * s.n < word) :
    Leaves (fun fuel => eraseShift fuel s.shorter (s.n - 1) (s.p (s.n - 1)))
      (some s.shorter) := by
  have fits := sound.fits
  have down : Leaves (fun fuel => minHeapShiftDown fuel s.shorter (s.n - 1) (s.p (s.n - 1)))
      (some s.shorter) := by
    have leaves := shiftDown_last s.shorter (s.p (s.n - 1)) (le_refl (s.n - 1)) (by omega)
    rw [sound.put_last filled] at leaves
    exact leaves
  by_cases deep : 0 < s.n - 1
  · have above := parent_lt deep
    obtain ⟨upper, foundUpper, _⟩ := sound.placed (parent (s.n - 1)) (by omega)
    obtain ⟨lower, foundLower, _⟩ := sound.placed (s.n - 1) (by omega)
    have ordered : ¬ s.key (s.p (parent (s.n - 1))) > s.key (s.p (s.n - 1)) :=
      not_lt.mpr (sound.heaped (s.n - 1) (by omega) deep)
    have tested : (s.shorter.slot (parentIndex (s.n - 1))).bind
        (s.shorter.elemGreater · (s.p (s.n - 1))) = some false := by
      rw [parentIndex_eq deep, @slot_eq s.shorter _ (show parent (s.n - 1) < s.a by omega),
        Option.bind_some, ← decide_eq_false ordered]
      exact @elemGreater_eq s.shorter _ _ _ _ foundUpper foundLower
    simp only [eraseShift, if_pos deep, tested]
    exact down
  · simp only [eraseShift, if_neg deep]
    exact down

/-- The shift of `min_heap_erase_` fills the slot of the entry that goes. -/
theorem Sound.erase_shift (sound : Sound s) {index : Nat} (inside : index < s.n)
    (small : 2 * s.n < word) :
    ∃ result, Leaves (fun fuel => eraseShift fuel s.shorter index (s.p (s.n - 1)))
        (some result) ∧
      Sifted s.shorter (s.Staying index) result ∧ (0 < index → result.p 0 = s.p 0) := by
  by_cases last : index = s.n - 1
  · refine ⟨s.shorter, ?_, ?_, fun _ => rfl⟩
    · rw [last]
      exact sound.erase_last (by omega) small
    · rw [last]
      exact sound.drop_last (by omega)
  · have within : index < s.n - 1 := by omega
    have heaped : Heaped s.shorter.key (s.n - 1) s.p := sound.heaped.shrink (Nat.sub_le s.n 1)
    obtain ⟨result, leaves, sifted, root⟩ := (sound.refill within).resettle
      (show 2 * (s.n - 1) < word by omega)
      (fun deep less => heaped.rising_replace within deep (le_of_lt less))
      (fun large => heaped.sinking_replace within large)
    exact ⟨result, leaves, sifted,
      fun deep => root deep (sound.heaped.root_le (s.n - 1) (by omega))⟩

/-- The end of `min_heap_erase_` and `min_heap_pop_`: the entry that goes names no slot. -/
structure Removed (before after : Timers) (e : Nat) : Prop where
  /-- The heap is sound. -/
  sound : Sound after
  /-- No entry is allocated. -/
  fresh : after.fresh = before.fresh
  /-- One entry less. -/
  n : after.n = before.n - 1
  /-- The other entries. -/
  elsewhere : Elsewhere before after e
  /-- The entry stays allocated, with its deadline. -/
  entry : after.time e = before.time e ∧ after.entries e ≠ none
  /-- Only that entry goes. -/
  pending : ∀ other, after.Pending other ↔ before.Pending other ∧ other ≠ e

/-- Detaching the entry that went. -/
theorem Sound.detach (sound : Sound s) {index : Nat} (inside : index < s.n) {sifted : Timers}
    (shifted : Sifted s.shorter (s.Staying index) sifted) :
    ∃ result, sifted.detach (s.p index) = some result ∧ result.p = sifted.p ∧
      Removed s result (s.p index) := by
  obtain ⟨entry, found, names⟩ := sound.placed index inside
  have gone : ¬ s.Staying index (s.p index) := fun staying => staying.2 rfl
  have kept : sifted.entries (s.p index) = some entry := by
    rw [shifted.frame _ gone]
    exact found
  have count : sifted.n = s.n - 1 := shifted.n
  have time (e : Nat) : (sifted.detached (s.p index) entry).time e = s.time e := by
    have same := time_place kept noIndex sifted.p e
    rw [show sifted.time e = s.time e from shifted.time e] at same
    exact same
  have others (e : Nat) (other : e ≠ s.p index) :
      (sifted.detached (s.p index) entry).entries e = sifted.entries e :=
    Function.update_of_ne other _ _
  have own : (sifted.detached (s.p index) entry).entries (s.p index) =
      some { entry with minHeapIdx := noIndex } := Function.update_self _ _ _
  have contents (e : Nat) : s.Staying index e ↔ ∃ i < sifted.n, sifted.p i = e :=
    shifted.contents e
  refine ⟨sifted.detached (s.p index) entry, ?_, rfl, ⟨?_, ?_, ?_, ?_, ?_, ?_⟩⟩
  · rw [Timers.detach, kept]
    rfl
  · constructor
    · change sifted.n ≤ sifted.a
      rw [count, show sifted.a = s.a from shifted.a]
      exact le_trans (Nat.sub_le _ _) sound.fits
    · change sifted.n < word
      have small := sound.small
      omega
    · change sifted.a < word
      rw [show sifted.a = s.a from shifted.a]
      exact sound.capacity
    · intro i within
      obtain ⟨old, foundOld, indexOld⟩ := shifted.placed i within
      have staying := (contents _).mpr ⟨i, within, rfl⟩
      refine ⟨old, ?_, indexOld⟩
      change (sifted.detached (s.p index) entry).entries (sifted.p i) = _
      rw [others _ staying.2]
      exact foundOld
    · intro e other foundOther marked
      by_cases same : e = s.p index
      · rw [same, own] at foundOther
        rw [← Option.some.inj foundOther] at marked
        exact absurd rfl marked
      · rw [others e same] at foundOther
        by_cases staying : s.Staying index e
        · exact (contents e).mp staying
        · rw [shifted.frame e staying] at foundOther
          exact absurd ⟨sound.listed e other foundOther marked, same⟩ staying
    · have keys : (sifted.detached (s.p index) entry).key = s.shorter.key := by
        funext e
        exact key_congr (time e)
      rw [keys]
      exact shifted.heaped
    · intro e late
      change sifted.fresh ≤ e at late
      rw [show sifted.fresh = s.fresh from shifted.fresh] at late
      have older : e ≠ s.p index := by
        have early := sound.pending_lt ⟨index, inside, rfl⟩
        omega
      have outside : ¬ s.Staying index e := by
        intro staying
        have early := sound.pending_lt staying.1
        omega
      rw [others e older, shifted.frame e outside]
      exact sound.unborn e late
  · exact shifted.fresh
  · exact count
  · constructor
    · intro other _
      exact time other
    · intro other differs idle
      rw [others other differs]
      exact shifted.frame other (fun staying => idle staying.1)
  · refine ⟨time _, ?_⟩
    rw [own]
    exact Option.some_ne_none _
  · intro e
    exact (contents e).symm

/-- `del_timer` of a pending entry. -/
theorem Sound.del (sound : Sound s) {e : Nat} (pending : s.Pending e) (small : 2 * s.n < word) :
    ∃ result, Leaves (fun fuel => delTimer fuel s e) (some (result, true)) ∧
      Removed s result e ∧ (e ≠ s.p 0 → result.p 0 = s.p 0) := by
  obtain ⟨entry, found, inside, same⟩ := sound.pending pending
  have fits := sound.fits
  obtain ⟨sifted, leaves, shifted, root⟩ := sound.erase_shift inside small
  obtain ⟨result, detached, slots, removed⟩ := sound.detach inside shifted
  have shrinks : pred s.n = s.n - 1 := pred_eq (by omega)
  have last : s.slot (s.n - 1) = some (s.p (s.n - 1)) := slot_eq (by omega)
  have marked : entry.minHeapIdx ≠ noIndex := by
    have bound := sound.small
    simp only [noIndex, word] at bound ⊢
    omega
  rw [same] at detached removed
  refine ⟨result, ?_, removed, ?_⟩
  · have unfolded : ∀ fuel, delTimer fuel s e =
        (eraseShift fuel s.shorter entry.minHeapIdx (s.p (s.n - 1))).map fun shifted =>
          (shifted.bind (Timers.detach · e)).map fun s => (s, true) := by
      intro fuel
      simp only [delTimer, found, if_neg marked, shrinks, last]
      rfl
    simp only [unfolded]
    have mapped := leaves.map (fun shifted : Option Timers =>
      (shifted.bind (Timers.detach · e)).map fun s => (s, true))
    rw [Option.bind_some, detached] at mapped
    exact mapped
  · intro other
    rw [slots]
    apply root
    by_contra start
    have zero : entry.minHeapIdx = 0 := by omega
    rw [zero] at same
    exact other same.symm

/-- `del_timer` of an entry that is in no heap. -/
theorem Sound.del_idle (sound : Sound s) {e : Nat} {entry : TimerEntry}
    (found : s.entries e = some entry) (idle : ¬ s.Pending e) (fuel : Nat) :
    delTimer fuel s e = some (some (s, false)) := by
  have marked : entry.minHeapIdx = noIndex := by
    by_contra names
    exact idle (sound.listed e entry found names)
  simp only [delTimer, found, if_pos marked]

/-- `min_heap_pop_` takes the root. -/
theorem Sound.pop (sound : Sound s) (filled : 0 < s.n) (small : 2 * (s.n - 1) < word) :
    ∃ result, Leaves (fun fuel => minHeapPop fuel s) (some (result, some (s.p 0))) ∧
      Removed s result (s.p 0) := by
  have fits := sound.fits
  obtain ⟨sifted, leaves, shifted, _⟩ := sound.sift_down filled small
    (by intro only; simp only [word]; omega)
    (fun positive => absurd positive (lt_irrefl 0))
  obtain ⟨result, detached, _, removed⟩ := sound.detach filled shifted
  have shrinks : pred s.n = s.n - 1 := pred_eq filled
  have first : s.slot 0 = some (s.p 0) := slot_eq (by omega)
  have last : s.slot (s.n - 1) = some (s.p (s.n - 1)) := slot_eq (by omega)
  refine ⟨result, ?_, removed⟩
  have unfolded : ∀ fuel, minHeapPop fuel s =
      (minHeapShiftDown fuel s.shorter 0 (s.p (s.n - 1))).map fun shifted =>
        (shifted.bind (Timers.detach · (s.p 0))).map fun t => (t, some (s.p 0)) := by
    intro fuel
    simp only [minHeapPop, if_pos (Nat.ne_of_gt filled), first, shrinks, last]
    rfl
  simp only [unfolded]
  have mapped := leaves.map (fun shifted : Option Timers =>
    (shifted.bind (Timers.detach · (s.p 0))).map fun t => (t, some (s.p 0)))
  rw [Option.bind_some, detached] at mapped
  exact mapped

section Fuel

variable {fuel : Nat} {s : Timers} {e : Nat} {reallocs : Bool}

/-- A shift that returned under one fuel. -/
theorem leaves_eraseShift {index last : Nat} {result : Option Timers}
    (returned : eraseShift fuel s index last = some result) :
    Leaves (fun fuel => eraseShift fuel s index last) result := by
  by_cases inner : index > 0
  · simp only [eraseShift, if_pos inner] at returned ⊢
    cases order : (s.slot (parentIndex index)).bind (s.elemGreater · last) with
    | none =>
      simp only [order] at returned ⊢
      exact Leaves.of_forall fun _ => returned
    | some greater =>
      cases greater with
      | false =>
        simp only [order] at returned ⊢
        exact leaves_of_loop returned
      | true =>
        simp only [order, minHeapShiftUpUnconditional] at returned ⊢
        cases moves : (s.slot (parentIndex index)).bind (s.put index) with
        | none =>
          simp only [moves] at returned ⊢
          exact Leaves.of_forall fun _ => returned
        | some moved =>
          simp only [moves] at returned ⊢
          exact leaves_of_loop returned
  · simp only [eraseShift, if_neg inner] at returned ⊢
    exact leaves_of_loop returned

/-- A push that returned under one fuel. -/
theorem leaves_minHeapPush {result : Option (Timers × Bool)}
    (returned : minHeapPush fuel s e reallocs = some result) :
    Leaves (fun fuel => minHeapPush fuel s e reallocs) result := by
  cases reserves : minHeapReserve s ((s.n + 1) % word) reallocs with
  | none =>
    simp only [minHeapPush, reserves] at returned ⊢
    exact Leaves.of_forall fun _ => returned
  | some reserved =>
    simp only [minHeapPush, reserves] at returned ⊢
    obtain ⟨shifted, up, rfl⟩ := Option.map_eq_some_iff.mp returned
    exact (leaves_of_loop up).map _

/-- A call of `add_timer` that returned under one fuel. -/
theorem leaves_addTimer {now msec : UInt32} {mallocs : Bool} {result : Option (Timers × Option Nat)}
    (returned : addTimer fuel s now msec mallocs reallocs = some result) :
    Leaves (fun fuel => addTimer fuel s now msec mallocs reallocs) result := by
  cases mallocs with
  | false => exact Leaves.of_forall fun _ => returned
  | true =>
    cases reserves : minHeapReserve { s with
      entries := Function.update s.entries s.fresh (some ⟨now + msec, 0⟩)
      fresh := s.fresh + 1 } ((s.n + 1) % word) reallocs with
    | none =>
      simp only [addTimer, Bool.not_true, Bool.false_eq_true, if_false, reserves] at returned ⊢
      exact Leaves.of_forall fun _ => returned
    | some reserved =>
      simp only [addTimer, Bool.not_true, Bool.false_eq_true, if_false, reserves] at returned ⊢
      obtain ⟨shifted, up, rfl⟩ := Option.map_eq_some_iff.mp returned
      exact (leaves_of_loop up).map _

/-- A call of `del_timer` that returned under one fuel. -/
theorem leaves_delTimer {result : Option (Timers × Bool)}
    (returned : delTimer fuel s e = some result) :
    Leaves (fun fuel => delTimer fuel s e) result := by
  cases found : s.entries e with
  | none =>
    simp only [delTimer, found] at returned ⊢
    exact Leaves.of_forall fun _ => returned
  | some entry =>
    by_cases outside : entry.minHeapIdx = noIndex
    · simp only [delTimer, found, if_pos outside] at returned ⊢
      exact Leaves.of_forall fun _ => returned
    · cases place : s.slot (pred s.n) with
      | none =>
        simp only [delTimer, found, if_neg outside, place] at returned ⊢
        exact Leaves.of_forall fun _ => returned
      | some last =>
        simp only [delTimer, found, if_neg outside, place] at returned ⊢
        obtain ⟨shifted, moves, rfl⟩ := Option.map_eq_some_iff.mp returned
        exact (leaves_eraseShift moves).map _

/-- An adjustment that returned under one fuel. -/
theorem leaves_minHeapAdjust {result : Option (Timers × Bool)}
    (returned : minHeapAdjust fuel s e reallocs = some result) :
    Leaves (fun fuel => minHeapAdjust fuel s e reallocs) result := by
  cases found : s.entries e with
  | none =>
    simp only [minHeapAdjust, found] at returned ⊢
    exact Leaves.of_forall fun _ => returned
  | some entry =>
    by_cases outside : entry.minHeapIdx = noIndex
    · simp only [minHeapAdjust, found, if_pos outside] at returned ⊢
      exact leaves_minHeapPush returned
    · simp only [minHeapAdjust, found, if_neg outside] at returned ⊢
      obtain ⟨shifted, moves, rfl⟩ := Option.map_eq_some_iff.mp returned
      exact (leaves_eraseShift moves).map _

/-- A pop that returned under one fuel. -/
theorem leaves_minHeapPop {result : Option (Timers × Option Nat)}
    (returned : minHeapPop fuel s = some result) : Leaves (fun fuel => minHeapPop fuel s) result := by
  by_cases filled : s.n ≠ 0
  · cases first : s.slot 0 with
    | none =>
      simp only [minHeapPop, if_pos filled, first] at returned ⊢
      exact Leaves.of_forall fun _ => returned
    | some top =>
      cases place : s.slot (pred s.n) with
      | none =>
        simp only [minHeapPop, if_pos filled, first, place] at returned ⊢
        exact Leaves.of_forall fun _ => returned
      | some last =>
        simp only [minHeapPop, if_pos filled, first, place] at returned ⊢
        obtain ⟨shifted, moves, rfl⟩ := Option.map_eq_some_iff.mp returned
        exact (leaves_of_loop moves).map _
  · simp only [minHeapPop, if_neg filled] at returned ⊢
    exact Leaves.of_forall fun _ => returned

end Fuel

end BackendCpp.Minheap
