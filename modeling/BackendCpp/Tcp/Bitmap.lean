import BackendCpp.Tcp.Failures
import BackendCpp.Library.Run

/-!
# The descriptor bitmap

Eight descriptors share a byte of `fd_table`. A history of calls determines which descriptors
are in use, and the bits show exactly these: a call changes one bit and the set of one
descriptor together, and a refused call changes neither.
-/

namespace BackendCpp.Tcp

open Library

/-- A call on the descriptor bitmap, with what it returned. -/
inductive BitmapCall
  /-- `get_fd_frombitmap`. -/
  | get (answer : Int)
  /-- `set_fd_frombitmap`. -/
  | set (fd : Nat) (answer : Int)
  deriving DecidableEq

/-- The calls of `get_fd_frombitmap`, and of `set_fd_frombitmap` for a descriptor from 0 on. -/
inductive BitmapStep : (Nat → UInt8) → BitmapCall → (Nat → UInt8) → Prop
  | get {table next : Nat → UInt8} {answer : Int}
      (returned : getFdFrombitmap table = (answer, next)) : BitmapStep table (.get answer) next
  | set {table next : Nat → UInt8} {fd : Nat} {answer : Int}
      (returned : setFdFrombitmap table fd = some (answer, next)) :
      BitmapStep table (.set fd answer) next

/-- The descriptors in use after a call. -/
def usedAfter (used : Finset Nat) : BitmapCall → Finset Nat
  | .get answer => if answer = -1 then used else insert answer.toNat used
  | .set fd _ => used.erase fd

/-- The descriptors in use after a history: returned by `get_fd_frombitmap` and not released by
`set_fd_frombitmap` since. -/
def inUse (history : List BitmapCall) : Finset Nat :=
  history.foldl usedAfter ∅

/-- A descriptor that may be given out. -/
def MayGive (used : Finset Nat) (fd : Nat) : Prop :=
  DEFAULT_FD_NUM ≤ fd ∧ fd < MAX_FD_COUNT ∧ fd ∉ used

/-- The bits that are set are those of the descriptors in use. -/
def Shows (table : Nat → UInt8) (used : Finset Nat) : Prop :=
  ∀ fd, fdBit table fd ≠ 0 ↔ fd ∈ used

/-- The bitmap shows the descriptors in use, all of them below the bound. -/
structure Represents (table : Nat → UInt8) (used : Finset Nat) : Prop where
  /-- The bits are those of the descriptors in use. -/
  shows : Shows table used
  /-- No descriptor lies beyond the table. -/
  below : ∀ fd ∈ used, fd < MAX_FD_COUNT

/-- Nothing is in use in the table of zeros. -/
theorem represents_zero : Represents (fun _ => 0) ∅ := by
  constructor
  · intro fd
    rw [Ne, fdBit_eq_zero]
    simp
  · simp

/-- A descriptor may be given out when its bit is clear. -/
theorem Shows.mayGive_iff {table : Nat → UInt8} {used : Finset Nat} (shows : Shows table used)
    (fd : Nat) :
    MayGive used fd ↔ DEFAULT_FD_NUM ≤ fd ∧ fd < MAX_FD_COUNT ∧ fdBit table fd = 0 := by
  rw [MayGive, ← shows fd, not_not]

/-- The lowest free descriptor of the table is the least that may be given out. -/
theorem Shows.isLeast {table : Nat → UInt8} {used : Finset Nat} (shows : Shows table used)
    {fd : Nat} (lowest : LowestFree table fd) : IsLeast {f | MayGive used f} fd := by
  obtain ⟨above, below, clear, lower⟩ := lowest
  constructor
  · exact (shows.mayGive_iff fd).mpr ⟨above, below, clear⟩
  · intro other free
    obtain ⟨otherAbove, _, otherClear⟩ := (shows.mayGive_iff other).mp free
    by_contra less
    exact lower other otherAbove (Nat.lt_of_not_le less) otherClear

/-- `get_fd_frombitmap` gives out the least descriptor that is not in use, or refuses when there
is none. -/
theorem Represents.get {table next : Nat → UInt8} {used : Finset Nat} {answer : Int}
    (represents : Represents table used) (returned : getFdFrombitmap table = (answer, next)) :
    (∃ fd : Nat, answer = fd ∧ IsLeast {f | MayGive used f} fd ∧
      Represents next (insert fd used)) ∨
    answer = -1 ∧ next = table ∧ ∀ fd, ¬ MayGive used fd := by
  by_cases free : HasFreeFd table
  · obtain ⟨fd, lowest⟩ := free.lowest
    have given : answer = fd := by
      have first := getFdFrombitmap_lowest lowest
      rw [returned] at first
      exact first
    rcases getFdFrombitmap_spec table with ⟨other, answered, otherLowest, bits⟩ | refused
    · rw [returned] at bits
      have same : other = fd := otherLowest.unique lowest
      rw [same] at bits
      apply Or.inl
      refine ⟨fd, given, represents.shows.isLeast lowest, ?_, ?_⟩
      · intro f
        rw [Ne, bits f, Finset.mem_insert, ← represents.shows f]
        tauto
      · intro f member
        rcases Finset.mem_insert.mp member with here | before
        · rw [here]
          exact lowest.2.1
        · exact represents.below f before
    · rw [returned, Prod.mk.injEq, given] at refused
      have impossible := refused.1
      omega
  · have refused := getFdFrombitmap_full free
    rw [returned, Prod.mk.injEq] at refused
    refine Or.inr ⟨refused.1, refused.2, ?_⟩
    intro fd may
    exact free ⟨fd, (represents.shows.mayGive_iff fd).mp may⟩

/-- `set_fd_frombitmap` makes one descriptor free, and from the bound on changes nothing. -/
theorem Represents.set {table next : Nat → UInt8} {used : Finset Nat} {fd : Nat} {answer : Int}
    (represents : Represents table used)
    (returned : setFdFrombitmap table fd = some (answer, next)) :
    Represents next (used.erase fd) ∧
    (fd < MAX_FD_COUNT → answer = 0) ∧ (MAX_FD_COUNT ≤ fd → answer = -1 ∧ next = table) := by
  by_cases small : fd < MAX_FD_COUNT
  · obtain ⟨table', done, bits⟩ := setFdFrombitmap_spec table (Or.inr ⟨fd, rfl, small⟩)
    rw [returned, Option.some.injEq, Prod.mk.injEq] at done
    rw [← done.2] at bits
    refine ⟨⟨?_, ?_⟩, fun _ => done.1, fun large => absurd small (Nat.not_lt.mpr large)⟩
    · intro f
      rw [Ne, bits f, Nat.cast_inj, Finset.mem_erase, ← represents.shows f]
      tauto
    · intro f member
      exact represents.below f (Finset.mem_of_mem_erase member)
  · have large : MAX_FD_COUNT ≤ fd := Nat.le_of_not_lt small
    have refused : setFdFrombitmap table fd = some (-1, table) := by
      unfold setFdFrombitmap
      rw [if_pos (by exact_mod_cast large)]
    rw [returned, Option.some.injEq, Prod.mk.injEq] at refused
    have unused : fd ∉ used := fun member => small (represents.below fd member)
    rw [refused.2, Finset.erase_eq_of_notMem unused]
    exact ⟨represents, fun less => absurd less small, fun _ => ⟨refused.1, rfl⟩⟩

/-- A call keeps the bitmap and the descriptors in use together. -/
theorem BitmapStep.represents {table next : Nat → UInt8} {used : Finset Nat} {call : BitmapCall}
    (represents : Represents table used) (step : BitmapStep table call next) :
    Represents next (usedAfter used call) := by
  cases step with
  | get returned =>
    rcases represents.get returned with ⟨fd, given, _, after⟩ | ⟨refused, same, _⟩
    · have some : ¬ (fd : Int) = -1 := by omega
      rw [given, usedAfter, if_neg some, Int.toNat_natCast]
      exact after
    · rw [refused, usedAfter, if_pos rfl, same]
      exact represents
  | set returned => exact (represents.set returned).1

/-- After every history of calls the set bits are those of the descriptors in use. -/
theorem run_represents_inUse {history : List BitmapCall} {table : Nat → UInt8}
    (run : Run BitmapStep (fun _ => 0) history table) : Represents table (inUse history) :=
  run.simulation usedAfter Represents represents_zero
    fun _ _ _ _ represents step => step.represents represents

/-- What `get_fd_frombitmap` returns tells whether a descriptor was given out. -/
theorem Represents.given {table : Nat → UInt8} {used : Finset Nat}
    (represents : Represents table used) :
    ((getFdFrombitmap table).1 = -1 ↔ ∀ fd, ¬ MayGive used fd) ∧
    ((getFdFrombitmap table).1 = -1 → (getFdFrombitmap table).2 = table) ∧
    ((getFdFrombitmap table).1 ≠ -1 → ∃ fd : Nat, (getFdFrombitmap table).1 = fd ∧
      IsLeast {f | MayGive used f} fd ∧ Shows (getFdFrombitmap table).2 (insert fd used)) := by
  rcases represents.get Prod.mk.eta.symm with ⟨fd, given, least, after⟩ | ⟨refused, same, none⟩
  · have some : (getFdFrombitmap table).1 ≠ -1 := by
      rw [given]
      omega
    refine ⟨?_, fun refused => absurd refused some, fun _ => ⟨fd, given, least, after.shows⟩⟩
    constructor
    · exact fun refused => absurd refused some
    · exact fun none => absurd least.1 (none fd)
  · exact ⟨⟨fun _ => none, fun _ => refused⟩, fun _ => same, fun some => absurd refused some⟩

/-- After every history of calls, `get_fd_frombitmap` returns the least descriptor that is not in
use and makes that one in use, or returns `-1` and changes nothing when all are; and
`set_fd_frombitmap` makes one descriptor free, and changes nothing from the bound on. -/
theorem bitmap_allocates_descriptors {history : List BitmapCall} {table : Nat → UInt8}
    (run : Run BitmapStep (fun _ => 0) history table) :
    Shows table (inUse history) ∧
    ((getFdFrombitmap table).1 = -1 ↔ ∀ fd, ¬ MayGive (inUse history) fd) ∧
    ((getFdFrombitmap table).1 = -1 → (getFdFrombitmap table).2 = table) ∧
    ((getFdFrombitmap table).1 ≠ -1 → ∃ fd : Nat, (getFdFrombitmap table).1 = fd ∧
      IsLeast {f | MayGive (inUse history) f} fd ∧
      Shows (getFdFrombitmap table).2 (insert fd (inUse history))) ∧
    ∀ fd : Nat, ∃ answer next, setFdFrombitmap table fd = some (answer, next) ∧
      Shows next ((inUse history).erase fd) ∧
      (fd < MAX_FD_COUNT → answer = 0) ∧ (MAX_FD_COUNT ≤ fd → answer = -1 ∧ next = table) := by
  have represents := run_represents_inUse run
  obtain ⟨refuses, unchanged, gives⟩ := represents.given
  refine ⟨represents.shows, refuses, unchanged, gives, ?_⟩
  intro fd
  have defined : ∃ result, setFdFrombitmap table fd = some result := by
    unfold setFdFrombitmap
    split
    · exact ⟨_, rfl⟩
    · rw [if_pos (Int.natCast_nonneg fd)]
      exact ⟨_, rfl⟩
  obtain ⟨⟨answer, next⟩, returned⟩ := defined
  obtain ⟨after, small, large⟩ := represents.set returned
  exact ⟨answer, next, returned, after.shows, small, large⟩

/-- Execute a call and compare its answer. -/
def BitmapCall.exec (table : Nat → UInt8) : BitmapCall → Option (Nat → UInt8)
  | .get answer =>
    if (getFdFrombitmap table).1 = answer then some (getFdFrombitmap table).2 else none
  | .set fd answer =>
    (setFdFrombitmap table fd).bind fun result => if result.1 = answer then some result.2 else none

/-- A call that was executed is a step. -/
theorem bitmapStep_of_exec {table next : Nat → UInt8} {call : BitmapCall}
    (done : call.exec table = some next) : BitmapStep table call next := by
  cases call with
  | get answer =>
    obtain ⟨same, done⟩ := Option.ite_none_right_eq_some.mp done
    exact .get (Prod.ext same (Option.some.inj done))
  | set fd answer =>
    obtain ⟨result, returned, done⟩ := Option.bind_eq_some_iff.mp done
    obtain ⟨same, done⟩ := Option.ite_none_right_eq_some.mp done
    apply BitmapStep.set
    rw [returned, ← same, ← Option.some.inj done]

/-- Six descriptors are given out, over two bytes of the table, and two of them are released; one of
these is given out again. A descriptor behind the bound is not released. -/
def reused : List BitmapCall :=
  [.get 3, .get 4, .get 5, .get 6, .get 7, .get 8, .set 5 0, .set 4 0, .set 2000 (-1), .get 4]

/-- Descriptor 5 comes next. -/
theorem bitmap_allocates_reused : ∃ table, Run BitmapStep (fun _ => 0) reused table ∧
    inUse reused = {3, 4, 6, 7, 8} ∧ Shows table (inUse reused) ∧
    (getFdFrombitmap table).1 = 5 ∧
    Shows (getFdFrombitmap table).2 (insert 5 (inUse reused)) := by
  have ends : (reused.foldlM BitmapCall.exec fun _ => 0).any
      (fun table : Nat → UInt8 => (getFdFrombitmap table).1 = 5) = true := by
    decide +kernel
  obtain ⟨table, done, fact⟩ := (Option.any_eq_true _ _).mp ends
  have next : (getFdFrombitmap table).1 = 5 := of_decide_eq_true fact
  have run := (Run.of_foldlM done).mono fun _ _ _ => bitmapStep_of_exec
  obtain ⟨shows, _, _, gives, _⟩ := bitmap_allocates_descriptors run
  obtain ⟨fd, same, _, after⟩ := gives (by rw [next]; decide)
  have five : fd = 5 := by
    rw [next] at same
    omega
  rw [five] at after
  exact ⟨table, run, by decide, shows, next, after⟩

end BackendCpp.Tcp
