import BackendCpp.Ngx.Traversal

/-!
# The timers of rbt-timer.h

`add_timer` inserts a node with its deadline, `del_timer` deletes one, and `expire_timer` runs the
handlers of the due timers: it runs the handler of the first node while that node is still in the
tree, and deletes the node afterwards. A handler may itself add timers and delete other ones; its
own timer it may not delete, since the loop goes on to delete and free it. `Drain` is what
`expire_timer` does to the list of the entries. The deadlines are below half the range here, where
the two comparisons of the program, one of signed differences and one of unsigned values, agree.
-/

namespace BackendCpp.Ngx

open BackendCpp.Library
open RbtreeC (Addr)

/-- The calls of rbt-timer.h that change the tree. -/
inductive TimerCall where
  /-- `add_timer(msec, …)` at a reading of the clock; `malloc` gives `te`. -/
  | add (te : Addr) (now msec : UInt32)
  /-- `del_timer`. -/
  | del (te : Addr)
  deriving DecidableEq

/-- The call of rbtree.h that a timer call makes; a new node is zero but for its key. -/
def TimerCall.call : TimerCall → Call
  | .add te now msec => .insert te ⟨msec + now, 0, 0, 0, 0, 0⟩
  | .del te => .delete te

/-- A timer call returns and leaves a tree behind. -/
def TimerStep (T : NgxRbtree) (call : TimerCall) (T' : NgxRbtree) : Prop :=
  Step timerLess T call.call T'

/-- What `expire_timer` does that a handler can see. -/
inductive Event where
  /-- The handler of a timer starts. -/
  | fire (entry : Entry)
  /-- A handler makes a call. -/
  | call (call : TimerCall)
  deriving DecidableEq

/-- A node with what is stored in it. -/
def entryOf (T : NgxRbtree) (node : Addr) : Entry := ⟨node, (T.mem node).key, (T.mem node).data⟩

/-- `expire_timer` at a reading of the clock: the events and the tree it leaves. -/
inductive ExpireTimer (now : UInt32) : NgxRbtree → List Event → NgxRbtree → Prop
  | empty {T : NgxRbtree} (none : T.root = T.sentinel) : ExpireTimer now T [] T
  | later {T : NgxRbtree} {node : Addr} (some : T.root ≠ T.sentinel)
      (least : Leaves (fun fuel => ngxRbtreeMin fuel T T.root) node)
      (late : (T.mem node).key > now) : ExpireTimer now T [] T
  | fire {T handled deleted T' : NgxRbtree} {node : Addr} {calls : List TimerCall}
      {events : List Event} (some : T.root ≠ T.sentinel)
      (least : Leaves (fun fuel => ngxRbtreeMin fuel T T.root) node)
      (due : ¬ (T.mem node).key > now) (handler : Run TimerStep T calls handled)
      (own : .del node ∉ calls)
      (removed : Leaves (fun fuel => ngxRbtreeDelete fuel handled node) deleted)
      (rest : ExpireTimer now deleted events T') :
      ExpireTimer now T (.fire (entryOf T node) :: calls.map .call ++ events) T'

/-- What a timer call means for the entries. -/
def timerUpdate (entries : List Entry) (call : TimerCall) : List Entry :=
  update timerLess entries call.call

/-- What `expire_timer` does to the entries. -/
inductive Drain (now : UInt32) : List Entry → List Event → List Entry → Prop
  | empty : Drain now [] [] []
  | later {entry : Entry} {rest : List Entry} (late : now < entry.key) :
      Drain now (entry :: rest) [] (entry :: rest)
  | fire {entry : Entry} {rest final : List Entry} {calls : List TimerCall} {events : List Event}
      (alone : entry.node ∉ rest.map Entry.node) (due : entry.key ≤ now)
      (own : .del entry.node ∉ calls)
      (more : Drain now (timerUpdate (calls.foldl timerUpdate (entry :: rest)) (.del entry.node))
        events final) :
      Drain now (entry :: rest) (.fire entry :: calls.map .call ++ events) final

/-- Deleting a timer removes its entry. -/
@[simp] theorem timerUpdate_del (entries : List Entry) (te : Addr) :
    timerUpdate entries (.del te) = entries.filter fun entry => entry.node ≠ te := rfl

/-- The deadlines are below half the range. -/
def Early (entries : List Entry) : Prop := ∀ entry ∈ entries, entry.key.toNat < 2 ^ 31

/-- The deadline of an added timer is below half the range. -/
def TimerCall.Early : TimerCall → Prop
  | .add _ now msec => (msec + now).toNat < 2 ^ 31
  | .del _ => True

/-- The order and the bound of the entries between two calls. -/
def Tidy (entries : List Entry) : Prop := Sorted timerLess entries ∧ Early entries

section calls

variable {entries : List Entry}

/-- Early deadlines lie in the window of zero. -/
theorem Early.reliable (early : Early entries) {new : UInt32} (small : new.toNat < 2 ^ 31) :
    Reliable timerLess new (entries.map Entry.key) := by
  refine timerLess_reliable 0 ?_
  intro key member
  rw [UInt32.sub_zero]
  rcases List.mem_cons.mp member with rfl | listed
  · exact small
  · obtain ⟨entry, inEntries, rfl⟩ := List.mem_map.mp listed
    exact early entry inEntries

/-- An early timer call keeps the entries early. -/
theorem Early.update (early : Early entries) {call : TimerCall} (small : call.Early) :
    Early (timerUpdate entries call) := by
  intro entry member
  cases call with
  | add te now msec =>
    rcases List.mem_cons.mp ((List.perm_orderedInsert _ _ entries).mem_iff.mp member) with
      rfl | inEntries
    · exact small
    · exact early entry inEntries
  | del te => exact early entry (List.mem_of_mem_filter member)

/-- An early timer call keeps the entries tidy. -/
theorem Tidy.update (tidy : Tidy entries) {call : TimerCall} (small : call.Early) :
    Tidy (timerUpdate entries call) := by
  obtain ⟨sorted, early⟩ := tidy
  refine ⟨?_, early.update small⟩
  cases call with
  | add te now msec =>
    exact sorted.orderedInsert ⟨te, msec + now, 0⟩ (early.reliable small)
  | del te => exact sorted.sublist List.filter_sublist

/-- Early timer calls keep the entries tidy. -/
theorem Tidy.foldl {calls : List TimerCall} : ∀ {entries : List Entry}, Tidy entries →
    (∀ call ∈ calls, call.Early) → Tidy (calls.foldl timerUpdate entries) := by
  induction calls with
  | nil => exact fun tidy _ => tidy
  | cons call calls ih =>
    intro entries tidy small
    exact ih (tidy.update (small call List.mem_cons_self)) fun other member =>
      small other (List.mem_cons_of_mem _ member)

/-- An early timer call keeps the entries tidy, in the memory as in the list. -/
theorem timerStep_represents (call : TimerCall) {s : Addr} {T T' : NgxRbtree}
    (step : TimerStep T call T') (represents : Represents s T entries) (tidy : Tidy entries)
    (small : call.Early) :
    Represents s T' (timerUpdate entries call) ∧ Tidy (timerUpdate entries call) := by
  have reliable : ∀ node contents, call.call = .insert node contents →
      Reliable timerLess contents.key (entries.map Entry.key) := by
    intro node contents same
    cases call with
    | add te now msec =>
      obtain ⟨rfl, rfl⟩ := Call.insert.inj same
      exact tidy.2.reliable small
    | del te => cases same
  exact ⟨(step.represents represents tidy.1 reliable).1, tidy.update small⟩

/-- The same for the calls of a handler. -/
theorem timerRun_represents {s : Addr} {T T' : NgxRbtree} {calls : List TimerCall}
    (run : Run TimerStep T calls T') (represents : Represents s T entries) (tidy : Tidy entries)
    (small : ∀ call ∈ calls, call.Early) :
    Represents s T' (calls.foldl timerUpdate entries) ∧ Tidy (calls.foldl timerUpdate entries) := by
  induction run with
  | nil => exact ⟨represents, tidy⟩
  | @snoc calls state next call before taken ih =>
    obtain ⟨represents', tidy'⟩ := ih fun other member => small other (List.mem_append_left _ member)
    rw [List.foldl_append]
    exact timerStep_represents _ taken represents' tidy'
      (small call (List.mem_append_right _ List.mem_cons_self))

/-- A call that does not delete the node of an entry keeps the entry. -/
theorem mem_timerUpdate {entry : Entry} (member : entry ∈ entries) {call : TimerCall}
    (kept : call ≠ .del entry.node) : entry ∈ timerUpdate entries call := by
  cases call with
  | add te now msec =>
    exact (List.perm_orderedInsert _ _ entries).mem_iff.mpr (List.mem_cons_of_mem _ member)
  | del te =>
    refine List.mem_filter.mpr ⟨member, ?_⟩
    rw [decide_eq_true_iff]
    exact fun same => kept (same ▸ rfl)

/-- Calls that do not delete the node of an entry keep the entry. -/
theorem mem_foldl_timerUpdate {entry : Entry} {calls : List TimerCall} :
    ∀ {entries : List Entry}, entry ∈ entries → .del entry.node ∉ calls →
      entry ∈ calls.foldl timerUpdate entries := by
  induction calls with
  | nil => exact fun member _ => member
  | cons call calls ih =>
    intro entries member kept
    rw [List.mem_cons, not_or] at kept
    exact ih (mem_timerUpdate member (Ne.symm kept.1)) kept.2

end calls

/-- The entry of a node of the tree is the one that the list has. -/
theorem Represents.entryOf_eq {s : Addr} {T : NgxRbtree} {entries : List Entry} {entry : Entry}
    (represents : Represents s T entries) (member : entry ∈ entries) :
    entryOf T entry.node = entry := by
  obtain ⟨key, data⟩ := represents.spells.contents entry member
  unfold entryOf
  rw [key, data]

section drain

variable {now : UInt32} {entries final : List Entry} {events : List Event}

/-- What a call leaves was there, or the call added it. -/
theorem origin_timerUpdate {entry : Entry} {call : TimerCall}
    (member : entry ∈ timerUpdate entries call) :
    entry ∈ entries ∨ ∃ te clock msec, call = .add te clock msec ∧ entry = ⟨te, msec + clock, 0⟩ := by
  cases call with
  | add te clock msec =>
    rcases List.mem_cons.mp ((List.perm_orderedInsert _ _ entries).mem_iff.mp member) with
      new | old
    · exact Or.inr ⟨te, clock, msec, rfl, new⟩
    · exact Or.inl old
  | del te => exact Or.inl (List.mem_of_mem_filter member)

/-- What calls leave was there, or one of them added it. -/
theorem origin_foldl {entry : Entry} {calls : List TimerCall} :
    ∀ {entries : List Entry}, entry ∈ calls.foldl timerUpdate entries →
      entry ∈ entries ∨ ∃ te clock msec, .add te clock msec ∈ calls ∧ entry = ⟨te, msec + clock, 0⟩ := by
  induction calls with
  | nil => exact fun member => Or.inl member
  | cons call calls ih =>
    intro entries member
    rcases ih member with old | ⟨te, clock, msec, inCalls, same⟩
    · rcases origin_timerUpdate old with older | ⟨te, clock, msec, rfl, same⟩
      · exact Or.inl older
      · exact Or.inr ⟨te, clock, msec, List.mem_cons_self, same⟩
    · exact Or.inr ⟨te, clock, msec, List.mem_cons_of_mem _ inCalls, same⟩

/-- A timer that fires or is left was there, or a handler added it. -/
theorem Drain.origin (drain : Drain now entries events final) :
    ∀ entry, .fire entry ∈ events ∨ entry ∈ final →
      entry ∈ entries ∨
        ∃ te clock msec, .call (.add te clock msec) ∈ events ∧ entry = ⟨te, msec + clock, 0⟩ := by
  induction drain with
  | empty => exact fun entry member => Or.inl (member.resolve_left List.not_mem_nil)
  | later late => exact fun entry member => Or.inl (member.resolve_left List.not_mem_nil)
  | @fire first rest final calls events alone due own more ih =>
    intro entry member
    have found : entry = first ∨ .fire entry ∈ events ∨ entry ∈ final := by
      rcases member with fires | left
      · rw [List.cons_append, List.mem_cons, List.mem_append] at fires
        rcases fires with same | inCalls | inMore
        · exact Or.inl (Event.fire.inj same)
        · obtain ⟨call, -, differ⟩ := List.mem_map.mp inCalls
          cases differ
        · exact Or.inr (Or.inl inMore)
      · exact Or.inr (Or.inr left)
    rcases found with rfl | later
    · exact Or.inl List.mem_cons_self
    · rcases ih entry later with old | ⟨te, clock, msec, inMore, same⟩
      · rcases origin_foldl (List.mem_of_mem_filter old) with older | ⟨te, clock, msec, inCalls, same⟩
        · exact Or.inl older
        · refine Or.inr ⟨te, clock, msec, ?_, same⟩
          exact List.mem_cons_of_mem _ (List.mem_append_left _ (List.mem_map_of_mem inCalls))
      · exact Or.inr ⟨te, clock, msec, List.mem_cons_of_mem _ (List.mem_append_right _ inMore), same⟩

end drain

/-- Calls that the handler of a timer may make: none deletes that timer, and the added timers are
not due yet. -/
structure Polite (now : UInt32) (s : Addr) (current : List Entry) (entry : Entry)
    (calls : List TimerCall) : Prop where
  /-- Added nodes are new, and deleted ones are there. -/
  may : mayAll timerLess s current (calls.map TimerCall.call) = true
  /-- The timer itself stays. -/
  own : .del entry.node ∉ calls
  /-- The added deadlines are below half the range. -/
  early : ∀ call ∈ calls, call.Early
  /-- They are not due yet. -/
  later : ∀ te clock msec, .add te clock msec ∈ calls → now < msec + clock

/-- What `expire_timer` does in that many passes, for handlers that are functions of the timers. -/
def expireEntries (handler : List Entry → Entry → List TimerCall) (now : UInt32) :
    Nat → List Entry → List Event × List Entry
  | 0, entries => ([], entries)
  | _ + 1, [] => ([], [])
  | passes + 1, entry :: rest =>
    if now < entry.key then ([], entry :: rest)
    else
      let calls := handler (entry :: rest) entry
      let left := timerUpdate (calls.foldl timerUpdate (entry :: rest)) (.del entry.node)
      let more := expireEntries handler now passes left
      (.fire entry :: calls.map .call ++ more.1, more.2)

/-- The number of due timers. -/
def dueCount (now : UInt32) (entries : List Entry) : Nat :=
  entries.countP fun entry => entry.key ≤ now

section returns

variable {now : UInt32} {s : Addr} {entries : List Entry} {T : NgxRbtree}

/-- A call that adds no due timer does not raise the number of due timers. -/
theorem dueCount_timerUpdate (entries : List Entry) {call : TimerCall}
    (later : ∀ te clock msec, call = .add te clock msec → now < msec + clock) :
    dueCount now (timerUpdate entries call) ≤ dueCount now entries := by
  unfold dueCount
  cases call with
  | add te clock msec =>
    have late : ¬ msec + clock ≤ now := UInt32.not_le.mpr (later te clock msec rfl)
    refine (List.Perm.countP_eq _ (List.perm_orderedInsert _ _ entries)).le.trans ?_
    rw [List.countP_cons_of_neg (by simpa [TimerCall.call] using late)]
  | del te => exact List.filter_sublist.countP_le

/-- Calls that add no due timer do not raise the number of due timers. -/
theorem dueCount_foldl {calls : List TimerCall} : ∀ (entries : List Entry),
    (∀ te clock msec, .add te clock msec ∈ calls → now < msec + clock) →
      dueCount now (calls.foldl timerUpdate entries) ≤ dueCount now entries := by
  induction calls with
  | nil => exact fun _ _ => le_refl _
  | cons call calls ih =>
    intro entries later
    refine (ih _ fun te clock msec member => later te clock msec
      (List.mem_cons_of_mem _ member)).trans (dueCount_timerUpdate entries ?_)
    rintro te clock msec rfl
    exact later te clock msec List.mem_cons_self

/-- Deleting a due timer lowers the number of due timers. -/
theorem dueCount_delete {entry : Entry} (member : entry ∈ entries) (due : entry.key ≤ now) :
    dueCount now (timerUpdate entries (.del entry.node)) < dueCount now entries := by
  unfold dueCount
  rw [timerUpdate_del, List.countP_eq_length_filter, List.countP_eq_length_filter,
    List.filter_comm, List.length_filter_lt_length_iff_exists]
  refine ⟨entry, List.mem_filter.mpr ⟨member, by simpa using due⟩, ?_⟩
  simp

/-- Calls that a caller may make have a run. -/
theorem Represents.exists_timerRun (represents : Represents s T entries) (tidy : Tidy entries)
    {calls : List TimerCall} (may : mayAll timerLess s entries (calls.map TimerCall.call) = true)
    (small : ∀ call ∈ calls, call.Early) : ∃ T', Run TimerStep T calls T' := by
  induction calls using List.reverseRecOn with
  | nil => exact ⟨T, Run.nil⟩
  | append_singleton calls call ih =>
    rw [List.map_append, mayAll_append, Bool.and_eq_true, List.map_singleton, mayAll, mayAll,
      Bool.and_true] at may
    have earlier : ∀ other ∈ calls, other.Early :=
      fun other member => small other (List.mem_append_left _ member)
    obtain ⟨T', run⟩ := ih may.1 earlier
    obtain ⟨represents', -⟩ := timerRun_represents run represents tidy earlier
    have last := may.2
    rw [List.foldl_map] at last
    obtain ⟨T'', step⟩ := represents'.may_returns timerLess last
    exact ⟨T'', run.snoc step⟩

/-- `expire_timer` returns when the handlers are polite. -/
theorem Represents.expireTimer (now : UInt32) {handler : List Entry → Entry → List TimerCall}
    (polite : ∀ current entry, entry ∈ current → Polite now s current entry (handler current entry))
    (passes : Nat) :
    ∀ {entries : List Entry} {T : NgxRbtree}, Represents s T entries → Tidy entries →
      dueCount now entries ≤ passes →
      ∃ T', ExpireTimer now T (expireEntries handler now passes entries).1 T' ∧
        Represents s T' (expireEntries handler now passes entries).2 := by
  induction passes with
  | zero =>
    intro entries T represents tidy few
    cases entries with
    | nil => exact ⟨T, ExpireTimer.empty represents.empty, represents⟩
    | cons entry rest =>
      have late : ¬ entry.key ≤ now := by
        intro due
        unfold dueCount at few
        rw [List.countP_cons_of_pos (by simpa using due)] at few
        omega
      obtain ⟨nonempty, least⟩ := represents.min
      refine ⟨T, ExpireTimer.later nonempty least ?_, represents⟩
      rw [(represents.spells.contents entry List.mem_cons_self).1]
      exact UInt32.not_le.mp late
  | succ passes ih =>
    intro entries T represents tidy few
    cases entries with
    | nil => exact ⟨T, ExpireTimer.empty represents.empty, represents⟩
    | cons entry rest =>
      obtain ⟨nonempty, least⟩ := represents.min
      have contents := (represents.spells.contents entry List.mem_cons_self).1
      unfold expireEntries
      by_cases late : now < entry.key
      · rw [if_pos late]
        exact ⟨T, ExpireTimer.later nonempty least (by rw [contents]; exact late), represents⟩
      · rw [if_neg late]
        have kind := polite (entry :: rest) entry List.mem_cons_self
        obtain ⟨handled, run⟩ := represents.exists_timerRun tidy kind.may kind.early
        obtain ⟨represents', tidy'⟩ := timerRun_represents run represents tidy kind.early
        have kept : entry ∈ (handler (entry :: rest) entry).foldl timerUpdate (entry :: rest) :=
          mem_foldl_timerUpdate List.mem_cons_self kind.own
        have present : Reach handled entry.node := by
          rw [represents'.reach_iff]
          exact List.mem_map_of_mem kept
        obtain ⟨deleted, step⟩ := represents'.delete_returns timerLess present
        obtain ⟨represents'', tidy''⟩ := timerStep_represents (.del entry.node) step
          represents' tidy' trivial
        have fewer : dueCount now (timerUpdate
            ((handler (entry :: rest) entry).foldl timerUpdate (entry :: rest))
            (.del entry.node)) ≤ passes := by
          have one := dueCount_delete kept (UInt32.not_lt.mp late)
          have all := dueCount_foldl (entry :: rest) kind.later
          omega
        obtain ⟨T', more, final⟩ := ih represents'' tidy'' fewer
        cases step with
        | delete _ removed =>
          have fire := ExpireTimer.fire nonempty least (by rw [contents]; exact late) run kind.own
            removed more
          rw [represents.entryOf_eq List.mem_cons_self] at fire
          exact ⟨T', fire, final⟩

end returns

/-- The entries after the timer calls of a run. -/
def timers (trace : List TimerCall) : List Entry := trace.foldl timerUpdate []

/-- In every run of early timer calls the memory has the timers, in order. -/
theorem timers_represents {mem : Addr → NgxRbtreeNode} {s : Addr} {trace : List TimerCall}
    {T : NgxRbtree} (run : Run TimerStep (ngxRbtreeInit mem s) trace T)
    (small : ∀ call ∈ trace, call.Early) :
    Represents s T (timers trace) ∧ Tidy (timers trace) :=
  timerRun_represents run (represents_init mem s)
    ⟨List.Pairwise.nil, fun _ member => absurd member List.not_mem_nil⟩ small

/-- Three timers. -/
def appointments : List TimerCall := [.add 1 100 50, .add 2 100 10, .add 3 101 500]

/-- The handler of the second adds a fourth and deletes the first. -/
def postpone (current : List Entry) (entry : Entry) : List TimerCall :=
  if entry.node = 2 ∧ 4 ∉ current.map Entry.node ∧ 1 ∈ current.map Entry.node then
    [.add 4 200 5, .del 1]
  else []

/-- That is a polite handler. -/
theorem postpone_polite {current : List Entry} {entry : Entry} (_ : entry ∈ current) :
    Polite 200 9 current entry (postpone current entry) := by
  unfold postpone
  split
  · rename_i test
    obtain ⟨node, free, there⟩ := test
    refine ⟨?_, ?_, ?_, ?_⟩
    · have still : 1 ∈ (timerUpdate current (.add 4 200 5)).map Entry.node := by
        obtain ⟨other, member, same⟩ := List.mem_map.mp there
        exact List.mem_map.mpr ⟨other, mem_timerUpdate member (by simp), same⟩
      simp only [List.map_cons, List.map_nil, mayAll, Bool.and_true, Bool.and_eq_true]
      exact ⟨decide_eq_true ⟨by decide, free⟩, decide_eq_true still⟩
    · rw [node]
      decide
    · simp [TimerCall.Early]
    · intro te clock msec member
      simp only [List.mem_cons, TimerCall.add.injEq, List.not_mem_nil, or_false, reduceCtorEq]
        at member
      obtain ⟨-, rfl, rfl⟩ := member
      decide
  · exact ⟨rfl, List.not_mem_nil, fun call member => absurd member List.not_mem_nil,
      fun te clock msec member => absurd member List.not_mem_nil⟩

/-- The three timers are added. -/
theorem appointments_run : ∃ T, Run TimerStep (ngxRbtreeInit rawMemory 9) appointments T :=
  (represents_init rawMemory 9).exists_timerRun
    ⟨List.Pairwise.nil, fun _ member => absurd member List.not_mem_nil⟩ (by decide)
    (by simp [appointments, TimerCall.Early])

/-- After any run of timer calls `expire_timer` returns when the handlers add only timers that are
not due yet: in as many passes as there are due timers. -/
theorem expire_timer_returns {mem : Addr → NgxRbtreeNode} {s : Addr} {trace : List TimerCall}
    {T : NgxRbtree} (now : UInt32) (handler : List Entry → Entry → List TimerCall)
    (run : Run TimerStep (ngxRbtreeInit mem s) trace T) (small : ∀ call ∈ trace, call.Early)
    (polite : ∀ current entry, entry ∈ current →
      Polite now s current entry (handler current entry)) :
    ∃ T', ExpireTimer now T
        (expireEntries handler now (dueCount now (timers trace)) (timers trace)).1 T' ∧
      Spells T' (expireEntries handler now (dueCount now (timers trace)) (timers trace)).2 := by
  obtain ⟨represents, tidy⟩ := timers_represents run small
  obtain ⟨T', expire, final⟩ := Represents.expireTimer now polite _ represents tidy (le_refl _)
  exact ⟨T', expire, final.spells⟩

/-- The fourth and the third timer are left. -/
theorem expire_timer_returns_postpone : ∃ T T',
    ExpireTimer 200 T [.fire ⟨2, 110, 0⟩, .call (.add 4 200 5), .call (.del 1)] T' ∧
      Spells T' [⟨4, 205, 0⟩, ⟨3, 601, 0⟩] := by
  obtain ⟨T, run⟩ := appointments_run
  obtain ⟨T', expire, spells⟩ := expire_timer_returns 200 postpone run
    (by simp [appointments, TimerCall.Early]) fun _ _ => postpone_polite
  have both : expireEntries postpone 200 (dueCount 200 (timers appointments))
      (timers appointments) = ([.fire ⟨2, 110, 0⟩, .call (.add 4 200 5), .call (.del 1)],
        [⟨4, 205, 0⟩, ⟨3, 601, 0⟩]) := by decide
  rw [both] at expire spells
  exact ⟨T, T', expire, spells⟩

end BackendCpp.Ngx
