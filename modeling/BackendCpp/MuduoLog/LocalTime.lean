import BackendCpp.MuduoLog.TimeZone

/-!
# Local times and back

A local time that a clock shows twice, before and after it is put back, is ambiguous.
`TimeZone::fromLocalTime` takes the later of the two, and has a correction for the end of the daylight
saving time: it goes one hour back when the fields say daylight saving time and the later time does
not have it. So all times come back from their local time exactly when the clocks of the zone are
only ever put back by one hour, at the end of daylight saving time.
-/

namespace BackendCpp.MuduoLog

open BackendCpp.Library

/-- The type of local time in force after some transitions of a table. -/
def Data.inForce (data : Data) (before : List Transition) : Option Localtime :=
  match before.getLast? with
  | none => data.localtimes.head?
  | some transition => data.localtimes[transition.localtimeIdx]?

/-- The time that a comparison looks at. -/
def Comp.key (comp : Comp) (transition : Transition) : Int :=
  if comp.compareGmt then transition.gmttime else transition.localtime

/-- A comparison compares the keys. -/
theorem Comp.less_iff (comp : Comp) (lhs rhs : Transition) :
    comp.less lhs rhs = true ↔ comp.key lhs < comp.key rhs := by
  unfold Comp.less Comp.key
  split <;> exact decide_eq_true_iff

/-- Transitions are equal when their keys are. -/
theorem Comp.equal_iff (comp : Comp) (lhs rhs : Transition) :
    comp.equal lhs rhs = true ↔ comp.key lhs = comp.key rhs := by
  unfold Comp.equal Comp.key
  split <;> exact decide_eq_true_iff

/-- `findLocaltime` finds the type in force after the transitions that are not later than the time
it looks for. -/
theorem findLocaltime_split {data : Data} {before after : List Transition}
    (sentry : Transition) (comp : Comp) (split : data.transitions = before ++ after)
    (sorted : data.transitions.Pairwise fun one other => comp.key one < comp.key other)
    (reached : ∀ transition ∈ before, comp.key transition ≤ comp.key sentry)
    (ahead : ∀ transition ∈ after, comp.key sentry < comp.key transition) :
    findLocaltime data sentry comp = data.inForce before := by
  have lessAhead : ∀ transition ∈ after, comp.less transition sentry = false := by
    intro transition member
    rw [← Bool.not_eq_true, Comp.less_iff]
    have later := ahead transition member
    omega
  have differAhead : ∀ transition ∈ after, comp.equal sentry transition = false := by
    intro transition member
    rw [← Bool.not_eq_true, Comp.equal_iff]
    have later := ahead transition member
    omega
  have atAfter : after.findIdx (fun transition => !comp.less transition sentry) = 0 := by
    cases after with
    | nil => rfl
    | cons transition after =>
      rw [List.findIdx_cons, lessAhead transition List.mem_cons_self]
      rfl
  rcases List.eq_nil_or_concat' before with rfl | ⟨init, last, rfl⟩
  · unfold findLocaltime Data.inForce
    rw [split, List.nil_append]
    cases after with
    | nil => rfl
    | cons front after =>
      have less : comp.less sentry front = true :=
        (comp.less_iff _ _).mpr (ahead front List.mem_cons_self)
      simp only [List.head?_cons, List.getLast?_nil]
      rw [if_pos less]
  · rw [List.append_assoc, List.singleton_append] at split
    have lastReached := reached last (List.mem_append_right _ List.mem_cons_self)
    have lessInit : ∀ transition ∈ init, comp.less transition sentry = true := by
      intro transition member
      rw [split] at sorted
      rw [Comp.less_iff]
      have earlier := (List.pairwise_append.mp sorted).2.2 transition member last List.mem_cons_self
      omega
    have place : lowerBound comp data.transitions sentry =
        (last :: after).findIdx (fun transition => !comp.less transition sentry) + init.length := by
      unfold lowerBound
      have none : init.findIdx (fun transition => !comp.less transition sentry) = init.length :=
        List.findIdx_eq_length_of_false fun transition member => by
          rw [lessInit transition member]
          rfl
      rw [split, List.findIdx_append, none, if_neg (Nat.lt_irrefl _)]
    obtain ⟨front, begins, notLess⟩ : ∃ front, data.transitions.head? = some front ∧
        ¬ comp.less sentry front = true := by
      rw [split]
      cases init with
      | nil =>
        refine ⟨last, rfl, ?_⟩
        rw [Comp.less_iff]
        omega
      | cons front init =>
        refine ⟨front, rfl, ?_⟩
        have frontReached := reached front (List.mem_append_left _ List.mem_cons_self)
        rw [Comp.less_iff]
        omega
    have found : data.inForce (init ++ [last]) = data.localtimes[last.localtimeIdx]? := by
      unfold Data.inForce
      rw [List.getLast?_concat]
    unfold findLocaltime
    rw [begins, found, place]
    simp only [if_neg notLess]
    rw [List.findIdx_cons]
    by_cases same : comp.key last = comp.key sentry
    · have notLess' : comp.less last sentry = false := by
        rw [← Bool.not_eq_true, Comp.less_iff]
        omega
      have equal : comp.equal sentry last = true := (comp.equal_iff _ _).mpr same.symm
      rw [notLess', split]
      simp [equal]
    · have less : comp.less last sentry = true := (comp.less_iff _ _).mpr (by omega)
      rw [less, atAfter, split]
      cases after with
      | nil => simp
      | cons next after =>
        have differ := differAhead next List.mem_cons_self
        have index : (bif !true then 0 else 0 + 1) + init.length = init.length + 1 := by
          simp [Nat.add_comm]
        have here : (init ++ last :: next :: after)[init.length + 1]? = some next := by simp
        have previous : (init ++ last :: next :: after)[init.length + 1 - 1]? = some last := by simp
        simp only [index, here, previous, differ, if_neg (Nat.succ_ne_zero _), Bool.false_eq_true,
          if_false]

/-- The table of a zone is in order: the transitions refer to types of local time, and lie further
apart than the offsets do. -/
structure Orderly (data : Data) (width : Int) : Prop where
  /-- There is a type of local time. -/
  types : data.localtimes ≠ []
  /-- The transitions refer to types, and have their own local times. -/
  index : ∀ transition ∈ data.transitions, ∃ type, data.localtimes[transition.localtimeIdx]? =
    some type ∧ transition.localtime = transition.gmttime + type.gmtOffset
  /-- The offsets are bounded. -/
  narrow : ∀ type ∈ data.localtimes, -width ≤ type.gmtOffset ∧ type.gmtOffset ≤ width
  /-- The transitions are in order, and further apart than any two offsets. -/
  spaced : data.transitions.Pairwise fun one other => one.gmttime + 2 * width < other.gmttime

/-- The clocks are only put back at the end of daylight saving time, and then by one hour. -/
def OneHourBack (data : Data) : Prop :=
  ∀ before next after old new, data.transitions = before ++ next :: after →
    data.inForce before = some old → data.localtimes[next.localtimeIdx]? = some new →
    new.gmtOffset < old.gmtOffset →
      old.isDst = true ∧ new.isDst = false ∧ old.gmtOffset = new.gmtOffset + 3600

section zone

variable {data : Data} {width : Int}

/-- There is always a type in force, and it is one of the table. -/
theorem Orderly.inForce (orderly : Orderly data width) {before after : List Transition}
    (split : data.transitions = before ++ after) :
    ∃ type, data.inForce before = some type ∧ type ∈ data.localtimes := by
  unfold Data.inForce
  cases last : before.getLast? with
  | none =>
    obtain ⟨front, rest, types⟩ := List.exists_cons_of_ne_nil orderly.types
    rw [types]
    exact ⟨front, rfl, List.mem_cons_self⟩
  | some transition =>
    have member : transition ∈ data.transitions := by
      rw [split]
      exact List.mem_append_left _ (List.mem_of_getLast? last)
    obtain ⟨type, found, -⟩ := orderly.index transition member
    exact ⟨type, found, List.mem_of_getElem? found⟩

/-- The transitions are in the order of the UTC times. -/
theorem Orderly.sortedGmt (orderly : Orderly data width) (nonneg : 0 ≤ width) :
    data.transitions.Pairwise fun one other => Comp.key ⟨true⟩ one < Comp.key ⟨true⟩ other := by
  refine orderly.spaced.imp ?_
  intro one other apart
  show one.gmttime < other.gmttime
  omega

/-- The transitions are in the order of the local times. -/
theorem Orderly.sortedLocal (orderly : Orderly data width) :
    data.transitions.Pairwise fun one other => Comp.key ⟨false⟩ one < Comp.key ⟨false⟩ other := by
  refine orderly.spaced.imp_of_mem ?_
  intro one other inOne inOther apart
  obtain ⟨type, found, same⟩ := orderly.index one inOne
  obtain ⟨type', found', same'⟩ := orderly.index other inOther
  have bounds := orderly.narrow type (List.mem_of_getElem? found)
  have bounds' := orderly.narrow type' (List.mem_of_getElem? found')
  show one.localtime < other.localtime
  omega

/-- A list with increasing keys is split by a key. -/
theorem exists_split {key : Transition → Int} {transitions : List Transition} (x : Int)
    (sorted : transitions.Pairwise fun one other => key one < key other) :
    ∃ before after, transitions = before ++ after ∧ (∀ one ∈ before, key one ≤ x) ∧
      ∀ one ∈ after, x < key one := by
  induction transitions with
  | nil =>
    exact ⟨[], [], rfl, fun _ member => absurd member List.not_mem_nil,
      fun _ member => absurd member List.not_mem_nil⟩
  | cons first rest ih =>
    obtain ⟨least, further⟩ := List.pairwise_cons.mp sorted
    by_cases here : key first ≤ x
    · obtain ⟨before, after, rfl, reached, ahead⟩ := ih further
      refine ⟨first :: before, after, rfl, ?_, ahead⟩
      intro one member
      rcases List.mem_cons.mp member with rfl | inBefore
      · exact here
      · exact reached one inBefore
    · refine ⟨[], first :: rest, rfl, fun _ member => absurd member List.not_mem_nil, ?_⟩
      intro one member
      rcases List.mem_cons.mp member with rfl | inRest
      · omega
      · have later := least one inRest
        omega

/-- The table around a time. -/
structure Around (data : Data) (seconds : Int) (before after : List Transition) : Prop where
  /-- The two parts are the table. -/
  split : data.transitions = before ++ after
  /-- The first part is not later. -/
  reached : ∀ transition ∈ before, transition.gmttime ≤ seconds
  /-- The second part is later. -/
  ahead : ∀ transition ∈ after, seconds < transition.gmttime

variable {seconds : Int} {before after : List Transition} {old new : Localtime} {next : Transition}

/-- The local time is that of the type in force. -/
theorem Around.toLocalTime (around : Around data seconds before after)
    (orderly : Orderly data width) (nonneg : 0 ≤ width) (found : data.inForce before = some old) :
    toLocalTime data seconds = some (old.tm data seconds) := by
  have here := findLocaltime_split ⟨seconds, 0, 0⟩ ⟨true⟩ around.split
    (orderly.sortedGmt nonneg) around.reached around.ahead
  unfold MuduoLog.toLocalTime
  rw [here, found]

/-- The local seconds come back from the fields. -/
theorem timegm_tm : timegm (old.tm data seconds) = seconds + old.gmtOffset :=
  timegm_gmtimeR _

/-- The transitions that are not later are not later by the local times either. -/
theorem Around.reachedLocal (around : Around data seconds before after)
    (orderly : Orderly data width) (found : data.inForce before = some old) :
    ∀ transition ∈ before, transition.localtime ≤ seconds + old.gmtOffset := by
  rcases List.eq_nil_or_concat' before with rfl | ⟨init, last, rfl⟩
  · exact fun _ member => absurd member List.not_mem_nil
  · have inTable : ∀ transition ∈ init ++ [last], transition ∈ data.transitions := by
      intro transition member
      rw [around.split]
      exact List.mem_append_left _ member
    have atLast : last ∈ init ++ [last] := List.mem_append_right _ List.mem_cons_self
    obtain ⟨type, index, same⟩ := orderly.index last (inTable last atLast)
    unfold Data.inForce at found
    rw [List.getLast?_concat] at found
    have equal : type = old := Option.some.inj (index.symm.trans found)
    have reachedLast := around.reached last atLast
    intro transition member
    rcases List.mem_append.mp member with inInit | isLast
    · have sorted := orderly.sortedLocal
      rw [around.split, List.append_assoc] at sorted
      have earlier : transition.localtime < last.localtime :=
        (List.pairwise_append.mp sorted).2.2 transition inInit last List.mem_cons_self
      rw [← equal]
      omega
    · rw [List.mem_singleton.mp isLast, ← equal]
      omega

/-- A time whose local time is before the next transition comes back. -/
theorem Around.unambiguous (around : Around data seconds before after)
    (orderly : Orderly data width) (nonneg : 0 ≤ width) (found : data.inForce before = some old)
    (clear : ∀ transition ∈ after, seconds + old.gmtOffset < transition.localtime) :
    fromLocalTime data (old.tm data seconds) = some seconds := by
  have here := findLocaltime_split ⟨0, seconds + old.gmtOffset, 0⟩ ⟨false⟩
    around.split orderly.sortedLocal (around.reachedLocal orderly found) clear
  have again : seconds + old.gmtOffset - old.gmtOffset = seconds := by omega
  unfold fromLocalTime
  rw [timegm_tm]
  simp only [here, found, again, around.toLocalTime orderly nonneg found]
  split_ifs with dst hack
  · have same : (old.tm data seconds).tmIsdst = true := dst
    rw [same] at hack
    simp at hack
  · rfl
  · rfl

/-- A time whose local time is not before the next transition is taken for a later one, and corrected
by an hour at the end of daylight saving time. -/
theorem Around.ambiguous (around : Around data seconds before (next :: after))
    (orderly : Orderly data width) (nonneg : 0 ≤ width) (found : data.inForce before = some old)
    (follows : data.localtimes[next.localtimeIdx]? = some new)
    (twice : next.localtime ≤ seconds + old.gmtOffset) :
    fromLocalTime data (old.tm data seconds) =
      some (seconds + old.gmtOffset - new.gmtOffset -
        if old.isDst = true ∧ new.isDst = false then 3600 else 0) := by
  have nextIn : next ∈ data.transitions := by
    rw [around.split]
    exact List.mem_append_right _ List.mem_cons_self
  obtain ⟨oldType, inForce, oldIn⟩ := orderly.inForce around.split
  have oldBounds := orderly.narrow old (Option.some.inj (inForce.symm.trans found) ▸ oldIn)
  have newBounds := orderly.narrow new (List.mem_of_getElem? follows)
  obtain ⟨newType, index, same⟩ := orderly.index next nextIn
  rw [Option.some.inj (index.symm.trans follows)] at same
  have later := around.ahead next List.mem_cons_self
  have split : data.transitions = (before ++ [next]) ++ after := by
    rw [around.split, List.append_assoc]
    rfl
  have apart : ∀ transition ∈ after, next.gmttime + 2 * width < transition.gmttime := by
    have spaced := orderly.spaced
    rw [around.split] at spaced
    exact (List.pairwise_cons.mp (List.pairwise_append.mp spaced).2.1).1
  have nowNew : data.inForce (before ++ [next]) = some new := by
    unfold Data.inForce
    rw [List.getLast?_concat]
    exact follows
  have around' : Around data (seconds + old.gmtOffset - new.gmtOffset) (before ++ [next]) after := by
    refine ⟨split, ?_, ?_⟩
    · intro transition member
      rcases List.mem_append.mp member with inBefore | isNext
      · have reached := around.reached transition inBefore
        omega
      · rw [List.mem_singleton.mp isNext]
        omega
    · intro transition member
      have far := apart transition member
      omega
  have back : seconds + old.gmtOffset - new.gmtOffset + new.gmtOffset =
      seconds + old.gmtOffset := by omega
  have reached' := around'.reachedLocal orderly nowNew
  rw [back] at reached'
  have ahead' : ∀ transition ∈ after, seconds + old.gmtOffset < transition.localtime := by
    intro transition member
    have inTable : transition ∈ data.transitions := by
      rw [split]
      exact List.mem_append_right _ member
    obtain ⟨type, index', same'⟩ := orderly.index transition inTable
    have bounds := orderly.narrow type (List.mem_of_getElem? index')
    have far := apart transition member
    omega
  have here := findLocaltime_split ⟨0, seconds + old.gmtOffset, 0⟩ ⟨false⟩
    split orderly.sortedLocal reached' ahead'
  have hour : (new.tm data (seconds + old.gmtOffset - new.gmtOffset)).tmHour =
      (old.tm data seconds).tmHour := by
    unfold Localtime.tm
    rw [back]
  have min : (new.tm data (seconds + old.gmtOffset - new.gmtOffset)).tmMin =
      (old.tm data seconds).tmMin := by
    unfold Localtime.tm
    rw [back]
  have oldDst : (old.tm data seconds).tmIsdst = old.isDst := rfl
  have newDst : (new.tm data (seconds + old.gmtOffset - new.gmtOffset)).tmIsdst = new.isDst := rfl
  unfold fromLocalTime
  rw [timegm_tm]
  simp only [here, nowNew, around'.toLocalTime orderly nonneg nowNew, hour, min, oldDst, newDst]
  cases old.isDst <;> cases new.isDst <;> simp
  omega

/-- The spacing of the table is not negative. -/
theorem Orderly.nonneg (orderly : Orderly data width) : 0 ≤ width := by
  obtain ⟨front, rest, types⟩ := List.exists_cons_of_ne_nil orderly.types
  have bounds := orderly.narrow front (types ▸ List.mem_cons_self)
  omega

/-- Every time has a place in the table. -/
theorem Orderly.exists_around (orderly : Orderly data width) (seconds : Int) :
    ∃ before after, Around data seconds before after := by
  obtain ⟨before, after, split, reached, ahead⟩ :=
    exists_split seconds (orderly.sortedGmt orderly.nonneg)
  exact ⟨before, after, split, reached, ahead⟩

end zone

/-- In a zone whose table is in order, every time comes back from its local time if and only if the
clocks are only put back at the end of daylight saving time, and then by one hour. -/
theorem local_round_trip {data : Data} {width : Int} (orderly : Orderly data width) :
    (∀ seconds, (toLocalTime data seconds).bind (fromLocalTime data) = some seconds) ↔
      OneHourBack data := by
  have nonneg := orderly.nonneg
  constructor
  · intro all before next after old new split found follows back
    have inTable : next ∈ data.transitions := by
      rw [split]
      exact List.mem_append_right _ List.mem_cons_self
    obtain ⟨type, index, same⟩ := orderly.index next inTable
    rw [Option.some.inj (index.symm.trans follows)] at same
    obtain ⟨oldType, inForce, oldIn⟩ := orderly.inForce split
    have bounds := orderly.narrow old (Option.some.inj (inForce.symm.trans found) ▸ oldIn)
    -- the last second before the clocks are put back
    have around : Around data (next.gmttime - 1) before (next :: after) := by
      have spaced := orderly.spaced
      rw [split] at spaced
      obtain ⟨-, later, earlier⟩ := List.pairwise_append.mp spaced
      refine ⟨split, ?_, ?_⟩
      · intro transition member
        have apart := earlier transition member next List.mem_cons_self
        omega
      · intro transition member
        rcases List.mem_cons.mp member with rfl | inAfter
        · omega
        · have apart := (List.pairwise_cons.mp later).1 transition inAfter
          omega
    have comes := all (next.gmttime - 1)
    rw [around.toLocalTime orderly nonneg found, Option.bind_some,
      around.ambiguous orderly nonneg found follows (by omega), Option.some.injEq] at comes
    split_ifs at comes with correct
    · exact ⟨correct.1, correct.2, by omega⟩
    · omega
  · intro oneHour seconds
    obtain ⟨before, after, around⟩ := orderly.exists_around seconds
    obtain ⟨old, found, oldIn⟩ := orderly.inForce around.split
    have bounds := orderly.narrow old oldIn
    rw [around.toLocalTime orderly nonneg found, Option.bind_some]
    by_cases clear : ∀ transition ∈ after, seconds + old.gmtOffset < transition.localtime
    · exact around.unambiguous orderly nonneg found clear
    · cases after with
      | nil => exact absurd (fun _ member => absurd member List.not_mem_nil) clear
      | cons next after =>
        have inTable : next ∈ data.transitions := by
          rw [around.split]
          exact List.mem_append_right _ List.mem_cons_self
        obtain ⟨new, index, same⟩ := orderly.index next inTable
        have later := around.ahead next List.mem_cons_self
        have twice : next.localtime ≤ seconds + old.gmtOffset := by
          by_contra before
          refine clear fun transition member => ?_
          rcases List.mem_cons.mp member with rfl | inAfter
          · omega
          · have sorted := orderly.sortedLocal
            rw [around.split] at sorted
            have order : next.localtime < transition.localtime :=
              (List.pairwise_cons.mp (List.pairwise_append.mp sorted).2.1).1 transition inAfter
            omega
        obtain ⟨dst, standard, hour⟩ := oneHour before next after old new around.split found index
          (by omega)
        rw [around.ambiguous orderly nonneg found index twice, if_pos ⟨dst, standard⟩]
        rw [Option.some.injEq]
        omega

/-- A zone with one hour of daylight saving time between two transitions. -/
def summer : Data :=
  ⟨[⟨1000000, 1007200, 1⟩, ⟨20000000, 20003600, 0⟩], [⟨3600, false, 0⟩, ⟨7200, true, 4⟩],
    bytes "CET\x00CEST\x00"⟩

/-- A second of the hour that the clock shows twice comes back. -/
theorem local_round_trip_summer :
    (toLocalTime summer 19999999).bind (fromLocalTime summer) = some 19999999 := by
  have orderly : Orderly summer 7200 := by
    refine ⟨by decide, ?_, by decide, by decide⟩
    intro transition member
    fin_cases member <;> exact ⟨_, rfl, rfl⟩
  refine (local_round_trip orderly).mpr ?_ 19999999
  intro before next after old new split found follows back
  rcases before with _ | ⟨one, _ | ⟨two, before⟩⟩
  · simp only [summer, List.nil_append, List.cons.injEq] at split
    obtain ⟨rfl, -⟩ := split
    obtain rfl := Option.some.inj found
    obtain rfl := Option.some.inj follows
    exact absurd back (by decide)
  · simp only [summer, List.cons_append, List.nil_append, List.cons.injEq] at split
    obtain ⟨rfl, rfl, -⟩ := split
    obtain rfl := Option.some.inj found
    obtain rfl := Option.some.inj follows
    exact ⟨rfl, rfl, rfl⟩
  · simp [summer] at split

end BackendCpp.MuduoLog
