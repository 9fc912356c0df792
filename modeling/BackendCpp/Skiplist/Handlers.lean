import BackendCpp.Skiplist.Runs

/-!
# Handlers that add timers

`expire_timer` of `skl-timer.c` runs the handler of the first node and then takes the first node
away. A handler that adds a timer with a score that is not greater puts it before the node that
runs, so the new one is taken away and the handler of the old one runs again.
-/

namespace BackendCpp.Skiplist

open BackendCpp.Library

/-- A call of `add_timer` by a handler. -/
structure Addition where
  /-- The delay. -/
  msec : UInt32
  /-- What `current_time` returns. -/
  clock : UInt32
  /-- The handler. -/
  func : UInt64
  /-- How often the loop of `zslRandomLevel` goes on. -/
  hits : Nat
  /-- Where `malloc` puts the node. -/
  address : Nat
  /-- What `malloc` left in its levels. -/
  memory : Nat → Option Nat

/-- The score of the new timer. -/
def Addition.score (timer : Addition) : UInt64 := (timer.msec + timer.clock).toUInt64

/-- `add_timer`. -/
def addTimer (fuel : Nat) (zsl : Zskiplist) (timer : Addition) : Option Zskiplist :=
  zslInsert fuel zsl timer.score timer.func timer.hits timer.address timer.memory

/-- The list while `expire_timer` runs, with a history. -/
structure Expiry where
  /-- The list. -/
  zsl : Zskiplist
  /-- History: the nodes whose handlers were called, in order. -/
  ran : List Nat
  /-- History: the nodes that were removed after a handler returned, in order. -/
  removed : List Nat
  /-- History: the nodes that the handlers added. -/
  added : List Nat

/-- A pass of the loop of `expire_timer`, in which the handler makes some calls of `add_timer`. The
inner `none` stands for the end of the loop. -/
def expirePass (fuel : Nat) (now : UInt32) (e : Expiry) (timers : List Addition) :
    Option (Option Expiry) :=
  (zslMin e.zsl).bind fun found =>
  match found with
  | none => some none
  | some x =>
    (e.zsl.score x).bind fun score =>
    if now.toUInt64 < score then some none
    else
      (timers.foldlM (addTimer fuel) e.zsl).bind fun zsl =>
      (zslMin zsl).bind fun head =>
      (zslDeleteHead zsl).map fun zsl =>
        some ⟨zsl, e.ran ++ [x], e.removed ++ head.toList,
          e.added ++ timers.map Addition.address⟩

/-- `malloc` gives addresses that are free, and the `int` `length` does not overflow. -/
def Fresh (e : Expiry) (timers : List Addition) : Prop :=
  (timers.map Addition.address).Nodup ∧ (∀ timer ∈ timers, e.zsl.nodes timer.address = none) ∧
    e.zsl.length + timers.length < 2 ^ 31

/-- The timers that the handler of the first node adds are due later than it was. -/
def Later (e : Expiry) (timers : List Addition) : Prop :=
  ∀ x, zslMin e.zsl = some (some x) → ∀ timer ∈ timers, e.zsl.scoreOf x < timer.score

/-- The timers that a handler adds have a delay; the clock does not go back behind `now`, and
nothing wraps. -/
def Delayed (now : UInt32) (timers : List Addition) : Prop :=
  ∀ timer ∈ timers, 0 < timer.msec ∧ now ≤ timer.clock ∧
    timer.msec.toNat + timer.clock.toNat < 2 ^ 32

/-- Such a timer is not due at `now`. -/
theorem Delayed.ahead {now : UInt32} {timers : List Addition} (delayed : Delayed now timers) :
    ∀ timer ∈ timers, now.toUInt64 < timer.score := by
  intro timer member
  obtain ⟨positive, reading, small⟩ := delayed timer member
  have sum : timer.score.toNat = timer.msec.toNat + timer.clock.toNat := by
    rw [Addition.score, UInt32.toNat_toUInt64, UInt32.toNat_add, Nat.mod_eq_of_lt small]
  have first := UInt32.lt_iff_toNat_lt.mp positive
  have second := UInt32.le_iff_toNat_le.mp reading
  rw [UInt32.toNat_zero] at first
  apply UInt64.lt_iff_toNat_lt.mpr
  rw [UInt32.toNat_toUInt64]
  omega

/-- So it is due later than a timer that is. -/
theorem Delayed.later {e : Expiry} {now : UInt32} {timers : List Addition}
    (delayed : Delayed now timers)
    (due : ∀ x, zslMin e.zsl = some (some x) → e.zsl.scoreOf x ≤ now.toUInt64) :
    Later e timers := fun x head timer member =>
  UInt64.lt_of_le_of_lt (due x head) (delayed.ahead timer member)

/-- The nodes that are due at `now`. -/
def Zskiplist.due (zsl : Zskiplist) (now : UInt32) (order : List Nat) : List Nat :=
  order.filter fun x => zsl.scoreOf x ≤ now.toUInt64

/-- A pass that calls a handler. -/
def Pass (now : UInt32) (e : Expiry) (timers : List Addition) (next : Expiry) : Prop :=
  Fresh e timers ∧ Leaves (fun fuel => expirePass fuel now e timers) (some next)

/-- Each node that was removed had just run, no handler ran twice, and every node that was in the
list or was added is still there or has run. -/
def ExactPasses (live : List Nat) (e : Expiry) : Prop :=
  e.removed = e.ran ∧ e.ran.Nodup ∧
    ∃ order, Lists e.zsl order ∧ (order ++ e.ran).Perm (live ++ e.added)

section Place

variable {zsl : Zskiplist} {score : UInt64} {x : Nat} {rest : List Nat}

/-- A first node with a smaller score is passed. -/
theorem before_cons_of_lt (less : zsl.scoreOf x < score) :
    zsl.before (x :: rest) score = x :: zsl.before rest score :=
  List.takeWhile_cons_of_pos (by simpa using less)

/-- The place of the score is behind it. -/
theorem behind_cons_of_lt (less : zsl.scoreOf x < score) :
    zsl.behind (x :: rest) score = zsl.behind rest score :=
  List.dropWhile_cons_of_pos (by simpa using less)

/-- A first node with another score is not passed. -/
theorem before_cons_of_not_lt (less : ¬ zsl.scoreOf x < score) :
    zsl.before (x :: rest) score = [] :=
  List.takeWhile_cons_of_neg (by simpa using less)

/-- The place of the score is before it. -/
theorem behind_cons_of_not_lt (less : ¬ zsl.scoreOf x < score) :
    zsl.behind (x :: rest) score = x :: rest :=
  List.dropWhile_cons_of_neg (by simpa using less)

end Place

/-- Once something stands before a node, it is not the first one. -/
theorem head_ne_of_before {order : List Nat} {x y : Nat} (distinct : order.Nodup)
    (before : [y, x].Sublist order) : order.head? ≠ some x := by
  intro first
  cases order with
  | nil => cases first
  | cons z order =>
    rw [List.head?_cons] at first
    rw [Option.some.inj first] at before distinct
    have fresh := (List.nodup_cons.mp distinct).1
    cases before with
    | cons _ later => exact fresh (later.subset (List.mem_cons_of_mem _ List.mem_cons_self))
    | cons_cons _ later => exact fresh (later.subset List.mem_cons_self)

/-- What the calls of `add_timer` by one handler do: the new nodes join the others, and the first
node stays the first one exactly if they are due later. -/
theorem addTimers_shape (timers : List Addition) : ∀ {zsl : Zskiplist} {order : List Nat},
    Shape zsl order → (timers.map Addition.address).Nodup →
    (∀ timer ∈ timers, zsl.height timer.address = 0) →
    (order.length : Int) + timers.length < 2 ^ 31 →
    ∃ zsl' order', Leaves (fun fuel => timers.foldlM (addTimer fuel) zsl) zsl' ∧
      Shape zsl' order' ∧ order'.Perm (order ++ timers.map Addition.address) ∧
      order.Sublist order' ∧
      (∀ x, 0 < zsl.height x → 0 < zsl'.height x ∧ zsl'.scoreOf x = zsl.scoreOf x) ∧
      (∀ timer ∈ timers, zsl'.scoreOf timer.address = timer.score) ∧
      ∀ x rest, order = x :: rest →
        (order'.head? = some x ↔ ∀ timer ∈ timers, zsl.scoreOf x < timer.score) := by
  induction timers with
  | nil =>
    intro zsl order shape _ _ _
    refine ⟨zsl, order, Leaves.of_forall fun _ => rfl, shape, by simp, List.Sublist.refl order,
      fun _ high => ⟨high, rfl⟩, by simp, ?_⟩
    intro x rest same
    rw [same]
    simp
  | cons timer timers ih =>
    intro zsl order shape distinct free room
    obtain ⟨new, distinct⟩ := List.nodup_cons.mp distinct
    rw [List.length_cons] at room
    obtain ⟨middle, leaves, shape', high, value, others⟩ := zslInsert_shape shape timer.score timer.func
      timer.hits timer.memory (free timer List.mem_cons_self) (by omega)
    have split := before_append_behind zsl order timer.score
    have grown : (zsl.before order timer.score ++
        timer.address :: zsl.behind order timer.score).Perm (timer.address :: order) := by
      have inFront := @List.perm_middle _ timer.address (zsl.before order timer.score)
        (zsl.behind order timer.score)
      rwa [split] at inFront
    have sub : order.Sublist (zsl.before order timer.score ++
        timer.address :: zsl.behind order timer.score) := by
      conv_lhs => rw [← split]
      exact List.Sublist.append_left (List.sublist_cons_self _ _) _
    have apart : ∀ other ∈ timers, other.address ≠ timer.address := fun other member same =>
      new (same ▸ List.mem_map_of_mem member)
    obtain ⟨zsl', order', more, shape'', perm, sub', kept, made, first⟩ := ih shape' distinct
      (fun other member => (others other.address (apart other member)).1.trans
        (free other (List.mem_cons_of_mem _ member)))
      (by rw [grown.length_eq, List.length_cons]; push_cast; omega)
    have absent := shape.absent (free timer List.mem_cons_self)
    refine ⟨zsl', order', ?_, shape'', ?_, sub.trans sub', ?_, ?_, ?_⟩
    · simp only [List.foldlM_cons]
      exact leaves.bind more
    · refine perm.trans ((grown.append_right _).trans ?_)
      rw [List.map_cons]
      exact List.perm_middle.symm
    · intro x node
      have different : x ≠ timer.address := by
        intro same
        rw [same, free timer List.mem_cons_self] at node
        exact lt_irrefl 0 node
      rw [← (others x different).1] at node
      rw [← (others x different).2]
      exact kept x node
    · intro other member
      cases List.mem_cons.mp member with
      | inl here => rw [here, (kept _ high).2, value]
      | inr later => exact made other later
    · intro x rest same
      have different : x ≠ timer.address := by
        intro equal
        rw [same, equal] at absent
        exact absent (List.mem_cons_of_mem _ List.mem_cons_self)
      rw [List.forall_mem_cons]
      by_cases less : zsl.scoreOf x < timer.score
      · have stays : zsl.before order timer.score ++ timer.address :: zsl.behind order timer.score =
            x :: (zsl.before rest timer.score ++ timer.address :: zsl.behind rest timer.score) := by
          rw [same, before_cons_of_lt less, behind_cons_of_lt less]
          rfl
        rw [first x _ stays, (others x different).2]
        exact ⟨fun later => ⟨less, later⟩, fun both => both.2⟩
      · have behind : zsl.before order timer.score ++ timer.address :: zsl.behind order timer.score =
            timer.address :: x :: rest := by
          rw [same, before_cons_of_not_lt less, behind_cons_of_not_lt less]
          rfl
        have distinct' := (List.nodup_cons.mp shape''.distinct).2
        rw [behind] at sub'
        have pair : [timer.address, x].Sublist order' := by
          refine List.Sublist.trans ?_ sub'
          exact List.Sublist.cons_cons _ (List.Sublist.cons_cons _ (List.nil_sublist rest))
        exact ⟨fun head => absurd head (head_ne_of_before distinct' pair),
          fun both => absurd both.1 less⟩

/-- Nodes that are not due do not change which ones are. -/
theorem due_of_added {zsl zsl' : Zskiplist} {now : UInt32} {order order' added : List Nat}
    (sub : order.Sublist order') (perm : order'.Perm (order ++ added))
    (kept : ∀ x ∈ order, zsl'.scoreOf x = zsl.scoreOf x)
    (ahead : ∀ x ∈ added, now.toUInt64 < zsl'.scoreOf x) :
    zsl'.due now order' = zsl.due now order := by
  have old : zsl'.due now order = zsl.due now order := by
    apply List.filter_congr
    intro x member
    rw [kept x member]
  have none : zsl'.due now added = [] := by
    apply List.filter_eq_nil_iff.mpr
    intro x member less
    exact UInt64.not_le.mpr (ahead x member) (of_decide_eq_true less)
  have size : (zsl'.due now order).length = (zsl'.due now order').length := by
    have same := (perm.filter fun x => zsl'.scoreOf x ≤ now.toUInt64).length_eq
    rw [List.filter_append, List.length_append] at same
    change (zsl'.due now order').length =
      (zsl'.due now order).length + (zsl'.due now added).length at same
    rw [same, none, List.length_nil, Nat.add_zero]
  rw [← old]
  exact ((sub.filter _).eq_of_length size).symm

/-- What holds between the passes. -/
structure Passed (live : List Nat) (e : Expiry) (order : List Nat) : Prop where
  /-- The list has its shape. -/
  shape : Shape e.zsl order
  /-- The nodes that were removed had run. -/
  removed : e.removed = e.ran
  /-- No node is lost. -/
  nodes : (order ++ e.ran).Perm (live ++ e.added)
  /-- No node is there twice. -/
  distinct : (order ++ e.ran).Nodup
  /-- The nodes that have run keep their memory. -/
  memory : ∀ x ∈ e.ran, 0 < e.zsl.height x

/-- What holds between the passes says that they were exact. -/
theorem Passed.exactPasses {live : List Nat} {e : Expiry} {order : List Nat}
    (passed : Passed live e order) : ExactPasses live e :=
  ⟨passed.removed, (List.nodup_append.mp passed.distinct).2.1, order, passed.shape.lists,
    passed.nodes⟩

/-- The nodes that one pass of the loop brings together are all different. -/
theorem Passed.distinct_added {live : List Nat} {e : Expiry} {order : List Nat}
    (passed : Passed live e order) {timers : List Addition} (fresh : Fresh e timers) :
    (order ++ e.ran ++ timers.map Addition.address).Nodup := by
  refine List.nodup_append.mpr ⟨passed.distinct, fresh.1, ?_⟩
  intro x member y added same
  obtain ⟨timer, inside, rfl⟩ := List.mem_map.mp added
  have none := height_eq_zero (fresh.2.1 timer inside)
  rw [← same] at none
  have node : 0 < e.zsl.height x := by
    cases List.mem_append.mp member with
    | inl listed => exact passed.shape.low x listed
    | inr ran => exact passed.memory x ran
  omega

/-- A pass in which the first node stays the first one until it is removed. -/
theorem Passed.next {live : List Nat} {e next : Expiry} {x : Nat} {rest order' : List Nat}
    (passed : Passed live e (x :: rest)) {timers : List Addition} (fresh : Fresh e timers)
    (shape : Shape next.zsl order') (ran : next.ran = e.ran ++ [x])
    (removed : next.removed = e.removed ++ [x])
    (added : next.added = e.added ++ timers.map Addition.address)
    (perm : (x :: order').Perm (x :: rest ++ timers.map Addition.address))
    (memory : ∀ y, 0 < e.zsl.height y → 0 < next.zsl.height y) : Passed live next order' := by
  have moved : (order' ++ next.ran).Perm (x :: rest ++ e.ran ++ timers.map Addition.address) := by
    calc (order' ++ next.ran).Perm (x :: order' ++ e.ran) := by
          rw [ran, ← List.append_assoc]
          exact List.perm_append_singleton x _
      _ |>.Perm (x :: rest ++ timers.map Addition.address ++ e.ran) := perm.append_right _
      _ |>.Perm (x :: rest ++ e.ran ++ timers.map Addition.address) := by
          rw [List.append_assoc, List.append_assoc]
          exact List.perm_append_comm.append_left _
  refine ⟨shape, ?_, ?_, ?_, ?_⟩
  · rw [removed, ran, passed.removed]
  · rw [added, ← List.append_assoc]
    exact moved.trans (passed.nodes.append_right _)
  · exact moved.nodup_iff.mpr (passed.distinct_added fresh)
  · intro y member
    rw [ran] at member
    apply memory
    cases List.mem_append.mp member with
    | inl before => exact passed.memory y before
    | inr here =>
      rw [List.mem_singleton.mp here]
      exact passed.shape.low x List.mem_cons_self

/-- A pass returns, and the loop ends exactly if no timer is due. Otherwise the node that ran is
removed exactly if the timers that its handler adds are due later, and then no node is lost; when
the new timers are not due, the others stay due. -/
theorem expirePass_spec {live : List Nat} {e : Expiry} {order : List Nat}
    (passed : Passed live e order) (now : UInt32) {timers : List Addition}
    (fresh : Fresh e timers) :
    ∃ result, Leaves (fun fuel => expirePass fuel now e timers) result ∧
      (result = none ↔ ∀ x, zslMin e.zsl = some (some x) → now.toUInt64 < e.zsl.scoreOf x) ∧
      ∀ next, result = some next → (∃ x, next.ran = e.ran ++ [x]) ∧
        (next.removed = next.ran ↔ Later e timers) ∧
        (Later e timers → ∃ order', Passed live next order' ∧
          ((∀ timer ∈ timers, now.toUInt64 < timer.score) →
            next.ran ++ next.zsl.due now order' = e.ran ++ e.zsl.due now order)) := by
  have least := zslMin_eq passed.shape
  cases order with
  | nil =>
    refine ⟨none, Leaves.of_forall fun fuel => ?_, ⟨fun _ x impossible => ?_, fun _ => rfl⟩,
      fun next impossible => by cases impossible⟩
    · simp only [expirePass, least, Option.bind_some, List.head?_nil]
    · rw [least] at impossible
      cases impossible
  | cons x rest =>
    have score := score_eq (passed.shape.low x List.mem_cons_self)
    have only : ∀ y, zslMin e.zsl = some (some y) → y = x := by
      intro y head
      rw [least, List.head?_cons] at head
      exact (Option.some.inj (Option.some.inj head)).symm
    by_cases early : now.toUInt64 < e.zsl.scoreOf x
    · refine ⟨none, Leaves.of_forall fun fuel => ?_, ⟨fun _ y head => ?_, fun _ => rfl⟩,
        fun next impossible => by cases impossible⟩
      · simp only [expirePass, least, score, Option.bind_some, List.head?_cons, if_pos early]
      · rw [only y head]
        exact early
    · obtain ⟨distinct, free, room⟩ := fresh
      rw [passed.shape.length] at room
      obtain ⟨zsl, order', leaves, shape, perm, sub, kept, made, first⟩ := addTimers_shape timers
        passed.shape distinct (fun timer member => height_eq_zero (free timer member)) room
      obtain ⟨zsl', deleted, shape', height, scoreOf⟩ := zslDeleteHead_shape shape
      have later : order'.head? = some x ↔ Later e timers := by
        rw [first x rest rfl]
        refine ⟨fun due y head => ?_, fun due => due x least⟩
        rw [only y head]
        exact due
      refine ⟨some ⟨zsl', e.ran ++ [x], e.removed ++ order'.head?.toList,
        e.added ++ timers.map Addition.address⟩, ?_,
        ⟨fun impossible => (by cases impossible), fun due => absurd (due x least) early⟩, ?_⟩
      · simp only [expirePass, least, score, Option.bind_some, List.head?_cons, if_neg early]
        apply leaves.bind
        apply Leaves.of_forall
        intro fuel
        simp only [zslMin_eq shape, deleted, Option.bind_some, Option.map_some]
      · intro next same
        rw [← Option.some.inj same, ← later]
        refine ⟨⟨x, rfl⟩, ?_, ?_⟩
        · change e.removed ++ order'.head?.toList = e.ran ++ [x] ↔ _
          rw [passed.removed, List.append_right_inj]
          cases order'.head? with
          | none => simp
          | some y => simp
        · intro head
          obtain ⟨others, list⟩ : ∃ others, order' = x :: others := by
            cases order' with
            | nil => cases head
            | cons y others =>
              rw [List.head?_cons] at head
              exact ⟨others, by rw [Option.some.inj head]⟩
          have remain : (∀ timer ∈ timers, now.toUInt64 < timer.score) →
              zsl.due now order' = e.zsl.due now (x :: rest) := by
            intro ahead
            refine due_of_added sub perm (fun y member => (kept y (passed.shape.low y member)).2) ?_
            intro y member
            obtain ⟨timer, inside, rfl⟩ := List.mem_map.mp member
            rw [made timer inside]
            exact ahead timer inside
          rw [list] at shape' perm remain
          refine ⟨others, passed.next ⟨distinct, free, ?_⟩ shape' rfl ?_ rfl perm ?_, ?_⟩
          · rw [passed.shape.length]
            exact room
          · rw [head]
            rfl
          · intro y node
            change 0 < zsl'.height y
            rw [height]
            exact (kept y node).1
          · intro ahead
            have here : zsl.scoreOf x ≤ now.toUInt64 := by
              rw [(kept x (passed.shape.low x List.mem_cons_self)).2]
              exact UInt64.not_lt.mp early
            have served : zsl.due now (x :: others) = x :: zsl'.due now others := by
              rw [Zskiplist.due, Zskiplist.due, scoreOf]
              exact List.filter_cons_of_pos (decide_eq_true here)
            rw [← remain ahead, served]
            exact List.append_assoc e.ran [x] _

/-- What holds before the first pass over a list that a run left. -/
theorem passed_of_run {header : Nat} {trace : List Call} {s : System}
    (run : Run Step ⟨zslCreate header, []⟩ trace s) :
    ∃ order, Passed s.live ⟨s.zsl, [], [], []⟩ order := by
  obtain ⟨order, perm, shape⟩ := sound_of_run run
  refine ⟨order, shape, rfl, ?_, ?_, by simp⟩
  · simpa using perm
  · rw [List.append_nil]
    exact (List.nodup_cons.mp shape.distinct).2

/-- In every run of `expire_timer` over a list that a run left, in which the timers that a handler
adds are due later than the one that runs, the nodes that are removed are those that ran, each of
them once, and no node is lost; and every further pass returns and removes the node that ran exactly
if its handler adds timers that are due later only. -/
theorem expire_exact {header : Nat} {trace : List Call} {s : System}
    (run : Run Step ⟨zslCreate header, []⟩ trace s) {now : UInt32} {passes : List (List Addition)}
    {e : Expiry} (expire : Run (fun e timers next => Pass now e timers next ∧ Later e timers)
      ⟨s.zsl, [], [], []⟩ passes e) :
    ExactPasses s.live e ∧ ∀ timers, Fresh e timers →
      ∃ result, Leaves (fun fuel => expirePass fuel now e timers) result ∧
        ∀ next, result = some next → (next.removed = next.ran ↔ Later e timers) := by
  obtain ⟨start, begun⟩ := passed_of_run run
  have sound : ∃ order, Passed s.live e order := by
    refine expire.invariant (fun e => ∃ order, Passed s.live e order) ⟨start, begun⟩ ?_
    rintro state timers next ⟨order, passed⟩ ⟨⟨fresh, leaves⟩, later⟩
    obtain ⟨result, leaves', spec⟩ := expirePass_spec passed now fresh
    obtain ⟨order', passed', _⟩ := (spec.2 next (leaves'.unique leaves)).2.2 later
    exact ⟨order', passed'⟩
  obtain ⟨order, passed⟩ := sound
  refine ⟨passed.exactPasses, fun timers fresh => ?_⟩
  obtain ⟨result, leaves, spec⟩ := expirePass_spec passed now fresh
  exact ⟨result, leaves, fun next same => (spec.2 next same).2.1⟩

/-- A pass that was executed under one fuel. -/
theorem leaves_expirePass {fuel : Nat} {now : UInt32} {e : Expiry} {timers : List Addition}
    {result : Option Expiry} (returned : expirePass fuel now e timers = some result) :
    Leaves (fun fuel => expirePass fuel now e timers) result := by
  have added : ∀ (timers : List Addition) (zsl zsl' : Zskiplist),
      timers.foldlM (addTimer fuel) zsl = some zsl' →
      Leaves (fun fuel => timers.foldlM (addTimer fuel) zsl) zsl' := by
    intro timers
    induction timers with
    | nil => exact fun zsl zsl' same => Leaves.of_forall fun _ => same
    | cons timer timers ih =>
      intro zsl zsl' done
      obtain ⟨between, first, rest⟩ := Option.bind_eq_some_iff.mp done
      exact Leaves.bind (leaves_zslInsert first) (ih between zsl' rest)
  obtain ⟨found, least, rest⟩ := Option.bind_eq_some_iff.mp returned
  cases found with
  | none =>
    refine Leaves.of_forall fun fuel => ?_
    simp only [expirePass, least, Option.bind_some]
    exact rest
  | some x =>
    obtain ⟨score, read, rest⟩ := Option.bind_eq_some_iff.mp rest
    simp only [expirePass, least, read, Option.bind_some]
    split_ifs at rest ⊢ with early
    · exact Leaves.of_forall fun _ => rest
    · obtain ⟨zsl, grown, rest⟩ := Option.bind_eq_some_iff.mp rest
      exact (added timers e.zsl zsl grown).bind (Leaves.of_forall fun _ => rest)

/-- Whether a handler may add these timers. -/
def mayAdd (e : Expiry) (timers : List Addition) : Bool :=
  decide (timers.map Addition.address).Nodup &&
    (timers.all fun timer => (e.zsl.nodes timer.address).isNone) &&
    decide (e.zsl.length + timers.length < 2 ^ 31)

/-- Whether they are due later than the first node. -/
def areLater (e : Expiry) (timers : List Addition) : Bool :=
  match zslMin e.zsl with
  | some (some x) => timers.all fun timer => e.zsl.scoreOf x < timer.score
  | _ => true

/-- The first test. -/
theorem later_of_test {e : Expiry} {timers : List Addition} (later : areLater e timers = true) :
    Later e timers := by
  intro x least timer member
  rw [areLater, least] at later
  exact of_decide_eq_true (List.all_eq_true.mp later timer member)

/-- Passes that were tested and executed are a run of `expire_timer`. -/
theorem expire_of_exec {fuel : Nat} {now : UInt32} {start e : Expiry} {passes : List (List Addition)}
    {test : Expiry → List Addition → Bool} {holds : Expiry → List Addition → Prop}
    (sound : ∀ e timers, test e timers = true → holds e timers)
    (done : passes.foldlM (fun e timers => if (mayAdd e timers && test e timers) = true then
      (expirePass fuel now e timers).join else none) start = some e) :
    Run (fun e timers next => Pass now e timers next ∧ holds e timers) start passes e := by
  apply (Run.of_tested done).mono
  intro state timers next taken
  obtain ⟨fresh, tested⟩ := (Bool.and_eq_true _ _).mp taken.2
  obtain ⟨fresh, room⟩ := (Bool.and_eq_true _ _).mp fresh
  obtain ⟨distinct, free⟩ := (Bool.and_eq_true _ _).mp fresh
  refine ⟨⟨⟨of_decide_eq_true distinct, ?_, of_decide_eq_true room⟩,
    leaves_expirePass (Option.join_eq_some_iff.mp taken.1)⟩, sound _ _ tested⟩
  intro timer member
  exact Option.isNone_iff_eq_none.mp (List.all_eq_true.mp free timer member)

/-- The handlers of the nodes at 11 and 20 add timers; the one at 20 is due at the same time as the
node at 8, and goes before it. -/
theorem expire_exact_staged : ∃ s e, Run Step ⟨zslCreate 0, []⟩ staged s ∧
    Run (fun e timers next => Pass 9 e timers next ∧ Later e timers) ⟨s.zsl, [], [], []⟩
      [[⟨3, 6, 0, 0, 20, fun _ => none⟩], [], [⟨3, 9, 0, 1, 21, fun _ => none⟩], []] e ∧
    e.ran = [11, 7, 20, 8] ∧ e.added = [20, 21] ∧ ExactPasses s.live e := by
  have ends : (staged.foldlM (fun s call => if call.allowed s = true then s.exec 9 call else none)
      ⟨zslCreate 0, []⟩).any (fun s : System =>
        ([[⟨3, 6, 0, 0, 20, fun _ => none⟩], [], [⟨3, 9, 0, 1, 21, fun _ => none⟩], []].foldlM
          (fun e timers => if (mayAdd e timers && areLater e timers) = true then
            (expirePass 9 9 e timers).join else none)
          (⟨s.zsl, [], [], []⟩ : Expiry)).any fun e : Expiry =>
            e.ran = [11, 7, 20, 8] ∧ e.added = [20, 21]) = true := by
    decide +kernel
  obtain ⟨s, done, found⟩ := (Option.any_eq_true _ _).mp ends
  obtain ⟨e, passed, facts⟩ := (Option.any_eq_true _ _).mp found
  obtain ⟨ran, added⟩ := of_decide_eq_true facts
  have run := run_of_exec done
  have expire := expire_of_exec (fun _ _ => later_of_test) passed
  exact ⟨s, e, run, expire, ran, added, (expire_exact run expire).1⟩

/-- A pass whose handler adds timers with a delay moves the first of the due nodes to those that
ran, and removes it. -/
theorem Passed.delayed {live : List Nat} {e next : Expiry} {order : List Nat}
    (passed : Passed live e order) {now : UInt32} {timers : List Addition}
    (delayed : Delayed now timers) (fresh : Fresh e timers)
    (leaves : Leaves (fun fuel => expirePass fuel now e timers) (some next)) :
    (∃ x, next.ran = e.ran ++ [x]) ∧ next.removed = next.ran ∧ ∃ order', Passed live next order' ∧
      next.ran ++ next.zsl.due now order' = e.ran ++ e.zsl.due now order := by
  obtain ⟨result, leaves', ends, spec⟩ := expirePass_spec passed now fresh
  obtain rfl := leaves'.unique leaves
  obtain ⟨more, exact', serves⟩ := spec next rfl
  have due : ∀ x, zslMin e.zsl = some (some x) → e.zsl.scoreOf x ≤ now.toUInt64 := by
    intro x head
    -- were it not due, the loop would have ended
    refine UInt64.not_lt.mp fun early => absurd (ends.mpr fun y head' => ?_) nofun
    rw [head] at head'
    rwa [← Option.some.inj (Option.some.inj head')]
  have later := delayed.later due
  obtain ⟨order', passed', same⟩ := serves later
  exact ⟨more, exact'.mpr later, order', passed', same delayed.ahead⟩

/-- The handler of the only node adds a timer without delay in the millisecond in which the node is
due: the new node is removed, and the handler of the old one runs again. -/
theorem expire_twice : ∃ zsl e e', zslInsert 9 (zslCreate 0) 5 0 0 7 (fun _ => none) = some zsl ∧
    expirePass 9 5 ⟨zsl, [], [], []⟩ [⟨0, 5, 0, 0, 8, fun _ => none⟩] = some (some e) ∧
    e.ran = [7] ∧ e.removed = [8] ∧ expirePass 9 5 e [] = some (some e') ∧ e'.ran = [7, 7] := by
  have found : (zslInsert 9 (zslCreate 0) 5 0 0 7 fun _ => none).any (fun zsl =>
      (expirePass 9 5 ⟨zsl, [], [], []⟩ [⟨0, 5, 0, 0, 8, fun _ => none⟩]).any fun result =>
        result.any fun e => e.ran = [7] ∧ e.removed = [8] ∧
          (expirePass 9 5 e []).any fun result => result.any fun e' => e'.ran = [7, 7]) = true := by
    decide
  obtain ⟨zsl, inserted, found⟩ := (Option.any_eq_true _ _).mp found
  obtain ⟨_, first, found⟩ := (Option.any_eq_true _ _).mp found
  obtain ⟨e, rfl, found⟩ := (Option.any_eq_true _ _).mp found
  obtain ⟨ran, removed, found⟩ := of_decide_eq_true found
  obtain ⟨_, second, found⟩ := (Option.any_eq_true _ _).mp found
  obtain ⟨e', rfl, again⟩ := (Option.any_eq_true _ _).mp found
  exact ⟨zsl, e, e', inserted, first, ran, removed, second, of_decide_eq_true again⟩

end BackendCpp.Skiplist
