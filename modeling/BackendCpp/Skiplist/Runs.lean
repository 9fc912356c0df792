import BackendCpp.Library.Run
import BackendCpp.Skiplist.Deletion
import BackendCpp.Skiplist.Insertion

/-!
# Runs of insertions and deletions

A caller inserts nodes, deletes nodes that are still in the list, and takes the first node
away. Beside the list stand the nodes that were inserted and have not left it. In every run
every level is what it has to be.
-/

namespace BackendCpp.Skiplist

open BackendCpp.Library

/-- A list and the nodes that were inserted and not removed. -/
structure System where
  /-- The list. -/
  zsl : Zskiplist
  /-- The nodes that were inserted and not removed. -/
  live : List Nat

/-- The calls of a run. -/
inductive Call
  /-- `zslInsert`. -/
  | insert (score func : UInt64) (hits address : Nat) (memory : Nat → Option Nat)
  /-- `zslDelete` of a node. -/
  | delete (zn : Nat)
  /-- `zslDeleteHead`. -/
  | deleteHead

/-- The system after a call. The node that a deletion removes is the one that it frees, and
for `zslDeleteHead` the one that `zslMin` returns. -/
def System.exec (fuel : Nat) (s : System) : Call → Option System
  | .insert score func hits address memory =>
    (zslInsert fuel s.zsl score func hits address memory).map fun zsl =>
      ⟨zsl, address :: s.live⟩
  | .delete zn =>
    (zslDelete fuel s.zsl zn).map fun result =>
      ⟨result.1, result.2.elim s.live fun x => s.live.erase x⟩
  | .deleteHead =>
    (zslMin s.zsl).bind fun head =>
    (zslDeleteHead s.zsl).map fun zsl => ⟨zsl, head.elim s.live fun x => s.live.erase x⟩

/-- The calls that a caller may make: `malloc` gives an address that is free and the `int`
`length` does not overflow; the node that is to be deleted is still in the list. -/
def Allowed (s : System) : Call → Prop
  | .insert _ _ _ address _ => s.zsl.nodes address = none ∧ (s.live.length : Int) + 1 < 2 ^ 31
  | .delete zn => zn ∈ s.live
  | .deleteHead => True

/-- A call that is allowed returns. -/
def Step (s : System) (call : Call) (next : System) : Prop :=
  Allowed s call ∧ Leaves (fun fuel => s.exec fuel call) next

/-- The list is well formed and contains the nodes. -/
structure WellFormed (zsl : Zskiplist) (live : List Nat) : Prop where
  /-- The chains of the levels: the lowest has every node once, in the order of the scores,
  the others are the nodes that are higher, in the same order. -/
  chains : ∃ order, order.Perm live ∧ order.Nodup ∧
    (order.Pairwise fun x y => zsl.scoreOf x ≤ zsl.scoreOf y) ∧
    Follows (zsl.next 0) (zsl.header :: order) ∧
    ∀ i, 1 ≤ i → i < ZSKIPLIST_MAXLEVEL →
      Follows (zsl.next i) (zsl.header :: order.filter fun x => i < zsl.height x)
  /-- The levels that are not in use are empty. -/
  unused : ∀ i, zsl.level ≤ i → i < ZSKIPLIST_MAXLEVEL → zsl.forward zsl.header i = some none
  /-- The level is the greatest height, or 1. -/
  level : (∀ x ∈ live, zsl.height x ≤ zsl.level) ∧
    (zsl.level = 1 ∨ ∃ x ∈ live, zsl.height x = zsl.level)
  /-- The number of nodes. -/
  length : zsl.length = live.length
  /-- `zslMin` returns a node of least score, or `NULL` when there is none. -/
  least : ∃ head, zslMin zsl = some head ∧ (head = none ↔ live = []) ∧
    ∀ x, head = some x → x ∈ live ∧ ∀ y ∈ live, zsl.scoreOf x ≤ zsl.scoreOf y

/-- A list with its shape is well formed. -/
theorem Shape.wellFormed {zsl : Zskiplist} {order live : List Nat} (shape : Shape zsl order)
    (perm : order.Perm live) : WellFormed zsl live := by
  have lowest := shape.chain 0 (by decide)
  rw [shape.tall_zero] at lowest
  have readable : ∀ i, i < ZSKIPLIST_MAXLEVEL → i < zsl.height zsl.header := by
    intro i below
    rw [shape.header]
    exact below
  refine ⟨⟨order, perm, (List.nodup_cons.mp shape.distinct).2, shape.sorted, lowest, ?_⟩, ?_,
    ⟨?_, ?_⟩, ?_, ?_⟩
  · intro i _ below
    exact shape.chain i below
  · intro i above below
    have empty : zsl.tall i order = [] := by
      apply List.filter_eq_nil_iff.mpr
      intro x member
      have low := shape.covers x member
      rw [decide_eq_true_eq]
      omega
    have first := (shape.chain i below).1
    rw [empty] at first
    rw [forward_eq (readable i below), first]
    rfl
  · intro x member
    exact shape.covers x (perm.mem_iff.mpr member)
  · rcases shape.reached with one | ⟨x, member, reached⟩
    · exact Or.inl one
    · exact Or.inr ⟨x, perm.mem_iff.mp member, reached⟩
  · rw [shape.length, perm.length_eq]
  · refine ⟨order.head?, zslMin_eq shape, ?_, ?_⟩
    · rw [List.head?_eq_none_iff]
      constructor
      · intro empty
        rw [empty] at perm
        exact perm.nil_eq.symm
      · intro empty
        rw [empty] at perm
        exact perm.eq_nil
    · intro x first
      cases order with
      | nil => cases first
      | cons y order =>
        rw [List.head?_cons] at first
        rw [← Option.some.inj first]
        refine ⟨perm.mem_iff.mp List.mem_cons_self, ?_⟩
        intro z member
        rcases List.mem_cons.mp (perm.mem_iff.mpr member) with here | later
        · rw [here]
          exact UInt64.le_refl _
        · exact (List.pairwise_cons.mp shape.sorted).1 z later

/-- What a call does to the nodes: an insertion adds its node, a deletion removes exactly one
node, with the score of the node that is to be deleted or with the least score. -/
def Effect (s next : System) : Call → Prop
  | .insert _ _ _ address _ => next.live = address :: s.live
  | .delete zn => ∃ x ∈ s.live, s.zsl.scoreOf x = s.zsl.scoreOf zn ∧ next.live = s.live.erase x
  | .deleteHead => s.live = [] ∧ next.live = [] ∨
      ∃ x ∈ s.live, (∀ y ∈ s.live, s.zsl.scoreOf x ≤ s.zsl.scoreOf y) ∧
        next.live = s.live.erase x

/-- What holds between the calls. -/
def Sound (s : System) : Prop := ∃ order, order.Perm s.live ∧ Shape s.zsl order

/-- The list that `zslCreate` returns. -/
theorem create_shape (header : Nat) : Shape (zslCreate header) [] := by
  have height : (zslCreate header).height header = ZSKIPLIST_MAXLEVEL := by
    simp [Zskiplist.height, zslCreate]
  refine ⟨height, ?_, ?_, List.nodup_singleton header, List.Pairwise.nil, ?_, Nat.one_pos, ?_,
    Or.inl rfl, rfl⟩
  · intro x member
    cases member
  · intro x member
    cases member
  · intro i _
    refine ⟨?_, trivial⟩
    simp [Zskiplist.next, zslCreate, Zskiplist.tall]
  · intro x member
    cases member

/-- An allowed call returns, does what it has to do, and leaves a sound list. -/
theorem step_sound {s : System} (sound : Sound s) {call : Call} (allowed : Allowed s call) :
    ∃ next, Leaves (fun fuel => s.exec fuel call) next ∧ Effect s next call ∧ Sound next := by
  obtain ⟨order, perm, shape⟩ := sound
  cases call with
  | insert score func hits address memory =>
    obtain ⟨free, room⟩ := allowed
    rw [← perm.length_eq] at room
    obtain ⟨zsl', leaves, result, _⟩ := zslInsert_shape shape score func hits memory
      (height_eq_zero free) room
    refine ⟨⟨zsl', address :: s.live⟩, leaves.map _, rfl, _, ?_, result⟩
    · refine List.perm_middle.trans (List.Perm.cons address ?_)
      rw [before_append_behind]
      exact perm
  | delete zn =>
    have present : zn ∈ order := perm.mem_iff.mpr allowed
    obtain ⟨zsl', x, leaves, member, equal, result, _⟩ := zslDelete_shape shape present
    refine ⟨⟨zsl', s.live.erase x⟩, ?_, ⟨x, perm.mem_iff.mp member, equal, rfl⟩, _,
      perm.erase x, result⟩
    exact leaves.map fun result : Zskiplist × Option Nat =>
      (⟨result.1, result.2.elim s.live fun x => s.live.erase x⟩ : System)
  | deleteHead =>
    obtain ⟨zsl', done, result, _⟩ := zslDeleteHead_shape shape
    have found := zslMin_eq shape
    refine ⟨⟨zsl', order.head?.elim s.live fun x => s.live.erase x⟩, ?_, ?_, _, ?_, result⟩
    · apply Leaves.of_forall
      intro fuel
      simp only [System.exec, found, done, Option.bind_some, Option.map_some]
    · obtain ⟨head, found', empty, least⟩ := (shape.wellFormed perm).least
      have same : head = order.head? := Option.some.inj (found'.symm.trans found)
      rw [← same]
      cases head with
      | none => exact Or.inl ⟨empty.mp rfl, empty.mp rfl⟩
      | some x => exact Or.inr ⟨x, (least x rfl).1, (least x rfl).2, rfl⟩
    · cases order with
      | nil => exact perm
      | cons x order =>
        have rest := perm.erase x
        rw [List.erase_cons_head] at rest
        exact rest

/-- In every run the list is sound. -/
theorem sound_of_run {header : Nat} {trace : List Call} {s : System}
    (run : Run Step ⟨zslCreate header, []⟩ trace s) : Sound s := by
  apply run.invariant Sound ⟨[], List.Perm.refl [], create_shape header⟩
  intro state call next sound taken
  obtain ⟨next', leaves, _, sound'⟩ := step_sound sound taken.1
  rw [taken.2.unique leaves]
  exact sound'

/-- In every run the list is well formed, and every call that is allowed returns; an insertion
adds its node, and a deletion removes exactly one node. -/
theorem run_wellFormed {header : Nat} {trace : List Call} {s : System}
    (run : Run Step ⟨zslCreate header, []⟩ trace s) :
    WellFormed s.zsl s.live ∧ ∀ call, Allowed s call →
      (∃ next, Step s call next) ∧ ∀ next, Step s call next → Effect s next call := by
  obtain ⟨order, perm, shape⟩ := sound_of_run run
  refine ⟨shape.wellFormed perm, ?_⟩
  intro call allowed
  obtain ⟨next, leaves, effect, _⟩ := step_sound ⟨order, perm, shape⟩ allowed
  refine ⟨⟨next, allowed, leaves⟩, ?_⟩
  intro next' taken
  rw [taken.2.unique leaves]
  exact effect

/-- A level that was followed under one fuel. -/
theorem leaves_advance {fuel : Nat} {zsl : Zskiplist} {score : UInt64} {i x y : Nat}
    (returned : advance fuel zsl score i x = some y) :
    Leaves (fun fuel => advance fuel zsl score i x) y := by
  obtain ⟨place, followed, same⟩ := Option.bind_eq_some_iff.mp returned
  exact (leaves_of_loop followed).bind (Leaves.of_forall fun _ => same)

/-- A search that returned under one fuel. -/
theorem leaves_search {fuel : Nat} {zsl : Zskiplist} {score : UInt64} {i x : Nat}
    {update : Nat → Option Nat} {found : Nat × (Nat → Option Nat)}
    (returned : search fuel zsl score i x update = some found) :
    Leaves (fun fuel => search fuel zsl score i x update) found := by
  induction i generalizing x update with
  | zero => exact Leaves.of_forall fun _ => returned
  | succ i ih =>
    obtain ⟨y, followed, below⟩ := Option.bind_eq_some_iff.mp returned
    exact (leaves_advance followed).bind (ih below)

/-- An insertion that returned under one fuel. -/
theorem leaves_zslInsert {fuel : Nat} {zsl zsl' : Zskiplist} {score func : UInt64}
    {hits address : Nat} {memory : Nat → Option Nat}
    (returned : zslInsert fuel zsl score func hits address memory = some zsl') :
    Leaves (fun fuel => zslInsert fuel zsl score func hits address memory) zsl' := by
  obtain ⟨found, searched, linked⟩ := Option.bind_eq_some_iff.mp returned
  exact (leaves_search searched).bind (Leaves.of_forall fun _ => linked)

/-- A deletion that returned under one fuel. -/
theorem leaves_zslDelete {fuel : Nat} {zsl : Zskiplist} {zn : Nat} {result : Zskiplist × Option Nat}
    (returned : zslDelete fuel zsl zn = some result) :
    Leaves (fun fuel => zslDelete fuel zsl zn) result := by
  obtain ⟨score, read, rest⟩ := Option.bind_eq_some_iff.mp returned
  obtain ⟨found, searched, unlinked⟩ := Option.bind_eq_some_iff.mp rest
  exact (Leaves.of_forall fun _ => read).bind
    ((leaves_search searched).bind (Leaves.of_forall fun _ => unlinked))

/-- A call that was executed under one fuel. -/
theorem leaves_exec {fuel : Nat} {s next : System} {call : Call}
    (done : s.exec fuel call = some next) : Leaves (fun fuel => s.exec fuel call) next := by
  cases call with
  | insert score func hits address memory =>
    obtain ⟨zsl, returned, rfl⟩ := Option.map_eq_some_iff.mp done
    exact (leaves_zslInsert returned).map _
  | delete zn =>
    obtain ⟨result, returned, rfl⟩ := Option.map_eq_some_iff.mp done
    exact (leaves_zslDelete returned).map _
  | deleteHead => exact Leaves.of_forall fun _ => done

/-- Whether a caller may make the call. -/
def Call.allowed (s : System) : Call → Bool
  | .insert _ _ _ address _ =>
    (s.zsl.nodes address).isNone && decide ((s.live.length : Int) + 1 < 2 ^ 31)
  | .delete zn => decide (zn ∈ s.live)
  | .deleteHead => true

/-- Calls that were tested and executed are a run. -/
theorem run_of_exec {fuel : Nat} {start s : System} {trace : List Call}
    (done : trace.foldlM (fun s call => if call.allowed s = true then s.exec fuel call else none)
      start = some s) : Run Step start trace s := by
  apply (Run.of_tested done).mono
  intro state call next taken
  refine ⟨?_, leaves_exec taken.1⟩
  cases call with
  | insert score func hits address memory =>
    obtain ⟨free, room⟩ := (Bool.and_eq_true _ _).mp taken.2
    exact ⟨Option.isNone_iff_eq_none.mp free, of_decide_eq_true room⟩
  | delete zn =>
    have member : zn ∈ state.live := of_decide_eq_true taken.2
    exact member
  | deleteHead => trivial

/-- Three nodes, the first and the last with one score. -/
def staged : List Call :=
  [.insert 5 0 2 7 fun _ => none, .insert 9 0 0 8 fun _ => none, .insert 5 0 1 11 fun _ => none]

/-- The node that was inserted last is the first one. -/
theorem staged_run : ∃ s, Run Step ⟨zslCreate 0, []⟩ staged s ∧ s.zsl.header = 0 ∧
    s.live = [11, 8, 7] ∧ Follows (s.zsl.next 0) [0, 11, 7, 8] ∧ s.zsl.scoreOf 11 = 5 ∧
    s.zsl.scoreOf 7 = 5 ∧ s.zsl.scoreOf 8 = 9 := by
  have ends : (staged.foldlM (fun s call => if call.allowed s = true then s.exec 9 call else none)
      ⟨zslCreate 0, []⟩).any (fun s : System => s.zsl.header = 0 ∧ s.live = [11, 8, 7] ∧
        (s.zsl.next 0 0 = some 11 ∧ s.zsl.next 0 11 = some 7 ∧ s.zsl.next 0 7 = some 8 ∧
          s.zsl.next 0 8 = none ∧ True) ∧ s.zsl.scoreOf 11 = 5 ∧ s.zsl.scoreOf 7 = 5 ∧
        s.zsl.scoreOf 8 = 9) = true := by
    decide +kernel
  obtain ⟨s, done, facts⟩ := (Option.any_eq_true _ _).mp ends
  obtain ⟨header, live, follows, scores⟩ := of_decide_eq_true facts
  exact ⟨s, run_of_exec done, header, live, follows, scores⟩

/-- A further node; then the first of the two nodes with one score is deleted, and the other one is
the least. -/
def removals : List Call := staged ++ [.insert 7 0 3 12 fun _ => none, .delete 11, .deleteHead]

/-- The node that was inserted between them and the last one are left. -/
theorem run_wellFormed_removals : ∃ s, Run Step ⟨zslCreate 0, []⟩ removals s ∧ s.live = [12, 8] ∧
    WellFormed s.zsl s.live := by
  have ends : (removals.foldlM (fun s call => if call.allowed s = true then s.exec 9 call else none)
      ⟨zslCreate 0, []⟩).any (fun s : System => s.live = [12, 8]) = true := by
    decide +kernel
  obtain ⟨s, done, live⟩ := (Option.any_eq_true _ _).mp ends
  have run := run_of_exec done
  exact ⟨s, run, of_decide_eq_true live, (run_wellFormed run).1⟩

/-- The list has these nodes in this order, and they have their memory. -/
def Lists (zsl : Zskiplist) (order : List Nat) : Prop :=
  (∀ x ∈ order, 0 < zsl.height x) ∧ Follows (zsl.next 0) (zsl.header :: order)

/-- The nodes of a list with its shape. -/
theorem Shape.lists {zsl : Zskiplist} {order : List Nat} (shape : Shape zsl order) :
    Lists zsl order := by
  have lowest := shape.chain 0 (by decide)
  rw [shape.tall_zero] at lowest
  exact ⟨shape.low, lowest⟩

/-- `zslDelete` removes and frees exactly this node, and leaves the others in the same order. -/
def DeletesExactly (zsl : Zskiplist) (order : List Nat) (zn : Nat) : Prop :=
  ∃ zsl', Leaves (fun fuel => zslDelete fuel zsl zn) (zsl', some zn) ∧ zsl'.nodes zn = none ∧
    Lists zsl' (order.erase zn)

/-- No node before this one has its score. -/
def FirstOfScore (zsl : Zskiplist) (order : List Nat) (zn : Nat) : Prop :=
  ∀ before behind, order = before ++ zn :: behind → ∀ x ∈ before, zsl.scoreOf x ≠ zsl.scoreOf zn

/-- The first node behind the smaller scores is the first one with its score. -/
theorem Shape.behind_head {zsl : Zskiplist} {order : List Nat} (shape : Shape zsl order) {zn : Nat}
    (present : zn ∈ order) :
    (zsl.behind order (zsl.scoreOf zn)).head? = some zn ↔ FirstOfScore zsl order zn := by
  have split := before_append_behind zsl order (zsl.scoreOf zn)
  have distinct := (List.nodup_cons.mp shape.distinct).2
  constructor
  · intro first before behind whole x member same
    obtain ⟨others, list⟩ : ∃ others, zsl.behind order (zsl.scoreOf zn) = zn :: others := by
      cases list : zsl.behind order (zsl.scoreOf zn) with
      | nil => rw [list] at first; cases first
      | cons y others =>
        rw [list, List.head?_cons] at first
        exact ⟨others, by rw [Option.some.inj first]⟩
    rw [list] at split
    have front : before = zsl.before order (zsl.scoreOf zn) := by
      have apart := List.nodup_middle.mp (whole ▸ distinct)
      have fresh := (List.nodup_cons.mp apart).1
      have equal : before ++ zn :: behind = zsl.before order (zsl.scoreOf zn) ++ zn :: others :=
        whole.symm.trans split.symm
      have early : zn ∉ before := fun member => fresh (List.mem_append_left _ member)
      have late : zn ∉ behind := fun member => fresh (List.mem_append_right _ member)
      exact (List.append_cons_inj_of_notMem early late |>.mp equal).1
    rw [front] at member
    have less : zsl.scoreOf x < zsl.scoreOf zn := by simpa using List.mem_takeWhile_imp member
    rw [same] at less
    exact UInt64.lt_irrefl _ less
  · intro firstOfScore
    obtain ⟨before, behind, whole⟩ := List.append_of_mem present
    have sorted := shape.sorted
    rw [whole] at sorted
    have less : ∀ x ∈ before, zsl.scoreOf x < zsl.scoreOf zn := by
      intro x member
      have le := (List.pairwise_append.mp sorted).2.2 x member zn List.mem_cons_self
      exact UInt64.lt_of_le_of_ne le (firstOfScore before behind whole x member)
    have rest : zsl.behind order (zsl.scoreOf zn) = zn :: behind := by
      rw [Zskiplist.behind, whole, List.dropWhile_append_of_pos fun x member =>
        decide_eq_true (less x member)]
      exact List.dropWhile_cons_of_neg (by simp)
    rw [rest]
    rfl

/-- In every list that a run leaves, `zslDelete` of a node removes and frees exactly this node, and
leaves the others in the same order, exactly if no node with the same score stands before it. -/
theorem zslDelete_exact_iff {header : Nat} {trace : List Call} {s : System}
    (run : Run Step ⟨zslCreate header, []⟩ trace s) :
    ∃ order, order.Perm s.live ∧ Lists s.zsl order ∧
      ∀ zn ∈ order, DeletesExactly s.zsl order zn ↔ FirstOfScore s.zsl order zn := by
  obtain ⟨order, perm, shape⟩ := sound_of_run run
  refine ⟨order, perm, shape.lists, fun zn present => ?_⟩
  obtain ⟨zsl', x, leaves, _, _, result, freed, first⟩ := zslDelete_shape shape present
  rw [← shape.behind_head present, first]
  constructor
  · rintro ⟨_, other, _⟩
    exact congrArg Prod.snd (leaves.unique other)
  · intro same
    rw [Option.some.inj same] at leaves freed result
    exact ⟨zsl', leaves, freed, result.lists⟩

/-- Of the two nodes with one score the first one is deleted exactly, the other one is not; the node
with another score is. -/
theorem zslDelete_exact_staged : ∃ s, Run Step ⟨zslCreate 0, []⟩ staged s ∧
    DeletesExactly s.zsl [11, 7, 8] 11 ∧ ¬ DeletesExactly s.zsl [11, 7, 8] 7 ∧
    DeletesExactly s.zsl [11, 7, 8] 8 := by
  obtain ⟨s, run, header, live, follows, first, second, third⟩ := staged_run
  obtain ⟨order, perm, lists, exact'⟩ := zslDelete_exact_iff run
  have whole : order = [11, 7, 8] := by
    have chain := lists.2
    rw [header] at chain
    exact (List.cons.inj (chain.unique follows rfl)).2
  rw [whole] at exact'
  refine ⟨s, run, (exact' 11 (by decide)).mpr ?_, mt (exact' 7 (by decide)).mp ?_,
    (exact' 8 (by decide)).mpr ?_⟩
  · intro before behind split x member
    rcases before with _ | ⟨a, _ | ⟨b, _ | ⟨c, before⟩⟩⟩
    · cases member
    · simp at split
    · simp at split
    · simp at split
  · intro firstOfScore
    exact firstOfScore [11] [8] rfl 11 (by decide) (first.trans second.symm)
  · intro before behind split x member
    rcases before with _ | ⟨a, _ | ⟨b, _ | ⟨c, before⟩⟩⟩
    · simp at split
    · simp at split
    · obtain ⟨rfl, rfl, -⟩ : 11 = a ∧ 7 = b ∧ [] = behind := by simpa using split
      rw [third]
      rcases List.mem_pair.mp member with rfl | rfl
      · rw [first]
        decide
      · rw [second]
        decide
    · simp at split

/-- Of two nodes with one score the one that was inserted first is to be deleted, and the other one
is removed and freed. -/
theorem zslDelete_other : ∃ s result,
    [Call.insert 5 0 0 7 fun _ => none, .insert 5 0 0 8 fun _ => none].foldlM (System.exec 9)
      ⟨zslCreate 0, []⟩ = some s ∧ 7 ∈ s.live ∧
    zslDelete 9 s.zsl 7 = some result ∧ result.2 = some 8 ∧ result.1.next 0 0 = some 7 := by
  have found : ([Call.insert 5 0 0 7 fun _ => none, .insert 5 0 0 8 fun _ => none].foldlM
      (System.exec 9) ⟨zslCreate 0, []⟩).any (fun s => 7 ∈ s.live ∧
        (zslDelete 9 s.zsl 7).any fun result =>
          result.2 = some 8 ∧ result.1.next 0 0 = some 7) = true := by decide
  obtain ⟨s, built, facts⟩ := (Option.any_eq_true _ _).mp found
  obtain ⟨live, facts⟩ := of_decide_eq_true facts
  obtain ⟨result, deleted, other⟩ := (Option.any_eq_true _ _).mp facts
  obtain ⟨freed, kept⟩ := of_decide_eq_true other
  exact ⟨s, result, built, live, deleted, freed, kept⟩

end BackendCpp.Skiplist
