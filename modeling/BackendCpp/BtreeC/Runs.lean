import BackendCpp.BtreeC.Deletion

/-!
# Runs of insertions and deletions

The tree has a root or is empty; which of its keys are out of order does not matter for the
pointers. What the root leads to is the tree, so a node that has been freed is not among it.
-/

namespace BackendCpp.BtreeC

open BackendCpp.Library

/-- A call from outside. -/
inductive Act
  /-- `btree_insert(T, key)`. -/
  | insert (key : Int)
  /-- `btree_delete(T, key)`. -/
  | delete (key : Int)

/-- The call. -/
def perform (fuel : Nat) (T : Btree) : Act → Option (Except Fault Btree)
  | .insert key => btreeInsert fuel T key
  | .delete key => (btreeDelete fuel T key).map fun result => result.map Prod.fst

/-- The call returns with the tree. -/
def Performs (T : Btree) (act : Act) (T' : Btree) : Prop :=
  Leaves (fun fuel => perform fuel T act) (.ok T')

/-- The nodes that the root leads to. -/
inductive Visits (T : Btree) : Nat → Prop
  /-- `T->root`. -/
  | root {a : Nat} (root : T.root = some a) : Visits T a
  /-- `node->childrens[i]`. -/
  | child {a b i : Nat} {node : BtreeNode} (above : Visits T a) (there : T.nodes a = some node)
    (inner : node.leaf = false) (inside : i ≤ node.num) (pointer : node.child i = .ok (some b)) :
    Visits T b

/-- A removed node is removed once, and the root does not lead to it. -/
structure Clean (T : Btree) : Prop where
  /-- No node is removed twice. -/
  once : T.freed.Nodup
  /-- A removed node is not in the store. -/
  gone : ∀ a ∈ T.freed, T.nodes a = none
  /-- The root does not lead to it. -/
  unreachable : ∀ a ∈ T.freed, ¬ Visits T a

/-- An insertion needs a root, and a deletion must not free the root for its key. -/
def Timely (T : Btree) : Act → Prop
  | .insert _ => T.root ≠ none
  | .delete key => ∀ n x, T.Rooted n x → ¬ x.RootFreed T.t key

/-- The tree between calls. -/
structure Alive (t : Nat) (T : Btree) : Prop where
  /-- The degree. -/
  degree : T.t = t
  /-- The store is sane. -/
  sane : T.Sane
  /-- There is no root or a tree. -/
  rest : T.root = none ∨ ∃ n x, T.Rooted n x

/-- What the root leads to is in the store. -/
theorem Visits.there {T : Btree} {n : Nat} {x : Tree} (rooted : T.Rooted n x) {a : Nat}
    (visits : Visits T a) :
    ∃ m y, T.Holds (m + 1) y ∧ y.Filled T.t (m + 1) ∧ y.address = a := by
  induction visits with
  | root root =>
    exact ⟨n, x, rooted.holds, rooted.filled, Option.some.inj (rooted.root.symm.trans root)⟩
  | @child a b i node above there inner inside pointer ih =>
    obtain ⟨m, y, holds, filled, rfl⟩ := ih
    obtain ⟨node', there', shows⟩ := holds.root
    obtain rfl := Option.some.inj (there.symm.trans there')
    cases m with
    | zero =>
      have kind : node.leaf = true := shows.kind
      rw [kind] at inner
      cases inner
    | succ m =>
      rw [shows.count] at inside
      obtain ⟨f, whole, children, place⟩ := Tree.exists_focus filled.1 inside
      rw [← children, Tree.child_addresses] at shows
      have same : node.child i = .ok (some f.child.address) :=
        shows.child_at (by rw [List.length_map]; exact place)
      rw [← whole] at holds filled
      have child := (Tree.filled_focus.mp filled).2.1
      refine ⟨m, f.child, holds.child, child.2, ?_⟩
      exact Option.some.inj (Except.ok.inj (same.symm.trans pointer))

/-- A tree between calls is clean. -/
theorem Alive.clean {t : Nat} {T : Btree} (alive : Alive t T) : Clean T := by
  refine ⟨alive.sane.once, alive.sane.gone, fun a freed visits => ?_⟩
  rcases alive.rest with empty | ⟨n, x, rooted⟩
  · have leads : ∀ b, ¬ Visits T b := by
      intro b visits
      induction visits with
      | root root =>
        rw [empty] at root
        cases root
      | child _ _ _ _ _ ih => exact ih
    exact leads a visits
  · obtain ⟨m, y, holds, -, rfl⟩ := visits.there rooted
    obtain ⟨node, there, -⟩ := holds.root
    rw [alive.sane.gone _ freed] at there
    cases there

/-- The tree is there before the first call. -/
theorem alive_create {t : Nat} (positive : 0 < t) : Alive t (btreeCreate t) :=
  ⟨rfl, (Btree.stands_create positive).sane, .inr ⟨0, _, (Btree.stands_create positive).toRooted⟩⟩

/-- What a call does to a tree between calls: it returns with a tree between calls, writes behind an
array, or follows a pointer to no node, which only an untimely call does. -/
def Answers (t : Nat) (T : Btree) (act : Act) : Prop :=
  ∃ result, Leaves (fun fuel => perform fuel T act) result ∧
    (result ≠ .error .dangling ↔ Timely T act) ∧ ∀ T', result = .ok T' → Alive t T'

/-- A call that follows a pointer to no node. -/
theorem answers_dangling {t : Nat} {T : Btree} {act : Act} (untimely : ¬ Timely T act)
    (leaves : Leaves (fun fuel => perform fuel T act) (.error .dangling)) : Answers t T act := by
  refine ⟨_, leaves, iff_of_false (fun differs => differs rfl) untimely, fun T' wrong => ?_⟩
  cases wrong

/-- A call that returns. -/
theorem answers_ok {t : Nat} {T T' : Btree} {act : Act} (timely : Timely T act)
    (leaves : Leaves (fun fuel => perform fuel T act) (.ok T')) (alive : Alive t T') :
    Answers t T act := by
  refine ⟨_, leaves, iff_of_true (by simp) timely, fun T'' same => ?_⟩
  rw [← Except.ok.inj same]
  exact alive

/-- An insertion follows a pointer to no node without a root, and returns otherwise. -/
theorem Alive.insert {t : Nat} {T : Btree} (two : 2 ≤ t) (alive : Alive t T) (key : Int) :
    Answers t T (.insert key) := by
  have degree := alive.degree
  rcases alive.rest with empty | ⟨n, x, rooted⟩
  · have call : insertCall T key = .error .dangling := by
      rw [insertCall, empty]
      rfl
    refine answers_dangling (fun there => there empty) (.of_forall fun fuel => ?_)
    simp only [perform, btreeInsert, call]
  · obtain ⟨T', n', x', leaves, rooted', degree', -⟩ :=
      Btree.btreeInsert_spec key rooted (degree ▸ two)
    refine answers_ok (fun empty => ?_) leaves
      ⟨degree'.trans degree, rooted'.sane, .inr ⟨n', x', rooted'⟩⟩
    rw [rooted.root] at empty
    cases empty

/-- A deletion that does not follow a pointer to no node frees no root for its key. -/
theorem timely_delete {T : Btree} {key : Int} {result : Except Fault (Btree × Int)} (two : 2 ≤ T.t)
    (leaves : Leaves (fun fuel => btreeDelete fuel T key) result)
    (differs : result ≠ .error .dangling) : Timely T (.delete key) := by
  intro n x rooted freed
  have dangling := (Btree.btreeDelete_spec key rooted two).2.1 freed
  exact differs (leaves.unique dangling)

/-- A deletion changes nothing without a root, and follows a pointer to no node if it frees the root
for the key. -/
theorem Alive.delete {t : Nat} {T : Btree} (two : 2 ≤ t) (alive : Alive t T) (key : Int) :
    Answers t T (.delete key) := by
  have degree := alive.degree
  have enough : 2 ≤ T.t := degree ▸ two
  rcases alive.rest with empty | ⟨n, x, rooted⟩
  · have leaves : Leaves (fun fuel => btreeDelete fuel T key) (.ok (T, -1)) := by
      refine .of_forall fun fuel => ?_
      simp only [btreeDelete, empty, if_true]
    exact answers_ok (timely_delete enough leaves (by simp)) (leaves.map _) alive
  · obtain ⟨outside, dangling, deletes⟩ := Btree.btreeDelete_spec key rooted enough
    by_cases freed : x.RootFreed T.t key
    · exact answers_dangling (fun timely => timely n x rooted freed) ((dangling freed).map _)
    · by_cases overfull : x.Overfull T.t (n + 1) key
      · have timely := timely_delete enough (outside overfull) (by simp)
        refine ⟨_, (outside overfull).map _, iff_of_true ?_ timely, fun T' wrong => ?_⟩
        · simp [Except.map]
        · cases wrong
      · obtain ⟨T', leaves, remains⟩ := deletes overfull freed
        refine answers_ok (timely_delete enough leaves (by simp)) (leaves.map _)
          ⟨remains.degree.trans degree, remains.sane, ?_⟩
        rcases remains.rest with ⟨root, -, -⟩ | ⟨n', x', rooted', -⟩
        · exact .inl root
        · exact .inr ⟨n', x', rooted'⟩

/-- Every call has its answer. -/
theorem Alive.performs {t : Nat} {T : Btree} (two : 2 ≤ t) (alive : Alive t T) (act : Act) :
    Answers t T act := by
  cases act with
  | insert key => exact alive.insert two key
  | delete key => exact alive.delete two key

/-- In every run the nodes removed are removed once and the root does not lead to them. The next
call returns, and no step of it looks up a node that is not there exactly if there is a root to
insert under, or no root that a deletion frees for its key. -/
theorem run_clean {t : Nat} (two : 2 ≤ t) {trace : List Act} {T : Btree}
    (run : Run Performs (btreeCreate t) trace T) :
    Clean T ∧ ∀ act, ∃ result, Leaves (fun fuel => perform fuel T act) result ∧
      (result ≠ .error .dangling ↔ Timely T act) := by
  have alive : Alive t T := by
    refine run.invariant (Alive t) (alive_create (by omega)) fun state act next alive performs => ?_
    obtain ⟨result, leaves, -, keeps⟩ := alive.performs two act
    exact keeps next (leaves.unique performs)
  refine ⟨alive.clean, fun act => ?_⟩
  obtain ⟨result, leaves, timely, -⟩ := alive.performs two act
  exact ⟨result, leaves, timely⟩

/-- Perform a call under a fuel. -/
def performOk (fuel : Nat) (T : Btree) (act : Act) : Option Btree :=
  (perform fuel T act).bind Except.toOption

/-- A call that was performed under one fuel. -/
theorem performs_of_performOk {fuel : Nat} {T T' : Btree} {act : Act}
    (done : performOk fuel T act = some T') : Performs T act T' := by
  obtain ⟨result, returned, same⟩ := Option.bind_eq_some_iff.mp done
  have leaves : Leaves (fun fuel => perform fuel T act) result := by
    cases act with
    | insert key => exact leaves_btreeInsert returned
    | delete key =>
      obtain ⟨inner, deleted, rfl⟩ := Option.map_eq_some_iff.mp returned
      exact (btreeDelete_leaves deleted).map _
  cases result with
  | error fault => cases same
  | ok T'' =>
    rw [← Option.some.inj same]
    exact leaves

/-- Keys are put in until the root splits, and taken out until two leaves merge. -/
def mergers : List Act :=
  [.insert 5, .insert 3, .insert 8, .insert 4, .insert 2, .insert 1, .delete 8, .delete 5, .delete 4]

/-- The node that went into the merge is the only one that was removed. -/
theorem run_clean_mergers : ∃ T, Run Performs (btreeCreate 2) mergers T ∧ T.freed = [2] ∧
    T.root = some 1 ∧ Clean T ∧ ∀ act, ∃ result, Leaves (fun fuel => perform fuel T act) result ∧
      (result ≠ .error .dangling ↔ Timely T act) := by
  have ends : (mergers.foldlM (performOk 9) (btreeCreate 2)).any (fun T : Btree =>
      T.freed = [2] ∧ T.root = some 1) = true := by
    decide +kernel
  obtain ⟨T, done, facts⟩ := (Option.any_eq_true _ _).mp ends
  obtain ⟨freed, root⟩ := of_decide_eq_true facts
  have run := (Run.of_foldlM done).mono fun _ _ _ => performs_of_performOk
  exact ⟨T, run, freed, root, run_clean le_rfl run⟩

/-- A leaf of degree two with its first key and number of keys. -/
def leaf (key : Int) (num : Nat) : BtreeNode := ⟨[key, 0, 0], [none, none, none, none], num, true⟩

/-- The tree after the first key. -/
def oneKey : Btree := (btreeCreate 2).put 0 (leaf 1 1)

/-- The tree after the last key. -/
def noKey : Btree := { (oneKey.put 0 (leaf 0 0)).drop 0 with root := none }

/-- The first key is put into the root. -/
theorem performs_insert : Performs (btreeCreate 2) (.insert 1) oneKey := by
  refine ⟨1, fun fuel enough => ?_⟩
  obtain ⟨more, rfl⟩ := Nat.exists_eq_add_of_le' enough
  rfl

/-- The last key takes the root with it. -/
theorem performs_delete : Performs oneKey (.delete 1) noKey := by
  refine ⟨1, fun fuel enough => ?_⟩
  obtain ⟨more, rfl⟩ := Nat.exists_eq_add_of_le' enough
  rfl

/-- The next insertion follows `NULL`. -/
theorem run_unclean : ∃ trace T, Run Performs (btreeCreate 2) trace T ∧
    ∃ act fuel, perform fuel T act = some (.error .dangling) :=
  ⟨_, _, (Run.nil.snoc performs_insert).snoc performs_delete, .insert 2, 0, rfl⟩

end BackendCpp.BtreeC
