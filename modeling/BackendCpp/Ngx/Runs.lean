import BackendCpp.Library.Run
import BackendCpp.Ngx.Removal
import BackendCpp.RbtreeC.Reading

/-!
# Runs of the timers' tree

A caller initialises the tree over any memory, inserts nodes that are out of the tree with
whatever contents it wrote into them, and deletes nodes that are in it; a deleted node may be
inserted again. The abstract state is the list of entries in order: an insertion is an ordered
insertion, behind the entries with an equal key, and a deletion takes one entry away. The
comparison need only be right about the keys it meets: for the timers' comparison these are keys
in a window of half the range, wherever it lies, and the window may move during a run.
-/

namespace BackendCpp.Ngx

open BackendCpp.Library
open RbtreeC (Addr Rbtree Cell Focus Sentinel Shape RED BLACK ptr Valid)

/-- Nodes reachable from the root over child pointers. -/
inductive Reach (T : NgxRbtree) : Addr → Prop
  | root (inner : T.root ≠ T.sentinel) : Reach T T.root
  | child {a : Addr} (side : Side) (up : Reach T a) (inner : (T.mem a).child side ≠ T.sentinel) :
      Reach T ((T.mem a).child side)

/-- The nodes that an in-order walk below a pointer meets. -/
inductive InOrder (T : NgxRbtree) : Addr → List Addr → Prop
  | sentinel : InOrder T T.sentinel []
  | node {a : Addr} {low high : List Addr} (inner : a ≠ T.sentinel)
      (left : InOrder T (T.mem a).left low) (right : InOrder T (T.mem a).right high) :
      InOrder T a (low ++ a :: high)

/-- Some walk from a pointer down to the sentinel passes that many black nodes. -/
inductive Blacks (T : NgxRbtree) : Addr → Nat → Prop
  | sentinel : Blacks T T.sentinel 0
  | node {a : Addr} {count : Nat} (side : Side) (inner : a ≠ T.sentinel)
      (below : Blacks T ((T.mem a).child side) count) :
      Blacks T a (count + if T.ngxRbtIsBlack a then 1 else 0)

/-- A red-black tree in the words of the program. Nothing is said of the parent of the root. -/
structure RedBlackTree (T : NgxRbtree) : Prop where
  /-- The sentinel is black. -/
  sentinel_black : T.ngxRbtIsBlack T.sentinel = true
  /-- The root is black. -/
  root_black : T.ngxRbtIsBlack T.root = true
  /-- No red node has a red child. -/
  red_child : ∀ a, Reach T a → T.ngxRbtIsRed a = true →
    ∀ side, T.ngxRbtIsRed ((T.mem a).child side) = false
  /-- All walks from the root to the sentinel pass the same number of black nodes. -/
  black_height : ∃ height, ∀ count, Blacks T T.root count → count = height
  /-- Every child points up to its parent. -/
  parent : ∀ a, Reach T a → ∀ side, (T.mem a).child side ≠ T.sentinel →
    (T.mem ((T.mem a).child side)).parent = a

/-- A node with the key and the data that it had when it was inserted. -/
structure Entry where
  /-- Address of the node. -/
  node : Addr
  /-- Key. -/
  key : UInt32
  /-- Data. -/
  data : UInt8
  deriving DecidableEq

/-- The memory is a red-black tree on the entries, in order and with their contents. -/
structure Spells (T : NgxRbtree) (entries : List Entry) : Prop where
  /-- The balance. -/
  redBlack : RedBlackTree T
  /-- The order. -/
  inOrder : InOrder T T.root (entries.map Entry.node)
  /-- No two entries share a node. -/
  distinct : (entries.map Entry.node).Nodup
  /-- The contents. -/
  contents : ∀ entry ∈ entries,
    (T.mem entry.node).key = entry.key ∧ (T.mem entry.node).data = entry.data

/-- What the caller writes into a node before it inserts it. -/
def fillIn (T : NgxRbtree) (node : Addr) (contents : NgxRbtreeNode) : NgxRbtree :=
  T.modify node fun _ => contents

/-- The calls of a run. -/
inductive Call where
  /-- `ngx_rbtree_insert` of a node with these contents. -/
  | insert (node : Addr) (contents : NgxRbtreeNode)
  /-- `ngx_rbtree_delete` of a node. -/
  | delete (node : Addr)

/-- A call returns and leaves a tree behind. -/
inductive Step (less : UInt32 → UInt32 → Bool) : NgxRbtree → Call → NgxRbtree → Prop
  | insert {T T' : NgxRbtree} {node : Addr} {contents : NgxRbtreeNode} (inner : node ≠ T.sentinel)
      (fresh : ¬ Reach T node)
      (returns : Leaves (fun fuel => ngxRbtreeInsert (insertValue less) fuel
        (fillIn T node contents) node) T') : Step less T (.insert node contents) T'
  | delete {T T' : NgxRbtree} {node : Addr} (present : Reach T node)
      (returns : Leaves (fun fuel => ngxRbtreeDelete fuel T node) T') :
      Step less T (.delete node) T'

/-- What a call means for the entries. -/
def update (less : UInt32 → UInt32 → Bool) (entries : List Entry) : Call → List Entry
  | .insert node contents =>
    entries.orderedInsert (fun one other => less one.key other.key = true)
      ⟨node, contents.key, contents.data⟩
  | .delete node => entries.filter fun entry => entry.node ≠ node

/-- The entries after the calls of a run. -/
def entries (less : UInt32 → UInt32 → Bool) (trace : List Call) : List Entry :=
  trace.foldl (update less) []

/-- No entry is less than one before it. -/
def Sorted (less : UInt32 → UInt32 → Bool) (entries : List Entry) : Prop :=
  entries.Pairwise fun one other => less other.key one.key = false

/-- The comparison may be relied upon for a new key among others. -/
structure Reliable (less : UInt32 → UInt32 → Bool) (new : UInt32) (keys : List UInt32) : Prop where
  /-- A new key that is less than a key is less than every key that is not less than that one. -/
  later : ∀ one ∈ keys, ∀ other ∈ keys, less other one = false → less new one = true →
    less new other = true
  /-- A key that the new one is less than is not less than the new one. -/
  asymm : ∀ one ∈ keys, less new one = true → less one new = false

/-- At every insertion of a run the comparison may be relied upon. -/
def ReliableRun (less : UInt32 → UInt32 → Bool) (trace : List Call) : Prop :=
  ∀ early node contents late, trace = early ++ .insert node contents :: late →
    Reliable less contents.key ((entries less early).map Entry.key)

section reading

variable {T : NgxRbtree} {s : Addr} {cells : List Cell}

/-- The nodes reachable are the same in both codings. -/
theorem reach_recode (a : Addr) : RbtreeC.Reach (recode T) a ↔ Reach T a := by
  constructor
  · intro reach
    induction reach with
    | root inner => exact Reach.root inner
    | child side up inner ih =>
      rw [recode_child] at inner ⊢
      exact ih.child side inner
  · intro reach
    induction reach with
    | root inner => exact RbtreeC.Reach.root inner
    | @child a side up inner ih =>
      rw [← recode_child] at inner ⊢
      exact ih.child side inner

/-- The walks of both codings pass the same numbers of black nodes. -/
theorem blacks_recode {a : Addr} {count : Nat} (walk : Blacks T a count) :
    RbtreeC.Blacks (recode T) a count := by
  induction walk with
  | sentinel => exact RbtreeC.Blacks.nil
  | @node a count side inner below ih =>
    rw [← recode_child] at ih
    have further := RbtreeC.Blacks.node side inner ih
    have same : (if ((recode T).mem a).color = BLACK then 1 else 0) =
        if T.ngxRbtIsBlack a = true then 1 else 0 := by
      simp only [recode_black]
    rw [same] at further
    exact further

/-- The in-order walks are the same in both codings. -/
theorem inOrder_recode {a : Addr} {order : List Addr} (walk : RbtreeC.InOrder (recode T) a order) :
    InOrder T a order := by
  induction walk with
  | nil => exact InOrder.sentinel
  | node inner left right ihLeft ihRight => exact InOrder.node inner ihLeft ihRight

/-- A valid memory is a red-black tree. -/
theorem redBlackTree_of_valid (valid : Valid s cells (recode T)) : RedBlackTree T := by
  have notRed : ∀ a, ((recode T).mem a).color ≠ RED → T.ngxRbtIsRed a = false := by
    intro a differ
    cases red : T.ngxRbtIsRed a with
    | false => rfl
    | true => exact absurd ((recode_red T a).mpr red) differ
  refine ⟨?_, (recode_black T _).mp valid.root_black, ?_, ?_, ?_⟩
  · have black := valid.sentinel.black
    rw [← valid.sentinel.same] at black
    exact (recode_black T _).mp black
  · intro a reachable red side
    have child := valid.red_child ((reach_recode a).mpr reachable) ((recode_red T a).mpr red) side
    rw [recode_child] at child
    exact notRed _ child
  · obtain ⟨height, all⟩ := valid.black_height
    exact ⟨height, fun count walk => all count (blacks_recode walk)⟩
  · intro a reachable side inner
    have inner' : ((recode T).mem a).child side ≠ (recode T).nil := by
      rw [recode_child]
      exact inner
    have up := valid.child_parent ((reach_recode a).mpr reachable) inner'
    rw [recode_child] at up
    obtain ⟨-, t, shape, -, -⟩ := valid
    -- a child is not the root, so its parent field itself is meant
    obtain ⟨cell, member, rfl⟩ :=
      List.mem_map.mp ((shape.reach_iff a).mp ((reach_recode a).mpr reachable))
    obtain ⟨path, c, left, right, whole, focus⟩ := shape.focus_of_mem member
    obtain ⟨near, far, node, childAt⟩ := focus.child side
    rw [node] at focus
    have below : ptr (recode T).nil near ≠ (recode T).root := focus.down.root_ne
    rw [← childAt, recode_child] at below
    exact (up_of_ne T _ below).symm.trans up

end reading

/-- The cell of an entry. -/
def Entry.cell (entry : Entry) : Cell := ⟨entry.node, entry.key.toNat, entry.data.toNat⟩

/-- The cell of an entry is at its node. -/
@[simp] theorem Entry.cell_addr (entry : Entry) : entry.cell.addr = entry.node := rfl

/-- The cell of an entry has its key. -/
@[simp] theorem Entry.ngxKey_cell (entry : Entry) : ngxKey entry.cell = entry.key := by
  simp [ngxKey, Entry.cell]

/-- The addresses of the cells of some entries. -/
theorem map_cell_addr (entries : List Entry) :
    (entries.map Entry.cell).map Cell.addr = entries.map Entry.node := by
  rw [List.map_map]
  rfl

/-- The abstraction: a valid memory on the cells of the entries. -/
def Represents (s : Addr) (T : NgxRbtree) (entries : List Entry) : Prop :=
  Valid s (entries.map Entry.cell) (recode T)

section represents

variable {T : NgxRbtree} {s : Addr} {entries : List Entry}

/-- The nodes reachable are those of the entries. -/
theorem Represents.reach_iff (represents : Represents s T entries) (a : Addr) :
    Reach T a ↔ a ∈ entries.map Entry.node := by
  obtain ⟨-, t, shape, -, items⟩ := represents
  rw [← reach_recode, shape.reach_iff, items, map_cell_addr]

/-- The memory spells the entries. -/
theorem Represents.spells (represents : Represents s T entries) : Spells T entries := by
  have redBlack := redBlackTree_of_valid represents
  have order := inOrder_recode (Valid.inOrder represents)
  rw [map_cell_addr, recode_root] at order
  obtain ⟨-, t, shape, -, items⟩ := represents
  have distinct := shape.distinct
  rw [items, map_cell_addr] at distinct
  refine ⟨redBlack, order, distinct, ?_⟩
  intro entry listed
  have member : entry.cell ∈ t.items := items ▸ List.mem_map_of_mem listed
  obtain ⟨path, c, left, right, whole, focus⟩ := shape.focus_of_mem member
  have key : ((recode T).mem entry.node).key = entry.key.toNat := by
    rw [← entry.cell_addr, focus.stored.1, RbtreeC.nodeOf_key]
    rfl
  have data : ((recode T).mem entry.node).value = entry.data.toNat := by
    rw [← entry.cell_addr, focus.stored.1, RbtreeC.nodeOf_value]
    rfl
  rw [recode_key, Nat.cast_inj] at key
  rw [recode_value] at data
  exact ⟨UInt32.toNat_inj.mp key, UInt8.toNat_inj.mp data⟩

/-- Writing into a node that is out of the tree keeps the entries. -/
theorem Represents.fillIn (represents : Represents s T entries) {node : Addr} (inner : node ≠ s)
    (fresh : node ∉ entries.map Entry.node) (contents : NgxRbtreeNode) :
    Represents s (fillIn T node contents) entries := by
  obtain ⟨sentinel, t, shape, redBlack, items⟩ := represents
  have same : ∀ a, a ≠ node → (recode (Ngx.fillIn T node contents)).mem a = (recode T).mem a := by
    intro a apart
    have untouched : (Ngx.fillIn T node contents).mem a = T.mem a := by
      unfold Ngx.fillIn
      rw [mem_modify, if_neg apart]
    show ((Ngx.fillIn T node contents).mem a).recode ((Ngx.fillIn T node contents).up a) = _
    unfold NgxRbtree.up
    rw [untouched]
    rfl
  refine ⟨⟨sentinel.same, ?_⟩, t, ?_, redBlack, items⟩
  · rw [same s inner.symm]
    exact sentinel.black
  · have top : Focus (recode T) [] t := RbtreeC.focus_iff.mpr shape
    have kept : Focus (recode (Ngx.fillIn T node contents)) [] t := by
      refine focus_congr (T := recode T) rfl rfl ?_ top
      intro cell member
      have listed := List.mem_map_of_mem (f := Cell.addr) member
      rw [RbtreeC.pathCells, List.append_nil, items, map_cell_addr] at listed
      exact same _ (ne_of_mem_of_not_mem listed fresh)
    exact RbtreeC.focus_iff.mp kept

/-- An ordered insertion of cells, seen at the entries. -/
theorem map_orderedInsert (less : UInt32 → UInt32 → Bool) (new : Entry) (entries : List Entry) :
    (entries.map Entry.cell).orderedInsert (Before less) new.cell =
      (entries.orderedInsert (fun one other => less one.key other.key = true) new).map
        Entry.cell := by
  induction entries with
  | nil => rfl
  | cons entry entries ih =>
    have test : Before less new.cell entry.cell ↔ less new.key entry.key = true := by
      unfold Before
      rw [Entry.ngxKey_cell, Entry.ngxKey_cell]
    rw [List.map_cons, List.orderedInsert_cons, List.orderedInsert_cons]
    by_cases less' : less new.key entry.key = true
    · rw [if_pos (test.mpr less'), if_pos less']
      rfl
    · rw [if_neg (fun before => less' (test.mp before)), if_neg less', ih]
      rfl

/-- With a reliable comparison the order of the entries is consistent for the new one. -/
theorem Sorted.consistent {less : UInt32 → UInt32 → Bool} (sorted : Sorted less entries)
    (new : Entry) (reliable : Reliable less new.key (entries.map Entry.key)) :
    Consistent less new.cell (entries.map Entry.cell) := by
  unfold Consistent
  rw [List.pairwise_map]
  refine sorted.imp_of_mem ?_
  intro one other inOne inOther notLess less'
  unfold Before at less' ⊢
  rw [Entry.ngxKey_cell, Entry.ngxKey_cell] at less' ⊢
  exact reliable.later _ (List.mem_map_of_mem inOne) _ (List.mem_map_of_mem inOther) notLess less'

/-- An ordered insertion with a reliable comparison keeps the order. -/
theorem Sorted.orderedInsert {less : UInt32 → UInt32 → Bool} (sorted : Sorted less entries)
    (new : Entry) (reliable : Reliable less new.key (entries.map Entry.key)) :
    Sorted less (entries.orderedInsert (fun one other => less one.key other.key = true) new) := by
  induction entries with
  | nil => exact List.pairwise_singleton _ _
  | cons entry entries ih =>
    obtain ⟨first, rest⟩ := List.pairwise_cons.mp sorted
    have inFirst : entry.key ∈ (entry :: entries).map Entry.key :=
      List.mem_map_of_mem List.mem_cons_self
    by_cases less' : less new.key entry.key = true
    · rw [List.orderedInsert_cons, if_pos less']
      refine List.pairwise_cons.mpr ⟨?_, sorted⟩
      intro other member
      have inOther := List.mem_map_of_mem (f := Entry.key) member
      refine reliable.asymm _ inOther ?_
      rcases List.mem_cons.mp member with rfl | inRest
      · exact less'
      · exact reliable.later _ inFirst _ inOther (first other inRest) less'
    · rw [List.orderedInsert_cons, if_neg less']
      have further := ih rest ⟨fun one inOne other inOther =>
        reliable.later one (List.mem_cons_of_mem _ inOne) other (List.mem_cons_of_mem _ inOther),
        fun one inOne => reliable.asymm one (List.mem_cons_of_mem _ inOne)⟩
      refine List.pairwise_cons.mpr ⟨?_, further⟩
      intro other member
      rcases List.mem_cons.mp ((List.perm_orderedInsert _ new entries).mem_iff.mp member) with
        rfl | inRest
      · exact Bool.not_eq_true _ ▸ less'
      · exact first other inRest

/-- An insertion returns, whatever the comparison. -/
theorem Represents.insert_returns (represents : Represents s T entries)
    (less : UInt32 → UInt32 → Bool) {node : Addr} (inner : node ≠ T.sentinel)
    (fresh : ¬ Reach T node) (contents : NgxRbtreeNode) :
    ∃ T', Step less T (.insert node contents) T' := by
  have named : T.sentinel = s := represents.sentinel.same
  have outside : node ∉ entries.map Entry.node := fun member =>
    fresh ((represents.reach_iff node).mpr member)
  have filled := represents.fillIn (named ▸ inner) outside contents
  obtain ⟨t, T', -, leaves, -⟩ := ngxRbtreeInsert_links less filled (named ▸ inner)
    (by rw [map_cell_addr]; exact outside)
  exact ⟨T', Step.insert inner fresh leaves⟩

/-- A deletion returns. -/
theorem Represents.delete_returns (represents : Represents s T entries)
    (less : UInt32 → UInt32 → Bool) {node : Addr} (present : Reach T node) :
    ∃ T', Step less T (.delete node) T' := by
  obtain ⟨entry, member, rfl⟩ := List.mem_map.mp ((represents.reach_iff node).mp present)
  obtain ⟨T', low, high, -, leaves, -⟩ := ngxRbtreeDelete_spec represents
    (List.mem_map_of_mem (f := Entry.cell) member)
  exact ⟨T', Step.delete present leaves⟩

/-- A deletion takes the entry of its node away. -/
theorem Represents.delete (less : UInt32 → UInt32 → Bool) (represents : Represents s T entries)
    {node : Addr} (present : Reach T node) {T' : NgxRbtree}
    (returns : Leaves (fun fuel => ngxRbtreeDelete fuel T node) T') :
    Represents s T' (update less entries (.delete node)) := by
  have distinct := represents.spells.distinct
  obtain ⟨entry, member, rfl⟩ := List.mem_map.mp ((represents.reach_iff node).mp present)
  obtain ⟨T'', low, high, split, leaves, valid⟩ := ngxRbtreeDelete_spec represents
    (List.mem_map_of_mem (f := Entry.cell) member)
  rw [returns.unique leaves]
  have rest : (update less entries (.delete entry.node)).map Entry.cell = low ++ high := by
    have unique : ((entries.map Entry.cell).map Cell.addr).Nodup := by
      rw [map_cell_addr]
      exact distinct
    rw [split, List.map_append, List.map_cons, List.nodup_middle, List.nodup_cons,
      ← List.map_append] at unique
    have filtered : (update less entries (.delete entry.node)).map Entry.cell =
        (entries.map Entry.cell).filter fun cell => cell.addr ≠ entry.node := by
      rw [List.filter_map]
      rfl
    have keep : ∀ cell ∈ low ++ high, decide (cell.addr ≠ entry.node) = true := by
      intro cell listed
      rw [decide_eq_true_iff]
      exact ne_of_mem_of_not_mem (List.mem_map_of_mem (f := Cell.addr) listed) unique.1
    have dropped : ¬ decide (entry.cell.addr ≠ entry.node) = true := by simp
    rw [filtered, split, List.filter_append, List.filter_cons, if_neg dropped,
      ← List.filter_append, List.filter_eq_self.mpr keep]
  unfold Represents
  rw [rest]
  exact valid

/-- What the caller has written before an insertion. -/
theorem cellOf_fillIn (T : NgxRbtree) (node : Addr) (contents : NgxRbtreeNode) :
    cellOf (fillIn T node contents) node =
      (⟨node, contents.key, contents.data⟩ : Entry).cell := by
  unfold cellOf fillIn
  rw [mem_modify, if_pos rfl]
  rfl

/-- A call does to the entries what it means. -/
theorem Step.represents {less : UInt32 → UInt32 → Bool} {call : Call} {T' : NgxRbtree}
    (step : Step less T call T') (represents : Represents s T entries) (sorted : Sorted less entries)
    (reliable : ∀ node contents, call = .insert node contents →
      Reliable less contents.key (entries.map Entry.key)) :
    Represents s T' (update less entries call) ∧ Sorted less (update less entries call) := by
  have named : T.sentinel = s := represents.sentinel.same
  cases step with
  | @insert _ node contents inner fresh returns =>
    have outside : node ∉ entries.map Entry.node := fun member =>
      fresh ((represents.reach_iff node).mpr member)
    have filled := represents.fillIn (named ▸ inner) outside contents
    have written := cellOf_fillIn T node contents
    have trusted := reliable node contents rfl
    obtain ⟨T'', leaves, valid⟩ := ngxRbtreeInsert_spec filled (named ▸ inner)
      (by rw [map_cell_addr]; exact outside)
      (by rw [written]; exact sorted.consistent ⟨node, contents.key, contents.data⟩ trusted)
    rw [returns.unique leaves]
    rw [written, map_orderedInsert] at valid
    exact ⟨valid, sorted.orderedInsert ⟨node, contents.key, contents.data⟩ trusted⟩
  | @delete _ node present returns =>
    exact ⟨represents.delete less present returns, sorted.sublist List.filter_sublist⟩

/-- Linking a cell adds it. -/
theorem linked_perm (less : UInt32 → UInt32 → Bool) (new : Cell) (t : ColouredTree Cell) :
    (linked less new t).Perm (new :: t.items) := by
  induction t with
  | leaf => exact List.Perm.refl _
  | node c left cell right ihLeft ihRight =>
    unfold linked
    split
    · exact ihLeft.append_right _
    · refine List.Perm.trans ?_ List.perm_middle
      exact ((ihRight.cons cell).trans (List.Perm.swap new cell _)).append_left left.items

/-- Cells of which those of some entries are a permutation are those of a permutation of them. -/
theorem exists_entries {current : List Entry} {cells : List Cell}
    (perm : cells.Perm (current.map Entry.cell)) :
    ∃ next : List Entry, next.map Entry.cell = cells ∧ next.Perm current := by
  let back : Cell → Entry := fun cell => ⟨cell.addr, ngxKey cell, UInt8.ofNat cell.value⟩
  have inverse : ∀ entry : Entry, back entry.cell = entry := by
    intro entry
    have key := entry.ngxKey_cell
    have data : UInt8.ofNat entry.cell.value = entry.data := UInt8.ofNat_toNat
    simp only [back, key, data, Entry.cell_addr]
  refine ⟨cells.map back, ?_, ?_⟩
  · rw [List.map_map]
    refine (List.map_congr_left fun cell member => ?_).trans (List.map_id cells)
    obtain ⟨entry, -, rfl⟩ := List.mem_map.mp (perm.mem_iff.mp member)
    exact congrArg Entry.cell (inverse entry)
  · have mapped := perm.map back
    rw [List.map_map, (List.map_congr_left fun entry _ => inverse entry :
      current.map (back ∘ Entry.cell) = current.map id), List.map_id] at mapped
    exact mapped

/-- Permuted entries are still permuted after a call. -/
theorem update_perm (less : UInt32 → UInt32 → Bool) (call : Call) {one other : List Entry}
    (perm : one.Perm other) : (update less one call).Perm (update less other call) := by
  cases call with
  | insert node contents =>
    refine (List.perm_orderedInsert _ _ one).trans ?_
    exact (perm.cons _).trans (List.perm_orderedInsert _ _ other).symm
  | delete node => exact perm.filter _

/-- Whatever the comparison, a call adds or takes away the entry that it names. -/
theorem Step.represents_some {less : UInt32 → UInt32 → Bool} {call : Call} {T' : NgxRbtree}
    (step : Step less T call T') (represents : Represents s T entries) :
    ∃ next, Represents s T' next ∧ next.Perm (update less entries call) := by
  have named : T.sentinel = s := represents.sentinel.same
  cases step with
  | @insert _ node contents inner fresh returns =>
    have outside : node ∉ entries.map Entry.node := fun member =>
      fresh ((represents.reach_iff node).mpr member)
    have filled := represents.fillIn (named ▸ inner) outside contents
    obtain ⟨t, T'', items, leaves, valid⟩ := ngxRbtreeInsert_links less filled (named ▸ inner)
      (by rw [map_cell_addr]; exact outside)
    rw [returns.unique leaves]
    rw [cellOf_fillIn] at valid
    have perm := linked_perm less (⟨node, contents.key, contents.data⟩ : Entry).cell t
    rw [items, ← List.map_cons] at perm
    obtain ⟨next, same, permuted⟩ := exists_entries perm
    refine ⟨next, ?_, permuted.trans (List.perm_orderedInsert _ _ entries).symm⟩
    unfold Represents
    rw [same]
    exact valid
  | @delete _ node present returns =>
    exact ⟨_, represents.delete less present returns, List.Perm.refl _⟩

end represents

/-- `ngx_rbtree_init` makes an empty tree of any memory. -/
theorem represents_init (mem : Addr → NgxRbtreeNode) (s : Addr) :
    Represents s (ngxRbtreeInit mem s) [] := by
  refine ⟨⟨rfl, ?_⟩, .leaf, ⟨rfl, trivial, ?_, ?_⟩, ⟨rfl, 0, rfl⟩, rfl⟩
  · rw [recode_black]
    simp [ngxRbtreeInit, NgxRbtree.ngxRbtIsBlack, NgxRbtree.ngxRbtIsRed, NgxRbtree.ngxRbtBlack,
      NgxRbtree.setColor, NgxRbtree.modify]
  · simp [ColouredTree.items]
  · simp [ColouredTree.items]

/-- In every run, whatever the comparison, the memory represents the entries in some order. -/
theorem run_represents_some {less : UInt32 → UInt32 → Bool} {mem : Addr → NgxRbtreeNode} {s : Addr}
    {trace : List Call} {T : NgxRbtree} (run : Run (Step less) (ngxRbtreeInit mem s) trace T) :
    ∃ current, Represents s T current ∧ current.Perm (entries less trace) := by
  refine run.simulation (update less)
    (fun T entries => ∃ current, Represents s T current ∧ current.Perm entries)
    ⟨[], represents_init mem s, List.Perm.refl _⟩ ?_
  rintro state ghost call next ⟨current, represents, perm⟩ step
  obtain ⟨after, represents', permuted⟩ := step.represents_some represents
  exact ⟨after, represents', permuted.trans (update_perm less call perm)⟩

/-- In every run with a reliable comparison the memory represents the entries, in order. -/
theorem run_represents {less : UInt32 → UInt32 → Bool} {mem : Addr → NgxRbtreeNode} {s : Addr}
    {trace : List Call} {T : NgxRbtree} (run : Run (Step less) (ngxRbtreeInit mem s) trace T)
    (reliable : ReliableRun less trace) :
    Represents s T (entries less trace) ∧ Sorted less (entries less trace) := by
  induction run with
  | nil => exact ⟨represents_init mem s, List.Pairwise.nil⟩
  | @snoc trace state next call before taken ih =>
    have earlier : ReliableRun less trace := by
      rintro early node contents late rfl
      exact reliable early node contents (late ++ [call]) (by simp)
    obtain ⟨represents, sorted⟩ := ih earlier
    have last : ∀ node contents, call = .insert node contents →
        Reliable less contents.key ((entries less trace).map Entry.key) := by
      rintro node contents rfl
      exact reliable trace node contents [] rfl
    have after := taken.represents represents sorted last
    unfold entries
    rw [List.foldl_append]
    exact after

/-- A caller may make a call: it inserts a node that is not there, or deletes one that is. -/
def Call.may (s : Addr) (entries : List Entry) : Call → Bool
  | .insert node _ => node ≠ s ∧ node ∉ entries.map Entry.node
  | .delete node => node ∈ entries.map Entry.node

/-- A caller may make the calls one after the other. -/
def mayAll (less : UInt32 → UInt32 → Bool) (s : Addr) : List Entry → List Call → Bool
  | _, [] => true
  | entries, call :: rest => call.may s entries && mayAll less s (update less entries call) rest

/-- Calls may follow each other when the later ones may follow the earlier ones. -/
theorem mayAll_append (less : UInt32 → UInt32 → Bool) (s : Addr) (late : List Call) :
    ∀ (early : List Call) (current : List Entry), mayAll less s current (early ++ late) =
      (mayAll less s current early && mayAll less s (early.foldl (update less) current) late) := by
  intro early
  induction early with
  | nil => exact fun _ => (Bool.true_and _).symm
  | cons call early ih =>
    intro current
    simp only [List.cons_append, mayAll, List.foldl_cons, ih, Bool.and_assoc]

/-- A call that a caller may make returns. -/
theorem Represents.may_returns (less : UInt32 → UInt32 → Bool) {s : Addr} {T : NgxRbtree}
    {entries : List Entry} (represents : Represents s T entries) {call : Call}
    (may : call.may s entries = true) : ∃ T', Step less T call T' := by
  have named : T.sentinel = s := represents.sentinel.same
  cases call with
  | insert node contents =>
    simp only [Call.may, decide_eq_true_eq] at may
    have fresh : ¬ Reach T node := fun reach => may.2 ((represents.reach_iff node).mp reach)
    exact represents.insert_returns less (named ▸ may.1) fresh contents
  | delete node =>
    simp only [Call.may, decide_eq_true_eq] at may
    exact represents.delete_returns less ((represents.reach_iff node).mpr may)

/-- Calls that a caller may make all return: they have a run. -/
theorem exists_run {less : UInt32 → UInt32 → Bool} (mem : Addr → NgxRbtreeNode) (s : Addr)
    {trace : List Call} (may : mayAll less s [] trace = true) (reliable : ReliableRun less trace) :
    ∃ T, Run (Step less) (ngxRbtreeInit mem s) trace T := by
  induction trace using List.reverseRecOn with
  | nil => exact ⟨_, Run.nil⟩
  | append_singleton trace call ih =>
    rw [mayAll_append, Bool.and_eq_true, mayAll, mayAll, Bool.and_true] at may
    have earlier : ReliableRun less trace := by
      rintro early node contents late rfl
      exact reliable early node contents (late ++ [call]) (by simp)
    obtain ⟨T, run⟩ := ih may.1 earlier
    obtain ⟨represents, -⟩ := run_represents run earlier
    obtain ⟨T', step⟩ := represents.may_returns less may.2
    exact ⟨T', run.snoc step⟩

end BackendCpp.Ngx
