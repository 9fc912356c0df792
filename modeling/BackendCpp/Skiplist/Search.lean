import Mathlib.Data.List.TakeWhile
import BackendCpp.Library.Linked
import BackendCpp.Skiplist.Program

/-!
# Searching the levels

The nodes of the list in their order give the chain of every level: the nodes that are high
enough. A search for a score comes, on every level, to the last node with a smaller score, so
the nodes before the place of the score are those that every level has passed.
-/

namespace BackendCpp.Skiplist

open BackendCpp.Library

/-- The successor of a node on a level. -/
def Zskiplist.next (zsl : Zskiplist) (i x : Nat) : Option Nat :=
  (zsl.nodes x).bind fun node => node.forward i

/-- The number of levels of a node. -/
def Zskiplist.height (zsl : Zskiplist) (x : Nat) : Nat :=
  (zsl.nodes x).elim 0 fun node => node.levels

/-- The score of a node. -/
def Zskiplist.scoreOf (zsl : Zskiplist) (x : Nat) : UInt64 :=
  (zsl.nodes x).elim 0 fun node => node.score

/-- The nodes that a level has. -/
def Zskiplist.tall (zsl : Zskiplist) (i : Nat) (order : List Nat) : List Nat :=
  order.filter fun x => i < zsl.height x

/-- A skip list with its nodes in their order. -/
structure Shape (zsl : Zskiplist) (order : List Nat) : Prop where
  /-- The header has all levels. -/
  header : zsl.height zsl.header = ZSKIPLIST_MAXLEVEL
  /-- A node has at least one level. -/
  low : ∀ x ∈ order, 0 < zsl.height x
  /-- A node has at most all levels. -/
  high : ∀ x ∈ order, zsl.height x ≤ ZSKIPLIST_MAXLEVEL
  /-- The nodes and the header are different. -/
  distinct : (zsl.header :: order).Nodup
  /-- The scores do not fall. -/
  sorted : order.Pairwise fun x y => zsl.scoreOf x ≤ zsl.scoreOf y
  /-- The chains of the levels. -/
  chain : ∀ i, i < ZSKIPLIST_MAXLEVEL → Follows (zsl.next i) (zsl.header :: zsl.tall i order)
  /-- There is a level. -/
  positive : 0 < zsl.level
  /-- The levels in use. -/
  covers : ∀ x ∈ order, zsl.height x ≤ zsl.level
  /-- The highest level has a node. -/
  reached : zsl.level = 1 ∨ ∃ x ∈ order, zsl.height x = zsl.level
  /-- The number of nodes. -/
  length : zsl.length = order.length

/-- A level that a node has can be read. -/
theorem forward_eq {zsl : Zskiplist} {x i : Nat} (below : i < zsl.height x) :
    zsl.forward x i = some (zsl.next i x) := by
  unfold Zskiplist.height at below
  unfold Zskiplist.forward Zskiplist.next
  cases found : zsl.nodes x with
  | none =>
    rw [found] at below
    exact absurd below (Nat.not_lt_zero i)
  | some node =>
    rw [found] at below
    exact if_pos below

/-- The score of a node can be read. -/
theorem score_eq {zsl : Zskiplist} {x : Nat} (node : 0 < zsl.height x) :
    zsl.score x = some (zsl.scoreOf x) := by
  unfold Zskiplist.height at node
  unfold Zskiplist.score Zskiplist.scoreOf
  cases found : zsl.nodes x with
  | none =>
    rw [found] at node
    exact absurd node (Nat.lt_irrefl 0)
  | some node => rfl

/-- No level in use is above the highest. -/
theorem Shape.level_le {zsl : Zskiplist} {order : List Nat} (shape : Shape zsl order) :
    zsl.level ≤ ZSKIPLIST_MAXLEVEL := by
  rcases shape.reached with one | ⟨x, member, reached⟩
  · rw [one]
    decide
  · rw [← reached]
    exact shape.high x member

/-- The levels are lists of their own when the order is split. -/
theorem tall_append (zsl : Zskiplist) (i : Nat) (before behind : List Nat) :
    zsl.tall i (before ++ behind) = zsl.tall i before ++ zsl.tall i behind :=
  List.filter_append ..

/-- A node that is high enough is on the level. -/
theorem tall_cons_pos {zsl : Zskiplist} {i x : Nat} (high : i < zsl.height x)
    (order : List Nat) : zsl.tall i (x :: order) = x :: zsl.tall i order := by
  simp [Zskiplist.tall, high]

/-- A node that is not high enough is not. -/
theorem tall_cons_neg {zsl : Zskiplist} {i x : Nat} (low : ¬ i < zsl.height x)
    (order : List Nat) : zsl.tall i (x :: order) = zsl.tall i order := by
  simp [Zskiplist.tall, low]

/-- A walk along a level goes as far as the scores are smaller. -/
theorem advance_walk {zsl : Zskiplist} {score : UInt64} {i : Nat} {behind : List Nat}
    (stops : ∀ y ∈ behind, ¬ zsl.scoreOf y < score) (nodes : ∀ y ∈ behind, i < zsl.height y)
    (passed : List Nat) : ∀ (before : List Nat) (x : Nat),
      Follows (zsl.next i) (before ++ x :: (passed ++ behind)) → i < zsl.height x →
      (∀ y ∈ passed, i < zsl.height y ∧ zsl.scoreOf y < score) →
      Leaves (fun fuel => loop (advancePass zsl score i) fuel x) (some (passed.getLastD x)) := by
  induction passed with
  | nil =>
    intro before x follows tall _
    apply leaves_now
    have next := follows.next_eq
    rw [List.nil_append] at next
    simp only [advancePass, forward_eq tall, next]
    cases behind with
    | nil => rfl
    | cons y behind =>
      have member : y ∈ y :: behind := List.mem_cons_self
      have node : 0 < zsl.height y := Nat.lt_of_le_of_lt (Nat.zero_le i) (nodes y member)
      simp only [List.head?_cons, score_eq node, if_neg (stops y member)]
      rfl
  | cons y passed ih =>
    intro before x follows tall smaller
    obtain ⟨high, less⟩ := smaller y List.mem_cons_self
    have node : 0 < zsl.height y := Nat.lt_of_le_of_lt (Nat.zero_le i) high
    have next := follows.next_eq
    have pass : advancePass zsl score i x = .inl y := by
      simp only [advancePass, forward_eq tall, next, List.cons_append, List.head?_cons,
        score_eq node, if_pos less]
    apply leaves_next pass
    have split : before ++ x :: (y :: passed ++ behind) =
        (before ++ [x]) ++ y :: (passed ++ behind) := by simp
    rw [split] at follows
    have rest := ih (before ++ [x]) y follows high
      (fun z member => smaller z (List.mem_cons_of_mem y member))
    rw [List.getLastD_cons]
    exact rest

/-- Behind the place of a score no score is smaller. -/
theorem dropWhile_ge {zsl : Zskiplist} {score : UInt64} {order : List Nat}
    (sorted : order.Pairwise fun x y => zsl.scoreOf x ≤ zsl.scoreOf y) :
    ∀ y ∈ order.dropWhile fun x => zsl.scoreOf x < score, ¬ zsl.scoreOf y < score := by
  induction order with
  | nil =>
    intro y member
    cases member
  | cons x order ih =>
    obtain ⟨first, rest⟩ := List.pairwise_cons.mp sorted
    intro y member
    by_cases less : zsl.scoreOf x < score
    · rw [List.dropWhile_cons_of_pos (by simpa using less)] at member
      exact ih rest y member
    · rw [List.dropWhile_cons_of_neg (by simpa using less)] at member
      rcases List.mem_cons.mp member with here | later
      · rw [here]
        exact less
      · intro smaller
        exact less (UInt64.lt_of_le_of_lt (first y later) smaller)

/-- The nodes with a smaller score. -/
def Zskiplist.before (zsl : Zskiplist) (order : List Nat) (score : UInt64) : List Nat :=
  order.takeWhile fun x => zsl.scoreOf x < score

/-- The other nodes. -/
def Zskiplist.behind (zsl : Zskiplist) (order : List Nat) (score : UInt64) : List Nat :=
  order.dropWhile fun x => zsl.scoreOf x < score

/-- The last node, or the header, with a smaller score on a level. -/
def Zskiplist.pred (zsl : Zskiplist) (before : List Nat) (i : Nat) : Nat :=
  (zsl.tall i before).getLastD zsl.header

/-- The place of a score splits the list. -/
theorem before_append_behind (zsl : Zskiplist) (order : List Nat) (score : UInt64) :
    zsl.before order score ++ zsl.behind order score = order :=
  List.takeWhile_append_dropWhile

/-- The node before the place of a score has the level. -/
theorem pred_height {zsl : Zskiplist} {before : List Nat} {i : Nat}
    (header : zsl.height zsl.header = ZSKIPLIST_MAXLEVEL) (below : i < ZSKIPLIST_MAXLEVEL) :
    i < zsl.height (zsl.pred before i) := by
  have member : zsl.pred before i ∈ zsl.header :: zsl.tall i before := List.getLastD_mem_cons
  rcases List.mem_cons.mp member with here | node
  · rw [here, header]
    exact below
  · have high := (List.mem_filter.mp node).2
    rw [decide_eq_true_eq] at high
    exact high

/-- The inner loop comes from the node of the level above to that of this level. -/
theorem advance_leaves {zsl : Zskiplist} {order : List Nat} (shape : Shape zsl order)
    (score : UInt64) {i : Nat} (below : i < ZSKIPLIST_MAXLEVEL) :
    Leaves (fun fuel => advance fuel zsl score i (zsl.pred (zsl.before order score) (i + 1)))
      (zsl.pred (zsl.before order score) i) := by
  have chain := shape.chain i below
  rw [← before_append_behind zsl order score, tall_append] at chain
  have member : zsl.pred (zsl.before order score) (i + 1) ∈
      zsl.header :: zsl.tall i (zsl.before order score) := by
    have above : zsl.pred (zsl.before order score) (i + 1) ∈
        zsl.header :: zsl.tall (i + 1) (zsl.before order score) := List.getLastD_mem_cons
    rcases List.mem_cons.mp above with here | node
    · rw [here]
      exact List.mem_cons_self
    · apply List.mem_cons_of_mem
      obtain ⟨inside, high⟩ := List.mem_filter.mp node
      rw [decide_eq_true_eq] at high
      apply List.mem_filter.mpr
      refine ⟨inside, ?_⟩
      rw [decide_eq_true_eq]
      exact Nat.lt_of_succ_lt high
  obtain ⟨front, passed, split⟩ := List.append_of_mem member
  have smaller : ∀ y ∈ passed, i < zsl.height y ∧ zsl.scoreOf y < score := by
    intro y inside
    have listed : y ∈ zsl.tall i (zsl.before order score) := by
      cases front with
      | nil =>
        rw [List.nil_append] at split
        rw [(List.cons.inj split).2]
        exact inside
      | cons first front =>
        rw [List.cons_append] at split
        rw [(List.cons.inj split).2]
        exact List.mem_append_right _ (List.mem_cons_of_mem _ inside)
    obtain ⟨early, high⟩ := List.mem_filter.mp listed
    have less := List.mem_takeWhile_imp early
    exact ⟨by simpa using high, by simpa using less⟩
  have high : i < zsl.height (zsl.pred (zsl.before order score) (i + 1)) := by
    rcases List.mem_cons.mp member with here | node
    · rw [here, shape.header]
      exact below
    · simpa using (List.mem_filter.mp node).2
  have follows : Follows (zsl.next i) (front ++ zsl.pred (zsl.before order score) (i + 1) ::
      (passed ++ zsl.tall i (zsl.behind order score))) := by
    rw [← List.cons_append, split, List.append_assoc, List.cons_append] at chain
    exact chain
  have stops : ∀ y ∈ zsl.tall i (zsl.behind order score), ¬ zsl.scoreOf y < score := by
    intro y inside
    exact dropWhile_ge shape.sorted y (List.mem_filter.mp inside).1
  have nodes : ∀ y ∈ zsl.tall i (zsl.behind order score), i < zsl.height y := by
    intro y inside
    simpa using (List.mem_filter.mp inside).2
  have walk := advance_walk stops nodes passed front _ follows high smaller
  have last : passed.getLastD (zsl.pred (zsl.before order score) (i + 1)) =
      zsl.pred (zsl.before order score) i := by
    have whole := dropLast_getLastD zsl.header (zsl.tall i (zsl.before order score))
    rw [split, ← dropLast_getLastD _ passed, ← List.append_assoc] at whole
    exact (List.singleton_inj.mp (List.append_inj' whole rfl).2).symm
  rw [last] at walk
  exact walk.bind (Leaves.of_forall fun _ => rfl)

/-- A search finds, on every level, the last node with a smaller score. -/
theorem search_leaves {zsl : Zskiplist} {order : List Nat} (shape : Shape zsl order)
    (score : UInt64) (i : Nat) (bound : i ≤ ZSKIPLIST_MAXLEVEL) :
    ∀ update : Nat → Option Nat, ∃ found : Nat × (Nat → Option Nat),
      Leaves (fun fuel =>
        search fuel zsl score i (zsl.pred (zsl.before order score) i) update) found ∧
      found.1 = zsl.pred (zsl.before order score) 0 ∧
      (∀ j, j < i → found.2 j = some (zsl.pred (zsl.before order score) j)) ∧
      ∀ j, i ≤ j → found.2 j = update j := by
  induction i with
  | zero =>
    intro update
    refine ⟨(zsl.pred (zsl.before order score) 0, update), Leaves.of_forall fun _ => rfl, rfl,
      ?_, fun _ _ => rfl⟩
    intro j below
    exact absurd below (Nat.not_lt_zero j)
  | succ i ih =>
    intro update
    obtain ⟨found, leaves, last, lower, upper⟩ := ih (by omega)
      (Function.update update i (some (zsl.pred (zsl.before order score) i)))
    refine ⟨found, (advance_leaves shape score (by omega)).bind leaves, last, ?_, ?_⟩
    · intro j below
      by_cases here : j = i
      · rw [upper j (by omega), here, Function.update_self]
      · exact lower j (by omega)
    · intro j above
      rw [upper j (by omega), Function.update_of_ne (by omega)]

/-- A search from the header. -/
theorem search_header {zsl : Zskiplist} {order : List Nat} (shape : Shape zsl order)
    (score : UInt64) : ∃ found : Nat × (Nat → Option Nat),
      Leaves (fun fuel => search fuel zsl score zsl.level zsl.header fun _ => none) found ∧
      found.1 = zsl.pred (zsl.before order score) 0 ∧
      ∀ j, j < zsl.level → found.2 j = some (zsl.pred (zsl.before order score) j) := by
  have top : zsl.pred (zsl.before order score) zsl.level = zsl.header := by
    have empty : zsl.tall zsl.level (zsl.before order score) = [] := by
      apply List.filter_eq_nil_iff.mpr
      intro x member
      have present : x ∈ order := by
        rw [← before_append_behind zsl order score]
        exact List.mem_append_left _ member
      have low := shape.covers x present
      rw [decide_eq_true_eq]
      omega
    rw [Zskiplist.pred, empty]
    rfl
  obtain ⟨found, leaves, last, lower, _⟩ :=
    search_leaves shape score zsl.level shape.level_le fun _ => none
  rw [top] at leaves
  exact ⟨found, leaves, last, lower⟩

end BackendCpp.Skiplist
