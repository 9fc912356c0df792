import BackendCpp.Ngx.Comparisons
import BackendCpp.RbtreeC.Successor

/-!
# The first and the next node

`ngx_rbtree_next` climbs until it comes from a left child, or to the root: there the node itself
is compared with the header, since the parent field of the root may point anywhere. So a loop
from `ngx_rbtree_min` of the root over `ngx_rbtree_next` meets the entries in order.
-/

namespace BackendCpp.Ngx

open BackendCpp.Library
open RbtreeC (Addr Cell Focus ptr following Valid)

section climb

variable {T : NgxRbtree} {path : List (Frame Cell)}

/-- The upward loop of `ngx_rbtree_next` ends at the first node after the focus. -/
theorem nextClimb_spec {t : ColouredTree Cell} (focus : Focus (recode T) path t)
    (node : t ≠ .leaf) :
    Leaves (fun fuel => loop (ngxRbtreeNextPass T) fuel (ptr T.sentinel t))
      (following NULL (after path)) := by
  induction path generalizing t with
  | nil =>
    have root : T.root = ptr T.sentinel t := focus.hung
    exact leaves_now (if_pos root.symm)
  | cons frame path ih =>
    have apart := focus.ptr_ne_sibling (Or.inl node)
    have below : ¬ ptr T.sentinel t = T.root := focus.root_ne
    have raw : (T.mem (ptr T.sentinel t)).parent = frame.item.addr :=
      raw_parent focus (focus.parent node)
    have stored := focus.read_above
    obtain ⟨side, c, item, sibling⟩ := frame
    cases side with
    | left =>
      have left : ptr T.sentinel t = (T.mem item.addr).left := by
        rw [← recode_left, stored]
        rfl
      have pass : ngxRbtreeNextPass T (ptr T.sentinel t) = .inr item.addr := by
        unfold ngxRbtreeNextPass
        rw [raw]
        exact (if_neg below).trans (if_pos left)
      exact leaves_now pass
    | right =>
      have left : (T.mem item.addr).left = ptr T.sentinel sibling := by
        rw [← recode_left, stored]
        rfl
      have other : ¬ ptr T.sentinel t = (T.mem item.addr).left := by
        rw [left]
        exact apart
      have pass : ngxRbtreeNextPass T (ptr T.sentinel t) = .inl item.addr := by
        unfold ngxRbtreeNextPass
        rw [raw]
        exact (if_neg below).trans (if_neg other)
      have above := ih focus.up (by simp [ColouredTree.join])
      exact leaves_next pass above

/-- `ngx_rbtree_next` of a node in focus is the first node after it in order. -/
theorem focus_next {c : Colour} {left right : ColouredTree Cell} {cell : Cell}
    (focus : Focus (recode T) path (.node c left cell right)) :
    Leaves (fun fuel => ngxRbtreeNext fuel T cell.addr)
      (following NULL (right.items ++ after path)) := by
  have fromRight : Focus (recode T) path (.join .right c right cell left) := focus
  have rightAt : (T.mem cell.addr).right = ptr T.sentinel right := by
    rw [← recode_right, focus.stored.1]
    rfl
  unfold ngxRbtreeNext
  rw [rightAt]
  by_cases empty : right = .leaf
  · subst empty
    simp only [RbtreeC.ptr_leaf, ne_eq, not_true_eq_false, if_false]
    exact nextClimb_spec focus (by simp)
  · have inner : ptr T.sentinel right ≠ T.sentinel :=
      fun clash => empty (fromRight.down.ptr_eq_nil.mp clash)
    obtain ⟨lower, d, y, r, whole, first, leaves⟩ := RbtreeC.rbtreeMini_spec fromRight.down empty
    have items : right.items = y :: (r.items ++ after lower) := by
      rw [whole, items_fill, first]
      rfl
    rw [items]
    simp only [if_pos inner]
    exact leaves

end climb

/-- The node of the first of some entries, or `NULL`. -/
def firstNode : List Entry → Addr
  | [] => NULL
  | entry :: _ => entry.node

/-- The first cell is that of the first entry. -/
theorem following_cells (entries : List Entry) :
    following NULL (entries.map Entry.cell) = firstNode entries := by
  cases entries <;> rfl

/-- `ngx_rbtree_next` of the node of an entry is the node of the next one. -/
theorem Represents.next {T : NgxRbtree} {s : Addr} {low high : List Entry} {entry : Entry}
    (represents : Represents s T (low ++ entry :: high)) :
    Leaves (fun fuel => ngxRbtreeNext fuel T entry.node) (firstNode high) := by
  unfold Represents at represents
  rw [List.map_append, List.map_cons] at represents
  obtain ⟨path, c, left, right, focus, rest⟩ := represents.focus_at
  have next := focus_next focus
  rw [rest, following_cells] at next
  exact next

/-- `ngx_rbtree_min` of the root of a tree that is not empty is the node of the first entry. -/
theorem Represents.min {T : NgxRbtree} {s : Addr} {entry : Entry} {rest : List Entry}
    (represents : Represents s T (entry :: rest)) :
    T.root ≠ T.sentinel ∧ Leaves (fun fuel => ngxRbtreeMin fuel T T.root) entry.node := by
  have nonempty : T.root ≠ T.sentinel := by
    obtain ⟨-, t, shape, -, items⟩ := represents
    intro empty
    have leaf := (RbtreeC.focus_iff.mpr shape : Focus (recode T) [] t).ptr_eq_nil.mp
      (shape.root.symm.trans empty)
    rw [leaf] at items
    cases items
  exact ⟨nonempty, Valid.mini represents nonempty⟩

/-- The tree of no entries is empty. -/
theorem Represents.empty {T : NgxRbtree} {s : Addr} (represents : Represents s T []) :
    T.root = T.sentinel := by
  by_contra nonempty
  have reach := (represents.reach_iff T.root).mp (Reach.root nonempty)
  cases reach

/-- In every run, whatever the comparison of the insertions, the memory is a red-black tree on the
nodes that were inserted and not deleted. A loop that starts at `ngx_rbtree_min` of the root, if
there is one, and goes on with `ngx_rbtree_next` meets each of them once, in the order of the tree,
and then finds `NULL`. -/
theorem next_meets_all {less : UInt32 → UInt32 → Bool} {mem : Addr → NgxRbtreeNode} {s : Addr}
    {trace : List Call} {T : NgxRbtree} (run : Run (Step less) (ngxRbtreeInit mem s) trace T) :
    ∃ current, Spells T current ∧ current.Perm (entries less trace) ∧
      (T.root = T.sentinel ↔ current = []) ∧
      (∀ entry rest, current = entry :: rest →
        Leaves (fun fuel => ngxRbtreeMin fuel T T.root) entry.node) ∧
      (∀ low entry high, current = low ++ entry :: high →
        Leaves (fun fuel => ngxRbtreeNext fuel T entry.node) (firstNode high)) := by
  obtain ⟨current, represents, perm⟩ := run_represents_some run
  refine ⟨current, represents.spells, perm, ?_, ?_, ?_⟩
  · cases current with
    | nil => exact iff_of_true represents.empty rfl
    | cons entry rest => exact iff_of_false represents.min.1 (by simp)
  · rintro entry rest rfl
    exact represents.min.2
  · rintro low entry high rfl
    exact represents.next

/-- The nodes of the three keys around the wrap are met. -/
theorem next_meets_all_wrapping : ∃ T first,
    Run (Step timerLess) (ngxRbtreeInit rawMemory 9) wrapping T ∧
      Leaves (fun fuel => ngxRbtreeMin fuel T T.root) first := by
  obtain ⟨T, run⟩ := exists_run rawMemory 9
    (show mayAll timerLess 9 [] wrapping = true by decide) wrapping_windowed.reliable
  obtain ⟨current, -, perm, -, first, -⟩ := next_meets_all run
  cases current with
  | nil =>
    have none := perm.length_eq
    rw [show (entries timerLess wrapping).length = 3 by decide] at none
    cases none
  | cons entry rest => exact ⟨T, entry.node, run, first entry rest rfl⟩

end BackendCpp.Ngx
