import BackendCpp.Library.RedBlack

/-!
# The climb of the fix-up, on trees

What the three written cases of `rbtree_insert_fixup` do to a red subtree below a path. The
red-uncle case moves the red node up two frames; LL closes the climb below a black node; LR
leaves a red node above a red one, which no later case takes away. So the climb ends in a
red-black tree exactly when it comes to a black father, or to LL, before it comes to the
root.
-/

namespace BackendCpp.RbtreeH

open BackendCpp.Library

variable {α : Type*}

/-- One pass of the fix-up: the path and the red subtree before and after it. -/
inductive Climb : List (Frame α) → ColouredTree α → List (Frame α) → ColouredTree α → Prop
  | uncle {inner outer : Side} {p g : α} {sibling uncle t : ColouredTree α} {up : List (Frame α)}
      (uncle_red : uncle.colour = .red) :
      Climb (⟨inner, .red, p, sibling⟩ :: ⟨outer, .black, g, uncle⟩ :: up) t up
        (.join outer .red (.join inner .black t p sibling) g (uncle.paint .black))
  | ll {p g : α} {sibling uncle t : ColouredTree α} {up : List (Frame α)}
      (uncle_black : uncle.colour = .black) :
      Climb (⟨.left, .red, p, sibling⟩ :: ⟨.left, .black, g, uncle⟩ :: up) t
        (⟨.left, .black, p, .node .red sibling g uncle⟩ :: up) t
  | lr {p g z : α} {sibling uncle near far : ColouredTree α} {up : List (Frame α)}
      (uncle_black : uncle.colour = .black) :
      Climb (⟨.right, .red, p, sibling⟩ :: ⟨.left, .black, g, uncle⟩ :: up)
        (.node .red near z far) up
        (.node .red (.node .black sibling p near) z (.node .red far g uncle))

/-- Climbing over red uncles from the hole one comes to a black father, or to LL, before one
comes to the root. -/
def Mendable : List (Frame α) → Prop
  | [] => False
  | [frame] => frame.colour = .black
  | frame :: next :: up =>
    frame.colour = .black ∨ (next.sibling.colour = .red ∧ Mendable up) ∨
      (next.sibling.colour = .black ∧ next.side = .left ∧ frame.side = .left)

/-- A black father ends the climb. -/
theorem mendable_black {frame : Frame α} (dark : frame.colour = .black) (up : List (Frame α)) :
    Mendable (frame :: up) := by
  cases up with
  | nil => exact dark
  | cons next up => exact Or.inl dark

/-- The climb cannot end well: the subtree is out of balance, or the path does not mend a red
node. -/
def Spoiled (path : List (Frame α)) (t : ColouredTree α) : Prop :=
  (∀ height, ¬ t.Balanced height) ∨ ¬ Mendable path

section steps

variable {path path' : List (Frame α)} {t t' : ColouredTree α}

/-- A pass shortens the path. -/
theorem Climb.shorter (climb : Climb path t path' t') : path'.length < path.length := by
  cases climb <;> simp

/-- A pass goes on at a red node. -/
theorem Climb.red (climb : Climb path t path' t') (red : t.colour = .red) : t'.colour = .red := by
  cases climb with
  | uncle => exact ColouredTree.colour_join ..
  | ll => exact red
  | lr => rfl

/-- A pass keeps the in-order sequence. -/
theorem Climb.items (climb : Climb path t path' t') :
    (fill path' t').items = (fill path t).items := by
  cases climb with
  | @uncle inner outer =>
    refine items_fill_congr path' ?_
    cases outer <;> cases inner <;> simp [ColouredTree.join, ColouredTree.items]
  | @ll _ _ _ _ _ up =>
    refine items_fill_congr up ?_
    simp [ColouredTree.join, ColouredTree.items]
  | lr =>
    refine items_fill_congr _ ?_
    simp [ColouredTree.join, ColouredTree.items]

/-- A pass from a balanced subtree whose path mends it leads to another such, and a spoiled
climb stays spoiled. -/
theorem Climb.accepts {height : Nat} (climb : Climb path t path' t')
    (accepts : Accepts path .black height) :
    ∃ height', Accepts path' .black height' ∧
      (t.Balanced height → Mendable path → t'.Balanced height' ∧ Mendable path') ∧
      (Spoiled path t → Spoiled path' t') := by
  cases climb with
  | @uncle inner outer p g sibling uncle _ _ uncle_red =>
    obtain ⟨-, siblingBlack, siblingBalanced, uncleBalanced, acceptsUp⟩ := accepts
    have mends : Mendable (⟨inner, .red, p, sibling⟩ :: ⟨outer, .black, g, uncle⟩ :: path') ↔
        Mendable path' := by
      simp [Mendable, uncle_red]
    obtain ⟨uncleNear, u, uncleFar, uncleJoin⟩ := ColouredTree.exists_join inner
      (show uncle ≠ .leaf by
        rintro rfl
        simp at uncle_red)
    rw [uncle_red] at uncleJoin
    refine ⟨height + 1, acceptsUp, fun balanced mendable => ⟨?_, mends.mp mendable⟩, ?_⟩
    · rw [uncleJoin, ColouredTree.paint_join]
      rw [uncleJoin] at uncleBalanced
      simp only [ColouredTree.balanced_join_red, ColouredTree.balanced_join_black,
        ColouredTree.colour_join, true_and] at uncleBalanced ⊢
      exact ⟨⟨balanced, siblingBalanced⟩, uncleBalanced.2.2⟩
    · rintro (unbalanced | lost)
      · left
        intro other balanced
        have inside := (ColouredTree.balanced_join_red.mp balanced).2.2.1
        obtain ⟨lower, rfl⟩ := ColouredTree.exists_height_of_black inside
        exact unbalanced lower (ColouredTree.balanced_join_black.mp inside).1
      · exact Or.inr fun mendable => lost (mends.mpr mendable)
  | @ll p g sibling uncle _ up uncle_black =>
    obtain ⟨-, siblingBlack, siblingBalanced, uncleBalanced, acceptsUp⟩ := accepts
    have closed : Mendable (⟨.left, .black, p, .node .red sibling g uncle⟩ :: up) :=
      mendable_black rfl up
    refine ⟨height, ⟨⟨siblingBlack, uncle_black, siblingBalanced, uncleBalanced⟩, acceptsUp⟩,
      fun balanced _ => ⟨balanced, closed⟩, ?_⟩
    rintro (unbalanced | lost)
    · exact Or.inl unbalanced
    · exact absurd (Or.inr (Or.inr ⟨uncle_black, rfl, rfl⟩)) lost
  | @lr p g z sibling uncle near far _ uncle_black =>
    obtain ⟨-, -, -, -, acceptsUp⟩ := accepts
    refine ⟨height + 1, acceptsUp, fun _ mendable => ?_, fun _ => Or.inl ?_⟩
    · simp [Mendable, uncle_black] at mendable
    · intro other balanced
      exact absurd balanced.2.1 (by simp)

/-- Where the father is black, or there is none, a balanced subtree with a mending path is part
of a red-black tree, and a spoiled one is not. -/
theorem redBlack_of_climb {height : Nat} (red : t.colour = .red)
    (accepts : Accepts path .black height)
    (top : path = [] ∨ ∃ frame up, path = frame :: up ∧ frame.colour = .black) :
    (t.Balanced height → Mendable path → (fill path t).RedBlack) ∧
      (Spoiled path t → ¬ (fill path t).RedBlack) := by
  constructor
  · intro balanced mendable
    rcases top with rfl | ⟨⟨side, c, item, sibling⟩, up, rfl, dark⟩
    · exact mendable.elim
    · cases dark
      exact (redBlack_fill ..).mpr ⟨height, balanced, accepts⟩
  · intro spoiled redBlack
    rcases spoiled with unbalanced | lost
    · obtain ⟨other, balanced, -⟩ := (redBlack_fill ..).mp redBlack
      exact unbalanced other balanced
    · rcases top with rfl | ⟨frame, up, rfl, dark⟩
      · exact absurd (red.symm.trans redBlack.1) (by simp)
      · exact lost (mendable_black dark up)

end steps

end BackendCpp.RbtreeH
