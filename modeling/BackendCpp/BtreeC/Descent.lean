import BackendCpp.BtreeC.Shape

/-!
# The way of a deletion

A deletion goes down from the root. In a node that has the key it takes a key from a child with at
least `t` keys in its place and goes on with the key taken; a child with `t - 1` keys gets a key
from a neighbour or is joined with one before it is entered. This is said of trees here, as one
function for what a call does and one relation for its cases.
-/

namespace BackendCpp.BtreeC

open BackendCpp.Library

namespace Tree

/-- Two neighbours and the key between them in one node. -/
def joined (l : Tree) (m : Int) (r : Tree) : Tree :=
  ⟨l.address, l.keys ++ m :: r.keys, l.children ++ r.children⟩

/-- A node with the key above and the first child of the next node. -/
def withNext (c : Tree) (m : Int) (r : Tree) : Tree :=
  ⟨c.address, c.keys ++ [m], c.children ++ r.children.head?.toList⟩

/-- A node without its first key and child. -/
def withoutFirst (r : Tree) : Tree := ⟨r.address, r.keys.tail, r.children.tail⟩

/-- A node with the key above and the last child of the node before. -/
def withPrevious (l : Tree) (m : Int) (c : Tree) : Tree :=
  ⟨c.address, m :: c.keys, l.children.getLast?.toList ++ c.children⟩

/-- A node without its last key and child. -/
def withoutLast (l : Tree) : Tree := ⟨l.address, l.keys.dropLast, l.children.dropLast⟩

/-- The node after "borrow from next". -/
def fromNext (front : List (Tree × Int)) (c : Tree) (m : Int) (r : Tree)
    (back : List (Int × Tree)) : Focus Int Tree :=
  ⟨front, c.withNext m r, (r.keys.headD 0, r.withoutFirst) :: back⟩

/-- The node after "borrow from prev". -/
def fromPrevious (front : List (Tree × Int)) (l : Tree) (m : Int) (c : Tree)
    (back : List (Int × Tree)) : Focus Int Tree :=
  ⟨(l.withoutLast, l.keys.getLastD 0) :: front, l.withPrevious m c, back⟩

/-- What is done about a child in focus that has `t - 1` keys. -/
def refilled (t : Nat) (f : Focus Int Tree) : Focus Int Tree :=
  match f.front, f.back with
  | [], [] => f
  | [], (m, r) :: back =>
    if t ≤ r.keys.length then fromNext [] f.child m r back else ⟨[], joined f.child m r, back⟩
  | (l, m) :: front, [] =>
    if t ≤ l.keys.length then fromPrevious front l m f.child []
    else ⟨front, joined l m f.child, []⟩
  | (l, m) :: front, (m', r) :: back =>
    if t ≤ r.keys.length ∧ l.keys.length < r.keys.length then
      fromNext ((l, m) :: front) f.child m' r back
    else if t ≤ l.keys.length then fromPrevious front l m f.child ((m', r) :: back)
    else ⟨front, joined l m f.child, (m', r) :: back⟩

/-- The node when the next call is made, with the child for the call, and the key of the call. -/
def descend (t : Nat) (key : Int) (f : Focus Int Tree) : Focus Int Tree × Int :=
  let passed := if f.child.keys.length = t - 1 then refilled t f else f
  match f.back with
  | [] => (passed, key)
  | (m, r) :: back =>
    if m = key then
      if t ≤ f.child.keys.length then
        (⟨f.front, f.child, (f.child.keys.getLastD 0, r) :: back⟩, f.child.keys.getLastD 0)
      else if t ≤ r.keys.length then
        (⟨(f.child, r.keys.headD 0) :: f.front, r, back⟩, r.keys.headD 0)
      else (⟨f.front, joined f.child m r, back⟩, key)
    else (passed, key)

/-- The place of a key among the children: the keys before it are less, the one behind it is not. -/
def place (key : Int) (x : Tree) : Option (Focus Int Tree) :=
  (Focus.first x.keys x.children).map fun f =>
    Focus.seek (fun m => decide (m < key)) f.front f.child f.back

/-- The cases of `refilled`. -/
inductive Refills (t : Nat) : Focus Int Tree → Focus Int Tree → Prop
  /-- "borrow from next". -/
  | next {front : List (Tree × Int)} {c : Tree} {m : Int} {r : Tree} {back : List (Int × Tree)}
    (rich : t ≤ r.keys.length)
    (more : ∀ pair ∈ front.head?, pair.1.keys.length < r.keys.length) :
    Refills t ⟨front, c, (m, r) :: back⟩ (fromNext front c m r back)
  /-- "borrow from prev". -/
  | previous {front : List (Tree × Int)} {l : Tree} {m : Int} {c : Tree} {back : List (Int × Tree)}
    (rich : t ≤ l.keys.length)
    (more : ∀ pair ∈ back.head?, pair.2.keys.length ≤ l.keys.length) :
    Refills t ⟨(l, m) :: front, c, back⟩ (fromPrevious front l m c back)
  /-- A merge with the node before. -/
  | joinPrevious {front : List (Tree × Int)} {l : Tree} {m : Int} {c : Tree}
    {back : List (Int × Tree)} (poor : l.keys.length = t - 1)
    (other : ∀ pair ∈ back.head?, pair.2.keys.length = t - 1) :
    Refills t ⟨(l, m) :: front, c, back⟩ ⟨front, joined l m c, back⟩
  /-- A merge with the next node. -/
  | joinNext {c : Tree} {m : Int} {r : Tree} {back : List (Int × Tree)}
    (poor : r.keys.length = t - 1) :
    Refills t ⟨[], c, (m, r) :: back⟩ ⟨[], joined c m r, back⟩

/-- The cases of `descend`. -/
inductive Descends (t : Nat) (key : Int) : Focus Int Tree → Focus Int Tree → Int → Prop
  /-- The last key of the child in front of the key is taken. -/
  | last {front : List (Tree × Int)} {c r : Tree} {back : List (Int × Tree)} {low : List Int}
    {taken : Int} (rich : t ≤ c.keys.length) (keys : c.keys = low ++ [taken]) :
    Descends t key ⟨front, c, (key, r) :: back⟩ ⟨front, c, (taken, r) :: back⟩ taken
  /-- The first key of the child behind the key is taken. -/
  | first {front : List (Tree × Int)} {c r : Tree} {back : List (Int × Tree)} {high : List Int}
    {taken : Int} (poor : c.keys.length = t - 1) (rich : t ≤ r.keys.length)
    (keys : r.keys = taken :: high) :
    Descends t key ⟨front, c, (key, r) :: back⟩ ⟨(c, taken) :: front, r, back⟩ taken
  /-- The children on both sides of the key are joined. -/
  | join {front : List (Tree × Int)} {c r : Tree} {back : List (Int × Tree)}
    (poor : c.keys.length = t - 1) (other : r.keys.length = t - 1) :
    Descends t key ⟨front, c, (key, r) :: back⟩ ⟨front, joined c key r, back⟩ key
  /-- The child is entered as it is. -/
  | stay {f : Focus Int Tree} (absent : ∀ pair ∈ f.back.head?, pair.1 ≠ key)
    (enough : t ≤ f.child.keys.length) : Descends t key f f key
  /-- The child is entered after `refilled`. -/
  | refill {f f' : Focus Int Tree} (absent : ∀ pair ∈ f.back.head?, pair.1 ≠ key)
    (poor : f.child.keys.length = t - 1) (refills : Refills t f f') : Descends t key f f' key

/-- The place of a key divides the keys. -/
structure Places (key : Int) (f : Focus Int Tree) : Prop where
  /-- The keys before are less. -/
  below : ∀ m ∈ f.low, m < key
  /-- The key behind is not. -/
  stop : ∀ m ∈ f.high.head?, ¬ m < key

/-- A node with children has a place for each key. -/
theorem exists_place (key : Int) {x : Tree} (fit : Fits false x.keys x.children) :
    ∃ f, place key x = some f ∧ ofFocus x.address f = x ∧ Places key f := by
  obtain ⟨f, first, front, keys, children⟩ := Focus.exists_first fit
  obtain ⟨sameKeys, sameChildren, passed, stopped⟩ :=
    Focus.seek_spec (fun m => decide (m < key)) f.front f.child f.back
  refine ⟨_, by rw [place, first, Option.map_some], ?_, ?_, ?_⟩
  · exact eq_ofFocus (sameKeys.trans keys) (sameChildren.trans children)
  · intro m member
    rw [front] at passed member
    rw [Focus.low, List.mem_reverse, List.mem_map] at member
    obtain ⟨pair, inside, same⟩ := member
    have less := passed (fun pair none => absurd none List.not_mem_nil) pair inside
    rw [← same]
    exact of_decide_eq_true less
  · intro m member
    rw [Focus.high] at member
    generalize found : (Focus.seek (fun m => decide (m < key)) f.front f.child f.back).back = back
      at member
    cases back with
    | nil => cases member
    | cons pair rest =>
      have same : pair.1 = m := Option.some.inj member
      have above := stopped pair.1 pair.2 rest found
      rw [← same]
      exact of_decide_eq_false above

/-- A leaf has no place. -/
theorem place_leaf (key : Int) {x : Tree} (empty : x.children = []) : place key x = none := by
  rw [place, empty]
  rfl

/-- The neighbours of a child that has one give it a key or are joined with it. -/
theorem refilled_refills {t n : Nat} {f : Focus Int Tree}
    (before : ∀ pair ∈ f.front, pair.1.Below t n) (after : ∀ pair ∈ f.back, pair.2.Below t n)
    (neighbour : f.keys ≠ []) : Refills t f (refilled t f) := by
  obtain ⟨front, c, back⟩ := f
  have poor : ∀ {x : Tree}, x.Below t n → ¬ t ≤ x.keys.length → x.keys.length = t - 1 := by
    intro x below few
    have least := below.1
    omega
  cases front with
  | nil =>
    cases back with
    | nil => exact absurd rfl neighbour
    | cons pair back =>
      obtain ⟨m, r⟩ := pair
      simp only [refilled]
      split
      · next rich => exact .next rich (fun pair none => absurd none (Option.not_mem_none pair))
      · next few => exact .joinNext (poor (after _ List.mem_cons_self) few)
  | cons pair front =>
    obtain ⟨l, m⟩ := pair
    cases back with
    | nil =>
      simp only [refilled]
      split
      · next rich => exact .previous rich (fun pair none => absurd none (Option.not_mem_none pair))
      · next few =>
        exact .joinPrevious (poor (before _ List.mem_cons_self) few)
          (fun pair none => absurd none (Option.not_mem_none pair))
    | cons pair back =>
      obtain ⟨m', r⟩ := pair
      simp only [refilled]
      split
      · next rich =>
        refine .next rich.1 fun pair member => ?_
        rw [← Option.some.inj member]
        exact rich.2
      · next fewer =>
        split
        · next rich =>
          refine .previous rich fun pair member => ?_
          rw [← Option.some.inj member]
          refine not_lt.mp fun more => fewer ⟨?_, more⟩
          exact rich.trans more.le
        · next few =>
          refine .joinPrevious (poor (before _ List.mem_cons_self) few) fun pair member => ?_
          rw [← Option.some.inj member]
          refine poor (after _ List.mem_cons_self) fun rich => fewer ⟨rich, ?_⟩
          exact (not_le.mp few).trans_le rich

/-- The cases of what a call does. -/
theorem descend_descends {t n a : Nat} (key : Int) {f : Focus Int Tree} (two : 2 ≤ t)
    (filled : (ofFocus a f).Filled t (n + 2)) (neighbour : f.keys ≠ []) :
    Descends t key f (descend t key f).1 (descend t key f).2 := by
  obtain ⟨-, child, before, after⟩ := filled_focus.mp filled
  have refills := refilled_refills before after neighbour
  obtain ⟨front, c, back⟩ := f
  have least : t - 1 ≤ c.keys.length := child.1
  have passed : (∀ pair ∈ back.head?, pair.1 ≠ key) → Descends t key ⟨front, c, back⟩
      (if c.keys.length = t - 1 then refilled t ⟨front, c, back⟩ else ⟨front, c, back⟩) key := by
    intro absent
    split
    · next poor => exact .refill absent poor refills
    · next differs => exact .stay absent (by change t ≤ c.keys.length; omega)
  cases back with
  | nil => exact passed (fun pair none => absurd none (Option.not_mem_none pair))
  | cons pair back =>
    obtain ⟨m, r⟩ := pair
    simp only [descend]
    split
    · next found =>
      subst found
      split
      · next rich =>
        obtain ⟨low, taken, keys⟩ := (List.eq_nil_or_concat' c.keys).resolve_left fun empty => by
          rw [empty, List.length_nil] at rich
          omega
        rw [keys, List.getLastD_concat]
        exact .last rich keys
      · next few =>
        have poor : c.keys.length = t - 1 := by omega
        split
        · next rich =>
          obtain ⟨taken, high, keys⟩ := List.exists_cons_of_ne_nil (l := r.keys) fun empty => by
            rw [empty, List.length_nil] at rich
            omega
          rw [keys, List.headD_cons]
          exact .first poor rich keys
        · next few' =>
          have least' : t - 1 ≤ r.keys.length := (after _ List.mem_cons_self).1
          exact .join poor (by omega)
    · next differs =>
      refine passed fun pair member => ?_
      rw [← Option.some.inj member]
      exact differs

/-- The two parts of a node, when neither has too many keys. -/
theorem Joins.parts {t n : Nat} {x u v : Tree} {m : Int} (joins : Joins n x u m v)
    (below : ∀ c ∈ x.children, c.Below t n) (left : u.keys.length ≤ 2 * t - 1)
    (right : v.keys.length ≤ 2 * t - 1) : u.Filled t (n + 1) ∧ v.Filled t (n + 1) := by
  rw [joins.children] at below
  exact ⟨⟨joins.first, left, fun c member => below c (List.mem_append_left _ member)⟩,
    ⟨joins.second, right, fun c member => below c (List.mem_append_right _ member)⟩⟩

section Neighbours

variable {t n : Nat} {l c r : Tree} {m k : Int} {low high : List Int}

/-- Two neighbours are joined. -/
theorem joins_joined (left : l.Filled t (n + 1)) (right : r.Filled t (n + 1)) :
    Joins n (joined l m r) l m r := ⟨rfl, rfl, left.1, right.1⟩

/-- The children of two neighbours. -/
theorem joined_below (left : l.Filled t (n + 1)) (right : r.Filled t (n + 1)) :
    ∀ x ∈ (joined l m r).children, x.Below t n := by
  intro x member
  cases List.mem_append.mp member with
  | inl before => exact left.2.2 x before
  | inr after => exact right.2.2 x after

/-- Two poor neighbours and the key between them make a full node. -/
theorem joined_length (poor : l.keys.length = t - 1) (other : r.keys.length = t - 1)
    (positive : 0 < t) : (joined l m r).keys.length = 2 * t - 1 := by
  simp only [joined, List.length_append, List.length_cons]
  omega

/-- The first key of a node and what is on both sides of it. -/
theorem joins_first (filled : r.Filled t (n + 1)) (keys : r.keys = k :: high) :
    Joins n r ⟨r.address, [], r.children.head?.toList⟩ k r.withoutFirst := by
  have number := filled.1
  rw [keys] at number
  refine ⟨by simp [withoutFirst, keys], ?_, ?_, ?_⟩
  · cases empty : r.children with
    | nil => simp [withoutFirst, empty]
    | cons first rest => simp [withoutFirst, empty]
  · cases n with
    | zero => simp [Fits, number.nil]
    | succ n =>
      obtain ⟨first, rest, parts⟩ := List.exists_cons_of_length_pos (l := r.children) (by
        simp [Fits] at number
        omega)
      simp [parts, Fits]
  · cases n with
    | zero => simp [withoutFirst, Fits, number.nil]
    | succ n =>
      simp [withoutFirst, keys, Fits] at number ⊢
      omega

/-- The last key of a node and what is on both sides of it. -/
theorem joins_last (filled : l.Filled t (n + 1)) (keys : l.keys = low ++ [k]) :
    Joins n l l.withoutLast k ⟨l.address, [], l.children.getLast?.toList⟩ := by
  have number := filled.1
  rw [keys] at number
  refine ⟨by simp [withoutLast, keys], ?_, ?_, ?_⟩
  · rcases List.eq_nil_or_concat' l.children with empty | ⟨rest, last, parts⟩
    · simp [withoutLast, empty]
    · simp [withoutLast, parts]
  · cases n with
    | zero => simp [withoutLast, Fits, number.nil]
    | succ n =>
      simp [withoutLast, keys, Fits] at number ⊢
      omega
  · cases n with
    | zero => simp [Fits, number.nil]
    | succ n =>
      obtain ⟨rest, last, parts⟩ := (List.eq_nil_or_concat' l.children).resolve_left fun empty => by
        simp [empty, Fits] at number
      simp [parts, Fits]

/-- "borrow from next" moves the boundary between two neighbours by one key. -/
theorem joins_fromNext (left : c.Filled t (n + 1)) (right : r.Filled t (n + 1))
    (keys : r.keys = k :: high) :
    Joins n (joined c m r) (c.withNext m r) k r.withoutFirst := by
  have parts := joins_first right keys
  refine ⟨?_, ?_, Fits.append m left.1 parts.first, parts.second⟩
  · rw [joined, withNext, parts.keys]
    simp
  · change c.children ++ r.children =
      c.children ++ r.children.head?.toList ++ r.withoutFirst.children
    rw [List.append_assoc, ← parts.children]

/-- "borrow from prev" moves the boundary between two neighbours by one key. -/
theorem joins_fromPrevious (left : l.Filled t (n + 1)) (right : c.Filled t (n + 1))
    (keys : l.keys = low ++ [k]) :
    Joins n (joined l m c) l.withoutLast k (l.withPrevious m c) := by
  have parts := joins_last left keys
  refine ⟨?_, ?_, parts.first, Fits.append m parts.second right.1⟩
  · rw [joined, withPrevious, parts.keys]
    simp
  · change l.children ++ c.children =
      l.withoutLast.children ++ (l.children.getLast?.toList ++ c.children)
    rw [← List.append_assoc, ← parts.children]

end Neighbours

/-- A node whose child in focus is ready to be entered. -/
structure Passes (t n a : Nat) (f f' : Focus Int Tree) : Prop where
  /-- The numbers of keys and children. -/
  filled : (ofFocus a f').Filled t (n + 2)
  /-- There are enough keys in the child. -/
  enough : t ≤ f'.child.keys.length
  /-- No key is added to the node. -/
  fewer : f'.keys.length ≤ f.keys.length
  /-- At most one key is taken from it. -/
  number : f.keys.length ≤ f'.keys.length + 1

/-- What is read around the child in focus was read around it before. -/
structure Narrows (n : Nat) (f f' : Focus Int Tree) : Prop where
  /-- The keys in order stay. -/
  text : f'.text (inorder (n + 1)) = f.text (inorder (n + 1))
  /-- What is read before the child. -/
  before : Focus.before (inorder (n + 1)) f'.front <+: Focus.before (inorder (n + 1)) f.front
  /-- What is read after the child. -/
  after : Focus.after (inorder (n + 1)) f'.back <:+ Focus.after (inorder (n + 1)) f.back

/-- Two neighbours are read as the node they make. -/
theorem text_joins {n : Nat} {x u v : Tree} {m : Int} (joins : Joins n x u m v)
    (front : List (Tree × Int)) (back : List (Int × Tree)) :
    Focus.text (inorder (n + 1)) ⟨front, u, (m, v) :: back⟩ =
      Focus.text (inorder (n + 1)) ⟨front, x, back⟩ := by
  simp only [Focus.text, joins.inorder, Focus.after_cons]
  simp

/-- The focus moves over a key. -/
theorem text_next (n : Nat) (front : List (Tree × Int)) (u : Tree) (m : Int) (v : Tree)
    (back : List (Int × Tree)) :
    Focus.text (inorder n) ⟨(u, m) :: front, v, back⟩ =
      Focus.text (inorder n) ⟨front, u, (m, v) :: back⟩ := by
  simp [Focus.text]

/-- Two poor neighbours that are joined are ready. -/
theorem passes_joined {t n a : Nat} {front : List (Tree × Int)} {c : Tree} {m : Int} {r : Tree}
    {back : List (Int × Tree)} (two : 2 ≤ t)
    (filled : (ofFocus a ⟨front, c, (m, r) :: back⟩).Filled t (n + 2))
    (poor : c.keys.length = t - 1) (other : r.keys.length = t - 1) :
    Passes t n a ⟨front, c, (m, r) :: back⟩ ⟨front, joined c m r, back⟩ := by
  obtain ⟨total, child, before, after⟩ := filled_focus.mp filled
  have right : r.Below t (n + 1) := after (m, r) List.mem_cons_self
  have size := joined_length (m := m) poor other (by omega)
  have whole := (joins_joined (m := m) child.2 right.2).of_filled child.2 right.2 size.le
  have number : (Focus.mk front c ((m, r) :: back)).keys.length =
      (Focus.mk front (joined c m r) back).keys.length + 1 := by
    simp [Focus.keys]
    omega
  refine ⟨filled_focus.mpr ⟨by omega, ⟨?_, whole⟩, before, fun pair member =>
    after pair (List.mem_cons_of_mem _ member)⟩, ?_, by omega, number.le⟩
  · change t - 1 ≤ (joined c m r).keys.length
    omega
  · change t ≤ (joined c m r).keys.length
    omega

/-- A child that has been refilled is ready. -/
theorem Refills.passes {t n a : Nat} {f f' : Focus Int Tree} (two : 2 ≤ t)
    (filled : (ofFocus a f).Filled t (n + 2)) (poor : f.child.keys.length = t - 1)
    (refills : Refills t f f') : Passes t n a f f' := by
  obtain ⟨total, child, before, after⟩ := filled_focus.mp filled
  cases refills with
  | @next front c m r back rich more =>
    have own : c.keys.length = t - 1 := poor
    have right : r.Below t (n + 1) := after (m, r) List.mem_cons_self
    obtain ⟨k, high, keys⟩ := List.exists_cons_of_length_pos (l := r.keys) (by omega)
    have size : r.keys.length = high.length + 1 := by rw [keys, List.length_cons]
    have room := right.2.2.1
    have parts := (joins_fromNext (m := m) child.2 right.2 keys).parts
      (joined_below child.2 right.2) (by simp [withNext]; omega) (by simp [withoutFirst]; omega)
    have number : (fromNext front c m r back).keys.length =
        (Focus.mk front c ((m, r) :: back)).keys.length := by simp [fromNext, Focus.keys]
    refine ⟨filled_focus.mpr ⟨number.trans_le total, ⟨?_, parts.1⟩, before, ?_⟩, ?_, number.le,
      by omega⟩
    · simp [fromNext, withNext, own]
    · refine List.forall_mem_cons.mpr ⟨⟨?_, parts.2⟩, fun pair member =>
        after pair (List.mem_cons_of_mem _ member)⟩
      simp [withoutFirst]
      omega
    · simp [fromNext, withNext, own]
      omega
  | @previous front l m c back rich more =>
    have own : c.keys.length = t - 1 := poor
    have left : l.Below t (n + 1) := before (l, m) List.mem_cons_self
    obtain ⟨low, k, keys⟩ := (List.eq_nil_or_concat' l.keys).resolve_left fun empty => by
      rw [empty, List.length_nil] at rich
      omega
    have size : l.keys.length = low.length + 1 := by simp [keys]
    have room := left.2.2.1
    have parts := (joins_fromPrevious (m := m) left.2 child.2 keys).parts
      (joined_below left.2 child.2) (by simp [withoutLast]; omega) (by simp [withPrevious]; omega)
    have number : (fromPrevious front l m c back).keys.length =
        (Focus.mk ((l, m) :: front) c back).keys.length := by simp [fromPrevious, Focus.keys]
    refine ⟨filled_focus.mpr ⟨number.trans_le total, ⟨?_, parts.2⟩, ?_, after⟩, ?_, number.le,
      by omega⟩
    · simp [fromPrevious, withPrevious, own]
    · refine List.forall_mem_cons.mpr ⟨⟨?_, parts.1⟩, fun pair member =>
        before pair (List.mem_cons_of_mem _ member)⟩
      simp [withoutLast]
      omega
    · simp [fromPrevious, withPrevious, own]
      omega
  | @joinPrevious front l m c back poor' other =>
    rw [← ofFocus_next] at filled
    have passes := passes_joined two filled poor' poor
    have size : (Focus.mk ((l, m) :: front) c back).keys.length =
        (Focus.mk front l ((m, c) :: back)).keys.length := by simp [Focus.keys]
    exact ⟨passes.filled, passes.enough, passes.fewer.trans size.ge, size.trans_le passes.number⟩
  | @joinNext c m r back poor' => exact passes_joined two filled poor poor'

/-- A refill changes nothing about what is read, and reads less beside the child. -/
theorem Refills.narrows {t n a : Nat} {f f' : Focus Int Tree} (two : 2 ≤ t)
    (filled : (ofFocus a f).Filled t (n + 2)) (refills : Refills t f f') : Narrows n f f' := by
  obtain ⟨-, child, before, after⟩ := filled_focus.mp filled
  cases refills with
  | @next front c m r back rich more =>
    have right : r.Below t (n + 1) := after (m, r) List.mem_cons_self
    obtain ⟨k, high, keys⟩ := List.exists_cons_of_length_pos (l := r.keys) (by omega)
    have old := joins_joined (m := m) child.2 right.2
    have new := joins_fromNext (m := m) child.2 right.2 keys
    have separator : r.keys.headD 0 = k := by rw [keys, List.headD_cons]
    refine ⟨?_, List.prefix_rfl, ?_⟩
    · rw [fromNext, separator, text_joins new, text_joins old]
    · have first := (joins_first right.2 keys).inorder
      refine ⟨m :: inorder (n + 1) ⟨r.address, [], r.children.head?.toList⟩, ?_⟩
      rw [fromNext, separator, Focus.after_cons, Focus.after_cons, first]
      simp
  | @previous front l m c back rich more =>
    have left : l.Below t (n + 1) := before (l, m) List.mem_cons_self
    obtain ⟨low, k, keys⟩ := (List.eq_nil_or_concat' l.keys).resolve_left fun empty => by
      rw [empty, List.length_nil] at rich
      omega
    have old := joins_joined (m := m) left.2 child.2
    have new := joins_fromPrevious (m := m) left.2 child.2 keys
    have separator : l.keys.getLastD 0 = k := by rw [keys, List.getLastD_concat]
    refine ⟨?_, ?_, List.suffix_rfl⟩
    · rw [fromPrevious, separator, text_next, text_next, text_joins new, text_joins old]
    · have last := (joins_last left.2 keys).inorder
      refine ⟨inorder (n + 1) ⟨l.address, [], l.children.getLast?.toList⟩ ++ [m], ?_⟩
      rw [fromPrevious, separator, Focus.before_cons, Focus.before_cons, last]
      simp
  | @joinPrevious front l m c back poor other =>
    have left : l.Below t (n + 1) := before (l, m) List.mem_cons_self
    refine ⟨?_, ?_, List.suffix_rfl⟩
    · rw [text_next, text_joins (joins_joined left.2 child.2)]
    · rw [Focus.before_cons]
      exact List.prefix_append _ _
  | @joinNext c m r back poor =>
    have right : r.Below t (n + 1) := after (m, r) List.mem_cons_self
    refine ⟨?_, List.prefix_rfl, ?_⟩
    · rw [text_joins (joins_joined child.2 right.2)]
    · exact ⟨m :: r.inorder (n + 1), by simp⟩

/-- The child for the next call is ready. -/
theorem Descends.passes {t n a : Nat} {key taken : Int} {f f' : Focus Int Tree} (two : 2 ≤ t)
    (filled : (ofFocus a f).Filled t (n + 2)) (descends : Descends t key f f' taken) :
    Passes t n a f f' := by
  obtain ⟨total, child, before, after⟩ := filled_focus.mp filled
  cases descends with
  | @last front c r back low _ rich keys =>
    have number : (Focus.mk front c ((taken, r) :: back)).keys.length =
        (Focus.mk front c ((key, r) :: back)).keys.length := by simp [Focus.keys]
    have after' := List.forall_mem_cons.mp after
    exact ⟨filled_focus.mpr ⟨number.trans_le total, child, before,
      List.forall_mem_cons.mpr ⟨after'.1, after'.2⟩⟩, rich, number.le, by omega⟩
  | @first front c r back high _ poor rich keys =>
    have number : (Focus.mk ((c, taken) :: front) r back).keys.length =
        (Focus.mk front c ((key, r) :: back)).keys.length := by simp [Focus.keys]
    have after' := List.forall_mem_cons.mp after
    exact ⟨filled_focus.mpr ⟨number.trans_le total, after'.1,
      List.forall_mem_cons.mpr ⟨child, before⟩, after'.2⟩, rich, number.le, by omega⟩
  | join poor other => exact passes_joined two filled poor other
  | stay absent enough => exact ⟨filled, enough, le_rfl, Nat.le_succ _⟩
  | refill absent poor refills => exact refills.passes two filled poor

/-- The key that is taken from a child is not the one next to the key that is deleted. -/
def Misplaces (t n : Nat) (key : Int) (f : Focus Int Tree) : Prop :=
  match f.back with
  | [] => False
  | (m, r) :: _ => m = key ∧
    if t ≤ f.child.keys.length then ∃ value ∈ f.child.inorder n, f.child.keys.getLastD 0 < value
    else t ≤ r.keys.length ∧ ∃ value ∈ r.inorder n, value < r.keys.headD 0

/-- A key that is not found is not beside the child for it. -/
theorem Places.apart {n : Nat} {key : Int} {f : Focus Int Tree} (places : Places key f)
    (sorted : Ascending (f.text (inorder n))) (absent : ∀ pair ∈ f.back.head?, pair.1 ≠ key) :
    key ∉ Focus.before (inorder n) f.front ∧ key ∉ Focus.after (inorder n) f.back := by
  obtain ⟨front, c, back⟩ := f
  have parts := List.pairwise_append.mp sorted
  have rest := List.pairwise_append.mp parts.2.1
  constructor
  · intro member
    cases front with
    | nil => cases member
    | cons pair front =>
      obtain ⟨previous, m⟩ := pair
      have less : m < key := places.below m (by simp [Focus.low])
      exact absurd (before_le parts.1 key member) (not_le.mpr less)
  · intro member
    cases back with
    | nil => cases member
    | cons pair back =>
      obtain ⟨m, later⟩ := pair
      have above : ¬ m < key := places.stop m rfl
      have differs : m ≠ key := absent (m, later) rfl
      have first := le_after rest.2.1 key member
      omega

/-- What is read when a key has been deleted below a node that is read as before. -/
theorem text_erased {n : Nat} {key : Int} {f f' : Focus Int Tree} {text : List Int}
    (sorted : Ascending (f.text (inorder n))) (same : f'.text (inorder n) = f.text (inorder n))
    (less : text.Perm ((f'.child.inorder n).erase key))
    (apart : key ∈ f'.child.inorder n ∨
      key ∉ Focus.before (inorder n) f'.front ∧ key ∉ Focus.after (inorder n) f'.back) :
    (Focus.before (inorder n) f'.front ++ (text ++ Focus.after (inorder n) f'.back)).Perm
      ((f.text (inorder n)).erase key) ∧
    (Ascending (Focus.before (inorder n) f'.front ++
      (text ++ Focus.after (inorder n) f'.back)) ↔ Ascending text) := by
  rw [← same] at sorted ⊢
  exact ⟨erase_middle less apart, Ascending.erase sorted less⟩

/-- What is read when a key has been deleted below: the key asked for is gone, and the order is kept
if the key taken was next to it. -/
theorem Descends.text {t n a : Nat} {key taken : Int} {f f' : Focus Int Tree} {text : List Int}
    (two : 2 ≤ t) (filled : (ofFocus a f).Filled t (n + 2)) (places : Places key f)
    (sorted : Ascending (f.text (inorder (n + 1)))) (descends : Descends t key f f' taken)
    (less : text.Perm ((f'.child.inorder (n + 1)).erase taken)) :
    (Focus.before (inorder (n + 1)) f'.front ++
        (text ++ Focus.after (inorder (n + 1)) f'.back)).Perm
      ((f.text (inorder (n + 1))).erase key) ∧
    (Ascending (Focus.before (inorder (n + 1)) f'.front ++
        (text ++ Focus.after (inorder (n + 1)) f'.back)) ↔
      Ascending text ∧ ¬ Misplaces t (n + 1) key f) := by
  obtain ⟨-, child, before, after⟩ := filled_focus.mp filled
  have untaken : (∀ pair ∈ f.back.head?, pair.1 ≠ key) → ¬ Misplaces t (n + 1) key f := by
    intro absent
    obtain ⟨front, c, back⟩ := f
    cases back with
    | nil => exact id
    | cons pair back => exact fun wrong => absent pair rfl wrong.1
  cases descends with
  | @last front c r back low _ rich keys =>
    have own : c.Below t (n + 1) := child
    have parts := (joins_last own.2 keys).inorder
    have member : taken ∈ c.inorder (n + 1) := by simp [parts]
    have next : ¬ Misplaces t (n + 1) key ⟨front, c, (key, r) :: back⟩ ↔
        ∀ value ∈ c.inorder (n + 1), value ≤ taken := by
      simp only [Misplaces, true_and, if_pos rich]
      rw [keys, List.getLastD_concat]
      simp
    rw [next]
    exact ⟨replace_perm member less, Ascending.take_last sorted member less⟩
  | @first front c r back high _ poor rich keys =>
    have right : r.Below t (n + 1) := after (key, r) List.mem_cons_self
    have parts := (joins_first right.2 keys).inorder
    have member : taken ∈ r.inorder (n + 1) := by simp [parts]
    have next : ¬ Misplaces t (n + 1) key ⟨front, c, (key, r) :: back⟩ ↔
        ∀ value ∈ r.inorder (n + 1), taken ≤ value := by
      have few : ¬ t ≤ c.keys.length := by omega
      simp only [Misplaces, true_and, if_neg few, rich]
      rw [keys, List.headD_cons]
      simp
    have old : Focus.text (inorder (n + 1)) ⟨front, c, (key, r) :: back⟩ =
        (Focus.before (inorder (n + 1)) front ++ c.inorder (n + 1)) ++
          key :: (r.inorder (n + 1) ++ Focus.after (inorder (n + 1)) back) := by
      simp [Focus.text]
    have new : Focus.before (inorder (n + 1)) ((c, taken) :: front) ++
        (text ++ Focus.after (inorder (n + 1)) back) =
        (Focus.before (inorder (n + 1)) front ++ c.inorder (n + 1)) ++
          taken :: (text ++ Focus.after (inorder (n + 1)) back) := by
      simp
    rw [old] at sorted
    rw [next, old, new]
    exact ⟨replace_first_perm member less, Ascending.take_first sorted member less⟩
  | @join front c r back poor other =>
    have right : r.Below t (n + 1) := after (key, r) List.mem_cons_self
    have joins := joins_joined (m := key) child.2 right.2
    have next : ¬ Misplaces t (n + 1) key ⟨front, c, (key, r) :: back⟩ := by
      have few : ¬ t ≤ c.keys.length := by omega
      have few' : ¬ t ≤ r.keys.length := by omega
      simp [Misplaces, few, few']
    have member : key ∈ (joined c key r).inorder (n + 1) := by simp [joins.inorder]
    rw [and_iff_left next]
    exact text_erased sorted (text_joins joins front back).symm less (.inl member)
  | stay absent enough =>
    rw [and_iff_left (untaken absent)]
    exact text_erased sorted rfl less (.inr (places.apart sorted absent))
  | refill absent poor refills =>
    have narrows := refills.narrows two filled
    have apart := places.apart sorted absent
    rw [and_iff_left (untaken absent)]
    refine text_erased sorted narrows.text less (.inr ⟨fun member => ?_, fun member => ?_⟩)
    · exact apart.1 (narrows.before.subset member)
    · exact apart.2 (narrows.after.subset member)

/-- The child for the next call is read in order. -/
theorem Descends.child_sorted {t n a : Nat} {key taken : Int} {f f' : Focus Int Tree} (two : 2 ≤ t)
    (filled : (ofFocus a f).Filled t (n + 2)) (descends : Descends t key f f' taken)
    (sorted : Ascending (f.text (inorder (n + 1)))) :
    Ascending (f'.child.inorder (n + 1)) := by
  obtain ⟨-, child, before, after⟩ := filled_focus.mp filled
  cases descends with
  | last rich keys => exact sorted.middle
  | first poor rich keys =>
    rw [← text_next] at sorted
    exact sorted.middle
  | @join front c r back poor other =>
    have right : r.Below t (n + 1) := after (key, r) List.mem_cons_self
    rw [text_joins (joins_joined child.2 right.2)] at sorted
    exact sorted.middle
  | stay absent enough => exact sorted.middle
  | refill absent poor refills =>
    rw [← (refills.narrows two filled).text] at sorted
    exact sorted.middle

/-- The call merges two children of the node. -/
def Merges (t : Nat) (key : Int) (f : Focus Int Tree) : Prop :=
  (descend t key f).1.keys.length < f.keys.length

/-- The node has the key as its only one, and its two children are merged. -/
def Frees (t : Nat) (key : Int) (f : Focus Int Tree) : Prop :=
  f.keys.length = 1 ∧ f.high.head? = some key ∧ Merges t key f

/-- On the way down two children of a full node are merged; the way ends at a node that is freed. -/
def Overfull (t : Nat) : Nat → Tree → Int → Prop
  | 0, _, _ => False
  | n + 1, x, key =>
    match place key x with
    | none => False
    | some f => Merges t key f ∧ f.keys.length = 2 * t - 1 ∨
      ¬ Frees t key f ∧ Overfull t n (descend t key f).1.child (descend t key f).2

/-- On the way down a key is replaced by one that is not next to it. -/
def Misplaced (t : Nat) : Nat → Tree → Int → Prop
  | 0, _, _ => False
  | n + 1, x, key =>
    match place key x with
    | none => False
    | some f => Misplaces t n key f ∨
      Misplaced t n (descend t key f).1.child (descend t key f).2

/-- The root has the key as its only one, and both of its children have `t - 1` keys. -/
def RootFreed (t : Nat) (x : Tree) (key : Int) : Prop :=
  ∃ c r, x.keys = [key] ∧ x.children = [c, r] ∧ c.keys.length = t - 1 ∧ r.keys.length = t - 1

section Placed

variable {t n : Nat} {x : Tree} {key : Int} {f : Focus Int Tree}

/-- Whether a full node has children merged, by the first node. -/
theorem overfull_iff (placed : place key x = some f) :
    Overfull t (n + 1) x key ↔ Merges t key f ∧ f.keys.length = 2 * t - 1 ∨
      ¬ Frees t key f ∧ Overfull t n (descend t key f).1.child (descend t key f).2 := by
  rw [Overfull, placed]

/-- Whether a key is misplaced, by the first node. -/
theorem misplaced_iff (placed : place key x = some f) :
    Misplaced t (n + 1) x key ↔ Misplaces t n key f ∨
      Misplaced t n (descend t key f).1.child (descend t key f).2 := by
  rw [Misplaced, placed]

/-- Whether the root is freed, by its place for the key. -/
theorem rootFreed_iff (two : 2 ≤ t) (filled : x.Filled t (n + 2)) (placed : place key x = some f)
    (whole : ofFocus x.address f = x) : RootFreed t x key ↔ Frees t key f := by
  constructor
  · rintro ⟨c, r, keys, children, poor, poor'⟩
    have here : place key x = some ⟨[], c, [(key, r)]⟩ := by
      simp [place, keys, children, Focus.first, Focus.seek]
    obtain rfl := Option.some.inj (placed.symm.trans here)
    refine ⟨rfl, rfl, ?_⟩
    have few : ¬ t ≤ c.keys.length := by omega
    have few' : ¬ t ≤ r.keys.length := by omega
    simp [Merges, descend, few, few', Focus.keys]
  · rintro ⟨single, found, merges⟩
    rw [← whole] at filled
    have descends := descend_descends key two filled (List.ne_nil_of_length_pos (by omega))
    rw [Merges] at merges
    generalize descend t key f = step at *
    obtain ⟨f', taken⟩ := step
    simp only at descends merges
    cases descends with
    | last rich keys => simp [Focus.keys] at merges
    | first poor rich keys => simp [Focus.keys] at merges
    | @join front c r back poor other =>
      simp only [Focus.keys, List.length_append, List.length_reverse, List.length_map,
        List.length_cons] at single
      obtain rfl : front = [] := List.length_eq_zero_iff.mp (by omega)
      obtain rfl : back = [] := List.length_eq_zero_iff.mp (by omega)
      rw [← whole]
      exact ⟨c, r, rfl, rfl, poor, other⟩
    | stay absent enough => exact absurd merges (lt_irrefl _)
    | refill absent poor refills =>
      rw [Focus.high, List.head?_map, Option.map_eq_some_iff] at found
      obtain ⟨pair, first, same⟩ := found
      exact absurd same (absent pair first)

/-- Nothing is merged in a leaf. -/
theorem not_overfull_leaf (empty : x.children = []) : ¬ Overfull t (n + 1) x key := by
  rw [Overfull, place_leaf key empty]
  exact id

/-- Nothing is misplaced in a leaf. -/
theorem not_misplaced_leaf (empty : x.children = []) : ¬ Misplaced t (n + 1) x key := by
  rw [Misplaced, place_leaf key empty]
  exact id

/-- What is read of a tree when the key that the next call is made with has been deleted from the
child for it. -/
theorem text_deleted {text : List Int} (two : 2 ≤ t) (filled : x.Filled t (n + 2))
    (placed : place key x = some f) (whole : ofFocus x.address f = x) (places : Places key f)
    (neighbour : f.keys ≠ [])
    (erased : Ascending ((descend t key f).1.child.inorder (n + 1)) →
      text.Perm (((descend t key f).1.child.inorder (n + 1)).erase (descend t key f).2))
    (order : Ascending ((descend t key f).1.child.inorder (n + 1)) →
      (Ascending text ↔ ¬ Misplaced t (n + 1) (descend t key f).1.child (descend t key f).2))
    (sorted : Ascending (x.inorder (n + 2))) :
    (Focus.before (inorder (n + 1)) (descend t key f).1.front ++
        (text ++ Focus.after (inorder (n + 1)) (descend t key f).1.back)).Perm
      ((x.inorder (n + 2)).erase key) ∧
    (Ascending (Focus.before (inorder (n + 1)) (descend t key f).1.front ++
        (text ++ Focus.after (inorder (n + 1)) (descend t key f).1.back)) ↔
      ¬ Misplaced t (n + 2) x key) := by
  rw [← whole] at filled
  have read : x.inorder (n + 2) = f.text (inorder (n + 1)) := by rw [← whole, inorder_focus]
  have descends := descend_descends key two filled neighbour
  rw [read] at sorted ⊢
  have inner := descends.child_sorted two filled sorted
  obtain ⟨perm, ascending⟩ := descends.text two filled places sorted (erased inner)
  refine ⟨perm, ?_⟩
  rw [ascending, order inner, misplaced_iff placed, not_or]
  exact and_comm

end Placed

end Tree

end BackendCpp.BtreeC
