import Mathlib.Data.List.TakeWhile
import BackendCpp.BtreeC.Insertion
import BackendCpp.BtreeC.Refilling

/-!
# The calls of a deletion

One call of `btree_delete_key` in a node with children moves a key or merges two children, as
`Tree.descend` says, and the next call is made for a child that is ready. A merge needs a pointer
behind the last one of the node, which a full node does not have; and a root with one key is freed
by a merge. A call for a leaf ends the deletion.
-/

namespace BackendCpp.BtreeC

open BackendCpp.Library

namespace Btree

variable {T : Btree} {n a : Nat} {key : Int} {f f' : Focus Int Tree}

/-- The siblings of the child in focus in the store. -/
theorem Holds.siblings (holds : T.Holds (n + 2) (Tree.ofFocus a f)) :
    (∀ s ∈ f.front.head?.map Prod.fst, T.Holds (n + 1) s) ∧
      ∀ s ∈ f.back.head?.map Prod.snd, T.Holds (n + 1) s := by
  obtain ⟨front, c, back⟩ := f
  constructor
  · intro s member
    cases front with
    | nil => cases member
    | cons pair front =>
      obtain ⟨l, m⟩ := pair
      rw [← Tree.ofFocus_next] at holds
      rw [← Option.some.inj member]
      exact holds.child
  · intro s member
    cases back with
    | nil => cases member
    | cons pair back =>
      obtain ⟨m, r⟩ := pair
      rw [← Option.some.inj member]
      exact holds.next

/-- `sibling && sibling->num >= T->t`. -/
theorem rich_spec {s : Option Tree} (there : ∀ x ∈ s, T.Holds (n + 1) x) :
    rich T (s.map Tree.address) = .ok (s.any fun x => decide (T.t ≤ x.keys.length)) := by
  cases s with
  | none => rfl
  | some x =>
    obtain ⟨node, inside, shows⟩ := (there x rfl).root
    simp [rich, look_some inside, shows.count]

/-- `sibling && sibling->num == T->t - 1`. -/
theorem poor_spec {s : Option Tree} (there : ∀ x ∈ s, T.Holds (n + 1) x) :
    poor T (s.map Tree.address) = .ok (s.any fun x => decide (x.keys.length = T.t - 1)) := by
  cases s with
  | none => rfl
  | some x =>
    obtain ⟨node, inside, shows⟩ := (there x rfl).root
    simp [poor, look_some inside, shows.count]

/-- `richR`: the sibling behind has more keys than the one before, if there is one. -/
theorem richR_spec {l r : Option Tree} (before : ∀ x ∈ l, T.Holds (n + 1) x)
    (after : ∀ x ∈ r, T.Holds (n + 1) x) :
    richR T (l.map Tree.address) (r.map Tree.address) =
      .ok (r.any fun y => l.all fun x => decide (x.keys.length < y.keys.length)) := by
  cases l with
  | none => cases r <;> rfl
  | some x =>
    cases r with
    | none => rfl
    | some y =>
      obtain ⟨node, inside, shows⟩ := (before x rfl).root
      obtain ⟨node', inside', shows'⟩ := (after y rfl).root
      simp [richR, look_some inside, look_some inside', shows.count, shows'.count]

/-- The pointers to the siblings. -/
theorem sibling_pointers {t : Nat} {x : BtreeNode} {keys : List Int}
    (shows : Shows t x false keys
      (f.left.map Tree.address ++ f.child.address :: f.right.map Tree.address))
    (count : x.num = f.front.length + f.back.length) :
    (if 1 ≤ f.front.length then x.child (f.front.length - 1) else .ok none) =
        .ok ((f.front.head?.map Prod.fst).map Tree.address) ∧
      (if f.front.length + 1 ≤ x.num then x.child (f.front.length + 1) else .ok none) =
        .ok ((f.back.head?.map Prod.snd).map Tree.address) := by
  obtain ⟨front, c, back⟩ := f
  constructor
  · cases front with
    | nil => rfl
    | cons pair front =>
      obtain ⟨l, m⟩ := pair
      have split : Shows t x false keys ((front.map Prod.fst).reverse.map Tree.address ++
          l.address :: c.address :: (back.map Prod.snd).map Tree.address) := by
        simpa [Focus.left, Focus.right] using shows
      rw [if_pos (by simp)]
      exact split.child_at (by simp)
  · cases back with
    | nil =>
      rw [if_neg (by simp at count ⊢; omega)]
      rfl
    | cons pair back =>
      obtain ⟨m, r⟩ := pair
      have split : Shows t x false keys (((front.map Prod.fst).reverse.map Tree.address ++
          [c.address]) ++ r.address :: (back.map Prod.snd).map Tree.address) := by
        simpa [Focus.left, Focus.right] using shows
      rw [if_pos (by simp at count ⊢; omega)]
      exact split.child_at (by simp)

/-- A pointer that is read in one branch only. -/
theorem ite_bind {α β : Type} {p : Prop} [Decidable p] {value : Except Fault α} {other found : α}
    (known : (if p then value else .ok other) = .ok found) (rest : α → Except Fault β) :
    (if p then value >>= rest else .ok other >>= rest) = rest found := by
  by_cases true : p
  · rw [if_pos true] at known ⊢
    rw [known, ok_bind]
  · rw [if_neg true] at known ⊢
    rw [known, ok_bind]

/-- `refill` with what is known about the siblings. -/
theorem refill_eq (holds : T.Holds (n + 2) (Tree.ofFocus a f)) (child : Option Nat) :
    let l := f.front.head?.map Prod.fst
    let r := f.back.head?.map Prod.snd
    refill T (some a) f.front.length child =
      if (l.any fun x => decide (T.t ≤ x.keys.length)) ||
          r.any fun x => decide (T.t ≤ x.keys.length) then
        if (r.any fun x => decide (T.t ≤ x.keys.length)) &&
            r.any fun y => l.all fun x => decide (x.keys.length < y.keys.length) then do
          let T ← borrowNext T (some a) f.front.length child (r.map Tree.address)
          .ok (T, child)
        else do
          let T ← borrowPrev T (some a) f.front.length child (l.map Tree.address)
          .ok (T, child)
      else if (l.map Tree.address = none || l.any fun x => decide (x.keys.length = T.t - 1)) &&
          (r.map Tree.address = none || r.any fun x => decide (x.keys.length = T.t - 1)) then
        if l.any fun x => decide (x.keys.length = T.t - 1) then do
          let T ← btreeMerge T (some a) (f.front.length - 1)
          .ok (T, l.map Tree.address)
        else if r.any fun x => decide (x.keys.length = T.t - 1) then do
          let T ← btreeMerge T (some a) f.front.length
          .ok (T, child)
        else .ok (T, child)
      else .ok (T, child) := by
  intro l r
  obtain ⟨x, there, shows⟩ := holds.focus
  obtain ⟨before, after⟩ := holds.siblings
  have count : x.num = f.front.length + f.back.length := by
    rw [shows.count]
    simp [Focus.low, Focus.high]
  obtain ⟨left, right⟩ := sibling_pointers shows count
  rw [refill, look_some there, ok_bind]
  dsimp only
  rw [ite_bind left, ite_bind right]
  simp only [rich_spec before, rich_spec after, poor_spec before, poor_spec after,
    richR_spec before after, ok_bind]
  rfl

/-- A call goes on in a child of the node. -/
structure Moves (T T' : Btree) (n a : Nat) (f f' : Focus Int Tree) : Prop where
  /-- Only the tree changes. -/
  evolves : Evolves T T' (n + 2) (Tree.ofFocus a f) (Tree.ofFocus a f')
  /-- The node has as many keys. -/
  same : f'.keys.length = f.keys.length

/-- Two poor children of a node are to be joined: the node when they stand side by side, and when
they are one. -/
inductive Unites (t : Nat) : Focus Int Tree → Focus Int Tree → Prop
  | intro {front : List (Tree × Int)} {l : Tree} {m : Int} {r : Tree} {back : List (Int × Tree)}
    (poor : l.keys.length = t - 1) (poor' : r.keys.length = t - 1) :
    Unites t ⟨front, l, (m, r) :: back⟩ ⟨front, Tree.joined l m r, back⟩

/-- What is done about a child with `t - 1` keys: a key is borrowed, or two children are merged. -/
theorem refill_cases (sane : T.Sane) (holds : T.Holds (n + 2) (Tree.ofFocus a f))
    (filled : (Tree.ofFocus a f).Filled T.t (n + 2)) (two : 2 ≤ T.t)
    (poor : f.child.keys.length = T.t - 1) (refills : Tree.Refills T.t f f') :
    (∃ T', refill T (some a) f.front.length (some f.child.address) =
        .ok (T', some f'.child.address) ∧ Moves T T' n a f f') ∨
    ∃ g, Unites T.t g f' ∧ Tree.ofFocus a g = Tree.ofFocus a f ∧
      refill T (some a) f.front.length (some f.child.address) = (do
        let T ← btreeMerge T (some a) g.front.length
        .ok (T, some f'.child.address)) := by
  obtain ⟨-, child, before, after⟩ := Tree.filled_focus.mp filled
  have few : ¬ T.t ≤ T.t - 1 := by omega
  rw [refill_eq holds]
  cases refills with
  | @next front c m r back rich more =>
    have own : c.keys.length = T.t - 1 := poor
    have right : r.Below T.t (n + 1) := after (m, r) List.mem_cons_self
    obtain ⟨k, high, keys⟩ := List.exists_cons_of_length_pos (l := r.keys) (by omega)
    obtain ⟨T', runs, evolves⟩ := borrowNext_spec sane holds child.2 right.2 keys (by omega)
    refine .inl ⟨T', ?_, evolves, by simp [Tree.fromNext, Focus.keys]⟩
    have chosen : ((front.head?.map Prod.fst).all fun x =>
        decide (x.keys.length < r.keys.length)) = true := by
      cases front with
      | nil => rfl
      | cons pair front => exact decide_eq_true (more pair rfl)
    simp [rich, chosen, runs, Tree.fromNext, Tree.withNext]
  | @previous front l m c back rich more =>
    have own : c.keys.length = T.t - 1 := poor
    have left : l.Below T.t (n + 1) := before (l, m) List.mem_cons_self
    obtain ⟨low, k, keys⟩ := (List.eq_nil_or_concat' l.keys).resolve_left fun empty => by
      rw [empty, List.length_nil] at rich
      omega
    rw [← Tree.ofFocus_next] at holds
    obtain ⟨T', runs, evolves⟩ := @borrowPrev_spec _ _ _ _ _ _ _ _ _ _ (front.length + 1) sane holds
      left.2 child.2 keys (by omega) rfl
    rw [Tree.ofFocus_next] at evolves
    refine .inl ⟨T', ?_, evolves, by simp [Tree.fromPrevious, Focus.keys]⟩
    have passed : ((back.head?.map Prod.snd).any fun y =>
        decide (l.keys.length < y.keys.length)) = false := by
      cases back with
      | nil => rfl
      | cons pair back => exact decide_eq_false (not_lt.mpr (more pair rfl))
    simp [rich, passed, runs, Tree.fromPrevious, Tree.withPrevious]
  | @joinPrevious front l m c back poor' other =>
    refine .inr ⟨_, .intro poor' poor, Tree.ofFocus_next a front l m c back, ?_⟩
    have unable :
        ((back.head?.map Prod.snd).any fun y => decide (T.t ≤ y.keys.length)) = false := by
      cases back with
      | nil => rfl
      | cons pair back => exact decide_eq_false (other pair rfl ▸ few)
    have alike : back ≠ [] → ((back.head?.map Prod.snd).any fun y =>
        decide (y.keys.length = T.t - 1)) = true := by
      intro some_back
      obtain ⟨pair, rest, rfl⟩ := List.exists_cons_of_ne_nil some_back
      exact decide_eq_true (other pair rfl)
    simp only [List.head?_cons, Option.map_some, Option.any_some, poor', few, unable, decide_false,
      decide_true, Bool.or_self, Bool.or_true, Bool.true_and, if_true, Bool.false_eq_true, if_false,
      List.length_cons, Nat.add_sub_cancel]
    refine if_pos ?_
    by_cases alone : back = []
    · simp [alone]
    · rw [alike alone, Bool.or_true]
  | @joinNext c m r back poor' =>
    refine .inr ⟨_, .intro poor poor', rfl, ?_⟩
    simp [poor', few, Tree.joined]

/-- A key of a node with children is replaced. -/
theorem replaceKey_spec {front : List (Tree × Int)} {c r : Tree} {k new : Int}
    {back : List (Int × Tree)} (sane : T.Sane)
    (holds : T.Holds (n + 2) (Tree.ofFocus a ⟨front, c, (k, r) :: back⟩)) :
    ∃ T', T.update (some a) (fun x => x.setKey front.length new) = .ok T' ∧
      Evolves T T' (n + 2) (Tree.ofFocus a ⟨front, c, (k, r) :: back⟩)
        (Tree.ofFocus a ⟨front, c, (new, r) :: back⟩) := by
  obtain ⟨x, thereX, showsX⟩ := holds.above
  obtain ⟨first, thereC, showsC⟩ := holds.child.root
  obtain ⟨second, thereR, showsR⟩ := holds.next.root
  have apart := holds.pair_apart
  obtain ⟨changed, sets, shows⟩ := @Shows.setKey _ _ _ _ _ _ _ new front.length showsX (by simp)
  refine ⟨T.put a changed, update_some thereX sets, ?_⟩
  refine .of_pair sane holds (sane.put thereX) rfl rfl rfl rfl rfl rfl ?_ ?_ ?_ ?_
  · exact shown_focus put_self shows
  · exact shown_entry ((put_other apart.1).trans thereC) showsC
  · exact shown_entry ((put_other apart.2.1).trans thereR) showsR
  · exact fun b notNode _ _ => put_other notNode

/-- The branches for a key that is found in a node with children. -/
theorem deleteFound_cases {front : List (Tree × Int)} {c r : Tree} {back : List (Int × Tree)}
    {taken : Int} (sane : T.Sane)
    (holds : T.Holds (n + 2) (Tree.ofFocus a ⟨front, c, (key, r) :: back⟩)) (two : 2 ≤ T.t)
    (descends : Tree.Descends T.t key ⟨front, c, (key, r) :: back⟩ f' taken) :
    (∃ T', deleteFound T (some a) front.length key = .ok (T', some f'.child.address, taken) ∧
      Moves T T' n a ⟨front, c, (key, r) :: back⟩ f') ∨
    Unites T.t ⟨front, c, (key, r) :: back⟩ f' ∧ taken = key ∧
      deleteFound T (some a) front.length key = (do
        let T ← btreeMerge T (some a) front.length
        let x ← T.look (some a)
        let child ← x.child front.length
        .ok (T, child, key)) := by
  obtain ⟨x, thereX, showsX⟩ := holds.above
  obtain ⟨first, thereC, showsC⟩ := holds.child.root
  obtain ⟨second, thereR, showsR⟩ := holds.next.root
  have childC : x.child front.length = .ok (some c.address) := showsX.child_at (by simp)
  have childR : x.child (front.length + 1) = .ok (some r.address) :=
    @Shows.child_at _ _ _ ((front.map Prod.fst).reverse.map Tree.address ++ [c.address])
      ((back.map Prod.snd).map Tree.address) _ _ (by simpa using showsX) (by simp)
  have countC : first.num = c.keys.length := showsC.count
  have countR : second.num = r.keys.length := showsR.count
  have absent : (∀ pair ∈ ((key, r) :: back).head?, pair.1 ≠ key) → False :=
    fun differs => differs (key, r) rfl rfl
  rw [deleteFound]
  simp only [look_some thereX, ok_bind, childC, childR, look_some thereC, look_some thereR]
  cases descends with
  | @last _ _ _ _ low _ rich keys =>
    obtain ⟨T', sets, evolves⟩ := @replaceKey_spec _ _ _ _ _ _ _ taken _ sane holds
    have value : first.key (first.num - 1) = .ok taken := by
      have shows := showsC
      rw [keys] at shows
      exact shows.key_at (by rw [shows.count]; simp)
    refine .inl ⟨T', ?_, evolves, by simp [Focus.keys]⟩
    rw [if_pos (by omega)]
    simp only [value, ok_bind, sets]
  | @first _ _ _ _ high _ poor rich keys =>
    obtain ⟨T', sets, evolves⟩ := @replaceKey_spec _ _ _ _ _ _ _ taken _ sane holds
    have value : second.key 0 = .ok taken := by
      have shows := showsR
      rw [keys] at shows
      exact @Shows.key_at _ _ _ _ [] _ _ 0 shows rfl
    rw [Tree.ofFocus_next a front c taken r back] at evolves
    refine .inl ⟨T', ?_, evolves, by simp [Focus.keys]⟩
    rw [if_neg (by omega), if_pos (by omega)]
    simp only [value, ok_bind, sets]
  | join poor other =>
    refine .inr ⟨.intro poor other, rfl, ?_⟩
    rw [if_neg (by omega), if_neg (by omega)]
  | stay differs enough => exact absurd differs absent
  | refill differs poor refills => exact absurd differs absent

/-- A call for a key that is found in a node with children. -/
theorem deleteKeyCall_found {front : List (Tree × Int)} {c r : Tree} {back : List (Int × Tree)}
    (holds : T.Holds (n + 2) (Tree.ofFocus a ⟨front, c, (key, r) :: back⟩))
    (places : Tree.Places key ⟨front, c, (key, r) :: back⟩) :
    deleteKeyCall (T, some a, key) =
      (deleteFound T (some a) front.length key).map Sum.inl := by
  obtain ⟨x, there, shows⟩ := holds.focus
  have kind : x.leaf = false := shows.kind
  have index := shows.keyIndex places.below places.stop
  have found := shows.keyFound key
  have place : (Focus.mk front c ((key, r) :: back)).low.length = front.length := by
    simp [Focus.low]
  have head : (Focus.mk front c ((key, r) :: back)).high.head? = some key := rfl
  rw [place] at index found
  rw [head] at found
  rw [deleteKeyCall]
  simp only [reduceCtorEq, if_false, look_some there, ok_bind, index, found, decide_true, if_true,
    kind, Bool.false_eq_true]
  cases deleteFound T (some a) front.length key with
  | error fault => rfl
  | ok call => rfl

/-- A call for a key that is not found in a node with children. -/
theorem deleteKeyCall_absent (holds : T.Holds (n + 2) (Tree.ofFocus a f))
    (places : Tree.Places key f) (absent : ∀ pair ∈ f.back.head?, pair.1 ≠ key) :
    deleteKeyCall (T, some a, key) =
      if f.child.keys.length = T.t - 1 then
        (refill T (some a) f.front.length (some f.child.address)).map fun result =>
          .inl (result.1, result.2, key)
      else .ok (.inl (T, some f.child.address, key)) := by
  obtain ⟨x, there, shows⟩ := holds.focus
  obtain ⟨child, below, showsChild⟩ := holds.child.root
  have index := shows.keyIndex places.below places.stop
  have found := shows.keyFound key
  have place : f.low.length = f.front.length := by simp [Focus.low]
  have head : ¬ f.high.head? = some key := by
    intro same
    rw [Focus.high, List.head?_map, Option.map_eq_some_iff] at same
    obtain ⟨pair, first, equal⟩ := same
    exact absent pair first equal
  have pointer : x.child f.front.length = .ok (some f.child.address) :=
    shows.child_at (by simp [Focus.left])
  have count : child.num = f.child.keys.length := showsChild.count
  rw [place] at index found
  rw [decide_eq_false head] at found
  rw [deleteKeyCall]
  simp only [reduceCtorEq, if_false, look_some there, ok_bind, index, found, Bool.false_eq_true,
    deleteBelow, pointer, look_some below, count]
  by_cases poor : f.child.keys.length = T.t - 1
  · rw [if_pos poor, if_pos poor]
    cases refill T (some a) f.front.length (some f.child.address) with
    | error fault => rfl
    | ok result => rfl
  · rw [if_neg poor, if_neg poor]

/-- A call for a node with children moves a key, or merges two children and then goes on. -/
theorem deleteKeyCall_cases {taken : Int} (sane : T.Sane)
    (holds : T.Holds (n + 2) (Tree.ofFocus a f)) (filled : (Tree.ofFocus a f).Filled T.t (n + 2))
    (two : 2 ≤ T.t) (places : Tree.Places key f) (descends : Tree.Descends T.t key f f' taken) :
    (∃ T', deleteKeyCall (T, some a, key) = .ok (.inl (T', some f'.child.address, taken)) ∧
      Moves T T' n a f f') ∨
    (∃ g, Unites T.t g f' ∧ Tree.ofFocus a g = Tree.ofFocus a f ∧ taken = key ∧
      (∀ pair ∈ f.back.head?, pair.1 ≠ key) ∧
      deleteKeyCall (T, some a, key) = (do
        let T ← btreeMerge T (some a) g.front.length
        .ok (.inl (T, some f'.child.address, key)))) ∨
    (Unites T.t f f' ∧ taken = key ∧ f.high.head? = some key ∧
      deleteKeyCall (T, some a, key) = (do
        let T ← btreeMerge T (some a) f.front.length
        let x ← T.look (some a)
        let child ← x.child f.front.length
        .ok (.inl (T, child, key)))) := by
  by_cases found : f.high.head? = some key
  · obtain ⟨front, c, back⟩ := f
    obtain ⟨pair, rest, shape⟩ : ∃ pair rest, back = pair :: rest := by
      cases back with
      | nil => cases found
      | cons pair rest => exact ⟨pair, rest, rfl⟩
    obtain ⟨m, r⟩ := pair
    subst shape
    obtain rfl : m = key := Option.some.inj found
    rw [deleteKeyCall_found holds places]
    rcases deleteFound_cases sane holds two descends with ⟨T', runs, moves⟩ | ⟨unites, same, runs⟩
    · exact .inl ⟨T', by rw [runs]; rfl, moves⟩
    · refine .inr (.inr ⟨unites, same, rfl, ?_⟩)
      rw [runs]
      cases btreeMerge T (some a) front.length with
      | error fault => rfl
      | ok T' =>
        simp only [ok_bind]
        cases T'.look (some a) with
        | error fault => rfl
        | ok x =>
          simp only [ok_bind]
          cases x.child front.length with
          | error fault => rfl
          | ok child => rfl
  · have absent : ∀ pair ∈ f.back.head?, pair.1 ≠ key := by
      intro pair first same
      refine found ?_
      rw [Focus.high, List.head?_map, Option.map_eq_some_iff]
      exact ⟨pair, first, same⟩
    rw [deleteKeyCall_absent holds places absent]
    cases descends with
    | last rich keys => exact absurd rfl found
    | first poor rich keys => exact absurd rfl found
    | join poor other => exact absurd rfl found
    | stay _ enough =>
      rw [if_neg (by omega)]
      exact .inl ⟨T, rfl, .refl sane holds, rfl⟩
    | refill _ poor refills =>
      rw [if_pos poor]
      rcases refill_cases sane holds filled two poor refills with
        ⟨T', runs, moves⟩ | ⟨g, unites, same, runs⟩
      · exact .inl ⟨T', by rw [runs]; rfl, moves⟩
      · refine .inr (.inl ⟨g, unites, same, rfl, absent, ?_⟩)
        rw [runs]
        cases btreeMerge T (some a) g.front.length with
        | error fault => rfl
        | ok T' => rfl

/-- The node has one key less when two of its children are joined. -/
theorem Unites.number {t : Nat} {g : Focus Int Tree} (unites : Unites t g f') :
    g.keys.length = f'.keys.length + 1 := by
  cases unites
  simp [Focus.keys]
  omega

/-- A merge in a node that has other keys and is not full. -/
theorem Unites.merge {g : Focus Int Tree} (unites : Unites T.t g f') (sane : T.Sane)
    (holds : T.Holds (n + 2) (Tree.ofFocus a g)) (filled : (Tree.ofFocus a g).Filled T.t (n + 2))
    (two : 2 ≤ T.t) (notFull : g.keys.length ≠ 2 * T.t - 1) (others : g.keys.length ≠ 1) :
    ∃ T', btreeMerge T (some a) g.front.length = .ok T' ∧
      Evolves T T' (n + 2) (Tree.ofFocus a g) (Tree.ofFocus a f') := by
  obtain ⟨total, child, before, after⟩ := Tree.filled_focus.mp filled
  cases unites with
  | @intro front l m r back poor poor' =>
    have right : r.Below T.t (n + 1) := after (m, r) List.mem_cons_self
    exact btreeMerge_spec sane holds child.2 right.2 poor poor' (by omega)
      (lt_of_le_of_ne total notFull) others

/-- A merge in a full node. -/
theorem Unites.merge_full {g : Focus Int Tree} (unites : Unites T.t g f')
    (holds : T.Holds (n + 2) (Tree.ofFocus a g)) (filled : (Tree.ofFocus a g).Filled T.t (n + 2))
    (two : 2 ≤ T.t) (full : g.keys.length = 2 * T.t - 1) :
    btreeMerge T (some a) g.front.length = .error .outside := by
  obtain ⟨total, child, before, after⟩ := Tree.filled_focus.mp filled
  cases unites with
  | @intro front l m r back poor poor' =>
    have right : r.Below T.t (n + 1) := after (m, r) List.mem_cons_self
    exact btreeMerge_full holds child.2 right.2 poor poor' (by omega) full

/-- A merge in a root without another key. -/
theorem Unites.merge_root {g : Focus Int Tree} (unites : Unites T.t g f') (sane : T.Sane)
    (holds : T.Holds (n + 2) (Tree.ofFocus a g)) (filled : (Tree.ofFocus a g).Filled T.t (n + 2))
    (two : 2 ≤ T.t) (single : g.keys.length = 1) :
    ∃ T', btreeMerge T (some a) g.front.length = .ok T' ∧ T'.nodes a = none ∧ T'.Sane ∧
      T'.root = some f'.child.address ∧ T'.t = T.t ∧ T'.Holds (n + 1) f'.child := by
  obtain ⟨total, child, before, after⟩ := Tree.filled_focus.mp filled
  cases unites with
  | @intro front l m r back poor poor' =>
    have right : r.Below T.t (n + 1) := after (m, r) List.mem_cons_self
    simp only [Focus.keys, List.length_append, List.length_reverse, List.length_map,
      List.length_cons] at single
    obtain rfl : front = [] := List.length_eq_zero_iff.mp (by omega)
    obtain rfl : back = [] := List.length_eq_zero_iff.mp (by omega)
    exact btreeMerge_root sane holds child.2 right.2 poor poor' two

section Calls

variable {taken : Int} (sane : T.Sane) (holds : T.Holds (n + 2) (Tree.ofFocus a f))
  (filled : (Tree.ofFocus a f).Filled T.t (n + 2)) (two : 2 ≤ T.t) (places : Tree.Places key f)
  (descends : Tree.Descends T.t key f f' taken)

include sane holds filled two places descends

/-- A call that merges nothing, or merges two children of a node that is not full and has other
keys. -/
theorem deleteKeyCall_regular
    (regular : f'.keys.length < f.keys.length → f.keys.length ≠ 2 * T.t - 1 ∧ f.keys.length ≠ 1) :
    ∃ T', deleteKeyCall (T, some a, key) = .ok (.inl (T', some f'.child.address, taken)) ∧
      Evolves T T' (n + 2) (Tree.ofFocus a f) (Tree.ofFocus a f') := by
  rcases deleteKeyCall_cases sane holds filled two places descends with
    ⟨T', runs, moves⟩ | ⟨g, unites, same, rfl, -, runs⟩ | ⟨unites, rfl, -, runs⟩
  · exact ⟨T', runs, moves.evolves⟩
  · have keys : g.keys = f.keys := congrArg Tree.keys same
    have fewer := unites.number
    rw [← same] at holds filled ⊢
    rw [← keys] at regular
    obtain ⟨notFull, others⟩ := regular (by omega)
    obtain ⟨T', merges, evolves⟩ := unites.merge sane holds filled two notFull others
    exact ⟨T', by rw [runs, merges]; rfl, evolves⟩
  · have fewer := unites.number
    obtain ⟨notFull, others⟩ := regular (by omega)
    obtain ⟨T', merges, evolves⟩ := unites.merge sane holds filled two notFull others
    obtain ⟨x, there, shows⟩ := evolves.holds.focus
    have front : f.front.length = (f'.left.map Tree.address).length := by
      cases unites
      simp [Focus.left]
    refine ⟨T', ?_, evolves⟩
    rw [runs, merges]
    simp only [ok_bind, look_some there, shows.child_at front]

/-- A call that merges two children of a full node writes behind an array. -/
theorem deleteKeyCall_full (joins : f'.keys.length < f.keys.length)
    (full : f.keys.length = 2 * T.t - 1) :
    deleteKeyCall (T, some a, key) = .error .outside := by
  rcases deleteKeyCall_cases sane holds filled two places descends with
    ⟨T', runs, moves⟩ | ⟨g, unites, same, rfl, -, runs⟩ | ⟨unites, rfl, -, runs⟩
  · exact absurd moves.same joins.ne
  · have keys : g.keys = f.keys := congrArg Tree.keys same
    rw [← same] at holds filled
    rw [← keys] at full
    rw [runs, unites.merge_full holds filled two full]
    rfl
  · rw [runs, unites.merge_full holds filled two full]
    rfl

/-- A call that merges the children of a root with the key as its only one follows the root after
it has been freed. -/
theorem deleteKeyCall_freed (joins : f'.keys.length < f.keys.length) (single : f.keys.length = 1)
    (found : f.high.head? = some key) : deleteKeyCall (T, some a, key) = .error .dangling := by
  rcases deleteKeyCall_cases sane holds filled two places descends with
    ⟨T', runs, moves⟩ | ⟨g, unites, same, rfl, absent, runs⟩ | ⟨unites, rfl, -, runs⟩
  · exact absurd moves.same joins.ne
  · rw [Focus.high, List.head?_map, Option.map_eq_some_iff] at found
    obtain ⟨pair, first, equal⟩ := found
    exact absurd equal (absent pair first)
  · obtain ⟨T', merges, gone, -⟩ := unites.merge_root sane holds filled two single
    rw [runs, merges]
    simp only [ok_bind, look_gone gone, error_bind]

/-- A call that merges the children of a root with another key as its only one goes on in the new
root. -/
theorem deleteKeyCall_lowered (joins : f'.keys.length < f.keys.length)
    (single : f.keys.length = 1) (absent : ¬ f.high.head? = some key) :
    ∃ T', deleteKeyCall (T, some a, key) = .ok (.inl (T', some f'.child.address, taken)) ∧
      T'.Sane ∧ T'.root = some f'.child.address ∧ T'.t = T.t ∧ T'.Holds (n + 1) f'.child := by
  rcases deleteKeyCall_cases sane holds filled two places descends with
    ⟨T', runs, moves⟩ | ⟨g, unites, same, rfl, -, runs⟩ | ⟨unites, rfl, found, runs⟩
  · exact absurd moves.same joins.ne
  · have keys : g.keys = f.keys := congrArg Tree.keys same
    rw [← same] at holds filled
    rw [← keys] at single
    obtain ⟨T', merges, -, sane', root, degree, holds'⟩ :=
      unites.merge_root sane holds filled two single
    exact ⟨T', by rw [runs, merges]; rfl, sane', root, degree, holds'⟩
  · exact absurd found absent

end Calls

/-- The keys that are less than a key, and the others. -/
theorem exists_divided (key : Int) (keys : List Int) :
    ∃ low high, keys = low ++ high ∧ (∀ m ∈ low, m < key) ∧ ∀ m ∈ high.head?, ¬ m < key := by
  refine ⟨keys.takeWhile (· < key), keys.dropWhile (· < key),
    List.takeWhile_append_dropWhile.symm, ?_, ?_⟩
  · intro m member
    exact of_decide_eq_true (List.mem_takeWhile_imp (p := fun m => decide (m < key)) member)
  · intro m first
    have stops := List.head?_dropWhile_not (fun m => decide (m < key)) keys
    rw [first] at stops
    simpa using stops

/-- What a deletion leaves of a leaf. -/
structure LeafLeft (key : Int) (T T' : Btree) (x : Tree) (keys : List Int) : Prop where
  /-- Only the leaf changes. -/
  evolves : Evolves T T' 1 x ⟨x.address, keys, []⟩
  /-- No key is added. -/
  fewer : keys.length ≤ x.keys.length
  /-- At most one key is taken. -/
  number : x.keys.length ≤ keys.length + 1
  /-- It is the one asked for. -/
  erased : Ascending x.keys → keys = x.keys.erase key

/-- A call for a leaf; the tree is empty if the leaf had the key as its only one. -/
theorem deleteKeyCall_leaf {x : Tree} (key : Int) (sane : T.Sane) (holds : T.Holds 1 x)
    (filled : x.Filled T.t 1) (positive : 0 < T.t) :
    (x.keys ≠ [key] ∧ ∃ T' keys, deleteKeyCall (T, some x.address, key) = .ok (.inr T') ∧
      LeafLeft key T T' x keys) ∨
    x.keys = [key] ∧ ∃ T', deleteKeyCall (T, some x.address, key) = .ok (.inr T') ∧ T'.Sane ∧
      T'.root = none ∧ T'.t = T.t := by
  obtain ⟨node, there, shows⟩ := holds.root
  have empty : x.children = [] := filled.1.nil
  have kind : node.leaf = true := shows.kind
  have room := filled.2.1
  rw [empty, List.map_nil] at shows
  obtain ⟨low, high, keys, below, stop⟩ := exists_divided key x.keys
  rw [keys] at shows room
  have index := shows.keyIndex below stop
  have found := shows.keyFound key
  have absent : key ∉ low := fun member => absurd (below key member) (lt_irrefl key)
  by_cases here : high.head? = some key
  · obtain ⟨rest, rfl⟩ : ∃ rest, high = key :: rest := List.head?_eq_some_iff.mp here
    rw [decide_eq_true here] at found
    obtain ⟨changed, closes, shows'⟩ := shows.closeLeaf rfl
    have step := @update_some _ _ _ (closeLeaf low.length) _ there closes
    have evolves := Evolves.of_leaf sane holds empty there shows'
    have count : changed.num = low.length + rest.length := by
      rw [shows'.count, List.length_append]
    have call : deleteKeyCall (T, some x.address, key) = (do
        let T ← deleteFromLeaf T (some x.address) low.length
        .ok (.inr T)) := by
      rw [deleteKeyCall]
      simp only [reduceCtorEq, if_false, look_some there, ok_bind, index, found, if_true, kind]
    by_cases last : low ++ rest = []
    · obtain ⟨rfl, rfl⟩ := List.append_eq_nil_iff.mp last
      have new : ((T.put x.address changed).drop x.address).Sane :=
        (sane.put there).drop put_self
      refine .inr ⟨keys, { (T.put x.address changed).drop x.address with root := none }, ?_,
        ⟨new.fresh, new.gone, new.past, new.once⟩, rfl, rfl⟩
      have drained : changed.num = 0 := count
      rw [call, deleteFromLeaf]
      simp only [step, ok_bind, look_some put_self, if_pos drained, free_some put_self]
    · have some_key : changed.num ≠ 0 := by
        rw [shows'.count]
        exact fun none => last (List.length_eq_zero_iff.mp none)
      refine .inl ⟨fun alone => ?_, T.put x.address changed, low ++ rest, ?_, evolves, ?_, ?_,
        fun _ => ?_⟩
      · have size := congrArg List.length (alone.symm.trans keys)
        simp at size
        exact last (List.length_eq_zero_iff.mp (by rw [List.length_append]; omega))
      · rw [call, deleteFromLeaf]
        simp only [step, ok_bind, look_some put_self, some_key, if_false]
      · simp [keys]
      · simp [keys]
        omega
      · rw [keys, List.erase_append_right _ absent, List.erase_cons_head]
  · rw [decide_eq_false here] at found
    have pointer : node.child low.length = .ok none := by
      refine shows.child_null ?_
      rw [List.length_append] at room
      omega
    have whole : (⟨x.address, x.keys, []⟩ : Tree) = x := by
      rw [← empty]
      cases x
      rfl
    refine .inl ⟨fun alone => ?_, T, x.keys, ?_, ?_, le_rfl, Nat.le_succ _, fun sorted => ?_⟩
    · rw [alone] at keys
      cases low with
      | nil => exact here (by rw [← List.nil_append high, ← keys]; rfl)
      | cons m low => exact absent ((List.cons.inj keys).1 ▸ List.mem_cons_self)
    · rw [deleteKeyCall]
      simp only [reduceCtorEq, if_false, look_some there, ok_bind, index, found, Bool.false_eq_true,
        deleteBelow, pointer, if_true]
    · rw [whole]
      exact .refl sane holds
    · refine (List.erase_of_not_mem fun member => ?_).symm
      rw [keys] at sorted member
      have later := (List.mem_append.mp member).resolve_left absent
      cases high with
      | nil => cases later
      | cons m high =>
        have differs : m ≠ key := fun same => here (congrArg some same)
        have above : ¬ m < key := stop m rfl
        have rest := (List.mem_cons.mp later).resolve_left differs.symm
        have less := (List.pairwise_cons.mp (List.pairwise_append.mp sorted).2.1).1 key rest
        omega

end Btree

end BackendCpp.BtreeC
