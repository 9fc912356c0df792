import BackendCpp.Library.Doubly
import BackendCpp.Library.Run

/-!
# The intrusive lists

The ARP entries, the UDP hosts and the TCP streams hang in lists whose links are in the items
themselves. `LL_ADD` and `LL_REMOVE` are written out over a store of links, and are shown to put
an item before the others and to take one out from between its neighbours. The lists of addresses
in the model of the stack are the lists that are spelled here.
-/

namespace BackendCpp.Tcp

open Library

/-- The links of an item. -/
structure Link where
  /-- `prev`. -/
  prev : Option Nat
  /-- `next`. -/
  next : Option Nat
  deriving DecidableEq

/-- The pointer to the first item, and the links in the items. -/
structure LinkStore where
  /-- The pointer to the first item. -/
  list : Option Nat
  /-- The links in the items. -/
  links : Nat → Link

/-- `a->prev = p`. -/
def LinkStore.setPrev (l : LinkStore) (a : Nat) (p : Option Nat) : LinkStore :=
  { l with links := Function.update l.links a { l.links a with prev := p } }

/-- `a->next = p`. -/
def LinkStore.setNext (l : LinkStore) (a : Nat) (p : Option Nat) : LinkStore :=
  { l with links := Function.update l.links a { l.links a with next := p } }

/-- `if (a != NULL) a->prev = p`. -/
def LinkStore.tellPrev (l : LinkStore) (a p : Option Nat) : LinkStore :=
  match a with
  | some a => l.setPrev a p
  | none => l

/-- `if (a != NULL) a->next = p`. -/
def LinkStore.tellNext (l : LinkStore) (a p : Option Nat) : LinkStore :=
  match a with
  | some a => l.setNext a p
  | none => l

/-- `LL_ADD`. -/
def llAdd (item : Nat) (l : LinkStore) : LinkStore :=
  let l := l.setPrev item none
  let l := l.setNext item l.list
  let l := l.tellPrev l.list (some item)
  { l with list := some item }

/-- `LL_REMOVE`. -/
def llRemove (item : Nat) (l : LinkStore) : LinkStore :=
  let l := l.tellNext (l.links item).prev (l.links item).next
  let l := l.tellPrev (l.links item).next (l.links item).prev
  let l := if l.list = some item then { l with list := (l.links item).next } else l
  (l.setNext item none).setPrev item none

/-- `a->next`. -/
def LinkStore.next (l : LinkStore) (a : Nat) : Option Nat := (l.links a).next

/-- `a->prev`. -/
def LinkStore.prev (l : LinkStore) (a : Nat) : Option Nat := (l.links a).prev

/-- The item is met on the way from the head. -/
def LinkStore.InList (l : LinkStore) (item : Nat) : Prop :=
  Reached l.next l.list item

/-- A use of the list. -/
inductive ListUse
  /-- `LL_ADD`, with what the links of the item held before. -/
  | add (item : Nat) (fields : Link)
  /-- `LL_REMOVE`. -/
  | remove (item : Nat)
  deriving DecidableEq

/-- An item that is not in the list is added, whatever its links are; an item that is in the list
is removed. -/
inductive ListStep : LinkStore → ListUse → LinkStore → Prop
  | add {l : LinkStore} {item : Nat} (fields : Link) (absent : ¬ l.InList item) :
      ListStep l (.add item fields)
        (llAdd item { l with links := Function.update l.links item fields })
  | remove {l : LinkStore} {item : Nat} (present : l.InList item) :
      ListStep l (.remove item) (llRemove item l)

/-- The items on the list after a use. -/
def listedAfter (items : List Nat) : ListUse → List Nat
  | .add item _ => item :: items
  | .remove item => items.erase item

/-- The items that were added and not removed, the most recently added first. -/
def listed (history : List ListUse) : List Nat :=
  history.foldl listedAfter []

/-- The items that are out of the list after a use that took them out. -/
def removedAfter (out : Finset Nat) : ListUse → Finset Nat
  | .add item _ => out.erase item
  | .remove item => insert item out

/-- The items that were removed and not added again. -/
def removed (history : List ListUse) : Finset Nat :=
  history.foldl removedAfter ∅

/-- The store spells a list. -/
structure Spells (l : LinkStore) (items : List Nat) : Prop where
  /-- The pointer leads to the first item. -/
  head : l.list = items.head?
  /-- The links lead through the items both ways. -/
  doubly : Doubly l.next l.prev items

/-- What is in the list is what it spells. -/
theorem Spells.inList_iff {l : LinkStore} {items : List Nat} (spells : Spells l items)
    (item : Nat) : l.InList item ↔ item ∈ items := by
  rw [LinkStore.InList, spells.head]
  exact spells.doubly.forward.reached_iff item

/-- Telling the element before keeps the list. -/
@[simp] theorem LinkStore.tellPrev_list (l : LinkStore) (a p : Option Nat) :
    (l.tellPrev a p).list = l.list := by
  cases a <;> rfl

/-- Telling the element behind keeps the list. -/
@[simp] theorem LinkStore.tellNext_list (l : LinkStore) (a p : Option Nat) :
    (l.tellNext a p).list = l.list := by
  cases a <;> rfl

/-- The links after an item's `prev` was written. -/
theorem LinkStore.setPrev_links (l : LinkStore) (a : Nat) (p : Option Nat) (b : Nat) :
    (l.setPrev a p).links b = if b = a then { l.links b with prev := p } else l.links b := by
  by_cases here : b = a
  · rw [here, if_pos rfl]
    exact Function.update_self ..
  · rw [if_neg here]
    exact Function.update_of_ne here ..

/-- The links after an item's `next` was written. -/
theorem LinkStore.setNext_links (l : LinkStore) (a : Nat) (p : Option Nat) (b : Nat) :
    (l.setNext a p).links b = if b = a then { l.links b with next := p } else l.links b := by
  by_cases here : b = a
  · rw [here, if_pos rfl]
    exact Function.update_self ..
  · rw [if_neg here]
    exact Function.update_of_ne here ..

/-- The links after a neighbour, if there is one, was told of the item before it. -/
theorem LinkStore.tellPrev_links (l : LinkStore) (a p : Option Nat) (b : Nat) :
    (l.tellPrev a p).links b = if a = some b then { l.links b with prev := p } else l.links b := by
  cases a with
  | none => rfl
  | some a =>
    by_cases here : a = b
    · rw [here, if_pos rfl]
      exact (l.setPrev_links b p b).trans (if_pos rfl)
    · have apart : some a ≠ some b := fun same => here (Option.some.inj same)
      rw [if_neg apart]
      exact (l.setPrev_links a p b).trans (if_neg (Ne.symm here))

/-- The links after a neighbour, if there is one, was told of the item behind it. -/
theorem LinkStore.tellNext_links (l : LinkStore) (a p : Option Nat) (b : Nat) :
    (l.tellNext a p).links b = if a = some b then { l.links b with next := p } else l.links b := by
  cases a with
  | none => rfl
  | some a =>
    by_cases here : a = b
    · rw [here, if_pos rfl]
      exact (l.setNext_links b p b).trans (if_pos rfl)
    · have apart : some a ≠ some b := fun same => here (Option.some.inj same)
      rw [if_neg apart]
      exact (l.setNext_links a p b).trans (if_neg (Ne.symm here))

/-- The links after `LL_ADD` of an item that is not the first. -/
theorem llAdd_links (item : Nat) (l : LinkStore) (apart : l.list ≠ some item) (a : Nat) :
    (llAdd item l).links a =
      if a = item then ⟨none, l.list⟩
      else if l.list = some a then { l.links a with prev := some item } else l.links a := by
  change (((l.setPrev item none).setNext item l.list).tellPrev l.list (some item)).links a = _
  rw [LinkStore.tellPrev_links, LinkStore.setNext_links, LinkStore.setPrev_links]
  by_cases here : a = item
  · rw [here, if_neg apart, if_pos rfl, if_pos rfl, if_pos rfl]
  · rw [if_neg here, if_neg here, if_neg here]

/-- `LL_ADD` puts an item before the others. -/
theorem Spells.add {l : LinkStore} {items : List Nat} (spells : Spells l items) {item : Nat}
    (absent : item ∉ items) : Spells (llAdd item l) (item :: items) := by
  have apart : l.list ≠ some item := by
    rw [spells.head]
    exact fun same => absent (List.mem_of_head? same)
  have links := llAdd_links item l apart
  have elsewhere : ∀ b ∈ items, b ≠ item := by
    intro b member same
    rw [same] at member
    exact absent member
  constructor
  · rfl
  · refine spells.doubly.push absent ?_ ?_ ?_ ?_ ?_
    · intro b member
      unfold LinkStore.next
      rw [links b, if_neg (elsewhere b member)]
      split
      · rfl
      · rfl
    · intro b member notHead
      unfold LinkStore.prev
      rw [links b, if_neg (elsewhere b member), spells.head, if_neg notHead]
    · intro b isHead
      unfold LinkStore.prev
      rw [links b, if_neg (elsewhere b (List.mem_of_head? isHead)), spells.head, if_pos isHead]
    · unfold LinkStore.next
      rw [links item, if_pos rfl, spells.head]
    · unfold LinkStore.prev
      rw [links item, if_pos rfl]

/-- The links after `LL_REMOVE` of an item that is not before itself. -/
theorem llRemove_links (item : Nat) (l : LinkStore) (before : l.prev item ≠ some item) (a : Nat) :
    (llRemove item l).links a =
      if a = item then ⟨none, none⟩
      else ⟨if l.next item = some a then l.prev item else l.prev a,
        if l.prev item = some a then l.next item else l.next a⟩ := by
  let one := l.tellNext (l.links item).prev (l.links item).next
  have kept : one.links item = l.links item := (l.tellNext_links _ _ item).trans (if_neg before)
  let two := one.tellPrev (one.links item).next (one.links item).prev
  let three := if two.list = some item then { two with list := (two.links item).next } else two
  have unchanged : three.links = two.links := by
    change (if two.list = some item then { two with list := (two.links item).next } else two).links
      = two.links
    split
    · rfl
    · rfl
  change ((three.setNext item none).setPrev item none).links a = _
  rw [LinkStore.setPrev_links, LinkStore.setNext_links]
  by_cases here : a = item
  · rw [if_pos here, if_pos here, if_pos here]
  · rw [if_neg here, if_neg here, if_neg here, unchanged]
    change (one.tellPrev (one.links item).next (one.links item).prev).links a = _
    rw [LinkStore.tellPrev_links, kept]
    change (if l.next item = some a then { one.links a with prev := l.prev item } else one.links a)
      = _
    have told : one.links a =
        if l.prev item = some a then { l.links a with next := l.next item } else l.links a :=
      l.tellNext_links _ _ a
    rw [told]
    unfold LinkStore.prev LinkStore.next
    split
    · split
      · rfl
      · rfl
    · split
      · rfl
      · rfl

/-- The head after `LL_REMOVE`. -/
theorem llRemove_list (item : Nat) (l : LinkStore) (before : l.prev item ≠ some item)
    (behind : l.next item ≠ some item) :
    (llRemove item l).list = if l.list = some item then l.next item else l.list := by
  let one := l.tellNext (l.links item).prev (l.links item).next
  have kept : one.links item = l.links item := (l.tellNext_links _ _ item).trans (if_neg before)
  let two := one.tellPrev (one.links item).next (one.links item).prev
  have other : (one.links item).next ≠ some item := by
    rw [kept]
    exact behind
  have keptToo : two.links item = l.links item :=
    ((one.tellPrev_links _ _ item).trans (if_neg other)).trans kept
  change (if two.list = some item then { two with list := (two.links item).next } else two).list = _
  have same : two.list = l.list := by
    change (one.tellPrev (one.links item).next (one.links item).prev).list = _
    rw [LinkStore.tellPrev_list]
    exact l.tellNext_list _ _
  rw [same, keptToo]
  split
  · rfl
  · exact same

/-- `LL_REMOVE` takes an item out from between its neighbours. -/
theorem Spells.remove {l : LinkStore} {items : List Nat} (spells : Spells l items) {item : Nat}
    (present : item ∈ items) : Spells (llRemove item l) (items.erase item) := by
  obtain ⟨before, behind, split⟩ := List.append_of_mem present
  have doubly := spells.doubly
  rw [split] at doubly
  have distinct := doubly.distinct
  rw [List.nodup_append] at distinct
  obtain ⟨_, distinctRest, apart⟩ := distinct
  have notBehind : item ∉ behind := (List.nodup_cons.mp distinctRest).1
  have notBefore : item ∉ before := by
    intro member
    exact apart item member item List.mem_cons_self rfl
  have erased : items.erase item = before ++ behind := by
    rw [split, List.erase_append_right _ notBefore, List.erase_cons_head]
  have next : l.next item = behind.head? := doubly.next_eq
  have prev : l.prev item = before.getLast? := doubly.prev_eq
  have prevOther : l.prev item ≠ some item := by
    rw [prev]
    exact fun last => notBefore (List.mem_of_getLast? last)
  have nextOther : l.next item ≠ some item := by
    rw [next]
    exact fun first => notBehind (List.mem_of_head? first)
  have links := llRemove_links item l prevOther
  have elsewhere : ∀ b ∈ before ++ behind, b ≠ item := by
    intro b member same
    rw [same, List.mem_append] at member
    exact member.elim notBefore notBehind
  have nexts : ∀ b, b ≠ item → (llRemove item l).next b =
      if before.getLast? = some b then l.next item else l.next b := by
    intro b other
    rw [LinkStore.next, links b, if_neg other, prev]
  have prevs : ∀ b, b ≠ item → (llRemove item l).prev b =
      if behind.head? = some b then l.prev item else l.prev b := by
    intro b other
    rw [LinkStore.prev, links b, if_neg other, next]
  rw [erased]
  constructor
  · rw [llRemove_list item l prevOther nextOther, spells.head, split, next]
    cases before with
    | nil => exact if_pos rfl
    | cons first before =>
      apply if_neg
      intro same
      have equal : first = item := Option.some.inj same
      rw [equal] at notBefore
      exact notBefore List.mem_cons_self
  · refine doubly.unlink ?_ ?_ ?_ ?_
    · intro b last
      have member := List.mem_append_left behind (List.mem_of_getLast? last)
      rw [nexts b (elsewhere b member), if_pos last]
    · intro b member notLast
      rw [nexts b (elsewhere b member), if_neg notLast]
    · intro b first
      have member := List.mem_append_right before (List.mem_of_head? first)
      rw [prevs b (elsewhere b member), if_pos first]
    · intro b member notFirst
      rw [prevs b (elsewhere b member), if_neg notFirst]

/-- An item that is out of the list may have any links. -/
theorem Spells.scribble {l : LinkStore} {items : List Nat} (spells : Spells l items) {item : Nat}
    (absent : item ∉ items) (fields : Link) :
    Spells { l with links := Function.update l.links item fields } items := by
  have same : ∀ b ∈ items, Function.update l.links item fields b = l.links b := by
    intro b member
    apply Function.update_of_ne
    intro here
    rw [here] at member
    exact absent member
  refine ⟨spells.head, ?_, ?_, spells.doubly.distinct⟩
  · exact spells.doubly.forward.congr fun b member => congrArg Link.next (same b member)
  · apply spells.doubly.backward.congr
    exact fun b member => congrArg Link.prev (same b (List.mem_reverse.mp member))

/-- `LL_ADD` writes to the item and to items of the list only. -/
theorem Spells.add_elsewhere {l : LinkStore} {items : List Nat} (spells : Spells l items)
    {item a : Nat} (absent : item ∉ items) (other : a ≠ item) (out : a ∉ items) :
    (llAdd item l).links a = l.links a := by
  have notHead : ∀ b, b ∉ items → l.list ≠ some b := by
    intro b outside
    rw [spells.head]
    exact fun same => outside (List.mem_of_head? same)
  rw [llAdd_links item l (notHead item absent), if_neg other, if_neg (notHead a out)]

/-- `LL_REMOVE` writes to the item and to items of the list only. -/
theorem Spells.remove_elsewhere {l : LinkStore} {items : List Nat} (spells : Spells l items)
    {item : Nat} (present : item ∈ items) (a : Nat) (out : a ∉ items.erase item) :
    (llRemove item l).links a = if a = item then ⟨none, none⟩ else l.links a := by
  obtain ⟨before, behind, split⟩ := List.append_of_mem present
  have doubly := spells.doubly
  rw [split] at doubly
  have next : l.next item = behind.head? := doubly.next_eq
  have prev : l.prev item = before.getLast? := doubly.prev_eq
  have distinct := doubly.distinct
  rw [List.nodup_append] at distinct
  have notBefore : item ∉ before := by
    intro member
    exact distinct.2.2 item member item List.mem_cons_self rfl
  rw [split, List.erase_append_right _ notBefore, List.erase_cons_head, List.mem_append] at out
  have notPrev : ∀ b, b ∉ before → l.prev item ≠ some b := by
    intro b outside
    rw [prev]
    exact fun last => outside (List.mem_of_getLast? last)
  have notNext : l.next item ≠ some a := by
    rw [next]
    exact fun first => out (Or.inr (List.mem_of_head? first))
  have outBefore : a ∉ before := fun member => out (Or.inl member)
  rw [llRemove_links item l (notPrev item notBefore), if_neg notNext, if_neg (notPrev a outBefore)]
  rfl

/-- After every history the store spells the items that were added and not removed, and the links
of those that were removed are null. -/
theorem run_spells {links : Nat → Link} {history : List ListUse} {l : LinkStore}
    (run : Run ListStep ⟨none, links⟩ history l) :
    Spells l (listed history) ∧
    ∀ item ∈ removed history, item ∉ listed history ∧ l.links item = ⟨none, none⟩ := by
  induction run with
  | nil => exact ⟨⟨rfl, Doubly.nil⟩, by simp [removed]⟩
  | @snoc trace l next use before taken ih =>
    obtain ⟨spells, nulls⟩ := ih
    have items : listed (trace ++ [use]) = listedAfter (listed trace) use := by
      simp only [listed, List.foldl_append, List.foldl_cons, List.foldl_nil]
    have gone : removed (trace ++ [use]) = removedAfter (removed trace) use := by
      simp only [removed, List.foldl_append, List.foldl_cons, List.foldl_nil]
    rw [items, gone]
    cases taken with
    | @add item fields absent =>
      rw [spells.inList_iff] at absent
      have written := spells.scribble absent fields
      refine ⟨written.add absent, ?_⟩
      intro a member
      obtain ⟨other, earlier⟩ := Finset.mem_erase.mp member
      obtain ⟨out, null⟩ := nulls a earlier
      constructor
      · exact fun inside => (List.mem_cons.mp inside).elim other out
      · rw [written.add_elsewhere absent other out]
        exact (Function.update_of_ne other ..).trans null
    | @remove item present =>
      rw [spells.inList_iff] at present
      refine ⟨spells.remove present, ?_⟩
      intro a member
      have out : a ∉ (listed trace).erase item := by
        rcases Finset.mem_insert.mp member with here | earlier
        · rw [here]
          exact spells.doubly.distinct.not_mem_erase
        · exact fun inside => (nulls a earlier).1 (List.mem_of_mem_erase inside)
      refine ⟨out, ?_⟩
      rw [spells.remove_elsewhere present a out]
      by_cases here : a = item
      · exact if_pos here
      · rw [if_neg here]
        exact (nulls a ((Finset.mem_insert.mp member).resolve_left here)).2

/-- After every history of `LL_ADD` and `LL_REMOVE` the walk from the head visits the items that
were added and not removed, each once and the latest first, and ends; the way back along `prev`
visits them the other way round and ends at the head; and the links of removed items are null. -/
theorem ll_add_ll_remove_spell {links : Nat → Link} {history : List ListUse} {l : LinkStore}
    (run : Run ListStep ⟨none, links⟩ history l) :
    l.list = (listed history).head? ∧ (listed history).Nodup ∧
    Leaves (fun fuel => walk l.next fuel l.list) (listed history) ∧
    Leaves (fun fuel => walk l.prev fuel (listed history).getLast?) (listed history).reverse ∧
    (∀ head, l.list = some head → l.prev head = none) ∧
    ∀ item ∈ removed history, l.links item = ⟨none, none⟩ := by
  obtain ⟨spells, nulls⟩ := run_spells run
  refine ⟨spells.head, spells.doubly.distinct, ?_, ?_, ?_, fun item gone => (nulls item gone).2⟩
  · rw [spells.head]
    exact spells.doubly.forward.walk
  · rw [← List.head?_reverse]
    exact spells.doubly.backward.walk
  · intro head isHead
    rw [spells.head] at isHead
    obtain ⟨rest, split⟩ := List.head?_eq_some_iff.mp isHead
    have doubly := spells.doubly
    rw [split] at doubly
    have front : Doubly l.next l.prev ([] ++ head :: rest) := doubly
    exact front.prev_eq

/-- Items 1 and 2 are added, with links to one another, and item 1 is removed. -/
theorem ll_add_ll_remove_spell_two :
    ∃ l, Run ListStep ⟨none, fun _ => ⟨none, none⟩⟩
        [.add 1 ⟨some 2, some 2⟩, .add 2 ⟨some 1, some 1⟩, .remove 1] l ∧
      Leaves (fun fuel => walk l.next fuel l.list) [2] ∧ l.links 1 = ⟨none, none⟩ := by
  have zero : Run ListStep ⟨none, fun _ => ⟨none, none⟩⟩ [] ⟨none, fun _ => ⟨none, none⟩⟩ := Run.nil
  have one := zero.snoc (ListStep.add ⟨some 2, some 2⟩
    (((run_spells zero).1.inList_iff 1).not.mpr (by decide)))
  have two := one.snoc (ListStep.add ⟨some 1, some 1⟩
    (((run_spells one).1.inList_iff 2).not.mpr (by decide)))
  have three := two.snoc (ListStep.remove (((run_spells two).1.inList_iff 1).mpr (by decide)))
  obtain ⟨_, _, visits, _, _, nulls⟩ := ll_add_ll_remove_spell three
  exact ⟨_, three, visits, nulls 1 (by decide)⟩

end BackendCpp.Tcp
