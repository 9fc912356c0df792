import BackendCpp.BtreeC.Cells

/-!
# The keys and children of a node

What a node shows is a list of keys and a list of children; a leaf has no children and shows
`NULL`. Each part of the program that works on one node is described by what the node shows
before and after.
-/

namespace BackendCpp.BtreeC

open BackendCpp.Library

/-- The pointers at the front of `childrens`. -/
def slots (leaf : Bool) (num : Nat) (children : List Nat) : List (Option Nat) :=
  if leaf then List.replicate (num + 1) none else children.map some

/-- What a part of the children is when one pointer is moved. -/
def Single (leaf : Bool) (children : List Nat) : Prop :=
  children.length = if leaf then 0 else 1

/-- The node shows the keys and the children. -/
structure Shows (t : Nat) (node : BtreeNode) (leaf : Bool) (keys : List Int)
    (children : List Nat) : Prop where
  /-- The number of keys. -/
  count : node.num = keys.length
  /-- Whether the node is a leaf. -/
  kind : node.leaf = leaf
  /-- The length of `keys`. -/
  keyRoom : node.keys.length = 2 * t - 1
  /-- The length of `childrens`. -/
  childRoom : node.childrens.length = 2 * t
  /-- The keys are at the front. -/
  shown : ∃ stale, node.keys = keys ++ stale
  /-- The pointers are at the front; a leaf has `NULL` throughout. -/
  linked : ∃ stale, node.childrens = slots leaf keys.length children ++ stale ∧
    (leaf = true → ∀ p ∈ stale, p = none)

/-- There is one pointer more than there are keys. -/
theorem slots_length {leaf : Bool} {keys : List Int} {children : List Nat}
    (fits : Fits leaf keys children) : (slots leaf keys.length children).length = keys.length + 1 := by
  cases leaf
  · simpa [slots, Fits] using fits
  · simp [slots]

/-- Pointers side by side. -/
theorem slots_append {leaf : Bool} {left right : List Int} {before after : List Nat} {num : Nat}
    (size : num = left.length + right.length + 1) :
    slots leaf num (before ++ after) =
      slots leaf left.length before ++ slots leaf right.length after := by
  cases leaf
  · simp [slots]
  · simp only [slots, if_true, List.replicate_append_replicate, size]
    congr 1
    omega

/-- A pointer more at the end. -/
theorem slots_snoc {leaf : Bool} {num : Nat} {children last : List Nat} (single : Single leaf last) :
    slots leaf (num + 1) (children ++ last) = slots leaf num children ++ [last.head?] := by
  cases leaf
  · obtain ⟨child, rfl⟩ := List.length_eq_one_iff.mp single
    simp [slots]
  · have empty : last = [] := List.length_eq_zero_iff.mp single
    rw [empty]
    exact List.replicate_succ'

/-- A pointer more at the front. -/
theorem slots_cons {leaf : Bool} {num : Nat} {children first : List Nat}
    (single : Single leaf first) :
    slots leaf (num + 1) (first ++ children) = first.head? :: slots leaf num children := by
  cases leaf
  · obtain ⟨child, rfl⟩ := List.length_eq_one_iff.mp single
    simp [slots]
  · have empty : first = [] := List.length_eq_zero_iff.mp single
    rw [empty]
    rfl

/-- A pointer that is moved is `NULL` in a leaf. -/
theorem Single.null {children : List Nat} (single : Single true children) :
    children.head? = none := by
  rw [List.length_eq_zero_iff.mp single]
  rfl

/-- Where a key belongs among the keys: those behind it are not less, and the one before it is not
greater. -/
def Divides (k : Int) (low high : List Int) : Prop :=
  (∀ value ∈ high, k ≤ value) ∧ ∀ value ∈ low.getLast?, value ≤ k

namespace Shows

variable {t : Nat} {node : BtreeNode} {leaf : Bool} {keys : List Int} {children : List Nat}

/-- There is room for the keys. -/
theorem room (shows : Shows t node leaf keys children) : keys.length ≤ 2 * t - 1 := by
  obtain ⟨stale, same⟩ := shows.shown
  have total := shows.keyRoom
  rw [same, List.length_append] at total
  omega

/-- Every pointer of a leaf is `NULL`. -/
theorem all_null (shows : Shows t node true keys children) : ∀ p ∈ node.childrens, p = none := by
  obtain ⟨stale, same, null⟩ := shows.linked
  intro p member
  rw [same] at member
  cases List.mem_append.mp member with
  | inl front => exact List.eq_of_mem_replicate front
  | inr behind => exact null rfl p behind

/-- The key at a place. -/
theorem key_at {low high : List Int} {k : Int} {i : Nat}
    (shows : Shows t node leaf (low ++ k :: high) children) (place : i = low.length) :
    node.key i = .ok k := by
  obtain ⟨stale, same⟩ := shows.shown
  rw [List.append_assoc, List.cons_append] at same
  exact BtreeNode.key_at same place

/-- The child at a place. -/
theorem child_at {before after : List Nat} {c i : Nat}
    (shows : Shows t node false keys (before ++ c :: after)) (place : i = before.length) :
    node.child i = .ok (some c) := by
  obtain ⟨stale, same, -⟩ := shows.linked
  simp only [slots, Bool.false_eq_true, if_false, List.map_append, List.map_cons,
    List.append_assoc, List.cons_append] at same
  exact BtreeNode.child_at same (by rw [place, List.length_map])

/-- A pointer of a leaf. -/
theorem child_null (shows : Shows t node true keys children) {i : Nat} (inside : i < 2 * t) :
    node.child i = .ok none := by
  have within : i < node.childrens.length := by rw [shows.childRoom]; exact inside
  have null := shows.all_null _ (List.getElem_mem within)
  simp [BtreeNode.child, fetch, List.getElem?_eq_getElem within, null]

/-- The new right half of a split node. -/
theorem splitRight {y : BtreeNode} {left right : List Int} {middle : Int} {before after : List Nat}
    (shows : Shows t y leaf (left ++ middle :: right) (before ++ after))
    (first : Fits leaf left before) (second : Fits leaf right after)
    (leftSize : left.length = t - 1) (rightSize : right.length = t - 1) (positive : 0 < t) :
    ∃ z, BtreeC.splitRight t y (emptyNode t y.leaf) = .ok z ∧ Shows t z leaf right after := by
  obtain ⟨stale, keysAre⟩ := shows.shown
  obtain ⟨behind, childrenAre, -⟩ := shows.linked
  have cells : (emptyNode t y.leaf).keys =
      [] ++ (List.replicate (t - 1) 0 ++ List.replicate t 0) := by
    simp only [emptyNode, List.nil_append, List.replicate_append_replicate]
    congr 1
    omega
  have pointers : (emptyNode t y.leaf).childrens =
      [] ++ (List.replicate t none ++ List.replicate t none) := by
    simp only [emptyNode, List.nil_append, List.replicate_append_replicate]
    congr 1
    omega
  have source : y.keys = (left ++ [middle]) ++ (right ++ stale) := by simp [keysAre]
  have copied := @BtreeNode.copyKeys { emptyNode t y.leaf with num := t - 1 } y (fun j => j)
    (fun j => j + t) 0 t [] (List.replicate (t - 1) 0) (List.replicate t 0) (left ++ [middle])
    right stale (fun k => (Nat.zero_add k).symm) (fun k => Nat.add_comm k t) cells source rfl
    (by simp [leftSize]; omega) (by simp [rightSize])
  rw [rightSize] at copied
  rw [BtreeC.splitRight]
  simp only [copied, ok_bind, List.nil_append]
  cases leaf with
  | true =>
    have kind : y.leaf = true := shows.kind
    rw [kind, if_pos rfl]
    refine ⟨_, rfl, ⟨by simp [rightSize], rfl, by simp [rightSize]; omega, by simp [emptyNode],
      ⟨_, rfl⟩, ⟨List.replicate t none, ?_, ?_⟩⟩⟩
    · simp only [emptyNode, slots, if_true, List.replicate_append_replicate, rightSize]
      congr 1
      omega
    · exact fun _ p member => List.eq_of_mem_replicate member
  | false =>
    have kind : y.leaf = false := shows.kind
    have beforeSize : before.length = t := by
      have fit : before.length = left.length + 1 := first
      omega
    have afterSize : after.length = t := by
      have fit : after.length = right.length + 1 := second
      omega
    have origin : y.childrens = before.map some ++ (after.map some ++ behind) := by
      rw [childrenAre]
      simp [slots]
    have linked := @BtreeNode.copyChildren
      { emptyNode t y.leaf with num := t - 1, keys := right ++ List.replicate t 0 } y (fun j => j)
      (fun j => j + t) 0 t [] (List.replicate t none) (List.replicate t none) (before.map some)
      (after.map some) behind (fun k => (Nat.zero_add k).symm) (fun k => Nat.add_comm k t) pointers
      origin rfl (by simp [beforeSize]) (by simp [afterSize])
    rw [List.length_map, afterSize] at linked
    rw [if_neg (by simp [kind]), linked]
    refine ⟨_, rfl, ⟨by simp [rightSize], kind, by simp [rightSize]; omega,
      by simp [afterSize]; omega, ⟨_, rfl⟩, ⟨List.replicate t none, by simp [slots], ?_⟩⟩⟩
    exact fun wrong => absurd wrong Bool.false_ne_true

/-- The left half of a split node. -/
theorem splitLeft {y : BtreeNode} {left right : List Int} {middle : Int} {before after : List Nat}
    (shows : Shows t y leaf (left ++ middle :: right) (before ++ after))
    (leftSize : left.length = t - 1) : Shows t { y with num := t - 1 } leaf left before := by
  obtain ⟨stale, keysAre⟩ := shows.shown
  obtain ⟨behind, childrenAre, null⟩ := shows.linked
  refine ⟨leftSize.symm, shows.kind, shows.keyRoom, shows.childRoom,
    ⟨middle :: (right ++ stale), by simp [keysAre]⟩,
    ⟨slots leaf right.length after ++ behind, ?_, ?_⟩⟩
  · have halves := @slots_append leaf left right before after
      (left ++ middle :: right).length (by simp; omega)
    rw [childrenAre, halves, List.append_assoc]
  · intro isLeaf p member
    cases List.mem_append.mp member with
    | inl front =>
      rw [slots, if_pos isLeaf] at front
      exact List.eq_of_mem_replicate front
    | inr rest => exact null isLeaf p rest

/-- The parent of a split node. -/
theorem splitParent {low high : List Int} {before after : List Nat} {c z i : Nat} {middle : Int}
    (shows : Shows t node false (low ++ high) (before ++ c :: after)) (place : i = low.length)
    (place' : i = before.length) (size : high.length = after.length)
    (notFull : (low ++ high).length < 2 * t - 1) :
    ∃ changed, BtreeC.splitParent i (some z) (.ok middle) node = .ok changed ∧
      Shows t changed false (low ++ middle :: high) (before ++ c :: z :: after) := by
  obtain ⟨staleKeys, keysAre⟩ := shows.shown
  obtain ⟨staleChildren, childrenAre, -⟩ := shows.linked
  have keyTotal := shows.keyRoom
  have childTotal := shows.childRoom
  have count := shows.count
  simp only [slots, Bool.false_eq_true, if_false, List.map_append, List.map_cons] at childrenAre
  rw [keysAre, List.length_append] at keyTotal
  rw [childrenAre] at childTotal
  simp only [List.length_append, List.length_cons, List.length_map] at childTotal
  simp only [List.length_append] at keyTotal notFull count
  cases staleKeys with
  | nil => simp at keyTotal; omega
  | cons gone staleKeys =>
    cases staleChildren with
    | nil => simp at childTotal; omega
    | cons goneChild staleChildren =>
      have gap : node.num - i = high.length := by omega
      obtain ⟨oldChild, childrenUp⟩ := @BtreeNode.shiftChildrenUp node (fun j => j + 1) (fun j => j)
        (i + 1) (i + 1) (before.map some ++ [some c]) (after.map some) staleChildren goneChild
        (fun k => rfl) (fun k => rfl) (by simp [childrenAre]) (by simp [place'])
      rw [List.length_map, ← size] at childrenUp
      obtain ⟨oldKey, keysUp⟩ := @BtreeNode.shiftKeysUp
        { node with
          childrens := (before.map some ++ [some c]) ++
            some z :: (after.map some ++ staleChildren) }
        (fun j => j + 1) (fun j => j) i i low high staleKeys gone
        (fun k => rfl) (fun k => rfl) (by simp [keysAre]) place.symm
      have linked := @BtreeNode.setChild_at { node with childrens :=
        (before.map some ++ [some c]) ++ oldChild :: (after.map some ++ staleChildren) } (i + 1)
        _ _ _ (some z) rfl (by simp [place'])
      have written := @BtreeNode.setKey_at
        { node with
          keys := low ++ oldKey :: (high ++ staleKeys)
          childrens := (before.map some ++ [some c]) ++
            some z :: (after.map some ++ staleChildren) } i _ _ _ middle rfl place
      rw [BtreeC.splitParent]
      simp only [childrenUp, linked, gap, keysUp, written, ok_bind]
      refine ⟨_, rfl, ⟨by simp [count]; omega, shows.kind, ?_, ?_, ⟨staleKeys, by simp⟩,
        ⟨staleChildren, by simp [slots], fun wrong => absurd wrong Bool.false_ne_true⟩⟩⟩
      · simp at keyTotal ⊢
        omega
      · simp at childTotal ⊢
        omega

/-- A key of the node is replaced. -/
theorem setKey {low high : List Int} {k new : Int} {i : Nat}
    (shows : Shows t node leaf (low ++ k :: high) children) (place : i = low.length) :
    ∃ changed, node.setKey i new = .ok changed ∧
      Shows t changed leaf (low ++ new :: high) children := by
  obtain ⟨stale, same⟩ := shows.shown
  obtain ⟨behind, childrenAre, null⟩ := shows.linked
  have room := shows.keyRoom
  rw [same] at room
  rw [List.append_assoc, List.cons_append] at same
  have written := @BtreeNode.setKey_at node i _ _ _ new same place
  refine ⟨_, written, ⟨?_, shows.kind, ?_, shows.childRoom, ⟨stale, by simp⟩, ⟨behind, ?_, null⟩⟩⟩
  · simpa using shows.count
  · simpa using room
  · simpa using childrenAre

/-- The loop of an insertion that shifts the greater keys of a leaf. -/
theorem shiftGreater_spec (k : Int) {before rest : List Int} {gone : Int} {x : BtreeNode}
    (shape : x.keys = before ++ gone :: rest) :
    ∃ low high stale, before = low ++ high ∧ Divides k low high ∧
      shiftGreater k before.length x =
        .ok ({ x with keys := low ++ stale :: (high ++ rest) }, low.length) := by
  induction before using List.reverseRecOn generalizing gone rest x with
  | nil =>
    refine ⟨[], [], gone, rfl, ⟨by simp, by simp⟩, ?_⟩
    rw [List.length_nil, shiftGreater]
    simp only [List.nil_append] at shape ⊢
    rw [← shape]
  | append_singleton before value ih =>
    have read : x.key before.length = .ok value := by
      rw [List.append_assoc] at shape
      exact BtreeNode.key_at shape rfl
    rw [List.length_append, List.length_singleton, shiftGreater, read, ok_bind]
    by_cases greater : value > k
    · have written := @BtreeNode.setKey_at x (before.length + 1) _ _ _ value shape (by simp)
      rw [if_pos greater, written, ok_bind]
      obtain ⟨low, high, stale, parts, divides, runs⟩ := @ih (value :: rest) value
        { x with keys := (before ++ [value]) ++ value :: rest } (by simp)
      refine ⟨low, high ++ [value], stale, by simp [parts], ⟨?_, divides.2⟩, ?_⟩
      · intro other member
        cases List.mem_append.mp member with
        | inl old => exact divides.1 other old
        | inr same => rw [List.mem_singleton.mp same]; exact greater.le
      · rw [runs]
        simp
    · rw [if_neg greater]
      refine ⟨before ++ [value], [], gone, by simp, ⟨by simp, ?_⟩, ?_⟩
      · intro other last
        rw [List.getLast?_append, List.getLast?_singleton] at last
        rw [← Option.some.inj last]
        exact not_lt.mp greater
      · simp only [List.nil_append, ← shape, List.length_append, List.length_singleton]

/-- The branch of an insertion for a leaf. -/
theorem insertIntoLeaf (k : Int) (shows : Shows t node true keys [])
    (notFull : keys.length < 2 * t - 1) :
    ∃ low high changed, keys = low ++ high ∧ Divides k low high ∧
      BtreeC.insertIntoLeaf k node = .ok changed ∧
      Shows t changed true (low ++ k :: high) [] := by
  obtain ⟨stale, keysAre⟩ := shows.shown
  have total := shows.keyRoom
  rw [keysAre, List.length_append] at total
  cases stale with
  | nil => simp at total; omega
  | cons gone stale =>
    obtain ⟨low, high, hole, parts, divides, runs⟩ := shiftGreater_spec k keysAre
    have written := @BtreeNode.setKey_at { node with keys := low ++ hole :: (high ++ stale) }
      low.length _ _ _ k rfl rfl
    have null := shows.all_null
    have room := shows.childRoom
    have several : keys.length = low.length + high.length := by rw [parts, List.length_append]
    rw [BtreeC.insertIntoLeaf, shows.count]
    simp only [runs, written, ok_bind]
    refine ⟨low, high, _, parts, divides, rfl, ⟨?_, shows.kind, ?_, room, ⟨stale, by simp⟩,
      ⟨node.childrens.drop ((low ++ k :: high).length + 1), ?_, ?_⟩⟩⟩
    · simp only [shows.count, several, List.length_append, List.length_cons]
      omega
    · simp only [List.length_append, List.length_cons] at total ⊢
      omega
    · have front : node.childrens.take ((low ++ k :: high).length + 1) =
          List.replicate ((low ++ k :: high).length + 1) none := by
        refine List.eq_replicate_iff.mpr ⟨?_, fun p member => null p (List.mem_of_mem_take member)⟩
        simp only [List.length_take, List.length_append, List.length_cons, room]
        omega
      rw [slots, if_pos rfl, ← front, List.take_append_drop]
    · exact fun _ p member => null p (List.mem_of_mem_drop member)

/-- The loop of an insertion that looks for a child. -/
theorem skipGreater_spec (k : Int) {before rest : List Int} (shape : node.keys = before ++ rest) :
    ∃ low high, before = low ++ high ∧ Divides k low high ∧
      skipGreater k node before.length = .ok low.length := by
  induction before using List.reverseRecOn generalizing rest with
  | nil => exact ⟨[], [], rfl, ⟨by simp, by simp⟩, rfl⟩
  | append_singleton before value ih =>
    rw [List.append_assoc] at shape
    have read : node.key before.length = .ok value := BtreeNode.key_at shape rfl
    rw [List.length_append, List.length_singleton, skipGreater, read, ok_bind]
    by_cases greater : value > k
    · obtain ⟨low, high, parts, divides, runs⟩ := ih shape
      refine ⟨low, high ++ [value], by simp [parts], ⟨?_, divides.2⟩, ?_⟩
      · intro other member
        cases List.mem_append.mp member with
        | inl old => exact divides.1 other old
        | inr same => rw [List.mem_singleton.mp same]; exact greater.le
      · rw [if_pos greater, runs]
    · rw [if_neg greater]
      refine ⟨before ++ [value], [], by simp, ⟨by simp, ?_⟩, by simp⟩
      intro other last
      rw [List.getLast?_append, List.getLast?_singleton] at last
      rw [← Option.some.inj last]
      exact not_lt.mp greater

/-- The child an insertion goes on with. -/
theorem skipGreater (k : Int) (shows : Shows t node leaf keys children) :
    ∃ low high, keys = low ++ high ∧ Divides k low high ∧
      BtreeC.skipGreater k node node.num = .ok low.length := by
  obtain ⟨stale, same⟩ := shows.shown
  rw [shows.count]
  exact skipGreater_spec k same

/-- The loop of a deletion that looks for the key. -/
theorem keyIndex_spec {key : Int} {before low high rest : List Int} (below : ∀ value ∈ low, value < key)
    (stop : ∀ value ∈ high.head?, ¬ value < key)
    (shape : node.keys = before ++ (low ++ (high ++ rest))) :
    BtreeC.keyIndex node key before.length (low ++ high).length =
      .ok (before.length + low.length) := by
  induction low generalizing before with
  | nil =>
    cases high with
    | nil => rfl
    | cons value high =>
      have read : node.key before.length = .ok value := BtreeNode.key_at shape rfl
      rw [List.nil_append, List.length_cons, BtreeC.keyIndex, read, ok_bind,
        if_neg (stop value rfl)]
      rfl
  | cons value low ih =>
    have read : node.key before.length = .ok value := BtreeNode.key_at shape rfl
    have rest := @ih (before ++ [value]) (fun other member => below other (List.mem_cons_of_mem _ member))
      (by rw [shape]; simp)
    rw [List.cons_append, List.length_cons, BtreeC.keyIndex, read, ok_bind,
      if_pos (below value List.mem_cons_self)]
    rw [List.length_append, List.length_singleton] at rest
    rw [rest, List.length_cons]
    congr 1
    omega

/-- The place a deletion finds for the key. -/
theorem keyIndex {key : Int} {low high : List Int} (shows : Shows t node leaf (low ++ high) children)
    (below : ∀ value ∈ low, value < key) (stop : ∀ value ∈ high.head?, ¬ value < key) :
    BtreeC.keyIndex node key 0 node.num = .ok low.length := by
  obtain ⟨stale, same⟩ := shows.shown
  have found := @keyIndex_spec node key [] low high stale below stop (by rw [same]; simp)
  rw [shows.count]
  simpa using found

/-- Whether a deletion finds the key. -/
theorem keyFound (key : Int) {low high : List Int}
    (shows : Shows t node leaf (low ++ high) children) :
    BtreeC.keyFound node low.length key = .ok (decide (high.head? = some key)) := by
  rw [BtreeC.keyFound, shows.count]
  cases high with
  | nil => simp
  | cons value high =>
    rw [if_pos (by simp), shows.key_at rfl, ok_bind]
    simp [eq_comm]
    rfl

/-- A leaf without one of its keys. -/
theorem closeLeaf {low high : List Int} {k : Int} {i : Nat}
    (shows : Shows t node true (low ++ k :: high) []) (place : i = low.length) :
    ∃ changed, BtreeC.closeLeaf i node = .ok changed ∧ Shows t changed true (low ++ high) [] := by
  obtain ⟨stale, keysAre⟩ := shows.shown
  obtain ⟨behind, childrenAre, null⟩ := shows.linked
  have count := shows.count
  have room := shows.keyRoom
  rw [keysAre] at room
  simp only [List.length_append, List.length_cons] at count room
  have gap : node.num - 1 - i = high.length := by omega
  obtain ⟨old, closed⟩ := @BtreeNode.shiftKeysDown node (fun i => i) (fun i => i + 1) i i low high
    stale k (fun j => rfl) (fun j => rfl) (by simp [keysAre]) place.symm
  have written := @BtreeNode.setKey_at { node with keys := low ++ (high ++ old :: stale) }
    (node.num - 1) (low ++ high) stale old 0 (by simp) (by simp; omega)
  rw [BtreeC.closeLeaf]
  simp only [gap, closed, written, ok_bind]
  refine ⟨_, rfl, ⟨by simp; omega, shows.kind, by simp; omega, shows.childRoom, ⟨0 :: stale, rfl⟩,
    ⟨none :: behind, ?_, ?_⟩⟩⟩
  · have shorter : (low ++ k :: high).length + 1 = (low ++ high).length + 1 + 1 := by
      simp
      omega
    rw [childrenAre, slots, slots, if_pos rfl, if_pos rfl, shorter, List.replicate_succ']
    simp
  · intro _ p member
    cases List.mem_cons.mp member with
    | inl first => exact first
    | inr other => exact null rfl p other

/-- The node on the left of a merge. -/
theorem mergeLeft {right : BtreeNode} {leftKeys rightKeys : List Int} {before after : List Nat}
    {between : Int} (left : Shows t node leaf leftKeys before)
    (moved : Shows t right leaf rightKeys after) (first : Fits leaf leftKeys before)
    (second : Fits leaf rightKeys after) (leftSize : leftKeys.length = t - 1)
    (rightSize : rightKeys.length = t - 1) (positive : 0 < t) :
    ∃ merged, BtreeC.mergeLeft t (.ok between) right node = .ok merged ∧
      Shows t merged leaf (leftKeys ++ between :: rightKeys) (before ++ after) := by
  obtain ⟨stale, keysAre⟩ := left.shown
  obtain ⟨behind, childrenAre, null⟩ := left.linked
  obtain ⟨staleRight, rightAre⟩ := moved.shown
  obtain ⟨behindRight, rightChildren, -⟩ := moved.linked
  have room := left.keyRoom
  have count := left.count
  rw [keysAre, List.length_append] at room
  cases stale with
  | nil => simp at room; omega
  | cons gone old =>
    rw [List.length_cons] at room
    have written := @BtreeNode.setKey_at node (t - 1) _ _ _ between keysAre leftSize.symm
    have copied := @BtreeNode.copyKeys { node with keys := leftKeys ++ between :: old } right
      (fun i => t + i) (fun i => i) t 0 (leftKeys ++ [between]) old [] [] rightKeys staleRight
      (fun k => rfl) (fun k => (Nat.zero_add k).symm) (by simp) (by simp [rightAre])
      (by simp [leftSize]; omega) rfl (by omega)
    rw [rightSize] at copied
    rw [BtreeC.mergeLeft]
    simp only [written, copied, ok_bind]
    cases leaf with
    | true =>
      have kind : node.leaf = true := left.kind
      rw [if_pos kind]
      refine ⟨_, rfl, ⟨by simp; omega, kind, by simp; omega, left.childRoom, ⟨[], by simp⟩,
        ⟨[], ?_, by simp⟩⟩⟩
      have all : node.childrens = List.replicate (2 * t) none :=
        List.eq_replicate_iff.mpr ⟨left.childRoom, left.all_null⟩
      simp only [all, slots, if_true, List.append_nil, List.length_append, List.length_cons]
      congr 1
      omega
    | false =>
      have kind : node.leaf = false := left.kind
      have beforeSize : before.length = t := by
        have fit : before.length = leftKeys.length + 1 := first
        omega
      have afterSize : after.length = t := by
        have fit : after.length = rightKeys.length + 1 := second
        omega
      have childRoom := left.childRoom
      simp only [slots, Bool.false_eq_true, if_false] at childrenAre rightChildren
      rw [childrenAre, List.length_append, List.length_map] at childRoom
      have linked := @BtreeNode.copyChildren
        { node with keys := leftKeys ++ [between] ++ (rightKeys ++ []) } right
        (fun i => t + i) (fun i => i) t 0 (before.map some) behind [] [] (after.map some)
        behindRight (fun k => rfl) (fun k => (Nat.zero_add k).symm) (by simp [childrenAre])
        (by simp [rightChildren]) (by simp [beforeSize]) rfl (by simp; omega)
      rw [List.length_map, afterSize] at linked
      rw [if_neg (by simp [kind])]
      simp only [linked, ok_bind]
      refine ⟨_, rfl, ⟨by simp; omega, kind, by simp; omega, by simp; omega, ⟨[], by simp⟩,
        ⟨[], by simp [slots], by simp⟩⟩⟩

section MergeParent

variable {low high : List Int} {before after : List Nat} {k : Int} {l r i : Nat}

/-- The loop that closes the gap of a merge. -/
theorem mergeParent_gap (shows : Shows t node false (low ++ k :: high) (before ++ l :: r :: after))
    (place : i = low.length) (place' : i = before.length) (size : high.length = after.length) :
    ∃ staleKeys gone staleChildren, node.childrens.length = i + 1 + high.length + 1 + staleChildren.length ∧
      node.keys.length = i + high.length + staleKeys.length ∧
      countUp (fun i node => do
        let node ← node.setKey (i - 1) (← node.key i)
        node.setChild i (← node.child (i + 1))) (i + 1) (node.num - (i + 1)) node =
      .ok { node with
        keys := (low ++ high) ++ staleKeys
        childrens := (before ++ l :: after).map some ++ gone :: staleChildren } := by
  obtain ⟨stale, keysAre⟩ := shows.shown
  obtain ⟨behind, childrenAre, -⟩ := shows.linked
  have count := shows.count
  simp only [List.length_append, List.length_cons] at count
  simp only [slots, Bool.false_eq_true, if_false, List.map_append, List.map_cons] at childrenAre
  have passes : node.num - (i + 1) = high.length := by omega
  obtain ⟨oldKey, oldChild, closed⟩ := @BtreeNode.shiftBothDown node (fun i => i - 1) (fun i => i)
    (fun i => i) (fun i => i + 1) (i + 1) i (i + 1) low high stale k (before.map some ++ [some l])
    (after.map some) behind (some r) (fun j => by omega) (fun j => by omega) (fun j => rfl)
    (fun j => rfl) (by simp [keysAre]) (by simp [childrenAre]) place.symm (by simp [place'])
    (by simp [size])
  refine ⟨oldKey :: stale, oldChild, behind, ?_, ?_, ?_⟩
  · simp [childrenAre]
    omega
  · simp [keysAre]
    omega
  · rw [passes, closed]
    simp

/-- The parent of a merge. -/
theorem mergeParent (shows : Shows t node false (low ++ k :: high) (before ++ l :: r :: after))
    (place : i = low.length) (place' : i = before.length) (size : high.length = after.length)
    (notFull : (low ++ k :: high).length < 2 * t - 1) :
    ∃ changed, BtreeC.mergeParent i node = .ok changed ∧
      Shows t changed false (low ++ high) (before ++ l :: after) := by
  obtain ⟨staleKeys, gone, stale, childCount, keyCount, closed⟩ :=
    mergeParent_gap shows place place' size
  have count := shows.count
  have childRoom := shows.childRoom
  have keyRoom := shows.keyRoom
  simp only [List.length_append, List.length_cons] at count notFull
  cases stale with
  | nil => simp at childCount; omega
  | cons next stale =>
    have last : max (i + 1) node.num + 1 = ((before ++ l :: after).map some ++ [gone]).length := by
      simp
      omega
    have written := @BtreeNode.setChild_at { node with
        keys := (low ++ high) ++ staleKeys
        childrens := (before ++ l :: after).map some ++ gone :: next :: stale }
      (max (i + 1) node.num + 1) ((before ++ l :: after).map some ++ [gone]) stale next none
      (by simp) last
    rw [BtreeC.mergeParent]
    simp only [closed, written, ok_bind]
    refine ⟨_, rfl, ⟨by simp; omega, shows.kind, by simp; omega, ?_, ⟨staleKeys, rfl⟩,
      ⟨gone :: none :: stale, by simp [slots], fun wrong => absurd wrong Bool.false_ne_true⟩⟩⟩
    simp at childCount ⊢
    omega

/-- The parent of a merge that has no room behind its pointers. -/
theorem mergeParent_full
    (shows : Shows t node false (low ++ k :: high) (before ++ l :: r :: after))
    (place : i = low.length) (place' : i = before.length) (size : high.length = after.length)
    (full : (low ++ k :: high).length = 2 * t - 1) (positive : 0 < t) :
    BtreeC.mergeParent i node = .error .outside := by
  obtain ⟨staleKeys, gone, stale, childCount, keyCount, closed⟩ :=
    mergeParent_gap shows place place' size
  have count := shows.count
  have childRoom := shows.childRoom
  simp only [List.length_append, List.length_cons] at count full
  have beyond : ¬ max (i + 1) node.num + 1 <
      ((before ++ l :: after).map some ++ gone :: stale).length := by
    simp
    omega
  rw [BtreeC.mergeParent, closed, ok_bind, BtreeNode.setChild, assign, if_neg beyond]
  rfl

end MergeParent

/-- The child that a key is borrowed for from the next node. -/
theorem borrowNextChild {right : BtreeNode} {rightKeys : List Int} {first rest : List Nat}
    {between : Int} (child : Shows t node leaf keys children)
    (moved : Shows t right leaf rightKeys (first ++ rest)) (single : Single leaf first)
    (some_key : rightKeys ≠ []) (fits : Fits leaf keys children)
    (notFull : keys.length < 2 * t - 1) :
    ∃ changed, BtreeC.borrowNextChild (.ok between) right node = .ok changed ∧
      Shows t changed leaf (keys ++ [between]) (children ++ first) := by
  obtain ⟨stale, keysAre⟩ := child.shown
  obtain ⟨behind, childrenAre, null⟩ := child.linked
  obtain ⟨behindRight, rightChildren, -⟩ := moved.linked
  have keyRoom := child.keyRoom
  have childRoom := child.childRoom
  have pointers := slots_length fits
  rw [keysAre, List.length_append] at keyRoom
  rw [childrenAre, List.length_append, pointers] at childRoom
  cases stale with
  | nil => simp at keyRoom; omega
  | cons gone stale =>
    cases behind with
    | nil => simp at childRoom; omega
    | cons goneChild behind =>
      have read : right.child 0 = .ok first.head? := by
        obtain ⟨value, others, rfl⟩ := List.exists_cons_of_ne_nil some_key
        rw [List.length_cons, slots_cons single] at rightChildren
        exact @BtreeNode.child_at right 0 [] _ first.head? rightChildren rfl
      have written := @BtreeNode.setKey_at node node.num _ _ _ between keysAre child.count
      have linked := @BtreeNode.setChild_at { node with keys := keys ++ between :: stale }
        (node.num + 1) _ _ _ first.head? childrenAre (by rw [pointers, child.count])
      rw [BtreeC.borrowNextChild]
      simp only [written, read, linked, ok_bind]
      refine ⟨_, rfl, ⟨by simp [child.count], child.kind, ?_, ?_, ⟨stale, by simp⟩,
        ⟨behind, ?_, fun isLeaf p member => null isLeaf p (List.mem_cons_of_mem _ member)⟩⟩⟩
      · simp at keyRoom ⊢
        omega
      · simp [pointers] at childRoom ⊢
        omega
      · rw [List.length_append, List.length_singleton, slots_snoc single]
        simp

/-- The next node that a key is borrowed from. -/
theorem borrowNextRight {k : Int} {first rest : List Nat}
    (shows : Shows t node leaf (k :: keys) (first ++ rest)) (single : Single leaf first)
    (fits : Fits leaf keys rest) :
    ∃ changed, BtreeC.borrowNextRight node = .ok changed ∧ Shows t changed leaf keys rest := by
  obtain ⟨stale, keysAre⟩ := shows.shown
  obtain ⟨behind, childrenAre, null⟩ := shows.linked
  have count := shows.count
  have keyRoom := shows.keyRoom
  have childRoom := shows.childRoom
  have pointers := slots_length fits
  rw [List.length_cons, slots_cons single, List.cons_append] at childrenAre
  rw [List.length_cons] at count
  obtain ⟨front, last, parts⟩ : ∃ front last, slots leaf keys.length rest = front ++ [last] := by
    refine (List.eq_nil_or_concat' (slots leaf keys.length rest)).resolve_left fun empty => ?_
    rw [empty] at pointers
    simp at pointers
  have frontSize : front.length = keys.length := by
    rw [parts] at pointers
    simpa using pointers
  have passes : node.num - 1 = keys.length := by omega
  obtain ⟨oldKey, oldChild, closed⟩ := @BtreeNode.shiftBothDown node (fun i => i) (fun i => i + 1)
    (fun i => i) (fun i => i + 1) 0 0 0 [] keys stale k [] front (last :: behind) first.head?
    (fun j => rfl) (fun j => rfl) (fun j => rfl) (fun j => rfl) keysAre
    (by rw [childrenAre, parts]; simp) rfl rfl frontSize
  have written := @BtreeNode.setKey_at { node with
      keys := [] ++ (keys ++ oldKey :: stale)
      childrens := [] ++ (front ++ oldChild :: last :: behind) }
    (node.num - 1) keys stale oldKey 0 rfl passes
  have read := @BtreeNode.child_at { node with
      keys := keys ++ 0 :: stale
      childrens := [] ++ (front ++ oldChild :: last :: behind) }
    node.num (front ++ [oldChild]) behind last (by simp) (by simp [frontSize, count])
  have moved := @BtreeNode.setChild_at { node with
      keys := keys ++ 0 :: stale
      childrens := [] ++ (front ++ oldChild :: last :: behind) }
    (node.num - 1) front (last :: behind) oldChild last rfl (by simp [frontSize, passes])
  have cleared := @BtreeNode.setChild_at { node with
      keys := keys ++ 0 :: stale
      childrens := front ++ last :: last :: behind }
    node.num (front ++ [last]) behind last none (by simp) (by simp [frontSize, count])
  rw [BtreeC.borrowNextRight]
  rw [← passes] at closed
  simp only [closed, written, read, moved, cleared, ok_bind]
  refine ⟨_, rfl, ⟨passes, shows.kind, ?_, ?_, ⟨0 :: stale, rfl⟩, ⟨none :: behind, ?_, ?_⟩⟩⟩
  · rw [keysAre] at keyRoom
    simp at keyRoom ⊢
    omega
  · rw [childrenAre, parts] at childRoom
    simp at childRoom ⊢
    omega
  · rw [parts]
  · intro isLeaf p member
    cases List.mem_cons.mp member with
    | inl same => exact same
    | inr old => exact null isLeaf p old

/-- The child that a key is borrowed for from the node before. -/
theorem borrowPrevChild {left : BtreeNode} {leftKeys : List Int} {rest last : List Nat}
    {between : Int} (child : Shows t node leaf keys children)
    (moved : Shows t left leaf leftKeys (rest ++ last)) (single : Single leaf last)
    (some_key : leftKeys ≠ []) (restSize : Fits leaf leftKeys.dropLast rest)
    (fits : Fits leaf keys children) (notFull : keys.length < 2 * t - 1) :
    ∃ changed, BtreeC.borrowPrevChild (.ok between) left node = .ok changed ∧
      Shows t changed leaf (between :: keys) (last ++ children) := by
  obtain ⟨stale, keysAre⟩ := child.shown
  obtain ⟨behind, childrenAre, null⟩ := child.linked
  obtain ⟨behindLeft, leftChildren, -⟩ := moved.linked
  have keyRoom := child.keyRoom
  have childRoom := child.childRoom
  have pointers := slots_length fits
  rw [keysAre, List.length_append] at keyRoom
  rw [childrenAre, List.length_append, pointers] at childRoom
  obtain ⟨first, back, parts⟩ : ∃ first back, slots leaf keys.length children = first :: back := by
    refine List.exists_cons_of_ne_nil fun empty => ?_
    rw [empty] at pointers
    simp at pointers
  have backSize : back.length = keys.length := by
    rw [parts] at pointers
    simpa using pointers
  cases stale with
  | nil => simp at keyRoom; omega
  | cons gone stale =>
    cases behind with
    | nil => simp at childRoom; omega
    | cons goneChild behind =>
      have positive := List.length_pos_iff.mpr some_key
      have read : left.child left.num = .ok last.head? := by
        have size : leftKeys.length = leftKeys.dropLast.length + 1 := by
          rw [List.length_dropLast]
          omega
        rw [size, slots_snoc single, List.append_assoc] at leftChildren
        refine BtreeNode.child_at leftChildren ?_
        rw [slots_length restSize, moved.count, size]
      obtain ⟨oldKey, oldChild, opened⟩ := @BtreeNode.shiftBothUp node (fun i => i)
        (fun i => i - 1) (fun i => i + 1) (fun i => i) 1 0 1 [] keys stale gone [first] back behind
        goneChild (fun j => by omega) (fun j => by omega) (fun j => by omega) (fun j => rfl)
        (by rw [keysAre]; rfl) (by rw [childrenAre, parts]; simp) rfl rfl backSize
      rw [← child.count] at opened
      have head := @BtreeNode.child_at { node with
          keys := [] ++ oldKey :: (keys ++ stale)
          childrens := [first] ++ oldChild :: (back ++ behind) } 0 [] _ first rfl rfl
      have second := @BtreeNode.setChild_at { node with
          keys := [] ++ oldKey :: (keys ++ stale)
          childrens := [first] ++ oldChild :: (back ++ behind) } 1 [first] _ oldChild first rfl rfl
      have front := @BtreeNode.setChild_at { node with
          keys := [] ++ oldKey :: (keys ++ stale)
          childrens := [first] ++ first :: (back ++ behind) } 0 [] (first :: (back ++ behind)) first
        last.head? rfl rfl
      have written := @BtreeNode.setKey_at { node with
          keys := [] ++ oldKey :: (keys ++ stale)
          childrens := [] ++ last.head? :: first :: (back ++ behind) } 0 [] (keys ++ stale) oldKey
        between rfl rfl
      rw [BtreeC.borrowPrevChild]
      simp only [opened, head, second, front, read, written, ok_bind]
      refine ⟨_, rfl, ⟨by simp [child.count], child.kind, ?_, ?_, ⟨stale, by simp⟩,
        ⟨behind, ?_, fun isLeaf p member => null isLeaf p (List.mem_cons_of_mem _ member)⟩⟩⟩
      · simp at keyRoom ⊢
        omega
      · simp [backSize] at childRoom ⊢
        omega
      · rw [List.length_cons, slots_cons single, parts]
        simp

/-- The node before that a key is borrowed from. -/
theorem borrowPrevLeft {k : Int} {rest last : List Nat}
    (shows : Shows t node leaf (keys ++ [k]) (rest ++ last)) (single : Single leaf last)
    (fits : Fits leaf keys rest) :
    ∃ changed, BtreeC.borrowPrevLeft node = .ok changed ∧ Shows t changed leaf keys rest := by
  obtain ⟨stale, keysAre⟩ := shows.shown
  obtain ⟨behind, childrenAre, null⟩ := shows.linked
  have count := shows.count
  have keyRoom := shows.keyRoom
  have childRoom := shows.childRoom
  rw [List.append_assoc] at keysAre
  rw [List.length_append, List.length_singleton] at count
  rw [List.length_append, List.length_singleton, slots_snoc single, List.append_assoc] at childrenAre
  have written := @BtreeNode.setKey_at node (node.num - 1) keys stale k 0 keysAre (by omega)
  have cleared := @BtreeNode.setChild_at { node with keys := keys ++ 0 :: stale } node.num
    (slots leaf keys.length rest) behind last.head? none childrenAre
    (by rw [slots_length fits, count])
  rw [BtreeC.borrowPrevLeft]
  simp only [written, cleared, ok_bind]
  refine ⟨_, rfl, ⟨by simp; omega, shows.kind, ?_, ?_, ⟨0 :: stale, rfl⟩,
    ⟨none :: behind, rfl, ?_⟩⟩⟩
  · rw [keysAre] at keyRoom
    simpa using keyRoom
  · rw [childrenAre] at childRoom
    simpa using childRoom
  · intro isLeaf p member
    cases List.mem_cons.mp member with
    | inl same => exact same
    | inr old => exact null isLeaf p old

end Shows

end BackendCpp.BtreeC
