import BackendCpp.BtreeC.Program
import BackendCpp.Library.Woven

/-!
# What the arrays of a node show

A node shows its keys at the front of `keys` and its pointers at the front of `childrens`; what is
behind them is stale. A leaf has `NULL` in all of `childrens`. Each assignment of the program to a
node is described by the keys and pointers it shows afterwards.
-/

namespace BackendCpp.BtreeC

open BackendCpp.Library

namespace BtreeNode

variable {node : BtreeNode} {i : Nat}

/-- Reading the key behind a block. -/
theorem key_at {before after : List Int} {k : Int} (shape : node.keys = before ++ k :: after)
    (place : i = before.length) : node.key i = .ok k := by
  rw [key, shape]
  exact fetch_at place

/-- Reading the pointer behind a block. -/
theorem child_at {before after : List (Option Nat)} {p : Option Nat}
    (shape : node.childrens = before ++ p :: after) (place : i = before.length) :
    node.child i = .ok p := by
  rw [child, shape]
  exact fetch_at place

/-- Assigning to the key behind a block. -/
theorem setKey_at {before after : List Int} {k new : Int}
    (shape : node.keys = before ++ k :: after) (place : i = before.length) :
    node.setKey i new = .ok { node with keys := before ++ new :: after } := by
  rw [setKey, shape, assign_at place]
  rfl

/-- Assigning to the pointer behind a block. -/
theorem setChild_at {before after : List (Option Nat)} {p new : Option Nat}
    (shape : node.childrens = before ++ p :: after) (place : i = before.length) :
    node.setChild i new = .ok { node with childrens := before ++ new :: after } := by
  rw [setChild, shape, assign_at place]
  rfl

/-- Moving a key is a matter of `keys` alone. -/
theorem moveKey_lift (node : BtreeNode) (dst src : Nat) (keys : List Int) :
    (do
      let k ← { node with keys := keys }.key src
      { node with keys := keys }.setKey dst k) =
    (do
      let k ← fetch Fault.outside keys src
      assign Fault.outside keys dst k).map fun keys => { node with keys := keys } := by
  simp only [key, setKey]
  cases fetch Fault.outside keys src with
  | error fault => rfl
  | ok k => rfl

/-- Moving a pointer is a matter of `childrens` alone. -/
theorem moveChild_lift (node : BtreeNode) (dst src : Nat) (childrens : List (Option Nat)) :
    (do
      let p ← { node with childrens := childrens }.child src
      { node with childrens := childrens }.setChild dst p) =
    (do
      let p ← fetch Fault.outside childrens src
      assign Fault.outside childrens dst p).map fun childrens =>
        { node with childrens := childrens } := by
  simp only [child, setChild]
  cases fetch Fault.outside childrens src with
  | error fault => rfl
  | ok p => rfl

/-- Moving a key and a pointer. -/
theorem moveBoth_lift (node : BtreeNode) (dst src dst' src' : Nat)
    (cells : List Int × List (Option Nat)) :
    (do
      let k ← { node with keys := cells.1, childrens := cells.2 }.key src
      let moved ← { node with keys := cells.1, childrens := cells.2 }.setKey dst k
      let p ← moved.child src'
      moved.setChild dst' p) =
    (do
      let keys ← (do
        let k ← fetch Fault.outside cells.1 src
        assign Fault.outside cells.1 dst k)
      let childrens ← (do
        let p ← fetch Fault.outside cells.2 src'
        assign Fault.outside cells.2 dst' p)
      Except.ok (keys, childrens)).map fun cells : List Int × List (Option Nat) =>
        { node with keys := cells.1, childrens := cells.2 } := by
  simp only [key, setKey, child, setChild]
  cases fetch Fault.outside cells.1 src with
  | error fault => rfl
  | ok k =>
    simp only [ok_bind]
    cases assign Fault.outside cells.1 dst k with
    | error fault => rfl
    | ok keys =>
      simp only [ok_bind, map_ok]
      cases fetch Fault.outside cells.2 src' with
      | error fault => rfl
      | ok p =>
        simp only [ok_bind]
        cases assign Fault.outside cells.2 dst' p with
        | error fault => rfl
        | ok childrens => rfl

section Loops

variable {source : BtreeNode} {dst src dst' src' : Nat → Nat} {first last base start : Nat}

/-- The loops that copy keys from another node. -/
theorem copyKeys {before old after front values rear : List Int}
    (into : ∀ k, dst k = base + k) (out : ∀ k, src k = start + k)
    (shape : node.keys = before ++ (old ++ after))
    (origin : source.keys = front ++ (values ++ rear)) (place : before.length = base)
    (offset : front.length = start) (size : old.length = values.length) :
    countUp (fun j node => do
      let k ← source.key (src j)
      node.setKey (dst j) k) 0 values.length node =
      .ok { node with keys := before ++ (values ++ after) } := by
  have lifted := @countUp_lift Fault BtreeNode (List Int) (fun keys => { node with keys := keys })
    (fun j node => do
      let k ← source.key (src j)
      node.setKey (dst j) k)
    (fun j keys => do
      let k ← fetch Fault.outside source.keys (src j)
      assign Fault.outside keys (dst j) k)
    (fun j keys => by
      simp only [key, setKey]
      cases fetch Fault.outside source.keys (src j) with
      | error fault => rfl
      | ok k => rfl) 0 values.length node.keys
  have copied := @copy_spec Fault Int .outside dst src _ before old after _ _ _ 0 base start
    (fun k => by rw [Nat.zero_add]; exact into k) (fun k => by rw [Nat.zero_add]; exact out k)
    origin place offset size
  rw [shape, copied] at lifted
  rw [← shape] at lifted
  exact lifted

/-- The loops that copy pointers from another node. -/
theorem copyChildren {before old after front values rear : List (Option Nat)}
    (into : ∀ k, dst k = base + k) (out : ∀ k, src k = start + k)
    (shape : node.childrens = before ++ (old ++ after))
    (origin : source.childrens = front ++ (values ++ rear)) (place : before.length = base)
    (offset : front.length = start) (size : old.length = values.length) :
    countUp (fun j node => do
      let p ← source.child (src j)
      node.setChild (dst j) p) 0 values.length node =
      .ok { node with childrens := before ++ (values ++ after) } := by
  have lifted := @countUp_lift Fault BtreeNode (List (Option Nat))
    (fun childrens => { node with childrens := childrens })
    (fun j node => do
      let p ← source.child (src j)
      node.setChild (dst j) p)
    (fun j childrens => do
      let p ← fetch Fault.outside source.childrens (src j)
      assign Fault.outside childrens (dst j) p)
    (fun j childrens => by
      simp only [child, setChild]
      cases fetch Fault.outside source.childrens (src j) with
      | error fault => rfl
      | ok p => rfl) 0 values.length node.childrens
  have copied := @copy_spec Fault (Option Nat) .outside dst src _ before old after _ _ _ 0 base
    start (fun k => by rw [Nat.zero_add]; exact into k)
    (fun k => by rw [Nat.zero_add]; exact out k) origin place offset size
  rw [shape, copied] at lifted
  rw [← shape] at lifted
  exact lifted

/-- The loop that makes room for a key. -/
theorem shiftKeysUp {before values after : List Int} {gone : Int}
    (into : ∀ k, dst (last + k) = base + k + 1) (out : ∀ k, src (last + k) = base + k)
    (shape : node.keys = before ++ (values ++ gone :: after)) (place : before.length = base) :
    ∃ stale, countDown (fun j node => do
      let k ← node.key (src j)
      node.setKey (dst j) k) last values.length node =
      .ok { node with keys := before ++ stale :: (values ++ after) } := by
  have lifted := @countDown_lift Fault BtreeNode (List Int) (fun keys => { node with keys := keys })
    (fun j node => do
      let k ← node.key (src j)
      node.setKey (dst j) k) _
    (fun j keys => moveKey_lift node (dst j) (src j) keys) last values.length node.keys
  obtain ⟨stale, shifted⟩ := @shiftUp_spec Fault Int .outside dst src before values after gone last
    base into out place
  rw [shape, shifted] at lifted
  rw [← shape] at lifted
  exact ⟨stale, lifted⟩

/-- The loop that makes room for a pointer. -/
theorem shiftChildrenUp {before values after : List (Option Nat)} {gone : Option Nat}
    (into : ∀ k, dst (last + k) = base + k + 1) (out : ∀ k, src (last + k) = base + k)
    (shape : node.childrens = before ++ (values ++ gone :: after)) (place : before.length = base) :
    ∃ stale, countDown (fun j node => do
      let p ← node.child (src j)
      node.setChild (dst j) p) last values.length node =
      .ok { node with childrens := before ++ stale :: (values ++ after) } := by
  have lifted := @countDown_lift Fault BtreeNode (List (Option Nat))
    (fun childrens => { node with childrens := childrens })
    (fun j node => do
      let p ← node.child (src j)
      node.setChild (dst j) p) _
    (fun j childrens => moveChild_lift node (dst j) (src j) childrens) last values.length
    node.childrens
  obtain ⟨stale, shifted⟩ := @shiftUp_spec Fault (Option Nat) .outside dst src before values after
    gone last base into out place
  rw [shape, shifted] at lifted
  rw [← shape] at lifted
  exact ⟨stale, lifted⟩

/-- The loop that closes the gap of a key. -/
theorem shiftKeysDown {before values after : List Int} {gone : Int}
    (into : ∀ k, dst (first + k) = base + k) (out : ∀ k, src (first + k) = base + k + 1)
    (shape : node.keys = before ++ gone :: (values ++ after)) (place : before.length = base) :
    ∃ stale, countUp (fun j node => do
      let k ← node.key (src j)
      node.setKey (dst j) k) first values.length node =
      .ok { node with keys := before ++ (values ++ stale :: after) } := by
  have lifted := @countUp_lift Fault BtreeNode (List Int) (fun keys => { node with keys := keys })
    (fun j node => do
      let k ← node.key (src j)
      node.setKey (dst j) k) _
    (fun j keys => moveKey_lift node (dst j) (src j) keys) first values.length node.keys
  obtain ⟨stale, shifted⟩ := @shiftDown_spec Fault Int .outside dst src before values after gone
    first base into out place
  rw [shape, shifted] at lifted
  rw [← shape] at lifted
  exact ⟨stale, lifted⟩

variable {keysBefore keys keysAfter : List Int} {goneKey : Int}
  {childrenBefore children childrenAfter : List (Option Nat)} {goneChild : Option Nat}

/-- The loops that close the gap of a key and a pointer. -/
theorem shiftBothDown (into : ∀ k, dst (first + k) = base + k)
    (out : ∀ k, src (first + k) = base + k + 1) (into' : ∀ k, dst' (first + k) = start + k)
    (out' : ∀ k, src' (first + k) = start + k + 1)
    (shape : node.keys = keysBefore ++ goneKey :: (keys ++ keysAfter))
    (shape' : node.childrens = childrenBefore ++ goneChild :: (children ++ childrenAfter))
    (place : keysBefore.length = base) (place' : childrenBefore.length = start)
    (size : children.length = keys.length) :
    ∃ staleKey staleChild, countUp (fun j node => do
      let k ← node.key (src j)
      let node ← node.setKey (dst j) k
      let p ← node.child (src' j)
      node.setChild (dst' j) p) first keys.length node =
      .ok { node with
        keys := keysBefore ++ (keys ++ staleKey :: keysAfter)
        childrens := childrenBefore ++ (children ++ staleChild :: childrenAfter) } := by
  have lifted := @countUp_lift Fault BtreeNode (List Int × List (Option Nat))
    (fun cells => { node with keys := cells.1, childrens := cells.2 })
    (fun j node => do
      let k ← node.key (src j)
      let node ← node.setKey (dst j) k
      let p ← node.child (src' j)
      node.setChild (dst' j) p) _
    (fun j cells => moveBoth_lift node (dst j) (src j) (dst' j) (src' j) cells) first keys.length
    (node.keys, node.childrens)
  obtain ⟨staleKey, shifted⟩ := @shiftDown_spec Fault Int .outside dst src keysBefore keys keysAfter
    goneKey first base into out place
  obtain ⟨staleChild, shifted'⟩ := @shiftDown_spec Fault (Option Nat) .outside dst' src'
    childrenBefore children childrenAfter goneChild first start into' out' place'
  rw [size] at shifted'
  rw [shape, shape', countUp_pair shifted shifted'] at lifted
  rw [← shape, ← shape'] at lifted
  exact ⟨staleKey, staleChild, lifted⟩

/-- The loop that makes room for a key and a pointer. -/
theorem shiftBothUp (into : ∀ k, dst (last + k) = base + k + 1)
    (out : ∀ k, src (last + k) = base + k) (into' : ∀ k, dst' (last + k) = start + k + 1)
    (out' : ∀ k, src' (last + k) = start + k)
    (shape : node.keys = keysBefore ++ (keys ++ goneKey :: keysAfter))
    (shape' : node.childrens = childrenBefore ++ (children ++ goneChild :: childrenAfter))
    (place : keysBefore.length = base) (place' : childrenBefore.length = start)
    (size : children.length = keys.length) :
    ∃ staleKey staleChild, countDown (fun j node => do
      let k ← node.key (src j)
      let node ← node.setKey (dst j) k
      let p ← node.child (src' j)
      node.setChild (dst' j) p) last keys.length node =
      .ok { node with
        keys := keysBefore ++ staleKey :: (keys ++ keysAfter)
        childrens := childrenBefore ++ staleChild :: (children ++ childrenAfter) } := by
  have lifted := @countDown_lift Fault BtreeNode (List Int × List (Option Nat))
    (fun cells => { node with keys := cells.1, childrens := cells.2 })
    (fun j node => do
      let k ← node.key (src j)
      let node ← node.setKey (dst j) k
      let p ← node.child (src' j)
      node.setChild (dst' j) p) _
    (fun j cells => moveBoth_lift node (dst j) (src j) (dst' j) (src' j) cells) last keys.length
    (node.keys, node.childrens)
  obtain ⟨staleKey, shifted⟩ := @shiftUp_spec Fault Int .outside dst src keysBefore keys keysAfter
    goneKey last base into out place
  obtain ⟨staleChild, shifted'⟩ := @shiftUp_spec Fault (Option Nat) .outside dst' src'
    childrenBefore children childrenAfter goneChild last start into' out' place'
  rw [size] at shifted'
  rw [shape, shape', countDown_pair shifted shifted'] at lifted
  rw [← shape, ← shape'] at lifted
  exact ⟨staleKey, staleChild, lifted⟩

end Loops

end BtreeNode

end BackendCpp.BtreeC
