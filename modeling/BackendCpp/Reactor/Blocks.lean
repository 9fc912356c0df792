import BackendCpp.Library.Linked
import BackendCpp.Library.Loop
import BackendCpp.Library.Run

/-!
# The blocks of connection slots

A reactor keeps its slots in blocks on a linked list, and opens blocks at the end of the list
until there is one for the descriptor asked for. A block once opened stays at its place, so the
slot of a descriptor is determined by the descriptor. The functions are the same in reactor.cpp
and in httpserver.cpp.
-/

namespace BackendCpp.Reactor

open Library

/-- `BLOCK_SIZE`. -/
def BLOCK_SIZE : Nat := 1024

/-- `zv_connblock__t`: where its slots are, and the next block. -/
structure Connblock where
  /-- `block`. -/
  block : Nat
  /-- `next`. -/
  next : Option Nat
  deriving DecidableEq

/-- What `zv_reactor_t` says of the blocks, the blocks in memory, and the first address that `new`
has not given out. -/
structure Blocks where
  /-- `blocknum`. -/
  blocknum : Nat
  /-- `zv_connblock__header`. -/
  header : Nat
  /-- The blocks in memory. -/
  nodes : Nat → Option Connblock
  /-- The first address that was not given out. -/
  fresh : Nat

/-- A slot: the block it is in and its place there. -/
abbrev Slot := Nat × Nat

/-- `zv_init_reactor`. -/
def zvInitReactor : Blocks where
  blocknum := 1
  header := 0
  nodes := Function.update (fun _ => none) 0 (some ⟨1, none⟩)
  fresh := 2

/-- A pass of `while(cur->next != NULL) cur = cur->next`. -/
def lastPass (nodes : Nat → Option Connblock) (cur : Nat) : Option (Nat ⊕ Nat) :=
  (nodes cur).map fun node =>
    match node.next with
    | some next => .inl next
    | none => .inr cur

/-- `zv_connect_openblock`. -/
def zvConnectOpenblock (fuel : Nat) (r : Blocks) : Option Blocks := do
  let cur ← (loop (attempt (lastPass r.nodes)) fuel r.header).join
  let node ← r.nodes cur
  let nodes := Function.update r.nodes cur (some { node with next := some r.fresh })
  let nodes := Function.update nodes r.fresh (some ⟨r.fresh + 1, none⟩)
  return { r with blocknum := r.blocknum + 1, nodes := nodes, fresh := r.fresh + 2 }

/-- A pass of `while(blockidx >= reactor->blocknum)`. -/
def growPass (fuel blockidx : Nat) (r : Blocks) : Option (Blocks ⊕ Blocks) :=
  if r.blocknum ≤ blockidx then (zvConnectOpenblock fuel r).map .inl else some (.inr r)

/-- `while(i < blockidx)`, with the number of passes that are left. -/
def seek (nodes : Nat → Option Connblock) : Nat → Option Nat → Option (Option Nat)
  | 0, blockptr => some blockptr
  | passes + 1, blockptr => (blockptr.bind nodes).bind fun node => seek nodes passes node.next

/-- `zv_connect_idx`. -/
def zvConnectIdx (fuel : Nat) (r : Blocks) (fd : Nat) : Option (Slot × Blocks) := do
  let blockidx := fd / BLOCK_SIZE
  let r ← (loop (attempt (growPass fuel blockidx)) fuel r).join
  let blockptr ← seek r.nodes blockidx (some r.header)
  let node ← blockptr.bind r.nodes
  return ((node.block, fd % BLOCK_SIZE), r)

/-- A call of `zv_connect_idx`, with the slot it returned. -/
abbrev IdxCall := Nat × Slot

/-- The calls of `zv_connect_idx`. -/
def IdxStep (r : Blocks) (call : IdxCall) (r' : Blocks) : Prop :=
  Leaves (fun fuel => zvConnectIdx fuel r call.1) (call.2, r')

/-- The next block of a block. -/
def nextBlock (nodes : Nat → Option Connblock) (a : Nat) : Option Nat :=
  (nodes a).bind Connblock.next

/-- The blocks on the list, in order, each with where its slots are. -/
structure Chained (r : Blocks) (chain : List (Nat × Nat)) : Prop where
  /-- The list begins at the header. -/
  head : (chain.map Prod.fst).head? = some r.header
  /-- Each block points at the next one. -/
  follows : Follows (nextBlock r.nodes) (chain.map Prod.fst)
  /-- Each block has its slots. -/
  stored : ∀ entry ∈ chain, (r.nodes entry.1).map Connblock.block = some entry.2
  /-- The blocks are counted. -/
  counted : r.blocknum = chain.length
  /-- All addresses were given out. -/
  below : ∀ entry ∈ chain, entry.1 < r.fresh ∧ entry.2 < r.fresh
  /-- No two blocks share their slots. -/
  distinct : (chain.map Prod.snd).Nodup
  /-- No block is there twice. -/
  apart : (chain.map Prod.fst).Nodup

/-- The list after `zv_init_reactor`. -/
theorem chained_zvInitReactor : Chained zvInitReactor [(0, 1)] := by
  refine ⟨rfl, ⟨rfl, trivial⟩, ?_, rfl, ?_, List.nodup_singleton 1, List.nodup_singleton 0⟩
  · intro entry member
    rw [List.mem_singleton.mp member]
    rfl
  · intro entry member
    rw [List.mem_singleton.mp member]
    decide

/-- The walk to the end of the list ends at the last block. -/
theorem lastPass_leaves {nodes : Nat → Option Connblock} {before : List Nat} {a last : Nat}
    (head : (before ++ [last]).head? = some a)
    (follows : Follows (nextBlock nodes) (before ++ [last]))
    (stored : ∀ b ∈ before ++ [last], (nodes b).isSome) :
    Leaves (fun fuel => loop (attempt (lastPass nodes)) fuel a) (some last) := by
  induction before generalizing a with
  | nil =>
    have same : last = a := Option.some.inj head
    rw [← same]
    obtain ⟨node, has⟩ := Option.isSome_iff_exists.mp (stored last (by simp))
    have none : node.next = none := by
      have told := follows.1
      rw [nextBlock, has] at told
      exact told
    refine leaves_now (attempt_leave ?_)
    rw [lastPass, has, Option.map_some, none]
  | cons b before ih =>
    have same : b = a := Option.some.inj head
    rw [← same]
    obtain ⟨node, has⟩ := Option.isSome_iff_exists.mp (stored b (by simp))
    obtain ⟨told, rest⟩ := follows
    rw [nextBlock, has] at told
    obtain ⟨next, first⟩ : ∃ next, (before ++ [last]).head? = some next := by
      cases before with
      | nil => exact ⟨last, rfl⟩
      | cons c before => exact ⟨c, rfl⟩
    have isNext : node.next = some next := told.trans first
    refine leaves_next (attempt_next ?_)
      (ih first rest fun c member => stored c (List.mem_cons_of_mem b member))
    rw [lastPass, has, Option.map_some, isNext]

/-- The counted walk from the head reaches the block with that number. -/
theorem seek_reaches {nodes : Nat → Option Connblock} {list : List Nat} {index a : Nat}
    (follows : Follows (nextBlock nodes) list) (stored : ∀ b ∈ list, (nodes b).isSome)
    (place : list[index]? = some a) : seek nodes index list.head? = some (some a) := by
  induction list generalizing index with
  | nil => cases place
  | cons b rest ih =>
    cases index with
    | zero => exact congrArg some place
    | succ index =>
      obtain ⟨node, has⟩ := Option.isSome_iff_exists.mp (stored b List.mem_cons_self)
      obtain ⟨told, behind⟩ := follows
      rw [nextBlock, has] at told
      have further := ih behind (fun c member => stored c (List.mem_cons_of_mem b member)) place
      rw [← told] at further
      rw [seek, List.head?_cons, Option.bind_some, has]
      exact further

/-- The blocks of the list are in memory. -/
theorem Chained.isSome {r : Blocks} {chain : List (Nat × Nat)} (chained : Chained r chain) :
    ∀ a ∈ chain.map Prod.fst, (r.nodes a).isSome := by
  intro a member
  obtain ⟨entry, inside, same⟩ := List.mem_map.mp member
  rw [← same, ← Option.isSome_map, chained.stored entry inside]
  rfl

/-- `zv_connect_openblock` puts a block behind the last one. -/
theorem Chained.openblock {r : Blocks} {chain : List (Nat × Nat)} (chained : Chained r chain) :
    ∃ r', Leaves (fun fuel => zvConnectOpenblock fuel r) r' ∧
      Chained r' (chain ++ [(r.fresh, r.fresh + 1)]) := by
  obtain ⟨before, last, split⟩ : ∃ before last, chain = before ++ [last] := by
    cases chain using List.reverseRecOn with
    | nil => exact absurd chained.head (by simp)
    | append_singleton before last => exact ⟨before, last, rfl⟩
  have isLast : last ∈ chain := by simp [split]
  have nodesSplit : chain.map Prod.fst = before.map Prod.fst ++ [last.1] := by simp [split]
  have head := chained.head
  have follows := chained.follows
  have stored := chained.isSome
  have apart := chained.apart
  rw [nodesSplit] at head follows stored apart
  obtain ⟨bound, arrives⟩ := lastPass_leaves head follows stored
  obtain ⟨node, has⟩ := Option.isSome_iff_exists.mp (stored last.1 (by simp))
  have ends : node.next = none := by
    have told := follows.next_eq
    rw [nextBlock, has] at told
    exact told
  let nodes := Function.update (Function.update r.nodes last.1
    (some { node with next := some r.fresh })) r.fresh (some ⟨r.fresh + 1, none⟩)
  have atFresh : nodes r.fresh = some ⟨r.fresh + 1, none⟩ := Function.update_self ..
  have atLast : nodes last.1 = some { node with next := some r.fresh } := by
    have older : last.1 ≠ r.fresh := (chained.below last isLast).1.ne
    exact (Function.update_of_ne older ..).trans (Function.update_self ..)
  have elsewhere : ∀ entry ∈ chain, entry.1 ≠ last.1 → nodes entry.1 = r.nodes entry.1 := by
    intro entry member other
    have older : entry.1 ≠ r.fresh := (chained.below entry member).1.ne
    exact (Function.update_of_ne older ..).trans (Function.update_of_ne other ..)
  refine ⟨{ r with blocknum := r.blocknum + 1, nodes := nodes, fresh := r.fresh + 2 }, ?_, ?_⟩
  · refine ⟨bound, fun fuel enough => ?_⟩
    have there := arrives fuel enough
    simp only [zvConnectOpenblock, there, Option.join_some, Option.bind_eq_bind,
      Option.bind_some, has]
    rfl
  · have fresh : r.fresh ∉ chain.map Prod.fst ∧ r.fresh + 1 ∉ chain.map Prod.snd := by
      constructor
      · intro member
        obtain ⟨entry, inside, same⟩ := List.mem_map.mp member
        exact (chained.below entry inside).1.ne same
      · intro member
        obtain ⟨entry, inside, same⟩ := List.mem_map.mp member
        have less := (chained.below entry inside).2
        omega
    constructor
    · rw [List.map_append, List.head?_append, chained.head]
      rfl
    · rw [List.map_append, nodesSplit, List.append_assoc]
      refine follows.insert ?_ (fun b member => absurd member List.not_mem_nil) ?_ ?_
      · intro b member
        obtain ⟨entry, inside, same⟩ := List.mem_map.mp member
        have other : entry.1 ≠ last.1 := by
          rw [same]
          exact (List.nodup_append.mp apart).2.2 b member last.1 (List.mem_singleton_self last.1)
        have kept := elsewhere entry (by simp [split, inside]) other
        rw [same] at kept
        exact congrArg (Option.bind · Connblock.next) kept
      · exact congrArg (Option.bind · Connblock.next) atLast
      · rw [nextBlock, nextBlock, has]
        exact (congrArg (Option.bind · Connblock.next) atFresh).trans ends.symm
    · intro entry member
      rcases List.mem_append.mp member with older | newest
      · by_cases here : entry.1 = last.1
        · have known := chained.stored entry older
          rw [here, has] at known
          rw [here]
          exact (congrArg (Option.map Connblock.block) atLast).trans known
        · exact (congrArg (Option.map Connblock.block) (elsewhere entry older here)).trans
            (chained.stored entry older)
      · rw [List.mem_singleton.mp newest]
        exact congrArg (Option.map Connblock.block) atFresh
    · rw [List.length_append, ← chained.counted]
      rfl
    · intro entry member
      change entry.1 < r.fresh + 2 ∧ entry.2 < r.fresh + 2
      rcases List.mem_append.mp member with older | newest
      · have less := chained.below entry older
        omega
      · rw [List.mem_singleton.mp newest]
        omega
    · rw [List.map_append]
      exact List.nodup_append.mpr ⟨chained.distinct, List.nodup_singleton _, by
        intro b member c single same
        rw [same, List.mem_singleton.mp single] at member
        exact fresh.2 member⟩
    · rw [List.map_append]
      exact List.nodup_append.mpr ⟨chained.apart, List.nodup_singleton _, by
        intro b member c single same
        rw [same, List.mem_singleton.mp single] at member
        exact fresh.1 member⟩

/-- The growth loop opens blocks behind those that are there until there is one with the number
asked for. -/
theorem Chained.grow {r : Blocks} {chain : List (Nat × Nat)} (chained : Chained r chain)
    (blockidx : Nat) :
    ∃ r' chain', chain <+: chain' ∧ blockidx < chain'.length ∧ Chained r' chain' ∧
      ∃ bound, ∀ fuel outer, bound ≤ fuel → bound ≤ outer →
        loop (attempt (growPass fuel blockidx)) outer r = some (some r') := by
  induction more : blockidx + 1 - chain.length generalizing r chain with
  | zero =>
    have enough : blockidx < chain.length := by omega
    refine ⟨r, chain, List.prefix_rfl, enough, chained, 1, ?_⟩
    intro fuel outer _ some
    obtain ⟨less, same⟩ : ∃ less, outer = less + 1 := ⟨outer - 1, by omega⟩
    rw [same]
    apply loop_leave
    apply attempt_leave
    rw [growPass, chained.counted, if_neg (by omega)]
  | succ missing ih =>
    obtain ⟨opened, ⟨bound, returns⟩, longer⟩ := chained.openblock
    have left : blockidx + 1 - (chain ++ [(r.fresh, r.fresh + 1)]).length = missing := by
      rw [List.length_append, List.length_singleton]
      omega
    obtain ⟨r', chain', extends', enough, chained', bound', leaves⟩ := ih longer left
    refine ⟨r', chain', (List.prefix_append chain _).trans extends', enough, chained',
      max bound bound' + 1, ?_⟩
    intro fuel outer enoughFuel enoughOuter
    obtain ⟨less, same⟩ : ∃ less, outer = less + 1 := ⟨outer - 1, by omega⟩
    have pass : growPass fuel blockidx r = some (.inl opened) := by
      have done : zvConnectOpenblock fuel r = some opened := returns fuel (by omega)
      rw [growPass, chained.counted, if_pos (by omega), done]
      rfl
    rw [same, loop_next (attempt_next pass)]
    exact leaves fuel less (by omega) (by omega)

/-- The slot of a descriptor in a list of blocks. -/
def SlotOf (chain : List (Nat × Nat)) (fd : Nat) (slot : Slot) : Prop :=
  (chain.map Prod.snd)[fd / BLOCK_SIZE]? = some slot.1 ∧ slot.2 = fd % BLOCK_SIZE

/-- A slot stays the slot of its descriptor when blocks are opened. -/
theorem SlotOf.mono {chain chain' : List (Nat × Nat)} {fd : Nat} {slot : Slot}
    (slotOf : SlotOf chain fd slot) (longer : chain <+: chain') : SlotOf chain' fd slot := by
  obtain ⟨more, whole⟩ := longer
  refine ⟨?_, slotOf.2⟩
  rw [← whole, List.map_append]
  exact List.getElem?_append_left (List.getElem?_eq_some_iff.mp slotOf.1).1 ▸ slotOf.1

/-- Descriptors have the same slot only if they are the same. -/
theorem SlotOf.inj {chain : List (Nat × Nat)} {fd fd' : Nat} {slot slot' : Slot}
    (distinct : (chain.map Prod.snd).Nodup) (one : SlotOf chain fd slot)
    (other : SlotOf chain fd' slot') : slot = slot' ↔ fd = fd' := by
  constructor
  · intro same
    rw [← same] at other
    have block : fd / BLOCK_SIZE = fd' / BLOCK_SIZE := by
      have inside := (List.getElem?_eq_some_iff.mp one.1).1
      exact (List.getElem?_inj inside distinct).mp (one.1.trans other.1.symm)
    have place : fd % BLOCK_SIZE = fd' % BLOCK_SIZE := one.2.symm.trans other.2
    rw [← Nat.div_add_mod fd BLOCK_SIZE, block, place, Nat.div_add_mod]
  · intro same
    rw [same] at one
    have block : slot.1 = slot'.1 := Option.some.inj (one.1.symm.trans other.1)
    exact Prod.ext block (one.2.trans other.2.symm)

/-- `zv_connect_idx` returns the slot of the descriptor. -/
theorem Chained.idx {r : Blocks} {chain : List (Nat × Nat)} (chained : Chained r chain)
    (fd : Nat) :
    ∃ r' chain' slot, chain <+: chain' ∧ Chained r' chain' ∧ IdxStep r (fd, slot) r' ∧
      SlotOf chain' fd slot := by
  obtain ⟨r', chain', longer, enough, chained', bound, leaves⟩ :=
    chained.grow (fd / BLOCK_SIZE)
  have place := List.getElem?_eq_getElem enough
  obtain ⟨node, has⟩ := Option.isSome_iff_exists.mp
    (chained'.isSome _ (List.mem_map_of_mem (List.getElem_mem enough)))
  have block : node.block = (chain'[fd / BLOCK_SIZE]).2 := by
    have known := chained'.stored _ (List.getElem_mem enough)
    rw [has] at known
    exact Option.some.inj known
  have there : seek r'.nodes (fd / BLOCK_SIZE) (some r'.header) =
      some (some (chain'[fd / BLOCK_SIZE]).1) := by
    rw [← chained'.head]
    apply seek_reaches chained'.follows chained'.isSome
    rw [List.getElem?_map, place]
    rfl
  refine ⟨r', chain', (node.block, fd % BLOCK_SIZE), longer, chained', ?_, ?_, rfl⟩
  · refine ⟨bound, fun fuel enough => ?_⟩
    have grown := leaves fuel fuel enough enough
    simp only [zvConnectIdx, grown, Option.join_some, Option.bind_eq_bind, Option.bind_some,
      there, has]
    rfl
  · rw [List.getElem?_map, place, block]
    rfl

/-- After every sequence of calls the slots returned are those of their descriptors. -/
theorem run_chained {calls : List IdxCall} {r : Blocks} (run : Run IdxStep zvInitReactor calls r) :
    ∃ chain, Chained r chain ∧ ∀ call ∈ calls, SlotOf chain call.1 call.2 := by
  induction run with
  | nil => exact ⟨_, chained_zvInitReactor, fun call member => absurd member List.not_mem_nil⟩
  | @snoc _ _ _ call before taken ih =>
    obtain ⟨chain, chained, slots⟩ := ih
    obtain ⟨r', chain', slot, longer, chained', step, slotOf⟩ := chained.idx call.1
    have same : (call.2, _) = (slot, r') := taken.unique step
    rw [Prod.mk.injEq] at same
    rw [same.2]
    refine ⟨chain', chained', ?_⟩
    intro other member
    rcases List.mem_append.mp member with earlier | last
    · exact (slots other earlier).mono longer
    · rw [List.mem_singleton.mp last, same.1]
      exact slotOf

/-- After every sequence of calls of `zv_connect_idx`, `blocknum` is the length of the list of
blocks, another call returns whatever the descriptor is, the slots returned are on the list, and
two calls returned the same slot exactly when they were for the same descriptor. -/
theorem connect_slots_stable_and_distinct {calls : List IdxCall} {r : Blocks}
    (run : Run IdxStep zvInitReactor calls r) :
    (∃ chain, Chained r chain ∧ r.blocknum = chain.length ∧
      ∀ call ∈ calls, call.2.1 ∈ chain.map Prod.snd ∧ call.2.2 < BLOCK_SIZE) ∧
    (∀ fd, ∃ slot r', IdxStep r (fd, slot) r') ∧
    ∀ one ∈ calls, ∀ other ∈ calls, one.2 = other.2 ↔ one.1 = other.1 := by
  obtain ⟨chain, chained, slots⟩ := run_chained run
  refine ⟨⟨chain, chained, chained.counted, ?_⟩, ?_, ?_⟩
  · intro call member
    obtain ⟨block, place⟩ := slots call member
    refine ⟨List.mem_of_getElem? block, ?_⟩
    rw [place]
    exact Nat.mod_lt call.1 (by decide)
  · intro fd
    obtain ⟨r', _, slot, _, _, step, _⟩ := chained.idx fd
    exact ⟨slot, r', step⟩
  · intro one member other member'
    exact SlotOf.inj chained.distinct (slots one member) (slots other member')

/-- Calls for two descriptors whose blocks are not there yet. -/
theorem connect_slots_of_two :
    ∃ one other r, Run IdxStep zvInitReactor [(5000, one), (7, other)] r ∧ one ≠ other := by
  obtain ⟨r, _, one, _, longer, step, _⟩ := chained_zvInitReactor.idx 5000
  obtain ⟨r', _, other, _, _, step', _⟩ := longer.idx 7
  have run := (Run.nil.snoc step).snoc step'
  refine ⟨one, other, r', run, ?_⟩
  have agree := (connect_slots_stable_and_distinct run).2.2 (5000, one) (by simp) (7, other)
    (by simp)
  rw [Ne, agree]
  change ¬ 5000 = 7
  omega

end BackendCpp.Reactor
