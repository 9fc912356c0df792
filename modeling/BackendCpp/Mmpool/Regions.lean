import BackendCpp.Library.Run
import BackendCpp.Mmpool.Chain

/-!
# Regions of a pool

A run creates a pool and makes requests that the blocks serve, between resets. Every block
has its free part between `last` and `end`; a request takes the beginning of the free part,
so the regions handed out lie between the headers and the `last` fields. The search of
`mp_alloc` breaks this where it comes to a block whose `last` field, rounded up, passes its
`end` field: the difference of the two wraps and the block seems to have room. In runs
without such a visit the regions lie in blocks, apart from each other and aligned.
-/

namespace BackendCpp.Mmpool

open BackendCpp.Library

/-- A piece of memory that `posix_memalign` gave to the pool. -/
structure Block where
  /-- Its address. -/
  base : UInt64
  /-- Its length. -/
  length : UInt64
  deriving DecidableEq

/-- A region that a request returned. -/
structure Region where
  /-- Its address. -/
  start : UInt64
  /-- The size asked for. -/
  size : UInt64
  /-- Whether the request was `mp_alloc` or `mp_calloc`. -/
  aligned : Bool
  deriving DecidableEq

/-- Two regions share no byte. -/
def Region.Apart (one other : Region) : Prop :=
  one.start.toNat + one.size.toNat ≤ other.start.toNat ∨
    other.start.toNat + other.size.toNat ≤ one.start.toNat

/-- A pool with the history of its blocks and regions. -/
structure World where
  /-- The pool. -/
  pool : MpPool
  /-- History: the memory the pool has. -/
  blocks : List Block
  /-- History: the regions handed out since the creation or the last reset. -/
  regions : List Region

/-- A pool for whose next call `posix_memalign` has an answer. -/
def MpPool.answering (pool : MpPool) (answer : Option UInt64) : MpPool :=
  { pool with script := [answer] }

/-- The size of a further block, as `mp_alloc_block` computes it. -/
def psize (pool : MpPool) : UInt64 := (pool.nodes pool.head).stop - pool.head

/-- An answer that `posix_memalign` may give for a further block: aligned, disjoint from the
memory in use, and with an end that is an address. -/
structure Usable (w : World) (a : UInt64) : Prop where
  /-- Not `NULL`. -/
  nonnull : a ≠ 0
  /-- Aligned. -/
  aligned : a.toNat % 32 = 0
  /-- One past the end is an address. -/
  ends : a.toNat + (psize w.pool).toNat < 18446744073709551616
  /-- Disjoint from everything live. -/
  apart : ∀ block ∈ w.blocks, a.toNat + (psize w.pool).toNat ≤ block.base.toNat ∨
    block.base.toNat + block.length.toNat ≤ a.toNat

/-- The world after a request that returned `m`. -/
def World.served (w : World) (answer : Option UInt64) (pool : MpPool) (m size : UInt64)
    (aligned : Bool) : World :=
  { pool
    blocks := w.blocks ++
      (if pool.script = [] then answer else none).toList.map fun a => ⟨a, psize w.pool⟩
    regions := if m = 0 then w.regions else w.regions ++ [⟨m, size, aligned⟩] }

/-- The requests of a run, with the answer `posix_memalign` has for each. -/
inductive Event where
  /-- `mp_alloc`. -/
  | alloc (size : UInt64) (answer : Option UInt64)
  /-- `mp_nalloc`. -/
  | nalloc (size : UInt64) (answer : Option UInt64)
  /-- `mp_calloc`. -/
  | calloc (size : UInt64) (answer : Option UInt64)
  /-- `mp_reset_pool`. -/
  | reset

/-- A request that the blocks serve, and the world after it. -/
inductive Step : World → Event → World → Prop
  | alloc {w : World} {size m : UInt64} {answer : Option UInt64} {pool : MpPool}
      (small : size ≤ w.pool.max) (usable : ∀ a, answer = some a → Usable w a)
      (returns : Leaves (fun fuel => mpAlloc fuel (w.pool.answering answer) size)
        (pool, m)) : Step w (.alloc size answer) (w.served answer pool m size true)
  | nalloc {w : World} {size m : UInt64} {answer : Option UInt64} {pool : MpPool}
      (small : size ≤ w.pool.max) (usable : ∀ a, answer = some a → Usable w a)
      (returns : Leaves (fun fuel => mpNalloc fuel (w.pool.answering answer) size)
        (pool, m)) : Step w (.nalloc size answer) (w.served answer pool m size false)
  | calloc {w : World} {size m : UInt64} {answer : Option UInt64} {pool : MpPool}
      (small : size ≤ w.pool.max) (usable : ∀ a, answer = some a → Usable w a)
      (returns : Leaves (fun fuel => mpCalloc fuel (w.pool.answering answer) size)
        (pool, m)) : Step w (.calloc size answer) (w.served answer pool m size true)
  | reset {w : World} {pool : MpPool} (returns : Leaves (fun fuel => mpResetPool fuel w.pool) pool) :
      Step w .reset { w with pool, regions := [] }

/-- The size that `mp_create_pool` asks `posix_memalign` for. -/
def poolSize (size : UInt64) : UInt64 := size + sizeofPool + sizeofNode

/-- The answer of `posix_memalign` to `mp_create_pool`, with `head->next` read as `NULL`. -/
structure Granted (memory : MpPool) (size : UInt64) : Prop where
  /-- Aligned. -/
  aligned : memory.addr.toNat % 32 = 0
  /-- Not `NULL`. -/
  nonnull : memory.addr ≠ 0
  /-- One past the end is an address. -/
  ends : memory.addr.toNat + (poolSize size).toNat < 18446744073709551616
  /-- `head->next` is `NULL`. -/
  next : (memory.nodes memory.head).next = 0

/-- The world after `mp_create_pool`. -/
def created (memory : MpPool) (size : UInt64) : World :=
  ⟨mpCreatePool memory size, [⟨memory.addr, poolSize size⟩], []⟩

/-- Blocks on the chain of a pool. -/
inductive OnChain (pool : MpPool) : UInt64 → Prop
  | head : OnChain pool pool.head
  | next {h : UInt64} (before : OnChain pool h) (onward : (pool.nodes h).next ≠ 0) :
      OnChain pool (pool.nodes h).next

/-- Every region lies in one block behind its header, the regions are disjoint, and those of
`mp_alloc` and `mp_calloc` are aligned. -/
structure Sound (w : World) : Prop where
  /-- Each region lies between a header and the end of its block. -/
  inside : ∀ region ∈ w.regions, ∃ h, OnChain w.pool h ∧
    h.toNat + sizeofNode.toNat ≤ region.start.toNat ∧
    region.start.toNat + region.size.toNat ≤ (w.pool.nodes h).stop.toNat
  /-- No two regions share a byte. -/
  disjoint : w.regions.Pairwise Region.Apart
  /-- Regions of `mp_alloc` and `mp_calloc` are aligned. -/
  aligned : ∀ region ∈ w.regions, region.aligned →
    region.start.toNat % MP_ALIGNMENT.toNat = 0

/-- The search of an aligned request comes to no block whose `last` field, rounded up, passes
the end of the block. -/
def Roomy (w : World) (size : UInt64) : Prop :=
  ∀ h, Visited (mpAlignPtr · MP_ALIGNMENT) w.pool size h →
    roundUp (w.pool.nodes h).last.toNat ≤ (w.pool.nodes h).stop.toNat

/-- The condition on the state before a request. -/
def Meets (w : World) : Event → Prop
  | .alloc size _ => Roomy w size
  | .calloc size _ => Roomy w size
  | .nalloc _ _ => True
  | .reset => True

/-- What holds of a pool between requests. The list is its chain of blocks. -/
structure Inv (chain : List UInt64) (w : World) : Prop where
  /-- The chain begins in the pool itself. -/
  begins : ∃ rest, chain = w.pool.head :: rest
  /-- The chain is linked. -/
  linked : Linked w.pool.nodes chain
  /-- No block is at `NULL`. -/
  inner : ∀ h ∈ chain, h ≠ 0
  /-- The search begins on the chain. -/
  searched : w.pool.current ∈ chain
  /-- There are no large blocks. -/
  large : w.pool.large = 0
  /-- The free part of a block lies behind the header and before the end. -/
  room : ∀ h ∈ chain, h.toNat + 32 ≤ (w.pool.nodes h).last.toNat ∧
    (w.pool.nodes h).last.toNat ≤ (w.pool.nodes h).stop.toNat
  /-- A block is part of memory that the pool has. -/
  backed : ∀ h ∈ chain, ∃ block ∈ w.blocks, block.base.toNat ≤ h.toNat ∧
    (w.pool.nodes h).stop.toNat ≤ block.base.toNat + block.length.toNat
  /-- Blocks do not overlap. -/
  apart : chain.Pairwise fun a b =>
    (w.pool.nodes a).stop.toNat ≤ b.toNat ∨ (w.pool.nodes b).stop.toNat ≤ a.toNat
  /-- A fresh block has room for the greatest request. -/
  widest : w.pool.head.toNat + 32 + w.pool.max.toNat ≤ (w.pool.nodes w.pool.head).stop.toNat
  /-- Regions lie between a header and the `last` field. -/
  placed : ∀ region ∈ w.regions, ∃ h ∈ chain, h.toNat + 32 ≤ region.start.toNat ∧
    region.start.toNat + region.size.toNat ≤ (w.pool.nodes h).last.toNat
  /-- Regions are disjoint. -/
  disjoint : w.regions.Pairwise Region.Apart
  /-- Regions of `mp_alloc` and `mp_calloc` are aligned. -/
  aligned : ∀ region ∈ w.regions, region.aligned → region.start.toNat % 32 = 0

/-- The headers of a chain are distinct. -/
theorem Inv.distinct {chain : List UInt64} {w : World} (inv : Inv chain w) : chain.Nodup := by
  refine inv.apart.imp_of_mem ?_
  rintro a b inA - either rfl
  have room := inv.room a inA
  omega

/-- The headers of a chain are on the chain of the pool. -/
theorem Linked.onChain {pool : MpPool} {rest : List UInt64} {h : UInt64}
    (linked : Linked pool.nodes (h :: rest)) (inner : ∀ p ∈ rest, p ≠ 0) (first : OnChain pool h) :
    ∀ p ∈ h :: rest, OnChain pool p := by
  induction rest generalizing h with
  | nil =>
    intro p member
    rw [List.mem_singleton] at member
    rw [member]
    exact first
  | cons q rest ih =>
    intro p member
    rw [List.mem_cons] at member
    rcases member with rfl | later
    · exact first
    · have next : (pool.nodes h).next = q := linked.1
      have second : OnChain pool q := by
        rw [← next]
        exact first.next (by rw [next]; exact inner q List.mem_cons_self)
      exact ih linked.2 (fun p member => inner p (List.mem_cons_of_mem q member)) second p later

/-- The invariant gives what the caller relies on. -/
theorem Inv.sound {chain : List UInt64} {w : World} (inv : Inv chain w) : Sound w := by
  obtain ⟨rest, rfl⟩ := inv.begins
  have onChain := inv.linked.onChain
    (fun p member => inv.inner p (List.mem_cons_of_mem _ member)) OnChain.head
  refine ⟨?_, inv.disjoint, inv.aligned⟩
  intro region member
  obtain ⟨h, listed, low, high⟩ := inv.placed region member
  exact ⟨h, onChain h listed, low, high.trans (inv.room h listed).2⟩

/-- The block in the pool itself is on the chain. -/
theorem Inv.head_mem {chain : List UInt64} {w : World} (inv : Inv chain w) :
    w.pool.head ∈ chain := by
  obtain ⟨rest, rfl⟩ := inv.begins
  exact List.mem_cons_self

/-- The size of a further block is that of the first one from its header on. -/
theorem Inv.psize_toNat {chain : List UInt64} {w : World} (inv : Inv chain w) :
    (psize w.pool).toNat = (w.pool.nodes w.pool.head).stop.toNat - w.pool.head.toNat := by
  have widest := inv.widest
  unfold psize
  apply UInt64.toNat_sub_of_le
  rw [UInt64.le_iff_toNat_le]
  omega

/-- Two blocks of a chain do not overlap. -/
theorem Inv.apart_of_ne {chain : List UInt64} {w : World} (inv : Inv chain w) {a b : UInt64}
    (inA : a ∈ chain) (inB : b ∈ chain) (different : a ≠ b) :
    (w.pool.nodes a).stop.toNat ≤ b.toNat ∨ (w.pool.nodes b).stop.toNat ≤ a.toNat := by
  have symmetric : Std.Symm fun a b : UInt64 =>
      (w.pool.nodes a).stop.toNat ≤ b.toNat ∨ (w.pool.nodes b).stop.toNat ≤ a.toNat :=
    ⟨fun _ _ => Or.symm⟩
  exact inv.apart.forall inA inB different

/-- A request takes the beginning of the free part of a block. -/
theorem Inv.carve {chain : List UInt64} {w : World} (inv : Inv chain w) {h m size : UInt64}
    {aligned : Bool} (member : h ∈ chain) (after : (w.pool.nodes h).last.toNat ≤ m.toNat)
    (fits : m.toNat + size.toNat ≤ (w.pool.nodes h).stop.toNat)
    (multiple : aligned → m.toNat % 32 = 0) {pool : MpPool} (addr : pool.addr = w.pool.addr)
    (max : pool.max = w.pool.max) (current : pool.current = w.pool.current)
    (large : pool.large = w.pool.large)
    (nodes : pool.nodes = Function.update w.pool.nodes h
      { w.pool.nodes h with last := m + size }) :
    Inv chain ⟨pool, w.blocks, w.regions ++ [⟨m, size, aligned⟩]⟩ := by
  have sum : (m + size).toNat = m.toNat + size.toNat := by
    rw [UInt64.toNat_add]
    apply Nat.mod_eq_of_lt
    exact lt_of_le_of_lt fits (UInt64.toNat_lt _)
  have stop : ∀ p, (pool.nodes p).stop = (w.pool.nodes p).stop := by
    intro p
    rw [nodes]
    by_cases here : p = h
    · subst here
      simp
    · rw [Function.update_of_ne here]
  have next : ∀ p, (pool.nodes p).next = (w.pool.nodes p).next := by
    intro p
    rw [nodes]
    by_cases here : p = h
    · subst here
      simp
    · rw [Function.update_of_ne here]
  have lastHere : (pool.nodes h).last.toNat = m.toNat + size.toNat := by
    rw [nodes, Function.update_self]
    exact sum
  have lastOther : ∀ p, p ≠ h → (pool.nodes p).last = (w.pool.nodes p).last := by
    intro p other
    rw [nodes, Function.update_of_ne other]
  have grows : ∀ p, (w.pool.nodes p).last.toNat ≤ (pool.nodes p).last.toNat := by
    intro p
    by_cases here : p = h
    · rw [here, lastHere]
      omega
    · rw [lastOther p here]
  have head : pool.head = w.pool.head := by
    unfold MpPool.head
    rw [addr]
  have roomHere := inv.room h member
  refine ⟨?_, ?_, inv.inner, ?_, ?_, ?_, ?_, ?_, ?_, ?_, ?_, ?_⟩
  · rw [head]
    exact inv.begins
  · exact inv.linked.congr fun p _ => next p
  · rw [current]
    exact inv.searched
  · exact large.trans inv.large
  · intro p listed
    have room := inv.room p listed
    have grown := grows p
    dsimp only
    rw [stop]
    by_cases here : p = h
    · subst here
      rw [lastHere]
      omega
    · rw [lastOther p here]
      exact room
  · intro p listed
    dsimp only
    rw [stop]
    exact inv.backed p listed
  · simp only [stop]
    exact inv.apart
  · dsimp only
    rw [head, max, stop]
    exact inv.widest
  · intro region listed
    rw [List.mem_append, List.mem_singleton] at listed
    rcases listed with old | rfl
    · obtain ⟨p, inChain, low, high⟩ := inv.placed region old
      exact ⟨p, inChain, low, high.trans (grows p)⟩
    · refine ⟨h, member, ?_, ?_⟩
      · dsimp only
        omega
      · exact lastHere.ge
  · rw [List.pairwise_append]
    refine ⟨inv.disjoint, List.pairwise_singleton .., ?_⟩
    intro region old new listed
    rw [List.mem_singleton] at listed
    subst listed
    obtain ⟨p, inChain, low, high⟩ := inv.placed region old
    by_cases here : p = h
    · subst here
      left
      dsimp only
      omega
    · have room := inv.room p inChain
      rcases inv.apart_of_ne inChain member here with below | above
      · left
        dsimp only
        omega
      · right
        dsimp only
        omega
  · intro region listed isAligned
    rw [List.mem_append, List.mem_singleton] at listed
    rcases listed with old | rfl
    · exact inv.aligned region old isAligned
    · exact multiple isAligned

/-- A further block that holds one request. -/
theorem Inv.extend {chain : List UInt64} {w : World} (inv : Inv chain w) {new size : UInt64}
    {aligned : Bool} (usable : Usable w new) (small : size ≤ w.pool.max) {pool : MpPool}
    (addr : pool.addr = w.pool.addr) (max : pool.max = w.pool.max)
    (current : pool.current ∈ chain ++ [new]) (large : pool.large = w.pool.large)
    (linked : Linked pool.nodes (chain ++ [new]))
    (same : ∀ h ∈ chain, (pool.nodes h).last = (w.pool.nodes h).last ∧
      (pool.nodes h).stop = (w.pool.nodes h).stop)
    (last : (pool.nodes new).last = new + sizeofNode + size)
    (stop : (pool.nodes new).stop = new + psize w.pool) :
    Inv (chain ++ [new]) ⟨pool, w.blocks ++ [⟨new, psize w.pool⟩],
      w.regions ++ [⟨new + sizeofNode, size, aligned⟩]⟩ := by
  have widest := inv.widest
  have bound := (w.pool.nodes w.pool.head).stop.toNat_lt
  have ends := usable.ends
  have fits : size.toNat ≤ w.pool.max.toNat := UInt64.le_iff_toNat_le.mp small
  have length := inv.psize_toNat
  have node : sizeofNode.toNat = 32 := rfl
  have startAt : (new + sizeofNode).toNat = new.toNat + 32 := by
    rw [UInt64.toNat_add, node]
    apply Nat.mod_eq_of_lt
    omega
  have lastAt : (pool.nodes new).last.toNat = new.toNat + 32 + size.toNat := by
    rw [last, UInt64.toNat_add, startAt]
    apply Nat.mod_eq_of_lt
    omega
  have stopAt : (pool.nodes new).stop.toNat = new.toNat + (psize w.pool).toNat := by
    rw [stop, UInt64.toNat_add]
    apply Nat.mod_eq_of_lt
    omega
  have head : pool.head = w.pool.head := by
    unfold MpPool.head
    rw [addr]
  have apart : ∀ h ∈ chain, (w.pool.nodes h).stop.toNat ≤ new.toNat ∨
      new.toNat + (psize w.pool).toNat ≤ h.toNat := by
    intro h listed
    obtain ⟨block, inBlocks, low, high⟩ := inv.backed h listed
    have disjoint := usable.apart block inBlocks
    have room := inv.room h listed
    omega
  refine ⟨?_, linked, ?_, current, ?_, ?_, ?_, ?_, ?_, ?_, ?_, ?_⟩
  · obtain ⟨rest, rfl⟩ := inv.begins
    exact ⟨rest ++ [new], by rw [head]; rfl⟩
  · intro h listed
    rw [List.mem_append, List.mem_singleton] at listed
    rcases listed with old | rfl
    · exact inv.inner h old
    · exact usable.nonnull
  · exact large.trans inv.large
  · intro h listed
    rw [List.mem_append, List.mem_singleton] at listed
    rcases listed with old | rfl
    · dsimp only
      rw [(same h old).1, (same h old).2]
      exact inv.room h old
    · dsimp only
      omega
  · intro h listed
    rw [List.mem_append, List.mem_singleton] at listed
    rcases listed with old | rfl
    · obtain ⟨block, inBlocks, low, high⟩ := inv.backed h old
      refine ⟨block, List.mem_append_left _ inBlocks, low, ?_⟩
      dsimp only
      rw [(same h old).2]
      exact high
    · exact ⟨_, List.mem_append_right _ List.mem_cons_self, le_rfl, stopAt.le⟩
  · rw [List.pairwise_append]
    refine ⟨?_, List.pairwise_singleton .., ?_⟩
    · refine inv.apart.imp_of_mem ?_
      intro a b inA inB either
      dsimp only
      rw [(same a inA).2, (same b inB).2]
      exact either
    · intro a inA b inB
      rw [List.mem_singleton] at inB
      subst inB
      dsimp only
      rw [(same a inA).2, stopAt]
      exact apart a inA
  · dsimp only
    rw [head, max, (same _ inv.head_mem).2]
    exact widest
  · intro region listed
    rw [List.mem_append, List.mem_singleton] at listed
    rcases listed with old | rfl
    · obtain ⟨h, inChain, low, high⟩ := inv.placed region old
      refine ⟨h, List.mem_append_left _ inChain, low, ?_⟩
      dsimp only
      rw [(same h inChain).1]
      exact high
    · refine ⟨new, List.mem_append_right _ List.mem_cons_self, startAt.ge, ?_⟩
      dsimp only
      omega
  · rw [List.pairwise_append]
    refine ⟨inv.disjoint, List.pairwise_singleton .., ?_⟩
    intro region old fresh listed
    rw [List.mem_singleton] at listed
    subst listed
    obtain ⟨h, inChain, low, high⟩ := inv.placed region old
    have room := inv.room h inChain
    have disjoint := apart h inChain
    unfold Region.Apart
    dsimp only
    omega
  · intro region listed isAligned
    rw [List.mem_append, List.mem_singleton] at listed
    rcases listed with old | rfl
    · exact inv.aligned region old isAligned
    · have multiple := usable.aligned
      dsimp only
      omega

/-- Only the script, the bytes and the released addresses of the pool changed. -/
theorem Inv.idle {chain : List UInt64} {w : World} (inv : Inv chain w) {pool : MpPool}
    (addr : pool.addr = w.pool.addr) (max : pool.max = w.pool.max)
    (current : pool.current = w.pool.current) (large : pool.large = w.pool.large)
    (nodes : pool.nodes = w.pool.nodes) : Inv chain ⟨pool, w.blocks, w.regions⟩ := by
  have head : pool.head = w.pool.head := by
    unfold MpPool.head
    rw [addr]
  obtain ⟨begins, linked, inner, searched, noLarge, room, backed, apart, widest, placed, disjoint,
    aligned⟩ := inv
  constructor
  · rw [head]
    exact begins
  · rw [nodes]
    exact linked
  · exact inner
  · rw [current]
    exact searched
  · exact large.trans noLarge
  · rw [nodes]
    exact room
  · rw [nodes]
    exact backed
  · rw [nodes]
    exact apart
  · rw [head, max, nodes]
    exact widest
  · rw [nodes]
    exact placed
  · exact disjoint
  · exact aligned

/-- A usable block is none of the chain. -/
theorem Usable.not_mem {chain : List UInt64} {w : World} (inv : Inv chain w) {new : UInt64}
    (usable : Usable w new) : new ∉ chain := by
  intro member
  obtain ⟨block, inBlocks, low, high⟩ := inv.backed new member
  have disjoint := usable.apart block inBlocks
  have room := inv.room new member
  have widest := inv.widest
  have length := inv.psize_toNat
  omega

/-- Behind the header of an aligned block nothing is left to round. -/
theorem mpAlignPtr_block {new : UInt64} (aligned : new.toNat % 32 = 0)
    (fits : new.toNat + 63 < 18446744073709551616) :
    mpAlignPtr (new + sizeofNode) MP_ALIGNMENT = new + sizeofNode := by
  have node : sizeofNode.toNat = 32 := rfl
  have start : (new + sizeofNode).toNat = new.toNat + 32 := by
    rw [UInt64.toNat_add, node]
    apply Nat.mod_eq_of_lt
    omega
  rw [← UInt64.toNat_inj, mpAlignPtr_toNat (by omega), start, roundUp]
  omega

end BackendCpp.Mmpool
