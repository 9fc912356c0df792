import BackendCpp.Library.Loop

/-!
# The program of mmpool.c

A pool of `内存池/mmpool.c` is a chain of blocks; each begins with a header that says where
the free part of the block starts and where the block ends. Addresses and sizes are 64-bit
words, as in the program, so a difference of two pointers wraps. Headers, records of large
blocks and the bytes of the user are kept apart by kind; what `malloc` and `posix_memalign`
answer is a script, one answer for each call, `none` for a failure. `mp_alloc` and
`mp_alloc_large` call each other, so they take fuel.
-/

namespace BackendCpp.Mmpool

open BackendCpp.Library

/-- `MP_ALIGNMENT`. -/
def MP_ALIGNMENT : UInt64 := 32

/-- `MP_PAGE_SIZE`. -/
def MP_PAGE_SIZE : UInt64 := 4096

/-- `MP_MAX_ALLOC_FROM_POOL`. -/
def MP_MAX_ALLOC_FROM_POOL : UInt64 := MP_PAGE_SIZE - 1

/-- `sizeof(struct mp_pool_s)`; the array of length zero takes no room. -/
def sizeofPool : UInt64 := 24

/-- `sizeof(struct mp_node_s)`. -/
def sizeofNode : UInt64 := 32

/-- `sizeof(struct mp_large_s)`. -/
def sizeofLarge : UInt64 := 16

/-- `mp_align_ptr`. -/
def mpAlignPtr (p alignment : UInt64) : UInt64 := (p + (alignment - 1)) &&& ~~~(alignment - 1)

/-- `struct mp_large_s`. -/
structure MpLarge where
  /-- The next record. -/
  next : UInt64
  /-- The large block, or `NULL`. -/
  alloc : UInt64

/-- `struct mp_node_s`. -/
structure MpNode where
  /-- Start of the free part. -/
  last : UInt64
  /-- End of the block. -/
  stop : UInt64
  /-- The next block. -/
  next : UInt64
  /-- How often a request was not served here. -/
  failed : UInt64
  deriving DecidableEq

/-- `struct mp_pool_s`, with the memory that it refers to. -/
structure MpPool where
  /-- Address of the pool itself. -/
  addr : UInt64
  /-- Greatest size served from the blocks. -/
  max : UInt64
  /-- Where a search begins. -/
  current : UInt64
  /-- First record of a large block. -/
  large : UInt64
  /-- The block headers in memory. -/
  nodes : UInt64 → MpNode
  /-- The records of large blocks in memory. -/
  larges : UInt64 → MpLarge
  /-- The bytes of the user. -/
  bytes : UInt64 → UInt8
  /-- What the allocator will answer. -/
  script : List (Option UInt64)
  /-- History: what was given to `free`, in order. -/
  released : List UInt64

/-- `pool->head`. -/
def MpPool.head (pool : MpPool) : UInt64 := pool.addr + sizeofPool

/-- Rewrite one header. -/
def MpPool.setNode (pool : MpPool) (p : UInt64) (node : MpNode) : MpPool :=
  { pool with nodes := Function.update pool.nodes p node }

/-- Rewrite one record of a large block. -/
def MpPool.setLarge (pool : MpPool) (p : UInt64) (large : MpLarge) : MpPool :=
  { pool with larges := Function.update pool.larges p large }

/-- `malloc` and `posix_memalign`: the next answer. -/
def MpPool.obtain (pool : MpPool) : Option UInt64 × MpPool :=
  (pool.script.head?.join, { pool with script := pool.script.tail })

/-- `free`. -/
def MpPool.free (pool : MpPool) (p : UInt64) : MpPool :=
  { pool with released := pool.released ++ [p] }

/-- `mp_create_pool`, once `posix_memalign` has answered with `memory.addr`. The field
`head->next` keeps what the memory held. -/
def mpCreatePool (memory : MpPool) (size : UInt64) : MpPool :=
  let p := memory.addr
  let last := p + sizeofPool + sizeofNode
  let pool :=
    { memory with
      max := if size < MP_MAX_ALLOC_FROM_POOL then size else MP_MAX_ALLOC_FROM_POOL
      current := memory.head
      large := 0 }
  pool.setNode pool.head ⟨last, last + size, (pool.nodes pool.head).next, 0⟩

/-- One pass of the loop that frees the large blocks. -/
def freeLargePass (state : MpPool × UInt64) : (MpPool × UInt64) ⊕ MpPool :=
  let (pool, l) := state
  if l ≠ 0 then
    let alloc := (pool.larges l).alloc
    .inl (if alloc ≠ 0 then pool.free alloc else pool, (pool.larges l).next)
  else .inr pool

/-- One pass of the loop that frees the blocks after the first. -/
def freeBlockPass (state : MpPool × UInt64) : (MpPool × UInt64) ⊕ MpPool :=
  let (pool, h) := state
  if h ≠ 0 then .inl (pool.free h, (pool.nodes h).next) else .inr pool

/-- `mp_destory_pool`. -/
def mpDestoryPool (fuel : Nat) (pool : MpPool) : Option MpPool :=
  (loop freeLargePass fuel (pool, pool.large)).bind fun pool =>
  (loop freeBlockPass fuel (pool, (pool.nodes pool.head).next)).map fun pool =>
  pool.free pool.addr

/-- One pass of the loop of `mp_reset_pool` over the blocks. -/
def resetPass (state : MpPool × UInt64) : (MpPool × UInt64) ⊕ MpPool :=
  let (pool, h) := state
  if h ≠ 0 then
    .inl (pool.setNode h { pool.nodes h with last := h + sizeofNode }, (pool.nodes h).next)
  else .inr pool

/-- `mp_reset_pool`. -/
def mpResetPool (fuel : Nat) (pool : MpPool) : Option MpPool :=
  (loop freeLargePass fuel (pool, pool.large)).bind fun pool =>
  loop resetPass fuel ({ pool with large := 0 }, pool.head)

/-- One pass of the loop of `mp_alloc_block`, on the pool, `p` and `current`. It leaves with
the last block of the chain and the new `current`. -/
def chainPass (state : MpPool × UInt64 × UInt64) :
    (MpPool × UInt64 × UInt64) ⊕ (MpPool × UInt64 × UInt64) :=
  let (pool, p, current) := state
  if (pool.nodes p).next ≠ 0 then
    let failed := (pool.nodes p).failed
    .inl (pool.setNode p { pool.nodes p with failed := failed + 1 }, (pool.nodes p).next,
      if failed > 4 then (pool.nodes p).next else current)
  else .inr (pool, p, current)

/-- `mp_alloc_block`. -/
def mpAllocBlock (fuel : Nat) (pool : MpPool) (size : UInt64) : Option (MpPool × UInt64) :=
  let h := pool.head
  let psize := (pool.nodes h).stop - h
  match pool.obtain with
  | (none, pool) => some (pool, 0)
  | (some newNode, pool) =>
    let m := mpAlignPtr (newNode + sizeofNode) MP_ALIGNMENT
    let pool := pool.setNode newNode ⟨m + size, newNode + psize, 0, 0⟩
    (loop chainPass fuel (pool, pool.current, pool.current)).map fun (pool, p, current) =>
      let pool := pool.setNode p { pool.nodes p with next := newNode }
      ({ pool with current := if current ≠ 0 then current else newNode }, m)

/-- One pass of the search of `mp_alloc` and of `mp_nalloc`; `start` is where a request would
begin in the free part. It leaves with the block and the address, or with `none` after the
last block. -/
def searchPass (start : UInt64 → UInt64) (pool : MpPool) (size p : UInt64) :
    UInt64 ⊕ Option (UInt64 × UInt64) :=
  let m := start (pool.nodes p).last
  if (pool.nodes p).stop - m ≥ size then .inr (some (p, m))
  else if (pool.nodes p).next ≠ 0 then .inl (pool.nodes p).next
  else .inr none

/-- The common part of `mp_alloc` and `mp_nalloc` for sizes that the blocks serve. -/
def allocSmall (start : UInt64 → UInt64) (fuel : Nat) (pool : MpPool) (size : UInt64) :
    Option (MpPool × UInt64) :=
  (loop (searchPass start pool size) fuel pool.current).bind fun
    | some (p, m) => some (pool.setNode p { pool.nodes p with last := m + size }, m)
    | none => mpAllocBlock fuel pool size

/-- One pass of the loop of `mp_alloc_large` over the records, on `large` and `n`. It leaves
with a record that is free. -/
def emptyRecordPass (pool : MpPool) (state : UInt64 × Nat) : (UInt64 × Nat) ⊕ Option UInt64 :=
  let (large, n) := state
  if large ≠ 0 then
    if (pool.larges large).alloc = 0 then .inr (some large)
    else if n > 3 then .inr none
    else .inl ((pool.larges large).next, n + 1)
  else .inr none

/-- The end of `mp_alloc_large` and of `mp_memalign`: note a block in a new record that
`mp_alloc` gave. -/
def noteLarge (pool : MpPool) (large p : UInt64) : MpPool × UInt64 :=
  if large = 0 then (pool.free p, 0)
  else ({ pool.setLarge large ⟨pool.large, p⟩ with large := large }, p)

/-- `mp_alloc_large`, with `mp_alloc` as a parameter. -/
def mpAllocLarge (alloc : MpPool → UInt64 → Option (MpPool × UInt64)) (fuel : Nat)
    (pool : MpPool) : Option (MpPool × UInt64) :=
  match pool.obtain with
  | (none, pool) => some (pool, 0)
  | (some p, pool) =>
    (loop (emptyRecordPass pool) fuel (pool.large, 0)).bind fun
      | some large => some (pool.setLarge large { pool.larges large with alloc := p }, p)
      | none => (alloc pool sizeofLarge).map fun (pool, large) => noteLarge pool large p

/-- `mp_alloc`. -/
def mpAlloc : Nat → MpPool → UInt64 → Option (MpPool × UInt64)
  | 0, _, _ => none
  | fuel + 1, pool, size =>
    if size ≤ pool.max then allocSmall (mpAlignPtr · MP_ALIGNMENT) (fuel + 1) pool size
    else mpAllocLarge (mpAlloc fuel) (fuel + 1) pool

/-- `mp_nalloc`. -/
def mpNalloc (fuel : Nat) (pool : MpPool) (size : UInt64) : Option (MpPool × UInt64) :=
  if size ≤ pool.max then allocSmall id fuel pool size
  else mpAllocLarge (mpAlloc fuel) fuel pool

/-- `memset` with zeros. -/
def memset (bytes : UInt64 → UInt8) (p size : UInt64) : UInt64 → UInt8 :=
  fun a => if a - p < size then 0 else bytes a

/-- `mp_calloc`. -/
def mpCalloc (fuel : Nat) (pool : MpPool) (size : UInt64) : Option (MpPool × UInt64) :=
  (mpAlloc fuel pool size).map fun (pool, p) =>
    (if p ≠ 0 then { pool with bytes := memset pool.bytes p size } else pool, p)

/-- `mp_memalign`. -/
def mpMemalign (fuel : Nat) (pool : MpPool) : Option (MpPool × UInt64) :=
  match pool.obtain with
  | (none, pool) => some (pool, 0)
  | (some p, pool) =>
    (mpAlloc fuel pool sizeofLarge).map fun (pool, large) => noteLarge pool large p

/-- One pass of the loop of `mp_free`; it leaves with the record of the block. -/
def findLargePass (pool : MpPool) (p l : UInt64) : UInt64 ⊕ Option UInt64 :=
  if l ≠ 0 then
    if p = (pool.larges l).alloc then .inr (some l) else .inl (pool.larges l).next
  else .inr none

/-- `mp_free`. -/
def mpFree (fuel : Nat) (pool : MpPool) (p : UInt64) : Option MpPool :=
  (loop (findLargePass pool p) fuel pool.large).map fun
    | some l => (pool.free (pool.larges l).alloc).setLarge l { pool.larges l with alloc := 0 }
    | none => pool

end BackendCpp.Mmpool
