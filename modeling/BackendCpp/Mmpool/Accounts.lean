import BackendCpp.Mmpool.Records

/-!
# Pools with large blocks

A request that the blocks do not serve gets a large block of its own, and its record comes
out of the blocks like any request of the user. A run keeps a ledger of the large blocks
that were handed out and not given to `free` since, read off the answers and off what was
released. The invariant of the blocks goes on to hold of the pool without its records.
-/

namespace BackendCpp.Mmpool

open BackendCpp.Library

/-- What a caller asks for. -/
inductive Request where
  /-- `mp_alloc`. -/
  | alloc (size : UInt64)
  /-- `mp_nalloc`. -/
  | nalloc (size : UInt64)
  /-- `mp_calloc`. -/
  | calloc (size : UInt64)
  /-- `mp_memalign`. -/
  | memalign

namespace Request

/-- The function that the caller calls. -/
def call (request : Request) (fuel : Nat) (pool : MpPool) : Option (MpPool × UInt64) :=
  match request with
  | .alloc size => mpAlloc fuel pool size
  | .nalloc size => mpNalloc fuel pool size
  | .calloc size => mpCalloc fuel pool size
  | .memalign => mpMemalign fuel pool

/-- Whether the request is for a large block. -/
def large (request : Request) (max : UInt64) : Bool :=
  match request with
  | .alloc size => decide (max < size)
  | .nalloc size => decide (max < size)
  | .calloc size => decide (max < size)
  | .memalign => true

end Request

/-- A pool with the history of its blocks and of its large blocks. -/
structure Store where
  /-- The pool. -/
  pool : MpPool
  /-- History: the memory the pool has. -/
  blocks : List Block
  /-- History: the large blocks handed out and not released. -/
  live : List UInt64

/-- The pool of a store without its records. -/
def Store.world (s : Store) (regions : List Region) : World :=
  ⟨{ s.pool with large := 0 }, s.blocks, regions⟩

/-- The answers for a request: `chunk` for its large block, `block` for a further block. -/
def Store.given (s : Store) (request : Request) (chunk block : Option UInt64) : MpPool :=
  { s.pool with
    script := if request.large s.pool.max then [chunk, block] else [block] }

/-- The large blocks in use, with those just handed out and without those given to `free`. -/
def ledger (live handed : List UInt64) (before after : MpPool) : List UInt64 :=
  (handed ++ live).filter fun p => p ∉ after.released.drop before.released.length

/-- The store after a request that returned `m`. -/
def Store.after (s : Store) (request : Request) (block : Option UInt64) (pool : MpPool)
    (m : UInt64) : Store :=
  ⟨pool, s.blocks ++ (taken pool block).toList.map fun a => ⟨a, psize s.pool⟩,
    ledger s.live (if request.large s.pool.max ∧ m ≠ 0 then [m] else []) s.pool pool⟩

/-- An answer that `malloc` or `posix_memalign` may give for a large block: not in use. -/
structure Chunk (s : Store) (p : UInt64) : Prop where
  /-- Not `NULL`. -/
  nonnull : p ≠ 0
  /-- No large block in use. -/
  new : p ∉ s.live
  /-- In no block of the pool. -/
  outside : ∀ block ∈ s.blocks, p.toNat < block.base.toNat ∨
    block.base.toNat + block.length.toNat ≤ p.toNat

/-- The answers that the allocator may give to a request. -/
structure Granting (s : Store) (request : Request) (chunk block : Option UInt64) : Prop where
  /-- A large block that is not in use. -/
  unused : request.large s.pool.max → ∀ p, chunk = some p → Chunk s p
  /-- A further block that shares nothing with the other ones. -/
  usable : ∀ a, block = some a → Usable ⟨s.pool, s.blocks, []⟩ a
  /-- No large block begins in it. -/
  apart : ∀ a, block = some a → ∀ p, p ∈ s.live ∨ request.large s.pool.max ∧ chunk = some p →
    p.toNat < a.toNat ∨ a.toNat + (psize s.pool).toNat ≤ p.toNat

/-- What a user of the pool does, with the answers. -/
inductive Call where
  /-- A request that was answered with `m`. -/
  | request (request : Request) (chunk block : Option UInt64) (m : UInt64)
  /-- `mp_free`. -/
  | free (p : UInt64)
  /-- `mp_reset_pool`. -/
  | reset

/-- One call. -/
inductive Calls (s : Store) : Call → Store → Prop
  | request {request : Request} {chunk block : Option UInt64} {pool : MpPool} {m : UInt64}
      (granting : Granting s request chunk block)
      (returns : Leaves (fun fuel => request.call fuel (s.given request chunk block)) (pool, m)) :
      Calls s (.request request chunk block m) (s.after request block pool m)
  | free {p : UInt64} {pool : MpPool} (returns : Leaves (fun fuel => mpFree fuel s.pool p) pool) :
      Calls s (.free p) ⟨pool, s.blocks, ledger s.live [] s.pool pool⟩
  | reset {pool : MpPool} (returns : Leaves (fun fuel => mpResetPool fuel s.pool) pool) :
      Calls s .reset ⟨pool, s.blocks, ledger s.live [] s.pool pool⟩

/-- None of the first records of the list is free, so that a large block needs a new one. -/
def Crowded (pool : MpPool) : Prop :=
  Leaves (fun fuel => loop (emptyRecordPass pool) fuel (pool.large, 0)) none

/-- An aligned search for `size` comes to no block whose `last` field, rounded up, passes the
end of the block. -/
def Store.Roomy (s : Store) (size : UInt64) : Prop := Mmpool.Roomy ⟨s.pool, s.blocks, []⟩ size

/-- A record that is needed for a large block finds no block that only seems to have room. -/
def Store.RecordRoomy (s : Store) (chunk : Option UInt64) : Prop :=
  chunk ≠ none → Crowded s.pool → s.Roomy sizeofLarge

/-- The condition on the state before a request: an aligned search finds no block that only
seems to have room. -/
def Finds (s : Store) (request : Request) (chunk : Option UInt64) : Prop :=
  match request with
  | .alloc size => if size ≤ s.pool.max then s.Roomy size else s.RecordRoomy chunk
  | .calloc size => if size ≤ s.pool.max then s.Roomy size else s.RecordRoomy chunk
  | .nalloc size => size ≤ s.pool.max ∨ s.RecordRoomy chunk
  | .memalign => chunk ≠ none → s.Roomy sizeofLarge

/-- The condition on the state before a call. -/
def Suits (s : Store) : Call → Prop
  | .request request chunk _ _ => Finds s request chunk
  | .free _ => True
  | .reset => True

/-- A request for a large block in a pool whose blocks do not serve its record. -/
def Starving (s : Store) : Call → Prop
  | .request request _ _ _ => request.large s.pool.max = true ∧ s.pool.max < sizeofLarge
  | .free _ => False
  | .reset => False

/-- The headers of the blocks that a pool has. -/
def Store.headers (s : Store) : List UInt64 := s.pool.head :: s.blocks.tail.map Block.base

/-- What holds of a store between calls: the invariant of its blocks, whose regions hold the
records, and the list of the records. The blocks serve sizes up to `greatest`. -/
structure Owns (greatest : UInt64) (records : List UInt64) (regions : List Region) (s : Store) :
    Prop where
  /-- The blocks form the chain. -/
  inv : Inv s.headers (s.world regions)
  /-- The first block begins with the pool. -/
  filled : ∃ length rest, s.blocks = ⟨s.pool.addr, length⟩ :: rest ∧ 0 < length.toNat
  /-- The list begins in the pool. -/
  first : s.pool.large = records.headD 0
  /-- The records form the list. -/
  strung : Strung s.pool.larges records
  /-- No record is at `NULL`. -/
  inner : ∀ r ∈ records, r ≠ 0
  /-- Every record once. -/
  distinct : records.Nodup
  /-- The records lie in the blocks. -/
  held : ∀ r ∈ records, ⟨r, sizeofLarge, true⟩ ∈ regions
  /-- The records note the large blocks in use. -/
  live : (allocs s.pool.larges records).Perm s.live
  /-- Each of them once. -/
  once : s.live.Nodup
  /-- No large block begins in a block. -/
  outside : ∀ p ∈ s.live, ∀ block ∈ s.blocks, p.toNat < block.base.toNat ∨
    block.base.toNat + block.length.toNat ≤ p.toNat
  /-- The greatest size that the blocks serve. -/
  limit : s.pool.max = greatest
  /-- Blocks that do not serve records hold none. -/
  narrow : greatest < sizeofLarge → records = []

variable {greatest : UInt64} {s : Store} {records : List UInt64} {regions : List Region} {request : Request}
  {chunk block : Option UInt64}

/-- The visited blocks depend only on where the search begins and on the headers. -/
theorem Visited.congr {start : UInt64 → UInt64} {pool pool' : MpPool} {size p : UInt64}
    (current : pool'.current = pool.current) (nodes : pool'.nodes = pool.nodes)
    (visited : Visited start pool size p) : Visited start pool' size p := by
  induction visited with
  | current =>
    rw [← current]
    exact Visited.current
  | next before full onward ih =>
    rw [← nodes] at full onward ⊢
    exact ih.next full onward

/-- The records do not matter to the room in the blocks. -/
theorem Store.Roomy.world {size : UInt64} (roomy : s.Roomy size) :
    Mmpool.Roomy (s.world regions) size :=
  fun h visited => roomy h (visited.congr (by rfl) (by rfl))

/-- What was given to `free` goes out of the ledger. -/
theorem ledger_released {live handed gone : List UInt64} {before after : MpPool}
    (more : after.released = before.released ++ gone) :
    ledger live handed before after = (handed ++ live).filter fun p => p ∉ gone := by
  rw [ledger, more, List.drop_left]

/-- Releasing nothing that is in use leaves the ledger as it is. -/
theorem ledger_same {live handed gone : List UInt64} {before after : MpPool}
    (more : after.released = before.released ++ gone) (unused : ∀ p ∈ gone, p ∉ handed ++ live) :
    ledger live handed before after = handed ++ live := by
  rw [ledger_released more]
  apply List.filter_eq_self.mpr
  intro p member
  exact decide_eq_true fun listed => unused p listed member

/-- Answers, bytes and the history of releases do not matter between calls. -/
theorem Owns.idle (owns : Owns greatest records regions s) (bytes : UInt64 → UInt8)
    (script : List (Option UInt64)) (released : List UInt64) :
    Owns greatest records regions
      ⟨{ s.pool with bytes := bytes, script := script, released := released }, s.blocks, s.live⟩ :=
  ⟨owns.inv.idle rfl rfl rfl rfl rfl, owns.filled, owns.first, owns.strung, owns.inner,
    owns.distinct, owns.held, owns.live, owns.once, owns.outside, owns.limit, owns.narrow⟩

/-- A pool whose blocks served a request. -/
theorem Owns.serve (owns : Owns greatest records regions s) {q : MpPool} {m size : UInt64} {aligned : Bool}
    (served : Served s.headers (s.world regions) block q m size aligned)
    (apart : ∀ a, block = some a → ∀ p ∈ s.live,
      p.toNat < a.toNat ∨ a.toNat + (psize s.pool).toNat ≤ p.toNat) :
    Owns greatest records (if m = 0 then regions else regions ++ [⟨m, size, aligned⟩])
      ⟨q.dressed s.pool [], s.blocks ++ (taken q block).toList.map fun a => ⟨a, psize s.pool⟩,
        s.live⟩ := by
  have addr : q.addr = s.pool.addr := served.addr
  have head : q.head = s.pool.head := by
    unfold MpPool.head
    rw [addr]
  obtain ⟨length, others, whole, long⟩ := owns.filled
  have nonempty : s.blocks ≠ [] := by
    rw [whole]
    exact List.cons_ne_nil _ _
  have headers : q.head :: (s.blocks ++ (taken q block).toList.map fun a =>
      (⟨a, psize s.pool⟩ : Block)).tail.map Block.base = s.headers ++ (taken q block).toList := by
    rw [List.tail_append_of_ne_nil nonempty, head, List.map_append, List.map_map]
    simp [Store.headers, Function.comp_def]
  refine ⟨?_, ?_, owns.first, owns.strung, owns.inner, owns.distinct, ?_, owns.live, owns.once, ?_,
    served.max.trans owns.limit, owns.narrow⟩
  · change Inv (q.head :: _) _
    rw [headers]
    exact served.inv.idle rfl rfl rfl served.inv.large.symm rfl
  · refine ⟨length, others ++ (taken q block).toList.map fun a => ⟨a, psize s.pool⟩, ?_, long⟩
    change s.blocks ++ _ = ⟨q.addr, length⟩ :: _
    rw [whole, addr]
    rfl
  · intro r member
    have old := owns.held r member
    split
    · exact old
    · exact List.mem_append_left _ old
  · intro p member other listed
    cases List.mem_append.mp listed with
    | inl old => exact owns.outside p member other old
    | inr new =>
      obtain ⟨a, took, rfl⟩ := List.mem_map.mp new
      apply apart a _ p member
      unfold taken at took
      split at took
      · exact Option.mem_toList.mp took
      · exact absurd took (by simp)

/-- A record that the blocks just served is none of the list. -/
theorem Owns.new_record (owns : Owns greatest records regions s) {r : UInt64}
    (disjoint : (regions ++ [(⟨r, sizeofLarge, true⟩ : Region)]).Pairwise Region.Apart) :
    r ∉ records := by
  intro member
  obtain ⟨_, _, apart⟩ := List.pairwise_append.mp disjoint
  have clash := apart _ (owns.held r member) _ List.mem_cons_self
  have width : sizeofLarge.toNat = 16 := rfl
  unfold Region.Apart at clash
  dsimp only at clash
  omega

/-- Noting a large block in a new record. -/
theorem Owns.note (owns : Owns greatest records regions s) (wide : sizeofLarge ≤ greatest)
    {r p : UInt64} (nonnull : r ≠ 0)
    (held : ⟨r, sizeofLarge, true⟩ ∈ regions) (new : r ∉ records) (unused : Chunk s p) :
    Owns greatest (r :: records) regions
      ⟨{ s.pool.setLarge r ⟨s.pool.large, p⟩ with large := r }, s.blocks, p :: s.live⟩ := by
  have others : ∀ q ∈ records, Function.update s.pool.larges r ⟨s.pool.large, p⟩ q =
      s.pool.larges q := by
    intro q member
    exact Function.update_of_ne (ne_of_mem_of_not_mem member new) ..
  refine ⟨owns.inv.idle rfl rfl rfl rfl rfl, owns.filled, rfl, ⟨?_, ?_⟩, ?_, ?_, ?_, ?_, ?_, ?_,
    owns.limit, fun narrow => absurd wide (UInt64.not_le.mpr narrow)⟩
  · change (Function.update s.pool.larges r _ r).next = _
    rw [Function.update_self]
    exact owns.first
  · apply owns.strung.congr
    intro q member
    exact congrArg MpLarge.next (others q member)
  · intro q member
    cases List.mem_cons.mp member with
    | inl same =>
      rw [same]
      exact nonnull
    | inr old => exact owns.inner q old
  · exact List.nodup_cons.mpr ⟨new, owns.distinct⟩
  · intro q member
    cases List.mem_cons.mp member with
    | inl same =>
      rw [same]
      exact held
    | inr old => exact owns.held q old
  · change (allocs (Function.update s.pool.larges r ⟨s.pool.large, p⟩) (r :: records)).Perm _
    rw [allocs_cons, Function.update_self, if_pos unused.nonnull,
      allocs_congr fun q member => congrArg MpLarge.alloc (others q member)]
    exact owns.live.cons p
  · exact List.nodup_cons.mpr ⟨unused.new, owns.once⟩
  · intro q member other listed
    cases List.mem_cons.mp member with
    | inl same =>
      rw [same]
      exact unused.outside other listed
    | inr old => exact owns.outside q old other listed

/-- Noting a large block in a record that is free. -/
theorem Owns.fill (owns : Owns greatest records regions s) {r p : UInt64} (member : r ∈ records)
    (free : (s.pool.larges r).alloc = 0) (unused : Chunk s p) :
    Owns greatest records regions
      ⟨s.pool.setLarge r { s.pool.larges r with alloc := p }, s.blocks, p :: s.live⟩ := by
  refine ⟨owns.inv.idle rfl rfl rfl rfl rfl, owns.filled, owns.first, ?_, owns.inner,
    owns.distinct, owns.held, ?_, ?_, ?_, owns.limit, owns.narrow⟩
  · apply owns.strung.congr
    intro q _
    change (Function.update s.pool.larges r _ q).next = _
    by_cases here : q = r
    · rw [here, Function.update_self]
    · rw [Function.update_of_ne here]
  · exact (allocs_fill member owns.distinct free unused.nonnull).trans (owns.live.cons p)
  · exact List.nodup_cons.mpr ⟨unused.new, owns.once⟩
  · intro q listed other inBlocks
    cases List.mem_cons.mp listed with
    | inl same =>
      rw [same]
      exact unused.outside other inBlocks
    | inr old => exact owns.outside q old other inBlocks

/-- What a request leaves behind: `large` tells whether it is for a large block. -/
structure Outcome (greatest : UInt64) (s : Store) (large : Bool) (chunk block : Option UInt64) (pool : MpPool)
    (m : UInt64) : Prop where
  /-- The invariant holds again, and a large block that is handed out is in use. -/
  owned : ∃ records regions, Owns greatest records regions
    ⟨pool, s.blocks ++ (taken pool block).toList.map fun a => ⟨a, psize s.pool⟩,
      (if large ∧ m ≠ 0 then [m] else []) ++ s.live⟩
  /-- A request that succeeds releases nothing. -/
  succeeded : m ≠ 0 → pool.released = s.pool.released
  /-- A request that fails releases its large block and takes no further one. -/
  failed : m = 0 → taken pool block = none ∧
    pool.released = s.pool.released ++ (if large then chunk else none).toList

/-- Nothing is taken where nothing was offered. -/
theorem taken_none {pool : MpPool} (nothing : block = none) : taken pool block = none := by
  rw [taken, nothing, ite_self]

/-- A request that the blocks serve. -/
theorem Owns.small (owns : Owns greatest records regions s) (granting : Granting s request chunk block)
    {q : MpPool} {m size : UInt64} {aligned : Bool}
    (served : Served s.headers (s.world regions) block q m size aligned) :
    Outcome greatest s false chunk block (q.dressed s.pool []) m := by
  have same : taken (q.dressed s.pool []) block = taken q block := by
    unfold taken MpPool.dressed
    rw [List.append_nil]
  have kept := owns.serve served fun a given p member => granting.apart a given p (.inl member)
  refine ⟨⟨records, if m = 0 then regions else regions ++ [⟨m, size, aligned⟩], ?_⟩, fun _ => rfl,
    fun null => ?_⟩
  · rw [same]
    simpa using kept
  · exact ⟨taken_none (served.null null), by simp [MpPool.dressed]⟩

/-- A block that the allocator may hand out stays so when the pool takes a further block. -/
theorem Chunk.serve {p : UInt64} {pool q : MpPool} (unused : Chunk s p)
    (apart : ∀ a, block = some a → p.toNat < a.toNat ∨ a.toNat + (psize s.pool).toNat ≤ p.toNat) :
    Chunk ⟨pool, s.blocks ++ (taken q block).toList.map fun a => ⟨a, psize s.pool⟩, s.live⟩ p := by
  refine ⟨unused.nonnull, unused.new, fun other listed => ?_⟩
  cases List.mem_append.mp listed with
  | inl old => exact unused.outside other old
  | inr new =>
    obtain ⟨a, took, rfl⟩ := List.mem_map.mp new
    apply apart a
    unfold taken at took
    split at took
    · exact Option.mem_toList.mp took
    · exact absurd took (by simp)

/-- What the blocks serve without the records they serve with them. -/
theorem dress {start : UInt64 → UInt64} {q : MpPool} {m size : UInt64}
    (leaves : Leaves (fun fuel => allocSmall start fuel
      ((s.world regions).pool.answering block) size) (q, m)) :
    Leaves (fun fuel => allocSmall start fuel { s.pool with script := [block] } size)
      (q.dressed s.pool [], m) := by
  have mapped := leaves.map fun result => (result.1.dressed s.pool [], result.2)
  simp only [← allocSmall_dressed] at mapped
  exact mapped

/-- An answer that is usable for the pool is usable without the records. -/
theorem Granting.world (granting : Granting s request chunk block) :
    ∀ a, block = some a → Usable (s.world regions) a := by
  intro a given
  obtain ⟨nonnull, aligned, ends, apart⟩ := granting.usable a given
  exact ⟨nonnull, aligned, ends, apart⟩

/-- A large block is noted in a new record, or released when there is no memory for one. -/
theorem Owns.noted (owns : Owns greatest records regions s) (wide : sizeofLarge ≤ greatest)
    {p : UInt64} (unused : Chunk s p)
    (granting : Granting s request (some p) block) (large : request.large s.pool.max = true)
    (roomy : s.Roomy sizeofLarge) :
    ∃ pool m, Leaves (fun fuel => (mpAlloc fuel { s.pool with script := [block] } sizeofLarge).map
        fun result => noteLarge result.1 result.2 p) (pool, m) ∧
      Outcome greatest s true (some p) block pool m := by
  have apart : ∀ a, block = some a → p.toNat < a.toNat ∨
      a.toNat + (psize s.pool).toNat ≤ p.toNat :=
    fun a given => granting.apart a given p (.inr ⟨large, rfl⟩)
  have small : sizeofLarge ≤ s.pool.max := owns.limit ▸ wide
  obtain ⟨q, r, leaves, served⟩ :=
    allocAligned_spec owns.inv small block granting.world roomy.world
  have records' := (@mpAlloc_leaves { s.pool with script := [block] } _ _ small
    (dress leaves)).map fun result => noteLarge result.1 result.2 p
  have kept := owns.serve served fun a given p member => granting.apart a given p (.inl member)
  have same : taken (q.dressed s.pool []) block = taken q block := by
    unfold taken MpPool.dressed
    rw [List.append_nil]
  by_cases null : r = 0
  · have nothing := served.null null
    refine ⟨(q.dressed s.pool []).free p, 0, ?_, ⟨records, regions, ?_⟩,
      fun wrong => absurd rfl wrong, fun _ => ⟨taken_none nothing, rfl⟩⟩
    · simpa only [noteLarge, if_pos null] using records'
    · have idle := kept.idle (q.dressed s.pool []).bytes (q.dressed s.pool []).script
        (s.pool.released ++ [p])
      rw [taken_none nothing, if_pos null] at idle
      rw [taken_none nothing]
      simp only [Option.toList_none, List.map_nil, List.append_nil] at idle ⊢
      simp only [ne_eq, not_true_eq_false, and_false, if_false, List.nil_append]
      exact idle
  · rw [if_neg null] at kept
    have noted := kept.note wide null (List.mem_append_right _ List.mem_cons_self)
      (owns.new_record kept.inv.disjoint)
      (unused.serve apart)
    refine ⟨{ (q.dressed s.pool []).setLarge r ⟨(q.dressed s.pool []).large, p⟩ with large := r }, p,
      ?_, ⟨r :: records, regions ++ [⟨r, sizeofLarge, true⟩], ?_⟩, fun _ => rfl,
      fun wrong => absurd wrong unused.nonnull⟩
    · simpa only [noteLarge, if_neg null] using records'
    · have took : taken { (q.dressed s.pool []).setLarge r ⟨(q.dressed s.pool []).large, p⟩ with
          large := r } block = taken q block := same
      rw [took, if_pos ⟨rfl, unused.nonnull⟩]
      exact noted

/-- A request for a large block that gets none changes nothing. -/
theorem Owns.refused (owns : Owns greatest records regions s) (block : Option UInt64) :
    Outcome greatest s true none block { s.pool with script := [block] } 0 := by
  have idle := owns.idle s.pool.bytes [block] s.pool.released
  refine ⟨⟨records, regions, ?_⟩, fun wrong => absurd rfl wrong, fun _ => ⟨?_, ?_⟩⟩
  · simpa [taken] using idle
  · simp [taken]
  · simp

/-- `mp_alloc_large` returns and keeps the invariant where a record that is needed finds no block
that only seems to have room. -/
theorem Owns.largeBlock (owns : Owns greatest records regions s) (wide : sizeofLarge ≤ greatest)
    (granting : Granting s request chunk block) (large : request.large s.pool.max = true)
    (roomy : s.RecordRoomy chunk) :
    ∃ pool m, (∃ bound, ∀ f g, bound ≤ f → bound ≤ g →
        mpAllocLarge (mpAlloc f) g { s.pool with script := [chunk, block] } = some (pool, m)) ∧
      Outcome greatest s true chunk block pool m := by
  cases chunk with
  | none => exact ⟨_, _, ⟨0, fun _ _ _ _ => rfl⟩, owns.refused block⟩
  | some p =>
    have unused := granting.unused large p rfl
    obtain ⟨result, leaves, found⟩ := emptyRecordPass_spec s.pool records 0 owns.strung owns.inner
    rw [← owns.first] at leaves
    cases result with
    | some r =>
      obtain ⟨member, free⟩ := found r rfl
      obtain ⟨bound, returns⟩ := leaves
      refine ⟨({ s.pool with script := [block] } : MpPool).setLarge r
        { s.pool.larges r with alloc := p }, p, ⟨bound, ?_⟩, ?_⟩
      · intro f g _ enough
        have empty : loop (emptyRecordPass { s.pool with script := [block] }) g
            (s.pool.large, 0) = some (some r) := returns g enough
        simp only [mpAllocLarge, MpPool.obtain, List.head?_cons, Option.join_some, List.tail_cons,
          empty, Option.bind_some]
      · have filled := (owns.idle s.pool.bytes [block] s.pool.released).fill member free
          ⟨unused.nonnull, unused.new, unused.outside⟩
        refine ⟨⟨records, regions, ?_⟩, fun _ => rfl, fun wrong => absurd wrong unused.nonnull⟩
        rw [if_pos ⟨rfl, unused.nonnull⟩]
        simpa [taken, MpPool.setLarge] using filled
    | none =>
      obtain ⟨pool, m, noted, outcome⟩ := owns.noted wide unused granting large
        (roomy (Option.some_ne_none p) leaves)
      obtain ⟨bound, returns⟩ := leaves
      obtain ⟨bound', returns'⟩ := noted
      refine ⟨pool, m, ⟨max bound bound', ?_⟩, outcome⟩
      intro f g enough enough'
      have empty : loop (emptyRecordPass { s.pool with script := [block] }) g
          (s.pool.large, 0) = some none := returns g (le_trans (le_max_left _ _) enough')
      have last := returns' f (le_trans (le_max_right _ _) enough)
      simp only [mpAllocLarge, MpPool.obtain, List.head?_cons, Option.join_some, List.tail_cons,
        empty, Option.bind_some]
      exact last

/-- `mp_alloc` keeps the invariant. -/
theorem Owns.alloc (owns : Owns greatest records regions s) {size : UInt64}
    (wide : Request.large (.alloc size) s.pool.max → sizeofLarge ≤ greatest)
    (granting : Granting s (.alloc size) chunk block) (finds : Finds s (.alloc size) chunk) :
    ∃ pool m, Leaves (fun fuel => mpAlloc fuel (s.given (.alloc size) chunk block) size) (pool, m) ∧
      Outcome greatest s (Request.large (.alloc size) s.pool.max) chunk block pool m := by
  by_cases small : size ≤ s.pool.max
  · have kind : Request.large (.alloc size) s.pool.max = false :=
      decide_eq_false (UInt64.not_lt.mpr small)
    have roomy : s.Roomy size := by
      simpa only [Finds, if_pos small] using finds
    obtain ⟨q, m, leaves, served⟩ :=
      allocAligned_spec owns.inv small block granting.world roomy.world
    rw [Store.given, kind]
    exact ⟨_, m, mpAlloc_leaves small (dress leaves), owns.small granting served⟩
  · have kind : Request.large (.alloc size) s.pool.max = true :=
      decide_eq_true (UInt64.not_le.mp small)
    have roomy : s.RecordRoomy chunk := by
      simpa only [Finds, if_neg small] using finds
    obtain ⟨pool, m, returns, outcome⟩ := owns.largeBlock (wide kind) granting kind roomy
    obtain ⟨bound, returns⟩ := returns
    rw [Store.given, kind]
    refine ⟨pool, m, ⟨bound + 1, fun fuel enough => ?_⟩, outcome⟩
    obtain ⟨less, rfl⟩ : ∃ less, fuel = less + 1 := ⟨fuel - 1, by omega⟩
    have chosen : mpAlloc (less + 1) { s.pool with script := [chunk, block] } size =
        mpAllocLarge (mpAlloc less) (less + 1) { s.pool with script := [chunk, block] } :=
      if_neg small
    exact chosen.trans (returns less (less + 1) (by omega) (by omega))

/-- `mp_nalloc` keeps the invariant. -/
theorem Owns.nalloc (owns : Owns greatest records regions s) {size : UInt64}
    (wide : Request.large (.nalloc size) s.pool.max → sizeofLarge ≤ greatest)
    (granting : Granting s (.nalloc size) chunk block) (finds : Finds s (.nalloc size) chunk) :
    ∃ pool m, Leaves (fun fuel => mpNalloc fuel (s.given (.nalloc size) chunk block) size)
        (pool, m) ∧
      Outcome greatest s (Request.large (.nalloc size) s.pool.max) chunk block pool m := by
  by_cases small : size ≤ s.pool.max
  · have kind : Request.large (.nalloc size) s.pool.max = false :=
      decide_eq_false (UInt64.not_lt.mpr small)
    obtain ⟨q, m, leaves, served⟩ := allocSmall_spec owns.inv id small block granting.world false
      (fun h member _ => ⟨le_rfl, (owns.inv.room h member).2⟩) (fun _ _ _ wrong => nomatch wrong)
    rw [Store.given, kind]
    refine ⟨_, m, ?_, owns.small granting served⟩
    have chosen : ∀ fuel, mpNalloc fuel { s.pool with script := [block] } size =
        allocSmall id fuel { s.pool with script := [block] } size := fun fuel => if_pos small
    change Leaves (fun fuel => mpNalloc fuel { s.pool with script := [block] } size) _
    simp only [chosen]
    exact dress leaves
  · have kind : Request.large (.nalloc size) s.pool.max = true :=
      decide_eq_true (UInt64.not_le.mp small)
    obtain ⟨pool, m, returns, outcome⟩ :=
      owns.largeBlock (wide kind) granting kind (finds.resolve_left small)
    obtain ⟨bound, returns⟩ := returns
    rw [Store.given, kind]
    refine ⟨pool, m, ⟨bound, fun fuel enough => ?_⟩, outcome⟩
    have chosen : mpNalloc fuel { s.pool with script := [chunk, block] } size =
        mpAllocLarge (mpAlloc fuel) fuel { s.pool with script := [chunk, block] } := if_neg small
    exact chosen.trans (returns fuel fuel enough enough)

/-- Clearing the bytes of a request changes nothing else. -/
theorem Outcome.cleared {large : Bool} {pool : MpPool} {m : UInt64}
    (outcome : Outcome greatest s large chunk block pool m) (bytes : UInt64 → UInt8) :
    Outcome greatest s large chunk block { pool with bytes := bytes } m := by
  obtain ⟨⟨records, regions, owns⟩, succeeded, failed⟩ := outcome
  exact ⟨⟨records, regions, owns.idle bytes pool.script pool.released⟩, succeeded, failed⟩

/-- Every request returns and keeps the invariant, where an aligned search finds no block that
only seems to have room. -/
theorem Owns.call (owns : Owns greatest records regions s)
    (wide : request.large s.pool.max → sizeofLarge ≤ greatest)
    (granting : Granting s request chunk block) (finds : Finds s request chunk) :
    ∃ pool m, Leaves (fun fuel => request.call fuel (s.given request chunk block)) (pool, m) ∧
      Outcome greatest s (request.large s.pool.max) chunk block pool m := by
  cases request with
  | alloc size => exact owns.alloc wide granting finds
  | nalloc size => exact owns.nalloc wide granting finds
  | calloc size =>
    obtain ⟨pool, m, leaves, outcome⟩ := @Owns.alloc _ _ _ _ _ _ owns size wide
      ⟨granting.unused, granting.usable, granting.apart⟩ finds
    have cleared := leaves.map fun result =>
      (if result.2 ≠ 0 then { result.1 with bytes := memset result.1.bytes result.2 size }
        else result.1, result.2)
    refine ⟨_, m, cleared, ?_⟩
    split
    · exact outcome.cleared _
    · exact outcome
  | memalign =>
    cases chunk with
    | none => exact ⟨_, _, Leaves.of_forall fun fuel => rfl, owns.refused block⟩
    | some p =>
      obtain ⟨pool, m, leaves, outcome⟩ := owns.noted (wide rfl) (granting.unused rfl p rfl) granting
        rfl
        (finds (Option.some_ne_none p))
      exact ⟨pool, m, leaves, outcome⟩

/-- The ledger after a request. -/
theorem Outcome.after {pool : MpPool} {m : UInt64}
    (granting : Granting s request chunk block)
    (outcome : Outcome greatest s (request.large s.pool.max) chunk block pool m) :
    ∃ records regions, Owns greatest records regions (s.after request block pool m) := by
  obtain ⟨⟨records, regions, owns⟩, succeeded, failed⟩ := outcome
  refine ⟨records, regions, ?_⟩
  by_cases null : m = 0
  · obtain ⟨_, released⟩ := failed null
    rw [Store.after, ledger_same released]
    · exact owns
    · intro p member
      rw [null]
      simp only [ne_eq, not_true_eq_false, and_false, if_false, List.nil_append]
      split at member
      · rename_i large
        exact (granting.unused large p (Option.mem_toList.mp member)).new
      · exact absurd member (by simp)
  · have released : pool.released = s.pool.released ++ [] := by
      rw [succeeded null, List.append_nil]
    rw [Store.after, ledger_same released fun p member => absurd member List.not_mem_nil]
    exact owns

/-- A large block is in use when a record notes it. -/
theorem Owns.mem_live (owns : Owns greatest records regions s) {p : UInt64} :
    p ∈ s.live ↔ p ≠ 0 ∧ ∃ r ∈ records, (s.pool.larges r).alloc = p :=
  owns.live.mem_iff.symm.trans mem_allocs

/-- What `mp_free` does: it releases the block when it is in use, and nothing otherwise; to give
`NULL` to `free` has no effect. -/
structure Freed (s : Store) (p : UInt64) (pool : MpPool) : Prop where
  /-- A large block in use is released. -/
  released : p ∈ s.live → pool.released = s.pool.released ++ [p]
  /-- Anything else changes nothing. -/
  ignored : p ∉ s.live → pool = s.pool ∨ p = 0 ∧ pool = s.pool.free 0

/-- Taking a large block out of its record. -/
theorem Owns.clear (owns : Owns greatest records regions s) {r : UInt64} (member : r ∈ records)
    (used : (s.pool.larges r).alloc ≠ 0) :
    Owns greatest records regions ⟨(s.pool.free (s.pool.larges r).alloc).setLarge r
      { s.pool.larges r with alloc := 0 }, s.blocks, s.live.erase (s.pool.larges r).alloc⟩ := by
  have once : (allocs s.pool.larges records).Nodup := owns.live.nodup_iff.mpr owns.once
  refine ⟨owns.inv.idle rfl rfl rfl rfl rfl, owns.filled, owns.first, ?_, owns.inner,
    owns.distinct, owns.held, ?_, owns.once.erase _, ?_, owns.limit, owns.narrow⟩
  · apply owns.strung.congr
    intro q _
    change (Function.update s.pool.larges r _ q).next = _
    by_cases here : q = r
    · rw [here, Function.update_self]
    · rw [Function.update_of_ne here]
  · change (allocs (Function.update s.pool.larges r _) records).Perm _
    rw [allocs_clear member owns.distinct used once]
    exact owns.live.erase _
  · intro q listed
    exact owns.outside q (List.mem_of_mem_erase listed)

/-- `mp_free` of a block that a record notes. -/
theorem mpFree_hit {pool : MpPool} {p r : UInt64}
    (leaves : Leaves (fun fuel => loop (findLargePass pool p) fuel pool.large) (some r)) :
    Leaves (fun fuel => mpFree fuel pool p)
      ((pool.free (pool.larges r).alloc).setLarge r { pool.larges r with alloc := 0 }) := by
  obtain ⟨bound, returns⟩ := leaves
  refine ⟨bound, fun fuel enough => ?_⟩
  simp only [mpFree, returns fuel enough, Option.map_some]

/-- `mp_free` of anything else. -/
theorem mpFree_miss {pool : MpPool} {p : UInt64}
    (leaves : Leaves (fun fuel => loop (findLargePass pool p) fuel pool.large) none) :
    Leaves (fun fuel => mpFree fuel pool p) pool := by
  obtain ⟨bound, returns⟩ := leaves
  refine ⟨bound, fun fuel enough => ?_⟩
  simp only [mpFree, returns fuel enough, Option.map_some]

/-- `mp_free` returns and keeps the invariant. -/
theorem Owns.free (owns : Owns greatest records regions s) (p : UInt64) :
    ∃ pool, Leaves (fun fuel => mpFree fuel s.pool p) pool ∧
      Owns greatest records regions ⟨pool, s.blocks, ledger s.live [] s.pool pool⟩ ∧ Freed s p pool := by
  obtain ⟨result, leaves, hit, miss⟩ :=
    findLargePass_spec s.pool p records owns.strung owns.inner
  rw [← owns.first] at leaves
  cases result with
  | none =>
    have unused : p ∉ s.live := by
      intro member
      obtain ⟨_, r, listed, noted⟩ := owns.mem_live.mp member
      exact miss rfl r listed noted
    have same : s.pool.released = s.pool.released ++ [] := (List.append_nil _).symm
    refine ⟨s.pool, mpFree_miss leaves, ?_, fun member => absurd member unused, fun _ => .inl rfl⟩
    rw [ledger_same same fun q member => absurd member List.not_mem_nil]
    exact owns
  | some r =>
    obtain ⟨member, noted⟩ := hit r rfl
    refine ⟨_, mpFree_hit leaves, ?_⟩
    by_cases null : p = 0
    · have empty : (s.pool.larges r).alloc = 0 := noted.trans null
      have blank : ({ s.pool.larges r with alloc := 0 } : MpLarge) = s.pool.larges r := by
        rw [← empty]
      have same : (s.pool.free (s.pool.larges r).alloc).setLarge r
          { s.pool.larges r with alloc := 0 } = s.pool.free 0 := by
        rw [blank, empty]
        unfold MpPool.setLarge MpPool.free
        rw [Function.update_eq_self]
      have unused : (0 : UInt64) ∉ s.live := fun listed => (owns.mem_live.mp listed).1 rfl
      rw [same]
      refine ⟨?_, ?_, fun _ => .inr ⟨null, rfl⟩⟩
      · have released : (s.pool.free 0).released = s.pool.released ++ [0] := rfl
        rw [ledger_same released]
        · exact owns.idle s.pool.bytes s.pool.script (s.pool.released ++ [0])
        · intro q listed
          rw [List.mem_singleton.mp listed]
          exact unused
      · intro listed
        exact absurd (null ▸ listed) unused
    · have used : (s.pool.larges r).alloc ≠ 0 := fun empty => null (noted.symm.trans empty)
      have inUse : p ∈ s.live := owns.mem_live.mpr ⟨null, r, member, noted⟩
      have released : ((s.pool.free (s.pool.larges r).alloc).setLarge r
          { s.pool.larges r with alloc := 0 }).released = s.pool.released ++ [p] := by
        rw [← noted]
        rfl
      refine ⟨?_, fun _ => released, fun unused => absurd inUse unused⟩
      have cleared := owns.clear member used
      rw [ledger_released released]
      rw [noted, owns.once.erase_eq_filter] at cleared
      have same : ([] ++ s.live).filter (fun q => decide (q ∉ [p])) =
          s.live.filter (fun q => q != p) := by
        apply List.filter_congr
        intro q _
        simp [bne, decide_not, beq_eq_decide]
      rw [same]
      rw [noted]
      exact cleared

/-- Releasing all the large blocks empties the ledger. -/
theorem Owns.ledger_nil (owns : Owns greatest records regions s) {pool : MpPool}
    (released : pool.released = s.pool.released ++ allocs s.pool.larges records) :
    ledger s.live [] s.pool pool = [] := by
  rw [ledger_released released]
  apply List.filter_eq_nil_iff.mpr
  intro p member
  have listed : p ∈ allocs s.pool.larges records := owns.live.mem_iff.mpr member
  simp [listed]

/-- `mp_reset_pool` returns, releases each large block in use and keeps the invariant. -/
theorem Owns.reset (owns : Owns greatest records regions s) :
    ∃ pool, Leaves (fun fuel => mpResetPool fuel s.pool) pool ∧
      Owns greatest [] [] ⟨pool, s.blocks, ledger s.live [] s.pool pool⟩ ∧
      pool.head = s.pool.head ∧
      pool.released = s.pool.released ++ allocs s.pool.larges records := by
  have first := freeLargePass_spec records s.pool owns.strung owns.inner
  rw [← owns.first] at first
  obtain ⟨nodes', leaves, result⟩ := resetPass_spec s.headers
    { s.pool with released := s.pool.released ++ allocs s.pool.larges records, large := 0 }
    owns.inv.linked owns.inv.inner owns.inv.distinct
  have released : ({ s.pool with
      released := s.pool.released ++ allocs s.pool.larges records
      large := 0
      nodes := nodes' } : MpPool).released =
    s.pool.released ++ allocs s.pool.larges records := rfl
  refine ⟨_, first.bind leaves, ?_, rfl, released⟩
  rw [owns.ledger_nil released]
  refine ⟨(owns.inv.reset result).idle rfl rfl rfl rfl rfl, owns.filled, rfl, trivial, ?_,
    List.nodup_nil, ?_, List.Perm.refl [], List.nodup_nil, ?_, owns.limit, fun _ => rfl⟩
  · exact fun r member => absurd member List.not_mem_nil
  · exact fun r member => absurd member List.not_mem_nil
  · exact fun p member => absurd member List.not_mem_nil

/-- `mp_destory_pool` returns and releases each large block in use, then the blocks behind the
first and then the pool itself. -/
theorem Owns.destory (owns : Owns greatest records regions s) :
    ∃ pool, Leaves (fun fuel => mpDestoryPool fuel s.pool) pool ∧
      pool.released = s.pool.released ++ allocs s.pool.larges records ++
        s.blocks.tail.map Block.base ++ [s.pool.addr] := by
  have first := freeLargePass_spec records s.pool owns.strung owns.inner
  rw [← owns.first] at first
  obtain ⟨next, below⟩ := owns.inv.linked
  have second := freeBlockPass_spec (s.blocks.tail.map Block.base)
    { s.pool with released := s.pool.released ++ allocs s.pool.larges records } below
    (fun h member => owns.inv.inner h (List.mem_cons_of_mem _ member))
  have start : (s.pool.nodes s.pool.head).next = (s.blocks.tail.map Block.base).headD 0 := next
  rw [← start] at second
  exact ⟨_, first.bind (second.map fun pool => pool.free pool.addr), rfl⟩

/-- The answer of `posix_memalign` to `mp_create_pool`, whatever the memory holds. -/
structure Answered (memory : MpPool) (size : UInt64) : Prop where
  /-- Aligned. -/
  aligned : memory.addr.toNat % 32 = 0
  /-- Not `NULL`. -/
  nonnull : memory.addr ≠ 0
  /-- One past the end is an address. -/
  ends : memory.addr.toNat + (poolSize size).toNat < 18446744073709551616

/-- The store after `mp_create_pool`. -/
def opened (memory : MpPool) (size : UInt64) : Store :=
  ⟨mpCreatePool memory size, [⟨memory.addr, poolSize size⟩], []⟩

/-- A created pool whose memory holds no `head->next` has no records. -/
theorem owns_opened {memory : MpPool} {size : UInt64} (answered : Answered memory size)
    (clear : (memory.nodes memory.head).next = 0)
    (fits : size.toNat + 56 < 18446744073709551616) :
    Owns (opened memory size).pool.max [] [] (opened memory size) := by
  have granted : Granted memory size :=
    ⟨answered.aligned, answered.nonnull, answered.ends, clear⟩
  have long : 0 < (poolSize size).toNat := by
    have node : sizeofNode.toNat = 32 := rfl
    have pool : sizeofPool.toNat = 24 := rfl
    unfold poolSize
    rw [UInt64.toNat_add, UInt64.toNat_add, node, pool]
    omega
  refine ⟨inv_created granted fits, ⟨poolSize size, [], rfl, long⟩, rfl, trivial, ?_,
    List.nodup_nil, ?_, List.Perm.refl [], List.nodup_nil, ?_, rfl, fun _ => rfl⟩
  · exact fun r member => absurd member List.not_mem_nil
  · exact fun r member => absurd member List.not_mem_nil
  · exact fun p member => absurd member List.not_mem_nil

/-- Every call that suits the store keeps the invariant. -/
theorem Owns.step (owns : Owns greatest records regions s) {call : Call} {s' : Store}
    (fed : ¬ Starving s call) (suits : Suits s call) (calls : Calls s call s') :
    ∃ records regions, Owns greatest records regions s' := by
  cases calls with
  | request granting returns =>
    rename_i request chunk block pool m
    have wide : request.large s.pool.max = true → sizeofLarge ≤ greatest := by
      intro large
      rw [← owns.limit]
      exact UInt64.not_lt.mp fun narrow => fed ⟨large, narrow⟩
    obtain ⟨pool, m, leaves, outcome⟩ := owns.call wide granting suits
    obtain ⟨rfl, rfl⟩ := Prod.mk.inj (returns.unique leaves)
    exact outcome.after granting
  | free returns =>
    obtain ⟨pool, leaves, kept, _⟩ := owns.free _
    obtain rfl := returns.unique leaves
    exact ⟨records, regions, kept⟩
  | reset returns =>
    obtain ⟨pool, leaves, kept, _⟩ := owns.reset
    obtain rfl := returns.unique leaves
    exact ⟨[], [], kept⟩

end BackendCpp.Mmpool
