import BackendCpp.Mmpool.Ledger

/-!
# The blocks of a pool

Every block that the pool took is on its chain once, in the order in which the blocks were
taken, and the search for a request begins on the chain. A pool whose blocks do not serve
the records of large blocks is one of these pools too: there a request for a large block
returns when `malloc` fails, and has changed nothing then. The one field that
`mp_create_pool` leaves as the memory held it decides whether the chain ends.
-/

namespace BackendCpp.Mmpool

open BackendCpp.Library

/-- What a user of any pool does. -/
inductive Use where
  /-- A call whose records the blocks serve. -/
  | call (call : Call)
  /-- A request for a large block whose record the blocks do not serve, with the answers of
  `malloc`. -/
  | starved (request : Request) (mallocs : List (Option UInt64))

/-- One use. -/
inductive Uses (s : Store) : Use → Store → Prop
  | call {call : Call} {s' : Store} (fed : ¬ Starving s call) (calls : Calls s call s') :
      Uses s (.call call) s'
  | starved {request : Request} {mallocs : List (Option UInt64)} {pool : MpPool} {m : UInt64}
      (large : request.large s.pool.max = true) (narrow : s.pool.max < sizeofLarge)
      (returns : Leaves (fun fuel => request.call fuel { s.pool with script := mallocs })
        (pool, m)) :
      Uses s (.starved request mallocs) ⟨pool, s.blocks, s.live⟩

/-- The condition on the state before a use. -/
def Allows (s : Store) : Use → Prop
  | .call call => Suits s call
  | .starved _ _ => True

/-- The chain of a pool is well formed. -/
structure Chained (s : Store) : Prop where
  /-- From the head on, `next` leads from each block to the one taken after it; the last has
  none. -/
  linked : Linked s.pool.nodes s.headers
  /-- Every block once. -/
  distinct : s.headers.Nodup
  /-- No block is at `NULL`. -/
  inner : ∀ h ∈ s.headers, h ≠ 0
  /-- The search begins at a block. -/
  searched : s.pool.current ∈ s.headers
  /-- After `mp_reset_pool` the free part of each block lies between the header and the end. -/
  reset : ∃ pool, Leaves (fun fuel => mpResetPool fuel s.pool) pool ∧
    ∀ h ∈ s.headers, h.toNat + sizeofNode.toNat ≤ (pool.nodes h).last.toNat ∧
      (pool.nodes h).last.toNat ≤ (pool.nodes h).stop.toNat

/-- Only what was given to `free`, and the answers left, may have changed in a pool. -/
def Untouched (pool pool' : MpPool) : Prop :=
  ∃ script released, pool' = { pool with script := script, released := released }

variable {greatest : UInt64} {s : Store} {records : List UInt64} {regions : List Region}

/-- A request for a large block whose record the blocks do not serve either does not return or
fails, and leaves the pool as it is. -/
theorem mpAllocLarge_starved {alloc : MpPool → UInt64 → Option (MpPool × UInt64)}
    (recurs : ∀ pool pool' m, pool.large = 0 → pool.max < sizeofLarge →
      alloc pool sizeofLarge = some (pool', m) → m = 0 ∧ Untouched pool pool')
    {fuel : Nat} {pool pool' : MpPool} {m : UInt64} (empty : pool.large = 0)
    (narrow : pool.max < sizeofLarge) (returned : mpAllocLarge alloc fuel pool = some (pool', m)) :
    m = 0 ∧ Untouched pool pool' := by
  cases given : pool.script.head?.join with
  | none =>
    simp only [mpAllocLarge, MpPool.obtain, given, Option.some.injEq, Prod.mk.injEq] at returned
    exact ⟨returned.2.symm, pool.script.tail, pool.released, returned.1.symm⟩
  | some p =>
    simp only [mpAllocLarge, MpPool.obtain, given] at returned
    cases fuel with
    | zero => cases returned
    | succ fuel =>
      have pass : emptyRecordPass { pool with script := pool.script.tail } (pool.large, 0) =
          .inr none := by
        simp [emptyRecordPass, empty]
      rw [loop_leave pass, Option.bind_some] at returned
      obtain ⟨result, served, noted⟩ := Option.map_eq_some_iff.mp returned
      obtain ⟨null, script, released, same⟩ :=
        recurs { pool with script := pool.script.tail } result.1 result.2 empty narrow served
      rw [null, noteLarge, if_pos rfl] at noted
      obtain ⟨rfl, rfl⟩ := Prod.mk.inj noted
      exact ⟨rfl, script, released ++ [p], by rw [same]; rfl⟩

/-- `mp_alloc` of a large block whose record the blocks do not serve. -/
theorem mpAlloc_starved (fuel : Nat) (size : UInt64) (pool pool' : MpPool) (m : UInt64)
    (empty : pool.large = 0) (narrow : pool.max < sizeofLarge) (large : pool.max < size)
    (returned : mpAlloc fuel pool size = some (pool', m)) : m = 0 ∧ Untouched pool pool' := by
  induction fuel generalizing pool pool' m size with
  | zero => cases returned
  | succ fuel ih =>
    have chosen : mpAlloc (fuel + 1) pool size = mpAllocLarge (mpAlloc fuel) (fuel + 1) pool :=
      if_neg (UInt64.not_le.mpr large)
    rw [chosen] at returned
    apply mpAllocLarge_starved _ empty narrow returned
    intro pool pool' m empty narrow returned
    exact ih sizeofLarge pool pool' m empty narrow narrow returned

/-- A request for a large block whose record the blocks do not serve leaves the pool as it is. -/
theorem starved_untouched {request : Request} {fuel : Nat} {pool pool' : MpPool} {m : UInt64}
    (empty : pool.large = 0) (narrow : pool.max < sizeofLarge)
    (large : request.large pool.max = true) (returned : request.call fuel pool = some (pool', m)) :
    m = 0 ∧ Untouched pool pool' := by
  cases request with
  | alloc size =>
    exact mpAlloc_starved fuel size pool pool' m empty narrow (of_decide_eq_true large) returned
  | nalloc size =>
    have chosen : mpNalloc fuel pool size = mpAllocLarge (mpAlloc fuel) fuel pool :=
      if_neg (UInt64.not_le.mpr (of_decide_eq_true large))
    apply mpAllocLarge_starved _ empty narrow (chosen.symm.trans returned)
    intro pool pool' m empty narrow returned
    exact mpAlloc_starved fuel sizeofLarge pool pool' m empty narrow narrow returned
  | calloc size =>
    obtain ⟨result, served, cleared⟩ := Option.map_eq_some_iff.mp returned
    obtain ⟨null, kept⟩ := mpAlloc_starved fuel size pool result.1 result.2 empty narrow
      (of_decide_eq_true large) served
    simp only [null, ne_eq, not_true_eq_false, if_false, Prod.mk.injEq] at cleared
    obtain ⟨rfl, rfl⟩ := cleared
    exact ⟨rfl, kept⟩
  | memalign =>
    cases given : pool.script.head?.join with
    | none =>
      simp only [Request.call, mpMemalign, MpPool.obtain, given, Option.some.injEq,
        Prod.mk.injEq] at returned
      exact ⟨returned.2.symm, pool.script.tail, pool.released, returned.1.symm⟩
    | some p =>
      simp only [Request.call, mpMemalign, MpPool.obtain, given] at returned
      obtain ⟨result, served, noted⟩ := Option.map_eq_some_iff.mp returned
      obtain ⟨null, script, released, same⟩ := mpAlloc_starved fuel sizeofLarge
        { pool with script := pool.script.tail } result.1 result.2 empty narrow narrow served
      rw [null, noteLarge, if_pos rfl] at noted
      obtain ⟨rfl, rfl⟩ := Prod.mk.inj noted
      exact ⟨rfl, script, released ++ [p], by rw [same]; rfl⟩

/-- Every use that is allowed keeps the invariant. -/
theorem Owns.use (owns : Owns greatest records regions s) {use : Use} {s' : Store}
    (allows : Allows s use) (uses : Uses s use s') :
    ∃ records regions, Owns greatest records regions s' := by
  cases uses with
  | call fed calls => exact owns.step fed allows calls
  | starved large narrow returns =>
    rename_i request mallocs pool m
    have none : records = [] := owns.narrow (owns.limit ▸ narrow)
    have empty : s.pool.large = 0 := by
      rw [owns.first, none]
      rfl
    obtain ⟨fuel, returned⟩ := returns.exists_fuel
    obtain ⟨_, script, released, same⟩ := @starved_untouched request fuel
      { s.pool with script := mallocs } pool m empty narrow large returned
    rw [same]
    exact ⟨records, regions, owns.idle s.pool.bytes script released⟩

/-- What holds in every store that allowed uses lead to. -/
theorem owns_uses {memory : MpPool} {size : UInt64} {trace : List Use}
    (answered : Answered memory size) (clear : (memory.nodes memory.head).next = 0)
    (fits : size.toNat + 56 < 18446744073709551616)
    (run : Run (fun s use s' => Allows s use ∧ Uses s use s') (opened memory size) trace s) :
    ∃ records regions, Owns (opened memory size).pool.max records regions s := by
  refine run.invariant
    (fun s => ∃ records regions, Owns (opened memory size).pool.max records regions s)
    ⟨[], [], owns_opened answered clear fits⟩ ?_
  intro state use next holds taken
  obtain ⟨records, regions, owns⟩ := holds
  exact owns.use taken.1 taken.2

/-- The invariant gives a well-formed chain. -/
theorem Owns.chained (owns : Owns greatest records regions s) : Chained s := by
  refine ⟨owns.inv.linked, owns.inv.distinct, owns.inv.inner, owns.inv.searched, ?_⟩
  obtain ⟨pool, leaves, kept, head, _⟩ := owns.reset
  have room := kept.inv.room
  unfold Store.headers at room
  rw [head] at room
  exact ⟨pool, leaves, room⟩

/-- Every run that is allowed, of a pool whose size does not wrap, keeps the chain well formed
exactly when the memory of the pool held `NULL` for `head->next`. -/
theorem chained_iff {memory : MpPool} {size : UInt64} (answered : Answered memory size)
    (fits : size.toNat + 56 < 18446744073709551616) :
    (∀ trace s, Run (fun s use s' => Allows s use ∧ Uses s use s') (opened memory size) trace s →
      Chained s) ↔ (memory.nodes memory.head).next = 0 := by
  constructor
  · intro chained
    have start := (chained [] _ Run.nil).linked.1
    have written : (opened memory size).pool.nodes memory.head =
        ⟨memory.addr + sizeofPool + sizeofNode, memory.addr + sizeofPool + sizeofNode + size,
          (memory.nodes memory.head).next, 0⟩ := Function.update_self ..
    change ((opened memory size).pool.nodes memory.head).next = 0 at start
    rw [written] at start
    exact start
  · intro clear trace s run
    obtain ⟨records, regions, owns⟩ := owns_uses answered clear fits run
    exact owns.chained

/-- Calls whose records the blocks serve are uses. -/
theorem uses_of_calls {start s : Store} {trace : List Call}
    (run : Run (fun s call s' => (¬ Starving s call ∧ Suits s call) ∧ Calls s call s') start trace s) :
    Run (fun s use s' => Allows s use ∧ Uses s use s') start (trace.map Use.call) s := by
  induction run with
  | nil => exact Run.nil
  | snoc _ taken ih =>
    rw [List.map_append]
    exact ih.snoc ⟨taken.1.2, Uses.call taken.1.1 taken.2⟩

/-- With two blocks and a large block the chain of a pool of size 104 is well formed. -/
theorem chained_iff_mixed : ∃ s, Run (fun s use s' => Allows s use ∧ Uses s use s')
    (opened blankMemory 104) (mixed.map Use.call) s ∧ s.headers = [4120, 8192] ∧ s.live = [50000] ∧
    Chained s := by
  have answered : Answered blankMemory 104 := ⟨by decide, by decide, by decide⟩
  obtain ⟨s, calls, headers, live, -⟩ := mixed_run
  have run := uses_of_calls calls
  exact ⟨s, run, headers, live, (chained_iff answered (by decide)).mpr rfl _ _ run⟩

/-- In a memory that held a pointer the chain of a new pool goes on behind its only block. -/
theorem unchained : ∃ s, Answered staleMemory 64 ∧
    Run Uses (opened staleMemory 64) [] s ∧ s.headers = [4120] ∧
    (s.pool.nodes 4120).next = 8192 ∧ ¬ Chained s := by
  refine ⟨opened staleMemory 64, ⟨by decide, by decide, by decide⟩, Run.nil, by decide, by decide,
    ?_⟩
  intro chained
  have ends := chained.linked.1
  exact absurd ends (by decide)

end BackendCpp.Mmpool
