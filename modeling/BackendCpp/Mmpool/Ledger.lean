import BackendCpp.Mmpool.Accounts

/-!
# The ledger of large blocks

The records of a pool note exactly the large blocks that were handed out and not released:
over any mix of requests, releases and resets, with records that are used again, and with
requests that fail half way. Memory in which `head->next` is not `NULL` breaks this at the
end, as `mp_destory_pool` follows it.
-/

namespace BackendCpp.Mmpool

open BackendCpp.Library

/-- The large blocks of a store are accounted for, and its next calls release what they should. -/
structure Accounted (s : Store) : Prop where
  /-- The non-`NULL` `alloc` fields on the list are distinct, and are the large blocks in use. -/
  listed : ∃ records, s.pool.large = records.headD 0 ∧ Strung s.pool.larges records ∧
    (∀ r ∈ records, r ≠ 0) ∧ (allocs s.pool.larges records).Nodup ∧
    ∀ p, p ∈ allocs s.pool.larges records ↔ p ∈ s.live
  /-- `mp_free` releases a large block in use and nothing else. -/
  freed : ∀ p, ∃ pool, Leaves (fun fuel => mpFree fuel s.pool p) pool ∧ Freed s p pool
  /-- A request returns; one that fails leaves the ledger as it is and leaks no block. -/
  requested : ∀ request chunk block, Granting s request chunk block → Finds s request chunk →
    ∃ pool m, Leaves (fun fuel => request.call fuel (s.given request chunk block)) (pool, m) ∧
      (m = 0 → (s.after request block pool m).live = s.live ∧
        (s.after request block pool m).blocks = s.blocks ∧
        pool.released = s.pool.released ++
          (if request.large s.pool.max then chunk else none).toList)
  /-- `mp_reset_pool` releases each large block in use once, and nothing else. -/
  reset : ∃ pool gone, Leaves (fun fuel => mpResetPool fuel s.pool) pool ∧
    pool.released = s.pool.released ++ gone ∧ gone.Perm s.live
  /-- `mp_destory_pool` releases each large block in use once. -/
  destroyed : ∃ pool gone, Leaves (fun fuel => mpDestoryPool fuel s.pool) pool ∧
    pool.released = s.pool.released ++ gone ∧ ∀ p ∈ s.live, gone.count p = 1

variable {greatest : UInt64} {s : Store} {records : List UInt64} {regions : List Region}

/-- A large block in use begins in no block. -/
theorem Owns.not_base (owns : Owns greatest records regions s) {p : UInt64} (member : p ∈ s.live)
    {h : UInt64} (inChain : h ∈ s.headers) : p ≠ h := by
  intro same
  obtain ⟨block, listed, low, high⟩ := owns.inv.backed h inChain
  have room := owns.inv.room h inChain
  have outside := owns.outside p member block listed
  rw [same] at outside
  omega

/-- The invariant gives what the caller relies on. -/
theorem Owns.accounted (owns : Owns greatest records regions s) (wide : sizeofLarge ≤ greatest) :
    Accounted s := by
  have once : (allocs s.pool.larges records).Nodup := owns.live.nodup_iff.mpr owns.once
  constructor
  · exact ⟨records, owns.first, owns.strung, owns.inner, once, fun p => owns.live.mem_iff⟩
  · intro p
    obtain ⟨pool, leaves, _, freed⟩ := owns.free p
    exact ⟨pool, leaves, freed⟩
  · intro request chunk block granting finds
    obtain ⟨pool, m, leaves, outcome⟩ := owns.call (fun _ => wide) granting finds
    refine ⟨pool, m, leaves, fun null => ?_⟩
    obtain ⟨untaken, released⟩ := outcome.failed null
    refine ⟨?_, ?_, released⟩
    · rw [Store.after, ledger_same released]
      · simp [null]
      · intro p member
        simp only [null, ne_eq, not_true_eq_false, and_false, if_false, List.nil_append]
        split at member
        · rename_i large
          exact (granting.unused large p (Option.mem_toList.mp member)).new
        · exact absurd member (by simp)
    · simp [Store.after, untaken]
  · obtain ⟨pool, leaves, _, _, released⟩ := owns.reset
    exact ⟨pool, _, leaves, released, owns.live⟩
  · obtain ⟨pool, leaves, released⟩ := owns.destory
    refine ⟨pool, _, leaves, by rw [released, List.append_assoc, List.append_assoc], ?_⟩
    intro p member
    have behind : p ∉ s.blocks.tail.map Block.base := by
      intro listed
      exact owns.not_base member (List.mem_cons_of_mem _ listed) rfl
    have itself : p ≠ s.pool.addr := by
      intro same
      obtain ⟨length, rest, whole, long⟩ := owns.filled
      have outside := owns.outside p member ⟨s.pool.addr, length⟩ (by simp [whole])
      rw [same] at outside
      dsimp only at outside
      omega
    have inUse : p ∈ allocs s.pool.larges records := owns.live.mem_iff.mpr member
    rw [List.count_append, List.count_append, List.count_eq_one_of_mem once inUse,
      List.count_eq_zero_of_not_mem behind, List.count_singleton]
    simp [Ne.symm itself]

/-- What holds in every store that calls which suit lead to. -/
theorem owns_calls {memory : MpPool} {size : UInt64} {trace : List Call}
    (answered : Answered memory size) (clear : (memory.nodes memory.head).next = 0)
    (fits : size.toNat + 56 < 18446744073709551616)
    (wide : sizeofLarge ≤ (opened memory size).pool.max)
    (run : Run (fun s call s' => Suits s call ∧ Calls s call s') (opened memory size) trace s) :
    ∃ records regions, Owns (opened memory size).pool.max records regions s := by
  refine run.invariant
    (fun s => ∃ records regions, Owns (opened memory size).pool.max records regions s)
    ⟨[], [], owns_opened answered clear fits⟩ ?_
  intro state call next holds taken
  obtain ⟨records, regions, owns⟩ := holds
  apply owns.step _ taken.1 taken.2
  intro starving
  cases call with
  | request request chunk block m =>
    have narrow := starving.2
    rw [owns.limit] at narrow
    exact absurd wide (UInt64.not_le.mpr narrow)
  | free p => exact starving
  | reset => exact starving

/-- In every run of a pool that serves records, whose memory held no `head->next`, whose size does
not wrap and whose calls suit the store, the large blocks are accounted for. -/
theorem run_accounted {memory : MpPool} {size : UInt64} {trace : List Call}
    (answered : Answered memory size) (clear : (memory.nodes memory.head).next = 0)
    (fits : size.toNat + 56 < 18446744073709551616)
    (wide : sizeofLarge ≤ (opened memory size).pool.max)
    (run : Run (fun s call s' => Suits s call ∧ Calls s call s') (opened memory size) trace s) :
    Accounted s := by
  obtain ⟨records, regions, owns⟩ := owns_calls answered clear fits wide run
  exact owns.accounted wide

/-- What `mp_free` left under one fuel is the result. -/
theorem leaves_mpFree {fuel : Nat} {pool after : MpPool} {p : UInt64}
    (returned : mpFree fuel pool p = some after) :
    Leaves (fun fuel => mpFree fuel pool p) after := by
  obtain ⟨found, walked, rfl⟩ := Option.map_eq_some_iff.mp returned
  exact (leaves_of_loop walked).map _

/-- What a request returned under one fuel is the result. -/
theorem leaves_call {request : Request} {fuel : Nat} {pool : MpPool} {result : MpPool × UInt64}
    (returned : request.call fuel pool = some result) :
    Leaves (fun fuel => request.call fuel pool) result := by
  cases request with
  | alloc size => exact leaves_mpAlloc returned
  | nalloc size => exact leaves_mpNalloc returned
  | calloc size => exact leaves_mpCalloc returned
  | memalign =>
    cases answered : pool.obtain with
    | mk answer after =>
      cases answer with
      | none =>
        simp only [Request.call, mpMemalign, answered] at returned ⊢
        exact Leaves.of_forall fun _ => returned
      | some p =>
        simp only [Request.call, mpMemalign, answered] at returned ⊢
        obtain ⟨served, given, rfl⟩ := Option.map_eq_some_iff.mp returned
        exact (leaves_mpAlloc given).map _

instance (s : Store) (p : UInt64) : Decidable (Chunk s p) :=
  decidable_of_iff (p ≠ 0 ∧ p ∉ s.live ∧ ∀ block ∈ s.blocks, p.toNat < block.base.toNat ∨
      block.base.toNat + block.length.toNat ≤ p.toNat)
    ⟨fun ⟨nonnull, new, outside⟩ => ⟨nonnull, new, outside⟩,
      fun chunk => ⟨chunk.nonnull, chunk.new, chunk.outside⟩⟩

/-- The test for the answers to a request. -/
def grants (s : Store) (chunk block : Option UInt64) : Bool :=
  chunk.all (Chunk s ·) && block.all fun a =>
    decide (Usable ⟨s.pool, s.blocks, []⟩ a) && (s.live ++ chunk.toList).all fun p =>
      p.toNat < a.toNat ∨ a.toNat + (psize s.pool).toNat ≤ p.toNat

/-- Tested answers may be given. -/
theorem granting_of_grants {s : Store} {chunk block : Option UInt64} (request : Request)
    (tested : grants s chunk block = true) : Granting s request chunk block := by
  obtain ⟨unused, usable⟩ := (Bool.and_eq_true _ _).mp tested
  refine ⟨?_, ?_, ?_⟩
  · intro _ p given
    rw [given] at unused
    exact of_decide_eq_true unused
  · intro a given
    rw [given] at usable
    exact of_decide_eq_true ((Bool.and_eq_true _ _).mp usable).1
  · intro a given p inUse
    rw [given] at usable
    apply of_decide_eq_true
    apply List.all_eq_true.mp ((Bool.and_eq_true _ _).mp usable).2 p
    rcases inUse with old | ⟨_, new⟩
    · exact List.mem_append_left _ old
    · exact List.mem_append_right _ (Option.mem_toList.mpr new)

/-- Execute a call under a fuel. -/
def Call.exec (fuel : Nat) (s : Store) : Call → Option Store
  | .request asked chunk block m =>
    if grants s chunk block then
      (asked.call fuel (s.given asked chunk block)).bind fun (pool, m') =>
        if m' = m then some (s.after asked block pool m) else none
    else none
  | .free p => (mpFree fuel s.pool p).map fun pool => ⟨pool, s.blocks, ledger s.live [] s.pool pool⟩
  | .reset => (mpResetPool fuel s.pool).map fun pool =>
    ⟨pool, s.blocks, ledger s.live [] s.pool pool⟩

/-- A call that was executed is one. -/
theorem calls_of_exec {fuel : Nat} {s s' : Store} {call : Call}
    (done : call.exec fuel s = some s') : Calls s call s' := by
  cases call with
  | request request chunk block m =>
    obtain ⟨tested, done⟩ := Option.ite_none_right_eq_some.mp done
    obtain ⟨⟨pool, m'⟩, returned, done⟩ := Option.bind_eq_some_iff.mp done
    obtain ⟨rfl, done⟩ := Option.ite_none_right_eq_some.mp done
    rw [← Option.some.inj done]
    exact Calls.request (granting_of_grants request tested) (leaves_call returned)
  | free p =>
    obtain ⟨pool, returned, rfl⟩ := Option.map_eq_some_iff.mp done
    exact Calls.free (leaves_mpFree returned)
  | reset =>
    obtain ⟨pool, returned, rfl⟩ := Option.map_eq_some_iff.mp done
    exact Calls.reset (leaves_mpResetPool returned)

/-- In a clear pool every call suits the store. -/
theorem Clear.suits {s : Store} (clear : Clear s.pool s.blocks) (call : Call) : Suits s call := by
  have roomy : ∀ size, s.Roomy size := fun size =>
    Clear.roomy (w := ⟨s.pool, s.blocks, []⟩) clear size
  cases call with
  | request request chunk block m =>
    cases request with
    | alloc size =>
      change if size ≤ s.pool.max then s.Roomy size else s.RecordRoomy chunk
      split
      · exact roomy size
      · exact fun _ _ => roomy sizeofLarge
    | nalloc size => exact Or.inr fun _ _ => roomy sizeofLarge
    | calloc size =>
      change if size ≤ s.pool.max then s.Roomy size else s.RecordRoomy chunk
      split
      · exact roomy size
      · exact fun _ _ => roomy sizeofLarge
    | memalign => exact fun _ => roomy sizeofLarge
  | free p => trivial
  | reset => trivial

/-- Large blocks, a further block of the pool, a large block that is released and whose record is
used again, and a reset. -/
def mixed : List Call :=
  [.request (.alloc 200) (some 20000) none 20000, .request (.alloc 80) none (some 8192) 8224,
    .request .memalign (some 30000) none 30000, .free 20000,
    .request (.calloc 300) (some 40000) none 40000, .request (.nalloc 10) none none 4208, .reset,
    .request .memalign (some 50000) none 50000]

/-- The calls can be made of a pool of size 104, and leave two blocks and one large block. -/
theorem mixed_run : ∃ s, Run (fun s call s' => (¬ Starving s call ∧ Suits s call) ∧ Calls s call s')
    (opened blankMemory 104) mixed s ∧ s.headers = [4120, 8192] ∧ s.live = [50000] ∧
    s.pool.released = [20000, 30000, 40000] := by
  have ends : (mixed.foldlM (fun s call => if sizeofLarge ≤ s.pool.max ∧ Clear s.pool s.blocks then
      call.exec 9 s else none) (opened blankMemory 104)).any (fun s : Store =>
        s.headers = [4120, 8192] ∧ s.live = [50000] ∧
        s.pool.released = [20000, 30000, 40000]) = true := by
    decide +kernel
  obtain ⟨s, done, facts⟩ := (Option.any_eq_true _ _).mp ends
  refine ⟨s, (Run.of_tested done).mono ?_, of_decide_eq_true facts⟩
  intro s call s' taken
  refine ⟨⟨?_, taken.2.2.suits call⟩, calls_of_exec taken.1⟩
  intro starving
  cases call with
  | request request chunk block m => exact absurd taken.2.1 (UInt64.not_le.mpr starving.2)
  | free p => exact starving
  | reset => exact starving

/-- The large block that is in use at the end is accounted for. -/
theorem run_accounted_mixed : ∃ s, Run (fun s call s' => Suits s call ∧ Calls s call s')
    (opened blankMemory 104) mixed s ∧ s.live = [50000] ∧ Accounted s := by
  have answered : Answered blankMemory 104 := ⟨by decide, by decide, by decide⟩
  obtain ⟨s, calls, -, live, -⟩ := mixed_run
  have run := calls.mono fun _ _ _ taken => And.intro taken.1.2 taken.2
  exact ⟨s, run, live, run_accounted answered rfl (by decide) (by decide) run⟩

/-- A memory that held a pointer to 8192 where `posix_memalign` now puts `head->next`. -/
def staleMemory : MpPool :=
  { blankMemory with nodes := fun h => if h = 4120 then ⟨0, 0, 8192, 0⟩ else ⟨0, 0, 0, 0⟩ }

/-- The pool of size 64 in that memory, after a large block at 8192 was noted. -/
def stalePool : MpPool :=
  { ({ (opened staleMemory 64).pool with script := [none] } : MpPool).setNode 4120
      ⟨4160 + 16, 4216, 8192, 0⟩ with
    large := 4160
    larges := Function.update (opened staleMemory 64).pool.larges 4160 ⟨0, 8192⟩ }

/-- In a memory that held a pointer, `mp_destory_pool` frees the large block twice: as a large block
and as the block after the first. -/
theorem run_unaccounted : ∃ s, Answered staleMemory 64 ∧
    sizeofLarge ≤ (opened staleMemory 64).pool.max ∧
    Run Calls (opened staleMemory 64) [.request .memalign (some 8192) none 8192] s ∧
    s.live = [8192] ∧
    (∃ pool, Leaves (fun fuel => mpDestoryPool fuel s.pool) pool ∧
      pool.released = s.pool.released ++ [8192, 8192, 4096]) ∧ ¬ Accounted s := by
  have answered : Answered staleMemory 64 := ⟨by decide, by decide, by decide⟩
  have unused : Chunk (opened staleMemory 64) 8192 := by
    refine ⟨by decide, List.not_mem_nil, ?_⟩
    intro block listed
    rw [List.mem_singleton.mp listed]
    decide
  have granting : Granting (opened staleMemory 64) .memalign (some 8192) none := by
    refine ⟨?_, fun a wrong => (nomatch wrong), fun a wrong => (nomatch wrong)⟩
    intro _ p same
    rw [← Option.some.inj same]
    exact unused
  have place : mpAlignPtr ((opened staleMemory 64).pool.nodes 4120).last MP_ALIGNMENT = 4160 := by
    decide
  have test : ((opened staleMemory 64).pool.nodes 4120).stop - 4160 ≥ sizeofLarge := by decide
  have current : (opened staleMemory 64).pool.current = 4120 := by decide
  have pass : searchPass (mpAlignPtr · MP_ALIGNMENT)
      { (opened staleMemory 64).pool with script := [none] } sizeofLarge
      (opened staleMemory 64).pool.current = .inr (some (4120, 4160)) := by
    unfold searchPass
    dsimp only
    rw [current, place, if_pos test]
  have returns : Leaves (fun fuel => Request.call .memalign fuel
      ((opened staleMemory 64).given .memalign (some 8192) none)) (stalePool, 8192) := by
    refine ⟨1, fun fuel enough => ?_⟩
    obtain ⟨less, rfl⟩ : ∃ less, fuel = less + 1 := ⟨fuel - 1, by omega⟩
    have small : sizeofLarge ≤ (opened staleMemory 64).pool.max := by decide
    have served : mpAlloc (less + 1) { (opened staleMemory 64).pool with script := [none] }
        sizeofLarge = some (({ (opened staleMemory 64).pool with script := [none] } :
          MpPool).setNode 4120 ⟨4160 + 16, 4216, 8192, 0⟩, 4160) := by
      simp only [mpAlloc, if_pos small, allocSmall, loop_leave pass, Option.bind_some]
      rfl
    exact congrArg (Option.map fun result => noteLarge result.1 result.2 8192) served
  have last : (stalePool.larges 4160).next = 0 := by decide
  have alone : (stalePool.nodes 8192).next = 0 := by decide
  have nonnull : (4160 : UInt64) ≠ 0 ∧ (8192 : UInt64) ≠ 0 := by decide
  have first := freeLargePass_spec [4160] stalePool ⟨last, trivial⟩
    fun r member => List.mem_singleton.mp member ▸ nonnull.1
  have second := freeBlockPass_spec [8192] { stalePool with released := [8192] } ⟨alone, trivial⟩
    fun h member => List.mem_singleton.mp member ▸ nonnull.2
  have destroyed : Leaves (fun fuel => mpDestoryPool fuel stalePool)
      { stalePool with released := [8192, 8192, 4096] } :=
    first.bind (second.map fun pool => pool.free pool.addr)
  refine ⟨_, answered, by decide, Run.nil.snoc (Calls.request granting returns), rfl,
    ⟨_, destroyed, rfl⟩, ?_⟩
  intro accounted
  obtain ⟨pool, gone, leaves, released, once⟩ := accounted.destroyed
  have same := leaves.unique destroyed
  rw [same] at released
  have listed : [8192, 8192, 4096] = gone := released
  have twice := once 8192 (by decide)
  rw [← listed] at twice
  exact absurd twice (by decide)

end BackendCpp.Mmpool
