import BackendCpp.Mmpool.Blocks

/-!
# The recursion between mp_alloc and mp_alloc_large

A large block needs a record, and `mp_alloc` serves it from the blocks when their greatest
size allows it: then the recursion is one call deep. When it does not, the record needs a
large block of its own, and so on for as long as `malloc` goes on answering. The answers of
the allocator are a stream here, so that a call that goes on asking is not cut short.
-/

namespace BackendCpp.Mmpool

open BackendCpp.Library

/-- The beginning of a stream of answers, longer than a call with this fuel can use up. -/
def answersUpTo (answers : Nat → Option UInt64) (fuel : Nat) : List (Option UInt64) :=
  (List.range (fuel + 2)).map answers

/-- The call returns when the allocator answers in this way. -/
def Terminates (request : Request) (pool : MpPool) (answers : Nat → Option UInt64) : Prop :=
  ∃ bound, ∀ fuel, bound ≤ fuel →
    request.call fuel { pool with script := answersUpTo answers fuel } ≠ none

/-- What `posix_memalign` answers for a further block is memory that it may give. -/
def Promised (s : Store) (request : Request) (answers : Nat → Option UInt64) : Prop :=
  (request.large s.pool.max = true → sizeofLarge ≤ s.pool.max) →
    ∀ a, answers (if request.large s.pool.max then 1 else 0) = some a →
      Usable ⟨s.pool, s.blocks, []⟩ a

/-- Every request returns, however the allocator answers. -/
def Returning (s : Store) : Prop :=
  ∀ request answers, Promised s request answers → Terminates request s.pool answers

variable {greatest : UInt64} {s : Store} {records : List UInt64} {regions : List Region}
  {request : Request} {answers : Nat → Option UInt64}

/-- The first two answers of a stream. -/
theorem answersUpTo_eq (answers : Nat → Option UInt64) (fuel : Nat) :
    ∃ rest, answersUpTo answers fuel = answers 0 :: answers 1 :: rest := by
  refine ⟨(List.range fuel).map (answers ∘ Nat.succ ∘ Nat.succ), ?_⟩
  simp [answersUpTo, List.range_succ_eq_map, List.map_map, Function.comp_def]

/-- What the blocks serve returns. -/
theorem Inv.returns {chain : List UInt64} {w : World} (inv : Inv chain w)
    (start : UInt64 → UInt64) {size : UInt64} (small : size ≤ w.pool.max)
    {answer : Option UInt64} (usable : ∀ a, answer = some a → Usable w a) :
    ∃ result, Leaves (fun fuel => allocSmall start fuel (w.pool.answering answer) size) result := by
  obtain ⟨before, rest, split⟩ := List.append_of_mem inv.searched
  have linked := inv.linked
  rw [split] at linked
  obtain ⟨result, leaves, _⟩ := searchPass_spec start w.pool size rest w.pool.current
    linked.suffix (fun h listed => inv.inner h (by rw [split]; simp [listed])) Visited.current
  have same : searchPass start (w.pool.answering answer) size =
      searchPass start w.pool size := rfl
  unfold allocSmall
  simp only [same]
  cases result with
  | none =>
    obtain ⟨pool, m, returns, _⟩ := mpAllocBlock_spec inv small answer usable true
    exact ⟨(pool, m), leaves.bind returns⟩
  | some place => exact ⟨_, leaves.bind (Leaves.of_forall fun _ => rfl)⟩

/-- What the blocks serve returns, whatever answers follow. -/
theorem Owns.small_returns (owns : Owns greatest records regions s) (start : UInt64 → UInt64)
    {size : UInt64} (small : size ≤ s.pool.max) {answer : Option UInt64}
    (usable : ∀ a, answer = some a → Usable ⟨s.pool, s.blocks, []⟩ a) :
    ∃ bound, ∀ fuel, bound ≤ fuel → ∀ rest,
      allocSmall start fuel { s.pool with script := answer :: rest } size ≠ none := by
  have usable' : ∀ a, answer = some a → Usable (s.world regions) a := by
    intro a given
    obtain ⟨nonnull, aligned, ends, apart⟩ := usable a given
    exact ⟨nonnull, aligned, ends, apart⟩
  obtain ⟨result, bound, returns⟩ := owns.inv.returns start small usable'
  refine ⟨bound, fun fuel enough rest => ?_⟩
  have dressed := allocSmall_dressed fuel (s.world regions).pool s.pool rest start answer size
  have here : allocSmall start fuel ((s.world regions).pool.answering answer) size =
      some result := returns fuel enough
  rw [here] at dressed
  change allocSmall start fuel (((s.world regions).pool.answering answer).dressed s.pool rest)
    size ≠ none
  rw [dressed]
  exact Option.some_ne_none _

/-- `mp_alloc` of what the blocks serve returns. -/
theorem Owns.alloc_returns (owns : Owns greatest records regions s)
    {size : UInt64} (small : size ≤ s.pool.max) {answer : Option UInt64}
    (usable : ∀ a, answer = some a → Usable ⟨s.pool, s.blocks, []⟩ a) :
    ∃ bound, ∀ fuel, bound ≤ fuel → ∀ rest,
      mpAlloc fuel { s.pool with script := answer :: rest } size ≠ none := by
  obtain ⟨bound, returns⟩ := owns.small_returns (mpAlignPtr · MP_ALIGNMENT) small usable
  refine ⟨bound + 1, fun fuel enough rest => ?_⟩
  obtain ⟨less, rfl⟩ : ∃ less, fuel = less + 1 := ⟨fuel - 1, by omega⟩
  have chosen : mpAlloc (less + 1) { s.pool with script := answer :: rest } size =
      allocSmall (mpAlignPtr · MP_ALIGNMENT) (less + 1)
        { s.pool with script := answer :: rest } size := if_pos small
  rw [chosen]
  exact returns (less + 1) (by omega) rest

/-- `mp_alloc_large` returns in a pool whose blocks serve records. -/
theorem Owns.large_returns (owns : Owns greatest records regions s)
    (wide : sizeofLarge ≤ s.pool.max) (chunk : Option UInt64) {answer : Option UInt64}
    (usable : ∀ a, answer = some a → Usable ⟨s.pool, s.blocks, []⟩ a) :
    ∃ bound, ∀ f g, bound ≤ f → bound ≤ g → ∀ rest,
      mpAllocLarge (mpAlloc f) g { s.pool with script := chunk :: answer :: rest } ≠ none := by
  cases chunk with
  | none => exact ⟨0, fun _ _ _ _ _ => Option.some_ne_none _⟩
  | some p =>
    obtain ⟨result, ⟨bound, walks⟩, _⟩ :=
      emptyRecordPass_spec s.pool records 0 owns.strung owns.inner
    obtain ⟨bound', returns⟩ := owns.alloc_returns wide usable
    refine ⟨Nat.max bound bound', fun f g enough enough' rest => ?_⟩
    have walk : loop (emptyRecordPass { s.pool with script := answer :: rest }) g
        (s.pool.large, 0) = some result := by
      rw [owns.first]
      exact walks g (le_trans (Nat.le_max_left _ _) enough')
    simp only [mpAllocLarge, MpPool.obtain, List.head?_cons, Option.join_some, List.tail_cons, walk,
      Option.bind_some]
    cases result with
    | some r => exact Option.some_ne_none _
    | none =>
      have served := returns f (le_trans (Nat.le_max_right _ _) enough) rest
      intro failed
      exact served (Option.map_eq_none_iff.mp failed)

/-- `mp_alloc` returns in a pool whose blocks serve records. -/
theorem Owns.alloc_terminates (owns : Owns greatest records regions s)
    (wide : sizeofLarge ≤ s.pool.max) {size : UInt64}
    (usable : ∀ a, answers (if s.pool.max < size then 1 else 0) = some a →
      Usable ⟨s.pool, s.blocks, []⟩ a) :
    ∃ bound, ∀ fuel, bound ≤ fuel → ∀ more,
      mpAlloc fuel { s.pool with script := answersUpTo answers more } size ≠ none := by
  by_cases small : size ≤ s.pool.max
  · rw [if_neg (UInt64.not_lt.mpr small)] at usable
    obtain ⟨bound, returns⟩ := owns.alloc_returns small usable
    refine ⟨bound, fun fuel enough more => ?_⟩
    obtain ⟨rest, begins⟩ := answersUpTo_eq answers more
    rw [begins]
    exact returns fuel enough _
  · rw [if_pos (UInt64.not_le.mp small)] at usable
    obtain ⟨bound, returns⟩ := owns.large_returns wide (answers 0) usable
    refine ⟨bound + 1, fun fuel enough more => ?_⟩
    obtain ⟨less, rfl⟩ : ∃ less, fuel = less + 1 := ⟨fuel - 1, by omega⟩
    obtain ⟨rest, begins⟩ := answersUpTo_eq answers more
    have chosen : mpAlloc (less + 1) { s.pool with script := answersUpTo answers more } size =
        mpAllocLarge (mpAlloc less) (less + 1)
          { s.pool with script := answersUpTo answers more } := if_neg small
    rw [chosen, begins]
    exact returns less (less + 1) (by omega) (by omega) rest

/-- `mp_nalloc` returns in a pool whose blocks serve records. -/
theorem Owns.nalloc_terminates (owns : Owns greatest records regions s)
    (wide : sizeofLarge ≤ s.pool.max) {size : UInt64}
    (usable : ∀ a, answers (if s.pool.max < size then 1 else 0) = some a →
      Usable ⟨s.pool, s.blocks, []⟩ a) :
    ∃ bound, ∀ fuel, bound ≤ fuel → ∀ more,
      mpNalloc fuel { s.pool with script := answersUpTo answers more } size ≠ none := by
  by_cases small : size ≤ s.pool.max
  · rw [if_neg (UInt64.not_lt.mpr small)] at usable
    obtain ⟨bound, returns⟩ := owns.small_returns id small usable
    refine ⟨bound, fun fuel enough more => ?_⟩
    obtain ⟨rest, begins⟩ := answersUpTo_eq answers more
    have chosen : mpNalloc fuel { s.pool with script := answersUpTo answers more } size =
        allocSmall id fuel { s.pool with script := answersUpTo answers more } size := if_pos small
    rw [chosen, begins]
    exact returns fuel enough _
  · rw [if_pos (UInt64.not_le.mp small)] at usable
    obtain ⟨bound, returns⟩ := owns.large_returns wide (answers 0) usable
    refine ⟨bound, fun fuel enough more => ?_⟩
    obtain ⟨rest, begins⟩ := answersUpTo_eq answers more
    have chosen : mpNalloc fuel { s.pool with script := answersUpTo answers more } size =
        mpAllocLarge (mpAlloc fuel) fuel { s.pool with script := answersUpTo answers more } :=
      if_neg small
    rw [chosen, begins]
    exact returns fuel fuel enough enough rest

/-- Every request returns in a pool whose blocks serve records. -/
theorem Owns.returning (owns : Owns greatest records regions s)
    (wide : sizeofLarge ≤ s.pool.max) : Returning s := by
  intro request answers promised
  have granted := promised fun _ => wide
  cases request with
  | alloc size =>
    simp only [Request.large, decide_eq_true_eq] at granted
    obtain ⟨bound, returns⟩ := owns.alloc_terminates wide granted
    exact ⟨bound, fun fuel enough => returns fuel enough fuel⟩
  | nalloc size =>
    simp only [Request.large, decide_eq_true_eq] at granted
    obtain ⟨bound, returns⟩ := owns.nalloc_terminates wide granted
    exact ⟨bound, fun fuel enough => returns fuel enough fuel⟩
  | calloc size =>
    simp only [Request.large, decide_eq_true_eq] at granted
    obtain ⟨bound, returns⟩ := owns.alloc_terminates wide granted
    refine ⟨bound, fun fuel enough failed => ?_⟩
    exact returns fuel enough fuel (Option.map_eq_none_iff.mp failed)
  | memalign =>
    simp only [Request.large, if_true] at granted
    obtain ⟨bound, returns⟩ := owns.alloc_returns wide granted
    refine ⟨bound, fun fuel enough => ?_⟩
    obtain ⟨rest, begins⟩ := answersUpTo_eq answers fuel
    rw [begins]
    cases given : answers 0 with
    | none => exact Option.some_ne_none _
    | some p =>
      intro failed
      exact returns fuel enough rest (Option.map_eq_none_iff.mp failed)

/-- As long as `malloc` answers, `mp_alloc` of a large block does not return in a pool whose blocks
do not serve its record. -/
theorem mpAlloc_never (fuel : Nat) (size : UInt64) (pool : MpPool) (empty : pool.large = 0)
    (narrow : pool.max < sizeofLarge) (large : pool.max < size)
    (answered : ∀ answer ∈ pool.script, answer ≠ none) (enough : fuel ≤ pool.script.length) :
    mpAlloc fuel pool size = none := by
  induction fuel generalizing pool size with
  | zero => rfl
  | succ fuel ih =>
    have chosen : mpAlloc (fuel + 1) pool size = mpAllocLarge (mpAlloc fuel) (fuel + 1) pool :=
      if_neg (UInt64.not_le.mpr large)
    rw [chosen]
    cases script : pool.script with
    | nil =>
      rw [script] at enough
      exact absurd enough (Nat.not_succ_le_zero fuel)
    | cons answer rest =>
      rw [script] at answered enough
      obtain ⟨p, given⟩ := Option.ne_none_iff_exists'.mp (answered answer List.mem_cons_self)
      have pass : emptyRecordPass { pool with script := rest } (pool.large, 0) = .inr none := by
        simp [emptyRecordPass, empty]
      have deeper := ih sizeofLarge { pool with script := rest } empty narrow narrow
        (fun other listed => answered other (List.mem_cons_of_mem _ listed))
        (Nat.le_of_succ_le_succ enough)
      simp only [mpAllocLarge, MpPool.obtain, script, List.head?_cons, given, Option.join_some,
        List.tail_cons, loop_leave pass, Option.bind_some, deeper, Option.map_none]

/-- The greatest size is that of the pool, up to a page. -/
theorem wide_iff (memory : MpPool) (size : UInt64) :
    sizeofLarge ≤ (opened memory size).pool.max ↔ sizeofLarge ≤ size := by
  change sizeofLarge ≤ (if size < MP_MAX_ALLOC_FROM_POOL then size else MP_MAX_ALLOC_FROM_POOL) ↔ _
  have page : sizeofLarge ≤ MP_MAX_ALLOC_FROM_POOL := by decide
  split
  · exact Iff.rfl
  · rename_i big
    exact iff_of_true page (UInt64.le_trans page (UInt64.not_lt.mp big))

/-- In a pool that is smaller than a record, `mp_alloc` of a large block does not return while
`malloc` answers. -/
theorem not_terminates (memory : MpPool) {size large : UInt64} (narrow : size < sizeofLarge)
    (exceeds : (opened memory size).pool.max < large) (answered : ∀ i, answers i ≠ none) :
    ¬ Terminates (.alloc large) (opened memory size).pool answers := by
  intro terminates
  obtain ⟨bound, returns⟩ := terminates
  apply returns bound le_rfl
  apply mpAlloc_never bound large
    { (opened memory size).pool with script := answersUpTo answers bound } rfl _ exceeds
  · intro answer listed
    obtain ⟨i, _, same⟩ := List.mem_map.mp listed
    rw [← same]
    exact answered i
  · simp [answersUpTo]
  · apply UInt64.not_le.mp
    intro wide
    exact UInt64.not_le.mpr narrow ((wide_iff memory size).mp wide)

/-- In every store that allowed uses of a new pool lead to, every request returns, exactly when the
pool is not smaller than a record. -/
theorem returning_iff {memory : MpPool} {size : UInt64} (answered : Answered memory size)
    (clear : (memory.nodes memory.head).next = 0)
    (fits : size.toNat + 56 < 18446744073709551616) :
    (∀ trace s, Run (fun s use s' => Allows s use ∧ Uses s use s') (opened memory size) trace s →
      Returning s) ↔ sizeofLarge ≤ size := by
  constructor
  · intro returning
    by_contra small
    have narrow : size < sizeofLarge := UInt64.not_le.mp small
    have less : (opened memory size).pool.max < sizeofLarge := by
      apply UInt64.not_le.mp
      intro wide
      exact small ((wide_iff memory size).mp wide)
    apply @not_terminates (fun _ => some 8192) memory size sizeofLarge narrow less
      (fun _ => Option.some_ne_none _)
    apply returning [] _ Run.nil
    intro serves
    exact absurd (serves (decide_eq_true less)) (UInt64.not_le.mpr less)
  · intro wide trace s run
    obtain ⟨records, regions, owns⟩ := owns_uses answered clear fits run
    apply owns.returning
    rw [owns.limit]
    exact (wide_iff memory size).mpr wide

/-- With two blocks and a large block every request to a pool of size 104 returns. -/
theorem returning_iff_mixed : ∃ s, Run (fun s use s' => Allows s use ∧ Uses s use s')
    (opened blankMemory 104) (mixed.map Use.call) s ∧ s.headers = [4120, 8192] ∧ s.live = [50000] ∧
    Returning s := by
  have answered : Answered blankMemory 104 := ⟨by decide, by decide, by decide⟩
  obtain ⟨s, calls, headers, live, -⟩ := mixed_run
  have run := uses_of_calls calls
  have returning := (returning_iff answered rfl (by decide)).mpr (by decide)
  exact ⟨s, run, headers, live, returning _ _ run⟩

/-- In a pool of size 8, `mp_alloc` of 9 does not return while `malloc` goes on answering. -/
theorem unreturning : Answered blankMemory 8 ∧
    ∀ answers, (∀ i, answers i ≠ none) →
      ¬ Terminates (.alloc 9) (opened blankMemory 8).pool answers :=
  ⟨⟨by decide, by decide, by decide⟩,
    fun _ answered => not_terminates blankMemory (by decide) (by decide) answered⟩

end BackendCpp.Mmpool
