import BackendCpp.Mmpool.Runs

/-!
# Records of large blocks

A pool notes each large block in a record of a list; a record whose block was freed is left
in the list with `NULL`. The loops over the list are read here as walks over the list of
record addresses. What the blocks serve does not depend on the records, so the
specifications for pools without large blocks hold for every pool.
-/

namespace BackendCpp.Mmpool

open BackendCpp.Library

/-- The records of a list follow each other by their `next` fields, and the last has none. -/
def Strung (larges : UInt64 → MpLarge) : List UInt64 → Prop
  | [] => True
  | r :: rest => (larges r).next = rest.headD 0 ∧ Strung larges rest

/-- The non-`NULL` `alloc` fields of records. -/
def allocs (larges : UInt64 → MpLarge) (records : List UInt64) : List UInt64 :=
  (records.map fun r => (larges r).alloc).filter (· ≠ 0)

variable {larges larges' : UInt64 → MpLarge} {records : List UInt64}

/-- Records that keep their `next` fields stay a list. -/
theorem Strung.congr (same : ∀ r ∈ records, (larges' r).next = (larges r).next)
    (strung : Strung larges records) : Strung larges' records := by
  induction records with
  | nil => trivial
  | cons r rest ih =>
    obtain ⟨next, below⟩ := strung
    refine ⟨(same r List.mem_cons_self).trans next, ih ?_ below⟩
    exact fun other member => same other (List.mem_cons_of_mem r member)

/-- The `alloc` fields of a list whose first record is `r`. -/
theorem allocs_cons (r : UInt64) (rest : List UInt64) :
    allocs larges (r :: rest) =
      if (larges r).alloc ≠ 0 then (larges r).alloc :: allocs larges rest
      else allocs larges rest := by
  by_cases null : (larges r).alloc = 0
  · rw [if_neg (not_not.mpr null), allocs, List.map_cons, List.filter_cons_of_neg]
    · rfl
    · simp [null]
  · rw [if_pos null, allocs, List.map_cons, List.filter_cons_of_pos]
    · rfl
    · simp [null]

/-- The `alloc` fields depend only on the records of the list. -/
theorem allocs_congr (same : ∀ r ∈ records, (larges' r).alloc = (larges r).alloc) :
    allocs larges' records = allocs larges records := by
  unfold allocs
  rw [List.map_congr_left same]

/-- An `alloc` field that is not `NULL` belongs to a record. -/
theorem mem_allocs {p : UInt64} :
    p ∈ allocs larges records ↔ p ≠ 0 ∧ ∃ r ∈ records, (larges r).alloc = p := by
  rw [allocs, List.mem_filter, List.mem_map, decide_eq_true_eq]
  exact and_comm

/-- Writing the `alloc` field of a record that is free adds one block. -/
theorem allocs_fill {r p : UInt64} (member : r ∈ records) (distinct : records.Nodup)
    (free : (larges r).alloc = 0) (nonnull : p ≠ 0) :
    (allocs (Function.update larges r { larges r with alloc := p }) records).Perm
      (p :: allocs larges records) := by
  induction records with
  | nil => exact absurd member List.not_mem_nil
  | cons q rest ih =>
    rw [List.nodup_cons] at distinct
    by_cases here : r = q
    · subst here
      have rest' : allocs (Function.update larges r { larges r with alloc := p }) rest =
          allocs larges rest := by
        apply allocs_congr
        intro other listed
        rw [Function.update_of_ne (ne_of_mem_of_not_mem listed distinct.1)]
      rw [allocs_cons, allocs_cons, Function.update_self, rest', if_pos nonnull,
        if_neg (not_not.mpr free)]
    · have later : r ∈ rest := (List.mem_cons.mp member).resolve_left here
      have grown := ih later distinct.2
      rw [allocs_cons, allocs_cons, Function.update_of_ne (Ne.symm here)]
      split
      · exact (grown.cons _).trans (List.Perm.swap ..)
      · exact grown

/-- Writing `NULL` to the `alloc` field of a record takes its block away. -/
theorem allocs_clear {r : UInt64} (member : r ∈ records) (distinct : records.Nodup)
    (taken : (larges r).alloc ≠ 0) (once : (allocs larges records).Nodup) :
    allocs (Function.update larges r { larges r with alloc := 0 }) records =
      (allocs larges records).erase (larges r).alloc := by
  induction records with
  | nil => exact absurd member List.not_mem_nil
  | cons q rest ih =>
    rw [List.nodup_cons] at distinct
    by_cases here : r = q
    · subst here
      have rest' : allocs (Function.update larges r { larges r with alloc := 0 }) rest =
          allocs larges rest := by
        apply allocs_congr
        intro other listed
        rw [Function.update_of_ne (ne_of_mem_of_not_mem listed distinct.1)]
      rw [allocs_cons, allocs_cons, Function.update_self, rest', if_pos taken,
        List.erase_cons_head, if_neg (not_not.mpr rfl)]
    · have later : r ∈ rest := (List.mem_cons.mp member).resolve_left here
      rw [allocs_cons] at once ⊢
      rw [allocs_cons, Function.update_of_ne (Ne.symm here)]
      by_cases null : (larges q).alloc ≠ 0
      · rw [if_pos null] at once ⊢
        rw [if_pos null, ih later distinct.2 (List.nodup_cons.mp once).2]
        have other : (larges q).alloc ≠ (larges r).alloc := by
          intro same
          apply (List.nodup_cons.mp once).1
          rw [same]
          exact mem_allocs.mpr ⟨taken, r, later, rfl⟩
        rw [List.erase_cons_tail (by simp [other])]
      · rw [if_neg null] at once ⊢
        rw [if_neg null, ih later distinct.2 once]

/-- The loop that frees the large blocks gives each to `free`. -/
theorem freeLargePass_spec (records : List UInt64) (pool : MpPool)
    (strung : Strung pool.larges records) (inner : ∀ r ∈ records, r ≠ 0) :
    Leaves (fun fuel => loop freeLargePass fuel (pool, records.headD 0))
      { pool with released := pool.released ++ allocs pool.larges records } := by
  induction records generalizing pool with
  | nil =>
    have done : { pool with released := pool.released ++ allocs pool.larges [] } = pool := by
      simp [allocs]
    rw [done]
    exact leaves_now (by simp [freeLargePass])
  | cons r rest ih =>
    obtain ⟨next, below⟩ := strung
    have here : r ≠ 0 := inner r List.mem_cons_self
    have inner' : ∀ q ∈ rest, q ≠ 0 := fun q member => inner q (List.mem_cons_of_mem r member)
    rw [allocs_cons]
    by_cases null : (pool.larges r).alloc ≠ 0
    · have pass : freeLargePass (pool, r) =
          .inl (pool.free (pool.larges r).alloc, rest.headD 0) := by
        simp only [freeLargePass, if_pos here, if_pos null, next]
      have leaves := ih (pool.free (pool.larges r).alloc) below inner'
      rw [if_pos null, List.append_cons]
      exact leaves_next pass leaves
    · have pass : freeLargePass (pool, r) = .inl (pool, rest.headD 0) := by
        simp only [freeLargePass, if_pos here, if_neg null, next]
      rw [if_neg null]
      exact leaves_next pass (ih pool below inner')

/-- The loop that frees the blocks behind the first gives each to `free`. -/
theorem freeBlockPass_spec (chain : List UInt64) (pool : MpPool)
    (linked : Linked pool.nodes chain) (inner : ∀ h ∈ chain, h ≠ 0) :
    Leaves (fun fuel => loop freeBlockPass fuel (pool, chain.headD 0))
      { pool with released := pool.released ++ chain } := by
  induction chain generalizing pool with
  | nil =>
    have done : { pool with released := pool.released ++ [] } = pool := by
      rw [List.append_nil]
    rw [done]
    exact leaves_now (by simp [freeBlockPass])
  | cons h rest ih =>
    obtain ⟨next, below⟩ := linked
    have here : h ≠ 0 := inner h List.mem_cons_self
    have pass : freeBlockPass (pool, h) = .inl (pool.free h, rest.headD 0) := by
      simp only [freeBlockPass, if_pos here, next]
    have leaves := ih (pool.free h) below fun q member => inner q (List.mem_cons_of_mem h member)
    rw [List.append_cons]
    exact leaves_next pass leaves

/-- The loop of `mp_alloc_large` ends, with a record of the list that is free or with none. -/
theorem emptyRecordPass_spec (pool : MpPool) (records : List UInt64) (n : Nat)
    (strung : Strung pool.larges records) (inner : ∀ r ∈ records, r ≠ 0) :
    ∃ result, Leaves (fun fuel => loop (emptyRecordPass pool) fuel (records.headD 0, n)) result ∧
      ∀ r, result = some r → r ∈ records ∧ (pool.larges r).alloc = 0 := by
  induction records generalizing n with
  | nil => exact ⟨none, leaves_now (by simp [emptyRecordPass]), fun r wrong => nomatch wrong⟩
  | cons r rest ih =>
    obtain ⟨next, below⟩ := strung
    have here : r ≠ 0 := inner r List.mem_cons_self
    by_cases free : (pool.larges r).alloc = 0
    · refine ⟨some r, leaves_now ?_, ?_⟩
      · simp [emptyRecordPass, here, free]
      · intro found same
        rw [← Option.some.inj same]
        exact ⟨List.mem_cons_self, free⟩
    · by_cases far : n > 3
      · refine ⟨none, leaves_now ?_, fun r wrong => nomatch wrong⟩
        simp [emptyRecordPass, here, free, far]
      · obtain ⟨result, leaves, found⟩ := ih (n + 1) below
          fun q member => inner q (List.mem_cons_of_mem r member)
        refine ⟨result, leaves_next ?_ leaves, ?_⟩
        · simp [emptyRecordPass, here, free, far, next]
        · intro record same
          obtain ⟨member, empty⟩ := found record same
          exact ⟨List.mem_cons_of_mem r member, empty⟩

/-- The loop of `mp_free` ends with a record of the block, if there is one. -/
theorem findLargePass_spec (pool : MpPool) (p : UInt64) (records : List UInt64)
    (strung : Strung pool.larges records) (inner : ∀ r ∈ records, r ≠ 0) :
    ∃ result, Leaves (fun fuel => loop (findLargePass pool p) fuel (records.headD 0)) result ∧
      (∀ r, result = some r → r ∈ records ∧ (pool.larges r).alloc = p) ∧
      (result = none → ∀ r ∈ records, (pool.larges r).alloc ≠ p) := by
  induction records with
  | nil =>
    exact ⟨none, leaves_now (by simp [findLargePass]), fun r wrong => (nomatch wrong),
      fun _ r member => absurd member List.not_mem_nil⟩
  | cons r rest ih =>
    obtain ⟨next, below⟩ := strung
    have here : r ≠ 0 := inner r List.mem_cons_self
    by_cases found : p = (pool.larges r).alloc
    · refine ⟨some r, leaves_now ?_, ?_, fun wrong => nomatch wrong⟩
      · simp [findLargePass, here, found]
      · intro record same
        rw [← Option.some.inj same]
        exact ⟨List.mem_cons_self, found.symm⟩
    · obtain ⟨result, leaves, hit, miss⟩ := ih below
        fun q member => inner q (List.mem_cons_of_mem r member)
      refine ⟨result, leaves_next ?_ leaves, ?_, ?_⟩
      · simp [findLargePass, here, found, next]
      · intro record same
        obtain ⟨member, noted⟩ := hit record same
        exact ⟨List.mem_cons_of_mem r member, noted⟩
      · intro none' record member
        cases List.mem_cons.mp member with
        | inl same =>
          rw [same]
          exact Ne.symm found
        | inr later => exact miss none' record later

/-- A pool with the records, bytes and released blocks of another one, and more answers. -/
def MpPool.dressed (pool other : MpPool) (rest : List (Option UInt64)) : MpPool :=
  { pool with
    large := other.large
    larges := other.larges
    bytes := other.bytes
    released := other.released
    script := pool.script ++ rest }

section Dressed

variable (fuel : Nat) (pool other : MpPool) (rest : List (Option UInt64))

/-- The walk to the end of the chain does not depend on the records. -/
theorem chainPass_dressed (state : MpPool × UInt64 × UInt64) :
    loop chainPass fuel (state.1.dressed other rest, state.2) =
      (loop chainPass fuel state).map fun state => (state.1.dressed other rest, state.2) := by
  apply loop_map fun state : MpPool × UInt64 × UInt64 => (state.1.dressed other rest, state.2)
  intro state
  obtain ⟨pool, p, current⟩ := state
  by_cases onward : (pool.nodes p).next ≠ 0
  · have pass : chainPass (pool, p, current) =
        .inl (pool.setNode p { pool.nodes p with failed := (pool.nodes p).failed + 1 },
          (pool.nodes p).next,
          if (pool.nodes p).failed > 4 then (pool.nodes p).next else current) := if_pos onward
    rw [pass]
    exact if_pos onward
  · have pass : chainPass (pool, p, current) = .inr (pool, p, current) := if_neg onward
    rw [pass]
    exact if_neg onward

/-- A further block does not depend on the records. -/
theorem mpAllocBlock_dressed (answer : Option UInt64) (size : UInt64) :
    mpAllocBlock fuel ((pool.answering answer).dressed other rest) size =
      (mpAllocBlock fuel (pool.answering answer) size).map fun result =>
        (result.1.dressed other rest, result.2) := by
  cases answer with
  | none => rfl
  | some new =>
    have walked := chainPass_dressed fuel other rest
      (({ pool with script := [] } : MpPool).setNode new
        ⟨mpAlignPtr (new + sizeofNode) MP_ALIGNMENT + size,
          new + ((pool.nodes pool.head).stop - pool.head), 0, 0⟩, pool.current, pool.current)
    refine (congrArg (Option.map _) walked).trans ?_
    rw [Option.map_map]
    change _ = Option.map _ (Option.map _ (loop chainPass fuel _))
    rw [Option.map_map]
    rfl

/-- What the blocks serve does not depend on the records. -/
theorem allocSmall_dressed (start : UInt64 → UInt64) (answer : Option UInt64) (size : UInt64) :
    allocSmall start fuel ((pool.answering answer).dressed other rest) size =
      (allocSmall start fuel (pool.answering answer) size).map fun result =>
        (result.1.dressed other rest, result.2) := by
  have block := mpAllocBlock_dressed fuel pool other rest answer size
  unfold allocSmall
  change (loop (searchPass start (pool.answering answer) size) fuel
    (pool.answering answer).current).bind _ = _
  cases loop (searchPass start (pool.answering answer) size) fuel
      (pool.answering answer).current with
  | none => rfl
  | some result =>
    cases result with
    | some place => rfl
    | none => exact block

end Dressed

end BackendCpp.Mmpool
