import BackendCpp.Mmpool.Program

/-!
# The chain of blocks

The blocks of a pool hang together by their `next` fields. `Linked` spells the chain as a
list of header addresses; the loops of the program that follow `next` are read here as walks
over that list. Rounding up a pointer is rounding up a number as long as nothing wraps.
-/

namespace BackendCpp.Mmpool

open BackendCpp.Library

/-- Clearing the lowest five bits of a word. -/
theorem land_mask {n : Nat} (bound : n < 2 ^ 64) : n &&& (2 ^ 64 - 32) = n / 32 * 32 := by
  have mask : 2 ^ 64 - 32 = (2 ^ 59 - 1) <<< 5 := by decide
  have round : n / 32 * 32 = (n >>> 5) <<< 5 := by
    rw [Nat.shiftRight_eq_div_pow, Nat.shiftLeft_eq]
  rw [mask, round]
  apply Nat.eq_of_testBit_eq
  intro i
  rw [Nat.testBit_and, Nat.testBit_shiftLeft, Nat.testBit_shiftLeft, Nat.testBit_two_pow_sub_one,
    Nat.testBit_shiftRight]
  by_cases low : 5 ≤ i
  · have index : 5 + (i - 5) = i := by omega
    by_cases high : i - 5 < 59
    · simp [low, high, index]
    · have zero : n.testBit i = false := by
        apply Nat.testBit_lt_two_pow
        exact lt_of_lt_of_le bound (Nat.pow_le_pow_right (by decide) (by omega))
      simp [index, zero]
  · simp [low]

/-- A number rounded up to a multiple of `MP_ALIGNMENT`. -/
def roundUp (n : Nat) : Nat := (n + 31) / 32 * 32

/-- `mp_align_ptr` rounds up, unless the sum wraps. -/
theorem mpAlignPtr_toNat {p : UInt64} (fits : p.toNat + 31 < 18446744073709551616) :
    (mpAlignPtr p MP_ALIGNMENT).toNat = roundUp p.toNat := by
  have sum : (p + (MP_ALIGNMENT - 1)).toNat = p.toNat + 31 := by
    rw [UInt64.toNat_add]
    exact Nat.mod_eq_of_lt fits
  unfold mpAlignPtr roundUp
  rw [UInt64.toNat_and, sum]
  exact land_mask fits

/-- The headers of a list follow each other by their `next` fields, and the last has none. -/
def Linked (nodes : UInt64 → MpNode) : List UInt64 → Prop
  | [] => True
  | h :: rest => (nodes h).next = rest.headD 0 ∧ Linked nodes rest

/-- Two memories of headers with the same fields but for the counts of failures. -/
def Alike (nodes nodes' : UInt64 → MpNode) : Prop :=
  ∀ h, (nodes' h).last = (nodes h).last ∧ (nodes' h).stop = (nodes h).stop ∧
    (nodes' h).next = (nodes h).next

/-- A chain stays linked as long as its `next` fields do not change. -/
theorem Linked.congr {nodes nodes' : UInt64 → MpNode} {chain : List UInt64}
    (same : ∀ h ∈ chain, (nodes' h).next = (nodes h).next) (linked : Linked nodes chain) :
    Linked nodes' chain := by
  induction chain with
  | nil => trivial
  | cons h rest ih =>
    obtain ⟨next, below⟩ := linked
    refine ⟨(same h List.mem_cons_self).trans next, ih ?_ below⟩
    exact fun other member => same other (List.mem_cons_of_mem h member)

/-- The part of a linked chain from one header on is linked. -/
theorem Linked.suffix {nodes : UInt64 → MpNode} {before after : List UInt64}
    (linked : Linked nodes (before ++ after)) : Linked nodes after := by
  induction before with
  | nil => exact linked
  | cons h rest ih => exact ih linked.2

/-- A new header may be linked behind the last one. -/
theorem Linked.snoc {nodes nodes' : UInt64 → MpNode} {before : List UInt64} {q new : UInt64}
    (linked : Linked nodes (before ++ [q]))
    (same : ∀ h ∈ before, (nodes' h).next = (nodes h).next) (last : (nodes' q).next = new)
    (ends : (nodes' new).next = 0) : Linked nodes' (before ++ [q, new]) := by
  induction before with
  | nil => exact ⟨last, ends, trivial⟩
  | cons h rest ih =>
    obtain ⟨next, below⟩ := linked
    refine ⟨?_, ih below fun other member => same other (List.mem_cons_of_mem h member)⟩
    rw [same h List.mem_cons_self, next]
    cases rest <;> rfl

/-- The walk of `mp_alloc_block` to the end of the chain. It changes only counts of failures,
and `current` becomes a later block of the chain or stays. -/
theorem chainPass_spec (rest : List UInt64) (p : UInt64) (pool : MpPool) (current : UInt64)
    (linked : Linked pool.nodes (p :: rest)) (inner : ∀ h ∈ rest, h ≠ 0) :
    ∃ nodes' current', Leaves (fun fuel => loop chainPass fuel (pool, p, current))
        ({ pool with nodes := nodes' }, (p :: rest).getLast (by simp), current') ∧
      Alike pool.nodes nodes' ∧ (current' = current ∨ current' ∈ rest) := by
  induction rest generalizing p pool current with
  | nil =>
    have ends : (pool.nodes p).next = 0 := linked.1
    refine ⟨pool.nodes, current, leaves_now ?_, fun h => ⟨rfl, rfl, rfl⟩, Or.inl rfl⟩
    simp [chainPass, ends]
  | cons q rest ih =>
    obtain ⟨next, below⟩ := linked
    have next : (pool.nodes p).next = q := next
    have onward : q ≠ 0 := inner q List.mem_cons_self
    have alike : Alike pool.nodes (Function.update pool.nodes p
        { pool.nodes p with failed := (pool.nodes p).failed + 1 }) := by
      intro h
      by_cases here : h = p
      · subst here
        simp
      · simp [Function.update_of_ne here]
    obtain ⟨nodes', current', leaves, same, either⟩ := ih q
      (pool.setNode p { pool.nodes p with failed := (pool.nodes p).failed + 1 })
      (if (pool.nodes p).failed > 4 then q else current)
      (below.congr fun h _ => (alike h).2.2)
      (fun h member => inner h (List.mem_cons_of_mem q member))
    have pass : chainPass (pool, p, current) =
        .inl (pool.setNode p { pool.nodes p with failed := (pool.nodes p).failed + 1 }, q,
          if (pool.nodes p).failed > 4 then q else current) := by
      simp only [chainPass, next, ne_eq, onward, not_false_eq_true, if_true]
    refine ⟨nodes', current', leaves_next pass leaves, ?_, ?_⟩
    · intro h
      obtain ⟨last, stop, link⟩ := same h
      obtain ⟨last', stop', link'⟩ := alike h
      exact ⟨last.trans last', stop.trans stop', link.trans link'⟩
    · rcases either with same' | later
      · rw [same']
        split
        · exact Or.inr List.mem_cons_self
        · exact Or.inl rfl
      · exact Or.inr (List.mem_cons_of_mem q later)

/-- The blocks that the search of `mp_alloc` or `mp_nalloc` comes to: from `current` on, as
long as the blocks before do not take the request. -/
inductive Visited (start : UInt64 → UInt64) (pool : MpPool) (size : UInt64) : UInt64 → Prop
  | current : Visited start pool size pool.current
  | next {p : UInt64} (before : Visited start pool size p)
      (full : (pool.nodes p).stop - start (pool.nodes p).last < size)
      (onward : (pool.nodes p).next ≠ 0) : Visited start pool size (pool.nodes p).next

/-- The search returns: with a visited block of the chain that takes the request, or with
none. -/
theorem searchPass_spec (start : UInt64 → UInt64) (pool : MpPool) (size : UInt64)
    (rest : List UInt64) (p : UInt64) (linked : Linked pool.nodes (p :: rest))
    (inner : ∀ h ∈ rest, h ≠ 0) (visited : Visited start pool size p) :
    ∃ result, Leaves (fun fuel => loop (searchPass start pool size) fuel p) result ∧
      ∀ h m, result = some (h, m) → h ∈ p :: rest ∧ Visited start pool size h ∧
        m = start (pool.nodes h).last ∧ size ≤ (pool.nodes h).stop - m := by
  induction rest generalizing p with
  | nil =>
    have ends : (pool.nodes p).next = 0 := linked.1
    by_cases takes : (pool.nodes p).stop - start (pool.nodes p).last ≥ size
    · refine ⟨some (p, start (pool.nodes p).last), leaves_now (if_pos takes), ?_⟩
      rintro h m same
      obtain ⟨rfl, rfl⟩ := Prod.mk.inj (Option.some.inj same)
      exact ⟨List.mem_cons_self, visited, rfl, takes⟩
    · refine ⟨none, leaves_now ?_, by simp⟩
      simp only [searchPass, if_neg takes, ends, ne_eq, not_true_eq_false, if_false]
  | cons q rest ih =>
    have next : (pool.nodes p).next = q := linked.1
    have onward : q ≠ 0 := inner q List.mem_cons_self
    by_cases takes : (pool.nodes p).stop - start (pool.nodes p).last ≥ size
    · refine ⟨some (p, start (pool.nodes p).last), leaves_now (if_pos takes), ?_⟩
      rintro h m same
      obtain ⟨rfl, rfl⟩ := Prod.mk.inj (Option.some.inj same)
      exact ⟨List.mem_cons_self, visited, rfl, takes⟩
    · have onto : Visited start pool size q := by
        rw [← next]
        exact visited.next (UInt64.not_le.mp takes) (by rw [next]; exact onward)
      obtain ⟨result, leaves, found⟩ := ih q linked.2
        (fun h member => inner h (List.mem_cons_of_mem q member)) onto
      have pass : searchPass start pool size p = .inl q := by
        simp only [searchPass, if_neg takes, next, ne_eq, onward, not_false_eq_true, if_true]
      refine ⟨result, leaves_next pass leaves, ?_⟩
      intro h m same
      obtain ⟨member, reached, place, room⟩ := found h m same
      exact ⟨List.mem_cons_of_mem p member, reached, place, room⟩

/-- The loop of `mp_reset_pool` sets the `last` field of every block of the chain behind its
header. -/
theorem resetPass_spec (chain : List UInt64) (pool : MpPool) (linked : Linked pool.nodes chain)
    (inner : ∀ h ∈ chain, h ≠ 0) (distinct : chain.Nodup) :
    ∃ nodes', Leaves (fun fuel => loop resetPass fuel (pool, chain.headD 0))
        { pool with nodes := nodes' } ∧
      ∀ h, nodes' h =
        if h ∈ chain then { pool.nodes h with last := h + sizeofNode } else pool.nodes h := by
  induction chain generalizing pool with
  | nil =>
    refine ⟨pool.nodes, leaves_now ?_, by simp⟩
    simp [resetPass]
  | cons p rest ih =>
    obtain ⟨next, below⟩ := linked
    rw [List.nodup_cons] at distinct
    have here : p ≠ 0 := inner p List.mem_cons_self
    have untouched : ∀ h ∈ rest, Function.update pool.nodes p
        { pool.nodes p with last := p + sizeofNode } h = pool.nodes h := by
      intro h member
      rw [Function.update_of_ne (ne_of_mem_of_not_mem member distinct.1)]
    obtain ⟨nodes', leaves, result⟩ := ih
      (pool.setNode p { pool.nodes p with last := p + sizeofNode })
      (below.congr fun h member => by rw [← untouched h member]; rfl)
      (fun h member => inner h (List.mem_cons_of_mem p member)) distinct.2
    have pass : resetPass (pool, p) =
        .inl (pool.setNode p { pool.nodes p with last := p + sizeofNode }, rest.headD 0) := by
      simp only [resetPass, ne_eq, here, not_false_eq_true, if_true, next]
    refine ⟨nodes', leaves_next pass leaves, ?_⟩
    intro h
    rw [result]
    by_cases later : h ∈ rest
    · have same : (pool.setNode p { pool.nodes p with last := p + sizeofNode }).nodes h =
          pool.nodes h := untouched h later
      rw [if_pos later, if_pos (List.mem_cons_of_mem p later), same]
    · rw [if_neg later]
      by_cases first : h = p
      · subst first
        rw [if_pos List.mem_cons_self]
        exact Function.update_self ..
      · rw [if_neg (by simp [first, later])]
        exact Function.update_of_ne first ..

end BackendCpp.Mmpool
