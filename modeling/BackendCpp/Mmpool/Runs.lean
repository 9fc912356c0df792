import BackendCpp.Mmpool.Regions

/-!
# Runs of a pool

One specification for each function of the program: it returns, and the invariant of the
pool holds again. Creation and the requests together give the runs, and the pool of size 1
shows the one way in which they go wrong.
-/

namespace BackendCpp.Mmpool

open BackendCpp.Library

/-- The answer that a request took for a further block. -/
def taken (pool : MpPool) (answer : Option UInt64) : Option UInt64 :=
  if pool.script = [] then answer else none

/-- What a request that the blocks serve leaves behind. -/
structure Served (chain : List UInt64) (w : World) (answer : Option UInt64) (pool : MpPool)
    (m size : UInt64) (aligned : Bool) : Prop where
  /-- The chain got the block that was taken, and the invariant holds again. -/
  inv : Inv (chain ++ (taken pool answer).toList) (w.served answer pool m size aligned)
  /-- The pool stays where it is. -/
  addr : pool.addr = w.pool.addr
  /-- The greatest size stays. -/
  max : pool.max = w.pool.max
  /-- A request fails only when there is no memory. -/
  null : m = 0 → answer = none

/-- `mp_alloc_block` returns, with the request at the beginning of a further block, or with
`NULL` when there is no memory. -/
theorem mpAllocBlock_spec {chain : List UInt64} {w : World} (inv : Inv chain w) {size : UInt64}
    (small : size ≤ w.pool.max) (answer : Option UInt64)
    (usable : ∀ a, answer = some a → Usable w a) (aligned : Bool) :
    ∃ pool m, Leaves (fun fuel => mpAllocBlock fuel (w.pool.answering answer) size) (pool, m) ∧
      Served chain w answer pool m size aligned := by
  cases answer with
  | none =>
    refine ⟨{ w.pool with script := [] }, 0, Leaves.of_forall fun fuel => rfl, ?_, rfl, rfl,
      fun _ => rfl⟩
    have same : Inv chain ⟨{ w.pool with script := [] }, w.blocks, w.regions⟩ :=
      inv.idle rfl rfl rfl rfl rfl
    simpa [World.served, taken] using same
  | some new =>
    have usable := usable new rfl
    have widest := inv.widest
    have ends := usable.ends
    have multiple := usable.aligned
    have length := inv.psize_toNat
    have outside := usable.not_mem inv
    have start : mpAlignPtr (new + sizeofNode) MP_ALIGNMENT = new + sizeofNode :=
      mpAlignPtr_block multiple (by omega)
    let begun : MpPool := MpPool.setNode { w.pool with script := [] } new
      ⟨new + sizeofNode + size, new + psize w.pool, 0, 0⟩
    have begunAt : ∀ h ∈ chain, begun.nodes h = w.pool.nodes h := by
      intro h listed
      exact Function.update_of_ne (ne_of_mem_of_not_mem listed outside) ..
    have begunNew : begun.nodes new = ⟨new + sizeofNode + size, new + psize w.pool, 0, 0⟩ :=
      Function.update_self ..
    have begunLinked : Linked begun.nodes chain :=
      inv.linked.congr fun h listed => by rw [begunAt h listed]
    obtain ⟨before, rest, split⟩ := List.append_of_mem inv.searched
    rw [split] at begunLinked
    obtain ⟨nodes', current', leaves, alike, onChain⟩ := chainPass_spec rest w.pool.current begun
      w.pool.current begunLinked.suffix
      (fun h listed => inv.inner h (by rw [split]; simp [listed]))
    let q := (w.pool.current :: rest).getLast (by simp)
    obtain ⟨front, ends'⟩ : ∃ front, w.pool.current :: rest = front ++ [q] :=
      ⟨_, (List.dropLast_append_getLast (by simp)).symm⟩
    have whole : chain = before ++ front ++ [q] := by
      rw [split, ends', List.append_assoc]
    have inChain : q ∈ chain := by
      rw [whole]
      simp
    have distinct := inv.distinct
    have currentChain : current' ∈ chain := by
      rcases onChain with same | later
      · rw [same]
        exact inv.searched
      · rw [split]
        simp [later]
    have nonnull : new + sizeofNode ≠ 0 := by
      intro zero
      have value := congrArg UInt64.toNat zero
      have node : sizeofNode.toNat = 32 := rfl
      rw [UInt64.toNat_add, node, Nat.mod_eq_of_lt (by omega)] at value
      exact absurd value (by simp)
    let linkedNodes := Function.update nodes' q { nodes' q with next := new }
    have fields : ∀ h, (linkedNodes h).last = (begun.nodes h).last ∧
        (linkedNodes h).stop = (begun.nodes h).stop := by
      intro h
      obtain ⟨last, stop, -⟩ := alike h
      by_cases here : h = q
      · rw [here] at last stop ⊢
        simp only [linkedNodes, Function.update_self]
        exact ⟨last, stop⟩
      · simp only [linkedNodes, Function.update_of_ne here]
        exact ⟨last, stop⟩
    have nexts : ∀ h, h ≠ q → (linkedNodes h).next = (begun.nodes h).next := by
      intro h other
      simp only [linkedNodes, Function.update_of_ne other]
      exact (alike h).2.2
    have linked : Linked linkedNodes (chain ++ [new]) := by
      rw [whole, List.append_assoc]
      have old := inv.linked
      rw [whole] at old distinct
      refine old.snoc ?_ ?_ ?_
      · intro h listed
        have other : h ≠ q := by
          rw [List.nodup_append] at distinct
          exact distinct.2.2 h listed q List.mem_cons_self
        rw [nexts h other, begunAt h (by rw [whole]; exact List.mem_append_left _ listed)]
      · simp only [linkedNodes, Function.update_self]
      · rw [nexts new (fun same => outside (same ▸ inChain)), begunNew]
    refine ⟨{ w.pool with script := [], nodes := linkedNodes, current := current' },
      new + sizeofNode, ?_, ?_, rfl, rfl, fun null => absurd null nonnull⟩
    · have result := leaves.map fun state =>
        ({ state.1.setNode state.2.1 { state.1.nodes state.2.1 with next := new } with
          current := if state.2.2 ≠ 0 then state.2.2 else new }, new + sizeofNode)
      have inner : current' ≠ 0 := inv.inner current' currentChain
      simp only [ne_eq, inner, not_false_eq_true, if_true] at result
      unfold mpAllocBlock
      simp only [MpPool.answering, MpPool.obtain, List.head?_cons, Option.join_some, List.tail_cons,
        start]
      exact result
    · have grown : Inv (chain ++ [new])
          ⟨{ w.pool with script := [], nodes := linkedNodes, current := current' },
            w.blocks ++ [⟨new, psize w.pool⟩],
            w.regions ++ [⟨new + sizeofNode, size, aligned⟩]⟩ := by
        refine inv.extend usable small rfl rfl (List.mem_append_left _ currentChain) rfl linked ?_
          ?_ ?_
        · intro h listed
          rw [← begunAt h listed]
          exact fields h
        · rw [(fields new).1, begunNew]
        · rw [(fields new).2, begunNew]
      simpa [World.served, taken, nonnull] using grown

/-- The common part of `mp_alloc` and `mp_nalloc` returns and keeps the invariant, when every
block that the search comes to has the place where the request would begin in its free
part. -/
theorem allocSmall_spec {chain : List UInt64} {w : World} (inv : Inv chain w)
    (start : UInt64 → UInt64) {size : UInt64} (small : size ≤ w.pool.max)
    (answer : Option UInt64) (usable : ∀ a, answer = some a → Usable w a) (aligned : Bool)
    (inRoom : ∀ h ∈ chain, Visited start w.pool size h →
      (w.pool.nodes h).last.toNat ≤ (start (w.pool.nodes h).last).toNat ∧
      (start (w.pool.nodes h).last).toNat ≤ (w.pool.nodes h).stop.toNat)
    (multiple : ∀ h ∈ chain, Visited start w.pool size h → aligned →
      (start (w.pool.nodes h).last).toNat % 32 = 0) :
    ∃ pool m, Leaves (fun fuel => allocSmall start fuel (w.pool.answering answer) size) (pool, m) ∧
      Served chain w answer pool m size aligned := by
  obtain ⟨before, rest, split⟩ := List.append_of_mem inv.searched
  have linked := inv.linked
  rw [split] at linked
  obtain ⟨result, leaves, found⟩ := searchPass_spec start w.pool size rest w.pool.current
    linked.suffix (fun h listed => inv.inner h (by rw [split]; simp [listed])) Visited.current
  have same : searchPass start (w.pool.answering answer) size =
      searchPass start w.pool size := rfl
  cases result with
  | none =>
    obtain ⟨pool, m, returns, served⟩ := mpAllocBlock_spec inv small answer usable aligned
    refine ⟨pool, m, ?_, served⟩
    unfold allocSmall
    rw [same]
    exact leaves.bind returns
  | some place =>
    obtain ⟨h, m⟩ := place
    obtain ⟨listed, visited, rfl, takes⟩ := found h m rfl
    have member : h ∈ chain := by
      rw [split]
      exact List.mem_append_right _ listed
    obtain ⟨after, before'⟩ := inRoom h member visited
    have room := inv.room h member
    have fits : size.toNat ≤ (w.pool.nodes h).stop.toNat - (start (w.pool.nodes h).last).toNat := by
      rw [← UInt64.toNat_sub_of_le _ _ (UInt64.le_iff_toNat_le.mpr before')]
      exact UInt64.le_iff_toNat_le.mp takes
    have nonnull : start (w.pool.nodes h).last ≠ 0 := by
      intro zero
      rw [zero] at after
      have value : (0 : UInt64).toNat = 0 := rfl
      omega
    refine ⟨(w.pool.answering answer).setNode h
      { w.pool.nodes h with last := start (w.pool.nodes h).last + size },
      start (w.pool.nodes h).last, ?_, ?_, rfl, rfl, fun null => absurd null nonnull⟩
    · unfold allocSmall
      rw [same]
      exact leaves.bind (Leaves.of_forall fun _ => rfl)
    · have carved : Inv chain ⟨(w.pool.answering answer).setNode h
          { w.pool.nodes h with last := start (w.pool.nodes h).last + size }, w.blocks,
          w.regions ++ [⟨start (w.pool.nodes h).last, size, aligned⟩]⟩ :=
        inv.carve member after (by omega) (multiple h member visited) rfl rfl rfl rfl rfl
      simpa [World.served, taken, nonnull, MpPool.setNode, MpPool.answering] using carved

/-- Where no visited block seems to have room that it lacks, aligned requests are served and
keep the invariant. -/
theorem allocAligned_spec {chain : List UInt64} {w : World} (inv : Inv chain w) {size : UInt64}
    (small : size ≤ w.pool.max) (answer : Option UInt64)
    (usable : ∀ a, answer = some a → Usable w a) (roomy : Roomy w size) :
    ∃ pool m, Leaves (fun fuel => allocSmall (mpAlignPtr · MP_ALIGNMENT) fuel
        (w.pool.answering answer) size) (pool, m) ∧
      Served chain w answer pool m size true := by
  have rounded : ∀ h ∈ chain, Visited (mpAlignPtr · MP_ALIGNMENT) w.pool size h →
      (mpAlignPtr (w.pool.nodes h).last MP_ALIGNMENT).toNat =
        roundUp (w.pool.nodes h).last.toNat := by
    intro h _ visited
    have below := roomy h visited
    have bound := (w.pool.nodes h).stop.toNat_lt
    unfold roundUp at below
    apply mpAlignPtr_toNat
    omega
  have inRoom : ∀ h ∈ chain, Visited (mpAlignPtr · MP_ALIGNMENT) w.pool size h →
      (w.pool.nodes h).last.toNat ≤ (mpAlignPtr (w.pool.nodes h).last MP_ALIGNMENT).toNat ∧
      (mpAlignPtr (w.pool.nodes h).last MP_ALIGNMENT).toNat ≤ (w.pool.nodes h).stop.toNat := by
    intro h member visited
    have below := roomy h visited
    rw [rounded h member visited]
    refine ⟨?_, below⟩
    unfold roundUp
    omega
  have multiple : ∀ h ∈ chain, Visited (mpAlignPtr · MP_ALIGNMENT) w.pool size h → true →
      (mpAlignPtr (w.pool.nodes h).last MP_ALIGNMENT).toNat % 32 = 0 := by
    intro h member visited _
    rw [rounded h member visited]
    unfold roundUp
    omega
  exact allocSmall_spec inv (mpAlignPtr · MP_ALIGNMENT) small answer usable true inRoom multiple

/-- `mp_alloc` of a size that the blocks serve. -/
theorem mpAlloc_leaves {pool : MpPool} {size : UInt64} {result : MpPool × UInt64}
    (small : size ≤ pool.max)
    (leaves : Leaves (fun fuel => allocSmall (mpAlignPtr · MP_ALIGNMENT) fuel pool size) result) :
    Leaves (fun fuel => mpAlloc fuel pool size) result := by
  obtain ⟨bound, returns⟩ := leaves
  refine ⟨bound + 1, fun fuel enough => ?_⟩
  obtain ⟨less, rfl⟩ : ∃ less, fuel = less + 1 := ⟨fuel - 1, by omega⟩
  have chosen : mpAlloc (less + 1) pool size =
      allocSmall (mpAlignPtr · MP_ALIGNMENT) (less + 1) pool size := if_pos small
  exact chosen.trans (returns (less + 1) (by omega))

/-- `mp_alloc` keeps the invariant where no visited block seems to have room that it lacks. -/
theorem mpAlloc_spec {chain : List UInt64} {w : World} (inv : Inv chain w) {size : UInt64}
    (small : size ≤ w.pool.max) (answer : Option UInt64)
    (usable : ∀ a, answer = some a → Usable w a) (roomy : Roomy w size) :
    ∃ pool m, Leaves (fun fuel => mpAlloc fuel (w.pool.answering answer) size) (pool, m) ∧
      Served chain w answer pool m size true := by
  obtain ⟨pool, m, leaves, served⟩ := allocAligned_spec inv small answer usable roomy
  exact ⟨pool, m, mpAlloc_leaves small leaves, served⟩

/-- `mp_nalloc` keeps the invariant. -/
theorem mpNalloc_spec {chain : List UInt64} {w : World} (inv : Inv chain w) {size : UInt64}
    (small : size ≤ w.pool.max) (answer : Option UInt64)
    (usable : ∀ a, answer = some a → Usable w a) :
    ∃ pool m, Leaves (fun fuel => mpNalloc fuel (w.pool.answering answer) size) (pool, m) ∧
      Served chain w answer pool m size false := by
  obtain ⟨pool, m, leaves, served⟩ := allocSmall_spec inv id small answer usable
    false (fun h member _ => ⟨le_rfl, (inv.room h member).2⟩) (fun _ _ _ wrong => nomatch wrong)
  refine ⟨pool, m, ?_, served⟩
  have chosen : ∀ fuel, mpNalloc fuel (w.pool.answering answer) size =
      allocSmall id fuel (w.pool.answering answer) size := fun fuel => if_pos small
  simp only [chosen]
  exact leaves

/-- `mp_calloc` keeps the invariant as `mp_alloc` does. -/
theorem mpCalloc_spec {chain : List UInt64} {w : World} (inv : Inv chain w) {size : UInt64}
    (small : size ≤ w.pool.max) (answer : Option UInt64)
    (usable : ∀ a, answer = some a → Usable w a) (roomy : Roomy w size) :
    ∃ pool m, Leaves (fun fuel => mpCalloc fuel (w.pool.answering answer) size) (pool, m) ∧
      Served chain w answer pool m size true := by
  obtain ⟨pool, m, leaves, served⟩ := mpAlloc_spec inv small answer usable roomy
  refine ⟨if m ≠ 0 then { pool with bytes := memset pool.bytes m size } else pool, m, ?_, ?_⟩
  · obtain ⟨bound, returns⟩ := leaves
    refine ⟨bound, fun fuel enough => ?_⟩
    have result : mpAlloc fuel (w.pool.answering answer) size = some (pool, m) :=
      returns fuel enough
    dsimp only [mpCalloc]
    rw [result]
    rfl
  by_cases null : m = 0
  · simpa [null] using served
  · rw [if_pos null]
    exact ⟨served.inv.idle rfl rfl rfl rfl rfl, served.addr, served.max, served.null⟩

/-- A pool whose blocks are empty again. -/
theorem Inv.reset {chain : List UInt64} {w : World} (inv : Inv chain w) {nodes : UInt64 → MpNode}
    (result : ∀ h, nodes h =
      if h ∈ chain then { w.pool.nodes h with last := h + sizeofNode } else w.pool.nodes h) :
    Inv chain ⟨{ w.pool with large := 0, nodes := nodes }, w.blocks, []⟩ := by
  have stop : ∀ h, (nodes h).stop = (w.pool.nodes h).stop := by
    intro h
    rw [result]
    split <;> rfl
  have last : ∀ h ∈ chain, (nodes h).last.toNat = h.toNat + 32 := by
    intro h member
    have room := inv.room h member
    have bound := (w.pool.nodes h).stop.toNat_lt
    have node : sizeofNode.toNat = 32 := rfl
    rw [result, if_pos member]
    change (h + sizeofNode).toNat = _
    rw [UInt64.toNat_add, node]
    apply Nat.mod_eq_of_lt
    omega
  refine ⟨inv.begins, ?_, inv.inner, inv.searched, rfl, ?_, ?_, ?_, ?_, by simp, List.Pairwise.nil,
    by simp⟩
  · refine inv.linked.congr fun h _ => ?_
    change (nodes h).next = _
    rw [result]
    split <;> rfl
  · intro h member
    have room := inv.room h member
    change h.toNat + 32 ≤ (nodes h).last.toNat ∧ (nodes h).last.toNat ≤ (nodes h).stop.toNat
    rw [stop, last h member]
    omega
  · intro h member
    change ∃ block ∈ w.blocks, _ ∧ (nodes h).stop.toNat ≤ _
    rw [stop]
    exact inv.backed h member
  · change chain.Pairwise fun a b => (nodes a).stop.toNat ≤ b.toNat ∨ (nodes b).stop.toNat ≤ a.toNat
    simp only [stop]
    exact inv.apart
  · change w.pool.head.toNat + 32 + w.pool.max.toNat ≤ (nodes w.pool.head).stop.toNat
    rw [stop]
    exact inv.widest

/-- `mp_reset_pool` returns, and no region is handed out then. -/
theorem mpResetPool_spec {chain : List UInt64} {w : World} (inv : Inv chain w) :
    ∃ pool, Leaves (fun fuel => mpResetPool fuel w.pool) pool ∧
      Inv chain { w with pool, regions := [] } := by
  obtain ⟨rest, whole⟩ := inv.begins
  have first : Leaves (fun fuel => loop freeLargePass fuel (w.pool, w.pool.large)) w.pool := by
    refine leaves_now ?_
    simp [freeLargePass, inv.large]
  obtain ⟨nodes', leaves, result⟩ := resetPass_spec chain { w.pool with large := 0 } inv.linked
    inv.inner inv.distinct
  have head : chain.headD 0 = w.pool.head := by rw [whole]; rfl
  rw [head] at leaves
  exact ⟨_, first.bind leaves, inv.reset result⟩

/-- A created pool satisfies the invariant, unless the size wraps. -/
theorem inv_created {memory : MpPool} {size : UInt64} (granted : Granted memory size)
    (fits : size.toNat + 56 < 18446744073709551616) :
    Inv [memory.head] (created memory size) := by
  have ends := granted.ends
  have node : sizeofNode.toNat = 32 := rfl
  have pool : sizeofPool.toNat = 24 := rfl
  have asked : (poolSize size).toNat = size.toNat + 56 := by
    unfold poolSize
    rw [UInt64.toNat_add, UInt64.toNat_add, node, pool]
    omega
  have head : memory.head.toNat = memory.addr.toNat + 24 := by
    unfold MpPool.head
    rw [UInt64.toNat_add, pool]
    apply Nat.mod_eq_of_lt
    omega
  have last : (memory.addr + sizeofPool + sizeofNode).toNat = memory.addr.toNat + 56 := by
    rw [UInt64.toNat_add, UInt64.toNat_add, node, pool]
    omega
  have stop : (memory.addr + sizeofPool + sizeofNode + size).toNat =
      memory.addr.toNat + 56 + size.toNat := by
    rw [UInt64.toNat_add, last]
    apply Nat.mod_eq_of_lt
    omega
  have written : (created memory size).pool.nodes memory.head =
      ⟨memory.addr + sizeofPool + sizeofNode, memory.addr + sizeofPool + sizeofNode + size,
        (memory.nodes memory.head).next, 0⟩ := Function.update_self ..
  have greatest : (created memory size).pool.max.toNat ≤ size.toNat := by
    change (if size < MP_MAX_ALLOC_FROM_POOL then size else MP_MAX_ALLOC_FROM_POOL).toNat ≤ _
    split
    · exact le_rfl
    · rename_i large
      exact UInt64.le_iff_toNat_le.mp (UInt64.not_lt.mp large)
  have members : ∀ h, h ∈ [memory.head] → h = memory.head := by
    intro h member
    exact List.mem_singleton.mp member
  refine ⟨⟨[], rfl⟩, ⟨?_, trivial⟩, ?_, List.mem_cons_self, rfl, ?_, ?_, List.pairwise_singleton ..,
    ?_, by simp [created], List.Pairwise.nil, by simp [created]⟩
  · rw [written]
    exact granted.next
  · intro h member
    rw [members h member]
    intro zero
    rw [zero] at head
    have value : (0 : UInt64).toNat = 0 := rfl
    omega
  · intro h member
    rw [members h member, written]
    dsimp only
    omega
  · intro h member
    refine ⟨⟨memory.addr, poolSize size⟩, List.mem_cons_self, ?_⟩
    rw [members h member, written]
    dsimp only
    omega
  · change memory.head.toNat + 32 + _ ≤ ((created memory size).pool.nodes memory.head).stop.toNat
    rw [written]
    dsimp only
    omega

/-- Every request that meets its condition keeps the invariant. -/
theorem Inv.step {chain : List UInt64} {w w' : World} {event : Event} (inv : Inv chain w)
    (meets : Meets w event) (step : Step w event w') : ∃ chain', Inv chain' w' := by
  cases step with
  | alloc small usable returns =>
    obtain ⟨pool, m, leaves, served⟩ := mpAlloc_spec inv small _ usable meets
    obtain ⟨rfl, rfl⟩ := Prod.mk.inj (returns.unique leaves)
    exact ⟨_, served.inv⟩
  | nalloc small usable returns =>
    obtain ⟨pool, m, leaves, served⟩ := mpNalloc_spec inv small _ usable
    obtain ⟨rfl, rfl⟩ := Prod.mk.inj (returns.unique leaves)
    exact ⟨_, served.inv⟩
  | calloc small usable returns =>
    obtain ⟨pool, m, leaves, served⟩ := mpCalloc_spec inv small _ usable meets
    obtain ⟨rfl, rfl⟩ := Prod.mk.inj (returns.unique leaves)
    exact ⟨_, served.inv⟩
  | reset returns =>
    obtain ⟨pool, leaves, kept⟩ := mpResetPool_spec inv
    obtain rfl := returns.unique leaves
    exact ⟨chain, kept⟩

/-- In every run whose size does not wrap and whose aligned requests never come to a block
that only seems to have room, every region lies in a block, apart from the others and
aligned. Every next request that meets its condition returns. -/
theorem run_sound {memory : MpPool} {size : UInt64} {trace : List Event} {w : World}
    (granted : Granted memory size) (fits : size.toNat + 56 < 18446744073709551616)
    (run : Run (fun w event w' => Meets w event ∧ Step w event w') (created memory size) trace w) :
    Sound w ∧
      (∀ n answer, n ≤ w.pool.max → (∀ a, answer = some a → Usable w a) →
        (Roomy w n → ∃ w', Step w (.alloc n answer) w') ∧
        (Roomy w n → ∃ w', Step w (.calloc n answer) w') ∧
        ∃ w', Step w (.nalloc n answer) w') ∧
      ∃ w', Step w .reset w' := by
  have kept : ∃ chain, Inv chain w := by
    refine run.invariant (fun w => ∃ chain, Inv chain w) ⟨_, inv_created granted fits⟩ ?_
    rintro state event next ⟨chain, inv⟩ ⟨meets, step⟩
    exact inv.step meets step
  obtain ⟨chain, inv⟩ := kept
  refine ⟨inv.sound, ?_, ?_⟩
  · intro n answer small usable
    refine ⟨?_, ?_, ?_⟩
    · intro roomy
      obtain ⟨pool, m, leaves, -⟩ := mpAlloc_spec inv small answer usable roomy
      exact ⟨_, Step.alloc small usable leaves⟩
    · intro roomy
      obtain ⟨pool, m, leaves, -⟩ := mpCalloc_spec inv small answer usable roomy
      exact ⟨_, Step.calloc small usable leaves⟩
    · obtain ⟨pool, m, leaves, -⟩ := mpNalloc_spec inv small answer usable
      exact ⟨_, Step.nalloc small usable leaves⟩
  · obtain ⟨pool, leaves, -⟩ := mpResetPool_spec inv
    exact ⟨_, Step.reset leaves⟩

/-- A memory of zeros in which `posix_memalign` answers with 4096. -/
def blankMemory : MpPool :=
  ⟨4096, 0, 0, 0, fun _ => ⟨0, 0, 0, 0⟩, fun _ => ⟨0, 0⟩, fun _ => 0, [], []⟩

/-- A further block that was obtained under one fuel is the result. -/
theorem leaves_mpAllocBlock {fuel : Nat} {pool : MpPool} {size : UInt64} {result : MpPool × UInt64}
    (returned : mpAllocBlock fuel pool size = some result) :
    Leaves (fun fuel => mpAllocBlock fuel pool size) result := by
  cases answered : pool.obtain with
  | mk answer after =>
    cases answer with
    | none =>
      simp only [mpAllocBlock, answered] at returned ⊢
      exact Leaves.of_forall fun _ => returned
    | some new =>
      simp only [mpAllocBlock, answered] at returned ⊢
      obtain ⟨place, walked, rfl⟩ := Option.map_eq_some_iff.mp returned
      exact (leaves_of_loop walked).map _

/-- What the blocks served under one fuel is the result. -/
theorem leaves_allocSmall {start : UInt64 → UInt64} {fuel : Nat} {pool : MpPool} {size : UInt64}
    {result : MpPool × UInt64} (returned : allocSmall start fuel pool size = some result) :
    Leaves (fun fuel => allocSmall start fuel pool size) result := by
  obtain ⟨place, searched, served⟩ := Option.bind_eq_some_iff.mp returned
  refine Leaves.bind (leaves_of_loop searched) ?_
  cases place with
  | none => exact leaves_mpAllocBlock served
  | some place => exact Leaves.of_forall fun _ => served

/-- So is a large block, when `mp_alloc` of its record is. -/
theorem leaves_mpAllocLarge {f g : Nat} {pool : MpPool} {result : MpPool × UInt64}
    (inner : ∀ pool result, mpAlloc f pool sizeofLarge = some result →
      Leaves (fun fuel => mpAlloc fuel pool sizeofLarge) result)
    (returned : mpAllocLarge (mpAlloc f) g pool = some result) :
    ∃ bound, ∀ f g, bound ≤ f → bound ≤ g → mpAllocLarge (mpAlloc f) g pool = some result := by
  cases answered : pool.obtain with
  | mk answer after =>
    cases answer with
    | none =>
      simp only [mpAllocLarge, answered] at returned ⊢
      exact ⟨0, fun _ _ _ _ => returned⟩
    | some p =>
      simp only [mpAllocLarge, answered] at returned ⊢
      obtain ⟨record, walked, noted⟩ := Option.bind_eq_some_iff.mp returned
      obtain ⟨bound, walks⟩ := leaves_of_loop walked
      cases record with
      | some large =>
        refine ⟨bound, fun _ g _ enough => ?_⟩
        have walk := walks g enough
        dsimp only at walk
        rw [walk, Option.bind_some]
        exact noted
      | none =>
        obtain ⟨served, given, rfl⟩ := Option.map_eq_some_iff.mp noted
        obtain ⟨bound', gives⟩ := inner _ _ given
        refine ⟨Nat.max bound bound', fun f g enough enough' => ?_⟩
        have walk := walks g (le_trans (Nat.le_max_left ..) enough')
        have give := gives f (le_trans (Nat.le_max_right ..) enough)
        dsimp only at walk give
        rw [walk, Option.bind_some, give]
        rfl

/-- And so is what `mp_alloc` returned under one fuel. -/
theorem leaves_mpAlloc {fuel : Nat} {pool : MpPool} {size : UInt64} {result : MpPool × UInt64}
    (returned : mpAlloc fuel pool size = some result) :
    Leaves (fun fuel => mpAlloc fuel pool size) result := by
  induction fuel generalizing pool size result with
  | zero => cases returned
  | succ fuel ih =>
    by_cases small : size ≤ pool.max
    · simp only [mpAlloc, if_pos small] at returned
      obtain ⟨bound, serves⟩ := leaves_allocSmall returned
      refine ⟨bound + 1, fun fuel enough => ?_⟩
      obtain ⟨less, rfl⟩ : ∃ less, fuel = less + 1 := ⟨fuel - 1, by omega⟩
      simp only [mpAlloc, if_pos small]
      exact serves (less + 1) (by omega)
    · simp only [mpAlloc, if_neg small] at returned
      obtain ⟨bound, serves⟩ := leaves_mpAllocLarge (fun _ _ => ih) returned
      refine ⟨bound + 1, fun fuel enough => ?_⟩
      obtain ⟨less, rfl⟩ : ∃ less, fuel = less + 1 := ⟨fuel - 1, by omega⟩
      simp only [mpAlloc, if_neg small]
      exact serves less (less + 1) (by omega) (by omega)

/-- What `mp_nalloc` returned under one fuel is the result. -/
theorem leaves_mpNalloc {fuel : Nat} {pool : MpPool} {size : UInt64} {result : MpPool × UInt64}
    (returned : mpNalloc fuel pool size = some result) :
    Leaves (fun fuel => mpNalloc fuel pool size) result := by
  by_cases small : size ≤ pool.max
  · simp only [mpNalloc, if_pos small] at returned ⊢
    exact leaves_allocSmall returned
  · simp only [mpNalloc, if_neg small] at returned ⊢
    obtain ⟨bound, serves⟩ := leaves_mpAllocLarge (fun _ _ => leaves_mpAlloc) returned
    exact ⟨bound, fun fuel enough => serves fuel fuel enough enough⟩

/-- What `mp_calloc` returned under one fuel is the result. -/
theorem leaves_mpCalloc {fuel : Nat} {pool : MpPool} {size : UInt64} {result : MpPool × UInt64}
    (returned : mpCalloc fuel pool size = some result) :
    Leaves (fun fuel => mpCalloc fuel pool size) result := by
  obtain ⟨served, given, rfl⟩ := Option.map_eq_some_iff.mp returned
  exact (leaves_mpAlloc given).map _

/-- What `mp_reset_pool` left under one fuel is the result. -/
theorem leaves_mpResetPool {fuel : Nat} {pool after : MpPool}
    (returned : mpResetPool fuel pool = some after) :
    Leaves (fun fuel => mpResetPool fuel pool) after := by
  obtain ⟨freed, first, second⟩ := Option.bind_eq_some_iff.mp returned
  exact (leaves_of_loop first).bind (leaves_of_loop second)

/-- Every block has its free part, rounded up, before its end, and leads to another one. -/
def Clear (pool : MpPool) (blocks : List Block) : Prop :=
  pool.current ∈ pool.head :: blocks.tail.map Block.base ∧
    ∀ h ∈ pool.head :: blocks.tail.map Block.base,
      roundUp (pool.nodes h).last.toNat ≤ (pool.nodes h).stop.toNat ∧
      ((pool.nodes h).next = 0 ∨ (pool.nodes h).next ∈ pool.head :: blocks.tail.map Block.base)

instance (pool : MpPool) (blocks : List Block) : Decidable (Clear pool blocks) :=
  @instDecidableAnd _ _ inferInstance (List.decidableBAll _ _)

/-- In such a pool a search comes to no block that only seems to have room. -/
theorem Clear.roomy {w : World} (clear : Clear w.pool w.blocks) (size : UInt64) : Roomy w size := by
  have listed : ∀ h, Visited (mpAlignPtr · MP_ALIGNMENT) w.pool size h →
      h ∈ w.pool.head :: w.blocks.tail.map Block.base := by
    intro h visited
    induction visited with
    | current => exact clear.1
    | next before full onward ih => exact (clear.2 _ ih).2.resolve_left onward
  exact fun h visited => (clear.2 h (listed h visited)).1

/-- So every request meets its condition. -/
theorem Clear.meets {w : World} (clear : Clear w.pool w.blocks) (event : Event) :
    Meets w event := by
  cases event with
  | alloc size => exact clear.roomy size
  | calloc size => exact clear.roomy size
  | nalloc => trivial
  | reset => trivial

instance (w : World) (a : UInt64) : Decidable (Usable w a) :=
  decidable_of_iff (a ≠ 0 ∧ a.toNat % 32 = 0 ∧
      a.toNat + (psize w.pool).toNat < 18446744073709551616 ∧
      ∀ block ∈ w.blocks, a.toNat + (psize w.pool).toNat ≤ block.base.toNat ∨
        block.base.toNat + block.length.toNat ≤ a.toNat)
    ⟨fun ⟨nonnull, aligned, ends, apart⟩ => ⟨nonnull, aligned, ends, apart⟩,
      fun usable => ⟨usable.nonnull, usable.aligned, usable.ends, usable.apart⟩⟩

/-- A tested answer may be given. -/
theorem usable_of_all {w : World} {answer : Option UInt64} (tested : answer.all (Usable w ·) = true) :
    ∀ a, answer = some a → Usable w a := by
  intro a given
  rw [given] at tested
  exact of_decide_eq_true tested

/-- Execute an event under a fuel. -/
def Event.exec (fuel : Nat) (w : World) : Event → Option World
  | .alloc size answer =>
    if size ≤ w.pool.max ∧ answer.all (Usable w ·) then
      (mpAlloc fuel (w.pool.answering answer) size).map fun (pool, m) =>
        w.served answer pool m size true
    else none
  | .nalloc size answer =>
    if size ≤ w.pool.max ∧ answer.all (Usable w ·) then
      (mpNalloc fuel (w.pool.answering answer) size).map fun (pool, m) =>
        w.served answer pool m size false
    else none
  | .calloc size answer =>
    if size ≤ w.pool.max ∧ answer.all (Usable w ·) then
      (mpCalloc fuel (w.pool.answering answer) size).map fun (pool, m) =>
        w.served answer pool m size true
    else none
  | .reset => (mpResetPool fuel w.pool).map fun pool => { w with pool, regions := [] }

/-- An event that was executed is a step. -/
theorem step_of_exec {fuel : Nat} {w w' : World} {event : Event}
    (done : event.exec fuel w = some w') : Step w event w' := by
  cases event with
  | alloc size answer =>
    obtain ⟨⟨small, usable⟩, done⟩ := Option.ite_none_right_eq_some.mp done
    obtain ⟨served, returned, rfl⟩ := Option.map_eq_some_iff.mp done
    exact Step.alloc small (usable_of_all usable) (leaves_mpAlloc returned)
  | nalloc size answer =>
    obtain ⟨⟨small, usable⟩, done⟩ := Option.ite_none_right_eq_some.mp done
    obtain ⟨served, returned, rfl⟩ := Option.map_eq_some_iff.mp done
    exact Step.nalloc small (usable_of_all usable) (leaves_mpNalloc returned)
  | calloc size answer =>
    obtain ⟨⟨small, usable⟩, done⟩ := Option.ite_none_right_eq_some.mp done
    obtain ⟨served, returned, rfl⟩ := Option.map_eq_some_iff.mp done
    exact Step.calloc small (usable_of_all usable) (leaves_mpCalloc returned)
  | reset =>
    obtain ⟨pool, returned, rfl⟩ := Option.map_eq_some_iff.mp done
    exact Step.reset (leaves_mpResetPool returned)

/-- A reset, and then requests of which the second needs a further block. -/
def refilled : List Event :=
  [.alloc 90 none, .reset, .alloc 8 none, .alloc 80 (some 8192), .nalloc 5 none, .calloc 16 none]

/-- A pool of size 104 serves them from two blocks. -/
theorem run_sound_refilled : ∃ w, Run (fun w event w' => Meets w event ∧ Step w event w')
    (created blankMemory 104) refilled w ∧
    w.regions = [⟨4160, 8, true⟩, ⟨8224, 80, true⟩, ⟨4168, 5, false⟩, ⟨4192, 16, true⟩] ∧
    Sound w := by
  have granted : Granted blankMemory 104 := ⟨by decide, by decide, by decide, rfl⟩
  have fits : (104 : UInt64).toNat + 56 < 18446744073709551616 := by decide
  have ends : (refilled.foldlM (fun w event => if Clear w.pool w.blocks then event.exec 9 w
      else none) (created blankMemory 104)).any (fun w : World => w.regions =
        [⟨4160, 8, true⟩, ⟨8224, 80, true⟩, ⟨4168, 5, false⟩, ⟨4192, 16, true⟩]) = true := by
    decide +kernel
  obtain ⟨w, done, regions⟩ := (Option.any_eq_true _ _).mp ends
  have run : Run (fun w event w' => Meets w event ∧ Step w event w') (created blankMemory 104)
      refilled w :=
    (Run.of_tested done).mono fun _ event _ taken => ⟨taken.2.meets event, step_of_exec taken.1⟩
  exact ⟨w, run, of_decide_eq_true regions, (run_sound granted fits run).1⟩

/-- In a pool of size 1 the first request of 1 is answered with an address behind the end of
the block. -/
theorem run_unsound : ∃ w, Granted blankMemory 1 ∧
    Run Step (created blankMemory 1) [.alloc 1 none] w ∧ ¬ Sound w := by
  have granted : Granted blankMemory 1 := ⟨by decide, by decide, by decide, rfl⟩
  have usable : ∀ a, none = some a → Usable (created blankMemory 1) a := fun a wrong => nomatch wrong
  let pool := (created blankMemory 1).pool.answering none
  have place : mpAlignPtr (pool.nodes 4120).last MP_ALIGNMENT = 4160 := by decide
  have test : (pool.nodes 4120).stop - 4160 ≥ 1 := by decide
  have pass : searchPass (mpAlignPtr · MP_ALIGNMENT) pool 1 pool.current =
      .inr (some (4120, 4160)) := by
    have current : pool.current = 4120 := by decide
    unfold searchPass
    dsimp only
    rw [current, place, if_pos test]
  have returns : Leaves (fun fuel => mpAlloc fuel pool 1)
      (pool.setNode 4120 { pool.nodes 4120 with last := 4160 + 1 }, 4160) := by
    refine ⟨1, fun fuel enough => ?_⟩
    obtain ⟨less, rfl⟩ : ∃ less, fuel = less + 1 := ⟨fuel - 1, by omega⟩
    have small : (1 : UInt64) ≤ pool.max := by decide
    simp only [mpAlloc, if_pos small, allocSmall, loop_leave pass, Option.bind_some]
  refine ⟨_, granted, Run.nil.snoc (Step.alloc (by decide) usable returns), ?_⟩
  intro sound
  have only : ∀ h, OnChain (pool.setNode 4120 { pool.nodes 4120 with last := 4160 + 1 }) h →
      h = 4120 := by
    intro h onChain
    induction onChain with
    | head => rfl
    | next before onward ih =>
      subst ih
      exact absurd rfl onward
  obtain ⟨h, onChain, -, high⟩ := sound.inside ⟨4160, 1, true⟩ List.mem_cons_self
  rw [only h onChain] at high
  exact absurd high (by decide)

end BackendCpp.Mmpool
