import BackendCpp.Trycatch.Conclusion

/-!
# Which blocks of Finally run

A run of a program passes only entries and blocks with numbers of its own, and never leaves the
scopes in which it began. So an entry is served by what it passes before its `EndTry`, and the
entries of a program are all served when the program settles.
-/

namespace BackendCpp.Trycatch

open BackendCpp.Library

/-- Neither an entry nor the begin of a block, inside of the outer scopes. -/
structure Quiet (outer : List Nat) (c : Config) : Prop where
  /-- The outer scopes have not been left. -/
  scopes : outer <:+ c.scopes
  /-- No entry into a `Try` with a block. -/
  enters : ∀ block, ¬ Enters c block
  /-- No begin of a block. -/
  begins : ∀ number, ¬ Begun number c

/-- A part of a run inside of the outer scopes, with numbers in a range of its own. -/
structure Marked (outer : List Nat) (low high : Nat) (settles : Bool) (passed : List Config) :
    Prop where
  /-- The outer scopes are not left. -/
  scopes : ∀ x ∈ passed, outer <:+ x.scopes
  /-- Blocks begin for the numbers of the range. -/
  begins : ∀ x ∈ passed, ∀ number, Begun number x → low ≤ number ∧ number < high
  /-- Entries take their numbers from the range. -/
  enters : ∀ x ∈ passed, ∀ block, Enters x block → low ≤ x.fresh ∧ x.fresh < high
  /-- Whether all entries are served. -/
  served : Everywhere Served passed ↔ settles = true

/-- An ordinary statement is quiet, and so is the begin of a handler. -/
theorem Quiet.stmt {outer : List Nat} {c : Config} {statement : Stmt} {rest : List Item}
    (control : c.control = .stmt statement :: rest)
    (ordinary : statement.isOrdinary = true ∨ statement = .setFlag .handled)
    (scopes : outer <:+ c.scopes) : Quiet outer c := by
  refine ⟨scopes, ?_, ?_⟩
  · rintro block ⟨body, clauses, rest', same, -⟩
    rw [control] at same
    cases same
    rcases ordinary with ordinary | handler
    · cases ordinary
    · cases handler
  · rintro number ⟨⟨second, rest', same⟩, -⟩
    rw [control] at same
    cases same
    rcases ordinary with ordinary | handler
    · cases ordinary
    · cases handler

/-- So is the end of a scope. -/
theorem Quiet.leave {outer : List Nat} {c : Config} {rest : List Item}
    (control : c.control = .leave :: rest) (scopes : outer <:+ c.scopes) : Quiet outer c := by
  refine ⟨scopes, ?_, ?_⟩
  · rintro block ⟨body, clauses, rest', same, -⟩
    rw [control] at same
    cases same
  · rintro number ⟨⟨second, rest', same⟩, -⟩
    rw [control] at same
    cases same

/-- Runs of ordinary statements pass nothing. -/
theorem Walks.quiet {outer scopes : List Nat} {c d : Config} (walk : Walks scopes c d)
    (suffix : outer <:+ scopes) :
    ∃ passed, Trail Config.step c passed d ∧ ∀ x ∈ passed, Quiet outer x := by
  have path : Path Config.step (Quiet outer) c d := by
    apply walk.mono
    rintro x ⟨same, statement, rest, control, ordinary⟩
    rw [← same] at suffix
    exact Quiet.stmt control (Or.inl ordinary) suffix
  exact path.trail

section

variable {outer inner : List Nat} {low middle high low' high' : Nat} {settles settles' : Bool}
  {first second passed : List Config}

/-- A quiet part has nothing to serve. -/
theorem Marked.quiet (quiet : ∀ x ∈ passed, Quiet outer x) :
    Marked outer low high true passed := by
  refine ⟨fun x member => (quiet x member).scopes, ?_, ?_, ?_⟩
  · intro x member number begun
    exact absurd begun ((quiet x member).begins number)
  · intro x member block enters
    exact absurd enters ((quiet x member).enters block)
  · refine iff_of_true ?_ rfl
    rw [everywhere_iff]
    intro n x found block enters
    exact absurd enters ((quiet x (List.mem_of_getElem? found)).enters block)

/-- More room around. -/
theorem Marked.widen (marked : Marked inner low high settles passed) (suffix : outer <:+ inner)
    (below : low' ≤ low) (above : high ≤ high') : Marked outer low' high' settles passed := by
  refine ⟨fun x member => suffix.trans (marked.scopes x member), ?_, ?_, marked.served⟩
  · intro x member number begun
    have range := marked.begins x member number begun
    omega
  · intro x member block enters
    have range := marked.enters x member block enters
    omega

/-- One part after the other. -/
theorem Marked.append (before : Marked outer low middle settles first)
    (after : Marked outer middle high settles' second) (below : low ≤ middle)
    (above : middle ≤ high) : Marked outer low high (settles && settles') (first ++ second) := by
  refine ⟨?_, ?_, ?_, ?_⟩
  · intro x member
    rcases List.mem_append.mp member with early | late
    · exact before.scopes x early
    · exact after.scopes x late
  · intro x member number begun
    rcases List.mem_append.mp member with early | late
    · have range := before.begins x early number begun
      omega
    · have range := after.begins x late number begun
      omega
  · intro x member block enters
    rcases List.mem_append.mp member with early | late
    · have range := before.enters x early block enters
      omega
    · have range := after.enters x late block enters
      omega
  · rw [everywhere_append, before.served, after.served, Bool.and_eq_true]
    intro x early tail
    apply served_append
    intro block enters y late begun
    have low := (after.begins y late x.fresh begun).1
    have high := (before.enters x early block enters).2
    omega

/-- A quiet part before. -/
theorem Marked.after_quiet (quiet : ∀ x ∈ first, Quiet outer x)
    (after : Marked outer low high settles second) (range : low ≤ high) :
    Marked outer low high settles (first ++ second) := by
  have whole := (@Marked.quiet outer low low first quiet).append after le_rfl range
  rw [Bool.true_and] at whole
  exact whole

/-- A quiet part behind. -/
theorem Marked.before_quiet (before : Marked outer low high settles first)
    (quiet : ∀ x ∈ second, Quiet outer x) (range : low ≤ high) :
    Marked outer low high settles (first ++ second) := by
  have whole := before.append (@Marked.quiet outer high high second quiet) range le_rfl
  rw [Bool.and_true] at whole
  exact whole

end

/-- An entry has the block of its clauses. -/
theorem Enters.block {c : Config} {body block : Prog} {clauses : Clauses} {rest : List Item}
    (enters : Enters c block)
    (control : c.control = .stmt (Prog.attempt body clauses).expand :: rest) :
    ∃ own, clauses.block = some own ∧ concluding own = concluding block := by
  obtain ⟨body', clauses', rest', same, some'⟩ := enters
  rw [control] at same
  simp only [List.cons.injEq, Item.stmt.injEq, Prog.expand, Stmt.scope.injEq, Stmt.seq.injEq]
    at same
  have tails : clauses.expandTail = clauses'.expandTail := same.1.2.2.2
  rw [Clauses.expandTail_some some'] at tails
  cases found : clauses.block with
  | none =>
    rw [Clauses.expandTail_none found] at tails
    cases tails
  | some own =>
    rw [Clauses.expandTail_some found, Stmt.seq.injEq] at tails
    exact ⟨own, rfl, tails.1⟩

/-- An entry begins no block. -/
theorem not_begun_entry {c : Config} {body : Prog} {clauses : Clauses} {rest : List Item}
    (control : c.control = .stmt (Prog.attempt body clauses).expand :: rest) (number : Nat) :
    ¬ Begun number c := by
  rintro ⟨⟨second, rest', same⟩, -⟩
  rw [control] at same
  cases same

/-- The begin of a block is not an entry. -/
theorem Begins.not_enters {number : Nat} {block other : Prog} {c : Config}
    (begins : Begins number block c) : ¬ Enters c other := by
  obtain ⟨⟨rest, control⟩, -⟩ := begins
  rintro ⟨body, clauses, rest', same, -⟩
  rw [control] at same
  cases same

/-- A block begins for the innermost scope only. -/
theorem Begins.number_eq {number other : Nat} {block : Prog} {c : Config}
    (begins : Begins number block c) (begun : Begun other c) : other = number := by
  have head := begins.2
  rw [begun.2] at head
  exact Option.some.inj head

section

variable {c x : Config} {body block : Prog} {clauses : Clauses} {rest : List Item}
  {middle high : Nat} {settles settles' : Bool} {first second passed : List Config}

/-- What follows an entry, when its block does not begin. -/
theorem Marked.entry_left (control : c.control = .stmt (Prog.attempt body clauses).expand :: rest)
    (within : Marked c.scopes (c.fresh + 1) high settles passed) (room : c.fresh < high) :
    Marked c.scopes c.fresh high (settles && clauses.block.isNone) (c :: passed) := by
  have wide := within.widen (List.suffix_refl _) (Nat.le_succ _) le_rfl
  refine ⟨?_, ?_, ?_, ?_⟩
  · intro y member
    rcases List.mem_cons.mp member with here | later
    · rw [here]
    · exact wide.scopes y later
  · intro y member number begun
    rcases List.mem_cons.mp member with here | later
    · rw [here] at begun
      exact absurd begun (not_begun_entry control number)
    · exact wide.begins y later number begun
  · intro y member other enters
    rcases List.mem_cons.mp member with here | later
    · rw [here]
      exact ⟨le_rfl, room⟩
    · exact wide.enters y later other enters
  · rw [Everywhere, within.served, Bool.and_eq_true, Option.isNone_iff_eq_none, and_comm]
    refine and_congr_right' ⟨?_, ?_⟩
    · intro served
      by_contra some'
      obtain ⟨own, found⟩ := Option.ne_none_iff_exists'.mp some'
      obtain ⟨before, y, after, split, hits, -⟩ := served own ⟨body, clauses, rest, control, found⟩
      have member : y ∈ passed := by
        rw [split]
        exact List.mem_append_right _ List.mem_cons_self
      have range := within.begins y member c.fresh hits.begun
      omega
    · intro none' other enters
      obtain ⟨own, found, -⟩ := enters.block control
      rw [none'] at found
      cases found

/-- What follows an entry, when its block begins once and nothing has left its scope before. -/
theorem Marked.entry_concluded
    (control : c.control = .stmt (Prog.attempt body clauses).expand :: rest)
    (some' : clauses.block = some block)
    (before : Marked (c.fresh :: c.scopes) (c.fresh + 1) middle settles first)
    (begins : Begins c.fresh block x) (scopes : x.scopes = c.fresh :: c.scopes)
    (after : Marked c.scopes middle high settles' second) (below : c.fresh < middle)
    (above : middle ≤ high) :
    Marked c.scopes c.fresh high (settles && settles') (c :: (first ++ x :: second)) := by
  have inner : c.scopes <:+ c.fresh :: c.scopes := List.suffix_cons _ _
  have wide := before.widen inner (Nat.le_succ _) above
  refine ⟨?_, ?_, ?_, ?_⟩
  · intro y member
    rcases List.mem_cons.mp member with here | later
    · rw [here]
    · rcases List.mem_append.mp later with early | late
      · exact wide.scopes y early
      · rcases List.mem_cons.mp late with here | last
        · rw [here, scopes]
          exact inner
        · exact after.scopes y last
  · intro y member number begun
    rcases List.mem_cons.mp member with here | later
    · rw [here] at begun
      exact absurd begun (not_begun_entry control number)
    · rcases List.mem_append.mp later with early | late
      · exact wide.begins y early number begun
      · rcases List.mem_cons.mp late with here | last
        · rw [here] at begun
          have same := begins.number_eq begun
          omega
        · have range := after.begins y last number begun
          omega
  · intro y member other enters
    rcases List.mem_cons.mp member with here | later
    · rw [here]
      omega
    · rcases List.mem_append.mp later with early | late
      · exact wide.enters y early other enters
      · rcases List.mem_cons.mp late with here | last
        · rw [here] at enters
          exact absurd enters begins.not_enters
        · have range := after.enters y last other enters
          omega
  · have own : Served c (first ++ x :: second) := by
      intro other enters
      obtain ⟨found, same, statement⟩ := enters.block control
      rw [some'] at same
      rw [← Option.some.inj same] at statement
      refine ⟨first, x, second, rfl, ?_, ?_, ?_⟩
      · rw [Begins, ← statement]
        exact begins
      · intro y early
        refine ⟨(before.scopes y early).subset List.mem_cons_self, ?_⟩
        intro begun
        have range := before.begins y early c.fresh begun
        omega
      · intro y late begun
        have range := after.begins y late c.fresh begun
        omega
    have block_served : Served x second := fun other enters => absurd enters begins.not_enters
    rw [Everywhere, everywhere_append, Everywhere, before.served, after.served, Bool.and_eq_true]
    · exact ⟨fun all => ⟨all.2.1, all.2.2.2⟩, fun both => ⟨own, both.1, block_served, both.2⟩⟩
    · intro y early tail
      apply served_append
      intro other enters z late begun
      have range := before.enters y early other enters
      rcases List.mem_cons.mp late with here | last
      · rw [here] at begun
        have same := begins.number_eq begun
        omega
      · have range' := after.begins z last y.fresh begun
        omega

end

/-- What the end of a `Try` passes: its block begins at once, or there is none. -/
def Tail (block : Option Prog) (c : Config) (low high : Nat) (settles : Bool)
    (passed : List Config) : Prop :=
  match block with
  | none => Marked c.scopes low high settles passed
  | some block => ∃ first x second, passed = first ++ x :: second ∧
      (∀ y ∈ first, Quiet (c.fresh :: c.scopes) y) ∧ Begins c.fresh block x ∧
      x.scopes = c.fresh :: c.scopes ∧ Marked c.scopes low high settles second

/-- A `Try` whose end is reached. -/
theorem Marked.concluded {c : Config} {body : Prog} {clauses : Clauses} {rest : List Item}
    {middle high : Nat} {settles settles' : Bool} {first second : List Config}
    (control : c.control = .stmt (Prog.attempt body clauses).expand :: rest)
    (before : Marked (c.fresh :: c.scopes) (c.fresh + 1) middle settles first)
    (tail : Tail clauses.block c middle high settles' second) (below : c.fresh < middle)
    (above : middle ≤ high) :
    Marked c.scopes c.fresh high (settles && settles') (c :: (first ++ second)) := by
  cases found : clauses.block with
  | none =>
    rw [found] at tail
    have outside := before.widen (List.suffix_cons _ _) le_rfl le_rfl
    have whole := (outside.append tail below above).entry_left control (by omega)
    rw [found, Option.isNone_none, Bool.and_true] at whole
    exact whole
  | some block =>
    rw [found] at tail
    obtain ⟨quiet, x, after, rfl, all_quiet, begins, scopes, marked⟩ := tail
    have whole := (before.before_quiet all_quiet below).entry_concluded control found begins
      scopes marked below above
    rw [List.append_assoc] at whole
    exact whole

/-- From `d` the machine comes to `rest` with everything as in `c`, or throws from there; `tells`
says of the next number and of what is passed. -/
def Passes (c d : Config) (rest : List Item) (thrown : Option Nat)
    (tells : Nat → List Config → Prop) : Prop :=
  match thrown with
  | none => ∃ passed e, Trail Config.step d passed e ∧ e.control = rest ∧ e.scopes = c.scopes ∧
      Keeps c e ∧ d.fresh ≤ e.fresh ∧ tells e.fresh passed
  | some excep => ∃ passed e, Trail Config.step d passed (e.ntyExceptionThrow excep) ∧
      Keeps c e ∧ d.fresh ≤ e.fresh ∧ tells e.fresh passed ∧ ∃ top, c.stack = some top

section

variable {c c' d d' : Config} {rest : List Item} {thrown : Option Nat}
  {tells tells' : Nat → List Config → Prop} {first : List Config}

/-- Steps before. -/
theorem Passes.before (trail : Trail Config.step d first d') (grown : d.fresh ≤ d'.fresh)
    (tell : ∀ high second, d'.fresh ≤ high → tells' high second → tells high (first ++ second))
    (passes : Passes c d' rest thrown tells') : Passes c d rest thrown tells := by
  cases thrown with
  | none =>
    obtain ⟨second, e, trail', control, scopes, keeps, grown', told⟩ := passes
    exact ⟨first ++ second, e, trail.trans trail', control, scopes, keeps, grown.trans grown',
      tell _ _ grown' told⟩
  | some excep =>
    obtain ⟨second, e, trail', keeps, grown', told, top⟩ := passes
    exact ⟨first ++ second, e, trail.trans trail', keeps, grown.trans grown',
      tell _ _ grown' told, top⟩

/-- What was kept before is kept. -/
theorem Passes.weaken (keeps : Keeps c c') (scopes : c'.scopes = c.scopes)
    (passes : Passes c' d rest thrown tells) : Passes c d rest thrown tells := by
  cases thrown with
  | none =>
    obtain ⟨passed, e, trail, control, scopes', keeps', grown, told⟩ := passes
    exact ⟨passed, e, trail, control, scopes'.trans scopes, keeps.trans keeps', grown, told⟩
  | some excep =>
    obtain ⟨passed, e, trail, keeps', grown, told, top⟩ := passes
    rw [keeps.stack] at top
    exact ⟨passed, e, trail, keeps.trans keeps', grown, told, top⟩

end

/-- A result with an exception. -/
theorem Result.andThen_of_some {first : Result} {e : Nat} (thrown : first.thrown = some e)
    (second : Result) : first.andThen second = first := by
  simp only [Result.andThen, thrown]

/-- What is printed before does not matter to the exception. -/
theorem Result.thrown_andThen (printed : List Event) (result : Result) :
    (Result.andThen ⟨printed, none⟩ result).thrown = result.thrown := rfl

/-- The exception of a result that is given in a case only. -/
theorem Result.thrown_ite (case : Prop) [Decidable case] (result : Result) :
    (if case then result else ⟨[], none⟩).thrown = if case then result.thrown else none := by
  split <;> rfl

/-- One step is a trail. -/
theorem trail_single {c d : Config} (step : c.step = some d) : Trail Config.step c [c] d :=
  Trail.head step (Trail.refl d)

/-- The end of the scope passes nothing. -/
theorem Inside.leave_passes {c d : Config} {flag : Flag} (inside : Inside c flag d)
    {rest : List Item} (control : d.control = .leave :: rest) :
    Passes c d rest none fun _ passed => ∀ x ∈ passed, Quiet c.scopes x := by
  refine ⟨[d], { d with control := rest, scopes := d.scopes.tail }, trail_single ?_, rfl, ?_,
    ⟨inside.stack, inside.escaped, le_of_lt inside.fresh, inside.frames⟩, le_rfl, ?_⟩
  · rw [Config.step, control]
  · change d.scopes.tail = c.scopes
    rw [inside.scopes]
    rfl
  · intro x member
    rw [List.mem_singleton.mp member]
    refine Quiet.leave control ?_
    rw [inside.scopes]
    exact List.suffix_cons _ _

/-- Neither does the end of `EndTry`. -/
theorem Inside.ending_passes {c d : Config} {flag : Flag} (inside : Inside c flag d)
    {rest : List Item} (control : d.control = .stmt Trycatch.ending :: .leave :: rest) :
    Passes c d rest (if flag = .thrown then
        (raise c.stack.isSome (d.frames c.fresh).exception).thrown else none)
      fun _ passed => ∀ x ∈ passed, Quiet c.scopes x := by
  have inner : c.scopes <:+ d.scopes := by
    rw [inside.scopes]
    exact List.suffix_cons _ _
  have test := inside.branch control
  have append_quiet : ∀ {first : List Config}, (∀ x ∈ first, Quiet c.scopes x) →
      ∀ (high : Nat) (second : List Config), d.fresh ≤ high → (∀ x ∈ second, Quiet c.scopes x) →
        ∀ x ∈ first ++ second, Quiet c.scopes x := by
    intro first quiet high second _ later x member
    rcases List.mem_append.mp member with early | late
    · exact quiet x early
    · exact later x late
  by_cases thrown : flag = .thrown
  · have hit : (Cond.flagIs .thrown).holds (d.frames c.fresh) = true := by
      simp only [Cond.holds, inside.flag, thrown, decide_true]
    rw [hit, if_pos rfl] at test
    rw [if_pos thrown]
    obtain ⟨tested, trail, quiet⟩ := test.quiet inner
    have again : Config.step { d with control := .stmt .reThrow :: .leave :: rest } =
        some (Config.ntyExceptionThrow { d with control := .leave :: rest }
          (d.frames c.fresh).exception) := by
      simp only [Config.step, Config.exec, inside.scopes, List.head?_cons, Option.map_some]
    have whole := trail.trans (trail_single again)
    have all_quiet := append_quiet quiet d.fresh
      [{ d with control := .stmt .reThrow :: .leave :: rest }] le_rfl (by
        intro x member
        rw [List.mem_singleton.mp member]
        exact Quiet.stmt rfl (Or.inl rfl) inner)
    have moved := inside.control (.leave :: rest)
    cases found : c.stack with
    | none =>
      have stack : d.stack = none := inside.stack.trans found
      rw [throw_none (by exact stack)] at whole
      have printed : Inside c flag { d with
          control := .leave :: rest
          out := d.out ++ [.uncaught (d.frames c.fresh).exception] } :=
        ⟨moved.scopes, moved.stack, moved.escaped, moved.fresh, moved.frames, moved.flag,
          moved.entered⟩
      exact Passes.before whole le_rfl (append_quiet all_quiet) (printed.leave_passes rfl)
    | some top => exact ⟨_, _, whole, moved.outside (Keeps.refl _), le_rfl, all_quiet, top, found⟩
  · have miss : (Cond.flagIs .thrown).holds (d.frames c.fresh) = false := by
      simp only [Cond.holds, inside.flag, thrown, decide_false]
    rw [miss] at test
    rw [if_neg thrown]
    have skip : Walks d.scopes d { d with control := .leave :: rest } :=
      test.trans (Walks.stmt rfl rfl rfl rfl)
    obtain ⟨skipped, trail, quiet⟩ := skip.quiet inner
    exact Passes.before trail le_rfl (append_quiet quiet) ((inside.control _).leave_passes rfl)

/-- A throw stands in the frames as they are. -/
theorem throw_fresh (c : Config) (excep : Nat) : (c.ntyExceptionThrow excep).fresh = c.fresh := by
  rw [Config.ntyExceptionThrow]
  split
  · rfl
  · split <;> rfl

/-- What the code of a handler passes: it comes to `middle` inside of the scope, or throws. -/
def Handled (c d : Config) (middle : List Item) (thrown : Option Nat) (settles : Bool) : Prop :=
  match thrown with
  | none => ∃ passed e, Trail Config.step d passed e ∧ e.control = middle ∧ Inside c .handled e ∧
      d.fresh ≤ e.fresh ∧ Marked (c.fresh :: c.scopes) d.fresh e.fresh settles passed
  | some excep => ∃ passed e, Trail Config.step d passed (e.ntyExceptionThrow excep) ∧ Keeps c e ∧
      d.fresh ≤ e.fresh ∧ Marked (c.fresh :: c.scopes) d.fresh e.fresh settles passed ∧
      ∃ top, c.stack = some top

/-- Without a handler there is nothing to settle. -/
theorem Clauses.handles_none {active : Bool} {excep : Nat} {clauses : Clauses}
    (found : clauses.handle active excep = none) : clauses.handles active excep = true := by
  match clauses with
  | .endTry => rfl
  | .final _ => rfl
  | .handler e block rest =>
    rw [Clauses.handle] at found
    rw [Clauses.handles]
    split at found
    · cases found
    · rename_i other
      rw [if_neg other]
      exact rest.handles_none found

/-- Without a block there is nothing to settle either. -/
theorem Clauses.concludes_none {active : Bool} {clauses : Clauses}
    (none' : clauses.block = none) : clauses.concludes active = true := by
  match clauses with
  | .endTry => rfl
  | .final _ => cases none'
  | .handler _ _ rest => exact rest.concludes_none none'

/-- A statement of the scope itself is quiet, unless it begins a block. -/
theorem Inside.quiet {c d : Config} {flag : Flag} (inside : Inside c flag d) {statement : Stmt}
    {rest : List Item} (control : d.control = .stmt statement :: rest)
    (ordinary : statement.isOrdinary = true ∨ statement = .setFlag .handled) :
    Quiet (c.fresh :: c.scopes) d := by
  apply Quiet.stmt control ordinary
  rw [inside.scopes]

mutual

/-- What a program passes. -/
theorem Prog.passes (program : Prog) (c : Config) (rest : List Item)
    (control : c.control = .stmt program.expand :: rest) :
    Passes c c rest (program.meaning c.stack.isSome).thrown fun high passed =>
      Marked c.scopes c.fresh high (program.settles c.stack.isSome) passed := by
  have quiet : ∀ {statement : Stmt}, c.control = .stmt statement :: rest →
      statement.isOrdinary = true → ∀ x ∈ [c], Quiet c.scopes x := by
    intro statement control ordinary x member
    rw [List.mem_singleton.mp member]
    exact Quiet.stmt control (Or.inl ordinary) (List.suffix_refl _)
  match program with
  | .skip =>
    rw [Prog.expand] at control
    refine ⟨[c], { c with control := rest }, trail_single ?_, rfl, rfl,
      ⟨rfl, rfl, le_rfl, fun _ _ => rfl⟩, le_rfl, Marked.quiet (quiet control rfl)⟩
    rw [Config.step, control]
    rfl
  | .output value =>
    rw [Prog.expand] at control
    refine ⟨[c], { c with control := rest, out := c.out ++ [.output value] }, trail_single ?_, rfl,
      rfl, ⟨rfl, rfl, le_rfl, fun _ _ => rfl⟩, le_rfl, Marked.quiet (quiet control rfl)⟩
    rw [Config.step, control]
    rfl
  | .throw e =>
    rw [Prog.expand] at control
    have step : c.step = some (Config.ntyExceptionThrow { c with control := rest } e) := by
      rw [Config.step, control]
      rfl
    have keeps : Keeps c { c with control := rest } := ⟨rfl, rfl, le_rfl, fun _ _ => rfl⟩
    rw [Prog.meaning]
    cases found : c.stack with
    | none =>
      rw [throw_none (by exact found)] at step
      exact ⟨[c], _, trail_single step, rfl, rfl, ⟨rfl, rfl, le_rfl, fun _ _ => rfl⟩, le_rfl,
        Marked.quiet (quiet control rfl)⟩
    | some top =>
      exact ⟨[c], _, trail_single step, keeps, le_rfl, Marked.quiet (quiet control rfl), top, found⟩
  | .seq first second =>
    rw [Prog.expand] at control
    have split : c.step = some { c with
        control := .stmt first.expand :: .stmt second.expand :: rest } := by
      rw [Config.step, control]
      rfl
    have begins := first.passes { c with
      control := .stmt first.expand :: .stmt second.expand :: rest } _ rfl
    have single := quiet control (first.expand_seq second.expand)
    rw [Prog.meaning, Prog.settles]
    cases thrown : (first.meaning c.stack.isSome).thrown with
    | none =>
      simp only [Passes, thrown] at begins
      obtain ⟨passed, e, trail, control', scopes, keeps, grown, marked⟩ := begins
      have ends := second.passes e rest control'
      rw [keeps.stack, scopes] at ends
      rw [Result.andThen_of_none thrown]
      have kept : Keeps c e := ⟨keeps.stack, keeps.escaped, keeps.fresh, keeps.frames⟩
      refine Passes.before (Trail.head split trail) grown ?_ (ends.weaken kept scopes)
      intro high later above marked'
      change Marked c.scopes c.fresh high _ ([c] ++ (passed ++ later))
      exact (marked.append marked' grown above).after_quiet single (grown.trans above)
    | some excep =>
      simp only [Passes, thrown] at begins
      obtain ⟨passed, e, trail, keeps, grown, marked, top⟩ := begins
      rw [Result.andThen_of_some thrown, thrown]
      refine ⟨c :: passed, e, Trail.head split trail,
        ⟨keeps.stack, keeps.escaped, keeps.fresh, keeps.frames⟩, grown, ?_, top⟩
      rw [Option.isSome_some, Bool.true_or, Bool.and_true]
      exact marked.after_quiet single grown
  | .attempt body clauses =>
    obtain ⟨entered, d, scope, walk, control', -, fresh, inBody⟩ := attempt_body control
    obtain ⟨setup, trail₁, quiet₁⟩ := walk.quiet (List.suffix_refl _)
    have active : d.stack.isSome = true := by
      rw [inBody.stack]
      rfl
    have runs := body.passes d _ control'
    rw [active, inBody.scopes, fresh] at runs
    rw [Prog.meaning, Prog.settles]
    cases thrown : (body.meaning true).thrown with
    | none =>
      simp only [Passes, thrown] at runs
      obtain ⟨ran, e, trail₂, control'', scopes, keeps, grown, marked⟩ := runs
      rw [fresh] at grown
      obtain ⟨e', close, control₃, -, fresh', inside⟩ := inBody.closes keeps scopes control''
      obtain ⟨closed, trail₃, quiet₃⟩ := close.quiet (List.suffix_refl _)
      rw [scopes, inBody.scopes] at quiet₃
      have tail := clauses.tail_passes c e' rest .entered inside control₃
      rw [if_neg Flag.noConfusion, Result.andThen_nil, fresh'] at tail
      have before := (marked.before_quiet quiet₃ grown).after_quiet quiet₁ grown
      simp only [Result.andThen_of_none thrown]
      refine Passes.before (Trail.head scope (trail₁.trans (trail₂.trans trail₃))) ?_ ?_ tail
      · omega
      · intro high later above told
        rw [fresh'] at above
        exact Marked.concluded control before told grown above
    | some excep =>
      simp only [Passes, thrown] at runs
      obtain ⟨ran, e, trail₂, keeps, grown, marked, -⟩ := runs
      rw [fresh] at grown
      obtain ⟨control'', -, inside, exception⟩ := inBody.throws keeps excep
      have low := throw_fresh e excep
      generalize e.ntyExceptionThrow excep = z at *
      rw [← low] at grown marked
      obtain ⟨resumed, trail₃, quiet₃⟩ := (resume_else inside control'').quiet
        (List.suffix_refl _)
      rw [inside.scopes] at quiet₃
      have way := Trail.head scope (trail₁.trans (trail₂.trans trail₃))
      have before := (marked.before_quiet quiet₃ grown).after_quiet quiet₁ grown
      have moved := inside.control
        (.stmt clauses.expandElse :: .stmt clauses.expandTail :: .leave :: rest)
      have search := clauses.handler_passes c _ (.stmt clauses.expandTail :: .leave :: rest) excep
        moved exception rfl
      cases found : clauses.handle c.stack.isSome excep with
      | none =>
        simp only [found] at search
        obtain ⟨skipped, trail₄, quiet₄⟩ := search.quiet (List.suffix_refl _)
        rw [moved.scopes] at quiet₄
        have tail := clauses.tail_passes c _ rest .thrown (moved.control _) rfl
        rw [if_pos rfl, show (Config.frames _ c.fresh).exception = excep from exception] at tail
        simp only [found, Result.thrown_andThen, Clauses.handles_none found, Bool.true_and]
        have above_entry : c.fresh ≤ z.fresh := by omega
        refine Passes.before (way.trans trail₄) above_entry ?_ tail
        intro high later above told
        exact Marked.concluded control (before.before_quiet quiet₄ grown) told grown above
      | some handled =>
        simp only [found] at search
        cases left : handled.thrown with
        | none =>
          simp only [Handled, left] at search
          obtain ⟨passed, e', trail₄, control₄, inside', grown', marked'⟩ := search
          have tail := clauses.tail_passes c e' rest .handled inside' control₄
          rw [if_neg Flag.noConfusion, Result.andThen_nil] at tail
          simp only [found, Result.thrown_andThen, Result.andThen_of_none left, left]
          have below : c.fresh < e'.fresh := lt_of_lt_of_le grown grown'
          refine Passes.before (way.trans trail₄) below.le ?_ tail
          intro high later above told
          have whole := Marked.concluded control (before.append marked' grown grown') told
            below above
          rw [Bool.and_assoc] at whole
          exact whole
        | some excep' =>
          simp only [Handled, left] at search
          obtain ⟨passed, e', trail₄, keeps', grown', marked', top⟩ := search
          simp only [found, Result.thrown_andThen, Result.andThen_of_some left, left]
          have below : c.fresh < e'.fresh := lt_of_lt_of_le grown grown'
          refine ⟨_, e', way.trans trail₄, keeps', below.le, ?_, top⟩
          have inner := (before.append marked' grown grown').widen (List.suffix_cons _ _) le_rfl
            le_rfl
          have whole := inner.entry_left control below
          rw [Bool.and_assoc] at whole
          exact whole

/-- What the code of the first handler that names the exception passes. -/
theorem Clauses.handler_passes (clauses : Clauses) (c d : Config) (middle : List Item)
    (excep : Nat) (inside : Inside c .thrown d)
    (exception : (d.frames c.fresh).exception = excep)
    (control : d.control = .stmt clauses.expandElse :: middle) :
    match clauses.handle c.stack.isSome excep with
    | none => Walks d.scopes d { d with control := middle }
    | some handled =>
      Handled c d middle handled.thrown (clauses.handles c.stack.isSome excep) := by
  match clauses with
  | .endTry => exact Walks.stmt control rfl rfl rfl
  | .final block => exact Walks.stmt control rfl rfl rfl
  | .handler e block others =>
    rw [Clauses.expandElse] at control
    have test := inside.branch control
    simp only [Cond.holds, exception, decide_eq_true_eq] at test
    by_cases same : excep = e
    · rw [if_pos same] at test
      simp only [Clauses.handle, Clauses.handles, if_pos same]
      obtain ⟨tested, trail, quiet⟩ := test.quiet (List.suffix_refl _)
      rw [inside.scopes] at quiet
      have moved := inside.control (.stmt (.seq (.setFlag .handled) (.seq block.expand closing)) ::
        middle)
      obtain ⟨d₁, split, control₁, -, fresh₁, inside₁, -⟩ := moved.opens rfl
      obtain ⟨d₂, flagged, control₂, -, fresh₂, inside₂, -⟩ := inside₁.setFlag control₁
      obtain ⟨d₃, opened, control₃, -, fresh₃, inside₃, -⟩ := inside₂.opens control₂
      have fresh : d₃.fresh = d.fresh := fresh₃.trans (fresh₂.trans fresh₁)
      have way := trail.trans (Trail.head split (Trail.head flagged (trail_single opened)))
      have way_quiet := List.forall_mem_append.mpr ⟨quiet, List.forall_mem_cons.mpr
        ⟨moved.quiet rfl (Or.inl rfl), List.forall_mem_cons.mpr
          ⟨inside₁.quiet control₁ (Or.inr rfl), List.forall_mem_singleton.mpr
            (inside₂.quiet control₂ (Or.inl (block.expand_seq _)))⟩⟩⟩
      have runs := block.passes d₃ _ control₃
      rw [inside₃.stack, inside₃.scopes, fresh] at runs
      cases thrown : (block.meaning c.stack.isSome).thrown with
      | none =>
        simp only [Passes, thrown] at runs
        obtain ⟨ran, e', trail', control', scopes, keeps, grown, marked⟩ := runs
        rw [fresh] at grown
        have inside' := (inside₃.keeps keeps scopes).1
        have close := inside'.closing Flag.noConfusion control'
        obtain ⟨closed, trail'', quiet'⟩ := close.quiet (List.suffix_refl _)
        rw [inside'.scopes] at quiet'
        refine ⟨_, _, way.trans (trail'.trans trail''), rfl, inside'.control middle,
          grown, ?_⟩
        exact (marked.before_quiet quiet' grown).after_quiet way_quiet grown
      | some excep' =>
        simp only [Passes, thrown] at runs
        obtain ⟨ran, e', trail', keeps, grown, marked, top⟩ := runs
        rw [fresh] at grown
        rw [inside₃.stack] at top
        refine ⟨_, _, way.trans trail', inside₃.outside keeps, grown, ?_, top⟩
        exact marked.after_quiet way_quiet grown
    · rw [if_neg same] at test
      have search := others.handler_passes c { d with control := .stmt others.expandElse :: middle }
        middle excep (inside.control _) exception rfl
      simp only [Clauses.handle, Clauses.handles, if_neg same]
      obtain ⟨tested, trail, quiet⟩ := test.quiet (List.suffix_refl _)
      rw [inside.scopes] at quiet
      cases found : others.handle c.stack.isSome excep with
      | none =>
        simp only [found] at search ⊢
        exact test.trans search
      | some handled =>
        simp only [found] at search ⊢
        cases thrown : handled.thrown with
        | none =>
          simp only [Handled, thrown] at search
          obtain ⟨passed, e', trail', control', inside', grown, marked⟩ := search
          exact ⟨_, e', trail.trans trail', control', inside', grown,
            marked.after_quiet quiet grown⟩
        | some excep' =>
          simp only [Handled, thrown] at search
          obtain ⟨passed, e', trail', keeps, grown, marked, top⟩ := search
          exact ⟨_, e', trail.trans trail', keeps, grown, marked.after_quiet quiet grown, top⟩

/-- What the end of a `Try` passes. -/
theorem Clauses.tail_passes (clauses : Clauses) (c d : Config) (rest : List Item) (flag : Flag)
    (inside : Inside c flag d)
    (control : d.control = .stmt clauses.expandTail :: .leave :: rest) :
    Passes c d rest ((clauses.conclude c.stack.isSome).andThen
        (if flag = .thrown then raise c.stack.isSome (d.frames c.fresh).exception
          else ⟨[], none⟩)).thrown fun high passed =>
      Tail clauses.block c d.fresh high (clauses.concludes c.stack.isSome) passed := by
  match clauses with
  | .endTry =>
    rw [Clauses.conclude, Result.nil_andThen, Clauses.concludes]
    have last := inside.ending_passes control
    rw [Result.thrown_ite]
    exact Passes.before (Trail.refl d) le_rfl (fun _ _ _ quiet => Marked.quiet quiet) last
  | .final block =>
    rw [Clauses.expandTail] at control
    obtain ⟨d₁, split, control₁, -, fresh₁, inside₁, frame₁⟩ := inside.opens control
    obtain ⟨d₂, split', control₂, -, fresh₂, inside₂, frame₂⟩ := inside₁.opens control₁
    obtain ⟨flag', d₃, marks, control₃, -, fresh₃, inside₃, done, kind, exception⟩ :=
      inside₂.marks control₂
    obtain ⟨d₄, opened, control₄, -, fresh₄, inside₄, frame₄⟩ := inside₃.opens control₃
    have fresh : d₄.fresh = d.fresh := fresh₄.trans (fresh₃.trans (fresh₂.trans fresh₁))
    have begins : Begins c.fresh block d₁ := by
      refine ⟨⟨_, control₁⟩, ?_⟩
      rw [inside₁.scopes]
      rfl
    obtain ⟨marked, trail, quiet⟩ := marks.quiet (List.suffix_refl _)
    rw [inside₂.scopes] at quiet
    have before_quiet := List.forall_mem_singleton.mpr (inside.quiet control (Or.inl rfl))
    have front_quiet := List.forall_mem_append.mpr ⟨quiet, List.forall_mem_singleton.mpr
      (inside₃.quiet control₃ (Or.inl (block.expand_seq _)))⟩
    have way := Trail.head split (Trail.head split' (trail.trans (trail_single opened)))
    have runs := block.passes d₄ _ control₄
    rw [inside₄.stack, inside₄.scopes, fresh] at runs
    rw [Clauses.conclude, Clauses.concludes, Clauses.block]
    cases thrown : (block.meaning c.stack.isSome).thrown with
    | none =>
      simp only [Passes, thrown] at runs
      obtain ⟨ran, e, trail', control', scopes, keeps, grown, ran_marked⟩ := runs
      rw [fresh] at grown
      obtain ⟨inside', frame'⟩ := inside₄.keeps keeps scopes
      have close := inside'.closing done control'
      obtain ⟨closed, trail'', quiet'⟩ := close.quiet (List.suffix_refl _)
      rw [inside'.scopes] at quiet'
      have last := (inside'.control (.stmt ending :: .leave :: rest)).ending_passes rfl
      have same : (e.frames c.fresh).exception = (d.frames c.fresh).exception := by
        rw [frame', frame₄, exception, frame₂, frame₁]
      simp only [kind, same] at last
      rw [Result.andThen_of_none thrown]
      change Passes c d rest (Result.thrown (if flag = .thrown then _ else ⟨[], none⟩)) _
      rw [Result.thrown_ite]
      refine Passes.before (way.trans (trail'.trans trail'')) grown ?_ last
      intro high ended above ended_quiet
      refine ⟨[d], d₁, marked ++ [d₃] ++ (ran ++ closed) ++ ended, ?_, before_quiet, begins,
        inside₁.scopes, ?_⟩
      · simp only [List.cons_append, List.nil_append]
      · have inner := (ran_marked.before_quiet quiet' grown).after_quiet front_quiet grown
        exact (inner.widen (List.suffix_cons _ _) le_rfl above).before_quiet ended_quiet
          (grown.trans above)
    | some excep =>
      simp only [Passes, thrown] at runs
      obtain ⟨ran, e, trail', keeps, grown, ran_marked, top⟩ := runs
      rw [fresh] at grown
      rw [inside₄.stack] at top
      rw [Result.andThen_of_some thrown, thrown]
      refine ⟨_, e, way.trans trail', inside₄.outside keeps, grown, ?_, top⟩
      refine ⟨[d], d₁, marked ++ [d₃] ++ ran, rfl, before_quiet, begins, inside₁.scopes, ?_⟩
      exact (ran_marked.after_quiet front_quiet grown).widen (List.suffix_cons _ _) le_rfl le_rfl
  | .handler e block others => exact others.tail_passes c d rest flag inside control

end

/-- A program that has nothing behind it serves its entries when it settles. -/
theorem Prog.finallyRuns (program : Prog) {start : Config}
    (control : start.control = [.stmt program.expand])
    (leaves : ∀ d top e, Keeps start d → start.stack = some top →
      (d.ntyExceptionThrow e).control = []) :
    FinallyRuns start ↔ program.settles start.stack.isSome = true := by
  have stopped : ∀ {d : Config} {high : Nat} {passed : List Config}, d.control = [] →
      Trail Config.step start passed d → start.fresh ≤ high →
      Marked start.scopes start.fresh high (program.settles start.stack.isSome) passed →
      (FinallyRuns start ↔ program.settles start.stack.isSome = true) := by
    intro d high passed ended trail grown marked
    have stops : d.step = none := by
      rw [Config.step, ended]
    have quiet : Quiet [] d := by
      refine ⟨List.nil_suffix, ?_, ?_⟩
      · rintro block ⟨body, clauses, rest, same, -⟩
        rw [ended] at same
        cases same
      · rintro number ⟨⟨second, rest, same⟩, -⟩
        rw [ended] at same
        cases same
    have whole := (marked.widen List.nil_suffix le_rfl le_rfl).before_quiet
      (List.forall_mem_singleton.mpr quiet) grown
    exact (finallyRuns_iff_everywhere trail stops).trans whole.served
  have passes := program.passes start [] control
  cases thrown : (program.meaning start.stack.isSome).thrown with
  | none =>
    simp only [Passes, thrown] at passes
    obtain ⟨passed, d, trail, ended, -, -, grown, marked⟩ := passes
    exact stopped ended trail grown marked
  | some e =>
    simp only [Passes, thrown] at passes
    obtain ⟨passed, d, trail, keeps, grown, marked, top, found⟩ := passes
    exact stopped (leaves d top e keeps found) trail grown marked

/-- From every exception stack, the block of every `Finally` whose `Try` is entered runs exactly
once, before control passes its `EndTry` or reaches a handler around it, when no handler with such
a block behind it is left by an exception; and only then. -/
theorem finallyRuns_iff (program : Prog) (depth : Nat) (memory : Nat → Frame) :
    FinallyRuns (Config.initial program depth memory) ↔ program.settles (0 < depth) = true := by
  have active : (Config.initial program depth memory).stack.isSome = decide (0 < depth) := by
    by_cases empty : depth = 0
    · simp [Config.initial, empty]
    · have positive : 0 < depth := Nat.pos_of_ne_zero empty
      simp [Config.initial, empty, positive]
  rw [← active]
  apply program.finallyRuns rfl
  intro d top e keeps found
  rw [(throw_initial keeps found e).2.2]

/-- A handler that throws, with a block of `Finally` behind it, in the body of another `Try`. -/
def throwingHandler : Prog :=
  .attempt (.attempt (.throw 1) (.handler 1 (.throw 2) (.final (.output 3))))
    (.handler 2 (.output 4) .endTry)

/-- Its block does not run: the handler around it is reached, and 4 is all that is printed. -/
theorem not_finallyRuns_throwingHandler :
    (throwingHandler.meaning false).out = [.output 4] ∧
    ¬ FinallyRuns (Config.initial throwingHandler 0 fun _ => ⟨none, 0, none, .entered, none⟩) := by
  refine ⟨rfl, ?_⟩
  have settles := @Prog.finallyRuns throwingHandler
    (Config.initial throwingHandler 0 fun _ => ⟨none, 0, none, .entered, none⟩) rfl (by
      intro d top e keeps found
      cases found)
  rw [settles]
  decide

end BackendCpp.Trycatch
