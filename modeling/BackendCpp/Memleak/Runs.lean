import BackendCpp.Library.Run
import BackendCpp.Memleak.Program

/-!
# What the tracer records

`free` clears its flag and sets it again behind `free_f` only. When the file of the pointer is
missing it returns before that, so the first free of a pointer that is not live turns the
recording of frees off for the rest of the run.
-/

namespace BackendCpp.Memleak

open Library

/-- The flags are set, and the pointers with a file are the live ones. -/
structure InStep (t : Tracer) (live : Finset Nat) : Prop where
  /-- The next `malloc` is recorded. -/
  malloc : t.enableMallocHook = 1
  /-- The next `free` is. -/
  free : t.enableFreeHook = 1
  /-- The files are those of the live pointers. -/
  files : ∀ ptr, (t.mem ptr).isSome ↔ ptr ∈ live

/-- Every free is of a pointer that is live at that time. -/
def FreesLive (history : List Call) : Prop :=
  ∀ before ptr after, history = before ++ .free ptr :: after → ptr ∈ live before

/-- The live pointers after one more call. -/
theorem live_snoc (history : List Call) (call : Call) :
    live (history ++ [call]) = liveAfter (live history) call := by
  simp only [live, List.foldl_append, List.foldl_cons, List.foldl_nil]

/-- Nothing is freed in the empty history. -/
theorem freesLive_nil : FreesLive [] := by
  intro before ptr after split
  simp at split

/-- One more call frees live pointers only if it does and the others did. -/
theorem freesLive_snoc (history : List Call) (call : Call) :
    FreesLive (history ++ [call]) ↔
      FreesLive history ∧ ∀ ptr, call = .free ptr → ptr ∈ live history := by
  constructor
  · intro all
    constructor
    · intro before ptr after split
      apply all before ptr (after ++ [call])
      rw [split, List.append_assoc, List.cons_append]
    · intro ptr isFree
      apply all history ptr []
      rw [isFree]
  · rintro ⟨earlier, last⟩ before ptr after split
    cases after using List.reverseRecOn with
    | nil =>
      obtain ⟨same, isFree⟩ := List.append_inj' split rfl
      rw [← same]
      exact last ptr (List.singleton_inj.mp isFree)
    | append_singleton after final =>
      rw [← List.cons_append, ← List.append_assoc] at split
      exact earlier before ptr after (List.append_inj' split rfl).1

/-- `malloc_f` leaves the flags and the files. -/
theorem mallocF_same (ptr : Nat) (t : Tracer) :
    (mallocF ptr t).enableFreeHook = t.enableFreeHook ∧ (mallocF ptr t).mem = t.mem := by
  unfold mallocF
  split
  · exact ⟨rfl, rfl⟩
  · exact ⟨rfl, rfl⟩

/-- `free_f` leaves the flags and the files. -/
theorem freeF_same {ptr : Nat} {t t' : Tracer} (freed : freeF ptr t = some t') :
    t'.enableMallocHook = t.enableMallocHook ∧ t'.enableFreeHook = t.enableFreeHook ∧
    t'.mem = t.mem := by
  unfold freeF at freed
  split at freed
  · rw [← Option.some.inj freed]
    exact ⟨rfl, rfl, rfl⟩
  · split at freed
    · rw [← Option.some.inj freed]
      exact ⟨rfl, rfl, rfl⟩
    · cases freed

/-- `malloc` with its flag set writes the file of the block. -/
theorem malloc_spec {size caller ptr answer : Nat} {t t' : Tracer}
    (hooked : t.enableMallocHook = 1) (returned : malloc size caller ptr t = (answer, t')) :
    t'.enableMallocHook = 1 ∧ t'.enableFreeHook = t.enableFreeHook ∧
    t'.mem = Function.update t.mem answer (some ⟨caller, answer, size⟩) := by
  have on : t.enableMallocHook ≠ 0 := by
    rw [hooked]
    decide
  unfold malloc at returned
  rw [if_pos on, Prod.mk.injEq] at returned
  obtain ⟨same, after⟩ := returned
  rw [← after, ← same]
  obtain ⟨flag, files⟩ := mallocF_same ptr
    { t with enableMallocHook := 0, printed := t.printed ++ ["malloc \n"] }
  exact ⟨rfl, flag, congrArg (Function.update · ptr _) files⟩

/-- `free` with its flag set removes the file and frees, or leaves the flag cleared when there
is no file. -/
theorem free_hooked {ptr : Nat} {t t' : Tracer} (hooked : t.enableFreeHook = 1)
    (returned : free ptr t = some t') :
    t'.enableMallocHook = t.enableMallocHook ∧
    ((t.mem ptr).isSome → t'.enableFreeHook = 1 ∧ t'.mem = Function.update t.mem ptr none) ∧
    (¬ (t.mem ptr).isSome → t'.enableFreeHook = 0) := by
  have on : t.enableFreeHook ≠ 0 := by
    rw [hooked]
    decide
  unfold free at returned
  rw [if_pos on] at returned
  cases file : t.mem ptr with
  | none =>
    simp only [file] at returned
    rw [← Option.some.inj returned]
    exact ⟨rfl, by simp, fun _ => rfl⟩
  | some record =>
    simp only [file] at returned
    obtain ⟨freed, inner, same⟩ := Option.map_eq_some_iff.mp returned
    obtain ⟨flag, _, files⟩ := freeF_same inner
    rw [← same]
    exact ⟨flag, fun _ => ⟨rfl, files⟩, by simp⟩

/-- `free` with its flag cleared records nothing. -/
theorem free_unhooked {ptr : Nat} {t t' : Tracer} (unhooked : t.enableFreeHook = 0)
    (returned : free ptr t = some t') :
    t'.enableMallocHook = t.enableMallocHook ∧ t'.enableFreeHook = 0 := by
  have off : ¬ t.enableFreeHook ≠ 0 := not_not.mpr unhooked
  unfold free at returned
  rw [if_neg off] at returned
  obtain ⟨mallocFlag, freeFlag, _⟩ := freeF_same returned
  exact ⟨mallocFlag, freeFlag.trans unhooked⟩

/-- The flag of `malloc` is always set again. -/
theorem Step.mallocHook {t t' : Tracer} {call : Call} (step : Step t call t')
    (hooked : t.enableMallocHook = 1) (either : t.enableFreeHook = 1 ∨ t.enableFreeHook = 0) :
    t'.enableMallocHook = 1 := by
  cases step with
  | malloc _ returned => exact (malloc_spec hooked returned).1
  | free returned =>
    rcases either with on | off
    · exact (free_hooked on returned).1.trans hooked
    · exact (free_unhooked off returned).1.trans hooked

/-- A call that frees no dead pointer keeps the tracer in step. -/
theorem InStep.step {t t' : Tracer} {used : Finset Nat} {call : Call} (inStep : InStep t used)
    (step : Step t call t') (good : ∀ ptr, call = .free ptr → ptr ∈ used) :
    InStep t' (liveAfter used call) := by
  have mallocHook := step.mallocHook inStep.malloc (Or.inl inStep.free)
  cases step with
  | @malloc _ size caller ptr answer given returned =>
    obtain ⟨_, freeHook, files⟩ := malloc_spec inStep.malloc returned
    refine ⟨mallocHook, freeHook.trans inStep.free, ?_⟩
    intro p
    rw [files, liveAfter, Finset.mem_insert, ← inStep.files p]
    by_cases here : p = answer
    · simp [here]
    · simp [here]
  | @free _ ptr returned =>
    obtain ⟨_, removes, _⟩ := free_hooked inStep.free returned
    obtain ⟨freeHook, files⟩ := removes ((inStep.files ptr).mpr (good ptr rfl))
    refine ⟨mallocHook, freeHook, ?_⟩
    intro p
    rw [files, liveAfter, Finset.mem_erase, ← inStep.files p]
    by_cases here : p = ptr
    · simp [here]
    · simp [here]

/-- The free of a dead pointer clears the flag of `free`. -/
theorem InStep.lost {t t' : Tracer} {used : Finset Nat} {ptr : Nat} (inStep : InStep t used)
    (step : Step t (.free ptr) t') (dead : ptr ∉ used) : t'.enableFreeHook = 0 := by
  cases step with
  | free returned =>
    apply (free_hooked inStep.free returned).2.2
    rw [inStep.files ptr]
    exact dead

/-- A cleared flag of `free` stays cleared. -/
theorem Step.unhooked {t t' : Tracer} {call : Call} (step : Step t call t')
    (mallocHook : t.enableMallocHook = 1) (unhooked : t.enableFreeHook = 0) :
    t'.enableFreeHook = 0 := by
  cases step with
  | malloc _ returned => exact (malloc_spec mallocHook returned).2.1.trans unhooked
  | free returned => exact (free_unhooked unhooked returned).2

/-- While live pointers are freed the tracer is in step, afterwards it does not record frees. -/
theorem run_inStep_or_unhooked {history : List Call} {t : Tracer}
    (run : Run Step .initial history t) :
    t.enableMallocHook = 1 ∧
    (FreesLive history ∧ InStep t (live history) ∨
      ¬ FreesLive history ∧ t.enableFreeHook = 0) := by
  induction run with
  | nil =>
    refine ⟨rfl, Or.inl ⟨freesLive_nil, rfl, rfl, ?_⟩⟩
    intro ptr
    simp [Tracer.initial, live]
  | @snoc history t t' call before step ih =>
    obtain ⟨mallocHook, recorded⟩ := ih
    rw [live_snoc, freesLive_snoc]
    rcases recorded with ⟨frees, inStep⟩ | ⟨lost, unhooked⟩
    · refine ⟨step.mallocHook mallocHook (Or.inl inStep.free), ?_⟩
      by_cases good : ∀ ptr, call = .free ptr → ptr ∈ live history
      · exact Or.inl ⟨⟨frees, good⟩, inStep.step step good⟩
      · refine Or.inr ⟨fun both => good both.2, ?_⟩
        obtain ⟨ptr, wrong⟩ := not_forall.mp good
        obtain ⟨isFree, dead⟩ := Classical.not_imp.mp wrong
        rw [isFree] at step
        exact inStep.lost step dead
    · refine ⟨step.mallocHook mallocHook (Or.inr unhooked), Or.inr ⟨fun both => lost both.1, ?_⟩⟩
      exact step.unhooked mallocHook unhooked

/-- After every history of calls, the tracer is in step with the heap exactly when every free
was of a live pointer. -/
theorem tracer_in_step_iff {history : List Call} {t : Tracer} (run : Run Step .initial history t) :
    InStep t (live history) ↔ FreesLive history := by
  obtain ⟨_, recorded⟩ := run_inStep_or_unhooked run
  rcases recorded with ⟨frees, inStep⟩ | ⟨lost, unhooked⟩
  · exact ⟨fun _ => frees, fun _ => inStep⟩
  · constructor
    · intro inStep
      have on := inStep.free
      rw [unhooked] at on
      cases on
    · exact fun frees => absurd frees lost

/-- A block is given out and freed: the tracer is in step. -/
theorem tracer_in_step_of_one :
    ∃ t, Run Step .initial [.malloc 5 7 16, .free 16] t ∧ InStep t ∅ := by
  have given : Step .initial (.malloc 5 7 16) (malloc 5 7 16 .initial).2 :=
    Step.malloc (Or.inr (Finset.notMem_empty 16)) rfl
  have freed : Run Step .initial [.malloc 5 7 16, .free 16] _ :=
    (Run.nil.snoc given).snoc (Step.free rfl)
  refine ⟨_, freed, (tracer_in_step_iff freed).mpr ?_⟩
  have first : FreesLive [.malloc 5 7 16] :=
    (freesLive_snoc [] _).mpr ⟨freesLive_nil, by simp⟩
  exact (freesLive_snoc [.malloc 5 7 16] _).mpr ⟨first, by simp [live, liveAfter]⟩

/-- The free of a null pointer takes the tracer out of step. -/
theorem tracer_out_of_step :
    ¬ ∀ history t, Run Step .initial history t → InStep t (live history) := by
  intro always
  have freed : Step .initial (.free 0) _ := Step.free rfl
  have inStep := always _ _ (Run.nil.snoc freed)
  have on := inStep.free
  revert on
  decide

end BackendCpp.Memleak
