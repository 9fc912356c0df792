import BackendCpp.Expiry.Clock
import BackendCpp.Ngx.Runs

/-!
# The two comparisons of the timers' tree

`ngx_rbtree_insert_value` compares keys as they are, and may be relied upon in every run.
`ngx_rbtree_insert_timer_value` takes the sign of the difference. That is the order of the
distances from a base as long as all keys lie less than half the range after that base; the
comment in the source promises the callers' keys to be spread in a small range.
-/

namespace BackendCpp.Ngx

open BackendCpp.Library
open RbtreeC (Addr)

/-- The comparison of `ngx_rbtree_insert_value` may always be relied upon. -/
theorem keyLess_reliable (new : UInt32) (keys : List UInt32) : Reliable keyLess new keys := by
  unfold keyLess
  refine ⟨?_, ?_⟩
  · intro one _ other _ notLess less'
    rw [decide_eq_false_iff_not, UInt32.not_lt] at notLess
    rw [decide_eq_true_iff] at less' ⊢
    exact UInt32.lt_of_lt_of_le less' notLess
  · intro one _ less'
    rw [decide_eq_true_iff] at less'
    rw [decide_eq_false_iff_not, UInt32.not_lt]
    exact UInt32.le_of_lt less'

/-- The comparison of `ngx_rbtree_insert_timer_value` looks at the upper half of the differences. -/
theorem timerLess_iff (one other : UInt32) :
    timerLess one other = true ↔ 2 ^ 31 ≤ (one - other).toNat := by
  have bound := (one - other).toNat_lt
  unfold timerLess
  rw [decide_eq_true_iff, Int32.lt_iff_toInt_lt, Expiry.toInt_reading, Int.bmod_def]
  have zero : (0 : Int32).toInt = 0 := rfl
  rw [zero]
  split <;> omega

/-- All keys lie less than half the range after a base. -/
def Window (base : UInt32) (keys : List UInt32) : Prop :=
  ∀ key ∈ keys, (key - base).toNat < 2 ^ 31

/-- In a window the timers' comparison is the order of the distances from the base. -/
theorem timerLess_window (base : UInt32) {one other : UInt32} (near : (one - base).toNat < 2 ^ 31)
    (near' : (other - base).toNat < 2 ^ 31) :
    timerLess one other = true ↔ (one - base).toNat < (other - base).toNat := by
  rw [timerLess_iff]
  rw [UInt32.toNat_sub] at near near' ⊢
  have oneBound := one.toNat_lt
  have otherBound := other.toNat_lt
  have baseBound := base.toNat_lt
  rw [UInt32.toNat_sub, UInt32.toNat_sub]
  omega

/-- In a window the timers' comparison may be relied upon. -/
theorem timerLess_reliable (base : UInt32) {new : UInt32} {keys : List UInt32}
    (window : Window base (new :: keys)) : Reliable timerLess new keys := by
  have atNew := window new List.mem_cons_self
  have atKey : ∀ key ∈ keys, (key - base).toNat < 2 ^ 31 :=
    fun key member => window key (List.mem_cons_of_mem _ member)
  refine ⟨?_, ?_⟩
  · intro one inOne other inOther notLess less'
    rw [← Bool.not_eq_true, timerLess_window _ (atKey other inOther) (atKey one inOne)] at notLess
    rw [timerLess_window _ atNew (atKey one inOne)] at less'
    rw [timerLess_window _ atNew (atKey other inOther)]
    omega
  · intro one inOne less'
    rw [timerLess_window _ atNew (atKey one inOne)] at less'
    rw [← Bool.not_eq_true, timerLess_window _ (atKey one inOne) atNew]
    omega

/-- In every run of `ngx_rbtree_insert` with `ngx_rbtree_insert_value`, and of
`ngx_rbtree_delete`, the memory is a red-black tree on the entries that the calls make: in the
order of their keys, equal keys in the order of their insertion, every node with its contents. The
next call returns, too. -/
theorem insert_value_run {mem : Addr → NgxRbtreeNode} {s : Addr} {trace : List Call} {T : NgxRbtree}
    (run : Run (Step keyLess) (ngxRbtreeInit mem s) trace T) :
    Spells T (entries keyLess trace) ∧
    (entries keyLess trace).Pairwise (fun one other => one.key ≤ other.key) ∧
    (∀ node contents, node ≠ T.sentinel → ¬ Reach T node →
      ∃ T', Step keyLess T (.insert node contents) T') ∧
    (∀ node, Reach T node → ∃ T', Step keyLess T (.delete node) T') := by
  obtain ⟨represents, sorted⟩ :=
    run_represents run fun _ _ _ _ _ => keyLess_reliable _ _
  refine ⟨represents.spells, ?_, fun node contents inner fresh =>
    represents.insert_returns keyLess inner fresh contents, fun node present =>
    represents.delete_returns keyLess present⟩
  refine List.Pairwise.imp ?_ sorted
  intro one other notLess
  unfold keyLess at notLess
  rw [decide_eq_false_iff_not, UInt32.not_lt] at notLess
  exact notLess

/-- Any memory before `ngx_rbtree_init`. -/
def rawMemory : Addr → NgxRbtreeNode := fun _ => ⟨7, 8, 9, 10, 1, 3⟩

/-- Two nodes with one key; the first is deleted and inserted again. -/
def sameKey : List Call :=
  [.insert 1 ⟨5, 0, 0, 0, 0, 1⟩, .insert 2 ⟨5, 0, 0, 0, 0, 2⟩, .insert 3 ⟨4, 0, 0, 0, 0, 3⟩,
    .delete 1, .insert 1 ⟨5, 1, 2, 3, 1, 4⟩]

/-- The node that is inserted again comes to stand behind the other one. -/
theorem insert_value_run_sameKey : ∃ T, Run (Step keyLess) (ngxRbtreeInit rawMemory 9) sameKey T ∧
    Spells T [⟨3, 4, 3⟩, ⟨2, 5, 2⟩, ⟨1, 5, 4⟩] := by
  obtain ⟨T, run⟩ := exists_run rawMemory 9 (show mayAll keyLess 9 [] sameKey = true by decide)
    fun _ _ _ _ _ => keyLess_reliable _ _
  have order : entries keyLess sameKey = [⟨3, 4, 3⟩, ⟨2, 5, 2⟩, ⟨1, 5, 4⟩] := by decide
  exact ⟨T, run, order ▸ (insert_value_run run).1⟩

/-- The keys that an insertion of a run meets, and its own, lie in a window. -/
def WindowedRun (trace : List Call) : Prop :=
  ∀ early node contents late, trace = early ++ .insert node contents :: late →
    ∃ base, Window base (contents.key :: (entries timerLess early).map Entry.key)

/-- In such a run the comparison may be relied upon. -/
theorem WindowedRun.reliable {trace : List Call} (windows : WindowedRun trace) :
    ReliableRun timerLess trace := by
  intro early node contents late split
  obtain ⟨base, window⟩ := windows early node contents late split
  exact timerLess_reliable _ window

/-- In every run of `ngx_rbtree_insert` with `ngx_rbtree_insert_timer_value`, and of
`ngx_rbtree_delete`, in which each insertion meets keys of some window, the memory is a red-black
tree on the entries that the calls make. Seen from any base whose window has them all, they are in
the order of their distances, wherever the keys wrap around. The next call returns, too. -/
theorem insert_timer_value_run {mem : Addr → NgxRbtreeNode} {s : Addr} {trace : List Call}
    {T : NgxRbtree} (run : Run (Step timerLess) (ngxRbtreeInit mem s) trace T)
    (windows : WindowedRun trace) :
    Spells T (entries timerLess trace) ∧
    (∀ base, Window base ((entries timerLess trace).map Entry.key) →
      (entries timerLess trace).Pairwise (fun one other => one.key - base ≤ other.key - base)) ∧
    (∀ node contents, node ≠ T.sentinel → ¬ Reach T node →
      ∃ T', Step timerLess T (.insert node contents) T') ∧
    (∀ node, Reach T node → ∃ T', Step timerLess T (.delete node) T') := by
  obtain ⟨represents, sorted⟩ := run_represents run windows.reliable
  refine ⟨represents.spells, ?_, fun node contents inner fresh =>
    represents.insert_returns timerLess inner fresh contents, fun node present =>
    represents.delete_returns timerLess present⟩
  intro base window
  refine sorted.imp_of_mem ?_
  intro one other inOne inOther notLess
  have nearOne := window _ (List.mem_map_of_mem (f := Entry.key) inOne)
  have nearOther := window _ (List.mem_map_of_mem (f := Entry.key) inOther)
  rw [← Bool.not_eq_true, timerLess_window _ nearOther nearOne] at notLess
  rw [UInt32.le_iff_toNat_le]
  omega

/-- Three keys around the wrap. -/
def wrapping : List Call :=
  [.insert 1 ⟨4294967290, 0, 0, 0, 0, 1⟩, .insert 2 ⟨3, 0, 0, 0, 0, 2⟩,
    .insert 3 ⟨4294967295, 0, 0, 0, 0, 3⟩]

/-- A window can be checked. -/
theorem window_of_all {base : UInt32} {keys : List UInt32}
    (all : keys.all (fun key => decide ((key - base).toNat < 2 ^ 31)) = true) :
    Window base keys := by
  intro key member
  simpa using List.all_eq_true.mp all key member

/-- The keys around the wrap lie in the window of the first. -/
theorem wrapping_windowed : WindowedRun wrapping := by
  intro early node contents late split
  refine ⟨4294967290, ?_⟩
  unfold wrapping at split
  rcases early with _ | ⟨first, _ | ⟨second, _ | ⟨third, early⟩⟩⟩
  · simp only [List.nil_append, List.cons.injEq, Call.insert.injEq] at split
    obtain ⟨⟨rfl, rfl⟩, -⟩ := split
    exact window_of_all (by decide)
  · simp only [List.cons_append, List.nil_append, List.cons.injEq, Call.insert.injEq] at split
    obtain ⟨rfl, ⟨rfl, rfl⟩, -⟩ := split
    exact window_of_all (by decide)
  · simp only [List.cons_append, List.nil_append, List.cons.injEq, Call.insert.injEq] at split
    obtain ⟨rfl, rfl, ⟨rfl, rfl⟩, -⟩ := split
    exact window_of_all (by decide)
  · simp at split

/-- The key 3 comes after the keys below the wrap. -/
theorem insert_timer_value_run_wrapping :
    ∃ T, Run (Step timerLess) (ngxRbtreeInit rawMemory 9) wrapping T ∧
      Spells T [⟨1, 4294967290, 1⟩, ⟨3, 4294967295, 3⟩, ⟨2, 3, 2⟩] := by
  obtain ⟨T, run⟩ := exists_run rawMemory 9
    (show mayAll timerLess 9 [] wrapping = true by decide) wrapping_windowed.reliable
  have order : entries timerLess wrapping =
      [⟨1, 4294967290, 1⟩, ⟨3, 4294967295, 3⟩, ⟨2, 3, 2⟩] := by decide
  exact ⟨T, run, order ▸ (insert_timer_value_run run wrapping_windowed).1⟩

end BackendCpp.Ngx
