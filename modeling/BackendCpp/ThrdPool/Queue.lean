import BackendCpp.Library.Ring
import BackendCpp.ThrdPool.Program

/-!
# The tasks between posting and taking

The ring holds the tasks that were accepted and not taken, oldest first. Every section keeps
this: a post writes behind the last task, a thread takes the first, and once the pool is
closed no thread takes any more.
-/

namespace BackendCpp.ThrdPool

open BackendCpp.Library

/-- What a step does to the pool, for each kind of step. -/
def Effect (s : System) (next : Pool) : Event → Prop
  | .posted task code => threadPoolPost s.pool true true task.func task.arg = (code, next)
  | .took _ task => threadWorker s.pool = .take task next
  | .leaves _ => threadWorker s.pool = .leave next
  | .closes => s.pool.closed = 0 ∧ next = { s.pool with closed := 1 }
  | .waits _ | .ran _ | .refuses | .frees => next = s.pool

/-- A step does what its event says. -/
theorem step_effect {s next : System} {event : Event} (step : Step s event next) :
    Effect s next.pool event := by
  obtain ⟨action, step⟩ := step
  cases action with
  | post func arg =>
    simp only [System.exec] at step
    split at step
    · cases step
    · cases step
      rfl
  | worker thread =>
    simp only [System.exec] at step
    split at step
    · cases step
    · split at step
      · cases step
        rfl
      · rename_i left
        cases step
        exact left
      · rename_i took
        cases step
        exact took
  | done thread =>
    simp only [System.exec] at step
    split at step
    · cases step
      rfl
    · cases step
    · cases step
    · cases step
  | destroy =>
    simp only [System.exec] at step
    split at step
    · cases step
    · split at step
      · cases step
        rfl
      · rename_i opened
        cases step
        exact ⟨not_not.mp opened, rfl⟩
  | free =>
    simp only [System.exec] at step
    split at step
    · cases step
    · cases step
      rfl

/-- What the ring holds between the steps. -/
structure Sound (size : Nat) (trace : List Event) (pool : Pool) : Prop where
  /-- The size of the array. -/
  width : pool.queueSize.toNat = size
  /-- It is an `int`. -/
  bound : size < 2 ^ 31
  /-- The flag is 0 or 1. -/
  flag : pool.closed = 0 ∨ pool.closed = 1
  /-- The ring holds what was accepted and not taken. -/
  pending : ∃ items, accepted trace = taken trace ++ items ∧
    items.length = pool.taskQueue.count.toNat ∧
    Ring size pool.taskQueue.queue pool.taskQueue.head.toNat pool.taskQueue.tail.toNat items
  /-- The flag says whether the pool was closed. -/
  closes : pool.closed ≠ 0 ↔ .closes ∈ trace
  /-- Nothing was taken after that. -/
  quiet : ∀ before after, trace = before ++ .closes :: after → taken after = []

/-- What is accepted in two traces follows each other. -/
@[simp] theorem accepted_append (one two : List Event) :
    accepted (one ++ two) = accepted one ++ accepted two := List.filterMap_append

/-- What is taken in two traces follows each other. -/
@[simp] theorem taken_append (one two : List Event) :
    taken (one ++ two) = taken one ++ taken two := List.filterMap_append

/-- A positive `int` is the same number without sign. -/
theorem toUInt32_toNat {size : Int32} (positive : ¬ size ≤ 0) :
    (size.toUInt32.toNat : Int) = size.toInt ∧ 0 < size.toUInt32.toNat ∧
      size.toUInt32.toNat < 2 ^ 31 := by
  have above : 0 < size.toInt := by
    rw [Int32.le_iff_toInt_le] at positive
    have zero : (0 : Int32).toInt = 0 := rfl
    omega
  have bits : size.toInt = size.toBitVec.toInt := rfl
  have word : size.toUInt32.toNat = size.toBitVec.toNat := rfl
  rw [bits, BitVec.toInt_eq_toNat_cond] at above
  rw [bits, BitVec.toInt_eq_toNat_cond, word]
  split at above
  · rename_i small
    rw [if_pos small]
    omega
  · have wide := size.toBitVec.isLt
    omega

/-- The pool that `thread_pool_create` returns. -/
theorem create_sound {memory : Nat → Task} {thrdCount queueSize : Int32} {pool : Pool}
    (created : threadPoolCreate memory thrdCount queueSize = some pool) :
    Sound queueSize.toUInt32.toNat [] pool := by
  unfold threadPoolCreate at created
  split at created
  · cases created
  · rename_i positive
    cases created
    obtain ⟨_, above, bound⟩ := toUInt32_toNat fun small => positive (Or.inr small)
    refine ⟨rfl, bound, Or.inl rfl, ⟨[], rfl, rfl, Ring.nil memory above⟩, by simp, ?_⟩
    intro before after split
    exact absurd split (by simp)

/-- The codes of `thread_pool_post`, and what it does to the pool. -/
theorem post_spec {pool next : Pool} {func arg : UInt64} {code : Int}
    (posted : threadPoolPost pool true true func arg = (code, next)) :
    (code = -1 ∧ func = 0 ∧ next = pool) ∨
    (code = -3 ∧ func ≠ 0 ∧ pool.closed ≠ 0 ∧ next = pool) ∨
    (code = -4 ∧ func ≠ 0 ∧ pool.closed = 0 ∧ pool.taskQueue.count = pool.queueSize ∧
      next = pool) ∨
    (code = 0 ∧ func ≠ 0 ∧ pool.closed = 0 ∧ pool.taskQueue.count ≠ pool.queueSize ∧
      next = { pool with
        taskQueue :=
          { pool.taskQueue with
            queue := Function.update pool.taskQueue.queue pool.taskQueue.tail.toNat ⟨func, arg⟩
            tail := (pool.taskQueue.tail + 1) % pool.queueSize
            count := pool.taskQueue.count + 1 } }) := by
  simp only [threadPoolPost, Bool.not_true, Bool.false_eq_true, if_false] at posted
  split at posted
  · rename_i null
    cases posted
    exact Or.inl ⟨rfl, null, rfl⟩
  · rename_i given
    split at posted
    · rename_i closed
      cases posted
      exact Or.inr (Or.inl ⟨rfl, given, closed, rfl⟩)
    · rename_i opened
      split at posted
      · rename_i full
        cases posted
        exact Or.inr (Or.inr (Or.inl ⟨rfl, given, not_not.mp opened, full, rfl⟩))
      · rename_i space
        cases posted
        exact Or.inr (Or.inr (Or.inr ⟨rfl, given, not_not.mp opened, space, rfl⟩))

/-- The index behind an index of the ring. -/
theorem next_index {size : Nat} (bound : size < 2 ^ 31) {index queueSize : UInt32}
    (width : queueSize.toNat = size) (inside : index.toNat < size) :
    ((index + 1) % queueSize).toNat = (index.toNat + 1) % size := by
  have one : (1 : UInt32).toNat = 1 := rfl
  have small : (index.toNat + 1) % 2 ^ 32 = index.toNat + 1 := Nat.mod_eq_of_lt (by omega)
  rw [UInt32.toNat_mod, UInt32.toNat_add, width, one, small]

/-- The trace grows by an event that neither takes nor closes. -/
theorem Sound.quiet_append {size : Nat} {trace : List Event} {pool : Pool}
    (sound : Sound size trace pool) {event : Event} (takes : taken [event] = [])
    (before after : List Event) (split : trace ++ [event] = before ++ .closes :: after) :
    taken after = [] := by
  rcases List.eq_nil_or_concat after with empty | ⟨front, last, whole⟩
  · rw [empty]
    rfl
  · rw [List.concat_eq_append] at whole
    rw [whole, ← List.cons_append, ← List.append_assoc] at split
    obtain ⟨same, equal⟩ := List.append_inj' split rfl
    rw [whole, taken_append, sound.quiet before front same, ← equal, takes]
    rfl

/-- A step that leaves the pool alone and neither accepts nor takes keeps the ring. -/
theorem Sound.idle {size : Nat} {trace : List Event} {pool : Pool}
    (sound : Sound size trace pool) {event : Event} (accepts : accepted [event] = [])
    (takes : taken [event] = []) (other : event ≠ .closes) :
    Sound size (trace ++ [event]) pool := by
  refine ⟨sound.width, sound.bound, sound.flag, ?_, ?_, sound.quiet_append takes⟩
  · rw [accepted_append, taken_append, accepts, takes, List.append_nil, List.append_nil]
    exact sound.pending
  · rw [sound.closes, List.mem_append, List.mem_singleton]
    constructor
    · intro earlier
      exact Or.inl earlier
    · intro closes
      rcases closes with earlier | now
      · exact earlier
      · exact absurd now.symm other

/-- A post keeps the ring. -/
theorem Sound.post {size : Nat} {trace : List Event} {pool next : Pool}
    (sound : Sound size trace pool) {task : Task} {code : Int}
    (posted : threadPoolPost pool true true task.func task.arg = (code, next)) :
    Sound size (trace ++ [.posted task code]) next := by
  rcases post_spec posted with ⟨isCode, _, same⟩ | ⟨isCode, _, _, same⟩ | ⟨isCode, _, _, _, same⟩ |
    ⟨isCode, _, opened, space, result⟩
  · rw [isCode, same]
    exact sound.idle rfl rfl Event.noConfusion
  · rw [isCode, same]
    exact sound.idle rfl rfl Event.noConfusion
  · rw [isCode, same]
    exact sound.idle rfl rfl Event.noConfusion
  · obtain ⟨items, split, length, ring⟩ := sound.pending
    have fits := ring.fits
    have width := sound.width
    have bound := sound.bound
    have less : items.length < size := by
      have different : pool.taskQueue.count.toNat ≠ pool.queueSize.toNat := by
        intro same
        exact space (UInt32.toNat_inj.mp same)
      omega
    have one : (1 : UInt32).toNat = 1 := rfl
    rw [isCode, result]
    refine ⟨width, bound, sound.flag, ⟨items ++ [task], ?_, ?_, ?_⟩, ?_,
      sound.quiet_append rfl⟩
    · rw [accepted_append, taken_append, split]
      simp [accepted, taken]
    · change (items ++ [task]).length = (pool.taskQueue.count + 1).toNat
      rw [UInt32.toNat_add, one, List.length_append, List.length_singleton]
      omega
    · change Ring size _ _ ((pool.taskQueue.tail + 1) % pool.queueSize).toNat (items ++ [task])
      rw [next_index bound width ring.tail_lt]
      exact ring.push less task
    · rw [List.mem_append, ← sound.closes]
      simp

/-- A thread that takes keeps the ring, and the pool is open. -/
theorem Sound.take {size : Nat} {trace : List Event} {pool next : Pool}
    (sound : Sound size trace pool) (thread : Nat) {task : Task}
    (took : threadWorker pool = .take task next) :
    pool.closed = 0 ∧ Sound size (trace ++ [.took thread task]) next := by
  unfold threadWorker at took
  split at took
  · cases took
  · rename_i awake
    split at took
    · cases took
    · rename_i notClosed
      have opened : pool.closed = 0 := sound.flag.resolve_right notClosed
      obtain ⟨items, split, length, ring⟩ := sound.pending
      have present : pool.taskQueue.count ≠ 0 := by
        intro empty
        exact awake ⟨empty, opened⟩
      have positive : pool.taskQueue.count.toNat ≠ 0 := by
        intro zero
        exact present (UInt32.toNat_inj.mp zero)
      have one : (1 : UInt32).toNat = 1 := rfl
      have noCloses : Event.closes ∉ trace := by
        intro earlier
        exact sound.closes.mpr earlier opened
      cases items with
      | nil => exact absurd length.symm positive
      | cons first rest =>
        have isFirst := ring.first
        cases took
        refine ⟨opened, sound.width, sound.bound, sound.flag, ⟨rest, ?_, ?_, ?_⟩, ?_, ?_⟩
        · rw [accepted_append, taken_append, split, isFirst]
          simp [accepted, taken]
        · change rest.length = (pool.taskQueue.count - 1).toNat
          rw [List.length_cons] at length
          have atLeast : (1 : UInt32) ≤ pool.taskQueue.count := by
            rw [UInt32.le_iff_toNat_le, one]
            omega
          rw [UInt32.toNat_sub_of_le _ _ atLeast, one]
          omega
        · change Ring size _ ((pool.taskQueue.head + 1) % pool.queueSize).toNat _ rest
          rw [next_index sound.bound sound.width ring.inside]
          exact ring.pop
        · rw [List.mem_append, ← sound.closes]
          simp
        · intro before after split'
          have member : Event.closes ∈ trace ++ [.took thread
              (pool.taskQueue.queue pool.taskQueue.head.toNat)] := by
            rw [split']
            simp
          rcases List.mem_append.mp member with earlier | now
          · exact absurd earlier noCloses
          · exact absurd (List.mem_singleton.mp now) Event.noConfusion

/-- Every step keeps the ring. -/
theorem step_sound {size : Nat} {trace : List Event} {s next : System}
    (sound : Sound size trace s.pool) {event : Event} (step : Step s event next) :
    Sound size (trace ++ [event]) next.pool := by
  have effect := step_effect step
  cases event with
  | posted task code => exact sound.post effect
  | took thread task => exact (sound.take thread effect).2
  | waits thread =>
    rw [show next.pool = s.pool from effect]
    exact sound.idle rfl rfl Event.noConfusion
  | leaves thread =>
    have left : threadWorker s.pool = .leave next.pool := effect
    unfold threadWorker at left
    split at left
    · cases left
    · split at left
      · have kept : Sound size (trace ++ [.leaves thread]) s.pool :=
          sound.idle rfl rfl Event.noConfusion
        rw [← Section.leave.inj left]
        exact ⟨kept.width, kept.bound, kept.flag, kept.pending, kept.closes, kept.quiet⟩
      · cases left
  | ran thread =>
    rw [show next.pool = s.pool from effect]
    exact sound.idle rfl rfl Event.noConfusion
  | closes =>
    obtain ⟨opened, result⟩ : s.pool.closed = 0 ∧ next.pool = { s.pool with closed := 1 } := effect
    rw [result]
    refine ⟨sound.width, sound.bound, Or.inr rfl, ?_, ?_, sound.quiet_append rfl⟩
    · rw [accepted_append, taken_append]
      simp only [accepted, taken, List.filterMap_cons, List.filterMap_nil, List.append_nil]
      exact sound.pending
    · simp
  | refuses =>
    rw [show next.pool = s.pool from effect]
    exact sound.idle rfl rfl Event.noConfusion
  | frees =>
    rw [show next.pool = s.pool from effect]
    exact sound.idle rfl rfl Event.noConfusion

/-- Every run from `thread_pool_create` keeps the ring. -/
theorem run_ring {size : Nat} {pool : Pool} (sound : Sound size [] pool) {trace : List Event}
    {s : System} (run : Run Step (System.initial pool) trace s) : Sound size trace s.pool := by
  induction run with
  | nil => exact sound
  | snoc before step ih => exact step_sound ih step

/-- Around every run of the pool: the ring is in order, `thread_pool_post` answers -4 exactly
when an open pool is full and -3 exactly when the pool is closed, the tasks that were taken
are the first ones that were accepted, in order, and nothing is taken once the pool is
closed. -/
theorem run_queue {memory : Nat → Task} {thrdCount queueSize : Int32} {pool : Pool}
    (created : threadPoolCreate memory thrdCount queueSize = some pool) {trace : List Event}
    {s : System} (run : Run Step (System.initial pool) trace s) :
    (s.pool.queueSize.toNat : Int) = queueSize.toInt ∧
    s.pool.taskQueue.tail.toNat = (s.pool.taskQueue.head.toNat + s.pool.taskQueue.count.toNat) %
      s.pool.queueSize.toNat ∧
    s.pool.taskQueue.count.toNat ≤ s.pool.queueSize.toNat ∧
    (∀ task code next, Step s (.posted task code) next →
      (code = -4 ↔ task.func ≠ 0 ∧ s.pool.closed = 0 ∧
        s.pool.taskQueue.count = s.pool.queueSize) ∧
      (code = -3 ↔ task.func ≠ 0 ∧ s.pool.closed ≠ 0)) ∧
    taken trace <+: accepted trace ∧
    (s.pool.closed ≠ 0 ↔ .closes ∈ trace) ∧
    (∀ before after, trace = before ++ .closes :: after → taken after = []) ∧
    (s.pool.closed ≠ 0 → ∀ thread task next, ¬ Step s (.took thread task) next) := by
  have sound := run_ring (create_sound created) run
  obtain ⟨items, split, length, ring⟩ := sound.pending
  have width := sound.width
  have positive : ¬ queueSize ≤ 0 := by
    intro small
    unfold threadPoolCreate at created
    rw [if_pos (Or.inr small)] at created
    cases created
  refine ⟨?_, ?_, ?_, ?_, ⟨items, split.symm⟩, sound.closes, sound.quiet, ?_⟩
  · rw [width]
    exact (toUInt32_toNat positive).1
  · rw [width, ← length]
    exact ring.finish
  · rw [width, ← length]
    exact ring.fits
  · intro task code next step
    have posted : threadPoolPost s.pool true true task.func task.arg = (code, next.pool) :=
      step_effect step
    rcases post_spec posted with ⟨rfl, null, _⟩ | ⟨rfl, given, closed, _⟩ |
      ⟨rfl, given, opened, full, _⟩ | ⟨rfl, given, opened, space, _⟩
    · simp [null]
    · simp [given, closed]
    · simp [given, opened, full]
    · simp [opened, space]
  · intro closed thread task next step
    exact closed (sound.take thread (step_effect step)).1

/-- A pool of one thread and a ring of one place: a task is posted, a second one refused, the
first one taken. -/
theorem run_queue_single : ∃ pool trace s,
    threadPoolCreate (fun _ => ⟨0, 0⟩) 1 1 = some pool ∧
    Run Step (System.initial pool) trace s ∧
    trace = [.posted ⟨5, 6⟩ 0, .posted ⟨7, 8⟩ (-4), .took 0 ⟨5, 6⟩] ∧
    taken trace <+: accepted trace := by
  let pool : Pool := ⟨⟨0, 0, 0, fun _ => ⟨0, 0⟩⟩, 0, 1, 1, 1⟩
  have created : threadPoolCreate (fun _ => ⟨0, 0⟩) 1 1 = some pool := rfl
  have one : Run Step (System.initial pool) [.posted ⟨5, 6⟩ 0] _ :=
    Run.snoc Run.nil ⟨.post 5 6, rfl⟩
  have two : Run Step (System.initial pool) [.posted ⟨5, 6⟩ 0, .posted ⟨7, 8⟩ (-4)] _ :=
    Run.snoc one ⟨.post 7 8, rfl⟩
  have three : Run Step (System.initial pool)
      [.posted ⟨5, 6⟩ 0, .posted ⟨7, 8⟩ (-4), .took 0 ⟨5, 6⟩] _ :=
    Run.snoc two ⟨.worker 0, rfl⟩
  exact ⟨pool, _, _, created, three, rfl, (run_queue created three).2.2.2.2.1⟩

end BackendCpp.ThrdPool
