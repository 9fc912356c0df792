import BackendCpp.Timewheel.Program

/-!
# Where a node belongs

All arithmetic of the wheel on words is read here as arithmetic on numbers. `distance` is
how far an expiry lies ahead of the current time, around the wrap. A list of the wheel holds
a node rightly when `Fits` holds: a near list one with less than 256 to go, a list of a level
one whose own block of time has not begun. `add_node` always picks such a list, a tick keeps
the fit until the block begins, and `timer_shift` moves exactly the list whose block begins.
The lists at index 0 of the first three levels are never moved; they are not `Live`.
-/

namespace BackendCpp.Timewheel

open BackendCpp.Library

/-- How far an expiry lies ahead of the current time, modulo 2^32. -/
def distance (time expire : UInt32) : Nat := (expire - time).toNat

/-- A slot of the first upper level spans the near wheel. -/
@[simp] theorem unit_zero : unit 0 = 256 := rfl

/-- A slot of the second one spans the first. -/
@[simp] theorem unit_one : unit 1 = 16384 := rfl

/-- A slot of the third one spans the second. -/
@[simp] theorem unit_two : unit 2 = 1048576 := rfl

/-- A slot of the last one spans the third. -/
@[simp] theorem unit_three : unit 3 = 67108864 := rfl

/-- The units are powers of two. -/
theorem unit_eq (level : Fin 4) : unit level = 2 ^ (8 + 6 * level.val) := by
  fin_cases level <;> rfl

/-- The distance in numbers. -/
theorem distance_eq (time expire : UInt32) :
    distance time expire = (4294967296 - time.toNat + expire.toNat) % 4294967296 := by
  exact UInt32.toNat_sub expire time

/-- The near index is the remainder modulo 256. -/
theorem nearIdx_val (time : UInt32) : (nearIdx time).val = time.toNat % 256 := by
  change (time.toNat &&& (2 ^ 8 - 1)) % 256 = time.toNat % 256
  rw [Nat.and_two_pow_sub_one_eq_mod]
  omega

/-- The level index is the remainder modulo 64. -/
theorem levelIdx_val (time : UInt32) : (levelIdx time).val = time.toNat % 64 := by
  change (time.toNat &&& (2 ^ 6 - 1)) % 64 = time.toNat % 64
  rw [Nat.and_two_pow_sub_one_eq_mod]
  omega

/-- The level index after a shift of a word. -/
theorem levelIdx_shift (time amount : UInt32) (bound : amount.toNat < 32) :
    (levelIdx (time >>> amount)).val = time.toNat / 2 ^ amount.toNat % 64 := by
  rw [levelIdx_val, UInt32.toNat_shiftRight, Nat.mod_eq_of_lt bound, Nat.shiftRight_eq_div_pow]

/-- A node with this expiry is rightly in the list at this time. -/
def Fits (time expire : UInt32) : Slot → Prop
  | .near idx => distance time expire < 256 ∧ idx.val = expire.toNat % 256
  | .t level idx => idx.val = expire.toNat / unit level % 64 ∧
      expire.toNat % unit level < distance time expire ∧
      distance time expire < unit level * 64

/-- What `add_node` decides: the near list below 256, or the level whose range the distance
is in. -/
theorem slotFor_cases (expire time : UInt32) :
    (distance time expire < 256 ∧ slotFor expire time = .near (nearIdx expire)) ∨
    ∃ level idx, slotFor expire time = .t level idx ∧ idx.val = expire.toNat / unit level % 64 ∧
      unit level ≤ distance time expire ∧ distance time expire < unit level * 64 := by
  have range : distance time expire < 4294967296 := UInt32.toNat_lt _
  have below : ∀ limit : UInt32, (expire - time < limit) ↔ distance time expire < limit.toNat :=
    fun limit => UInt32.lt_iff_toNat_lt
  unfold slotFor
  simp only [below]
  by_cases first : distance time expire < TIME_NEAR.toNat
  · rw [if_pos first]
    exact Or.inl ⟨first, rfl⟩
  · rw [if_neg first]
    right
    have low : 256 ≤ distance time expire := not_lt.mp first
    by_cases second : distance time expire <
        ((1 : UInt32) <<< (TIME_NEAR_SHIFT + TIME_LEVEL_SHIFT)).toNat
    · rw [if_pos second]
      exact ⟨0, _, rfl, levelIdx_shift _ _ (by decide), low, second⟩
    · rw [if_neg second]
      have low : 16384 ≤ distance time expire := not_lt.mp second
      by_cases third : distance time expire <
          ((1 : UInt32) <<< (TIME_NEAR_SHIFT + 2 * TIME_LEVEL_SHIFT)).toNat
      · rw [if_pos third]
        exact ⟨1, _, rfl, levelIdx_shift _ _ (by decide), low, third⟩
      · rw [if_neg third]
        have low : 1048576 ≤ distance time expire := not_lt.mp third
        by_cases fourth : distance time expire <
            ((1 : UInt32) <<< (TIME_NEAR_SHIFT + 3 * TIME_LEVEL_SHIFT)).toNat
        · rw [if_pos fourth]
          exact ⟨2, _, rfl, levelIdx_shift _ _ (by decide), low, fourth⟩
        · rw [if_neg fourth]
          have low : 67108864 ≤ distance time expire := not_lt.mp fourth
          exact ⟨3, _, rfl, levelIdx_shift _ _ (by decide), low, range⟩

/-- The list that `add_node` picks is right for the node. -/
theorem slotFor_fits (expire time : UInt32) : Fits time expire (slotFor expire time) := by
  rcases slotFor_cases expire time with ⟨near, picked⟩ | ⟨level, idx, picked, index, low, high⟩
  · rw [picked]
    exact ⟨near, nearIdx_val expire⟩
  · rw [picked]
    have positive : 0 < unit level := Nat.mul_pos (by decide) (Nat.pow_pos (by decide))
    exact ⟨index, lt_of_lt_of_le (Nat.mod_lt _ positive) low, high⟩

/-- A node that is moved when its block begins goes to a live list. -/
theorem slotFor_live {expire time : UInt32} {level : Fin 4}
    (begins : distance time expire = expire.toNat % unit level) :
    Live (slotFor expire time) := by
  rcases slotFor_cases expire time with ⟨near, picked⟩ | ⟨lower, idx, picked, index, low, high⟩
  · rw [picked]
    trivial
  · rw [picked]
    have nonzero : lower = 3 ∨ idx.val ≠ 0 := by
      fin_cases level <;> fin_cases lower <;> simp at begins index low high ⊢ <;> omega
    rcases nonzero with last | inner
    · exact Or.inl last
    · refine Or.inr fun zero => inner ?_
      rw [zero]
      rfl

/-- The block of a list begins at this time. -/
def Comes (time : UInt32) (level : Fin 4) (idx : Fin 64) : Prop :=
  time.toNat % unit level = 0 ∧ idx.val = time.toNat / unit level % 64 ∧ Live (.t level idx)

/-- At most one live block begins at a time. -/
theorem Comes.unique {time : UInt32} {level level' : Fin 4} {idx idx' : Fin 64}
    (one : Comes time level idx) (other : Comes time level' idx') :
    level = level' ∧ idx = idx' := by
  obtain ⟨start, index, live⟩ := one
  obtain ⟨start', index', live'⟩ := other
  have bound := time.toNat_lt
  have live : level = 3 ∨ idx.val ≠ 0 := live.imp id fun inner zero => inner (Fin.ext zero)
  have live' : level' = 3 ∨ idx'.val ≠ 0 := live'.imp id fun inner zero => inner (Fin.ext zero)
  have same : level = level' := by
    fin_cases level <;> fin_cases level' <;>
      simp at start index live start' index' live' bound ⊢ <;> omega
  subst same
  exact ⟨rfl, Fin.ext (index.trans index'.symm)⟩

/-- The distance after a tick. -/
theorem distance_tick {time expire : UInt32} (ahead : 0 < distance time expire) :
    distance (time + 1) expire + 1 = distance time expire := by
  have next : (time + 1).toNat = (time.toNat + 1) % 4294967296 := UInt32.toNat_add time 1
  have bound := time.toNat_lt
  have bound' := expire.toNat_lt
  rw [distance_eq] at ahead ⊢
  rw [distance_eq, next]
  omega

/-- A tick keeps a node in its place until the block of its list begins. -/
theorem Fits.tick {time expire : UInt32} {slot : Slot} (fits : Fits time expire slot)
    (ahead : 0 < distance time expire) :
    Fits (time + 1) expire slot ∨
      ∃ level idx, slot = .t level idx ∧ (time + 1).toNat % unit level = 0 ∧
        idx.val = (time + 1).toNat / unit level % 64 := by
  have closer := distance_tick ahead
  cases slot with
  | near idx => exact Or.inl ⟨by have := fits.1; omega, fits.2⟩
  | t level idx =>
    obtain ⟨index, block, range⟩ := fits
    by_cases stays : expire.toNat % unit level < distance (time + 1) expire
    · exact Or.inl ⟨index, stays, by omega⟩
    · right
      refine ⟨level, idx, rfl, ?_⟩
      have bound := (time + 1).toNat_lt
      have bound' := expire.toNat_lt
      have begins : distance (time + 1) expire = expire.toNat % unit level := by omega
      rw [distance_eq] at begins
      fin_cases level <;> simp at begins index ⊢ <;> omega

/-- When the block of a list begins, a node that was rightly in it lies as far ahead as its
offset in the block. -/
theorem Fits.begins {time expire : UInt32} {level : Fin 4} {idx : Fin 64}
    (fits : Fits time expire (.t level idx)) (ahead : 0 < distance time expire)
    (comes : Comes (time + 1) level idx) :
    distance (time + 1) expire = expire.toNat % unit level := by
  have closer := distance_tick ahead
  obtain ⟨index, block, range⟩ := fits
  obtain ⟨start, index', -⟩ := comes
  have bound := (time + 1).toNat_lt
  have bound' := expire.toNat_lt
  rw [distance_eq] at closer ⊢
  rw [← closer] at block range
  generalize time.toNat = now at *
  fin_cases level <;> simp at index block range start index' ⊢ <;> omega

/-- The mask test of `timer_shift` asks whether the time is a multiple of the unit. -/
theorem mask_test (ct : UInt32) (level : Fin 4) :
    ct &&& (UInt32.ofNat (unit level) - 1) = 0 ↔ ct.toNat % unit level = 0 := by
  rw [← UInt32.toNat_inj, UInt32.toNat_and]
  have mask : (UInt32.ofNat (unit level) - 1).toNat = 2 ^ (8 + 6 * level.val) - 1 := by
    fin_cases level <;> rfl
  rw [mask, Nat.and_two_pow_sub_one_eq_mod, unit_eq]
  rfl

/-- Which list `timer_shift` moves: the live one whose block begins, if there is one. -/
def Moves (ct : UInt32) : Option (Option (Fin 4 × Fin 64)) → Prop
  | none => False
  | some none => ∀ level idx, ¬ Comes ct level idx
  | some (some (level, idx)) => Comes ct level idx

/-- The invariant of the loop of `timer_shift`: no block of a lower level begins. -/
def ShiftInv (ct : UInt32) (size : Nat) (state : UInt32 × UInt32 × Nat) : Prop :=
  ∃ level : Fin 4, size = 4 - level.val ∧
    state = (UInt32.ofNat (unit level), ct >>> UInt32.ofNat (8 + 6 * level.val), level.val) ∧
    ∀ lower idx, lower < level → ¬ Comes ct lower idx

/-- Only at time 0 do all four levels stand at index 0. -/
theorem level_lt_three {n : Nat} {level : Fin 4} (positive : n ≠ 0) (bound : n < 4294967296)
    (start : n % unit level = 0) (index : n / unit level % 64 = 0) : level.val < 3 := by
  fin_cases level
  · decide
  · decide
  · decide
  · simp only [Fin.reduceFinMk, unit_three] at start index
    omega

/-- A multiple of the unit of a level is one of the unit of every lower level. -/
theorem unit_dvd {n : Nat} {level other : Fin 4} (above : ¬ other < level)
    (multiple : n % unit other = 0) : n % unit level = 0 := by
  have divides : unit level ∣ unit other := by
    rw [unit_eq, unit_eq]
    apply Nat.pow_dvd_pow
    have order : level.val ≤ other.val := Nat.le_of_not_lt above
    omega
  exact Nat.mod_eq_zero_of_dvd (divides.trans (Nat.dvd_of_mod_eq_zero multiple))

/-- The mask of the next level. -/
theorem next_mask {level : Fin 4} (inner : level.val < 3) :
    UInt32.ofNat (unit level) <<< TIME_LEVEL_SHIFT =
      UInt32.ofNat (unit ⟨level.val + 1, by omega⟩) := by
  have cases : level = 0 ∨ level = 1 ∨ level = 2 := by omega
  rcases cases with rfl | rfl | rfl
  · change UInt32.ofNat (unit 0) <<< TIME_LEVEL_SHIFT = UInt32.ofNat (unit 1)
    decide
  · change UInt32.ofNat (unit 1) <<< TIME_LEVEL_SHIFT = UInt32.ofNat (unit 2)
    decide
  · change UInt32.ofNat (unit 2) <<< TIME_LEVEL_SHIFT = UInt32.ofNat (unit 3)
    decide

/-- The amounts by which `timer_shift` shifts the time are small. -/
theorem amount_toNat {n : Nat} (small : n < 4) : (UInt32.ofNat (8 + 6 * n)).toNat = 8 + 6 * n := by
  rw [UInt32.toNat_ofNat', Nat.mod_eq_of_lt]
  omega

/-- The time shifted for the next level. -/
theorem next_time (ct : UInt32) {n : Nat} (inner : n < 3) :
    (ct >>> UInt32.ofNat (8 + 6 * n)) >>> TIME_LEVEL_SHIFT =
      ct >>> UInt32.ofNat (8 + 6 * (n + 1)) := by
  have low : (8 + 6 * n) % 32 = 8 + 6 * n := Nat.mod_eq_of_lt (by omega)
  have high : (8 + 6 * (n + 1)) % 32 = 8 + 6 * n + 6 := by omega
  rw [← UInt32.toNat_inj, UInt32.toNat_shiftRight, UInt32.toNat_shiftRight,
    UInt32.toNat_shiftRight, amount_toNat (by omega), amount_toNat (by omega),
    show TIME_LEVEL_SHIFT.toNat % 32 = 6 from rfl, ← Nat.shiftRight_add, low, high]

/-- One pass of the loop of `timer_shift`. -/
theorem timerShiftPass_spec {ct : UInt32} (nonzero : ct ≠ 0) (size : Nat)
    (state : UInt32 × UInt32 × Nat) (inv : ShiftInv ct size state) :
    (∃ smaller next, smaller < size ∧ timerShiftPass ct state = .inl next ∧
        ShiftInv ct smaller next) ∨
      (∃ result, timerShiftPass ct state = .inr result ∧ Moves ct result) := by
  obtain ⟨level, rfl, rfl, lower⟩ := inv
  have bound := ct.toNat_lt
  have positive : ct.toNat ≠ 0 := by
    intro zero
    exact nonzero (UInt32.toNat_inj.mp zero)
  have index : (levelIdx (ct >>> UInt32.ofNat (8 + 6 * level.val))).val =
      ct.toNat / unit level % 64 := by
    have small := amount_toNat level.isLt
    rw [levelIdx_shift _ _ (by omega), small, unit_eq]
  by_cases start : ct.toNat % unit level = 0
  · have test := (mask_test ct level).mpr start
    by_cases zero : levelIdx (ct >>> UInt32.ofNat (8 + 6 * level.val)) = 0
    · left
      rw [zero] at index
      have inner := level_lt_three positive bound start index.symm
      have below : ∀ idx, ¬ Comes ct level idx := by
        rintro idx ⟨-, same, live⟩
        rcases live with last | nonzero
        · rw [last] at inner
          exact absurd inner (by decide)
        · exact nonzero (Fin.ext (same.trans index.symm))
      have pass : timerShiftPass ct
          (UInt32.ofNat (unit level), ct >>> UInt32.ofNat (8 + 6 * level.val), level.val) =
          .inl (UInt32.ofNat (unit level) <<< TIME_LEVEL_SHIFT,
            (ct >>> UInt32.ofNat (8 + 6 * level.val)) >>> TIME_LEVEL_SHIFT, level.val + 1) := by
        simp only [timerShiftPass, test, zero, if_true, ne_eq, not_true_eq_false, if_false]
      refine ⟨4 - (level.val + 1), _, by omega, pass, ⟨level.val + 1, by omega⟩, rfl, ?_, ?_⟩
      · rw [next_mask inner, next_time ct inner]
      · intro other idx less
        rcases Nat.lt_succ_iff_lt_or_eq.mp less with below' | same
        · exact lower other idx below'
        · rw [Fin.ext same]
          exact below idx
    · right
      have pass : timerShiftPass ct
          (UInt32.ofNat (unit level), ct >>> UInt32.ofNat (8 + 6 * level.val), level.val) =
          .inr (some (some (level, levelIdx (ct >>> UInt32.ofNat (8 + 6 * level.val))))) := by
        simp only [timerShiftPass, test, zero, if_true, ne_eq, not_false_eq_true, dif_pos level.isLt]
      exact ⟨_, pass, start, index, Or.inr zero⟩
  · right
    have pass : timerShiftPass ct
        (UInt32.ofNat (unit level), ct >>> UInt32.ofNat (8 + 6 * level.val), level.val) =
        .inr (some none) := by
      have test := mt (mask_test ct level).mp start
      simp only [timerShiftPass, test, if_false]
    refine ⟨_, pass, ?_⟩
    intro other idx comes
    by_cases below : other < level
    · exact lower other idx below comes
    · exact start (unit_dvd below comes.1)

/-- `timer_shift` returns. It advances the time and moves the live list whose block begins,
if there is one. -/
theorem timerShift_spec (T : Wheel) :
    ∃ T', Leaves (fun fuel => timerShift fuel T) T' ∧
      ((∃ level idx, Comes (T.time + 1) level idx ∧
          T' = moveList { T with time := T.time + 1 } level idx) ∨
        ((∀ level idx, ¬ Comes (T.time + 1) level idx) ∧ T' = { T with time := T.time + 1 })) := by
  by_cases wrap : T.time + 1 = 0
  · refine ⟨moveList { T with time := T.time + 1 } 3 0, ?_, Or.inl ⟨3, 0, ?_, rfl⟩⟩
    · refine Leaves.of_forall fun fuel => ?_
      simp only [timerShift, if_pos wrap]
    · rw [wrap]
      exact ⟨rfl, rfl, Or.inl rfl⟩
  · have start : ShiftInv (T.time + 1) 4 (TIME_NEAR, (T.time + 1) >>> TIME_NEAR_SHIFT, 0) :=
      ⟨0, rfl, rfl, fun lower _ less => absurd less (by simp)⟩
    obtain ⟨result, leaves, moves⟩ := loop_rule (ShiftInv (T.time + 1)) (Moves (T.time + 1))
      (timerShiftPass_spec wrap) 4 _ start
    cases result with
    | none => exact moves.elim
    | some choice =>
      cases choice with
      | none =>
        refine ⟨{ T with time := T.time + 1 }, ?_, Or.inr ⟨moves, rfl⟩⟩
        obtain ⟨limit, returns⟩ := leaves
        refine ⟨limit, fun fuel enough => ?_⟩
        simp only [timerShift, if_neg wrap, returns fuel enough]
        rfl
      | some list =>
        obtain ⟨level, idx⟩ := list
        refine ⟨moveList { T with time := T.time + 1 } level idx, ?_, Or.inl ⟨level, idx, moves, rfl⟩⟩
        obtain ⟨limit, returns⟩ := leaves
        refine ⟨limit, fun fuel enough => ?_⟩
        simp only [timerShift, if_neg wrap, returns fuel enough]
        rfl

end BackendCpp.Timewheel
