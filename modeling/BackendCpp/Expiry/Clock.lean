import Mathlib.Tactic

/-!
# Deadlines on a wrapping clock

Both timers say how long to wait by a signed difference of two 32-bit readings and decide
what is due by comparing them as unsigned numbers. For one deadline the two ways agree
exactly when the clock does not wrap between the reading and the deadline.
-/

namespace BackendCpp.Expiry

/-- The answer of `find_nearest_expire_timer` for a first deadline: the signed difference, or
zero when it is not positive. -/
def nearest (deadline now : UInt32) : Int :=
  let diff := (deadline.toInt32 - now.toInt32).toInt
  if diff > 0 then diff else 0

/-- The deadline and the reading, as unsigned numbers, are less than half a turn apart. -/
def Near (deadline now : UInt32) : Prop :=
  -2 ^ 31 ≤ (deadline.toNat : Int) - now.toNat ∧ (deadline.toNat : Int) - now.toNat < 2 ^ 31

/-- The two decisions agree at a reading: the time to wait is zero exactly when a handler runs
now, and after a positive answer none runs before that time has passed and one does then. -/
def Agrees (find : UInt32 → Option Int) (fires : UInt32 → Prop) (now : UInt32) : Prop :=
  (find now = some 0 ↔ fires now) ∧
  ∀ wait : Nat, 0 < wait → find now = some (wait : Int) →
    (∀ early < wait, ¬ fires (now + UInt32.ofNat early)) ∧ fires (now + UInt32.ofNat wait)

/-- A reading as a signed number. -/
theorem toInt_reading (reading : UInt32) :
    reading.toInt32.toInt = (reading.toNat : Int).bmod (2 ^ 32) :=
  BitVec.toInt_eq_toNat_bmod reading.toBitVec

/-- The signed difference of two readings. -/
theorem signed_difference (deadline now : UInt32) :
    (deadline.toInt32 - now.toInt32).toInt =
      ((deadline.toNat : Int) - now.toNat).bmod (2 ^ 32) := by
  rw [Int32.toInt_sub, toInt_reading, toInt_reading, ← Int.sub_bmod]

/-- The time to wait when the clock does not wrap before the deadline. -/
theorem Near.nearest {deadline now : UInt32} (near : Near deadline now) :
    nearest deadline now =
      if (deadline.toNat : Int) - now.toNat > 0 then (deadline.toNat : Int) - now.toNat else 0 := by
  have bounds := near
  rw [Near] at bounds
  simp only [Expiry.nearest, signed_difference]
  rw [Int.bmod_eq_of_le (by omega) (by omega)]

/-- The clock that has gone on without a wrap. -/
theorem add_toNat {now : UInt32} {steps : Nat} (fits : now.toNat + steps < 2 ^ 32) :
    (now + UInt32.ofNat steps).toNat = now.toNat + steps := by
  rw [UInt32.toNat_add, UInt32.toNat_ofNat', Nat.mod_eq_of_lt (show steps < 2 ^ 32 by omega),
    Nat.mod_eq_of_lt fits]

/-- For one first deadline the decisions agree exactly when it is near. -/
theorem agrees_iff_near {find : UInt32 → Option Int} {fires : UInt32 → Prop}
    {deadline now : UInt32} (found : find now = some (nearest deadline now))
    (due : ∀ reading, fires reading ↔ ¬ deadline > reading) :
    Agrees find fires now ↔ Near deadline now := by
  have high := deadline.toNat_lt
  have low := now.toNat_lt
  have compare (reading : UInt32) : fires reading ↔ deadline.toNat ≤ reading.toNat := by
    rw [due reading, gt_iff_lt, UInt32.not_lt, UInt32.le_iff_toNat_le]
  constructor
  · intro agrees
    have same := agrees.1
    rw [found, compare, Option.some.injEq] at same
    simp only [nearest, signed_difference] at same
    rw [Near]
    by_contra far
    by_cases ahead : 2 ^ 31 ≤ (deadline.toNat : Int) - now.toNat
    · have wrapped : ((deadline.toNat : Int) - now.toNat).bmod (2 ^ 32) =
          (deadline.toNat : Int) - now.toNat - 2 ^ 32 := by
        rw [← Int.sub_bmod_right, Int.bmod_eq_of_le (by omega) (by omega)]
        rfl
      rw [wrapped, if_neg (by omega)] at same
      have due' := same.mp rfl
      omega
    · have wrapped : ((deadline.toNat : Int) - now.toNat).bmod (2 ^ 32) =
          (deadline.toNat : Int) - now.toNat + 2 ^ 32 := by
        rw [← Int.add_bmod_right, Int.bmod_eq_of_le (by omega) (by omega)]
        rfl
      rw [wrapped, if_pos (by omega)] at same
      have waits := same.mpr (by omega)
      omega
  · intro near
    have value := near.nearest
    have bounds := near
    rw [Near] at bounds
    rw [value] at found
    constructor
    · rw [found, compare, Option.some.injEq]
      by_cases later : (deadline.toNat : Int) - now.toNat > 0
      · rw [if_pos later]
        omega
      · rw [if_neg later]
        omega
    · intro wait positive answer
      rw [found, Option.some.injEq] at answer
      have exact : (deadline.toNat : Int) = now.toNat + wait := by
        by_cases later : (deadline.toNat : Int) - now.toNat > 0
        · rw [if_pos later] at answer
          omega
        · rw [if_neg later] at answer
          omega
      constructor
      · intro early before
        rw [compare, add_toNat (by omega)]
        omega
      · rw [compare, add_toNat (by omega)]
        omega

/-- Without any timer the decisions agree. -/
theorem agrees_empty {find : UInt32 → Option Int} {fires : UInt32 → Prop} {now : UInt32}
    (found : find now = some (-1)) (idle : ∀ reading, ¬ fires reading) : Agrees find fires now := by
  constructor
  · rw [found, Option.some.injEq]
    exact ⟨fun absurd' => absurd absurd' (by decide), fun fires => absurd fires (idle now)⟩
  · intro wait positive answer
    rw [found, Option.some.injEq] at answer
    omega

end BackendCpp.Expiry
