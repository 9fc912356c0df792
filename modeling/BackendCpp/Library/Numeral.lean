import Mathlib.Tactic
import Mathlib.Data.Nat.Digits.Lemmas

/-!
# Positional numerals

The digits of a number in a base, the most significant one first and at least one. A number is the
value of its numeral, also with zeros put before it.
-/

namespace BackendCpp.Library

/-- The digits of a number, the most significant one first. -/
def numeral (base n : Nat) : List Nat := if n = 0 then [0] else (Nat.digits base n).reverse

/-- The number that digits stand for. -/
def numeralValue (base : Nat) (digits : List Nat) : Nat :=
  digits.foldl (fun value digit => value * base + digit) 0

section numeral

variable {base n : Nat}

/-- A number below the base is one digit. -/
theorem numeral_small (small : n < base) : numeral base n = [n] := by
  unfold numeral
  split
  · next zero => rw [zero]
  · next nonzero => rw [Nat.digits_of_lt base n nonzero small, List.reverse_singleton]

/-- The last digit is the remainder. -/
theorem numeral_step (two : 2 ≤ base) (large : base ≤ n) :
    numeral base n = numeral base (n / base) ++ [n % base] := by
  have quotient : n / base ≠ 0 := Nat.div_ne_zero_iff.mpr ⟨by omega, large⟩
  unfold numeral
  rw [if_neg (by omega), if_neg quotient, Nat.digits_def' (by omega) (by omega),
    List.reverse_cons]

/-- Numerals by their last digit. -/
theorem numeral_induction {motive : Nat → Prop} (two : 2 ≤ base)
    (small : ∀ n < base, motive n) (step : ∀ n, base ≤ n → motive (n / base) → motive n) (n : Nat) :
    motive n := by
  induction n using Nat.strong_induction_on with
  | _ n ih =>
    by_cases below : n < base
    · exact small n below
    · exact step n (by omega) (ih _ (Nat.div_lt_self (by omega) (by omega)))

/-- A number is the value of its numeral. -/
theorem numeralValue_numeral (two : 2 ≤ base) (n : Nat) :
    numeralValue base (numeral base n) = n := by
  induction n using numeral_induction two with
  | small n small =>
    rw [numeral_small small]
    simp [numeralValue]
  | step n large ih =>
    rw [numeral_step two large]
    unfold numeralValue at ih ⊢
    rw [List.foldl_append, ih]
    exact Nat.div_add_mod' n base

/-- Zeros before the digits do not change the value. -/
theorem numeralValue_zeros (base count : Nat) (digits : List Nat) :
    numeralValue base (List.replicate count 0 ++ digits) = numeralValue base digits := by
  unfold numeralValue
  rw [List.foldl_append]
  congr 1
  induction count with
  | zero => rfl
  | succ count ih =>
    rw [List.replicate_succ, List.foldl_cons, Nat.zero_mul, Nat.zero_add]
    exact ih

/-- All digits are below the base. -/
theorem numeral_lt (two : 2 ≤ base) (n : Nat) : ∀ digit ∈ numeral base n, digit < base := by
  induction n using numeral_induction two with
  | small n small =>
    rw [numeral_small small]
    simpa using small
  | step n large ih =>
    intro digit member
    rw [numeral_step two large] at member
    rcases List.mem_append.mp member with earlier | last
    · exact ih digit earlier
    · rw [List.mem_singleton.mp last]
      exact Nat.mod_lt _ (by omega)

/-- A number below a power of the base has at most that many digits. -/
theorem length_numeral_le (two : 2 ≤ base) {count : Nat} (pos : 0 < count) {n : Nat}
    (small : n < base ^ count) : (numeral base n).length ≤ count := by
  induction count generalizing n with
  | zero => omega
  | succ count ih =>
    by_cases below : n < base
    · rw [numeral_small below]
      simp
    · have more : 0 < count := by
        rcases Nat.eq_zero_or_pos count with rfl | more
        · rw [Nat.zero_add, Nat.pow_one] at small
          omega
        · exact more
      have quotient : n / base < base ^ count :=
        Nat.div_lt_of_lt_mul (by rw [← Nat.pow_succ']; exact small)
      have shorter := ih more quotient
      rw [numeral_step two (by omega), List.length_append, List.length_singleton]
      omega

end numeral

end BackendCpp.Library
