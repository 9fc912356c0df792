import Mathlib.Data.Nat.Digits.Defs
import Mathlib.Data.Nat.Digits.Lemmas
import Mathlib.Data.Nat.Bitwise
import Mathlib.Tactic

/-!
# Arithmetic on packed fields

A word is read as fields of `w` bits, the lowest first, as the digits of a number in base
`2 ^ w`. Masks, shifts and sums of words act on each field by itself as long as nothing spills
into the next one, and the product with a field of ones adds all fields into the highest.
-/

namespace BackendCpp.Library

variable {w s n : Nat}

/-- A field and a word above it. -/
theorem fields_cons (w x : Nat) (xs : List Nat) :
    Nat.ofDigits (2 ^ w) (x :: xs) = x + 2 ^ w * Nat.ofDigits (2 ^ w) xs := by
  rw [Nat.ofDigits_cons]

/-- A mask acts on the lowest field and on the others; the shift brings in the low bits of the
next field, where the mask has none. -/
theorem shift_and_field {a m : Nat} (fits : a < 2 ^ w) (high : m < 2 ^ (w - s)) (x y : Nat) :
    ((a + 2 ^ w * x) >>> s) &&& (m + 2 ^ w * y) = ((a >>> s) &&& m) + 2 ^ w * ((x >>> s) &&& y) := by
  have below : m < 2 ^ w := high.trans_le (Nat.pow_le_pow_right (by decide) (Nat.sub_le w s))
  have low : (a >>> s) &&& m < 2 ^ w := Nat.and_lt_two_pow _ below
  apply Nat.eq_of_testBit_eq
  intro j
  rw [Nat.testBit_and, Nat.testBit_shiftRight, Nat.add_comm a, Nat.add_comm m,
    Nat.add_comm ((a >>> s) &&& m), Nat.testBit_two_pow_mul_add x fits,
    Nat.testBit_two_pow_mul_add y below, Nat.testBit_two_pow_mul_add _ low, Nat.testBit_and,
    Nat.testBit_and, Nat.testBit_shiftRight, Nat.testBit_shiftRight]
  by_cases inside : j < w
  · rw [if_pos inside, if_pos inside]
    by_cases near : s + j < w
    · rw [if_pos near]
    · have clear : m.testBit j = false := by
        apply Nat.testBit_lt_two_pow
        exact high.trans_le (Nat.pow_le_pow_right (by decide) (by omega))
      rw [clear, Bool.and_false, Bool.and_false]
  · have far : ¬ s + j < w := by omega
    have place : s + j - w = s + (j - w) := by omega
    rw [if_neg inside, if_neg inside, if_neg far, place]

/-- The mask of one field, repeated. -/
def masks (w m n : Nat) : Nat := Nat.ofDigits (2 ^ w) (List.replicate n m)

/-- A shifted word under a mask, field by field. -/
theorem shift_and_fields {m : Nat} (high : m < 2 ^ (w - s)) {xs : List Nat}
    (fits : ∀ x ∈ xs, x < 2 ^ w) :
    (Nat.ofDigits (2 ^ w) xs >>> s) &&& masks w m xs.length =
      Nat.ofDigits (2 ^ w) (xs.map fun x => (x >>> s) &&& m) := by
  induction xs with
  | nil => simp [masks]
  | cons x xs ih =>
    have rest := ih fun y member => fits y (List.mem_cons_of_mem x member)
    rw [masks] at rest
    rw [masks, List.length_cons, List.replicate_succ, List.map_cons, fields_cons, fields_cons,
      fields_cons, shift_and_field (fits x List.mem_cons_self) high, rest]

/-- A word under a mask, field by field. -/
theorem and_fields {m : Nat} (high : m < 2 ^ w) {xs : List Nat} (fits : ∀ x ∈ xs, x < 2 ^ w) :
    Nat.ofDigits (2 ^ w) xs &&& masks w m xs.length =
      Nat.ofDigits (2 ^ w) (xs.map fun x => x &&& m) :=
  shift_and_fields (s := 0) high fits

/-- Fields are added one by one. -/
theorem add_fields (w : Nat) (f g : Nat → Nat) (xs : List Nat) :
    Nat.ofDigits (2 ^ w) (xs.map f) + Nat.ofDigits (2 ^ w) (xs.map g) =
      Nat.ofDigits (2 ^ w) (xs.map fun x => f x + g x) := by
  induction xs with
  | nil => simp
  | cons x xs ih =>
    rw [List.map_cons, List.map_cons, List.map_cons, fields_cons, fields_cons, fields_cons, ← ih]
    ring

/-- Smaller fields make a smaller word. -/
theorem fields_le (w : Nat) {f : Nat → Nat} {xs : List Nat} (less : ∀ x ∈ xs, f x ≤ x) :
    Nat.ofDigits (2 ^ w) (xs.map f) ≤ Nat.ofDigits (2 ^ w) xs := by
  induction xs with
  | nil => exact Nat.le_refl _
  | cons x xs ih =>
    have rest := ih fun y member => less y (List.mem_cons_of_mem x member)
    rw [List.map_cons, fields_cons, fields_cons]
    exact Nat.add_le_add (less x List.mem_cons_self) (Nat.mul_le_mul_left _ rest)

/-- Fields are subtracted one by one when none of them borrows. -/
theorem sub_fields (w : Nat) {f : Nat → Nat} {xs : List Nat} (less : ∀ x ∈ xs, f x ≤ x) :
    Nat.ofDigits (2 ^ w) xs - Nat.ofDigits (2 ^ w) (xs.map f) =
      Nat.ofDigits (2 ^ w) (xs.map fun x => x - f x) := by
  have whole : xs.map (fun x => f x + (x - f x)) = xs := by
    rw [List.map_congr_left fun x member => Nat.add_sub_of_le (less x member)]
    exact List.map_id' xs
  have sum := add_fields w f (fun x => x - f x) xs
  rw [whole] at sum
  omega

/-- Under a mask of low bits only the low bits count. -/
theorem and_low {m a b : Nat} (mask : m < 2 ^ n) (same : a % 2 ^ n = b % 2 ^ n) :
    a &&& m = b &&& m := by
  have only : ∀ c, c &&& m = c % 2 ^ n &&& m := by
    intro c
    apply Nat.eq_of_testBit_eq
    intro j
    rw [Nat.testBit_and, Nat.testBit_and, Nat.testBit_mod_two_pow]
    by_cases inside : j < n
    · rw [decide_eq_true inside, Bool.true_and]
    · have clear : m.testBit j = false := by
        apply Nat.testBit_lt_two_pow
        exact mask.trans_le (Nat.pow_le_pow_right (by decide) (Nat.le_of_not_lt inside))
      rw [clear, Bool.and_false, Bool.and_false]
  rw [only a, same, ← only b]

/-- The low bits of a word are those of its lowest field. -/
theorem low_fields {low : Nat} (small : s ≤ w) {xs : List Nat}
    (next : ∀ x ∈ xs, x % 2 ^ s ≤ low) : Nat.ofDigits (2 ^ w) xs % 2 ^ s ≤ low := by
  cases xs with
  | nil => simp
  | cons x xs =>
    have whole : 2 ^ w = 2 ^ s * 2 ^ (w - s) := by
      rw [← Nat.pow_add, Nat.add_sub_of_le small]
    rw [fields_cons, whole, Nat.mul_assoc, Nat.add_mul_mod_self_left]
    exact next x List.mem_cons_self

/-- A word and its shift, one field and the rest. -/
theorem add_shift_cons (small : s ≤ w) (x X : Nat) :
    (x + 2 ^ w * X) + (x + 2 ^ w * X) >>> s =
      (x + x >>> s + 2 ^ (w - s) * (X % 2 ^ s)) + 2 ^ w * (X + X >>> s) := by
  have whole : 2 ^ w = 2 ^ s * 2 ^ (w - s) := by
    rw [← Nat.pow_add, Nat.add_sub_of_le small]
  have shifted : (x + 2 ^ w * X) >>> s = x >>> s + 2 ^ (w - s) * X := by
    rw [Nat.shiftRight_eq_div_pow, Nat.shiftRight_eq_div_pow, whole, Nat.mul_assoc,
      Nat.add_mul_div_left _ _ (Nat.two_pow_pos s)]
  have parts : X = X % 2 ^ s + 2 ^ s * (X >>> s) := by
    rw [Nat.shiftRight_eq_div_pow]
    exact (Nat.mod_add_div X (2 ^ s)).symm
  rw [shifted]
  calc x + 2 ^ w * X + (x >>> s + 2 ^ (w - s) * X)
      = x + 2 ^ w * X + (x >>> s + 2 ^ (w - s) * (X % 2 ^ s + 2 ^ s * (X >>> s))) := by
        rw [← parts]
    _ = x + x >>> s + 2 ^ (w - s) * (X % 2 ^ s) + (2 ^ w * X + 2 ^ s * 2 ^ (w - s) * (X >>> s)) := by
        ring
    _ = _ := by
        rw [← whole]
        ring

/-- A word and its shift are added under a mask: what the next field brings into the high bits
of a field does not carry, and is masked. -/
theorem add_shift_and_fields {m low high : Nat} (small : s ≤ w) (mask : m < 2 ^ (w - s))
    {xs : List Nat} (fits : ∀ x ∈ xs, x + x >>> s ≤ high) (next : ∀ x ∈ xs, x % 2 ^ s ≤ low)
    (room : high + 2 ^ (w - s) * low < 2 ^ w) :
    (Nat.ofDigits (2 ^ w) xs + Nat.ofDigits (2 ^ w) xs >>> s) &&& masks w m xs.length =
      Nat.ofDigits (2 ^ w) (xs.map fun x => (x + x >>> s) &&& m) := by
  induction xs with
  | nil => simp [masks]
  | cons x xs ih =>
    have rest := ih (fun y member => fits y (List.mem_cons_of_mem x member))
      (fun y member => next y (List.mem_cons_of_mem x member))
    rw [masks] at rest
    have brought : Nat.ofDigits (2 ^ w) xs % 2 ^ s ≤ low :=
      low_fields small fun y member => next y (List.mem_cons_of_mem x member)
    have bounded : x + x >>> s + 2 ^ (w - s) * (Nat.ofDigits (2 ^ w) xs % 2 ^ s) < 2 ^ w :=
      (Nat.add_le_add (fits x List.mem_cons_self) (Nat.mul_le_mul_left _ brought)).trans_lt room
    have below : m < 2 ^ w := mask.trans_le (Nat.pow_le_pow_right (by decide) (Nat.sub_le w s))
    have masked := shift_and_field (s := 0) bounded below
      (Nat.ofDigits (2 ^ w) xs + Nat.ofDigits (2 ^ w) xs >>> s)
      (Nat.ofDigits (2 ^ w) (List.replicate xs.length m))
    simp only [Nat.shiftRight_zero] at masked
    rw [masks, List.length_cons, List.replicate_succ, List.map_cons, fields_cons, fields_cons,
      fields_cons, add_shift_cons small, masked, rest]
    apply congrArg (· + _)
    apply and_low mask
    exact Nat.add_mul_mod_self_left ..

/-- A field of ones more. -/
theorem masks_one_succ (w n : Nat) : masks w 1 (n + 1) = 1 + 2 ^ w * masks w 1 n := by
  rw [masks, List.replicate_succ, fields_cons]
  rfl

/-- Ones from the other end. -/
theorem masks_one_add (w n : Nat) : masks w 1 (n + 1) = masks w 1 n + (2 ^ w) ^ n := by
  induction n with
  | zero => simp [masks]
  | succ n ih =>
    calc masks w 1 (n + 1 + 1)
        = 1 + 2 ^ w * masks w 1 (n + 1) := masks_one_succ w (n + 1)
      _ = 1 + 2 ^ w * masks w 1 n + (2 ^ w) ^ (n + 1) := by
          rw [ih]
          ring
      _ = masks w 1 (n + 1) + (2 ^ w) ^ (n + 1) := by rw [← masks_one_succ]

/-- The product with a word of ones adds all fields into the highest one. -/
theorem mul_ones (w : Nat) {xs : List Nat} (carry : Nat) (nonempty : xs ≠ [])
    (room : carry + xs.sum < 2 ^ w) :
    ∃ low more, low < (2 ^ w) ^ (xs.length - 1) ∧
      (Nat.ofDigits (2 ^ w) xs + carry) * masks w 1 xs.length =
        low + (2 ^ w) ^ (xs.length - 1) * (carry + xs.sum) + (2 ^ w) ^ xs.length * more := by
  induction xs generalizing carry with
  | nil => exact absurd rfl nonempty
  | cons x xs ih =>
    rw [List.sum_cons] at room ⊢
    cases xs with
    | nil =>
      refine ⟨0, 0, by simp, ?_⟩
      simp [masks]
      ring
    | cons y xs =>
      obtain ⟨low, more, below, product⟩ := ih (carry + x) (List.cons_ne_nil y xs) (by omega)
      generalize zs : y :: xs = rest at *
      obtain ⟨count, length⟩ : ∃ count, rest.length = count + 1 := ⟨xs.length, by simp [← zs]⟩
      rw [length, Nat.add_sub_cancel] at below product
      rw [List.length_cons, length, Nat.add_sub_cancel, fields_cons]
      refine ⟨carry + x + 2 ^ w * low, more + Nat.ofDigits (2 ^ w) rest, ?_, ?_⟩
      · have first : carry + x < 2 ^ w := by omega
        calc carry + x + 2 ^ w * low
            < 2 ^ w + 2 ^ w * low := Nat.add_lt_add_right first _
          _ = 2 ^ w * (low + 1) := by ring
          _ ≤ 2 ^ w * (2 ^ w) ^ count := Nat.mul_le_mul_left _ below
          _ = (2 ^ w) ^ (count + 1) := by ring
      · have ends : 1 + 2 ^ w * masks w 1 (count + 1) =
            masks w 1 (count + 1) + (2 ^ w) ^ (count + 1) := by
          rw [← masks_one_succ, masks_one_add]
        calc (x + 2 ^ w * Nat.ofDigits (2 ^ w) rest + carry) * masks w 1 (count + 1 + 1)
            = (x + carry) * (1 + 2 ^ w * masks w 1 (count + 1)) +
                2 ^ w * Nat.ofDigits (2 ^ w) rest * (1 + 2 ^ w * masks w 1 (count + 1)) := by
              rw [masks_one_succ w (count + 1)]
              ring
          _ = (x + carry) * (1 + 2 ^ w * masks w 1 (count + 1)) +
                2 ^ w * Nat.ofDigits (2 ^ w) rest *
                  (masks w 1 (count + 1) + (2 ^ w) ^ (count + 1)) := by rw [← ends]
          _ = x + carry + 2 ^ w *
                ((Nat.ofDigits (2 ^ w) rest + (carry + x)) * masks w 1 (count + 1)) +
                (2 ^ w) ^ (count + 1 + 1) * Nat.ofDigits (2 ^ w) rest := by ring
          _ = _ := by
              rw [product]
              ring

/-- The highest field of the product is the sum of the fields. -/
theorem mul_ones_high (w : Nat) {xs : List Nat} (nonempty : xs ≠ []) (room : xs.sum < 2 ^ w) :
    Nat.ofDigits (2 ^ w) xs * masks w 1 xs.length % (2 ^ w) ^ xs.length /
      (2 ^ w) ^ (xs.length - 1) = xs.sum := by
  obtain ⟨low, more, below, product⟩ := mul_ones w 0 nonempty (by omega)
  have count : xs.length = xs.length - 1 + 1 := by
    have positive := List.length_pos_iff.mpr nonempty
    omega
  have fits : low + (2 ^ w) ^ (xs.length - 1) * xs.sum < (2 ^ w) ^ xs.length := by
    calc low + (2 ^ w) ^ (xs.length - 1) * xs.sum
        < (2 ^ w) ^ (xs.length - 1) + (2 ^ w) ^ (xs.length - 1) * xs.sum :=
          Nat.add_lt_add_right below _
      _ = (2 ^ w) ^ (xs.length - 1) * (xs.sum + 1) := by ring
      _ ≤ (2 ^ w) ^ (xs.length - 1) * 2 ^ w := Nat.mul_le_mul_left _ room
      _ = (2 ^ w) ^ xs.length := by
          conv_rhs => rw [count]
          rw [Nat.pow_succ]
  rw [Nat.add_zero, Nat.zero_add] at product
  rw [product, Nat.add_mul_mod_self_left, Nat.mod_eq_of_lt fits,
    Nat.add_mul_div_left _ _ (Nat.pow_pos (Nat.two_pow_pos w)), Nat.div_eq_of_lt below,
    Nat.zero_add]

end BackendCpp.Library
