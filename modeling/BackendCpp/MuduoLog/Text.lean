import BackendCpp.Library.Numeral

/-!
# Text

Text is bytes. `decimal`, `padded` and `integer` are the conversions of `snprintf` that the program
uses: `%d` of a number that is not negative, `%02d` and its like, and `%d`.
-/

namespace BackendCpp.MuduoLog

open BackendCpp.Library

/-- The bytes of a literal. -/
def bytes (text : String) : List UInt8 := text.toList.map fun c => UInt8.ofNat c.toNat

/-- The character of a decimal digit. -/
def digit (d : Nat) : UInt8 := UInt8.ofNat (48 + d)

/-- Decimal digits. -/
def decimal (n : Nat) : List UInt8 := (numeral 10 n).map digit

/-- Characters before a text up to a width. -/
def fill (character : UInt8) (width : Nat) (text : List UInt8) : List UInt8 :=
  List.replicate (width - text.length) character ++ text

/-- Decimal digits with zeros before them up to a width. -/
def padded (width n : Nat) : List UInt8 := fill 48 width (decimal n)

/-- A decimal number with its sign. -/
def integer (value : Int) : List UInt8 :=
  if value < 0 then 45 :: decimal value.natAbs else decimal value.natAbs

/-- A decimal number with zeros between the sign and the digits up to a width. -/
def zeroPadded (width : Nat) (value : Int) : List UInt8 :=
  if value < 0 then 45 :: padded (width - 1) value.natAbs else padded width value.natAbs

/-- The number that decimal digits stand for. -/
def decimalValue (text : List UInt8) : Nat :=
  numeralValue 10 (text.map fun c => c.toNat - 48)

/-- A digit is read back from its character. -/
theorem digit_toNat {d : Nat} (small : d < 10) : (digit d).toNat - 48 = d := by
  unfold digit
  rw [UInt8.toNat_ofNat', Nat.mod_eq_of_lt (by omega)]
  omega

/-- Decimal digits are read back. -/
theorem decimalValue_decimal (n : Nat) : decimalValue (decimal n) = n := by
  unfold decimalValue decimal
  rw [List.map_map, List.map_congr_left (g := id), List.map_id, numeralValue_numeral (by decide)]
  exact fun d member => digit_toNat (numeral_lt (by decide) n d member)

/-- Padded digits are read back. -/
theorem decimalValue_padded (width n : Nat) : decimalValue (padded width n) = n := by
  have back := decimalValue_decimal n
  unfold decimalValue at back ⊢
  unfold padded fill
  rw [List.map_append, List.map_replicate]
  exact (numeralValue_zeros 10 _ _).trans back

/-- Different numbers have different digits. -/
theorem decimal_injective : Function.Injective decimal :=
  Function.LeftInverse.injective decimalValue_decimal

/-- Different numbers are printed differently. -/
theorem padded_injective (width : Nat) : Function.Injective (padded width) :=
  Function.LeftInverse.injective (decimalValue_padded width)

/-- A number below a power of ten has at most that many digits. -/
theorem length_decimal_le {count n : Nat} (pos : 0 < count) (small : n < 10 ^ count) :
    (decimal n).length ≤ count := by
  unfold decimal
  rw [List.length_map]
  exact length_numeral_le (by decide) pos small

/-- It fills a field of that width. -/
theorem length_padded {width n : Nat} (pos : 0 < width) (small : n < 10 ^ width) :
    (padded width n).length = width := by
  have short := length_decimal_le pos small
  unfold padded fill
  rw [List.length_append, List.length_replicate]
  omega

/-- A digit is not a minus sign. -/
theorem digit_ne_minus {d : Nat} (small : d < 10) : digit d ≠ 45 := by
  intro same
  have number := congrArg UInt8.toNat same
  unfold digit at number
  rw [UInt8.toNat_ofNat', Nat.mod_eq_of_lt (by omega)] at number
  simp at number
  omega

/-- Different numbers are written differently. -/
theorem integer_injective : Function.Injective integer := by
  have noMinus : ∀ n, ∀ c ∈ decimal n, c ≠ 45 := by
    intro n c member
    obtain ⟨d, inNumeral, rfl⟩ := List.mem_map.mp member
    exact digit_ne_minus (numeral_lt (by decide) n d inNumeral)
  intro one other same
  unfold integer at same
  split_ifs at same with negative negative' negative'
  · have equal := decimal_injective (List.cons.inj same).2
    omega
  · exact absurd rfl (noMinus _ 45 (same ▸ List.mem_cons_self))
  · exact absurd rfl (noMinus _ 45 (same.symm ▸ List.mem_cons_self))
  · have equal := decimal_injective same
    omega

/-- A number that is not negative has no sign. -/
theorem zeroPadded_of_nonneg {width : Nat} {value : Int} (nonneg : 0 ≤ value) :
    zeroPadded width value = padded width value.natAbs := by
  unfold zeroPadded
  rw [if_neg (by omega)]

/-- It fills a field of that width. -/
theorem length_zeroPadded {width : Nat} {value : Int} (pos : 0 < width) (nonneg : 0 ≤ value)
    (small : value < 10 ^ width) : (zeroPadded width value).length = width := by
  rw [zeroPadded_of_nonneg nonneg]
  refine length_padded pos ?_
  have cast : ((10 ^ width : Nat) : Int) = 10 ^ width := by norm_cast
  omega

/-- Numbers that are not negative are read back. -/
theorem zeroPadded_inj {width : Nat} {one other : Int} (nonneg : 0 ≤ one) (nonneg' : 0 ≤ other)
    (same : zeroPadded width one = zeroPadded width other) : one = other := by
  rw [zeroPadded_of_nonneg nonneg, zeroPadded_of_nonneg nonneg'] at same
  have equal := padded_injective width same
  omega

/-- Blanks before the digits do not change the value. -/
theorem fill_decimal_inj {width one other : Nat}
    (same : fill 32 width (decimal one) = fill 32 width (decimal other)) : one = other := by
  have back : ∀ n, decimalValue (fill 32 width (decimal n)) = n := by
    intro n
    have value := decimalValue_decimal n
    unfold decimalValue at value ⊢
    unfold fill
    rw [List.map_append, List.map_replicate]
    exact (numeralValue_zeros 10 _ _).trans value
  rw [← back one, same, back]

end BackendCpp.MuduoLog
