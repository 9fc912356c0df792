import BackendCpp.Library.Fields
import BackendCpp.Tcp.Ddos

/-!
# Counting bits

`count_bit` counts the bits of the eight bytes of a word at once. In each stage of `countWord` a
byte is a field that the others do not disturb, so the stages are functions of single bytes; the
product at the end adds the eight counts.
-/

namespace BackendCpp.Tcp

open Library

/-- The number of 1 bits in a byte. -/
def ones (byte : UInt8) : Nat := (List.range 8).countP fun i => byte.toNat.testBit i

/-- The number of 1 bits in some bytes. -/
def onesOf (bytes : List UInt8) : Nat := (bytes.map ones).sum

/-- A byte has at most eight 1 bits. -/
theorem onesOf_le (bytes : List UInt8) : onesOf bytes ≤ bytes.length * 8 := by
  have each : ∀ count ∈ bytes.map ones, count ≤ 8 := by
    intro count member
    obtain ⟨byte, _, same⟩ := List.mem_map.mp member
    rw [← same]
    exact List.countP_le_length
  have total := List.sum_le_card_nsmul _ 8 each
  rw [List.length_map] at total
  exact total

/-- The 1 bits of two byte strings, one behind the other. -/
theorem onesOf_append (front back : List UInt8) :
    onesOf (front ++ back) = onesOf front + onesOf back := by
  rw [onesOf, List.map_append, List.sum_append]
  rfl

/-- The first stage on a byte: the counts of pairs of bits. -/
def pairCounts (b : Nat) : Nat := b - ((b >>> 1) &&& 0x55)

/-- The second stage on a byte: the counts of four bits. -/
def nibbleCounts (b : Nat) : Nat := (b &&& 0x33) + ((b >>> 2) &&& 0x33)

/-- The third stage on a byte: the count of its bits. -/
def byteCount (b : Nat) : Nat := (b + b >>> 4) &&& 0x0F

set_option maxRecDepth 8000 in
/-- The stages on a byte: no stage leaves the byte, no count of four bits is above four, and the
last stage is the number of 1 bits. -/
theorem stages_of_byte : ∀ b < 256, (b >>> 1) &&& 0x55 ≤ b ∧ pairCounts b < 256 ∧
    nibbleCounts (pairCounts b) + nibbleCounts (pairCounts b) >>> 4 ≤ 72 ∧
    nibbleCounts (pairCounts b) % 16 ≤ 4 ∧
    byteCount (nibbleCounts (pairCounts b)) =
      (List.range 8).countP fun i => b.testBit i := by
  decide

/-- Eight bytes make a word of 64 bits. -/
theorem word_lt {xs : List Nat} (length : xs.length = 8) (fits : ∀ x ∈ xs, x < 2 ^ 8) :
    Nat.ofDigits (2 ^ 8) xs < 2 ^ 64 := by
  have below := Nat.ofDigits_lt_base_pow_length (by decide) fits
  rw [length, ← Nat.pow_mul] at below
  exact below

/-- The first stage on a word. -/
theorem pair_stage {v : UInt64} {xs : List Nat} (word : v.toNat = Nat.ofDigits (2 ^ 8) xs)
    (length : xs.length = 8) (fits : ∀ x ∈ xs, x < 2 ^ 8) :
    (v - ((v >>> 1) &&& (0x5555555555555555 : UInt64))).toNat =
      Nat.ofDigits (2 ^ 8) (xs.map pairCounts) := by
  have mask : (0x5555555555555555 : UInt64).toNat = masks 8 0x55 xs.length := by
    rw [length]
    rfl
  have value : ((v >>> 1) &&& (0x5555555555555555 : UInt64)).toNat =
      Nat.ofDigits (2 ^ 8) (xs.map fun x => (x >>> 1) &&& 0x55) := by
    rw [UInt64.toNat_and, UInt64.toNat_shiftRight, word, mask]
    exact shift_and_fields (by decide) fits
  have less : ∀ x ∈ xs, (x >>> 1) &&& 0x55 ≤ x :=
    fun x member => (stages_of_byte x (fits x member)).1
  rw [UInt64.toNat_sub_of_le, value, word, sub_fields 8 less]
  · rfl
  · rw [UInt64.le_iff_toNat_le, value, word]
    exact fields_le 8 less

/-- The second stage on a word. -/
theorem nibble_stage {v : UInt64} {xs : List Nat} (word : v.toNat = Nat.ofDigits (2 ^ 8) xs)
    (length : xs.length = 8) (fits : ∀ x ∈ xs, x < 2 ^ 8)
    (after : ∀ x ∈ xs, nibbleCounts x < 2 ^ 8) :
    ((v &&& (0x3333333333333333 : UInt64)) +
      ((v >>> 2) &&& (0x3333333333333333 : UInt64))).toNat =
      Nat.ofDigits (2 ^ 8) (xs.map nibbleCounts) := by
  have mask : (0x3333333333333333 : UInt64).toNat = masks 8 0x33 xs.length := by
    rw [length]
    rfl
  have low : (v &&& (0x3333333333333333 : UInt64)).toNat =
      Nat.ofDigits (2 ^ 8) (xs.map fun x => x &&& 0x33) := by
    rw [UInt64.toNat_and, word, mask]
    exact and_fields (by decide) fits
  have high : ((v >>> 2) &&& (0x3333333333333333 : UInt64)).toNat =
      Nat.ofDigits (2 ^ 8) (xs.map fun x => (x >>> 2) &&& 0x33) := by
    rw [UInt64.toNat_and, UInt64.toNat_shiftRight, word, mask]
    exact shift_and_fields (by decide) fits
  have small : Nat.ofDigits (2 ^ 8) (xs.map nibbleCounts) < 2 ^ 64 := by
    apply word_lt (by rw [List.length_map, length])
    intro x member
    obtain ⟨y, inside, same⟩ := List.mem_map.mp member
    rw [← same]
    exact after y inside
  rw [UInt64.toNat_add, low, high, add_fields]
  exact Nat.mod_eq_of_lt small

/-- The third stage on a word. -/
theorem byte_stage {v : UInt64} {xs : List Nat} (word : v.toNat = Nat.ofDigits (2 ^ 8) xs)
    (length : xs.length = 8) (fits : ∀ x ∈ xs, x + x >>> 4 ≤ 72) (next : ∀ x ∈ xs, x % 16 ≤ 4) :
    ((v + (v >>> 4)) &&& (0x0F0F0F0F0F0F0F0F : UInt64)).toNat =
      Nat.ofDigits (2 ^ 8) (xs.map byteCount) := by
  have mask : (0x0F0F0F0F0F0F0F0F : UInt64).toNat = masks 8 0x0F xs.length := by
    rw [length]
    rfl
  have below : masks 8 0x0F xs.length < 2 ^ 64 := by
    rw [length]
    decide
  rw [UInt64.toNat_and, UInt64.toNat_add, UInt64.toNat_shiftRight, word, mask]
  calc (Nat.ofDigits (2 ^ 8) xs + Nat.ofDigits (2 ^ 8) xs >>> 4) % 2 ^ 64 &&& masks 8 0x0F xs.length
      = (Nat.ofDigits (2 ^ 8) xs + Nat.ofDigits (2 ^ 8) xs >>> 4) &&& masks 8 0x0F xs.length :=
        and_low below (Nat.mod_mod _ _)
    _ = Nat.ofDigits (2 ^ 8) (xs.map byteCount) :=
        add_shift_and_fields (by decide) (by decide) fits next (by decide)

/-- The product and the shift at the end. -/
theorem sum_stage {v : UInt64} {xs : List Nat} (word : v.toNat = Nat.ofDigits (2 ^ 8) xs)
    (length : xs.length = 8) (room : xs.sum < 2 ^ 8) :
    ((v * (0x0101010101010101 : UInt64)) >>> ((8 - 1) * 8)).toNat = xs.sum := by
  have mask : (0x0101010101010101 : UInt64).toNat = masks 8 1 xs.length := by
    rw [length]
    rfl
  have nonempty : xs ≠ [] := by
    intro empty
    rw [empty] at length
    cases length
  have high := mul_ones_high 8 nonempty room
  rw [UInt64.toNat_shiftRight, UInt64.toNat_mul, word, mask]
  rw [length] at high ⊢
  calc (Nat.ofDigits (2 ^ 8) xs * masks 8 1 8 % 2 ^ 64) >>> 56
      = Nat.ofDigits (2 ^ 8) xs * masks 8 1 8 % (2 ^ 8) ^ 8 / (2 ^ 8) ^ (8 - 1) :=
        Nat.shiftRight_eq_div_pow _ 56
    _ = xs.sum := high

/-- `countWord` counts the 1 bits of the eight bytes of a word. -/
theorem countWord_spec {bytes : List UInt8} (length : bytes.length = 8) :
    (countWord (UInt64.ofNat (Nat.ofDigits 256 (bytes.map UInt8.toNat)))).toNat = onesOf bytes := by
  let xs := bytes.map UInt8.toNat
  have eight : xs.length = 8 := by rw [List.length_map, length]
  have fits : ∀ x ∈ xs, x < 2 ^ 8 := by
    intro x member
    obtain ⟨byte, _, same⟩ := List.mem_map.mp member
    rw [← same]
    exact byte.toNat_lt
  have word : (UInt64.ofNat (Nat.ofDigits 256 xs)).toNat = Nat.ofDigits (2 ^ 8) xs := by
    rw [UInt64.toNat_ofNat']
    exact Nat.mod_eq_of_lt (word_lt eight fits)
  have pairs := pair_stage word eight fits
  have pairsFit : ∀ x ∈ xs.map pairCounts, x < 2 ^ 8 := by
    intro x member
    obtain ⟨b, inside, same⟩ := List.mem_map.mp member
    rw [← same]
    exact (stages_of_byte b (fits b inside)).2.1
  have bounded : ∀ x ∈ (xs.map pairCounts).map nibbleCounts, x + x >>> 4 ≤ 72 ∧ x % 16 ≤ 4 := by
    intro x member
    obtain ⟨y, inner, sameY⟩ := List.mem_map.mp member
    obtain ⟨b, inside, sameB⟩ := List.mem_map.mp inner
    rw [← sameY, ← sameB]
    obtain ⟨_, _, sum, low, _⟩ := stages_of_byte b (fits b inside)
    exact ⟨sum, low⟩
  have nibbles := nibble_stage pairs (by simp [eight]) pairsFit (by
    intro x member
    have small := (bounded _ (List.mem_map_of_mem member)).1
    omega)
  have counts := byte_stage nibbles (by simp [eight]) (fun x member => (bounded x member).1)
    (fun x member => (bounded x member).2)
  have total : (((xs.map pairCounts).map nibbleCounts).map byteCount).sum = onesOf bytes := by
    rw [onesOf, List.map_map, List.map_map, List.map_map]
    apply congrArg
    apply List.map_congr_left
    intro byte member
    exact (stages_of_byte byte.toNat byte.toNat_lt).2.2.2.2
  have few := onesOf_le bytes
  rw [length] at few
  rw [← total] at few ⊢
  exact sum_stage counts (by simp [eight]) (by omega)

/-- The number of words that `count_bit` reads: one at least, and as many as begin before the
end. -/
def wordsRead (length : Nat) : Nat := max 1 ((length + 7) / 8)

/-- The loop reads words from `ptr` on until it has passed the end, and counts their bits. -/
theorem countFrom_spec (msg : List UInt8) (words : Nat) :
    ∀ length ptr setBits, wordsRead (length - ptr) = words → ptr + 8 * words ≤ msg.length →
      setBits.toNat + 64 * words < 2 ^ 64 →
      ∃ counted, countFrom msg length ptr setBits = some counted ∧
        counted.toNat = setBits.toNat + onesOf ((msg.drop ptr).take (8 * words)) := by
  induction words with
  | zero =>
    intro length ptr setBits count
    unfold wordsRead at count
    omega
  | succ words ih =>
    intro length ptr setBits count inside room
    have here : ptr + 8 ≤ msg.length := by omega
    have eight : ((msg.drop ptr).take 8).length = 8 := by
      rw [List.length_take, List.length_drop]
      omega
    have first := countWord_spec eight
    have few := onesOf_le ((msg.drop ptr).take 8)
    rw [eight] at few
    have read : readWord msg ptr = some (UInt64.ofNat
        (Nat.ofDigits 256 (((msg.drop ptr).take 8).map UInt8.toNat))) := if_pos here
    generalize UInt64.ofNat (Nat.ofDigits 256 (((msg.drop ptr).take 8).map UInt8.toNat)) = v
      at first read
    have added : (setBits + countWord v).toNat =
        setBits.toNat + onesOf ((msg.drop ptr).take 8) := by
      rw [UInt64.toNat_add, first, Nat.mod_eq_of_lt (by omega)]
    rw [countFrom, read]
    change ∃ counted, (if ptr + 8 < length then _ else _) = some counted ∧ _
    unfold wordsRead at count
    by_cases more : ptr + 8 < length
    · rw [if_pos more]
      have left : wordsRead (length - (ptr + 8)) = words := by
        unfold wordsRead
        omega
      obtain ⟨counted, returned, value⟩ := ih length (ptr + 8) (setBits + countWord v) left
        (by omega) (by omega)
      refine ⟨counted, returned, ?_⟩
      have split : (msg.drop ptr).take (8 * (words + 1)) =
          (msg.drop ptr).take 8 ++ (msg.drop (ptr + 8)).take (8 * words) := by
        rw [← List.drop_drop, Nat.mul_add, Nat.add_comm, List.take_add]
      rw [value, added, split, onesOf_append, Nat.add_assoc]
    · rw [if_neg more]
      have last : words = 0 := by omega
      rw [last]
      exact ⟨_, rfl, added⟩

/-- `count_bit` returns when the words can be read, and counts their bits. -/
theorem countBit_words {msg : List UInt8} {length : UInt32}
    (available : 8 * wordsRead length.toNat ≤ msg.length)
    (room : 64 * wordsRead length.toNat < 2 ^ 32) :
    ∃ counted, countBit msg length = some counted ∧
      counted.toNat = onesOf (msg.take (8 * wordsRead length.toNat)) := by
  obtain ⟨counted, returned, value⟩ := countFrom_spec msg (wordsRead length.toNat) length.toNat 0 0
    rfl (by omega) (by
      change 0 + 64 * wordsRead length.toNat < 2 ^ 64
      omega)
  have few := onesOf_le (msg.take (8 * wordsRead length.toNat))
  have taken : (msg.take (8 * wordsRead length.toNat)).length = 8 * wordsRead length.toNat :=
    List.length_take_of_le available
  rw [taken] at few
  have exactly : counted.toNat = onesOf (msg.take (8 * wordsRead length.toNat)) := by
    rw [value, List.drop_zero]
    exact Nat.zero_add _
  refine ⟨counted.toUInt32, ?_, ?_⟩
  · rw [countBit, returned]
    rfl
  · rw [UInt64.toNat_toUInt32, exactly]
    exact Nat.mod_eq_of_lt (by omega)

/-- The loop reads what is there only. -/
theorem countFrom_defined (msg : List UInt8) (words : Nat) :
    ∀ length ptr setBits counted, wordsRead (length - ptr) = words →
      countFrom msg length ptr setBits = some counted → ptr + 8 * words ≤ msg.length := by
  induction words with
  | zero =>
    intro length ptr setBits counted count
    unfold wordsRead at count
    omega
  | succ words ih =>
    intro length ptr setBits counted count returned
    rw [countFrom] at returned
    by_cases here : ptr + 8 ≤ msg.length
    · have read : readWord msg ptr = some (UInt64.ofNat
          (Nat.ofDigits 256 (((msg.drop ptr).take 8).map UInt8.toNat))) := if_pos here
      rw [read] at returned
      change (if ptr + 8 < length then _ else _) = some counted at returned
      unfold wordsRead at count
      by_cases more : ptr + 8 < length
      · rw [if_pos more] at returned
        have left : wordsRead (length - (ptr + 8)) = words := by
          unfold wordsRead
          omega
        have rest := ih length (ptr + 8) _ counted left returned
        omega
      · omega
    · have missing : readWord msg ptr = none := if_neg here
      rw [missing] at returned
      cases returned

/-- What `count_bit` returns is at most the number of bits that it reads. -/
theorem countBit_le {msg : List UInt8} {length counted : UInt32}
    (returned : countBit msg length = some counted)
    (room : 64 * wordsRead length.toNat < 2 ^ 32) :
    counted.toNat ≤ 64 * wordsRead length.toNat := by
  obtain ⟨whole, defined, _⟩ := Option.map_eq_some_iff.mp returned
  have available := countFrom_defined msg (wordsRead length.toNat) length.toNat 0 0 whole rfl defined
  have inside : 8 * wordsRead length.toNat ≤ msg.length := by omega
  obtain ⟨same, again, value⟩ := countBit_words inside room
  rw [returned] at again
  have few := onesOf_le (msg.take (8 * wordsRead length.toNat))
  rw [List.length_take_of_le inside] at few
  rw [Option.some.inj again, value]
  omega

/-- For a length that is a positive multiple of eight and has its bits counted in 32 bits,
`count_bit` is the number of 1 bits in that many bytes. -/
theorem count_bit_counts_ones {msg : List UInt8} {length : UInt32} (positive : 0 < length.toNat)
    (multiple : 8 ∣ length.toNat) (room : length.toNat * 8 < 2 ^ 32)
    (available : length.toNat ≤ msg.length) :
    ∃ counted, countBit msg length = some counted ∧
      counted.toNat = onesOf (msg.take length.toNat) := by
  obtain ⟨words, whole⟩ := multiple
  have read : wordsRead length.toNat = words := by
    unfold wordsRead
    omega
  have inside : 8 * wordsRead length.toNat ≤ msg.length := by omega
  have counted := countBit_words inside (by omega)
  rw [read, ← whole] at counted
  exact counted

/-- Two words of bytes. -/
theorem count_bit_of_sixteen : ∃ counted,
    countBit [1, 2, 3, 255, 0, 0, 0, 7, 1, 1, 1, 1, 1, 1, 1, 255] 16 = some counted ∧
      counted.toNat = 30 :=
  count_bit_counts_ones (by decide) (by decide) (by decide) (by decide)

end BackendCpp.Tcp
