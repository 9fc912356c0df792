import BackendCpp.MuduoLog.Text

/-!
# LogStream.h and LogStream.cc

A `FixedBuffer` holds the bytes from `data_` to `cur_`. `append` drops what does not fit with a byte
to spare. A number is converted in place, into at least `kMaxNumericSize` bytes, and `convert` never
writes more than 21 of them; so a line is always made of whole items.
-/

namespace BackendCpp.MuduoLog

open BackendCpp.Library

/-- `zero`, the middle of `digits`, at the given offset. -/
def zeroAt (lsd : Int) : UInt8 := (bytes "9876543210123456789").getD (9 + lsd).toNat 0

/-- `digitsHex` at the given offset. -/
def digitsHex (lsd : Nat) : UInt8 := (bytes "0123456789ABCDEF").getD lsd 0

/-- The loop of `convert`: the digits it writes, the least significant one first. -/
def convertLoop (i : Int) : List UInt8 :=
  zeroAt (i.tmod 10) :: if i.tdiv 10 ≠ 0 then convertLoop (i.tdiv 10) else []
termination_by i.natAbs
decreasing_by
  have smaller : (i.tdiv 10).natAbs = i.natAbs / 10 := Int.natAbs_tdiv i 10
  omega

/-- `convert`, without the terminating zero. -/
def convert (value : Int) : List UInt8 :=
  (convertLoop value ++ if value < 0 then [45] else []).reverse

/-- The loop of `convertHex`. -/
def convertHexLoop (i : Nat) : List UInt8 :=
  digitsHex (i % 16) :: if i / 16 ≠ 0 then convertHexLoop (i / 16) else []
termination_by i
decreasing_by omega

/-- `convertHex`, without the terminating zero. -/
def convertHex (value : Nat) : List UInt8 := (convertHexLoop value).reverse

/-- A number of one of the integer types. -/
def Wide (value : Int) : Prop := -(2 ^ 63) ≤ value ∧ value < 2 ^ 64

section convert

/-- A `short` fits. -/
theorem wide_short (v : Int16) : Wide v.toInt := by
  have low := v.le_toInt
  have high := v.toInt_lt
  unfold Wide
  omega

/-- An `unsigned short` fits. -/
theorem wide_unsignedShort (v : UInt16) : Wide v.toNat := by
  have high := v.toNat_lt
  unfold Wide
  omega

/-- An `int` fits. -/
theorem wide_int (v : Int32) : Wide v.toInt := by
  have low := v.le_toInt
  have high := v.toInt_lt
  unfold Wide
  omega

/-- An `unsigned int` fits. -/
theorem wide_unsignedInt (v : UInt32) : Wide v.toNat := by
  have high := v.toNat_lt
  unfold Wide
  omega

/-- A `long` fits. -/
theorem wide_long (v : Int64) : Wide v.toInt := by
  have low := v.le_toInt
  have high := v.toInt_lt
  unfold Wide
  omega

/-- An `unsigned long` fits. -/
theorem wide_unsignedLong (v : UInt64) : Wide v.toNat := by
  have high := v.toNat_lt
  unfold Wide
  omega

/-- The table has the digit of every remainder, also of a negative one. -/
theorem zeroAt_eq {lsd : Int} (low : -10 < lsd) (high : lsd < 10) : zeroAt lsd = digit lsd.natAbs := by
  interval_cases lsd <;> decide

/-- The loop writes the decimal digits from the last to the first. -/
theorem convertLoop_eq (i : Int) : convertLoop i = (decimal i.natAbs).reverse := by
  induction i using convertLoop.induct with
  | case1 i ih =>
    have low := Int.lt_tmod_of_pos i (show (0 : Int) < 10 by decide)
    have high := Int.tmod_lt_of_pos i (show (0 : Int) < 10 by decide)
    have last : (i.tmod 10).natAbs = i.natAbs % 10 := Int.natAbs_tmod i 10
    have quotient : (i.tdiv 10).natAbs = i.natAbs / 10 := Int.natAbs_tdiv i 10
    rw [convertLoop, zeroAt_eq low high, last]
    by_cases more : i.tdiv 10 ≠ 0
    · rw [if_pos more, ih more, quotient]
      have large : 10 ≤ i.natAbs := by omega
      unfold decimal
      rw [numeral_step (by decide) large, List.map_append, List.reverse_append]
      rfl
    · rw [if_neg more]
      have small : i.natAbs < 10 := by omega
      unfold decimal
      rw [numeral_small small, Nat.mod_eq_of_lt small]
      rfl

/-- `convert` writes the number in decimal. -/
theorem convert_eq (value : Int) : convert value = integer value := by
  unfold convert integer
  rw [convertLoop_eq]
  split <;> simp

/-- The loop writes the hexadecimal digits from the last to the first. -/
theorem convertHexLoop_eq (i : Nat) :
    convertHexLoop i = ((numeral 16 i).map digitsHex).reverse := by
  induction i using convertHexLoop.induct with
  | case1 i ih =>
    rw [convertHexLoop]
    by_cases more : i / 16 ≠ 0
    · have large : 16 ≤ i := by omega
      rw [if_pos more, ih more, numeral_step (by decide) large, List.map_append,
        List.reverse_append]
      rfl
    · have small : i < 16 := by omega
      rw [if_neg more, numeral_small small, Nat.mod_eq_of_lt small]
      rfl

/-- `convertHex` writes the number in hexadecimal. -/
theorem convertHex_eq (value : Nat) : convertHex value = (numeral 16 value).map digitsHex := by
  unfold convertHex
  rw [convertHexLoop_eq, List.reverse_reverse]

/-- An integer of at most 64 bits takes at most 20 characters. -/
theorem length_convert {value : Int} (wide : Wide value) : (convert value).length ≤ 20 := by
  obtain ⟨low, high⟩ := wide
  rw [convert_eq]
  unfold integer
  split
  · have short : (decimal value.natAbs).length ≤ 19 := length_decimal_le (by decide) (by omega)
    rw [List.length_cons]
    omega
  · exact length_decimal_le (by decide) (by omega)

/-- An address takes at most 16 characters. -/
theorem length_convertHex {value : Nat} (small : value < 2 ^ 64) :
    (convertHex value).length ≤ 16 := by
  rw [convertHex_eq, List.length_map]
  exact length_numeral_le (by decide) (by decide) (by omega)

/-- The number of a hexadecimal digit. -/
def hexDigit (c : UInt8) : Nat := if c < 65 then c.toNat - 48 else c.toNat - 55

/-- A hexadecimal digit is read back from its character. -/
theorem hexDigit_digitsHex {d : Nat} (small : d < 16) : hexDigit (digitsHex d) = d := by
  interval_cases d <;> decide

/-- Different addresses are written differently. -/
theorem convertHex_injective : Function.Injective convertHex := by
  refine Function.LeftInverse.injective (g := fun text => numeralValue 16 (text.map hexDigit)) ?_
  intro value
  show numeralValue 16 ((convertHex value).map hexDigit) = value
  rw [convertHex_eq, List.map_map, List.map_congr_left (g := id), List.map_id,
    numeralValue_numeral (by decide)]
  exact fun d member => hexDigit_digitsHex (numeral_lt (by decide) value d member)

end convert

/-- `convert` writes every number as its decimal digits with a minus sign before those of a negative
one, and `convertHex` an address as its hexadecimal digits, although the first takes the remainders
of a negative number as they are. Different numbers are written differently, and the numbers of 64
bits in at most 20 and 16 characters, which `kMaxNumericSize` covers. -/
theorem number_conversions :
    (∀ value : Int, convert value = integer value) ∧ Function.Injective convert ∧
    (∀ value : Int, Wide value → (convert value).length ≤ 20) ∧
    (∀ value : Nat, convertHex value = (numeral 16 value).map digitsHex) ∧
    Function.Injective convertHex ∧
    (∀ value : Nat, value < 2 ^ 64 → (convertHex value).length ≤ 16) := by
  refine ⟨convert_eq, ?_, fun value wide => length_convert wide, convertHex_eq,
    convertHex_injective, fun value small => length_convertHex small⟩
  intro one other same
  rw [convert_eq, convert_eq] at same
  exact integer_injective same

/-- The least number of 64 bits. -/
theorem number_conversions_least : (convert (-(2 ^ 63))).length ≤ 20 ∧
    convert (-(2 ^ 63)) = integer (-(2 ^ 63)) :=
  ⟨number_conversions.2.2.1 _ ⟨by decide, by decide⟩, number_conversions.1 _⟩

/-- `detail::kSmallBuffer`. -/
def kSmallBuffer : Nat := 4000

/-- `detail::kLargeBuffer`. -/
def kLargeBuffer : Nat := 4000 * 1000

/-- `LogStream::kMaxNumericSize`. -/
def kMaxNumericSize : Nat := 32

/-- `FixedBuffer`: what lies between `data_` and `cur_`, which is inside `data_` or at its end. -/
@[ext] structure FixedBuffer (SIZE : Nat) where
  /-- The bytes before `cur_`. -/
  data : List UInt8
  /-- `cur_` is not behind the end. -/
  fits : data.length ≤ SIZE
  deriving DecidableEq

namespace FixedBuffer

variable {SIZE : Nat}

/-- The constructor and `reset`. -/
def empty : FixedBuffer SIZE := ⟨[], Nat.zero_le SIZE⟩

/-- `FixedBuffer::avail`. -/
def avail (buffer : FixedBuffer SIZE) : Nat := SIZE - buffer.data.length

/-- `FixedBuffer::append`. -/
def append (buffer : FixedBuffer SIZE) (buf : List UInt8) : FixedBuffer SIZE :=
  if room : buffer.avail > buf.length then
    ⟨buffer.data ++ buf, by
      unfold avail at room
      rw [List.length_append]
      omega⟩
  else buffer

/-- Bytes written at `current` that there is room for, and `FixedBuffer::add` of their number. -/
def write (buffer : FixedBuffer SIZE) (buf : List UInt8) (room : buf.length ≤ buffer.avail) :
    FixedBuffer SIZE :=
  ⟨buffer.data ++ buf, by
    have fits := buffer.fits
    unfold avail at room
    rw [List.length_append]
    omega⟩

end FixedBuffer

/-- `LogStream`. -/
structure LogStream where
  /-- `buffer_`. -/
  buffer : FixedBuffer kSmallBuffer
  deriving DecidableEq

namespace LogStream

/-- `LogStream::append`, and the operators that only append. -/
def append (stream : LogStream) (data : List UInt8) : LogStream := ⟨stream.buffer.append data⟩

/-- `LogStream::formatInteger`. -/
def formatInteger (stream : LogStream) (v : Int) (wide : Wide v) : LogStream :=
  if room : stream.buffer.avail ≥ kMaxNumericSize then
    ⟨stream.buffer.write (convert v) (by
      have short := length_convert wide
      unfold kMaxNumericSize at room
      omega)⟩
  else stream

/-- `operator<<(const void*)`. -/
def pointer (stream : LogStream) (p : UInt64) : LogStream :=
  if room : stream.buffer.avail ≥ kMaxNumericSize then
    ⟨stream.buffer.write (bytes "0x" ++ convertHex p.toNat) (by
      have short := length_convertHex p.toNat_lt
      have two : (bytes "0x").length = 2 := rfl
      unfold kMaxNumericSize at room
      rw [List.length_append]
      omega)⟩
  else stream

/-- `operator<<(double)`, where `text` is what `snprintf` makes of the number in at most
`kMaxNumericSize` characters. -/
def double (stream : LogStream) (text : List UInt8) (short : text.length < kMaxNumericSize) :
    LogStream :=
  if room : stream.buffer.avail ≥ kMaxNumericSize then
    ⟨stream.buffer.write text (by omega)⟩
  else stream

end LogStream

/-- What is put into a stream: the overloads of `operator<<`. -/
inductive Item where
  | bool (v : Bool)
  | short (v : Int16)
  | unsignedShort (v : UInt16)
  | int (v : Int32)
  | unsignedInt (v : UInt32)
  | long (v : Int64)
  | unsignedLong (v : UInt64)
  | pointer (p : UInt64)
  | double (text : List UInt8) (short : text.length < kMaxNumericSize)
  | char (v : UInt8)
  | cString (str : Option (List UInt8))
  | string (v : List UInt8)
  | buffer (v : FixedBuffer kSmallBuffer)
  deriving DecidableEq

/-- `operator<<`. -/
def LogStream.put (stream : LogStream) : Item → LogStream
  | .bool v => stream.append (if v then bytes "1" else bytes "0")
  | .short v => stream.formatInteger v.toInt (wide_short v)
  | .unsignedShort v => stream.formatInteger v.toNat (wide_unsignedShort v)
  | .int v => stream.formatInteger v.toInt (wide_int v)
  | .unsignedInt v => stream.formatInteger v.toNat (wide_unsignedInt v)
  | .long v => stream.formatInteger v.toInt (wide_long v)
  | .unsignedLong v => stream.formatInteger v.toNat (wide_unsignedLong v)
  | .pointer p => stream.pointer p
  | .double text short => stream.double text short
  | .char v => stream.append [v]
  | .cString (some str) => stream.append str
  | .cString none => stream.append (bytes "(null)")
  | .string v => stream.append v
  | .buffer v => stream.append v.data

/-- What an item looks like in the line. -/
def Item.text : Item → List UInt8
  | .bool v => if v then bytes "1" else bytes "0"
  | .short v => integer v.toInt
  | .unsignedShort v => integer v.toNat
  | .int v => integer v.toInt
  | .unsignedInt v => integer v.toNat
  | .long v => integer v.toInt
  | .unsignedLong v => integer v.toNat
  | .pointer p => bytes "0x" ++ (numeral 16 p.toNat).map digitsHex
  | .double text _ => text
  | .char v => [v]
  | .cString (some str) => str
  | .cString none => bytes "(null)"
  | .string v => v
  | .buffer v => v.data

/-- The item is converted in place. -/
def Item.numeric : Item → Bool
  | .short _ | .unsignedShort _ | .int _ | .unsignedInt _ | .long _ | .unsignedLong _ => true
  | .pointer _ | .double _ _ => true
  | _ => false

/-- There is room for an item: a number wants room for the longest number, and other items one byte
more than they have. -/
def Item.Fits (item : Item) (room : Nat) : Prop :=
  if item.numeric then kMaxNumericSize ≤ room else item.text.length < room

instance (item : Item) (room : Nat) : Decidable (item.Fits room) := by
  unfold Item.Fits
  infer_instance

/-- The items that come into a line with some room left. -/
def written : Nat → List Item → List Item
  | _, [] => []
  | room, item :: rest =>
    if item.Fits room then item :: written (room - item.text.length) rest else written room rest

section stream

variable {SIZE : Nat}

/-- `append` is whole or nothing. -/
theorem FixedBuffer.append_data (buffer : FixedBuffer SIZE) (buf : List UInt8) :
    (buffer.append buf).data =
      if buf.length < buffer.avail then buffer.data ++ buf else buffer.data := by
  unfold FixedBuffer.append
  split_ifs <;> rfl

/-- A number of at most 64 bits is whole or nothing. -/
theorem LogStream.formatInteger_data (stream : LogStream) (v : Int) (wide : Wide v) :
    (stream.formatInteger v wide).buffer.data =
      if kMaxNumericSize ≤ stream.buffer.avail then stream.buffer.data ++ integer v
      else stream.buffer.data := by
  unfold LogStream.formatInteger
  split_ifs
  · show stream.buffer.data ++ convert v = _
    rw [convert_eq]
  · rfl

/-- Every item is whole or nothing. -/
theorem LogStream.put_data (stream : LogStream) (item : Item) :
    (stream.put item).buffer.data =
      if item.Fits stream.buffer.avail then stream.buffer.data ++ item.text
      else stream.buffer.data := by
  cases item with
  | short v => exact stream.formatInteger_data _ (wide_short v)
  | unsignedShort v => exact stream.formatInteger_data _ (wide_unsignedShort v)
  | int v => exact stream.formatInteger_data _ (wide_int v)
  | unsignedInt v => exact stream.formatInteger_data _ (wide_unsignedInt v)
  | long v => exact stream.formatInteger_data _ (wide_long v)
  | unsignedLong v => exact stream.formatInteger_data _ (wide_unsignedLong v)
  | pointer p =>
    show (stream.pointer p).buffer.data = if kMaxNumericSize ≤ stream.buffer.avail then _ else _
    unfold LogStream.pointer
    split_ifs
    · show stream.buffer.data ++ (bytes "0x" ++ convertHex p.toNat) = _
      rw [convertHex_eq]
      rfl
    · rfl
  | double text short =>
    show (stream.double text short).buffer.data =
      if kMaxNumericSize ≤ stream.buffer.avail then _ else _
    unfold LogStream.double
    split_ifs <;> rfl
  | cString str => cases str <;> exact stream.buffer.append_data _
  | bool v => exact stream.buffer.append_data _
  | char v => exact stream.buffer.append_data _
  | string v => exact stream.buffer.append_data _
  | buffer v => exact stream.buffer.append_data _

/-- A number takes fewer characters than `kMaxNumericSize`. -/
theorem Item.length_lt {item : Item} (numeric : item.numeric = true) :
    item.text.length < kMaxNumericSize := by
  have wide : ∀ {v : Int}, Wide v → (integer v).length < kMaxNumericSize := by
    intro v wide
    have short := length_convert wide
    rw [convert_eq] at short
    unfold kMaxNumericSize
    omega
  cases item with
  | short v => exact wide (wide_short v)
  | unsignedShort v => exact wide (wide_unsignedShort v)
  | int v => exact wide (wide_int v)
  | unsignedInt v => exact wide (wide_unsignedInt v)
  | long v => exact wide (wide_long v)
  | unsignedLong v => exact wide (wide_unsignedLong v)
  | pointer p =>
    have short := length_convertHex p.toNat_lt
    rw [convertHex_eq] at short
    show (bytes "0x" ++ (numeral 16 p.toNat).map digitsHex).length < 32
    have two : (bytes "0x").length = 2 := rfl
    rw [List.length_append]
    omega
  | double text short => exact short
  | bool v => cases numeric
  | char v => cases numeric
  | cString str => cases numeric
  | string v => cases numeric
  | buffer v => cases numeric

/-- An item that fits leaves a byte. -/
theorem Item.Fits.length_lt {item : Item} {room : Nat} (fits : item.Fits room) :
    item.text.length < room := by
  unfold Item.Fits at fits
  split_ifs at fits with numeric
  · exact Nat.lt_of_lt_of_le (item.length_lt numeric) fits
  · exact fits

/-- The room that an item leaves. -/
theorem LogStream.put_avail (stream : LogStream) (item : Item) :
    (stream.put item).buffer.avail = stream.buffer.avail -
      if item.Fits stream.buffer.avail then item.text.length else 0 := by
  have data := stream.put_data item
  unfold FixedBuffer.avail at data ⊢
  split_ifs at data ⊢
  · rw [data, List.length_append]
    omega
  · rw [data]
    rfl

/-- Items that are put into a stream one after the other: the line has those for which there was
room. -/
theorem LogStream.foldl_put (items : List Item) : ∀ stream : LogStream,
    (items.foldl LogStream.put stream).buffer.data =
      stream.buffer.data ++ (written stream.buffer.avail items).flatMap Item.text := by
  induction items with
  | nil =>
    intro stream
    rw [List.foldl_nil, written, List.flatMap_nil, List.append_nil]
  | cons item rest ih =>
    intro stream
    rw [List.foldl_cons, ih, stream.put_data, stream.put_avail, written]
    split_ifs with fits
    · rw [List.flatMap_cons, List.append_assoc]
    · rw [Nat.sub_zero]

/-- What is written has fewer bytes than there was room. -/
theorem length_written (items : List Item) : ∀ {room : Nat}, 0 < room →
    ((written room items).flatMap Item.text).length < room := by
  induction items with
  | nil => exact fun pos => pos
  | cons item rest ih =>
    intro room pos
    rw [written]
    split_ifs with fits
    · have here := fits.length_lt
      have later := ih (show 0 < room - item.text.length by omega)
      rw [List.flatMap_cons, List.length_append]
      omega
    · exact ih pos

/-- Items are left out, but not changed or moved. -/
theorem written_sublist (items : List Item) : ∀ room, (written room items).Sublist items := by
  induction items with
  | nil => exact fun _ => List.Sublist.refl _
  | cons item rest ih =>
    intro room
    rw [written]
    split_ifs
    · exact (ih _).cons_cons item
    · exact (ih room).cons item

/-- With enough room nothing is left out. -/
theorem written_all (items : List Item) : ∀ {room : Nat},
    (items.flatMap Item.text).length + kMaxNumericSize ≤ room → written room items = items := by
  induction items with
  | nil => exact fun _ => rfl
  | cons item rest ih =>
    intro room enough
    rw [List.flatMap_cons, List.length_append] at enough
    have fits : item.Fits room := by
      unfold Item.Fits
      unfold kMaxNumericSize at enough ⊢
      split_ifs <;> omega
    rw [written, if_pos fits, ih (by omega)]

end stream

/-- Whatever is put into an empty stream, the line is made of whole items in their order, and the
buffer has a byte to spare. An item is left out when there is no room for it after those before it,
so nothing is left out of a line that is `kMaxNumericSize` shorter than the buffer. -/
theorem log_line (items : List Item) :
    (items.foldl LogStream.put ⟨.empty⟩).buffer.data =
      (written kSmallBuffer items).flatMap Item.text ∧
    (written kSmallBuffer items).Sublist items ∧
    (items.foldl LogStream.put ⟨.empty⟩).buffer.data.length < kSmallBuffer ∧
    ((items.flatMap Item.text).length + kMaxNumericSize ≤ kSmallBuffer →
      (items.foldl LogStream.put ⟨.empty⟩).buffer.data = items.flatMap Item.text) := by
  have line : (items.foldl LogStream.put ⟨.empty⟩).buffer.data =
      (written kSmallBuffer items).flatMap Item.text := LogStream.foldl_put items ⟨.empty⟩
  refine ⟨line, written_sublist items _, ?_, ?_⟩
  · rw [line]
    exact length_written items (by decide)
  · intro enough
    rw [line, written_all items enough]

/-- A short line. -/
theorem log_line_short :
    (([.string (bytes "NO."), .int (-7), .char 10] : List Item).foldl LogStream.put
      ⟨.empty⟩).buffer.data = bytes "NO." ++ integer (-7) ++ [10] := by
  have text : ([.string (bytes "NO."), .int (-7), .char 10] : List Item).flatMap Item.text =
      bytes "NO." ++ integer (-7) ++ [10] := by
    simp [Item.text]
  rw [← text]
  exact (log_line _).2.2.2 (by decide)

end BackendCpp.MuduoLog
