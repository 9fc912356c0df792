import BackendCpp.Ntychannel.Program

/-!
# The device as a file of fixed size

The abstract file has a position inside the file and the bytes written so far, newest
first. Its calls are stated over naturals and integers without a word size. Every sequence
of calls on the device answers as it does on this file.
-/

namespace BackendCpp.Ntychannel

/-- A file of `ntychannelSize` bytes with a position. -/
structure File where
  /-- The position of the next transfer. -/
  position : Nat
  /-- The position is inside the file or at its end. -/
  within : position ≤ ntychannelSize
  /-- The indices and bytes written so far, newest first. -/
  written : List (Nat × UInt8)

/-- The value returned by a call on the file and the bytes it hands out. -/
structure Answer where
  /-- The returned number. -/
  ret : Int
  /-- The bytes read. -/
  delivered : List UInt8

namespace File

/-- The byte most recently written at an index, zero when there is none. -/
def byteAt (file : File) (index : Nat) : UInt8 := (file.written.lookup index).getD 0

/-- The bytes that a transfer of a given size moves. -/
def room (file : File) (size : Nat) : Nat := min (size % 2 ^ 32) (ntychannelSize - file.position)

/-- A transfer stays inside the file. -/
theorem room_fits (file : File) (size : Nat) :
    file.position + file.room size ≤ ntychannelSize := by
  have inside := file.within
  have short : file.room size ≤ ntychannelSize - file.position := Nat.min_le_right _ _
  omega

/-- The bytes of a transfer of a given size from the position on. -/
def bytes (file : File) (size : Nat) : List UInt8 :=
  (List.range (file.room size)).map (fun step => file.byteAt (file.position + step))

/-- Read at the position. -/
def read (file : File) (size : Nat) (copied : Bool) : File × Answer :=
  if file.position = ntychannelSize then (file, ⟨0, []⟩)
  else if !copied then (file, ⟨-14, []⟩)
  else
    ({ file with position := file.position + file.room size, within := file.room_fits size },
      ⟨file.room size, file.bytes size⟩)

/-- The indices and bytes that a write of `count` bytes at `position` puts down. -/
def block (position count : Nat) (buffer : Nat → UInt8) : List (Nat × UInt8) :=
  (List.range count).map (fun step => (position + step, buffer step))

/-- Write at the position. -/
def write (file : File) (buffer : Nat → UInt8) (size : Nat) (copied : Bool) : File × Answer :=
  if file.position = ntychannelSize then (file, ⟨0, []⟩)
  else if !copied then (file, ⟨-14, []⟩)
  else
    (⟨file.position + file.room size, file.room_fits size,
        block file.position (file.room size) buffer ++ file.written⟩,
      ⟨file.room size, []⟩)

/-- The position that a seek asks for, if `whence` is known. -/
def target (file : File) (offset whence : Int) : Option Int :=
  if whence = 0 then some offset
  else if whence = 1 then some (file.position + offset)
  else if whence = 2 then some (ntychannelSize - 1 + offset)
  else none

/-- Move the position; a target outside the file is refused. -/
def seek (file : File) (offset whence : Int) : File × Answer :=
  match file.target offset whence with
  | none => (file, ⟨-22, []⟩)
  | some place =>
    if inside : 0 ≤ place ∧ place ≤ ntychannelSize then
      ({ file with position := place.toNat, within := Int.toNat_le.mpr inside.2 }, ⟨place, []⟩)
    else (file, ⟨-22, []⟩)

/-- A call on the file. -/
def call (file : File) : Call → File × Answer
  | .read size copied => file.read size.toNat copied
  | .write buffer size copied => file.write buffer size.toNat copied
  | .llseek offset whence => file.seek offset.toInt whence.toInt

/-- The file before any call. -/
def blank : File := ⟨0, Nat.zero_le _, []⟩

/-- The file after a sequence of calls. -/
def after (file : File) (calls : List Call) : File :=
  calls.foldl (fun file call => (file.call call).1) file

/-- Nothing is left to transfer at the end. -/
theorem room_ended {file : File} (ended : file.position = ntychannelSize) (size : Nat) :
    file.room size = 0 := by
  rw [room, ended, Nat.sub_self, Nat.min_zero]

/-- An accepted read moves what there is room for. -/
theorem read_moves (file : File) (size : Nat) (copied : Bool)
    (accepted : 0 ≤ (file.read size copied).2.ret) :
    (file.read size copied).2.ret = file.room size ∧
      (file.read size copied).1.position = file.position + file.room size ∧
      (file.read size copied).2.delivered = file.bytes size := by
  by_cases ended : file.position = ntychannelSize
  · rw [bytes, room_ended ended]
    simp only [read, if_pos ended]
    exact ⟨rfl, rfl, rfl⟩
  · simp only [read, if_neg ended] at accepted ⊢
    cases copied with
    | false => exact absurd accepted (by decide : ¬ (0 : Int) ≤ -14)
    | true => exact ⟨rfl, rfl, rfl⟩

/-- An accepted write moves what there is room for. -/
theorem write_moves (file : File) (buffer : Nat → UInt8) (size : Nat) (copied : Bool)
    (accepted : 0 ≤ (file.write buffer size copied).2.ret) :
    (file.write buffer size copied).2.ret = file.room size ∧
      (file.write buffer size copied).1.position = file.position + file.room size := by
  by_cases ended : file.position = ntychannelSize
  · rw [room_ended ended]
    simp only [write, if_pos ended]
    exact ⟨rfl, rfl⟩
  · simp only [write, if_neg ended] at accepted ⊢
    cases copied with
    | false => exact absurd accepted (by decide : ¬ (0 : Int) ≤ -14)
    | true => exact ⟨rfl, rfl⟩

/-- A block answers for its own indices only. -/
theorem lookup_block (position count : Nat) (buffer : Nat → UInt8) (index : Nat) :
    (block position count buffer).lookup index =
      if position ≤ index ∧ index < position + count then some (buffer (index - position))
      else none := by
  induction count with
  | zero =>
    have none : ¬ (position ≤ index ∧ index < position + 0) := by omega
    rw [if_neg none]
    rfl
  | succ count ih =>
    rw [block, List.range_succ, List.map_append, List.lookup_append]
    rw [block] at ih
    rw [ih]
    by_cases before : position ≤ index ∧ index < position + count
    · have now : position ≤ index ∧ index < position + (count + 1) := by omega
      rw [if_pos before, if_pos now]
      rfl
    · rw [if_neg before]
      by_cases last : index = position + count
      · have now : position ≤ index ∧ index < position + (count + 1) := by omega
        rw [if_pos now, last]
        simp
      · have other : ¬ (position ≤ index ∧ index < position + (count + 1)) := by omega
        rw [if_neg other]
        have differs : (index == position + count) = false := beq_eq_false_iff_ne.mpr last
        rw [List.map_singleton, List.lookup_cons, differs]
        rfl

end File

/-- The device stands for the file: same position, same bytes. -/
structure Refines (device : Device) (file : File) : Prop where
  /-- The position of the file as a signed number. -/
  position : device.fPos.toInt = file.position
  /-- The allocated bytes are those most recently written. -/
  bytes : ∀ index < ntychannelSize, device.data index = file.byteAt index

section Words

variable {device : Device} {file : File}

/-- The position read as an `unsigned long`. -/
theorem Refines.unsigned (refines : Refines device file) :
    device.fPos.toUInt64.toNat = file.position := by
  have signed := refines.position
  have nonneg : (0 : Int64) ≤ device.fPos := by
    rw [Int64.le_iff_toInt_le, signed]
    exact Int.natCast_nonneg _
  rw [Int64.toNat_toUInt64_of_le nonneg, Int64.toNatClampNeg, signed]
  rfl

/-- The first test of a transfer: the position is at the end. -/
theorem Refines.ended (refines : Refines device file) :
    device.fPos.toUInt64 ≥ UInt64.ofNat ntychannelSize ↔ file.position = ntychannelSize := by
  have inside := file.within
  rw [ge_iff_le, UInt64.le_iff_toNat_le, refines.unsigned]
  change ntychannelSize ≤ file.position ↔ _
  omega

/-- The count of a transfer does not wrap. -/
theorem Refines.count (refines : Refines device file) (size : UInt64) :
    (transferCount device.fPos.toUInt64 size).toNat = file.room size.toNat := by
  have inside := file.within
  have place := refines.unsigned
  have left : (UInt64.ofNat ntychannelSize - device.fPos.toUInt64).toNat =
      ntychannelSize - file.position := by
    rw [UInt64.toNat_sub_of_le, place]
    · rfl
    · rw [UInt64.le_iff_toNat_le, place]
      exact inside
  have small : ntychannelSize - file.position ≤ 4096 := Nat.sub_le _ _
  simp only [transferCount, File.room]
  by_cases larger : size.toUInt32.toUInt64 > UInt64.ofNat ntychannelSize - device.fPos.toUInt64
  · rw [if_pos larger]
    rw [gt_iff_lt, UInt64.lt_iff_toNat_lt, left] at larger
    rw [UInt32.toNat_toUInt64, UInt64.toNat_toUInt32] at larger
    rw [UInt64.toNat_toUInt32, left]
    omega
  · rw [if_neg larger]
    rw [gt_iff_lt, UInt64.lt_iff_toNat_lt, left] at larger
    rw [UInt32.toNat_toUInt64, UInt64.toNat_toUInt32] at larger
    rw [UInt64.toNat_toUInt32]
    omega

/-- A count of a transfer as a signed number. -/
theorem count_signed {count : UInt32} (small : count.toNat ≤ ntychannelSize) :
    count.toUInt64.toInt64.toInt = count.toNat ∧ count.toInt32.toInt64.toInt = count.toNat := by
  have bound : count.toNat ≤ 4096 := small
  have wide : count.toUInt64.toInt64 = Int64.ofNat count.toNat := by
    rw [← UInt64.toInt64_ofNat', UInt64.ofNat_uInt32ToNat]
  have narrow : count.toInt32 = Int32.ofNat count.toNat := by
    rw [← UInt32.toInt32_ofNat', UInt32.ofNat_toNat]
  rw [wide, narrow, Int32.toInt_toInt64]
  exact ⟨Int64.toInt_ofNat_of_lt (by omega), Int32.toInt_ofNat_of_lt (by omega)⟩

/-- The position after a transfer. -/
theorem Refines.advanced (refines : Refines device file) (size : UInt64) :
    (device.fPos + (transferCount device.fPos.toUInt64 size).toUInt64.toInt64).toInt =
      (file.position + file.room size.toNat : Nat) := by
  have fits : file.position + file.room size.toNat ≤ 4096 := file.room_fits size.toNat
  have counted := refines.count size
  have small : (transferCount device.fPos.toUInt64 size).toNat ≤ ntychannelSize := by
    rw [counted]
    have limit : ntychannelSize = 4096 := rfl
    omega
  rw [Int64.toInt_add, refines.position, (count_signed small).1, counted]
  rw [Int.bmod_eq_of_le (by omega) (by omega)]
  exact (Int.natCast_add _ _).symm

/-- The value returned by a transfer. -/
theorem Refines.returned (refines : Refines device file) (size : UInt64) :
    (transferCount device.fPos.toUInt64 size).toInt32.toInt64.toInt = file.room size.toNat := by
  have fits := file.room_fits size.toNat
  have counted := refines.count size
  rw [(count_signed (by omega)).2, counted]

/-- A transfer touches the indices from the position on. -/
theorem Refines.touched (refines : Refines device file) (size : UInt64) :
    span device.fPos.toUInt64 (transferCount device.fPos.toUInt64 size) =
      (List.range (file.room size.toNat)).map (file.position + ·) := by
  rw [span, refines.unsigned, refines.count size]

/-- Every index that a transfer touches is allocated. -/
theorem Refines.touched_inside (refines : Refines device file) (size : UInt64) :
    ∀ index ∈ span device.fPos.toUInt64 (transferCount device.fPos.toUInt64 size),
      index < ntychannelSize := by
  intro index member
  rw [refines.touched size] at member
  obtain ⟨step, below, same⟩ := List.mem_map.mp member
  have short := List.mem_range.mp below
  have fits := file.room_fits size.toNat
  change file.position + step = index at same
  omega

/-- The bytes handed out by a read. -/
theorem Refines.handed (refines : Refines device file) (size : UInt64) :
    (span device.fPos.toUInt64 (transferCount device.fPos.toUInt64 size)).map device.data =
      file.bytes size.toNat := by
  rw [refines.touched size, List.map_map]
  apply List.map_congr_left
  intro step below
  have short := List.mem_range.mp below
  have fits := file.room_fits size.toNat
  have inside : file.position + step < ntychannelSize := by omega
  exact refines.bytes _ inside

/-- The bytes after a write. -/
theorem Refines.stored (refines : Refines device file) (buffer : Nat → UInt8) (size : UInt64)
    {index : Nat} (inside : index < ntychannelSize) :
    store device.data device.fPos.toUInt64 (transferCount device.fPos.toUInt64 size) buffer index =
      (((File.block file.position (file.room size.toNat) buffer ++ file.written).lookup
        index).getD 0) := by
  rw [store, refines.unsigned, refines.count size, List.lookup_append, File.lookup_block]
  by_cases mine : file.position ≤ index ∧ index < file.position + file.room size.toNat
  · rw [if_pos mine, if_pos mine]
    rfl
  · rw [if_neg mine, if_neg mine]
    exact refines.bytes index inside

/-- The target of a seek, as far as it is inside the file: a wrapped sum is refused. -/
theorem bounded_sum {base : Nat} (small : base ≤ 4096) (first offset : Int64)
    (same : first.toInt = base) :
    ((first + offset).toInt = base + offset.toInt) ∨
      ((first + offset).toInt < 0 ∧ 4096 < base + offset.toInt) := by
  have low : -2 ^ 63 ≤ offset.toInt := Int64.le_toInt offset
  have high := Int64.toInt_lt offset
  rw [Int64.toInt_add, same]
  by_cases wraps : base + offset.toInt < 2 ^ 63
  · exact .inl (Int.bmod_eq_of_le (by omega) (by omega))
  · right
    have shifted : ((base : Int) + offset.toInt).bmod (2 ^ 64) =
        ((base : Int) + offset.toInt - 2 ^ 64).bmod (2 ^ 64) := by
      exact (Int.sub_bmod_right _ _).symm
    rw [shifted, Int.bmod_eq_of_le (by omega) (by omega)]
    omega

/-- A seek computes the target of the abstract file, or both are refused. -/
theorem Refines.sought (refines : Refines device file) (offset : Int64) (whence : Int32) :
    (newpos device.fPos offset whence = none ∧
      file.target offset.toInt whence.toInt = none) ∨
    ∃ word place, newpos device.fPos offset whence = some word ∧
      file.target offset.toInt whence.toInt = some place ∧
      (word.toInt = place ∨ (word.toInt < 0 ∧ 4096 < place)) := by
  have known (value : Int32) : whence = value ↔ whence.toInt = value.toInt :=
    Int32.toInt_inj.symm
  have zero : whence = 0 ↔ whence.toInt = 0 := known 0
  have one : whence = 1 ↔ whence.toInt = 1 := known 1
  have two : whence = 2 ↔ whence.toInt = 2 := known 2
  simp only [newpos, File.target, zero, one, two]
  by_cases start : whence.toInt = 0
  · exact .inr ⟨offset, offset.toInt, by rw [if_pos start], by rw [if_pos start], .inl rfl⟩
  by_cases current : whence.toInt = 1
  · refine .inr ⟨device.fPos + offset, file.position + offset.toInt, ?_, ?_, ?_⟩
    · rw [if_neg start, if_pos current]
    · rw [if_neg start, if_pos current]
    · exact bounded_sum file.within _ _ refines.position
  by_cases ending : whence.toInt = 2
  · refine .inr ⟨Int64.ofNat (ntychannelSize - 1) + offset,
      ntychannelSize - 1 + offset.toInt, ?_, ?_, ?_⟩
    · rw [if_neg start, if_neg current, if_pos ending]
    · rw [if_neg start, if_neg current, if_pos ending]
    · exact @bounded_sum 4095 (by decide) _ _ (by decide)
  · left
    rw [if_neg start, if_neg current, if_neg ending, if_neg start, if_neg current, if_neg ending]
    exact ⟨rfl, rfl⟩

end Words

/-- What one call on the device does, against the same call on the file. -/
structure Agrees (device : Device) (file : File) (call : Call) : Prop where
  /-- The device after the call stands for the file after it. -/
  next : Refines (device.call call).1 (file.call call).1
  /-- Both return the same number. -/
  ret : (device.call call).2.ret.toInt = (file.call call).2.ret
  /-- Both hand out the same bytes. -/
  delivered : (device.call call).2.delivered = (file.call call).2.delivered
  /-- Only allocated bytes are touched. -/
  accessed : ∀ index ∈ (device.call call).2.accessed, index < ntychannelSize
  /-- A negative answer leaves the device as it was. -/
  refused : (device.call call).2.ret < 0 → (device.call call).1 = device

section Steps

variable {device : Device} {file : File}

/-- A call that answers without a transfer agrees when the file answers alike. -/
theorem Refines.agrees_plain (refines : Refines device file) {call : Call} {outcome : Outcome}
    {answer : Answer} (concrete : device.call call = (device, outcome))
    (abstract : file.call call = (file, answer)) (ret : outcome.ret.toInt = answer.ret)
    (delivered : outcome.delivered = answer.delivered)
    (accessed : ∀ index ∈ outcome.accessed, index < ntychannelSize) :
    Agrees device file call := by
  refine ⟨?_, ?_, ?_, ?_, ?_⟩
  · rw [concrete, abstract]
    exact refines
  · rw [concrete, abstract]
    exact ret
  · rw [concrete, abstract]
    exact delivered
  · rw [concrete]
    exact accessed
  · intro _
    rw [concrete]

/-- A transfer never returns a negative number. -/
theorem Refines.transfer_nonneg (refines : Refines device file) (size : UInt64) :
    ¬ (transferCount device.fPos.toUInt64 size).toInt32.toInt64 < 0 := by
  rw [Int64.lt_iff_toInt_lt, refines.returned size]
  exact not_lt.mpr (Int.natCast_nonneg _)

/-- A read on the device is a read on the file. -/
theorem Refines.read (refines : Refines device file) (size : UInt64) (copied : Bool) :
    Agrees device file (.read size copied) := by
  by_cases ended : file.position = ntychannelSize
  · apply @Refines.agrees_plain device file refines _ (.plain 0) ⟨0, []⟩
    · simp only [Device.call, ntychannelRead, if_pos (refines.ended.mpr ended)]
    · simp only [File.call, File.read, if_pos ended]
    · rfl
    · rfl
    · intro index member
      cases member
  have going := mt refines.ended.mp ended
  cases copied with
  | false =>
    apply @Refines.agrees_plain device file refines _ _ ⟨-14, []⟩
    · simp only [Device.call, ntychannelRead, if_neg going, Bool.not_false, if_true]
      rfl
    · simp only [File.call, File.read, if_neg ended, Bool.not_false, if_true]
    · exact (by decide : (-efault).toInt = -14)
    · rfl
    · exact refines.touched_inside size
  | true =>
    have concrete : device.call (.read size true) =
        ({ device with
            fPos := device.fPos + (transferCount device.fPos.toUInt64 size).toUInt64.toInt64 },
          ⟨(transferCount device.fPos.toUInt64 size).toInt32.toInt64,
            span device.fPos.toUInt64 (transferCount device.fPos.toUInt64 size),
            (span device.fPos.toUInt64 (transferCount device.fPos.toUInt64 size)).map
              device.data⟩) := by
      simp only [Device.call, ntychannelRead, if_neg going, Bool.not_true, Bool.false_eq_true,
        if_false]
    have abstract : file.call (.read size true) =
        ({ file with
            position := file.position + file.room size.toNat
            within := file.room_fits size.toNat },
          ⟨file.room size.toNat, file.bytes size.toNat⟩) := by
      simp only [File.call, File.read, if_neg ended, Bool.not_true, Bool.false_eq_true, if_false]
    constructor
    · rw [concrete, abstract]
      exact ⟨refines.advanced size, refines.bytes⟩
    · rw [concrete, abstract]
      exact refines.returned size
    · rw [concrete, abstract]
      exact refines.handed size
    · rw [concrete]
      exact refines.touched_inside size
    · intro negative
      rw [concrete] at negative
      exact absurd negative (refines.transfer_nonneg size)

/-- A write on the device is a write on the file. -/
theorem Refines.write (refines : Refines device file) (buffer : Nat → UInt8) (size : UInt64)
    (copied : Bool) : Agrees device file (.write buffer size copied) := by
  by_cases ended : file.position = ntychannelSize
  · apply @Refines.agrees_plain device file refines _ (.plain 0) ⟨0, []⟩
    · simp only [Device.call, ntychannelWrite, if_pos (refines.ended.mpr ended)]
    · simp only [File.call, File.write, if_pos ended]
    · rfl
    · rfl
    · intro index member
      cases member
  have going := mt refines.ended.mp ended
  cases copied with
  | false =>
    apply @Refines.agrees_plain device file refines _ _ ⟨-14, []⟩
    · simp only [Device.call, ntychannelWrite, if_neg going, Bool.not_false, if_true]
      rfl
    · simp only [File.call, File.write, if_neg ended, Bool.not_false, if_true]
    · exact (by decide : (-efault).toInt = -14)
    · rfl
    · exact refines.touched_inside size
  | true =>
    have concrete : device.call (.write buffer size true) =
        (⟨store device.data device.fPos.toUInt64 (transferCount device.fPos.toUInt64 size) buffer,
            device.fPos + (transferCount device.fPos.toUInt64 size).toUInt64.toInt64⟩,
          ⟨(transferCount device.fPos.toUInt64 size).toInt32.toInt64,
            span device.fPos.toUInt64 (transferCount device.fPos.toUInt64 size), []⟩) := by
      simp only [Device.call, ntychannelWrite, if_neg going, Bool.not_true, Bool.false_eq_true,
        if_false]
    have abstract : file.call (.write buffer size true) =
        (⟨file.position + file.room size.toNat, file.room_fits size.toNat,
            File.block file.position (file.room size.toNat) buffer ++ file.written⟩,
          ⟨file.room size.toNat, []⟩) := by
      simp only [File.call, File.write, if_neg ended, Bool.not_true, Bool.false_eq_true, if_false]
    constructor
    · rw [concrete, abstract]
      exact ⟨refines.advanced size, fun _ inside => refines.stored buffer size inside⟩
    · rw [concrete, abstract]
      exact refines.returned size
    · rw [concrete, abstract]
    · rw [concrete]
      exact refines.touched_inside size
    · intro negative
      rw [concrete] at negative
      exact absurd negative (refines.transfer_nonneg size)

/-- A refused seek agrees. -/
theorem Refines.seek_refused (refines : Refines device file) {offset : Int64} {whence : Int32}
    (concrete : ntychannelLlseek device offset whence = (device, .plain (-einval)))
    (abstract : file.seek offset.toInt whence.toInt = (file, ⟨-22, []⟩)) :
    Agrees device file (.llseek offset whence) := by
  apply @Refines.agrees_plain device file refines (.llseek offset whence) _ _ concrete abstract
  · decide
  · rfl
  · intro index member
    cases member

/-- A seek on the device is a seek on the file. -/
theorem Refines.llseek (refines : Refines device file) (offset : Int64) (whence : Int32) :
    Agrees device file (.llseek offset whence) := by
  have limit : (Int64.ofNat ntychannelSize).toInt = 4096 := by decide
  have size : (ntychannelSize : Int) = 4096 := rfl
  rcases refines.sought offset whence with ⟨noWord, noPlace⟩ | ⟨word, place, aim, goal, same⟩
  · apply refines.seek_refused
    · simp only [ntychannelLlseek, noWord]
    · simp only [File.seek, noPlace]
  have negative : word < 0 ↔ word.toInt < 0 := Int64.lt_iff_toInt_lt
  have beyond : word > Int64.ofNat ntychannelSize ↔ 4096 < word.toInt := by
    rw [gt_iff_lt, Int64.lt_iff_toInt_lt, limit]
  by_cases inside : 0 ≤ place ∧ place ≤ ntychannelSize
  · have exact : word.toInt = place := by omega
    have kept : ¬ (word < 0 ∨ word > Int64.ofNat ntychannelSize) := by
      rw [negative, beyond]
      omega
    have concrete : device.call (.llseek offset whence) =
        ({ device with fPos := word }, .plain word) := by
      simp only [Device.call, ntychannelLlseek, aim, if_neg kept]
    have abstract : file.call (.llseek offset whence) =
        ({ file with position := place.toNat, within := Int.toNat_le.mpr inside.2 },
          ⟨place, []⟩) := by
      simp only [File.call, File.seek, goal, dif_pos inside]
    constructor
    · rw [concrete, abstract]
      refine ⟨?_, refines.bytes⟩
      change word.toInt = (place.toNat : Int)
      omega
    · rw [concrete, abstract]
      exact exact
    · rw [concrete, abstract]
      rfl
    · rw [concrete]
      intro index member
      cases member
    · intro below
      rw [concrete] at below
      exact absurd (Or.inl below) kept
  · have left : word < 0 ∨ word > Int64.ofNat ntychannelSize := by
      rw [negative, beyond]
      omega
    apply refines.seek_refused
    · simp only [ntychannelLlseek, aim, if_pos left]
    · simp only [File.seek, goal, dif_neg inside]

/-- Every call on the device agrees with the call on the file. -/
theorem Refines.agrees (refines : Refines device file) (call : Call) :
    Agrees device file call := by
  cases call with
  | read size copied => exact refines.read size copied
  | write buffer size copied => exact refines.write buffer size copied
  | llseek offset whence => exact refines.llseek offset whence

/-- A read changes no byte of the device. -/
theorem read_data (device : Device) (size : UInt64) (copied : Bool) :
    (ntychannelRead device size copied).1.data = device.data := by
  rw [ntychannelRead]
  split
  · rfl
  · cases copied <;> rfl

/-- An accepted write changes the bytes it moves and no other. -/
theorem Refines.write_data (refines : Refines device file) (buffer : Nat → UInt8) (size : UInt64)
    (copied : Bool) (accepted : 0 ≤ (ntychannelWrite device buffer size copied).2.ret)
    (index : Nat) :
    (ntychannelWrite device buffer size copied).1.data index =
      if file.position ≤ index ∧ index < file.position + file.room size.toNat then
        buffer (index - file.position)
      else device.data index := by
  by_cases ended : file.position = ntychannelSize
  · have nothing : ¬ (file.position ≤ index ∧
        index < file.position + file.room size.toNat) := by
      rw [File.room_ended ended]
      omega
    rw [if_neg nothing]
    simp only [ntychannelWrite, if_pos (refines.ended.mpr ended)]
  · simp only [ntychannelWrite, if_neg (mt refines.ended.mp ended)] at accepted ⊢
    cases copied with
    | false => exact absurd accepted (by decide : ¬ (0 : Int64) ≤ -efault)
    | true =>
      rw [← refines.count size, ← refines.unsigned]
      rfl

end Steps

/-- A device just opened stands for the blank file. -/
theorem opened_refines (outside : Nat → UInt8) : Refines (opened outside) File.blank := by
  refine ⟨rfl, fun index inside => ?_⟩
  exact if_pos inside

/-- The device after any calls stands for the file after them. -/
theorem after_refines (calls : List Call) :
    ∀ {device : Device} {file : File}, Refines device file →
      Refines (device.after calls) (file.after calls) := by
  induction calls with
  | nil =>
    intro device file refines
    exact refines
  | cons call calls ih =>
    intro device file refines
    exact ih (refines.agrees call).next

/-- The device is a file of `ntychannelSize` bytes with a position. After any calls the
position is inside, the next call touches allocated bytes only and answers as the file does, a
transfer moves what is left of the size cut to 32 bits, and a refused call changes nothing. -/
theorem ntychannel_refines_file (outside : Nat → UInt8) (calls : List Call) :
    let device := (opened outside).after calls
    let file := File.blank.after calls
    (0 ≤ device.fPos.toInt ∧ device.fPos.toInt ≤ ntychannelSize) ∧
    (device.fPos.toInt = file.position ∧
      ∀ index < ntychannelSize, device.data index = file.byteAt index) ∧
    (∀ call,
      (∀ index ∈ (device.call call).2.accessed, index < ntychannelSize) ∧
      (device.call call).2.ret.toInt = (file.call call).2.ret ∧
      (device.call call).2.delivered = (file.call call).2.delivered ∧
      ((device.call call).2.ret < 0 →
        (device.call call).1.data = device.data ∧ (device.call call).1.fPos = device.fPos)) ∧
    (∀ size copied, 0 ≤ (ntychannelRead device size copied).2.ret →
      let p := device.fPos.toInt.toNat
      let n := min (size.toNat % 2 ^ 32) (ntychannelSize - p)
      (ntychannelRead device size copied).2.ret.toInt = n ∧
      (ntychannelRead device size copied).1.fPos.toInt = p + n ∧
      (ntychannelRead device size copied).1.data = device.data ∧
      (ntychannelRead device size copied).2.delivered =
        (List.range n).map (fun step => file.byteAt (p + step))) ∧
    (∀ buffer size copied, 0 ≤ (ntychannelWrite device buffer size copied).2.ret →
      let p := device.fPos.toInt.toNat
      let n := min (size.toNat % 2 ^ 32) (ntychannelSize - p)
      (ntychannelWrite device buffer size copied).2.ret.toInt = n ∧
      (ntychannelWrite device buffer size copied).1.fPos.toInt = p + n ∧
      ∀ index, (ntychannelWrite device buffer size copied).1.data index =
        if p ≤ index ∧ index < p + n then buffer (index - p) else device.data index) := by
  intro device file
  have refines : Refines device file := after_refines calls (opened_refines outside)
  have place : device.fPos.toInt.toNat = file.position := by
    rw [refines.position]
    rfl
  have inside := file.within
  refine ⟨?_, ⟨refines.position, refines.bytes⟩, ?_, ?_, ?_⟩
  · rw [refines.position]
    omega
  · intro call
    have agrees := refines.agrees call
    refine ⟨agrees.accessed, agrees.ret, agrees.delivered, fun negative => ?_⟩
    rw [agrees.refused negative]
    exact ⟨rfl, rfl⟩
  · intro size copied accepted
    have agrees := refines.agrees (.read size copied)
    have answered : (ntychannelRead device size copied).2.ret.toInt =
      (file.read size.toNat copied).2.ret := agrees.ret
    rw [Int64.le_iff_toInt_le, answered] at accepted
    have moves := file.read_moves size.toNat copied accepted
    rw [place]
    refine ⟨answered.trans moves.1, ?_, read_data device size copied,
      agrees.delivered.trans moves.2.2⟩
    rw [← Int.natCast_add]
    exact agrees.next.position.trans (congrArg Nat.cast moves.2.1)
  · intro buffer size copied accepted
    have agrees := refines.agrees (.write buffer size copied)
    have changes := refines.write_data buffer size copied accepted
    have answered : (ntychannelWrite device buffer size copied).2.ret.toInt =
      (file.write buffer size.toNat copied).2.ret := agrees.ret
    rw [Int64.le_iff_toInt_le, answered] at accepted
    have moves := file.write_moves buffer size.toNat copied accepted
    rw [place]
    refine ⟨answered.trans moves.1, ?_, changes⟩
    rw [← Int.natCast_add]
    exact agrees.next.position.trans (congrArg Nat.cast moves.2)


end BackendCpp.Ntychannel
