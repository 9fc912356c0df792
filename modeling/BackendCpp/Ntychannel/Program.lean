import Mathlib.Tactic

/-!
# The character device of ntychannel_mmap.c

`ntychannel_read`, `ntychannel_write` and `ntychannel_llseek` on one open file of one
device. The position is a `loff_t`, sizes are `size_t` and `count` is an `unsigned int`, so
each conversion of the source is written out on fixed-width integers. The kernel is built
with wrapping signed arithmetic. Whether `copy_to_user` and `copy_from_user` copy all bytes
or fail is an input of the call. A call reports the indices of `channel->data` that it
touches, also when the copy fails.
-/

namespace BackendCpp.Ntychannel

/-- `NTYCHANNEL_SIZE`: the bytes allocated for a device. -/
def ntychannelSize : Nat := 4096

/-- `EFAULT` of the kernel headers. -/
def efault : Int64 := 14

/-- `EINVAL` of the kernel headers. -/
def einval : Int64 := 22

/-- A device with its open file. -/
structure Device where
  /-- The bytes from `channel->data` on; only the first `ntychannelSize` are allocated. -/
  data : Nat → UInt8
  /-- `filp->f_pos`. -/
  fPos : Int64

/-- What a call returns and touches. -/
structure Outcome where
  /-- The returned `ssize_t` or `loff_t`. -/
  ret : Int64
  /-- The indices of `channel->data` read or written. -/
  accessed : List Nat
  /-- The bytes copied to the caller's buffer. -/
  delivered : List UInt8

/-- A call on the open file. -/
inductive Call where
  /-- `ntychannel_read`; `copied` tells whether `copy_to_user` succeeds. -/
  | read (size : UInt64) (copied : Bool)
  /-- `ntychannel_write` from `buffer`; `copied` tells whether `copy_from_user` succeeds. -/
  | write (buffer : Nat → UInt8) (size : UInt64) (copied : Bool)
  /-- `ntychannel_llseek`. -/
  | llseek (offset : Int64) (whence : Int32)

/-- The `count` that a transfer at `p` uses: the size cut to 32 bits, then to what is left. -/
def transferCount (p size : UInt64) : UInt32 :=
  let count := size.toUInt32
  if count.toUInt64 > UInt64.ofNat ntychannelSize - p then
    (UInt64.ofNat ntychannelSize - p).toUInt32
  else count

/-- The indices `p, …, p + count - 1`. -/
def span (p : UInt64) (count : UInt32) : List Nat :=
  (List.range count.toNat).map (p.toNat + ·)

/-- The data after `count` bytes of `buffer` are copied to `channel->data + p`. -/
def store (data : Nat → UInt8) (p : UInt64) (count : UInt32) (buffer : Nat → UInt8) :
    Nat → UInt8 :=
  fun index =>
    if p.toNat ≤ index ∧ index < p.toNat + count.toNat then buffer (index - p.toNat)
    else data index

/-- A call that touches nothing and returns `ret`. -/
def Outcome.plain (ret : Int64) : Outcome := ⟨ret, [], []⟩

/-- `ntychannel_read`. -/
def ntychannelRead (device : Device) (size : UInt64) (copied : Bool) : Device × Outcome :=
  let p := device.fPos.toUInt64
  if p ≥ UInt64.ofNat ntychannelSize then (device, .plain 0)
  else
    let count := transferCount p size
    if !copied then (device, ⟨-efault, span p count, []⟩)
    else
      ({ device with fPos := device.fPos + count.toUInt64.toInt64 },
        ⟨count.toInt32.toInt64, span p count, (span p count).map device.data⟩)

/-- `ntychannel_write`. -/
def ntychannelWrite (device : Device) (buffer : Nat → UInt8) (size : UInt64) (copied : Bool) :
    Device × Outcome :=
  let p := device.fPos.toUInt64
  if p ≥ UInt64.ofNat ntychannelSize then (device, .plain 0)
  else
    let count := transferCount p size
    if !copied then (device, ⟨-efault, span p count, []⟩)
    else
      (⟨store device.data p count buffer, device.fPos + count.toUInt64.toInt64⟩,
        ⟨count.toInt32.toInt64, span p count, []⟩)

/-- The new position that the `switch` of `ntychannel_llseek` computes, if any. -/
def newpos (fPos offset : Int64) (whence : Int32) : Option Int64 :=
  if whence = 0 then some offset
  else if whence = 1 then some (fPos + offset)
  else if whence = 2 then some (Int64.ofNat (ntychannelSize - 1) + offset)
  else none

/-- `ntychannel_llseek`. -/
def ntychannelLlseek (device : Device) (offset : Int64) (whence : Int32) : Device × Outcome :=
  match newpos device.fPos offset whence with
  | none => (device, .plain (-einval))
  | some target =>
    if target < 0 ∨ target > Int64.ofNat ntychannelSize then (device, .plain (-einval))
    else ({ device with fPos := target }, .plain target)

/-- A call on the open file. -/
def Device.call (device : Device) : Call → Device × Outcome
  | .read size copied => ntychannelRead device size copied
  | .write buffer size copied => ntychannelWrite device buffer size copied
  | .llseek offset whence => ntychannelLlseek device offset whence

/-- A device as `ntychannel_init` leaves it, with a file just opened; the bytes that are not
allocated for it are arbitrary. -/
def opened (outside : Nat → UInt8) : Device :=
  ⟨fun index => if index < ntychannelSize then 0 else outside index, 0⟩

/-- The device after a sequence of calls. -/
def Device.after (device : Device) (calls : List Call) : Device :=
  calls.foldl (fun device call => (device.call call).1) device

end BackendCpp.Ntychannel
