import Mathlib.Data.Nat.Digits.Defs
import Mathlib.Logic.Function.Basic

/-!
# The detection of floods

`count_bit` and `ddos_detect` of tcp.c. The packets come with the bytes that may be read from the
start of their data; reading behind them is undefined (`none`). Words are read with the lowest
byte first.
-/

namespace BackendCpp.Tcp

/-- `CAPTURE_WINDOWS`. -/
def CAPTURE_WINDOWS : Nat := 256

/-- `tresh`. -/
def tresh : Float := 1200.0

/-- `ddos_entropy`. -/
def ddosEntropy (setBits totalBits : Float) : Float :=
  (-setBits) * (Float.log2 setBits - Float.log2 totalBits)
    - (totalBits - setBits) * (Float.log2 (totalBits - setBits) - Float.log2 totalBits)
    + Float.log2 totalBits

/-- `*ptr` for a pointer to 64 bits. -/
def readWord (msg : List UInt8) (ptr : Nat) : Option UInt64 :=
  if ptr + 8 ≤ msg.length then
    some (UInt64.ofNat (Nat.ofDigits 256 (((msg.drop ptr).take 8).map UInt8.toNat)))
  else none

/-- What the body of the loop in `count_bit` adds for a word. -/
def countWord (v : UInt64) : UInt64 :=
  let v := v - ((v >>> 1) &&& (0x5555555555555555 : UInt64))
  let v := (v &&& (0x3333333333333333 : UInt64)) + ((v >>> 2) &&& (0x3333333333333333 : UInt64))
  let v := (v + (v >>> 4)) &&& (0x0F0F0F0F0F0F0F0F : UInt64)
  (v * (0x0101010101010101 : UInt64)) >>> ((8 - 1) * 8)

/-- The loop of `count_bit` from `ptr` on; the length tells where `end` is. -/
def countFrom (msg : List UInt8) (length ptr : Nat) (setBits : UInt64) : Option UInt64 :=
  match readWord msg ptr with
  | none => none
  | some v =>
    if ptr + 8 < length then countFrom msg length (ptr + 8) (setBits + countWord v)
    else some (setBits + countWord v)
termination_by length - ptr

/-- `count_bit`. -/
def countBit (msg : List UInt8) (length : UInt32) : Option UInt32 :=
  (countFrom msg length.toNat 0 0).map UInt64.toUInt32

/-- The part of `struct rte_mbuf` that is used: `buf_len`, and what may be read from
`rte_pktmbuf_mtod` on. -/
structure RteMbuf where
  /-- `buf_len`. -/
  bufLen : UInt16
  /-- What may be read. -/
  bytes : List UInt8

/-- The static variables: the three arrays, the index and the flag. -/
structure Detector where
  /-- `p_setbits`. -/
  pSetbits : Nat → UInt32
  /-- `p_totbits`. -/
  pTotbits : Nat → UInt32
  /-- `p_entropy`. -/
  pEntropy : Nat → Float
  /-- `pkt_idx`. -/
  pktIdx : Nat
  /-- `flag`. -/
  flag : UInt8

/-- The static variables when the program begins. -/
def Detector.initial : Detector where
  pSetbits := fun _ => 0
  pTotbits := fun _ => 0
  pEntropy := fun _ => 0.0
  pktIdx := 0
  flag := 0

/-- `total_set`, `total_bit` and `sum_entropy`. -/
structure Sums where
  /-- `total_set`. -/
  totalSet : UInt32
  /-- `total_bit`. -/
  totalBit : UInt32
  /-- `sum_entropy`. -/
  sumEntropy : Float

/-- The loop over the window. -/
def sumWindow (d : Detector) : Sums :=
  (List.range CAPTURE_WINDOWS).foldl
    (fun sums i => ⟨sums.totalSet + d.pSetbits i, sums.totalBit + d.pTotbits i,
      sums.sumEntropy + d.pEntropy i⟩) ⟨0, 0, 0.0⟩

/-- The three assignments to the slot of a packet. -/
def Detector.record (d : Detector) (setBits totBits : UInt32) : Detector :=
  let slot := d.pktIdx % CAPTURE_WINDOWS
  { d with
    pSetbits := Function.update d.pSetbits slot setBits
    pTotbits := Function.update d.pTotbits slot totBits
    pEntropy := Function.update d.pEntropy slot (ddosEntropy setBits.toFloat totBits.toFloat) }

/-- What `ddos_detect` makes of the sums: `rte_exit` at the first alarm, else the flag and the index
for the next packet. -/
def Detector.judge (d : Detector) (sums : Sums) : Option Detector :=
  let entropy := ddosEntropy sums.totalSet.toFloat sums.totalBit.toFloat
  let pktIdx := (d.pktIdx + 1) % CAPTURE_WINDOWS + CAPTURE_WINDOWS
  if tresh < sums.sumEntropy - entropy then
    if d.flag = 0 then none else some { d with flag := 1, pktIdx := pktIdx }
  else some { d with flag := 0, pktIdx := pktIdx }

/-- `ddos_detect`: the sums, where they are formed, and the static variables afterwards unless
`rte_exit` ends the program. -/
def ddosDetect (pkt : RteMbuf) (d : Detector) : Option (Option Sums × Option Detector) :=
  (countBit pkt.bytes pkt.bufLen.toUInt32).map fun setBits =>
  let d := d.record setBits (pkt.bufLen.toUInt32 * 8)
  if CAPTURE_WINDOWS ≤ d.pktIdx then
    let sums := sumWindow d
    (some sums, d.judge sums)
  else (none, some { d with pktIdx := d.pktIdx + 1 })

end BackendCpp.Tcp
