import BackendCpp.Tcp.Output

/-!
# The memory of a packet

What is stored in a packet is loaded from it again, unless it is overwritten; stores and loads
at other offsets do not meet. The byte orders of the machine and of the network are each
other's inverse.
-/

namespace BackendCpp.Tcp

/-- The bytes of a word change places. -/
theorem ntohs_toNat (x : UInt16) : (ntohs x).toNat = x.toNat % 256 * 256 + x.toNat / 256 := by
  have bound := x.toNat_lt
  have low : x.toNat <<< 8 % 2 ^ 16 = (x.toNat % 256) <<< 8 := by
    rw [Nat.shiftLeft_eq, Nat.shiftLeft_eq]
    omega
  have high : x.toNat >>> 8 < 2 ^ 8 := by
    rw [Nat.shiftRight_eq_div_pow]
    omega
  unfold ntohs
  rw [UInt16.toNat_or, UInt16.toNat_shiftLeft, UInt16.toNat_shiftRight]
  change x.toNat <<< 8 % 2 ^ 16 ||| x.toNat >>> 8 = _
  rw [low, ← Nat.shiftLeft_add_eq_or_of_lt high, Nat.shiftLeft_eq, Nat.shiftRight_eq_div_pow]

/-- Swapping twice changes nothing. -/
@[simp] theorem ntohs_ntohs (x : UInt16) : ntohs (ntohs x) = x := by
  have bound := x.toNat_lt
  rw [← UInt16.toNat_inj, ntohs_toNat, ntohs_toNat]
  omega

/-- The halves of a double word change places, and the bytes in them. -/
theorem ntohl_toNat (x : UInt32) : (ntohl x).toNat =
    (ntohs x.toUInt16).toNat * 65536 + (ntohs (x >>> 16).toUInt16).toNat := by
  have low := (ntohs x.toUInt16).toNat_lt
  have high := (ntohs (x >>> 16).toUInt16).toNat_lt
  unfold ntohl
  rw [UInt32.toNat_or, UInt32.toNat_shiftLeft, UInt16.toNat_toUInt32, UInt16.toNat_toUInt32]
  change (ntohs x.toUInt16).toNat <<< 16 % 2 ^ 32 ||| (ntohs (x >>> 16).toUInt16).toNat = _
  have whole : (ntohs x.toUInt16).toNat <<< 16 % 2 ^ 32 = (ntohs x.toUInt16).toNat <<< 16 := by
    rw [Nat.shiftLeft_eq]
    omega
  rw [whole, ← Nat.shiftLeft_add_eq_or_of_lt high, Nat.shiftLeft_eq]

/-- The upper half of a double word. -/
theorem toUInt16_shift (x : UInt32) : (x >>> 16).toUInt16.toNat = x.toNat / 65536 := by
  have bound := x.toNat_lt
  rw [UInt32.toNat_toUInt16, UInt32.toNat_shiftRight]
  change x.toNat >>> 16 % 2 ^ 16 = _
  rw [Nat.shiftRight_eq_div_pow]
  omega

/-- Swapping twice changes nothing. -/
@[simp] theorem ntohl_ntohl (x : UInt32) : ntohl (ntohl x) = x := by
  have bound := x.toNat_lt
  have low := (ntohs x.toUInt16).toNat_lt
  have high := (ntohs (x >>> 16).toUInt16).toNat_lt
  have front : (ntohl x).toUInt16 = ntohs (x >>> 16).toUInt16 := by
    rw [← UInt16.toNat_inj, UInt32.toNat_toUInt16, ntohl_toNat]
    omega
  have back : (ntohl x >>> 16).toUInt16 = ntohs x.toUInt16 := by
    rw [← UInt16.toNat_inj, toUInt16_shift, ntohl_toNat]
    omega
  rw [← UInt32.toNat_inj, ntohl_toNat, front, back, ntohs_ntohs, ntohs_ntohs, toUInt16_shift,
    UInt32.toNat_toUInt16]
  omega

/-- The two bytes of a word. -/
theorem word_of_bytes (x : UInt16) :
    x.toUInt8.toUInt16 ||| ((x >>> 8).toUInt8.toUInt16 <<< 8) = x := by
  have bound := x.toNat_lt
  rw [← UInt16.toNat_inj, UInt16.toNat_or, UInt16.toNat_shiftLeft, UInt8.toNat_toUInt16,
    UInt8.toNat_toUInt16, UInt16.toNat_toUInt8, UInt16.toNat_toUInt8, UInt16.toNat_shiftRight]
  change x.toNat % 2 ^ 8 ||| (x.toNat >>> 8 % 2 ^ 8) <<< 8 % 2 ^ 16 = x.toNat
  have small : x.toNat % 2 ^ 8 < 2 ^ 8 := Nat.mod_lt _ (by decide)
  have whole : (x.toNat >>> 8 % 2 ^ 8) <<< 8 % 2 ^ 16 = (x.toNat / 256) <<< 8 := by
    rw [Nat.shiftLeft_eq, Nat.shiftLeft_eq, Nat.shiftRight_eq_div_pow]
    omega
  rw [whole, Nat.or_comm, ← Nat.shiftLeft_add_eq_or_of_lt small, Nat.shiftLeft_eq]
  omega

/-- The two halves of a double word. -/
theorem dword_of_words (x : UInt32) :
    x.toUInt16.toUInt32 ||| ((x >>> 16).toUInt16.toUInt32 <<< 16) = x := by
  have bound := x.toNat_lt
  rw [← UInt32.toNat_inj, UInt32.toNat_or, UInt32.toNat_shiftLeft, UInt16.toNat_toUInt32,
    UInt16.toNat_toUInt32, toUInt16_shift, UInt32.toNat_toUInt16]
  change x.toNat % 2 ^ 16 ||| (x.toNat / 65536) <<< 16 % 2 ^ 32 = x.toNat
  have small : x.toNat % 2 ^ 16 < 2 ^ 16 := Nat.mod_lt _ (by decide)
  have whole : (x.toNat / 65536) <<< 16 % 2 ^ 32 = (x.toNat / 65536) <<< 16 := by
    rw [Nat.shiftLeft_eq]
    omega
  rw [whole, Nat.or_comm, ← Nat.shiftLeft_add_eq_or_of_lt small, Nat.shiftLeft_eq]
  omega

/-- A load reads two bytes. -/
theorem load16_of_agree {f g : Frame} {p : Nat} (first : f p = g p)
    (second : f (p + 1) = g (p + 1)) : load16 f p = load16 g p := by
  rw [load16, load16, first, second]

/-- A load reads four bytes. -/
theorem load32_of_agree {f g : Frame} {p : Nat} (agree : ∀ k < 4, f (p + k) = g (p + k)) :
    load32 f p = load32 g p := by
  have front : load16 f p = load16 g p :=
    load16_of_agree (agree 0 (by decide)) (agree 1 (by decide))
  have back : load16 f (p + 2) = load16 g (p + 2) :=
    load16_of_agree (agree 2 (by decide)) (agree 3 (by decide))
  rw [load32, load32, front, back]

section

variable (msg : Msg) (o p : Nat)

/-- A byte that was stored is there. -/
theorem byte_store8 (value : UInt8) : (msg.store8 o value).bytes o = value :=
  Function.update_self ..

/-- A word that was stored is loaded. -/
theorem load16_store16 (value : UInt16) : load16 (msg.store16 o value).bytes o = value := by
  have first : (msg.store16 o value).bytes o = value.toUInt8 := by
    change Function.update _ (o + 1) _ o = _
    rw [Function.update_of_ne (by omega)]
    exact byte_store8 msg o _
  have second : (msg.store16 o value).bytes (o + 1) = (value >>> 8).toUInt8 :=
    byte_store8 _ (o + 1) _
  rw [load16, first, second]
  exact word_of_bytes value

variable {o p}

/-- A stored byte leaves the others. -/
theorem byte_store8_ne (value : UInt8) (apart : p < o ∨ o + 1 ≤ p) :
    (msg.store8 o value).bytes p = msg.bytes p := by
  apply Function.update_of_ne
  omega

/-- A stored word leaves the bytes beside it. -/
theorem byte_store16_ne (value : UInt16) (apart : p < o ∨ o + 2 ≤ p) :
    (msg.store16 o value).bytes p = msg.bytes p := by
  rw [Msg.store16, byte_store8_ne _ _ (by omega), byte_store8_ne _ _ (by omega)]

/-- Both bytes of a stored zero are zero. -/
theorem byte_store16_zero (here : p = o ∨ p = o + 1) : (msg.store16 o 0).bytes p = 0 := by
  rcases here with here | here
  · rw [here, Msg.store16, byte_store8_ne _ _ (by omega), byte_store8]
    rfl
  · rw [here, Msg.store16, byte_store8]
    rfl

/-- A stored double word leaves the bytes beside it. -/
theorem byte_store32_ne (value : UInt32) (apart : p < o ∨ o + 4 ≤ p) :
    (msg.store32 o value).bytes p = msg.bytes p := by
  rw [Msg.store32, byte_store16_ne _ _ (by omega), byte_store16_ne _ _ (by omega)]

/-- A stored byte leaves the words beside it. -/
theorem load16_store8_ne (value : UInt8) (apart : p + 2 ≤ o ∨ o + 1 ≤ p) :
    load16 (msg.store8 o value).bytes p = load16 msg.bytes p :=
  load16_of_agree (byte_store8_ne _ _ (by omega)) (byte_store8_ne _ _ (by omega))

/-- A stored word leaves the words beside it. -/
theorem load16_store16_ne (value : UInt16) (apart : p + 2 ≤ o ∨ o + 2 ≤ p) :
    load16 (msg.store16 o value).bytes p = load16 msg.bytes p :=
  load16_of_agree (byte_store16_ne _ _ (by omega)) (byte_store16_ne _ _ (by omega))

/-- A stored double word leaves the words beside it. -/
theorem load16_store32_ne (value : UInt32) (apart : p + 2 ≤ o ∨ o + 4 ≤ p) :
    load16 (msg.store32 o value).bytes p = load16 msg.bytes p :=
  load16_of_agree (byte_store32_ne _ _ (by omega)) (byte_store32_ne _ _ (by omega))

/-- A stored byte leaves the double words beside it. -/
theorem load32_store8_ne (value : UInt8) (apart : p + 4 ≤ o ∨ o + 1 ≤ p) :
    load32 (msg.store8 o value).bytes p = load32 msg.bytes p :=
  load32_of_agree fun k small => byte_store8_ne _ _ (by omega)

/-- A stored word leaves the double words beside it. -/
theorem load32_store16_ne (value : UInt16) (apart : p + 4 ≤ o ∨ o + 2 ≤ p) :
    load32 (msg.store16 o value).bytes p = load32 msg.bytes p :=
  load32_of_agree fun k small => byte_store16_ne _ _ (by omega)

/-- A stored double word leaves the double words beside it. -/
theorem load32_store32_ne (value : UInt32) (apart : p + 4 ≤ o ∨ o + 4 ≤ p) :
    load32 (msg.store32 o value).bytes p = load32 msg.bytes p :=
  load32_of_agree fun k small => byte_store32_ne _ _ (by omega)

/-- A double word that was stored is loaded. -/
theorem load32_store32 (value : UInt32) : load32 (msg.store32 o value).bytes o = value := by
  have front : load16 (msg.store32 o value).bytes o = value.toUInt16 := by
    rw [Msg.store32, load16_store16_ne _ _ (by omega)]
    exact load16_store16 msg o _
  have back : load16 (msg.store32 o value).bytes (o + 2) = (value >>> 16).toUInt16 :=
    load16_store16 _ (o + 2) _
  rw [load32, front, back]
  exact dword_of_words value

end

/-- A copy leaves what is outside of it. -/
theorem byte_memcpy_ne {data : List UInt8} : ∀ {msg : Msg} {o : Int} {p : Nat},
    (p : Int) < o ∨ o + data.length ≤ p → (msg.memcpy o data).bytes p = msg.bytes p := by
  induction data with
  | nil =>
    intro msg o p apart
    rfl
  | cons byte rest ih =>
    intro msg o p apart
    rw [List.length_cons] at apart
    rw [Msg.memcpy, ih (by omega)]
    split
    · exact byte_store8_ne _ _ (by omega)
    · rfl

/-- What is copied is there. -/
theorem byte_memcpy {data : List UInt8} : ∀ {msg : Msg} {o k : Nat} (inside : k < data.length),
    (msg.memcpy o data).bytes (o + k) = data[k] := by
  induction data with
  | nil =>
    intro msg o k inside
    cases inside
  | cons byte rest ih =>
    intro msg o k inside
    rw [Msg.memcpy, if_pos (Int.natCast_nonneg o), Int.toNat_natCast]
    cases k with
    | zero =>
      rw [byte_memcpy_ne (by omega)]
      exact byte_store8 msg o byte
    | succ k =>
      rw [List.length_cons] at inside
      have next := @ih (msg.store8 o byte) (o + 1) k (by omega)
      rw [List.getElem_cons_succ, ← next]
      have place : o + (k + 1) = o + 1 + k := by omega
      rw [place]
      rfl

/-- A copy leaves the words beside it. -/
theorem load16_memcpy_ne {data : List UInt8} {msg : Msg} {o : Int} {p : Nat}
    (apart : (p : Int) + 2 ≤ o ∨ o + data.length ≤ p) :
    load16 (msg.memcpy o data).bytes p = load16 msg.bytes p :=
  load16_of_agree (byte_memcpy_ne (by omega)) (byte_memcpy_ne (by omega))

/-- A copy leaves the double words beside it. -/
theorem load32_memcpy_ne {data : List UInt8} {msg : Msg} {o : Int} {p : Nat}
    (apart : (p : Int) + 4 ≤ o ∨ o + data.length ≤ p) :
    load32 (msg.memcpy o data).bytes p = load32 msg.bytes p :=
  load32_of_agree fun k small => byte_memcpy_ne (by omega)

/-- What has been written stays written. -/
theorem written_store8 {msg : Msg} {o p : Nat} {value : UInt8} (before : p ∈ msg.written) :
    p ∈ (msg.store8 o value).written := List.mem_cons_of_mem _ before

/-- What was written stays written when a word is stored. -/
theorem written_store16 {msg : Msg} {o p : Nat} {value : UInt16} (before : p ∈ msg.written) :
    p ∈ (msg.store16 o value).written := written_store8 (written_store8 before)

/-- What was written stays written when bytes are copied. -/
theorem written_memcpy {data : List UInt8} : ∀ {msg : Msg} {o : Int} {p : Nat},
    p ∈ msg.written → p ∈ (msg.memcpy o data).written := by
  induction data with
  | nil =>
    intro msg o p before
    exact before
  | cons byte rest ih =>
    intro msg o p before
    rw [Msg.memcpy]
    apply ih
    split
    · exact written_store8 before
    · exact before

/-- A copy writes all of its bytes. -/
theorem memcpy_writes {data : List UInt8} : ∀ {msg : Msg} {o k : Nat}, k < data.length →
    o + k ∈ (msg.memcpy o data).written := by
  induction data with
  | nil =>
    intro msg o k inside
    cases inside
  | cons byte rest ih =>
    intro msg o k inside
    rw [Msg.memcpy, if_pos (Int.natCast_nonneg o), Int.toNat_natCast]
    cases k with
    | zero =>
      apply written_memcpy
      exact List.mem_cons_self
    | succ k =>
      rw [List.length_cons] at inside
      have next := @ih (msg.store8 o byte) (o + 1) k (by omega)
      have place : o + (k + 1) = o + 1 + k := by omega
      rw [place]
      exact next

/-- The bytes behind an offset after a copy to it. -/
theorem copyBytes_of_agree {f : Frame} {o : Nat} {data : List UInt8}
    (agree : ∀ k, (inside : k < data.length) → f (o + k) = data[k]) :
    copyBytes f o data.length = data := by
  apply List.ext_getElem
  · rw [copyBytes, List.length_map, List.length_range]
  · intro k left right
    simp only [copyBytes, List.getElem_map, List.getElem_range]
    exact agree k right

section

variable {cksums : Cksums} {msg : Msg} {sip dip : UInt32} {srcmac dstmac : List UInt8}
  {totalLength : UInt16} {nextProtoId : UInt8}

/-- The total length is read back. -/
theorem encodeIpv4_totalLength :
    (encodeIpv4 cksums msg sip dip srcmac dstmac totalLength nextProtoId).bytes.totalLength =
      htons totalLength := by
  unfold encodeIpv4 Frame.totalLength sizeofEtherHdr
  simp (disch := decide) only [load16_store16_ne, load16_store32_ne, load16_store8_ne,
    load16_store16]

/-- The source address is read back. -/
theorem encodeIpv4_srcAddr :
    (encodeIpv4 cksums msg sip dip srcmac dstmac totalLength nextProtoId).bytes.srcAddr = sip := by
  unfold encodeIpv4 Frame.srcAddr sizeofEtherHdr
  simp (disch := decide) only [load32_store16_ne, load32_store32_ne, load32_store32]

/-- The destination address is read back. -/
theorem encodeIpv4_dstAddr :
    (encodeIpv4 cksums msg sip dip srcmac dstmac totalLength nextProtoId).bytes.dstAddr = dip := by
  unfold encodeIpv4 Frame.dstAddr sizeofEtherHdr
  simp (disch := decide) only [load32_store16_ne, load32_store32]

/-- The protocol is read back. -/
theorem encodeIpv4_nextProtoId :
    (encodeIpv4 cksums msg sip dip srcmac dstmac totalLength nextProtoId).bytes
      (sizeofEtherHdr + 9) = nextProtoId := by
  unfold encodeIpv4 sizeofEtherHdr
  simp (disch := decide) only [byte_store16_ne, byte_store32_ne, byte_store8]

end

end BackendCpp.Tcp
