import BackendCpp.Library.Ring
import BackendCpp.Library.Run
import BackendCpp.Tcp.Counting

/-!
# The window of packets

`pkt_idx` counts the first packets and goes around in the second half of its range afterwards.
In both parts its remainder is the slot of the next packet, so the arrays hold the last
`CAPTURE_WINDOWS` packets, and the sums are formed when there have been that many.
-/

namespace BackendCpp.Tcp

open Library

/-- A packet is looked at, and the program goes on. -/
def DetectStep (d : Detector) (pkt : RteMbuf) (d' : Detector) : Prop :=
  ∃ sums, ddosDetect pkt d = some (sums, some d')

/-- `count_bit` of a packet. -/
def countedBits (pkt : RteMbuf) : UInt32 := (countBit pkt.bytes pkt.bufLen.toUInt32).getD 0

/-- `buf_len * 8` of a packet. -/
def totalBits (pkt : RteMbuf) : UInt32 := pkt.bufLen.toUInt32 * 8

/-- The index and the arrays after some packets. -/
structure Windowed (d : Detector) (packets : List RteMbuf) : Prop where
  /-- The index is the number of packets, on the ring. -/
  slot : d.pktIdx % CAPTURE_WINDOWS = packets.length % CAPTURE_WINDOWS
  /-- Before the window is full it is the number itself. -/
  filling : packets.length < CAPTURE_WINDOWS → d.pktIdx = packets.length
  /-- Afterwards it stays below twice the window. -/
  filled : CAPTURE_WINDOWS ≤ packets.length →
    CAPTURE_WINDOWS ≤ d.pktIdx ∧ d.pktIdx < 2 * CAPTURE_WINDOWS
  /-- The set bits of the last packets. -/
  set : Window CAPTURE_WINDOWS d.pSetbits (packets.map countedBits)
  /-- The bits of the last packets. -/
  tot : Window CAPTURE_WINDOWS d.pTotbits (packets.map totalBits)
  /-- Every packet could be counted. -/
  counted : ∀ pkt ∈ packets, countBit pkt.bytes pkt.bufLen.toUInt32 = some (countedBits pkt)

/-- No packet was looked at. -/
theorem windowed_initial : Windowed .initial [] := by
  refine ⟨rfl, fun _ => rfl, ?_, Window.nil _ _, Window.nil _ _, ?_⟩
  · intro full
    exact absurd full (by decide)
  · intro pkt member
    exact absurd member List.not_mem_nil

/-- The window is full exactly when `pkt_idx` is in the second half of its range. -/
theorem Windowed.full_iff {d : Detector} {packets : List RteMbuf} (windowed : Windowed d packets) :
    CAPTURE_WINDOWS ≤ d.pktIdx ↔ CAPTURE_WINDOWS ≤ packets.length := by
  constructor
  · intro full
    by_contra few
    have counted := windowed.filling (Nat.lt_of_not_le few)
    omega
  · exact fun full => (windowed.filled full).1

/-- `pkt_idx` stays below twice the size of the window. -/
theorem Windowed.pktIdx_lt {d : Detector} {packets : List RteMbuf} (windowed : Windowed d packets) :
    d.pktIdx < 2 * CAPTURE_WINDOWS := by
  by_cases full : CAPTURE_WINDOWS ≤ packets.length
  · exact (windowed.filled full).2
  · have counted := windowed.filling (Nat.lt_of_not_le full)
    omega

/-- Unless the program ends, the arrays stay and the index moves. -/
theorem judge_spec {d d' : Detector} {sums : Sums} (judged : d.judge sums = some d') :
    d'.pSetbits = d.pSetbits ∧ d'.pTotbits = d.pTotbits ∧
    d'.pktIdx = (d.pktIdx + 1) % CAPTURE_WINDOWS + CAPTURE_WINDOWS := by
  unfold Detector.judge at judged
  dsimp only at judged
  by_cases alarm : tresh < sums.sumEntropy -
      ddosEntropy sums.totalSet.toFloat sums.totalBit.toFloat
  · rw [if_pos alarm] at judged
    by_cases first : d.flag = 0
    · rw [if_pos first] at judged
      cases judged
    · rw [if_neg first] at judged
      rw [← Option.some.inj judged]
      exact ⟨rfl, rfl, rfl⟩
  · rw [if_neg alarm] at judged
    rw [← Option.some.inj judged]
    exact ⟨rfl, rfl, rfl⟩

/-- What `ddos_detect` does: it records the packet, forms the sums of a full window, and moves the
index. -/
theorem ddosDetect_spec {pkt : RteMbuf} {d : Detector} {sums : Option Sums} {next : Option Detector}
    (done : ddosDetect pkt d = some (sums, next)) :
    countBit pkt.bytes pkt.bufLen.toUInt32 = some (countedBits pkt) ∧
    (sums = if CAPTURE_WINDOWS ≤ d.pktIdx then
      some (sumWindow (d.record (countedBits pkt) (totalBits pkt))) else none) ∧
    ∀ d', next = some d' →
      d'.pSetbits = (d.record (countedBits pkt) (totalBits pkt)).pSetbits ∧
      d'.pTotbits = (d.record (countedBits pkt) (totalBits pkt)).pTotbits ∧
      d'.pktIdx = if CAPTURE_WINDOWS ≤ d.pktIdx then
        (d.pktIdx + 1) % CAPTURE_WINDOWS + CAPTURE_WINDOWS else d.pktIdx + 1 := by
  obtain ⟨count, counted, result⟩ := Option.map_eq_some_iff.mp done
  have known : countedBits pkt = count := by rw [countedBits, counted, Option.getD_some]
  rw [known]
  refine ⟨counted, ?_⟩
  change (if CAPTURE_WINDOWS ≤ d.pktIdx then _ else _) = (sums, next) at result
  by_cases full : CAPTURE_WINDOWS ≤ d.pktIdx
  · rw [if_pos full] at result ⊢
    obtain ⟨isSums, isNext⟩ := Prod.mk.inj result
    refine ⟨isSums.symm, fun d' more => ?_⟩
    rw [← isNext] at more
    rw [if_pos full]
    exact judge_spec more
  · rw [if_neg full] at result ⊢
    obtain ⟨isSums, isNext⟩ := Prod.mk.inj result
    refine ⟨isSums.symm, fun d' more => ?_⟩
    rw [← isNext] at more
    rw [← Option.some.inj more, if_neg full]
    exact ⟨rfl, rfl, rfl⟩

/-- The arrays with a packet recorded. -/
theorem Windowed.record {d : Detector} {packets : List RteMbuf} (windowed : Windowed d packets)
    (pkt : RteMbuf) :
    Window CAPTURE_WINDOWS (d.record (countedBits pkt) (totalBits pkt)).pSetbits
      ((packets ++ [pkt]).map countedBits) ∧
    Window CAPTURE_WINDOWS (d.record (countedBits pkt) (totalBits pkt)).pTotbits
      ((packets ++ [pkt]).map totalBits) := by
  have set := windowed.set.push (countedBits pkt)
  have tot := windowed.tot.push (totalBits pkt)
  rw [List.length_map, ← windowed.slot] at set tot
  rw [List.map_append, List.map_append]
  exact ⟨set, tot⟩

/-- A packet keeps the arrays and the index in step. -/
theorem Windowed.step {d d' : Detector} {packets : List RteMbuf} {pkt : RteMbuf}
    (windowed : Windowed d packets) (step : DetectStep d pkt d') :
    Windowed d' (packets ++ [pkt]) := by
  obtain ⟨sums, done⟩ := step
  obtain ⟨counted, _, moves⟩ := ddosDetect_spec done
  obtain ⟨sameSet, sameTot, index⟩ := moves d' rfl
  obtain ⟨set, tot⟩ := windowed.record pkt
  rw [← sameSet] at set
  rw [← sameTot] at tot
  have slot := windowed.slot
  have filling := windowed.filling
  have filled := windowed.filled
  have full := windowed.full_iff
  refine ⟨?_, ?_, ?_, set, tot, ?_⟩
  · rw [index, List.length_append, List.length_singleton]
    unfold CAPTURE_WINDOWS at *
    split <;> omega
  · intro few
    rw [List.length_append, List.length_singleton] at few ⊢
    rw [index, if_neg (by omega)]
    omega
  · intro many
    rw [List.length_append, List.length_singleton] at many
    rw [index]
    unfold CAPTURE_WINDOWS at *
    split <;> omega
  · intro p member
    rcases List.mem_append.mp member with earlier | last
    · exact windowed.counted p earlier
    · rw [List.mem_singleton.mp last]
      exact counted

/-- The window after every run. -/
theorem run_windowed {packets : List RteMbuf} {d : Detector}
    (run : Run DetectStep .initial packets d) : Windowed d packets := by
  induction run with
  | nil => exact windowed_initial
  | snoc _ step ih => exact ih.step step

/-- The loop over some slots adds them up, in 32 bits. -/
theorem foldl_sums (d : Detector) (slots : List Nat) (sums : Sums) :
    let total := slots.foldl (fun sums i => (⟨sums.totalSet + d.pSetbits i,
      sums.totalBit + d.pTotbits i, sums.sumEntropy + d.pEntropy i⟩ : Sums)) sums
    total.totalSet.toNat = (sums.totalSet.toNat +
      ((slots.map d.pSetbits).map UInt32.toNat).sum) % 2 ^ 32 ∧
    total.totalBit.toNat = (sums.totalBit.toNat +
      ((slots.map d.pTotbits).map UInt32.toNat).sum) % 2 ^ 32 := by
  induction slots generalizing sums with
  | nil =>
    exact ⟨(Nat.mod_eq_of_lt (UInt32.toNat_lt _)).symm, (Nat.mod_eq_of_lt (UInt32.toNat_lt _)).symm⟩
  | cons i slots ih =>
    obtain ⟨set, bit⟩ := ih ⟨sums.totalSet + d.pSetbits i, sums.totalBit + d.pTotbits i,
      sums.sumEntropy + d.pEntropy i⟩
    rw [UInt32.toNat_add, Nat.mod_add_mod, Nat.add_assoc] at set bit
    exact ⟨set, bit⟩

/-- The last packets that the arrays have room for. -/
def lastPackets (packets : List RteMbuf) : List RteMbuf :=
  packets.drop (packets.length - CAPTURE_WINDOWS)

/-- The bits counted in a packet are those of the words read. -/
theorem countedBits_le (pkt : RteMbuf) :
    (countedBits pkt).toNat ≤ 64 * wordsRead pkt.bufLen.toNat := by
  have small := pkt.bufLen.toNat_lt
  have words : wordsRead pkt.bufLen.toNat ≤ 8192 := by
    unfold wordsRead
    omega
  unfold countedBits
  cases counted : countBit pkt.bytes pkt.bufLen.toUInt32 with
  | none => exact Nat.zero_le _
  | some count =>
    have few := countBit_le counted (by
      rw [UInt16.toNat_toUInt32]
      omega)
    rw [UInt16.toNat_toUInt32] at few
    exact few

/-- `buf_len * 8` does not wrap. -/
theorem totalBits_toNat (pkt : RteMbuf) : (totalBits pkt).toNat = 8 * pkt.bufLen.toNat := by
  have small := pkt.bufLen.toNat_lt
  rw [totalBits, UInt32.toNat_mul, UInt16.toNat_toUInt32]
  change pkt.bufLen.toNat * 8 % 2 ^ 32 = _
  omega

/-- Of a packet that consists of whole words no more bits are counted than it has. -/
theorem countedBits_le_totalBits {pkt : RteMbuf} (positive : 0 < pkt.bufLen.toNat)
    (multiple : 8 ∣ pkt.bufLen.toNat) : (countedBits pkt).toNat ≤ (totalBits pkt).toNat := by
  have few := countedBits_le pkt
  obtain ⟨words, whole⟩ := multiple
  have read : wordsRead pkt.bufLen.toNat = words := by
    unfold wordsRead
    omega
  rw [totalBits_toNat]
  rw [read] at few
  omega

/-- The sum of numbers with a bound. -/
theorem sum_lt {items : List RteMbuf} {f : RteMbuf → Nat} (few : items.length ≤ CAPTURE_WINDOWS)
    (each : ∀ pkt, f pkt ≤ 2 ^ 20) : (items.map f).sum < 2 ^ 32 := by
  have total := List.sum_le_card_nsmul (items.map f) (2 ^ 20) (by
    intro n member
    obtain ⟨pkt, _, same⟩ := List.mem_map.mp member
    rw [← same]
    exact each pkt)
  rw [List.length_map, smul_eq_mul] at total
  unfold CAPTURE_WINDOWS at few
  omega

/-- The sums of a full window are those of the last packets. -/
theorem Windowed.sums {d : Detector} {packets : List RteMbuf} (windowed : Windowed d packets)
    (full : CAPTURE_WINDOWS ≤ packets.length) (pkt : RteMbuf) :
    (sumWindow (d.record (countedBits pkt) (totalBits pkt))).totalSet.toNat =
      ((lastPackets (packets ++ [pkt])).map fun p => (countedBits p).toNat).sum ∧
    (sumWindow (d.record (countedBits pkt) (totalBits pkt))).totalBit.toNat =
      ((lastPackets (packets ++ [pkt])).map fun p => (totalBits p).toNat).sum := by
  obtain ⟨set, tot⟩ := windowed.record pkt
  have enough : CAPTURE_WINDOWS ≤ (packets ++ [pkt]).length := by
    rw [List.length_append]
    omega
  have few : (lastPackets (packets ++ [pkt])).length ≤ CAPTURE_WINDOWS := by
    rw [lastPackets, List.length_drop]
    omega
  have setPerm := set.perm (by rw [List.length_map]; exact enough)
  have totPerm := tot.perm (by rw [List.length_map]; exact enough)
  rw [List.length_map, ← List.map_drop] at setPerm totPerm
  obtain ⟨totalSet, totalBit⟩ := foldl_sums (d.record (countedBits pkt) (totalBits pkt))
    (List.range CAPTURE_WINDOWS) ⟨0, 0, 0.0⟩
  rw [(setPerm.map UInt32.toNat).sum_eq, List.map_map] at totalSet
  rw [(totPerm.map UInt32.toNat).sum_eq, List.map_map] at totalBit
  have setFits := sum_lt few (fun p => by
    have words := countedBits_le p
    have small := p.bufLen.toNat_lt
    unfold wordsRead at words
    show (countedBits p).toNat ≤ 2 ^ 20
    omega)
  have totFits := sum_lt few (fun p => by
    have small := p.bufLen.toNat_lt
    show (totalBits p).toNat ≤ 2 ^ 20
    rw [totalBits_toNat]
    omega)
  constructor
  · refine totalSet.trans ?_
    change (0 + _) % 2 ^ 32 = _
    rw [Nat.zero_add]
    exact Nat.mod_eq_of_lt setFits
  · refine totalBit.trans ?_
    change (0 + _) % 2 ^ 32 = _
    rw [Nat.zero_add]
    exact Nat.mod_eq_of_lt totFits

/-- In every run `pkt_idx` stays below twice the size of the window; the sums are formed exactly
when as many packets went before as the window has, over the last ones with the current packet;
and packets of whole words never have more bits counted than they have, one by one and in the
sums. -/
theorem ddos_window_is_last_packets {packets : List RteMbuf} {d : Detector}
    (run : Run DetectStep .initial packets d) :
    d.pktIdx < 2 * CAPTURE_WINDOWS ∧
    ∀ pkt sums next, ddosDetect pkt d = some (sums, next) →
      (∀ p ∈ packets ++ [pkt],
        countBit p.bytes p.bufLen.toUInt32 = some (countedBits p)) ∧
      (0 < pkt.bufLen.toNat → 8 ∣ pkt.bufLen.toNat →
        (countedBits pkt).toNat ≤ (totalBits pkt).toNat) ∧
      (sums.isSome ↔ CAPTURE_WINDOWS ≤ packets.length) ∧
      ∀ s, sums = some s →
        (lastPackets (packets ++ [pkt])).length = CAPTURE_WINDOWS ∧
        s.totalSet.toNat =
          ((lastPackets (packets ++ [pkt])).map fun p => (countedBits p).toNat).sum ∧
        s.totalBit.toNat =
          ((lastPackets (packets ++ [pkt])).map fun p => 8 * p.bufLen.toNat).sum ∧
        ((∀ p ∈ lastPackets (packets ++ [pkt]), 0 < p.bufLen.toNat ∧ 8 ∣ p.bufLen.toNat) →
          s.totalSet ≤ s.totalBit) := by
  have windowed := run_windowed run
  refine ⟨windowed.pktIdx_lt, ?_⟩
  intro pkt sums next done
  obtain ⟨counted, isSums, _⟩ := ddosDetect_spec done
  refine ⟨?_, countedBits_le_totalBits, ?_, ?_⟩
  · intro p member
    rcases List.mem_append.mp member with earlier | last
    · exact windowed.counted p earlier
    · rw [List.mem_singleton.mp last]
      exact counted
  · rw [isSums, ← windowed.full_iff]
    by_cases full : CAPTURE_WINDOWS ≤ d.pktIdx
    · rw [if_pos full]
      simp [full]
    · rw [if_neg full]
      simp [full]
  · intro s isSome
    by_cases full : CAPTURE_WINDOWS ≤ d.pktIdx
    · rw [isSome, if_pos full] at isSums
      have many := windowed.full_iff.mp full
      obtain ⟨totalSet, totalBit⟩ := windowed.sums many pkt
      rw [← Option.some.inj isSums] at totalSet totalBit
      have bits : s.totalBit.toNat =
          ((lastPackets (packets ++ [pkt])).map fun p => 8 * p.bufLen.toNat).sum := by
        rw [totalBit]
        simp only [totalBits_toNat]
      refine ⟨?_, totalSet, bits, ?_⟩
      · rw [lastPackets, List.length_drop, List.length_append, List.length_singleton]
        omega
      · intro whole
        rw [UInt32.le_iff_toNat_le, totalSet, totalBit]
        apply List.sum_le_sum
        intro p member
        exact countedBits_le_totalBits (whole p member).1 (whole p member).2
    · rw [isSome, if_neg full] at isSums
      cases isSums

/-- The first packets are recorded, whatever they are. -/
theorem run_of_first {packets : List RteMbuf} (few : packets.length ≤ CAPTURE_WINDOWS)
    (readable : ∀ p ∈ packets, (countBit p.bytes p.bufLen.toUInt32).isSome) :
    ∃ d, Run DetectStep .initial packets d := by
  induction packets using List.reverseRecOn with
  | nil => exact ⟨_, Run.nil⟩
  | append_singleton packets pkt ih =>
    rw [List.length_append, List.length_singleton] at few
    obtain ⟨d, run⟩ := ih (by omega) fun p member => readable p (List.mem_append_left _ member)
    obtain ⟨count, counted⟩ := Option.isSome_iff_exists.mp
      (readable pkt (List.mem_append_right _ (List.mem_singleton_self pkt)))
    have index := (run_windowed run).filling (by omega)
    have filling : ¬ CAPTURE_WINDOWS ≤ d.pktIdx := by omega
    have done : ddosDetect pkt d = some (none,
        some { d.record count (totalBits pkt) with pktIdx := d.pktIdx + 1 }) := by
      rw [ddosDetect, counted]
      exact congrArg some (if_neg filling)
    exact ⟨_, run.snoc ⟨none, done⟩⟩

/-- A packet of eight bytes. -/
def eightBytes : RteMbuf := ⟨8, [1, 2, 3, 4, 5, 6, 7, 8]⟩

/-- As many copies of a packet as the window has, and one more. -/
theorem ddos_window_of_copies :
    ∃ d, Run DetectStep .initial (List.replicate CAPTURE_WINDOWS eightBytes) d ∧
      ∃ s next, ddosDetect eightBytes d = some (some s, next) ∧
        s.totalBit.toNat = CAPTURE_WINDOWS * 64 ∧ s.totalSet ≤ s.totalBit := by
  obtain ⟨count, counted, _⟩ : ∃ counted, countBit eightBytes.bytes 8 = some counted ∧ _ :=
    countBit_words (by decide) (by decide)
  have readable : ∀ p ∈ List.replicate CAPTURE_WINDOWS eightBytes,
      (countBit p.bytes p.bufLen.toUInt32).isSome := by
    intro p member
    rw [List.eq_of_mem_replicate member]
    exact Option.isSome_iff_exists.mpr ⟨count, counted⟩
  have copies : (List.replicate CAPTURE_WINDOWS eightBytes).length = CAPTURE_WINDOWS :=
    List.length_replicate
  obtain ⟨d, run⟩ := run_of_first copies.le readable
  have full : CAPTURE_WINDOWS ≤ d.pktIdx := (run_windowed run).full_iff.mpr copies.ge
  obtain ⟨s, next, done⟩ : ∃ s next, ddosDetect eightBytes d = some (some s, next) := by
    have asCounted : countBit eightBytes.bytes eightBytes.bufLen.toUInt32 = some count := counted
    rw [ddosDetect, asCounted]
    exact ⟨_, _, congrArg some (if_pos full)⟩
  obtain ⟨_, _, _, sums⟩ := (ddos_window_is_last_packets run).2 _ _ _ done
  obtain ⟨length, _, totalBit, ordered⟩ := sums s rfl
  have same : ∀ p ∈ lastPackets (List.replicate CAPTURE_WINDOWS eightBytes ++ [eightBytes]),
      p = eightBytes := by
    intro p member
    rcases List.mem_append.mp (List.mem_of_mem_drop member) with copy | last
    · exact List.eq_of_mem_replicate copy
    · exact List.mem_singleton.mp last
  refine ⟨d, run, s, next, done, ?_, ordered ?_⟩
  · have each := List.sum_eq_card_nsmul
      ((lastPackets (List.replicate CAPTURE_WINDOWS eightBytes ++ [eightBytes])).map
        fun p => 8 * p.bufLen.toNat) 64 (by
      intro n member
      obtain ⟨p, inside, isN⟩ := List.mem_map.mp member
      rw [← isN, same p inside]
      rfl)
    rw [totalBit, each, List.length_map, length, smul_eq_mul]
  · intro p member
    rw [same p member]
    decide

end BackendCpp.Tcp
