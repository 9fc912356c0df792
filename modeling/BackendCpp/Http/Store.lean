import BackendCpp.Http.Program

/-!
# The header store of httpserver.cpp

`put_kvpair` writes to the next place of the table without looking at `maxnum`, and
`get_kvpair` compares the first byte of the keys only. The store is therefore a map of what was
put as long as it is not put to more often than it has places, and of no key that shares its
first byte with an earlier one.
-/

namespace BackendCpp.Http

/-- `MAX_KEY_COUNT`, to which `init_kvstore` sets `maxnum`. -/
def maxKeyCount : Nat := 128

/-- `init_kvstore`. -/
def initKvstore : Kvstore :=
  ⟨List.replicate maxKeyCount (List.replicate keyMaxLength 0, List.replicate valueMaxLength 0), 0⟩

/-- The loop of `get_kvpair` with `left` places to go, from place `i` on. -/
def getKvpairFrom (table : List (List UInt8 × List UInt8)) (first : UInt8) :
    Nat → Nat → Option (Option (List UInt8))
  | 0, _ => some none
  | left + 1, i => do
    let entry ← table[i]?
    if (← entry.1[0]?) = first then return some entry.2
    else getKvpairFrom table first left (i + 1)

/-- `get_kvpair`: the array that it points to, or `NULL`. -/
def getKvpair (kvstore : Kvstore) (key : List UInt8) : Option (Option (List UInt8)) := do
  getKvpairFrom kvstore.table (← key[0]?) kvstore.count 0

/-- A key and a value, as strings. -/
abbrev Pair := List UInt8 × List UInt8

/-- A key and a value that fit into an entry. -/
structure Fits (pair : Pair) : Prop where
  /-- The key is a string. -/
  key : (0 : UInt8) ∉ pair.1
  /-- It is shorter than its array. -/
  keyLength : pair.1.length < keyMaxLength
  /-- The value is a string. -/
  value : (0 : UInt8) ∉ pair.2
  /-- It is shorter than its array. -/
  valueLength : pair.2.length < valueMaxLength

/-- Calls of `put_kvpair`, one after the other. -/
def putAll (kvstore : Kvstore) (puts : List Pair) : Option Kvstore :=
  puts.foldlM (fun kvstore pair => putKvpair kvstore (pair.1 ++ [0]) (pair.2 ++ [0])) kvstore

/-- A string in an array that zero bytes fill up. -/
def padded (string : List UInt8) (size : Nat) : List UInt8 :=
  string ++ List.replicate (size - string.length) 0

/-- The entry of a pair. -/
def entry (pair : Pair) : List UInt8 × List UInt8 :=
  (padded pair.1 keyMaxLength, padded pair.2 valueMaxLength)

/-- `strncpy` of a string into a longer array. -/
theorem strncpy_string {string : List UInt8} (nonzero : (0 : UInt8) ∉ string) :
    ∀ {size : Nat}, string.length < size → strncpy (string ++ [0]) size = some (padded string size) := by
  induction string with
  | nil =>
    intro size shorter
    obtain ⟨count, rfl⟩ := Nat.exists_eq_succ_of_ne_zero (Nat.ne_of_gt shorter)
    rfl
  | cons byte rest ih =>
    intro size shorter
    rw [List.mem_cons, not_or] at nonzero
    obtain ⟨count, rfl⟩ := Nat.exists_eq_succ_of_ne_zero (Nat.ne_of_gt (Nat.zero_lt_of_lt shorter))
    rw [List.cons_append, strncpy, if_neg (Ne.symm nonzero.1),
      ih nonzero.2 (Nat.lt_of_succ_lt_succ shorter), Option.map_some]
    simp only [padded, List.cons_append, List.length_cons, Nat.succ_eq_add_one, Nat.add_sub_add_right]

/-- The string is read back. -/
theorem cString_padded {string : List UInt8} (nonzero : (0 : UInt8) ∉ string) :
    ∀ {size : Nat}, string.length < size → cString (padded string size) = some string := by
  induction string with
  | nil =>
    intro size shorter
    obtain ⟨count, rfl⟩ := Nat.exists_eq_succ_of_ne_zero (Nat.ne_of_gt shorter)
    rfl
  | cons byte rest ih =>
    intro size shorter
    rw [List.mem_cons, not_or] at nonzero
    obtain ⟨count, rfl⟩ := Nat.exists_eq_succ_of_ne_zero (Nat.ne_of_gt (Nat.zero_lt_of_lt shorter))
    have tail := ih nonzero.2 (Nat.lt_of_succ_lt_succ shorter)
    simp only [padded, List.cons_append, List.length_cons, Nat.succ_eq_add_one,
      Nat.add_sub_add_right, cString, if_neg (Ne.symm nonzero.1)] at tail ⊢
    rw [tail, Option.map_some]

/-- Its first byte is the one of the string, or the zero byte. -/
theorem padded_first {string : List UInt8} {size : Nat} (shorter : string.length < size) :
    (padded string size)[0]? = some (string.head?.getD 0) := by
  cases string with
  | nil =>
    obtain ⟨count, rfl⟩ := Nat.exists_eq_succ_of_ne_zero (Nat.ne_of_gt shorter)
    rfl
  | cons byte rest => rfl

/-- `put_kvpair` with a place left. -/
theorem putKvpair_room {pair : Pair} (fits : Fits pair)
    (taken more : List (List UInt8 × List UInt8)) (place : List UInt8 × List UInt8) :
    putKvpair ⟨taken ++ place :: more, taken.length⟩ (pair.1 ++ [0]) (pair.2 ++ [0]) =
      some ⟨(taken ++ [entry pair]) ++ more, (taken ++ [entry pair]).length⟩ := by
  have room : taken.length < (taken ++ place :: more).length := by
    rw [List.length_append, List.length_cons]
    omega
  unfold putKvpair
  rw [strncpy_string fits.key fits.keyLength, strncpy_string fits.value fits.valueLength]
  simp only [Option.bind_eq_bind, Option.bind_some, if_pos room,
    List.set_append_right _ _ (Nat.le_refl _), Nat.sub_self, List.set_cons_zero]
  rw [List.append_assoc, List.singleton_append, List.length_append, List.length_singleton]
  rfl

/-- `put_kvpair` behind the last place. -/
theorem putKvpair_full {pair : Pair} (fits : Fits pair) (table : List (List UInt8 × List UInt8)) :
    putKvpair ⟨table, table.length⟩ (pair.1 ++ [0]) (pair.2 ++ [0]) = none := by
  unfold putKvpair
  rw [strncpy_string fits.key fits.keyLength, strncpy_string fits.value fits.valueLength]
  simp only [Option.bind_eq_bind, Option.bind_some, lt_irrefl, if_false]

/-- The puts fill the places that are left in their order, by induction over the puts. -/
theorem putAll_filled {puts : List Pair} : ∀ {taken left : List (List UInt8 × List UInt8)},
    (∀ pair ∈ puts, Fits pair) → puts.length ≤ left.length →
    putAll ⟨taken ++ left, taken.length⟩ puts =
      some ⟨(taken ++ puts.map entry) ++ left.drop puts.length,
        (taken ++ puts.map entry).length⟩ := by
  induction puts with
  | nil =>
    intro taken left _ _
    rw [List.map_nil, List.append_nil]
    rfl
  | cons pair rest ih =>
    intro taken left fits enough
    obtain ⟨place, more, rfl⟩ := List.exists_cons_of_length_pos
      (Nat.lt_of_lt_of_le (Nat.succ_pos rest.length) enough)
    have after := @ih (taken ++ [entry pair]) more
      (fun other member => fits other (List.mem_cons_of_mem pair member))
      (Nat.le_of_succ_le_succ enough)
    rw [putAll, List.foldlM_cons, putKvpair_room (fits pair List.mem_cons_self),
      Option.bind_eq_bind, Option.bind_some, ← putAll, after, List.map_cons, List.length_cons,
      List.drop_succ_cons, List.append_assoc taken, List.singleton_append]

/-- With more puts than places one of them writes behind the table. -/
theorem putAll_overrun {puts : List Pair} : ∀ {taken left : List (List UInt8 × List UInt8)},
    (∀ pair ∈ puts, Fits pair) → left.length < puts.length →
    putAll ⟨taken ++ left, taken.length⟩ puts = none := by
  induction puts with
  | nil =>
    intro taken left _ more
    exact absurd more (Nat.not_lt_zero _)
  | cons pair rest ih =>
    intro taken left fits more
    have fit := fits pair List.mem_cons_self
    cases left with
    | nil =>
      rw [putAll, List.foldlM_cons, List.append_nil, putKvpair_full fit]
      rfl
    | cons place left =>
      rw [putAll, List.foldlM_cons, putKvpair_room fit, Option.bind_eq_bind, Option.bind_some,
        ← putAll]
      exact ih (fun other member => fits other (List.mem_cons_of_mem pair member))
        (Nat.lt_of_succ_lt_succ more)

/-- The loop of `get_kvpair` finds the first entry whose key begins with the byte. -/
theorem getKvpairFrom_find {puts : List Pair} (first : UInt8) :
    ∀ {taken left : List (List UInt8 × List UInt8)}, (∀ pair ∈ puts, Fits pair) →
    getKvpairFrom (taken ++ (puts.map entry ++ left)) first puts.length taken.length =
      some ((puts.find? fun pair => pair.1.head?.getD 0 = first).map fun pair =>
        padded pair.2 valueMaxLength) := by
  induction puts with
  | nil =>
    intro taken left _
    rfl
  | cons pair rest ih =>
    intro taken left fits
    have fit := fits pair List.mem_cons_self
    have after := @ih (taken ++ [entry pair]) left
      fun other member => fits other (List.mem_cons_of_mem pair member)
    rw [List.length_append, List.length_singleton, List.append_assoc,
      List.singleton_append] at after
    have here : (taken ++ (entry pair :: (rest.map entry ++ left)))[taken.length]? =
        some (entry pair) := by
      rw [List.getElem?_append_right (Nat.le_refl _), Nat.sub_self, List.getElem?_cons_zero]
    have byte : (entry pair).1[0]? = some (pair.1.head?.getD 0) := padded_first fit.keyLength
    rw [List.map_cons, List.cons_append, List.length_cons, getKvpairFrom, here]
    simp only [Option.bind_eq_bind, Option.bind_some, byte]
    by_cases same : pair.1.head?.getD 0 = first
    · simp only [List.find?_cons, same, if_true, decide_true, Option.map_some]
      rfl
    · simp only [after, List.find?_cons, same, if_false, decide_false]

/-- The store after some puts is a bounded map at a key: it holds no more than `maxnum` pairs,
and the key is looked up among those that had a place. -/
def BoundedMap (puts : List Pair) (key : List UInt8) : Prop :=
  ∃ kvstore found, putAll initKvstore puts = some kvstore ∧ kvstore.count ≤ maxKeyCount ∧
    getKvpair kvstore (key ++ [0]) = some found ∧
    found.bind cString = ((puts.take maxKeyCount).find? fun pair => pair.1 = key).map Prod.snd

/-- The first pair whose key begins like a key, or is empty like it, has the value of the first
pair with that key; or there is neither. -/
def Unmistaken (puts : List Pair) (key : List UInt8) : Prop :=
  (puts.find? fun pair => pair.1.head? = key.head?).map Prod.snd =
    (puts.find? fun pair => pair.1 = key).map Prod.snd

/-- The zero byte is not the first of a string. -/
theorem head_eq_iff {one other : List UInt8} (first : (0 : UInt8) ∉ one)
    (second : (0 : UInt8) ∉ other) :
    one.head?.getD 0 = other.head?.getD 0 ↔ one.head? = other.head? := by
  cases one with
  | nil =>
    cases other with
    | nil => exact iff_of_true rfl rfl
    | cons byte rest =>
      rw [List.mem_cons, not_or] at second
      exact iff_of_false second.1 (by simp)
  | cons byte rest =>
    rw [List.mem_cons, not_or] at first
    cases other with
    | nil => exact iff_of_false (Ne.symm first.1) (by simp)
    | cons byte' rest' => simp

/-- What is found in the store after puts for which there are places. -/
theorem getKvpair_found {puts : List Pair} {key : List UInt8} (fits : ∀ pair ∈ puts, Fits pair)
    (string : (0 : UInt8) ∉ key) (few : puts.length ≤ maxKeyCount) :
    ∃ kvstore found, putAll initKvstore puts = some kvstore ∧ kvstore.count = puts.length ∧
      getKvpair kvstore (key ++ [0]) = some found ∧
      found.bind cString =
        (puts.find? fun pair => pair.1.head? = key.head?).map Prod.snd := by
  have room : puts.length ≤ initKvstore.table.length := by
    rw [initKvstore, List.length_replicate]
    exact few
  have filled := @putAll_filled puts [] initKvstore.table fits room
  have found := @getKvpairFrom_find puts (key.head?.getD 0) []
    (initKvstore.table.drop puts.length) fits
  have first : (key ++ [0])[0]? = some (key.head?.getD 0) := by
    cases key with
    | nil => rfl
    | cons byte rest => rfl
  have alike : (puts.find? fun pair => pair.1.head?.getD 0 = key.head?.getD 0) =
      puts.find? fun pair => pair.1.head? = key.head? := by
    apply List.find?_congr
    intro pair member
    rw [decide_eq_decide]
    exact head_eq_iff (fits pair member).key string
  rw [alike] at found
  refine ⟨_, (puts.find? fun pair => pair.1.head? = key.head?).map fun pair =>
    padded pair.2 valueMaxLength, filled, ?_, ?_, ?_⟩
  · rw [List.nil_append, List.length_map]
  · rw [getKvpair, first, Option.bind_eq_bind, Option.bind_some, List.nil_append,
      List.length_map]
    exact found
  · cases search : puts.find? fun pair => pair.1.head? = key.head? with
    | none => rfl
    | some pair =>
      have fit := fits pair (List.mem_of_find?_eq_some search)
      rw [Option.map_some, Option.map_some, Option.bind_some]
      exact cString_padded fit.value fit.valueLength

/-- The header store is a bounded map at a key just when there were no more puts than it has
places and the key is not mistaken for another. -/
theorem boundedMap_iff {puts : List Pair} {key : List UInt8} (fits : ∀ pair ∈ puts, Fits pair)
    (string : (0 : UInt8) ∉ key) :
    BoundedMap puts key ↔ puts.length ≤ maxKeyCount ∧ Unmistaken puts key := by
  by_cases few : puts.length ≤ maxKeyCount
  · obtain ⟨kvstore, found, stored, count, looked, value⟩ := getKvpair_found fits string few
    rw [BoundedMap, Unmistaken, List.take_of_length_le few, ← value]
    constructor
    · rintro ⟨kvstore', found', stored', _, looked', value'⟩
      rw [stored, Option.some.injEq] at stored'
      rw [← stored', looked, Option.some.injEq] at looked'
      exact ⟨few, looked' ▸ value'⟩
    · exact fun right => ⟨kvstore, found, stored, count.trans_le few, looked, right.2⟩
  · refine iff_of_false ?_ fun right => few right.1
    rintro ⟨kvstore, _, stored, _⟩
    have overrun := @putAll_overrun puts [] initKvstore.table fits (by
      rw [initKvstore, List.length_replicate]
      omega)
    rw [List.nil_append, List.length_nil] at overrun
    have none : putAll initKvstore puts = none := overrun
    rw [none] at stored
    cases stored

/-- Headers of which two have one name. -/
def fourPairs : List Pair :=
  [([72, 111, 115, 116], [97]), ([65, 99, 99], [98]), ([85, 115, 101, 114], [99]),
    ([65, 99, 99], [100])]

/-- They fit. -/
theorem fourPairs_fit : ∀ pair ∈ fourPairs, Fits pair := by
  have small : ∀ pair ∈ fourPairs, (0 : UInt8) ∉ pair.1 ∧ pair.1.length < keyMaxLength ∧
      (0 : UInt8) ∉ pair.2 ∧ pair.2.length < valueMaxLength := by
    decide
  intro pair member
  obtain ⟨key, keyLength, value, valueLength⟩ := small pair member
  exact ⟨key, keyLength, value, valueLength⟩

/-- The one that was put twice is found, and so is the one behind it; `Zone` is not. -/
theorem boundedMap_four : BoundedMap fourPairs [65, 99, 99] ∧
    BoundedMap fourPairs [85, 115, 101, 114] ∧ BoundedMap fourPairs [90, 111, 110, 101] :=
  ⟨(boundedMap_iff fourPairs_fit (by decide)).mpr ⟨by decide, rfl⟩,
    (boundedMap_iff fourPairs_fit (by decide)).mpr ⟨by decide, rfl⟩,
    (boundedMap_iff fourPairs_fit (by decide)).mpr ⟨by decide, rfl⟩⟩

/-- The header `Host: a`. -/
def hostPair : Pair := ([72, 111, 115, 116], [97])

/-- It fits. -/
theorem hostPair_fits : ∀ pair ∈ [hostPair], Fits pair := by
  intro pair member
  rw [List.mem_singleton.mp member]
  exact ⟨by decide, by decide, by decide, by decide⟩

/-- It is found under the name `H2`, which nobody has put. -/
theorem not_boundedMap_other : ¬ BoundedMap [hostPair] [72, 50] := by
  rintro ⟨kvstore, found, stored, _, looked, value⟩
  obtain ⟨_, _, stored', _, looked', value'⟩ :=
    @getKvpair_found [hostPair] [72, 50] hostPair_fits (by decide) (by decide)
  rw [stored, Option.some.injEq] at stored'
  rw [← stored', looked, Option.some.injEq] at looked'
  rw [← looked', value] at value'
  exact absurd value' (by decide)

end BackendCpp.Http
