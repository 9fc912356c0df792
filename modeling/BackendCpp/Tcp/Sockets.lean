import BackendCpp.Tcp.Program
import Mathlib.Data.Nat.Bitwise

/-!
# Looking up sockets and giving out descriptors

The lookups read only the descriptors, addresses and ports of the sockets on the lists, so a
stream may change in all else without being noticed. The descriptors are bits of `fd_table`.
-/

namespace BackendCpp.Tcp

/-- Rewriting a stream keeps the list of hosts. -/
@[simp] theorem Stack.setStream_lhost (w : Stack) (a : Nat) (stream : NgTcpStream) :
    (w.setStream a stream).lhost = w.lhost := rfl

/-- Rewriting a stream keeps the list of streams. -/
@[simp] theorem Stack.setStream_tcbSet (w : Stack) (a : Nat) (stream : NgTcpStream) :
    (w.setStream a stream).tcbSet = w.tcbSet := rfl

/-- Rewriting a stream keeps the hosts. -/
@[simp] theorem Stack.setStream_hosts (w : Stack) (a : Nat) (stream : NgTcpStream) :
    (w.setStream a stream).hosts = w.hosts := rfl

/-- One stream is rewritten. -/
@[simp] theorem Stack.setStream_streams (w : Stack) (a : Nat) (stream : NgTcpStream) :
    (w.setStream a stream).streams = Function.update w.streams a stream := rfl

/-- What is the same before and after one socket is rewritten, at every address. -/
theorem update_same {σ α : Type} (read : σ → α) {memory : Nat → σ} {a : Nat} {socket : σ}
    (same : read socket = read (memory a)) (b : Nat) :
    read (Function.update memory a socket b) = read (memory b) := by
  by_cases here : b = a
  · rw [here, Function.update_self, same]
  · rw [Function.update_of_ne here]

/-- What holds of every socket on a list after one is rewritten. -/
theorem forall_update {σ : Type} (holds : Nat → σ → Prop) {memory : Nat → σ} {listed : List Nat}
    {a : Nat} {socket : σ} (new : a ∈ listed → holds a socket)
    (others : ∀ b ∈ listed, b ≠ a → holds b (memory b)) :
    ∀ b ∈ listed, holds b (Function.update memory a socket b) := by
  intro b member
  by_cases here : b = a
  · rw [here] at member ⊢
    rw [Function.update_self]
    exact new member
  · rw [Function.update_of_ne here]
    exact others b member here

/-- The lookup by descriptor depends on the descriptors only. -/
theorem getHostinfoFromfd_setStream {w : Stack} {a : Nat} {stream : NgTcpStream}
    (same : stream.fd = (w.streams a).fd) (sockfd : Int) :
    getHostinfoFromfd (w.setStream a stream) sockfd = getHostinfoFromfd w sockfd := by
  simp only [getHostinfoFromfd, Stack.setStream_lhost, Stack.setStream_hosts,
    Stack.setStream_tcbSet, Stack.setStream_streams, update_same NgTcpStream.fd same]
  rfl

/-- A host that keeps its descriptor is found as before. -/
theorem getHostinfoFromfd_setHost {w : Stack} {a : Nat} {host : Localhost}
    (same : host.fd = (w.hosts a).fd) (sockfd : Int) :
    getHostinfoFromfd (w.setHost a host) sockfd = getHostinfoFromfd w sockfd := by
  have fd : ∀ b, ((w.setHost a host).hosts b).fd = (w.hosts b).fd := update_same Localhost.fd same
  simp only [getHostinfoFromfd, fd]
  rfl

/-- The lookup by connection depends on the addresses and ports, and on who listens. -/
theorem ngTcpStreamSearch_setStream {w : Stack} {a : Nat} {stream : NgTcpStream}
    (sameSip : stream.sip = (w.streams a).sip) (sameDip : stream.dip = (w.streams a).dip)
    (sameSport : stream.sport = (w.streams a).sport)
    (sameDport : stream.dport = (w.streams a).dport)
    (sameListen : stream.status = .listen ↔ (w.streams a).status = .listen)
    (sip dip : UInt32) (sport dport : UInt16) :
    ngTcpStreamSearch (w.setStream a stream) sip dip sport dport =
      ngTcpStreamSearch w sip dip sport dport := by
  have listens := update_same (fun s : NgTcpStream => decide (s.status = .listen))
    (decide_eq_decide.mpr sameListen)
  simp only [decide_eq_decide] at listens
  simp only [ngTcpStreamSearch, Stack.setStream_tcbSet, Stack.setStream_streams,
    update_same NgTcpStream.sip sameSip, update_same NgTcpStream.dip sameDip,
    update_same NgTcpStream.sport sameSport, update_same NgTcpStream.dport sameDport, listens]

/-- The mask of a bit is a power of two. -/
theorem mask_toNat {i : Nat} (small : i < 8) :
    ((1 : UInt8) <<< UInt8.ofNat i).toNat = 2 ^ i := by
  interval_cases i <;> rfl

/-- A byte and the mask of a bit: zero means that the bit is clear. -/
theorem and_mask_eq_zero (x : UInt8) {i : Nat} (small : i < 8) :
    x &&& ((1 : UInt8) <<< UInt8.ofNat i) = 0 ↔ x.toNat.testBit i = false := by
  rw [← UInt8.toNat_inj, UInt8.toNat_and, mask_toNat small, Nat.and_two_pow]
  cases x.toNat.testBit i
  · simp
  · simp

/-- The bit of a descriptor, as a bit of a byte. -/
theorem fdBit_eq_zero (table : Nat → UInt8) (fd : Nat) :
    fdBit table fd = 0 ↔ (table (fd / 8)).toNat.testBit (fd % 8) = false :=
  and_mask_eq_zero _ (Nat.mod_lt fd (by decide))

/-- Two descriptors are the same when their bytes and their bits are. -/
theorem fd_eq_iff (f g : Nat) : f = g ↔ f / 8 = g / 8 ∧ f % 8 = g % 8 := by omega

/-- Setting the bit of one descriptor. -/
theorem fdBit_set (table : Nat → UInt8) (f g : Nat) :
    fdBit (Function.update table (g / 8)
      (table (g / 8) ||| ((1 : UInt8) <<< UInt8.ofNat (g % 8)))) f = 0 ↔
      f ≠ g ∧ fdBit table f = 0 := by
  rw [fdBit_eq_zero, fdBit_eq_zero, ne_eq, fd_eq_iff f g]
  by_cases byte : f / 8 = g / 8
  · rw [byte, Function.update_self, UInt8.toNat_or, mask_toNat (Nat.mod_lt g (by decide)),
      Nat.testBit_or, Nat.testBit_two_pow, Bool.or_eq_false_iff, decide_eq_false_iff_not]
    constructor
    · intro clear
      exact ⟨fun same => clear.2 same.2.symm, clear.1⟩
    · intro clear
      exact ⟨clear.2, fun same => clear.1 ⟨rfl, same.symm⟩⟩
  · rw [Function.update_of_ne byte]
    constructor
    · intro clear
      exact ⟨fun same => byte same.1, clear⟩
    · exact fun clear => clear.2

/-- Clearing the bit of one descriptor. -/
theorem fdBit_clear (table : Nat → UInt8) (f g : Nat) :
    fdBit (Function.update table (g / 8)
      (table (g / 8) &&& ~~~((1 : UInt8) <<< UInt8.ofNat (g % 8)))) f = 0 ↔
      f = g ∨ fdBit table f = 0 := by
  rw [fdBit_eq_zero, fdBit_eq_zero, fd_eq_iff f g]
  have small : g % 8 < 8 := Nat.mod_lt g (by decide)
  have inverse : ∀ i, i < 8 → (~~~((1 : UInt8) <<< UInt8.ofNat (g % 8))).toNat.testBit i =
      !decide (g % 8 = i) := by
    intro i below
    have size : 2 ^ (g % 8) < 2 ^ 8 := Nat.pow_lt_pow_right (by decide) small
    have value : (~~~((1 : UInt8) <<< UInt8.ofNat (g % 8))).toNat = 2 ^ 8 - (2 ^ (g % 8) + 1) := by
      rw [UInt8.toNat_not, mask_toNat small]
      change 2 ^ 8 - 1 - 2 ^ (g % 8) = _
      omega
    rw [value, Nat.testBit_two_pow_sub_succ size, Nat.testBit_two_pow]
    simp [below]
  by_cases byte : f / 8 = g / 8
  · rw [byte, Function.update_self, UInt8.toNat_and, Nat.testBit_and,
      inverse (f % 8) (Nat.mod_lt f (by decide))]
    simp only [Bool.and_eq_false_iff, Bool.not_eq_false', decide_eq_true_eq, true_and]
    constructor
    · intro clear
      exact clear.symm.imp_left Eq.symm
    · intro clear
      exact clear.symm.imp_right Eq.symm
  · rw [Function.update_of_ne byte]
    simp only [byte, false_and, false_or]

/-- The lowest descriptor that the table shows free. -/
def LowestFree (table : Nat → UInt8) (fd : Nat) : Prop :=
  DEFAULT_FD_NUM ≤ fd ∧ fd < MAX_FD_COUNT ∧ fdBit table fd = 0 ∧
  ∀ lower, DEFAULT_FD_NUM ≤ lower → lower < fd → fdBit table lower ≠ 0

/-- `get_fd_frombitmap` takes the lowest free descriptor, if there is one. -/
theorem getFdFrombitmap_spec (table : Nat → UInt8) :
    (∃ fd : Nat, (getFdFrombitmap table).1 = fd ∧ LowestFree table fd ∧
      ∀ f, fdBit (getFdFrombitmap table).2 f = 0 ↔ f ≠ fd ∧ fdBit table f = 0) ∨
    getFdFrombitmap table = (-1, table) := by
  unfold getFdFrombitmap
  cases found : (List.range' DEFAULT_FD_NUM (MAX_FD_COUNT - DEFAULT_FD_NUM)).find?
      fun fd => fdBit table fd = 0 with
  | none => exact Or.inr rfl
  | some fd =>
    apply Or.inl
    rw [List.find?_range'_eq_some] at found
    obtain ⟨free, member, lower⟩ := found
    rw [List.mem_range'_1] at member
    simp only [decide_eq_true_eq] at free
    refine ⟨fd, rfl, ⟨member.1, ?_, free, ?_⟩, fun f => fdBit_set table f fd⟩
    · have top := member.2
      unfold DEFAULT_FD_NUM MAX_FD_COUNT at *
      omega
    · intro g above below clear
      have taken := lower g above below
      simp [clear] at taken

/-- There is one lowest free descriptor at most. -/
theorem LowestFree.unique {table : Nat → UInt8} {one other : Nat} (first : LowestFree table one)
    (second : LowestFree table other) : one = other := by
  by_contra different
  rcases Nat.lt_or_gt_of_ne different with less | more
  · exact second.2.2.2 one first.1 less first.2.2.1
  · exact first.2.2.2 other second.1 more second.2.2.1

/-- `set_fd_frombitmap` frees one descriptor, and for `-1` does nothing. -/
theorem setFdFrombitmap_spec (table : Nat → UInt8) {fd : Int}
    (place : fd = -1 ∨ ∃ n : Nat, fd = n ∧ n < MAX_FD_COUNT) :
    ∃ table', setFdFrombitmap table fd = some (0, table') ∧
      ∀ f : Nat, fdBit table' f = 0 ↔ (f : Int) = fd ∨ fdBit table f = 0 := by
  unfold setFdFrombitmap MAX_FD_COUNT at *
  rcases place with missing | ⟨n, same, small⟩
  · refine ⟨table, ?_, ?_⟩
    · rw [missing]
      rfl
    · intro f
      rw [missing]
      constructor
      · exact Or.inr
      · intro clear
        apply clear.resolve_left
        omega
  · rw [same]
    refine ⟨Function.update table (n / 8)
      (table (n / 8) &&& ~~~((1 : UInt8) <<< UInt8.ofNat (n % 8))), ?_, ?_⟩
    · rw [if_neg (by omega), if_pos (by omega), Int.toNat_natCast]
    · intro f
      rw [fdBit_clear, Nat.cast_inj]

end BackendCpp.Tcp
