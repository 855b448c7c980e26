import Vigor.PacketIo.Impl
import Mathlib.Algebra.BigOperators.Group.List.Basic

/-!
# Finding the header behind the options

The functions of `nf-util.h` that borrow the headers of a packet one after the
other.  The header of the transport layer should start right after the IPv4
header with its options. But the options are borrowed only if the packet has
room for them, and without that room the header is taken from the place where
the options should be.  Besides, nothing checks that the packet has an Ethernet
header: for a shorter packet the number of bytes that are left becomes huge.
-/

namespace Vigor
namespace PacketIo

variable {μ : Type u}

/-! ## Headers -/

/-- A field of two bytes in network order. -/
def be16
    (memory : ℤ → UInt8)
    (address : ℤ) : ℕ :=
  (memory address).toNat * 256 + (memory (address + 1)).toNat

/-- `nf_has_rte_ipv4_header`. -/
def nfHasRteIpv4Header
    (memory : ℤ → UInt8)
    (header : ℤ) : Prop :=
  be16 memory (header + 12) = 0x0800

/-- `nf_has_tcpudp_header`. -/
def nfHasTcpudpHeader
    (memory : ℤ → UInt8)
    (header : ℤ) : Prop :=
  memory (header + 9) = 6 ∨ memory (header + 9) = 17

instance (memory : ℤ → UInt8) (header : ℤ) :
    Decidable (nfHasRteIpv4Header memory header) :=
  inferInstanceAs (Decidable (_ = _))

instance (memory : ℤ → UInt8) (header : ℤ) :
    Decidable (nfHasTcpudpHeader memory header) :=
  inferInstanceAs (Decidable (_ ∨ _))

/-- The low nibble of `version_ihl`. -/
def ihlOf
    (memory : ℤ → UInt8)
    (header : ℤ) : ℕ :=
  (memory header &&& 0x0f).toNat

/-- `nf_then_get_rte_ether_header`. -/
def nfThenGetRteEtherHeader (state : State μ) : Option (ℤ × State μ) :=
  nfBorrowNextChunk 14 state

/-- `nf_then_get_rte_ipv4_header`: the header and the options, where `none` is
the null pointer. -/
def nfThenGetRteIpv4Header
    (rteEtherHeader : ℤ)
    (state : State μ) :
    Option (Option ℤ × Option ℤ × State μ) :=
  let unreadLen := toUint16 (packetGetUnreadLength state)
  if ¬nfHasRteIpv4Header state.memory rteEtherHeader ∨ unreadLen < 20 then
    some (none, none, state)
  else do
    let (hdr, state) ← nfBorrowNextChunk 20 state
    let ihl := ihlOf state.memory hdr
    if ihl < 5 ∨ unreadLen < be16 state.memory (hdr + 2) then
      some (none, none, state)
    else
      let ipOptionsLength := (ihl - 5) * 4
      if ipOptionsLength ≠ 0 ∧ ipOptionsLength ≤ unreadLen - 20 then do
        let (ipOptions, state) ← nfBorrowNextChunk ipOptionsLength state
        some (some hdr, some ipOptions, state)
      else some (some hdr, none, state)

/-- `nf_then_get_tcpudp_header`. -/
def nfThenGetTcpudpHeader
    (ipHeader : ℤ)
    (state : State μ) :
    Option (Option ℤ × State μ) :=
  if ¬nfHasTcpudpHeader state.memory ipHeader ∨ packetGetUnreadLength state < 4 then
    some (none, state)
  else do
    let (header, state) ← nfBorrowNextChunk 4 state
    some (some header, state)

/-- The three calls in order.  A network function stops when there is no IPv4
header. -/
def getHeaders (state : State μ) : Option (Option ℤ × State μ) := do
  let (rteEtherHeader, state) ← nfThenGetRteEtherHeader state
  let (rteIpv4Header, _, state) ← nfThenGetRteIpv4Header rteEtherHeader state
  match rteIpv4Header with
  | none => some (none, state)
  | some rteIpv4Header => nfThenGetTcpudpHeader rteIpv4Header state

/-- The state in which a received packet is processed. -/
def received
    (memory : ℤ → UInt8)
    (mbuf : μ)
    (data : ℤ)
    (length : ℕ)
    (chunks : ℕ → ℤ) : State μ where
  memory := memory
  mbuf := mbuf
  data := data
  globalTotalLength := length
  globalReadLength := 0
  chunksBorrowed := chunks
  chunksBorrowedNum := 0

/-! ## The property and its condition -/

/-- The first address behind a chunk: the start of the next one, or what was
read. -/
def chunkEnd
    (state : State μ)
    (i : ℕ) : ℤ :=
  if i + 1 < state.chunksBorrowedNum then state.chunksBorrowed (i + 1)
  else state.data + state.globalReadLength

/-- All borrowed chunks lie within the packet. -/
def ChunksWithin (state : State μ) : Prop :=
  ∀ i < state.chunksBorrowedNum,
    state.data ≤ state.chunksBorrowed i ∧
      chunkEnd state i ≤ state.data + state.globalTotalLength

/-- A header that is returned starts after the options, and all chunks lie
within the packet. -/
def FindsHeader (state : State μ) : Prop :=
  ∀ header final, getHeaders state = some (some header, final) →
    header = state.data + 14 + 4 * ihlOf state.memory (state.data + 14) ∧
      ChunksWithin final

/-- A packet that is taken for a TCP or UDP packet, although it is shorter than
an Ethernet header, or has room for ports but not for the options. -/
structure Misleads (memory : ℤ → UInt8) (data : ℤ) (length : ℕ) : Prop where
  ipv4 : nfHasRteIpv4Header memory data
  tcpudp : nfHasTcpudpHeader memory (data + 14)
  ihl : 5 ≤ ihlOf memory (data + 14)
  totalLength : be16 memory (data + 16) ≤ toUint16 (length - 14)
  short : length < 14 ∨ 38 ≤ length ∧ length < 14 + 4 * ihlOf memory (data + 14)

/-! ## Stacks of chunks -/

/-- The state after a chunk was borrowed. -/
def State.push
    (length : ℕ)
    (state : State μ) : State μ :=
  { state with
    globalReadLength := toSizeT (state.globalReadLength + length)
    chunksBorrowed := Function.update state.chunksBorrowed state.chunksBorrowedNum
      (state.data + state.globalReadLength)
    chunksBorrowedNum := state.chunksBorrowedNum + 1 }

@[simp] theorem State.push_total
    (length : ℕ)
    (state : State μ) :
    (state.push length).globalTotalLength = state.globalTotalLength :=
  rfl

/-- Chunks of the given lengths are borrowed, one after the other. -/
structure Stacked (lengths : List ℕ) (state : State μ) : Prop where
  num : state.chunksBorrowedNum = lengths.length
  read : state.globalReadLength = lengths.sum
  starts : ∀ i < lengths.length,
    state.chunksBorrowed i = state.data + ((lengths.take i).sum : ℕ)

namespace Stacked

variable {lengths : List ℕ} {state : State μ}

theorem nil
    (memory : ℤ → UInt8)
    (mbuf : μ)
    (data : ℤ)
    (length : ℕ)
    (chunks : ℕ → ℤ) :
    Stacked [] (received memory mbuf data length chunks) where
  num := rfl
  read := rfl
  starts i inside := absurd inside (Nat.not_lt_zero i)

section

variable (stacked : Stacked lengths state)

include stacked

theorem borrow
    (notFull : lengths.length < maxNChunks)
    (length : ℕ) :
    nfBorrowNextChunk length state =
      some (state.data + (lengths.sum : ℕ), state.push length) := by
  rw [nfBorrowNextChunk_of_lt (by rw [stacked.num]; exact notFull), stacked.read]
  unfold State.push
  rw [stacked.read]

theorem push
    (small : lengths.sum + length < 2 ^ 64) :
    Stacked (lengths ++ [length]) (state.push length) where
  num := by
    rw [List.length_append, List.length_singleton, ← stacked.num]
    rfl
  read := by
    rw [List.sum_append, List.sum_singleton]
    unfold State.push toSizeT
    dsimp only
    rw [stacked.read]
    omega
  starts i inside := by
    rw [List.length_append, List.length_singleton] at inside
    unfold State.push
    dsimp only
    rw [stacked.num, stacked.read]
    rcases Nat.lt_succ_iff_lt_or_eq.mp inside with earlier | rfl
    · rw [Function.update_of_ne earlier.ne, List.take_append_of_le_length earlier.le]
      exact stacked.starts i earlier
    · rw [Function.update_self, List.take_left' rfl]

theorem unreadLength :
    packetGetUnreadLength state =
      toUint32 (state.globalTotalLength - (lengths.sum : ℕ)) := by
  unfold packetGetUnreadLength
  rw [stacked.read]

theorem chunkEnd_eq
    {i : ℕ}
    (inside : i < lengths.length) :
    chunkEnd state i = state.data + ((lengths.take (i + 1)).sum : ℕ) := by
  unfold chunkEnd
  rw [stacked.num, stacked.read]
  by_cases last : i + 1 < lengths.length
  · rw [if_pos last, stacked.starts _ last]
  · rw [if_neg last, List.take_of_length_le (by omega)]

theorem chunksWithin_iff
    (nonempty : lengths ≠ []) :
    ChunksWithin state ↔ lengths.sum ≤ state.globalTotalLength := by
  have positive := List.length_pos_of_ne_nil nonempty
  unfold ChunksWithin
  rw [stacked.num]
  constructor
  · intro within
    have last := (within (lengths.length - 1) (by omega)).2
    rw [stacked.chunkEnd_eq (by omega), List.take_of_length_le (by omega)] at last
    omega
  · intro fits i inside
    have parts := List.sum_take_add_sum_drop lengths (i + 1)
    rw [stacked.chunkEnd_eq inside, stacked.starts i inside]
    omega

end

end Stacked

theorem ihlOf_lt
    (memory : ℤ → UInt8)
    (header : ℤ) :
    ihlOf memory header < 16 := by
  unfold ihlOf
  rw [UInt8.toNat_and]
  exact Nat.lt_succ_of_le Nat.and_le_right

/-! ## The three calls -/

section Calls

variable
  (memory : ℤ → UInt8)
  (mbuf : μ)
  (data : ℤ)
  (length : ℕ)
  (chunks : ℕ → ℤ)

/-- The options are borrowed. -/
def BorrowsOptions : Prop :=
  (ihlOf memory (data + 14) - 5) * 4 ≠ 0 ∧
    (ihlOf memory (data + 14) - 5) * 4 ≤ toUint16 (length - 14) - 20

/-- The lengths of the chunks that are borrowed before the last call. -/
def headerLengths [Decidable (BorrowsOptions memory data length)] : List ℕ :=
  if BorrowsOptions memory data length then
    [14, 20, (ihlOf memory (data + 14) - 5) * 4]
  else [14, 20]

instance : Decidable (BorrowsOptions memory data length) :=
  inferInstanceAs (Decidable (_ ∧ _))

/-- The packet is taken for an IPv4 packet. -/
def AcceptsIpv4 : Prop :=
  nfHasRteIpv4Header memory data ∧ 20 ≤ toUint16 (length - 14) ∧
    5 ≤ ihlOf memory (data + 14) ∧ be16 memory (data + 16) ≤ toUint16 (length - 14)

variable {memory data length} {state : State μ}

/-- The bytes behind the Ethernet header, in the width of the check. -/
theorem Stacked.unread_ether (stacked : Stacked [14] state) :
    toUint16 (packetGetUnreadLength state) =
      toUint16 (state.globalTotalLength - 14) := by
  rw [stacked.unreadLength]
  unfold toUint16 toUint32
  simp only [List.sum_singleton]
  omega

theorem Stacked.ipv4Header_eq
    (stacked : Stacked [14] state)
    (isIpv4 : nfHasRteIpv4Header state.memory state.data)
    (enough : 20 ≤ toUint16 (state.globalTotalLength - 14)) :
    nfThenGetRteIpv4Header state.data state =
      if ihlOf state.memory (state.data + 14) < 5 ∨
          toUint16 (state.globalTotalLength - 14) <
            be16 state.memory (state.data + 14 + 2) then
        some (none, none, state.push 20)
      else if BorrowsOptions state.memory state.data
          state.globalTotalLength then
        some (some (state.data + 14), some (state.data + 34),
          (state.push 20).push ((ihlOf state.memory (state.data + 14) - 5) * 4))
      else some (some (state.data + 14), none, state.push 20) := by
  have borrowed : nfBorrowNextChunk 20 state = some (state.data + 14, state.push 20) :=
    stacked.borrow (by decide) 20
  have ipv4 : Stacked [14, 20] (state.push 20) := stacked.push (by decide)
  have options : nfBorrowNextChunk ((ihlOf state.memory (state.data + 14) - 5) * 4)
      (state.push 20) = some (state.data + 34,
        (state.push 20).push ((ihlOf state.memory (state.data + 14) - 5) * 4)) :=
    ipv4.borrow (by decide) _
  rw [nfThenGetRteIpv4Header]
  dsimp only
  rw [stacked.unread_ether,
    if_neg (by rw [not_or, not_not, not_lt]; exact ⟨isIpv4, enough⟩), borrowed]
  change (if _ then _ else if _ then
    Option.bind (nfBorrowNextChunk ((ihlOf state.memory (state.data + 14) - 5) * 4)
      (state.push 20)) _ else _) = _
  rw [options]
  rfl

theorem ipv4Header_of_accepts
    (sameMemory : state.memory = memory)
    (sameData : state.data = data)
    (sameLength : state.globalTotalLength = length)
    (stacked : Stacked [14] state)
    (accepts : AcceptsIpv4 memory data length) :
    ∃ options state', nfThenGetRteIpv4Header data state =
        some (some (data + 14), options, state') ∧
      state'.memory = memory ∧ state'.data = data ∧
        state'.globalTotalLength = length ∧
      Stacked (headerLengths memory data length) state' := by
  subst sameMemory sameData sameLength
  have nibble := ihlOf_lt state.memory (state.data + 14)
  have ipv4 : Stacked [14, 20] (state.push 20) := stacked.push (by decide)
  have second : state.data + 14 + 2 = state.data + 16 := by ring
  obtain ⟨isIpv4, enough, words, total⟩ := accepts
  rw [stacked.ipv4Header_eq isIpv4 enough,
    if_neg (by rw [not_or, not_lt, not_lt, second]; exact ⟨words, total⟩)]
  unfold headerLengths
  by_cases borrows : BorrowsOptions state.memory state.data state.globalTotalLength
  · rw [if_pos borrows, if_pos borrows]
    refine ⟨_, _, rfl, rfl, rfl, rfl, ipv4.push ?_⟩
    simp only [List.sum_cons, List.sum_nil]
    omega
  · rw [if_neg borrows, if_neg borrows]
    exact ⟨_, _, rfl, rfl, rfl, rfl, ipv4⟩

theorem ipv4Header_of_not_accepts
    (sameMemory : state.memory = memory)
    (sameData : state.data = data)
    (sameLength : state.globalTotalLength = length)
    (stacked : Stacked [14] state)
    (rejects : ¬AcceptsIpv4 memory data length) :
    ∃ state',
      nfThenGetRteIpv4Header data state = some (none, none, state') := by
  subst sameMemory sameData sameLength
  have second : state.data + 14 + 2 = state.data + 16 := by ring
  by_cases early : ¬nfHasRteIpv4Header state.memory state.data ∨
      toUint16 (state.globalTotalLength - 14) < 20
  · rw [nfThenGetRteIpv4Header]
    dsimp only
    rw [stacked.unread_ether, if_pos early]
    exact ⟨state, rfl⟩
  · rw [not_or, not_not, not_lt] at early
    have bad : ihlOf state.memory (state.data + 14) < 5 ∨
        toUint16 (state.globalTotalLength - 14) < be16 state.memory (state.data + 14 + 2) := by
      by_contra fine
      rw [not_or, not_lt, not_lt, second] at fine
      exact rejects ⟨early.1, early.2, fine.1, fine.2⟩
    rw [stacked.ipv4Header_eq early.1 early.2, if_pos bad]
    exact ⟨_, rfl⟩

theorem Stacked.tcpudpHeader_iff
    (stacked : Stacked lengths state)
    (notFull : lengths.length < maxNChunks)
    (ipHeader : ℤ)
    (header : ℤ)
    (final : State μ) :
    nfThenGetTcpudpHeader ipHeader state = some (some header, final) ↔
      nfHasTcpudpHeader state.memory ipHeader ∧
        4 ≤ toUint32 (state.globalTotalLength - (lengths.sum : ℕ)) ∧
        state.data + (lengths.sum : ℕ) = header ∧ state.push 4 = final := by
  unfold nfThenGetTcpudpHeader
  rw [stacked.unreadLength, stacked.borrow notFull]
  dsimp only [Option.bind_eq_bind, Option.bind_some]
  by_cases absent : ¬nfHasTcpudpHeader state.memory ipHeader ∨
      toUint32 (state.globalTotalLength - (lengths.sum : ℕ)) < 4
  · rw [if_pos absent]
    constructor
    · intro returned
      cases returned
    · rintro ⟨protocol, enough, _⟩
      rcases absent with other | few
      · exact absurd protocol other
      · omega
  · rw [if_neg absent]
    rw [not_or, not_not, not_lt] at absent
    simp only [Option.some.injEq, Prod.mk.injEq, absent.1, absent.2, true_and]

theorem getHeaders_received :
    (¬AcceptsIpv4 memory data length ∧
      ∃ final,
        getHeaders (received memory mbuf data length chunks) =
          some (none, final)) ∨
    AcceptsIpv4 memory data length ∧
      ∃ state : State μ,
        getHeaders (received memory mbuf data length chunks) =
          nfThenGetTcpudpHeader (data + 14) state ∧
        state.memory = memory ∧ state.data = data ∧
          state.globalTotalLength = length ∧
        Stacked (headerLengths memory data length) state := by
  have empty := Stacked.nil memory mbuf data length chunks
  have ether : Stacked [14] ((received memory mbuf data length chunks).push 14) :=
    empty.push (by decide)
  have borrowed : nfThenGetRteEtherHeader (received memory mbuf data length chunks) =
      some (data, (received memory mbuf data length chunks).push 14) := by
    unfold nfThenGetRteEtherHeader
    rw [empty.borrow (by decide)]
    simp [received]
  have sameMemory : ((received memory mbuf data length chunks).push 14).memory = memory := rfl
  have sameData : ((received memory mbuf data length chunks).push 14).data = data := rfl
  have sameLength :
      ((received memory mbuf data length chunks).push 14).globalTotalLength = length := rfl
  unfold getHeaders
  rw [borrowed]
  by_cases accepts : AcceptsIpv4 memory data length
  · right
    obtain ⟨options, state, returned, same⟩ :=
      ipv4Header_of_accepts sameMemory sameData sameLength ether accepts
    dsimp only [Option.bind_eq_bind, Option.bind_some]
    rw [returned]
    exact ⟨accepts, state, rfl, same⟩
  · left
    obtain ⟨final, returned⟩ :=
      ipv4Header_of_not_accepts sameMemory sameData sameLength ether accepts
    dsimp only [Option.bind_eq_bind, Option.bind_some]
    rw [returned]
    exact ⟨accepts, final, rfl⟩

theorem headerLengths_sum :
    (headerLengths memory data length).sum =
      if BorrowsOptions memory data length then
        34 + (ihlOf memory (data + 14) - 5) * 4
      else 34 := by
  unfold headerLengths
  split
  · simp only [List.sum_cons, List.sum_nil]
    omega
  · rfl

theorem headerLengths_length_lt :
    (headerLengths memory data length).length < maxNChunks := by
  unfold headerLengths
  split
  · change 3 < 100
    decide
  · decide

theorem Misleads.accepts
    (misleads : Misleads memory data length)
    (short : length ≤ 65535) :
    AcceptsIpv4 memory data length := by
  refine ⟨misleads.ipv4, ?_, misleads.ihl, misleads.totalLength⟩
  have cases := misleads.short
  unfold toUint16
  omega

theorem AcceptsIpv4.misleads_iff
    (accepts : AcceptsIpv4 memory data length)
    (short : length ≤ 65535) :
    Misleads memory data length ↔
      nfHasTcpudpHeader memory (data + 14) ∧
        4 ≤ toUint32 (length - ((headerLengths memory data length).sum : ℕ)) ∧
        ¬((headerLengths memory data length).sum =
            14 + 4 * ihlOf memory (data + 14) ∧
          (headerLengths memory data length).sum + 4 ≤ length) := by
  obtain ⟨isIpv4, enough, words, total⟩ := accepts
  have nibble := ihlOf_lt memory (data + 14)
  have sum : (headerLengths memory data length).sum = _ := headerLengths_sum
  have arithmetic : (length < 14 ∨ 38 ≤ length ∧ length < 14 + 4 * ihlOf memory (data + 14)) ↔
      4 ≤ toUint32 (length - ((headerLengths memory data length).sum : ℕ)) ∧
        ¬((headerLengths memory data length).sum = 14 + 4 * ihlOf memory (data + 14) ∧
          (headerLengths memory data length).sum + 4 ≤ length) := by
    unfold toUint16 at enough
    by_cases borrows : BorrowsOptions memory data length
    · rw [if_pos borrows] at sum
      unfold BorrowsOptions toUint16 at borrows
      rw [sum]
      unfold toUint32
      omega
    · rw [if_neg borrows] at sum
      unfold BorrowsOptions toUint16 at borrows
      rw [sum]
      unfold toUint32
      omega
  constructor
  · intro misleads
    exact ⟨misleads.tcpudp, arithmetic.mp misleads.short⟩
  · rintro ⟨tcpudp, rest⟩
    exact ⟨isIpv4, tcpudp, words, total, arithmetic.mpr rest⟩

theorem Stacked.ports_within_iff
    (stacked : Stacked lengths state)
    (short : lengths.sum < 128) :
    ChunksWithin (state.push 4) ↔
      lengths.sum + 4 ≤ state.globalTotalLength := by
  have pushed : Stacked (lengths ++ [4]) (state.push 4) := stacked.push (by omega)
  rw [pushed.chunksWithin_iff (by simp), List.sum_append, List.sum_singleton, State.push_total]

theorem headerLengths_sum_lt :
    (headerLengths memory data length).sum < 128 := by
  have nibble := ihlOf_lt memory (data + 14)
  rw [headerLengths_sum]
  split <;> omega

/-- The header is found exactly if the packet does not mislead. -/
theorem findsHeader_iff (short : length ≤ 65535) :
    FindsHeader (received memory mbuf data length chunks) ↔
      ¬Misleads memory data length := by
  have calls : (¬AcceptsIpv4 memory data length ∧ _) ∨ AcceptsIpv4 memory data length ∧ _ :=
    getHeaders_received mbuf chunks
  rcases calls with
    ⟨rejects, final, none⟩ | ⟨accepts, state, last, sameMemory, sameData, sameLength, stacked⟩
  · -- Without an IPv4 header nothing is returned.
    refine iff_of_true ?_ fun misleads => rejects (misleads.accepts short)
    intro header final' returned
    rw [none] at returned
    cases returned
  · have found := stacked.tcpudpHeader_iff headerLengths_length_lt (data + 14)
    have within := stacked.ports_within_iff headerLengths_sum_lt
    rw [sameMemory, sameData, sameLength] at found
    rw [sameLength] at within
    rw [accepts.misleads_iff short]
    unfold FindsHeader
    rw [last]
    simp only [found, received]
    constructor
    · rintro finds ⟨tcpudp, enough, wrong⟩
      obtain ⟨place, inside⟩ := finds _ _ ⟨tcpudp, enough, rfl, rfl⟩
      exact wrong ⟨by omega, within.mp inside⟩
    · rintro right header final ⟨tcpudp, enough, rfl, rfl⟩
      obtain ⟨sum, fits⟩ := not_not.mp fun wrong => right ⟨tcpudp, enough, wrong⟩
      exact ⟨by omega, within.mpr fits⟩

end Calls

/-- A TCP packet that announces ten words of options. -/
def optionsMemory (address : ℤ) : UInt8 :=
  if address = 12 then 0x08
  else if address = 14 then 0x4f
  else if address = 17 then 30
  else if address = 23 then 6
  else 0

/-- With all its options the packet is parsed as it should be. -/
theorem findsHeader_options_present :
    100 ≤ 65535 ∧ FindsHeader (received optionsMemory () 0 100 fun _ => 0) :=
  ⟨by decide, (findsHeader_iff () _ (by decide)).mpr fun misleads =>
    absurd misleads.short (by decide)⟩

/-- Only ten bytes follow the header: the ports are read from the first four of
them, and not from byte 74. -/
theorem options_missing_misleads :
    ¬FindsHeader (received optionsMemory () 0 44 fun _ => 0) := by
  intro finds
  have found : (getHeaders (received optionsMemory () 0 44 fun _ => 0)).map Prod.fst =
      some (some 34) := by
    decide +kernel
  obtain ⟨⟨header, final⟩, returned, rfl⟩ := Option.map_eq_some_iff.mp found
  have place := (finds 34 final returned).1
  revert place
  decide

end PacketIo
end Vigor
