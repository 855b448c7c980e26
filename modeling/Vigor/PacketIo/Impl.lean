import Vigor.Library.ByteMoves

/-!
# Chunks of a packet

`packet-io.c` and the functions of `nf-util.h` that work on the stack of
borrowed chunks. A chunk is a part of the packet that a network function looks
at.  Chunks are borrowed one after the other, and only their starts are kept.

Addresses are integers, and what is read from memory outside the packet is any
byte.  The functions of the driver library that move the start of a buffer are
parameters.
-/

namespace Vigor
namespace PacketIo

open ByteMoves

variable {μ : Type u}

/-! ## Machine numbers -/

/-- Conversion to `size_t`. -/
def toSizeT (value : ℤ) : ℕ :=
  (value % 2 ^ 64).toNat

/-- Conversion to `uint32_t`. -/
def toUint32 (value : ℤ) : ℕ :=
  (value % 2 ^ 32).toNat

/-- Conversion to `uint16_t`. -/
def toUint16 (value : ℤ) : ℕ :=
  (value % 2 ^ 16).toNat

/-! ## Buffers -/

/-- `struct rte_mbuf` with a single segment: `rte_pktmbuf_mtod`, the field
`pkt_len`, `rte_pktmbuf_headroom`, `rte_pktmbuf_prepend` and `rte_pktmbuf_adj`.
The length of a buffer is a number of 16 bits. -/
structure MbufOps (μ : Type u) where
  mtod : μ → ℤ
  pktLen : μ → ℕ
  headroom : μ → ℕ
  prepend : μ → ℕ → Option (ℤ × μ)
  adj : μ → ℕ → Option (ℤ × μ)
  bounded : ∀ mbuf, headroom mbuf + pktLen mbuf < 2 ^ 16
  prepend_of_le : ∀ mbuf length, length ≤ headroom mbuf →
    ∃ mbuf', prepend mbuf length = some (mtod mbuf', mbuf') ∧
      mtod mbuf' = mtod mbuf - length ∧ pktLen mbuf' = pktLen mbuf + length ∧
      headroom mbuf' + length = headroom mbuf
  adj_of_le : ∀ mbuf length, length ≤ pktLen mbuf →
    ∃ mbuf', adj mbuf length = some (mtod mbuf', mbuf') ∧
      mtod mbuf' = mtod mbuf + length ∧ pktLen mbuf' + length = pktLen mbuf ∧
      headroom mbuf' = headroom mbuf + length

/-- The memory, the buffer, the pointer `p` of the network function and the
global variables. -/
structure State (μ : Type u) where
  memory : ℤ → UInt8
  mbuf : μ
  data : ℤ
  globalTotalLength : ℕ
  globalReadLength : ℕ
  chunksBorrowed : ℕ → ℤ
  chunksBorrowedNum : ℕ

/-! ## `packet-io.c` -/

/-- `packet_borrow_next_chunk`. -/
def packetBorrowNextChunk
    (length : ℕ)
    (state : State μ) : ℤ × State μ :=
  (state.data + state.globalReadLength,
    { state with globalReadLength := toSizeT (state.globalReadLength + length) })

/-- `packet_return_chunk`. -/
def packetReturnChunk
    (chunk : ℤ)
    (state : State μ) : State μ :=
  { state with globalReadLength := toUint32 (chunk - state.data) }

/-- `packet_get_unread_length`. -/
def packetGetUnreadLength (state : State μ) : ℕ :=
  toUint32 (state.globalTotalLength - state.globalReadLength)

/-- `packet_get_chunk_length`. -/
def packetGetChunkLength
    (p chunk : ℤ)
    (state : State μ) : ℕ :=
  toUint32 (p + state.globalReadLength - chunk)

/-- The loop that adds a number to the first `num` chunks. -/
def rebase
    (num : ℕ)
    (distance : ℤ)
    (chunks : ℕ → ℤ) : ℕ → ℤ := fun i =>
  if i < num then chunks i + distance else chunks i

/-- `packet_shrink_chunk`, or `none` if an assertion fails.  The condition of
the loop is false after the given number of rounds. -/
def packetShrinkChunk
    (ops : MbufOps μ)
    (length : ℕ)
    (state : State μ) :
    Option (State μ) :=
  let data := state.data
  let lastChunk := state.chunksBorrowed (state.chunksBorrowedNum - 1)
  let lastChunkLength := packetGetChunkLength data lastChunk state
  let lastChunkLimit := lastChunk + lastChunkLength
  if lastChunkLength < length then none
  else
    let offset := lastChunkLength - length
    if offset = 0 then some state
    else
      let memory := moveUp offset (lastChunkLimit - (data + offset)).toNat
        (lastChunkLimit - 1) state.memory
      match ops.adj state.mbuf (toUint16 offset) with
      | none => none
      | some (data, mbuf) =>
          some { state with
            memory := memory
            mbuf := mbuf
            data := data
            globalReadLength := toSizeT (state.globalReadLength - offset)
            globalTotalLength := toSizeT (state.globalTotalLength - offset)
            chunksBorrowed :=
              rebase state.chunksBorrowedNum offset state.chunksBorrowed }

/-- `packet_insert_new_chunk`, or `none` if an assertion fails.  The condition
of the loop is false after the given number of rounds. -/
def packetInsertNewChunk
    (ops : MbufOps μ)
    (length : ℕ)
    (state : State μ) :
    Option (State μ) :=
  let lastChunkLimit := state.data + state.globalReadLength
  match ops.prepend state.mbuf (toUint16 length) with
  | none => none
  | some (data, mbuf) =>
      let memory := moveDown length (lastChunkLimit - (data + length)).toNat data
        state.memory
      let chunks := rebase state.chunksBorrowedNum (-length) state.chunksBorrowed
      if chunks 0 ≠ data then none
      else
        some { state with
          memory := memory
          mbuf := mbuf
          data := data
          globalReadLength := toSizeT (state.globalReadLength + length)
          globalTotalLength := toSizeT (state.globalTotalLength + length)
          chunksBorrowed := Function.update chunks state.chunksBorrowedNum
            (data + state.globalReadLength)
          chunksBorrowedNum := state.chunksBorrowedNum + 1 }

/-! ## `nf-util.h` -/

/-- `MAX_N_CHUNKS`. -/
def maxNChunks : ℕ := 100

/-- `nf_borrow_next_chunk`. -/
def nfBorrowNextChunk
    (length : ℕ)
    (state : State μ) : Option (ℤ × State μ) :=
  if state.chunksBorrowedNum < maxNChunks then
    let (chunk, state) := packetBorrowNextChunk length state
    some (chunk,
      { state with
        chunksBorrowed :=
          Function.update state.chunksBorrowed state.chunksBorrowedNum chunk
        chunksBorrowedNum := state.chunksBorrowedNum + 1 })
  else none

theorem nfBorrowNextChunk_of_lt
    {state : State μ}
    (notFull : state.chunksBorrowedNum < maxNChunks)
    (length : ℕ) :
    nfBorrowNextChunk length state =
      some (state.data + state.globalReadLength,
        { state with
          globalReadLength := toSizeT (state.globalReadLength + length)
          chunksBorrowed := Function.update state.chunksBorrowed state.chunksBorrowedNum
            (state.data + state.globalReadLength)
          chunksBorrowedNum := state.chunksBorrowedNum + 1 }) := by
  unfold nfBorrowNextChunk
  rw [if_pos notFull]
  rfl

/-- `nf_shrink_chunk`, without the pointer that it returns. -/
def nfShrinkChunk
    (ops : MbufOps μ)
    (length : ℕ)
    (state : State μ) : Option (State μ) :=
  if state.chunksBorrowedNum < maxNChunks ∧ state.chunksBorrowedNum ≠ 0 then
    packetShrinkChunk ops length state
  else none

/-- `nf_insert_new_chunk`, without the pointer that it returns. -/
def nfInsertNewChunk
    (ops : MbufOps μ)
    (length : ℕ)
    (state : State μ) :
    Option (State μ) :=
  if state.chunksBorrowedNum < maxNChunks ∧ state.chunksBorrowedNum ≠ 0 then
    packetInsertNewChunk ops length state
  else none

/-- `nf_return_chunk`, and a round of the loop of `nf_return_all_chunks`. -/
def nfReturnChunk (state : State μ) : State μ :=
  if state.chunksBorrowedNum ≠ 0 then
    { packetReturnChunk (state.chunksBorrowed (state.chunksBorrowedNum - 1))
      state with chunksBorrowedNum := state.chunksBorrowedNum - 1 }
  else state

/-- `nf_return_all_chunks`.  Every round takes one chunk from the stack. -/
def nfReturnAllChunks (state : State μ) : State μ :=
  nfReturnChunk^[state.chunksBorrowedNum] state

end PacketIo
end Vigor
