import Vigor.PacketIo.Impl

/-!
# The stack of chunks and the bytes of the packet

A packet is seen as the contents of the chunks that are borrowed, followed by
the bytes that are not read yet.  Borrowing and returning move the border
between the two, inserting puts new bytes at the border, and shrinking cuts
bytes off before it.  The code moves the bytes before the border instead, and
with them the start of the packet.
-/

namespace Vigor
namespace PacketIo

open ByteMoves Function

variable {μ : Type u}

/-! ## Operations -/

/-- What a network function does with the chunks of a packet. -/
inductive Operation where
  | borrow (length : ℕ)
  | returnChunk
  | insert (length : ℕ)
  | shrink (length : ℕ)
  deriving DecidableEq, Repr

/-- An operation as the code executes it. -/
def exec (ops : MbufOps μ) : Operation → State μ → Option (State μ)
  | .borrow length, state => (nfBorrowNextChunk length state).map Prod.snd
  | .returnChunk, state => some (nfReturnChunk state)
  | .insert length, state => nfInsertNewChunk ops length state
  | .shrink length, state => nfShrinkChunk ops length state

/-- A run of operations. -/
def run
    (ops : MbufOps μ)
    (operations : List Operation)
    (state : State μ) :
    Option (State μ) :=
  operations.foldlM (fun state operation => exec ops operation state) state

theorem run_cons
    (ops : MbufOps μ)
    (operation : Operation)
    (operations : List Operation)
    (state : State μ) :
    run ops (operation :: operations) state =
      (exec ops operation state).bind (run ops operations) :=
  rfl

/-- The conditions on the arguments: a borrowed chunk lies in the part that is
not read, a chunk is inserted or shrunk only if there is one and the stack is
not full, there is room for an inserted chunk before the packet, and the last
chunk does not grow. -/
def Allowed (ops : MbufOps μ) : Operation → State μ → Prop
  | .borrow length, state =>
      state.chunksBorrowedNum < maxNChunks ∧
        state.globalReadLength + length ≤ state.globalTotalLength
  | .returnChunk, _ => True
  | .insert length, state =>
      state.chunksBorrowedNum < maxNChunks ∧ state.chunksBorrowedNum ≠ 0 ∧
        length ≤ ops.headroom state.mbuf
  | .shrink length, state =>
      state.chunksBorrowedNum < maxNChunks ∧ state.chunksBorrowedNum ≠ 0 ∧
        state.chunksBorrowed (state.chunksBorrowedNum - 1) + length ≤
          state.data + state.globalReadLength

/-- Every operation of a run is allowed in the state in which it is executed. -/
def Permitted (ops : MbufOps μ) : List Operation → State μ → Prop
  | [], _ => True
  | operation :: operations, state =>
      Allowed ops operation state ∧
        ∀ state', exec ops operation state = some state' → Permitted ops operations state'

instance (ops : MbufOps μ) (operation : Operation) (state : State μ) :
    Decidable (Allowed ops operation state) :=
  match operation with
  | .borrow _ => inferInstanceAs (Decidable (_ ∧ _))
  | .returnChunk => inferInstanceAs (Decidable True)
  | .insert _ => inferInstanceAs (Decidable (_ ∧ _ ∧ _))
  | .shrink _ => inferInstanceAs (Decidable (_ ∧ _ ∧ _))

theorem permitted_cons_iff
    (ops : MbufOps μ)
    (operation : Operation)
    (operations : List Operation)
    (state : State μ) :
    Permitted ops (operation :: operations) state ↔
      Allowed ops operation state ∧
        (exec ops operation state).elim True (Permitted ops operations) := by
  unfold Permitted
  apply and_congr_right
  intro _
  cases exec ops operation state with
  | none => simp
  | some state' => simp

instance decidablePermitted (ops : MbufOps μ) :
    (operations : List Operation) → (state : State μ) →
      Decidable (Permitted ops operations state)
  | [], _ => isTrue trivial
  | operation :: operations, state =>
      have : Decidable ((exec ops operation state).elim True (Permitted ops operations)) :=
        match exec ops operation state with
        | none => isTrue trivial
        | some state' => decidablePermitted ops operations state'
      decidable_of_iff _ (permitted_cons_iff ops operation operations state).symm

/-- A packet that was just received: no chunk is borrowed. -/
structure Received (ops : MbufOps μ) (state : State μ) : Prop where
  start : state.data = ops.mtod state.mbuf
  total : state.globalTotalLength = ops.pktLen state.mbuf
  read : state.globalReadLength = 0
  num : state.chunksBorrowedNum = 0

/-! ## The view of a packet -/

/-- The contents of the chunks, from the start of the packet on, and the rest of
it. -/
structure View where
  chunks : List (List UInt8)
  unread : List UInt8
  deriving DecidableEq, Repr

/-- All bytes of the packet. -/
def View.bytes (view : View) : List UInt8 :=
  view.chunks.flatten ++ view.unread

/-- What an operation has to do. -/
inductive View.Step : Operation → View → View → Prop
  | borrow
      (chunks : List (List UInt8))
      (chunk unread : List UInt8) :
      Step (.borrow chunk.length) ⟨chunks, chunk ++ unread⟩
        ⟨chunks ++ [chunk], unread⟩
  | returnNone (unread : List UInt8) :
    Step .returnChunk ⟨[], unread⟩ ⟨[], unread⟩
  | returnLast
      (chunks : List (List UInt8))
      (chunk unread : List UInt8) :
      Step .returnChunk ⟨chunks ++ [chunk], unread⟩ ⟨chunks, chunk ++ unread⟩
  | insert
      (chunks : List (List UInt8))
      (new unread : List UInt8) :
      Step (.insert new.length) ⟨chunks, unread⟩ ⟨chunks ++ [new], unread⟩
  | shrink
      (chunks : List (List UInt8))
      (kept removed unread : List UInt8) :
      Step (.shrink kept.length) ⟨chunks ++ [kept ++ removed], unread⟩
        ⟨chunks ++ [kept], unread⟩

/-- The packet in memory and the global variables are those of the view.  The
chunks lie one after the other, from the start of the packet to what was
read. -/
structure InStep (ops : MbufOps μ) (state : State μ) (view : View) : Prop where
  start : state.data = ops.mtod state.mbuf
  length : ops.pktLen state.mbuf = view.bytes.length
  contents : cells state.memory state.data view.bytes.length = view.bytes
  total : state.globalTotalLength = view.bytes.length
  read : state.globalReadLength = view.chunks.flatten.length
  num : state.chunksBorrowedNum = view.chunks.length
  contiguous : ∀ i < view.chunks.length,
    state.chunksBorrowed i = state.data + (view.chunks.take i).flatten.length

/-- The memory that an operation leaves as it is: all of it, or what lies before
the packet or is not read. -/
def Frame
    (operation : Operation)
    (state state' : State μ) : Prop :=
  match operation with
  | .borrow _ | .returnChunk => state'.memory = state.memory
  | .insert _ | .shrink _ =>
      ∀ address,
        address < min state.data state'.data ∨
            state.data + state.globalReadLength ≤ address →
          state'.memory address = state.memory address

/-! ## Machine numbers -/

section

variable {value : ℤ}
  {number : ℕ}
  (equal : value = number)

include equal

theorem toSizeT_eq
    (bounded : number < 2 ^ 64) :
    toSizeT value = number := by
  unfold toSizeT
  omega

theorem toUint32_eq
    (bounded : number < 2 ^ 32) :
    toUint32 value = number := by
  unfold toUint32
  omega

theorem toUint16_eq
    (bounded : number < 2 ^ 16) :
    toUint16 value = number := by
  unfold toUint16
  omega

end

/-! ## The functions that move bytes -/

section MovingFunctions

variable
  {ops : MbufOps μ}
  {state : State μ}
  {mbuf : μ}
  {length : ℕ}

/-- All that was read is moved down, and the assertion on the first chunk
holds. -/
theorem packetInsertNewChunk_of_prepend
    (small : length < 2 ^ 16)
    (nonempty : state.chunksBorrowedNum ≠ 0)
    (firstStart : state.chunksBorrowed 0 = state.data)
    (prepended : ops.prepend state.mbuf length = some (ops.mtod mbuf, mbuf))
    (newStart : ops.mtod mbuf + length = state.data) :
    packetInsertNewChunk ops length state = some { state with
      memory := moveDown length state.globalReadLength (ops.mtod mbuf) state.memory
      mbuf := mbuf
      data := ops.mtod mbuf
      globalReadLength := toSizeT (state.globalReadLength + length)
      globalTotalLength := toSizeT (state.globalTotalLength + length)
      chunksBorrowed := update
        (rebase state.chunksBorrowedNum (-length) state.chunksBorrowed)
        state.chunksBorrowedNum (ops.mtod mbuf + state.globalReadLength)
      chunksBorrowedNum := state.chunksBorrowedNum + 1 } := by
  have rounds : (state.data + state.globalReadLength -
      (ops.mtod mbuf + length)).toNat = state.globalReadLength := by
    omega
  have asserted : rebase state.chunksBorrowedNum (-length) state.chunksBorrowed 0 =
      ops.mtod mbuf := by
    rw [rebase, if_pos (Nat.pos_of_ne_zero nonempty), firstStart]
    omega
  unfold packetInsertNewChunk
  dsimp only
  rw [toUint16_eq rfl small, prepended]
  dsimp only
  rw [if_neg (not_not.mpr asserted), rounds]

theorem packetShrinkChunk_of_adj
    (small : length + offset < 2 ^ 16)
    (positive : offset ≠ 0)
    (lastLimit : state.chunksBorrowed (state.chunksBorrowedNum - 1) +
      (length + offset : ℕ) = state.data + state.globalReadLength)
    (adjusted : ops.adj state.mbuf offset = some (ops.mtod mbuf, mbuf)) :
    packetShrinkChunk ops length state = some { state with
      memory := moveUp offset (state.globalReadLength - offset)
        (state.data + state.globalReadLength - 1) state.memory
      mbuf := mbuf
      data := ops.mtod mbuf
      globalReadLength := toSizeT (state.globalReadLength - offset)
      globalTotalLength := toSizeT (state.globalTotalLength - offset)
      chunksBorrowed := rebase state.chunksBorrowedNum offset state.chunksBorrowed } := by
  have lastLength : packetGetChunkLength state.data
      (state.chunksBorrowed (state.chunksBorrowedNum - 1)) state = length + offset :=
    toUint32_eq (by omega) (by omega)
  have rounds : (state.data + state.globalReadLength - (state.data + offset)).toNat =
      state.globalReadLength - offset := by
    omega
  unfold packetShrinkChunk
  dsimp only
  rw [lastLength, if_neg (by omega), Nat.add_sub_cancel_left, if_neg positive,
    toUint16_eq rfl (by omega), adjusted, lastLimit, rounds]

theorem packetShrinkChunk_self
    (small : length < 2 ^ 16)
    (lastLimit : state.chunksBorrowed (state.chunksBorrowedNum - 1) + length =
      state.data + state.globalReadLength) :
    packetShrinkChunk ops length state = some state := by
  have lastLength : packetGetChunkLength state.data
      (state.chunksBorrowed (state.chunksBorrowedNum - 1)) state = length :=
    toUint32_eq (by omega) (by omega)
  unfold packetShrinkChunk
  dsimp only
  rw [lastLength, if_neg (Nat.lt_irrefl length), if_pos (Nat.sub_self length)]

end MovingFunctions

/-! ## Views -/

namespace View

theorem bytes_concat
    (chunks : List (List UInt8))
    (chunk unread : List UInt8) :
    (⟨chunks ++ [chunk], unread⟩ : View).bytes =
      chunks.flatten ++ (chunk ++ unread) := by
  unfold bytes
  rw [List.flatten_append, List.flatten_singleton, List.append_assoc]

theorem bytes_border
    (chunks : List (List UInt8))
    (chunk unread : List UInt8) :
    (⟨chunks ++ [chunk], unread⟩ : View).bytes =
      (⟨chunks, chunk ++ unread⟩ : View).bytes :=
  bytes_concat chunks chunk unread

end View

namespace InStep

variable {ops : MbufOps μ} {state : State μ}

theorem received (received : Received ops state) :
    InStep ops state
      ⟨[], cells state.memory state.data (ops.pktLen state.mbuf)⟩ where
  start := received.start
  length := by simp [View.bytes]
  contents := by simp [View.bytes]
  total := by simp [View.bytes, received.total]
  read := by simp [received.read]
  num := by simp [received.num]
  contiguous := by simp

theorem length_bytes_lt
    {view : View}
    (inStep : InStep ops state view) :
    view.bytes.length < 2 ^ 16 := by
  have bounded := ops.bounded state.mbuf
  have length := inStep.length
  omega

variable {chunks : List (List UInt8)}

theorem contiguous_concat
    {starts : ℕ → ℤ}
    (contiguous : ∀ i < chunks.length,
      starts i = data + (chunks.take i).flatten.length)
    (last : starts chunks.length = data + chunks.flatten.length) :
    ∀ i < (chunks ++ [chunk]).length,
      starts i = data + ((chunks ++ [chunk]).take i).flatten.length := by
  intro i inside
  rw [List.length_append, List.length_singleton] at inside
  rcases Nat.lt_succ_iff_lt_or_eq.mp inside with earlier | rfl
  · rw [List.take_append_of_le_length earlier.le]
    exact contiguous i earlier
  · rw [List.take_left']
    · exact last
    · rfl

theorem contiguous_init
    {starts : ℕ → ℤ}
    (contiguous : ∀ i < (chunks ++ [chunk]).length,
      starts i = data + ((chunks ++ [chunk]).take i).flatten.length) :
    (∀ i < chunks.length, starts i = data + (chunks.take i).flatten.length) ∧
      starts chunks.length = data + chunks.flatten.length := by
  constructor
  · intro i inside
    rw [contiguous i (by rw [List.length_append]; omega), List.take_append_of_le_length inside.le]
  · rw [contiguous chunks.length (by simp), List.take_left' rfl]

theorem borrow
    (inStep : InStep ops state ⟨chunks, chunk ++ unread⟩)
    (notFull : state.chunksBorrowedNum < maxNChunks) :
    ∃ state', exec ops (.borrow chunk.length) state = some state' ∧
      InStep ops state' ⟨chunks ++ [chunk], unread⟩ ∧
        state'.memory = state.memory := by
  have small := inStep.length_bytes_lt
  have number := inStep.num
  have reading := inStep.read
  have sameBytes := View.bytes_border chunks chunk unread
  simp only [View.bytes, List.length_append] at small
  rw [exec, nfBorrowNextChunk_of_lt notFull, Option.map_some]
  refine ⟨_, rfl, ?_, rfl⟩
  constructor
  · exact inStep.start
  · rw [sameBytes]
    exact inStep.length
  · rw [sameBytes]
    exact inStep.contents
  · rw [sameBytes]
    exact inStep.total
  · dsimp only
    apply toSizeT_eq
    · simp [inStep.read]
    · simp only [List.flatten_append, List.length_append, List.flatten_singleton]
      omega
  · simp [number]
  · apply contiguous_concat
    · intro i inside
      dsimp only at number inside ⊢
      rw [update_of_ne (by omega)]
      exact inStep.contiguous i inside
    · dsimp only at number reading ⊢
      rw [number, update_self, reading]

theorem returnChunk
    {view : View}
    (inStep : InStep ops state view) :
    ∃ view', InStep ops (nfReturnChunk state) view' ∧
      View.Step .returnChunk view view' ∧
      (nfReturnChunk state).memory = state.memory := by
  obtain ⟨chunks, unread⟩ := view
  have small := inStep.length_bytes_lt
  have number := inStep.num
  rcases List.eq_nil_or_concat chunks with rfl | ⟨chunks, chunk, rfl⟩
  · have same : nfReturnChunk state = state := by
      rw [nfReturnChunk, if_neg (by simp [number])]
    rw [same]
    exact ⟨_, inStep, .returnNone unread, rfl⟩
  · rw [List.concat_eq_append] at inStep number small
    dsimp only at number
    rw [List.length_append, List.length_singleton] at number
    have lastStart := contiguous_init inStep.contiguous
    have sameBytes := View.bytes_border chunks chunk unread
    refine ⟨_, ?_, by rw [List.concat_eq_append]; exact .returnLast chunks chunk unread, ?_⟩
    · rw [nfReturnChunk, if_pos (by omega), number, Nat.add_sub_cancel]
      constructor
      · exact inStep.start
      · rw [← sameBytes]
        exact inStep.length
      · rw [← sameBytes]
        exact inStep.contents
      · rw [← sameBytes]
        exact inStep.total
      · apply toUint32_eq
        · rw [lastStart.2]
          ring
        · simp only [View.bytes, List.flatten_append, List.length_append] at small
          dsimp only
          omega
      · rfl
      · exact lastStart.1
    · rw [nfReturnChunk, if_pos (by omega)]
      rfl

theorem insert
    (inStep : InStep ops state ⟨chunks, unread⟩)
    {length : ℕ}
    (notFull : state.chunksBorrowedNum < maxNChunks)
    (nonempty : state.chunksBorrowedNum ≠ 0)
    (room : length ≤ ops.headroom state.mbuf) :
    ∃ state' new, exec ops (.insert length) state = some state' ∧
      new.length = length ∧ InStep ops state' ⟨chunks ++ [new], unread⟩ ∧
      Frame (.insert length) state state' := by
  have bounded := ops.bounded state.mbuf
  have start := inStep.start
  have isLength := inStep.length
  have reading := inStep.read
  have number := inStep.num
  have contents := inStep.contents
  obtain ⟨mbuf, prepended, newStart, newLength, newRoom⟩ :=
    ops.prepend_of_le state.mbuf length room
  rw [View.bytes] at contents
  rw [View.bytes, List.length_append] at isLength
  obtain ⟨before, after⟩ := cells_eq_append_iff.mp contents
  dsimp only at reading number before after isLength
  have firstStart : state.chunksBorrowed 0 = state.data := by
    have first := inStep.contiguous 0 (by dsimp only; omega)
    simpa using first
  have moved := moveDown_moves length state.globalReadLength (ops.mtod mbuf) state.memory
  rw [exec, nfInsertNewChunk, if_pos ⟨notFull, nonempty⟩,
    packetInsertNewChunk_of_prepend (by omega) nonempty firstStart prepended (by omega)]
  refine ⟨_, cells (moveDown length state.globalReadLength (ops.mtod mbuf) state.memory)
    (ops.mtod mbuf + state.globalReadLength) length, rfl, length_cells _ _ _, ?_, ?_⟩
  · constructor
    · rfl
    · simp only [View.bytes_concat, List.length_append, length_cells]
      omega
    · rw [View.bytes_concat, cells_eq_append_iff, cells_eq_append_iff]
      dsimp only
      refine ⟨?_, ?_, ?_⟩
      · exact (moved.cells_eq (le_refl _) (by omega) (by omega)).trans before
      · rw [length_cells, reading]
      · have sameStart : ops.mtod mbuf + chunks.flatten.length + length =
            state.data + chunks.flatten.length := by
          omega
        rw [length_cells, sameStart, moved.cells_after _ (by omega)]
        exact after
    · dsimp only
      rw [View.bytes_concat, List.length_append, List.length_append, length_cells]
      apply toSizeT_eq
      · rw [inStep.total, View.bytes, List.length_append]
        push_cast
        ring
      · omega
    · dsimp only
      rw [List.flatten_append, List.flatten_singleton, List.length_append, length_cells]
      apply toSizeT_eq
      · rw [reading]
        push_cast
        rfl
      · omega
    · simp [number]
    · apply contiguous_concat
      · intro i inside
        dsimp only
        rw [update_of_ne (by omega), rebase, if_pos (by omega), inStep.contiguous i inside]
        dsimp only
        omega
      · dsimp only
        rw [← number, update_self, reading]
  · intro address outside
    dsimp only at outside ⊢
    exact moved.outside (by omega)

theorem shrink
    (inStep : InStep ops state ⟨chunks ++ [kept ++ removed], unread⟩)
    (notFull : state.chunksBorrowedNum < maxNChunks) :
    ∃ state', exec ops (.shrink kept.length) state = some state' ∧
      InStep ops state' ⟨chunks ++ [kept], unread⟩ ∧
      Frame (.shrink kept.length) state state' := by
  have small := inStep.length_bytes_lt
  have isLength := inStep.length
  have totalLength := inStep.total
  have reading := inStep.read
  have number := inStep.num
  have start := inStep.start
  have contents := inStep.contents
  have lastStart := contiguous_init inStep.contiguous
  rw [View.bytes_concat] at contents
  rw [View.bytes_concat, List.length_append, List.length_append, List.length_append]
    at small isLength totalLength
  obtain ⟨before, rest⟩ := cells_eq_append_iff.mp contents
  rw [List.append_assoc] at rest
  obtain ⟨inKept, rest⟩ := cells_eq_append_iff.mp rest
  obtain ⟨_, after⟩ := cells_eq_append_iff.mp rest
  dsimp only at reading number
  rw [List.flatten_append, List.flatten_singleton, List.length_append, List.length_append]
    at reading
  rw [List.length_append, List.length_singleton] at number
  have lastLimit : state.chunksBorrowed (state.chunksBorrowedNum - 1) +
      (kept.length + removed.length : ℕ) = state.data + state.globalReadLength := by
    rw [number, Nat.add_sub_cancel, lastStart.2]
    omega
  rw [exec, nfShrinkChunk, if_pos ⟨notFull, by omega⟩]
  by_cases nothing : removed.length = 0
  · obtain rfl := List.eq_nil_of_length_eq_zero nothing
    rw [List.append_nil] at inStep
    exact ⟨state, packetShrinkChunk_self (by omega) lastLimit, inStep, fun _ _ => rfl⟩
  obtain ⟨mbuf, adjusted, newStart, newLength, _⟩ :=
    ops.adj_of_le state.mbuf removed.length (by omega)
  have moved : Moves (state.data + removed.length) (state.data + state.globalReadLength)
      (-removed.length) state.memory
      (moveUp removed.length (state.globalReadLength - removed.length)
        (state.data + state.globalReadLength - 1) state.memory) := by
    convert moveUp_moves removed.length (state.globalReadLength - removed.length) _ state.memory
      using 1 <;> omega
  rw [packetShrinkChunk_of_adj (by omega) nothing lastLimit adjusted]
  refine ⟨_, rfl, ?_, ?_⟩
  · constructor
    · rfl
    · rw [View.bytes_concat, List.length_append, List.length_append]
      dsimp only
      omega
    · rw [View.bytes_concat, cells_eq_append_iff, cells_eq_append_iff]
      dsimp only
      refine ⟨?_, ?_, ?_⟩
      · exact (moved.cells_eq (by omega) (by omega) (by omega)).trans before
      · exact (moved.cells_eq (by omega) (by omega) (by omega)).trans inKept
      · have sameStart : ops.mtod mbuf + chunks.flatten.length + kept.length =
            state.data + chunks.flatten.length + kept.length + removed.length := by
          omega
        rw [sameStart, moved.cells_after _ (by omega)]
        exact after
    · dsimp only
      rw [View.bytes_concat, List.length_append, List.length_append]
      apply toSizeT_eq
      · rw [totalLength]
        push_cast
        ring
      · omega
    · dsimp only
      rw [List.flatten_append, List.flatten_singleton, List.length_append]
      apply toSizeT_eq
      · rw [reading]
        push_cast
        ring
      · omega
    · simp [number]
    · apply contiguous_concat
      · intro i inside
        dsimp only
        rw [rebase, if_pos (by omega), lastStart.1 i inside]
        omega
      · dsimp only
        rw [rebase, if_pos (by omega), lastStart.2]
        omega
  · intro address outside
    dsimp only at outside ⊢
    exact moved.outside (by omega)

theorem step
    (inStep : InStep ops state view)
    {operation : Operation}
    (allowed : Allowed ops operation state) :
    ∃ state' view',
      exec ops operation state = some state' ∧ InStep ops state' view' ∧
      View.Step operation view view' ∧ Frame operation state state' := by
  obtain ⟨chunks, unread⟩ := view
  have totalLength := inStep.total
  have reading := inStep.read
  have number := inStep.num
  dsimp only at reading number
  rw [View.bytes, List.length_append] at totalLength
  dsimp only at totalLength
  cases operation with
  | borrow length =>
      obtain ⟨notFull, within⟩ := allowed
      have isLength : (unread.take length).length = length := List.length_take_of_le (by omega)
      rw [← List.take_append_drop length unread] at inStep ⊢
      obtain ⟨state', executed, next, frame⟩ := inStep.borrow notFull
      rw [isLength] at executed
      refine ⟨state', _, executed, next, ?_, frame⟩
      have does := View.Step.borrow chunks (unread.take length) (unread.drop length)
      rw [isLength] at does
      exact does
  | returnChunk =>
      obtain ⟨view', next, does, frame⟩ := inStep.returnChunk
      exact ⟨_, view', rfl, next, does, frame⟩
  | insert length =>
      obtain ⟨notFull, nonempty, room⟩ := allowed
      obtain ⟨state', new, executed, rfl, next, frame⟩ :=
        inStep.insert notFull nonempty room
      exact ⟨state', _, executed, next, .insert chunks new unread, frame⟩
  | shrink length =>
      obtain ⟨notFull, nonempty, within⟩ := allowed
      rcases List.eq_nil_or_concat chunks with rfl | ⟨chunks, last, rfl⟩
      · exact absurd number nonempty
      rw [List.concat_eq_append] at inStep reading number ⊢
      have lastStart := (contiguous_init inStep.contiguous).2
      rw [List.length_append, List.length_singleton] at number
      rw [List.flatten_append, List.flatten_singleton, List.length_append] at reading
      rw [number, Nat.add_sub_cancel, lastStart] at within
      have isLength : (last.take length).length = length := List.length_take_of_le (by omega)
      rw [← List.take_append_drop length last] at inStep ⊢
      obtain ⟨state', executed, next, frame⟩ := inStep.shrink notFull
      rw [isLength] at executed frame
      refine ⟨state', _, executed, next, ?_, frame⟩
      have does := View.Step.shrink chunks (last.take length) (last.drop length) unread
      rw [isLength] at does
      exact does

theorem returnAllChunks
    {view : View}
    (inStep : InStep ops state view) :
    (nfReturnAllChunks state).globalReadLength = 0 ∧
      (nfReturnAllChunks state).memory = state.memory := by
  unfold nfReturnAllChunks
  generalize count : state.chunksBorrowedNum = rounds
  induction rounds generalizing state view with
  | zero =>
      have empty : view.chunks = [] := List.eq_nil_of_length_eq_zero (inStep.num.symm.trans count)
      rw [iterate_zero_apply, inStep.read, empty]
      exact ⟨rfl, rfl⟩
  | succ rounds ih =>
      obtain ⟨view', next, _, sameMemory⟩ := inStep.returnChunk
      have fewer : (nfReturnChunk state).chunksBorrowedNum = rounds := by
        rw [nfReturnChunk, if_pos (by omega)]
        dsimp only
        omega
      rw [iterate_succ_apply, ← sameMemory]
      exact ih next fewer

end InStep

/-! ## Runs -/

/-- What holds when an operation is executed in a run: the packet is in step
before and after it, and the operation did what it has to do. -/
def StaysInStep
    (ops : MbufOps μ)
    (operation : Operation)
    (state state' : State μ) : Prop :=
  ∃ view view', InStep ops state view ∧ InStep ops state' view' ∧
    View.Step operation view view' ∧ Frame operation state state'

/-- A run of allowed operations stays in step. -/
theorem InStep.run
    {ops : MbufOps μ}
    {operations : List Operation}
    {state : State μ}
    {view : View}
    (inStep : InStep ops state view)
    (permitted : Permitted ops operations state) :
    ∃ final finalView, PacketIo.run ops operations state = some final ∧
      InStep ops final finalView ∧
      ∀ before operation after, operations = before ++ operation :: after →
        ∃ earlier later, PacketIo.run ops before state = some earlier ∧
          exec ops operation earlier = some later ∧
          StaysInStep ops operation earlier later := by
  induction operations generalizing state view with
  | nil =>
      refine ⟨state, view, rfl, inStep, ?_⟩
      intro before operation after split
      exact absurd split.symm (by simp)
  | cons first operations ih =>
      obtain ⟨allowed, permitted⟩ := permitted
      obtain ⟨state', view', executed, next, does, frame⟩ := inStep.step allowed
      obtain ⟨final, finalView, returned, finalInStep, steps⟩ :=
        ih next (permitted state' executed)
      refine ⟨final, finalView, ?_, finalInStep, ?_⟩
      · rw [run_cons, executed]
        exact returned
      intro before operation after split
      cases before with
      | nil =>
          obtain ⟨rfl, rfl⟩ := List.cons.inj split
          exact ⟨state, state', rfl, executed, view, view', inStep, next, does, frame⟩
      | cons other before =>
          obtain ⟨rfl, rest⟩ := List.cons.inj split
          obtain ⟨earlier, later, reached, stepped, stays⟩ := steps before operation after rest
          refine ⟨earlier, later, ?_, stepped, stays⟩
          rw [run_cons, executed]
          exact reached

/-- For every received packet and every sequence of allowed operations no
assertion fails, the chunks and the bytes of the packet are in step before and
after every operation, every operation does to the bytes what it has to do and
nothing else, and returning all chunks at the end sets the length that was read
to zero. -/
theorem chunks_stay_in_step
    (ops : MbufOps μ)
    (state : State μ)
    (received : Received ops state)
    (operations : List Operation)
    (permitted : Permitted ops operations state) :
    ∃ final finalView, run ops operations state = some final ∧
      InStep ops final finalView ∧
      (∀ before operation after, operations = before ++ operation :: after →
        ∃ earlier later, run ops before state = some earlier ∧
          exec ops operation earlier = some later ∧
          StaysInStep ops operation earlier later) ∧
      (nfReturnAllChunks final).globalReadLength = 0 ∧
      (nfReturnAllChunks final).memory = final.memory := by
  obtain ⟨final, finalView, returned, inStep, steps⟩ :=
    (InStep.received received).run permitted
  exact ⟨final, finalView, returned, inStep, steps, inStep.returnAllChunks⟩

/-- A buffer of one segment. -/
structure Segment where
  bufAddr : ℤ
  dataOff : ℕ
  dataLen : ℕ
  fits : dataOff + dataLen < 2 ^ 16

/-- The segment with its start moved down. -/
def Segment.grow
    (segment : Segment)
    (length : ℕ)
    (within : length ≤ segment.dataOff) :
    Segment :=
  ⟨segment.bufAddr, segment.dataOff - length, segment.dataLen + length, by
    have fits := segment.fits
    omega⟩

/-- The segment with its start moved up. -/
def Segment.cut
    (segment : Segment)
    (length : ℕ)
    (within : length ≤ segment.dataLen) :
    Segment :=
  ⟨segment.bufAddr, segment.dataOff + length, segment.dataLen - length, by
    have fits := segment.fits
    omega⟩

/-- The start of a segment is moved by changing its offset. -/
def segmentOps : MbufOps Segment where
  mtod segment := segment.bufAddr + segment.dataOff
  pktLen segment := segment.dataLen
  headroom segment := segment.dataOff
  prepend segment length :=
    if within : length ≤ segment.dataOff then
      some (segment.bufAddr + (segment.dataOff - length : ℕ), segment.grow length within)
    else none
  adj segment length :=
    if within : length ≤ segment.dataLen then
      some (segment.bufAddr + (segment.dataOff + length : ℕ), segment.cut length within)
    else none
  bounded segment := segment.fits
  prepend_of_le segment length within := by
    rw [dif_pos within]
    refine ⟨segment.grow length within, rfl, ?_, rfl, ?_⟩
    · unfold Segment.grow
      dsimp only
      omega
    · unfold Segment.grow
      dsimp only
      omega
  adj_of_le segment length within := by
    rw [dif_pos within]
    refine ⟨segment.cut length within, rfl, ?_, ?_, rfl⟩
    · unfold Segment.cut
      dsimp only
      omega
    · unfold Segment.cut
      dsimp only
      omega

/-- Two headers are borrowed, four bytes are inserted after them and cut down to
two, and the inserted chunk is returned. -/
theorem chunks_stay_in_step_example :
    let state : State Segment :=
      ⟨fun address => .ofNat address.toNat, ⟨1000, 128, 60, by decide⟩, 1128, 60, 0,
        fun _ => 0, 0⟩
    let operations : List Operation :=
      [.borrow 14, .borrow 20, .insert 4, .shrink 2, .returnChunk]
    ∃ final finalView, run segmentOps operations state = some final ∧
      InStep segmentOps final finalView ∧ final.globalTotalLength = 62 ∧
      (nfReturnAllChunks final).globalReadLength = 0 := by
  intro state operations
  have received : Received segmentOps state := ⟨by decide, by decide, rfl, rfl⟩
  have permitted : Permitted segmentOps operations state := by decide
  obtain ⟨final, finalView, returned, inStep, _, allReturned, _⟩ :=
    chunks_stay_in_step segmentOps state received operations permitted
  have computed : (run segmentOps operations state).map State.globalTotalLength =
      some 62 := by
    decide
  rw [returned] at computed
  exact ⟨final, finalView, returned, inStep, Option.some.inj computed, allReturned⟩

end PacketIo
end Vigor
