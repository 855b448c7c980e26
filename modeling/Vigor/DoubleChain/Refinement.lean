import Vigor.DoubleChain.Encoding
import Vigor.Library.Transcript

/-!
# Runs of the double chain refine the abstract allocator

Calls of the five cell operations, their replies, and the statement that every
run from initialisation gives the replies of the abstract allocator and ends
in cells that encode it.
-/

namespace Vigor
namespace DoubleChain

open LinkedRing

/-- A call of one of the operations on the cells. -/
inductive Call
  | allocateNewIndex
  | freeIndex (index : ℤ)
  | rejuvenateIndex (index : ℤ)
  | getOldestIndex
  | isIndexAllocated (index : ℤ)
  deriving DecidableEq, Repr

/-- What a call returns: an index or nothing, or a return code. -/
inductive Reply
  | index (result : Option ℤ)
  | code (result : Bool)
  deriving DecidableEq, Repr

/-- The reply stands for the return code 0. -/
def Reply.isZero : Reply → Bool
  | .index result => result.isNone
  | .code result => !result

namespace Call

/-- The index of the call, if it has one, lies in the range. -/
def InRange (range : Nat) : Call → Prop
  | .freeIndex index | .rejuvenateIndex index | .isIndexAllocated index =>
      0 ≤ index ∧ index < range
  | .allocateNewIndex | .getOldestIndex => True

/-- The call as the code executes it. -/
def exec
    (call : Call)
    (cells : Cells) : Reply × Cells :=
  match call with
  | .allocateNewIndex =>
      let (result, cells) := dchainImplAllocateNewIndex cells
      (.index result, cells)
  | .freeIndex index =>
      let (result, cells) := dchainImplFreeIndex cells index
      (.code result, cells)
  | .rejuvenateIndex index =>
      let (result, cells) := dchainImplRejuvenateIndex cells index
      (.code result, cells)
  | .getOldestIndex => (.index (dchainImplGetOldestIndex cells), cells)
  | .isIndexAllocated index =>
      (.code (dchainImplIsIndexAllocated cells index), cells)

/-- The call on the abstract allocator. -/
def spec
    {range : Nat}
    (call : Call)
    (allocator : Allocator range) :
    Reply × Allocator range :=
  match call with
  | .allocateNewIndex =>
      let (result, allocator) := allocator.allocateNewIndex
      (.index result, allocator)
  | .freeIndex index =>
      let (result, allocator) := allocator.freeIndex index
      (.code result, allocator)
  | .rejuvenateIndex index =>
      let (result, allocator) := allocator.rejuvenateIndex index
      (.code result, allocator)
  | .getOldestIndex => (.index allocator.getOldestIndex, allocator)
  | .isIndexAllocated index =>
      (.code (allocator.isIndexAllocated index), allocator)

end Call

variable {range : Nat} {cells : Cells} {allocator : Allocator range}

/-- One call keeps the encoding and gives the abstract reply. -/
theorem Encodes.exec
    (encodes : Encodes cells allocator)
    {call : Call}
    (inRange : call.InRange range) :
    (call.exec cells).1 = (call.spec allocator).1 ∧
      Encodes (call.exec cells).2 (call.spec allocator).2 := by
  cases call with
  | allocateNewIndex =>
      obtain ⟨reply, kept⟩ := encodes.allocateNewIndex
      exact ⟨congrArg Reply.index reply, kept⟩
  | freeIndex index =>
      obtain ⟨reply, kept⟩ := encodes.freeIndex inRange.1 inRange.2
      exact ⟨congrArg Reply.code reply, kept⟩
  | rejuvenateIndex index =>
      obtain ⟨reply, kept⟩ := encodes.rejuvenateIndex inRange.1 inRange.2
      exact ⟨congrArg Reply.code reply, kept⟩
  | getOldestIndex => exact ⟨congrArg Reply.index encodes.getOldestIndex, encodes⟩
  | isIndexAllocated index =>
      exact ⟨congrArg Reply.code (encodes.isIndexAllocated inRange.1 inRange.2), encodes⟩

theorem Encodes.exec_of_isZero
    (encodes : Encodes cells allocator)
    {call : Call}
    (inRange : call.InRange range)
    (failed : (call.exec cells).1.isZero = true) :
    (call.exec cells).2 = cells := by
  cases call with
  | allocateNewIndex =>
      cases shape : allocator.free with
      | nil => simp [Call.exec, encodes.allocateNewIndex_of_full shape]
      | cons index rest =>
          have reply := (encodes.allocateNewIndex_of_available shape).1
          simp [Call.exec, reply, Reply.isZero] at failed
  | freeIndex index =>
      by_cases allocated : index ∈ allocator.alloc
      · have reply := (encodes.freeIndex_of_allocated allocated).1
        simp [Call.exec, reply, Reply.isZero] at failed
      · simp [Call.exec, encodes.freeIndex_of_not_allocated inRange.1 inRange.2 allocated]
  | rejuvenateIndex index =>
      by_cases allocated : index ∈ allocator.alloc
      · have reply := (encodes.rejuvenateIndex_of_allocated allocated).1
        simp [Call.exec, reply, Reply.isZero] at failed
      · simp [Call.exec, encodes.rejuvenateIndex_of_not_allocated inRange.1 inRange.2 allocated]
  | getOldestIndex => rfl
  | isIndexAllocated index => rfl

/-- Every run of calls in range, from initialised cells, replies as the
abstract allocator does and leaves cells that encode it: a doubly linked ring
of the allocated indexes and a singly linked stack of the free ones, which
together hold every index exactly once.  A further call that returns 0 writes
no cell. -/
theorem dchainImpl_refines_allocator
    (memory : Cells)
    {range : Nat}
    (positive : 0 < range)
    (calls : List Call)
    (inRange : ∀ call ∈ calls, call.InRange range) :
    let outcome := Transcript.run Call.exec calls (dchainImplInit memory range)
    let abstract := Transcript.run Call.spec calls (Allocator.initial range)
    outcome.1 = abstract.1 ∧ Encodes outcome.2 abstract.2 ∧
      ∀ call : Call, call.InRange range →
        (call.exec outcome.2).1.isZero = true →
          (call.exec outcome.2).2 = outcome.2 := by
  intro outcome abstract
  have step : ∀ (call : Call) (cells : Cells) (allocator : Allocator range),
      Encodes cells allocator → call.InRange range →
        (call.exec cells).1 = (call.spec allocator).1 ∧
          Encodes (call.exec cells).2 (call.spec allocator).2 :=
    fun _ _ _ encodes inRange => encodes.exec inRange
  obtain ⟨sameReplies, encodes⟩ := Transcript.run_refines _ step
    (Encodes.init memory positive)
    (Transcript.permitted_of_forall (fun call member _ => inRange call member)
      (Allocator.initial range))
  exact ⟨sameReplies, encodes,
    fun _ inRange failed => encodes.exec_of_isZero inRange failed⟩

/-- Two indexes: allocate both, age one, free the other. -/
theorem dchainImpl_refines_allocator_two :
    let calls := [Call.allocateNewIndex, .allocateNewIndex, .rejuvenateIndex 0,
      .freeIndex 1, .allocateNewIndex]
    let outcome := Transcript.run Call.exec calls
      (dchainImplInit (fun _ => ⟨0, 0⟩) 2)
    outcome.1 = [.index (some 0), .index (some 1), .code true, .code true,
      .index (some 1)] ∧
      Encodes outcome.2
        (Transcript.run Call.spec calls (Allocator.initial 2)).2 := by
  have inRange : ∀ call ∈ [Call.allocateNewIndex, .allocateNewIndex,
      .rejuvenateIndex 0, .freeIndex 1, .allocateNewIndex],
      call.InRange 2 := by
    simp [Call.InRange]
  obtain ⟨_, encodes, _⟩ := dchainImpl_refines_allocator
    (fun _ => ⟨0, 0⟩) (by decide : 0 < 2) _ inRange
  exact ⟨by decide, encodes⟩

end DoubleChain
end Vigor
