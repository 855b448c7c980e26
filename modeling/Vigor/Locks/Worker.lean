import Mathlib.Logic.Function.Basic
import Mathlib.Algebra.Group.Int.Defs
import Mathlib.Algebra.Group.Nat.Defs

/-!
# The worker of the lock-based build

`worker_main` of `boilerplate/locks.c` processes a packet in read mode first.
If a data structure then wanted to write, the packet is processed again under
the write lock.  The second call of `nf_process` declares a new variable
`dst_device` inside the `if`, so that its verdict is lost: the packet is always
treated as the read-mode call said.

The network function is arbitrary.  Other cores may change the shared state
while the core waits for its token and while it waits for the write lock.
-/

namespace Vigor
namespace Worker

variable {μ : Type u} {σ : Type v}

/-- The per-core flags `write_attempt` and `write_state`. -/
structure Flags where
  writeAttempt : Bool
  writeState : Bool
  deriving DecidableEq, Repr

/-- `nf_process`, as a function of the buffer, the time, the flags and the state
that it reads and writes, which includes the bytes of the packet. -/
abbrev NfProcess (μ : Type u) (σ : Type v) :=
  μ → ℤ → Flags → σ → ℤ × Flags × σ

/-- A received buffer, the time, and what other cores do to the state while this
core waits for its token and for the write lock. -/
structure Arrival (μ : Type u) (σ : Type v) where
  mbuf : μ
  now : ℤ
  beforeRead : σ → σ
  beforeWrite : σ → σ

/-- Conversion to `uint16_t`. -/
def toUint16 (value : ℤ) : ℕ :=
  (value % 2 ^ 16).toNat

/-- `FLOOD_FRAME`. -/
def floodFrame : ℕ :=
  toUint16 (-1)

/-- What the worker does with a buffer. -/
inductive Disposition
  | free
  | flood
  | send
  deriving DecidableEq, Repr

/-- The decision after processing, from `dst_device`. -/
def disposition (vigorDevice dstDevice : ℕ) : Disposition :=
  if dstDevice = vigorDevice then .free
  else if dstDevice = floodFrame then .flood
  else .send

/-- Buffers that were freed, flooded and put into `mbufs_to_send`, and the
state. -/
structure Batch (μ : Type u) (σ : Type v) where
  freed : List μ
  flooded : List μ
  mbufsToSend : List μ
  state : σ

/-- Treat one buffer as decided. -/
def Batch.dispose
    (batch : Batch μ σ)
    (mbuf : μ) : Disposition → Batch μ σ
  | .free => { batch with freed := batch.freed ++ [mbuf] }
  | .flood => { batch with flooded := batch.flooded ++ [mbuf] }
  | .send => { batch with mbufsToSend := batch.mbufsToSend ++ [mbuf] }

/-- One round of the loop over a batch. -/
def processPacket
    (nfProcess : NfProcess μ σ)
    (vigorDevice : ℕ)
    (batch : Batch μ σ)
    (arrival : Arrival μ σ) : Batch μ σ :=
  let flags : Flags := { writeAttempt := false, writeState := false }
  let state := arrival.beforeRead batch.state
  let (verdict, flags, state) :=
    nfProcess arrival.mbuf arrival.now flags state
  let dstDevice := toUint16 verdict
  let state :=
    if flags.writeAttempt then
      let flags := { flags with writeState := true }
      let state := arrival.beforeWrite state
      -- The verdict of this call goes to an inner `dst_device`.
      let (_, _, state) := nfProcess arrival.mbuf arrival.now flags state
      state
    else state
  { batch with state := state }.dispose arrival.mbuf
    (disposition vigorDevice dstDevice)

/-- The loop over a batch. -/
def processBatch
    (nfProcess : NfProcess μ σ)
    (vigorDevice : ℕ)
    (arrivals : List (Arrival μ σ))
    (batch : Batch μ σ) : Batch μ σ :=
  arrivals.foldl (processPacket nfProcess vigorDevice) batch

/-! ## The authoritative verdict -/

/-- Result of the read-mode call. -/
def readMode
    (nfProcess : NfProcess μ σ)
    (arrival : Arrival μ σ)
    (state : σ) : ℤ × Flags × σ :=
  nfProcess arrival.mbuf arrival.now
    { writeAttempt := false, writeState := false } (arrival.beforeRead state)

/-- Result of the call under the write lock, if there is one. -/
def writeMode
    (nfProcess : NfProcess μ σ)
    (arrival : Arrival μ σ)
    (state : σ) : ℤ × Flags × σ :=
  let (_, flags, state) := readMode nfProcess arrival state
  nfProcess arrival.mbuf arrival.now { flags with writeState := true }
    (arrival.beforeWrite state)

/-- The packet is processed twice. -/
def isRepeated
    (nfProcess : NfProcess μ σ)
    (arrival : Arrival μ σ)
    (state : σ) : Bool :=
  (readMode nfProcess arrival state).2.1.writeAttempt

/-- Result of the last call of `nf_process` for the packet. -/
def lastCall
    (nfProcess : NfProcess μ σ)
    (arrival : Arrival μ σ)
    (state : σ) : ℤ × Flags × σ :=
  if isRepeated nfProcess arrival state then writeMode nfProcess arrival state
  else readMode nfProcess arrival state

variable {nfProcess : NfProcess μ σ} {arrival : Arrival μ σ}

theorem lastCall_of_once (once : isRepeated nfProcess arrival state = false) :
    lastCall nfProcess arrival state = readMode nfProcess arrival state := by
  simp [lastCall, once]

theorem lastCall_of_repeated
    (repeated : isRepeated nfProcess arrival state = true) :
    lastCall nfProcess arrival state = writeMode nfProcess arrival state := by
  simp [lastCall, repeated]

/-- The round in which the last verdict decides. -/
def processAuthoritatively
    (nfProcess : NfProcess μ σ)
    (vigorDevice : ℕ)
    (batch : Batch μ σ)
    (arrival : Arrival μ σ) : Batch μ σ :=
  let last := lastCall nfProcess arrival batch.state
  { batch with state := last.2.2 }.dispose arrival.mbuf
    (disposition vigorDevice (toUint16 last.1))

/-- The packet is processed once, or both verdicts ask for the same
treatment. -/
def VerdictsAgree
    (nfProcess : NfProcess μ σ)
    (vigorDevice : ℕ)
    (arrival : Arrival μ σ)
    (state : σ) : Prop :=
  isRepeated nfProcess arrival state = false ∨
    disposition vigorDevice (toUint16 (readMode nfProcess arrival state).1) =
      disposition vigorDevice (toUint16 (writeMode nfProcess arrival state).1)

instance
    (nfProcess : NfProcess μ σ)
    (vigorDevice : ℕ)
    (arrival : Arrival μ σ)
    (state : σ) :
    Decidable (VerdictsAgree nfProcess vigorDevice arrival state) :=
  inferInstanceAs (Decidable (_ ∨ _))

/-- Different treatments put the buffer in different places. -/
theorem Batch.dispose_injective
    (batch : Batch μ σ)
    (mbuf : μ) :
    Function.Injective (batch.dispose mbuf) := by
  intro first second same
  have freed := congrArg (fun batch => batch.freed.length) same
  have flooded := congrArg (fun batch => batch.flooded.length) same
  cases first <;> cases second <;> simp [dispose] at freed flooded ⊢

theorem processPacket_eq
    (nfProcess : NfProcess μ σ)
    (vigorDevice : ℕ)
    (batch : Batch μ σ)
    (arrival : Arrival μ σ) :
    processPacket nfProcess vigorDevice batch arrival =
      { batch with
        state := (lastCall nfProcess arrival batch.state).2.2 }.dispose
          arrival.mbuf (disposition vigorDevice
            (toUint16 (readMode nfProcess arrival batch.state).1)) := by
  cases repeated : isRepeated nfProcess arrival batch.state with
  | false =>
      rw [lastCall_of_once repeated]
      rw [isRepeated, readMode] at repeated
      simp only [processPacket, readMode, repeated, Bool.false_eq_true, if_false]
  | true =>
      rw [lastCall_of_repeated repeated]
      rw [isRepeated, readMode] at repeated
      simp only [processPacket, writeMode, readMode, repeated, if_true]

theorem processPacket_of_agree
    (agree : VerdictsAgree nfProcess vigorDevice arrival batch.state) :
    processPacket nfProcess vigorDevice batch arrival =
      processAuthoritatively nfProcess vigorDevice batch arrival := by
  rw [processPacket_eq, processAuthoritatively]
  refine congrArg _ ?_
  cases repeated : isRepeated nfProcess arrival batch.state with
  | false => rw [lastCall_of_once repeated]
  | true =>
      rw [lastCall_of_repeated repeated]
      rcases agree with once | same
      · exact absurd (once.symm.trans repeated) Bool.false_ne_true
      · exact same

/-- The last verdict decides what happens to a buffer exactly when the packet is
processed once or both verdicts ask for the same treatment. -/
theorem last_verdict_decides_iff
    (nfProcess : NfProcess μ σ)
    (vigorDevice : ℕ)
    (batch : Batch μ σ)
    (arrival : Arrival μ σ) :
    processPacket nfProcess vigorDevice batch arrival =
        processAuthoritatively nfProcess vigorDevice batch arrival ↔
      VerdictsAgree nfProcess vigorDevice arrival batch.state := by
  constructor
  · intro same
    rw [processPacket_eq, processAuthoritatively] at same
    have decided := Batch.dispose_injective _ _ same
    cases repeated : isRepeated nfProcess arrival batch.state with
    | false => exact .inl repeated
    | true =>
        rw [lastCall_of_repeated repeated] at decided
        exact .inr decided
  · exact processPacket_of_agree

/-- A function that forwards in read mode and drops in write mode, as a network
function does whose table is full: the packet is sent. -/
theorem last_verdict_ignored :
    let nfProcess : NfProcess ℕ Unit := fun _ _ flags state =>
      (if flags.writeState then 0 else 1, { flags with writeAttempt := true },
        state)
    let arrival : Arrival ℕ Unit := ⟨7, 0, id, id⟩
    (lastCall nfProcess arrival ()).1 = 0 ∧
      disposition 0 (toUint16 0) = .free ∧
      (processPacket nfProcess 0 ⟨[], [], [], ()⟩ arrival).freed = [] ∧
      (processPacket nfProcess 0 ⟨[], [], [], ()⟩ arrival).mbufsToSend = [7] := by
  decide

end Worker
end Vigor
