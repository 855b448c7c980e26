import Vigor.Locks.Worker
import Vigor.Library.Leading
import Mathlib.Data.List.Count
import Mathlib.Data.List.Perm.Basic

/-!
# One iteration of the batching loops

The loops of `nf.c` and `boilerplate/locks.c` receive a batch in `mbufs`, copy
the buffers that are to be sent to `mbufs_to_send`, and offer these to the
driver.  The driver takes some from the front.  The last loop frees the rest,
but takes it from `mbufs`.  The indexes of both arrays agree only as long as no
buffer was dropped, so that a partial transmission behind a drop frees wrong
buffers.

`nf_process` is arbitrary, and so is the number of buffers that the driver
takes.  All counters are bounded by `rx_count`, a `uint16_t`, and do not
overflow.
-/

namespace Vigor
namespace Nf

open Worker (Batch Disposition toUint16)
open Leading (Leads)

variable {μ : Type u} {σ : Type v}

/-! ## The loops -/

/-- `nf_process` as a function of the buffer, the time and the state. -/
abbrev NfProcess (μ : Type u) (σ : Type v) :=
  μ → ℤ → σ → ℤ × σ

/-- The decision of the loop of `nf.c`, where a flood is a transmission. -/
def disposition (vigorDevice dstDevice : ℕ) : Disposition :=
  if dstDevice = vigorDevice then .free else .send

/-- One round of the loop over a batch in `nf.c`, with a buffer and the current
time. -/
def processPacket
    (nfProcess : NfProcess μ σ)
    (vigorDevice : ℕ)
    (batch : Batch μ σ)
    (arrival : μ × ℤ) : Batch μ σ :=
  let (verdict, state) := nfProcess arrival.1 arrival.2 batch.state
  let dstDevice := toUint16 verdict
  { batch with state := state }.dispose arrival.1 (disposition vigorDevice dstDevice)

/-- The loop over a batch in `nf.c`. -/
def processBatch
    (nfProcess : NfProcess μ σ)
    (vigorDevice : ℕ)
    (arrivals : List (μ × ℤ))
    (batch : Batch μ σ) : Batch μ σ :=
  arrivals.foldl (processPacket nfProcess vigorDevice) batch

/-- `rte_eth_tx_burst`: how many of the given buffers the driver takes. -/
structure TxBurst (μ : Type u) where
  sent : List μ → ℕ
  sent_le : ∀ mbufs, sent mbufs ≤ mbufs.length

/-- The loop that frees the buffers from `n` up to `tx_count`. -/
def freeUnsent
    (mbufs : List μ)
    (n txCount : ℕ) : List μ :=
  if n < txCount then mbufs[n]?.toList ++ freeUnsent mbufs (n + 1) txCount else []
  termination_by txCount - n

/-- What happened to buffers in an iteration: the calls of `rte_pktmbuf_free`,
the calls of `flood`, and the buffers given to the driver with the number of
those it took. -/
structure Iteration (μ : Type u) where
  freed : List μ
  flooded : List μ
  offered : List μ
  sentCount : ℕ

/-- The end of an iteration, which is the same in both files. -/
def transmit
    (txBurst : TxBurst μ)
    (mbufs : List μ)
    (batch : Batch μ σ) : Iteration μ :=
  let sentCount := txBurst.sent batch.mbufsToSend
  { freed := batch.freed ++ freeUnsent mbufs sentCount batch.mbufsToSend.length
    flooded := batch.flooded
    offered := batch.mbufsToSend
    sentCount := sentCount }

/-- An iteration of `worker_main` in `nf.c`. -/
def iteration
    (nfProcess : NfProcess μ σ)
    (vigorDevice : ℕ)
    (txBurst : TxBurst μ)
    (arrivals : List (μ × ℤ))
    (state : σ) : Iteration μ :=
  transmit txBurst (arrivals.map Prod.fst)
    (processBatch nfProcess vigorDevice arrivals ⟨[], [], [], state⟩)

/-- An iteration of `worker_main` in `boilerplate/locks.c`. -/
def iterationLocks
    (nfProcess : Worker.NfProcess μ σ)
    (vigorDevice : ℕ)
    (txBurst : TxBurst μ)
    (arrivals : List (Worker.Arrival μ σ))
    (state : σ) : Iteration μ :=
  transmit txBurst (arrivals.map Worker.Arrival.mbuf)
    (Worker.processBatch nfProcess vigorDevice arrivals ⟨[], [], [], state⟩)

/-! ## Decisions -/

/-- The buffers with the decisions of `nf.c` about them. -/
def decisions
    (nfProcess : NfProcess μ σ)
    (vigorDevice : ℕ) :
    List (μ × ℤ) → σ → List (μ × Disposition)
  | [], _ => []
  | arrival :: arrivals, state =>
      let result := nfProcess arrival.1 arrival.2 state
      (arrival.1, disposition vigorDevice (toUint16 result.1)) ::
        decisions nfProcess vigorDevice arrivals result.2

/-- The buffers with the decisions of `locks.c` about them. -/
def decisionsLocks
    (nfProcess : Worker.NfProcess μ σ)
    (vigorDevice : ℕ) :
    List (Worker.Arrival μ σ) → σ → List (μ × Disposition)
  | [], _ => []
  | arrival :: arrivals, state =>
      (arrival.mbuf, Worker.disposition vigorDevice
          (toUint16 (Worker.readMode nfProcess arrival state).1)) ::
        decisionsLocks nfProcess vigorDevice arrivals
          (Worker.lastCall nfProcess arrival state).2.2

/-- The buffers with a decision. -/
def withDecision
    (decision : Disposition)
    (decided : List (μ × Disposition)) : List μ :=
  (decided.filter fun entry => entry.2 = decision).map Prod.fst

/-- Every buffer is disposed of exactly once. -/
structure DisposesOnce
    [DecidableEq μ]
    (decided : List (μ × Disposition))
    (result : Iteration μ) : Prop where
  dropped : ∀ mbuf, (mbuf, Disposition.free) ∈ decided → result.freed.count mbuf = 1
  flooded : ∀ mbuf, (mbuf, Disposition.flood) ∈ decided → result.flooded.count mbuf = 1
  accepted : ∀ mbuf, (mbuf, Disposition.send) ∈ decided → result.offered.count mbuf = 1
  untaken : ∀ mbuf ∈ result.offered.drop result.sentCount, result.freed.count mbuf = 1
  once : (result.freed ++ result.flooded ++ result.offered.take result.sentCount).Nodup

/-- The driver takes all buffers, or no other buffer precedes one that is to be
sent. -/
def RestAligned
    (txBurst : TxBurst μ)
    (decided : List (μ × Disposition)) : Prop :=
  txBurst.sent (withDecision .send decided) = (withDecision .send decided).length ∨
    Leads (fun entry => entry.2 = .send) decided

/-! ## What an iteration does -/

/-- The decisions were carried out between two batches. -/
structure Collects
    (before after : Batch μ σ)
    (decided : List (μ × Disposition)) : Prop where
  freed : after.freed = before.freed ++ withDecision .free decided
  flooded : after.flooded = before.flooded ++ withDecision .flood decided
  mbufsToSend : after.mbufsToSend = before.mbufsToSend ++ withDecision .send decided

theorem dispose_state
    (batch : Batch μ σ)
    (mbuf : μ)
    (decision : Disposition) :
    (batch.dispose mbuf decision).state = batch.state := by
  cases decision <;> rfl

theorem Collects.refl (batch : Batch μ σ) : Collects batch batch [] := by
  constructor <;> simp [withDecision]

theorem Collects.cons
    {batch after : Batch μ σ}
    {state : σ}
    {mbuf : μ}
    {decision : Disposition}
    {decided : List (μ × Disposition)}
    (rest : Collects ({ batch with state := state }.dispose mbuf decision) after decided) :
    Collects batch after ((mbuf, decision) :: decided) := by
  obtain ⟨freed, flooded, mbufsToSend⟩ := rest
  constructor
  · rw [freed]
    cases decision <;> simp [Batch.dispose, withDecision]
  · rw [flooded]
    cases decision <;> simp [Batch.dispose, withDecision]
  · rw [mbufsToSend]
    cases decision <;> simp [Batch.dispose, withDecision]

/-- The loop of `nf.c` carries out its decisions. -/
theorem processBatch_collects
    (nfProcess : NfProcess μ σ)
    (vigorDevice : ℕ)
    (arrivals : List (μ × ℤ))
    (batch : Batch μ σ) :
    Collects batch (processBatch nfProcess vigorDevice arrivals batch)
      (decisions nfProcess vigorDevice arrivals batch.state) := by
  induction arrivals generalizing batch with
  | nil => exact .refl batch
  | cons arrival arrivals ih =>
      have rest := ih (processPacket nfProcess vigorDevice batch arrival)
      have state : (processPacket nfProcess vigorDevice batch arrival).state =
          (nfProcess arrival.1 arrival.2 batch.state).2 :=
        dispose_state _ _ _
      rw [state] at rest
      exact .cons rest

theorem processBatchLocks_collects
    (nfProcess : Worker.NfProcess μ σ)
    (vigorDevice : ℕ)
    (arrivals : List (Worker.Arrival μ σ))
    (batch : Batch μ σ) :
    Collects batch (Worker.processBatch nfProcess vigorDevice arrivals batch)
      (decisionsLocks nfProcess vigorDevice arrivals batch.state) := by
  induction arrivals generalizing batch with
  | nil => exact .refl batch
  | cons arrival arrivals ih =>
      have rest := ih (Worker.processPacket nfProcess vigorDevice batch arrival)
      rw [Worker.processPacket_eq, dispose_state] at rest
      apply Collects.cons
      rw [Worker.processBatch, List.foldl_cons, Worker.processPacket_eq]
      exact rest

theorem freeUnsent_eq
    (mbufs : List μ)
    (n txCount : ℕ) :
    freeUnsent mbufs n txCount = (mbufs.take txCount).drop n := by
  induction rounds : txCount - n generalizing n with
  | zero =>
      rw [freeUnsent, if_neg (by omega), List.drop_eq_nil_of_le (by rw [List.length_take]; omega)]
  | succ rounds ih =>
      rw [freeUnsent, if_pos (by omega), ih _ (by omega)]
      by_cases inside : n < (mbufs.take txCount).length
      · rw [List.drop_eq_getElem_cons inside, List.getElem_take,
          List.getElem?_eq_getElem (by rw [List.length_take] at inside; omega)]
        rfl
      · rw [List.length_take] at inside
        rw [List.drop_eq_nil_of_le (by rw [List.length_take]; omega),
          List.drop_eq_nil_of_le (by rw [List.length_take]; omega),
          List.getElem?_eq_none (by omega)]
        rfl

theorem withDecision_perm (decided : List (μ × Disposition)) :
    (withDecision .free decided ++ withDecision .flood decided ++
      withDecision .send decided).Perm (decided.map Prod.fst) := by
  induction decided with
  | nil => exact .nil
  | cons entry decided ih =>
      obtain ⟨mbuf, decision⟩ := entry
      have extended := ih.cons mbuf
      cases decision with
      | free => simpa [withDecision] using extended
      | flood =>
          refine .trans ?_ extended
          simp only [withDecision, List.filter_cons, reduceCtorEq, decide_false, decide_true,
            Bool.false_eq_true, if_false, if_true, List.map_cons, List.append_assoc]
          exact List.perm_middle
      | send =>
          refine .trans ?_ extended
          simp only [withDecision, List.filter_cons, reduceCtorEq, decide_false,
            decide_true, Bool.false_eq_true, if_false, if_true, List.map_cons]
          exact List.perm_middle

/-! ## Exactly once -/

section Once

variable
  [DecidableEq μ]
  {decided : List (μ × Disposition)}
  {freed : List μ}
  {sentCount : ℕ}

omit [DecidableEq μ] in
theorem mem_withDecision
    {mbuf : μ}
    {decision : Disposition} :
    mbuf ∈ withDecision decision decided ↔ (mbuf, decision) ∈ decided := by
  simp [withDecision]

section

variable (distinct : (decided.map Prod.fst).Nodup)

include distinct

theorem disposesOnce_of_right_rest
    (right : freed =
      withDecision .free decided ++
        (withDecision .send decided).drop sentCount) :
    DisposesOnce decided
      ⟨freed, withDecision .flood decided, withDecision .send decided,
        sentCount⟩ := by
  have all := (withDecision_perm decided).nodup_iff.mpr distinct
  have once : (freed ++ withDecision .flood decided ++
      (withDecision .send decided).take sentCount).Nodup := by
    refine (List.Perm.nodup_iff ?_).mpr all
    apply List.perm_iff_count.mpr
    intro mbuf
    have parts := congrArg (List.count mbuf)
      (List.take_append_drop sentCount (withDecision .send decided))
    rw [List.count_append] at parts
    rw [right]
    simp only [List.count_append]
    omega
  have freedOnce : freed.Nodup := once.of_append_left.of_append_left
  refine ⟨?_, ?_, ?_, ?_, once⟩
  · intro mbuf member
    apply List.count_eq_one_of_mem freedOnce
    rw [right]
    exact List.mem_append_left _ (mem_withDecision.mpr member)
  · intro mbuf member
    exact List.count_eq_one_of_mem all.of_append_left.of_append_right (mem_withDecision.mpr member)
  · intro mbuf member
    exact List.count_eq_one_of_mem all.of_append_right (mem_withDecision.mpr member)
  · intro mbuf member
    apply List.count_eq_one_of_mem freedOnce
    rw [right]
    exact List.mem_append_right _ member

theorem leads_of_disposesOnce
    (fewer : sentCount < (withDecision .send decided).length)
    (once : DisposesOnce decided
      ⟨withDecision .free decided ++
          ((decided.map Prod.fst).take (withDecision .send decided).length).drop
            sentCount,
        withDecision .flood decided, withDecision .send decided, sentCount⟩) :
    Leads (fun entry => entry.2 = .send) decided := by
  have length : (withDecision .send decided).length =
      (decided.filter fun entry => entry.2 = .send).length :=
    List.length_map _
  have nonempty : (decided.filter fun entry => entry.2 = .send) ≠ [] := by
    apply List.ne_nil_of_length_pos
    omega
  obtain ⟨last, isLast⟩ : ∃ last,
      (decided.filter fun entry => entry.2 = .send).getLast? = some last :=
    ⟨_, List.getLast?_eq_some_getLast nonempty⟩
  have lastMem : last ∈ decided ∧ last.2 = .send := by
    simpa using List.mem_of_getLast? isLast
  have unsent : last.1 ∈ (withDecision .send decided).drop sentCount := by
    have behind : ((decided.filter fun entry => entry.2 = .send).drop sentCount).getLast? =
        some last := by
      rw [List.getLast?_drop, if_neg (by omega), isLast]
    unfold withDecision
    rw [← List.map_drop]
    exact List.mem_map_of_mem (List.mem_of_getLast? behind)
  have freed := List.count_pos_iff.mp
    (Nat.lt_of_lt_of_eq Nat.one_pos (once.untaken last.1 unsent).symm)
  rcases List.mem_append.mp freed with dropped | early
  · -- A buffer that is to be sent is not among those that were dropped.
    have same := List.inj_on_of_nodup_map distinct (mem_withDecision.mp dropped) lastMem.1 rfl
    have decision := congrArg Prod.snd same
    rw [lastMem.2] at decision
    cases decision
  · apply Leading.leads_of_last_mem distinct isLast
    rw [← length, List.map_take]
    exact List.mem_of_mem_drop early

theorem disposesOnce_iff
    (few : sentCount ≤ (withDecision .send decided).length) :
    DisposesOnce decided
        ⟨withDecision .free decided ++
            ((decided.map Prod.fst).take
              (withDecision .send decided).length).drop sentCount,
          withDecision .flood decided, withDecision .send decided, sentCount⟩ ↔
      sentCount = (withDecision .send decided).length ∨
        Leads (fun entry => entry.2 = .send) decided := by
  constructor
  · intro once
    rcases Nat.eq_or_lt_of_le few with all | fewer
    · exact .inl all
    · exact .inr (leads_of_disposesOnce distinct fewer once)
  · intro aligned
    apply disposesOnce_of_right_rest distinct
    refine congrArg _ ?_
    rcases aligned with all | leads
    · rw [all, List.drop_length, List.drop_eq_nil_of_le (List.length_take_le _ _)]
    · have front := leads.filter_eq_take
      have length : (withDecision .send decided).length =
          (decided.filter fun entry => entry.2 = .send).length :=
        List.length_map _
      rw [length, ← List.map_take, ← front]
      rfl

end

end Once

theorem decisions_map_fst
    (nfProcess : NfProcess μ σ)
    (vigorDevice : ℕ)
    (arrivals : List (μ × ℤ))
    (state : σ) :
    (decisions nfProcess vigorDevice arrivals state).map Prod.fst =
      arrivals.map Prod.fst := by
  induction arrivals generalizing state with
  | nil => rfl
  | cons arrival arrivals ih => exact congrArg _ (ih _)

theorem decisionsLocks_map_fst
    (nfProcess : Worker.NfProcess μ σ)
    (vigorDevice : ℕ)
    (arrivals : List (Worker.Arrival μ σ))
    (state : σ) :
    (decisionsLocks nfProcess vigorDevice arrivals state).map Prod.fst =
      arrivals.map Worker.Arrival.mbuf := by
  induction arrivals generalizing state with
  | nil => rfl
  | cons arrival arrivals ih => exact congrArg _ (ih _)

theorem Collects.disposesOnce_transmit_iff
    [DecidableEq μ]
    {state : σ}
    {batch : Batch μ σ}
    {decided : List (μ × Disposition)}
    (collects : Collects ⟨[], [], [], state⟩ batch decided)
    (txBurst : TxBurst μ)
    (distinct : (decided.map Prod.fst).Nodup) :
    DisposesOnce decided (transmit txBurst (decided.map Prod.fst) batch) ↔
      RestAligned txBurst decided := by
  have freed : batch.freed = withDecision .free decided := collects.freed
  have flooded : batch.flooded = withDecision .flood decided := collects.flooded
  have toSend : batch.mbufsToSend = withDecision .send decided := collects.mbufsToSend
  unfold transmit RestAligned
  dsimp only
  rw [freed, flooded, toSend, freeUnsent_eq]
  exact disposesOnce_iff distinct (txBurst.sent_le _)

/-- Each buffer is disposed of exactly once, in both loops, exactly if the
driver takes all buffers or no other buffer precedes one that is to be sent. -/
theorem batch_disposed_once_iff
    [DecidableEq μ]
    (vigorDevice : ℕ)
    (txBurst : TxBurst μ) :
    (∀ (nfProcess : NfProcess μ σ) (arrivals : List (μ × ℤ)) (state : σ),
      (arrivals.map Prod.fst).Nodup →
      (DisposesOnce (decisions nfProcess vigorDevice arrivals state)
          (iteration nfProcess vigorDevice txBurst arrivals state) ↔
        RestAligned txBurst (decisions nfProcess vigorDevice arrivals state))) ∧
    ∀ (nfProcess : Worker.NfProcess μ σ) (arrivals :
        List (Worker.Arrival μ σ)) (state : σ),
      (arrivals.map Worker.Arrival.mbuf).Nodup →
      (DisposesOnce (decisionsLocks nfProcess vigorDevice arrivals state)
          (iterationLocks nfProcess vigorDevice txBurst arrivals state) ↔
        RestAligned txBurst
          (decisionsLocks nfProcess vigorDevice arrivals state)) := by
  constructor
  · intro nfProcess arrivals state distinct
    have collects := processBatch_collects nfProcess vigorDevice arrivals ⟨[], [], [], state⟩
    rw [← decisions_map_fst nfProcess vigorDevice arrivals state] at distinct
    unfold iteration
    rw [← decisions_map_fst nfProcess vigorDevice arrivals state]
    exact collects.disposesOnce_transmit_iff txBurst distinct
  · intro nfProcess arrivals state distinct
    have collects :=
      processBatchLocks_collects nfProcess vigorDevice arrivals ⟨[], [], [], state⟩
    rw [← decisionsLocks_map_fst nfProcess vigorDevice arrivals state] at distinct
    unfold iterationLocks
    rw [← decisionsLocks_map_fst nfProcess vigorDevice arrivals state]
    exact collects.disposesOnce_transmit_iff txBurst distinct

/-- A driver whose queue is full. -/
def fullQueue : TxBurst ℕ where
  sent _ := 0
  sent_le _ := Nat.zero_le _

/-- If the dropped buffer comes last, a full queue does no harm. -/
theorem batch_disposed_once_drop_last :
    let nfProcess : NfProcess ℕ Unit := fun mbuf _ state => (mbuf, state)
    let nfProcessLocks : Worker.NfProcess ℕ Unit := fun mbuf _ flags state =>
      (mbuf, flags, state)
    let arrivals : List (Worker.Arrival ℕ Unit) := [⟨1, 5, id, id⟩, ⟨0, 6, id, id⟩]
    DisposesOnce (decisions nfProcess 0 [(1, 5), (0, 6)] ())
        (iteration nfProcess 0 fullQueue [(1, 5), (0, 6)] ()) ∧
      DisposesOnce (decisionsLocks nfProcessLocks 0 arrivals ())
        (iterationLocks nfProcessLocks 0 fullQueue arrivals ()) := by
  intro nfProcess nfProcessLocks arrivals
  constructor
  · have plain := (batch_disposed_once_iff 0 fullQueue).1 nfProcess [(1, 5), (0, 6)] ()
    exact (plain (by decide)).mpr (.inr (by decide))
  · have locks := (batch_disposed_once_iff 0 fullQueue).2 nfProcessLocks arrivals ()
    exact (locks (by decide)).mpr (.inr (by decide))

/-- The first buffer is dropped and the second one not taken: the first one is
freed again and the second one never. -/
theorem dropped_buffer_freed_again :
    let nfProcess : NfProcess ℕ Unit := fun mbuf _ state => (mbuf, state)
    let nfProcessLocks : Worker.NfProcess ℕ Unit := fun mbuf _ flags state =>
      (mbuf, flags, state)
    let arrivals : List (Worker.Arrival ℕ Unit) := [⟨0, 5, id, id⟩, ⟨1, 6, id, id⟩]
    ¬DisposesOnce (decisions nfProcess 0 [(0, 5), (1, 6)] ())
        (iteration nfProcess 0 fullQueue [(0, 5), (1, 6)] ()) ∧
      ¬DisposesOnce (decisionsLocks nfProcessLocks 0 arrivals ())
        (iterationLocks nfProcessLocks 0 fullQueue arrivals ()) ∧
      (iteration nfProcess 0 fullQueue [(0, 5), (1, 6)] ()).freed = [0, 0] := by
  intro nfProcess nfProcessLocks arrivals
  have freed : (iteration nfProcess 0 fullQueue [(0, 5), (1, 6)] ()).freed = [0, 0] := by
    decide +kernel
  have freedLocks : (iterationLocks nfProcessLocks 0 fullQueue arrivals ()).freed = [0, 0] := by
    decide +kernel
  have twice : ¬([0, 0] : List ℕ).Nodup := by decide
  refine ⟨fun disposes => ?_, fun disposes => ?_, freed⟩
  · have once := disposes.once.of_append_left.of_append_left
    rw [freed] at once
    exact twice once
  · have once := disposes.once.of_append_left.of_append_left
    rw [freedLocks] at once
    exact twice once

end Nf
end Vigor
