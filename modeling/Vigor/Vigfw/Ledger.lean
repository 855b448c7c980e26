import Vigor.FlowTable.Ledger
import Vigor.Vigfw.Impl

/-!
# The firewall on a ledger

The table of the firewall is a ledger of flows, each with the device that it was
recorded from.  A run of the code gives the replies of the ledger.
-/

namespace Vigor
namespace Vigfw

open DoubleChain

/-- The expiration time in nanoseconds. -/
def Config.lifetime (config : Config) : ℤ :=
  config.expirationTime * 1000

/-- The flow that a packet belongs to, in either direction. -/
def flowOf
    (config : Config)
    (reception : Reception) : FlowId :=
  if reception.device = config.wanDevice then replyFlowId reception.frame
  else flowId reception.frame

section Ledgers

variable (config : Config)

/-- `nf_process` on the ledger of flows and their devices. -/
def ledgerStep
    (reception : Reception)
    (ledger : Ledger FlowId ℕ) : ℕ × Ledger FlowId ℕ :=
  let now := reception.now
  let ledger := ledger.expire (now - config.lifetime)
  let id := flowOf config reception
  if ¬reception.frame.Parsed then (reception.device, ledger)
  else if reception.device = config.wanDevice then
    ((ledger.find id).elim reception.device Ledger.Entry.data,
      ledger.touch id now)
  else
    (config.wanDevice, ledger.ensure config.maxFlows id reception.device now)

variable
  {config : Config}
  {build : Map.Build}
  {hash : FlowId → ℕ}
  {state : State}
  {ledger : Ledger FlowId ℕ}

variable {reception : Reception}

theorem ledgerStep_of_inbound
    (parsed : reception.frame.Parsed)
    (inbound : reception.device = config.wanDevice)
    (ledger : Ledger FlowId ℕ) :
    ledgerStep config reception ledger =
      let expired := ledger.expire (reception.now - config.lifetime)
      let id := replyFlowId reception.frame
      ((expired.find id).elim reception.device Ledger.Entry.data,
        expired.touch id reception.now) := by
  rw [ledgerStep, if_neg (not_not.mpr parsed), if_pos inbound, flowOf, if_pos inbound]

theorem ledgerStep_of_outbound
    (parsed : reception.frame.Parsed)
    (outbound : reception.device ≠ config.wanDevice)
    (ledger : Ledger FlowId ℕ) :
    ledgerStep config reception ledger =
      (config.wanDevice,
        (ledger.expire (reception.now - config.lifetime)).ensure config.maxFlows
          (flowId reception.frame) reception.device
        reception.now) := by
  rw [ledgerStep, if_neg (not_not.mpr parsed), if_neg outbound, flowOf, if_neg outbound]

/-- The state keeps the flows of the ledger. -/
def State.Keeps
    (config : Config)
    (build : Map.Build)
    (hash : FlowId → ℕ)
    (now : ℤ)
    (state : State)
    (ledger : Ledger FlowId ℕ) : Prop :=
  FlowTable.Keeps build hash config.maxFlows now state.table state.intDevices
    ledger

theorem State.Keeps.getRefreshFlow
    (keeps : state.Keeps config build hash now ledger)
    (id : FlowId) :
    ∃ state', flowManagerGetRefreshFlow build (.ofHash hash) id now state =
        ((ledger.find id).map Ledger.Entry.data, state') ∧
      state'.Keeps config build hash now (ledger.touch id now) := by
  rw [flowManagerGetRefreshFlow, Ledger.touch]
  rcases FlowTable.Keeps.lookup_cases keeps id with
    ⟨absent, looked⟩ | ⟨index, time, table', found, looked, kept⟩
  · rw [looked, absent]
    exact ⟨_, rfl, keeps⟩
  · have unchanged := kept (state.intDevices index)
    rw [Function.update_eq_self] at unchanged
    rw [looked, found]
    exact ⟨_, rfl, unchanged⟩

theorem State.Keeps.allocateOrRefreshFlow
    (keeps : state.Keeps config build hash now ledger)
    (id : FlowId)
    (device : ℕ) :
    (flowManagerAllocateOrRefreshFlow build (.ofHash hash) id device now
      state).Keeps config build hash now
        (ledger.ensure config.maxFlows id device now) := by
  rw [flowManagerAllocateOrRefreshFlow, Ledger.ensure]
  rcases FlowTable.Keeps.lookup_cases keeps id with
    ⟨absent, looked⟩ | ⟨index, time, table', found, looked, kept⟩
  · rw [looked, absent]
    rcases FlowTable.Keeps.allocateFlow_cases keeps absent with
      ⟨full, allocated⟩ | ⟨index, table', room, allocated, kept⟩
    · simp only [allocated, if_neg (Nat.not_lt.mpr full)]
      exact keeps
    · simp only [allocated, if_pos room]
      exact kept device
  · have unchanged := kept (state.intDevices index)
    rw [Function.update_eq_self] at unchanged
    rw [looked, found]
    exact unchanged

theorem State.Keeps.nfProcess
    (keeps : state.Keeps config build hash reception.now ledger) :
    ∃ state', (nfProcess config build (.ofHash hash) reception state).Returns
        ((ledgerStep config reception ledger).1, state') ∧
      state'.Keeps config build hash reception.now
        (ledgerStep config reception ledger).2 := by
  obtain ⟨count, table', returns, kept⟩ :=
    FlowTable.Keeps.expireItemsSingleMap keeps (reception.now - config.lifetime)
  have expires : (flowManagerExpire config build (.ofHash hash) reception.now
      state).Returns { state with table := table' } :=
    returns.bind (Fuelled.returns_pure _)
  have keeps' : State.Keeps config build hash reception.now
      { state with table := table' }
      (ledger.expire (reception.now - config.lifetime)) := kept
  rw [nfProcess_eq, ledgerStep]
  by_cases parsed : reception.frame.Parsed
  · by_cases inbound : reception.device = config.wanDevice
    · obtain ⟨state', reply, kept'⟩ :=
        keeps'.getRefreshFlow (replyFlowId reception.frame)
      have sameFlow : flowOf config reception = replyFlowId reception.frame := if_pos inbound
      rw [if_neg (not_not.mpr parsed), if_pos inbound, sameFlow]
      refine ⟨state', expires.bind (Fuelled.returns_pure_iff.mpr ?_), kept'⟩
      rw [if_pos parsed, processParsed, if_pos inbound, reply]
      cases (ledger.expire (reception.now - config.lifetime)).find
        (replyFlowId reception.frame) <;> rfl
    · have kept' := keeps'.allocateOrRefreshFlow (flowId reception.frame) reception.device
      have sameFlow : flowOf config reception = flowId reception.frame := if_neg inbound
      rw [if_neg (not_not.mpr parsed), if_neg inbound, sameFlow]
      refine ⟨_, expires.bind (Fuelled.returns_pure_iff.mpr ?_), kept'⟩
      rw [if_pos parsed, processParsed, if_neg inbound]
  · rw [if_pos parsed]
    exact ⟨_, expires.bind (Fuelled.returns_pure_iff.mpr (if_neg parsed)), keeps'⟩

theorem run_returns
    (fresh : ∀ now, state.Keeps config build hash now .empty)
    (ordered : receptions.Pairwise fun earlier later =>
      earlier.now ≤ later.now) :
    ∃ final, (run config build (.ofHash hash) receptions state).Returns
      ((Transcript.run (ledgerStep config) receptions .empty).1, final) := by
  have permitted : Transcript.Permitted (fun _ _ => True) (ledgerStep config)
      receptions .empty := Transcript.permitted_of_forall (fun _ _ _ => trivial) _
  obtain ⟨final, returns, _⟩ := Fuelled.transcript_returns Reception.now
    (State.Keeps config build hash)
    (fun le keeps => FlowTable.Keeps.mono keeps le)
    (fun _ _ _ keeps _ => keeps.nfProcess) ordered
    (fun reception _ => fresh reception.now) ⟨0, fresh 0⟩ permitted
  exact ⟨final, returns⟩

end Ledgers

end Vigfw
end Vigor
