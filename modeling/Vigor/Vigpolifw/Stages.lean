import Vigor.Vigfw.Ledger
import Vigor.Vigpol.Buckets
import Vigor.Vigpolifw.Impl

/-!
# The stages of the policing firewall

The two stages do not share any data, so a run of the policing firewall is a run
of a firewall and a run of a policer on the same packets, and the devices that
they choose are combined packet by packet.
-/

namespace Vigor
namespace Vigpolifw

open Vigfw (FlowId)

/-- Each packet is forwarded exactly if both other devices are not the one that
it came from. -/
def ForwardsBoth : List Reception → List ℕ → List ℕ → List ℕ → Prop
  | [], [], [], [] => True
  | reception :: receptions, dstDevice :: dstDevices, dstDeviceFw :: dstDevicesFw,
      dstDevicePol :: dstDevicesPol =>
      (dstDevice ≠ reception.device ↔
        dstDeviceFw ≠ reception.device ∧ dstDevicePol ≠ reception.device) ∧
      ForwardsBoth receptions dstDevices dstDevicesFw dstDevicesPol
  | _, _, _, _ => False

/-- The policer of the second stage. -/
def Config.truncated (config : Config) : Vigpol.Config where
  lanDevice := config.lanDevice
  wanDevice := config.wanDevice
  rate := config.rate % 2 ^ 16
  burst := config.burst % 2 ^ 16
  dynCapacity := config.dynCapacity

/-- The outcome of a run, from the devices that the stages choose. -/
def combineAll :
    List Reception → List ℕ → List ℕ → Except Abort (List ℕ)
  | reception :: receptions, dstDeviceFw :: dstDevicesFw,
      dstDevicePol :: dstDevicesPol => do
      let dstDevice ← combine reception.device dstDeviceFw dstDevicePol
      let dstDevices ← combineAll receptions dstDevicesFw dstDevicesPol
      pure (dstDevice :: dstDevices)
  | _, _, _ => pure []

/-- The state keeps the flows and the buckets of the ledgers. -/
structure State.Keeps
    (config : Config)
    (build : Map.Build)
    (flowHash : FlowId → ℕ)
    (addrHash : ℕ → ℕ)
    (now : ℤ)
    (state : State)
    (flows : Ledger FlowId ℕ)
    (buckets : Ledger ℕ Vigpol.DynamicValue) : Prop where
  firewall : state.firewall.Keeps config.firewall build flowHash now flows
  policer : state.policer.Keeps config.dynCapacity build addrHash now buckets

namespace State.Keeps

variable
  {config : Config}
  {build : Map.Build}
  {flowHash : FlowId → ℕ}
  {addrHash : ℕ → ℕ}
  {now : ℤ}
  {state : State}
  {flows : Ledger FlowId ℕ}
  {buckets : Ledger ℕ Vigpol.DynamicValue}

theorem mono
    (keeps : state.Keeps config build flowHash addrHash now flows buckets)
    (le : now ≤ later) :
    state.Keeps config build flowHash addrHash later flows buckets where
  firewall := FlowTable.Keeps.mono keeps.firewall le
  policer := FlowTable.Keeps.mono keeps.policer le

theorem nfProcess
    (divides : config.rate % 2 ^ 16 ≠ 0)
    (parsed : reception.frame.Parsed)
    (keeps : state.Keeps config build flowHash addrHash reception.now flows
      buckets) :
    let firewall := Vigfw.ledgerStep config.firewall reception flows
    let policer := Vigpol.ledgerStep config.truncated reception buckets
    ∃ following : State,
      (nfProcess config build (.ofHash flowHash) (.ofHash addrHash) reception
        state).Returns ((combine reception.device firewall.1 policer.1).map
          fun dstDevice => (dstDevice, following)) ∧
      following.Keeps config build flowHash addrHash reception.now firewall.2 policer.2 := by
  intro firewall policer
  obtain ⟨flowState, returnsFw, keptFw⟩ := keeps.firewall.nfProcess
  have keepsPol : state.policer.Keeps config.truncated.dynCapacity build addrHash
      reception.now buckets := keeps.policer
  obtain ⟨bucketState, returnsPol, keptPol⟩ := keepsPol.nfProcess
  refine ⟨⟨flowState, bucketState⟩, ?_, ⟨keptFw, keptPol⟩⟩
  obtain ⟨ipv4, tcpudp⟩ := parsed
  rw [Vigfw.nfProcess_eq] at returnsFw
  simp only [Frame.Parsed, ipv4, tcpudp, and_self, if_true] at returnsFw
  rw [Vigpol.nfProcess, if_neg (by simp [ipv4])] at returnsPol
  have stagePol : (nfProcessPolicer config build (.ofHash addrHash) reception
      state.policer).Returns (.ok (policer.1, bucketState)) := by
    rw [nfProcessPolicer, if_neg divides]
    exact returnsPol.bind (Fuelled.returns_pure _)
  rw [Vigpolifw.nfProcess, if_neg (by simp [ipv4]), if_neg (by simp [tcpudp])]
  exact Fuelled.Returns.bind returnsFw (stagePol.bind (Fuelled.returns_pure _))

end State.Keeps

/-- The devices that the firewall chooses in a run. -/
def firewallDevices
    (config : Config)
    (receptions : List Reception)
    (flows : Ledger FlowId ℕ) : List ℕ :=
  (Transcript.run (Vigfw.ledgerStep config.firewall) receptions flows).1

/-- The devices that the policer of the second stage chooses in a run. -/
def policerDevices
    (config : Config)
    (receptions : List Reception)
    (buckets : Ledger ℕ Vigpol.DynamicValue) : List ℕ :=
  (Transcript.run (Vigpol.ledgerStep config.truncated) receptions buckets).1

/-- A run of the code has the outcome that the stages demand. -/
theorem run_returns
    (divides : config.rate % 2 ^ 16 ≠ 0)
    (ordered : receptions.Pairwise fun earlier later => earlier.now ≤ later.now)
    (parsed : ∀ reception ∈ receptions, reception.frame.Parsed)
    (keeps : ∀ reception ∈ receptions,
      state.Keeps config build flowHash addrHash reception.now flows buckets) :
    ∃ outcome,
      (run config build (.ofHash flowHash) (.ofHash addrHash) receptions
        state).Returns outcome ∧
      outcome.map Prod.fst = combineAll receptions
        (firewallDevices config receptions flows)
        (policerDevices config receptions buckets) := by
  induction receptions generalizing state flows buckets with
  | nil => exact ⟨_, Fuelled.returns_pure _, rfl⟩
  | cons reception receptions ih =>
      obtain ⟨first, rest⟩ := List.pairwise_cons.mp ordered
      obtain ⟨parsedHere, parsedLater⟩ := List.forall_mem_cons.mp parsed
      obtain ⟨following, returns, kept⟩ :=
        (keeps reception List.mem_cons_self).nfProcess divides parsedHere
      obtain ⟨later, returnsLater, outcomeLater⟩ := ih rest
        parsedLater fun other member => kept.mono (first other member)
      rw [firewallDevices, policerDevices, Transcript.run_cons, Transcript.run_cons, combineAll]
      rw [firewallDevices, policerDevices] at outcomeLater
      cases combined : combine reception.device
        (Vigfw.ledgerStep config.firewall reception flows).1
        (Vigpol.ledgerStep config.truncated reception buckets).1 with
      | error abort =>
          rw [combined] at returns
          exact ⟨.error abort, returns.bind (Fuelled.returns_pure _), rfl⟩
      | ok dstDevice =>
          rw [combined] at returns
          refine ⟨_, returns.bind (returnsLater.bind (Fuelled.returns_pure _)), ?_⟩
          rw [← outcomeLater]
          cases later with
          | error abort => rfl
          | ok values => rfl

/-- The run on the ledgers is the conjunction of the stand-alone runs. -/
def IsConjunction
    (config : Config)
    (receptions : List Reception) : Prop :=
  ∃ dstDevices, combineAll receptions (firewallDevices config receptions .empty)
      (policerDevices config receptions .empty) = .ok dstDevices ∧
    ForwardsBoth receptions dstDevices (firewallDevices config receptions .empty)
      (Transcript.run (Vigpol.ledgerStep config.policer) receptions .empty).1

end Vigpolifw
end Vigor
