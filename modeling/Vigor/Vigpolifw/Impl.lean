import Vigor.Vigfw.Impl
import Vigor.Vigpol.Impl

/-!
# The policing firewall

`fw_main.c` and `fw_flowmanager.c` of the policing firewall.  A packet is given
to a firewall and to a policer, and it is forwarded if none of them drops it.
The functions of the two stages are those of the stand-alone firewall and
policer, except that the policer gets its burst and its rate as 16-bit numbers.

The program can stop in the middle of a packet: a rate that is zero as a 16-bit
number makes it divide by zero, and an assertion demands that the stages chose
the same device.
-/

namespace Vigor
namespace Vigpolifw

open Vigfw (FlowId)

/-- The fields of `struct nf_config` that processing reads. -/
structure Config where
  wanDevice : ℕ
  lanDevice : ℕ
  /-- In microseconds. -/
  expirationTime : ℕ
  maxFlows : ℕ
  /-- In bytes per second. -/
  rate : ℕ
  /-- In bytes. -/
  burst : ℕ
  dynCapacity : ℕ
  deriving DecidableEq, Repr

/-- The stand-alone firewall with the same parameters. -/
def Config.firewall (config : Config) : Vigfw.Config where
  wanDevice := config.wanDevice
  expirationTime := config.expirationTime
  maxFlows := config.maxFlows

/-- The stand-alone policer with the same parameters. -/
def Config.policer (config : Config) : Vigpol.Config where
  lanDevice := config.lanDevice
  wanDevice := config.wanDevice
  rate := config.rate
  burst := config.burst
  dynCapacity := config.dynCapacity

/-- `struct State`: the structures of the firewall and those of the policer. -/
structure State where
  firewall : Vigfw.State
  policer : Vigpol.State

/-- Why the program stops. -/
inductive Abort where
  | divisionByZero
  | devicesDiffer
  deriving DecidableEq, Repr

section Process

variable
  (config : Config)
  (build : Map.Build)
  (flowOps : Map.KeyOps FlowId)
  (addrOps : Map.KeyOps ℕ)

/-- `nf_process_firewall`. -/
def nfProcessFirewall
    (reception : Reception)
    (state : Vigfw.State) :
    Fuelled (ℕ × Vigfw.State) := do
  let state ← Vigfw.flowManagerExpire config.firewall build flowOps reception.now
    state
  pure (Vigfw.processParsed config.firewall build flowOps reception.device
    reception.frame reception.now state)

/-- `nf_process_policer`: the parameters `burst` and `rate` of
`policer_expire_entries` and `policer_check_tb` have type `uint16_t`. -/
def nfProcessPolicer
    (reception : Reception)
    (state : Vigpol.State) :
    Fuelled (Except Abort (ℕ × Vigpol.State)) :=
  let burst := config.burst % 2 ^ 16
  let rate := config.rate % 2 ^ 16
  if rate = 0 then pure (.error .divisionByZero)
  else
    Vigpol.police burst rate build addrOps config.lanDevice config.wanDevice
      reception state >>= fun outcome => pure (.ok outcome)

/-- The device to send to, from the devices that the stages chose. -/
def combine (device dstDeviceFw dstDevicePol : ℕ) : Except Abort ℕ :=
  -- At least one drop.
  if dstDevicePol = device ∨ dstDeviceFw = device then .ok device
  else if dstDevicePol = dstDeviceFw then .ok dstDevicePol
  else .error .devicesDiffer

/-- `nf_process`. -/
def nfProcess
    (reception : Reception)
    (state : State) :
    Fuelled (Except Abort (ℕ × State)) :=
  if reception.frame.isIpv4 = false then pure (.ok (reception.device, state))
  else if reception.frame.isTcpudp = false then
    pure (.ok (reception.device, state))
  else do
    let (dstDeviceFw, firewall) ← nfProcessFirewall config build flowOps reception
      state.firewall
    match ← nfProcessPolicer config build addrOps reception state.policer with
    | .error abort => pure (.error abort)
    | .ok (dstDevicePol, policer) =>
        pure ((combine reception.device dstDeviceFw dstDevicePol).map
          fun dstDevice => (dstDevice, { firewall := firewall, policer := policer }))

/-- Process packets one after the other, until the program stops. -/
def run : List Reception → State → Fuelled (Except Abort (List ℕ × State))
  | [], state => pure (.ok ([], state))
  | reception :: receptions, state => do
      match ← nfProcess config build flowOps addrOps reception state with
      | .error abort => pure (.error abort)
      | .ok (dstDevice, following) =>
          let outcome ← run receptions following
          pure (outcome.map fun (dstDevices, final) =>
            (dstDevice :: dstDevices, final))

end Process

/-- `alloc_state` on fresh memory. -/
def allocState
    (build : Map.Build)
    (flowMemory : Map.Arrays (KeyRef FlowId))
    (flows : ℤ → FlowId)
    (heapMemory : DoubleChain)
    (intDevices : ℤ → ℕ)
    (addrMemory : Map.Arrays (KeyRef ℕ))
    (addrs : ℤ → ℕ)
    (dynHeapMemory : DoubleChain)
    (dynVals : ℤ → Vigpol.DynamicValue)
    (config : Config) : Option State := do
  let firewall ← Vigfw.allocState build flowMemory flows heapMemory intDevices
    config.maxFlows
  let policer ← Vigpol.allocState build addrMemory addrs dynHeapMemory dynVals
    config.dynCapacity
  pure { firewall := firewall, policer := policer }

end Vigpolifw
end Vigor
