import Vigor.Cht.Impl
import Vigor.FlowTable.Impl
import Vigor.Frame
import Vigor.Library.FuelledTranscript

/-!
# The load balancer

`lb_main.c` and `lb_balancer.c`.  A packet from a device other than the WAN
device is a heartbeat of the backend with its source address.  A packet from the
WAN device is sent to the backend that is recorded for its flow, or to the one
that the consistent hashing table selects.  The flow table records the index of
a backend, not its address.

A nonnegative 64-bit time minus an expiration time of 32 bits in microseconds
does not overflow, so times are integers.
-/

namespace Vigor
namespace Viglb

open DoubleChain

/-- `struct LoadBalancedFlow`. -/
structure LoadBalancedFlow where
  srcIp : ℕ
  dstIp : ℕ
  srcPort : ℕ
  dstPort : ℕ
  protocol : ℕ
  deriving DecidableEq, Repr

/-- `struct LoadBalancedBackend`. -/
structure LoadBalancedBackend where
  nic : ℕ
  mac : ℕ
  ip : ℕ
  deriving DecidableEq, Repr

/-- The fields of `struct nf_config` that the code reads. -/
structure Config where
  deviceMacs : ℕ → ℕ
  flowCapacity : ℕ
  /-- In microseconds. -/
  flowExpirationTime : ℕ
  backendCapacity : ℕ
  chtHeight : ℕ
  /-- In microseconds. -/
  backendExpirationTime : ℕ
  wanDevice : ℕ

/-- A received packet with its Ethernet addresses. -/
structure Packet extends Reception where
  sAddr : ℕ
  dAddr : ℕ
  deriving DecidableEq, Repr

/-- The result of `nf_process`: the device to send to, and the fields of the
packet that it may have changed. -/
structure Departure where
  device : ℕ
  dstAddr : ℕ
  sAddr : ℕ
  dAddr : ℕ
  deriving DecidableEq, Repr

/-- `struct State`: `flow_to_flow_id`, `flow_heap` and `flow_chain` are one
table, `ip_to_backend_id`, `backend_ips` and `active_backends` are another. -/
structure State where
  flows : FlowTable LoadBalancedFlow
  flowIdToBackendId : ℤ → ℤ
  active : FlowTable ℕ
  backends : ℤ → LoadBalancedBackend
  cht : ℕ → ℕ

/-- `alloc_state` on fresh memory.  The vector of the table is initialised with
zeros before it is filled. -/
def allocState
    (build : Map.Build)
    (flowMemory : Map.Arrays (KeyRef LoadBalancedFlow))
    (flowHeap : ℤ → LoadBalancedFlow)
    (flowChain : DoubleChain)
    (flowIdToBackendId : ℤ → ℤ)
    (ipMemory : Map.Arrays (KeyRef ℕ))
    (backendIps : ℤ → ℕ)
    (activeBackends : DoubleChain)
    (backends : ℤ → LoadBalancedBackend)
    (config : Config) : Option State := do
  let flows ← FlowTable.allocate build flowMemory flowHeap flowChain
    config.flowCapacity
  let active ← FlowTable.allocate build ipMemory backendIps activeBackends
    config.backendCapacity
  pure
    { flows := flows
      flowIdToBackendId := flowIdToBackendId
      active := active
      backends := backends
      cht := Cht.chtFillCht config.chtHeight config.backendCapacity fun _ => 0 }

section Balancer

variable (config : Config) (build : Map.Build)
  (flowOps : Map.KeyOps LoadBalancedFlow) (ipOps : Map.KeyOps ℕ)

/-- The body of `lb_get_backend`: an answer, or the state in which it calls
itself again.  The answer `none` is a backend of which only `nic` is set, to
`wan_device`. -/
def lbGetBackendBody
    (flow : LoadBalancedFlow)
    (now : ℤ)
    (state : State) :
    Fuelled.Round State (Option LoadBalancedBackend × State) :=
  match state.flows.keys.get build flowOps (.own flow) with
  | none =>
      match Cht.chtFindPreferredAvailableBackend (flowOps.hash flow) state.cht
          state.active.chain config.chtHeight config.backendCapacity with
      | some backendIndex =>
          match state.flows.allocateFlow build flowOps flow now with
          | (some flowIndex, flows) =>
              .done (some (state.backends backendIndex),
                { state with
                  flows := flows
                  flowIdToBackendId := Function.update state.flowIdToBackendId
                    flowIndex backendIndex })
          -- Doesn't matter if we can't insert.
          | (none, flows) =>
              .done (some (state.backends backendIndex), { state with flows := flows })
      -- Drop.
      | none => .done (none, state)
  | some flowIndex =>
      let backendIndex := state.flowIdToBackendId flowIndex
      if dchainIsIndexAllocated state.active.chain backendIndex = false then
        let keys := state.flows.keys.erase build flowOps (.own flow)
        let (_, chain) := dchainFreeIndex state.flows.chain flowIndex
        .next { state with flows := { chain := chain, keys := keys } }
      else
        let (_, chain) := dchainRejuvenateIndex state.flows.chain flowIndex now
        .done (some (state.backends backendIndex),
          { state with flows := { state.flows with chain := chain } })

/-- `lb_get_backend`. -/
def lbGetBackend
    (flow : LoadBalancedFlow)
    (now : ℤ)
    (state : State) : Fuelled (Option LoadBalancedBackend × State) :=
  Fuelled.loop
    (fun state => pure (lbGetBackendBody config build flowOps flow now state)) state

/-- `lb_process_heartbit`. -/
def lbProcessHeartbit
    (flow : LoadBalancedFlow)
    (macAddr nic : ℕ)
    (now : ℤ)
    (state : State) : State :=
  match state.active.lookup build ipOps flow.srcIp now with
  | (some _, active) => { state with active := active }
  | (none, active) =>
      match active.allocateFlow build ipOps flow.srcIp now with
      | (some backendIndex, active) =>
          { state with
            active := active
            backends := Function.update state.backends backendIndex
              { nic := nic, mac := macAddr, ip := flow.srcIp } }
      -- Otherwise ignore this backend, we are full.
      | (none, active) => { state with active := active }

/-- `lb_expire_flows`. -/
def lbExpireFlows
    (time : ℤ)
    (state : State) : Fuelled State := do
  let lastTime := time - config.flowExpirationTime * 1000
  let (_, flows) ← state.flows.expireItemsSingleMap build flowOps lastTime
  pure { state with flows := flows }

/-- `lb_expire_backends`. -/
def lbExpireBackends
    (time : ℤ)
    (state : State) : Fuelled State := do
  let lastTime := time - config.backendExpirationTime * 1000
  let (_, active) ← state.active.expireItemsSingleMap build ipOps lastTime
  pure { state with active := active }

end Balancer

/-- The flow of a packet. -/
def flowOf (packet : Packet) : LoadBalancedFlow where
  srcIp := packet.frame.srcAddr
  dstIp := packet.frame.dstAddr
  srcPort := packet.frame.srcPort
  dstPort := packet.frame.dstPort
  protocol := packet.frame.nextProtoId

/-- The packet as it came, to be sent to the device. -/
def unchanged
    (packet : Packet)
    (device : ℕ) : Departure where
  device := device
  dstAddr := packet.frame.dstAddr
  sAddr := packet.sAddr
  dAddr := packet.dAddr

/-- The end of `nf_process`: the packet on its way to the backend. -/
def forward
    (config : Config)
    (packet : Packet) : Option LoadBalancedBackend → Departure
  | none => unchanged packet config.wanDevice
  | some backend =>
      if backend.nic ≠ config.wanDevice then
        { device := backend.nic
          dstAddr := backend.ip
          sAddr := config.deviceMacs backend.nic
          dAddr := backend.mac }
      else unchanged packet backend.nic

section Process

variable (config : Config) (build : Map.Build)
  (flowOps : Map.KeyOps LoadBalancedFlow) (ipOps : Map.KeyOps ℕ)

/-- The two expiries at the start of `nf_process`. -/
def expireAll
    (now : ℤ)
    (state : State) : Fuelled State := do
  let state ← lbExpireFlows config build flowOps now state
  lbExpireBackends config build ipOps now state

/-- `nf_process`.  A packet that is to go to the device that it came from is
dropped. -/
def nfProcess
    (packet : Packet)
    (state : State) : Fuelled (Departure × State) := do
  let state ← expireAll config build flowOps ipOps packet.now state
  if packet.frame.isIpv4 = false then pure (unchanged packet packet.device, state)
  else if packet.frame.isTcpudp = false then
    pure (unchanged packet packet.device, state)
  else if packet.device ≠ config.wanDevice then
    let state := lbProcessHeartbit build ipOps (flowOf packet) packet.sAddr
      packet.device packet.now state
    pure (unchanged packet packet.device, state)
  else
    let (backend, state) ←
      lbGetBackend config build flowOps (flowOf packet) packet.now state
    pure (forward config packet backend, state)

/-- Process packets one after the other. -/
def run
    (packets : List Packet)
    (state : State) : Fuelled (List Departure × State) :=
  Fuelled.transcript (nfProcess config build flowOps ipOps) packets state

end Process

end Viglb
end Vigor
