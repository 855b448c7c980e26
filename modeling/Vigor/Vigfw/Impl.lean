import Vigor.FlowTable.Impl
import Vigor.Frame
import Vigor.Library.FuelledTranscript

/-!
# The firewall

`fw_main.c` and `fw_flowmanager.c`.  A packet from an internal device is let out
and its flow is remembered with the device.  A packet from the WAN device is let
in only if it belongs to a flow that is remembered.

A nonnegative 64-bit time minus an expiration time of 32 bits in microseconds
does not overflow, so times are integers.
-/

namespace Vigor
namespace Vigfw

/-- `struct FlowId`. -/
structure FlowId where
  srcPort : ℕ
  dstPort : ℕ
  srcIp : ℕ
  dstIp : ℕ
  protocol : ℕ
  deriving DecidableEq, Repr

/-- The fields of `struct nf_config` that processing reads. -/
structure Config where
  wanDevice : ℕ
  /-- In microseconds. -/
  expirationTime : ℕ
  maxFlows : ℕ
  deriving Repr

/-- `struct State`: the map `fm`, the vector `fv` and the chain `heap` are the
table, and the vector `int_devices` has a device for each index. -/
structure State where
  table : FlowTable FlowId
  intDevices : ℤ → ℕ

/-- `alloc_state` on fresh memory. -/
def allocState
    (build : Map.Build)
    (mapMemory : Map.Arrays (KeyRef FlowId))
    (vector : ℤ → FlowId)
    (chainMemory : DoubleChain)
    (intDevices : ℤ → ℕ)
    (maxFlows : ℕ) : Option State :=
  (FlowTable.allocate build mapMemory vector chainMemory maxFlows).map
    fun table => { table := table, intDevices := intDevices }

section FlowManager

variable (config : Config) (build : Map.Build) (ops : Map.KeyOps FlowId)

/-- `flow_manager_allocate_or_refresh_flow`. -/
def flowManagerAllocateOrRefreshFlow
    (id : FlowId)
    (internalDevice : ℕ)
    (time : ℤ)
    (state : State) : State :=
  match state.table.lookup build ops id time with
  | (some _, table) => { state with table := table }
  | (none, table) =>
      match table.allocateFlow build ops id time with
      -- No luck, the flow table is full.
      | (none, table) => { state with table := table }
      | (some index, table) =>
          { table := table
            intDevices := Function.update state.intDevices index
              internalDevice }

/-- `flow_manager_expire`. -/
def flowManagerExpire
    (time : ℤ)
    (state : State) : Fuelled State := do
  let lastTime := time - config.expirationTime * 1000
  let (_, table) ← state.table.expireItemsSingleMap build ops lastTime
  pure { state with table := table }

/-- `flow_manager_get_refresh_flow`: the device of a known flow. -/
def flowManagerGetRefreshFlow
    (id : FlowId)
    (time : ℤ)
    (state : State) : Option ℕ × State :=
  match state.table.lookup build ops id time with
  | (none, table) => (none, { state with table := table })
  | (some index, table) =>
      (some (state.intDevices index), { state with table := table })

end FlowManager

/-- The flow of a packet from an internal device. -/
def flowId (frame : Frame) : FlowId where
  srcPort := frame.srcPort
  dstPort := frame.dstPort
  srcIp := frame.srcAddr
  dstIp := frame.dstAddr
  protocol := frame.nextProtoId

/-- The flow that a packet from the WAN device replies to. -/
def replyFlowId (frame : Frame) : FlowId where
  srcPort := frame.dstPort
  dstPort := frame.srcPort
  srcIp := frame.dstAddr
  dstIp := frame.srcAddr
  protocol := frame.nextProtoId

section Process

variable (config : Config) (build : Map.Build) (ops : Map.KeyOps FlowId)

/-- The part of `nf_process` after the headers are parsed: the device to send to
and the state.  A packet that is to go to the device that it came from is
dropped. -/
def processParsed
    (device : ℕ)
    (frame : Frame)
    (now : ℤ)
    (state : State) : ℕ × State :=
  if device = config.wanDevice then
    match flowManagerGetRefreshFlow build ops (replyFlowId frame) now state with
    -- Unknown external flow, dropping.
    | (none, state) => (device, state)
    | (some dstDevice, state) => (dstDevice, state)
  else
    (config.wanDevice,
      flowManagerAllocateOrRefreshFlow build ops (flowId frame) device now state)

/-- `nf_process`. -/
def nfProcess
    (reception : Reception)
    (state : State) :
    Fuelled (ℕ × State) := do
  let state ← flowManagerExpire config build ops reception.now state
  if reception.frame.isIpv4 = false then pure (reception.device, state)
  else if reception.frame.isTcpudp = false then pure (reception.device, state)
  else pure (processParsed config build ops reception.device reception.frame
    reception.now state)

/-- A packet without the headers is dropped after the expiry. -/
theorem nfProcess_eq
    (reception : Reception)
    (state : State) :
    nfProcess config build ops reception state =
      flowManagerExpire config build ops reception.now state >>= fun state =>
        pure (if reception.frame.Parsed then
            processParsed config build ops reception.device reception.frame
              reception.now state
          else (reception.device, state)) := by
  rw [nfProcess]
  congr 1
  funext state
  rw [Frame.ite_headers, apply_ite pure]

/-- Process packets one after the other: the devices that they are sent to. -/
def run
    (receptions : List Reception)
    (state : State) :
    Fuelled (List ℕ × State) :=
  Fuelled.transcript (nfProcess config build ops) receptions state

end Process

end Vigfw
end Vigor
