import Vigor.Frame
import Vigor.Sketch.Impl

/-!
# The connection limiter

`cl_main.c` and `cl_state.c`.  Packets from the WAN are limited: a new flow is
dropped when the sketch has counted too many flows of its client.  The hash
functions are parameters.

The expiration times are numbers of 64 bits, and so are their products with 1000
and the differences from the current time, which are then read as signed
numbers.
-/

namespace Vigor
namespace Vigcl

open DoubleChain

/-- `struct flow`. -/
structure Flow where
  srcPort : ℕ
  dstPort : ℕ
  srcIp : ℕ
  dstIp : ℕ
  protocol : ℕ
  deriving DecidableEq, Repr

/-- `struct client`. -/
structure Client where
  srcIp : ℕ
  dstIp : ℕ
  deriving DecidableEq, Repr

/-- The fields of `struct nf_config` that processing reads. -/
structure Config where
  lanDevice : ℕ
  wanDevice : ℕ
  /-- In microseconds. -/
  flowExpirationTime : ℕ
  /-- In microseconds. -/
  clientExpirationTime : ℕ
  deriving Repr

/-- `struct State`: the map `flows`, the vector `flows_keys` and the chain
`flow_allocator` are the table of flows. -/
structure State where
  flows : FlowTable Flow
  sketch : Sketch

/-- `alloc_state` on fresh memory. -/
def allocState
    (build : Map.Build)
    (flowsMemory : Map.Arrays (KeyRef Flow))
    (flowAllocatorMemory : DoubleChain)
    (sketchMemory : Sketch.Memory)
    (maxFlows sketchCapacity maxClients : ℕ) : Option State := do
  let flows ← FlowTable.allocate build flowsMemory (fun _ => ⟨0, 0, 0, 0, 0⟩)
    flowAllocatorMemory maxFlows
  let sketch ← Sketch.sketchAllocate build sketchMemory sketchCapacity maxClients
  pure { flows := flows, sketch := sketch }

/-- The flow of a packet. -/
def flowOf (frame : Frame) : Flow where
  srcPort := frame.srcPort
  dstPort := frame.dstPort
  srcIp := frame.srcAddr
  dstIp := frame.dstAddr
  protocol := frame.nextProtoId

/-- The client of a flow. -/
def Flow.client (flow : Flow) : Client where
  srcIp := flow.srcIp
  dstIp := flow.dstIp

/-- `flow_hash`. -/
def Flow.flowHash (flow : Flow) : ℕ :=
  [flow.srcPort, flow.dstPort, flow.srcIp, flow.dstIp, flow.protocol].foldl crc32si 0

/-- `client_hash`. -/
def Client.clientHash (client : Client) : ℕ :=
  [client.srcIp, client.dstIp].foldl crc32si 0

/-- The operations on the keys of the map `flows`. -/
abbrev Flow.keyOps : Map.KeyOps Flow :=
  .ofHash flowHash

/-- The hash values of a client in the rows of the sketch. -/
abbrev Client.rowHash : Fin sketchHashes → Client → ℕ :=
  Sketch.saltedHash clientHash

/-- `time_u - expiration_time * 1000` as a signed number. -/
def lastTime
    (time : ℤ)
    (expirationTime : ℕ) : ℤ :=
  (time - expirationTime * 1000).bmod (2 ^ 64)

section Limiter

variable (config : Config) (build : Map.Build) (flowOps : Map.KeyOps Flow)
  (hashOps : Map.KeyOps ℕ) (rowHash : Fin sketchHashes → Client → ℕ)

/-- `expire_entries`. -/
def expireEntries
    (time : ℤ)
    (state : State) : Fuelled State := do
  let (_, flows) ← state.flows.expireItemsSingleMap build flowOps
    (lastTime time config.flowExpirationTime)
  let sketch ← state.sketch.sketchExpire build hashOps
    (lastTime time config.clientExpirationTime)
  pure { flows := flows, sketch := sketch }

/-- `limit_clients`: whether the packet is to be forwarded. -/
def limitClients
    (flow : Flow)
    (now : ℤ)
    (state : State) : Bool × State :=
  let sketch := state.sketch.sketchComputeHashes rowHash flow.client
  match state.flows.lookup build flowOps flow now with
  | (some _, flows) =>
      (true, { flows := flows, sketch := sketch.sketchRefresh build hashOps now })
  | (none, flows) =>
      match flows.allocateFlow build flowOps flow now with
      -- Reached the maximum number of allowed flows.  Just forward and don't limit.
      | (none, flows) => (true, { flows := flows, sketch := sketch })
      | (some _, flows) =>
          let outcome := sketch.sketchFetch build hashOps
          if outcome.1 then (false, { flows := flows, sketch := outcome.2 })
          else
            (true,
              { flows := flows
                sketch := (outcome.2.sketchTouchBuckets build hashOps now).2 })

/-- What `nf_process` does with a packet that has the headers, after the
expiry. -/
def processParsed
    (reception : Reception)
    (state : State) : ℕ × State :=
  -- Simply forward outgoing packets.
  if reception.device = config.lanDevice then (config.wanDevice, state)
  else if reception.device = config.wanDevice then
    let outcome := limitClients build flowOps hashOps rowHash (flowOf reception.frame)
      reception.now state
    if outcome.1 then (config.lanDevice, outcome.2) else (reception.device, outcome.2)
  -- Drop any other packets.
  else (reception.device, state)

/-- `nf_process`.  A packet that is to go to the device that it came from is
dropped. -/
def nfProcess
    (reception : Reception)
    (state : State) : Fuelled (ℕ × State) := do
  if reception.frame.isIpv4 = false then pure (reception.device, state)
  else if reception.frame.isTcpudp = false then pure (reception.device, state)
  else
    let state ← expireEntries config build flowOps hashOps reception.now state
    pure (processParsed config build flowOps hashOps rowHash reception state)

/-- A packet without the headers is dropped before the expiry. -/
theorem nfProcess_eq
    (reception : Reception)
    (state : State) :
    nfProcess config build flowOps hashOps rowHash reception state =
      if reception.frame.Parsed then
        expireEntries config build flowOps hashOps reception.now state >>=
            fun state =>
          pure (processParsed config build flowOps hashOps rowHash
            reception state)
      else pure (reception.device, state) :=
  reception.frame.ite_headers _ _

/-- Process packets one after the other: the devices that they are sent to. -/
def run
    (receptions : List Reception)
    (state : State) : Fuelled (List ℕ × State) :=
  Fuelled.transcript (nfProcess config build flowOps hashOps rowHash) receptions state

end Limiter

end Vigcl
end Vigor
