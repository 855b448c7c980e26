import Vigor.FlowTable.Impl

/-!
# The network address translator

`nat_main.c` and `nat_flowmanager.c`.  A packet from an internal device leaves
with an external port that stands for its flow: the start port plus the index
of the flow.  A packet from the WAN device is sent back to the flow behind its
destination port.

Header fields are the raw numbers that the code reads and writes.  Checksums and
Ethernet addresses, which do not influence anything else, are left out, and so
is `concretize_devices`, which does nothing in the compiled program.  A
nonnegative 64-bit time minus an expiration time of 32 bits in microseconds
does not overflow, so times are integers.
-/

namespace Vigor
namespace Vignat

/-- `struct FlowId`. -/
structure FlowId where
  srcPort : ℕ
  dstPort : ℕ
  srcIp : ℕ
  dstIp : ℕ
  internalDevice : ℕ
  protocol : ℕ
  deriving DecidableEq, Repr

/-- The fields of `struct nf_config` that processing reads. -/
structure Config where
  wanDevice : ℕ
  externalAddr : ℕ
  startPort : ℕ
  /-- In microseconds. -/
  expirationTime : ℕ
  maxFlows : ℕ
  deriving Repr

/-- The headers of a packet, and whether it has them: the results of
`nf_then_get_rte_ipv4_header` and `nf_then_get_tcpudp_header`. -/
structure Packet where
  isIpv4 : Bool
  isTcpudp : Bool
  srcAddr : ℕ
  dstAddr : ℕ
  nextProtoId : ℕ
  srcPort : ℕ
  dstPort : ℕ
  deriving DecidableEq, Repr

section FlowManager

variable (config : Config) (build : Map.Build) (ops : Map.KeyOps FlowId)

/-- The external port of an index, as a `uint16_t`. -/
def externalPort (index : ℤ) : ℕ :=
  ((config.startPort + index) % 2 ^ 16).toNat

/-- `flow_manager_allocate_flow`.  The device is part of the flow already. -/
def flowManagerAllocateFlow
    (id : FlowId)
    (time : ℤ)
    (table : FlowTable FlowId) : Option ℕ × FlowTable FlowId :=
  let (index, table) := table.allocateFlow build ops id time
  (index.map (externalPort config), table)

/-- `flow_manager_expire`. -/
def flowManagerExpire
    (time : ℤ)
    (table : FlowTable FlowId) : Fuelled (FlowTable FlowId) := do
  let lastTime := time - config.expirationTime * 1000
  let (_, table) ← table.expireItemsSingleMap build ops lastTime
  pure table

/-- `flow_manager_get_internal`. -/
def flowManagerGetInternal
    (id : FlowId)
    (time : ℤ)
    (table : FlowTable FlowId) : Option ℕ × FlowTable FlowId :=
  let (index, table) := table.lookup build ops id time
  (index.map (externalPort config), table)

/-- `flow_manager_get_external`. -/
def flowManagerGetExternal
    (port : ℕ)
    (time : ℤ)
    (table : FlowTable FlowId) : Option FlowId × FlowTable FlowId :=
  let index : ℤ := port - config.startPort
  if DoubleChain.dchainIsIndexAllocated table.chain index = false then
    (none, table)
  else
    let outFlow := table.keys.vector index
    let (_, chain) := DoubleChain.dchainRejuvenateIndex table.chain index time
    (some outFlow, { table with chain := chain })

end FlowManager

/-- The flow of a packet from an internal device. -/
def flowId
    (device : ℕ)
    (packet : Packet) : FlowId where
  srcPort := packet.srcPort
  dstPort := packet.dstPort
  srcIp := packet.srcAddr
  dstIp := packet.dstAddr
  protocol := packet.nextProtoId
  internalDevice := device

section Process

variable (config : Config) (build : Map.Build) (ops : Map.KeyOps FlowId)

/-- The part of `nf_process` for a packet from the WAN device. -/
def processInbound
    (device : ℕ)
    (packet : Packet)
    (now : ℤ)
    (table : FlowTable FlowId) : ℕ × Packet × FlowTable FlowId :=
  match flowManagerGetExternal config packet.dstPort now table with
  | (some internalFlow, table) =>
      if internalFlow.dstIp ≠ packet.srcAddr ∨
          internalFlow.dstPort ≠ packet.srcPort ∨
          internalFlow.protocol ≠ packet.nextProtoId then
        -- Spoofing attempt, dropping.
        (device, packet, table)
      else
        (internalFlow.internalDevice,
          { packet with
            dstAddr := internalFlow.srcIp
            dstPort := internalFlow.srcPort },
          table)
  | (none, table) =>
      -- Unknown flow, dropping.
      (device, packet, table)

/-- The part of `nf_process` for a packet from an internal device. -/
def processOutbound
    (device : ℕ)
    (packet : Packet)
    (now : ℤ)
    (table : FlowTable FlowId) : ℕ × Packet × FlowTable FlowId :=
  let id := flowId device packet
  let (found, table) := flowManagerGetInternal config build ops id now table
  let (found, table) :=
    match found with
    | some port => (some port, table)
    | none => flowManagerAllocateFlow config build ops id now table
  match found with
  | some port =>
      (config.wanDevice,
        { packet with srcAddr := config.externalAddr, srcPort := port },
        table)
  | none =>
      -- No space for the flow, dropping.
      (device, packet, table)

/-- `nf_process`: the device to send to, the packet and the flow table.  A
packet that is to go to the device that it came from is dropped. -/
def nfProcess
    (device : ℕ)
    (packet : Packet)
    (now : ℤ)
    (table : FlowTable FlowId) : Fuelled (ℕ × Packet × FlowTable FlowId) := do
  let table ← flowManagerExpire config build ops now table
  if packet.isIpv4 = false then pure (device, packet, table)
  else if packet.isTcpudp = false then pure (device, packet, table)
  else if device = config.wanDevice then
    pure (processInbound config device packet now table)
  else pure (processOutbound config build ops device packet now table)

end Process

/-! ## Runs -/

/-- A packet that is received. -/
structure Arrival where
  now : ℤ
  device : ℕ
  packet : Packet
  deriving DecidableEq, Repr

/-- A packet that was processed: the device and the packet that came out. -/
structure Record extends Arrival where
  dstDevice : ℕ
  sent : Packet
  deriving DecidableEq, Repr

/-- Process a packet and write down what came out. -/
def step
    (config : Config)
    (build : Map.Build)
    (ops : Map.KeyOps FlowId)
    (state : List Record × FlowTable FlowId)
    (arrival : Arrival) : Fuelled (List Record × FlowTable FlowId) := do
  let (records, table) := state
  let (dstDevice, sent, table) ← nfProcess config build ops arrival.device
    arrival.packet arrival.now table
  pure (records ++ [{ arrival with dstDevice := dstDevice, sent := sent }],
    table)

/-- Process packets one after the other. -/
def run
    (config : Config)
    (build : Map.Build)
    (ops : Map.KeyOps FlowId)
    (arrivals : List Arrival)
    (table : FlowTable FlowId) : Fuelled (List Record × FlowTable FlowId) :=
  arrivals.foldlM (step config build ops) ([], table)

end Vignat
end Vigor
