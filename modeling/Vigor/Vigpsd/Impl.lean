import Vigor.FlowTable.Impl
import Vigor.Frame
import Vigor.Library.Crc
import Vigor.Library.FuelledTranscript

/-!
# The port-scan detector

`psd_main.c` and the loop of `unverified/expirator.c`.  A source may touch a
number of ports while it has an entry.  The ports that it touched are kept in
one flat vector, in the cells from `max_ports * index` on, and in the map
`ports`.  They are cleaned up only when the index is given to another source.

The vector has fewer than `2 ^ 31` cells, so that positions in it do not
overflow.  A nonnegative 64-bit time minus an expiration time of 32 bits in
microseconds does not overflow, so times are integers.
-/

namespace Vigor

/-- `expire_items_single_map_iteratively`: erase the keys of the cells from
`start` to `n_elems`. -/
def KeyedMap.expireItemsSingleMapIteratively
    {K : Type u}
    (build : Map.Build)
    (ops : Map.KeyOps K)
    (start nElems : ℤ)
    (keys : KeyedMap K) : KeyedMap K :=
  (List.range (nElems - start).toNat).foldl
    (fun keys (round : ℕ) => keys.erase build ops (.cell (start + round))) keys

namespace Vigpsd

open DoubleChain

/-- `struct TouchedPort`. -/
structure TouchedPort where
  src : ℕ
  port : ℕ
  deriving DecidableEq, Repr

/-- `ip_addr_hash`. -/
def ipAddrHash (addr : ℕ) : ℕ :=
  crc32si 0 addr

/-- `touched_port_hash`. -/
def touchedPortHash (touched : TouchedPort) : ℕ :=
  crc32si (crc32si 0 touched.src) touched.port

/-- The fields of `struct nf_config` that processing reads. -/
structure Config where
  lanDevice : ℕ
  wanDevice : ℕ
  /-- In microseconds. -/
  expirationTime : ℕ
  deriving Repr

/-- `struct State`: the map `srcs`, the vector `srcs_key` and the chain
`allocator` are the table of sources, the map `ports` and the vector `ports_key`
are the ports. -/
structure State where
  srcs : FlowTable ℕ
  touchedPortsCounter : ℤ → ℕ
  ports : KeyedMap TouchedPort
  maxPorts : ℕ

/-- `alloc_state` on fresh memory.  The counters are not initialised. -/
def allocState
    (build : Map.Build)
    (srcsMemory : Map.Arrays (KeyRef ℕ))
    (srcsKey : ℤ → ℕ)
    (allocatorMemory : DoubleChain)
    (touchedPortsCounter : ℤ → ℕ)
    (portsMemory : Map.Arrays (KeyRef TouchedPort))
    (portsKey : ℤ → TouchedPort)
    (capacity maxPorts : ℕ) : Option State := do
  let srcs ← FlowTable.allocate build srcsMemory srcsKey allocatorMemory capacity
  let ports ← Map.mapAllocate build portsMemory (capacity * maxPorts)
  pure
    { srcs := srcs
      touchedPortsCounter := touchedPortsCounter
      ports := { map := ports, vector := portsKey, calls := [] }
      maxPorts := maxPorts }

section Detector

variable (config : Config) (build : Map.Build) (srcOps : Map.KeyOps ℕ)
  (portOps : Map.KeyOps TouchedPort)

/-- `expire_entries`. -/
def expireEntries
    (time : ℤ)
    (state : State) : Fuelled State := do
  let lastTime := time - config.expirationTime * 1000
  let (_, srcs) ← state.srcs.expireItemsSingleMap build srcOps lastTime
  pure { state with srcs := srcs }

/-- `allocate`. -/
def allocate
    (src targetPort : ℕ)
    (time : ℤ)
    (state : State) : Bool × State :=
  match state.srcs.allocateFlow build srcOps src time with
  -- No more space in the source table.
  | (none, srcs) => (false, { state with srcs := srcs })
  | (some index, srcs) =>
      let counter := state.touchedPortsCounter index
      -- Cleanup previous state first.
      let ports := state.ports.expireItemsSingleMapIteratively build portOps index
        counter
      -- Now save the source and add the first port.
      let portIndex : ℤ := 0
      let cell := state.maxPorts * index + portIndex
      let ports := ports.write cell { src := src, port := targetPort }
      let ports := ports.put build portOps (.cell cell) portIndex
      (true,
        { state with
          srcs := srcs
          touchedPortsCounter := Function.update state.touchedPortsCounter index 1
          ports := ports })

/-- `detect_port_scanning`: whether a port scan is detected. -/
def detectPortScanning
    (src targetPort : ℕ)
    (time : ℤ)
    (state : State) : Bool × State :=
  match state.srcs.lookup build srcOps src time with
  | (none, srcs) =>
      let (_, state) := allocate build srcOps portOps src targetPort time
        { state with srcs := srcs }
      (false, state)
  | (some index, srcs) =>
      let state := { state with srcs := srcs }
      let counter := state.touchedPortsCounter index
      let touchedPort : TouchedPort := { src := src, port := targetPort }
      match state.ports.get build portOps (.own touchedPort) with
      | some _ => (false, state)
      | none =>
          if state.maxPorts ≤ counter then (true, state)
          else
            let portIndex : ℤ := counter - 1
            let cell := state.maxPorts * index + (portIndex + 1)
            let ports := state.ports.write cell touchedPort
            let ports := ports.put build portOps (.cell cell) (portIndex + 1)
            (false,
              { state with
                touchedPortsCounter := Function.update state.touchedPortsCounter index
                  (counter + 1)
                ports := ports })

/-- What `nf_process` does with a packet that has the headers, after the
expiry. -/
def processParsed
    (reception : Reception)
    (state : State) : ℕ × State :=
  -- Simply forward outgoing packets.
  if reception.device = config.lanDevice then (config.wanDevice, state)
  else if reception.device = config.wanDevice then
    let (detected, state) := detectPortScanning build srcOps portOps
      reception.frame.srcAddr reception.frame.dstPort reception.now state
    if detected then (reception.device, state) else (config.lanDevice, state)
  -- Drop any other packets.
  else (reception.device, state)

/-- `nf_process`.  A packet that is to go to the device that it came from is
dropped. -/
def nfProcess
    (reception : Reception)
    (state : State) : Fuelled (ℕ × State) := do
  if reception.frame.isIpv4 = false then pure (reception.device, state)
  else if reception.frame.isTcpudp = false then pure (reception.device, state)
  else
    let state ← expireEntries config build srcOps reception.now state
    pure (processParsed config build srcOps portOps reception state)

/-- A packet without the headers is dropped before the expiry. -/
theorem nfProcess_eq
    (reception : Reception)
    (state : State) :
    nfProcess config build srcOps portOps reception state =
      if reception.frame.Parsed then
        expireEntries config build srcOps reception.now state >>= fun state =>
          pure (processParsed config build srcOps portOps reception state)
      else pure (reception.device, state) :=
  reception.frame.ite_headers _ _

/-- Process packets one after the other: the devices that they are sent to. -/
def run
    (receptions : List Reception)
    (state : State) : Fuelled (List ℕ × State) :=
  Fuelled.transcript (nfProcess config build srcOps portOps) receptions state

end Detector

end Vigpsd
end Vigor
