import Mathlib.Data.Int.Notation
import Mathlib.Data.Nat.Notation

/-!
# Received packets

What the network functions without address translation read of a packet.  Header
fields are the raw numbers that the code reads.
-/

namespace Vigor

/-- The headers of a packet, whether it has them, and its length: the results of
`nf_then_get_rte_ipv4_header` and `nf_then_get_tcpudp_header`, and the argument
`packet_length` of `nf_process`. -/
structure Frame where
  isIpv4 : Bool
  isTcpudp : Bool
  srcAddr : ℕ
  dstAddr : ℕ
  nextProtoId : ℕ
  srcPort : ℕ
  dstPort : ℕ
  packetLength : UInt16
  deriving DecidableEq, Repr

/-- A packet that is received. -/
structure Reception where
  now : ℤ
  device : ℕ
  frame : Frame
  deriving DecidableEq, Repr

/-- The packet has the headers that the network functions look at. -/
def Frame.Parsed (frame : Frame) : Prop :=
  frame.isIpv4 = true ∧ frame.isTcpudp = true

instance (frame : Frame) : Decidable frame.Parsed :=
  inferInstanceAs (Decidable (_ ∧ _))

/-- The two tests of the headers at the beginning of `nf_process`, as one. -/
theorem Frame.ite_headers
    {α : Type u}
    (frame : Frame)
    (dropped served : α) :
    (if frame.isIpv4 = false then dropped
      else if frame.isTcpudp = false then dropped else served) =
      if frame.Parsed then served else dropped := by
  cases ipv4 : frame.isIpv4 <;>
    cases tcpudp : frame.isTcpudp <;>
    simp [Frame.Parsed, ipv4, tcpudp]

end Vigor
