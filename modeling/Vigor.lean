import Vigor.Library.Fuelled
import Vigor.Library.LinkedRing
import Vigor.Library.Transcript
import Vigor.Library.FuelledTranscript
import Vigor.Library.Ledger
import Vigor.Library.TokenBucket
import Vigor.Library.RefusedOffers
import Vigor.Library.ProbePath
import Vigor.Library.Ownership
import Vigor.Library.Blocks
import Vigor.Library.RowFill
import Vigor.Library.FaultLoops
import Vigor.Library.AlignedFill
import Vigor.Library.LongestMatch
import Vigor.Library.GapRuns
import Vigor.Library.CountMin
import Vigor.Library.ByteMoves
import Vigor.Library.Leading
import Vigor.Library.RefCount
import Vigor.Library.Failing
import Vigor.Library.Assignment
import Vigor.Library.SelectedXor
import Vigor.Library.Attempt
import Vigor.Library.AtomTree
import Vigor.Library.Definitions
import Vigor.DoubleChain.Impl
import Vigor.DoubleChain.Encoding
import Vigor.DoubleChain.Refinement
import Vigor.IndexTable
import Vigor.DoubleChain.Timed
import Vigor.Expirator
import Vigor.Map.Impl
import Vigor.Map.Probing
import Vigor.Map.Invariant
import Vigor.Map.Contract
import Vigor.Map.Refinement
import Vigor.Map.Counters
import Vigor.Map.Cells
import Vigor.FlowTable.Impl
import Vigor.FlowTable.Lists
import Vigor.FlowTable.Coherence
import Vigor.FlowTable.Current
import Vigor.FlowTable.Ledger
import Vigor.DoubleMap.Impl
import Vigor.DoubleMap.Contract
import Vigor.DoubleMap.Runs
import Vigor.DoubleMap.Coherence
import Vigor.Expiry
import Vigor.Locks.TokenLock
import Vigor.Locks.Worker
import Vigor.Locks.Chain
import Vigor.Locks.Activity
import Vigor.Locks.SingleCore
import Vigor.Locks.Lockstep
import Vigor.Locks.ActiveLists
import Vigor.Locks.Replicas
import Vigor.Locks.Expirator
import Vigor.Locks.Table
import Vigor.Locks.Expiry
import Vigor.Lpm.Impl
import Vigor.Lpm.Update
import Vigor.Lpm.Runs
import Vigor.Sessions
import Vigor.Vignat.Impl
import Vigor.Vignat.RoundTrip
import Vigor.Vignat.OwnPorts
import Vigor.Vignat.Parallelizable
import Vigor.Sketch.Impl
import Vigor.Sketch.FirstRow
import Vigor.Sketch.Uses
import Vigor.Sketch.CountMin
import Vigor.Vigbridge.Impl
import Vigor.Vigbridge.Learning
import Vigor.Vigbridge.Forwarding
import Vigor.Frame
import Vigor.PacketIo.Impl
import Vigor.PacketIo.Chunks
import Vigor.PacketIo.Headers
import Vigor.Nf.Batch
import Vigor.Nf.Flood
import Vigor.Vigfw.Impl
import Vigor.Vigfw.Ledger
import Vigor.Vigfw.Replies
import Vigor.Vighhh.Impl
import Vigor.Vighhh.Tables
import Vigor.Vighhh.Levels
import Vigor.Vighhh.Forgetting
import Vigor.Vigpol.Impl
import Vigor.Vigpol.Buckets
import Vigor.Vigpol.RateBound
import Vigor.Vigpol.DroppedPackets
import Vigor.Vigpolifw.Impl
import Vigor.Vigpolifw.Stages
import Vigor.Vigpolifw.Parameters
import Vigor.Vigpolifw.Exchange
import Vigor.Vigpolifw.Conjunction
import Vigor.Cht.Impl
import Vigor.Cht.Fill
import Vigor.Cht.Checked
import Vigor.Cht.Selection
import Vigor.Viglb.Impl
import Vigor.Viglb.Tables
import Vigor.Viglb.Stickiness
import Vigor.Viglb.Rehash
import Vigor.Vigpsd.Impl
import Vigor.Vigpsd.Ports
import Vigor.Vigpsd.Scans
import Vigor.Vigpsd.Cleanup
import Vigor.Vigcl.Impl
import Vigor.Vigcl.Denials
import Vigor.Vigcl.Uses
import Vigor.Rss.Constraint
import Vigor.Rss.Builder
import Vigor.Rss.Completeness
import Vigor.Lut.Impl
import Vigor.Lut.Shares
import Vigor.Lut.Balancing
import Vigor.Lut.Spreading
import Vigor.Lut.Table
import Vigor.Lut.Totals
import Vigor.Lut.Hash
import Vigor.Lut.Symmetry
import Vigor.Validator.Ir
import Vigor.Validator.Nodes
import Vigor.Validator.TermEq
import Vigor.Validator.Simplify
import Vigor.Validator.Sharing
import Vigor.Validator.Expansion
import Vigor.Validator.Translation
import Vigor.Codegen.Impl
import Vigor.Codegen.Hashes
import Vigor.Codegen.Keys
