import BoundaryTag.Size
import BoundaryTag.Error
import BoundaryTag.Fault
import BoundaryTag.Tag
import BoundaryTag.Memory
import BoundaryTag.Block
import BoundaryTag.Event
import BoundaryTag.Source.Basic
import BoundaryTag.Source.Region
import BoundaryTag.Source.Break
import BoundaryTag.Heap.Basic
import BoundaryTag.Heap.Blocks
import BoundaryTag.Heap.Merge
import BoundaryTag.Heap.Grow
import BoundaryTag.Heap.Allocate
import BoundaryTag.Heap.Check
import BoundaryTag.Session.Supply
import BoundaryTag.Session.Operation
import BoundaryTag.Session.Client
import BoundaryTag.Session.Heap
import BoundaryTag.Session.Source
import BoundaryTag.Proofs.Tiling
import BoundaryTag.Proofs.Tagged
import BoundaryTag.Proofs.Chains
import BoundaryTag.Proofs.Layout
import BoundaryTag.Proofs.Neighbours
import BoundaryTag.Proofs.Soundness
import BoundaryTag.Proofs.Merging
import BoundaryTag.Proofs.Placement
import BoundaryTag.Proofs.Search
import BoundaryTag.Proofs.Lawful
import BoundaryTag.Proofs.Running
import BoundaryTag.Proofs.Growth
import BoundaryTag.Proofs.Readiness
import BoundaryTag.Proofs.Setup
import BoundaryTag.Proofs.Serving
import BoundaryTag.Proofs.Release
import BoundaryTag.Proofs.Course
import BoundaryTag.Proofs.Footprint
import BoundaryTag.Proofs.Exchange
import BoundaryTag.Proofs.Outline
import BoundaryTag.Proofs.Holdings
import BoundaryTag.Proofs.Allocation
import BoundaryTag.Proofs.Command
import BoundaryTag.Proofs.World
import BoundaryTag.Proofs.Balance
import BoundaryTag.Proofs.Checking
import BoundaryTag.Proofs.Inspection
import BoundaryTag.Proofs.Diagnosis
import BoundaryTag.Proofs.Integrity
import BoundaryTag.Proofs.LiveSet
import BoundaryTag.Proofs.Protocol
import BoundaryTag.Proofs.Independence
import BoundaryTag.Proofs.Isolation
import BoundaryTag.Proofs.Vetting
import BoundaryTag.Proofs.Moving
import BoundaryTag.Proofs.Shifting
import BoundaryTag.Proofs.Ledger
import BoundaryTag.Proofs.Displacement
import BoundaryTag.Proofs.Stale
import BoundaryTag.Proofs.Scanning
import BoundaryTag.Proofs.Carving
import BoundaryTag.Proofs.Coalescing
import BoundaryTag.Proofs.Refitting
import BoundaryTag.Proofs.Confluence
import BoundaryTag.Proofs.Refilling
import BoundaryTag.Proofs.Residue
import BoundaryTag.Proofs.Rounding
import BoundaryTag.Proofs.Retracing
