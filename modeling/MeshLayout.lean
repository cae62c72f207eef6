import MeshLayout.Kind
import MeshLayout.PerKind
import MeshLayout.Relation
import MeshLayout.Scalar
import MeshLayout.Error
import MeshLayout.Permutation
import MeshLayout.Adjacency
import MeshLayout.Config
import MeshLayout.Partition
import MeshLayout.Incidence
import MeshLayout.Metadata
import MeshLayout.Json
import MeshLayout.Json.Parser
import MeshLayout.Json.Printer
import MeshLayout.Metadata.Document
import MeshLayout.Scalar.Document
import MeshLayout.Document
import MeshLayout.Report
import MeshLayout.Column
import MeshLayout.Field
import MeshLayout.FieldSet
import MeshLayout.LooseField
import MeshLayout.Mesh
import MeshLayout.Blueprint
import MeshLayout.Traversal
import MeshLayout.Kernel.Staging
import MeshLayout.Kernel.Ledger
import MeshLayout.Kernel.Compile
import MeshLayout.Kernel.Action
import MeshLayout.Kernel.Run
import MeshLayout.Kernel.Script
import MeshLayout.Kernel.Script.Document
import MeshLayout.Proofs.Outcome
import MeshLayout.Proofs.Permutation
import MeshLayout.Proofs.Ordering
import MeshLayout.Proofs.Inversion
import MeshLayout.Proofs.Adjacency
import MeshLayout.Proofs.Transpose
import MeshLayout.Proofs.Reversal
import MeshLayout.Proofs.Incidence
import MeshLayout.Proofs.Construction
import MeshLayout.Proofs.Renaming
import MeshLayout.Proofs.Column
import MeshLayout.Proofs.Transfers
import MeshLayout.Proofs.Field
import MeshLayout.Proofs.FieldSet
import MeshLayout.Proofs.Workspace
import MeshLayout.Proofs.Partition
import MeshLayout.Proofs.Grouping
import MeshLayout.Proofs.Metadata
import MeshLayout.Proofs.Draft
import MeshLayout.Proofs.Mesh
import MeshLayout.Proofs.Tiling
import MeshLayout.Proofs.Contiguity
import MeshLayout.Proofs.Drafting
import MeshLayout.Proofs.Listing
import MeshLayout.Proofs.Blueprint
import MeshLayout.Proofs.Placement
import MeshLayout.Proofs.Buildable
import MeshLayout.Proofs.Elements
import MeshLayout.Proofs.Traversal
import MeshLayout.Proofs.Converse
import MeshLayout.Proofs.Export
import MeshLayout.Proofs.Calls
import MeshLayout.Proofs.Table
import MeshLayout.Proofs.Loading
import MeshLayout.Proofs.Grid
import MeshLayout.Proofs.Json
import MeshLayout.Proofs.Document
import MeshLayout.Proofs.Kernel.Staging
import MeshLayout.Proofs.Kernel.Planning
import MeshLayout.Proofs.Kernel.Memory
import MeshLayout.Proofs.Kernel.Whole
import MeshLayout.Proofs.Kernel.Ledger
import MeshLayout.Proofs.Kernel.Settling
import MeshLayout.Proofs.Kernel.Declare
import MeshLayout.Proofs.Kernel.Pending
import MeshLayout.Proofs.Kernel.Patches
import MeshLayout.Proofs.Kernel.Reconciling
import MeshLayout.Proofs.Kernel.Reference
import MeshLayout.Proofs.Kernel.Revalue
import MeshLayout.Proofs.Kernel.Direct
import MeshLayout.Proofs.Kernel.Layout
import MeshLayout.Proofs.Kernel.Logged
import MeshLayout.Proofs.Kernel.Strays
import MeshLayout.Proofs.Kernel.Frame
import MeshLayout.Proofs.Kernel.Scatter
import MeshLayout.Proofs.Kernel.Sums
import MeshLayout.Proofs.Kernel.Isolation
import MeshLayout.Proofs.Kernel.Visits
import MeshLayout.Proofs.Kernel.Handles
import MeshLayout.Proofs.Kernel.Typing
import MeshLayout.Proofs.Kernel.Addressing
