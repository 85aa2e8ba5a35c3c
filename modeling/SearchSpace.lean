import SearchSpace.Binary64.Logarithm
import SearchSpace.Decimal.Format
import SearchSpace.Json.Document
import SearchSpace.Node.Layout
import SearchSpace.Proofs.Hierarchy.Configurations
import SearchSpace.Proofs.Hierarchy.SharedLabels
import SearchSpace.Proofs.Node.Calls
import SearchSpace.Proofs.Node.Decoding
import SearchSpace.Proofs.Surface.Selection
import SearchSpace.Store.Document
import SearchSpace.Proofs.Naming.Faults
import SearchSpace.Proofs.Surface.Faults
import SearchSpace.Proofs.Hierarchy.Faults
import SearchSpace.Proofs.Hierarchy.SpaceLabels
import SearchSpace.Proofs.Store.Attempts
import SearchSpace.Proofs.Decimal.Grammar
import SearchSpace.Proofs.Json.Documents
import SearchSpace.Proofs.Json.Presentation
import SearchSpace.Proofs.Naming.Taking
import SearchSpace.Proofs.Node.GroupNames
import SearchSpace.Proofs.Surface.GroupNames
import SearchSpace.Proofs.Hierarchy.GroupNames
import SearchSpace.Proofs.Node.Keys
import SearchSpace.Proofs.Surface.Keys
import SearchSpace.Proofs.Hierarchy.Keys
import SearchSpace.Proofs.Naming.Agreement
import SearchSpace.Proofs.Surface.Reordering
import SearchSpace.Proofs.Surface.Clusters
import SearchSpace.Proofs.Hierarchy.Shifting
import SearchSpace.Proofs.Hierarchy.Counts
import SearchSpace.Proofs.Hierarchy.Growth
import SearchSpace.Proofs.Hierarchy.Influence
import SearchSpace.Proofs.Surface.Losses
import SearchSpace.Proofs.Hierarchy.SlotMarks
import SearchSpace.Proofs.Hierarchy.LineBreaks
import SearchSpace.Proofs.Surface.Bounds
import SearchSpace.Proofs.Surface.Ways
import SearchSpace.Proofs.Surface.NestedCalls
import SearchSpace.Proofs.Hierarchy.Defaults
