import TensorGraph.Text.Blank
import TensorGraph.Count
import TensorGraph.NameMap
import TensorGraph.Axis
import TensorGraph.AxisOrder.Basic
import TensorGraph.Shape.Error
import TensorGraph.AxisOrder.Build
import TensorGraph.Shape.Basic
import TensorGraph.Operator.Attributes
import TensorGraph.Operator.Error
import TensorGraph.Operator.Window
import TensorGraph.Capability
import TensorGraph.Operator.Kind
import TensorGraph.Operator.Params
import TensorGraph.Operator.AttributeReader
import TensorGraph.Operator.Basic
import TensorGraph.Graph.Id
import TensorGraph.Graph.ApplyError
import TensorGraph.Operator.ShapeRule
import TensorGraph.Options
import TensorGraph.Graph.Basic
import TensorGraph.Graph.Build
import TensorGraph.Graph.TopologicalOrder
import TensorGraph.Graph.Validation
import TensorGraph.Graph.Edit
import TensorGraph.WeightLayout
import TensorGraph.Pipeline
import TensorGraph.Error
import TensorGraph.Graph.Call
import TensorGraph.Graph.InPlace
import TensorGraph.Workspace
import TensorGraph.Listing
import TensorGraph.Json.Reader
import TensorGraph.Json.Writer
import TensorGraph.Json.Codec
import TensorGraph.Json.Forms
import TensorGraph.AxisOrder.Stored
import TensorGraph.Shape.Stored
import TensorGraph.Operator.StoredRule
import TensorGraph.Proofs.Checks
import TensorGraph.Proofs.Extents
import TensorGraph.Proofs.ShapeRules
import TensorGraph.Proofs.LayoutIndependence
import TensorGraph.Proofs.Minted
import TensorGraph.Proofs.TopologicalOrder
import TensorGraph.Proofs.WellFormed
import TensorGraph.Proofs.Growth
import TensorGraph.Proofs.Preservation
import TensorGraph.Proofs.Bookkeeping
import TensorGraph.Proofs.ApplicationOrder
import TensorGraph.Proofs.LeastOrder
import TensorGraph.Proofs.AddressedOperators
import TensorGraph.Proofs.AtomicCalls
import TensorGraph.Proofs.AppendOnly
import TensorGraph.Proofs.ForeignIds
import TensorGraph.Proofs.InterleavedRuns
import TensorGraph.Proofs.Variables
import TensorGraph.Proofs.LongRuns
import TensorGraph.Proofs.Packing
import TensorGraph.Proofs.PipelineRuns
import TensorGraph.Proofs.ListingText
import TensorGraph.Proofs.ListingOrder
import TensorGraph.Proofs.Rehome
import TensorGraph.Proofs.Rebuild
import TensorGraph.Proofs.Renaming
import TensorGraph.Proofs.Commuting
import TensorGraph.Proofs.ParameterRoundTrip
import TensorGraph.Proofs.AttributeReading
import TensorGraph.Proofs.JsonText
import TensorGraph.Proofs.JsonRoundTrip
import TensorGraph.Proofs.StoredOrders
import TensorGraph.Proofs.StoredShapes
import TensorGraph.Proofs.StoredRules
import TensorGraph.Proofs.Representation
import TensorGraph.Proofs.AxisSequences
import TensorGraph.Proofs.FirstFault
import TensorGraph.Proofs.AxisRemoval
import TensorGraph.Proofs.KeyedShapes
import TensorGraph.Proofs.InferenceFaults
import TensorGraph.Proofs.WindowPositions
import TensorGraph.Proofs.ParameterGrammar
import TensorGraph.Proofs.GeneratedNames
import TensorGraph.Proofs.GivenIds
import TensorGraph.Proofs.Labels
import TensorGraph.Proofs.Ranks

/-!
# `TensorGraph` — **computation graphs over tensors with named axes**

A graph is grown by calls: inputs and constants with a shape, and operators, whose output shapes are
inferred from what they read. Every call either fails and leaves the graph alone, or grows it at the
end, so that ids keep their meaning and a graph is valid whenever it can be looked at.

## Contents
- **Shapes**: axes, orders of axes, extents, and the counts of elements that fit into a word.
- **Operators**: attributes, typed parameters, and the rules for output shapes.
- **Graphs**: calls, the topological order, validation and edits; on top of them weight layouts,
  pipelines of passes, workspaces of several graphs, and listings.
- **JSON** forms of the data.
- **Stored forms**: orders with a table of positions and shapes in machine words, and the rules over
  them.
- **Theory** under `TensorGraph.Proofs`: shape rules and their independence of layout; what calls
  and runs of calls preserve, from well-formedness to exact books; order, listing, identity and
  rebuilding of graphs; round trips; stored forms against exact ones; which faults are reported;
  names, ids and labels.
-/
