import TensorGraph.Graph.Id
import TensorGraph.Shape.Error

/-!
# `TensorGraph.Graph.ApplyError` — **why an operator cannot be applied**

Shape rules and the graph report a cause, `ApplyFault`; `ApplyError` adds the operator's name. Slots
are named, as in `x` and `w`.
-/

namespace TensorGraph

/-- The orders that a slot would have taken. -/
inductive OrderDemand where
  /-- A convolution weight. -/
  | convolutionWeight
  /-- A weight of a fully connected layer. -/
  | linearWeight
  /-- A vector over one axis. -/
  | only (axis : Axis)
  /-- The order of the first summand. -/
  | sameAs (order : AxisOrder)
  /-- Something is left after one axis is removed. -/
  | twoAxes
deriving DecidableEq

/-- Wording. -/
def OrderDemand.text : OrderDemand → String
  | convolutionWeight => "a weight order over axes N, C, H, W"
  | linearWeight => "a weight order over axes C, N"
  | only a => s!"the single-axis order {a}"
  | sameAs o => s!"the order of slot 'x0' ({o})"
  | twoAxes => "an order with at least two axes"

/-- Why an operator cannot be applied to inputs. -/
inductive ApplyFault where
  /-- The number of inputs is not that of the kind's slots. -/
  | arity (slots : List String) (got : Nat)
  /-- The id does not resolve in the graph. -/
  | unknownVariable (slot : String) (id : VariableId)
  /-- The name is taken. -/
  | duplicateOperator
  /-- An extent differs from what the other inputs or the window ask for. -/
  | extentMismatch (slot : String) (axis : Axis) (expected got : Nat)
  /-- An axis is needed and not there. -/
  | axisNotPresent (slot : String) (axis : Axis) (order : AxisOrder)
  /-- The order of an operand does not fit. -/
  | orderMismatch (slot : String) (order : AxisOrder) (expected : OrderDemand)
  /-- The window is larger than the padded input. -/
  | windowTooLarge (axis : Axis) (extent kernel padding : Nat)
  /-- The padded extent is no count. -/
  | extentOverflow (axis : Axis) (extent padding : Nat)
  /-- The operator does not work in the layout. -/
  | unsupportedLayout (slot : String) (order : AxisOrder)
  /-- The output would be no shape. -/
  | invalidShape (cause : ShapeError)
deriving DecidableEq

/-- Why the operator of a name cannot be applied. -/
structure ApplyError where
  op : String
  fault : ApplyFault
deriving DecidableEq

namespace ApplyError

/-- Wording. -/
def message (e : ApplyError) : String :=
  let mismatch := s!"shape mismatch in operator '{e.op}': "
  match e.fault with
  | .arity slots got =>
    let names := ", ".intercalate slots
    s!"operator '{e.op}' takes {slots.length} inputs ({names}) but {got} were given"
  | .unknownVariable slot id =>
    s!"operator '{e.op}': slot '{slot}' refers to variable {id}, " ++
      "which does not belong to this graph"
  | .duplicateOperator => s!"an operator named '{e.op}' has already been applied to this graph"
  | .extentMismatch slot axis expected got =>
    s!"{mismatch}slot '{slot}' axis {axis} has extent {got}, expected {expected}"
  | .axisNotPresent slot axis order =>
    s!"{mismatch}axis {axis} is not present in slot '{slot}' (order {order})"
  | .orderMismatch slot order expected =>
    s!"{mismatch}slot '{slot}' has order {order}, expected {expected.text}"
  | .windowTooLarge axis extent kernel padding =>
    s!"{mismatch}window of {kernel} exceeds padded axis {axis} " ++
      s!"(extent {extent}, padding {padding})"
  | .extentOverflow axis extent padding =>
    s!"operator '{e.op}': padding {padding} on axis {axis} (extent {extent}) overflows usize"
  | .unsupportedLayout slot order =>
    s!"operator '{e.op}' does not support layout {order} on slot '{slot}'"
  | .invalidShape cause => s!"operator '{e.op}' produced an invalid shape: {cause.message}"

/-- The error reports input shapes that do not go together. -/
def isShapeMismatch (e : ApplyError) : Bool :=
  match e.fault with
  | .extentMismatch .. | .axisNotPresent .. | .orderMismatch .. | .windowTooLarge .. => true
  | _ => false

end ApplyError

end TensorGraph
