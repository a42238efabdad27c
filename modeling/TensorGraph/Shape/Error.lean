import TensorGraph.AxisOrder.Basic

/-!
# `TensorGraph.Shape.Error` — **why an order or a shape is refused**

One constructor per cause, and the wording of each in `ShapeError.message`.
-/

namespace TensorGraph

/-- Why axes and extents make no order or shape. -/
inductive ShapeError where
  /-- An order needs an axis. -/
  | emptyOrder
  /-- The axis is named twice. -/
  | duplicateAxis (axis : Axis)
  /-- The character stands for no axis. -/
  | unknownLetter (letter : Char)
  /-- The number of extents differs from the number of axes. -/
  | rankMismatch (order : AxisOrder) (got : Nat)
  /-- The axis has no elements. -/
  | zeroExtent (axis : Axis)
  /-- The order lacks the axis, or the axis lacks an extent. -/
  | missingAxis (axis : Axis) (order : AxisOrder)
  /-- An extent is given for an axis outside the order. -/
  | unexpectedAxis (axis : Axis) (order : AxisOrder)
  /-- The number of elements is no count. -/
  | sizeOverflow (order : AxisOrder)
deriving DecidableEq

/-- Wording. -/
def ShapeError.message : ShapeError → String
  | .emptyOrder => "axis order must contain at least one axis"
  | .duplicateAxis a => s!"axis {a} appears more than once in an axis order"
  | .unknownLetter c => s!"'{c}' is not an axis letter (valid: N, C, H, W, T)"
  | .rankMismatch o got => s!"order {o} has {o.rank} axes but {got} extents were given"
  | .zeroExtent a => s!"axis {a} has extent 0; every extent must be positive"
  | .missingAxis a o => s!"axis {a} is not present in order {o}"
  | .unexpectedAxis a o => s!"extent given for axis {a}, which is not part of order {o}"
  | .sizeOverflow o => s!"shape over order {o} has more elements than fit in usize"

end TensorGraph
