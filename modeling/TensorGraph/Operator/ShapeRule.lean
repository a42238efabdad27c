import TensorGraph.Graph.ApplyError
import TensorGraph.Operator.Params
import TensorGraph.Shape.Basic

/-!
# `TensorGraph.Operator.ShapeRule` — **the output shape of an operator**

One rule per operator family, from the input shapes in slot order to the output shapes in slot
order. Rules address extents by axis and only read shapes; names, variables and wiring belong to
the graph. The first check that fails is the fault reported, so the order of checks is part of a
rule.

## Contents
- **Questions to a shape.** `need` an extent, `matchExtent`.
- **Windows.** `windowExtent` along one axis, `windowExtents` over height and width, and the two
  `WindowLayout`s in which windows move.
- **The rules** of the families, and `Params.outputShapes`, which picks the rule.
-/

namespace TensorGraph

namespace ShapeRule

/-! ## Questions to a shape -/

/-- The extent of an axis that the slot has to have. -/
def need (slot : String) (s : Shape) (a : Axis) : Except ApplyFault Nat :=
  match s.extent? a with
  | some extent => .ok extent
  | none => .error (.axisNotPresent slot a s.order)

/-- The slot's extent on an axis is the expected one. -/
def matchExtent (slot : String) (s : Shape) (a : Axis) (expected : Nat) :
    Except ApplyFault Unit := do
  let got ← need slot s a
  if got = expected then return () else throw (.extentMismatch slot a expected got)

/-- The shape over an order, as the output of an operator. -/
def outputShape (order : AxisOrder) (dims : List Nat) : Except ApplyFault Shape :=
  (Shape.ofDims order dims).mapError .invalidShape

/-! ## Windows -/

/-- The output extent along one axis: how many positions a window of `kernel` elements takes in an
    axis padded on both sides, moving by `stride`. -/
def windowExtent (a : Axis) (extent kernel stride padding : Nat) : Except ApplyFault Nat :=
  match Window.padded? extent padding with
  | none => .error (.extentOverflow a extent padding)
  | some padded =>
    if kernel ≤ padded then .ok ((padded - kernel) / stride + 1)
    else .error (.windowTooLarge a extent kernel padding)

/-- The output's height and width. -/
def windowExtents (w : Window) (x : Shape) : Except ApplyFault (Nat × Nat) := do
  let height ← need "x" x .height
  let width ← need "x" x .width
  let height' ← windowExtent .height height w.kernel.height.toNat w.stride.height.toNat
    w.padding.height.toNat
  let width' ← windowExtent .width width w.kernel.width.toNat w.stride.width.toNat
    w.padding.width.toNat
  return (height', width')

/-- The layouts in which a window moves. -/
inductive WindowLayout where
  | channelsFirst
  | channelsLast
deriving DecidableEq

namespace WindowLayout

/-- The layout's axis order. -/
def order : WindowLayout → AxisOrder
  | channelsFirst => .nchw
  | channelsLast => .nhwc

/-- The layout that an axis order is. -/
def ofOrder (slot : String) (order : AxisOrder) : Except ApplyFault WindowLayout :=
  if order.isExactly AxisOrder.nchw.axes then .ok channelsFirst
  else if order.isExactly AxisOrder.nhwc.axes then .ok channelsLast
  else .error (.unsupportedLayout slot order)

/-- The output shape in the layout. -/
def shape (layout : WindowLayout) (n c h w : Nat) : Except ApplyFault Shape :=
  outputShape layout.order <|
    match layout with
    | channelsFirst => [n, c, h, w]
    | channelsLast => [n, h, w, c]

end WindowLayout

/-! ## The rules -/

/-- Convolution without bias: a window over `x`, with a weight `w` that has the window's height and
    width, the channels of `x`, and one batch entry per output channel. -/
def convolution (window : Window) (x w : Shape) : Except ApplyFault Shape := do
  let layout ← WindowLayout.ofOrder "x" x.order
  unless w.order.sameAxes AxisOrder.nchw.axes do
    throw (.orderMismatch "w" w.order .convolutionWeight)
  matchExtent "w" w .height window.kernel.height.toNat
  matchExtent "w" w .width window.kernel.width.toNat
  matchExtent "w" w .channel (← need "x" x .channel)
  let n ← need "x" x .batch
  let c ← need "w" w .batch
  let (height, width) ← windowExtents window x
  layout.shape n c height width

/-- Pooling: a window over `x`; batch and channels pass through. -/
def pooling (window : Window) (x : Shape) : Except ApplyFault Shape := do
  let layout ← WindowLayout.ofOrder "x" x.order
  let n ← need "x" x .batch
  let c ← need "x" x .channel
  let (height, width) ← windowExtents window x
  layout.shape n c height width

/-- A fully connected layer without bias: the weight's channels are those of `x`, its batch entries
    the output channels. -/
def linear (x w : Shape) : Except ApplyFault Shape := do
  unless x.order.isExactly AxisOrder.nc.axes do
    throw (.unsupportedLayout "x" x.order)
  unless w.order.sameAxes AxisOrder.nc.axes do
    throw (.orderMismatch "w" w.order .linearWeight)
  matchExtent "w" w .channel (← need "x" x .channel)
  let n ← need "x" x .batch
  let c ← need "w" w .batch
  outputShape .nc [n, c]

/-- A vector `b` broadcast along one axis of `x`; the output has the shape of `x`. -/
def axiswise (a : Axis) (x b : Shape) : Except ApplyFault Shape := do
  let expected ← need "x" x a
  unless b.order.isExactly [a] do
    throw (.orderMismatch "b" b.order (.only a))
  matchExtent "b" b a expected
  return x

/-- Sum of two tensors of the same layout and extents. -/
def elementwiseSum (x0 x1 : Shape) : Except ApplyFault Shape := do
  unless x0.order = x1.order do
    throw (.orderMismatch "x1" x1.order (.sameAs x0.order))
  x0.pairs.forM fun p => matchExtent "x1" x1 p.1 p.2
  return x0

/-- Folding one axis away: the other axes keep their extents and places. -/
def reduce (a : Axis) (x : Shape) : Except ApplyFault Shape := do
  let _ ← need "x" x a
  match x.dropAxis a with
  | .ok y => return y
  | .error .emptyOrder => throw (.orderMismatch "x" x.order .twoAxes)
  | .error cause => throw (.invalidShape cause)

end ShapeRule

/-- The output shapes of an operator with the given parameters, in slot order. -/
def Params.outputShapes (p : Params) (inputs : List Shape) : Except ApplyFault (List Shape) := do
  let y ←
    match p, inputs with
    | .convolution window, [x, w] => ShapeRule.convolution window x w
    | .pooling _ window, [x] => ShapeRule.pooling window x
    | .linear, [x, w] => ShapeRule.linear x w
    | .axiswise _ axis, [x, b] => ShapeRule.axiswise axis x b
    | .activation _, [x] => .ok x
    | .elementwiseSum, [x0, x1] => ShapeRule.elementwiseSum x0 x1
    | .reduce _ axis, [x] => ShapeRule.reduce axis x
    | _, _ => .error (.arity p.kind.inputSlots inputs.length)
  return [y]

end TensorGraph
