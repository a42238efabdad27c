import TensorGraph.Operator.ShapeRule
import TensorGraph.Shape.Stored

/-!
# `TensorGraph.Operator.StoredRule` — **the rules over shapes as they are kept**

The shape rules as they read tables and count in words. Padding is checked; the quotient and the
last addition of a window are not, and wrap where they are no word. Layouts, messages and the order
of checks are those of `TensorGraph.ShapeRule`.

## Contents
- **Questions to a stored shape** and **windows** in words.
- **The rules** of the families, and `StoredShape.infer`, which picks the rule.
-/

namespace TensorGraph

/-- The sum of two words, if it is one. -/
def Count.checkedAdd? (a b : UInt64) : Option UInt64 :=
  if a.toNat + b.toNat < UInt64.size then some (a + b) else none

/-- The difference of two words, if it is one. -/
def Count.checkedSub? (a b : UInt64) : Option UInt64 :=
  if b ≤ a then some (a - b) else none

namespace StoredOrder

/-- The order is exactly the given sequence. -/
def isExactly (o : StoredOrder) (axes : List Axis) : Bool := o.axes == axes

/-- The given sequence is as long as the order and names axes that the table knows. -/
def sameAxes (o : StoredOrder) (axes : List Axis) : Bool :=
  o.rank == axes.length && axes.all o.contains

end StoredOrder

namespace StoredRule

open ShapeRule (WindowLayout)

/-! ## Questions to a stored shape -/

/-- The extent of an axis that the slot has to have. -/
def need (slot : String) (s : StoredShape) (a : Axis) : Except ApplyFault UInt64 :=
  match s.get a with
  | some extent => .ok extent
  | none => .error (.axisNotPresent slot a s.order.shown)

/-- The slot's extent on an axis is the expected one. -/
def matchExtent (slot : String) (s : StoredShape) (a : Axis) (expected : UInt64) :
    Except ApplyFault Unit := do
  let got ← need slot s a
  if got = expected then return ()
  else throw (.extentMismatch slot a expected.toNat got.toNat)

/-- The shape over an order, as the output of an operator. -/
def outputShape (order : StoredOrder) (dims : List UInt64) : Except ApplyFault StoredShape :=
  (StoredShape.new order dims).mapError .invalidShape

/-! ## Windows -/

/-- The extent with the padding of both sides, if that is a word. -/
def padded? (extent padding : UInt64) : Option UInt64 := do
  let both ← Count.checkedMul? padding 2
  Count.checkedAdd? both extent

/-- How many positions a window takes along an axis. -/
def positions? (extent kernel stride padding : UInt64) : Option UInt64 := do
  let padded ← padded? extent padding
  let span ← Count.checkedSub? padded kernel
  some (span / stride + 1)

/-- The output extent along one axis. -/
def windowExtent (a : Axis) (extent kernel stride padding : UInt64) : Except ApplyFault UInt64 :=
  match padded? extent padding with
  | none => .error (.extentOverflow a extent.toNat padding.toNat)
  | some padded =>
    if kernel ≤ padded then .ok ((padded - kernel) / stride + 1)
    else .error (.windowTooLarge a extent.toNat kernel.toNat padding.toNat)

/-- The output's height and width. -/
def windowExtents (w : Window) (x : StoredShape) : Except ApplyFault (UInt64 × UInt64) := do
  let height ← need "x" x .height
  let width ← need "x" x .width
  let height' ← windowExtent .height height w.kernel.height w.stride.height w.padding.height
  let width' ← windowExtent .width width w.kernel.width w.stride.width w.padding.width
  return (height', width')

/-- The layout that a stored order is. -/
def layoutOf (slot : String) (order : StoredOrder) : Except ApplyFault WindowLayout :=
  if order.isExactly AxisOrder.nchw.axes then .ok .channelsFirst
  else if order.isExactly AxisOrder.nhwc.axes then .ok .channelsLast
  else .error (.unsupportedLayout slot order.shown)

/-- The output shape in a layout. -/
def layoutShape (layout : WindowLayout) (n c h w : UInt64) : Except ApplyFault StoredShape :=
  outputShape (.ofStatic layout.order.axes) <|
    match layout with
    | .channelsFirst => [n, c, h, w]
    | .channelsLast => [n, h, w, c]

/-! ## The rules -/

/-- Convolution without bias. -/
def convolution (window : Window) (x w : StoredShape) : Except ApplyFault StoredShape := do
  let layout ← layoutOf "x" x.order
  unless w.order.sameAxes AxisOrder.nchw.axes do
    throw (.orderMismatch "w" w.order.shown .convolutionWeight)
  matchExtent "w" w .height window.kernel.height
  matchExtent "w" w .width window.kernel.width
  matchExtent "w" w .channel (← need "x" x .channel)
  let n ← need "x" x .batch
  let c ← need "w" w .batch
  let (height, width) ← windowExtents window x
  layoutShape layout n c height width

/-- Pooling. -/
def pooling (window : Window) (x : StoredShape) : Except ApplyFault StoredShape := do
  let layout ← layoutOf "x" x.order
  let n ← need "x" x .batch
  let c ← need "x" x .channel
  let (height, width) ← windowExtents window x
  layoutShape layout n c height width

/-- A fully connected layer without bias. -/
def linear (x w : StoredShape) : Except ApplyFault StoredShape := do
  unless x.order.isExactly AxisOrder.nc.axes do
    throw (.unsupportedLayout "x" x.order.shown)
  unless w.order.sameAxes AxisOrder.nc.axes do
    throw (.orderMismatch "w" w.order.shown .linearWeight)
  matchExtent "w" w .channel (← need "x" x .channel)
  let n ← need "x" x .batch
  let c ← need "w" w .batch
  outputShape (.ofStatic AxisOrder.nc.axes) [n, c]

/-- A vector `b` broadcast along one axis of `x`. -/
def axiswise (a : Axis) (x b : StoredShape) : Except ApplyFault StoredShape := do
  let expected ← need "x" x a
  unless b.order.isExactly [a] do
    throw (.orderMismatch "b" b.order.shown (.only a))
  matchExtent "b" b a expected
  return x

/-- Sum of two tensors. The orders are compared with their tables. -/
def elementwiseSum (x0 x1 : StoredShape) : Except ApplyFault StoredShape := do
  unless x0.order = x1.order do
    throw (.orderMismatch "x1" x1.order.shown (.sameAs x0.order.shown))
  x0.iter.forM fun p => matchExtent "x1" x1 p.1 p.2
  return x0

/-- Folding one axis away. -/
def reduce (a : Axis) (x : StoredShape) : Except ApplyFault StoredShape := do
  let _ ← need "x" x a
  match x.withoutAxis a with
  | .ok y => return y
  | .error .emptyOrder => throw (.orderMismatch "x" x.order.shown .twoAxes)
  | .error cause => throw (.invalidShape cause)

end StoredRule

/-- The stored output shapes of an operator with the given parameters, in slot order. -/
def StoredShape.infer (p : Params) (inputs : List StoredShape) :
    Except ApplyFault (List StoredShape) := do
  let y ←
    match p, inputs with
    | .convolution window, [x, w] => StoredRule.convolution window x w
    | .pooling _ window, [x] => StoredRule.pooling window x
    | .linear, [x, w] => StoredRule.linear x w
    | .axiswise _ axis, [x, b] => StoredRule.axiswise axis x b
    | .activation _, [x] => .ok x
    | .elementwiseSum, [x0, x1] => StoredRule.elementwiseSum x0 x1
    | .reduce _ axis, [x] => StoredRule.reduce axis x
    | _, _ => .error (.arity p.kind.inputSlots inputs.length)
  return [y]

end TensorGraph
