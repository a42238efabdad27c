import TensorGraph.AxisOrder.Stored

/-!
# `TensorGraph.Shape.Stored` — **shapes as they are kept**

A shape is kept as an order with its table and one word per axis. `StoredShape` is plain data, and
its number of elements is a product of words that wraps: that it is the true one is a matter of what
the constructors have checked.

## Contents
- **Products of words**, checked and not.
- **Constructors** `new`, `fromMap`, `withoutAxis`, and from JSON.
- **Queries**, which go through the order's table.
-/

namespace TensorGraph

/-- The product of two words, if it is one. -/
def Count.checkedMul? (a b : UInt64) : Option UInt64 :=
  if a.toNat * b.toNat < UInt64.size then some (a * b) else none

/-- An order with one word per axis. -/
structure StoredShape where
  order : StoredOrder
  dims : List UInt64
deriving DecidableEq

namespace StoredShape

/-! ## Constructors -/

/-- The shape whose `i`-th axis has the `i`-th extent. The number of extents is looked at first,
    then zero extents, then the product, from the left and as far as it goes. -/
def new (order : StoredOrder) (dims : List UInt64) : Except ShapeError StoredShape :=
  if dims.length ≠ order.rank then .error (.rankMismatch order.shown dims.length)
  else
    match (order.axes.zip dims).find? fun p => p.2 == 0 with
    | some p => .error (.zeroExtent p.1)
    | none =>
      match dims.foldlM Count.checkedMul? 1 with
      | none => .error (.sizeOverflow order.shown)
      | some _ => .ok ⟨order, dims⟩

/-- The extents gathered so far, with one more pair put in the place that the table has for it. -/
def placeExtent (order : StoredOrder) (places : List (Option UInt64)) (p : Axis × UInt64) :
    Except ShapeError (List (Option UInt64)) :=
  match order.position? p.1 with
  | none => .error (.unexpectedAxis p.1 order.shown)
  | some i =>
    match places[i]? with
    | some (some _) => .error (.duplicateAxis p.1)
    | _ => .ok (places.set i (some p.2))

/-- The extent in a place, or its axis as the reason. -/
def takeExtent (order : StoredOrder) (p : Axis × Option UInt64) : Except ShapeError UInt64 :=
  match p.2 with
  | some extent => .ok extent
  | none => .error (.missingAxis p.1 order.shown)

/-- The shape with the given extent on each axis. -/
def fromMap (order : StoredOrder) (extents : List (Axis × UInt64)) :
    Except ShapeError StoredShape := do
  let places ← extents.foldlM (placeExtent order) (List.replicate order.rank none)
  let dims ← (order.axes.zip places).mapM (takeExtent order)
  new order dims

/-- Takes a shape off a JSON text. -/
def read : Json.Reader StoredShape := fun cs => do
  let (parts, rest) ← Json.readFields ("order", StoredOrder.read)
    ("dims", Json.Codec.word.list.read) Json.skim cs
  let order ← Json.required parts.1
  let dims ← Json.required parts.2
  let s ← (new order dims).mapError .invalid
  return (s, rest)

/-! ## Queries -/

/-- Pairs of axis and extent, in layout order. -/
def iter (s : StoredShape) : List (Axis × UInt64) := s.order.axes.zip s.dims

/-- Extent of an axis, from the place that the table has for it. -/
def get (s : StoredShape) (a : Axis) : Option UInt64 :=
  (s.order.position? a).bind fun i => s.dims[i]?

/-- Number of elements, as far as a word holds it. -/
def size (s : StoredShape) : UInt64 := s.dims.foldl (· * ·) 1

/-- The shape with one axis removed from the order and the extents. -/
def withoutAxis (s : StoredShape) (a : Axis) : Except ShapeError StoredShape := do
  let order ← s.order.without a
  new order ((s.iter.filter fun p => p.1 ≠ a).map Prod.snd)

end StoredShape

end TensorGraph
