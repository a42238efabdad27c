import TensorGraph.Axis

/-!
# `TensorGraph.AxisOrder.Basic` — **axis orders**

An axis order is a non-empty sequence of distinct axes: the physical order of a tensor's
dimensions. Every such sequence is an order; whether an operator accepts it is decided by that
operator's shape rule.

## Contents
- **The type** `AxisOrder`, which carries that its axes are distinct and at least one.
- **Queries** `rank`, `position?`, `contains`, `isExactly`, `sameAxes`, `isConventional`.
- **The conventional orders**, by name and as a list.
-/

namespace TensorGraph

/-- A non-empty sequence of distinct axes. -/
structure AxisOrder where
  axes : List Axis
  axes_ne_nil : axes ≠ []
  nodup : axes.Nodup
deriving DecidableEq

namespace AxisOrder

/-- An order is determined by its axes. -/
theorem ext_axes {o p : AxisOrder} (h : o.axes = p.axes) : o = p := by
  cases o
  cases p
  cases h
  rfl

/-! ## Queries -/

/-- Number of axes. -/
def rank (o : AxisOrder) : Nat := o.axes.length

/-- Position of an axis in the order. -/
def position? (o : AxisOrder) (a : Axis) : Option Nat := o.axes.idxOf? a

/-- The axis is part of the order. -/
def contains (o : AxisOrder) (a : Axis) : Bool := o.axes.contains a

/-- The order is exactly the given sequence. -/
def isExactly (o : AxisOrder) (axes : List Axis) : Bool := o.axes == axes

/-- The given sequence is as long as the order and names axes of the order only. A sequence that
    repeats no axis is then a rearrangement of the order. -/
def sameAxes (o : AxisOrder) (axes : List Axis) : Bool :=
  o.rank == axes.length && axes.all o.contains

@[simp] theorem contains_iff {o : AxisOrder} {a : Axis} : o.contains a = true ↔ a ∈ o.axes := by
  simp [contains]

@[simp] theorem isExactly_iff {o : AxisOrder} {axes : List Axis} :
    o.isExactly axes = true ↔ o.axes = axes := by
  simp [isExactly]

/-! ## Conventional orders -/

def c : AxisOrder := ⟨[.channel], by decide, by decide⟩
def nc : AxisOrder := ⟨[.batch, .channel], by decide, by decide⟩
def cn : AxisOrder := ⟨[.channel, .batch], by decide, by decide⟩
def nt : AxisOrder := ⟨[.batch, .time], by decide, by decide⟩
def ntc : AxisOrder := ⟨[.batch, .time, .channel], by decide, by decide⟩
def nchw : AxisOrder := ⟨[.batch, .channel, .height, .width], by decide, by decide⟩
def nhwc : AxisOrder := ⟨[.batch, .height, .width, .channel], by decide, by decide⟩
def cnhw : AxisOrder := ⟨[.channel, .batch, .height, .width], by decide, by decide⟩
def chwn : AxisOrder := ⟨[.channel, .height, .width, .batch], by decide, by decide⟩
def hwcn : AxisOrder := ⟨[.height, .width, .channel, .batch], by decide, by decide⟩
def hwnc : AxisOrder := ⟨[.height, .width, .batch, .channel], by decide, by decide⟩

/-- The orders that tensors come in by convention. -/
def conventional : List AxisOrder := [c, nc, cn, nt, ntc, nchw, nhwc, cnhw, chwn, hwcn, hwnc]

/-- The order is one of the conventional ones. -/
def isConventional (o : AxisOrder) : Bool := conventional.any fun k => o.isExactly k.axes

/-! ## Written form -/

/-- The letters of an order. -/
def letters (o : AxisOrder) : List Char := o.axes.map Axis.letter

/-- Written form: the letters, one after another. -/
def text (o : AxisOrder) : String := String.ofList o.letters

/-- Form for inspection, which tells an order from a plain text. -/
def inspect (o : AxisOrder) : String := s!"AxisOrder({o.text})"

instance : ToString AxisOrder := ⟨text⟩

end AxisOrder

end TensorGraph
