import TensorGraph.AxisOrder.Build
import TensorGraph.Json.Forms

/-!
# `TensorGraph.AxisOrder.Stored` — **orders as they are kept**

An order is kept with a table that has, for each of the five axes, its position as a byte. Queries
by axis read the table and never search, and two orders are compared with their tables. `StoredOrder`
is plain data: nothing in the type says that the table fits the axes or that these make an order.

## Contents
- **Tables** of positions.
- **Constructors.** `new` looks into the table before it enters a position, `ofStatic` enters
  without looking; texts, JSON and `without` end in `new`.
- **Queries** by the table.
-/

namespace TensorGraph

theorem Axis.index_lt (a : Axis) : a.index < 5 := by cases a <;> decide

/-! ## Tables -/

/-- For each axis, at its index, a position in one byte. -/
abbrev PositionTable := Vector (Option UInt8) 5

namespace PositionTable

/-- The table without positions. -/
def blank : PositionTable := .replicate 5 none

/-- The position of an axis. -/
def at? (t : PositionTable) (a : Axis) : Option UInt8 :=
  have := a.index_lt
  t[a.index]

/-- The table with the position of an axis, cut down to a byte. -/
def enter (t : PositionTable) (a : Axis) (position : Nat) : PositionTable :=
  t.set a.index (some (UInt8.ofNat position)) a.index_lt

/-- Enters axes one after another, whatever is there already. -/
def fill (t : PositionTable) (position : Nat) : List Axis → PositionTable
  | [] => t
  | a :: rest => fill (t.enter a position) (position + 1) rest

/-- Enters axes one after another, unless one is there already. -/
def fill? (t : PositionTable) (position : Nat) : List Axis → Except ShapeError PositionTable
  | [] => .ok t
  | a :: rest =>
    if (t.at? a).isSome then .error (.duplicateAxis a)
    else fill? (t.enter a position) (position + 1) rest

end PositionTable

/-- Axes with a table of their positions. -/
structure StoredOrder where
  axes : List Axis
  positions : PositionTable
deriving DecidableEq

namespace StoredOrder

/-! ## Constructors -/

/-- The order over a sequence of axes, unless it is empty or repeats an axis. -/
def new (axes : List Axis) : Except ShapeError StoredOrder :=
  if axes = [] then .error .emptyOrder
  else do
    let positions ← PositionTable.blank.fill? 0 axes
    return ⟨axes, positions⟩

/-- The order over axes that are known to make one. -/
def ofStatic (axes : List Axis) : StoredOrder := ⟨axes, PositionTable.blank.fill 0 axes⟩

/-- The conventional orders, from their axes. -/
def conventional : List StoredOrder := AxisOrder.conventional.map fun o => ofStatic o.axes

/-- The order that a text spells. -/
def parse (text : String) : Except ShapeError StoredOrder := do
  new (← text.toList.mapM AxisOrder.readLetter)

/-- Takes an order off a JSON text. -/
def read : Json.Reader StoredOrder := Json.readInto Json.readString parse

/-! ## Queries -/

/-- Number of axes. -/
def rank (o : StoredOrder) : Nat := o.axes.length

/-- Position of an axis in the order. -/
def position? (o : StoredOrder) (a : Axis) : Option Nat := (o.positions.at? a).map UInt8.toNat

/-- The axis is part of the order. -/
def contains (o : StoredOrder) (a : Axis) : Bool := (o.positions.at? a).isSome

/-- Written form: the letters, one after another. -/
def text (o : StoredOrder) : String := String.ofList (o.axes.map Axis.letter)

/-- The order as errors show it. Axes that make no order are shown as `C`. -/
def shown (o : StoredOrder) : AxisOrder :=
  if h : o.axes ≠ [] ∧ o.axes.Nodup then ⟨o.axes, h.1, h.2⟩ else .c

/-- The order with one axis left out; the other axes keep their order. -/
def without (o : StoredOrder) (a : Axis) : Except ShapeError StoredOrder :=
  if o.contains a then new (o.axes.filter (· ≠ a)) else .error (.missingAxis a o.shown)

end StoredOrder

end TensorGraph
