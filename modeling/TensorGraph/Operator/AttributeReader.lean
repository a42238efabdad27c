import TensorGraph.Operator.Params

/-!
# `TensorGraph.Operator.AttributeReader` — **reading attributes question by question**

`Params.ofAttributes` refuses the names that are not among the fields of the kind. Here parameters
are read by asking for one name after another; a reader notes what it was asked for, and at the end
refuses the names that nobody asked for. Which names a kind has is nowhere written down: a question
too few and a parameter would be refused, one too many and a stranger would get in.

## Contents
- **Readers** and readings.
- **Questions**: a required value, a size, an axis, a window.
- **Parameters** of a kind, and `finish`.
-/

namespace TensorGraph

/-- Attributes, and the names that were asked for so far. -/
structure AttributeReader where
  attrs : Attributes
  asked : List String

namespace AttributeReader

/-- A computation that asks for attributes and may fail. -/
abbrev Reading (α : Type) : Type := StateT AttributeReader (Except ParamFault) α

/-! ## Questions -/

/-- The value of a required parameter. The name counts as asked for even if there is no value. -/
def require (field : String) : Reading Attribute := do
  modify fun r => { r with asked := r.asked ++ [field] }
  match (← get).attrs.find? field with
  | some v => return v
  | none => throw (.missing field)

/-- A required size; one integer stands for both components. -/
def size (field : String) : Reading Spatial := do
  match ← require field with
  | .int n => return ⟨← Params.readWord field n, ← Params.readWord field n⟩
  | .pair a b => return ⟨← Params.readWord field a, ← Params.readWord field b⟩
  | found => throw (.notSize field found)

/-- A required axis. -/
def axis (field : String) : Reading Axis := do
  match ← require field with
  | .axis a => return a
  | found => throw (.notAxis field found)

/-- A required window, which has to be valid. -/
def window : Reading Window := do
  let kernel ← size "ksize"
  let stride ← size "stride"
  let padding ← size "padding"
  let window : Window := ⟨kernel, stride, padding⟩
  match window.fault? with
  | some fault => throw fault
  | none => return window

/-! ## Parameters -/

/-- The parameters of a kind. -/
def params : OperatorKind → Reading Params
  | .convolution => return .convolution (← window)
  | .pooling v => return .pooling v (← window)
  | .linear => return .linear
  | .axiswise v => return .axiswise v (← axis "axis")
  | .activation v => return .activation v
  | .elementwiseSum => return .elementwiseSum
  | .reduce v => return .reduce v (← axis "axis")

/-- Refuses the smallest name that nobody asked for. -/
def finish : Reading Unit := do
  let r ← get
  match r.attrs.keys.find? (· ∉ r.asked) with
  | some key => throw (.unknown key)
  | none => return ()

/-- The parameters of a kind, and nothing else. -/
def readAll (kind : OperatorKind) : Reading Params := do
  let p ← params kind
  finish
  return p

/-- The parameters that attributes describe for a kind, asked for by a reader of its own. -/
def answer (kind : OperatorKind) (attrs : Attributes) : Except ParamFault Params :=
  (readAll kind).run' ⟨attrs, []⟩

end AttributeReader

end TensorGraph
