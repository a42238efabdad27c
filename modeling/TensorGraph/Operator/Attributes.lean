import TensorGraph.Axis
import TensorGraph.NameMap

/-!
# `TensorGraph.Operator.Attributes` — **parameters before they are typed**

A frontend describes an operator's parameters by attributes: named values, each a signed 64-bit
integer, a pair of such, or an axis. Attributes say nothing about which names an operator needs;
that is decided where they are read for a kind.
-/

namespace TensorGraph

/-- A literal value. -/
inductive Attribute where
  | int (n : Int64)
  | pair (first second : Int64)
  | axis (a : Axis)
deriving DecidableEq

namespace Attribute

/-- What sort of value it is, in diagnostics. -/
def sortName : Attribute → String
  | int _ => "integer"
  | pair _ _ => "pair"
  | axis _ => "axis"

/-- Written form. -/
def text : Attribute → String
  | int n => toString n.toInt
  | pair a b => s!"({a.toInt}, {b.toInt})"
  | axis a => a.text

instance : ToString Attribute := ⟨text⟩

end Attribute

/-- Values by name. -/
abbrev Attributes := NameMap Attribute

/-- Written form: `name=value` for every entry, in order of names. -/
def Attributes.text (attrs : Attributes) : String :=
  ", ".intercalate (attrs.entries.map fun e => s!"{e.1}={e.2}")

end TensorGraph
