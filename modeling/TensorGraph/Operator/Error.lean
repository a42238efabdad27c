import TensorGraph.Operator.Attributes

/-!
# `TensorGraph.Operator.Error` — **why an operator cannot be constructed**

Every cause but an unknown kind is about one parameter, where an operator's name counts as a
parameter of its own. `ParamFault` has the causes, `ConstructError` adds whose they are.
-/

namespace TensorGraph

/-- What is wrong with one parameter. -/
inductive ParamFault where
  /-- The parameter is required. -/
  | missing (field : String)
  /-- A size takes an integer or a pair. -/
  | notSize (field : String) (found : Attribute)
  /-- A component of a size is below zero. -/
  | negative (field : String) (component : Int64)
  /-- The parameter takes an axis. -/
  | notAxis (field : String) (found : Attribute)
  /-- A window without elements. -/
  | emptyKernel
  /-- A window that does not move. -/
  | zeroStride
  /-- The kind has no parameter of that name. -/
  | unknown (field : String)
  /-- The operator's name holds nothing but white space. -/
  | blankName
deriving DecidableEq

namespace ParamFault

/-- The parameter at fault. -/
def field : ParamFault → String
  | missing f | notSize f _ | negative f _ | notAxis f _ | unknown f => f
  | emptyKernel => "ksize"
  | zeroStride => "stride"
  | blankName => "name"

/-- What is wrong with a parameter that is there. -/
def reason? : ParamFault → Option String
  | missing _ => none
  | notSize _ found => some s!"expected an integer pair, found {found.sortName}"
  | negative _ component => some s!"component {component.toInt} must not be negative"
  | notAxis _ found => some s!"expected an axis, found {found.sortName}"
  | emptyKernel => some "kernel size components must be >= 1"
  | zeroStride => some "stride components must be >= 1"
  | unknown _ => some "unknown parameter"
  | blankName => some "operator name must not be empty"

end ParamFault

/-- Why an operator cannot be constructed. -/
inductive ConstructError where
  /-- A parameter of the operator is at fault. -/
  | parameter (op : String) (fault : ParamFault)
  /-- No kind has that name. -/
  | unknownKind (kind : String)
deriving DecidableEq

namespace ConstructError

/-- The parameter at fault, if there is one. -/
def field? : ConstructError → Option String
  | parameter _ fault => some fault.field
  | unknownKind _ => none

/-- Wording. -/
def message : ConstructError → String
  | parameter op fault =>
    match fault.reason? with
    | none => s!"operator '{op}' is missing required parameter '{fault.field}'"
    | some reason => s!"operator '{op}' has an invalid parameter '{fault.field}': {reason}"
  | unknownKind kind => s!"unknown operator kind '{kind}'"

end ConstructError

end TensorGraph
