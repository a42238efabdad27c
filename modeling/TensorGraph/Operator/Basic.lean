import TensorGraph.Operator.Params
import TensorGraph.Text.Blank

/-!
# `TensorGraph.Operator.Basic` — **operators before they are applied**

An operator has parameters and usually a name; it has no wiring. Without a name it gets one from the
graph that it is applied to. The type carries that a name is never blank and that a window is
valid, so every value of the type is what one of the constructors accepted.
-/

namespace TensorGraph

/-- A constructed operator. -/
structure Operator where
  /-- The name, unless the graph is to choose one. -/
  name? : Option String
  params : Params
  name_not_blank : ∀ n, name? = some n → Text.isBlank n = false
  params_valid : params.Valid
deriving DecidableEq

namespace Operator

/-- The name, empty for an operator without one. -/
def name (op : Operator) : String := op.name?.getD ""

def kind (op : Operator) : OperatorKind := op.params.kind

/-! ## Constructors -/

/-- An operator with a name and valid parameters. -/
def named (name : String) (params : Params) (hb : Text.isBlank name = false)
    (hv : params.Valid) : Operator :=
  ⟨some name, params, fun _ hn => Option.some.inj hn ▸ hb, hv⟩

/-- An operator without a name and with valid parameters. -/
def unnamed (params : Params) (hv : params.Valid) : Operator := ⟨none, params, nofun, hv⟩

/-- An operator from typed parameters. The name is looked at before the parameters. -/
def ofParams (name : String) (params : Params) : Except ConstructError Operator :=
  if hb : Text.isBlank name = false then
    match hf : params.fault? with
    | some fault => .error (.parameter name fault)
    | none => .ok (named name params hb (Params.fault?_eq_none_iff.mp hf))
  else .error (.parameter name .blankName)

/-- An operator that gets its name from the graph; until then it goes by its kind. -/
def anonymous (params : Params) : Except ConstructError Operator :=
  match hf : params.fault? with
  | some fault => .error (.parameter params.kind.name fault)
  | none => .ok ⟨none, params, nofun, Params.fault?_eq_none_iff.mp hf⟩

/-- An operator of a kind from attributes. The name is looked at before the attributes. -/
def ofAttributes (name : String) (kind : OperatorKind) (attrs : Attributes) :
    Except ConstructError Operator :=
  if hb : Text.isBlank name = false then
    match hr : Params.ofAttributes kind attrs with
    | .error fault => .error (.parameter name fault)
    | .ok params => .ok (named name params hb (Params.ofAttributes_valid hr))
  else .error (.parameter name .blankName)

/-- The kind that a text names. -/
def parseKind (s : String) : Except ConstructError OperatorKind :=
  match OperatorKind.ofName? s with
  | some kind => .ok kind
  | none => .error (.unknownKind s)

/-! ## Constructors by family -/

def convolution (name : String) (window : Window) : Except ConstructError Operator :=
  ofParams name (.convolution window)

def maxPooling (name : String) (window : Window) : Except ConstructError Operator :=
  ofParams name (.pooling .max window)

def averagePooling (name : String) (window : Window) : Except ConstructError Operator :=
  ofParams name (.pooling .average window)

def linear (name : String) : Except ConstructError Operator := ofParams name .linear

def axiswiseBias (name : String) (axis : Axis) : Except ConstructError Operator :=
  ofParams name (.axiswise .bias axis)

def axiswiseScale (name : String) (axis : Axis) : Except ConstructError Operator :=
  ofParams name (.axiswise .scale axis)

def activation (name : String) (variant : Activation) : Except ConstructError Operator :=
  ofParams name (.activation variant)

def relu (name : String) : Except ConstructError Operator := activation name .relu

def elementwiseSum (name : String) : Except ConstructError Operator := ofParams name .elementwiseSum

def reduce (name : String) (variant : Reduction) (axis : Axis) : Except ConstructError Operator :=
  ofParams name (.reduce variant axis)

def argMin (name : String) (axis : Axis) : Except ConstructError Operator :=
  reduce name .argMin axis

def argMax (name : String) (axis : Axis) : Except ConstructError Operator :=
  reduce name .argMax axis

end Operator

end TensorGraph
