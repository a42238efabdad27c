import TensorGraph.Capability

/-!
# `TensorGraph.Operator.Kind` — **the kinds of operators**

Operators come in seven families. The family decides the parameters, the input slots and the shape
rule; within a family a *variant* tells numeric meanings apart and changes nothing else. A kind is
a family with its variant.

## Contents
- **Variants** of pooling, axiswise operators, activations and reductions.
- **Kinds** with their written names, capabilities and slots.
-/

namespace TensorGraph

/-- How a pooling window is summarised. -/
inductive Pooling where
  | max
  | average
deriving DecidableEq, Repr, Inhabited

/-- What a one-axis operand does to the input. -/
inductive AxiswiseRole where
  | bias
  | scale
deriving DecidableEq, Repr, Inhabited

/-- A nonlinearity applied to every element. -/
inductive Activation where
  | relu
  | sigmoid
  | tanh
  | elu
deriving DecidableEq, Repr, Inhabited

/-- How one axis is folded away. -/
inductive Reduction where
  | argMin
  | argMax
  | sum
  | mean
  | max
  | min
  | prod
deriving DecidableEq, Repr, Inhabited

/-- An operator family with its variant. -/
inductive OperatorKind where
  | convolution
  | pooling (variant : Pooling)
  | linear
  | axiswise (variant : AxiswiseRole)
  | activation (variant : Activation)
  | elementwiseSum
  | reduce (variant : Reduction)
deriving DecidableEq, Repr, Inhabited

namespace OperatorKind

/-- All kinds, family by family. -/
def all : List OperatorKind :=
  [convolution, pooling .max, pooling .average, linear, axiswise .bias, axiswise .scale,
   activation .relu, activation .sigmoid, activation .tanh, activation .elu, elementwiseSum,
   reduce .argMin, reduce .argMax, reduce .sum, reduce .mean, reduce .max, reduce .min,
   reduce .prod]

/-- Written name. -/
def name : OperatorKind → String
  | convolution => "Convolution2D"
  | pooling .max => "MaxPooling2D"
  | pooling .average => "AveragePooling2D"
  | linear => "Linear"
  | axiswise .bias => "AxiswiseBias"
  | axiswise .scale => "AxiswiseScale"
  | activation .relu => "Relu"
  | activation .sigmoid => "Sigmoid"
  | activation .tanh => "Tanh"
  | activation .elu => "Elu"
  | elementwiseSum => "ElementwiseSum"
  | reduce .argMin => "ArgMin"
  | reduce .argMax => "ArgMax"
  | reduce .sum => "ReduceSum"
  | reduce .mean => "ReduceMean"
  | reduce .max => "ReduceMax"
  | reduce .min => "ReduceMin"
  | reduce .prod => "ReduceProd"

/-- The kind of a name. -/
def ofName? (s : String) : Option OperatorKind := all.find? fun k => k.name == s

instance : ToString OperatorKind := ⟨name⟩

/-! ## Capabilities -/

/-- Another operator may be fused after this one. -/
def fusable : CapabilitySet := .ofList [.supportsPostElementwise, .supportsPostAxiswise]

/-- The capabilities that a kind declares. -/
def capabilities : OperatorKind → CapabilitySet
  | convolution | linear => fusable.insert .hasLearnedWeights
  | pooling _ => fusable
  | axiswise _ => ((fusable.insert .hasLearnedWeights).insert .axiswise).insert .inplace
  | activation _ => (fusable.insert .elementwise).insert .inplace
  | elementwiseSum => fusable.insert .elementwise
  | reduce _ => .empty

/-- The kind declares the capability. -/
def hasCapability (k : OperatorKind) (c : Capability) : Bool := k.capabilities.contains c

/-! ## Slots -/

/-- Names of the input slots, in the order in which inputs are given. -/
def inputSlots : OperatorKind → List String
  | convolution | linear => ["x", "w"]
  | axiswise _ => ["x", "b"]
  | elementwiseSum => ["x0", "x1"]
  | pooling _ | activation _ | reduce _ => ["x"]

/-- Names of the output slots, in the order in which outputs are made. -/
def outputSlots (_ : OperatorKind) : List String := ["y"]

theorem mem_all : ∀ k : OperatorKind, k ∈ all
  | convolution | linear | elementwiseSum => by decide
  | pooling v => by cases v <;> decide
  | axiswise v => by cases v <;> decide
  | activation v => by cases v <;> decide
  | reduce v => by cases v <;> decide

@[simp] theorem ofName?_name : ∀ k : OperatorKind, ofName? k.name = some k
  | convolution | linear | elementwiseSum => by rfl
  | pooling v => by cases v <;> rfl
  | axiswise v => by cases v <;> rfl
  | activation v => by cases v <;> rfl
  | reduce v => by cases v <;> rfl

end OperatorKind

end TensorGraph
