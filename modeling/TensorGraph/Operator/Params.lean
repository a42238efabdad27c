import TensorGraph.Operator.Kind
import TensorGraph.Operator.Window
import TensorGraph.Operator.Error

/-!
# `TensorGraph.Operator.Params` — **typed operator parameters**

One constructor per operator family. Typed parameters are made from attributes by
`Params.ofAttributes`, which accepts them only if they hold every parameter of the kind,
well-formed, and nothing else; `Params.toAttributes` writes parameters down again.

## Contents
- **The type** `Params`, its kind, and when it is `Valid`.
- **Writing** `toAttributes`. Words are written as signed integers of the same bits.
- **Reading** `ofAttributes`. Parameters are looked at in the order of `OperatorKind.fields`, then
  the window as a whole, then names that the kind does not have.
-/

namespace TensorGraph

/-- Parameters of an operator. -/
inductive Params where
  | convolution (window : Window)
  | pooling (variant : Pooling) (window : Window)
  | linear
  | axiswise (variant : AxiswiseRole) (axis : Axis)
  | activation (variant : Activation)
  | elementwiseSum
  | reduce (variant : Reduction) (axis : Axis)
deriving DecidableEq

/-- Names of the parameters of a kind, in the order in which they are read. -/
def OperatorKind.fields : OperatorKind → List String
  | .convolution | .pooling _ => ["ksize", "stride", "padding"]
  | .axiswise _ | .reduce _ => ["axis"]
  | .linear | .activation _ | .elementwiseSum => []

/-- The first thing wrong with a window. -/
def Window.fault? (w : Window) : Option ParamFault :=
  if ¬ w.kernel.Positive then some .emptyKernel
  else if ¬ w.stride.Positive then some .zeroStride
  else none

theorem Window.fault?_eq_none_iff {w : Window} : w.fault? = none ↔ w.Valid := by
  unfold Window.fault? Window.Valid
  by_cases hk : w.kernel.Positive <;> by_cases hs : w.stride.Positive <;> simp [hk, hs]

namespace Params

/-- The kind that the parameters belong to. -/
def kind : Params → OperatorKind
  | convolution _ => .convolution
  | pooling v _ => .pooling v
  | linear => .linear
  | axiswise v _ => .axiswise v
  | activation v => .activation v
  | elementwiseSum => .elementwiseSum
  | reduce v _ => .reduce v

/-- The window, in the families that have one. -/
def window? : Params → Option Window
  | convolution w | pooling _ w => some w
  | _ => none

/-- A window among the parameters is valid. -/
def Valid (p : Params) : Prop := ∀ w, p.window? = some w → w.Valid

/-- The first thing wrong with typed parameters. -/
def fault? (p : Params) : Option ParamFault := p.window?.bind Window.fault?

theorem fault?_eq_none_iff {p : Params} : p.fault? = none ↔ p.Valid := by
  unfold fault? Valid
  cases h : p.window? <;> simp [Window.fault?_eq_none_iff]

instance (p : Params) : Decidable p.Valid := decidable_of_iff _ fault?_eq_none_iff

/-- Without a window there is nothing to be wrong. -/
theorem valid_activation (v : Activation) : (activation v).Valid := nofun

theorem valid_elementwiseSum : elementwiseSum.Valid := nofun

/-! ## Writing -/

/-- A size as a pair of signed integers of the same bits. -/
def sizeValue (s : Spatial) : Attribute := .pair s.height.toInt64 s.width.toInt64

/-- The attributes that describe the parameters. -/
def toAttributes : Params → Attributes
  | convolution w | pooling _ w =>
    .ofList [("ksize", sizeValue w.kernel), ("stride", sizeValue w.stride),
      ("padding", sizeValue w.padding)]
  | axiswise _ a | reduce _ a => .ofList [("axis", .axis a)]
  | linear | activation _ | elementwiseSum => .empty

/-! ## Reading -/

/-- The value of a required parameter. -/
def require (attrs : Attributes) (field : String) : Except ParamFault Attribute :=
  match attrs.find? field with
  | some v => .ok v
  | none => .error (.missing field)

/-- A component of a size as a word. -/
def readWord (field : String) (n : Int64) : Except ParamFault UInt64 :=
  if n.toInt < 0 then .error (.negative field n) else .ok n.toUInt64

/-- A required size; one integer stands for both components. -/
def readSize (attrs : Attributes) (field : String) : Except ParamFault Spatial := do
  match ← require attrs field with
  | .int n => return ⟨← readWord field n, ← readWord field n⟩
  | .pair a b => return ⟨← readWord field a, ← readWord field b⟩
  | found => throw (.notSize field found)

/-- A required axis. -/
def readAxis (attrs : Attributes) (field : String) : Except ParamFault Axis := do
  match ← require attrs field with
  | .axis a => return a
  | found => throw (.notAxis field found)

/-- A required window, which has to be valid. -/
def readWindow (attrs : Attributes) : Except ParamFault Window := do
  let kernel ← readSize attrs "ksize"
  let stride ← readSize attrs "stride"
  let padding ← readSize attrs "padding"
  let window : Window := ⟨kernel, stride, padding⟩
  match window.fault? with
  | some fault => throw fault
  | none => return window

/-- Refuses the smallest name that is not among the fields. -/
def refuseOthers (attrs : Attributes) (fields : List String) : Except ParamFault Unit :=
  match attrs.keys.find? (· ∉ fields) with
  | some key => .error (.unknown key)
  | none => .ok ()

/-- The parameters that a kind finds in attributes, other names apart. -/
def readFields (kind : OperatorKind) (attrs : Attributes) : Except ParamFault Params :=
  match kind with
  | .convolution => convolution <$> readWindow attrs
  | .pooling v => pooling v <$> readWindow attrs
  | .linear => .ok linear
  | .axiswise v => axiswise v <$> readAxis attrs "axis"
  | .activation v => .ok (activation v)
  | .elementwiseSum => .ok elementwiseSum
  | .reduce v => reduce v <$> readAxis attrs "axis"

/-- The parameters that attributes describe for a kind. -/
def ofAttributes (kind : OperatorKind) (attrs : Attributes) : Except ParamFault Params := do
  let params ← readFields kind attrs
  refuseOthers attrs kind.fields
  return params

/-! ## What is read is valid -/

theorem readWindow_valid {attrs : Attributes} {w : Window} (h : readWindow attrs = .ok w) :
    w.Valid := by
  simp only [readWindow, bind, Except.bind, pure, Except.pure, throw, throwThe,
    MonadExceptOf.throw] at h
  repeat' (split at h; · cases h)
  cases h
  exact Window.fault?_eq_none_iff.mp (by assumption)

theorem readFields_valid {kind : OperatorKind} {attrs : Attributes} {p : Params}
    (h : readFields kind attrs = .ok p) : p.Valid := by
  intro w hw
  cases kind <;>
    simp only [readFields, Functor.map, Except.map, Except.ok.injEq] at h <;>
    (try split at h) <;> cases h <;> simp only [window?, Option.some.injEq, reduceCtorEq] at hw
  all_goals
    subst hw
    exact readWindow_valid (by assumption)

/-- **Parameters read from attributes are valid.** -/
theorem ofAttributes_valid {kind : OperatorKind} {attrs : Attributes} {p : Params}
    (h : ofAttributes kind attrs = .ok p) : p.Valid := by
  simp only [ofAttributes, bind, Except.bind, pure, Except.pure] at h
  split at h
  · cases h
  · split at h
    · cases h
    · cases h
      exact readFields_valid (by assumption)

end Params

end TensorGraph
