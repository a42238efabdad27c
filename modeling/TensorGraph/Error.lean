import TensorGraph.Pipeline
import TensorGraph.WeightLayout

/-!
# `TensorGraph.Error` — **all errors under one type**

Each part of the library has an error type of its own. `Error` holds any of them, with a category
for the reader, a stable code for tools, and the texts of the errors that caused it.
-/

namespace TensorGraph

/-- An error of any part of the library. -/
inductive Error where
  | shape (e : ShapeError)
  | construct (e : ConstructError)
  | apply (e : ApplyError)
  | graph (e : GraphError)
  | pass (e : PassError)
  | pipeline (e : PipelineError)
  | config (e : ConfigError)
  | layout (e : LayoutError)
deriving DecidableEq

namespace Error

/-- What the error is about. -/
def category : Error → String
  | shape _ => "shape error"
  | construct _ => "construction error"
  | apply _ => "apply error"
  | graph _ => "graph error"
  | pass _ | pipeline _ => "pass error"
  | config _ => "config error"
  | layout _ => "layout error"

/-- Wording, without the category. -/
def detail : Error → String
  | shape e => e.message
  | construct e => e.message
  | apply e => e.message
  | graph e => e.message
  | pass e => e.message
  | pipeline e => e.message
  | config e => e.message
  | layout e => e.message

/-- Wording. -/
def message (e : Error) : String := s!"[{e.category}] {e.detail}"

/-- The wordings of what caused the error, the nearest cause first. -/
def causes (e : Error) : List String :=
  e.detail ::
    match e with
    | apply ⟨_, .invalidShape cause⟩ => [cause.message]
    | pipeline p => [p.error.message]
    | _ => []

/-- Stable code. -/
def code : Error → String
  | shape e =>
    match e with
    | .emptyOrder => "E0001"
    | .duplicateAxis _ => "E0002"
    | .unknownLetter _ => "E0003"
    | .rankMismatch .. => "E0004"
    | .zeroExtent _ => "E0005"
    | .missingAxis .. => "E0006"
    | .unexpectedAxis .. => "E0007"
    | .sizeOverflow _ => "E0008"
  | construct e =>
    match e with
    | .parameter _ (.missing _) => "E0100"
    | .parameter .. => "E0101"
    | .unknownKind _ => "E0102"
  | apply e =>
    match e.fault with
    | .arity .. => "E0200"
    | .unknownVariable .. => "E0201"
    | .duplicateOperator => "E0202"
    | .extentMismatch .. => "E0203"
    | .axisNotPresent .. => "E0204"
    | .orderMismatch .. => "E0205"
    | .windowTooLarge .. => "E0206"
    | .unsupportedLayout .. => "E0207"
    | .invalidShape _ => "E0208"
    | .extentOverflow .. => "E0209"
  | graph e =>
    match e.fault with
    | .unknownVariable _ => "E0300"
    | .duplicateVariable _ => "E0301"
    | .rankLimit .. => "E0302"
  | pass _ => "E0400"
  | pipeline (.failed ..) => "E0401"
  | pipeline (.brokeGraph ..) => "E0402"
  | config _ => "E0500"
  | layout _ => "E0600"

end Error

end TensorGraph
