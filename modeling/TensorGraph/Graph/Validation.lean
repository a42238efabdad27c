import TensorGraph.Graph.Build
import TensorGraph.Graph.TopologicalOrder

/-!
# `TensorGraph.Graph.Validation` — **checking a graph**

Graphs that grow by the operations of `TensorGraph.Graph.Build` keep their links, indexes and shapes
in agreement. `Graph.check` establishes the same of any graph, so that passes which change one in
place can be checked afterwards. It reports the first disagreement: variables in arena order, then
operators in arena order, then the graph's inputs and outputs, then cycles.

## Contents
- **Causes** `Violation` with their wording.
- **Checks** of one variable, one operator and the graph's own inputs and outputs, and
  `Graph.check`.
-/

namespace TensorGraph

/-- What a graph may disagree with itself about. Variables go by their labels, operators by their
    names. -/
inductive Violation where
  | variableId (position : Nat) (id : VariableId)
  | noProducer (label : String)
  | producerOfRole (role : Variable.Role) (label : String) (producer : OperatorId)
  | missingProducer (label : String) (producer : OperatorId)
  | notAnOutput (label producer : String)
  | repeatedConsumer (label : String) (consumer : OperatorId)
  | missingConsumer (label : String) (consumer : OperatorId)
  | notAnInput (label consumer : String)
  | operatorId (position : Nat) (id : OperatorId)
  | nameOfAnother (name : String) (id : OperatorId)
  | inputSlots (name : String) (kind : OperatorKind) (found : List String)
  | outputSlots (name : String) (kind : OperatorKind) (found : List String)
  | missingInput (name slot : String) (id : VariableId)
  | unlinkedInput (name label : String)
  | inference (name : String) (error : ApplyError)
  | missingOutput (name slot : String) (id : VariableId)
  | unlinkedOutput (name label : String)
  | staleShape (name slot : String) (held inferred : Shape)
  | graphInput (id : VariableId)
  | graphOutput (id : VariableId)
  | cycle (ordered total : Nat)
deriving DecidableEq

/-- Wording. -/
def Violation.message : Violation → String
  | variableId position id => s!"variable at index {position} has id {id}"
  | noProducer label => s!"intermediate {label} has no producer"
  | producerOfRole role label producer => s!"{role} variable {label} claims producer {producer}"
  | missingProducer label producer => s!"{label} names missing producer {producer}"
  | notAnOutput label producer =>
    s!"{label} names producer '{producer}' which does not output it"
  | repeatedConsumer label consumer => s!"{label} lists consumer {consumer} twice"
  | missingConsumer label consumer => s!"{label} names missing consumer {consumer}"
  | notAnInput label consumer => s!"{label} names consumer '{consumer}' which does not read it"
  | operatorId position id => s!"operator at index {position} has id {id}"
  | nameOfAnother name id => s!"operator name '{name}' does not resolve to {id}"
  | inputSlots name kind found =>
    let given := ", ".intercalate found
    let expected := ", ".intercalate kind.inputSlots
    s!"'{name}' ({kind}) has input slots [{given}], expected [{expected}]"
  | outputSlots name kind found =>
    let given := ", ".intercalate found
    s!"'{name}' ({kind}) has output slots [{given}]"
  | missingInput name slot id => s!"'{name}' slot '{slot}' reads missing variable {id}"
  | unlinkedInput name label => s!"'{name}' reads {label} but is not among its consumers"
  | inference name error => s!"'{name}' no longer passes shape inference: {error.message}"
  | missingOutput name slot id => s!"'{name}' slot '{slot}' writes missing variable {id}"
  | unlinkedOutput name label => s!"'{name}' writes {label} but is not its producer"
  | staleShape name slot held inferred =>
    s!"'{name}' slot '{slot}' holds {held}, inference gives {inferred}"
  | graphInput id => s!"graph input {id} is not an input variable"
  | graphOutput id => s!"graph output {id} does not exist"
  | cycle ordered total =>
    s!"only {ordered} of {total} operators can be ordered; the graph has a cycle"

namespace Graph

/-- Fails with the violation unless the condition holds. -/
def demand (condition : Prop) [Decidable condition] (violation : Violation) :
    Except Violation Unit :=
  if condition then .ok () else .error violation

/-- The value, or the violation where there is none. -/
def found {α : Type} (value? : Option α) (violation : Violation) : Except Violation α :=
  match value? with
  | some value => .ok value
  | none => .error violation

/-! ## Variables -/

/-- Intermediates have a producer that makes them, other variables have none. -/
def checkProducer (g : Graph) (v : Variable) : Except Violation Unit :=
  match v.role, v.producer? with
  | .intermediate, none => .error (.noProducer v.label)
  | .intermediate, some op => do
    let node ← found (g.findOperator op) (.missingProducer v.label op)
    demand (v.id ∈ node.makes) (.notAnOutput v.label node.name)
  | _, some op => .error (.producerOfRole v.role v.label op)
  | _, none => .ok ()

/-- Consumers are listed once, exist and read the variable. -/
def checkConsumers (g : Graph) (v : Variable) (seen : List OperatorId) :
    List OperatorId → Except Violation Unit
  | [] => .ok ()
  | op :: ops => do
    demand (op ∉ seen) (.repeatedConsumer v.label op)
    let node ← found (g.findOperator op) (.missingConsumer v.label op)
    demand (v.id ∈ node.reads) (.notAnInput v.label node.name)
    checkConsumers g v (op :: seen) ops

/-- The variable at a position has the id of the position and agrees with its operators. -/
def checkVariable (g : Graph) (position : Nat) (v : Variable) : Except Violation Unit := do
  demand (v.id = Id.mint g.id position) (.variableId position v.id)
  g.checkProducer v
  g.checkConsumers v [] v.consumers

/-- All variables pass. -/
def checkVariables (g : Graph) : Except Violation Unit :=
  g.vars.zipIdx.forM fun v => g.checkVariable v.2 v.1

/-! ## Operators -/

/-- The shape that an input slot reads, from a variable that lists the operator as a consumer. -/
def checkInput (g : Graph) (n : Node) (slot : String × VariableId) :
    Except Violation Shape := do
  let v ← found (g.findVariable slot.2) (.missingInput n.name slot.1 slot.2)
  demand (n.id ∈ v.consumers) (.unlinkedInput n.name v.label)
  return v.shape

/-- An output slot holds a variable that the operator makes, of the inferred shape. -/
def checkOutput (g : Graph) (n : Node) (slot : String × VariableId) (inferred : Shape) :
    Except Violation Unit := do
  let v ← found (g.findVariable slot.2) (.missingOutput n.name slot.1 slot.2)
  demand (v.producer? = some n.id) (.unlinkedOutput n.name v.label)
  demand (v.shape = inferred) (.staleShape n.name slot.1 v.shape inferred)

/-- The shapes that the shape rule gives now. -/
def inferAgain (n : Node) (shapes : List Shape) : Except Violation (List Shape) :=
  (n.params.outputShapes shapes).mapError fun fault => .inference n.name ⟨n.name, fault⟩

/-- The operator at a position has the id of the position, its name leads to it, its slots are those
    of its kind, and it agrees with its variables. -/
def checkOperator (g : Graph) (position : Nat) (n : Node) : Except Violation Unit := do
  demand (n.id = Id.mint g.id position) (.operatorId position n.id)
  demand ((g.operatorNamed n.name).map Node.id = some n.id) (.nameOfAnother n.name n.id)
  demand (n.inputs.map Prod.fst = n.kind.inputSlots)
    (.inputSlots n.name n.kind (n.inputs.map Prod.fst))
  demand (n.outputs.map Prod.fst = n.kind.outputSlots)
    (.outputSlots n.name n.kind (n.outputs.map Prod.fst))
  let shapes ← n.inputs.mapM (g.checkInput n)
  let inferred ← inferAgain n shapes
  (n.outputs.zip inferred).forM fun o => g.checkOutput n o.1 o.2

/-- All operators pass. -/
def checkOperators (g : Graph) : Except Violation Unit :=
  g.ops.zipIdx.forM fun n => g.checkOperator n.2 n.1

/-! ## Graph inputs and outputs, cycles -/

/-- Graph inputs are variables with the role of an input, graph outputs are variables. -/
def checkInterface (g : Graph) : Except Violation Unit := do
  g.inputs.forM fun i =>
    demand ((g.findVariable i).any Variable.isInput) (.graphInput i)
  g.outputs.forM fun i =>
    demand ((g.findVariable i).isSome) (.graphOutput i)

/-- Every operator can be ordered. -/
def checkAcyclic (g : Graph) : Except Violation Unit :=
  let ordered := g.topologicalOrder.length
  demand (ordered = g.ops.length) (.cycle ordered g.ops.length)

/-- The first disagreement of a graph with itself, if there is one. -/
def check (g : Graph) : Except Violation Unit := do
  g.checkVariables
  g.checkOperators
  g.checkInterface
  g.checkAcyclic

/-! ## When a check passes -/

@[simp] theorem demand_eq_ok_iff {p : Prop} [Decidable p] {violation : Violation} :
    demand p violation = .ok () ↔ p := by
  unfold demand
  split <;> simp_all

@[simp] theorem found_eq_ok_iff {α : Type} {value? : Option α} {value : α}
    {violation : Violation} : found value? violation = .ok value ↔ value? = some value := by
  unfold found
  cases value? <;> simp

end Graph

end TensorGraph
