import TensorGraph.Graph.Basic
import TensorGraph.Operator.ShapeRule

/-!
# `TensorGraph.Graph.Build` — **growing a graph**

Graphs grow by four operations: an input or a constant is added, a variable is marked as an output,
an operator is applied to variables. Each either succeeds with the grown graph or has no graph to
give, so a refused operation leaves nothing behind.

## Contents
- **Inputs, constants and outputs.** `addInput`, `addConstant`, `markOutput`.
- **Generated names.** `unusedName` is the least number, from the number of operators on, whose name
  is free; one probe more than there are names is enough.
- **Application.** `applyCheck` makes all the checks and finds the output shapes, `applyCommit`
  cannot fail; `apply` is one after the other.
-/

namespace TensorGraph

/-- Why a graph refuses a variable. -/
inductive GraphFault where
  /-- The id does not resolve. -/
  | unknownVariable (id : VariableId)
  /-- The name is taken. -/
  | duplicateVariable (name : String)
  /-- The rank is above the graph's limit. -/
  | rankLimit (name : String) (rank max : Nat)
deriving DecidableEq

/-- Why the graph of a name refuses a variable. -/
structure GraphError where
  graph : String
  fault : GraphFault
deriving DecidableEq

/-- Wording. -/
def GraphError.message (e : GraphError) : String :=
  match e.fault with
  | .unknownVariable id => s!"variable {id} does not belong to graph '{e.graph}'"
  | .duplicateVariable name => s!"a variable named '{name}' already exists in graph '{e.graph}'"
  | .rankLimit name rank max =>
    s!"variable '{name}' has rank {rank}, but graph '{e.graph}' allows at most {max}"

namespace Graph

/-- An empty graph with checked options. -/
def create (id : GraphId) (name : String) (options : Options) : Except OptionsFault Graph := do
  options.validate
  return empty id name options

/-! ## Inputs, constants and outputs -/

/-- The variable that an input or a constant becomes. -/
def declared (g : Graph) (name : String) (shape : Shape) (role : Variable.Role) : Variable where
  id := Id.mint g.id g.vars.length
  name? := some name
  shape := shape
  role := role
  producer? := none
  consumers := []

/-- Adds a variable with a name. The name is looked at before the rank. -/
def declare (g : Graph) (name : String) (shape : Shape) (role : Variable.Role) :
    Except GraphError (Graph × VariableId) :=
  if g.variableIndex.contains name then .error ⟨g.name, .duplicateVariable name⟩
  else if g.options.maxRank.toNat < shape.rank then
    .error ⟨g.name, .rankLimit name shape.rank g.options.maxRank.toNat⟩
  else
    let v := g.declared name shape role
    .ok ({ g with
            vars := g.vars ++ [v]
            variableIndex := g.variableIndex.insert name v.id }, v.id)

/-- Adds a value that is supplied when the graph runs. -/
def addInput (g : Graph) (name : String) (shape : Shape) :
    Except GraphError (Graph × VariableId) := do
  let (g', i) ← g.declare name shape .input
  return ({ g' with inputs := g'.inputs ++ [i] }, i)

/-- Adds a value that is known now, such as learned weights. -/
def addConstant (g : Graph) (name : String) (shape : Shape) :
    Except GraphError (Graph × VariableId) :=
  g.declare name shape .constant

/-- Marks a variable as an output of the graph; marking it again changes nothing. -/
def markOutput (g : Graph) (i : VariableId) : Except GraphError Graph :=
  match g.findVariable i with
  | none => .error ⟨g.name, .unknownVariable i⟩
  | some _ => .ok (if i ∈ g.outputs then g else { g with outputs := g.outputs ++ [i] })

/-! ## Generated names -/

/-- The least number from `n` on that is not taken, looking at no more than `probes` before it. -/
def firstFree (taken : Nat → Bool) (n : Nat) : (probes : Nat) → Nat
  | 0 => n
  | probes + 1 => if taken n then firstFree taken (n + 1) probes else n

/-- The generated name with a number. -/
def autoName (g : Graph) (n : Nat) : String := g.options.autoName ++ toString n

/-- The name for an operator that has none. -/
def unusedName (g : Graph) : String :=
  g.autoName <| firstFree (fun n => g.operatorIndex.contains (g.autoName n)) g.ops.length
    g.operatorIndex.size

/-! ## Application -/

/-- The shape of what a slot reads. -/
def inputShape (g : Graph) (slot : String × VariableId) : Except ApplyFault Shape :=
  match g.findVariable slot.2 with
  | some v => .ok v.shape
  | none => .error (.unknownVariable slot.1 slot.2)

/-- The output shapes of an application, if nothing speaks against it. The number of inputs is
    looked at first, then the name, the inputs slot by slot, and the shape rule. -/
def applyCheck (g : Graph) (name : String) (params : Params) (inputs : List VariableId) :
    Except ApplyFault (List Shape) := do
  let slots := params.kind.inputSlots
  if inputs.length ≠ slots.length then throw (.arity slots inputs.length)
  if g.operatorIndex.contains name then throw .duplicateOperator
  let shapes ← (slots.zip inputs).mapM g.inputShape
  params.outputShapes shapes

/-- The slots and variables of an operator's outputs. -/
def outputVariables (g : Graph) (op : OperatorId) (outputs : List (String × Shape)) :
    List (String × Variable) :=
  (outputs.zipIdx g.vars.length).map fun o =>
    (o.1.1,
      { id := Id.mint g.id o.2
        name? := none
        shape := o.1.2
        role := .intermediate
        producer? := some op
        consumers := [] })

/-- Enters an operator among the consumers of what it reads. -/
def linkConsumers (op : OperatorId) (vars : List Variable) (inputs : List VariableId) :
    List Variable :=
  inputs.foldl (fun vs i => vs.modify i.position (·.addConsumer op)) vars

/-- The graph with an operator whose application was checked. -/
def applyCommit (g : Graph) (name : String) (params : Params) (inputs : List VariableId)
    (shapes : List Shape) : Graph × List VariableId :=
  let op : OperatorId := Id.mint g.id g.ops.length
  let made := g.outputVariables op (params.kind.outputSlots.zip shapes)
  let node : Node :=
    { id := op
      name := name
      params := params
      inputs := params.kind.inputSlots.zip inputs
      outputs := made.map fun m => (m.1, m.2.id) }
  ({ g with
      vars := linkConsumers op (g.vars ++ made.map Prod.snd) inputs
      ops := g.ops ++ [node]
      operatorIndex := g.operatorIndex.insert name op },
    node.makes)

/-- Applies an operator to variables, given in slot order: the grown graph and the variables made,
    in slot order. -/
def apply (g : Graph) (op : Operator) (inputs : List VariableId) :
    Except ApplyError (Graph × List VariableId) :=
  let name := op.name?.getD g.unusedName
  match g.applyCheck name op.params inputs with
  | .error fault => .error ⟨name, fault⟩
  | .ok shapes => .ok (g.applyCommit name op.params inputs shapes)

/-- `apply` for one output, which is the next variable of the graph. -/
def applyOne (g : Graph) (op : Operator) (inputs : List VariableId) :
    Except ApplyError (Graph × VariableId) := do
  let (g', made) ← g.apply op inputs
  return (g', made.headD (Id.mint g.id g.vars.length))

end Graph

end TensorGraph
