import TensorGraph.Graph.Id
import TensorGraph.NameMap
import TensorGraph.Operator.Basic
import TensorGraph.Options
import TensorGraph.Shape.Basic

/-!
# `TensorGraph.Graph.Basic` — **computation graphs**

A graph is two arenas, one of variables and one of applied operators, which refer to each other by
ids in both directions: a variable knows its producer and its consumers, an operator its inputs and
outputs. Two name indexes and the lists of graph inputs and outputs complete it.

The type is plain data and promises nothing; what graphs made by the operations of
`TensorGraph.Graph.Build` have in common is a matter of theorems, and `TensorGraph.Graph.Validation`
checks it.

## Contents
- **The types** `Variable`, `Node`, `Graph`.
- **Looking up** by id and by name. Ids of another graph never resolve.
- **Links** from a variable to operators and between operators.
-/

namespace TensorGraph

/-- How a variable came into its graph. -/
inductive Variable.Role where
  /-- Supplied when the graph runs. -/
  | input
  /-- Known when the graph is made. -/
  | constant
  /-- Made by an operator. -/
  | intermediate
deriving DecidableEq, Repr, Inhabited

namespace Variable.Role

def all : List Variable.Role := [input, constant, intermediate]

/-- Written form. -/
def name : Variable.Role → String
  | input => "Input"
  | constant => "Constant"
  | intermediate => "Intermediate"

/-- The role of a name. -/
def ofName? (s : String) : Option Variable.Role := all.find? fun r => r.name == s

instance : ToString Variable.Role := ⟨name⟩

end Variable.Role

/-- A tensor value. -/
structure Variable where
  id : VariableId
  /-- Inputs and constants have a name, outputs of operators have none. -/
  name? : Option String
  shape : Shape
  role : Variable.Role
  /-- The operator that makes the value. -/
  producer? : Option OperatorId
  /-- The operators that read the value, in the order of their application. -/
  consumers : List OperatorId
deriving DecidableEq

namespace Variable

/-- The name, or the written id where there is none. -/
def label (v : Variable) : String := v.name?.getD v.id.text

/-- The value is supplied when the graph runs. -/
def isInput (v : Variable) : Bool := v.role == .input

/-- The variable with one more consumer, unless that is one already. -/
def addConsumer (v : Variable) (op : OperatorId) : Variable :=
  if op ∈ v.consumers then v else { v with consumers := v.consumers ++ [op] }

end Variable

/-- An applied operator. -/
structure Node where
  id : OperatorId
  name : String
  params : Params
  /-- What each input slot reads, in slot order. -/
  inputs : List (String × VariableId)
  /-- What each output slot makes, in slot order. -/
  outputs : List (String × VariableId)
deriving DecidableEq

namespace Node

def kind (n : Node) : OperatorKind := n.params.kind

/-- What an input slot reads. -/
def input? (n : Node) (slot : String) : Option VariableId := n.inputs.lookup slot

/-- What an output slot makes. -/
def output? (n : Node) (slot : String) : Option VariableId := n.outputs.lookup slot

/-- The variables read, slot by slot. -/
def reads (n : Node) : List VariableId := n.inputs.map Prod.snd

/-- The variables made, slot by slot. -/
def makes (n : Node) : List VariableId := n.outputs.map Prod.snd

end Node

/-- A computation graph. -/
structure Graph where
  id : GraphId
  name : String
  options : Options
  vars : List Variable
  ops : List Node
  operatorIndex : NameMap OperatorId
  variableIndex : NameMap VariableId
  inputs : List VariableId
  outputs : List VariableId
deriving DecidableEq

namespace Graph

/-- The graph without variables and operators. -/
def empty (id : GraphId) (name : String) (options : Options := {}) : Graph where
  id := id
  name := name
  options := options
  vars := []
  ops := []
  operatorIndex := .empty
  variableIndex := .empty
  inputs := []
  outputs := []

/-! ## Looking up -/

/-- The variable of an id, unless the id is out of range or of another graph. -/
def findVariable (g : Graph) (i : VariableId) : Option Variable :=
  if i.graph = g.id then g.vars[i.position]? else none

/-- The operator of an id, unless the id is out of range or of another graph. -/
def findOperator (g : Graph) (i : OperatorId) : Option Node :=
  if i.graph = g.id then g.ops[i.position]? else none

/-- The input or constant of a name. -/
def variableNamed (g : Graph) (name : String) : Option Variable :=
  (g.variableIndex.find? name).bind g.findVariable

/-- The operator of a name. -/
def operatorNamed (g : Graph) (name : String) : Option Node :=
  (g.operatorIndex.find? name).bind g.findOperator

/-- The constants, in the order in which they were added. -/
def constants (g : Graph) : List Variable := g.vars.filter fun v => v.role == .constant

/-! ## Links -/

/-- The operator that makes a variable. -/
def producer? (g : Graph) (i : VariableId) : Option Node :=
  ((g.findVariable i).bind Variable.producer?).bind g.findOperator

/-- The operators that read a variable. -/
def consumers (g : Graph) (i : VariableId) : List Node :=
  match g.findVariable i with
  | some v => v.consumers.filterMap g.findOperator
  | none => []

/-- The distinct operators that make an input of an operator, in increasing order. -/
def predecessors (g : Graph) (n : Node) : List OperatorId :=
  Id.sortDistinct (n.reads.filterMap fun i => (g.findVariable i).bind Variable.producer?)

/-- The distinct operators that read an output of an operator, in increasing order. -/
def successors (g : Graph) (n : Node) : List OperatorId :=
  Id.sortDistinct ((n.makes.filterMap g.findVariable).flatMap Variable.consumers)

/-- How a variable id is written for a reader: the variable's label, if it resolves. -/
def label (g : Graph) (i : VariableId) : String :=
  match g.findVariable i with
  | some v => v.label
  | none => i.text

theorem findVariable_eq_some_iff {g : Graph} {i : VariableId} {v : Variable} :
    g.findVariable i = some v ↔ i.graph = g.id ∧ g.vars[i.position]? = some v := by
  unfold findVariable
  split <;> simp_all

theorem findOperator_eq_some_iff {g : Graph} {i : OperatorId} {n : Node} :
    g.findOperator i = some n ↔ i.graph = g.id ∧ g.ops[i.position]? = some n := by
  unfold findOperator
  split <;> simp_all

end Graph

end TensorGraph
