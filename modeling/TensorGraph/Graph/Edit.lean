import TensorGraph.Graph.Basic

/-!
# `TensorGraph.Graph.Edit` — **changing a graph in place**

The elementary changes that a pass makes. Each changes one thing and keeps nothing else
up: links, indexes and derived shapes are left as they are, so a graph may well be inconsistent
afterwards. A change at a position outside the arena changes nothing.
-/

namespace TensorGraph

/-- One change to an arena or to the index of operator names. -/
inductive Edit where
  | variableId (position : Nat) (id : VariableId)
  | variableName (position : Nat) (name? : Option String)
  | variableRole (position : Nat) (role : Variable.Role)
  | variableProducer (position : Nat) (producer? : Option OperatorId)
  | variableConsumers (position : Nat) (consumers : List OperatorId)
  | variableShape (position : Nat) (shape : Shape)
  | operatorId (position : Nat) (id : OperatorId)
  | operatorName (position : Nat) (name : String)
  | operatorParams (position : Nat) (params : Params)
  | operatorInputs (position : Nat) (slots : List (String × VariableId))
  | operatorOutputs (position : Nat) (slots : List (String × VariableId))
  | indexOperator (name : String) (id : OperatorId)
  | unindexOperator (name : String)
  | truncateVariables (length : Nat)
  | truncateOperators (length : Nat)
  | swapVariables (i j : Nat)
  | swapOperators (i j : Nat)

namespace Edit

/-- The list with the entries at two positions exchanged. -/
def swap {α : Type} (xs : List α) (i j : Nat) : List α :=
  match xs[i]?, xs[j]? with
  | some x, some y => (xs.set i y).set j x
  | _, _ => xs

end Edit

namespace Graph

/-- Changes the variable at a position. -/
def modifyVariable (g : Graph) (position : Nat) (f : Variable → Variable) : Graph :=
  { g with vars := g.vars.modify position f }

/-- Changes the operator at a position. -/
def modifyOperator (g : Graph) (position : Nat) (f : Node → Node) : Graph :=
  { g with ops := g.ops.modify position f }

/-- The graph after a change. -/
def edit (g : Graph) : Edit → Graph
  | .variableId n id => g.modifyVariable n fun v => { v with id := id }
  | .variableName n name? => g.modifyVariable n fun v => { v with name? := name? }
  | .variableRole n role => g.modifyVariable n fun v => { v with role := role }
  | .variableProducer n producer? => g.modifyVariable n fun v => { v with producer? := producer? }
  | .variableConsumers n ops => g.modifyVariable n fun v => { v with consumers := ops }
  | .variableShape n shape => g.modifyVariable n fun v => { v with shape := shape }
  | .operatorId n id => g.modifyOperator n fun o => { o with id := id }
  | .operatorName n name => g.modifyOperator n fun o => { o with name := name }
  | .operatorParams n params => g.modifyOperator n fun o => { o with params := params }
  | .operatorInputs n slots => g.modifyOperator n fun o => { o with inputs := slots }
  | .operatorOutputs n slots => g.modifyOperator n fun o => { o with outputs := slots }
  | .indexOperator name id => { g with operatorIndex := g.operatorIndex.insert name id }
  | .unindexOperator name => { g with operatorIndex := g.operatorIndex.erase name }
  | .truncateVariables n => { g with vars := g.vars.take n }
  | .truncateOperators n => { g with ops := g.ops.take n }
  | .swapVariables i j => { g with vars := Edit.swap g.vars i j }
  | .swapOperators i j => { g with ops := Edit.swap g.ops i j }

/-- The graph after changes, one after another. -/
def editAll (g : Graph) (edits : List Edit) : Graph := edits.foldl edit g

end Graph

end TensorGraph
