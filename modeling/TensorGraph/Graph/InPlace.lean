import TensorGraph.Graph.Call

/-!
# `TensorGraph.Graph.InPlace` — **growing a graph in place**

`Graph.answer` gives a new graph or an error and never touches the old graph. Here are the same
calls for a graph that is kept in one place and changed there: checks and changes take turns, and
what was changed before an error stays changed. A refusal that left half of a call behind would
show.

## Contents
- **Computations in place** and how they run.
- **Declaring, marking, applying**, one elementary change after another.
- **Calls**, `perform`.
-/

namespace TensorGraph

/-- A computation on a graph that is changed in place, and that may fail on the way. -/
abbrev InPlace (ε α : Type) : Type := ExceptT ε (StateM Graph) α

namespace InPlace

variable {ε α β : Type}

/-- What a computation answers, and the graph as it is afterwards. -/
def exec (x : InPlace ε α) (g : Graph) : Except ε α × Graph := Id.run (StateT.run (ExceptT.run x) g)

@[simp] theorem exec_pure (a : α) (g : Graph) : exec (pure a : InPlace ε α) g = (.ok a, g) := rfl

@[simp] theorem exec_throw (e : ε) (g : Graph) :
    exec (throw e : InPlace ε α) g = (.error e, g) := rfl

@[simp] theorem exec_get (g : Graph) : exec (get : InPlace ε Graph) g = (.ok g, g) := rfl

@[simp] theorem exec_modify (f : Graph → Graph) (g : Graph) :
    exec (modify f : InPlace ε Unit) g = (.ok (), f g) := rfl

/-- A computation goes on where the one before it left the graph, unless that failed. -/
theorem exec_bind (x : InPlace ε α) (f : α → InPlace ε β) (g : Graph) :
    exec (x >>= f) g =
      match exec x g with
      | (.ok a, g') => exec (f a) g'
      | (.error e, g') => (.error e, g') := by
  show Id.run (StateT.run (ExceptT.run x >>= ExceptT.bindCont f) g) = _
  unfold exec
  rw [StateT.run_bind]
  rcases h : StateT.run (ExceptT.run x) g with ⟨_ | _, _⟩ <;> rfl

/-- The computation with its errors put in other words. -/
def mapError {ε' : Type} (f : ε → ε') (x : InPlace ε α) : InPlace ε' α := ExceptT.adapt f x

@[simp] theorem exec_mapError {ε' : Type} (f : ε → ε') (x : InPlace ε α) (g : Graph) :
    exec (mapError f x) g = ((exec x g).1.mapError f, (exec x g).2) := rfl

/-! ## Inputs, constants and outputs -/

/-- Puts a variable that nothing reads at the end of the arena. -/
def pushVariable (name? : Option String) (shape : Shape) (role : Variable.Role)
    (producer? : Option OperatorId) : InPlace ε VariableId := do
  let g ← get
  let id := Id.mint g.id g.vars.length
  modify fun g => { g with vars := g.vars ++ [⟨id, name?, shape, role, producer?, []⟩] }
  return id

/-- Adds a variable with a name. -/
def declare (name : String) (shape : Shape) (role : Variable.Role) :
    InPlace GraphError VariableId := do
  let g ← get
  if g.variableIndex.contains name then throw ⟨g.name, .duplicateVariable name⟩
  if g.options.maxRank.toNat < shape.rank then
    throw ⟨g.name, .rankLimit name shape.rank g.options.maxRank.toNat⟩
  let id ← pushVariable (some name) shape role none
  modify fun g => { g with variableIndex := g.variableIndex.insert name id }
  return id

def addInput (name : String) (shape : Shape) : InPlace GraphError VariableId := do
  let id ← declare name shape .input
  modify fun g => { g with inputs := g.inputs ++ [id] }
  return id

def addConstant (name : String) (shape : Shape) : InPlace GraphError VariableId :=
  declare name shape .constant

def markOutput (i : VariableId) : InPlace GraphError Unit := do
  let g ← get
  if (g.findVariable i).isNone then throw ⟨g.name, .unknownVariable i⟩
  if i ∉ g.outputs then modify fun g => { g with outputs := g.outputs ++ [i] }

/-! ## Application -/

/-- The shapes of what slots read. -/
def readShapes : List (String × VariableId) → InPlace ApplyFault (List Shape)
  | [] => return []
  | slot :: slots => do
    let g ← get
    match g.findVariable slot.2 with
    | none => throw (.unknownVariable slot.1 slot.2)
    | some v =>
      let shapes ← readShapes slots
      return v.shape :: shapes

/-- Puts the variables that an operator makes at the end of the arena, slot by slot. -/
def pushOutputs (op : OperatorId) :
    List (String × Shape) → InPlace ε (List (String × VariableId))
  | [] => return []
  | (slot, shape) :: outputs => do
    let id ← pushVariable none shape .intermediate (some op)
    let made ← pushOutputs op outputs
    return (slot, id) :: made

/-- Enters an operator among the consumers of what it reads, one input after another. -/
def enterConsumers (op : OperatorId) : List VariableId → InPlace ε Unit
  | [] => return ()
  | i :: inputs => do
    modify fun g => { g with vars := g.vars.modify i.position (·.addConsumer op) }
    enterConsumers op inputs

/-- Puts an operator whose application was checked into the graph: the variables that it makes, the
    consumers, the name, and the operator itself. -/
def commit (name : String) (params : Params) (inputs : List VariableId) (shapes : List Shape) :
    InPlace ε (List VariableId) := do
  let g ← get
  let op : OperatorId := Id.mint g.id g.ops.length
  let outputs ← pushOutputs op (params.kind.outputSlots.zip shapes)
  enterConsumers op inputs
  modify fun g => { g with operatorIndex := g.operatorIndex.insert name op }
  let node : Node := ⟨op, name, params, params.kind.inputSlots.zip inputs, outputs⟩
  modify fun g => { g with ops := g.ops ++ [node] }
  return node.makes

/-- Applies an operator under a name. -/
def applyNamed (name : String) (params : Params) (inputs : List VariableId) :
    InPlace ApplyFault (List VariableId) := do
  let slots := params.kind.inputSlots
  if inputs.length ≠ slots.length then throw (.arity slots inputs.length)
  let g ← get
  if g.operatorIndex.contains name then throw .duplicateOperator
  let shapes ← readShapes (slots.zip inputs)
  match params.outputShapes shapes with
  | .error fault => throw fault
  | .ok outputShapes => commit name params inputs outputShapes

/-- `applyNamed` under the operator's name, or under a generated one if it has none. -/
def apply (op : Operator) (inputs : List VariableId) :
    InPlace ApplyError (List VariableId) := do
  let g ← get
  let name := op.name?.getD g.unusedName
  mapError (⟨name, ·⟩) (applyNamed name op.params inputs)

def applyOne (op : Operator) (inputs : List VariableId) : InPlace ApplyError VariableId := do
  let g ← get
  let made ← apply op inputs
  return made.headD (Id.mint g.id g.vars.length)

/-! ## Calls -/

/-- A call in place, which answers with the ids given back. -/
def perform : Call → InPlace Error (List VariableId)
  | .addInput name shape => mapError .graph do return [← addInput name shape]
  | .addConstant name shape => mapError .graph do return [← addConstant name shape]
  | .markOutput i => mapError .graph do
    markOutput i
    return []
  | .apply op inputs => mapError .apply (apply op inputs)
  | .applyOne op inputs => mapError .apply do return [← applyOne op inputs]

end InPlace

end TensorGraph
