import TensorGraph.Error

/-!
# `TensorGraph.Graph.Call` — **the operations of a graph as data**

The public operations that grow a graph, each with its arguments, as values of one type. A *run* is
a list of calls on one graph; a call that is refused leaves the graph as it was, and the run goes
on. What holds of every graph that the library can make is a statement about runs.

## Contents
- **Calls** and what they answer.
- **Runs** and the graphs they reach from an empty one.
-/

namespace TensorGraph

/-- A public operation on a graph, with its arguments. -/
inductive Call where
  | addInput (name : String) (shape : Shape)
  | addConstant (name : String) (shape : Shape)
  | markOutput (id : VariableId)
  | apply (op : Operator) (inputs : List VariableId)
  | applyOne (op : Operator) (inputs : List VariableId)
deriving DecidableEq

namespace Graph

/-- Two channels, as small graphs take them in. -/
def twoChannels : Shape := ⟨.c, [2], by decide, by decide, by decide⟩

/-- Three channels, which differ from two. -/
def threeChannels : Shape := ⟨.c, [3], by decide, by decide, by decide⟩

/-- What a call answers: the grown graph with the ids given back, or the error. -/
def answer (g : Graph) : Call → Except Error (Graph × List VariableId)
  | .addInput name shape =>
    match g.addInput name shape with
    | .ok (g', i) => .ok (g', [i])
    | .error e => .error (.graph e)
  | .addConstant name shape =>
    match g.addConstant name shape with
    | .ok (g', i) => .ok (g', [i])
    | .error e => .error (.graph e)
  | .markOutput i =>
    match g.markOutput i with
    | .ok g' => .ok (g', [])
    | .error e => .error (.graph e)
  | .apply op inputs => (g.apply op inputs).mapError .apply
  | .applyOne op inputs =>
    match g.applyOne op inputs with
    | .ok (g', i) => .ok (g', [i])
    | .error e => .error (.apply e)

/-- The graph after a call, whether the call succeeded or not. -/
def after (g : Graph) (c : Call) : Graph :=
  match g.answer c with
  | .ok (g', _) => g'
  | .error _ => g

/-- The graph after a run. -/
def run (g : Graph) (calls : List Call) : Graph := calls.foldl after g

/-- The graph is reached by a run from an empty graph with valid options. -/
def Reachable (g : Graph) : Prop :=
  ∃ (id : GraphId) (name : String) (options : Options) (calls : List Call),
    options.Valid ∧ g = (empty id name options).run calls

/-- Both arenas are short enough for every entry to have an id of its own. -/
def Fits (g : Graph) : Prop := g.vars.length < UInt32.size ∧ g.ops.length < UInt32.size

@[simp] theorem run_nil (g : Graph) : g.run [] = g := rfl

@[simp] theorem run_cons (g : Graph) (c : Call) (calls : List Call) :
    g.run (c :: calls) = (g.after c).run calls := rfl

theorem run_append (g : Graph) (calls more : List Call) :
    g.run (calls ++ more) = (g.run calls).run more := List.foldl_append

end Graph

end TensorGraph
