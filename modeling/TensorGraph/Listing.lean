import TensorGraph.Graph.TopologicalOrder

/-!
# `TensorGraph.Listing` — **a graph as text**

A graph is listed as its inputs and constants, its operators in topological order with what each
makes, and its outputs. The listing is written line by line, from the graph as it stands. What is
written can also be had as a list of `Line`s, which still know the variables they introduce and
mention; `Line.text` is the wording of one line.

## Contents
- **Lines** with `introduced?`, `mentioned` and their wording.
- **Sections** of a listing, and `Graph.listingLines`.
- **Emission**: the program `Graph.emit` that writes the listing, and its text `Graph.listing`.
-/

namespace TensorGraph

/-- A line of a listing. -/
inductive Line where
  | title (graph : String)
  | blank
  | opening (graph : String)
  /-- Introduces a graph input. -/
  | input (v : Variable)
  /-- Introduces a constant. -/
  | constant (v : Variable)
  /-- An operator and, slot by slot, what it reads, under the labels of the graph. -/
  | operator (n : Node) (labels : List String)
  /-- Introduces what an operator makes in a slot. -/
  | made (slot : String) (v : Variable)
  /-- An output slot whose variable does not resolve. -/
  | unresolved (slot : String) (id : VariableId)
  /-- A graph output, under its label. -/
  | output (id : VariableId) (label : String)
  | closing
deriving DecidableEq

namespace Line

/-- The variable that a line introduces. -/
def introduced? : Line → Option Variable
  | input v | constant v | made _ v => some v
  | _ => none

/-- The variables that a line refers to. -/
def mentioned : Line → List VariableId
  | operator n _ => n.reads
  | output id _ => [id]
  | _ => []

/-- A variable with its label, order and extents. -/
def declaration (v : Variable) : String := s!"{v.label}: {v.shape.order} {v.shape}"

/-- The application of an operator: its kind, what it reads, and its parameters if it has any. -/
def application (n : Node) (labels : List String) : String :=
  let arguments := ", ".intercalate <|
    (n.inputs.zip labels).map fun a => a.1.1 ++ "=" ++ a.2
  let attrs := n.params.toAttributes
  let parameters := if attrs.isEmpty then "" else " \x7b " ++ Attributes.text attrs ++ " \x7d"
  s!"{n.name} = {n.kind}({arguments}){parameters}"

/-- Wording. -/
def text : Line → String
  | title graph => s!"// graph: {graph}"
  | blank => ""
  | opening graph => s!"graph {graph} \x7b"
  | input v => s!"  input {declaration v}"
  | constant v => s!"  const {declaration v}"
  | operator n labels => "  " ++ application n labels
  | made slot v => s!"    -> {slot}={declaration v}"
  | unresolved slot id => s!"    -> {slot}={id}"
  | output _ label => s!"  output {label}"
  | closing => "\x7d"

end Line

namespace Graph

/-- The inputs and constants. -/
def declarationLines (g : Graph) : List Line :=
  (g.inputs.filterMap g.findVariable).map .input ++ g.constants.map .constant

/-- What an operator makes in a slot. -/
def madeLine (g : Graph) (slot : String × VariableId) : Line :=
  match g.findVariable slot.2 with
  | some v => .made slot.1 v
  | none => .unresolved slot.1 slot.2

/-- An operator and what it makes. -/
def operatorLines (g : Graph) (n : Node) : List Line :=
  .operator n (n.reads.map g.label) :: n.outputs.map g.madeLine

/-- All operators, in topological order. -/
def applicationLines (g : Graph) : List Line :=
  (g.topologicalOrder.filterMap g.findOperator).flatMap g.operatorLines

/-- The graph outputs. -/
def outputLines (g : Graph) : List Line := g.outputs.map fun i => .output i (g.label i)

/-- The lines of the listing. A blank line stands between sections that are there. -/
def listingLines (g : Graph) : List Line :=
  let declares := !g.inputs.isEmpty || !g.constants.isEmpty
  let applies := !g.ops.isEmpty
  [.title g.name, .blank, .opening g.name] ++ g.declarationLines ++
    (if declares && applies then [.blank] else []) ++ g.applicationLines ++
    (if declares || applies then [.blank] else []) ++ g.outputLines ++ [.closing]

end Graph

/-! ## Emission -/

/-- Appends a line to what is written. -/
def writeLine (line : String) : StateM String Unit :=
  modify fun written => written ++ line ++ "\n"

/-- Ends a section, if it has anything in it. -/
def writeBreak (due : Bool) : StateM String Unit := if due then writeLine "" else pure ()

namespace Graph

/-- Writes a graph input, if it resolves. -/
def emitInput (g : Graph) (i : VariableId) : StateM String Unit :=
  match g.findVariable i with
  | some v => writeLine s!"  input {Line.declaration v}"
  | none => pure ()

/-- Writes what an operator makes in a slot. -/
def emitMade (g : Graph) (slot : String × VariableId) : StateM String Unit :=
  match g.findVariable slot.2 with
  | some v => writeLine s!"    -> {slot.1}={Line.declaration v}"
  | none => writeLine s!"    -> {slot.1}={slot.2}"

/-- Writes an operator, if it resolves, and what it makes. -/
def emitOperator (g : Graph) (i : OperatorId) : StateM String Unit :=
  match g.findOperator i with
  | some n => do
    writeLine ("  " ++ Line.application n (n.reads.map g.label))
    n.outputs.forM g.emitMade
  | none => pure ()

/-- Writes the listing. -/
def emit (g : Graph) : StateM String Unit := do
  let declares := !g.inputs.isEmpty || !g.constants.isEmpty
  let applies := !g.ops.isEmpty
  writeLine s!"// graph: {g.name}"
  writeLine ""
  writeLine s!"graph {g.name} \x7b"
  g.inputs.forM g.emitInput
  g.constants.forM fun v => writeLine s!"  const {Line.declaration v}"
  writeBreak (declares && applies)
  g.topologicalOrder.forM g.emitOperator
  writeBreak (declares || applies)
  g.outputs.forM fun i => writeLine s!"  output {g.label i}"
  writeLine "\x7d"

/-- The listing. -/
def listing (g : Graph) : String := (g.emit.run "").2

end Graph

end TensorGraph
