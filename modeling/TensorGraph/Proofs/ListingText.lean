import TensorGraph.Listing
import TensorGraph.Proofs.Extents

/-!
# `TensorGraph.Proofs.ListingText` — **what a listing is written of**

A listing is written by a program that appends to a text. `Emits` says of such a program which lines
it appends, whatever is there already, and goes through the program part by part: lines in sequence,
a loop over a list, a line that may be left out. The lines of the whole are the `listingLines`.

The wording of a line is taken apart here down to names, letters and numbers, so that what a reader
sees is said without the functions that word it.

## Contents
- **Emission**: `Emits`, and `Graph.listing_eq`.
- **Wording** of shapes, attributes and labels, of declarations and applications.
-/

namespace TensorGraph

/-! ## Emission -/

/-- The program appends these lines, each with its end, to any text. -/
def Emits (m : StateM String Unit) (lines : List Line) : Prop :=
  ∀ written, m.run written = ((), written ++ String.join (lines.map fun l => l.text ++ "\n"))

namespace Emits

variable {α : Type} {m m' : StateM String Unit} {ls ls' : List Line}

theorem nothing : Emits (pure ()) [] := by
  intro written
  simp
  rfl

theorem line {text : String} (l : Line) (h : l.text = text) : Emits (writeLine text) [l] := by
  intro written
  simp [writeLine, h, String.append_assoc]
  rfl

/-- One program after the other. -/
theorem bind (h : Emits m ls) (h' : Emits m' ls') : Emits (m >>= fun _ => m') (ls ++ ls') := by
  intro written
  rw [StateT.run_bind, h]
  show m'.run _ = _
  rw [h', List.map_append, String.join_append, String.append_assoc]

/-- A loop appends what its rounds append. -/
theorem forM {f : α → StateM String Unit} {lines : α → List Line} (xs : List α)
    (h : ∀ x, Emits (f x) (lines x)) : Emits (xs.forM f) (xs.flatMap lines) := by
  induction xs with
  | nil => exact nothing
  | cons x xs ih =>
      rw [List.flatMap_cons]
      exact (h x).bind ih

/-- A loop whose rounds append a line each. -/
theorem forM_line {f : α → StateM String Unit} {toLine : α → Line} (xs : List α)
    (h : ∀ x, Emits (f x) [toLine x]) : Emits (xs.forM f) (xs.map toLine) := by
  rw [List.map_eq_flatMap]
  exact forM xs h

theorem writeBreak (due : Bool) : Emits (writeBreak due) (if due then [.blank] else []) := by
  cases due with
  | false => exact nothing
  | true => exact line .blank rfl

end Emits

namespace Graph

theorem emits_emitInput (g : Graph) (i : VariableId) :
    Emits (g.emitInput i) ((g.findVariable i).toList.map .input) := by
  unfold emitInput
  cases g.findVariable i with
  | none => exact Emits.nothing
  | some v => exact Emits.line (.input v) rfl

theorem emits_emitMade (g : Graph) (slot : String × VariableId) :
    Emits (g.emitMade slot) [g.madeLine slot] := by
  unfold emitMade madeLine
  cases g.findVariable slot.2 with
  | none => exact Emits.line (.unresolved slot.1 slot.2) rfl
  | some v => exact Emits.line (.made slot.1 v) rfl

theorem emits_emitOperator (g : Graph) (i : OperatorId) :
    Emits (g.emitOperator i) ((g.findOperator i).toList.flatMap g.operatorLines) := by
  unfold emitOperator
  cases g.findOperator i with
  | none => exact Emits.nothing
  | some n =>
      rw [Option.toList_some, List.flatMap_singleton, operatorLines]
      have happlied := Emits.line (.operator n (n.reads.map g.label)) rfl
      exact happlied.bind (Emits.forM_line n.outputs g.emits_emitMade)

/-- **The lines of a listing**, in the order in which they are written. -/
theorem emits_emit (g : Graph) : Emits g.emit g.listingLines := by
  have hinputs : (g.inputs.filterMap g.findVariable).map Line.input =
      g.inputs.flatMap fun i => (g.findVariable i).toList.map .input := by
    rw [List.filterMap_eq_flatMap_toList, List.map_flatMap]
  have happlied : g.applicationLines =
      g.topologicalOrder.flatMap fun i => (g.findOperator i).toList.flatMap g.operatorLines := by
    rw [applicationLines, List.filterMap_eq_flatMap_toList, List.flatMap_assoc]
  unfold emit listingLines declarationLines outputLines
  rw [hinputs, happlied]
  simp only [List.append_assoc, List.cons_append, List.nil_append]
  -- From here on the program and its lines are gone through side by side.
  refine (Emits.line (.title g.name) rfl).bind ?_
  refine (Emits.line .blank rfl).bind ?_
  refine (Emits.line (.opening g.name) rfl).bind ?_
  refine (Emits.forM g.inputs g.emits_emitInput).bind ?_
  refine (Emits.forM_line g.constants fun v => Emits.line (.constant v) rfl).bind ?_
  refine (Emits.writeBreak _).bind ?_
  refine (Emits.forM g.topologicalOrder g.emits_emitOperator).bind ?_
  refine (Emits.writeBreak _).bind ?_
  refine (Emits.forM_line g.outputs fun i => Emits.line (.output i (g.label i)) rfl).bind ?_
  exact Emits.line .closing rfl

/-- **A listing is the text of its lines**, each with its end. -/
theorem listing_eq (g : Graph) :
    g.listing = String.join (g.listingLines.map fun l => l.text ++ "\n") := by
  rw [listing, g.emits_emit, String.empty_append]

end Graph

/-! ## Wording -/

/-- A value as it is read: a number, two numbers, or the letter of an axis. -/
def Attribute.spelling : Attribute → String
  | int n => toString n.toInt
  | pair m n => "(" ++ toString m.toInt ++ ", " ++ toString n.toInt ++ ")"
  | axis a => a.letter.toString

theorem Attribute.text_eq_spelling (a : Attribute) : a.text = a.spelling := by
  cases a with
  | int n => rfl
  | pair m n => rfl
  | axis a => rfl

/-- **Shapes** are written axis by axis. -/
theorem Shape.text_eq (s : Shape) :
    s.text = "\x7b" ++ ", ".intercalate ((s.order.axes.zip s.dims).map fun e =>
      e.1.letter.toString ++ ":" ++ toString e.2) ++ "\x7d" := by
  simp [text, pairs, ToString.toString, Axis.text]

/-- **Attributes** are written name by name. -/
theorem Attributes.text_eq (attrs : Attributes) :
    attrs.text = ", ".intercalate (attrs.entries.map fun e => e.1 ++ "=" ++ e.2.spelling) := by
  simp [text, ToString.toString, Attribute.text_eq_spelling]

/-- **A label** is the name or, where there is none, the number of the variable behind its mark. -/
theorem Variable.label_eq (v : Variable) :
    v.label = v.name?.getD ("%v" ++ toString v.id.position) := rfl

namespace Line

/-- **A declaration** says the label, the letters of the order, and the extent of each axis. -/
theorem declaration_eq (v : Variable) :
    declaration v = v.label ++ ": " ++ String.ofList (v.shape.order.axes.map Axis.letter) ++
      " " ++ "\x7b" ++ ", ".intercalate ((v.shape.order.axes.zip v.shape.dims).map fun e =>
        e.1.letter.toString ++ ":" ++ toString e.2) ++ "\x7d" := by
  simp [declaration, ToString.toString, AxisOrder.text, AxisOrder.letters, Shape.text_eq,
    String.append_assoc, -String.reduceAppend]

/-- **An application** says the name, the kind, what each slot reads, and the parameters. -/
theorem application_eq (n : Node) (label : VariableId → String) :
    application n (n.reads.map label) = n.name ++ " = " ++ n.kind.name ++ "(" ++
      ", ".intercalate (n.inputs.map fun r => r.1 ++ "=" ++ label r.2) ++ ")" ++
      (if n.params.toAttributes.entries = [] then ""
        else " \x7b " ++ ", ".intercalate (n.params.toAttributes.entries.map fun e =>
          e.1 ++ "=" ++ e.2.spelling) ++ " \x7d") := by
  have hreads : n.inputs.zip (n.reads.map label) = n.inputs.map fun r => (r, label r.2) := by
    rw [Node.reads, List.map_map]
    exact zip_map_self _ n.inputs
  unfold application
  rw [hreads, List.map_map]
  simp [ToString.toString, Attributes.text_eq, NameMap.isEmpty, Function.comp_def]

end Line

end TensorGraph
