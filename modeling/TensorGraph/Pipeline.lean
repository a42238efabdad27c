import TensorGraph.Graph.Edit
import TensorGraph.Graph.Validation

/-!
# `TensorGraph.Pipeline` — **pipelines of passes**

A pass reads or changes a graph and may fail; it may carry a state of its own from one run to the
next. A pipeline runs passes in sequence and stops at the first failure. With rechecking on, the
graph is validated after every pass that says it mutates, so that a broken graph is blamed on the
pass that broke it and not on a later one.

## Contents
- **Passes** with a state of type `σ`, which also settles their name and whether they mutate;
  `Pass.validate` and passes given by a list of edits.
- **Pipelines** and what a run leaves: the pipeline with the passes' new states, the graph, and the
  outcome.
-/

namespace TensorGraph

/-- Why a pass fails. -/
structure PassError where
  /-- Name of the graph. -/
  graph : String
  detail : String
deriving DecidableEq

/-- Wording. -/
def PassError.message (e : PassError) : String :=
  s!"graph '{e.graph}' violates an invariant: {e.detail}"

/-- The graph's first disagreement with itself, as the failure of a pass. -/
def Graph.validate (g : Graph) : Except PassError Unit :=
  g.check.mapError fun violation => ⟨g.name, violation.message⟩

/-- A flag that is the same in every state. -/
instance constantFlag {σ : Type} : Coe Bool (σ → Bool) := ⟨Function.const σ⟩

/-- A pass over graphs with a state of its own, on which depends what it says of itself. -/
structure Pass (σ : Type) where
  /-- Name of the pass in a state. -/
  nameIn : σ → String
  /-- Whether the pass in a state says that it may change the graph. -/
  mutates : σ → Bool := true
  state : σ
  /-- New state, new graph and outcome. A failing pass may have changed the graph. -/
  action : σ → Graph → σ × Graph × Except PassError Unit

namespace Pass

variable {σ : Type}

/-- Name of the pass as it stands. -/
def name (p : Pass σ) : String := p.nameIn p.state

/-- Whether the pass as it stands says that it may change the graph. -/
def mutating (p : Pass σ) : Bool := p.mutates p.state

/-- The pass with its new state, the new graph and the outcome. -/
def run (p : Pass σ) (g : Graph) : Pass σ × Graph × Except PassError Unit :=
  let (state, g', outcome) := p.action p.state g
  ({ p with state := state }, g', outcome)

/-- The pass that validates the graph. -/
def validate (state : σ) : Pass σ where
  nameIn _ := "validate"
  mutates := false
  state := state
  action s g := (s, g, g.validate)

/-- A pass that makes fixed edits and then fails with `failure?`, or when fewer than `minOperators`
    operators are left. Its state counts its runs. -/
def ofEdits (name : String) (edits : List Edit) (failure? : Option String) (minOperators : Nat)
    (mutates : Bool) : Pass Nat where
  nameIn _ := name
  mutates := mutates
  state := 0
  action runs g :=
    let g' := g.editAll edits
    let outcome :=
      match failure? with
      | some detail => .error ⟨g'.name, detail⟩
      | none =>
        if g'.ops.length < minOperators then
          .error ⟨g'.name, "graph has too few operators"⟩
        else .ok ()
    (runs + 1, g', outcome)

end Pass

/-- Whose fault it is that a pipeline stopped. -/
inductive PipelineError where
  /-- The pass failed. -/
  | failed (pass : String) (error : PassError)
  /-- The pass left a graph that is not valid. -/
  | brokeGraph (pass : String) (error : PassError)
deriving DecidableEq

namespace PipelineError

/-- Name of the pass. -/
def pass : PipelineError → String
  | failed p _ | brokeGraph p _ => p

/-- What the pass, or the check after it, reported. -/
def error : PipelineError → PassError
  | failed _ e | brokeGraph _ e => e

/-- Wording. -/
def message : PipelineError → String
  | failed p e => s!"pass '{p}' failed: {e.message}"
  | brokeGraph p e => s!"pass '{p}' left the graph inconsistent: {e.message}"

end PipelineError

/-- Passes in the order in which they run. -/
structure Pipeline (σ : Type) where
  passes : List (Pass σ) := []
  /-- Validate the graph after each pass that mutates. -/
  recheck : Bool := false

namespace Pipeline

variable {σ : Type}

/-- The pipeline with one more pass at the end. -/
def add (p : Pipeline σ) (pass : Pass σ) : Pipeline σ := { p with passes := p.passes ++ [pass] }

/-- Names of the passes, in order. -/
def names (p : Pipeline σ) : List String := p.passes.map Pass.name

/-- What the pipeline makes of a pass of this name that has run, of the graph that it left and of
    its outcome. -/
def judge (recheck : Bool) (name : String) (ran : Pass σ) (g : Graph)
    (outcome : Except PassError Unit) : Except PipelineError Unit :=
  match outcome with
  | .error e => .error (.failed name e)
  | .ok () =>
    if recheck && ran.mutating then g.validate.mapError (.brokeGraph name) else .ok ()

/-- Runs passes in sequence until one stops the pipeline. A pass is asked for its name before it
    runs, and afterwards whether it mutates. -/
def runPasses (recheck : Bool) :
    List (Pass σ) → Graph → List (Pass σ) × Graph × Except PipelineError Unit
  | [], g => ([], g, .ok ())
  | pass :: rest, g =>
    let (pass', g', outcome) := pass.run g
    match judge recheck pass.name pass' g' outcome with
    | .error e => (pass' :: rest, g', .error e)
    | .ok () =>
      let (rest', g'', result) := runPasses recheck rest g'
      (pass' :: rest', g'', result)

/-- The pipeline after a run, the graph it leaves and the outcome. -/
def run (p : Pipeline σ) (g : Graph) : Pipeline σ × Graph × Except PipelineError Unit :=
  let (passes, g', result) := runPasses p.recheck p.passes g
  ({ p with passes := passes }, g', result)

/-- The pipeline of `Pass.validate` alone. -/
def validation : Pipeline Unit := ({} : Pipeline Unit).add (.validate ())

end Pipeline

end TensorGraph
