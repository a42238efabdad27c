import TensorGraph.Graph.Call

/-!
# `TensorGraph.Workspace` — **several graphs side by side**

A workspace holds graphs under handles and hands out their identities. Creating a graph under a
taken handle drops the graph that was there; its identity is not handed out again, so ids that it
gave resolve in no later graph.

## Contents
- **The type** `Workspace` with `find?`, `put` and `create`.
- **Actions**: creating a graph, or calling an operation on one. A *run* interleaves actions on any
  number of graphs; an action that is refused changes nothing, and the run goes on.
-/

namespace TensorGraph

/-- Graphs under handles, and what is left of the graph identities. -/
structure Workspace where
  supply : GraphIdSupply := {}
  graphs : NameMap Graph := .empty
deriving Inhabited

namespace Workspace

/-- The graph under a handle. -/
def find? (w : Workspace) (handle : String) : Option Graph := w.graphs.find? handle

/-- The workspace with a graph put under a handle. -/
def put (w : Workspace) (handle : String) (g : Graph) : Workspace :=
  { w with graphs := w.graphs.insert handle g }

/-- Puts an empty graph with an identity of its own under a handle, unless the options are
    refused. -/
def create (w : Workspace) (handle name : String) (options : Options) :
    Except OptionsFault (Workspace × Graph) := do
  let (id, supply) := w.supply.fresh
  let g ← Graph.create id name options
  return ({ w with supply := supply }.put handle g, g)

/-! ## Actions -/

/-- An action on a workspace. -/
inductive Action where
  | create (handle name : String) (options : Options)
  | call (handle : String) (c : Call)
deriving DecidableEq

/-- The workspace after an action, whether the action succeeded or not. -/
def after (w : Workspace) : Action → Workspace
  | .create handle name options =>
    match w.create handle name options with
    | .ok (w', _) => w'
    | .error _ => w
  | .call handle c =>
    match w.find? handle with
    | some g => w.put handle (g.after c)
    | none => w

/-- The workspace after a run. -/
def run (w : Workspace) (actions : List Action) : Workspace := actions.foldl after w

/-! ## Looking up -/

@[simp] theorem find?_put (w : Workspace) (handle : String) (g : Graph) (q : String) :
    (w.put handle g).find? q = if q = handle then some g else w.find? q :=
  NameMap.find?_insert w.graphs handle g q

@[simp] theorem run_nil (w : Workspace) : w.run [] = w := rfl

@[simp] theorem run_cons (w : Workspace) (a : Action) (actions : List Action) :
    w.run (a :: actions) = (w.after a).run actions := rfl

end Workspace

end TensorGraph
