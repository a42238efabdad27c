import TensorGraph.Graph.Basic

/-!
# `TensorGraph.Graph.TopologicalOrder` — **operators after what they read**

Operators are ordered so that each follows those that make its inputs. An operator is *ready* once
all its predecessors are ordered; among the ready ones the least id goes first, so the order is
determined by the graph. Operators on a cycle, or behind one, never become ready.

## Contents
- **The sort** as a sequence of `step`s on a state that holds, per operator, how many predecessors
  are still to come.
- **The order** after enough steps: each operator becomes ready at most once by its count and once
  at the start, so twice the number of operators bounds the steps.
-/

namespace TensorGraph

namespace TopologicalSort

/-- A sort under way. -/
structure State where
  /-- Per position, how many predecessors of the operator are still to be ordered. -/
  waiting : List Nat
  /-- Operators that wait for none, in increasing order. -/
  ready : List OperatorId
  /-- The order so far. -/
  order : List OperatorId
deriving DecidableEq

/-- Before any operator is ordered. -/
def start (g : Graph) : State :=
  let waiting := g.ops.map fun n => (g.predecessors n).length
  { waiting := waiting
    ready := Id.sortDistinct
      ((g.ops.filter fun n => waiting[n.id.position]? == some 0).map Node.id)
    order := [] }

/-- One predecessor of an operator is ordered. The operator becomes ready when it was the last. -/
def release (s : State) (i : OperatorId) : State :=
  match s.waiting[i.position]? with
  | some 1 => { s with waiting := s.waiting.set i.position 0, ready := Id.insertSorted i s.ready }
  | some (n + 2) => { s with waiting := s.waiting.set i.position (n + 1) }
  | _ => s

/-- The operators that read an output of the operator at the id's position. -/
def successorsOf (g : Graph) (i : OperatorId) : List OperatorId :=
  match g.ops[i.position]? with
  | some n => g.successors n
  | none => []

/-- Orders the least ready operator. -/
def step (g : Graph) (s : State) : State :=
  match s.ready with
  | [] => s
  | i :: rest =>
    (successorsOf g i).foldl release { s with ready := rest, order := s.order ++ [i] }

/-- The state after a number of steps. -/
def run (g : Graph) : Nat → State → State
  | 0, s => s
  | n + 1, s => run g n (step g s)

end TopologicalSort

/-- The operators that can be ordered, each after its predecessors. -/
def Graph.topologicalOrder (g : Graph) : List OperatorId :=
  (TopologicalSort.run g (2 * g.ops.length) (TopologicalSort.start g)).order

end TensorGraph
