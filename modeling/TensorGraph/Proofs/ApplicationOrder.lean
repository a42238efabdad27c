import TensorGraph.Proofs.Bookkeeping

/-!
# `TensorGraph.Proofs.ApplicationOrder` — **the sort gives back the order of application**

Operators may branch, join and read a variable twice: on graphs that calls made, the sort lists them
in the order in which the calls applied them, all of them and each once. On the way there it never
looks outside the arena and never counts below zero.

## Contents
- **Applications** of a run, as its calls answer them, and the operators in the end.
- **The order of a run**: `run_topologicalOrder`.
-/

namespace TensorGraph

namespace Graph

variable {g : Graph}

/-! ## Applications -/

/-- The operators that a call applies: those that make what it answers with. -/
def appliedBy (g : Graph) (c : Call) : List OperatorId :=
  match g.answer c with
  | .ok (g', made) => made.filterMap fun i => (g'.findVariable i).bind Variable.producer?
  | .error _ => []

/-- The operators that a run applies, call by call. -/
def applications (g : Graph) : List Call → List OperatorId
  | [] => []
  | c :: calls => g.appliedBy c ++ (g.after c).applications calls

theorem appliedBy_of_error {c : Call} {e : Error} (h : g.answer c = .error e) :
    g.appliedBy c = [] := by
  unfold appliedBy
  rw [h]

/-- Inputs and constants have no producer, so declaring them applies nothing. -/
theorem appliedBy_declared (hlt : g.vars.length < UInt32.size) {c : Call} {name : String}
    {shape : Shape} {role : Variable.Role}
    (h : g.answer c = .ok (g.withDeclared name shape role, [g.nextVariable])) :
    g.appliedBy c = [] := by
  unfold appliedBy
  rw [h]
  show [g.nextVariable].filterMap _ = []
  rw [List.filterMap_cons, findVariable_withDeclared_next hlt]
  rfl

/-- What an application makes names the operator that is new. -/
theorem appliedBy_applied (hlt : g.vars.length < UInt32.size) {c : Call} {name : String}
    {params : Params} {inputs : List VariableId} {shape : Shape}
    (h : g.answer c = .ok (g.applied name params inputs shape, [g.nextVariable])) :
    g.appliedBy c = [g.nextOperator] := by
  unfold appliedBy
  rw [h]
  show [g.nextVariable].filterMap _ = [g.nextOperator]
  rw [List.filterMap_cons, findVariable_applied_next hlt]
  rfl

/-- **A call appends what it applies** to the operators. -/
theorem ids_after (hg : g.Minted) (hfits : g.Fits) (c : Call) :
    (g.after c).ops.map Node.id = g.ops.map Node.id ++ g.appliedBy c := by
  have hlen : g.vars.length ≤ UInt32.size := Nat.le_of_lt hfits.1
  cases h : g.answer c with
  | error e => rw [after_of_error h, appliedBy_of_error h, List.append_nil]
  | ok r =>
      rw [after_of_answer h]
      cases c with
      | addInput name shape =>
          obtain ⟨-, rfl⟩ := answer_addInput_eq_ok_iff.mp h
          rw [appliedBy_declared hfits.1 h, List.append_nil]
          rfl
      | addConstant name shape =>
          obtain ⟨-, rfl⟩ := answer_addConstant_eq_ok_iff.mp h
          rw [appliedBy_declared hfits.1 h, List.append_nil]
          rfl
      | markOutput i =>
          obtain ⟨-, rfl⟩ := answer_markOutput_eq_ok_iff.mp h
          -- Marking answers with no variable at all.
          have hnone : g.appliedBy (.markOutput i) = [] := by
            unfold appliedBy
            rw [h]
            rfl
          rw [hnone, List.append_nil]
          dsimp only
          split <;> rfl
      | apply op inputs =>
          obtain ⟨shape, -, rfl⟩ := (answer_apply_eq_ok_iff hg hlen).mp h
          rw [appliedBy_applied hfits.1 h, applied, List.map_append]
          rfl
      | applyOne op inputs =>
          obtain ⟨shape, -, rfl⟩ := (answer_applyOne_eq_ok_iff hg hlen).mp h
          rw [appliedBy_applied hfits.1 h, applied, List.map_append]
          rfl

/-- **The operators of a run** are those that were there and those that it applies, in that order. -/
theorem ids_run {calls : List Call} (h : g.Ledger) (hfits : (g.run calls).Fits) :
    (g.run calls).ops.map Node.id = g.ops.map Node.id ++ g.applications calls := by
  induction calls generalizing g with
  | nil => exact (List.append_nil _).symm
  | cons c calls ih =>
      -- Arenas only grow, so there was room before the first call as well.
      have hroom : g.Fits := fits_of_fits_run hfits
      rw [applications, ← List.append_assoc, ← ids_after h.toMinted hroom]
      exact ih (h.after hroom c) hfits

/-! ## The order of a run -/

/-- The ids of the operators lead to the operators. -/
theorem Minted.map_findOperator_ids (hg : g.Minted) (hlen : g.ops.length ≤ UInt32.size) :
    (g.ops.map Node.id).map g.findOperator = g.ops.map some := by
  rw [List.map_map]
  exact List.map_congr_left fun n hn => hg.findOperator_id hlen hn

/-- **The sort gives back the order of application.** After any run from an empty graph that leaves
    room for ids, it ends without a failure and lists the operators as they stand in the arena,
    which is how the calls of the run applied them, none missing and none twice. -/
theorem run_topologicalOrder (id : GraphId) (name : String) {options : Options}
    (hvalid : options.Valid) {calls : List Call}
    (hfits : ((empty id name options).run calls).Fits) :
    let g := (empty id name options).run calls
    TopologicalSort.order? g = some g.topologicalOrder ∧
      g.topologicalOrder = g.ops.map Node.id ∧
      g.topologicalOrder = (empty id name options).applications calls ∧
      g.topologicalOrder.map g.findOperator = g.ops.map some ∧ g.topologicalOrder.Nodup := by
  intro g
  have hledger : g.Ledger := ledger_run id name hvalid hfits
  have hmirrored : g.Mirrored := hledger.mirrored (Nat.le_of_lt hfits.2)
  have horder : g.topologicalOrder = g.ops.map Node.id := hledger.topologicalOrder_eq hfits
  refine ⟨TopologicalSort.order?_eq hmirrored, horder, ?_, ?_, hmirrored.nodup_topologicalOrder⟩
  · rw [horder]
    exact ids_run (ledger_empty id name hvalid) hfits
  · rw [horder]
    exact hledger.map_findOperator_ids (Nat.le_of_lt hfits.2)

/-- Two branches from one variable, a join that reads one of them twice, and refused calls. -/
def branchingCalls : List Call :=
  [ .addInput "x" twoChannels,
    .apply (.named "left" (.activation .relu) (by decide) (Params.valid_activation _)) [⟨⟨0⟩, 0⟩],
    .apply (.named "left" (.activation .tanh) (by decide) (Params.valid_activation _)) [⟨⟨0⟩, 0⟩],
    .applyOne (.named "right" (.activation .tanh) (by decide) (Params.valid_activation _))
      [⟨⟨0⟩, 0⟩],
    .apply (.unnamed .elementwiseSum Params.valid_elementwiseSum) [⟨⟨0⟩, 2⟩, ⟨⟨0⟩, 2⟩],
    .apply (.unnamed .elementwiseSum Params.valid_elementwiseSum) [⟨⟨0⟩, 9⟩, ⟨⟨0⟩, 1⟩],
    .applyOne (.unnamed .elementwiseSum Params.valid_elementwiseSum) [⟨⟨0⟩, 3⟩, ⟨⟨0⟩, 1⟩] ]

theorem run_topologicalOrder_branching :
    ((empty ⟨0⟩ "branching").run branchingCalls).topologicalOrder =
      [⟨⟨0⟩, 0⟩, ⟨⟨0⟩, 1⟩, ⟨⟨0⟩, 2⟩, ⟨⟨0⟩, 3⟩] := by
  have hfits : ((empty ⟨0⟩ "branching").run branchingCalls).Fits := ⟨by decide, by decide⟩
  obtain ⟨-, hids, -⟩ := run_topologicalOrder ⟨0⟩ "branching" (by decide) hfits
  rw [hids]
  decide

end Graph

end TensorGraph
