import TensorGraph.Graph.InPlace
import TensorGraph.Proofs.Growth

/-!
# `TensorGraph.Proofs.AtomicCalls` — **calls in place are all or nothing**

A call in place makes its changes one after another and may fail in between. It does not: all that
can fail comes before the first change. So running a call in place comes to taking the graph that
the call answers with, or to keeping the graph if it answers with an error.

## Contents
- **`settled`**, what an answer comes to in place.
- **One operation after another** runs to its settled answer.
- **`exec_perform`**, the same for every call.
-/

namespace TensorGraph

namespace InPlace

variable {ε ε' α : Type} {g : Graph}

/-! ## Settled answers -/

/-- What an answer with a new graph or an error comes to where the graph is kept in place. -/
def settled (g : Graph) : Except ε (Graph × α) → Except ε α × Graph
  | .ok (g', a) => (.ok a, g')
  | .error e => (.error e, g)

theorem eq_of_settled_error {r : Except ε (Graph × α)} {e : ε} {g' : Graph}
    (h : settled g r = (.error e, g')) : g' = g := by
  cases r with
  | ok r => cases h
  | error e' =>
      cases h
      rfl

theorem eq_ok_of_settled {r : Except ε (Graph × α)} {a : α} {g' : Graph}
    (h : settled g r = (.ok a, g')) : r = .ok (g', a) := by
  cases r with
  | ok r =>
      cases h
      rfl
  | error e => cases h

theorem exec_mapError_settled {x : InPlace ε α} {r : Except ε (Graph × α)}
    (h : exec x g = settled g r) (f : ε → ε') :
    exec (mapError f x) g = settled g (r.mapError f) := by
  rw [exec_mapError, h]
  rcases r with e | ⟨g', a⟩ <;> rfl

/-! ## Inputs, constants and outputs -/

theorem exec_pushVariable (name? : Option String) (shape : Shape) (role : Variable.Role)
    (producer? : Option OperatorId) (g : Graph) :
    exec (pushVariable name? shape role producer? : InPlace ε VariableId) g =
      (.ok g.nextVariable,
        { g with vars := g.vars ++ [⟨g.nextVariable, name?, shape, role, producer?, []⟩] }) := rfl

theorem exec_declare (name : String) (shape : Shape) (role : Variable.Role) (g : Graph) :
    exec (declare name shape role) g = settled g (g.declare name shape role) := by
  unfold declare Graph.declare
  rw [exec_bind, exec_get]
  by_cases hname : g.variableIndex.contains name = true
  · simp [hname, settled]
  · by_cases hrank : g.options.maxRank.toNat < shape.rank
    · simp [hname, hrank, settled]
    · simp [exec_bind, hname, hrank, exec_pushVariable, settled]
      rfl

theorem exec_addInput (name : String) (shape : Shape) (g : Graph) :
    exec (addInput name shape) g = settled g (g.addInput name shape) := by
  unfold addInput Graph.addInput
  rw [exec_bind, exec_declare]
  cases g.declare name shape .input <;> rfl

theorem exec_addConstant (name : String) (shape : Shape) (g : Graph) :
    exec (addConstant name shape) g = settled g (g.addConstant name shape) :=
  exec_declare name shape .constant g

theorem exec_markOutput (i : VariableId) (g : Graph) :
    exec (markOutput i) g = settled g ((g.markOutput i).map fun g' => (g', ())) := by
  unfold markOutput Graph.markOutput
  rw [exec_bind, exec_get]
  cases hfound : g.findVariable i with
  | none => simp [hfound, settled, Except.map]
  | some v =>
      by_cases hout : i ∈ g.outputs
      · simp [hout, hfound, settled, Except.map]
      · simp [hout, hfound, settled, Except.map]

/-! ## Application -/

/-- Looking up shapes changes nothing, whether it succeeds or not. -/
theorem exec_readShapes (slots : List (String × VariableId)) (g : Graph) :
    exec (readShapes slots) g = (slots.mapM g.inputShape, g) := by
  induction slots with
  | nil => rfl
  | cons slot slots ih =>
      unfold readShapes
      rw [exec_bind, exec_get, List.mapM_cons, Graph.inputShape]
      cases hfound : g.findVariable slot.2 with
      | none =>
          simp only [hfound, exec_throw]
          rfl
      | some v =>
          simp only [hfound]
          rw [exec_bind, ih]
          cases slots.mapM g.inputShape <;> rfl

/-- The variables made are those that the operator's outputs ask for. -/
theorem exec_pushOutputs (op : OperatorId) (outputs : List (String × Shape)) (g : Graph) :
    exec (pushOutputs op outputs : InPlace ε (List (String × VariableId))) g =
      (.ok ((g.outputVariables op outputs).map fun m => (m.1, m.2.id)),
        { g with vars := g.vars ++ (g.outputVariables op outputs).map Prod.snd }) := by
  induction outputs generalizing g with
  | nil =>
      rw [pushOutputs]
      simp [Graph.outputVariables]
  | cons output outputs ih =>
      obtain ⟨slot, shape⟩ := output
      rw [pushOutputs, exec_bind, exec_pushVariable]
      dsimp only
      rw [exec_bind, ih]
      simp [Graph.outputVariables, Graph.nextVariable]

theorem exec_enterConsumers (op : OperatorId) (inputs : List VariableId) (g : Graph) :
    exec (enterConsumers op inputs : InPlace ε Unit) g =
      (.ok (), { g with vars := Graph.linkConsumers op g.vars inputs }) := by
  induction inputs generalizing g with
  | nil => rfl
  | cons i inputs ih =>
      rw [enterConsumers, exec_bind, exec_modify]
      exact ih _

/-- **Committing in place** cannot fail. -/
theorem exec_commit (name : String) (params : Params) (inputs : List VariableId)
    (shapes : List Shape) (g : Graph) :
    exec (commit name params inputs shapes : InPlace ε (List VariableId)) g =
      settled g (.ok (g.applyCommit name params inputs shapes)) := by
  unfold commit
  rw [exec_bind, exec_get]
  dsimp only
  rw [exec_bind, exec_pushOutputs]
  dsimp only
  rw [exec_bind, exec_enterConsumers]
  rfl

/-- **Applying in place**: after the last check there is nothing left that can fail. -/
theorem exec_applyNamed (name : String) (params : Params) (inputs : List VariableId) (g : Graph) :
    exec (applyNamed name params inputs) g =
      settled g ((g.applyCheck name params inputs).map (g.applyCommit name params inputs)) := by
  unfold applyNamed Graph.applyCheck
  by_cases hlength : inputs.length = params.kind.inputSlots.length
  · by_cases hname : g.operatorIndex.contains name = true
    · simp [exec_bind, hlength, hname, settled, Except.map]
      rfl
    · simp only [hlength, ne_eq, not_true_eq_false, if_false, exec_bind, exec_get, hname,
        Bool.false_eq_true, exec_readShapes]
      cases (params.kind.inputSlots.zip inputs).mapM g.inputShape with
      | error fault => rfl
      | ok shapes =>
          dsimp only
          show _ = settled g ((params.outputShapes shapes).map _)
          cases params.outputShapes shapes with
          | error fault => rfl
          | ok outputShapes => exact exec_commit name params inputs outputShapes g
  · simp [hlength, settled, Except.map]
    rfl

theorem exec_apply (op : Operator) (inputs : List VariableId) (g : Graph) :
    exec (apply op inputs) g = settled g (g.apply op inputs) := by
  unfold apply Graph.apply
  rw [exec_bind, exec_get]
  dsimp only
  rw [exec_mapError_settled (exec_applyNamed _ op.params inputs g)]
  cases g.applyCheck (op.name?.getD g.unusedName) op.params inputs <;> rfl

theorem exec_applyOne (op : Operator) (inputs : List VariableId) (g : Graph) :
    exec (applyOne op inputs) g = settled g (g.applyOne op inputs) := by
  unfold applyOne Graph.applyOne
  rw [exec_bind, exec_get]
  dsimp only
  rw [exec_bind, exec_apply]
  cases g.apply op inputs <;> rfl

/-! ## Calls -/

/-- **A call in place** comes to its answer: the new graph, or the old one if there is an error. -/
theorem exec_perform (c : Call) (g : Graph) : exec (perform c) g = settled g (g.answer c) := by
  cases c with
  | addInput name shape =>
      rw [perform, exec_mapError, exec_bind, exec_addInput, Graph.answer]
      cases g.addInput name shape <;> rfl
  | addConstant name shape =>
      rw [perform, exec_mapError, exec_bind, exec_addConstant, Graph.answer]
      cases g.addConstant name shape <;> rfl
  | markOutput i =>
      rw [perform, exec_mapError, exec_bind, exec_markOutput, Graph.answer]
      cases g.markOutput i <;> rfl
  | apply op inputs => exact exec_mapError_settled (exec_apply op inputs g) Error.apply
  | applyOne op inputs =>
      rw [perform, exec_mapError, exec_bind, exec_applyOne, Graph.answer]
      cases g.applyOne op inputs <;> rfl

/-- So runs may be thought of as runs in place. -/
theorem after_eq_exec_perform (g : Graph) (c : Call) : g.after c = (exec (perform c) g).2 := by
  rw [exec_perform, Graph.after]
  rcases g.answer c with e | ⟨g', ids⟩ <;> rfl

end InPlace

end TensorGraph
