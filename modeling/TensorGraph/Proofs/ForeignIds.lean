import TensorGraph.Proofs.Growth

/-!
# `TensorGraph.Proofs.ForeignIds` — **ids of other graphs mean nothing**

Arenas of different graphs start alike, so what tells ids apart is the graph that they name. A graph
looks at it before it looks anything up, and every id that it gives or keeps names the graph itself.
Neither depends on how long the arenas are.

## Contents
- **`Refuses`**: all that can be asked of a graph about an id that it does not resolve, and
  `refuses_foreign`.
- **Ways to succeed.** `Success` has what a call has checked and what it answers, on any graph.
- **`Homed`**: every id kept by a graph names the graph; kept by a call and by a run.
-/

namespace TensorGraph

namespace Graph

open Checks

variable {g : Graph}

/-! ## Refusing an id -/

/-- The first failing look-up is the answer, once those before it have succeeded. -/
theorem mapM_eq_error_of_first {α β ε : Type} {f : α → Except ε β} {xs : List α} {k : Nat} {x : α}
    {e : ε} (hx : xs[k]? = some x) (herror : f x = .error e)
    (hbefore : ∀ j < k, ∀ y, xs[j]? = some y → ∃ b, f y = .ok b) : xs.mapM f = .error e := by
  induction xs generalizing k with
  | nil => cases hx
  | cons first xs ih =>
      rw [List.mapM_cons]
      cases k with
      | zero =>
          cases hx
          rw [herror]
          rfl
      | succ k =>
          obtain ⟨b, hb⟩ := hbefore 0 (Nat.succ_pos k) first rfl
          have hrest : xs.mapM f = .error e :=
            ih hx fun j hj y hy => hbefore (j + 1) (Nat.succ_lt_succ hj) y hy
          rw [hb, hrest]
          rfl

/-- **Applying to an id that does not resolve** fails with its slot, once the number of inputs is
    right, the name free and all inputs before it resolve. -/
theorem applyCheck_unknown {name : String} {params : Params} {inputs : List VariableId} {k : Nat}
    {slot : String} {i : VariableId} (hlength : inputs.length = params.kind.inputSlots.length)
    (hfree : g.operatorIndex.find? name = none) (hslot : params.kind.inputSlots[k]? = some slot)
    (hi : inputs[k]? = some i) (hnone : g.findVariable i = none)
    (hbefore : ∀ j < k, ∀ o, inputs[j]? = some o → ∃ v, g.findVariable o = some v) :
    g.applyCheck name params inputs = .error (.unknownVariable slot i) := by
  have hcontains : g.operatorIndex.contains name = false := contains_eq_false_iff.mpr hfree
  have hlookups : (params.kind.inputSlots.zip inputs).mapM g.inputShape =
      .error (.unknownVariable slot i) := by
    have hpair : (params.kind.inputSlots.zip inputs)[k]? = some (slot, i) :=
      List.getElem?_zip_eq_some.mpr ⟨hslot, hi⟩
    refine mapM_eq_error_of_first hpair ?_ ?_
    · rw [inputShape, hnone]
    · rintro j hj ⟨s, o⟩ ho
      obtain ⟨v, hv⟩ := hbefore j hj o (List.getElem?_zip_eq_some.mp ho).2
      exact ⟨v.shape, by rw [inputShape, hv]⟩
  unfold applyCheck
  simp only [hlength, hcontains, hlookups, ne_eq, not_true_eq_false, if_false]
  rfl

/-- **What a graph answers about an id that means nothing to it.** -/
structure Refuses (g : Graph) (i : VariableId) : Prop where
  findVariable : g.findVariable i = none
  producer : g.producer? i = none
  consumers : g.consumers i = []
  markOutput : g.answer (.markOutput i) = .error (.graph ⟨g.name, .unknownVariable i⟩)
  /-- Whatever slot the id is given for. -/
  apply_fails : ∀ op inputs, i ∈ inputs →
    (∃ e, g.answer (.apply op inputs) = .error e) ∧
      ∃ e, g.answer (.applyOne op inputs) = .error e
  /-- The error has the slot and the id when nothing was wrong before. -/
  apply_unknown : ∀ (op : Operator) (inputs : List VariableId) (k : Nat) (slot : String),
    inputs.length = op.params.kind.inputSlots.length →
    g.operatorIndex.find? (g.nameFor op) = none →
    op.params.kind.inputSlots[k]? = some slot → inputs[k]? = some i →
    (∀ j < k, ∀ o, inputs[j]? = some o → ∃ v, g.findVariable o = some v) →
    g.answer (.apply op inputs) = .error (.apply ⟨g.nameFor op, .unknownVariable slot i⟩) ∧
      g.answer (.applyOne op inputs) = .error (.apply ⟨g.nameFor op, .unknownVariable slot i⟩)

/-- Both ways to apply an operator fail as the checks before do. -/
theorem answer_apply_of_applyCheck {op : Operator} {inputs : List VariableId} {e : ApplyFault}
    (h : g.applyCheck (g.nameFor op) op.params inputs = .error e) :
    g.answer (.apply op inputs) = .error (.apply ⟨g.nameFor op, e⟩) ∧
      g.answer (.applyOne op inputs) = .error (.apply ⟨g.nameFor op, e⟩) := by
  have happly : g.apply op inputs = .error ⟨g.nameFor op, e⟩ :=
    apply_eq_error_iff.mpr ⟨e, h, rfl⟩
  constructor
  · rw [answer, happly]
    rfl
  · rw [answer, applyOne, happly]
    rfl

/-- **An id that does not resolve is refused** by all operations. -/
theorem refuses_of_findVariable {i : VariableId} (h : g.findVariable i = none) : g.Refuses i where
  findVariable := h
  producer := by rw [producer?, h]; rfl
  consumers := by rw [Graph.consumers, h]
  markOutput := by rw [answer, Graph.markOutput, h]
  apply_fails op inputs hi := by
    cases hcheck : g.applyCheck (g.nameFor op) op.params inputs with
    | error e =>
        obtain ⟨happly, hone⟩ := answer_apply_of_applyCheck hcheck
        exact ⟨⟨_, happly⟩, ⟨_, hone⟩⟩
    | ok shapes =>
        -- The checks pass only if all inputs resolve.
        obtain ⟨shape, -, happ⟩ := applyCheck_eq_ok_iff.mp hcheck
        obtain ⟨v, hv⟩ := happ.found i hi
        rw [h] at hv
        cases hv
  apply_unknown op inputs k slot hlength hfree hslot hi hbefore :=
    answer_apply_of_applyCheck (applyCheck_unknown hlength hfree hslot hi h hbefore)

theorem findVariable_foreign {i : VariableId} (h : i.graph ≠ g.id) : g.findVariable i = none :=
  if_neg h

theorem findOperator_foreign {i : OperatorId} (h : i.graph ≠ g.id) : g.findOperator i = none :=
  if_neg h

/-- **Ids of other graphs are refused**, whatever their position. -/
theorem refuses_foreign {i : VariableId} (h : i.graph ≠ g.id) : g.Refuses i :=
  refuses_of_findVariable (findVariable_foreign h)

/-! ## Ways to succeed -/

/-- The graph with an operator, whatever the ids in it. -/
def committed (g : Graph) (name : String) (params : Params) (inputs : List VariableId)
    (shape : Shape) : Graph :=
  { g with
    vars := linkConsumers g.nextOperator (g.vars ++ [g.made shape]) inputs
    ops := g.ops ++ [g.appliedNode name params inputs]
    operatorIndex := g.operatorIndex.insert name g.nextOperator }

theorem apply_eq_ok {op : Operator} {inputs : List VariableId} {r : Graph × List VariableId}
    (h : g.apply op inputs = .ok r) :
    ∃ shape, g.Applicable (g.nameFor op) op.params inputs shape ∧
      r = (g.committed (g.nameFor op) op.params inputs shape, [g.nextVariable]) := by
  unfold apply at h
  dsimp only at h
  rw [← nameFor] at h
  split at h
  · cases h
  · rename_i shapes hcheck
    obtain ⟨shape, rfl, happ⟩ := applyCheck_eq_ok_iff.mp hcheck
    cases h
    exact ⟨shape, happ, rfl⟩

/-- **The ways in which a call succeeds**, with what it has checked, the grown graph and the ids
    given. -/
inductive Success (g : Graph) : Graph × List VariableId → Prop where
  | declared {name : String} {shape : Shape} {role : Variable.Role} (hrole : role ≠ .intermediate)
      (hdecl : g.Declarable name shape) :
      Success g (g.withDeclared name shape role, [g.nextVariable])
  | marked {i : VariableId} {v : Variable} (hfound : g.findVariable i = some v) :
      Success g (if i ∈ g.outputs then g else g.withOutput i, [])
  | applied {op : Operator} {inputs : List VariableId} {shape : Shape}
      (happ : g.Applicable (g.nameFor op) op.params inputs shape) :
      Success g (g.committed (g.nameFor op) op.params inputs shape, [g.nextVariable])

theorem success_of_answer {c : Call} {r : Graph × List VariableId} (h : g.answer c = .ok r) :
    g.Success r := by
  cases c with
  | addInput name shape =>
      obtain ⟨hdecl, rfl⟩ := answer_addInput_eq_ok_iff.mp h
      exact .declared (by decide) hdecl
  | addConstant name shape =>
      obtain ⟨hdecl, rfl⟩ := answer_addConstant_eq_ok_iff.mp h
      exact .declared (by decide) hdecl
  | markOutput i =>
      obtain ⟨⟨v, hv⟩, rfl⟩ := answer_markOutput_eq_ok_iff.mp h
      exact .marked hv
  | apply op inputs =>
      obtain ⟨shape, happ, rfl⟩ := apply_eq_ok (mapError_eq_ok_iff.mp h)
      exact .applied happ
  | applyOne op inputs =>
      rw [answer, applyOne] at h
      cases hok : g.apply op inputs with
      | error e =>
          rw [hok] at h
          cases h
      | ok made =>
          obtain ⟨shape, happ, rfl⟩ := apply_eq_ok hok
          rw [hok] at h
          cases h
          exact .applied happ

/-- What holds of a graph and of what calls make of it holds after a call. -/
theorem after_of_success {P : Graph → Prop} (hsame : P g) (hsuccess : ∀ r, g.Success r → P r.1)
    (c : Call) : P (g.after c) := by
  cases h : g.answer c with
  | error e =>
      rw [after_of_error h]
      exact hsame
  | ok r =>
      rw [after_of_answer h]
      exact hsuccess r (success_of_answer h)

theorem Success.id_eq {r : Graph × List VariableId} (h : g.Success r) : r.1.id = g.id := by
  cases h with
  | declared => rfl
  | marked hfound =>
      dsimp only
      split <;> rfl
  | applied happ => rfl

theorem id_after (g : Graph) (c : Call) : (g.after c).id = g.id :=
  after_of_success (P := fun g' => g'.id = g.id) rfl (fun _ h => h.id_eq) c

theorem id_run (g : Graph) (calls : List Call) : (g.run calls).id = g.id := by
  induction calls generalizing g with
  | nil => rfl
  | cons c calls ih => rw [run_cons, ih, id_after]

/-- The ids that a call gives are of the graph. -/
theorem Success.graph_of_mem {r : Graph × List VariableId} (h : g.Success r) {i : VariableId}
    (hi : i ∈ r.2) : i.graph = g.id := by
  cases h with
  | declared =>
      rw [List.mem_singleton.mp hi]
      rfl
  | marked hfound => cases hi
  | applied happ =>
      rw [List.mem_singleton.mp hi]
      rfl

end Graph

/-! ## Ids at home -/

/-- The ids that a variable keeps name the graph. -/
structure Variable.Homed (home : GraphId) (v : Variable) : Prop where
  id_graph : v.id.graph = home
  producer : ∀ op, v.producer? = some op → op.graph = home
  consumers : ∀ op ∈ v.consumers, op.graph = home

/-- The ids that an operator keeps name the graph. -/
structure Node.Homed (home : GraphId) (n : Node) : Prop where
  id_graph : n.id.graph = home
  inputs : ∀ slot ∈ n.inputs, slot.2.graph = home
  outputs : ∀ slot ∈ n.outputs, slot.2.graph = home

/-- **Every id that the graph keeps** names the graph. -/
structure Graph.Homed (g : Graph) : Prop where
  vars_homed : ∀ v ∈ g.vars, v.Homed g.id
  ops_homed : ∀ n ∈ g.ops, n.Homed g.id
  variable_index : ∀ name i, g.variableIndex.find? name = some i → i.graph = g.id
  operator_index : ∀ name i, g.operatorIndex.find? name = some i → i.graph = g.id
  inputs : ∀ i ∈ g.inputs, i.graph = g.id
  outputs : ∀ i ∈ g.outputs, i.graph = g.id

theorem Variable.Homed.addConsumer {home : GraphId} {v : Variable} (h : v.Homed home)
    {op : OperatorId} (hop : op.graph = home) : (v.addConsumer op).Homed home := by
  unfold Variable.addConsumer
  split
  · exact h
  · refine ⟨h.id_graph, h.producer, fun o ho => ?_⟩
    rcases List.mem_append.mp ho with hold | hnew
    · exact h.consumers o hold
    · rw [List.mem_singleton.mp hnew]
      exact hop

namespace Graph

variable {g : Graph}

theorem homed_empty (id : GraphId) (name : String) (options : Options) :
    (empty id name options).Homed where
  vars_homed := nofun
  ops_homed := nofun
  variable_index := nofun
  operator_index := nofun
  inputs := nofun
  outputs := nofun

theorem home_of_findVariable {i : VariableId} {v : Variable} (h : g.findVariable i = some v) :
    i.graph = g.id :=
  (findVariable_eq_some_iff.mp h).1

/-- Linking enters the operator among the readers of some variables and changes nothing else. -/
theorem mem_linkConsumers {op : OperatorId} {vars : List Variable} {inputs : List VariableId}
    {v : Variable} (hv : v ∈ linkConsumers op vars inputs) :
    ∃ w ∈ vars, v = w ∨ v = w.addConsumer op := by
  obtain ⟨k, hk⟩ := List.mem_iff_getElem?.mp hv
  rw [getElem?_linkConsumers] at hk
  obtain ⟨w, hw, rfl⟩ := Option.map_eq_some_iff.mp hk
  refine ⟨w, List.mem_of_getElem? hw, ?_⟩
  split
  · exact Or.inr rfl
  · exact Or.inl rfl

/-- An index with one more name, where what is entered names the graph. -/
theorem graph_of_find?_insert {arena : Arena} {index : NameMap (Id arena)} {home : GraphId}
    (h : ∀ name i, index.find? name = some i → i.graph = home) {name : String} {new : Id arena}
    (hnew : new.graph = home) (given : String) (i : Id arena)
    (hi : (index.insert name new).find? given = some i) : i.graph = home := by
  rw [NameMap.find?_insert] at hi
  split at hi
  · cases hi
    exact hnew
  · exact h given i hi

theorem graph_of_mem_snoc {arena : Arena} {is : List (Id arena)} {home : GraphId}
    (h : ∀ i ∈ is, i.graph = home) {new : Id arena} (hnew : new.graph = home) {i : Id arena}
    (hi : i ∈ is ++ [new]) : i.graph = home := by
  rcases List.mem_append.mp hi with hold | hlast
  · exact h i hold
  · rw [List.mem_singleton.mp hlast]
    exact hnew

namespace Homed

theorem withDeclared (h : g.Homed) (name : String) (shape : Shape) (role : Variable.Role) :
    (g.withDeclared name shape role).Homed where
  vars_homed v hv := by
    rcases List.mem_append.mp hv with hold | hnew
    · exact h.vars_homed v hold
    · rw [List.mem_singleton.mp hnew]
      exact ⟨rfl, nofun, nofun⟩
  ops_homed := h.ops_homed
  variable_index := graph_of_find?_insert h.variable_index rfl
  operator_index := h.operator_index
  inputs i hi := by
    cases role with
    | input => exact graph_of_mem_snoc h.inputs (rfl : g.nextVariable.graph = g.id) hi
    | constant => exact h.inputs i hi
    | intermediate => exact h.inputs i hi
  outputs := h.outputs

theorem withOutput (h : g.Homed) {i : VariableId} (hi : i.graph = g.id) : (g.withOutput i).Homed where
  vars_homed := h.vars_homed
  ops_homed := h.ops_homed
  variable_index := h.variable_index
  operator_index := h.operator_index
  inputs := h.inputs
  outputs _ ho := graph_of_mem_snoc h.outputs hi ho

/-- What is read resolves, so it is at home, and the new ids are given by the graph. -/
theorem committed (h : g.Homed) {name : String} {params : Params} {inputs : List VariableId}
    {shape : Shape} (happ : g.Applicable name params inputs shape) :
    (g.committed name params inputs shape).Homed where
  vars_homed v hv := by
    have hall : ∀ w ∈ g.vars ++ [g.made shape], w.Homed g.id := by
      intro w hw
      rcases List.mem_append.mp hw with hold | hnew
      · exact h.vars_homed w hold
      · rw [List.mem_singleton.mp hnew]
        refine ⟨rfl, fun op hop => ?_, nofun⟩
        cases hop
        rfl
    obtain ⟨w, hw, heq | heq⟩ := mem_linkConsumers hv
    · rw [heq]
      exact hall w hw
    · rw [heq]
      exact (hall w hw).addConsumer rfl
  ops_homed n hn := by
    rcases List.mem_append.mp hn with hold | hnew
    · exact h.ops_homed n hold
    · rw [List.mem_singleton.mp hnew]
      refine ⟨rfl, ?_, ?_⟩
      · rintro ⟨slot, i⟩ hslot
        obtain ⟨v, hv⟩ := happ.found i (List.of_mem_zip hslot).2
        exact home_of_findVariable (g := g) hv
      · intro slot hslot
        rw [List.mem_singleton.mp hslot]
        rfl
  variable_index := h.variable_index
  operator_index := graph_of_find?_insert h.operator_index rfl
  inputs := h.inputs
  outputs := h.outputs

theorem success (h : g.Homed) {r : Graph × List VariableId} (hr : g.Success r) : r.1.Homed := by
  cases hr with
  | declared => exact h.withDeclared _ _ _
  | marked hfound =>
      dsimp only
      split
      · exact h
      · exact h.withOutput (home_of_findVariable hfound)
  | applied happ => exact h.committed happ

/-- **A call keeps ids at home.** -/
theorem after (h : g.Homed) (c : Call) : (g.after c).Homed :=
  after_of_success h (fun _ hr => h.success hr) c

/-- **Runs keep ids at home**, however long they are. -/
theorem run (h : g.Homed) (calls : List Call) : (g.run calls).Homed := by
  induction calls generalizing g with
  | nil => exact h
  | cons c calls ih => exact ih (h.after c)

end Homed

end Graph

end TensorGraph
