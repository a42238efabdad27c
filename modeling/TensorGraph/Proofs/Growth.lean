import TensorGraph.Graph.Call
import TensorGraph.Proofs.Checks
import TensorGraph.Proofs.Minted

/-!
# `TensorGraph.Proofs.Growth` — **what a call does to a graph**

Every call on a graph leaves it as it was or does one of three things: it declares a variable, marks
an output, or applies an operator. `Graph.Grows` has the three with everything that was checked
before, and `after_eq_or_grows` says that there is nothing else. What holds of all graphs that calls
can make is proved from it by cases, without a look into the operations.

## Contents
- **Declaring, marking, applying** as functions on graphs: `withDeclared`, `withOutput`, `applied`.
- **When they happen**: `Declarable`, `Applicable`, and what the operations answer then.
- **`Grows`** and `after_eq_or_grows`.
- **Runs.** Arenas never shrink, so what a step keeps while there is room for ids, a run keeps:
  `run_induction`.
-/

namespace TensorGraph

open Checks

/-! ## Consumers -/

namespace Variable

/-- The variable after an operator has read some inputs: only its consumers may have grown. -/
def readBy (op : OperatorId) (inputs : List VariableId) (v : Variable) : Variable :=
  { v with
    consumers := if v.id ∈ inputs ∧ op ∉ v.consumers then v.consumers ++ [op] else v.consumers }

variable {op : OperatorId} {inputs : List VariableId}

@[simp] theorem id_readBy (v : Variable) : (v.readBy op inputs).id = v.id := rfl

@[simp] theorem role_readBy (v : Variable) : (v.readBy op inputs).role = v.role := rfl

@[simp] theorem producer?_readBy (v : Variable) :
    (v.readBy op inputs).producer? = v.producer? := rfl

/-- Being read by an operator is what `addConsumer` records. -/
theorem readBy_eq (v : Variable) :
    v.readBy op inputs = if v.id ∈ inputs then v.addConsumer op else v := by
  unfold readBy addConsumer
  by_cases hread : v.id ∈ inputs <;> by_cases hop : op ∈ v.consumers <;> simp [hread, hop]

theorem mem_consumers_readBy {v : Variable} {o : OperatorId} :
    o ∈ (v.readBy op inputs).consumers ↔ o ∈ v.consumers ∨ (o = op ∧ v.id ∈ inputs) := by
  unfold readBy
  by_cases hread : v.id ∈ inputs
  · by_cases hop : op ∈ v.consumers
    · simp only [hread, hop, not_true_eq_false, and_false, if_false, and_true]
      exact ⟨Or.inl, fun h => h.elim (fun hold => hold) fun heq => heq ▸ hop⟩
    · simp [hread, hop]
  · simp [hread]

/-- A new operator is entered at the end. -/
theorem consumers_readBy {v : Variable} (hnew : op ∉ v.consumers) :
    (v.readBy op inputs).consumers = v.consumers ++ if v.id ∈ inputs then [op] else [] := by
  unfold readBy
  by_cases hread : v.id ∈ inputs <;> simp [hread, hnew]

/-- Entering an operator twice is entering it once. -/
theorem addConsumer_addConsumer (v : Variable) (op : OperatorId) :
    (v.addConsumer op).addConsumer op = v.addConsumer op := by
  unfold addConsumer
  by_cases hop : op ∈ v.consumers <;> simp [hop]

end Variable

namespace Graph

variable {g : Graph}

/-! ## Declaring, marking, applying -/

/-- The id that the next variable gets. -/
def nextVariable (g : Graph) : VariableId := Id.mint g.id g.vars.length

/-- The id that the next operator gets. -/
def nextOperator (g : Graph) : OperatorId := Id.mint g.id g.ops.length

/-- The graph with one more input or constant. -/
def withDeclared (g : Graph) (name : String) (shape : Shape) (role : Variable.Role) : Graph :=
  { g with
    vars := g.vars ++ [g.declared name shape role]
    variableIndex := g.variableIndex.insert name g.nextVariable
    inputs := if role = .input then g.inputs ++ [g.nextVariable] else g.inputs }

/-- The graph with one more output. -/
def withOutput (g : Graph) (i : VariableId) : Graph := { g with outputs := g.outputs ++ [i] }

/-- The variable that the next operator makes. -/
def made (g : Graph) (shape : Shape) : Variable where
  id := g.nextVariable
  name? := none
  shape := shape
  role := .intermediate
  producer? := some g.nextOperator
  consumers := []

/-- The next operator. -/
def appliedNode (g : Graph) (name : String) (params : Params) (inputs : List VariableId) :
    Node where
  id := g.nextOperator
  name := name
  params := params
  inputs := params.kind.inputSlots.zip inputs
  outputs := [("y", g.nextVariable)]

/-- The graph with one more operator and the variable that it makes. -/
def applied (g : Graph) (name : String) (params : Params) (inputs : List VariableId)
    (shape : Shape) : Graph :=
  { g with
    vars := g.vars.map (Variable.readBy g.nextOperator inputs) ++ [g.made shape]
    ops := g.ops ++ [g.appliedNode name params inputs]
    operatorIndex := g.operatorIndex.insert name g.nextOperator }

/-! ## When they happen -/

/-- The name is free and the rank is within the limit. -/
structure Declarable (g : Graph) (name : String) (shape : Shape) : Prop where
  free : g.variableIndex.find? name = none
  rank_le : shape.rank ≤ g.options.maxRank.toNat

/-- There are as many inputs as slots, the name is free, the inputs resolve, and the shape rule
    gives the shape. -/
structure Applicable (g : Graph) (name : String) (params : Params) (inputs : List VariableId)
    (shape : Shape) : Prop where
  length_inputs : inputs.length = params.kind.inputSlots.length
  free : g.operatorIndex.find? name = none
  found : ∀ i ∈ inputs, ∃ v, g.findVariable i = some v
  inferred : params.outputShapes (g.shapesOf inputs) = .ok [shape]

/-- The name under which an operator is applied. -/
def nameFor (g : Graph) (op : Operator) : String := op.name?.getD g.unusedName

theorem nameFor_of_none {op : Operator} (h : op.name? = none) : g.nameFor op = g.unusedName := by
  rw [nameFor, h]
  rfl

theorem nameFor_of_some {op : Operator} {name : String} (h : op.name? = some name) :
    g.nameFor op = name := by
  rw [nameFor, h]
  rfl

theorem contains_eq_false_iff {α : Type} {m : NameMap α} {name : String} :
    m.contains name = false ↔ m.find? name = none := by
  rw [NameMap.contains, Option.isSome_eq_false_iff, Option.isNone_iff_eq_none]

theorem declare_of_declarable {name : String} {shape : Shape} (role : Variable.Role)
    (h : g.Declarable name shape) :
    g.declare name shape role =
      .ok ({ g with
              vars := g.vars ++ [g.declared name shape role]
              variableIndex := g.variableIndex.insert name g.nextVariable }, g.nextVariable) := by
  have hfree := contains_eq_false_iff.mpr h.free
  have hrank := Nat.not_lt.mpr h.rank_le
  unfold declare
  rw [hfree, if_neg (by simp), if_neg hrank]
  rfl

theorem declarable_of_declare {name : String} {shape : Shape} {role : Variable.Role}
    {r : Graph × VariableId} (h : g.declare name shape role = .ok r) : g.Declarable name shape := by
  unfold declare at h
  split at h
  · cases h
  · split at h
    · cases h
    · rename_i hfree hrank
      exact ⟨contains_eq_false_iff.mp (by simpa using hfree), Nat.le_of_not_lt hrank⟩

/-- **Adding an input** succeeds exactly when the name is free and the rank within the limit. -/
theorem addInput_eq_ok_iff {name : String} {shape : Shape} {r : Graph × VariableId} :
    g.addInput name shape = .ok r ↔
      g.Declarable name shape ∧ r = (g.withDeclared name shape .input, g.nextVariable) := by
  unfold addInput
  rw [bind_eq_ok_iff]
  constructor
  · rintro ⟨a, ha, hr⟩
    have hdecl := declarable_of_declare ha
    rw [declare_of_declarable .input hdecl] at ha
    cases ha
    cases hr
    exact ⟨hdecl, rfl⟩
  · rintro ⟨hdecl, rfl⟩
    exact ⟨_, declare_of_declarable .input hdecl, rfl⟩

/-- **Adding a constant** succeeds exactly when the name is free and the rank within the limit. -/
theorem addConstant_eq_ok_iff {name : String} {shape : Shape} {r : Graph × VariableId} :
    g.addConstant name shape = .ok r ↔
      g.Declarable name shape ∧ r = (g.withDeclared name shape .constant, g.nextVariable) := by
  unfold addConstant
  constructor
  · intro h
    have hdecl := declarable_of_declare h
    rw [declare_of_declarable .constant hdecl] at h
    cases h
    exact ⟨hdecl, rfl⟩
  · rintro ⟨hdecl, rfl⟩
    exact declare_of_declarable .constant hdecl

/-- **Marking an output** succeeds exactly when the id resolves. -/
theorem markOutput_eq_ok_iff {i : VariableId} {g' : Graph} :
    g.markOutput i = .ok g' ↔
      (∃ v, g.findVariable i = some v) ∧ g' = if i ∈ g.outputs then g else g.withOutput i := by
  unfold markOutput
  cases hfound : g.findVariable i with
  | none => simp
  | some v => simp [withOutput, eq_comm]

theorem inputShape_eq_ok_iff {slot : String × VariableId} {s : Shape} :
    g.inputShape slot = .ok s ↔
      (∃ v, g.findVariable slot.2 = some v) ∧
        (g.findVariable slot.2).map Variable.shape = some s := by
  unfold inputShape
  cases hfound : g.findVariable slot.2 with
  | none => simp
  | some v => simp

theorem isSome_map_shape_of_found (slot : String × VariableId)
    (h : ∃ v, g.findVariable slot.2 = some v) :
    ((g.findVariable slot.2).map Variable.shape).isSome := by
  obtain ⟨v, hv⟩ := h
  rw [hv]
  rfl

theorem map_snd_inputSlots_zip {params : Params} {inputs : List VariableId}
    (h : inputs.length = params.kind.inputSlots.length) :
    (params.kind.inputSlots.zip inputs).map Prod.snd = inputs :=
  List.map_snd_zip (Nat.le_of_eq h)

/-- **The checks before an application** pass exactly when it is possible. -/
theorem applyCheck_eq_ok_iff {name : String} {params : Params} {inputs : List VariableId}
    {shapes : List Shape} :
    g.applyCheck name params inputs = .ok shapes ↔
      ∃ shape, shapes = [shape] ∧ g.Applicable name params inputs shape := by
  unfold applyCheck
  dsimp only
  rw [guard_eq_ok_iff, guard_eq_ok_iff, bind_eq_ok_iff, ne_eq,
    Classical.not_not, Bool.not_eq_true, contains_eq_false_iff]
  simp only [mapM_eq_ok_iff (fun slot s => inputShape_eq_ok_iff) isSome_map_shape_of_found,
    filterMap_shape]
  constructor
  · rintro ⟨hlength, hfree, found, ⟨hfound, rfl⟩, hinferred⟩
    -- There are as many inputs as slots, so looking up all slots looks up all inputs.
    obtain ⟨shape, rfl⟩ := outputShapes_eq_ok hinferred
    have hsnd := map_snd_inputSlots_zip hlength
    rw [hsnd] at hinferred
    refine ⟨shape, rfl, hlength, hfree, fun i hi => ?_, hinferred⟩
    rw [← hsnd] at hi
    obtain ⟨slot, hslot, rfl⟩ := List.mem_map.mp hi
    exact hfound slot hslot
  · rintro ⟨shape, rfl, h⟩
    have hsnd := map_snd_inputSlots_zip h.length_inputs
    refine ⟨h.length_inputs, h.free, _, ⟨fun slot hslot => ?_, rfl⟩, by rw [hsnd]; exact h.inferred⟩
    exact h.found slot.2 (List.of_mem_zip hslot).2

/-! ## Committing an application -/

/-- Entering an operator with everything it reads changes an entry when an input has its
    position. -/
theorem getElem?_linkConsumers (op : OperatorId) (vars : List Variable) (inputs : List VariableId)
    (k : Nat) :
    (linkConsumers op vars inputs)[k]? =
      vars[k]?.map fun v => if k ∈ inputs.map Id.position then v.addConsumer op else v := by
  unfold linkConsumers
  -- An input may be given twice, but entering the operator a second time changes nothing.
  induction inputs generalizing vars with
  | nil => simp
  | cons i inputs ih =>
      rw [List.foldl_cons, ih, List.getElem?_modify]
      cases vars[k]? with
      | none => simp
      | some v =>
          by_cases hi : i.position = k
          · by_cases hk : k ∈ inputs.map Id.position
            · simp [hi, hk, Variable.addConsumer_addConsumer]
            · simp [hi, hk]
          · have hki : ¬ k = i.position := fun h => hi h.symm
            simp [hi, hki]

theorem length_linkConsumers (op : OperatorId) (vars : List Variable) (inputs : List VariableId) :
    (linkConsumers op vars inputs).length = vars.length := by
  unfold linkConsumers
  induction inputs generalizing vars with
  | nil => rfl
  | cons i inputs ih => rw [List.foldl_cons, ih, List.length_modify]

/-- Where ids tell positions, what is read by its position is read by its id. -/
theorem Minted.mem_map_position_iff (hg : g.Minted) (hlen : g.vars.length ≤ UInt32.size)
    {inputs : List VariableId} (hfound : ∀ i ∈ inputs, ∃ v, g.findVariable i = some v) {k : Nat}
    {v : Variable} (hk : g.vars[k]? = some v) : k ∈ inputs.map Id.position ↔ v.id ∈ inputs := by
  have hlt : k < g.vars.length := (List.getElem?_eq_some_iff.mp hk).1
  rw [hg.variable_id k v hk]
  constructor
  · intro hmem
    obtain ⟨i, hi, rfl⟩ := List.mem_map.mp hmem
    obtain ⟨w, hw⟩ := hfound i hi
    rw [← (findVariable_eq_some_iff.mp hw).1, Id.mint_position]
    exact hi
  · intro hmem
    refine List.mem_map.mpr ⟨_, hmem, ?_⟩
    exact Id.position_mint_of_lt g.id (Nat.lt_of_lt_of_le hlt hlen)

/-- **Committing** an application that is possible gives the graph with one more operator. -/
theorem applyCommit_eq (hg : g.Minted) (hlen : g.vars.length ≤ UInt32.size) {name : String}
    {params : Params} {inputs : List VariableId} {shape : Shape}
    (hfound : ∀ i ∈ inputs, ∃ v, g.findVariable i = some v) :
    g.applyCommit name params inputs [shape] =
      (g.applied name params inputs shape, [g.nextVariable]) := by
  have hvars : linkConsumers g.nextOperator (g.vars ++ [g.made shape]) inputs =
      g.vars.map (Variable.readBy g.nextOperator inputs) ++ [g.made shape] := by
    -- The loop goes by positions and `readBy` by ids; both arenas are compared place by place.
    refine List.ext_getElem? fun k => ?_
    rw [getElem?_linkConsumers]
    rcases Nat.lt_or_ge k g.vars.length with hlt | hge
    · have hk := List.getElem?_eq_getElem hlt
      rw [List.getElem?_append_left hlt, List.getElem?_append_left (by rwa [List.length_map]),
        List.getElem?_map, hk, Option.map_some, Option.map_some, Variable.readBy_eq]
      simp only [hg.mem_map_position_iff hlen hfound hk]
    · -- No input has a position outside the arena, so the new variable is not read.
      have hnot : k ∉ inputs.map Id.position := by
        intro hmem
        obtain ⟨i, hi, rfl⟩ := List.mem_map.mp hmem
        obtain ⟨v, hv⟩ := hfound i hi
        have hlt := (List.getElem?_eq_some_iff.mp (findVariable_eq_some_iff.mp hv).2).1
        omega
      rw [List.getElem?_append_right hge, List.getElem?_append_right (by rwa [List.length_map]),
        List.length_map]
      simp [hnot]
  change (({ g with
      vars := linkConsumers g.nextOperator (g.vars ++ [g.made shape]) inputs
      ops := g.ops ++ [g.appliedNode name params inputs]
      operatorIndex := g.operatorIndex.insert name g.nextOperator } : Graph),
    [g.nextVariable]) = _
  rw [hvars]
  rfl

/-- Applying an operator fails exactly when its checks do, whatever the ids in the graph. -/
theorem apply_eq_error_iff {op : Operator} {inputs : List VariableId} {e : ApplyError} :
    g.apply op inputs = .error e ↔
      ∃ fault, g.applyCheck (g.nameFor op) op.params inputs = .error fault ∧
        e = ⟨g.nameFor op, fault⟩ := by
  unfold apply
  dsimp only
  rw [← nameFor]
  cases g.applyCheck (g.nameFor op) op.params inputs with
  | error fault => simp [eq_comm]
  | ok shapes => simp

/-- **Applying an operator** succeeds exactly when it is possible, and then makes one variable. -/
theorem apply_eq_ok_iff (hg : g.Minted) (hlen : g.vars.length ≤ UInt32.size) {op : Operator}
    {inputs : List VariableId} {r : Graph × List VariableId} :
    g.apply op inputs = .ok r ↔
      ∃ shape, g.Applicable (g.nameFor op) op.params inputs shape ∧
        r = (g.applied (g.nameFor op) op.params inputs shape, [g.nextVariable]) := by
  unfold apply
  dsimp only
  rw [← nameFor]
  constructor
  · intro h
    split at h
    · cases h
    · rename_i shapes hcheck
      obtain ⟨shape, rfl, happ⟩ := applyCheck_eq_ok_iff.mp hcheck
      rw [applyCommit_eq hg hlen happ.found] at h
      cases h
      exact ⟨shape, happ, rfl⟩
  · rintro ⟨shape, happ, rfl⟩
    rw [applyCheck_eq_ok_iff.mpr ⟨shape, rfl, happ⟩]
    exact congrArg Except.ok (applyCommit_eq hg hlen happ.found)

/-! ## What a call can do -/

/-- **The ways to grow.** Each comes with what the operation has checked. -/
inductive Grows (g : Graph) : Graph → Prop where
  | declared {name : String} {shape : Shape} {role : Variable.Role} (hrole : role ≠ .intermediate)
      (hdecl : g.Declarable name shape) : Grows g (g.withDeclared name shape role)
  | marked {i : VariableId} {v : Variable} (hfound : g.findVariable i = some v)
      (hnew : i ∉ g.outputs) : Grows g (g.withOutput i)
  | applied {op : Operator} {inputs : List VariableId} {shape : Shape}
      (happ : g.Applicable (g.nameFor op) op.params inputs shape) :
      Grows g (g.applied (g.nameFor op) op.params inputs shape)

/-- The graph after a call is the one that the call answers with, if it does. -/
theorem after_of_answer {c : Call} {r : Graph × List VariableId} (h : g.answer c = .ok r) :
    g.after c = r.1 := by
  unfold after
  rw [h]

theorem after_of_error {c : Call} {e : Error} (h : g.answer c = .error e) : g.after c = g := by
  unfold after
  rw [h]

theorem answer_addInput_eq_ok_iff {name : String} {shape : Shape} {r : Graph × List VariableId} :
    g.answer (.addInput name shape) = .ok r ↔
      g.Declarable name shape ∧ r = (g.withDeclared name shape .input, [g.nextVariable]) := by
  rw [answer]
  constructor
  · intro h
    split at h
    · rename_i hok
      obtain ⟨hdecl, heq⟩ := addInput_eq_ok_iff.mp hok
      cases heq
      cases h
      exact ⟨hdecl, rfl⟩
    · cases h
  · rintro ⟨hdecl, rfl⟩
    rw [addInput_eq_ok_iff.mpr ⟨hdecl, rfl⟩]

theorem answer_addConstant_eq_ok_iff {name : String} {shape : Shape}
    {r : Graph × List VariableId} :
    g.answer (.addConstant name shape) = .ok r ↔
      g.Declarable name shape ∧ r = (g.withDeclared name shape .constant, [g.nextVariable]) := by
  rw [answer]
  constructor
  · intro h
    split at h
    · rename_i hok
      obtain ⟨hdecl, heq⟩ := addConstant_eq_ok_iff.mp hok
      cases heq
      cases h
      exact ⟨hdecl, rfl⟩
    · cases h
  · rintro ⟨hdecl, rfl⟩
    rw [addConstant_eq_ok_iff.mpr ⟨hdecl, rfl⟩]

theorem answer_markOutput_eq_ok_iff {i : VariableId} {r : Graph × List VariableId} :
    g.answer (.markOutput i) = .ok r ↔
      (∃ v, g.findVariable i = some v) ∧
        r = (if i ∈ g.outputs then g else g.withOutput i, []) := by
  rw [answer]
  constructor
  · intro h
    split at h
    · rename_i hok
      obtain ⟨hfound, heq⟩ := markOutput_eq_ok_iff.mp hok
      cases heq
      cases h
      exact ⟨hfound, rfl⟩
    · cases h
  · rintro ⟨hfound, rfl⟩
    rw [markOutput_eq_ok_iff.mpr ⟨hfound, rfl⟩]

theorem answer_apply_eq_ok_iff (hg : g.Minted) (hlen : g.vars.length ≤ UInt32.size)
    {op : Operator} {inputs : List VariableId} {r : Graph × List VariableId} :
    g.answer (.apply op inputs) = .ok r ↔
      ∃ shape, g.Applicable (g.nameFor op) op.params inputs shape ∧
        r = (g.applied (g.nameFor op) op.params inputs shape, [g.nextVariable]) := by
  rw [answer, mapError_eq_ok_iff, apply_eq_ok_iff hg hlen]

/-- There is one output, so asking for it and asking for all answer alike. -/
theorem answer_applyOne_eq_ok_iff (hg : g.Minted) (hlen : g.vars.length ≤ UInt32.size)
    {op : Operator} {inputs : List VariableId} {r : Graph × List VariableId} :
    g.answer (.applyOne op inputs) = .ok r ↔
      ∃ shape, g.Applicable (g.nameFor op) op.params inputs shape ∧
        r = (g.applied (g.nameFor op) op.params inputs shape, [g.nextVariable]) := by
  rw [answer, applyOne]
  constructor
  · intro h
    cases hok : g.apply op inputs with
    | error e =>
        rw [hok] at h
        cases h
    | ok made =>
        obtain ⟨shape, happ, rfl⟩ := (apply_eq_ok_iff hg hlen).mp hok
        rw [hok] at h
        cases h
        exact ⟨shape, happ, rfl⟩
  · rintro ⟨shape, happ, rfl⟩
    rw [(apply_eq_ok_iff hg hlen).mpr ⟨shape, happ, rfl⟩]
    rfl

/-- Asking for one output grows a graph like asking for all. -/
theorem after_applyOne (g : Graph) (op : Operator) (inputs : List VariableId) :
    g.after (.applyOne op inputs) = g.after (.apply op inputs) := by
  unfold after
  rw [answer, answer, applyOne]
  cases g.apply op inputs with
  | error e => rfl
  | ok r => rfl

theorem after_apply_eq_or_grows (hg : g.Minted) (hlen : g.vars.length ≤ UInt32.size)
    (op : Operator) (inputs : List VariableId) :
    g.after (.apply op inputs) = g ∨ g.Grows (g.after (.apply op inputs)) := by
  cases h : g.answer (.apply op inputs) with
  | error e => exact Or.inl (after_of_error h)
  | ok r =>
      obtain ⟨shape, happ, rfl⟩ := (answer_apply_eq_ok_iff hg hlen).mp h
      rw [after_of_answer h]
      exact Or.inr (.applied happ)

/-- **A call leaves the graph as it was or grows it** in one of the three ways. -/
theorem after_eq_or_grows (hg : g.Minted) (hlen : g.vars.length ≤ UInt32.size) (c : Call) :
    g.after c = g ∨ g.Grows (g.after c) := by
  cases h : g.answer c with
  | error e => exact Or.inl (after_of_error h)
  | ok r =>
      cases c with
      | addInput name shape =>
          obtain ⟨hdecl, rfl⟩ := answer_addInput_eq_ok_iff.mp h
          rw [after_of_answer h]
          exact Or.inr (.declared (by decide) hdecl)
      | addConstant name shape =>
          obtain ⟨hdecl, rfl⟩ := answer_addConstant_eq_ok_iff.mp h
          rw [after_of_answer h]
          exact Or.inr (.declared (by decide) hdecl)
      | markOutput i =>
          obtain ⟨⟨v, hv⟩, rfl⟩ := answer_markOutput_eq_ok_iff.mp h
          rw [after_of_answer h]
          -- Marking twice succeeds, and leaves the graph as it was.
          by_cases hi : i ∈ g.outputs
          · exact Or.inl (if_pos hi)
          · rw [if_neg hi]
            exact Or.inr (.marked hv hi)
      | apply op inputs => exact after_apply_eq_or_grows hg hlen op inputs
      | applyOne op inputs =>
          rw [after_applyOne]
          exact after_apply_eq_or_grows hg hlen op inputs

/-- What holds of a graph and of all that it grows to holds after a call. -/
theorem after_induction {P : Graph → Prop} (hg : g.Minted) (hlen : g.vars.length ≤ UInt32.size)
    (c : Call) (hsame : P g) (hgrows : ∀ g', g.Grows g' → P g') : P (g.after c) := by
  rcases after_eq_or_grows hg hlen c with heq | hgrow
  · rw [heq]
    exact hsame
  · exact hgrows _ hgrow

/-! ## What growth keeps -/

/-- Positions before the end of an arena and the one at the end, once it has grown by one entry. -/
theorem getElem?_snoc_cases {α : Type} {xs : List α} {x y : α} {k : Nat}
    (h : (xs ++ [x])[k]? = some y) : xs[k]? = some y ∨ (k = xs.length ∧ y = x) := by
  rcases Nat.lt_or_ge k xs.length with hlt | hge
  · rw [List.getElem?_append_left hlt] at h
    exact Or.inl h
  · rw [List.getElem?_append_right hge, List.getElem?_singleton] at h
    split at h
    · cases h
      exact Or.inr ⟨by omega, rfl⟩
    · cases h

theorem getElem?_append_of_some {α : Type} {xs ys : List α} {k : Nat} {x : α}
    (h : xs[k]? = some x) : (xs ++ ys)[k]? = some x := by
  rw [List.getElem?_append_left (List.getElem?_eq_some_iff.mp h).1, h]

theorem minted_withDeclared (hg : g.Minted) (name : String) (shape : Shape)
    (role : Variable.Role) : (g.withDeclared name shape role).Minted where
  variable_id k v hk := by
    rcases getElem?_snoc_cases hk with hold | ⟨rfl, rfl⟩
    · exact hg.variable_id k v hold
    · rfl
  operator_id := hg.operator_id

theorem minted_applied (hg : g.Minted) (name : String) (params : Params)
    (inputs : List VariableId) (shape : Shape) :
    (g.applied name params inputs shape).Minted where
  variable_id k v hk := by
    rcases getElem?_snoc_cases hk with hold | ⟨rfl, rfl⟩
    · rw [List.getElem?_map] at hold
      obtain ⟨w, hw, rfl⟩ := Option.map_eq_some_iff.mp hold
      exact hg.variable_id k w hw
    · rw [List.length_map]
      rfl
  operator_id k n hk := by
    rcases getElem?_snoc_cases hk with hold | ⟨rfl, rfl⟩
    · exact hg.operator_id k n hold
    · rfl

/-! ### Look-ups -/

section LookUps

variable {name : String} {shape : Shape} {role : Variable.Role} {params : Params}
  {inputs : List VariableId}

theorem findVariable_withDeclared {i : VariableId} {v : Variable}
    (h : g.findVariable i = some v) : (g.withDeclared name shape role).findVariable i = some v := by
  obtain ⟨hgraph, hplace⟩ := findVariable_eq_some_iff.mp h
  exact findVariable_eq_some_iff.mpr ⟨hgraph, getElem?_append_of_some hplace⟩

theorem findVariable_withDeclared_next (hlt : g.vars.length < UInt32.size) :
    (g.withDeclared name shape role).findVariable g.nextVariable =
      some (g.declared name shape role) := by
  refine findVariable_eq_some_iff.mpr ⟨rfl, ?_⟩
  rw [nextVariable, Id.position_mint_of_lt g.id hlt]
  exact List.getElem?_concat_length

theorem findVariable_applied {i : VariableId} {v : Variable} (h : g.findVariable i = some v) :
    (g.applied name params inputs shape).findVariable i =
      some (v.readBy g.nextOperator inputs) := by
  obtain ⟨hgraph, hplace⟩ := findVariable_eq_some_iff.mp h
  refine findVariable_eq_some_iff.mpr ⟨hgraph, getElem?_append_of_some ?_⟩
  rw [List.getElem?_map, hplace]
  rfl

theorem findVariable_applied_next (hlt : g.vars.length < UInt32.size) :
    (g.applied name params inputs shape).findVariable g.nextVariable = some (g.made shape) := by
  refine findVariable_eq_some_iff.mpr ⟨rfl, ?_⟩
  rw [nextVariable, Id.position_mint_of_lt g.id hlt]
  have hlength : (g.vars.map (Variable.readBy g.nextOperator inputs)).length = g.vars.length :=
    List.length_map _
  exact hlength ▸ List.getElem?_concat_length

theorem findOperator_applied {i : OperatorId} {n : Node} (h : g.findOperator i = some n) :
    (g.applied name params inputs shape).findOperator i = some n := by
  obtain ⟨hgraph, hplace⟩ := findOperator_eq_some_iff.mp h
  exact findOperator_eq_some_iff.mpr ⟨hgraph, getElem?_append_of_some hplace⟩

theorem findOperator_applied_next (hlt : g.ops.length < UInt32.size) :
    (g.applied name params inputs shape).findOperator g.nextOperator =
      some (g.appliedNode name params inputs) := by
  refine findOperator_eq_some_iff.mpr ⟨rfl, ?_⟩
  rw [nextOperator, Id.position_mint_of_lt g.id hlt]
  exact List.getElem?_concat_length

/-- No id that resolves is the one to be given next. -/
theorem nextVariable_ne_of_findVariable (hlt : g.vars.length < UInt32.size) {i : VariableId}
    {v : Variable} (h : g.findVariable i = some v) : i ≠ g.nextVariable := by
  rintro rfl
  have hplace := (findVariable_eq_some_iff.mp h).2
  rw [nextVariable, Id.position_mint_of_lt g.id hlt, List.getElem?_eq_none (Nat.le_refl _)]
    at hplace
  cases hplace

theorem nextOperator_ne_of_findOperator (hlt : g.ops.length < UInt32.size) {i : OperatorId}
    {n : Node} (h : g.findOperator i = some n) : i ≠ g.nextOperator := by
  rintro rfl
  have hplace := (findOperator_eq_some_iff.mp h).2
  rw [nextOperator, Id.position_mint_of_lt g.id hlt, List.getElem?_eq_none (Nat.le_refl _)]
    at hplace
  cases hplace

theorem reads_appliedNode (h : inputs.length = params.kind.inputSlots.length) :
    (g.appliedNode name params inputs).reads = inputs :=
  map_snd_inputSlots_zip h

theorem makes_appliedNode :
    (g.appliedNode name params inputs).makes = [g.nextVariable] := rfl

end LookUps

/-! ## Runs -/

theorem Grows.length_ops_le {g' : Graph} (h : g.Grows g') : g'.ops.length ≤ g.ops.length + 1 := by
  cases h with
  | declared => exact Nat.le_succ _
  | marked => exact Nat.le_succ _
  | applied => simp [Graph.applied]

theorem length_le_apply {op : Operator} {inputs : List VariableId} {r : Graph × List VariableId}
    (h : g.apply op inputs = .ok r) :
    g.vars.length ≤ r.1.vars.length ∧ g.ops.length ≤ r.1.ops.length := by
  unfold apply at h
  dsimp only at h
  split at h
  · cases h
  · cases h
    constructor
    · simp only [applyCommit, length_linkConsumers, List.length_append]
      exact Nat.le_add_right _ _
    · simp only [applyCommit, List.length_append]
      exact Nat.le_add_right _ _

theorem length_le_after_apply (op : Operator) (inputs : List VariableId) :
    g.vars.length ≤ (g.after (.apply op inputs)).vars.length ∧
      g.ops.length ≤ (g.after (.apply op inputs)).ops.length := by
  cases h : g.answer (.apply op inputs) with
  | error e =>
      rw [after_of_error h]
      exact ⟨Nat.le_refl _, Nat.le_refl _⟩
  | ok r =>
      rw [after_of_answer h]
      exact length_le_apply (mapError_eq_ok_iff.mp h)

/-- **Arenas never shrink**, whatever the graph and the call. -/
theorem length_le_after (g : Graph) (c : Call) :
    g.vars.length ≤ (g.after c).vars.length ∧ g.ops.length ≤ (g.after c).ops.length := by
  cases h : g.answer c with
  | error e =>
      rw [after_of_error h]
      exact ⟨Nat.le_refl _, Nat.le_refl _⟩
  | ok r =>
      cases c with
      | addInput name shape =>
          obtain ⟨-, rfl⟩ := answer_addInput_eq_ok_iff.mp h
          rw [after_of_answer h]
          simp [withDeclared]
      | addConstant name shape =>
          obtain ⟨-, rfl⟩ := answer_addConstant_eq_ok_iff.mp h
          rw [after_of_answer h]
          simp [withDeclared]
      | markOutput i =>
          obtain ⟨-, rfl⟩ := answer_markOutput_eq_ok_iff.mp h
          rw [after_of_answer h]
          dsimp only
          split <;> exact ⟨Nat.le_refl _, Nat.le_refl _⟩
      | apply op inputs =>
          exact length_le_after_apply op inputs
      | applyOne op inputs =>
          rw [after_applyOne]
          exact length_le_after_apply op inputs

theorem fits_of_fits_after {c : Call} (h : (g.after c).Fits) : g.Fits :=
  ⟨Nat.lt_of_le_of_lt (g.length_le_after c).1 h.1, Nat.lt_of_le_of_lt (g.length_le_after c).2 h.2⟩

/-- There was room for ids all along a run if there is in the end. -/
theorem fits_of_fits_run {calls : List Call} (h : (g.run calls).Fits) : g.Fits := by
  induction calls generalizing g with
  | nil => exact h
  | cons c calls ih => exact fits_of_fits_after (ih h)

/-- **Runs keep what calls keep** on graphs that still have room for ids. -/
theorem run_induction {P : Graph → Prop} (hstep : ∀ g c, g.Fits → P g → P (g.after c))
    {calls : List Call} (hfits : (g.run calls).Fits) (h : P g) : P (g.run calls) := by
  induction calls generalizing g with
  | nil => exact h
  | cons c calls ih =>
      -- Arenas only grow, so there was room before the first call as well.
      have hroom : (g.run (c :: calls)).Fits := hfits
      exact ih hfits (hstep g c (fits_of_fits_run hroom) h)

end Graph

end TensorGraph
