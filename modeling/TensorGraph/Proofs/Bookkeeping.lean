import TensorGraph.Proofs.Preservation

/-!
# `TensorGraph.Proofs.Bookkeeping` — **exact books of graphs that calls made**

Validation looks at less than what calls keep up. On graphs that came about by calls alone,
consumers are not only readers but all of them, in the order of their application; both name indexes
hold exactly the names that are there; and the lists of inputs and outputs are complete and in
order.

## Contents
- **`Ledger`**, what each call keeps: well-formedness with what the indexes and lists hold.
- **Growth** keeps it, so every run from an empty graph does.
- **Marking** along a run, and the outputs in the end.
- **`Books`**, the same facts as a reader of the graph meets them.
-/

namespace TensorGraph

namespace Graph

open Checks

variable {g : Graph}

/-! ## What calls keep -/

/-- The redundant parts of a graph agree to the letter. -/
structure Ledger (g : Graph) : Prop extends g.WellFormed where
  options_valid : g.options.Valid
  /-- Consumers are the operators that read the variable, in arena order. -/
  consumers_eq : ∀ v ∈ g.vars,
    v.consumers = (g.ops.filter fun n => v.id ∈ n.reads).map Node.id
  reads_before : ∀ n ∈ g.ops, ∀ r ∈ n.reads, ∀ m ∈ n.makes, r.position < m.position
  predecessor_before : ∀ n ∈ g.ops, ∀ p ∈ g.predecessors n, p < n.id
  /-- Exactly the intermediates have no name. -/
  unnamed_iff : ∀ v ∈ g.vars, v.name? = none ↔ v.role = .intermediate
  variable_entered : ∀ v ∈ g.vars, ∀ name, v.name? = some name →
    g.variableIndex.find? name = some v.id
  variable_entry : ∀ name i, g.variableIndex.find? name = some i →
    ∃ v, g.findVariable i = some v ∧ v.name? = some name
  operator_entry : ∀ name i, g.operatorIndex.find? name = some i →
    ∃ n, g.findOperator i = some n ∧ n.name = name
  operator_name_not_blank : ∀ n ∈ g.ops, Text.isBlank n.name = false
  inputs_eq : g.inputs = (g.vars.filter Variable.isInput).map Variable.id
  outputs_nodup : g.outputs.Nodup

/-! ### Names -/

theorem isBlank_append {s t : String} (hs : Text.isBlank s = false) :
    Text.isBlank (s ++ t) = false := by
  unfold Text.isBlank at hs ⊢
  rw [String.toList_append, List.all_append, hs, Bool.false_and]

/-- Generated names begin with the prefix of the options. -/
theorem nameFor_not_blank (hvalid : g.options.Valid) (op : Operator) :
    Text.isBlank (g.nameFor op) = false := by
  unfold nameFor
  cases hname : op.name? with
  | none => exact isBlank_append hvalid.1
  | some name => exact op.name_not_blank name hname

/-! ### Ids -/

/-- Nothing that is read carries the id that is given next. -/
theorem Linked.nextVariable_not_mem_reads (h : g.Linked) (hlt : g.vars.length < UInt32.size)
    {n : Node} (hn : n ∈ g.ops) : g.nextVariable ∉ n.reads := by
  intro hmem
  obtain ⟨v, hv⟩ := h.found_of_mem_reads hn hmem
  exact nextVariable_ne_of_findVariable hlt hv rfl

theorem filter_reads_nextVariable (h : g.Linked) (hlt : g.vars.length < UInt32.size) :
    (g.ops.filter fun n => g.nextVariable ∈ n.reads) = [] := by
  refine List.filter_eq_nil_iff.mpr fun n hn => ?_
  rw [decide_eq_true_eq]
  exact h.nextVariable_not_mem_reads hlt hn

/-! ### A new variable -/

theorem Ledger.withDeclared {name : String} {shape : Shape} {role : Variable.Role} (h : g.Ledger)
    (hlt : g.vars.length < UInt32.size) (hrole : role ≠ .intermediate)
    (hfree : g.variableIndex.find? name = none) :
    (g.withDeclared name shape role).Ledger where
  toWellFormed := h.toWellFormed.withDeclared hlt hrole
  options_valid := h.options_valid
  consumers_eq v hv := by
    rcases mem_vars_withDeclared.mp hv with hold | rfl
    · exact h.consumers_eq v hold
    · have hnone := filter_reads_nextVariable h.toLinked hlt
      exact (congrArg (List.map Node.id) hnone).symm
  reads_before := h.reads_before
  predecessor_before n hn p hp := by
    obtain ⟨r, hr, w, hw, hproducer⟩ := mem_predecessors.mp hp
    obtain ⟨v, hv⟩ := h.found_of_mem_reads hn hr
    rw [findVariable_withDeclared hv] at hw
    cases hw
    exact h.predecessor_before n hn p (mem_predecessors.mpr ⟨r, hr, _, hv, hproducer⟩)
  unnamed_iff v hv := by
    rcases mem_vars_withDeclared.mp hv with hold | rfl
    · exact h.unnamed_iff v hold
    · exact ⟨fun hnone => (nomatch hnone), fun hr => absurd hr hrole⟩
  variable_entered v hv given hgiven := by
    rw [Graph.withDeclared, NameMap.find?_insert]
    rcases mem_vars_withDeclared.mp hv with hold | rfl
    · -- Names that are entered are taken, so the new entry hides none.
      have hentry := h.variable_entered v hold given hgiven
      have hne : given ≠ name := by
        rintro rfl
        rw [hfree] at hentry
        cases hentry
      rw [if_neg hne]
      exact hentry
    · cases hgiven
      rw [if_pos rfl]
      rfl
  variable_entry given i hi := by
    rw [Graph.withDeclared, NameMap.find?_insert] at hi
    split at hi
    · rename_i heq
      cases hi
      exact ⟨_, findVariable_withDeclared_next hlt, congrArg some heq.symm⟩
    · obtain ⟨v, hv, hname⟩ := h.variable_entry given i hi
      exact ⟨v, findVariable_withDeclared hv, hname⟩
  operator_entry := h.operator_entry
  operator_name_not_blank := h.operator_name_not_blank
  inputs_eq := by
    rw [Graph.withDeclared, List.filter_append, List.map_append, ← h.inputs_eq]
    cases role with
    | input => rfl
    | constant => exact (List.append_nil _).symm
    | intermediate => exact absurd rfl hrole
  outputs_nodup := h.outputs_nodup

/-! ### A new output -/

theorem Ledger.withOutput (h : g.Ledger) {i : VariableId} {v : Variable}
    (hv : g.findVariable i = some v) (hnew : i ∉ g.outputs) : (g.withOutput i).Ledger where
  toWellFormed := h.toWellFormed.withOutput hv
  options_valid := h.options_valid
  consumers_eq := h.consumers_eq
  reads_before := h.reads_before
  predecessor_before := h.predecessor_before
  unnamed_iff := h.unnamed_iff
  variable_entered := h.variable_entered
  variable_entry := h.variable_entry
  operator_entry := h.operator_entry
  operator_name_not_blank := h.operator_name_not_blank
  inputs_eq := h.inputs_eq
  outputs_nodup := by
    refine List.nodup_append.mpr ⟨h.outputs_nodup, List.nodup_singleton i, ?_⟩
    rintro o ho _ hi rfl
    exact hnew (List.mem_singleton.mp hi ▸ ho)

/-! ### A new operator -/

section Applied

variable {name : String} {params : Params} {inputs : List VariableId} {shape : Shape}

/-- The readers of a variable, once there is one more operator. -/
theorem filter_reads_applied (happ : g.Applicable name params inputs shape) (i : VariableId) :
    (((g.applied name params inputs shape).ops.filter fun n => i ∈ n.reads).map Node.id) =
      (g.ops.filter fun n => i ∈ n.reads).map Node.id ++
        if i ∈ inputs then [g.nextOperator] else [] := by
  rw [applied, List.filter_append, List.map_append]
  congr 1
  rw [List.filter_cons, reads_appliedNode happ.length_inputs]
  by_cases hread : i ∈ inputs
  · rw [if_pos hread, if_pos (decide_eq_true hread)]
    rfl
  · rw [if_neg hread, if_neg (by simpa using hread)]
    rfl

/-- Inputs resolve, so they stand before the variable that is made. -/
theorem position_lt_nextVariable (hlt : g.vars.length < UInt32.size) {i : VariableId}
    {v : Variable} (h : g.findVariable i = some v) : i.position < g.nextVariable.position := by
  rw [nextVariable, Id.position_mint_of_lt g.id hlt]
  exact (List.getElem?_eq_some_iff.mp (findVariable_eq_some_iff.mp h).2).1

theorem lt_nextOperator (hlt : g.ops.length < UInt32.size) {i : OperatorId} {n : Node}
    (h : g.findOperator i = some n) : i < g.nextOperator := by
  obtain ⟨hgraph, hplace⟩ := findOperator_eq_some_iff.mp h
  refine Or.inr ⟨hgraph, ?_⟩
  rw [nextOperator, Id.position_mint_of_lt g.id hlt]
  exact (List.getElem?_eq_some_iff.mp hplace).1

theorem Ledger.applied (h : g.Ledger) (hfits : g.Fits) (hblank : Text.isBlank name = false)
    (happ : g.Applicable name params inputs shape) :
    (g.applied name params inputs shape).Ledger where
  toWellFormed := h.toWellFormed.applied hfits happ
  options_valid := h.options_valid
  consumers_eq v hv := by
    -- Both sides grow at the end, and on the same condition.
    rw [filter_reads_applied happ]
    rcases mem_vars_applied.mp hv with ⟨w, hw, rfl⟩ | rfl
    · have hnew := h.toLinked.nextOperator_not_mem_consumers hfits.2 hw
      rw [Variable.consumers_readBy hnew, h.consumers_eq w hw, Variable.id_readBy]
    · have hunread : g.nextVariable ∉ inputs := by
        intro hmem
        obtain ⟨w, hw⟩ := happ.found _ hmem
        exact nextVariable_ne_of_findVariable hfits.1 hw rfl
      show [] = _
      rw [made, if_neg hunread, filter_reads_nextVariable h.toLinked hfits.1]
      rfl
  reads_before n hn r hr m hm := by
    rcases mem_ops_applied.mp hn with hold | rfl
    · exact h.reads_before n hold r hr m hm
    · rw [reads_appliedNode happ.length_inputs] at hr
      rw [makes_appliedNode, List.mem_singleton] at hm
      subst hm
      obtain ⟨v, hv⟩ := happ.found r hr
      exact position_lt_nextVariable hfits.1 hv
  predecessor_before n hn p hp := by
    obtain ⟨r, hr, w, hw, hproducer⟩ := mem_predecessors.mp hp
    rcases mem_ops_applied.mp hn with hold | rfl
    · obtain ⟨v, hv⟩ := h.found_of_mem_reads hold hr
      rw [findVariable_applied hv] at hw
      cases hw
      exact h.predecessor_before n hold p (mem_predecessors.mpr ⟨r, hr, _, hv, hproducer⟩)
    · rw [reads_appliedNode happ.length_inputs] at hr
      obtain ⟨v, hv⟩ := happ.found r hr
      rw [findVariable_applied hv] at hw
      cases hw
      -- The producer of an input was applied before, so its id is a smaller one.
      obtain ⟨m, hm, -⟩ := h.producer_makes v (mem_vars_of_findVariable hv) p hproducer
      exact lt_nextOperator hfits.2 hm
  unnamed_iff v hv := by
    rcases mem_vars_applied.mp hv with ⟨w, hw, rfl⟩ | rfl
    · exact h.unnamed_iff w hw
    · exact ⟨fun _ => rfl, fun _ => rfl⟩
  variable_entered v hv given hgiven := by
    rcases mem_vars_applied.mp hv with ⟨w, hw, rfl⟩ | rfl
    · exact h.variable_entered w hw given hgiven
    · cases hgiven
  variable_entry given i hi := by
    obtain ⟨v, hv, hname⟩ := h.variable_entry given i hi
    exact ⟨_, findVariable_applied hv, hname⟩
  operator_entry given i hi := by
    rw [Graph.applied, NameMap.find?_insert] at hi
    split at hi
    · rename_i heq
      cases hi
      exact ⟨_, findOperator_applied_next hfits.2, heq.symm⟩
    · obtain ⟨n, hn, hname⟩ := h.operator_entry given i hi
      exact ⟨n, findOperator_applied hn, hname⟩
  operator_name_not_blank n hn := by
    rcases mem_ops_applied.mp hn with hold | rfl
    · exact h.operator_name_not_blank n hold
    · exact hblank
  inputs_eq := by
    -- Linking changes neither roles nor ids, and what is made is no input.
    rw [Graph.applied, List.filter_append, List.map_append, List.filter_map, List.map_map]
    exact h.inputs_eq.trans (List.append_nil _).symm
  outputs_nodup := h.outputs_nodup

end Applied

/-! ### Runs -/

theorem Grows.ledger {g' : Graph} (hgrow : g.Grows g') (h : g.Ledger) (hfits : g.Fits) :
    g'.Ledger := by
  cases hgrow with
  | declared hrole hdecl => exact h.withDeclared hfits.1 hrole hdecl.free
  | marked hfound hnew => exact h.withOutput hfound hnew
  | @applied op inputs shape happ =>
      exact h.applied hfits (nameFor_not_blank h.options_valid op) happ

theorem Ledger.after (h : g.Ledger) (hfits : g.Fits) (c : Call) : (g.after c).Ledger :=
  after_induction h.toMinted (Nat.le_of_lt hfits.1) c h fun _ hgrow => hgrow.ledger h hfits

theorem ledger_empty (id : GraphId) (name : String) {options : Options} (hvalid : options.Valid) :
    (empty id name options).Ledger where
  toWellFormed := wellFormed_empty id name options
  options_valid := hvalid
  consumers_eq := nofun
  reads_before := nofun
  predecessor_before := nofun
  unnamed_iff := nofun
  variable_entered := nofun
  variable_entry := nofun
  operator_entry := nofun
  operator_name_not_blank := nofun
  inputs_eq := rfl
  outputs_nodup := List.Pairwise.nil

/-- **Runs keep the ledger.** -/
theorem ledger_run (id : GraphId) (name : String) {options : Options} (hvalid : options.Valid)
    {calls : List Call} (hfits : ((empty id name options).run calls).Fits) :
    ((empty id name options).run calls).Ledger :=
  run_induction (fun _ c hroom hledger => hledger.after hroom c) hfits
    (ledger_empty id name hvalid)

/-- **The order of application is topological**, and it is the one that the sort gives. -/
theorem Ledger.topologicalOrder_eq (h : g.Ledger) (hfits : g.Fits) :
    g.topologicalOrder = g.ops.map Node.id :=
  (h.mirrored (Nat.le_of_lt hfits.2)).topologicalOrder_eq_ids h.predecessor_before

/-! ## Marking -/

/-- The id that a call marks as an output, if it does. -/
def markedBy (g : Graph) (c : Call) : List VariableId :=
  match c, g.answer c with
  | .markOutput i, .ok _ => [i]
  | _, _ => []

/-- The ids that a run marks, one for each call that does. -/
def marked (g : Graph) : List Call → List VariableId
  | [] => []
  | c :: calls => g.markedBy c ++ (g.after c).marked calls

theorem marked_concat (g : Graph) (calls : List Call) (c : Call) :
    g.marked (calls ++ [c]) = g.marked calls ++ (g.run calls).markedBy c := by
  induction calls generalizing g with
  | nil => exact List.append_nil _
  | cons first calls ih =>
      rw [List.cons_append, marked, marked, ih, run_cons, List.append_assoc]

/-- Only the first of several markings counts. -/
theorem eraseDups_concat (is : List VariableId) (i : VariableId) :
    (is ++ [i]).eraseDups = if i ∈ is then is.eraseDups else is.eraseDups ++ [i] := by
  rw [List.eraseDups_append]
  by_cases hi : i ∈ is
  · rw [if_pos hi]
    simp [List.removeAll, hi]
  · rw [if_neg hi]
    simp [List.removeAll, hi, List.eraseDups_cons]

theorem outputs_apply {op : Operator} {inputs : List VariableId} {r : Graph × List VariableId}
    (h : g.apply op inputs = .ok r) : r.1.outputs = g.outputs := by
  unfold apply at h
  dsimp only at h
  split at h
  · cases h
  · cases h
    rfl

theorem outputs_after_apply (op : Operator) (inputs : List VariableId) :
    (g.after (.apply op inputs)).outputs = g.outputs := by
  cases h : g.answer (.apply op inputs) with
  | error e => rw [after_of_error h]
  | ok r =>
      rw [after_of_answer h]
      exact outputs_apply (mapError_eq_ok_iff.mp h)

theorem markedBy_of_error {c : Call} {e : Error} (h : g.answer c = .error e) :
    g.markedBy c = [] := by
  unfold markedBy
  rw [h]
  cases c <;> rfl

theorem markedBy_markOutput {i : VariableId} {r : Graph × List VariableId}
    (h : g.answer (.markOutput i) = .ok r) : g.markedBy (.markOutput i) = [i] := by
  unfold markedBy
  rw [h]

/-- **A call adds to the outputs what it marks**, unless that is there. -/
theorem outputs_after {is : List VariableId} (his : g.outputs = is.eraseDups) (c : Call) :
    (g.after c).outputs = (is ++ g.markedBy c).eraseDups := by
  have hsame : g.outputs = (is ++ []).eraseDups := by rw [List.append_nil, his]
  cases h : g.answer c with
  | error e =>
      rw [after_of_error h, markedBy_of_error h]
      exact hsame
  | ok r =>
      cases c with
      | addInput name shape =>
          obtain ⟨-, rfl⟩ := answer_addInput_eq_ok_iff.mp h
          rw [after_of_answer h]
          exact hsame
      | addConstant name shape =>
          obtain ⟨-, rfl⟩ := answer_addConstant_eq_ok_iff.mp h
          rw [after_of_answer h]
          exact hsame
      | markOutput i =>
          obtain ⟨-, rfl⟩ := answer_markOutput_eq_ok_iff.mp h
          have hmem : i ∈ g.outputs ↔ i ∈ is := by rw [his, List.mem_eraseDups]
          rw [after_of_answer h, markedBy_markOutput h, eraseDups_concat, ← his]
          by_cases hi : i ∈ is
          · rw [if_pos hi, if_pos (hmem.mpr hi)]
          · rw [if_neg hi, if_neg fun hout => hi (hmem.mp hout)]
            rfl
      | apply op inputs =>
          rw [outputs_after_apply]
          exact hsame
      | applyOne op inputs =>
          rw [after_applyOne, outputs_after_apply]
          exact hsame

/-- **Outputs are in the order of their first marking.** -/
theorem outputs_run (hnone : g.outputs = []) (calls : List Call) :
    (g.run calls).outputs = (g.marked calls).eraseDups := by
  -- From the last call backward: what it marks comes after everything marked before.
  induction calls using List.reverseRecOn with
  | nil => exact hnone
  | append_singleton calls c ih =>
      rw [run_append, marked_concat]
      exact outputs_after ih c

/-! ## The books -/

/-- **Exact books**, as a reader of the graph meets them. -/
structure Books (g : Graph) : Prop where
  /-- Consumers are exactly the operators that read the variable, in the order of application. -/
  consumers_eq : ∀ v ∈ g.vars,
    v.consumers = (g.ops.filter fun n => v.id ∈ n.reads).map Node.id
  consumers_nodup : ∀ v ∈ g.vars, v.consumers.Nodup
  consumer_nodes : ∀ v ∈ g.vars, g.consumers v.id = g.ops.filter fun n => v.id ∈ n.reads
  /-- An intermediate is made by its producer and by no other operator. -/
  made_by_producer : ∀ v ∈ g.vars, v.role = .intermediate →
    ∃ n ∈ g.ops, v.producer? = some n.id ∧ g.producer? v.id = some n ∧
      ∀ m ∈ g.ops, v.id ∈ m.makes ↔ m = n
  made_by_none : ∀ v ∈ g.vars, v.role ≠ .intermediate →
    v.producer? = none ∧ ∀ n ∈ g.ops, v.id ∉ n.makes
  /-- An operator makes one variable, which stands behind all that the operator reads. -/
  reads_before : ∀ n ∈ g.ops, ∃ m, n.makes = [m] ∧ ∀ r ∈ n.reads, r.position < m.position
  named_iff : ∀ v ∈ g.vars, (∃ name, v.name? = some name) ↔ v.role ≠ .intermediate
  /-- A name leads to the one variable that has it. -/
  variableNamed_iff : ∀ name v, g.variableNamed name = some v ↔
    v ∈ g.vars ∧ v.name? = some name ∧ ∀ w ∈ g.vars, w.name? = some name → w = v
  /-- A name leads to the one operator that has it. -/
  operatorNamed_iff : ∀ name n, g.operatorNamed name = some n ↔
    n ∈ g.ops ∧ n.name = name ∧ ∀ m ∈ g.ops, m.name = name → m = n
  operator_names_nodup : (g.ops.map Node.name).Nodup
  operator_name_not_blank : ∀ n ∈ g.ops, Text.isBlank n.name = false
  inputs_eq : g.inputs = (g.vars.filter fun v => v.role = .input).map Variable.id
  outputs_nodup : g.outputs.Nodup

namespace Ledger

theorem consumer_nodes (h : g.Ledger) (hfits : g.Fits) {v : Variable} (hv : v ∈ g.vars) :
    g.consumers v.id = g.ops.filter fun n => v.id ∈ n.reads := by
  unfold consumers
  rw [h.findVariable_id (Nat.le_of_lt hfits.1) hv]
  dsimp only
  rw [h.consumers_eq v hv, List.filterMap_map]
  have hself : ∀ n ∈ g.ops.filter fun n => v.id ∈ n.reads,
      (g.findOperator ∘ Node.id) n = some n := by
    intro n hn
    exact h.findOperator_id (Nat.le_of_lt hfits.2) (List.mem_filter.mp hn).1
  rw [List.filterMap_congr hself, List.filterMap_some]

/-- What an operator makes names it as its producer. -/
theorem producer_of_mem_makes (h : g.Ledger) (hfits : g.Fits) {v : Variable} (hv : v ∈ g.vars)
    {n : Node} (hn : n ∈ g.ops) (hmakes : v.id ∈ n.makes) : v.producer? = some n.id := by
  obtain ⟨w, hw, hproducer⟩ := h.made_produced n hn v.id hmakes
  rw [h.findVariable_id (Nat.le_of_lt hfits.1) hv] at hw
  cases hw
  exact hproducer

theorem made_by_producer (h : g.Ledger) (hfits : g.Fits) {v : Variable} (hv : v ∈ g.vars)
    (hrole : v.role = .intermediate) :
    ∃ n ∈ g.ops, v.producer? = some n.id ∧ g.producer? v.id = some n ∧
      ∀ m ∈ g.ops, v.id ∈ m.makes ↔ m = n := by
  obtain ⟨op, hop⟩ := (h.intermediate_iff v hv).mp hrole
  obtain ⟨n, hfound, hmakes⟩ := h.producer_makes v hv op hop
  have hid : n.id = op := h.id_of_findOperator hfound
  have hn : n ∈ g.ops := mem_ops_of_findOperator hfound
  refine ⟨n, hn, hid ▸ hop, ?_, fun m hm => ⟨fun hmade => ?_, fun heq => heq ▸ hmakes⟩⟩
  · unfold producer?
    rw [h.findVariable_id (Nat.le_of_lt hfits.1) hv, Option.bind_some, hop, Option.bind_some]
    exact hfound
  · -- Whoever makes the variable is named by it, and it names one operator only.
    have hproducer := h.producer_of_mem_makes hfits hv hm hmade
    rw [hop] at hproducer
    refine h.operator_eq_of_id_eq (Nat.le_of_lt hfits.2) hm hn ?_
    rw [hid, Option.some.inj hproducer]

theorem made_by_none (h : g.Ledger) (hfits : g.Fits) {v : Variable} (hv : v ∈ g.vars)
    (hrole : v.role ≠ .intermediate) : v.producer? = none ∧ ∀ n ∈ g.ops, v.id ∉ n.makes := by
  have hnone : ∀ op, v.producer? ≠ some op := fun op hop =>
    hrole ((h.intermediate_iff v hv).mpr ⟨op, hop⟩)
  refine ⟨Option.eq_none_iff_forall_ne_some.mpr hnone, fun n hn hmakes => ?_⟩
  exact hnone n.id (h.producer_of_mem_makes hfits hv hn hmakes)

/-- There is one output slot. -/
theorem makes_eq (h : g.Ledger) {n : Node} (hn : n ∈ g.ops) : ∃ m, n.makes = [m] := by
  have hslots : n.outputs.map Prod.fst = ["y"] := h.output_slots n hn
  obtain ⟨o, houtputs, -⟩ := List.map_eq_singleton_iff.mp hslots
  exact ⟨o.2, by rw [Node.makes, houtputs]; rfl⟩

theorem variableNamed_iff (h : g.Ledger) (hfits : g.Fits) {name : String} {v : Variable} :
    g.variableNamed name = some v ↔
      v ∈ g.vars ∧ v.name? = some name ∧ ∀ w ∈ g.vars, w.name? = some name → w = v := by
  have hentered : ∀ w ∈ g.vars, w.name? = some name → g.variableNamed name = some w := by
    intro w hw hname
    unfold variableNamed
    rw [h.variable_entered w hw name hname, Option.bind_some]
    exact h.findVariable_id (Nat.le_of_lt hfits.1) hw
  constructor
  · intro hv
    obtain ⟨i, hi, hfound⟩ := Option.bind_eq_some_iff.mp hv
    obtain ⟨w, hw, hname⟩ := h.variable_entry name i hi
    rw [hfound] at hw
    cases hw
    refine ⟨mem_vars_of_findVariable hfound, hname, fun w hw hwname => ?_⟩
    have hwv := hentered w hw hwname
    rw [hv] at hwv
    exact (Option.some.inj hwv).symm
  · rintro ⟨hv, hname, -⟩
    exact hentered v hv hname

theorem operatorNamed_iff (h : g.Ledger) {name : String} {n : Node} :
    g.operatorNamed name = some n ↔
      n ∈ g.ops ∧ n.name = name ∧ ∀ m ∈ g.ops, m.name = name → m = n := by
  constructor
  · intro hn
    obtain ⟨i, hi, hfound⟩ := Option.bind_eq_some_iff.mp hn
    obtain ⟨m, hm, hname⟩ := h.operator_entry name i hi
    rw [hfound] at hm
    cases hm
    refine ⟨mem_ops_of_findOperator hfound, hname, fun m hm hmname => ?_⟩
    have hmn := h.operator_named m hm
    rw [hmname, hn] at hmn
    exact (Option.some.inj hmn).symm
  · rintro ⟨hn, rfl, -⟩
    exact h.operator_named n hn

theorem operator_names_nodup (h : g.Ledger) (hfits : g.Fits) : (g.ops.map Node.name).Nodup := by
  rw [List.Nodup, List.pairwise_map, List.pairwise_iff_getElem]
  intro i j hi hj hij hname
  -- One name leads to one operator, so the two positions would have one id.
  have hsame : g.ops[i] = g.ops[j] := by
    have hfirst := h.operator_named _ (List.getElem_mem hi)
    rw [hname, h.operator_named _ (List.getElem_mem hj)] at hfirst
    exact (Option.some.inj hfirst).symm
  have hid : (Id.mint g.id i : OperatorId) = Id.mint g.id j := by
    rw [← h.operator_id i _ (List.getElem?_eq_getElem hi),
      ← h.operator_id j _ (List.getElem?_eq_getElem hj), hsame]
  have hpos := congrArg Id.position hid
  rw [Id.position_mint_of_lt _ (Nat.lt_trans hi hfits.2),
    Id.position_mint_of_lt _ (Nat.lt_trans hj hfits.2)] at hpos
  omega

theorem books (h : g.Ledger) (hfits : g.Fits) : g.Books where
  consumers_eq := h.consumers_eq
  consumers_nodup := h.consumers_nodup
  consumer_nodes _ hv := h.consumer_nodes hfits hv
  made_by_producer _ hv := h.made_by_producer hfits hv
  made_by_none _ hv := h.made_by_none hfits hv
  reads_before n hn := by
    obtain ⟨m, hm⟩ := h.makes_eq hn
    refine ⟨m, hm, fun r hr => h.reads_before n hn r hr m ?_⟩
    rw [hm]
    exact List.mem_singleton.mpr rfl
  named_iff v hv := by
    rw [ne_eq, ← h.unnamed_iff v hv]
    exact Option.ne_none_iff_exists'.symm
  variableNamed_iff _ _ := h.variableNamed_iff hfits
  operatorNamed_iff _ _ := h.operatorNamed_iff
  operator_names_nodup := h.operator_names_nodup hfits
  operator_name_not_blank := h.operator_name_not_blank
  inputs_eq := h.inputs_eq
  outputs_nodup := h.outputs_nodup

end Ledger

/-- **Every run keeps exact books**, and its outputs stand in the order in which they were first
    marked. -/
theorem run_keeps_books (id : GraphId) (name : String) {options : Options}
    (hvalid : options.Valid) {calls : List Call}
    (hfits : ((empty id name options).run calls).Fits) :
    ((empty id name options).run calls).Books ∧
      ((empty id name options).run calls).outputs =
        ((empty id name options).marked calls).eraseDups :=
  ⟨(ledger_run id name hvalid hfits).books hfits, outputs_run rfl calls⟩

/-- A run in which calls are refused in between and markings repeat. -/
def mixedCalls : List Call :=
  [ .addInput "x" twoChannels,
    .addConstant "x" threeChannels,
    .apply (.unnamed (.activation .relu) (Params.valid_activation _)) [⟨⟨0⟩, 0⟩],
    .markOutput ⟨⟨0⟩, 1⟩,
    .markOutput ⟨⟨0⟩, 7⟩,
    .applyOne (.named "sum" .elementwiseSum (by decide) Params.valid_elementwiseSum)
      [⟨⟨0⟩, 1⟩, ⟨⟨0⟩, 1⟩],
    .markOutput ⟨⟨0⟩, 0⟩,
    .markOutput ⟨⟨0⟩, 1⟩ ]

theorem run_keeps_books_mixed :
    ((empty ⟨0⟩ "mixed").run mixedCalls).Books ∧
      ((empty ⟨0⟩ "mixed").run mixedCalls).outputs = [⟨⟨0⟩, 1⟩, ⟨⟨0⟩, 0⟩] := by
  have hfits : ((empty ⟨0⟩ "mixed").run mixedCalls).Fits := ⟨by decide, by decide⟩
  obtain ⟨hbooks, houtputs⟩ := run_keeps_books ⟨0⟩ "mixed" (by decide) hfits
  refine ⟨hbooks, houtputs.trans ?_⟩
  decide

end Graph

end TensorGraph
