import TensorGraph.Proofs.Growth
import TensorGraph.Proofs.WellFormed

/-!
# `TensorGraph.Proofs.Preservation` — **calls keep graphs well-formed**

A graph that passes validation passes it again after any call, however the graph came about and
whether or not the call succeeds. Where the call succeeds, what it adds is new to the whole graph:
an id that resolves nowhere is read and made by no operator of a well-formed graph and named by none
of its links, so the old agreements stay and only those of the new entry are left to show.

## Contents
- **A new variable, a new output, a new operator**, each with what it leaves alone.
- **Preservation** by a call, and by runs from an empty graph.
-/

namespace TensorGraph

namespace Graph

variable {g : Graph}

/-! ## A new variable -/

section Declared

variable {name : String} {shape : Shape} {role : Variable.Role}

theorem mem_vars_withDeclared {v : Variable} :
    v ∈ (g.withDeclared name shape role).vars ↔ v ∈ g.vars ∨ v = g.declared name shape role := by
  rw [withDeclared, List.mem_append, List.mem_singleton]

/-- Variables that resolve keep their shapes. -/
theorem shapesOf_withDeclared {is : List VariableId}
    (hfound : ∀ i ∈ is, ∃ v, g.findVariable i = some v) :
    (g.withDeclared name shape role).shapesOf is = g.shapesOf is := by
  unfold shapesOf
  refine List.filterMap_congr fun i hi => ?_
  obtain ⟨v, hv⟩ := hfound i hi
  rw [hv, findVariable_withDeclared hv]

theorem Linked.found_of_mem_reads (h : g.Linked) {n : Node} (hn : n ∈ g.ops) {i : VariableId}
    (hi : i ∈ n.reads) : ∃ v, g.findVariable i = some v :=
  (h.read_consumed n hn i hi).imp fun _ hv => hv.1

theorem Linked.found_of_mem_makes (h : g.Linked) {n : Node} (hn : n ∈ g.ops) {i : VariableId}
    (hi : i ∈ n.makes) : ∃ v, g.findVariable i = some v :=
  (h.made_produced n hn i hi).imp fun _ hv => hv.1

/-- **A new input or constant** has no links yet. -/
theorem Linked.withDeclared (h : g.Linked) (hrole : role ≠ .intermediate) :
    (g.withDeclared name shape role).Linked where
  toMinted := minted_withDeclared h.toMinted name shape role
  operator_named := h.operator_named
  intermediate_iff v hv := by
    rcases mem_vars_withDeclared.mp hv with hold | rfl
    · exact h.intermediate_iff v hold
    · exact ⟨fun hr => absurd hr hrole, fun ⟨op, hop⟩ => nomatch hop⟩
  producer_makes v hv op hop := by
    rcases mem_vars_withDeclared.mp hv with hold | rfl
    · exact h.producer_makes v hold op hop
    · cases hop
  consumers_nodup v hv := by
    rcases mem_vars_withDeclared.mp hv with hold | rfl
    · exact h.consumers_nodup v hold
    · exact List.Pairwise.nil
  consumer_reads v hv op hop := by
    rcases mem_vars_withDeclared.mp hv with hold | rfl
    · exact h.consumer_reads v hold op hop
    · cases hop
  input_slots := h.input_slots
  output_slots := h.output_slots
  read_consumed n hn i hi := by
    obtain ⟨v, hv, hlink⟩ := h.read_consumed n hn i hi
    exact ⟨v, findVariable_withDeclared hv, hlink⟩
  made_produced n hn i hi := by
    obtain ⟨v, hv, hlink⟩ := h.made_produced n hn i hi
    exact ⟨v, findVariable_withDeclared hv, hlink⟩
  shapes_inferred n hn := by
    -- All that is read or made resolves, so the rule is given the same shapes as before.
    rw [shapesOf_withDeclared fun i => h.found_of_mem_reads hn,
      shapesOf_withDeclared fun i => h.found_of_mem_makes hn]
    exact h.shapes_inferred n hn

theorem WellFormed.withDeclared (h : g.WellFormed) (hlt : g.vars.length < UInt32.size)
    (hrole : role ≠ .intermediate) : (g.withDeclared name shape role).WellFormed where
  toLinked := h.toLinked.withDeclared hrole
  input_role i hi := by
    have hold : i ∈ g.inputs →
        ∃ v, (g.withDeclared name shape role).findVariable i = some v ∧ v.role = .input := by
      intro hmem
      obtain ⟨v, hv, hinput⟩ := h.input_role i hmem
      exact ⟨v, findVariable_withDeclared hv, hinput⟩
    by_cases hinput : role = .input
    · rw [Graph.withDeclared, if_pos hinput, List.mem_append, List.mem_singleton] at hi
      rcases hi with hmem | rfl
      · exact hold hmem
      · exact ⟨_, findVariable_withDeclared_next hlt, hinput⟩
    · rw [Graph.withDeclared, if_neg hinput] at hi
      exact hold hi
  output_found i hi := by
    obtain ⟨v, hv⟩ := h.output_found i hi
    exact ⟨v, findVariable_withDeclared hv⟩
  acyclic := h.acyclic

end Declared

/-! ## A new output -/

theorem WellFormed.withOutput (h : g.WellFormed) {i : VariableId} {v : Variable}
    (hv : g.findVariable i = some v) : (g.withOutput i).WellFormed where
  toLinked := ⟨⟨h.variable_id, h.operator_id⟩, h.operator_named, h.intermediate_iff,
    h.producer_makes, h.consumers_nodup, h.consumer_reads, h.input_slots, h.output_slots,
    h.read_consumed, h.made_produced, h.shapes_inferred⟩
  input_role := h.input_role
  output_found j hj := by
    rcases List.mem_append.mp hj with hmem | hmem
    · exact h.output_found j hmem
    · rw [List.mem_singleton.mp hmem]
      exact ⟨v, hv⟩
  acyclic := h.acyclic

/-! ## A new operator -/

section Applied

variable {name : String} {params : Params} {inputs : List VariableId} {shape : Shape}

theorem mem_vars_applied {v : Variable} :
    v ∈ (g.applied name params inputs shape).vars ↔
      (∃ w ∈ g.vars, w.readBy g.nextOperator inputs = v) ∨ v = g.made shape := by
  rw [applied, List.mem_append, List.mem_singleton, List.mem_map]

theorem mem_ops_applied {n : Node} :
    n ∈ (g.applied name params inputs shape).ops ↔
      n ∈ g.ops ∨ n = g.appliedNode name params inputs := by
  rw [applied, List.mem_append, List.mem_singleton]

theorem shapesOf_applied {is : List VariableId}
    (hfound : ∀ i ∈ is, ∃ v, g.findVariable i = some v) :
    (g.applied name params inputs shape).shapesOf is = g.shapesOf is := by
  unfold shapesOf
  refine List.filterMap_congr fun i hi => ?_
  obtain ⟨v, hv⟩ := hfound i hi
  rw [hv, findVariable_applied hv]
  rfl

/-- The names of operators that are there still lead to them. -/
theorem operatorNamed_applied {n : Node} {old : String} (hold : g.operatorNamed old = some n)
    (hfree : g.operatorIndex.find? name = none) :
    (g.applied name params inputs shape).operatorNamed old = some n := by
  obtain ⟨i, hi, hn⟩ := Option.bind_eq_some_iff.mp hold
  -- A name that leads somewhere is taken, and the new one was free.
  have hne : old ≠ name := by
    rintro rfl
    rw [hfree] at hi
    cases hi
  refine Option.bind_eq_some_iff.mpr ⟨i, ?_, findOperator_applied hn⟩
  rw [applied, NameMap.find?_insert, if_neg hne]
  exact hi

theorem operatorNamed_applied_self (hlt : g.ops.length < UInt32.size) :
    (g.applied name params inputs shape).operatorNamed name =
      some (g.appliedNode name params inputs) := by
  refine Option.bind_eq_some_iff.mpr ⟨g.nextOperator, ?_, findOperator_applied_next hlt⟩
  rw [applied, NameMap.find?_insert, if_pos rfl]

/-- The operator to be applied next is among no consumers yet. -/
theorem Linked.nextOperator_not_mem_consumers (h : g.Linked) (hlt : g.ops.length < UInt32.size)
    {v : Variable} (hv : v ∈ g.vars) : g.nextOperator ∉ v.consumers := by
  intro hmem
  obtain ⟨n, hn, -⟩ := h.consumer_reads v hv _ hmem
  exact nextOperator_ne_of_findOperator hlt hn rfl

/-- **A new operator** is linked in both directions with what it reads and makes. -/
theorem Linked.applied (h : g.Linked) (hfits : g.Fits)
    (happ : g.Applicable name params inputs shape) :
    (g.applied name params inputs shape).Linked where
  toMinted := minted_applied h.toMinted name params inputs shape
  operator_named n hn := by
    rcases mem_ops_applied.mp hn with hold | rfl
    · exact operatorNamed_applied (h.operator_named n hold) happ.free
    · exact operatorNamed_applied_self hfits.2
  intermediate_iff v hv := by
    rcases mem_vars_applied.mp hv with ⟨w, hw, rfl⟩ | rfl
    · exact h.intermediate_iff w hw
    · exact ⟨fun _ => ⟨g.nextOperator, rfl⟩, fun _ => rfl⟩
  producer_makes v hv op hop := by
    rcases mem_vars_applied.mp hv with ⟨w, hw, rfl⟩ | rfl
    · obtain ⟨n, hn, hmakes⟩ := h.producer_makes w hw op hop
      exact ⟨n, findOperator_applied hn, hmakes⟩
    · -- What is made names the new operator.
      cases hop
      exact ⟨_, findOperator_applied_next hfits.2, List.mem_singleton.mpr rfl⟩
  consumers_nodup v hv := by
    -- The operator is entered once, even into a variable that two slots read.
    rcases mem_vars_applied.mp hv with ⟨w, hw, rfl⟩ | rfl
    · have hnew := h.nextOperator_not_mem_consumers hfits.2 hw
      rw [Variable.consumers_readBy hnew]
      split
      · refine List.nodup_append.mpr ⟨h.consumers_nodup w hw, List.nodup_singleton _, ?_⟩
        rintro op hop _ hmem rfl
        exact hnew (List.mem_singleton.mp hmem ▸ hop)
      · rw [List.append_nil]
        exact h.consumers_nodup w hw
    · exact List.Pairwise.nil
  consumer_reads v hv op hop := by
    rcases mem_vars_applied.mp hv with ⟨w, hw, rfl⟩ | rfl
    · rcases Variable.mem_consumers_readBy.mp hop with hold | ⟨rfl, hread⟩
      · obtain ⟨n, hn, hreads⟩ := h.consumer_reads w hw op hold
        exact ⟨n, findOperator_applied hn, hreads⟩
      · refine ⟨_, findOperator_applied_next hfits.2, ?_⟩
        rw [reads_appliedNode happ.length_inputs]
        exact hread
    · cases hop
  input_slots n hn := by
    rcases mem_ops_applied.mp hn with hold | rfl
    · exact h.input_slots n hold
    · exact List.map_fst_zip (Nat.le_of_eq happ.length_inputs.symm)
  output_slots n hn := by
    rcases mem_ops_applied.mp hn with hold | rfl
    · exact h.output_slots n hold
    · rfl
  read_consumed n hn i hi := by
    rcases mem_ops_applied.mp hn with hold | rfl
    · obtain ⟨v, hv, hlink⟩ := h.read_consumed n hold i hi
      exact ⟨_, findVariable_applied hv, Variable.mem_consumers_readBy.mpr (Or.inl hlink)⟩
    · rw [reads_appliedNode happ.length_inputs] at hi
      obtain ⟨v, hv⟩ := happ.found i hi
      refine ⟨_, findVariable_applied hv, Variable.mem_consumers_readBy.mpr (Or.inr ⟨rfl, ?_⟩)⟩
      rw [h.id_of_findVariable hv]
      exact hi
  made_produced n hn i hi := by
    rcases mem_ops_applied.mp hn with hold | rfl
    · obtain ⟨v, hv, hlink⟩ := h.made_produced n hold i hi
      exact ⟨_, findVariable_applied hv, hlink⟩
    · rw [makes_appliedNode, List.mem_singleton] at hi
      subst hi
      exact ⟨_, findVariable_applied_next hfits.1, rfl⟩
  shapes_inferred n hn := by
    rcases mem_ops_applied.mp hn with hold | rfl
    · rw [shapesOf_applied fun i => h.found_of_mem_reads hold,
        shapesOf_applied fun i => h.found_of_mem_makes hold]
      exact h.shapes_inferred n hold
    · have hmade : (g.applied name params inputs shape).shapesOf [g.nextVariable] = [shape] := by
        rw [shapesOf, List.filterMap_cons, findVariable_applied_next hfits.1]
        rfl
      rw [reads_appliedNode happ.length_inputs, makes_appliedNode, hmade,
        shapesOf_applied happ.found]
      exact happ.inferred

/-- Nothing reads the new variable, so the new operator feeds none. -/
theorem Linked.feeds_applied (h : g.Linked) (hlt : g.vars.length < UInt32.size)
    (happ : g.Applicable name params inputs shape) {a b : Node}
    (hfeeds : (g.applied name params inputs shape).Feeds a b) :
    a ∈ g.ops ∧ (b ∈ g.ops → g.Feeds a b) := by
  obtain ⟨ha, hb, i, hmakes, hreads⟩ := hfeeds
  -- All that any operator reads was there before, and so was not made by the new one.
  have hfound : ∃ v, g.findVariable i = some v := by
    rcases mem_ops_applied.mp hb with hold | rfl
    · exact h.found_of_mem_reads hold hreads
    · rw [reads_appliedNode happ.length_inputs] at hreads
      exact happ.found i hreads
  rcases mem_ops_applied.mp ha with hold | rfl
  · exact ⟨hold, fun hb => ⟨hold, hb, i, hmakes, hreads⟩⟩
  · obtain ⟨v, hv⟩ := hfound
    exact absurd (List.mem_singleton.mp hmakes) (nextVariable_ne_of_findVariable hlt hv)

/-- What leads to an operator that was there led to it before. -/
theorem Linked.transGen_feeds_of_applied (h : g.Linked) (hlt : g.vars.length < UInt32.size)
    (happ : g.Applicable name params inputs shape) {a b : Node} (hb : b ∈ g.ops)
    (hpath : Relation.TransGen (g.applied name params inputs shape).Feeds a b) :
    Relation.TransGen g.Feeds a b := by
  induction hpath with
  | single hab => exact .single ((h.feeds_applied hlt happ hab).2 hb)
  | tail _ hcb ih =>
      obtain ⟨hc, hfeeds⟩ := h.feeds_applied hlt happ hcb
      exact (ih hc).tail (hfeeds hb)

theorem WellFormed.applied (h : g.WellFormed) (hfits : g.Fits)
    (happ : g.Applicable name params inputs shape) :
    (g.applied name params inputs shape).WellFormed where
  toLinked := h.toLinked.applied hfits happ
  input_role i hi := by
    obtain ⟨v, hv, hinput⟩ := h.input_role i hi
    exact ⟨_, findVariable_applied hv, hinput⟩
  output_found i hi := by
    obtain ⟨v, hv⟩ := h.output_found i hi
    exact ⟨_, findVariable_applied hv⟩
  acyclic n hcycle := by
    -- An operator on a cycle feeds some operator, so it was there before.
    obtain ⟨m, hfeeds, -⟩ := Relation.TransGen.head'_iff.mp hcycle
    have hn : n ∈ g.ops := (h.toLinked.feeds_applied hfits.1 happ hfeeds).1
    exact h.acyclic n (h.toLinked.transGen_feeds_of_applied hfits.1 happ hn hcycle)

end Applied

/-! ## Preservation -/

theorem Grows.wellFormed {g' : Graph} (hgrow : g.Grows g') (h : g.WellFormed) (hfits : g.Fits) :
    g'.WellFormed := by
  cases hgrow with
  | declared hrole hdecl => exact h.withDeclared hfits.1 hrole
  | marked hfound hnew => exact h.withOutput hfound
  | applied happ => exact h.applied hfits happ

theorem WellFormed.after (h : g.WellFormed) (hfits : g.Fits) (c : Call) :
    (g.after c).WellFormed :=
  after_induction h.toMinted (Nat.le_of_lt hfits.1) c h fun _ hgrow => hgrow.wellFormed h hfits

theorem wellFormed_empty (id : GraphId) (name : String) (options : Options) :
    (empty id name options).WellFormed where
  variable_id k v hk := by cases hk
  operator_id k n hk := by cases hk
  operator_named := nofun
  intermediate_iff := nofun
  producer_makes := nofun
  consumers_nodup := nofun
  consumer_reads := nofun
  input_slots := nofun
  output_slots := nofun
  read_consumed := nofun
  made_produced := nofun
  shapes_inferred := nofun
  input_role := nofun
  output_found := nofun
  acyclic n hcycle := by
    obtain ⟨m, hfeeds, -⟩ := Relation.TransGen.head'_iff.mp hcycle
    cases hfeeds.1

theorem Reachable.wellFormed (h : g.Reachable) (hfits : g.Fits) : g.WellFormed := by
  obtain ⟨id, name, options, calls, -, rfl⟩ := h
  exact run_induction (fun g c hroom hwell => hwell.after hroom c) hfits
    (wellFormed_empty id name options)

/-- A call adds at most one operator, so each still has an id of its own afterwards. -/
theorem WellFormed.length_ops_after_le (h : g.WellFormed) (hfits : g.Fits) (c : Call) :
    (g.after c).ops.length ≤ UInt32.size := by
  refine after_induction (P := fun g' => g'.ops.length ≤ UInt32.size) h.toMinted
    (Nat.le_of_lt hfits.1) c (Nat.le_of_lt hfits.2) fun g' hgrow => ?_
  exact Nat.le_trans hgrow.length_ops_le hfits.2

/-- **Validity is inductive.** After any call on a graph that passes validation, whether the call
    succeeds or not, validation passes again, as long as there is room for ids; so it passes on
    every graph that calls can make. -/
theorem validity_inductive :
    (∀ (g : Graph) (c : Call), g.check = .ok () → g.Fits → (g.after c).check = .ok ()) ∧
      ∀ g : Graph, g.Reachable → g.Fits → g.check = .ok () := by
  refine ⟨fun g c hcheck hfits => ?_, fun g hreach hfits => ?_⟩
  · have hwell := wellFormed_of_check (Nat.le_of_lt hfits.2) hcheck
    exact (hwell.after hfits c).check (hwell.length_ops_after_le hfits c)
  · exact (hreach.wellFormed hfits).check (Nat.le_of_lt hfits.2)

/-- The chain with its last operator renamed in place. -/
def renamedChain : Graph :=
  chain.editAll
    [.operatorName 1 "last", .unindexOperator "tanh", .indexOperator "last" ⟨⟨0⟩, 1⟩]

/-- Reading one variable twice, and under a name that is taken. -/
theorem validity_inductive_chain :
    (renamedChain.after (.applyOne ⟨some "sum", .elementwiseSum, by decide, nofun⟩
        [⟨⟨0⟩, 0⟩, ⟨⟨0⟩, 0⟩])).check = .ok () ∧
      (renamedChain.after (.apply ⟨some "last", .elementwiseSum, by decide, nofun⟩
        [⟨⟨0⟩, 0⟩, ⟨⟨0⟩, 0⟩])).check = .ok () ∧
      chain.check = .ok () := by
  have hcheck : renamedChain.check = .ok () := by decide
  have hfits : renamedChain.Fits := ⟨by decide, by decide⟩
  have hreach : chain.Reachable := ⟨⟨0⟩, "chain", {}, _, by decide, rfl⟩
  refine ⟨validity_inductive.1 _ _ hcheck hfits, validity_inductive.1 _ _ hcheck hfits, ?_⟩
  exact validity_inductive.2 chain hreach ⟨by decide, by decide⟩

end Graph

end TensorGraph
