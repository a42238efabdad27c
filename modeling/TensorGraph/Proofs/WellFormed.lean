import TensorGraph.Graph.Call
import TensorGraph.Graph.Edit
import TensorGraph.Graph.Validation
import TensorGraph.Proofs.Checks
import TensorGraph.Proofs.TopologicalOrder

/-!
# `TensorGraph.Proofs.WellFormed` — **what validation accepts**

`Graph.check` goes through the arenas and stops at the first disagreement. This module says in one
piece what it is that makes it pass: `Graph.WellFormed` lists the agreements between the parts of a
graph, each for all variables or operators at once and without an order of looking at them, and asks
that operators feed each other without a cycle.

## Contents
- **Agreement.** `Linked` has what variables and operators say about each other, `WellFormed` adds
  the interface of the graph and that `Feeds` has no cycle.
- **One lemma per check**, up to `checkVariables_eq_ok_iff` and `checkOperators_eq_ok_iff`.
- **Cycles.** On linked graphs the sort orders everything exactly when `Feeds` has no cycle.
- **Validation accepts exactly the well-formed graphs.**
-/

namespace TensorGraph

namespace Graph

/-! ## Agreement -/

/-- An output of the first operator is an input of the second. -/
def Feeds (g : Graph) (a b : Node) : Prop :=
  a ∈ g.ops ∧ b ∈ g.ops ∧ ∃ i ∈ a.makes, i ∈ b.reads

/-- The variables and operators of a graph agree with each other and with the index of operator
    names. -/
structure Linked (g : Graph) : Prop extends g.Minted where
  /-- Names lead to their operators. -/
  operator_named : ∀ n ∈ g.ops, g.operatorNamed n.name = some n
  /-- Exactly the intermediates name a producer. -/
  intermediate_iff : ∀ v ∈ g.vars, v.role = .intermediate ↔ ∃ op, v.producer? = some op
  /-- A producer exists and makes the variable. -/
  producer_makes : ∀ v ∈ g.vars, ∀ op, v.producer? = some op →
    ∃ n, g.findOperator op = some n ∧ v.id ∈ n.makes
  consumers_nodup : ∀ v ∈ g.vars, v.consumers.Nodup
  /-- A consumer exists and reads the variable. -/
  consumer_reads : ∀ v ∈ g.vars, ∀ op ∈ v.consumers,
    ∃ n, g.findOperator op = some n ∧ v.id ∈ n.reads
  input_slots : ∀ n ∈ g.ops, n.inputs.map Prod.fst = n.kind.inputSlots
  output_slots : ∀ n ∈ g.ops, n.outputs.map Prod.fst = n.kind.outputSlots
  /-- What is read exists and lists the reader. -/
  read_consumed : ∀ n ∈ g.ops, ∀ i ∈ n.reads, ∃ v, g.findVariable i = some v ∧ n.id ∈ v.consumers
  /-- What is made exists and names the maker. -/
  made_produced : ∀ n ∈ g.ops, ∀ i ∈ n.makes,
    ∃ v, g.findVariable i = some v ∧ v.producer? = some n.id
  /-- What is made has the shapes that the shape rule gives for what is read. -/
  shapes_inferred : ∀ n ∈ g.ops,
    n.params.outputShapes (g.shapesOf n.reads) = .ok (g.shapesOf n.makes)

/-- **Well-formed graphs.** All parts agree, and no operator feeds itself, be it through others. -/
structure WellFormed (g : Graph) : Prop extends g.Linked where
  input_role : ∀ i ∈ g.inputs, ∃ v, g.findVariable i = some v ∧ v.role = .input
  output_found : ∀ i ∈ g.outputs, ∃ v, g.findVariable i = some v
  acyclic : ∀ n, ¬ Relation.TransGen g.Feeds n n

variable {g : Graph}

/-! ## One lemma per check -/

open Checks

theorem checkProducer_eq_ok_iff {v : Variable} :
    g.checkProducer v = .ok () ↔
      (v.role = .intermediate ↔ ∃ op, v.producer? = some op) ∧
        ∀ op, v.producer? = some op → ∃ n, g.findOperator op = some n ∧ v.id ∈ n.makes := by
  unfold checkProducer
  cases hrole : v.role <;> cases hprod : v.producer? <;> simp [bind_eq_ok_iff]

/-- Consumers are gone through with those already seen; in the end all are different. -/
theorem checkConsumers_eq_ok_iff {v : Variable} {seen ops : List OperatorId} :
    g.checkConsumers v seen ops = .ok () ↔
      (ops.Nodup ∧ ∀ op ∈ ops, op ∉ seen) ∧
        ∀ op ∈ ops, ∃ n, g.findOperator op = some n ∧ v.id ∈ n.reads := by
  -- What was gone through joins `seen`, so the statement has to hold of every `seen`.
  induction ops generalizing seen with
  | nil => simp [checkConsumers]
  | cons op ops ih =>
      rw [checkConsumers, check_bind_eq_ok_iff, demand_eq_ok_iff, bind_eq_ok_iff]
      simp only [check_bind_eq_ok_iff, found_eq_ok_iff, demand_eq_ok_iff, ih, List.nodup_cons,
        List.forall_mem_cons]
      constructor
      · rintro ⟨hnew, n, hn, hreads, ⟨hnodup, hseen⟩, hrest⟩
        have hop : op ∉ ops := fun hmem => hseen op hmem List.mem_cons_self
        refine ⟨⟨⟨hop, hnodup⟩, hnew, fun o ho hmem => ?_⟩, ⟨n, hn, hreads⟩, hrest⟩
        exact hseen o ho (List.mem_cons_of_mem _ hmem)
      · rintro ⟨⟨⟨hop, hnodup⟩, hnew, hseen⟩, ⟨n, hn, hreads⟩, hrest⟩
        refine ⟨hnew, n, hn, hreads, ⟨hnodup, fun o ho hmem => ?_⟩, hrest⟩
        rcases List.mem_cons.mp hmem with heq | hmem
        · exact hop (heq ▸ ho)
        · exact hseen o ho hmem

theorem checkVariable_eq_ok_iff {k : Nat} {v : Variable} :
    g.checkVariable k v = .ok () ↔
      v.id = Id.mint g.id k ∧
      ((v.role = .intermediate ↔ ∃ op, v.producer? = some op) ∧
        ∀ op, v.producer? = some op → ∃ n, g.findOperator op = some n ∧ v.id ∈ n.makes) ∧
      v.consumers.Nodup ∧
        ∀ op ∈ v.consumers, ∃ n, g.findOperator op = some n ∧ v.id ∈ n.reads := by
  unfold checkVariable
  rw [check_bind_eq_ok_iff, check_bind_eq_ok_iff, demand_eq_ok_iff, checkProducer_eq_ok_iff,
    checkConsumers_eq_ok_iff]
  simp

/-- Going through an arena with positions looks at every entry at its position. -/
theorem forM_zipIdx_eq_ok_iff {ε α : Type} {f : α × Nat → Except ε Unit} {xs : List α} :
    xs.zipIdx.forM f = .ok () ↔ ∀ k x, xs[k]? = some x → f (x, k) = .ok () := by
  rw [forM_eq_ok_iff]
  constructor
  · exact fun h k x hk => h (x, k) (List.mk_mem_zipIdx_iff_getElem?.mpr hk)
  · rintro h ⟨x, k⟩ hmem
    exact h k x (List.mk_mem_zipIdx_iff_getElem?.mp hmem)

theorem checkVariables_eq_ok_iff :
    g.checkVariables = .ok () ↔
      (∀ k v, g.vars[k]? = some v → v.id = Id.mint g.id k) ∧
      (∀ v ∈ g.vars, v.role = .intermediate ↔ ∃ op, v.producer? = some op) ∧
      (∀ v ∈ g.vars, ∀ op, v.producer? = some op →
        ∃ n, g.findOperator op = some n ∧ v.id ∈ n.makes) ∧
      (∀ v ∈ g.vars, v.consumers.Nodup) ∧
      ∀ v ∈ g.vars, ∀ op ∈ v.consumers, ∃ n, g.findOperator op = some n ∧ v.id ∈ n.reads := by
  unfold checkVariables
  rw [forM_zipIdx_eq_ok_iff]
  simp only [checkVariable_eq_ok_iff, List.mem_iff_getElem?, forall_exists_index]
  constructor
  · intro h
    exact ⟨fun k v hk => (h k v hk).1, fun v k hk => (h k v hk).2.1.1,
      fun v k hk => (h k v hk).2.1.2, fun v k hk => (h k v hk).2.2.1,
      fun v k hk op j hj => (h k v hk).2.2.2 op j hj⟩
  · rintro ⟨hid, hrole, hproducer, hnodup, hconsumers⟩ k v hk
    exact ⟨hid k v hk, ⟨hrole v k hk, hproducer v k hk⟩, hnodup v k hk, hconsumers v k hk⟩

/-! ## Operators -/

theorem checkInput_eq_ok_iff {n : Node} {slot : String × VariableId} {s : Shape} :
    g.checkInput n slot = .ok s ↔
      (∃ v, g.findVariable slot.2 = some v ∧ n.id ∈ v.consumers) ∧
        (g.findVariable slot.2).map Variable.shape = some s := by
  rw [checkInput, bind_eq_ok_iff]
  simp only [check_bind_eq_ok_iff, found_eq_ok_iff, demand_eq_ok_iff, Option.map_eq_some_iff]
  constructor
  · rintro ⟨v, hv, hlink, hs⟩
    cases hs
    exact ⟨⟨v, hv, hlink⟩, v, hv, rfl⟩
  · rintro ⟨⟨v, hv, hlink⟩, w, hw, rfl⟩
    rw [hv] at hw
    cases hw
    exact ⟨v, hv, hlink, rfl⟩

theorem checkInputs_eq_ok_iff {n : Node} {shapes : List Shape} :
    n.inputs.mapM (g.checkInput n) = .ok shapes ↔
      (∀ i ∈ n.reads, ∃ v, g.findVariable i = some v ∧ n.id ∈ v.consumers) ∧
        g.shapesOf n.reads = shapes := by
  rw [mapM_eq_ok_iff (fun slot s => checkInput_eq_ok_iff), filterMap_shape, Node.reads]
  · simp only [List.mem_map, forall_exists_index, and_imp, forall_apply_eq_imp_iff₂]
  · rintro slot ⟨v, hv, -⟩
    rw [hv]
    rfl

theorem checkOutput_eq_ok_iff {n : Node} {slot : String × VariableId} {s : Shape} :
    g.checkOutput n slot s = .ok () ↔
      (∃ v, g.findVariable slot.2 = some v ∧ v.producer? = some n.id) ∧
        (g.findVariable slot.2).map Variable.shape = some s := by
  rw [checkOutput, bind_eq_ok_iff]
  simp only [check_bind_eq_ok_iff, found_eq_ok_iff, demand_eq_ok_iff, Option.map_eq_some_iff]
  constructor
  · rintro ⟨v, hv, hlink, hs⟩
    exact ⟨⟨v, hv, hlink⟩, v, hv, hs⟩
  · rintro ⟨⟨v, hv, hlink⟩, w, hw, hs⟩
    rw [hv] at hw
    cases hw
    exact ⟨v, hv, hlink, hs⟩

/-- Outputs are compared with the inferred shapes one by one; as there are as many of them, all
    outputs have been looked at. -/
theorem checkOutputs_eq_ok_iff {n : Node} {outputs : List (String × VariableId)}
    {inferred : List Shape} (hlength : outputs.length = inferred.length) :
    ((outputs.zip inferred).forM fun o => g.checkOutput n o.1 o.2) = .ok () ↔
      (∀ i ∈ outputs.map Prod.snd, ∃ v, g.findVariable i = some v ∧ v.producer? = some n.id) ∧
        g.shapesOf (outputs.map Prod.snd) = inferred := by
  rw [forM_eq_ok_iff]
  induction outputs generalizing inferred with
  | nil =>
      rw [List.eq_nil_of_length_eq_zero hlength.symm]
      simp [shapesOf]
  | cons o outputs ih =>
      cases inferred with
      | nil => cases hlength
      | cons s inferred =>
          rw [List.zip_cons_cons, List.forall_mem_cons, ih (Nat.succ.inj hlength),
            checkOutput_eq_ok_iff, List.map_cons, List.forall_mem_cons]
          constructor
          · rintro ⟨⟨hfound, hshape⟩, hrest, rfl⟩
            exact ⟨⟨hfound, hrest⟩, by rw [shapesOf, List.filterMap_cons, hshape]; rfl⟩
          · rintro ⟨⟨⟨v, hv, hlink⟩, hrest⟩, hshapes⟩
            rw [shapesOf, List.filterMap_cons, hv] at hshapes
            obtain ⟨hs, hshapes⟩ := List.cons_eq_cons.mp hshapes
            exact ⟨⟨⟨v, hv, hlink⟩, by rw [hv, ← hs]; rfl⟩, hrest, hshapes⟩

theorem checkOperator_eq_ok_iff {k : Nat} {n : Node} :
    g.checkOperator k n = .ok () ↔
      n.id = Id.mint g.id k ∧
      (g.operatorNamed n.name).map Node.id = some n.id ∧
      n.inputs.map Prod.fst = n.kind.inputSlots ∧
      n.outputs.map Prod.fst = n.kind.outputSlots ∧
      (∀ i ∈ n.reads, ∃ v, g.findVariable i = some v ∧ n.id ∈ v.consumers) ∧
      (∀ i ∈ n.makes, ∃ v, g.findVariable i = some v ∧ v.producer? = some n.id) ∧
      n.params.outputShapes (g.shapesOf n.reads) = .ok (g.shapesOf n.makes) := by
  unfold checkOperator
  simp only [check_bind_eq_ok_iff, demand_eq_ok_iff]
  refine and_congr_right fun _ => and_congr_right fun _ => and_congr_right fun _ =>
    and_congr_right fun houtputs => ?_
  -- Kinds have one output slot and shape rules give one shape, so no output goes unlooked at.
  have hone : n.outputs.length = 1 := by
    rw [← List.length_map (f := Prod.fst), houtputs]
    rfl
  simp only [bind_eq_ok_iff, checkInputs_eq_ok_iff, inferAgain, mapError_eq_ok_iff]
  constructor
  · rintro ⟨shapes, ⟨hreads, rfl⟩, inferred, hinferred, houts⟩
    obtain ⟨y, rfl⟩ := outputShapes_eq_ok hinferred
    obtain ⟨hmakes, hshapes⟩ := (checkOutputs_eq_ok_iff hone).mp houts
    exact ⟨hreads, hmakes, by rw [hinferred, ← hshapes, Node.makes]⟩
  · rintro ⟨hreads, hmakes, hinferred⟩
    obtain ⟨y, hy⟩ := outputShapes_eq_ok hinferred
    refine ⟨_, ⟨hreads, rfl⟩, _, hinferred, (checkOutputs_eq_ok_iff ?_).mpr ⟨hmakes, rfl⟩⟩
    rw [hone, hy]
    rfl

/-- Where ids tell positions, a name leads to the id of an operator only by leading to it. -/
theorem Minted.operatorNamed_id_iff (hg : g.Minted) (hlen : g.ops.length ≤ UInt32.size) {n : Node}
    (hn : n ∈ g.ops) :
    (g.operatorNamed n.name).map Node.id = some n.id ↔ g.operatorNamed n.name = some n := by
  constructor
  · intro h
    obtain ⟨m, hm, hid⟩ := Option.map_eq_some_iff.mp h
    obtain ⟨i, -, hfound⟩ := Option.bind_eq_some_iff.mp hm
    rw [hm, hg.operator_eq_of_id_eq hlen (mem_ops_of_findOperator hfound) hn hid]
  · intro h
    rw [h]
    rfl

/-- **The checks of variables and of operators** pass together exactly on linked graphs. -/
theorem checkVariables_checkOperators_eq_ok_iff (hlen : g.ops.length ≤ UInt32.size) :
    (g.checkVariables = .ok () ∧ g.checkOperators = .ok ()) ↔ g.Linked := by
  rw [checkVariables_eq_ok_iff, checkOperators, forM_zipIdx_eq_ok_iff]
  simp only [checkOperator_eq_ok_iff]
  constructor
  · rintro ⟨⟨hvid, hrole, hproducer, hnodup, hconsumer⟩, hops⟩
    -- Names are compared by ids, so ids have to tell operators apart first.
    have hminted : g.Minted := ⟨hvid, fun k n hk => (hops k n hk).1⟩
    have hall : ∀ n ∈ g.ops, ∃ k, g.ops[k]? = some n := fun n hn => List.mem_iff_getElem?.mp hn
    refine ⟨hminted, fun n hn => ?_, hrole, hproducer, hnodup, hconsumer, ?_, ?_, ?_, ?_, ?_⟩
    · obtain ⟨k, hk⟩ := hall n hn
      exact (hminted.operatorNamed_id_iff hlen hn).mp (hops k n hk).2.1
    all_goals
      intro n hn
      obtain ⟨k, hk⟩ := hall n hn
      obtain ⟨-, -, hinputs, houtputs, hreads, hmakes, hshapes⟩ := hops k n hk
      assumption
  · intro h
    refine ⟨⟨h.variable_id, h.intermediate_iff, h.producer_makes, h.consumers_nodup,
      h.consumer_reads⟩, fun k n hk => ?_⟩
    have hn : n ∈ g.ops := List.mem_of_getElem? hk
    exact ⟨h.operator_id k n hk, (h.operatorNamed_id_iff hlen hn).mpr (h.operator_named n hn),
      h.input_slots n hn, h.output_slots n hn, h.read_consumed n hn, h.made_produced n hn,
      h.shapes_inferred n hn⟩

theorem checkInterface_eq_ok_iff :
    g.checkInterface = .ok () ↔
      (∀ i ∈ g.inputs, ∃ v, g.findVariable i = some v ∧ v.role = .input) ∧
        ∀ i ∈ g.outputs, ∃ v, g.findVariable i = some v := by
  unfold checkInterface
  simp only [check_bind_eq_ok_iff, forM_eq_ok_iff, demand_eq_ok_iff, Option.isSome_iff_exists]
  simp [Option.any_eq_true, Variable.isInput]

/-! ## Cycles -/

theorem mem_predecessors {i : OperatorId} {n : Node} :
    i ∈ g.predecessors n ↔
      ∃ r ∈ n.reads, ∃ v, g.findVariable r = some v ∧ v.producer? = some i := by
  simp [predecessors, Option.bind_eq_some_iff]

theorem mem_successors {i : OperatorId} {n : Node} :
    i ∈ g.successors n ↔
      ∃ r ∈ n.makes, ∃ v, g.findVariable r = some v ∧ i ∈ v.consumers := by
  simp only [successors, Id.mem_sortDistinct, List.mem_flatMap, List.mem_filterMap]
  constructor
  · rintro ⟨v, ⟨r, hr, hv⟩, hi⟩
    exact ⟨r, hr, v, hv, hi⟩
  · rintro ⟨r, hr, v, hv, hi⟩
    exact ⟨v, ⟨r, hr, hv⟩, hi⟩

namespace Linked

/-- Following links backward finds the operators that feed. -/
theorem mem_predecessors_iff (h : g.Linked) (hlen : g.ops.length ≤ UInt32.size) {a b : Node}
    (ha : a ∈ g.ops) (hb : b ∈ g.ops) : a.id ∈ g.predecessors b ↔ g.Feeds a b := by
  rw [mem_predecessors]
  constructor
  · rintro ⟨r, hr, v, hv, hproducer⟩
    obtain ⟨n, hn, hmakes⟩ := h.producer_makes v (mem_vars_of_findVariable hv) a.id hproducer
    rw [h.findOperator_id hlen ha] at hn
    cases hn
    exact ⟨ha, hb, v.id, hmakes, h.id_of_findVariable hv ▸ hr⟩
  · rintro ⟨-, -, i, hi, hr⟩
    obtain ⟨v, hv, hproducer⟩ := h.made_produced a ha i hi
    exact ⟨i, hr, v, hv, hproducer⟩

/-- Following links forward finds the operators that are fed. -/
theorem mem_successors_iff (h : g.Linked) (hlen : g.ops.length ≤ UInt32.size) {a b : Node}
    (ha : a ∈ g.ops) (hb : b ∈ g.ops) : b.id ∈ g.successors a ↔ g.Feeds a b := by
  rw [mem_successors]
  constructor
  · rintro ⟨r, hr, v, hv, hconsumer⟩
    obtain ⟨n, hn, hreads⟩ := h.consumer_reads v (mem_vars_of_findVariable hv) b.id hconsumer
    rw [h.findOperator_id hlen hb] at hn
    cases hn
    exact ⟨ha, hb, v.id, h.id_of_findVariable hv ▸ hr, hreads⟩
  · rintro ⟨-, -, i, hi, hr⟩
    obtain ⟨v, hv, hconsumer⟩ := h.read_consumed b hb i hr
    exact ⟨i, hi, v, hv, hconsumer⟩

/-- **Linked graphs are mirrored**: the local checks make the two directions agree. -/
theorem mirrored (h : g.Linked) (hlen : g.ops.length ≤ UInt32.size) : g.Mirrored where
  toMinted := h.toMinted
  length_ops := hlen
  mem_successors_iff a ha b hb := by
    rw [h.mem_successors_iff hlen ha hb, h.mem_predecessors_iff hlen ha hb]
  successor_known a _ i hi := by
    obtain ⟨r, -, v, hv, hconsumer⟩ := mem_successors.mp hi
    obtain ⟨n, hn, -⟩ := h.consumer_reads v (mem_vars_of_findVariable hv) i hconsumer
    exact ⟨n, mem_ops_of_findOperator hn, h.id_of_findOperator hn⟩
  predecessor_known b _ i hi := by
    obtain ⟨r, -, v, hv, hproducer⟩ := mem_predecessors.mp hi
    obtain ⟨n, hn, -⟩ := h.producer_makes v (mem_vars_of_findVariable hv) i hproducer
    exact ⟨n, mem_ops_of_findOperator hn, h.id_of_findOperator hn⟩

theorem precedes_eq_feeds (h : g.Linked) (hlen : g.ops.length ≤ UInt32.size) :
    g.Precedes = g.Feeds := by
  funext a b
  refine propext ⟨fun ⟨ha, hb, hprec⟩ => (h.mem_predecessors_iff hlen ha hb).mp hprec, ?_⟩
  exact fun hfeeds => ⟨hfeeds.1, hfeeds.2.1,
    (h.mem_predecessors_iff hlen hfeeds.1 hfeeds.2.1).mpr hfeeds⟩

theorem checkAcyclic_eq_ok_iff (h : g.Linked) (hlen : g.ops.length ≤ UInt32.size) :
    g.checkAcyclic = .ok () ↔ ∀ n, ¬ Relation.TransGen g.Feeds n n := by
  unfold checkAcyclic
  rw [demand_eq_ok_iff, (h.mirrored hlen).length_topologicalOrder_iff, h.precedes_eq_feeds hlen]

end Linked

/-! ## Validation -/

theorem wellFormed_of_check (hlen : g.ops.length ≤ UInt32.size) (h : g.check = .ok ()) :
    g.WellFormed := by
  unfold check at h
  simp only [check_bind_eq_ok_iff] at h
  obtain ⟨hvars, hops, hinterface, hacyclic⟩ := h
  have hlinked := (checkVariables_checkOperators_eq_ok_iff hlen).mp ⟨hvars, hops⟩
  obtain ⟨hinputs, houtputs⟩ := checkInterface_eq_ok_iff.mp hinterface
  -- The number of ordered operators says something about cycles only on linked graphs.
  exact ⟨hlinked, hinputs, houtputs, (hlinked.checkAcyclic_eq_ok_iff hlen).mp hacyclic⟩

theorem WellFormed.check (h : g.WellFormed) (hlen : g.ops.length ≤ UInt32.size) :
    g.check = .ok () := by
  unfold Graph.check
  simp only [check_bind_eq_ok_iff]
  obtain ⟨hvars, hops⟩ := (checkVariables_checkOperators_eq_ok_iff hlen).mpr h.toLinked
  exact ⟨hvars, hops, checkInterface_eq_ok_iff.mpr ⟨h.input_role, h.output_found⟩,
    (h.toLinked.checkAcyclic_eq_ok_iff hlen).mpr h.acyclic⟩

/-- **Validation accepts exactly the well-formed graphs**, however they came about, as long as
    operators are few enough for each to have an id of its own. -/
theorem check_eq_ok_iff_wellFormed (hlen : g.ops.length ≤ UInt32.size) :
    g.check = .ok () ↔ g.WellFormed :=
  ⟨wellFormed_of_check hlen, fun h => h.check hlen⟩

/-- Two activations, one after the other. -/
def chain : Graph :=
  (empty ⟨0⟩ "chain").run
    [ .addInput "x" twoChannels,
      .apply (.unnamed (.activation .relu) (Params.valid_activation _)) [⟨⟨0⟩, 0⟩],
      .apply (.named "tanh" (.activation .tanh) (by decide) (Params.valid_activation _))
        [⟨⟨0⟩, 1⟩] ]

/-- The two activations read each other; everything agrees. -/
def ring : Graph :=
  chain.editAll
    [ .operatorInputs 0 [("x", ⟨⟨0⟩, 2⟩)], .variableConsumers 2 [⟨⟨0⟩, 0⟩],
      .variableConsumers 0 [] ]

theorem chain_wellFormed_and_ring_not : chain.WellFormed ∧ ¬ ring.WellFormed := by
  refine ⟨(check_eq_ok_iff_wellFormed (by decide)).mp (by decide), fun h => ?_⟩
  have hcheck : ring.check = .ok () := (check_eq_ok_iff_wellFormed (by decide)).mpr h
  exact absurd hcheck (by decide)

end Graph

end TensorGraph
