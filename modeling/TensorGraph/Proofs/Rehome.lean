import TensorGraph.Proofs.ListingText
import TensorGraph.Proofs.Preservation
import TensorGraph.WeightLayout

/-!
# `TensorGraph.Proofs.Rehome` — **the same graph under another identity**

Identities of graphs only tell their ids apart. Carrying every id of a graph over to another
identity, position by position, gives a graph that looks the same: look-ups find what was there
before, carried over, and what was possible before is possible and has the same effect.

## Contents
- **Carrying over** `Id`s, variables, operators, name maps and graphs.
- **Look-ups** of ids of the graph. Ids of other graphs are not told apart any more, so they are
  left out.
- **Growing** commutes with carrying over.
- **Listings and layouts**, which do not show identities, stay as they are.
-/

namespace TensorGraph

variable {home : GraphId}

/-! ## Ids -/

namespace Id

variable {arena : Arena} {i j : Id arena}

/-- The id of another graph with the same position. -/
def rehome (home : GraphId) (i : Id arena) : Id arena := ⟨home, i.index⟩

@[simp] theorem rehome_mint {g : GraphId} {n : Nat} :
    (mint g n : Id arena).rehome home = mint home n := rfl

/-- Ids of one graph stay different. -/
theorem rehome_inj (hgraph : i.graph = j.graph) : i.rehome home = j.rehome home ↔ i = j := by
  constructor
  · intro h
    have hpos : (i.rehome home).position = (j.rehome home).position := congrArg position h
    exact ext_position hgraph hpos
  · intro h
    rw [h]

theorem rehome_mem_map_iff {is : List (Id arena)} (hgraph : ∀ j ∈ is, j.graph = i.graph) :
    i.rehome home ∈ is.map (rehome home) ↔ i ∈ is := by
  rw [List.mem_map]
  constructor
  · rintro ⟨j, hj, heq⟩
    rw [← (rehome_inj (hgraph j hj)).mp heq]
    exact hj
  · exact fun hi => ⟨i, hi, rfl⟩

end Id

/-! ## Name maps -/

namespace NameMap

variable {α β : Type}

theorem lookup_map (f : α → β) (name : String) (es : List (String × α)) :
    lookup name (es.map fun e => (e.1, f e.2)) = (lookup name es).map f := by
  induction es with
  | nil => rfl
  | cons e es ih =>
      rw [List.map_cons, lookup, lookup, ih]
      by_cases hname : name = e.1
      · rw [if_pos hname, if_pos hname]
        rfl
      · rw [if_neg hname, if_neg hname]

/-- The map with every value changed. -/
def map (f : α → β) (m : NameMap α) : NameMap β where
  entries := m.entries.map fun e => (e.1, f e.2)
  sorted := List.pairwise_map.mpr m.sorted

@[simp] theorem find?_map (f : α → β) (m : NameMap α) (name : String) :
    (m.map f).find? name = (m.find? name).map f :=
  lookup_map f name m.entries

theorem map_insert (f : α → β) (m : NameMap α) (name : String) (value : α) :
    (m.insert name value).map f = (m.map f).insert name (f value) := by
  refine ext_find? fun q => ?_
  rw [find?_map, find?_insert, find?_insert, find?_map]
  by_cases hq : q = name
  · rw [if_pos hq, if_pos hq]
    rfl
  · rw [if_neg hq, if_neg hq]

end NameMap

/-! ## Variables and operators -/

namespace Variable

/-- The variable with its ids carried over. -/
def rehome (home : GraphId) (v : Variable) : Variable :=
  { v with
    id := v.id.rehome home
    producer? := v.producer?.map (Id.rehome home)
    consumers := v.consumers.map (Id.rehome home) }

@[simp] theorem id_rehome {v : Variable} : (v.rehome home).id = v.id.rehome home := rfl

/-- Being read by an operator commutes with carrying over, as long as all ids are of one graph. -/
theorem rehome_readBy {v : Variable} {op : OperatorId} {inputs : List VariableId}
    (hinputs : ∀ i ∈ inputs, i.graph = v.id.graph) (hops : ∀ o ∈ v.consumers, o.graph = op.graph) :
    (v.readBy op inputs).rehome home =
      (v.rehome home).readBy (op.rehome home) (inputs.map (Id.rehome home)) := by
  unfold readBy rehome
  simp only [Id.rehome_mem_map_iff hinputs, Id.rehome_mem_map_iff hops]
  by_cases hnew : v.id ∈ inputs ∧ op ∉ v.consumers
  · rw [if_pos hnew, if_pos hnew, List.map_append]
    rfl
  · rw [if_neg hnew, if_neg hnew]

end Variable

namespace Node

/-- The operator with its ids carried over. -/
def rehome (home : GraphId) (n : Node) : Node :=
  { n with
    id := n.id.rehome home
    inputs := n.inputs.map fun slot => (slot.1, slot.2.rehome home)
    outputs := n.outputs.map fun slot => (slot.1, slot.2.rehome home) }

@[simp] theorem id_rehome {n : Node} : (n.rehome home).id = n.id.rehome home := rfl

theorem reads_rehome {n : Node} : (n.rehome home).reads = n.reads.map (Id.rehome home) := by
  unfold reads rehome
  rw [List.map_map, List.map_map]
  rfl

end Node

namespace Graph

/-! ## Graphs -/

/-- The graph with all ids carried over to another identity. -/
def rehome (home : GraphId) (g : Graph) : Graph where
  id := home
  name := g.name
  options := g.options
  vars := g.vars.map (Variable.rehome home)
  ops := g.ops.map (Node.rehome home)
  operatorIndex := g.operatorIndex.map (Id.rehome home)
  variableIndex := g.variableIndex.map (Id.rehome home)
  inputs := g.inputs.map (Id.rehome home)
  outputs := g.outputs.map (Id.rehome home)

variable {g : Graph}

theorem nextVariable_rehome : (g.rehome home).nextVariable = g.nextVariable.rehome home := by
  rw [nextVariable, nextVariable, Id.rehome_mint, rehome, List.length_map]

theorem nextOperator_rehome : (g.rehome home).nextOperator = g.nextOperator.rehome home := by
  rw [nextOperator, nextOperator, Id.rehome_mint, rehome, List.length_map]

theorem Fits.rehome (h : g.Fits) : (g.rehome home).Fits := by
  constructor
  · rw [Graph.rehome, List.length_map]
    exact h.1
  · rw [Graph.rehome, List.length_map]
    exact h.2

theorem Minted.rehome (h : g.Minted) : (g.rehome home).Minted where
  variable_id k v hk := by
    rw [Graph.rehome, List.getElem?_map] at hk
    obtain ⟨w, hw, rfl⟩ := Option.map_eq_some_iff.mp hk
    rw [Variable.id_rehome, h.variable_id k w hw]
    rfl
  operator_id k n hk := by
    rw [Graph.rehome, List.getElem?_map] at hk
    obtain ⟨m, hm, rfl⟩ := Option.map_eq_some_iff.mp hk
    rw [Node.id_rehome, h.operator_id k m hm]
    rfl

/-! ## Look-ups -/

/-- **Looking up** a carried-over id finds what the id finds, carried over. -/
theorem findVariable_rehome {i : VariableId} (hi : i.graph = g.id) :
    (g.rehome home).findVariable (i.rehome home) =
      (g.findVariable i).map (Variable.rehome home) := by
  unfold findVariable
  rw [if_pos hi, if_pos (show (i.rehome home).graph = (g.rehome home).id from rfl)]
  exact List.getElem?_map

theorem findOperator_rehome {i : OperatorId} (hi : i.graph = g.id) :
    (g.rehome home).findOperator (i.rehome home) = (g.findOperator i).map (Node.rehome home) := by
  unfold findOperator
  rw [if_pos hi, if_pos (show (i.rehome home).graph = (g.rehome home).id from rfl)]
  exact List.getElem?_map

theorem graph_of_findVariable {i : VariableId} (h : ∃ v, g.findVariable i = some v) :
    i.graph = g.id := by
  obtain ⟨v, hv⟩ := h
  exact (findVariable_eq_some_iff.mp hv).1

theorem graph_of_findOperator {i : OperatorId} (h : ∃ n, g.findOperator i = some n) :
    i.graph = g.id := by
  obtain ⟨n, hn⟩ := h
  exact (findOperator_eq_some_iff.mp hn).1

theorem shapesOf_rehome {is : List VariableId} (hgraph : ∀ i ∈ is, i.graph = g.id) :
    (g.rehome home).shapesOf (is.map (Id.rehome home)) = g.shapesOf is := by
  unfold shapesOf
  rw [List.filterMap_map]
  refine List.filterMap_congr fun i hi => ?_
  show ((g.rehome home).findVariable (i.rehome home)).map Variable.shape = _
  rw [findVariable_rehome (hgraph i hi), Option.map_map]
  rfl

theorem label_rehome {i : VariableId} (hi : i.graph = g.id) :
    (g.rehome home).label (i.rehome home) = g.label i := by
  unfold label
  rw [findVariable_rehome hi]
  cases g.findVariable i with
  | none => rfl
  | some v => rfl

/-! ## Growing -/

section Growing

variable {name : String} {shape : Shape} {role : Variable.Role} {params : Params}
  {inputs : List VariableId}

theorem Declarable.rehome (h : g.Declarable name shape) :
    (g.rehome home).Declarable name shape where
  free := by
    rw [Graph.rehome, NameMap.find?_map, h.free]
    rfl
  rank_le := h.rank_le

theorem Applicable.rehome (h : g.Applicable name params inputs shape) :
    (g.rehome home).Applicable name params (inputs.map (Id.rehome home)) shape where
  length_inputs := by rw [List.length_map, h.length_inputs]
  free := by
    rw [Graph.rehome, NameMap.find?_map, h.free]
    rfl
  found i hi := by
    obtain ⟨j, hj, rfl⟩ := List.mem_map.mp hi
    obtain ⟨v, hv⟩ := h.found j hj
    refine ⟨v.rehome home, ?_⟩
    rw [findVariable_rehome (graph_of_findVariable ⟨v, hv⟩), hv]
    rfl
  inferred := by
    rw [shapesOf_rehome fun i hi => graph_of_findVariable (h.found i hi)]
    exact h.inferred

theorem declared_rehome :
    (g.rehome home).declared name shape role = (g.declared name shape role).rehome home := by
  have hid : (g.rehome home).nextVariable = g.nextVariable.rehome home := nextVariable_rehome
  rw [nextVariable, nextVariable] at hid
  rw [declared, hid]
  rfl

theorem rehome_withDeclared :
    (g.withDeclared name shape role).rehome home =
      (g.rehome home).withDeclared name shape role := by
  rw [withDeclared, withDeclared, declared_rehome, nextVariable_rehome]
  unfold rehome
  rw [List.map_append, NameMap.map_insert]
  by_cases hrole : role = .input
  · rw [if_pos hrole, if_pos hrole, List.map_append]
    rfl
  · rw [if_neg hrole, if_neg hrole]
    rfl

/-- **Applying** commutes with carrying over. -/
theorem rehome_applied (hvars : ∀ v ∈ g.vars, v.id.graph = g.id ∧ ∀ o ∈ v.consumers, o.graph = g.id)
    (hinputs : ∀ i ∈ inputs, i.graph = g.id) :
    (g.applied name params inputs shape).rehome home =
      (g.rehome home).applied name params (inputs.map (Id.rehome home)) shape := by
  have hmade : (g.rehome home).made shape = (g.made shape).rehome home := by
    rw [made, nextVariable_rehome, nextOperator_rehome]
    rfl
  have hnode : (g.rehome home).appliedNode name params (inputs.map (Id.rehome home)) =
      (g.appliedNode name params inputs).rehome home := by
    rw [appliedNode, nextVariable_rehome, nextOperator_rehome, List.zip_map_right]
    rfl
  -- Ids of other graphs could fall together with those carried over; there are none.
  have hread : (g.vars.map (Variable.readBy g.nextOperator inputs)).map (Variable.rehome home) =
      (g.vars.map (Variable.rehome home)).map
        (Variable.readBy (g.nextOperator.rehome home) (inputs.map (Id.rehome home))) := by
    rw [List.map_map, List.map_map]
    refine List.map_congr_left fun v hv => ?_
    obtain ⟨hid, hconsumers⟩ := hvars v hv
    exact Variable.rehome_readBy (fun i hi => (hinputs i hi).trans hid.symm) hconsumers
  rw [applied, applied, hmade, hnode, nextOperator_rehome]
  unfold rehome
  rw [List.map_append, List.map_append, NameMap.map_insert, hread]
  rfl

end Growing

end Graph

/-! ## Listings and layouts -/

namespace Line

/-- The line with the ids in it carried over. Labels are texts already. -/
def rehome (home : GraphId) : Line → Line
  | input v => input (v.rehome home)
  | constant v => constant (v.rehome home)
  | operator n labels => operator (n.rehome home) labels
  | made slot v => made slot (v.rehome home)
  | unresolved slot id => unresolved slot (id.rehome home)
  | output id label => output (id.rehome home) label
  | l => l

/-- **Lines do not show** the identity of the graph. -/
theorem text_rehome (l : Line) : (l.rehome home).text = l.text := by
  cases l with
  | operator n labels =>
      have harguments : ((n.rehome home).inputs.zip labels).map (fun a => a.1.1 ++ "=" ++ a.2) =
          (n.inputs.zip labels).map fun a => a.1.1 ++ "=" ++ a.2 := by
        rw [Node.rehome, List.zip_map_left, List.map_map]
        rfl
      show "  " ++ application (n.rehome home) labels = "  " ++ application n labels
      unfold application
      rw [harguments]
      rfl
  | _ => rfl

end Line

namespace Graph

variable {g : Graph}

theorem constants_rehome : (g.rehome home).constants = g.constants.map (Variable.rehome home) := by
  unfold constants rehome
  rw [List.filter_map]
  rfl

theorem declarationLines_rehome (h : g.WellFormed) :
    (g.rehome home).declarationLines = g.declarationLines.map (Line.rehome home) := by
  have hinputs : (g.rehome home).inputs.filterMap (g.rehome home).findVariable =
      (g.inputs.filterMap g.findVariable).map (Variable.rehome home) := by
    rw [List.map_filterMap]
    show (g.inputs.map (Id.rehome home)).filterMap _ = _
    rw [List.filterMap_map]
    refine List.filterMap_congr fun i hi => ?_
    obtain ⟨v, hv, -⟩ := h.input_role i hi
    exact findVariable_rehome (graph_of_findVariable ⟨v, hv⟩)
  unfold declarationLines
  rw [hinputs, constants_rehome, List.map_append, List.map_map, List.map_map, List.map_map,
    List.map_map]
  rfl

theorem operatorLines_rehome (h : g.WellFormed) {n : Node} (hn : n ∈ g.ops) :
    (g.rehome home).operatorLines (n.rehome home) =
      (g.operatorLines n).map (Line.rehome home) := by
  have hlabels : (n.rehome home).reads.map (g.rehome home).label = n.reads.map g.label := by
    rw [Node.reads_rehome, List.map_map]
    refine List.map_congr_left fun i hi => ?_
    exact label_rehome (graph_of_findVariable (h.found_of_mem_reads hn hi))
  unfold operatorLines
  rw [hlabels, List.map_cons, List.map_map]
  congr 1
  show (n.outputs.map _).map _ = _
  rw [List.map_map]
  refine List.map_congr_left fun o ho => ?_
  have hmakes : o.2 ∈ n.makes := List.mem_map_of_mem ho
  have hgraph := graph_of_findVariable (h.found_of_mem_makes hn hmakes)
  rw [Function.comp_apply, Function.comp_apply]
  unfold madeLine
  dsimp only
  rw [findVariable_rehome hgraph]
  cases g.findVariable o.2 with
  | none => rfl
  | some v => rfl

theorem applicationLines_rehome (h : g.WellFormed)
    (horder : (g.rehome home).topologicalOrder = g.topologicalOrder.map (Id.rehome home))
    (hfound : ∀ i ∈ g.topologicalOrder, ∃ n, g.findOperator i = some n) :
    (g.rehome home).applicationLines = g.applicationLines.map (Line.rehome home) := by
  have hops : (g.rehome home).topologicalOrder.filterMap (g.rehome home).findOperator =
      (g.topologicalOrder.filterMap g.findOperator).map (Node.rehome home) := by
    rw [horder, List.filterMap_map, List.map_filterMap]
    refine List.filterMap_congr fun i hi => ?_
    exact findOperator_rehome (graph_of_findOperator (hfound i hi))
  unfold applicationLines
  rw [hops, List.map_flatMap, List.flatMap_map]
  refine List.flatMap_congr fun n hn => ?_
  obtain ⟨i, -, hi⟩ := List.mem_filterMap.mp hn
  exact operatorLines_rehome h (mem_ops_of_findOperator hi)

theorem outputLines_rehome (h : g.WellFormed) :
    (g.rehome home).outputLines = g.outputLines.map (Line.rehome home) := by
  unfold outputLines
  rw [List.map_map]
  show (g.outputs.map (Id.rehome home)).map _ = _
  rw [List.map_map]
  refine List.map_congr_left fun i hi => ?_
  show Line.output (i.rehome home) _ = Line.output (i.rehome home) _
  rw [label_rehome (graph_of_findVariable (h.output_found i hi))]

/-- **Listings do not show** the identity of the graph, as long as the order is the same. -/
theorem listing_rehome (h : g.WellFormed)
    (horder : (g.rehome home).topologicalOrder = g.topologicalOrder.map (Id.rehome home))
    (hfound : ∀ i ∈ g.topologicalOrder, ∃ n, g.findOperator i = some n) :
    (g.rehome home).listing = g.listing := by
  have hinputs : (g.rehome home).inputs.isEmpty = g.inputs.isEmpty := List.isEmpty_map
  have hconstants : (g.rehome home).constants.isEmpty = g.constants.isEmpty := by
    rw [constants_rehome, List.isEmpty_map]
  have hops : (g.rehome home).ops.isEmpty = g.ops.isEmpty := List.isEmpty_map
  have hlines : (g.rehome home).listingLines = g.listingLines.map (Line.rehome home) := by
    unfold listingLines
    rw [hinputs, hconstants, hops, declarationLines_rehome h,
      applicationLines_rehome h horder hfound, outputLines_rehome h]
    simp only [List.map_append, List.map_cons, List.map_nil,
      apply_ite (List.map (Line.rehome home))]
    rfl
  rw [listing_eq, listing_eq, hlines, List.map_map]
  congr 1
  refine List.map_congr_left fun l _ => ?_
  rw [Function.comp_apply, Line.text_rehome]

/-- **Layouts do not show** the identity of the graph. -/
theorem layout_rehome : WeightLayout.ofGraph (g.rehome home) = WeightLayout.ofGraph g := by
  unfold WeightLayout.ofGraph
  rw [constants_rehome, List.foldlM_map]
  rfl

end Graph

end TensorGraph
