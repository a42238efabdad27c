import TensorGraph.Proofs.Bookkeeping
import TensorGraph.Proofs.Rehome

/-!
# `TensorGraph.Proofs.Rebuild` — **graphs as records of their own history**

Whoever reads a graph that calls made sees enough to make it once more: its variables in order, each
with what declares or makes it, and its outputs. Going through them with one call each, on an empty
graph of another identity, no call is refused, and the graph in the end is the first one but for its
identity. Names that were generated and calls that were refused leave no other trace.

## Contents
- **Rebuilding**, one call for each variable and for each output.
- **Each step**: the call that makes a variable again, and what it answers.
- **The rebuilt graph**, its listing and its layout.
-/

namespace TensorGraph

namespace Graph

variable {g : Graph} {home : GraphId}

/-! ## Rebuilding -/

/-- The call that makes a variable again. What its operator reads is carried over by position to
    the variables made so far. -/
def recreation? (g : Graph) (remade : List VariableId) (v : Variable) : Option Call :=
  match v.role with
  | .input => v.name?.map fun name => .addInput name v.shape
  | .constant => v.name?.map fun name => .addConstant name v.shape
  | .intermediate => do
    let n ← v.producer?.bind g.findOperator
    let op ← (Operator.ofParams n.name n.params).toOption
    let inputs ← n.reads.mapM fun i => remade[i.position]?
    some (.apply op inputs)

/-- Makes one more variable of the first graph, if the call for it is not refused. -/
def rebuildVariable? (g : Graph) (s : Graph × List VariableId) (v : Variable) :
    Option (Graph × List VariableId) := do
  let c ← g.recreation? s.2 v
  let (h, ids) ← (s.1.answer c).toOption
  some (h, s.2 ++ ids)

/-- Marks one more output, if that is not refused. -/
def rebuildOutput? (remade : List VariableId) (h : Graph) (i : VariableId) : Option Graph := do
  let j ← remade[i.position]?
  let (h', _) ← (h.answer (.markOutput j)).toOption
  some h'

/-- The graph made again under another identity from what can be read off it, unless a call is
    refused. -/
def rebuild? (home : GraphId) (g : Graph) : Option Graph := do
  let fresh ← (create home g.name g.options).toOption
  let (h, remade) ← g.vars.foldlM g.rebuildVariable? (fresh, [])
  g.outputs.foldlM (rebuildOutput? remade) h

/-! ### Rebuilding is calling -/

theorem toOption_eq_some_iff {ε α : Type} {x : Except ε α} {a : α} :
    x.toOption = some a ↔ x = .ok a := by
  cases x with
  | error e => exact ⟨nofun, nofun⟩
  | ok b => exact ⟨fun h => congrArg Except.ok (Option.some.inj h), fun h => by rw [h]; rfl⟩

/-- Steps that are calls make up a run. -/
theorem exists_run_of_foldlM {σ α : Type} (graph : σ → Graph) {step : σ → α → Option σ}
    (hstep : ∀ s x s', step s x = some s' → ∃ c, graph s' = (graph s).after c) {xs : List α}
    {s s' : σ} (h : xs.foldlM step s = some s') : ∃ calls, graph s' = (graph s).run calls := by
  induction xs generalizing s with
  | nil =>
      cases h
      exact ⟨[], rfl⟩
  | cons x xs ih =>
      rw [List.foldlM_cons] at h
      obtain ⟨t, ht, hrest⟩ := Option.bind_eq_some_iff.mp h
      obtain ⟨c, hc⟩ := hstep s x t ht
      obtain ⟨calls, hcalls⟩ := ih hrest
      exact ⟨c :: calls, by rw [hcalls, hc, run_cons]⟩

theorem after_of_rebuildVariable? (s : Graph × List VariableId) (v : Variable)
    (s' : Graph × List VariableId) (h : g.rebuildVariable? s v = some s') :
    ∃ c, s'.1 = s.1.after c := by
  obtain ⟨c, -, hc⟩ := Option.bind_eq_some_iff.mp h
  obtain ⟨r, hr, heq⟩ := Option.bind_eq_some_iff.mp hc
  cases heq
  exact ⟨c, (after_of_answer (toOption_eq_some_iff.mp hr)).symm⟩

theorem after_of_rebuildOutput? (remade : List VariableId) (h : Graph) (i : VariableId) (h' : Graph)
    (hmark : rebuildOutput? remade h i = some h') : ∃ c, h' = h.after c := by
  obtain ⟨j, -, hj⟩ := Option.bind_eq_some_iff.mp hmark
  obtain ⟨r, hr, heq⟩ := Option.bind_eq_some_iff.mp hj
  cases heq
  exact ⟨.markOutput j, (after_of_answer (toOption_eq_some_iff.mp hr)).symm⟩

/-- **What is rebuilt is made by calls.** -/
theorem reachable_of_rebuild? {h : Graph} (hvalid : g.options.Valid)
    (hrebuild : g.rebuild? home = some h) : h.Reachable := by
  obtain ⟨fresh, hfresh, hrest⟩ := Option.bind_eq_some_iff.mp hrebuild
  obtain ⟨⟨mid, remade⟩, hvars, houtputs⟩ := Option.bind_eq_some_iff.mp hrest
  have hempty : fresh = empty home g.name g.options := by
    have hcreate := toOption_eq_some_iff.mp hfresh
    unfold create at hcreate
    rw [Options.validate_eq_ok_iff.mpr hvalid] at hcreate
    cases hcreate
    rfl
  obtain ⟨calls, hcalls⟩ := exists_run_of_foldlM Prod.fst after_of_rebuildVariable? hvars
  obtain ⟨more, hmore⟩ :=
    exists_run_of_foldlM (fun h => h) (after_of_rebuildOutput? remade) houtputs
  refine ⟨home, g.name, g.options, calls ++ more, hvalid, ?_⟩
  rw [run_append, ← hempty, ← hcalls]
  exact hmore

/-! ## Each step -/

/-- The graph with other outputs. -/
def withOutputs (g : Graph) (is : List VariableId) : Graph := { g with outputs := is }

/-- The ids of the variables, carried over. -/
def carried (home : GraphId) (g : Graph) : List VariableId := g.vars.map fun v => v.id.rehome home

/-- Going through the variables of a graph makes them all again. Outputs are left for later. -/
def Rebuilds (home : GraphId) (g : Graph) : Prop :=
  g.vars.foldlM g.rebuildVariable? (empty home g.name g.options, []) =
    some ((g.withOutputs []).rehome home, g.carried home)

/-- The position of an id leads to the id carried over. -/
theorem getElem?_carried (hg : g.Minted) {i : VariableId}
    (hfound : ∃ v, g.findVariable i = some v) :
    (g.carried home)[i.position]? = some (i.rehome home) := by
  obtain ⟨v, hv⟩ := hfound
  have hid : v.id = i := hg.id_of_findVariable hv
  rw [carried, List.getElem?_map, (findVariable_eq_some_iff.mp hv).2, Option.map_some, hid]

theorem mapM_eq_some_map {α β : Type} {f : α → Option β} {value : α → β} {xs : List α}
    (h : ∀ x ∈ xs, f x = some (value x)) : xs.mapM f = some (xs.map value) := by
  induction xs with
  | nil => rfl
  | cons x xs ih =>
      rw [List.mapM_cons, h x List.mem_cons_self, ih fun y hy => h y (List.mem_cons_of_mem _ hy)]
      rfl

theorem foldlM_congr {σ α : Type} {f f' : σ → α → Option σ} {xs : List α}
    (h : ∀ s, ∀ x ∈ xs, f s x = f' s x) (s : σ) : xs.foldlM f s = xs.foldlM f' s := by
  induction xs generalizing s with
  | nil => rfl
  | cons x xs ih =>
      rw [List.foldlM_cons, List.foldlM_cons, h s x List.mem_cons_self]
      congr 1
      funext t
      exact ih (fun u y hy => h u y (List.mem_cons_of_mem _ hy)) t

/-- Typed parameters and a name that an operator has can be given to an operator again. -/
theorem ofParams_eq_ok {name : String} {params : Params} (hblank : Text.isBlank name = false)
    (hvalid : params.Valid) :
    ∃ op, Operator.ofParams name params = .ok op ∧ op.name? = some name ∧ op.params = params := by
  refine ⟨.named name params hblank hvalid, ?_, rfl, rfl⟩
  unfold Operator.ofParams
  rw [dif_pos hblank]
  split
  · rename_i fault hfault
    rw [Params.fault?_eq_none_iff.mpr hvalid] at hfault
    cases hfault
  · rfl

theorem rebuildVariable?_eq {h : Graph} {remade : List VariableId} {v : Variable} {c : Call}
    {r : Graph × List VariableId} (hcall : g.recreation? remade v = some c)
    (hanswer : h.answer c = .ok r) :
    g.rebuildVariable? (h, remade) v = some (r.1, remade ++ r.2) := by
  refine Option.bind_eq_some_iff.mpr ⟨c, hcall, Option.bind_eq_some_iff.mpr ⟨r, ?_, rfl⟩⟩
  exact toOption_eq_some_iff.mpr hanswer

/-- One more variable is one more step. -/
theorem foldlM_rebuildVariable?_concat {vars : List Variable} {v : Variable}
    {s t : Graph × List VariableId} (hvars : vars.foldlM g.rebuildVariable? s = some t) :
    (vars ++ [v]).foldlM g.rebuildVariable? s = g.rebuildVariable? t v := by
  rw [List.foldlM_append, hvars]
  show g.rebuildVariable? t v >>= pure = _
  exact bind_pure _

section Steps

variable {name : String} {shape : Shape} {role : Variable.Role} {params : Params}
  {inputs : List VariableId}

theorem carried_withDeclared :
    (g.withDeclared name shape role).carried home =
      g.carried home ++ [((g.withOutputs []).rehome home).nextVariable] := by
  rw [nextVariable_rehome, carried, withDeclared, List.map_append]
  rfl

/-- **A declared variable** is declared again. -/
theorem Rebuilds.withDeclared (h : g.Rebuilds home) (hrole : role ≠ .intermediate)
    (hdecl : g.Declarable name shape) : (g.withDeclared name shape role).Rebuilds home := by
  have hagain : ((g.withOutputs []).rehome home).Declarable name shape :=
    Declarable.rehome ⟨hdecl.free, hdecl.rank_le⟩
  have hgraph : ((g.withDeclared name shape role).withOutputs []).rehome home =
      ((g.withOutputs []).rehome home).withDeclared name shape role :=
    rehome_withDeclared (g := g.withOutputs [])
  unfold Rebuilds
  rw [hgraph, carried_withDeclared]
  refine (foldlM_rebuildVariable?_concat (g := g) h).trans ?_
  cases role with
  | input => exact rebuildVariable?_eq rfl (answer_addInput_eq_ok_iff.mpr ⟨hagain, rfl⟩)
  | constant => exact rebuildVariable?_eq rfl (answer_addConstant_eq_ok_iff.mpr ⟨hagain, rfl⟩)
  | intermediate => exact absurd rfl hrole

/-- Variables that were there are made again by the same calls. -/
theorem recreation?_applied (hlinked : g.Linked) {remade : List VariableId} {v : Variable}
    (hv : v ∈ g.vars) :
    (g.applied name params inputs shape).recreation? remade (v.readBy g.nextOperator inputs) =
      g.recreation? remade v := by
  have hproducer : v.producer?.bind (g.applied name params inputs shape).findOperator =
      v.producer?.bind g.findOperator := by
    cases hop : v.producer? with
    | none => rfl
    | some op =>
        obtain ⟨n, hn, -⟩ := hlinked.producer_makes v hv op hop
        rw [Option.bind_some, Option.bind_some, hn, findOperator_applied hn]
  unfold recreation?
  rw [Variable.role_readBy, Variable.producer?_readBy, hproducer]
  rfl

/-- **The variable that an operator makes** is made again by an operator of the same name and
    parameters, reading what was read. -/
theorem recreation?_made (home : GraphId) (hg : g.Minted) (hlt : g.ops.length < UInt32.size)
    (hblank : Text.isBlank name = false) (hvalid : params.Valid)
    (happ : g.Applicable name params inputs shape) :
    ∃ op, (g.applied name params inputs shape).recreation? (g.carried home) (g.made shape) =
      some (.apply op (inputs.map (Id.rehome home))) ∧ op.name? = some name ∧
        op.params = params := by
  obtain ⟨op, hop, hname, hparams⟩ := ofParams_eq_ok hblank hvalid
  have hreads : (g.appliedNode name params inputs).reads.mapM
      (fun i => (g.carried home)[i.position]?) = some (inputs.map (Id.rehome home)) := by
    rw [reads_appliedNode happ.length_inputs]
    exact mapM_eq_some_map fun i hi => getElem?_carried hg (happ.found i hi)
  refine ⟨op, ?_, hname, hparams⟩
  refine Option.bind_eq_some_iff.mpr ⟨_, findOperator_applied_next hlt, ?_⟩
  refine Option.bind_eq_some_iff.mpr ⟨op, toOption_eq_some_iff.mpr hop, ?_⟩
  exact Option.bind_eq_some_iff.mpr ⟨_, hreads, rfl⟩

theorem carried_applied :
    (g.applied name params inputs shape).carried home =
      g.carried home ++ [((g.withOutputs []).rehome home).nextVariable] := by
  rw [nextVariable_rehome, carried, applied, List.map_append, List.map_map]
  rfl

/-- **An applied operator** is applied again. -/
theorem Rebuilds.applied (h : g.Rebuilds home) (hlinked : g.Linked) (hfits : g.Fits)
    (hblank : Text.isBlank name = false) (hvalid : params.Valid)
    (happ : g.Applicable name params inputs shape) :
    (g.applied name params inputs shape).Rebuilds home := by
  have hagain : ((g.withOutputs []).rehome home).Applicable name params
      (inputs.map (Id.rehome home)) shape :=
    Applicable.rehome ⟨happ.length_inputs, happ.free, happ.found, happ.inferred⟩
  have hgraph : ((g.applied name params inputs shape).withOutputs []).rehome home =
      ((g.withOutputs []).rehome home).applied name params (inputs.map (Id.rehome home)) shape := by
    refine rehome_applied (g := g.withOutputs []) (fun v hv => ⟨?_, fun o ho => ?_⟩) fun i hi => ?_
    · exact graph_of_findVariable ⟨v, hlinked.findVariable_id (Nat.le_of_lt hfits.1) hv⟩
    · obtain ⟨n, hn, -⟩ := hlinked.consumer_reads v hv o ho
      exact graph_of_findOperator ⟨n, hn⟩
    · exact graph_of_findVariable (happ.found i hi)
  -- Variables that were there are made again by the calls that did it before.
  have hold : (g.vars.map (Variable.readBy g.nextOperator inputs)).foldlM
      (g.applied name params inputs shape).rebuildVariable? (empty home g.name g.options, []) =
        some ((g.withOutputs []).rehome home, g.carried home) := by
    rw [List.foldlM_map, ← h]
    refine foldlM_congr (fun s v hv => ?_) _
    unfold rebuildVariable?
    rw [recreation?_applied hlinked hv]
  obtain ⟨op, hcall, hname, rfl⟩ :=
    recreation?_made home hlinked.toMinted hfits.2 hblank hvalid happ
  -- The operator has a name now, also where the graph had to choose one.
  have hnamed : ((g.withOutputs []).rehome home).nameFor op = name := by
    unfold nameFor
    rw [hname]
    rfl
  have hminted : ((g.withOutputs []).rehome home).Minted :=
    Minted.rehome ⟨hlinked.variable_id, hlinked.operator_id⟩
  have hroom : ((g.withOutputs []).rehome home).Fits := Fits.rehome hfits
  have hanswer : ((g.withOutputs []).rehome home).answer
      (.apply op (inputs.map (Id.rehome home))) =
        .ok (((g.withOutputs []).rehome home).applied name op.params
            (inputs.map (Id.rehome home)) shape,
          [((g.withOutputs []).rehome home).nextVariable]) := by
    rw [answer_apply_eq_ok_iff hminted (Nat.le_of_lt hroom.1), hnamed]
    exact ⟨shape, hagain, rfl⟩
  unfold Rebuilds
  rw [hgraph, carried_applied]
  exact (foldlM_rebuildVariable?_concat hold).trans (rebuildVariable?_eq hcall hanswer)

end Steps

theorem Grows.rebuilds {g' : Graph} (hgrow : g.Grows g') (h : g.Rebuilds home) (hledger : g.Ledger)
    (hfits : g.Fits) : g'.Rebuilds home := by
  cases hgrow with
  | declared hrole hdecl => exact h.withDeclared hrole hdecl
  | marked => exact h
  | @applied op inputs shape happ =>
      have hblank := nameFor_not_blank hledger.options_valid op
      exact h.applied hledger.toLinked hfits hblank op.params_valid happ

/-- **Runs make nothing that cannot be made again.** -/
theorem rebuilds_run (home id : GraphId) (name : String) {options : Options}
    (hvalid : options.Valid) {calls : List Call} (hfits : ((empty id name options).run calls).Fits) :
    ((empty id name options).run calls).Ledger ∧
      ((empty id name options).run calls).Rebuilds home := by
  refine run_induction (P := fun g => g.Ledger ∧ g.Rebuilds home)
    (fun g c hroom ⟨hledger, hrebuilds⟩ => ⟨hledger.after hroom c, ?_⟩) hfits
    ⟨ledger_empty id name hvalid, rfl⟩
  exact after_induction hledger.toMinted (Nat.le_of_lt hroom.1) c hrebuilds fun _ hgrow =>
    hgrow.rebuilds hrebuilds hledger hroom

/-! ### Outputs -/

/-- **An output** is marked again, after those that are marked already. -/
theorem rebuildOutput?_eq (hg : g.Minted) {done : List VariableId} {i : VariableId}
    (hdone : ∀ j ∈ done, j.graph = g.id) (hfound : ∃ v, g.findVariable i = some v)
    (hnew : i ∉ done) :
    rebuildOutput? (g.carried home) ((g.withOutputs done).rehome home) i =
      some ((g.withOutputs (done ++ [i])).rehome home) := by
  obtain ⟨v, hv⟩ := hfound
  have hgraph : i.graph = g.id := graph_of_findVariable ⟨v, hv⟩
  have hresolves : ((g.withOutputs done).rehome home).findVariable (i.rehome home) =
      some (v.rehome home) := by
    rw [findVariable_rehome (g := g.withOutputs done) hgraph,
      show (g.withOutputs done).findVariable i = some v from hv]
    rfl
  have hagain : i.rehome home ∉ ((g.withOutputs done).rehome home).outputs := by
    intro hmem
    refine hnew ((Id.rehome_mem_map_iff fun j hj => ?_).mp hmem)
    rw [hgraph, hdone j hj]
  have hanswer : ((g.withOutputs done).rehome home).answer (.markOutput (i.rehome home)) =
      .ok ((g.withOutputs (done ++ [i])).rehome home, []) := by
    refine answer_markOutput_eq_ok_iff.mpr ⟨⟨_, hresolves⟩, ?_⟩
    rw [if_neg hagain]
    unfold withOutput rehome withOutputs
    rw [List.map_append]
    rfl
  refine Option.bind_eq_some_iff.mpr ⟨_, getElem?_carried hg ⟨v, hv⟩, ?_⟩
  exact Option.bind_eq_some_iff.mpr ⟨_, toOption_eq_some_iff.mpr hanswer, rfl⟩

theorem rebuildOutputs_eq (hg : g.Minted) (done rest : List VariableId)
    (hfound : ∀ i ∈ done ++ rest, ∃ v, g.findVariable i = some v)
    (hnodup : (done ++ rest).Nodup) :
    rest.foldlM (rebuildOutput? (g.carried home)) ((g.withOutputs done).rehome home) =
      some ((g.withOutputs (done ++ rest)).rehome home) := by
  induction rest generalizing done with
  | nil =>
      rw [List.append_nil]
      rfl
  | cons i rest ih =>
      have hi : ∃ v, g.findVariable i = some v :=
        hfound i (List.mem_append_right _ List.mem_cons_self)
      have hdone : ∀ j ∈ done, j.graph = g.id := fun j hj =>
        graph_of_findVariable (hfound j (List.mem_append_left _ hj))
      -- Outputs are listed once, so what is marked now was not marked before.
      have hnew : i ∉ done := fun hmem =>
        (List.nodup_append.mp hnodup).2.2 i hmem i List.mem_cons_self rfl
      rw [List.append_cons] at hfound hnodup ⊢
      rw [List.foldlM_cons, rebuildOutput?_eq hg hdone hi hnew]
      exact ih (done ++ [i]) hfound hnodup

/-! ## The rebuilt graph -/

theorem Ledger.rebuild?_eq (h : g.Ledger) (hrebuilds : g.Rebuilds home) :
    g.rebuild? home = some (g.rehome home) := by
  have hcreate : create home g.name g.options = .ok (empty home g.name g.options) := by
    unfold create
    rw [Options.validate_eq_ok_iff.mpr h.options_valid]
    rfl
  refine Option.bind_eq_some_iff.mpr ⟨_, toOption_eq_some_iff.mpr hcreate, ?_⟩
  refine Option.bind_eq_some_iff.mpr ⟨_, hrebuilds, ?_⟩
  exact rebuildOutputs_eq h.toMinted [] g.outputs h.output_found h.outputs_nodup

theorem Ledger.variableNamed_rehome (h : g.Ledger) (name : String) :
    (g.rehome home).variableNamed name = (g.variableNamed name).map (Variable.rehome home) := by
  unfold variableNamed
  show ((g.variableIndex.map (Id.rehome home)).find? name).bind _ = _
  rw [NameMap.find?_map]
  cases hi : g.variableIndex.find? name with
  | none => rfl
  | some i =>
      obtain ⟨v, hv, -⟩ := h.variable_entry name i hi
      exact findVariable_rehome (graph_of_findVariable ⟨v, hv⟩)

theorem Ledger.operatorNamed_rehome (h : g.Ledger) (name : String) :
    (g.rehome home).operatorNamed name = (g.operatorNamed name).map (Node.rehome home) := by
  unfold operatorNamed
  show ((g.operatorIndex.map (Id.rehome home)).find? name).bind _ = _
  rw [NameMap.find?_map]
  cases hi : g.operatorIndex.find? name with
  | none => rfl
  | some i =>
      obtain ⟨n, hn, -⟩ := h.operator_entry name i hi
      exact findOperator_rehome (graph_of_findOperator ⟨n, hn⟩)

/-- Both graphs are sorted in the order of application. -/
theorem Ledger.topologicalOrder_rehome (h : g.Ledger) (hagain : (g.rehome home).Ledger)
    (hfits : g.Fits) :
    (g.rehome home).topologicalOrder = g.topologicalOrder.map (Id.rehome home) := by
  rw [h.topologicalOrder_eq hfits, hagain.topologicalOrder_eq hfits.rehome, List.map_map]
  show (g.ops.map (Node.rehome home)).map Node.id = _
  rw [List.map_map]
  rfl

theorem Ledger.listing_rehome (h : g.Ledger) (hagain : (g.rehome home).Ledger) (hfits : g.Fits) :
    (g.rehome home).listing = g.listing := by
  refine Graph.listing_rehome h.toWellFormed (h.topologicalOrder_rehome hagain hfits) ?_
  rw [h.topologicalOrder_eq hfits]
  intro i hi
  obtain ⟨n, hn, rfl⟩ := List.mem_map.mp hi
  exact ⟨n, h.findOperator_id (Nat.le_of_lt hfits.2) hn⟩

/-- **Every graph that calls made can be made again** from what it shows. No call is refused, and
    the graph in the end is the first one with its ids carried over: names lead to the same
    variables and operators, and listing and layout are the same. -/
theorem rebuild_eq_rehome (hreach : g.Reachable) (hfits : g.Fits) (home : GraphId) :
    g.rebuild? home = some (g.rehome home) ∧
      (∀ name, (g.rehome home).variableNamed name =
        (g.variableNamed name).map (Variable.rehome home)) ∧
      (∀ name, (g.rehome home).operatorNamed name =
        (g.operatorNamed name).map (Node.rehome home)) ∧
      (g.rehome home).listing = g.listing ∧
      WeightLayout.ofGraph (g.rehome home) = WeightLayout.ofGraph g := by
  obtain ⟨id, name, options, calls, hvalid, rfl⟩ := hreach
  obtain ⟨hledger, hrebuilds⟩ := rebuilds_run home id name hvalid hfits
  have hrebuild := hledger.rebuild?_eq hrebuilds
  -- The rebuilt graph is reached by calls too, so it has the same order for the same reason.
  obtain ⟨id', name', options', calls', hvalid', hrun⟩ :=
    reachable_of_rebuild? hledger.options_valid hrebuild
  have hagain : (((empty id name options).run calls).rehome home).Ledger := by
    rw [hrun]
    exact ledger_run id' name' hvalid' (hrun ▸ hfits.rehome)
  exact ⟨hrebuild, hledger.variableNamed_rehome, hledger.operatorNamed_rehome,
    hledger.listing_rehome hagain hfits, layout_rehome⟩

theorem rebuild_eq_rehome_mixed :
    ((empty ⟨0⟩ "mixed").run mixedCalls).rebuild? ⟨7⟩ =
        some (((empty ⟨0⟩ "mixed").run mixedCalls).rehome ⟨7⟩) ∧
      (((empty ⟨0⟩ "mixed").run mixedCalls).rehome ⟨7⟩).listing =
        ((empty ⟨0⟩ "mixed").run mixedCalls).listing := by
  have hreach : ((empty ⟨0⟩ "mixed").run mixedCalls).Reachable :=
    ⟨⟨0⟩, "mixed", {}, mixedCalls, by decide, rfl⟩
  obtain ⟨hrebuild, -, -, hlisting, -⟩ :=
    rebuild_eq_rehome hreach ⟨by decide, by decide⟩ ⟨7⟩
  exact ⟨hrebuild, hlisting⟩

end Graph

end TensorGraph
