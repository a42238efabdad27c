import TensorGraph.Proofs.AppendOnly
import TensorGraph.Proofs.ForeignIds
import TensorGraph.Proofs.Renaming

/-!
# `TensorGraph.Proofs.Commuting` — **independent applications commute**

Two operators with names of their own that read what is already in the graph do not depend on each
other: applying one changes no shape that the other looks at and takes no name from it. Each comes
to the same in either order. The two orders differ in which of the two is entered first, and
exchanging the two entries leads from one graph to the other.

## Contents
- **What an application comes to**: `outcome`.
- **Checks** do not notice another application.
- **Two applications in a row**, part by part, and `exchanged_applied_applied`.
- **Either order**: `apply_commutes`.
-/

namespace TensorGraph

open Checks

namespace Graph

variable {g : Graph}

/-- Graphs that agree in all parts are equal. -/
theorem ext_parts {g g' : Graph} (hid : g.id = g'.id) (hname : g.name = g'.name)
    (hoptions : g.options = g'.options) (hvars : g.vars = g'.vars) (hops : g.ops = g'.ops)
    (hoperatorIndex : g.operatorIndex = g'.operatorIndex)
    (hvariableIndex : g.variableIndex = g'.variableIndex) (hinputs : g.inputs = g'.inputs)
    (houtputs : g.outputs = g'.outputs) : g = g' := by
  cases g
  cases g'
  simp_all

/-! ## What an application comes to -/

/-- The error of an application, or the shapes of what it makes. -/
def outcome (g : Graph) (op : Operator) (inputs : List VariableId) :
    Except ApplyError (List Shape) :=
  (g.apply op inputs).map fun r => r.1.shapesOf r.2

/-- What an application comes to is what its checks say. -/
theorem outcome_eq (hg : g.Minted) (hlt : g.vars.length < UInt32.size) (op : Operator)
    (inputs : List VariableId) :
    g.outcome op inputs =
      (g.applyCheck (g.nameFor op) op.params inputs).mapError (ApplyError.mk (g.nameFor op)) := by
  cases hcheck : g.applyCheck (g.nameFor op) op.params inputs with
  | error fault =>
      rw [outcome, apply_eq_error_iff.mpr ⟨fault, hcheck, rfl⟩]
      rfl
  | ok shapes =>
      obtain ⟨shape, rfl, happ⟩ := applyCheck_eq_ok_iff.mp hcheck
      rw [outcome, (apply_eq_ok_iff hg (Nat.le_of_lt hlt)).mpr ⟨shape, happ, rfl⟩]
      have hmade : (g.applied (g.nameFor op) op.params inputs shape).shapesOf [g.nextVariable] =
          [shape] :=
        List.filterMap_cons_some (by rw [findVariable_applied_next hlt]; rfl)
      exact congrArg Except.ok hmade

/-! ## Checks -/

section Applied

variable {name other : String} {params rest : Params} {xs ys : List VariableId} {s t : Shape}

theorem inputShape_applied {slot : String × VariableId}
    (hfound : ∃ v, g.findVariable slot.2 = some v) :
    (g.applied name params xs s).inputShape slot = g.inputShape slot := by
  obtain ⟨v, hv⟩ := hfound
  rw [inputShape, inputShape, hv, findVariable_applied hv]
  rfl

/-- **Checks do not notice** that another operator was applied, if it has another name and what
    they look at was there before. -/
theorem applyCheck_applied (hne : other ≠ name)
    (hfound : ∀ i ∈ ys, ∃ v, g.findVariable i = some v) :
    (g.applied name params xs s).applyCheck other rest ys = g.applyCheck other rest ys := by
  have hname : (g.applied name params xs s).operatorIndex.contains other =
      g.operatorIndex.contains other := by
    rw [NameMap.contains, NameMap.contains, applied, NameMap.find?_insert, if_neg hne]
  have hshapes : (rest.kind.inputSlots.zip ys).mapM (g.applied name params xs s).inputShape =
      (rest.kind.inputSlots.zip ys).mapM g.inputShape :=
    mapM_congr fun slot hslot => inputShape_applied (hfound slot.2 (List.of_mem_zip hslot).2)
  unfold applyCheck
  dsimp only
  rw [hname, hshapes]

end Applied

/-! ## Two applications in a row -/

/-- The variable at a position that the operator at a position makes. -/
def madeAt (home : GraphId) (m n : Nat) (shape : Shape) : Variable where
  id := Id.mint home m
  name? := none
  shape := shape
  role := .intermediate
  producer? := some (Id.mint home n)
  consumers := []

/-- The operator at a position that makes the variable at a position. -/
def nodeAt (home : GraphId) (m n : Nat) (name : String) (params : Params)
    (inputs : List VariableId) : Node where
  id := Id.mint home n
  name := name
  params := params
  inputs := params.kind.inputSlots.zip inputs
  outputs := [("y", Id.mint home m)]

section RenamedEntries

variable {ρ : Renaming} {home : GraphId} {m m' n n' : Nat}

theorem renamed_madeAt (hvar : ρ.vars (Id.mint home m) = Id.mint home m')
    (hop : ρ.ops (Id.mint home n) = Id.mint home n') (shape : Shape) :
    (madeAt home m n shape).renamed ρ = madeAt home m' n' shape := by
  rw [Variable.renamed]
  simp only [madeAt, hvar, hop, Option.map_some, List.map_nil]

theorem renamed_nodeAt (hvar : ρ.vars (Id.mint home m) = Id.mint home m')
    (hop : ρ.ops (Id.mint home n) = Id.mint home n') (name : String) {params : Params}
    {inputs : List VariableId} (hinputs : ∀ i ∈ inputs, ρ.vars i = i) :
    (nodeAt home m n name params inputs).renamed ρ = nodeAt home m' n' name params inputs := by
  have hslots : ρ.slots (params.kind.inputSlots.zip inputs) = params.kind.inputSlots.zip inputs :=
    Renaming.slots_eq_self fun i hi => by
      obtain ⟨slot, hslot, rfl⟩ := List.mem_map.mp hi
      exact hinputs slot.2 (List.of_mem_zip hslot).2
  rw [Node.renamed]
  simp only [nodeAt, hslots, hop]
  rw [Renaming.slots, List.map_singleton, hvar]

end RenamedEntries

section Twice

variable {p q : OperatorId} {na nb : String} {pa pb : Params} {xs ys : List VariableId}
  {s t : Shape}

/-- Readers that are entered one after the other, if neither is there yet. -/
theorem readBy_readBy {v : Variable} (hpq : p ≠ q) (hp : p ∉ v.consumers) (hq : q ∉ v.consumers) :
    (v.readBy p xs).readBy q ys =
      { v with
        consumers := v.consumers ++
          ((if v.id ∈ xs then [p] else []) ++ if v.id ∈ ys then [q] else []) } := by
  have hnew : q ∉ (v.readBy p xs).consumers := by
    rw [Variable.mem_consumers_readBy]
    rintro (hold | ⟨heq, -⟩)
    · exact hq hold
    · exact hpq heq.symm
  have hconsumers : ((v.readBy p xs).readBy q ys).consumers =
      (v.readBy p xs).consumers ++ if (v.readBy p xs).id ∈ ys then [q] else [] :=
    Variable.consumers_readBy hnew
  rw [Variable.consumers_readBy hp, Variable.id_readBy, List.append_assoc] at hconsumers
  rw [← hconsumers]
  rfl

/-- **Readers entered in one order**, renamed and exchanged, are readers entered in the other. -/
theorem exchangeReaders_readBy_readBy {ρ : Renaming} {v : Variable} (hpq : p ≠ q)
    (hp : p ∉ v.consumers) (hq : q ∉ v.consumers) (hρp : ρ.ops p = q) (hρq : ρ.ops q = p)
    (hfix : v.renamed ρ = v) :
    (((v.readBy p xs).readBy q ys).renamed ρ).exchangeReaders q p =
      (v.readBy p ys).readBy q xs := by
  have hid : ρ.vars v.id = v.id := congrArg Variable.id hfix
  have hproducer : v.producer?.map ρ.ops = v.producer? := congrArg Variable.producer? hfix
  have hold : v.consumers.map ρ.ops = v.consumers := congrArg Variable.consumers hfix
  rw [readBy_readBy hpq hp hq, readBy_readBy hpq hp hq, Variable.renamed,
    Variable.exchangeReaders]
  simp only [hid, hproducer, List.map_append, hold]
  congr 1
  -- Both, one or none of the two read the variable; only two readers change places.
  by_cases hx : v.id ∈ xs <;> by_cases hy : v.id ∈ ys
  · simp only [hx, hy, if_true, List.map_singleton, hρp, hρq]
    exact exchangeEnd_append q p v.consumers
  · simp only [hx, hy, if_true, if_false, List.map_singleton, List.map_nil, hρp, List.append_nil,
      List.nil_append]
    exact exchangeEnd_of_right_not_mem (by simp [hp, hpq])
  · simp only [hx, hy, if_true, if_false, List.map_singleton, List.map_nil, hρq, List.append_nil,
      List.nil_append]
    exact exchangeEnd_of_left_not_mem (by simp [hq, hpq.symm])
  · simp only [hx, hy, if_false, List.map_nil, List.append_nil]
    exact exchangeEnd_of_left_not_mem hq

/-! ### Part by part -/

theorem nextOperator_applied :
    (g.applied na pa xs s).nextOperator = Id.mint g.id (g.ops.length + 1) := by
  rw [nextOperator, applied, List.length_append]
  rfl

theorem nextVariable_applied :
    (g.applied na pa xs s).nextVariable = Id.mint g.id (g.vars.length + 1) := by
  rw [nextVariable, applied, List.length_append, List.length_map]
  rfl

theorem vars_applied_applied (hlt : g.vars.length < UInt32.size)
    (hys : ∀ i ∈ ys, ∃ v, g.findVariable i = some v) :
    ((g.applied na pa xs s).applied nb pb ys t).vars =
      (g.vars.map fun v =>
        (v.readBy (Id.mint g.id g.ops.length) xs).readBy (Id.mint g.id (g.ops.length + 1)) ys) ++
      [madeAt g.id g.vars.length g.ops.length s,
        madeAt g.id (g.vars.length + 1) (g.ops.length + 1) t] := by
  -- What the first operator makes is not among what the second one reads.
  have hunread : g.nextVariable ∉ ys := fun hmem => by
    obtain ⟨v, hv⟩ := hys _ hmem
    exact nextVariable_ne_of_findVariable hlt hv rfl
  have hfirst : (g.made s).readBy (Id.mint g.id (g.ops.length + 1)) ys = g.made s := by
    rw [Variable.readBy_eq]
    exact if_neg hunread
  have hsecond : (g.applied na pa xs s).made t =
      madeAt g.id (g.vars.length + 1) (g.ops.length + 1) t := by
    rw [made, nextVariable_applied, nextOperator_applied]
    rfl
  show (g.vars.map (Variable.readBy g.nextOperator xs) ++ [g.made s]).map
    (Variable.readBy (g.applied na pa xs s).nextOperator ys) ++ [(g.applied na pa xs s).made t] = _
  rw [nextOperator_applied, hsecond, List.map_append, List.map_singleton, hfirst, List.map_map,
    List.append_assoc]
  rfl

theorem ops_applied_applied :
    ((g.applied na pa xs s).applied nb pb ys t).ops =
      g.ops ++ [nodeAt g.id g.vars.length g.ops.length na pa xs,
        nodeAt g.id (g.vars.length + 1) (g.ops.length + 1) nb pb ys] := by
  show (g.ops ++ [g.appliedNode na pa xs]) ++ [(g.applied na pa xs s).appliedNode nb pb ys] = _
  rw [appliedNode, appliedNode, nextVariable_applied, nextOperator_applied, List.append_assoc]
  rfl

theorem operatorIndex_applied_applied :
    ((g.applied na pa xs s).applied nb pb ys t).operatorIndex =
      (g.operatorIndex.insert na (Id.mint g.id g.ops.length)).insert nb
        (Id.mint g.id (g.ops.length + 1)) := by
  show (g.operatorIndex.insert na g.nextOperator).insert nb
    (g.applied na pa xs s).nextOperator = _
  rw [nextOperator_applied]
  rfl

/-! ### Exchanged -/

theorem vars_exchanged_applied_applied (h : g.Ledger) (hvars : g.vars.length + 1 < UInt32.size)
    (hops : g.ops.length + 1 < UInt32.size) (hxs : ∀ i ∈ xs, ∃ v, g.findVariable i = some v)
    (hys : ∀ i ∈ ys, ∃ v, g.findVariable i = some v) :
    (((g.applied na pa xs s).applied nb pb ys t).exchanged g.vars.length g.ops.length).vars =
      ((g.applied nb pb ys t).applied na pa xs s).vars := by
  have hfits : g.Fits := ⟨by omega, by omega⟩
  have hfix := fixedBy_neighbours hvars hops
  have hne : (Id.mint g.id g.ops.length : OperatorId) ≠ Id.mint g.id (g.ops.length + 1) :=
    mint_ne_mint_succ hops
  show (Edit.swap (((g.applied na pa xs s).applied nb pb ys t).vars.map
    (Variable.renamed (.neighbours g.id g.vars.length g.ops.length))) g.vars.length
      (g.vars.length + 1)).map (Variable.exchangeReaders
        (Id.mint g.id (g.ops.length + 1)) (Id.mint g.id g.ops.length)) = _
  rw [vars_applied_applied hfits.1 hys, vars_applied_applied hfits.1 hxs, List.map_append,
    List.map_map, List.map_cons, List.map_singleton,
    renamed_madeAt neighbours_vars_left neighbours_ops_left,
    renamed_madeAt neighbours_vars_right neighbours_ops_right,
    Edit.swap_append (List.length_map _), List.map_append, List.map_map]
  congr 1
  refine List.map_congr_left fun v hv => ?_
  -- The renaming moves both operators, so neither is among the readers that were there before.
  have hleft : Id.mint g.id g.ops.length ∉ v.consumers :=
    hfix.not_mem_consumers h hv (by rw [neighbours_ops_left]; exact hne.symm)
  have hright : Id.mint g.id (g.ops.length + 1) ∉ v.consumers :=
    hfix.not_mem_consumers h hv (by rw [neighbours_ops_right]; exact hne)
  exact exchangeReaders_readBy_readBy hne hleft hright neighbours_ops_left neighbours_ops_right
    (hfix.variable h hfits hv)

theorem ops_exchanged_applied_applied (h : g.Ledger) (hvars : g.vars.length + 1 < UInt32.size)
    (hops : g.ops.length + 1 < UInt32.size) (hxs : ∀ i ∈ xs, ∃ v, g.findVariable i = some v)
    (hys : ∀ i ∈ ys, ∃ v, g.findVariable i = some v) :
    (((g.applied na pa xs s).applied nb pb ys t).exchanged g.vars.length g.ops.length).ops =
      ((g.applied nb pb ys t).applied na pa xs s).ops := by
  have hfits : g.Fits := ⟨by omega, by omega⟩
  have hfix := fixedBy_neighbours hvars hops
  have hold := congrArg Graph.ops (hfix.renamed_eq_self h hfits)
  have hxsFixed := fun i hi => (hxs i hi).elim (hfix.vars i)
  have hysFixed := fun i hi => (hys i hi).elim (hfix.vars i)
  show Edit.swap (((g.applied na pa xs s).applied nb pb ys t).ops.map
    (Node.renamed (.neighbours g.id g.vars.length g.ops.length))) g.ops.length
      (g.ops.length + 1) = _
  rw [ops_applied_applied, ops_applied_applied, List.map_append, List.map_cons,
    List.map_singleton, renamed_nodeAt neighbours_vars_left neighbours_ops_left na hxsFixed,
    renamed_nodeAt neighbours_vars_right neighbours_ops_right nb hysFixed,
    show g.ops.map (Node.renamed _) = g.ops from hold, Edit.swap_append rfl]

theorem operatorIndex_exchanged_applied_applied (h : g.Ledger)
    (hvars : g.vars.length + 1 < UInt32.size) (hops : g.ops.length + 1 < UInt32.size)
    (hne : na ≠ nb) :
    (((g.applied na pa xs s).applied nb pb ys t).exchanged g.vars.length
        g.ops.length).operatorIndex =
      ((g.applied nb pb ys t).applied na pa xs s).operatorIndex := by
  have hfits : g.Fits := ⟨by omega, by omega⟩
  have hold := congrArg Graph.operatorIndex
    ((fixedBy_neighbours hvars hops).renamed_eq_self h hfits)
  show ((g.applied na pa xs s).applied nb pb ys t).operatorIndex.map
    (Renaming.neighbours g.id g.vars.length g.ops.length).ops = _
  rw [operatorIndex_applied_applied, operatorIndex_applied_applied, NameMap.map_insert,
    NameMap.map_insert, neighbours_ops_left, neighbours_ops_right,
    show g.operatorIndex.map _ = g.operatorIndex from hold]
  exact NameMap.insert_comm hne _ _

/-- **Exchanging the two entries** leads from one order to the other. -/
theorem exchanged_applied_applied (h : g.Ledger) (hvars : g.vars.length + 1 < UInt32.size)
    (hops : g.ops.length + 1 < UInt32.size) (hne : na ≠ nb)
    (hxs : ∀ i ∈ xs, ∃ v, g.findVariable i = some v)
    (hys : ∀ i ∈ ys, ∃ v, g.findVariable i = some v) :
    ((g.applied na pa xs s).applied nb pb ys t).exchanged g.vars.length g.ops.length =
      (g.applied nb pb ys t).applied na pa xs s := by
  have hfits : g.Fits := ⟨by omega, by omega⟩
  -- The names of variables, the inputs and the outputs are as they were in `g`.
  have hself := (fixedBy_neighbours hvars hops).renamed_eq_self h hfits
  have hvariableIndex := congrArg Graph.variableIndex hself
  have hinputs := congrArg Graph.inputs hself
  have houtputs := congrArg Graph.outputs hself
  exact ext_parts rfl rfl rfl (vars_exchanged_applied_applied h hvars hops hxs hys)
    (ops_exchanged_applied_applied h hvars hops hxs hys)
    (operatorIndex_exchanged_applied_applied h hvars hops hne) hvariableIndex hinputs houtputs

end Twice

/-! ## Either order -/

section EitherOrder

variable {a b : Operator} {xs ys : List VariableId}

/-- An application that fails leaves the graph as it was, and one that succeeds enters an
    operator. -/
theorem after_apply_cases (hg : g.Minted) (hlt : g.vars.length < UInt32.size) (op : Operator)
    (inputs : List VariableId) :
    ((∃ e, g.outcome op inputs = .error e) ∧ g.after (.apply op inputs) = g) ∨
      ∃ shape, g.outcome op inputs = .ok [shape] ∧
        g.after (.apply op inputs) = g.applied (g.nameFor op) op.params inputs shape := by
  rw [outcome_eq hg hlt]
  cases hcheck : g.applyCheck (g.nameFor op) op.params inputs with
  | error fault =>
      exact Or.inl ⟨⟨_, rfl⟩, after_of_error (answer_apply_of_applyCheck hcheck).1⟩
  | ok shapes =>
      obtain ⟨shape, rfl, happ⟩ := applyCheck_eq_ok_iff.mp hcheck
      exact Or.inr ⟨shape, rfl, after_of_answer
        ((answer_apply_eq_ok_iff hg (Nat.le_of_lt hlt)).mpr ⟨shape, happ, rfl⟩)⟩

theorem after_of_outcome_error (hg : g.Minted) (hlt : g.vars.length < UInt32.size) {op : Operator}
    {inputs : List VariableId} {e : ApplyError} (h : g.outcome op inputs = .error e) :
    g.after (.apply op inputs) = g := by
  rcases after_apply_cases hg hlt op inputs with ⟨-, hsame⟩ | ⟨shape, hok, -⟩
  · exact hsame
  · rw [h] at hok
    cases hok

theorem after_of_outcome_ok (hg : g.Minted) (hlt : g.vars.length < UInt32.size) {op : Operator}
    {inputs : List VariableId} {shapes : List Shape} (h : g.outcome op inputs = .ok shapes) :
    ∃ shape, shapes = [shape] ∧
      g.after (.apply op inputs) = g.applied (g.nameFor op) op.params inputs shape := by
  rcases after_apply_cases hg hlt op inputs with ⟨⟨e, herror⟩, -⟩ | ⟨shape, hok, hgrown⟩
  · rw [h] at herror
    cases herror
  · rw [h] at hok
    cases hok
    exact ⟨shape, rfl, hgrown⟩

/-- After an application there is room for one entry less. -/
theorem minted_after_apply (hg : g.Minted) (hlt : g.vars.length + 1 < UInt32.size) (op : Operator)
    (inputs : List VariableId) :
    (g.after (.apply op inputs)).Minted ∧
      (g.after (.apply op inputs)).vars.length < UInt32.size := by
  rcases after_apply_cases hg (by omega) op inputs with ⟨-, hsame⟩ | ⟨shape, -, hgrown⟩
  · rw [hsame]
    exact ⟨hg, by omega⟩
  · rw [hgrown]
    refine ⟨minted_applied hg _ _ _ _, ?_⟩
    rw [applied, List.length_append, List.length_map]
    exact hlt

/-- **An application comes to the same** after one with another name, if what it reads was there
    before. -/
theorem outcome_after_apply (hg : g.Minted) (hlt : g.vars.length + 1 < UInt32.size)
    {na nb : String} (ha : a.name? = some na) (hb : b.name? = some nb) (hne : na ≠ nb)
    (hys : ∀ i ∈ ys, ∃ v, g.findVariable i = some v) :
    (g.after (.apply a xs)).outcome b ys = g.outcome b ys := by
  obtain ⟨hg', hlt'⟩ := minted_after_apply hg hlt a xs
  rw [outcome_eq hg' hlt', outcome_eq hg (by omega), nameFor_of_some hb, nameFor_of_some hb]
  rcases after_apply_cases hg (by omega) a xs with ⟨-, hsame⟩ | ⟨s, -, hgrown⟩
  · rw [hsame]
  · rw [hgrown, nameFor_of_some ha, applyCheck_applied hne.symm hys]

/-- After an application that fails, the order of two does not matter. -/
theorem run_eq_of_outcome_error (hg : g.Minted) (hlt : g.vars.length + 1 < UInt32.size)
    {e : ApplyError} (h : g.outcome a xs = .error e)
    (hafter : (g.after (.apply b ys)).outcome a xs = g.outcome a xs) :
    g.run [.apply a xs, .apply b ys] = g.run [.apply b ys, .apply a xs] := by
  obtain ⟨hg', hlt'⟩ := minted_after_apply hg hlt b ys
  show (g.after (.apply a xs)).after (.apply b ys) = (g.after (.apply b ys)).after (.apply a xs)
  rw [after_of_outcome_error hg (by omega) h, after_of_outcome_error hg' hlt' (hafter.trans h)]

/-- Two applications that succeed enter two operators. -/
theorem run_eq_of_outcome_ok (hg : g.Minted) (hlt : g.vars.length + 1 < UInt32.size)
    {na nb : String} (ha : a.name? = some na) (hb : b.name? = some nb) {s t : Shape}
    (hs : g.outcome a xs = .ok [s]) (ht : (g.after (.apply a xs)).outcome b ys = .ok [t]) :
    g.run [.apply a xs, .apply b ys] =
      (g.applied na a.params xs s).applied nb b.params ys t := by
  obtain ⟨hg', hlt'⟩ := minted_after_apply hg hlt a xs
  obtain ⟨s', hs', hfirst⟩ := after_of_outcome_ok hg (by omega) hs
  obtain ⟨t', ht', hsecond⟩ := after_of_outcome_ok hg' hlt' ht
  cases hs'
  cases ht'
  show (g.after (.apply a xs)).after (.apply b ys) = _
  rw [hsecond, nameFor_of_some hb, hfirst, nameFor_of_some ha]

/-- **Independent applications commute.** On a graph that calls have made and that has room for two
    more entries, take two operators with different names of their own that read variables of the
    graph. Each comes to the same error or the same shape, whichever is applied first. Unless both
    succeed, both orders end in the same graph; if both do, exchanging the two new operators and
    the two new variables leads from one graph to the other. -/
theorem apply_commutes (hg : g.Reachable) (hvars : g.vars.length < UInt32.size - 1)
    (hops : g.ops.length < UInt32.size - 1) {na nb : String} (ha : a.name? = some na)
    (hb : b.name? = some nb) (hne : na ≠ nb)
    (hxs : ∀ i ∈ xs, ∃ v, g.findVariable i = some v)
    (hys : ∀ i ∈ ys, ∃ v, g.findVariable i = some v) :
    (g.after (.apply b ys)).outcome a xs = g.outcome a xs ∧
      (g.after (.apply a xs)).outcome b ys = g.outcome b ys ∧
      ((∃ e, g.outcome a xs = .error e) ∨ (∃ e, g.outcome b ys = .error e) →
        g.run [.apply a xs, .apply b ys] = g.run [.apply b ys, .apply a xs]) ∧
      ∀ s t, g.outcome a xs = .ok s → g.outcome b ys = .ok t →
        (g.run [.apply a xs, .apply b ys]).exchanged g.vars.length g.ops.length =
          g.run [.apply b ys, .apply a xs] := by
  have hfits : g.Fits := ⟨by omega, by omega⟩
  have hledger := hg.ledger hfits
  have hminted : g.Minted := hledger.toMinted
  have hroom : g.vars.length + 1 < UInt32.size := by omega
  have hfirst : (g.after (.apply b ys)).outcome a xs = g.outcome a xs :=
    outcome_after_apply hminted hroom hb ha hne.symm hxs
  have hsecond : (g.after (.apply a xs)).outcome b ys = g.outcome b ys :=
    outcome_after_apply hminted hroom ha hb hne hys
  refine ⟨hfirst, hsecond, ?_, fun s t hs ht => ?_⟩
  · rintro (⟨e, he⟩ | ⟨e, he⟩)
    · exact run_eq_of_outcome_error hminted hroom he hfirst
    · exact (run_eq_of_outcome_error hminted hroom he hsecond).symm
  · obtain ⟨s, rfl, -⟩ := after_of_outcome_ok hminted hfits.1 hs
    obtain ⟨t, rfl, -⟩ := after_of_outcome_ok hminted hfits.1 ht
    rw [run_eq_of_outcome_ok hminted hroom ha hb hs (hsecond.trans ht),
      run_eq_of_outcome_ok hminted hroom hb ha ht (hfirst.trans hs)]
    exact exchanged_applied_applied hledger hroom (by omega) hne hxs hys

end EitherOrder

/-- Two inputs of different shapes. -/
def twoInputs : Graph :=
  (empty ⟨0⟩ "inputs").run [.addInput "x" twoChannels, .addInput "y" threeChannels]

/-- The sum of two inputs. -/
def summing : Operator := .named "total" .elementwiseSum (by decide) Params.valid_elementwiseSum

/-- The positive part of an input. -/
def rectifying : Operator :=
  .named "relu" (.activation .relu) (by decide) (Params.valid_activation _)

/-- Doubling an input and rectifying it commute up to an exchange, and adding the other input, which
    is refused, can be tried before or after rectifying. -/
theorem apply_commutes_two_inputs :
    (twoInputs.run [.apply summing [⟨⟨0⟩, 0⟩, ⟨⟨0⟩, 0⟩],
          .apply rectifying [⟨⟨0⟩, 0⟩]]).exchanged 2 0 =
        twoInputs.run [.apply rectifying [⟨⟨0⟩, 0⟩], .apply summing [⟨⟨0⟩, 0⟩, ⟨⟨0⟩, 0⟩]] ∧
      twoInputs.run [.apply summing [⟨⟨0⟩, 0⟩, ⟨⟨0⟩, 1⟩], .apply rectifying [⟨⟨0⟩, 0⟩]] =
        twoInputs.run [.apply rectifying [⟨⟨0⟩, 0⟩], .apply summing [⟨⟨0⟩, 0⟩, ⟨⟨0⟩, 1⟩]] := by
  have hreach : twoInputs.Reachable := ⟨⟨0⟩, "inputs", {}, _, by decide, rfl⟩
  have hvars : twoInputs.vars.length < UInt32.size - 1 := by decide
  have hops : twoInputs.ops.length < UInt32.size - 1 := by decide
  have hfound : ∀ i : VariableId, (twoInputs.findVariable i).isSome → ∃ v,
      twoInputs.findVariable i = some v := fun _ => Option.isSome_iff_exists.mp
  have hrect : ∀ i ∈ [⟨⟨0⟩, 0⟩], ∃ v, twoInputs.findVariable i = some v := fun i hi =>
    hfound i (by rw [List.mem_singleton.mp hi]; decide)
  constructor
  · have hdouble : ∀ i ∈ [⟨⟨0⟩, 0⟩, ⟨⟨0⟩, 0⟩], ∃ v, twoInputs.findVariable i = some v :=
      fun i hi => hrect i (by simpa using hi)
    obtain ⟨-, -, -, hboth⟩ := apply_commutes (a := summing) (b := rectifying) hreach hvars hops
      rfl rfl (by decide) hdouble hrect
    exact hboth [twoChannels] [twoChannels] (by decide) (by decide)
  · have hmixed : ∀ i ∈ [⟨⟨0⟩, 0⟩, ⟨⟨0⟩, 1⟩], ∃ v, twoInputs.findVariable i = some v :=
      fun i hi => hfound i (by
        rcases List.mem_pair.mp hi with rfl | rfl <;> decide)
    obtain ⟨-, -, hone, -⟩ := apply_commutes (a := summing) (b := rectifying) hreach hvars hops
      rfl rfl (by decide) hmixed hrect
    have hfails : (twoInputs.outcome summing [⟨⟨0⟩, 0⟩, ⟨⟨0⟩, 1⟩]).isOk = false := by decide
    cases herror : twoInputs.outcome summing [⟨⟨0⟩, 0⟩, ⟨⟨0⟩, 1⟩] with
    | error e => exact hone (Or.inl ⟨e, herror⟩)
    | ok shapes =>
        rw [herror] at hfails
        cases hfails

end Graph

end TensorGraph
