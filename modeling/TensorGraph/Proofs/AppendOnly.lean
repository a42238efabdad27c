import TensorGraph.Proofs.AtomicCalls
import TensorGraph.Proofs.Bookkeeping

/-!
# `TensorGraph.Proofs.AppendOnly` — **graphs grow at the end**

A call that is refused leaves no trace, even where the graph is changed in place. One that succeeds
puts something behind what is there: a variable, an operator, an input, an output, and the new
operator behind the consumers of what it reads. Nothing else that an id or a name leads to changes,
whatever comes later.

## Contents
- **Consumers put at the end**, `Variable.withConsumers`.
- **`GrownBy`**, what a call that succeeds does to all that is there.
- **`Extends`**, what is left of that after any number of calls.
-/

namespace TensorGraph

/-! ## Consumers put at the end -/

namespace Variable

/-- The variable with consumers put behind those that it has. -/
def withConsumers (v : Variable) (more : List OperatorId) : Variable :=
  { v with consumers := v.consumers ++ more }

@[simp] theorem withConsumers_nil (v : Variable) : v.withConsumers [] = v := by
  rw [withConsumers, List.append_nil]

theorem withConsumers_withConsumers (v : Variable) (more later : List OperatorId) :
    (v.withConsumers more).withConsumers later = v.withConsumers (more ++ later) := by
  simp only [withConsumers, List.append_assoc]

/-- A new operator is put behind the consumers of what it reads. -/
theorem readBy_eq_withConsumers {v : Variable} {op : OperatorId} {inputs : List VariableId}
    (hnew : op ∉ v.consumers) :
    v.readBy op inputs = v.withConsumers (if v.id ∈ inputs then [op] else []) := by
  rw [withConsumers, ← consumers_readBy hnew]
  rfl

end Variable

/-- What the operator that a call applies is to read. -/
def Call.reads : Call → List VariableId
  | .apply _ inputs | .applyOne _ inputs => inputs
  | .addInput .. | .addConstant .. | .markOutput _ => []

/-- The call applies an operator. -/
def Call.applies : Call → Bool
  | .apply .. | .applyOne .. => true
  | .addInput .. | .addConstant .. | .markOutput _ => false

namespace Graph

open InPlace (exec perform)

variable {g g' g'' : Graph} {c : Call}

/-! ## What a call does -/

/-- **Growth at the end.** The consumers of an earlier variable are the only thing about it that a
    call changes. -/
structure GrownBy (g : Graph) (c : Call) (g' : Graph) : Prop where
  identity : g'.id = g.id ∧ g'.name = g.name ∧ g'.options = g.options
  /-- The new operator is put behind the consumers of the variables that the call reads. -/
  vars : ∃ new : Option Variable, g'.vars =
    (g.vars.map fun v => v.withConsumers (if v.id ∈ c.reads then [g.nextOperator] else [])) ++
      new.toList
  ops : ∃ new : Option Node, g'.ops = g.ops ++ new.toList ∧ new.isSome = c.applies ∧
    ∀ n ∈ new, n.id = g.nextOperator ∧ n.reads = c.reads
  variableIndex : ∀ name i, g.variableIndex.find? name = some i →
    g'.variableIndex.find? name = some i
  operatorIndex : ∀ name i, g.operatorIndex.find? name = some i →
    g'.operatorIndex.find? name = some i
  inputs : ∃ new : Option VariableId, g'.inputs = g.inputs ++ new.toList
  outputs : ∃ new : Option VariableId, g'.outputs = g.outputs ++ new.toList

/-- A name in use is not the one that was free. -/
theorem find?_insert_of_free {α : Type} {m : NameMap α} {name old : String} {i j : α}
    (hfree : m.find? name = none) (hold : m.find? old = some j) :
    (m.insert name i).find? old = some j := by
  rw [NameMap.find?_insert, if_neg]
  · exact hold
  · rintro rfl
    rw [hfree] at hold
    cases hold

theorem map_withConsumers_of_reads (hreads : c.reads = []) (vars : List Variable)
    (op : OperatorId) :
    vars.map (fun v => v.withConsumers (if v.id ∈ c.reads then [op] else [])) = vars := by
  simp [hreads]

theorem GrownBy.of_same (hreads : c.reads = []) (happlies : c.applies = false) : g.GrownBy c g where
  identity := ⟨rfl, rfl, rfl⟩
  vars := ⟨none, by rw [map_withConsumers_of_reads hreads]; simp⟩
  ops := ⟨none, by simp, happlies.symm, nofun⟩
  variableIndex _ _ h := h
  operatorIndex _ _ h := h
  inputs := ⟨none, by simp⟩
  outputs := ⟨none, by simp⟩

theorem grownBy_withDeclared (hreads : c.reads = []) (happlies : c.applies = false)
    {name : String} {shape : Shape} (role : Variable.Role) (hdecl : g.Declarable name shape) :
    g.GrownBy c (g.withDeclared name shape role) where
  identity := ⟨rfl, rfl, rfl⟩
  vars := ⟨some (g.declared name shape role), by rw [map_withConsumers_of_reads hreads]; rfl⟩
  ops := ⟨none, (List.append_nil _).symm, happlies.symm, nofun⟩
  variableIndex _ _ h := find?_insert_of_free hdecl.free h
  operatorIndex _ _ h := h
  inputs := by
    by_cases hrole : role = .input
    · exact ⟨some g.nextVariable, if_pos hrole⟩
    · exact ⟨none, (if_neg hrole).trans (List.append_nil _).symm⟩
  outputs := ⟨none, (List.append_nil _).symm⟩

theorem grownBy_withOutput (hreads : c.reads = []) (happlies : c.applies = false)
    (i : VariableId) : g.GrownBy c (g.withOutput i) :=
  { GrownBy.of_same hreads happlies with outputs := ⟨some i, rfl⟩ }

theorem grownBy_applied (hg : g.Linked) (hlt : g.ops.length < UInt32.size)
    (happlies : c.applies = true) {name : String} {params : Params} {shape : Shape}
    (happ : g.Applicable name params c.reads shape) :
    g.GrownBy c (g.applied name params c.reads shape) where
  identity := ⟨rfl, rfl, rfl⟩
  vars := by
    refine ⟨some (g.made shape),
      congrArg (· ++ [g.made shape]) (List.map_congr_left fun v hv => ?_)⟩
    exact Variable.readBy_eq_withConsumers (hg.nextOperator_not_mem_consumers hlt hv)
  ops := by
    refine ⟨some (g.appliedNode name params c.reads), rfl, happlies.symm, fun n hn => ?_⟩
    cases hn
    exact ⟨rfl, reads_appliedNode happ.length_inputs⟩
  variableIndex _ _ h := h
  operatorIndex _ _ h := find?_insert_of_free happ.free h
  inputs := ⟨none, (List.append_nil _).symm⟩
  outputs := ⟨none, (List.append_nil _).symm⟩

/-- **A call that succeeds** grows the graph at the end. -/
theorem grownBy_of_answer (h : g.Ledger) (hfits : g.Fits) {r : Graph × List VariableId}
    (hanswer : g.answer c = .ok r) : g.GrownBy c r.1 := by
  have hlen : g.vars.length ≤ UInt32.size := Nat.le_of_lt hfits.1
  cases c with
  | addInput name shape =>
      obtain ⟨hdecl, rfl⟩ := answer_addInput_eq_ok_iff.mp hanswer
      exact grownBy_withDeclared rfl rfl .input hdecl
  | addConstant name shape =>
      obtain ⟨hdecl, rfl⟩ := answer_addConstant_eq_ok_iff.mp hanswer
      exact grownBy_withDeclared rfl rfl .constant hdecl
  | markOutput i =>
      obtain ⟨-, rfl⟩ := answer_markOutput_eq_ok_iff.mp hanswer
      dsimp only
      split
      · exact .of_same rfl rfl
      · exact grownBy_withOutput rfl rfl i
  | apply op inputs =>
      obtain ⟨shape, happ, rfl⟩ := (answer_apply_eq_ok_iff h.toMinted hlen).mp hanswer
      exact grownBy_applied h.toLinked hfits.2 rfl happ
  | applyOne op inputs =>
      obtain ⟨shape, happ, rfl⟩ := (answer_applyOne_eq_ok_iff h.toMinted hlen).mp hanswer
      exact grownBy_applied h.toLinked hfits.2 rfl happ

/-! ## What calls leave -/

/-- **What is there stays there**: under its id, under its name, and as an input or output at its
    place. -/
structure Extends (g g' : Graph) : Prop where
  findVariable : ∀ i v, g.findVariable i = some v →
    ∃ more, g'.findVariable i = some (v.withConsumers more)
  findOperator : ∀ i n, g.findOperator i = some n → g'.findOperator i = some n
  variableIndex : ∀ name i, g.variableIndex.find? name = some i →
    g'.variableIndex.find? name = some i
  operatorIndex : ∀ name i, g.operatorIndex.find? name = some i →
    g'.operatorIndex.find? name = some i
  inputs : g.inputs <+: g'.inputs
  outputs : g.outputs <+: g'.outputs

namespace Extends

theorem refl (g : Graph) : g.Extends g where
  findVariable _ v h := ⟨[], by rw [v.withConsumers_nil]; exact h⟩
  findOperator _ _ h := h
  variableIndex _ _ h := h
  operatorIndex _ _ h := h
  inputs := List.prefix_refl _
  outputs := List.prefix_refl _

theorem trans (h : g.Extends g') (h' : g'.Extends g'') : g.Extends g'' where
  findVariable i v hv := by
    obtain ⟨more, hmore⟩ := h.findVariable i v hv
    obtain ⟨later, hlater⟩ := h'.findVariable i _ hmore
    exact ⟨more ++ later, by rw [hlater, Variable.withConsumers_withConsumers]⟩
  findOperator i n hn := h'.findOperator i n (h.findOperator i n hn)
  variableIndex name i hi := h'.variableIndex name i (h.variableIndex name i hi)
  operatorIndex name i hi := h'.operatorIndex name i (h.operatorIndex name i hi)
  inputs := h.inputs.trans h'.inputs
  outputs := h.outputs.trans h'.outputs

/-- What a variable's name leads to. -/
theorem variableNamed (h : g.Extends g') {name : String} {v : Variable}
    (hv : g.variableNamed name = some v) :
    ∃ more, g'.variableNamed name = some (v.withConsumers more) := by
  obtain ⟨i, hi, hfound⟩ := Option.bind_eq_some_iff.mp hv
  obtain ⟨more, hmore⟩ := h.findVariable i v hfound
  exact ⟨more, Option.bind_eq_some_iff.mpr ⟨i, h.variableIndex name i hi, hmore⟩⟩

/-- What an operator's name leads to. -/
theorem operatorNamed (h : g.Extends g') {name : String} {n : Node}
    (hn : g.operatorNamed name = some n) : g'.operatorNamed name = some n := by
  obtain ⟨i, hi, hfound⟩ := Option.bind_eq_some_iff.mp hn
  exact Option.bind_eq_some_iff.mpr ⟨i, h.operatorIndex name i hi, h.findOperator i n hfound⟩

end Extends

theorem GrownBy.extends (h : g.GrownBy c g') : g.Extends g' where
  findVariable i v hv := by
    obtain ⟨hgraph, hplace⟩ := findVariable_eq_some_iff.mp hv
    obtain ⟨new, hvars⟩ := h.vars
    refine ⟨if v.id ∈ c.reads then [g.nextOperator] else [],
      findVariable_eq_some_iff.mpr ⟨hgraph.trans h.identity.1.symm, ?_⟩⟩
    rw [hvars]
    refine getElem?_append_of_some ?_
    rw [List.getElem?_map, hplace]
    rfl
  findOperator i n hn := by
    obtain ⟨hgraph, hplace⟩ := findOperator_eq_some_iff.mp hn
    obtain ⟨new, hops, -⟩ := h.ops
    refine findOperator_eq_some_iff.mpr ⟨hgraph.trans h.identity.1.symm, ?_⟩
    rw [hops]
    exact getElem?_append_of_some hplace
  variableIndex := h.variableIndex
  operatorIndex := h.operatorIndex
  inputs := by
    obtain ⟨new, hinputs⟩ := h.inputs
    exact ⟨new.toList, hinputs.symm⟩
  outputs := by
    obtain ⟨new, houtputs⟩ := h.outputs
    exact ⟨new.toList, houtputs.symm⟩

/-- A call that is refused changes nothing, and one that succeeds puts something at the end. -/
theorem extends_after (h : g.Ledger) (hfits : g.Fits) (c : Call) : g.Extends (g.after c) := by
  cases hanswer : g.answer c with
  | error e =>
      rw [after_of_error hanswer]
      exact .refl g
  | ok r =>
      rw [after_of_answer hanswer]
      exact (grownBy_of_answer h hfits hanswer).extends

theorem extends_run (h : g.Ledger) {calls : List Call} (hfits : (g.run calls).Fits) :
    g.Extends (g.run calls) := by
  -- The books are what makes a call append, so they are carried along.
  have hkept : (g.run calls).Ledger ∧ g.Extends (g.run calls) :=
    run_induction (P := fun g' => g'.Ledger ∧ g.Extends g')
      (fun g' c hroom hg' => ⟨hg'.1.after hroom c, hg'.2.trans (extends_after hg'.1 hroom c)⟩)
      hfits ⟨h, .refl g⟩
  exact hkept.2

theorem Reachable.ledger (h : g.Reachable) (hfits : g.Fits) : g.Ledger := by
  obtain ⟨id, name, options, calls, hvalid, rfl⟩ := h
  exact ledger_run id name hvalid hfits

/-- **Calls are all or nothing, and append.** Performed in place on a graph that calls have reached,
    a call that fails leaves the graph as it was, and one that succeeds grows it at the end. So over
    any further calls, all that an id or a name leads to stays as it is, except that consumers are
    put behind those of a variable. -/
theorem perform_all_or_nothing_and_appends (hg : g.Reachable) :
    (∀ c e g', exec (perform c) g = (.error e, g') → g' = g) ∧
    (∀ c ids g', g.Fits → exec (perform c) g = (.ok ids, g') → g.GrownBy c g') ∧
    (∀ c, g.after c = (exec (perform c) g).2) ∧
    (∀ calls, (g.run calls).Fits →
      g.Extends (g.run calls) ∧
      (∀ name v, g.variableNamed name = some v →
        ∃ more, (g.run calls).variableNamed name = some (v.withConsumers more)) ∧
      (∀ name n, g.operatorNamed name = some n → (g.run calls).operatorNamed name = some n)) := by
  refine ⟨fun c e g' h => ?_, fun c ids g' hfits h => ?_, fun c => ?_, fun calls hfits => ?_⟩
  · rw [InPlace.exec_perform] at h
    exact InPlace.eq_of_settled_error h
  · rw [InPlace.exec_perform] at h
    exact grownBy_of_answer (hg.ledger hfits) hfits (InPlace.eq_ok_of_settled h)
  · exact InPlace.after_eq_exec_perform g c
  · have hextends := extends_run (hg.ledger (fits_of_fits_run hfits)) hfits
    exact ⟨hextends, fun _ _ => hextends.variableNamed, fun _ _ => hextends.operatorNamed⟩

/-- An input and its activation, as at the start of `mixedCalls`. -/
def activated : Graph := (empty ⟨0⟩ "mixed").run (mixedCalls.take 3)

/-- The activation added to itself. -/
def doubling : Call :=
  .applyOne (.unnamed .elementwiseSum Params.valid_elementwiseSum) [⟨⟨0⟩, 1⟩, ⟨⟨0⟩, 1⟩]

theorem perform_all_or_nothing_and_appends_activated :
    (exec (perform (.markOutput ⟨⟨0⟩, 7⟩)) activated).2 = activated ∧
      activated.GrownBy doubling (activated.after doubling) ∧
      activated.Extends (activated.run (mixedCalls.drop 3)) := by
  have hreach : activated.Reachable := ⟨⟨0⟩, "mixed", {}, mixedCalls.take 3, by decide, rfl⟩
  have herror : (exec (perform (.markOutput ⟨⟨0⟩, 7⟩)) activated).1 =
      .error (.graph ⟨"mixed", .unknownVariable ⟨⟨0⟩, 7⟩⟩) := by decide
  have hok : (exec (perform doubling) activated).1 = .ok [⟨⟨0⟩, 2⟩] := by decide
  have hfits : activated.Fits := ⟨by decide, by decide⟩
  have hlater : (activated.run (mixedCalls.drop 3)).Fits := ⟨by decide, by decide⟩
  obtain ⟨hrefused, hgrown, hafter, hextends⟩ := perform_all_or_nothing_and_appends hreach
  refine ⟨hrefused _ _ _ (Prod.ext herror rfl), ?_, (hextends _ hlater).1⟩
  rw [hafter]
  exact hgrown doubling _ _ hfits (Prod.ext hok rfl)

end Graph

end TensorGraph
