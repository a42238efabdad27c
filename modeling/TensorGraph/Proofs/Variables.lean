import Mathlib.Data.List.Nodup
import TensorGraph.Proofs.Growth

/-!
# `TensorGraph.Proofs.Variables` — **variables along runs of any length**

Ids are words, and a run that makes more variables than there are words gives ids twice. Who reads
which variable is then anyone's guess, but all the rest of the arena does not depend on ids: calls
append to it and never touch what is there. So constants keep their place, their name and their
shape for good, and no two of them share a name.

## Contents
- **All but the readers** of a variable, `Variable.bare`, and what linking leaves alone.
- **`Appends`**, what a call does to variables and names, whether or not ids are left.
- **`Named`**, what runs keep: names in use are entered, each belongs to one variable.
- **Constants** along a run.
-/

namespace TensorGraph

open Checks

namespace Variable

/-! ## All but the readers -/

/-- The variable without those that read it. -/
def bare (v : Variable) : Variable := { v with consumers := [] }

@[simp] theorem name?_bare (v : Variable) : v.bare.name? = v.name? := rfl

@[simp] theorem shape_bare (v : Variable) : v.bare.shape = v.shape := rfl

/-- One more reader is all that changes. -/
@[simp] theorem bare_addConsumer (v : Variable) (op : OperatorId) :
    (v.addConsumer op).bare = v.bare := by
  unfold addConsumer
  split <;> rfl

theorem label_of_name? {v : Variable} {name : String} (h : v.name? = some name) :
    v.label = name := by
  rw [label, h]
  rfl

end Variable

namespace Graph

open Variable (bare)

variable {g g' : Graph}

/-- Linking changes readers only. Positions play no part in it. -/
theorem map_bare_linkConsumers (op : OperatorId) (vars : List Variable)
    (inputs : List VariableId) : (linkConsumers op vars inputs).map bare = vars.map bare := by
  unfold linkConsumers
  induction inputs generalizing vars with
  | nil => rfl
  | cons i inputs ih =>
      rw [List.foldl_cons, ih]
      -- One input changes one place at most, and there the consumers only.
      refine List.ext_getElem? fun k => ?_
      rw [List.getElem?_map, List.getElem?_map, List.getElem?_modify]
      cases vars[k]? with
      | none => rfl
      | some v =>
          by_cases hread : i.position = k
          · simp [hread]
          · simp [hread]

/-- What an operator makes has no name. -/
theorem of_mem_outputVariables {op : OperatorId} {outputs : List (String × Shape)}
    {o : String × Variable} (h : o ∈ g.outputVariables op outputs) :
    o.2.role = .intermediate ∧ o.2.name? = none := by
  obtain ⟨p, -, rfl⟩ := List.mem_map.mp h
  exact ⟨rfl, rfl⟩

/-! ## What a call does to variables and names -/

/-- **The ways to change variables**, but for their readers: one is declared, or some without a name
    are appended. -/
inductive Appends (g : Graph) : Graph → Prop where
  | declared {name : String} {shape : Shape} {role : Variable.Role} (hrole : role ≠ .intermediate)
      (hdecl : g.Declarable name shape) : Appends g (g.withDeclared name shape role)
  | made {g' : Graph} {new : List Variable} (hindex : g'.variableIndex = g.variableIndex)
      (hnew : ∀ v ∈ new, v.role = .intermediate ∧ v.name? = none)
      (hvars : g'.vars.map bare = g.vars.map bare ++ new) : Appends g g'

theorem Appends.of_same (hindex : g'.variableIndex = g.variableIndex) (hvars : g'.vars = g.vars) :
    g.Appends g' :=
  .made hindex (fun _ hv => (List.not_mem_nil hv).elim) (by rw [hvars, List.append_nil])

theorem appends_apply {op : Operator} {inputs : List VariableId} {r : Graph × List VariableId}
    (h : g.apply op inputs = .ok r) : g.Appends r.1 := by
  unfold apply at h
  dsimp only at h
  split at h
  · cases h
  · rename_i shapes _
    cases h
    refine .made rfl ?_ ((map_bare_linkConsumers _ _ _).trans List.map_append)
    intro v hv
    obtain ⟨w, hw, rfl⟩ := List.mem_map.mp hv
    obtain ⟨o, ho, rfl⟩ := List.mem_map.mp hw
    exact of_mem_outputVariables ho

theorem appends_after_apply (op : Operator) (inputs : List VariableId) :
    g.Appends (g.after (.apply op inputs)) := by
  cases h : g.answer (.apply op inputs) with
  | error e =>
      rw [after_of_error h]
      exact .of_same rfl rfl
  | ok r =>
      rw [after_of_answer h]
      exact appends_apply (mapError_eq_ok_iff.mp h)

/-- **Calls append**, on any graph. -/
theorem appends_after (g : Graph) (c : Call) : g.Appends (g.after c) := by
  cases h : g.answer c with
  | error e =>
      rw [after_of_error h]
      exact .of_same rfl rfl
  | ok r =>
      cases c with
      | addInput name shape =>
          obtain ⟨hdecl, rfl⟩ := answer_addInput_eq_ok_iff.mp h
          rw [after_of_answer h]
          exact .declared (by decide) hdecl
      | addConstant name shape =>
          obtain ⟨hdecl, rfl⟩ := answer_addConstant_eq_ok_iff.mp h
          rw [after_of_answer h]
          exact .declared (by decide) hdecl
      | markOutput i =>
          obtain ⟨-, rfl⟩ := answer_markOutput_eq_ok_iff.mp h
          rw [after_of_answer h]
          dsimp only
          split <;> exact .of_same rfl rfl
      | apply op inputs => exact appends_after_apply op inputs
      | applyOne op inputs =>
          rw [after_applyOne]
          exact appends_after_apply op inputs

/-! ## Names -/

/-- The names of the variables, in the order of the arena. -/
def names (g : Graph) : List String := g.vars.filterMap Variable.name?

/-- Names in use are entered and belong to one variable each, and constants have one. -/
structure Named (g : Graph) : Prop where
  constant_named : ∀ v ∈ g.constants, ∃ name, v.name? = some name
  entered : ∀ name ∈ g.names, g.variableIndex.find? name ≠ none
  names_nodup : g.names.Nodup

theorem names_eq_bare (g : Graph) : g.names = (g.vars.map bare).filterMap Variable.name? := by
  rw [List.filterMap_map]
  rfl

theorem constants_bare (g : Graph) :
    g.constants.map bare = (g.vars.map bare).filter fun v => v.role == .constant := by
  rw [List.filter_map]
  rfl

section Made

variable {new : List Variable}

theorem names_of_made (hnew : ∀ v ∈ new, v.role = .intermediate ∧ v.name? = none)
    (hvars : g'.vars.map bare = g.vars.map bare ++ new) : g'.names = g.names := by
  have hnone : new.filterMap Variable.name? = [] :=
    List.filterMap_eq_nil_iff.mpr fun v hv => (hnew v hv).2
  rw [names_eq_bare, names_eq_bare, hvars, List.filterMap_append, hnone, List.append_nil]

theorem constants_of_made (hnew : ∀ v ∈ new, v.role = .intermediate ∧ v.name? = none)
    (hvars : g'.vars.map bare = g.vars.map bare ++ new) :
    g'.constants.map bare = g.constants.map bare := by
  have hnone : new.filter (fun v => v.role == .constant) = [] := by
    refine List.filter_eq_nil_iff.mpr fun v hv => ?_
    rw [(hnew v hv).1]
    decide
  rw [constants_bare, constants_bare, hvars, List.filter_append, hnone, List.append_nil]

end Made

theorem mem_constants_withDeclared {name : String} {shape : Shape} {role : Variable.Role}
    {v : Variable} (hv : v ∈ (g.withDeclared name shape role).constants) :
    v ∈ g.constants ∨ v = g.declared name shape role := by
  obtain ⟨hmem, hrole⟩ := List.mem_filter.mp hv
  rcases List.mem_append.mp hmem with hold | hlast
  · exact Or.inl (List.mem_filter.mpr ⟨hold, hrole⟩)
  · exact Or.inr (List.mem_singleton.mp hlast)

theorem names_withDeclared (name : String) (shape : Shape) (role : Variable.Role) :
    (g.withDeclared name shape role).names = g.names ++ [name] := List.filterMap_append

theorem Named.withDeclared (h : g.Named) {name : String} {shape : Shape} {role : Variable.Role}
    (hfree : g.variableIndex.find? name = none) : (g.withDeclared name shape role).Named where
  constant_named v hv := by
    rcases mem_constants_withDeclared hv with hold | rfl
    · exact h.constant_named v hold
    · exact ⟨name, rfl⟩
  entered given hgiven := by
    rw [names_withDeclared] at hgiven
    show (g.variableIndex.insert name g.nextVariable).find? given ≠ none
    rw [NameMap.find?_insert]
    split
    · exact Option.some_ne_none _
    · rename_i hne
      rcases List.mem_append.mp hgiven with hold | hlast
      · exact h.entered given hold
      · exact absurd (List.mem_singleton.mp hlast) hne
  names_nodup := by
    -- Whatever is in use is entered, and the new name was free.
    rw [names_withDeclared, List.nodup_append_comm, List.singleton_append]
    exact List.nodup_cons.mpr ⟨fun hused => h.entered name hused hfree, h.names_nodup⟩

theorem Named.of_made (h : g.Named) {new : List Variable}
    (hindex : g'.variableIndex = g.variableIndex)
    (hnew : ∀ v ∈ new, v.role = .intermediate ∧ v.name? = none)
    (hvars : g'.vars.map bare = g.vars.map bare ++ new) : g'.Named where
  constant_named v hv := by
    -- The constant may have new readers, so it is found again among the old ones without them.
    have hbare : v.bare ∈ g.constants.map bare :=
      constants_of_made hnew hvars ▸ List.mem_map_of_mem hv
    obtain ⟨w, hw, hwv⟩ := List.mem_map.mp hbare
    obtain ⟨name, hname⟩ := h.constant_named w hw
    refine ⟨name, ?_⟩
    rw [← v.name?_bare, ← hwv]
    exact hname
  entered := by
    rw [names_of_made hnew hvars, hindex]
    exact h.entered
  names_nodup := names_of_made hnew hvars ▸ h.names_nodup

theorem Appends.named (hgrow : g.Appends g') (h : g.Named) : g'.Named := by
  cases hgrow with
  | declared hrole hdecl => exact h.withDeclared hdecl.free
  | made hindex hnew hvars => exact h.of_made hindex hnew hvars

/-- **Runs of any length** keep names apart. -/
theorem Named.run (h : g.Named) (calls : List Call) : (g.run calls).Named := by
  induction calls generalizing g with
  | nil => exact h
  | cons c calls ih => exact ih ((appends_after g c).named h)

theorem Reachable.named (h : g.Reachable) : g.Named := by
  obtain ⟨id, name, options, calls, -, rfl⟩ := h
  have hempty : (empty id name options).Named := ⟨nofun, nofun, List.nodup_nil⟩
  exact hempty.run calls

/-- Constants are told apart by their labels, which are their names. -/
theorem Named.labels_nodup (h : g.Named) : (g.constants.map Variable.label).Nodup := by
  have hlabels : g.constants.map Variable.label = g.constants.filterMap Variable.name? := by
    rw [← List.filterMap_eq_map]
    refine List.filterMap_congr fun v hv => ?_
    obtain ⟨name, hname⟩ := h.constant_named v hv
    rw [hname, Function.comp_apply, Variable.label_of_name? hname]
  have hsub : (g.constants.filterMap Variable.name?).Sublist g.names :=
    List.filter_sublist.filterMap Variable.name?
  rw [hlabels]
  exact h.names_nodup.sublist hsub

/-! ## Constants -/

/-- Constants come after those that are there. -/
theorem Appends.constants (hgrow : g.Appends g') :
    ∃ new, g'.constants.map bare = g.constants.map bare ++ new := by
  cases hgrow with
  | declared hrole hdecl =>
      exact ⟨_, by rw [Graph.constants, withDeclared, List.filter_append, List.map_append]; rfl⟩
  | made hindex hnew hvars =>
      exact ⟨[], by rw [constants_of_made hnew hvars, List.append_nil]⟩

/-- **Constants stay** where they are, with their names and shapes. -/
theorem constants_run (g : Graph) (calls : List Call) :
    ∃ new, (g.run calls).constants.map bare = g.constants.map bare ++ new := by
  induction calls generalizing g with
  | nil => exact ⟨[], (List.append_nil _).symm⟩
  | cons c calls ih =>
      obtain ⟨first, hfirst⟩ := (appends_after g c).constants
      obtain ⟨later, hlater⟩ := ih (g.after c)
      exact ⟨first ++ later, by rw [run_cons, hlater, hfirst, List.append_assoc]⟩

end Graph

end TensorGraph
