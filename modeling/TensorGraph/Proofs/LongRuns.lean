import TensorGraph.Proofs.ForeignIds
import TensorGraph.Proofs.Variables

/-!
# `TensorGraph.Proofs.LongRuns` — **what calls keep when there are no ids left**

An arena may grow past the number of words, and from then on ids are given again. A call looks at
ids in front of the checks only; whatever it then appends goes to the end of an arena. So entries
stay where they are and carry the low bits of their position, however long a run is.

## Contents
- **What a success appends**, together with the ids that it gives.
- **`Keeps`**: earlier variables stay, and so does what an id leads to.
- **`Minted`** along runs of any length.
-/

namespace TensorGraph

namespace Graph

open Variable (bare)

variable {g g' g'' : Graph} {r : Graph × List VariableId}

/-! ## What a success appends -/

/-- Linking leaves the variables as they are, readers apart. -/
theorem map_bare_committed (name : String) (params : Params) (inputs : List VariableId)
    (shape : Shape) :
    (g.committed name params inputs shape).vars.map bare =
      g.vars.map bare ++ [(g.made shape).bare] :=
  (map_bare_linkConsumers _ _ _).trans List.map_append

/-- **A success appends** the variables that it gives the ids of. -/
theorem Success.appends (h : g.Success r) :
    ∃ new, r.1.vars.map bare = g.vars.map bare ++ new ∧ new.map Variable.id = r.2 := by
  cases h with
  | @declared name shape role hrole hdecl =>
      exact ⟨[(g.declared name shape role).bare], List.map_append, rfl⟩
  | marked hfound =>
      refine ⟨[], ?_, rfl⟩
      rw [List.append_nil]
      dsimp only
      split <;> rfl
  | @applied op inputs shape happ =>
      exact ⟨[(g.made shape).bare], map_bare_committed _ _ _ _, rfl⟩

/-! ## What stays -/

/-- **Earlier variables stay**: nothing about them changes but who reads them. -/
structure Keeps (g g' : Graph) : Prop where
  id_eq : g'.id = g.id
  options_eq : g'.options = g.options
  vars : g.vars.map bare <+: g'.vars.map bare

namespace Keeps

theorem refl (g : Graph) : g.Keeps g := ⟨rfl, rfl, List.prefix_refl _⟩

theorem trans (h : g.Keeps g') (h' : g'.Keeps g'') : g.Keeps g'' :=
  ⟨h'.id_eq.trans h.id_eq, h'.options_eq.trans h.options_eq, h.vars.trans h'.vars⟩

/-- The variable at a position is found there again. -/
theorem getElem? (h : g.Keeps g') {k : Nat} {v : Variable} (hk : g.vars[k]? = some v) :
    ∃ w, g'.vars[k]? = some w ∧ w.bare = v.bare := by
  have hplace : (g'.vars.map bare)[k]? = some v.bare := by
    obtain ⟨new, hnew⟩ := h.vars
    rw [← hnew]
    refine getElem?_append_of_some ?_
    rw [List.getElem?_map, hk]
    rfl
  rw [List.getElem?_map] at hplace
  obtain ⟨w, hw, hbare⟩ := Option.map_eq_some_iff.mp hplace
  exact ⟨w, hw, hbare⟩

/-- **An id leads to the same variable** later on. -/
theorem findVariable (h : g.Keeps g') {i : VariableId} {v : Variable}
    (hi : g.findVariable i = some v) : ∃ w, g'.findVariable i = some w ∧ w.bare = v.bare := by
  obtain ⟨hgraph, hplace⟩ := findVariable_eq_some_iff.mp hi
  obtain ⟨w, hw, hbare⟩ := h.getElem? hplace
  exact ⟨w, findVariable_eq_some_iff.mpr ⟨hgraph.trans h.id_eq.symm, hw⟩, hbare⟩

end Keeps

theorem Success.keeps (h : g.Success r) : g.Keeps r.1 where
  id_eq := h.id_eq
  options_eq := by
    cases h with
    | declared => rfl
    | marked hfound =>
        dsimp only
        split <;> rfl
    | applied happ => rfl
  vars := by
    obtain ⟨new, hnew, -⟩ := h.appends
    exact ⟨new, hnew.symm⟩

theorem keeps_after (g : Graph) (c : Call) : g.Keeps (g.after c) :=
  after_of_success (.refl g) (fun _ h => h.keeps) c

/-- **Runs keep what is there**, however long they are. -/
theorem keeps_run (g : Graph) (calls : List Call) : g.Keeps (g.run calls) := by
  induction calls generalizing g with
  | nil => exact .refl g
  | cons c calls ih => exact (keeps_after g c).trans (ih (g.after c))

/-! ## Ids of positions -/

theorem minted_committed (hg : g.Minted) (name : String) (params : Params)
    (inputs : List VariableId) (shape : Shape) :
    (g.committed name params inputs shape).Minted where
  variable_id k v hk := by
    -- Entering a reader keeps the id, and what is appended has the id of the end.
    have hold : ∃ w, (g.vars ++ [g.made shape])[k]? = some w ∧ w.bare = v.bare := by
      rw [committed, getElem?_linkConsumers] at hk
      obtain ⟨w, hw, rfl⟩ := Option.map_eq_some_iff.mp hk
      refine ⟨w, hw, ?_⟩
      split
      · exact (w.bare_addConsumer _).symm
      · rfl
    obtain ⟨w, hw, hbare⟩ := hold
    have hid : w.bare.id = v.bare.id := congrArg Variable.id hbare
    rw [show v.id = w.id from hid.symm]
    rcases getElem?_snoc_cases hw with hw | ⟨rfl, rfl⟩
    · exact hg.variable_id k w hw
    · rfl
  operator_id k n hk := by
    rcases getElem?_snoc_cases hk with hold | ⟨rfl, rfl⟩
    · exact hg.operator_id k n hold
    · rfl

theorem Success.minted (h : g.Success r) (hg : g.Minted) : r.1.Minted := by
  cases h with
  | declared => exact minted_withDeclared hg _ _ _
  | marked hfound =>
      dsimp only
      split
      · exact hg
      · exact ⟨hg.variable_id, hg.operator_id⟩
  | applied happ => exact minted_committed hg _ _ _ _

/-- **Ids tell positions** along runs of any length, up to the bits that they keep. -/
theorem Minted.run (hg : g.Minted) (calls : List Call) : (g.run calls).Minted := by
  induction calls generalizing g with
  | nil => exact hg
  | cons c calls ih => exact ih (after_of_success hg (fun _ h => h.minted hg) c)

theorem minted_empty (id : GraphId) (name : String) (options : Options) :
    (empty id name options).Minted := ⟨nofun, nofun⟩

end Graph

end TensorGraph
