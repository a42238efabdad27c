import TensorGraph.Graph.Basic

/-!
# `TensorGraph.Proofs.Minted` — **ids that tell where their entry stands**

The entry at a position of an arena should carry the id of that position. Where it does, an id that
resolves is the id of what it resolves to, and entries with different ids are different entries.

## Contents
- **Round trip** between ids and positions.
- **`Minted` graphs** and their look-ups.
- **`shapesOf`**, the shapes that ids resolve to.
-/

namespace TensorGraph

/-- The id that the position of an id gives back is the id itself. -/
@[simp] theorem Id.mint_position {arena : Arena} (i : Id arena) : mint i.graph i.position = i := by
  refine Id.ext_position rfl ?_
  rw [Id.position_mint]
  exact Nat.mod_eq_of_lt (UInt32.toNat_lt i.index)

namespace Graph

/-- Every variable and every operator has the id of its position. -/
structure Minted (g : Graph) : Prop where
  variable_id : ∀ k v, g.vars[k]? = some v → v.id = Id.mint g.id k
  operator_id : ∀ k n, g.ops[k]? = some n → n.id = Id.mint g.id k

/-- The shapes of the variables that ids resolve to. -/
def shapesOf (g : Graph) (is : List VariableId) : List Shape :=
  is.filterMap fun i => (g.findVariable i).map Variable.shape

variable {g : Graph}

theorem mem_vars_of_findVariable {i : VariableId} {v : Variable} (h : g.findVariable i = some v) :
    v ∈ g.vars :=
  List.mem_of_getElem? (findVariable_eq_some_iff.mp h).2

theorem mem_ops_of_findOperator {i : OperatorId} {n : Node} (h : g.findOperator i = some n) :
    n ∈ g.ops :=
  List.mem_of_getElem? (findOperator_eq_some_iff.mp h).2

/-- Looking slots up one by one gives the shapes of the ids in them. -/
theorem filterMap_shape (g : Graph) (slots : List (String × VariableId)) :
    slots.filterMap (fun slot => (g.findVariable slot.2).map Variable.shape) =
      g.shapesOf (slots.map Prod.snd) := by
  rw [shapesOf, List.filterMap_map]
  rfl

namespace Minted

/-- What an id resolves to has that id. -/
theorem id_of_findVariable (hg : g.Minted) {i : VariableId} {v : Variable}
    (h : g.findVariable i = some v) : v.id = i := by
  obtain ⟨hgraph, hplace⟩ := findVariable_eq_some_iff.mp h
  rw [hg.variable_id i.position v hplace, ← hgraph, Id.mint_position]

theorem id_of_findOperator (hg : g.Minted) {i : OperatorId} {n : Node}
    (h : g.findOperator i = some n) : n.id = i := by
  obtain ⟨hgraph, hplace⟩ := findOperator_eq_some_iff.mp h
  rw [hg.operator_id i.position n hplace, ← hgraph, Id.mint_position]

/-- The entry at a position is found under its own id. -/
theorem findVariable_id (hg : g.Minted) (hlen : g.vars.length ≤ UInt32.size) {v : Variable}
    (hv : v ∈ g.vars) : g.findVariable v.id = some v := by
  obtain ⟨k, hk⟩ := List.mem_iff_getElem?.mp hv
  have hlt : k < g.vars.length := (List.getElem?_eq_some_iff.mp hk).1
  rw [findVariable_eq_some_iff, hg.variable_id k v hk,
    Id.position_mint_of_lt g.id (Nat.lt_of_lt_of_le hlt hlen)]
  exact ⟨rfl, hk⟩

theorem findOperator_id (hg : g.Minted) (hlen : g.ops.length ≤ UInt32.size) {n : Node}
    (hn : n ∈ g.ops) : g.findOperator n.id = some n := by
  obtain ⟨k, hk⟩ := List.mem_iff_getElem?.mp hn
  have hlt : k < g.ops.length := (List.getElem?_eq_some_iff.mp hk).1
  rw [findOperator_eq_some_iff, hg.operator_id k n hk,
    Id.position_mint_of_lt g.id (Nat.lt_of_lt_of_le hlt hlen)]
  exact ⟨rfl, hk⟩

/-- Variables with one id are one variable. -/
theorem variable_eq_of_id_eq (hg : g.Minted) (hlen : g.vars.length ≤ UInt32.size) {v w : Variable}
    (hv : v ∈ g.vars) (hw : w ∈ g.vars) (hid : v.id = w.id) : v = w := by
  have hfound := hg.findVariable_id hlen hv
  rw [hid, hg.findVariable_id hlen hw] at hfound
  exact (Option.some.inj hfound).symm

/-- Operators with one id are one operator. -/
theorem operator_eq_of_id_eq (hg : g.Minted) (hlen : g.ops.length ≤ UInt32.size) {m n : Node}
    (hm : m ∈ g.ops) (hn : n ∈ g.ops) (hid : m.id = n.id) : m = n := by
  have hfound := hg.findOperator_id hlen hm
  rw [hid, hg.findOperator_id hlen hn] at hfound
  exact (Option.some.inj hfound).symm

end Minted

end Graph

end TensorGraph
