import Mathlib.Data.List.Forall2
import TensorGraph.Proofs.AxisRemoval
import TensorGraph.Proofs.LayoutIndependence
import TensorGraph.Proofs.LongRuns
import TensorGraph.Proofs.StoredOrders

/-!
# `TensorGraph.Proofs.Ranks` — **the limit on ranks holds for inferred variables, too**

The limit of the options is looked at for inputs and constants only; what operators make goes into
the graph unseen. But no shape rule adds an axis: the output has the axes of the first input, less
the one that a reduction folds away. So no chain of operators leads past the limit, in runs of any
length.

## Contents
- **Ranks of shapes** and what a shape rule does to them.
- **`MadeBy`**: a variable, the operator that makes it, and the rank of what that reads first.
- **`Ranked`** along runs of any length.
-/

namespace TensorGraph

/-! ## Ranks of shapes -/

namespace Shape

theorem rank_eq (s : Shape) : s.rank = s.order.axes.length := s.length_dims

theorem rank_pos (s : Shape) : 1 ≤ s.rank := by
  rw [rank_eq]
  exact List.length_pos_iff.mpr s.order.axes_ne_nil

/-- There are five axes, and none comes twice. -/
theorem rank_le_five (s : Shape) : s.rank ≤ 5 := by
  rw [rank_eq]
  exact Axis.length_le_of_nodup s.order.nodup

end Shape

namespace Params

/-- How many axes of the first input are not in the output. -/
def foldedAxes : Params → Nat
  | reduce _ _ => 1
  | _ => 0

/-- **A reduction takes one axis away**, and no other rule changes the rank of the first input. -/
theorem rank_of_infers {p : Params} {xs : List Shape} {s : Shape} (hvalid : p.Valid)
    (h : ShapeRule.Infers p xs s) : ∃ x ∈ xs.head?, s.rank + p.foldedAxes = x.rank := by
  obtain ⟨x, hx, haxes⟩ := axes_of_infers hvalid h
  refine ⟨x, hx, ?_⟩
  rw [Shape.rank_eq, Shape.rank_eq, haxes]
  cases h with
  | @reduce variant a y s h =>
      obtain rfl : y = x := Option.some.inj hx
      have ha : a ∈ y.order.axes := (ShapeRule.reduce_eq_ok_iff.mp h).1
      -- The axis that is folded away and those that are left are the axes of the input.
      exact (AxisOrder.perm_cons_filter ha).length_eq.symm
  | _ => rfl

end Params

/-! ## What operators make -/

namespace Graph

open Variable (bare)

variable {g g' : Graph} {r : Graph × List VariableId}

/-- The variables that operators make, in the order of the arena. -/
def intermediates (g : Graph) : List Variable := g.vars.filter fun v => v.role == .intermediate

/-- The operator makes the variable and nothing else, and the ranks of the variable and of what the
    operator reads first are as its family has them. -/
structure MadeBy (g : Graph) (n : Node) (y : Variable) : Prop where
  makes : n.makes = [y.id]
  producer : y.producer? = some n.id
  rank : ∃ i x, n.reads.head? = some i ∧ g.findVariable i = some x ∧
    y.shape.rank + n.params.foldedAxes = x.shape.rank

/-- Which operator makes a variable does not change, and neither do shapes. -/
theorem MadeBy.keeps {n : Node} {y : Variable} (h : g.MadeBy n y) (hkeep : g.Keeps g') :
    g'.MadeBy n y where
  makes := h.makes
  producer := h.producer
  rank := by
    obtain ⟨i, x, hhead, hx, hrank⟩ := h.rank
    obtain ⟨w, hw, hbare⟩ := hkeep.findVariable hx
    have hshape : w.shape = x.shape := by
      rw [← Variable.shape_bare w, hbare, Variable.shape_bare]
    exact ⟨i, w, hhead, hw, by rw [hshape, hrank]⟩

/-- Applying an operator makes a variable of the rank that its family has. -/
theorem madeBy_applied {name : String} {params : Params} {inputs : List VariableId} {shape : Shape}
    (hvalid : params.Valid) (happ : g.Applicable name params inputs shape) :
    g.MadeBy (g.appliedNode name params inputs) (g.made shape) where
  makes := makes_appliedNode
  producer := rfl
  rank := by
    obtain ⟨y, hy, hinfers⟩ := ShapeRule.outputShapes_eq_ok_iff.mp happ.inferred
    obtain rfl : shape = y := List.singleton_inj.mp hy
    obtain ⟨s, hs, hrank⟩ := Params.rank_of_infers hvalid hinfers
    cases inputs with
    | nil => cases hs
    | cons i rest =>
        obtain ⟨x, hx⟩ := happ.found i List.mem_cons_self
        have hshapes : g.shapesOf (i :: rest) = x.shape :: g.shapesOf rest :=
          List.filterMap_cons_some (by rw [hx]; rfl)
        rw [hshapes] at hs
        obtain rfl : x.shape = s := Option.some.inj hs
        exact ⟨i, x, by rw [reads_appliedNode happ.length_inputs]; rfl, hx, hrank⟩

/-! ## Ranks along runs -/

/-- **No variable has more axes than the limit**, and operators and the variables that they make
    stand in the same order. -/
structure Ranked (g : Graph) : Prop where
  rank_le : ∀ v ∈ g.vars.map bare, v.shape.rank ≤ g.options.maxRank.toNat
  paired : List.Forall₂ g.MadeBy g.ops
    ((g.vars.map bare).filter fun v => v.role == .intermediate)

theorem Ranked.declared (h : g.Ranked) {name : String} {shape : Shape} {role : Variable.Role}
    (hrole : role ≠ .intermediate) (hdecl : g.Declarable name shape) :
    (g.withDeclared name shape role).Ranked := by
  have hkeep : g.Keeps (g.withDeclared name shape role) := (Success.declared hrole hdecl).keeps
  have hvars : (g.withDeclared name shape role).vars.map bare =
      g.vars.map bare ++ [(g.declared name shape role).bare] := List.map_append
  constructor
  · rw [hvars, List.forall_mem_append, List.forall_mem_singleton]
    exact ⟨h.rank_le, hdecl.rank_le⟩
  · -- The new variable is not made by an operator.
    have hnone : [(g.declared name shape role).bare].filter (fun v => v.role == .intermediate) =
        [] :=
      List.filter_eq_nil_iff.mpr fun v hv => by
        rw [List.mem_singleton.mp hv]
        exact fun heq => hrole (eq_of_beq heq)
    rw [hvars, List.filter_append, hnone, List.append_nil]
    exact h.paired.imp fun n y hmade => hmade.keeps hkeep

theorem Ranked.applied (h : g.Ranked) {op : Operator} {inputs : List VariableId} {shape : Shape}
    (happ : g.Applicable (g.nameFor op) op.params inputs shape) :
    (g.committed (g.nameFor op) op.params inputs shape).Ranked := by
  have hkeep : g.Keeps (g.committed (g.nameFor op) op.params inputs shape) :=
    (Success.applied happ).keeps
  have hmade := madeBy_applied op.params_valid happ
  constructor
  · rw [map_bare_committed, List.forall_mem_append, List.forall_mem_singleton]
    refine ⟨h.rank_le, ?_⟩
    -- What is read first is in the graph, so its rank is within the limit.
    obtain ⟨i, x, -, hx, hrank⟩ := hmade.rank
    have hle := h.rank_le x.bare (List.mem_map_of_mem (mem_vars_of_findVariable hx))
    show (g.made shape).shape.rank ≤ g.options.maxRank.toNat
    rw [Variable.shape_bare] at hle
    omega
  · rw [map_bare_committed, List.filter_append]
    exact List.rel_append (h.paired.imp fun n y hold => hold.keeps hkeep)
      (.cons (hmade.keeps hkeep) .nil)

theorem Success.ranked (hr : g.Success r) (h : g.Ranked) : r.1.Ranked := by
  cases hr with
  | declared hrole hdecl => exact h.declared hrole hdecl
  | marked hfound =>
      dsimp only
      split
      · exact h
      · exact ⟨h.rank_le, h.paired.imp fun n y hmade => ⟨hmade.makes, hmade.producer, hmade.rank⟩⟩
  | applied happ => exact h.applied happ

theorem Ranked.run (h : g.Ranked) (calls : List Call) : (g.run calls).Ranked := by
  induction calls generalizing g with
  | nil => exact h
  | cons c calls ih => exact ih (after_of_success h (fun _ hr => hr.ranked h) c)

theorem ranked_empty (id : GraphId) (name : String) (options : Options) :
    (empty id name options).Ranked := ⟨nofun, .nil⟩

theorem intermediates_bare (g : Graph) :
    g.intermediates.map bare = (g.vars.map bare).filter fun v => v.role == .intermediate := by
  rw [List.filter_map]
  rfl

/-- The operators and what they make, pair by pair. -/
theorem Ranked.forall₂_intermediates (h : g.Ranked) :
    List.Forall₂ g.MadeBy g.ops g.intermediates := by
  have hbare := h.paired
  rw [← intermediates_bare, List.forall₂_map_right_iff] at hbare
  exact hbare.imp fun n y hmade => ⟨hmade.makes, hmade.producer, hmade.rank⟩

/-- **The limit on ranks holds for all variables.** With valid options a graph can be created, and
    after any calls on it every variable has at least one axis and no more than the limit and the
    five axes there are. The variables that operators make stand in the order of the operators, and
    each has the rank of what its operator reads first, less one for a reduction. While there are
    ids for all variables, each variable is what its own id leads to. -/
theorem run_ranks (id : GraphId) (name : String) {options : Options} (hvalid : options.Valid) :
    ∃ g, create id name options = .ok g ∧ ∀ calls : List Call,
      (∀ v ∈ (g.run calls).vars,
        1 ≤ v.shape.rank ∧ v.shape.rank ≤ min options.maxRank.toNat 5) ∧
      List.Forall₂ (g.run calls).MadeBy (g.run calls).ops (g.run calls).intermediates ∧
      ((g.run calls).vars.length ≤ UInt32.size →
        ∀ v ∈ (g.run calls).vars, (g.run calls).findVariable v.id = some v) := by
  refine ⟨empty id name options, ?_, fun calls => ?_⟩
  · rw [create, Options.validate_eq_ok_iff.mpr hvalid]
    rfl
  have hranked := (ranked_empty id name options).run calls
  have hoptions := (keeps_run (empty id name options) calls).options_eq
  refine ⟨fun v hv => ⟨v.shape.rank_pos, ?_⟩, hranked.forall₂_intermediates, fun hlen v hv => ?_⟩
  · have hle := hranked.rank_le v.bare (List.mem_map_of_mem hv)
    rw [hoptions] at hle
    exact Nat.le_min.mpr ⟨hle, v.shape.rank_le_five⟩
  · exact ((minted_empty id name options).run calls).findVariable_id hlen hv

/-- Folds the channels of a batch away and goes on with what is left. A shape of rank four, above the
    limit of two, is refused. -/
def foldingCalls : List Call :=
  [ .addInput "image" ⟨.nchw, [2, 1, 1, 3], by decide, by decide, by decide⟩,
    .addInput "x" ⟨.nc, [2, 7], by decide, by decide, by decide⟩,
    .apply (.unnamed (.reduce .sum .channel) (by decide)) [⟨⟨0⟩, 0⟩],
    .applyOne (.unnamed (.activation .relu) (Params.valid_activation _)) [⟨⟨0⟩, 1⟩] ]

theorem run_ranks_folding :
    ∃ g, create ⟨0⟩ "folding" ⟨"op", 2⟩ = .ok g ∧
      (∀ v ∈ (g.run foldingCalls).vars, 1 ≤ v.shape.rank ∧ v.shape.rank ≤ 2) ∧
      List.Forall₂ (g.run foldingCalls).MadeBy (g.run foldingCalls).ops
        (g.run foldingCalls).intermediates ∧
      (g.run foldingCalls).vars.map (fun v => v.shape.rank) = [2, 1, 1] := by
  have hvalid : Options.Valid ⟨"op", 2⟩ := by decide
  obtain ⟨g, hg, hruns⟩ := run_ranks ⟨0⟩ "folding" hvalid
  obtain ⟨hrank, hmade, -⟩ := hruns foldingCalls
  refine ⟨g, hg, hrank, hmade, ?_⟩
  have hempty : create ⟨0⟩ "folding" ⟨"op", 2⟩ = .ok (empty ⟨0⟩ "folding" ⟨"op", 2⟩) := by decide
  rw [hempty] at hg
  cases hg
  decide

end Graph

end TensorGraph
