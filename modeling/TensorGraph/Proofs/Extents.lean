import Mathlib.Algebra.BigOperators.Group.List.Basic
import TensorGraph.Proofs.Checks

/-!
# `TensorGraph.Proofs.Extents` — **shapes by what they say of each axis**

A shape stores its extents by position, and whoever uses it asks by axis. The two views hold the
same: the stored extents are the answers for the axes of the order, one after another. So a shape is
determined by its order and its answers, and rearranging the order changes neither the answers nor
the number of elements.

## Contents
- **Answers** `extent?` and `extent`, and the stored pairs they come from.
- **From answers to shapes**: `dims_eq`, `ext_extent`, `exists_of_extents`, and `dropAxis`.
- **Rearranging.** `SameExtents` relates shapes that differ in their order only, and
  `exists_rearranged` puts a shape into another order of the same axes.
-/

namespace TensorGraph

/-- Looking up the position of a key finds the value beside it. -/
theorem idxOf?_bind_eq_some_iff {β : Type} {keys : List Axis} {vals : List β} (hnd : keys.Nodup)
    {a : Axis} {d : β} :
    ((keys.idxOf? a).bind fun i => vals[i]?) = some d ↔ (a, d) ∈ keys.zip vals := by
  induction keys generalizing vals with
  | nil => simp
  | cons k keys ih =>
      obtain ⟨hk, hkeys⟩ := List.nodup_cons.mp hnd
      cases vals with
      | nil => simp
      | cons v vals =>
          rw [List.zip_cons_cons, List.mem_cons, List.idxOf?_cons]
          by_cases hka : k = a
          · -- The key stands nowhere else, so its only value is the first one.
            subst hka
            have hnot : (k, d) ∉ keys.zip vals := fun hmem => hk (List.of_mem_zip hmem).1
            simp [hnot, eq_comm]
          · have hak : a ≠ k := fun h => hka h.symm
            have hshift : (((keys.idxOf? a).map (· + 1)).bind fun i => (v :: vals)[i]?) =
                (keys.idxOf? a).bind fun i => vals[i]? := by
              cases keys.idxOf? a <;> simp
            simp only [beq_iff_eq, hka, if_false]
            rw [hshift, ih hkeys]
            simp [hak]

/-- Keys beside values that are computed from them. -/
theorem zip_map_self {α β : Type} (f : α → β) (keys : List α) :
    keys.zip (keys.map f) = keys.map fun k => (k, f k) := by
  induction keys with
  | nil => rfl
  | cons k keys ih => rw [List.map_cons, List.zip_cons_cons, List.map_cons, ih]

namespace Count

theorem product_eq_prod (ns : List Nat) : product ns = ns.prod := rfl

/-- The factors of a product may come in any order. -/
theorem product_perm {ns ms : List Nat} (h : ns.Perm ms) : product ns = product ms := by
  rw [product_eq_prod, product_eq_prod]
  exact h.prod_eq

end Count

namespace AxisOrder

/-- **Same axes.** Against a sequence that repeats no axis, having as many axes and all of them is
    being a rearrangement of it. -/
theorem sameAxes_iff_perm {o : AxisOrder} {axes : List Axis} (hnd : axes.Nodup) :
    o.sameAxes axes = true ↔ o.axes.Perm axes := by
  unfold sameAxes rank
  rw [Bool.and_eq_true, beq_iff_eq, List.all_eq_true]
  constructor
  · rintro ⟨hlength, hall⟩
    have hsub : axes ⊆ o.axes := fun a ha => contains_iff.mp (hall a ha)
    have hperm := (List.subperm_of_subset hnd hsub).perm_of_length_le (Nat.le_of_eq hlength)
    exact hperm.symm
  · intro hperm
    exact ⟨hperm.length_eq, fun a ha => contains_iff.mpr (hperm.mem_iff.mpr ha)⟩

/-- **Leaving an axis out** needs the axis and one more. -/
theorem erase_eq_ok_iff {o p : AxisOrder} {a : Axis} :
    o.erase a = .ok p ↔ a ∈ o.axes ∧ p.axes = o.axes.filter (· ≠ a) := by
  unfold erase
  by_cases ha : a ∈ o.axes
  · rw [if_pos (contains_iff.mpr ha), ofAxes_eq_ok_iff]
    simp [ha]
  · rw [if_neg fun hmem => ha (contains_iff.mp hmem)]
    simp [ha]

end AxisOrder

namespace Shape

variable {s t : Shape} {a : Axis} {d : Nat}

/-! ## Answers -/

/-- The extent of an axis, and zero where the shape has no such axis. -/
def extent (s : Shape) (a : Axis) : Nat := (s.extent? a).getD 0

/-- **Asking for an axis** gives what is stored beside it. -/
theorem extent?_eq_some_iff : s.extent? a = some d ↔ (a, d) ∈ s.pairs :=
  idxOf?_bind_eq_some_iff s.order.nodup

theorem mem_of_extent?_eq_some (h : s.extent? a = some d) : a ∈ s.order.axes :=
  (List.of_mem_zip (extent?_eq_some_iff.mp h)).1

/-- An axis and the extent at its position. -/
theorem extent?_getElem {i : Nat} (ha : i < s.order.axes.length) (hd : i < s.dims.length) :
    s.extent? s.order.axes[i] = some s.dims[i] := by
  refine extent?_eq_some_iff.mpr (List.mem_iff_getElem.mpr ⟨i, ?_, ?_⟩)
  · simp only [pairs, List.length_zip]
    omega
  · simp [pairs]

/-- Each axis of the order has an extent. -/
theorem extent?_of_mem (h : a ∈ s.order.axes) : s.extent? a = some (s.extent a) := by
  obtain ⟨i, hi, rfl⟩ := List.mem_iff_getElem.mp h
  have hlength : s.dims.length = s.order.axes.length := s.length_dims
  have hsome := s.extent?_getElem hi (by omega)
  rw [extent, hsome]
  rfl

theorem extent?_eq_none_iff : s.extent? a = none ↔ a ∉ s.order.axes := by
  constructor
  · intro hnone hmem
    rw [extent?_of_mem hmem] at hnone
    cases hnone
  · intro hnot
    cases h : s.extent? a with
    | none => rfl
    | some d => exact absurd (mem_of_extent?_eq_some h) hnot

theorem extent?_eq_some_iff_extent (h : a ∈ s.order.axes) :
    s.extent? a = some d ↔ s.extent a = d := by
  rw [extent?_of_mem h, Option.some.injEq]

theorem extent_pos (h : a ∈ s.order.axes) : 0 < s.extent a :=
  s.dims_pos _ (List.of_mem_zip (extent?_eq_some_iff.mp (extent?_of_mem h))).2

/-! ## From answers to shapes -/

/-- **What is stored** are the answers for the axes of the order. -/
theorem dims_eq (s : Shape) : s.dims = s.order.axes.map s.extent := by
  have hlength : s.dims.length = s.order.axes.length := s.length_dims
  refine List.ext_getElem (by rw [hlength, List.length_map]) fun i hi _ => ?_
  have hsome := s.extent?_getElem (by omega) hi
  rw [List.getElem_map, extent, hsome]
  rfl

theorem pairs_eq (s : Shape) : s.pairs = s.order.axes.map fun a => (a, s.extent a) := by
  rw [pairs, dims_eq, zip_map_self]

theorem size_eq (s : Shape) : s.size = Count.product (s.order.axes.map s.extent) := by
  rw [size, dims_eq]

/-- A shape is determined by its order and its answers. -/
theorem ext_extent (ho : s.order = t.order) (he : ∀ a ∈ s.order.axes, s.extent a = t.extent a) :
    s = t := by
  refine ext_dims ho ?_
  rw [dims_eq, dims_eq, ← ho]
  exact List.map_congr_left he

/-- **Positive extents** of a countable product make a shape. -/
theorem exists_of_extents (o : AxisOrder) (f : Axis → Nat) (hpos : ∀ a ∈ o.axes, 0 < f a)
    (hfit : Count.product (o.axes.map f) < Count.limit) :
    ∃ s : Shape, s.order = o ∧ ∀ a ∈ o.axes, s.extent a = f a := by
  have hdims : ∀ d ∈ o.axes.map f, 0 < d := by
    intro d hd
    obtain ⟨a, ha, rfl⟩ := List.mem_map.mp hd
    exact hpos a ha
  let s : Shape := ⟨o, o.axes.map f, List.length_map _, hdims, hfit⟩
  refine ⟨s, rfl, fun a ha => ?_⟩
  have hmem : (a, f a) ∈ s.pairs := by
    show (a, f a) ∈ o.axes.zip (o.axes.map f)
    rw [zip_map_self]
    exact List.mem_map.mpr ⟨a, ha, rfl⟩
  rw [extent, extent?_eq_some_iff.mpr hmem]
  rfl

/-- **Removing an axis** keeps the extents of the others. -/
theorem dropAxis_eq_ok_iff :
    s.dropAxis a = .ok t ↔ a ∈ s.order.axes ∧ t.order.axes = s.order.axes.filter (· ≠ a) ∧
      ∀ b ∈ t.order.axes, t.extent b = s.extent b := by
  have hkept : ((s.pairs.filter fun p => p.1 ≠ a).map Prod.snd) =
      (s.order.axes.filter (· ≠ a)).map s.extent := by
    rw [pairs_eq, List.filter_map, List.map_map]
    rfl
  unfold dropAxis
  rw [Checks.bind_eq_ok_iff, hkept]
  constructor
  · rintro ⟨o, ho, ht⟩
    obtain ⟨ha, haxes⟩ := AxisOrder.erase_eq_ok_iff.mp ho
    obtain ⟨rfl, hdims⟩ := ofDims_eq_ok_iff.mp ht
    rw [dims_eq, ← haxes] at hdims
    exact ⟨ha, haxes, List.map_inj_left.mp hdims⟩
  · rintro ⟨ha, haxes, hextent⟩
    refine ⟨t.order, AxisOrder.erase_eq_ok_iff.mpr ⟨ha, haxes⟩, ofDims_eq_ok_iff.mpr ⟨rfl, ?_⟩⟩
    rw [dims_eq, ← haxes]
    exact List.map_congr_left hextent

/-! ## Rearranging -/

/-- The shapes have the same axes and the same extent on each; their orders may differ. -/
structure SameExtents (s t : Shape) : Prop where
  mem_iff : ∀ a, a ∈ s.order.axes ↔ a ∈ t.order.axes
  extent_eq : ∀ a ∈ s.order.axes, s.extent a = t.extent a

namespace SameExtents

theorem refl (s : Shape) : SameExtents s s := ⟨fun _ => Iff.rfl, fun _ _ => rfl⟩

theorem symm (h : SameExtents s t) : SameExtents t s :=
  ⟨fun a => (h.mem_iff a).symm, fun a ha => (h.extent_eq a ((h.mem_iff a).mpr ha)).symm⟩

/-- The orders hold the same axes, so one is a rearrangement of the other. -/
theorem perm (h : SameExtents s t) : s.order.axes.Perm t.order.axes :=
  (List.perm_ext_iff_of_nodup s.order.nodup t.order.nodup).mpr h.mem_iff

theorem extent?_eq (h : SameExtents s t) (a : Axis) : s.extent? a = t.extent? a := by
  by_cases ha : a ∈ s.order.axes
  · rw [extent?_of_mem ha, extent?_of_mem ((h.mem_iff a).mp ha), h.extent_eq a ha]
  · rw [extent?_eq_none_iff.mpr ha, extent?_eq_none_iff.mpr fun hat => ha ((h.mem_iff a).mpr hat)]

theorem extent_congr (h : SameExtents s t) (a : Axis) : s.extent a = t.extent a := by
  rw [extent, extent, h.extent?_eq]

/-- In one order the shapes are the same. -/
theorem eq_of_order_eq (h : SameExtents s t) (ho : s.order = t.order) : s = t :=
  ext_extent ho h.extent_eq

end SameExtents

/-- **A shape can be put into any order of its axes.** The number of elements stays. -/
theorem exists_rearranged (s : Shape) {o : AxisOrder} (h : o.axes.Perm s.order.axes) :
    ∃ t : Shape, t.order = o ∧ SameExtents s t := by
  have hpos : ∀ a ∈ o.axes, 0 < s.extent a := fun a ha => extent_pos (h.mem_iff.mp ha)
  have hfit : Count.product (o.axes.map s.extent) < Count.limit := by
    rw [Count.product_perm (h.map s.extent), ← size_eq]
    exact s.size_lt
  obtain ⟨t, ho, hextent⟩ := exists_of_extents o s.extent hpos hfit
  refine ⟨t, ho, fun a => ?_, fun a ha => ?_⟩
  · rw [ho]
    exact h.mem_iff.symm
  · exact (hextent a (h.mem_iff.mpr ha)).symm

end Shape

end TensorGraph
