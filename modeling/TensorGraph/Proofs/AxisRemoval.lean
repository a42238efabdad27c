import TensorGraph.Proofs.FirstFault

/-!
# `TensorGraph.Proofs.AxisRemoval` — **what is left of a shape without one of its axes**

Removing an axis takes it out of the order and takes its extent out of the extents, one after the
other, and then makes a shape of what is left. The two stay side by side, so what is left are the
pairs of the other axes. Their extents are still positive and the product only got smaller, so the
second look at them finds nothing; the only way to fail is that the axis is not there, or that
nothing else is.

## Contents
- **Pairs.** Removing an axis filters the pairs of a shape.
- **When it fails**: `reports_dropAxis`.
- **Sizes and two removals.**
- **Folding an axis away** is removing it, with errors of its own.
-/

namespace TensorGraph

open Checks ShapeRule

namespace AxisOrder

variable {o : AxisOrder} {a : Axis}

/-- An axis of the order, and the others behind it. -/
theorem perm_cons_filter (h : a ∈ o.axes) : o.axes.Perm (a :: o.axes.filter (· ≠ a)) := by
  have herase : o.axes.erase a = o.axes.filter (· ≠ a) := by
    rw [o.nodup.erase_eq_filter]
    refine List.filter_congr fun b _ => ?_
    by_cases hba : b = a <;> simp [hba]
  rw [← herase]
  exact List.perm_cons_erase h

/-- There are other axes if there are two. -/
theorem filter_ne_nil_iff (h : a ∈ o.axes) : o.axes.filter (· ≠ a) ≠ [] ↔ 2 ≤ o.rank := by
  have hlength : o.rank = (o.axes.filter (· ≠ a)).length + 1 := (perm_cons_filter h).length_eq
  rw [hlength, ← List.length_pos_iff]
  omega

theorem filter_eq_nil_iff (h : a ∈ o.axes) : o.axes.filter (· ≠ a) = [] ↔ o.axes = [a] := by
  constructor
  · intro hnil
    have hperm := perm_cons_filter h
    rw [hnil] at hperm
    exact List.perm_singleton.mp hperm
  · intro honly
    rw [honly]
    simp

end AxisOrder

namespace Shape

variable {s t u : Shape} {a b : Axis}

/-! ## Pairs -/

theorem map_fst_pairs (s : Shape) : s.pairs.map Prod.fst = s.order.axes :=
  List.map_fst_zip (Nat.le_of_eq s.length_dims.symm)

theorem map_snd_pairs (s : Shape) : s.pairs.map Prod.snd = s.dims :=
  List.map_snd_zip (Nat.le_of_eq s.length_dims)

/-- **Removing an axis** keeps the pairs of the others. -/
theorem dropAxis_eq_ok_iff_pairs :
    s.dropAxis a = .ok t ↔ a ∈ s.order.axes ∧ t.pairs = s.pairs.filter fun p => p.1 ≠ a := by
  have haxes : (s.pairs.filter fun p => p.1 ≠ a).map Prod.fst = s.order.axes.filter (· ≠ a) := by
    rw [← map_fst_pairs, List.filter_map]
    rfl
  unfold dropAxis
  rw [bind_eq_ok_iff]
  constructor
  · rintro ⟨o, ho, ht⟩
    obtain ⟨ha, herased⟩ := AxisOrder.erase_eq_ok_iff.mp ho
    obtain ⟨rfl, hdims⟩ := ofDims_eq_ok_iff.mp ht
    refine ⟨ha, ?_⟩
    rw [pairs, hdims, herased, ← haxes]
    exact (List.zip_of_prod rfl rfl).symm
  · rintro ⟨ha, hpairs⟩
    have horder : t.order.axes = s.order.axes.filter (· ≠ a) := by
      rw [← map_fst_pairs, hpairs, haxes]
    refine ⟨t.order, AxisOrder.erase_eq_ok_iff.mpr ⟨ha, horder⟩, ofDims_eq_ok_iff.mpr ⟨rfl, ?_⟩⟩
    rw [← map_snd_pairs, hpairs]

/-! ## When it fails -/

/-- The number of elements without an axis. -/
theorem product_filter_mul (h : a ∈ s.order.axes) :
    Count.product ((s.order.axes.filter (· ≠ a)).map s.extent) * s.extent a = s.size := by
  rw [size_eq, Count.product_perm ((AxisOrder.perm_cons_filter h).map s.extent), List.map_cons,
    Count.product_cons, Nat.mul_comm]

/-- **Removing an axis** fails as leaving it out of the order does, and never on the extents. -/
theorem reports_dropAxis (s : Shape) (a : Axis) :
    Reports (s.dropAxis a) (s.order.eraseFaults a) := by
  refine ((s.order.reports_erase a).bind fun o ho => ?_).of_eq (List.append_nil _)
  obtain ⟨ha, haxes⟩ := AxisOrder.erase_eq_ok_iff.mp ho
  have hdims : ((s.pairs.filter fun p => p.1 ≠ a).map Prod.snd) = o.axes.map s.extent := by
    rw [haxes, pairs_eq, List.filter_map, List.map_map]
    rfl
  have hpos : ∀ d ∈ o.axes.map s.extent, 0 < d := by
    intro d hd
    obtain ⟨b, hb, rfl⟩ := List.mem_map.mp hd
    rw [haxes] at hb
    exact extent_pos (List.mem_filter.mp hb).1
  have hfit : Count.product (o.axes.map s.extent) < Count.limit := by
    have hmul := product_filter_mul ha
    rw [← haxes] at hmul
    have hle : Count.product (o.axes.map s.extent) ≤ s.size :=
      hmul ▸ Nat.le_mul_of_pos_right _ (extent_pos ha)
    exact Nat.lt_of_le_of_lt hle s.size_lt
  rw [hdims]
  refine (reports_ofDims o _).of_eq ?_
  rw [dimFaults_of_pos (List.length_map _) hpos, unmet_of hfit]

theorem exists_dropAxis_iff : (∃ t, s.dropAxis a = .ok t) ↔ a ∈ s.order.axes ∧ 2 ≤ s.rank := by
  have hrank : s.rank = s.order.rank := s.length_dims
  rw [(s.reports_dropAxis a).exists_ok_iff, AxisOrder.eraseFaults, List.append_eq_nil_iff,
    unmet_eq_nil_iff, unmet_eq_nil_iff, hrank]
  exact and_congr_right AxisOrder.filter_ne_nil_iff

theorem dropAxis_eq_error_iff {e : ShapeError} :
    s.dropAxis a = .error e ↔
      (a ∉ s.order.axes ∧ e = .missingAxis a s.order) ∨
        (s.order.axes = [a] ∧ e = .emptyOrder) := by
  rw [(s.reports_dropAxis a).eq_error_iff, AxisOrder.eraseFaults]
  by_cases ha : a ∈ s.order.axes
  · rw [unmet_of ha, List.nil_append, head?_unmet_eq_some_iff, not_not,
      AxisOrder.filter_eq_nil_iff ha]
    simp [ha]
  · have hne : s.order.axes ≠ [a] := fun honly => ha (honly ▸ List.mem_singleton.mpr rfl)
    rw [unmet_of_not ha, List.cons_append, List.head?_cons, Option.some.injEq]
    constructor
    · rintro rfl
      exact Or.inl ⟨ha, rfl⟩
    · rintro (⟨-, rfl⟩ | ⟨honly, -⟩)
      · rfl
      · exact absurd honly hne

/-! ## Sizes and two removals -/

theorem order_axes_of_dropAxis (h : s.dropAxis a = .ok t) :
    t.order.axes = s.order.axes.filter (· ≠ a) :=
  (dropAxis_eq_ok_iff.mp h).2.1

/-- The other axes are asked for as before. -/
theorem extent?_of_dropAxis (h : s.dropAxis a = .ok t) (hb : b ≠ a) :
    t.extent? b = s.extent? b := by
  obtain ⟨-, hpairs⟩ := dropAxis_eq_ok_iff_pairs.mp h
  refine Option.ext fun d => ?_
  rw [extent?_eq_some_iff, extent?_eq_some_iff, hpairs, List.mem_filter]
  simp [hb]

/-- **The number of elements** is divided by the extent of the axis. -/
theorem size_mul_of_dropAxis (h : s.dropAxis a = .ok t) {d : Nat} (hd : s.extent? a = some d) :
    t.size * d = s.size := by
  obtain ⟨ha, haxes, hextent⟩ := dropAxis_eq_ok_iff.mp h
  have hd : s.extent a = d := (extent?_eq_some_iff_extent ha).mp hd
  rw [← product_filter_mul ha, size_eq, List.map_congr_left hextent, haxes, hd]

/-- **Two removals** keep the pairs of all axes but two. -/
theorem dropAxis_dropAxis_eq_ok_iff (hab : a ≠ b) :
    (s.dropAxis a >>= fun t => t.dropAxis b) = .ok u ↔
      (a ∈ s.order.axes ∧ b ∈ s.order.axes) ∧
        u.pairs = s.pairs.filter fun p => p.1 ≠ a ∧ p.1 ≠ b := by
  have hfilter : ((s.pairs.filter fun p => p.1 ≠ a).filter fun p => p.1 ≠ b) =
      s.pairs.filter fun p => p.1 ≠ a ∧ p.1 ≠ b := by
    rw [List.filter_filter]
    refine List.filter_congr fun p _ => ?_
    by_cases ha : p.1 = a <;> by_cases hb : p.1 = b <;> simp [ha, hb]
  rw [bind_eq_ok_iff]
  constructor
  · rintro ⟨t, ht, hu⟩
    obtain ⟨ha, htpairs⟩ := dropAxis_eq_ok_iff_pairs.mp ht
    obtain ⟨hb, hupairs⟩ := dropAxis_eq_ok_iff_pairs.mp hu
    rw [order_axes_of_dropAxis ht] at hb
    rw [hupairs, htpairs, hfilter]
    exact ⟨⟨ha, (List.mem_filter.mp hb).1⟩, rfl⟩
  · rintro ⟨⟨ha, hb⟩, hpairs⟩
    have hkept : b ∈ s.order.axes.filter (· ≠ a) := List.mem_filter.mpr ⟨hb, by simp [hab.symm]⟩
    -- The second axis is left after the first removal, so that one succeeds.
    have hrank : 2 ≤ s.rank := by
      have hne := List.ne_nil_of_mem hkept
      rw [AxisOrder.filter_ne_nil_iff ha] at hne
      exact Nat.le_trans hne (Nat.le_of_eq s.length_dims.symm)
    obtain ⟨t, ht⟩ := exists_dropAxis_iff.mpr ⟨ha, hrank⟩
    refine ⟨t, ht, dropAxis_eq_ok_iff_pairs.mpr ⟨?_, ?_⟩⟩
    · rw [order_axes_of_dropAxis ht]
      exact hkept
    · rw [hpairs, (dropAxis_eq_ok_iff_pairs.mp ht).2, hfilter]

/-- **The order of two removals** does not matter to what comes out. -/
theorem dropAxis_comm (hab : a ≠ b) :
    (s.dropAxis a >>= fun t => t.dropAxis b) = .ok u ↔
      (s.dropAxis b >>= fun t => t.dropAxis a) = .ok u := by
  rw [dropAxis_dropAxis_eq_ok_iff hab, dropAxis_dropAxis_eq_ok_iff hab.symm,
    and_comm (a := a ∈ s.order.axes)]
  simp only [and_comm]

end Shape

/-! ## Folding an axis away -/

namespace ShapeRule

variable {x y : Shape} {a : Axis}

/-- The faults of folding an axis away: it is not there, or nothing else is. -/
def reduceFaults (a : Axis) (x : Shape) : List ApplyFault :=
  unmet (a ∈ x.order.axes) (.axisNotPresent "x" a x.order) ++
    unmet (x.order.axes.filter (· ≠ a) ≠ []) (.orderMismatch "x" x.order .twoAxes)

/-- **Folding an axis away** is removing it, and reports the first of these. -/
theorem reports_reduce (a : Axis) (x : Shape) : Reports (reduce a x) (reduceFaults a x) := by
  refine (reports_need "x" x a).bind fun d hd => ?_
  have ha : a ∈ x.order.axes := Shape.mem_of_extent?_eq_some (need_eq_ok_iff.mp hd)
  have hdrop := x.reports_dropAxis a
  rw [AxisOrder.eraseFaults, unmet_of ha, List.nil_append] at hdrop
  by_cases hne : x.order.axes.filter (· ≠ a) ≠ []
  · rw [unmet_of hne] at hdrop ⊢
    obtain ⟨y, hy⟩ := hdrop.exists_ok_iff.mpr rfl
    rw [hy]
    exact Reports.ok y
  · rw [unmet_of_not hne] at hdrop ⊢
    rw [hdrop.eq_error_iff.mpr rfl]
    exact Reports.error _ _

theorem reduce_eq_ok_iff_dropAxis : reduce a x = .ok y ↔ x.dropAxis a = .ok y := by
  rw [reduce_eq_ok_iff, Shape.dropAxis_eq_ok_iff]

/-- The rule of all reductions. -/
theorem reports_outputShapes_reduce (variant : Reduction) (a : Axis) (x : Shape) :
    Reports ((Params.reduce variant a).outputShapes [x]) (reduceFaults a x) :=
  (reports_reduce a x).bind_pure fun y => [y]

theorem outputShapes_reduce_eq_ok {variant : Reduction} (h : x.dropAxis a = .ok y) :
    (Params.reduce variant a).outputShapes [x] = .ok [y] :=
  outputShapes_eq_ok_iff.mpr ⟨y, rfl, .reduce (reduce_eq_ok_iff_dropAxis.mpr h)⟩

end ShapeRule

namespace Shape

/-- **What is left of a shape** without one of its axes: the pairs of the other axes in their order,
    and the number of elements divided by the extent that is gone. -/
structure Remaining (s : Shape) (a : Axis) (t : Shape) : Prop where
  axes_eq : t.order.axes = s.order.axes.filter (· ≠ a)
  pairs_eq : t.pairs = s.pairs.filter fun p => p.1 ≠ a
  extent?_eq : ∀ b, b ≠ a → t.extent? b = s.extent? b
  size_mul : ∀ d, s.extent? a = some d → t.size * d = s.size

theorem remaining_of_dropAxis {s t : Shape} {a : Axis} (h : s.dropAxis a = .ok t) :
    s.Remaining a t where
  axes_eq := order_axes_of_dropAxis h
  pairs_eq := (dropAxis_eq_ok_iff_pairs.mp h).2
  extent?_eq _ hb := extent?_of_dropAxis h hb
  size_mul _ hd := size_mul_of_dropAxis h hd

/-- **Axes can be removed exactly.** A removal succeeds on an axis of the shape that is not the only
    one, and fails on the order or not at all; what is left are the other pairs. Two removals may
    come in either order. Every reduction is a removal, with errors of its own, and what is kept as
    words and tables is removed alike. -/
theorem dropAxis_exact :
    (∀ (s : Shape) (a : Axis), (∃ t, s.dropAxis a = .ok t) ↔ a ∈ s.order.axes ∧ 2 ≤ s.rank) ∧
    (∀ (s t : Shape) (a : Axis), s.dropAxis a = .ok t → s.Remaining a t) ∧
    (∀ (s : Shape) (a : Axis) (e : ShapeError), s.dropAxis a = .error e ↔
      (a ∉ s.order.axes ∧ e = .missingAxis a s.order) ∨
        (s.order.axes = [a] ∧ e = .emptyOrder)) ∧
    (∀ (s : Shape) (a b : Axis), a ≠ b →
      (∃ u, (s.dropAxis a >>= fun t => t.dropAxis b) = .ok u ∧
        (s.dropAxis b >>= fun t => t.dropAxis a) = .ok u) ∨
      ∃ e e', (s.dropAxis a >>= fun t => t.dropAxis b) = .error e ∧
        (s.dropAxis b >>= fun t => t.dropAxis a) = .error e') ∧
    (∀ (variant : Reduction) (a : Axis) (x : Shape),
      (∀ y, x.dropAxis a = .ok y → (Params.reduce variant a).outputShapes [x] = .ok [y]) ∧
      (a ∉ x.order.axes → (Params.reduce variant a).outputShapes [x] =
        .error (.axisNotPresent "x" a x.order)) ∧
      (x.order.axes = [a] → (Params.reduce variant a).outputShapes [x] =
        .error (.orderMismatch "x" x.order .twoAxes)) ∧
      ∀ cause, (Params.reduce variant a).outputShapes [x] ≠ .error (.invalidShape cause)) ∧
    ∀ (s : Shape) (a : Axis), s.stored.withoutAxis a = (s.dropAxis a).map stored := by
  refine ⟨fun s a => exists_dropAxis_iff, fun s t a => remaining_of_dropAxis,
    fun s a e => dropAxis_eq_error_iff, fun s a b hab => ?_, fun variant a x => ⟨?_, ?_, ?_, ?_⟩,
    withoutAxis_eq⟩
  · -- What one way comes to, the other does; so if one fails, both do.
    cases hfirst : s.dropAxis a >>= fun t => t.dropAxis b with
    | ok u => exact Or.inl ⟨u, rfl, (dropAxis_comm hab).mp hfirst⟩
    | error e =>
        cases hsecond : s.dropAxis b >>= fun t => t.dropAxis a with
        | ok u =>
            rw [(dropAxis_comm hab).mpr hsecond] at hfirst
            cases hfirst
        | error e' => exact Or.inr ⟨e, e', rfl, rfl⟩
  · intro y hy
    exact outputShapes_reduce_eq_ok hy
  · intro ha
    rw [(reports_outputShapes_reduce variant a x).eq_error_iff, reduceFaults, unmet_of_not ha]
    rfl
  · intro honly
    have ha : a ∈ x.order.axes := honly ▸ List.mem_singleton.mpr rfl
    have hnil := (AxisOrder.filter_eq_nil_iff ha).mpr honly
    rw [(reports_outputShapes_reduce variant a x).eq_error_iff, reduceFaults, unmet_of ha,
      unmet_of_not (not_not.mpr hnil)]
    rfl
  · intro cause hcause
    have hmem := (reports_outputShapes_reduce variant a x).mem_of_error hcause
    simp [reduceFaults] at hmem

/-- A batch of images in the usual layout. -/
def images : Shape := ⟨.nchw, [2, 3, 4, 5], by decide, by decide, by decide⟩

/-- The images without their channels, and without their channels and height either way. -/
theorem dropAxis_exact_images :
    ∃ t u, images.dropAxis .channel = .ok t ∧ t.order.axes = [.batch, .height, .width] ∧
      t.size * 3 = images.size ∧ (t.dropAxis .height = .ok u) ∧
      (images.dropAxis .height >>= fun t => t.dropAxis .channel) = .ok u := by
  obtain ⟨hexists, hremaining, -, hcomm, -⟩ := dropAxis_exact
  obtain ⟨t, ht⟩ := (hexists images .channel).mpr ⟨by decide, by decide⟩
  have hleft := hremaining images t .channel ht
  have haxes : t.order.axes = [.batch, .height, .width] := hleft.axes_eq
  have hrank : 2 ≤ t.rank := by
    have hlength : t.rank = t.order.axes.length := t.length_dims
    rw [hlength, haxes]
    decide
  have hheight : Axis.height ∈ t.order.axes := by
    rw [haxes]
    decide
  obtain ⟨u, hu⟩ := (hexists t .height).mpr ⟨hheight, hrank⟩
  have hboth : (images.dropAxis .channel >>= fun t => t.dropAxis .height) = .ok u :=
    bind_eq_ok_iff.mpr ⟨t, ht, hu⟩
  refine ⟨t, u, ht, haxes, hleft.size_mul 3 (by decide), hu, ?_⟩
  rcases hcomm images .channel .height (by decide) with ⟨v, hv, hv'⟩ | ⟨e, -, he, -⟩
  · rw [hboth] at hv
    cases hv
    exact hv'
  · rw [hboth] at he
    cases he

end Shape

end TensorGraph
