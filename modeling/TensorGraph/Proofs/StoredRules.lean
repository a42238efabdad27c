import TensorGraph.Operator.StoredRule
import TensorGraph.Proofs.StoredShapes

/-!
# `TensorGraph.Proofs.StoredRules` — **the rules read tables and count in words**

A rule over stored shapes asks a table where the rule over shapes looks for an axis, and counts in
words where the other counts without bound. On valid parameters the answers are the same, errors and
all: the table knows positions, and what is not checked on the way is a word.

## Contents
- **Questions** and **windows**, each carried over.
- **One equation per rule**, and `infer_eq` for the rule that parameters pick.
-/

namespace TensorGraph

open Checks

theorem Count.map_toNat_checkedAdd? (a b : UInt64) :
    (checkedAdd? a b).map UInt64.toNat = add? a.toNat b.toNat :=
  map_toNat_checked (UInt64.toNat_add a b)

namespace AxisOrder

theorem isExactly_stored (o : AxisOrder) (axes : List Axis) :
    o.stored.isExactly axes = o.isExactly axes := rfl

theorem sameAxes_stored (o : AxisOrder) (axes : List Axis) :
    o.stored.sameAxes axes = o.sameAxes axes := by
  have hcontains : o.stored.contains = o.contains := funext o.contains_stored
  rw [StoredOrder.sameAxes, sameAxes, hcontains, rank_stored]

end AxisOrder

@[simp] theorem Shape.order_stored (s : Shape) : s.stored.order = s.order.stored := rfl

/-- **Asking for an axis** goes through the table and finds the same. -/
theorem Shape.map_toNat_get_stored (s : Shape) (a : Axis) :
    (s.stored.get a).map UInt64.toNat = s.extent? a := by
  show (((s.order.stored.position? a).bind fun i => s.words[i]?).map UInt64.toNat) = _
  rw [AxisOrder.position?_stored, extent?, ← s.map_toNat_words]
  cases s.order.position? a with
  | none => rfl
  | some i =>
      rw [Option.bind_some, Option.bind_some, List.getElem?_map]

namespace StoredRule

open ShapeRule (WindowLayout)

variable {window : Window} {x w : Shape}

/-! ## Questions -/

theorem map_need (slot : String) (s : Shape) (a : Axis) :
    (need slot s.stored a).map UInt64.toNat = ShapeRule.need slot s a := by
  have hshown : s.stored.order.shown = s.order := s.order.shown_stored
  unfold need ShapeRule.need
  rw [← s.map_toNat_get_stored, hshown]
  cases s.stored.get a <;> rfl

theorem matchExtent_stored (slot : String) (s : Shape) (a : Axis) (expected : UInt64) :
    matchExtent slot s.stored a expected =
      ShapeRule.matchExtent slot s a expected.toNat := by
  unfold matchExtent ShapeRule.matchExtent
  rw [← map_need]
  cases need slot s.stored a with
  | error e => rfl
  | ok got =>
      show (if got = expected then _ else _) = if got.toNat = expected.toNat then _ else _
      by_cases hgot : got = expected
      · rw [if_pos hgot, if_pos (congrArg UInt64.toNat hgot)]
      · rw [if_neg hgot, if_neg fun h => hgot (UInt64.toNat_inj.mp h)]

theorem outputShape_stored (o : AxisOrder) (ws : List UInt64) :
    outputShape o.stored ws =
      (ShapeRule.outputShape o (ws.map UInt64.toNat)).map Shape.stored := by
  unfold outputShape ShapeRule.outputShape
  rw [Shape.new_eq]
  cases Shape.ofDims o (ws.map UInt64.toNat) <;> rfl

/-! ## Windows -/

theorem map_toNat_padded? (extent padding : UInt64) :
    (padded? extent padding).map UInt64.toNat =
      Window.padded? extent.toNat padding.toNat := by
  have htwo : (2 : UInt64).toNat = 2 := rfl
  unfold padded? Window.padded?
  rw [← htwo, ← Count.map_toNat_checkedMul?]
  cases Count.checkedMul? padding 2 with
  | none => rfl
  | some both => exact Count.map_toNat_checkedAdd? both extent

/-- With a kernel of one or more, there are no more placements than a word counts. -/
theorem toNat_placements {padded kernel : UInt64} (stride : UInt64) (hkernel : 0 < kernel.toNat)
    (hle : kernel ≤ padded) :
    ((padded - kernel) / stride + 1).toNat =
      (padded.toNat - kernel.toNat) / stride.toNat + 1 := by
  have hspan : (padded - kernel).toNat = padded.toNat - kernel.toNat :=
    UInt64.toNat_sub_of_le padded kernel hle
  have hsteps : ((padded - kernel) / stride).toNat =
      (padded.toNat - kernel.toNat) / stride.toNat := by rw [UInt64.toNat_div, hspan]
  have hdiv : (padded.toNat - kernel.toNat) / stride.toNat ≤ padded.toNat - kernel.toNat :=
    Nat.div_le_self _ _
  have hle' : kernel.toNat ≤ padded.toNat := UInt64.le_iff_toNat_le.mp hle
  have hlt : padded.toNat < 2 ^ 64 := padded.toNat_lt
  have hone : (1 : UInt64).toNat = 1 := rfl
  rw [UInt64.toNat_add, hsteps, hone]
  exact Nat.mod_eq_of_lt (by omega)

theorem map_toNat_positions? {extent kernel stride padding : UInt64}
    (hkernel : 0 < kernel.toNat) :
    (positions? extent kernel stride padding).map UInt64.toNat =
      Window.positions? extent.toNat kernel.toNat stride.toNat padding.toNat := by
  unfold positions? Window.positions?
  rw [← map_toNat_padded?]
  cases padded? extent padding with
  | none => rfl
  | some padded =>
      show Option.map _ (Count.checkedSub? padded kernel >>= _) =
        (Count.sub? padded.toNat kernel.toNat >>= _)
      unfold Count.checkedSub? Count.sub?
      by_cases hle : kernel ≤ padded
      · rw [if_pos hle, if_pos (UInt64.le_iff_toNat_le.mp hle)]
        exact congrArg some (toNat_placements stride hkernel hle)
      · rw [if_neg hle, if_neg fun h => hle (UInt64.le_iff_toNat_le.mpr h)]
        rfl

theorem map_windowExtent {a : Axis} {extent kernel stride padding : UInt64}
    (hkernel : 0 < kernel.toNat) :
    (windowExtent a extent kernel stride padding).map UInt64.toNat =
      ShapeRule.windowExtent a extent.toNat kernel.toNat stride.toNat padding.toNat := by
  unfold windowExtent ShapeRule.windowExtent
  rw [← map_toNat_padded?]
  cases padded? extent padding with
  | none => rfl
  | some padded =>
      show Except.map _ (if kernel ≤ padded then _ else _) =
        if kernel.toNat ≤ padded.toNat then _ else _
      by_cases hle : kernel ≤ padded
      · rw [if_pos hle, if_pos (UInt64.le_iff_toNat_le.mp hle)]
        exact congrArg Except.ok (toNat_placements stride hkernel hle)
      · rw [if_neg hle, if_neg fun h => hle (UInt64.le_iff_toNat_le.mpr h)]
        rfl

theorem map_windowExtents (hvalid : window.Valid) (x : Shape) :
    (windowExtents window x.stored).map (Prod.map UInt64.toNat UInt64.toNat) =
      ShapeRule.windowExtents window x := by
  unfold windowExtents ShapeRule.windowExtents
  rw [← map_need, ← map_need]
  refine bind_map_eq fun height => bind_map_eq fun width => ?_
  rw [← map_windowExtent hvalid.1.1, ← map_windowExtent hvalid.1.2]
  exact bind_map_eq fun height' => bind_map_eq fun width' => rfl

theorem layoutOf_stored (slot : String) (o : AxisOrder) :
    layoutOf slot o.stored = WindowLayout.ofOrder slot o := by
  unfold layoutOf WindowLayout.ofOrder
  rw [AxisOrder.shown_stored]
  rfl

theorem layoutShape_eq (layout : WindowLayout) (n c h w : UInt64) :
    layoutShape layout n c h w =
      (layout.shape n.toNat c.toNat h.toNat w.toNat).map Shape.stored := by
  cases layout <;> exact outputShape_stored _ _

/-! ## The rules -/

theorem convolution_eq (hvalid : window.Valid) (x w : Shape) :
    convolution window x.stored w.stored =
      (ShapeRule.convolution window x w).map Shape.stored := by
  unfold convolution ShapeRule.convolution
  simp only [Shape.order_stored, layoutOf_stored, AxisOrder.sameAxes_stored,
    AxisOrder.shown_stored, matchExtent_stored, ← map_need, ← map_windowExtents hvalid]
  refine bind_eq_map_self fun layout => unless_eq_map ?_
  refine bind_eq_map_self fun _ => bind_eq_map_self fun _ => ?_
  refine bind_eq_map fun channels => bind_eq_map_self fun _ => ?_
  refine bind_eq_map fun n => bind_eq_map fun c => bind_eq_map fun extents => ?_
  exact layoutShape_eq layout n c extents.1 extents.2

theorem pooling_eq (hvalid : window.Valid) (x : Shape) :
    pooling window x.stored = (ShapeRule.pooling window x).map Shape.stored := by
  unfold pooling ShapeRule.pooling
  simp only [Shape.order_stored, layoutOf_stored, ← map_need, ← map_windowExtents hvalid]
  refine bind_eq_map_self fun layout => ?_
  refine bind_eq_map fun n => bind_eq_map fun c => bind_eq_map fun extents => ?_
  exact layoutShape_eq layout n c extents.1 extents.2

theorem linear_eq (x w : Shape) :
    linear x.stored w.stored = (ShapeRule.linear x w).map Shape.stored := by
  unfold linear ShapeRule.linear
  simp only [Shape.order_stored, AxisOrder.isExactly_stored, AxisOrder.sameAxes_stored,
    AxisOrder.shown_stored, matchExtent_stored, ← map_need]
  refine unless_eq_map (unless_eq_map ?_)
  refine bind_eq_map fun channels => bind_eq_map_self fun _ => ?_
  refine bind_eq_map fun n => bind_eq_map fun c => ?_
  exact outputShape_stored .nc [n, c]

theorem axiswise_eq (a : Axis) (x b : Shape) :
    axiswise a x.stored b.stored = (ShapeRule.axiswise a x b).map Shape.stored := by
  unfold axiswise ShapeRule.axiswise
  simp only [Shape.order_stored, AxisOrder.isExactly_stored, AxisOrder.shown_stored,
    matchExtent_stored, ← map_need]
  exact bind_eq_map fun expected => unless_eq_map (bind_eq_map_self fun _ => rfl)

theorem elementwiseSum_eq (x0 x1 : Shape) :
    elementwiseSum x0.stored x1.stored =
      (ShapeRule.elementwiseSum x0 x1).map Shape.stored := by
  have horder : x0.order.stored = x1.order.stored ↔ x0.order = x1.order :=
    AxisOrder.stored_inj.trans ⟨AxisOrder.ext_axes, congrArg AxisOrder.axes⟩
  have hchecks : (x0.stored.iter.forM fun p => matchExtent "x1" x1.stored p.1 p.2) =
      x0.pairs.forM fun p => ShapeRule.matchExtent "x1" x1 p.1 p.2 := by
    rw [← x0.map_toNat_iter_stored, List.forM_eq_forM, List.forM_eq_forM, List.forM_map]
    simp only [matchExtent_stored]
    rfl
  unfold elementwiseSum ShapeRule.elementwiseSum
  simp only [Shape.order_stored, AxisOrder.shown_stored, horder, hchecks]
  exact unless_eq_map (bind_eq_map_self fun _ => rfl)

theorem reduce_eq (a : Axis) (x : Shape) :
    reduce a x.stored = (ShapeRule.reduce a x).map Shape.stored := by
  unfold reduce ShapeRule.reduce
  simp only [Shape.order_stored, AxisOrder.shown_stored, ← map_need, Shape.withoutAxis_eq]
  refine bind_eq_map fun _ => ?_
  cases x.dropAxis a with
  | ok y => rfl
  | error cause => cases cause <;> rfl

end StoredRule

/-- **Inference over stored shapes** is inference over shapes. -/
theorem StoredShape.infer_eq {p : Params} (hvalid : p.Valid) (inputs : List Shape) :
    StoredShape.infer p (inputs.map Shape.stored) =
      (p.outputShapes inputs).map (List.map Shape.stored) := by
  have hone : ∀ {y' : Except ApplyFault StoredShape} {y : Except ApplyFault Shape},
      y' = y.map Shape.stored →
        (y' >>= fun y => pure [y]) = (y >>= fun y => pure [y]).map (List.map Shape.stored) := by
    rintro _ y rfl
    cases y <;> rfl
  have hmany : ∀ (x y z : Shape) (rest : List Shape),
      ((x :: y :: z :: rest).map Shape.stored).length = (x :: y :: z :: rest).length :=
    fun _ _ _ _ => List.length_map _
  unfold StoredShape.infer Params.outputShapes
  -- Inputs are as many as one of the families takes, or refused by their number.
  rcases inputs with _ | ⟨x, _ | ⟨w, _ | ⟨z, rest⟩⟩⟩
  · cases p <;> rfl
  · cases p with
    | pooling _ window => exact hone (StoredRule.pooling_eq (hvalid _ rfl) x)
    | activation _ => rfl
    | reduce _ a => exact hone (StoredRule.reduce_eq a x)
    | _ => rfl
  · cases p with
    | convolution window => exact hone (StoredRule.convolution_eq (hvalid _ rfl) x w)
    | linear => exact hone (StoredRule.linear_eq x w)
    | axiswise _ a => exact hone (StoredRule.axiswise_eq a x w)
    | elementwiseSum => exact hone (StoredRule.elementwiseSum_eq x w)
    | _ => rfl
  · cases p <;> exact congrArg (fun n => Except.error (ApplyFault.arity _ n)) (hmany x w z rest)

end TensorGraph
