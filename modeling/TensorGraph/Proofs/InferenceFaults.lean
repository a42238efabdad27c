import TensorGraph.Proofs.AxisRemoval
import TensorGraph.Proofs.Growth
import TensorGraph.Proofs.StoredRules

/-!
# `TensorGraph.Proofs.InferenceFaults` — **which errors inference can raise**

A rule asks for axes, compares extents, pads and multiplies, and each of these steps can fail in its
own way. Earlier checks take away what later ones could fail on: behind a check of the layout every
axis is there, and an output of positive extents can only be too large. So each family has a list of
the faults that are left, and its rule reports the first of them.

## Contents
- **Questions** and **windows**, with their faults.
- **One list per family**, and that the rule reports its first.
- **Outputs that are too large**: `Params.Overflows`, where everything else is right.
- **Inference** for an operator of a name, and what it can raise: `infer_faults_exact`.
-/

namespace TensorGraph

open Checks

namespace ShapeRule

variable {window : Window} {x w b y : Shape} {a : Axis} {channels : Nat}

/-! ## Questions -/

/-- Of an axis that the slot has, only the extent can be wrong. -/
theorem reports_matchExtent (slot : String) {s : Shape} (h : a ∈ s.order.axes) (d : Nat) :
    Reports (matchExtent slot s a d)
      (unmet (s.extent a = d) (.extentMismatch slot a d (s.extent a))) := by
  refine Reports.bind_ok (need_of_mem slot h) ?_
  by_cases hd : s.extent a = d
  · rw [if_pos hd, unmet_of hd]
    exact Reports.ok _
  · rw [if_neg hd, unmet_of_not hd]
    exact Reports.error _ _

/-- Of an output with positive extents, only the number of elements can be wrong. -/
theorem reports_outputShape {o : AxisOrder} {dims : List Nat} (hlength : dims.length = o.rank)
    (hpos : ∀ d ∈ dims, 0 < d) :
    Reports (outputShape o dims)
      (unmet (Count.product dims < Count.limit) (.invalidShape (.sizeOverflow o))) := by
  have h := (Shape.reports_ofDims o dims).mapError ApplyFault.invalidShape
  rw [Shape.dimFaults_of_pos hlength hpos, map_unmet] at h
  exact h

/-! ## Windows -/

/-- The faults of a window along one axis. -/
def axisFaults (a : Axis) (extent kernel padding : Nat) : List ApplyFault :=
  unmet (extent + 2 * padding < Count.limit) (.extentOverflow a extent padding) ++
    unmet (kernel ≤ extent + 2 * padding) (.windowTooLarge a extent kernel padding)

/-- The faults of a window over height and width. -/
def slideFaults (window : Window) (x : Shape) : List ApplyFault :=
  axisFaults .height (x.extent .height) window.kernel.height.toNat
      window.padding.height.toNat ++
    axisFaults .width (x.extent .width) window.kernel.width.toNat window.padding.width.toNat

theorem reports_windowExtent (a : Axis) (extent kernel stride padding : Nat) :
    Reports (windowExtent a extent kernel stride padding)
      (axisFaults a extent kernel padding) := by
  unfold windowExtent axisFaults
  cases h : Window.padded? extent padding with
  | none =>
      have hover := Window.padded?_eq_none.mp h
      rw [unmet_of_not (by omega)]
      exact Reports.error _ _
  | some padded =>
      obtain ⟨rfl, hlt⟩ := Window.padded?_eq_some.mp h
      rw [unmet_of hlt, List.nil_append]
      exact (Reports.ite Iff.rfl fun _ => Reports.ok _).of_eq (List.append_nil _)

theorem reports_windowExtents (window : Window) (hlayout : x.order = .nchw ∨ x.order = .nhwc) :
    Reports (windowExtents window x) (slideFaults window x) := by
  have hperm := axes_perm_of_layout hlayout
  refine Reports.bind_ok (need_of_mem "x" (mem_axes_of_perm hperm (a := .height) (by decide))) ?_
  refine Reports.bind_ok (need_of_mem "x" (mem_axes_of_perm hperm (a := .width) (by decide))) ?_
  refine (reports_windowExtent ..).bind fun height _ => ?_
  exact (reports_windowExtent ..).bind_pure fun width => (height, width)

/-- Without a fault the window moves over the shape. -/
theorem slideFaults_eq_nil_iff :
    slideFaults window x = [] ↔
      (paddedHeight window x < Count.limit ∧
        window.kernel.height.toNat ≤ paddedHeight window x) ∧
      paddedWidth window x < Count.limit ∧ window.kernel.width.toNat ≤ paddedWidth window x := by
  simp only [slideFaults, axisFaults, List.append_eq_nil_iff, unmet_eq_nil_iff]
  exact Iff.rfl

theorem reports_layoutShape (layout : WindowLayout) {n c h v : Nat} (hn : 0 < n) (hc : 0 < c)
    (hh : 0 < h) (hv : 0 < v) :
    Reports (layout.shape n c h v)
      (unmet (n * c * h * v < Count.limit) (.invalidShape (.sizeOverflow layout.order))) := by
  have hdims : layout.shape n c h v =
      outputShape layout.order (layout.order.axes.map (fourExtents n c h v)) := by
    cases layout <;> rfl
  have hperm : layout.order.axes.Perm AxisOrder.nchw.axes := by cases layout <;> decide
  have hproduct : Count.product (layout.order.axes.map (fourExtents n c h v)) = n * c * h * v :=
    product_map_of_perm hperm _
  have hpos : ∀ d ∈ layout.order.axes.map (fourExtents n c h v), 0 < d := by
    intro d hd
    obtain ⟨a, ha, rfl⟩ := List.mem_map.mp hd
    cases a with
    | batch => exact hn
    | channel => exact hc
    | height => exact hh
    | width => exact hv
    | time => exact absurd (hperm.mem_iff.mp ha) (by decide)
  rw [hdims, ← hproduct]
  exact reports_outputShape (List.length_map _) hpos

/-- The fault of an output that is too large. -/
noncomputable def sizeFaults (window : Window) (x : Shape) (channels : Nat) : List ApplyFault :=
  unmet (slidSize window x channels < Count.limit) (.invalidShape (.sizeOverflow x.order))

/-- **Moving a window**: the last steps of convolution and of pooling. -/
theorem reports_slide (hvalid : window.Valid) {layout : WindowLayout}
    (hlayout : x.order = layout.order) (hchannels : 0 < channels) :
    Reports (windowExtents window x >>= fun extents =>
        layout.shape (x.extent .batch) channels extents.1 extents.2)
      (slideFaults window x ++ sizeFaults window x channels) := by
  have horder := exists_layout_iff.mp ⟨layout, hlayout⟩
  have hperm := axes_perm_of_layout horder
  refine (reports_windowExtents window horder).bind fun extents hextents => ?_
  obtain ⟨hslides, rfl⟩ := (windowExtents_eq_ok_iff hvalid horder).mp hextents
  unfold sizeFaults
  rw [hlayout]
  exact reports_layoutShape layout (Shape.extent_pos (mem_axes_of_perm hperm (by decide)))
    hchannels (outputHeight_pos hvalid hslides) (outputWidth_pos hvalid hslides)

/-! ## One list per family -/

/-- The fault of a layout in which no window moves. -/
def layoutFaults (x : Shape) : List ApplyFault :=
  unmet (x.order = .nchw ∨ x.order = .nhwc) (.unsupportedLayout "x" x.order)

theorem reports_ofOrder (x : Shape) :
    Reports (WindowLayout.ofOrder "x" x.order) (layoutFaults x) := by
  by_cases hlayout : x.order = .nchw ∨ x.order = .nhwc
  · obtain ⟨layout, horder⟩ := exists_layout_iff.mpr hlayout
    rw [ofOrder_eq_ok_iff.mpr horder, layoutFaults, unmet_of hlayout]
    exact Reports.ok _
  · obtain ⟨hfirst, hlast⟩ := not_or.mp hlayout
    rw [layoutFaults, unmet_of_not hlayout, WindowLayout.ofOrder,
      if_neg fun h => hfirst (AxisOrder.ext_axes (AxisOrder.isExactly_iff.mp h)),
      if_neg fun h => hlast (AxisOrder.ext_axes (AxisOrder.isExactly_iff.mp h))]
    exact Reports.error _ _

/-- What can be wrong with a convolution before its output is made. -/
def convolutionMismatches (window : Window) (x w : Shape) : List ApplyFault :=
  layoutFaults x ++
    (unmet (w.order.axes.Perm AxisOrder.nchw.axes)
        (.orderMismatch "w" w.order .convolutionWeight) ++
      (unmet (w.extent .height = window.kernel.height.toNat)
          (.extentMismatch "w" .height window.kernel.height.toNat (w.extent .height)) ++
        (unmet (w.extent .width = window.kernel.width.toNat)
            (.extentMismatch "w" .width window.kernel.width.toNat (w.extent .width)) ++
          (unmet (w.extent .channel = x.extent .channel)
              (.extentMismatch "w" .channel (x.extent .channel) (w.extent .channel)) ++
            slideFaults window x))))

/-- **The faults of convolution.** -/
theorem reports_convolution (hvalid : window.Valid) (x w : Shape) :
    Reports (convolution window x w)
      (convolutionMismatches window x w ++ sizeFaults window x (w.extent .batch)) := by
  have hnodup : AxisOrder.nchw.axes.Nodup := AxisOrder.nchw.nodup
  simp only [convolutionMismatches, List.append_assoc]
  refine (reports_ofOrder x).bind fun layout hlayout => ?_
  have horder := ofOrder_eq_ok_iff.mp hlayout
  have hx := axes_perm_of_layout (exists_layout_iff.mp ⟨layout, horder⟩)
  refine Reports.demand (AxisOrder.sameAxes_iff_perm hnodup) fun hw => ?_
  -- From here on no axis is missing, in `x` or in `w`, so only extents are left to be wrong.
  have hmem : ∀ {a}, a ∈ AxisOrder.nchw.axes → a ∈ w.order.axes := mem_axes_of_perm hw
  refine (reports_matchExtent "w" (hmem (by decide)) _).bind fun _ _ => ?_
  refine (reports_matchExtent "w" (hmem (by decide)) _).bind fun _ _ => ?_
  refine Reports.bind_ok (need_of_mem "x" (mem_axes_of_perm hx (by decide))) ?_
  refine (reports_matchExtent "w" (hmem (by decide)) _).bind fun _ _ => ?_
  refine Reports.bind_ok (need_of_mem "x" (mem_axes_of_perm hx (by decide))) ?_
  refine Reports.bind_ok (need_of_mem "w" (hmem (by decide))) ?_
  exact reports_slide hvalid horder (Shape.extent_pos (hmem (by decide)))

/-- **The faults of pooling.** -/
theorem reports_pooling (hvalid : window.Valid) (x : Shape) :
    Reports (pooling window x)
      (layoutFaults x ++ slideFaults window x ++ sizeFaults window x (x.extent .channel)) := by
  rw [List.append_assoc]
  refine (reports_ofOrder x).bind fun layout hlayout => ?_
  have horder := ofOrder_eq_ok_iff.mp hlayout
  have hx := axes_perm_of_layout (exists_layout_iff.mp ⟨layout, horder⟩)
  refine Reports.bind_ok (need_of_mem "x" (mem_axes_of_perm hx (by decide))) ?_
  refine Reports.bind_ok (need_of_mem "x" (mem_axes_of_perm hx (by decide))) ?_
  exact reports_slide hvalid horder (Shape.extent_pos (mem_axes_of_perm hx (by decide)))

/-- What can be wrong with a fully connected layer before its output is made. -/
def linearMismatches (x w : Shape) : List ApplyFault :=
  unmet (x.order = .nc) (.unsupportedLayout "x" x.order) ++
    (unmet (w.order.axes.Perm AxisOrder.nc.axes) (.orderMismatch "w" w.order .linearWeight) ++
      unmet (w.extent .channel = x.extent .channel)
        (.extentMismatch "w" .channel (x.extent .channel) (w.extent .channel)))

/-- **The faults of a fully connected layer.** -/
theorem reports_linear (x w : Shape) :
    Reports (linear x w)
      (linearMismatches x w ++ unmet (x.extent .batch * w.extent .batch < Count.limit)
        (.invalidShape (.sizeOverflow .nc))) := by
  have hlayout : x.order.isExactly AxisOrder.nc.axes = true ↔ x.order = .nc := by
    rw [AxisOrder.isExactly_iff]
    exact ⟨AxisOrder.ext_axes, congrArg AxisOrder.axes⟩
  simp only [linearMismatches, List.append_assoc]
  refine Reports.demand hlayout fun hx => ?_
  refine Reports.demand (AxisOrder.sameAxes_iff_perm AxisOrder.nc.nodup) fun hw => ?_
  have hmemx : ∀ {a}, a ∈ AxisOrder.nc.axes → a ∈ x.order.axes := fun ha => hx ▸ ha
  have hmemw : ∀ {a}, a ∈ AxisOrder.nc.axes → a ∈ w.order.axes := fun ha => hw.mem_iff.mpr ha
  refine Reports.bind_ok (need_of_mem "x" (hmemx (by decide))) ?_
  refine (reports_matchExtent "w" (hmemw (by decide)) _).bind fun _ _ => ?_
  refine Reports.bind_ok (need_of_mem "x" (hmemx (by decide))) ?_
  refine Reports.bind_ok (need_of_mem "w" (hmemw (by decide))) ?_
  have hbatch : 0 < x.extent .batch := Shape.extent_pos (hmemx (by decide))
  have hchannels : 0 < w.extent .batch := Shape.extent_pos (hmemw (by decide))
  have hpos : ∀ d ∈ [x.extent .batch, w.extent .batch], 0 < d := by simp [hbatch, hchannels]
  have hmade := reports_outputShape (o := .nc) rfl hpos
  simpa using hmade

/-- The faults of a one-axis operand. -/
def axiswiseFaults (a : Axis) (x b : Shape) : List ApplyFault :=
  unmet (a ∈ x.order.axes) (.axisNotPresent "x" a x.order) ++
    (unmet (b.order.axes = [a]) (.orderMismatch "b" b.order (.only a)) ++
      unmet (b.extent a = x.extent a)
        (.extentMismatch "b" a (x.extent a) (b.extent a)))

theorem reports_axiswise (a : Axis) (x b : Shape) :
    Reports (axiswise a x b) (axiswiseFaults a x b) := by
  refine (reports_need "x" x a).bind fun d hd => ?_
  have ha : a ∈ x.order.axes := Shape.mem_of_extent?_eq_some (need_eq_ok_iff.mp hd)
  rw [need_of_mem "x" ha] at hd
  cases hd
  refine Reports.demand AxisOrder.isExactly_iff fun hb => ?_
  have hmem : a ∈ b.order.axes := hb ▸ List.mem_singleton.mpr rfl
  exact (reports_matchExtent "b" hmem _).bind_pure fun _ => x

/-- The faults of a sum: the orders differ, or the extents of an axis do. -/
def sumFaults (x0 x1 : Shape) : List ApplyFault :=
  unmet (x0.order = x1.order) (.orderMismatch "x1" x1.order (.sameAs x0.order)) ++
    x0.pairs.flatMap fun p =>
      unmet (x1.extent p.1 = p.2) (.extentMismatch "x1" p.1 p.2 (x1.extent p.1))

theorem reports_elementwiseSum (x0 x1 : Shape) :
    Reports (elementwiseSum x0 x1) (sumFaults x0 x1) := by
  refine Reports.demand Iff.rfl fun horder => ?_
  refine (Reports.forM fun p hp => ?_).bind_pure fun _ => x0
  have hmem : p.1 ∈ x1.order.axes := horder ▸ (List.of_mem_zip hp).1
  exact reports_matchExtent "x1" hmem p.2

end ShapeRule

namespace Params

open ShapeRule

variable {p : Params} {inputs : List Shape} {x w : Shape}

/-- **What can be wrong with inputs**, in the order in which it is looked for. -/
noncomputable def inputFaults (p : Params) (inputs : List Shape) : List ApplyFault :=
  match p, inputs with
  | convolution window, [x, w] =>
    convolutionMismatches window x w ++ sizeFaults window x (w.extent .batch)
  | pooling _ window, [x] =>
    layoutFaults x ++ slideFaults window x ++ sizeFaults window x (x.extent .channel)
  | linear, [x, w] =>
    linearMismatches x w ++ unmet (x.extent .batch * w.extent .batch < Count.limit)
      (.invalidShape (.sizeOverflow .nc))
  | axiswise _ a, [x, b] => axiswiseFaults a x b
  | activation _, [_] => []
  | elementwiseSum, [x0, x1] => sumFaults x0 x1
  | reduce _ a, [x] => reduceFaults a x
  | p, inputs => [.arity p.kind.inputSlots inputs.length]

/-- **Inference reports the first of these.** -/
theorem reports_outputShapes (hvalid : p.Valid) (inputs : List Shape) :
    Reports (p.outputShapes inputs) (p.inputFaults inputs) := by
  -- Inputs are as many as one of the families takes, or refused by their number.
  rcases inputs with _ | ⟨x, _ | ⟨w, _ | ⟨z, rest⟩⟩⟩
  · cases p <;> exact Reports.error _ _
  · cases p with
    | pooling _ window => exact (reports_pooling (hvalid _ rfl) x).bind_pure fun y => [y]
    | activation _ => exact Reports.ok _
    | reduce _ a => exact (reports_reduce a x).bind_pure fun y => [y]
    | _ => exact Reports.error _ _
  · cases p with
    | convolution window => exact (reports_convolution (hvalid _ rfl) x w).bind_pure fun y => [y]
    | linear => exact (reports_linear x w).bind_pure fun y => [y]
    | axiswise _ a => exact (reports_axiswise a x w).bind_pure fun y => [y]
    | elementwiseSum => exact (reports_elementwiseSum x w).bind_pure fun y => [y]
    | _ => exact Reports.error _ _
  · cases p <;> exact Reports.error _ _

/-- **As many inputs as the family takes**, one constructor per family. -/
inductive TakesInputs : Params → List Shape → Prop where
  | convolution (window : Window) (x w : Shape) : TakesInputs (convolution window) [x, w]
  | pooling (variant : Pooling) (window : Window) (x : Shape) :
      TakesInputs (pooling variant window) [x]
  | linear (x w : Shape) : TakesInputs linear [x, w]
  | axiswise (role : AxiswiseRole) (a : Axis) (x b : Shape) : TakesInputs (axiswise role a) [x, b]
  | activation (variant : Activation) (x : Shape) : TakesInputs (activation variant) [x]
  | elementwiseSum (x0 x1 : Shape) : TakesInputs elementwiseSum [x0, x1]
  | reduce (variant : Reduction) (a : Axis) (x : Shape) : TakesInputs (reduce variant a) [x]

theorem takesInputs_of_arity (h : inputs.length = p.kind.inputSlots.length) :
    p.TakesInputs inputs := by
  cases p with
  | convolution window =>
      obtain ⟨x, w, rfl⟩ := List.length_eq_two.mp h
      exact .convolution window x w
  | pooling variant window =>
      obtain ⟨x, rfl⟩ := List.length_eq_one_iff.mp h
      exact .pooling variant window x
  | linear =>
      obtain ⟨x, w, rfl⟩ := List.length_eq_two.mp h
      exact .linear x w
  | axiswise role a =>
      obtain ⟨x, b, rfl⟩ := List.length_eq_two.mp h
      exact .axiswise role a x b
  | activation variant =>
      obtain ⟨x, rfl⟩ := List.length_eq_one_iff.mp h
      exact .activation variant x
  | elementwiseSum =>
      obtain ⟨x0, x1, rfl⟩ := List.length_eq_two.mp h
      exact .elementwiseSum x0 x1
  | reduce variant a =>
      obtain ⟨x, rfl⟩ := List.length_eq_one_iff.mp h
      exact .reduce variant a x

end Params

/-! ## Outputs that are too large -/

namespace ShapeRule

variable {window : Window} {x w : Shape}

/-- **Everything but the size of the output** is right with a convolution. -/
structure ConvolutionMatches (window : Window) (x w : Shape) : Prop extends Slides window x where
  weight_axes : w.order.axes.Perm AxisOrder.nchw.axes
  kernel_height : w.extent .height = window.kernel.height.toNat
  kernel_width : w.extent .width = window.kernel.width.toNat
  channels_eq : w.extent .channel = x.extent .channel

/-- **Everything but the size of the output** is right with a fully connected layer. -/
structure LinearMatches (x w : Shape) : Prop where
  layout : x.order = .nc
  weight_axes : w.order.axes.Perm AxisOrder.nc.axes
  channels_eq : w.extent .channel = x.extent .channel

theorem slides_iff : Slides window x ↔ layoutFaults x = [] ∧ slideFaults window x = [] := by
  rw [slideFaults_eq_nil_iff, layoutFaults, unmet_eq_nil_iff]
  constructor
  · rintro ⟨hlayout, hheight, hheightFits, hwidth, hwidthFits⟩
    exact ⟨hlayout, ⟨hheight, hheightFits⟩, hwidth, hwidthFits⟩
  · rintro ⟨hlayout, ⟨hheight, hheightFits⟩, hwidth, hwidthFits⟩
    exact ⟨hlayout, hheight, hheightFits, hwidth, hwidthFits⟩

theorem convolutionMismatches_eq_nil_iff :
    convolutionMismatches window x w = [] ↔ ConvolutionMatches window x w := by
  simp only [convolutionMismatches, List.append_eq_nil_iff, unmet_eq_nil_iff]
  constructor
  · rintro ⟨hlayout, hw, hheight, hwidth, hchannel, hslides⟩
    exact ⟨slides_iff.mpr ⟨hlayout, hslides⟩, hw, hheight, hwidth, hchannel⟩
  · rintro ⟨hslides, hw, hheight, hwidth, hchannel⟩
    obtain ⟨hlayout, hslides⟩ := slides_iff.mp hslides
    exact ⟨hlayout, hw, hheight, hwidth, hchannel, hslides⟩

theorem linearMismatches_eq_nil_iff : linearMismatches x w = [] ↔ LinearMatches x w := by
  simp only [linearMismatches, List.append_eq_nil_iff, unmet_eq_nil_iff]
  constructor
  · rintro ⟨hx, hw, hchannel⟩
    exact ⟨hx, hw, hchannel⟩
  · rintro ⟨hx, hw, hchannel⟩
    exact ⟨hx, hw, hchannel⟩

end ShapeRule

namespace Params

open ShapeRule

variable {p : Params} {inputs : List Shape} {op : String}

/-- **The output would have too many elements**, in the order that it would have, and nothing else
    is wrong. -/
inductive Overflows : Params → List Shape → AxisOrder → Prop where
  | convolution {window : Window} {x w : Shape} (hmatches : ConvolutionMatches window x w)
      (hlarge : Count.limit ≤ slidSize window x (w.extent .batch)) :
      Overflows (convolution window) [x, w] x.order
  | pooling {variant : Pooling} {window : Window} {x : Shape} (hslides : Slides window x)
      (hlarge : Count.limit ≤ slidSize window x (x.extent .channel)) :
      Overflows (pooling variant window) [x] x.order
  | linear {x w : Shape} (hmatches : LinearMatches x w)
      (hlarge : Count.limit ≤ x.extent .batch * w.extent .batch) : Overflows linear [x, w] .nc

/-- The last check is the one of the size, so it fails when nothing else does. -/
theorem head?_append_size_iff {faults : List ApplyFault} {size : Nat} {o : AxisOrder}
    {cause : ShapeError} (hnot : ApplyFault.invalidShape cause ∉ faults) :
    (faults ++ unmet (size < Count.limit)
        (ApplyFault.invalidShape (.sizeOverflow o))).head? = some (.invalidShape cause) ↔
      faults = [] ∧ Count.limit ≤ size ∧ cause = .sizeOverflow o := by
  rw [head?_append_eq_some_iff_of_not_mem hnot, head?_unmet_eq_some_iff, Nat.not_lt,
    ApplyFault.invalidShape.injEq]

/-- Where the size is not looked at, no output is too large. -/
theorem head?_eq_invalidShape_iff_of_not_mem {faults : List ApplyFault} {cause : ShapeError}
    (hnot : ApplyFault.invalidShape cause ∉ faults) (hover : ∀ o, ¬ p.Overflows inputs o) :
    faults.head? = some (.invalidShape cause) ↔
      ∃ o, cause = .sizeOverflow o ∧ p.Overflows inputs o := by
  constructor
  · intro hhead
    exact absurd (List.mem_of_head? hhead) hnot
  · rintro ⟨o, -, h⟩
    exact absurd h (hover o)

/-- **The output is no shape** only where it would be too large. -/
theorem head?_inputFaults_eq_invalidShape_iff (h : p.TakesInputs inputs) {cause : ShapeError} :
    (p.inputFaults inputs).head? = some (.invalidShape cause) ↔
      ∃ o, cause = .sizeOverflow o ∧ p.Overflows inputs o := by
  cases h with
  | convolution window x w =>
      have hnot : ApplyFault.invalidShape cause ∉ convolutionMismatches window x w := by
        simp [convolutionMismatches, layoutFaults, slideFaults, axisFaults]
      refine (head?_append_size_iff hnot).trans ?_
      rw [convolutionMismatches_eq_nil_iff]
      constructor
      · rintro ⟨hmatches, hlarge, rfl⟩
        exact ⟨_, rfl, .convolution hmatches hlarge⟩
      · rintro ⟨_, rfl, hover⟩
        cases hover with
        | convolution hmatches hlarge => exact ⟨hmatches, hlarge, rfl⟩
  | pooling variant window x =>
      have hnot : ApplyFault.invalidShape cause ∉ layoutFaults x ++ slideFaults window x := by
        simp [layoutFaults, slideFaults, axisFaults]
      refine (head?_append_size_iff hnot).trans ?_
      rw [List.append_eq_nil_iff, ← slides_iff]
      constructor
      · rintro ⟨hslides, hlarge, rfl⟩
        exact ⟨_, rfl, .pooling hslides hlarge⟩
      · rintro ⟨_, rfl, hover⟩
        cases hover with
        | pooling hslides hlarge => exact ⟨hslides, hlarge, rfl⟩
  | linear x w =>
      have hnot : ApplyFault.invalidShape cause ∉ linearMismatches x w := by simp [linearMismatches]
      refine (head?_append_size_iff hnot).trans ?_
      rw [linearMismatches_eq_nil_iff]
      constructor
      · rintro ⟨hmatches, hlarge, rfl⟩
        exact ⟨_, rfl, .linear hmatches hlarge⟩
      · rintro ⟨_, rfl, hover⟩
        cases hover with
        | linear hmatches hlarge => exact ⟨hmatches, hlarge, rfl⟩
  -- The other families make no shape that they would have to check for its size.
  | axiswise role a x b =>
      have hnot : ApplyFault.invalidShape cause ∉ axiswiseFaults a x b := by simp [axiswiseFaults]
      exact head?_eq_invalidShape_iff_of_not_mem hnot fun o h => by cases h
  | activation variant x =>
      exact head?_eq_invalidShape_iff_of_not_mem List.not_mem_nil fun o h => by cases h
  | elementwiseSum x0 x1 =>
      have hnot : ApplyFault.invalidShape cause ∉ sumFaults x0 x1 := by simp [sumFaults]
      exact head?_eq_invalidShape_iff_of_not_mem hnot fun o h => by cases h
  | reduce variant a x =>
      have hnot : ApplyFault.invalidShape cause ∉ reduceFaults a x := by simp [reduceFaults]
      exact head?_eq_invalidShape_iff_of_not_mem hnot fun o h => by cases h

/-! ## Inference -/

/-- Inference for an operator of a name, which errors carry. -/
def infer (op : String) (p : Params) (inputs : List Shape) : Except ApplyError (List Shape) :=
  (p.outputShapes inputs).mapError (ApplyError.mk op)

/-- **What inference can raise.** A missing axis is one that the parameters name, a window fails
    only where there is one, and an output that is no shape is too large. The number of inputs was
    looked at before, and so were variables and names. -/
def MayRaise (p : Params) (inputs : List Shape) : ApplyFault → Prop
  | .arity .. | .unknownVariable .. | .duplicateOperator => False
  | .axisNotPresent _ a _ => (∃ role, p = axiswise role a) ∨ ∃ variant, p = reduce variant a
  | .windowTooLarge .. | .extentOverflow .. => ∃ window, p.window? = some window
  | .invalidShape cause => ∃ o, cause = .sizeOverflow o ∧ p.Overflows inputs o
  | .extentMismatch .. | .orderMismatch .. | .unsupportedLayout .. => True

/-- Inference has one output or an error of the operator. -/
theorem infer_cases (op : String) (p : Params) (inputs : List Shape) :
    (∃ y, infer op p inputs = .ok [y]) ∨
      ∃ fault, p.outputShapes inputs = .error fault ∧ infer op p inputs = .error ⟨op, fault⟩ := by
  unfold infer
  cases h : p.outputShapes inputs with
  | ok ys =>
      obtain ⟨y, rfl⟩ := outputShapes_eq_ok h
      exact Or.inl ⟨y, rfl⟩
  | error fault => exact Or.inr ⟨fault, rfl, rfl⟩

theorem infer_eq_ok_iff {ys : List Shape} :
    infer op p inputs = .ok ys ↔ p.outputShapes inputs = .ok ys :=
  mapError_eq_ok_iff

theorem infer_eq_error_iff {fault : ApplyFault} :
    infer op p inputs = .error ⟨op, fault⟩ ↔ p.outputShapes inputs = .error fault := by
  unfold infer
  cases p.outputShapes inputs <;> simp [Except.mapError]

/-- No family looks for anything else. -/
theorem mayRaise_of_error (hvalid : p.Valid) (h : p.TakesInputs inputs) {fault : ApplyFault}
    (hfault : p.outputShapes inputs = .error fault) : p.MayRaise inputs fault := by
  have hreports := reports_outputShapes hvalid inputs
  have hmem := hreports.mem_of_error hfault
  cases fault with
  | invalidShape cause =>
      exact (head?_inputFaults_eq_invalidShape_iff h).mp (hreports.eq_error_iff.mp hfault)
  | extentMismatch | orderMismatch | unsupportedLayout => trivial
  | arity | unknownVariable | duplicateOperator | axisNotPresent | windowTooLarge |
      extentOverflow =>
      cases h <;> simp_all [MayRaise, window?, inputFaults, convolutionMismatches,
        linearMismatches, layoutFaults, slideFaults, axisFaults, sizeFaults, axiswiseFaults,
        sumFaults, reduceFaults]

theorem infer_elementwiseSum_eq_ok_iff {x0 x1 : Shape} {ys : List Shape} :
    infer op elementwiseSum [x0, x1] = .ok ys ↔ x0 = x1 ∧ ys = [x0] := by
  refine (infer_eq_ok_iff.trans singleton_eq_ok_iff).trans ?_
  simp only [elementwiseSum_eq_ok_iff]
  constructor
  · rintro ⟨y, rfl, rfl, rfl⟩
    exact ⟨rfl, rfl⟩
  · rintro ⟨rfl, rfl⟩
    exact ⟨x0, rfl, rfl, rfl⟩

theorem infer_axiswise_eq_ok_iff {role : AxiswiseRole} {a : Axis} {x b : Shape}
    {ys : List Shape} :
    infer op (axiswise role a) [x, b] = .ok ys ↔
      (a ∈ x.order.axes ∧ b.order.axes = [a] ∧ b.extent a = x.extent a) ∧ ys = [x] := by
  refine (infer_eq_ok_iff.trans singleton_eq_ok_iff).trans ?_
  simp only [axiswise_eq_ok_iff]
  constructor
  · rintro ⟨y, rfl, hfits, rfl⟩
    exact ⟨hfits, rfl⟩
  · rintro ⟨hfits, rfl⟩
    exact ⟨x, rfl, hfits, rfl⟩

theorem exists_infer_linear_iff {x w : Shape} :
    (∃ ys, infer op linear [x, w] = .ok ys) ↔
      LinearMatches x w ∧ x.extent .batch * w.extent .batch < Count.limit := by
  simp only [infer_eq_ok_iff]
  have hreports := reports_outputShapes (p := linear) nofun [x, w]
  rw [hreports.exists_ok_iff, inputFaults, List.append_eq_nil_iff, linearMismatches_eq_nil_iff,
    unmet_eq_nil_iff]

/-- **Applying an operator** to variables of the graph, under a name that is free, fails as
    inference on their shapes does. -/
theorem apply_eq_error_iff_infer {g : Graph} {operator : Operator} {ids : List VariableId}
    {shapes : List Shape} (harity : ids.length = operator.params.kind.inputSlots.length)
    (hname : g.operatorIndex.contains (g.nameFor operator) = false)
    (hshapes : (operator.params.kind.inputSlots.zip ids).mapM g.inputShape = .ok shapes)
    {e : ApplyError} :
    g.apply operator ids = .error e ↔
      infer (g.nameFor operator) operator.params shapes = .error e := by
  have hcheck : g.applyCheck (g.nameFor operator) operator.params ids =
      operator.params.outputShapes shapes := by
    unfold Graph.applyCheck
    dsimp only
    rw [if_neg (not_not.mpr harity), hname, if_neg Bool.false_ne_true, hshapes]
    rfl
  have hgiven : operator.name?.getD g.unusedName = g.nameFor operator := rfl
  unfold Graph.apply infer
  dsimp only
  rw [hgiven, hcheck]
  cases operator.params.outputShapes shapes <;> simp [Except.mapError]

/-- **Inference has one output or one error of the operator**, and the error is the first of those
    that are left to the family. An output is refused only where everything else is right and its
    elements, counted exactly, are more than words can count; three families answer by plain
    equations. Words and tables give the same errors, and so does an application to a graph. -/
theorem infer_faults_exact :
    (∀ (op : String) (p : Params) (inputs : List Shape), p.Valid →
      inputs.length = p.kind.inputSlots.length →
        ((∃ y, infer op p inputs = .ok [y]) ∨
          ∃ fault, infer op p inputs = .error ⟨op, fault⟩ ∧ p.MayRaise inputs fault) ∧
        (∀ fault, infer op p inputs = .error ⟨op, fault⟩ ↔
          (p.inputFaults inputs).head? = some fault) ∧
        (∀ cause, infer op p inputs = .error ⟨op, .invalidShape cause⟩ ↔
          ∃ o, cause = .sizeOverflow o ∧ p.Overflows inputs o) ∧
        ∀ fault, StoredShape.infer p (inputs.map Shape.stored) = .error fault ↔
          infer op p inputs = .error ⟨op, fault⟩) ∧
    (∀ (op : String) (variant : Activation) (x : Shape),
      infer op (activation variant) [x] = .ok [x]) ∧
    (∀ (op : String) (x0 x1 : Shape) (ys : List Shape),
      infer op elementwiseSum [x0, x1] = .ok ys ↔ x0 = x1 ∧ ys = [x0]) ∧
    (∀ (op : String) (role : AxiswiseRole) (a : Axis) (x b : Shape) (ys : List Shape),
      infer op (axiswise role a) [x, b] = .ok ys ↔
        (a ∈ x.order.axes ∧ b.order.axes = [a] ∧ b.extent a = x.extent a) ∧ ys = [x]) ∧
    (∀ (op : String) (x w : Shape), (∃ ys, infer op linear [x, w] = .ok ys) ↔
      LinearMatches x w ∧ x.extent .batch * w.extent .batch < Count.limit) ∧
    ∀ (g : Graph) (operator : Operator) (ids : List VariableId) (shapes : List Shape),
      ids.length = operator.params.kind.inputSlots.length →
        g.operatorIndex.contains (g.nameFor operator) = false →
          (operator.params.kind.inputSlots.zip ids).mapM g.inputShape = .ok shapes →
            ∀ e, g.apply operator ids = .error e ↔
              infer (g.nameFor operator) operator.params shapes = .error e := by
  refine ⟨fun op p inputs hvalid harity => ⟨?_, fun fault => ?_, fun cause => ?_, fun fault => ?_⟩,
    fun op variant x => rfl, fun op x0 x1 ys => infer_elementwiseSum_eq_ok_iff,
    fun op role a x b ys => infer_axiswise_eq_ok_iff, fun op x w => exists_infer_linear_iff,
    fun g operator ids shapes harity hname hshapes e =>
      apply_eq_error_iff_infer harity hname hshapes⟩
  · rcases infer_cases op p inputs with hone | ⟨fault, hfault, hraised⟩
    · exact Or.inl hone
    · exact Or.inr ⟨fault, hraised, mayRaise_of_error hvalid (takesInputs_of_arity harity) hfault⟩
  · rw [infer_eq_error_iff, (reports_outputShapes hvalid inputs).eq_error_iff]
  · rw [infer_eq_error_iff, (reports_outputShapes hvalid inputs).eq_error_iff,
      head?_inputFaults_eq_invalidShape_iff (takesInputs_of_arity harity)]
  · rw [infer_eq_error_iff, StoredShape.infer_eq hvalid]
    cases p.outputShapes inputs <;> simp [Except.map]

/-- The number of rows is the square root of `Count.limit`. -/
def longColumn : Shape := ⟨.nc, [4294967296, 1], by decide, by decide, by decide⟩

/-- A graph that takes in such a column. -/
def columnGraph : Graph := (Graph.empty ⟨0⟩ "columns").run [.addInput "x" longColumn]

/-- A fully connected layer from one long column to another is too large by one, also where both are
    the input of a graph; and a bias goes along an axis that is not there. -/
theorem infer_faults_exact_longColumn :
    (∃ hlinear : linear.Valid,
      infer "fc" linear [longColumn, longColumn] =
        .error ⟨"fc", .invalidShape (.sizeOverflow .nc)⟩ ∧
      columnGraph.apply (.unnamed linear hlinear) [⟨⟨0⟩, 0⟩, ⟨⟨0⟩, 0⟩] =
        .error ⟨"op0", .invalidShape (.sizeOverflow .nc)⟩) ∧
    (axiswise .bias .height).Valid ∧
      infer "shift" (axiswise .bias .height) [longColumn, longColumn] =
        .error ⟨"shift", .axisNotPresent "x" .height .nc⟩ := by
  obtain ⟨hraises, -, -, -, -, happly⟩ := infer_faults_exact
  have hlinear : linear.Valid := nofun
  have haxiswise : (axiswise .bias .height).Valid := nofun
  have hmatches : LinearMatches longColumn longColumn := ⟨rfl, List.Perm.refl _, rfl⟩
  have hlarge : ∀ op, infer op linear [longColumn, longColumn] =
      .error ⟨op, .invalidShape (.sizeOverflow .nc)⟩ := by
    intro op
    obtain ⟨-, -, hinvalid, -⟩ := hraises op linear [longColumn, longColumn] hlinear rfl
    exact (hinvalid _).mpr ⟨.nc, rfl, .linear hmatches (by decide)⟩
  obtain ⟨-, hfirst, -⟩ :=
    hraises "shift" (axiswise .bias .height) [longColumn, longColumn] haxiswise rfl
  refine ⟨⟨hlinear, hlarge "fc", ?_⟩, haxiswise, (hfirst _).mpr rfl⟩
  exact (happly columnGraph (.unnamed linear hlinear) _ [longColumn, longColumn] rfl rfl rfl _).mpr
    (hlarge _)

end Params

end TensorGraph
