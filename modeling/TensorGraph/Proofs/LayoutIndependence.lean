import TensorGraph.Proofs.ShapeRules

/-!
# `TensorGraph.Proofs.LayoutIndependence` — **shape rules do not see how tensors are laid out**

Two lists of inputs that differ in the order of axes only, each in layouts that the family works in,
are accepted or refused together, and what comes out differs in the order of axes only. The order of
an output is the one that its own first input has, so layouts pass through.

## Contents
- **Layouts** `Params.Admits`, the orders that a family works in, and `Params.outputAxes`, the order
  that comes out.
- **One rule on two inputs**: from success on one to success on the other, family by family.
- **All rules**: `outputShapes_layout_independent`.
-/

namespace TensorGraph

open Checks ShapeRule

namespace Params

/-! ## Layouts -/

/-- The orders of inputs that a family works in. Where nothing is said, any order will do. -/
def Admits : Params → List AxisOrder → Prop
  | convolution _, [x, w] => (x = .nchw ∨ x = .nhwc) ∧ w.axes.Perm AxisOrder.nchw.axes
  | pooling _ _, [x] => x = .nchw ∨ x = .nhwc
  | linear, [x, w] => x = .nc ∧ (w = .nc ∨ w = .cn)
  | elementwiseSum, [x0, x1] => x0 = x1
  | _, _ => True

/-- The axes of the output in order: those of the first input, less the one that is folded away. -/
def outputAxes : Params → AxisOrder → List Axis
  | reduce _ a, x => x.axes.filter (· ≠ a)
  | _, x => x.axes

end Params

namespace ShapeRule

variable {window : Window} {x x' w w' b b' y y' : Shape} {channels : Nat}

/-! ## One rule on two inputs -/

/-! ### Windows -/

theorem paddedHeight_congr (hx : x.SameExtents x') :
    paddedHeight window x = paddedHeight window x' := by
  rw [paddedHeight, paddedHeight, hx.extent_congr]

theorem paddedWidth_congr (hx : x.SameExtents x') :
    paddedWidth window x = paddedWidth window x' := by
  rw [paddedWidth, paddedWidth, hx.extent_congr]

theorem outputHeight_congr (hx : x.SameExtents x') :
    outputHeight window x = outputHeight window x' := by
  rw [outputHeight, outputHeight, paddedHeight_congr hx]

theorem outputWidth_congr (hx : x.SameExtents x') :
    outputWidth window x = outputWidth window x' := by
  rw [outputWidth, outputWidth, paddedWidth_congr hx]

theorem slidSize_congr (hx : x.SameExtents x') :
    slidSize window x channels = slidSize window x' channels := by
  rw [slidSize, slidSize, hx.extent_congr, outputHeight_congr hx, outputWidth_congr hx]

/-- A window that moves over a shape moves over it in the other layout, too. -/
theorem Slides.congr (h : Slides window x) (hx : x.SameExtents x')
    (hlayout : x'.order = .nchw ∨ x'.order = .nhwc) : Slides window x' where
  layout := hlayout
  height_lt := paddedHeight_congr hx ▸ h.height_lt
  height_fits := paddedHeight_congr hx ▸ h.height_fits
  width_lt := paddedWidth_congr hx ▸ h.width_lt
  width_fits := paddedWidth_congr hx ▸ h.width_fits

/-- What comes out in either layout has the same extents. -/
theorem Slid.sameExtents (h : Slid window x channels y) (h' : Slid window x' channels y')
    (hx : x.SameExtents x') (hlayout : x.order = .nchw ∨ x.order = .nhwc) : y.SameExtents y' where
  mem_iff a := by
    rw [h.order_eq, h'.order_eq]
    exact hx.mem_iff a
  extent_eq a ha := by
    rw [h.order_eq] at ha
    cases a with
    | batch => rw [h.batch_eq, h'.batch_eq, hx.extent_congr]
    | channel => rw [h.channel_eq, h'.channel_eq]
    | height => rw [h.height_eq, h'.height_eq, outputHeight_congr hx]
    | width => rw [h.width_eq, h'.width_eq, outputWidth_congr hx]
    | time => exact absurd ((axes_perm_of_layout hlayout).mem_iff.mp ha) (by decide)

theorem ConvolutionAccepts.congr (h : ConvolutionAccepts window x w) (hx : x.SameExtents x')
    (hw : w.SameExtents w') (hlayout : x'.order = .nchw ∨ x'.order = .nhwc) :
    ConvolutionAccepts window x' w' where
  toSlides := h.toSlides.congr hx hlayout
  weight_axes := hw.perm.symm.trans h.weight_axes
  kernel_height := hw.extent_congr .height ▸ h.kernel_height
  kernel_width := hw.extent_congr .width ▸ h.kernel_width
  channels_eq := by
    rw [← hw.extent_congr, ← hx.extent_congr]
    exact h.channels_eq
  countable := by
    rw [← slidSize_congr hx, ← hw.extent_congr]
    exact h.countable

theorem convolution_transfer (hvalid : window.Valid) (hx : x.SameExtents x')
    (hw : w.SameExtents w') (hlayout : x'.order = .nchw ∨ x'.order = .nhwc)
    (h : convolution window x w = .ok y) :
    ∃ y', convolution window x' w' = .ok y' ∧ y.SameExtents y' := by
  obtain ⟨hacc, hslid⟩ := (convolution_eq_ok_iff hvalid).mp h
  obtain ⟨y', hy'⟩ := (exists_convolution_iff hvalid).mpr (hacc.congr hx hw hlayout)
  have hslid' := ((convolution_eq_ok_iff hvalid).mp hy').2
  rw [← hw.extent_congr] at hslid'
  exact ⟨y', hy', hslid.sameExtents hslid' hx hacc.layout⟩

theorem PoolingAccepts.congr (h : PoolingAccepts window x) (hx : x.SameExtents x')
    (hlayout : x'.order = .nchw ∨ x'.order = .nhwc) : PoolingAccepts window x' where
  toSlides := h.toSlides.congr hx hlayout
  countable := by
    rw [← slidSize_congr hx, ← hx.extent_congr]
    exact h.countable

theorem pooling_transfer (hvalid : window.Valid) (hx : x.SameExtents x')
    (hlayout : x'.order = .nchw ∨ x'.order = .nhwc) (h : pooling window x = .ok y) :
    ∃ y', pooling window x' = .ok y' ∧ y.SameExtents y' := by
  obtain ⟨hacc, hslid⟩ := (pooling_eq_ok_iff hvalid).mp h
  obtain ⟨y', hy'⟩ := (exists_pooling_iff hvalid).mpr (hacc.congr hx hlayout)
  have hslid' := ((pooling_eq_ok_iff hvalid).mp hy').2
  rw [← hx.extent_congr] at hslid'
  exact ⟨y', hy', hslid.sameExtents hslid' hx hacc.layout⟩

/-! ### The other families -/

/-- The weight may be laid out either way; `x` comes in one order only. -/
theorem linear_transfer (hx : x.SameExtents x') (hw : w.SameExtents w') (hlayout : x'.order = .nc)
    (h : linear x w = .ok y) : ∃ y', linear x' w' = .ok y' ∧ y.SameExtents y' := by
  obtain ⟨⟨horder, hweight, hchannel⟩, ho, hbatch, hout⟩ := linear_eq_ok_iff.mp h
  -- There is one layout for `x`, so only the weight can differ.
  have hsame : x = x' := hx.eq_of_order_eq (horder.trans hlayout.symm)
  subst hsame
  rw [hw.extent_congr] at hchannel hout
  have hweight' : w'.order.axes.Perm AxisOrder.nc.axes := hw.perm.symm.trans hweight
  exact ⟨y, linear_eq_ok_iff.mpr ⟨⟨horder, hweight', hchannel⟩, ho, hbatch, hout⟩, .refl y⟩

/-- There is one way only to lay out a single axis. -/
theorem axiswise_transfer {a : Axis} (hx : x.SameExtents x') (hb : b.SameExtents b')
    (h : axiswise a x b = .ok y) : ∃ y', axiswise a x' b' = .ok y' ∧ y.SameExtents y' := by
  obtain ⟨⟨ha, haxes, hextent⟩, rfl⟩ := axiswise_eq_ok_iff.mp h
  have haxes' : b'.order.axes = [a] := List.perm_singleton.mp (haxes ▸ hb.perm.symm)
  rw [hb.extent_congr, hx.extent_congr] at hextent
  exact ⟨x', axiswise_eq_ok_iff.mpr ⟨⟨(hx.mem_iff a).mp ha, haxes', hextent⟩, rfl⟩, hx⟩

theorem elementwiseSum_transfer {x0 x0' x1 x1' : Shape} (h0 : x0.SameExtents x0')
    (h1 : x1.SameExtents x1') (horder : x0'.order = x1'.order)
    (h : elementwiseSum x0 x1 = .ok y) :
    ∃ y', elementwiseSum x0' x1' = .ok y' ∧ y.SameExtents y' := by
  obtain ⟨rfl, rfl⟩ := elementwiseSum_eq_ok_iff.mp h
  have hsame : x0' = x1' := Shape.ext_extent horder fun a _ => by
    rw [← h0.extent_congr, h1.extent_congr]
  exact ⟨x0', elementwiseSum_eq_ok_iff.mpr ⟨hsame, rfl⟩, h0⟩

/-- What is left after an axis is folded away can be rearranged like the input. -/
theorem reduce_transfer {a : Axis} (hx : x.SameExtents x') (h : reduce a x = .ok y) :
    ∃ y', reduce a x' = .ok y' ∧ y.SameExtents y' := by
  obtain ⟨ha, haxes, hextent⟩ := reduce_eq_ok_iff.mp h
  -- The axes that are left of `x'` are those of `y`, so `y` can be put into their order.
  have hperm : (x'.order.axes.filter (· ≠ a)).Perm y.order.axes := by
    rw [haxes]
    exact hx.perm.symm.filter _
  have hne : x'.order.axes.filter (· ≠ a) ≠ [] := by
    intro hnil
    rw [hnil] at hperm
    exact y.order.axes_ne_nil hperm.nil_eq.symm
  let o : AxisOrder := ⟨x'.order.axes.filter (· ≠ a), hne, x'.order.nodup.filter _⟩
  obtain ⟨y', ho, hsame⟩ := y.exists_rearranged (o := o) hperm
  refine ⟨y', reduce_eq_ok_iff.mpr ⟨(hx.mem_iff a).mp ha, by rw [ho], fun c hc => ?_⟩, hsame⟩
  rw [← hsame.extent_congr, hextent c ((hsame.mem_iff c).mpr hc), hx.extent_congr]

end ShapeRule

/-! ## All rules -/

theorem forall₂_singleton {r : Shape → Shape → Prop} {x : Shape} {ys : List Shape}
    (h : List.Forall₂ r [x] ys) : ∃ x', ys = [x'] ∧ r x x' := by
  cases h with
  | cons hx hnil =>
      cases hnil
      exact ⟨_, rfl, hx⟩

theorem forall₂_pair {r : Shape → Shape → Prop} {x w : Shape} {ys : List Shape}
    (h : List.Forall₂ r [x, w] ys) : ∃ x' w', ys = [x', w'] ∧ r x x' ∧ r w w' := by
  cases h with
  | cons hx hrest =>
      obtain ⟨w', rfl, hw⟩ := forall₂_singleton hrest
      exact ⟨_, w', rfl, hx, hw⟩

namespace Params

variable {p : Params} {xs ys : List Shape} {s : Shape}

/-- **From one layout to the other.** A rule that answers on some inputs answers on the same inputs
    laid out otherwise, and the answers differ in their order at most. -/
theorem infers_transfer (hvalid : p.Valid) (hsame : List.Forall₂ Shape.SameExtents xs ys)
    (hys : p.Admits (ys.map Shape.order)) (h : Infers p xs s) :
    ∃ t, Infers p ys t ∧ s.SameExtents t := by
  cases h with
  | convolution h =>
      obtain ⟨x', w', rfl, hx, hw⟩ := forall₂_pair hsame
      obtain ⟨t, ht, hst⟩ := convolution_transfer (hvalid _ rfl) hx hw hys.1 h
      exact ⟨t, .convolution ht, hst⟩
  | pooling h =>
      obtain ⟨x', rfl, hx⟩ := forall₂_singleton hsame
      obtain ⟨t, ht, hst⟩ := pooling_transfer (hvalid _ rfl) hx hys h
      exact ⟨t, .pooling ht, hst⟩
  | linear h =>
      obtain ⟨x', w', rfl, hx, hw⟩ := forall₂_pair hsame
      obtain ⟨t, ht, hst⟩ := linear_transfer hx hw hys.1 h
      exact ⟨t, .linear ht, hst⟩
  | axiswise h =>
      obtain ⟨x', b', rfl, hx, hb⟩ := forall₂_pair hsame
      obtain ⟨t, ht, hst⟩ := axiswise_transfer hx hb h
      exact ⟨t, .axiswise ht, hst⟩
  | activation =>
      obtain ⟨x', rfl, hx⟩ := forall₂_singleton hsame
      exact ⟨x', .activation, hx⟩
  | elementwiseSum h =>
      obtain ⟨x0', x1', rfl, h0, h1⟩ := forall₂_pair hsame
      obtain ⟨t, ht, hst⟩ := elementwiseSum_transfer h0 h1 hys h
      exact ⟨t, .elementwiseSum ht, hst⟩
  | reduce h =>
      obtain ⟨x', rfl, hx⟩ := forall₂_singleton hsame
      obtain ⟨t, ht, hst⟩ := reduce_transfer hx h
      exact ⟨t, .reduce ht, hst⟩

/-- **The order of the output** is that of the first input, but for the axis folded away. -/
theorem axes_of_infers (hvalid : p.Valid) (h : Infers p xs s) :
    ∃ x ∈ xs.head?, s.order.axes = p.outputAxes x.order := by
  cases h with
  | convolution h =>
      have hslid := ((convolution_eq_ok_iff (hvalid _ rfl)).mp h).2
      exact ⟨_, rfl, congrArg AxisOrder.axes hslid.order_eq⟩
  | pooling h =>
      have hslid := ((pooling_eq_ok_iff (hvalid _ rfl)).mp h).2
      exact ⟨_, rfl, congrArg AxisOrder.axes hslid.order_eq⟩
  | linear h =>
      obtain ⟨⟨hx, -⟩, hs, -⟩ := linear_eq_ok_iff.mp h
      exact ⟨_, rfl, congrArg AxisOrder.axes (hs.trans hx.symm)⟩
  | axiswise h =>
      obtain ⟨-, rfl⟩ := axiswise_eq_ok_iff.mp h
      exact ⟨_, rfl, rfl⟩
  | activation => exact ⟨_, rfl, rfl⟩
  | elementwiseSum h =>
      obtain ⟨-, rfl⟩ := elementwiseSum_eq_ok_iff.mp h
      exact ⟨_, rfl, rfl⟩
  | reduce h => exact ⟨_, rfl, (reduce_eq_ok_iff.mp h).2.1⟩

/-- Inputs that differ in their layouts do so in both directions. -/
theorem forall₂_sameExtents_symm (h : List.Forall₂ Shape.SameExtents xs ys) :
    List.Forall₂ Shape.SameExtents ys xs := by
  induction h with
  | nil => exact .nil
  | cons hxy _ ih => exact .cons hxy.symm ih

theorem exists_outputShapes_of_sameExtents (hvalid : p.Valid)
    (hsame : List.Forall₂ Shape.SameExtents xs ys) (hys : p.Admits (ys.map Shape.order))
    (h : ∃ out, p.outputShapes xs = .ok out) : ∃ out, p.outputShapes ys = .ok out := by
  obtain ⟨out, hout⟩ := h
  obtain ⟨s, -, hs⟩ := outputShapes_eq_ok_iff.mp hout
  obtain ⟨t, ht, -⟩ := infers_transfer hvalid hsame hys hs
  exact ⟨[t], outputShapes_eq_ok_iff.mpr ⟨t, rfl, ht⟩⟩

/-- **Shape rules do not depend on the layout.** On two lists of inputs with the same axes and
    extents slot by slot, in layouts that the family works in, inference succeeds on both or on
    none; the outputs have the same axes and extents, each in the order of its own first input. -/
theorem outputShapes_layout_independent (hvalid : p.Valid)
    (hsame : List.Forall₂ Shape.SameExtents xs ys) (hxs : p.Admits (xs.map Shape.order))
    (hys : p.Admits (ys.map Shape.order)) :
    ((∃ out, p.outputShapes xs = .ok out) ↔ ∃ out, p.outputShapes ys = .ok out) ∧
      ∀ out out', p.outputShapes xs = .ok out → p.outputShapes ys = .ok out' →
        ∃ s t, out = [s] ∧ out' = [t] ∧ s.SameExtents t ∧
          (∃ x ∈ xs.head?, s.order.axes = p.outputAxes x.order) ∧
          ∃ y ∈ ys.head?, t.order.axes = p.outputAxes y.order := by
  constructor
  · exact ⟨exists_outputShapes_of_sameExtents hvalid hsame hys,
      exists_outputShapes_of_sameExtents hvalid (forall₂_sameExtents_symm hsame) hxs⟩
  · intro out out' hout hout'
    obtain ⟨s, rfl, hs⟩ := outputShapes_eq_ok_iff.mp hout
    obtain ⟨t, ht, hst⟩ := infers_transfer hvalid hsame hys hs
    -- Inference is a function, so what was found on the other side is the output there.
    have hfound : p.outputShapes ys = .ok [t] := outputShapes_eq_ok_iff.mpr ⟨t, rfl, ht⟩
    rw [hfound] at hout'
    cases hout'
    exact ⟨s, t, rfl, rfl, hst, axes_of_infers hvalid hs, axes_of_infers hvalid ht⟩

/-- The image with its channels in front. -/
def unevenPlanes : Shape := ⟨.nchw, [2, 3, 6, 8], by decide, by decide, by decide⟩

/-- The filter with its channels in the middle. -/
def unevenStrips : Shape := ⟨⟨[.width, .channel, .batch, .height], by decide, by decide⟩,
  [2, 3, 5, 3], by decide, by decide, by decide⟩

/-- One convolution in two layouts for the image and two for the filter. -/
theorem outputShapes_layout_independent_uneven :
    ∃ s t, (convolution unevenWindow).outputShapes [unevenImage, unevenFilter] = .ok [s] ∧
      (convolution unevenWindow).outputShapes [unevenPlanes, unevenStrips] = .ok [t] ∧
      s.SameExtents t ∧ s.order = .nhwc ∧ t.order = .nchw := by
  have himage : unevenImage.SameExtents unevenPlanes :=
    ⟨fun a => by cases a <;> decide, by decide⟩
  have hfilter : unevenFilter.SameExtents unevenStrips :=
    ⟨fun a => by cases a <;> decide, by decide⟩
  have hinputs : List.Forall₂ Shape.SameExtents [unevenImage, unevenFilter]
      [unevenPlanes, unevenStrips] := .cons himage (.cons hfilter .nil)
  have hvalid : (convolution unevenWindow).Valid := by decide
  obtain ⟨hboth, hsame⟩ := outputShapes_layout_independent hvalid hinputs
    ⟨Or.inr rfl, by decide⟩ ⟨Or.inl rfl, by decide⟩
  let y : Shape := ⟨.nhwc, [2, 3, 3, 5], by decide, by decide, by decide⟩
  have hy : (convolution unevenWindow).outputShapes [unevenImage, unevenFilter] = .ok [y] := by
    decide
  obtain ⟨_, hout⟩ := hboth.mp ⟨_, hy⟩
  obtain ⟨s, t, hs, rfl, hst, -, x, hhead, haxes⟩ := hsame _ _ hy hout
  cases hs
  cases hhead
  exact ⟨y, t, hy, hout, hst, rfl, AxisOrder.ext_axes haxes⟩

end Params

end TensorGraph
