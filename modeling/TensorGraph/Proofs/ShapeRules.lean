import Mathlib.Data.Set.Card
import TensorGraph.Proofs.Extents

/-!
# `TensorGraph.Proofs.ShapeRules` — **when a shape rule succeeds, and with what**

Rules are sequences of checks on extents. Each succeeds exactly under a condition that can be read
off the input shapes alone, and then the output is determined by its order and its extents. There is
one such equivalence per family; those of convolution and pooling rest on one about windows.

## Contents
- **Questions to a shape**: `need`, `matchExtent`, `outputShape`.
- **Windows.** `Window.placements` are the positions that a window takes along an axis; `Slides` and
  `Slid` say when a window moves over a shape and what comes out.
- **Machine words.** On a valid window the arithmetic never divides by zero and never leaves the
  words: `machineExtents_eq`.
- **The rules**, one equivalence each.
-/

namespace TensorGraph

open Checks

namespace ShapeRule

variable {slot : String} {s x w b y : Shape} {a : Axis} {d : Nat}

/-! ## Questions to a shape -/

theorem need_eq_ok_iff : need slot s a = .ok d ↔ s.extent? a = some d := by
  unfold need
  cases s.extent? a <;> simp

theorem need_of_mem (slot : String) (h : a ∈ s.order.axes) : need slot s a = .ok (s.extent a) :=
  need_eq_ok_iff.mpr (Shape.extent?_of_mem h)

theorem matchExtent_eq_ok_iff : matchExtent slot s a d = .ok () ↔ s.extent? a = some d := by
  unfold matchExtent
  rw [bind_eq_ok_iff]
  constructor
  · rintro ⟨got, hgot, h⟩
    split at h
    · rename_i heq
      rw [← heq]
      exact need_eq_ok_iff.mp hgot
    · cases h
  · intro h
    exact ⟨d, need_eq_ok_iff.mpr h, by rw [if_pos rfl]; rfl⟩

/-- Of an axis that the shape has, a match is an equation. -/
theorem matchExtent_eq_ok_iff_of_mem (h : a ∈ s.order.axes) :
    matchExtent slot s a d = .ok () ↔ s.extent a = d := by
  rw [matchExtent_eq_ok_iff, Shape.extent?_eq_some_iff_extent h]

theorem outputShape_eq_ok_iff {o : AxisOrder} {dims : List Nat} :
    outputShape o dims = .ok y ↔ y.order = o ∧ o.axes.map y.extent = dims := by
  unfold outputShape
  rw [mapError_eq_ok_iff, Shape.ofDims_eq_ok_iff, Shape.dims_eq]
  constructor
  · rintro ⟨rfl, hdims⟩
    exact ⟨rfl, hdims⟩
  · rintro ⟨rfl, hdims⟩
    exact ⟨rfl, hdims⟩

end ShapeRule

/-! ## Windows -/

/-- Where a window of `kernel` elements stands in an axis of `padded` elements when it moves by
    `stride`: as many steps from the start as keep it within the axis. -/
def Window.placements (padded kernel stride : Nat) : Set Nat :=
  {i | i * stride + kernel ≤ padded}

theorem Window.placements_eq_Iio {padded kernel stride : Nat} (hstride : 0 < stride)
    (hfit : kernel ≤ padded) :
    placements padded kernel stride = Set.Iio ((padded - kernel) / stride + 1) := by
  ext i
  show i * stride + kernel ≤ padded ↔ i < (padded - kernel) / stride + 1
  rw [Nat.lt_succ_iff, Nat.le_div_iff_mul_le hstride]
  omega

/-- **The number of placements** is one more than the steps that fit behind the first. -/
theorem Window.ncard_placements {padded kernel stride : Nat} (hstride : 0 < stride)
    (hfit : kernel ≤ padded) :
    (placements padded kernel stride).ncard = (padded - kernel) / stride + 1 := by
  have hrange : placements padded kernel stride =
      (Finset.range ((padded - kernel) / stride + 1) : Set Nat) := by
    rw [placements_eq_Iio hstride hfit, Finset.coe_range]
  rw [hrange, Set.ncard_coe_finset, Finset.card_range]

namespace ShapeRule

variable {window : Window} {s x w b y : Shape} {channels : Nat}

/-- The height with the padding of both sides. -/
def paddedHeight (window : Window) (x : Shape) : Nat :=
  x.extent .height + 2 * window.padding.height.toNat

/-- The width with the padding of both sides. -/
def paddedWidth (window : Window) (x : Shape) : Nat :=
  x.extent .width + 2 * window.padding.width.toNat

/-- How often the window fits along the height. -/
noncomputable def outputHeight (window : Window) (x : Shape) : Nat :=
  (Window.placements (paddedHeight window x) window.kernel.height.toNat
    window.stride.height.toNat).ncard

/-- How often the window fits along the width. -/
noncomputable def outputWidth (window : Window) (x : Shape) : Nat :=
  (Window.placements (paddedWidth window x) window.kernel.width.toNat
    window.stride.width.toNat).ncard

/-- **A window moves over a shape**: in one of two layouts, and with padded extents that are counts
    and hold the window. -/
structure Slides (window : Window) (x : Shape) : Prop where
  layout : x.order = .nchw ∨ x.order = .nhwc
  height_lt : paddedHeight window x < Count.limit
  height_fits : window.kernel.height.toNat ≤ paddedHeight window x
  width_lt : paddedWidth window x < Count.limit
  width_fits : window.kernel.width.toNat ≤ paddedWidth window x

/-- **What comes out** of a window that moved over a shape: its layout and batch, a number of
    channels, and one element for each placement. -/
structure Slid (window : Window) (x : Shape) (channels : Nat) (y : Shape) : Prop where
  order_eq : y.order = x.order
  batch_eq : y.extent .batch = x.extent .batch
  channel_eq : y.extent .channel = channels
  height_eq : y.extent .height = outputHeight window x
  width_eq : y.extent .width = outputWidth window x

/-- The number of elements that come out. -/
noncomputable def slidSize (window : Window) (x : Shape) (channels : Nat) : Nat :=
  x.extent .batch * channels * outputHeight window x * outputWidth window x

/-! ### Along one axis -/

theorem windowExtent_eq_ok_iff {a : Axis} {extent kernel stride padding v : Nat} :
    windowExtent a extent kernel stride padding = .ok v ↔
      extent + 2 * padding < Count.limit ∧ kernel ≤ extent + 2 * padding ∧
        v = (extent + 2 * padding - kernel) / stride + 1 := by
  unfold windowExtent
  cases h : Window.padded? extent padding with
  | none =>
      have hover := Window.padded?_eq_none.mp h
      simp only [reduceCtorEq, false_iff]
      omega
  | some padded =>
      obtain ⟨rfl, hlt⟩ := Window.padded?_eq_some.mp h
      dsimp only
      by_cases hfit : kernel ≤ extent + 2 * padding
      · rw [if_pos hfit]
        simp [hlt, hfit, eq_comm]
      · simp [hfit]

/-- In either layout a shape has the four axes. -/
theorem axes_perm_of_layout (h : x.order = .nchw ∨ x.order = .nhwc) :
    x.order.axes.Perm AxisOrder.nchw.axes := by
  rcases h with h | h
  · rw [h]
  · rw [h]
    decide

theorem mem_axes_of_perm {o : AxisOrder} (h : o.axes.Perm AxisOrder.nchw.axes) {a : Axis}
    (ha : a ∈ AxisOrder.nchw.axes) : a ∈ o.axes :=
  h.mem_iff.mpr ha

/-! ### Over height and width -/

theorem outputHeight_eq (hvalid : window.Valid)
    (hfit : window.kernel.height.toNat ≤ paddedHeight window x) :
    outputHeight window x =
      (paddedHeight window x - window.kernel.height.toNat) / window.stride.height.toNat + 1 :=
  Window.ncard_placements hvalid.2.1 hfit

theorem outputWidth_eq (hvalid : window.Valid)
    (hfit : window.kernel.width.toNat ≤ paddedWidth window x) :
    outputWidth window x =
      (paddedWidth window x - window.kernel.width.toNat) / window.stride.width.toNat + 1 :=
  Window.ncard_placements hvalid.2.2 hfit

theorem windowExtents_eq_ok_iff (hvalid : window.Valid)
    (hlayout : x.order = .nchw ∨ x.order = .nhwc) {extents : Nat × Nat} :
    windowExtents window x = .ok extents ↔
      Slides window x ∧ extents = (outputHeight window x, outputWidth window x) := by
  have hperm := axes_perm_of_layout hlayout
  have hheight := need_of_mem "x" (mem_axes_of_perm hperm (a := .height) (by decide))
  have hwidth := need_of_mem "x" (mem_axes_of_perm hperm (a := .width) (by decide))
  unfold windowExtents
  simp only [bind_eq_ok_iff, hheight, hwidth, Except.ok.injEq, exists_eq_left',
    windowExtent_eq_ok_iff]
  constructor
  · rintro ⟨h, ⟨hlt, hfit, rfl⟩, v, ⟨vlt, vfit, rfl⟩, heq⟩
    cases heq
    refine ⟨⟨hlayout, hlt, hfit, vlt, vfit⟩, ?_⟩
    rw [outputHeight_eq hvalid hfit, outputWidth_eq hvalid vfit]
    rfl
  · rintro ⟨hslides, rfl⟩
    refine ⟨_, ⟨hslides.height_lt, hslides.height_fits, ?_⟩, _,
      ⟨hslides.width_lt, hslides.width_fits, ?_⟩, rfl⟩
    · exact outputHeight_eq hvalid hslides.height_fits
    · exact outputWidth_eq hvalid hslides.width_fits

theorem ofOrder_eq_ok_iff {slot : String} {o : AxisOrder} {layout : WindowLayout} :
    WindowLayout.ofOrder slot o = .ok layout ↔ o = layout.order := by
  unfold WindowLayout.ofOrder
  simp only [AxisOrder.isExactly_iff]
  by_cases hfirst : o.axes = AxisOrder.nchw.axes
  · rw [if_pos hfirst, AxisOrder.ext_axes hfirst]
    cases layout <;> decide
  · rw [if_neg hfirst]
    by_cases hlast : o.axes = AxisOrder.nhwc.axes
    · rw [if_pos hlast, AxisOrder.ext_axes hlast]
      cases layout <;> decide
    · rw [if_neg hlast]
      simp only [reduceCtorEq, false_iff]
      rintro rfl
      cases layout
      · exact hfirst rfl
      · exact hlast rfl

theorem exists_layout_iff {o : AxisOrder} :
    (∃ layout : WindowLayout, o = layout.order) ↔ o = .nchw ∨ o = .nhwc := by
  constructor
  · rintro ⟨layout, rfl⟩
    cases layout
    · exact Or.inl rfl
    · exact Or.inr rfl
  · rintro (rfl | rfl)
    · exact ⟨.channelsFirst, rfl⟩
    · exact ⟨.channelsLast, rfl⟩

/-- A shape in a layout has the given extents, each on its axis. -/
theorem layoutShape_eq_ok_iff {layout : WindowLayout} {n c h v : Nat} :
    layout.shape n c h v = .ok y ↔ y.order = layout.order ∧ y.extent .batch = n ∧
      y.extent .channel = c ∧ y.extent .height = h ∧ y.extent .width = v := by
  unfold WindowLayout.shape
  rw [outputShape_eq_ok_iff]
  cases layout with
  | channelsFirst => simp [WindowLayout.order, AxisOrder.nchw]
  | channelsLast =>
      simp only [WindowLayout.order, AxisOrder.nhwc, List.map_cons, List.map_nil,
        List.cons.injEq, and_true]
      constructor
      · rintro ⟨ho, hn, hh, hv, hc⟩
        exact ⟨ho, hn, hc, hh, hv⟩
      · rintro ⟨ho, hn, hc, hh, hv⟩
        exact ⟨ho, hn, hh, hv, hc⟩

/-- **Moving a window**: the last steps of convolution and of pooling. -/
theorem slide_eq_ok_iff (hvalid : window.Valid) {layout : WindowLayout}
    (hlayout : x.order = layout.order) :
    (windowExtents window x >>= fun extents =>
        layout.shape (x.extent .batch) channels extents.1 extents.2) = .ok y ↔
      Slides window x ∧ Slid window x channels y := by
  rw [bind_eq_ok_iff]
  simp only [windowExtents_eq_ok_iff hvalid (exists_layout_iff.mp ⟨layout, hlayout⟩),
    layoutShape_eq_ok_iff, ← hlayout]
  constructor
  · rintro ⟨_, ⟨hslides, rfl⟩, ho, hn, hc, hh, hv⟩
    exact ⟨hslides, ho, hn, hc, hh, hv⟩
  · rintro ⟨hslides, ho, hn, hc, hh, hv⟩
    exact ⟨_, ⟨hslides, rfl⟩, ho, hn, hc, hh, hv⟩

/-! ### Whether the output is a shape -/

/-- Extents on the four axes of a layout, as a function. -/
def fourExtents (n c h v : Nat) : Axis → Nat
  | .batch => n
  | .channel => c
  | .height => h
  | .width => v
  | .time => 0

theorem outputHeight_pos (hvalid : window.Valid) (h : Slides window x) :
    0 < outputHeight window x := by
  rw [outputHeight_eq hvalid h.height_fits]
  exact Nat.succ_pos _

theorem outputWidth_pos (hvalid : window.Valid) (h : Slides window x) :
    0 < outputWidth window x := by
  rw [outputWidth_eq hvalid h.width_fits]
  exact Nat.succ_pos _

/-- The factors of a product over the four axes may come in the order of the layout. -/
theorem product_map_of_perm {o : AxisOrder} (h : o.axes.Perm AxisOrder.nchw.axes)
    (f : Axis → Nat) :
    Count.product (o.axes.map f) = f .batch * f .channel * f .height * f .width := by
  rw [Count.product_perm (h.map f)]
  simp [AxisOrder.nchw, Nat.mul_assoc]

theorem Slid.size_eq (h : Slid window x channels y)
    (hlayout : x.order = .nchw ∨ x.order = .nhwc) : y.size = slidSize window x channels := by
  have hperm := axes_perm_of_layout hlayout
  rw [← h.order_eq] at hperm
  rw [Shape.size_eq, product_map_of_perm hperm, h.batch_eq, h.channel_eq, h.height_eq, h.width_eq]
  rfl

/-- **There is such an output exactly when its elements can be counted.** -/
theorem exists_slid_iff (hvalid : window.Valid) (h : Slides window x) (hchannels : 0 < channels) :
    (∃ y, Slid window x channels y) ↔ slidSize window x channels < Count.limit := by
  constructor
  · rintro ⟨y, hy⟩
    rw [← hy.size_eq h.layout]
    exact y.size_lt
  · intro hfit
    have hperm := axes_perm_of_layout h.layout
    let f := fourExtents (x.extent .batch) channels (outputHeight window x) (outputWidth window x)
    have hpos : ∀ a ∈ x.order.axes, 0 < f a := by
      intro a ha
      cases a with
      | batch => exact Shape.extent_pos ha
      | channel => exact hchannels
      | height => exact outputHeight_pos hvalid h
      | width => exact outputWidth_pos hvalid h
      | time => exact absurd (hperm.mem_iff.mp ha) (by decide)
    have hproduct : Count.product (x.order.axes.map f) < Count.limit := by
      rw [product_map_of_perm hperm]
      exact hfit
    obtain ⟨y, ho, hextent⟩ := Shape.exists_of_extents x.order f hpos hproduct
    have hmem : ∀ a ∈ AxisOrder.nchw.axes, y.extent a = f a := fun a ha =>
      hextent a (mem_axes_of_perm hperm ha)
    exact ⟨y, ho, hmem .batch (by decide), hmem .channel (by decide), hmem .height (by decide),
      hmem .width (by decide)⟩

/-! ### Machine words -/

/-- An answer of a machine that did not stop on the way. Where it stops, at a division by zero or
    at a result that is no word, there is no answer at all. -/
def answered {α : Type} (r : Except ApplyFault α) : ExceptT ApplyFault Option α :=
  ExceptT.mk (some r)

/-- A quotient on a machine. -/
def quotient? (a b : Nat) : Option Nat := if b = 0 then none else some (a / b)

/-- `windowExtent` on a machine. Padding and span are checked beforehand; the quotient and the
    last addition are not. -/
def machineExtent (a : Axis) (extent kernel stride padding : Nat) :
    ExceptT ApplyFault Option Nat :=
  match Window.padded? extent padding with
  | none => answered (.error (.extentOverflow a extent padding))
  | some padded =>
    match Count.sub? padded kernel with
    | none => answered (.error (.windowTooLarge a extent kernel padding))
    | some span => ExceptT.lift ((quotient? span stride).bind fun steps => Count.add? steps 1)

/-- `windowExtents` on a machine. -/
def machineExtents (window : Window) (x : Shape) : ExceptT ApplyFault Option (Nat × Nat) := do
  let height ← answered (need "x" x .height)
  let width ← answered (need "x" x .width)
  let height' ← machineExtent .height height window.kernel.height.toNat
    window.stride.height.toNat window.padding.height.toNat
  let width' ← machineExtent .width width window.kernel.width.toNat
    window.stride.width.toNat window.padding.width.toNat
  return (height', width')

theorem answered_bind {α β : Type} (r : Except ApplyFault α) (f : α → Except ApplyFault β) :
    (answered r >>= fun v => answered (f v)) = answered (r >>= f) := by
  cases r <;> rfl

/-- With a kernel and a stride of one or more, a machine gets the exact number: the padded extent
    is a word, and one more than the steps is no more than that. -/
theorem machineExtent_eq {a : Axis} {extent kernel stride padding : Nat} (hkernel : 0 < kernel)
    (hstride : 0 < stride) :
    machineExtent a extent kernel stride padding =
      answered (windowExtent a extent kernel stride padding) := by
  unfold machineExtent windowExtent
  cases h : Window.padded? extent padding with
  | none => rfl
  | some padded =>
      obtain ⟨rfl, hlt⟩ := Window.padded?_eq_some.mp h
      dsimp only
      by_cases hfit : kernel ≤ extent + 2 * padding
      · have hspan : Count.sub? (extent + 2 * padding) kernel =
            some (extent + 2 * padding - kernel) := if_pos hfit
        have hsteps : (extent + 2 * padding - kernel) / stride ≤ extent + 2 * padding - kernel :=
          Nat.div_le_self _ _
        have hword : (extent + 2 * padding - kernel) / stride + 1 < Count.limit := by omega
        have hcount : Count.add? ((extent + 2 * padding - kernel) / stride) 1 =
            some ((extent + 2 * padding - kernel) / stride + 1) := if_pos hword
        have hquotient : quotient? (extent + 2 * padding - kernel) stride =
            some ((extent + 2 * padding - kernel) / stride) := if_neg (Nat.ne_of_gt hstride)
        rw [hspan, if_pos hfit]
        dsimp only
        rw [hquotient, Option.bind_some, hcount]
        rfl
      · have hspan : Count.sub? (extent + 2 * padding) kernel = none := if_neg hfit
        rw [hspan, if_neg hfit]

/-- **A machine never stops** on a valid window, and its answer is the exact one. The rest of a
    rule compares extents and multiplies with checks. -/
theorem machineExtents_eq (hvalid : window.Valid) (x : Shape) :
    machineExtents window x = answered (windowExtents window x) := by
  unfold machineExtents windowExtents
  simp only [machineExtent_eq hvalid.1.1 hvalid.2.1, machineExtent_eq hvalid.1.2 hvalid.2.2]
  show (answered _ >>= fun height => answered _ >>= fun width => answered _ >>= fun height' =>
    answered _ >>= fun width' => answered (pure (height', width'))) = _
  simp only [answered_bind]

/-! ## The rules -/

/-- **Convolution accepts** a window that moves over `x` and a weight of the window's height and
    width, with the channels of `x`, when the output can be counted. -/
structure ConvolutionAccepts (window : Window) (x w : Shape) : Prop extends Slides window x where
  weight_axes : w.order.axes.Perm AxisOrder.nchw.axes
  kernel_height : w.extent .height = window.kernel.height.toNat
  kernel_width : w.extent .width = window.kernel.width.toNat
  channels_eq : w.extent .channel = x.extent .channel
  countable : slidSize window x (w.extent .batch) < Count.limit

/-- **Pooling accepts** a window that moves over `x`, when the output can be counted. -/
structure PoolingAccepts (window : Window) (x : Shape) : Prop extends Slides window x where
  countable : slidSize window x (x.extent .channel) < Count.limit

/-- **Convolution** succeeds exactly on what it accepts. -/
theorem convolution_eq_ok_iff (hvalid : window.Valid) :
    convolution window x w = .ok y ↔
      ConvolutionAccepts window x w ∧ Slid window x (w.extent .batch) y := by
  have hnodup : AxisOrder.nchw.axes.Nodup := AxisOrder.nchw.nodup
  constructor
  · intro h
    obtain ⟨layout, hlayout, h⟩ := bind_eq_ok_iff.mp h
    obtain ⟨hsame, h⟩ := unless_eq_ok_iff.mp h
    obtain ⟨hheight, h⟩ := check_bind_eq_ok_iff.mp h
    obtain ⟨hwidth, h⟩ := check_bind_eq_ok_iff.mp h
    obtain ⟨c, hc, h⟩ := bind_eq_ok_iff.mp h
    obtain ⟨hchannel, h⟩ := check_bind_eq_ok_iff.mp h
    obtain ⟨n, hn, h⟩ := bind_eq_ok_iff.mp h
    obtain ⟨m, hm, h⟩ := bind_eq_ok_iff.mp h
    have horder := ofOrder_eq_ok_iff.mp hlayout
    have hx := axes_perm_of_layout (exists_layout_iff.mp ⟨layout, horder⟩)
    have hw := (AxisOrder.sameAxes_iff_perm hnodup).mp hsame
    rw [need_of_mem _ (mem_axes_of_perm hx (by decide))] at hc hn
    rw [need_of_mem _ (mem_axes_of_perm hw (by decide))] at hm
    cases hc
    cases hn
    cases hm
    obtain ⟨hslides, hslid⟩ := (slide_eq_ok_iff hvalid horder).mp h
    have hbatch : 0 < w.extent .batch := Shape.extent_pos (mem_axes_of_perm hw (by decide))
    exact
      ⟨{ toSlides := hslides
         weight_axes := hw
         kernel_height := (matchExtent_eq_ok_iff_of_mem (mem_axes_of_perm hw (by decide))).mp hheight
         kernel_width := (matchExtent_eq_ok_iff_of_mem (mem_axes_of_perm hw (by decide))).mp hwidth
         channels_eq :=
           (matchExtent_eq_ok_iff_of_mem (mem_axes_of_perm hw (by decide))).mp hchannel
         countable := (exists_slid_iff hvalid hslides hbatch).mp ⟨y, hslid⟩ }, hslid⟩
  · rintro ⟨hacc, hslid⟩
    obtain ⟨layout, horder⟩ := exists_layout_iff.mpr hacc.layout
    have hx := axes_perm_of_layout hacc.layout
    have hw := hacc.weight_axes
    have hmatch : ∀ {a d}, a ∈ AxisOrder.nchw.axes → w.extent a = d →
        matchExtent "w" w a d = .ok () := fun ha hd =>
      (matchExtent_eq_ok_iff_of_mem (mem_axes_of_perm hw ha)).mpr hd
    refine bind_eq_ok_iff.mpr ⟨layout, ofOrder_eq_ok_iff.mpr horder, ?_⟩
    refine unless_eq_ok_iff.mpr ⟨(AxisOrder.sameAxes_iff_perm hnodup).mpr hw, ?_⟩
    refine check_bind_eq_ok_iff.mpr ⟨hmatch (by decide) hacc.kernel_height, ?_⟩
    refine check_bind_eq_ok_iff.mpr ⟨hmatch (by decide) hacc.kernel_width, ?_⟩
    refine bind_eq_ok_iff.mpr ⟨_, need_of_mem _ (mem_axes_of_perm hx (by decide)), ?_⟩
    refine check_bind_eq_ok_iff.mpr ⟨hmatch (by decide) hacc.channels_eq, ?_⟩
    refine bind_eq_ok_iff.mpr ⟨_, need_of_mem _ (mem_axes_of_perm hx (by decide)), ?_⟩
    refine bind_eq_ok_iff.mpr ⟨_, need_of_mem _ (mem_axes_of_perm hw (by decide)), ?_⟩
    exact (slide_eq_ok_iff hvalid horder).mpr ⟨hacc.toSlides, hslid⟩

/-- **Pooling** succeeds exactly on what it accepts. -/
theorem pooling_eq_ok_iff (hvalid : window.Valid) :
    pooling window x = .ok y ↔
      PoolingAccepts window x ∧ Slid window x (x.extent .channel) y := by
  constructor
  · intro h
    obtain ⟨layout, hlayout, h⟩ := bind_eq_ok_iff.mp h
    obtain ⟨n, hn, h⟩ := bind_eq_ok_iff.mp h
    obtain ⟨c, hc, h⟩ := bind_eq_ok_iff.mp h
    have horder := ofOrder_eq_ok_iff.mp hlayout
    have hx := axes_perm_of_layout (exists_layout_iff.mp ⟨layout, horder⟩)
    rw [need_of_mem _ (mem_axes_of_perm hx (by decide))] at hn hc
    cases hn
    cases hc
    obtain ⟨hslides, hslid⟩ := (slide_eq_ok_iff hvalid horder).mp h
    have hchannel : 0 < x.extent .channel := Shape.extent_pos (mem_axes_of_perm hx (by decide))
    exact ⟨⟨hslides, (exists_slid_iff hvalid hslides hchannel).mp ⟨y, hslid⟩⟩, hslid⟩
  · rintro ⟨hacc, hslid⟩
    obtain ⟨layout, horder⟩ := exists_layout_iff.mpr hacc.layout
    have hx := axes_perm_of_layout hacc.layout
    refine bind_eq_ok_iff.mpr ⟨layout, ofOrder_eq_ok_iff.mpr horder, ?_⟩
    refine bind_eq_ok_iff.mpr ⟨_, need_of_mem _ (mem_axes_of_perm hx (by decide)), ?_⟩
    refine bind_eq_ok_iff.mpr ⟨_, need_of_mem _ (mem_axes_of_perm hx (by decide)), ?_⟩
    exact (slide_eq_ok_iff hvalid horder).mpr ⟨hacc.toSlides, hslid⟩

/-- **A fully connected layer** takes `x` in one order and a weight over the same two axes. -/
theorem linear_eq_ok_iff :
    linear x w = .ok y ↔
      (x.order = .nc ∧ w.order.axes.Perm AxisOrder.nc.axes ∧
        w.extent .channel = x.extent .channel) ∧
      y.order = .nc ∧ y.extent .batch = x.extent .batch ∧ y.extent .channel = w.extent .batch := by
  have hnodup : AxisOrder.nc.axes.Nodup := AxisOrder.nc.nodup
  constructor
  · intro h
    obtain ⟨hlayout, h⟩ := unless_eq_ok_iff.mp h
    obtain ⟨hsame, h⟩ := unless_eq_ok_iff.mp h
    obtain ⟨c, hc, h⟩ := bind_eq_ok_iff.mp h
    obtain ⟨hchannel, h⟩ := check_bind_eq_ok_iff.mp h
    obtain ⟨n, hn, h⟩ := bind_eq_ok_iff.mp h
    obtain ⟨m, hm, h⟩ := bind_eq_ok_iff.mp h
    have hx : x.order = .nc := AxisOrder.ext_axes (AxisOrder.isExactly_iff.mp hlayout)
    have hw := (AxisOrder.sameAxes_iff_perm hnodup).mp hsame
    rw [need_of_mem _ (by rw [hx]; decide)] at hc hn
    rw [need_of_mem _ (hw.mem_iff.mpr (by decide))] at hm
    cases hc
    cases hn
    cases hm
    obtain ⟨ho, hdims⟩ := outputShape_eq_ok_iff.mp h
    have hchannel := (matchExtent_eq_ok_iff_of_mem (hw.mem_iff.mpr (by decide))).mp hchannel
    simp only [AxisOrder.nc, List.map_cons, List.map_nil, List.cons.injEq, and_true] at hdims
    exact ⟨⟨hx, hw, hchannel⟩, ho, hdims⟩
  · rintro ⟨⟨hx, hw, hchannel⟩, ho, hdims⟩
    have hchannel : matchExtent "w" w .channel (x.extent .channel) = .ok () :=
      (matchExtent_eq_ok_iff_of_mem (hw.mem_iff.mpr (by decide))).mpr hchannel
    refine unless_eq_ok_iff.mpr ⟨AxisOrder.isExactly_iff.mpr (by rw [hx]), ?_⟩
    refine unless_eq_ok_iff.mpr ⟨(AxisOrder.sameAxes_iff_perm hnodup).mpr hw, ?_⟩
    refine bind_eq_ok_iff.mpr ⟨_, need_of_mem _ (by rw [hx]; decide), ?_⟩
    refine check_bind_eq_ok_iff.mpr ⟨hchannel, ?_⟩
    refine bind_eq_ok_iff.mpr ⟨_, need_of_mem _ (by rw [hx]; decide), ?_⟩
    refine bind_eq_ok_iff.mpr ⟨_, need_of_mem _ (hw.mem_iff.mpr (by decide)), ?_⟩
    refine outputShape_eq_ok_iff.mpr ⟨ho, ?_⟩
    simpa [AxisOrder.nc] using hdims

/-- **A one-axis operand** has the extent of that axis of `x`, and `x` passes through. -/
theorem axiswise_eq_ok_iff {a : Axis} :
    axiswise a x b = .ok y ↔
      (a ∈ x.order.axes ∧ b.order.axes = [a] ∧ b.extent a = x.extent a) ∧ y = x := by
  constructor
  · intro h
    obtain ⟨expected, hneed, h⟩ := bind_eq_ok_iff.mp h
    obtain ⟨honly, h⟩ := unless_eq_ok_iff.mp h
    obtain ⟨hmatch, h⟩ := check_bind_eq_ok_iff.mp h
    cases h
    have ha := Shape.mem_of_extent?_eq_some (need_eq_ok_iff.mp hneed)
    have hb : b.order.axes = [a] := AxisOrder.isExactly_iff.mp honly
    rw [need_of_mem _ ha] at hneed
    cases hneed
    have hextent := (matchExtent_eq_ok_iff_of_mem (by rw [hb]; exact List.mem_singleton.mpr rfl)).mp
      hmatch
    exact ⟨⟨ha, hb, hextent⟩, rfl⟩
  · rintro ⟨⟨ha, hb, hextent⟩, rfl⟩
    have hmatch : matchExtent "b" b a (y.extent a) = .ok () :=
      (matchExtent_eq_ok_iff_of_mem (by rw [hb]; exact List.mem_singleton.mpr rfl)).mpr hextent
    refine bind_eq_ok_iff.mpr ⟨_, need_of_mem _ ha, ?_⟩
    refine unless_eq_ok_iff.mpr ⟨AxisOrder.isExactly_iff.mpr hb, ?_⟩
    exact check_bind_eq_ok_iff.mpr ⟨hmatch, rfl⟩

/-- **A sum** takes two equal shapes. -/
theorem elementwiseSum_eq_ok_iff {x0 x1 : Shape} :
    elementwiseSum x0 x1 = .ok y ↔ x0 = x1 ∧ y = x0 := by
  constructor
  · intro h
    obtain ⟨ho, h⟩ := unless_eq_ok_iff.mp h
    obtain ⟨hmatches, h⟩ := check_bind_eq_ok_iff.mp h
    cases h
    refine ⟨Shape.ext_extent ho fun a ha => ?_, rfl⟩
    have hpair : (a, y.extent a) ∈ y.pairs :=
      Shape.extent?_eq_some_iff.mp (Shape.extent?_of_mem ha)
    have hmatch := forM_eq_ok_iff.mp hmatches _ hpair
    exact ((matchExtent_eq_ok_iff_of_mem (ho ▸ ha)).mp hmatch).symm
  · rintro ⟨rfl, rfl⟩
    refine unless_eq_ok_iff.mpr ⟨rfl, check_bind_eq_ok_iff.mpr ⟨?_, rfl⟩⟩
    refine forM_eq_ok_iff.mpr fun p hp => ?_
    exact matchExtent_eq_ok_iff.mpr (Shape.extent?_eq_some_iff.mpr hp)

/-- **Folding an axis away** leaves the other axes with their extents. -/
theorem reduce_eq_ok_iff {a : Axis} :
    reduce a x = .ok y ↔
      a ∈ x.order.axes ∧ y.order.axes = x.order.axes.filter (· ≠ a) ∧
        ∀ b ∈ y.order.axes, y.extent b = x.extent b := by
  rw [← Shape.dropAxis_eq_ok_iff]
  unfold reduce
  rw [bind_eq_ok_iff]
  constructor
  · rintro ⟨_, -, h⟩
    split at h
    · rename_i hdrop
      cases h
      exact hdrop
    · cases h
    · cases h
  · intro h
    have ha := (Shape.dropAxis_eq_ok_iff.mp h).1
    exact ⟨_, need_of_mem _ ha, by rw [h]; rfl⟩

/-! ## The rule of an operator -/

/-- Inference has one output, the one that the rule gives. -/
theorem singleton_eq_ok_iff {r : Except ApplyFault Shape} {ys : List Shape} :
    (r >>= fun y => pure [y]) = .ok ys ↔ ∃ y, ys = [y] ∧ r = .ok y := by
  rw [bind_eq_ok_iff]
  constructor
  · rintro ⟨y, hy, h⟩
    cases h
    exact ⟨y, rfl, hy⟩
  · rintro ⟨y, rfl, hy⟩
    exact ⟨y, hy, rfl⟩

/-- **Which rule is asked** and what it answers, one constructor per family. -/
inductive Infers : Params → List Shape → Shape → Prop where
  | convolution {window : Window} {x w y : Shape} (h : ShapeRule.convolution window x w = .ok y) :
      Infers (.convolution window) [x, w] y
  | pooling {variant : Pooling} {window : Window} {x y : Shape}
      (h : ShapeRule.pooling window x = .ok y) : Infers (.pooling variant window) [x] y
  | linear {x w y : Shape} (h : ShapeRule.linear x w = .ok y) : Infers .linear [x, w] y
  | axiswise {variant : AxiswiseRole} {a : Axis} {x b y : Shape}
      (h : ShapeRule.axiswise a x b = .ok y) : Infers (.axiswise variant a) [x, b] y
  | activation {variant : Activation} {x : Shape} : Infers (.activation variant) [x] x
  | elementwiseSum {x0 x1 y : Shape} (h : ShapeRule.elementwiseSum x0 x1 = .ok y) :
      Infers .elementwiseSum [x0, x1] y
  | reduce {variant : Reduction} {a : Axis} {x y : Shape} (h : ShapeRule.reduce a x = .ok y) :
      Infers (.reduce variant a) [x] y

/-- **Inference succeeds** when the rule of the family does, on as many inputs as it has. -/
theorem outputShapes_eq_ok_iff {p : Params} {inputs ys : List Shape} :
    p.outputShapes inputs = .ok ys ↔ ∃ y, ys = [y] ∧ Infers p inputs y := by
  constructor
  · intro h
    unfold Params.outputShapes at h
    dsimp only at h
    split at h
    all_goals obtain ⟨y, rfl, hy⟩ := singleton_eq_ok_iff.mp h
    · exact ⟨y, rfl, .convolution hy⟩
    · exact ⟨y, rfl, .pooling hy⟩
    · exact ⟨y, rfl, .linear hy⟩
    · exact ⟨y, rfl, .axiswise hy⟩
    · cases hy
      exact ⟨_, rfl, .activation⟩
    · exact ⟨y, rfl, .elementwiseSum hy⟩
    · exact ⟨y, rfl, .reduce hy⟩
    · cases hy
  · rintro ⟨y, rfl, h⟩
    cases h with
    | convolution h => exact singleton_eq_ok_iff.mpr ⟨y, rfl, h⟩
    | pooling h => exact singleton_eq_ok_iff.mpr ⟨y, rfl, h⟩
    | linear h => exact singleton_eq_ok_iff.mpr ⟨y, rfl, h⟩
    | axiswise h => exact singleton_eq_ok_iff.mpr ⟨y, rfl, h⟩
    | activation => rfl
    | elementwiseSum h => exact singleton_eq_ok_iff.mpr ⟨y, rfl, h⟩
    | reduce h => exact singleton_eq_ok_iff.mpr ⟨y, rfl, h⟩

/-! ## Exactness of the window rules -/

theorem exists_convolution_iff (hvalid : window.Valid) :
    (∃ y, convolution window x w = .ok y) ↔ ConvolutionAccepts window x w := by
  simp only [convolution_eq_ok_iff hvalid]
  constructor
  · rintro ⟨y, hacc, -⟩
    exact hacc
  · intro hacc
    have hbatch : 0 < w.extent .batch :=
      Shape.extent_pos (mem_axes_of_perm hacc.weight_axes (by decide))
    obtain ⟨y, hy⟩ := (exists_slid_iff hvalid hacc.toSlides hbatch).mpr hacc.countable
    exact ⟨y, hacc, hy⟩

theorem exists_pooling_iff (hvalid : window.Valid) :
    (∃ y, pooling window x = .ok y) ↔ PoolingAccepts window x := by
  simp only [pooling_eq_ok_iff hvalid]
  constructor
  · rintro ⟨y, hacc, -⟩
    exact hacc
  · intro hacc
    have hperm := axes_perm_of_layout hacc.layout
    have hchannel : 0 < x.extent .channel := Shape.extent_pos (mem_axes_of_perm hperm (by decide))
    obtain ⟨y, hy⟩ := (exists_slid_iff hvalid hacc.toSlides hchannel).mpr hacc.countable
    exact ⟨y, hacc, hy⟩

/-- Inference succeeds when its rule does, and has the output that the rule has. -/
theorem singleton_exact {r : Except ApplyFault Shape} {accepts : Prop} {out : Shape → Prop}
    (hexists : (∃ y, r = .ok y) ↔ accepts) (hout : ∀ y, r = .ok y → out y) :
    ((∃ ys, (r >>= fun y => pure [y]) = .ok ys) ↔ accepts) ∧
      ∀ ys, (r >>= fun y => pure [y]) = .ok ys → ∃ y, ys = [y] ∧ out y := by
  rw [← hexists]
  simp only [singleton_eq_ok_iff]
  refine ⟨⟨?_, ?_⟩, ?_⟩
  · rintro ⟨_, y, -, hy⟩
    exact ⟨y, hy⟩
  · rintro ⟨y, hy⟩
    exact ⟨[y], y, rfl, hy⟩
  · rintro _ ⟨y, rfl, hy⟩
    exact ⟨y, rfl, hout y hy⟩

/-- **The window rules are exact.** Convolution and both kinds of pooling succeed exactly on what
    they accept; one shape comes out, with an element for each placement of the window; and the
    arithmetic on the way there never leaves the machine words nor divides by zero. -/
theorem sliding_rules_exact (hvalid : window.Valid) :
    (∀ x w, ((∃ ys, (Params.convolution window).outputShapes [x, w] = .ok ys) ↔
          ConvolutionAccepts window x w) ∧
        ∀ ys, (Params.convolution window).outputShapes [x, w] = .ok ys →
          ∃ y, ys = [y] ∧ Slid window x (w.extent .batch) y) ∧
      (∀ variant x, ((∃ ys, (Params.pooling variant window).outputShapes [x] = .ok ys) ↔
          PoolingAccepts window x) ∧
        ∀ ys, (Params.pooling variant window).outputShapes [x] = .ok ys →
          ∃ y, ys = [y] ∧ Slid window x (x.extent .channel) y) ∧
      ∀ x, machineExtents window x = answered (windowExtents window x) := by
  refine ⟨fun x w => ?_, fun variant x => ?_, machineExtents_eq hvalid⟩
  · exact singleton_exact (exists_convolution_iff hvalid) fun y hy =>
      ((convolution_eq_ok_iff hvalid).mp hy).2
  · exact singleton_exact (exists_pooling_iff hvalid) fun y hy =>
      ((pooling_eq_ok_iff hvalid).mp hy).2

/-- A window with different components in every direction. -/
def unevenWindow : Window := ⟨⟨3, 2⟩, ⟨2, 3⟩, ⟨1, 0⟩⟩

def unevenImage : Shape := ⟨.nhwc, [2, 6, 8, 3], by decide, by decide, by decide⟩

def unevenFilter : Shape := ⟨.hwcn, [3, 2, 3, 5], by decide, by decide, by decide⟩

/-- A window that leaves as many placements as there are words. -/
def wideWindow : Window := ⟨⟨1, 1⟩, ⟨1, 1⟩, ⟨9223372036854775807, 0⟩⟩

def dot : Shape := ⟨.nchw, [1, 1, 1, 1], by decide, by decide, by decide⟩

theorem sliding_rules_exact_uneven_wide :
    (unevenWindow.Valid ∧ ConvolutionAccepts unevenWindow unevenImage unevenFilter ∧
        outputHeight unevenWindow unevenImage = 3 ∧ outputWidth unevenWindow unevenImage = 3) ∧
      wideWindow.Valid ∧ PoolingAccepts wideWindow dot ∧
        outputHeight wideWindow dot = 2 ^ 64 - 1 := by
  have huneven : unevenWindow.Valid := by decide
  have hwide : wideWindow.Valid := by decide
  obtain ⟨hconvolution, -⟩ := sliding_rules_exact huneven
  obtain ⟨haccepts, hslid⟩ := hconvolution unevenImage unevenFilter
  obtain ⟨-, hpooling, -⟩ := sliding_rules_exact hwide
  obtain ⟨wideAccepts, wideSlid⟩ := hpooling .max dot
  let y : Shape := ⟨.nhwc, [2, 3, 3, 5], by decide, by decide, by decide⟩
  let z : Shape := ⟨.nchw, [1, 1, 2 ^ 64 - 1, 1], by decide, by decide, by decide⟩
  have hy : (Params.convolution unevenWindow).outputShapes [unevenImage, unevenFilter] =
      .ok [y] := by decide
  have hz : (Params.pooling .max wideWindow).outputShapes [dot] = .ok [z] := by decide
  obtain ⟨_, hsingle, hout⟩ := hslid _ hy
  obtain ⟨_, wideSingle, wideOut⟩ := wideSlid _ hz
  cases hsingle
  cases wideSingle
  exact ⟨⟨huneven, haccepts.mp ⟨_, hy⟩, hout.height_eq.symm, hout.width_eq.symm⟩, hwide,
    wideAccepts.mp ⟨_, hz⟩, wideOut.height_eq.symm⟩

end ShapeRule

end TensorGraph
