import TensorGraph.AxisOrder.Build
import TensorGraph.Count

/-!
# `TensorGraph.Shape.Basic` — **tensor shapes**

A shape gives every axis of an order a positive extent, such that the number of elements is still a
count. The three conditions are part of the type, so whatever makes a shape has checked them.

## Contents
- **The type** `Shape`.
- **Constructors.** `ofDims` takes the extents in the order's own sequence, `ofExtents` as pairs of
  axis and extent in any sequence.
- **Views and operations.** `pairs`, `extent?`, `size`, `dropAxis`.
-/

namespace TensorGraph

/-- An axis order with one positive extent per axis and a countable number of elements. -/
structure Shape where
  order : AxisOrder
  dims : List Nat
  length_dims : dims.length = order.rank
  dims_pos : ∀ d ∈ dims, 0 < d
  product_lt : Count.product dims < Count.limit
deriving DecidableEq

namespace Shape

/-- A shape is determined by its order and extents. -/
theorem ext_dims {s t : Shape} (ho : s.order = t.order) (hd : s.dims = t.dims) : s = t := by
  cases s
  cases t
  cases ho
  cases hd
  rfl

/-! ## Positional construction -/

/-- The first axis whose extent is zero. -/
def firstEmptyAxis? (order : AxisOrder) (dims : List Nat) : Option Axis :=
  ((order.axes.zip dims).find? fun p => p.2 == 0).map Prod.fst

theorem pos_of_firstEmptyAxis? {order : AxisOrder} {dims : List Nat}
    (hlen : dims.length = order.rank) (h : firstEmptyAxis? order dims = none) :
    ∀ d ∈ dims, 0 < d := by
  intro d hd
  simp only [firstEmptyAxis?, Option.map_eq_none_iff, List.find?_eq_none] at h
  obtain ⟨i, hi, rfl⟩ := List.mem_iff_getElem.mp hd
  have hi' : i < order.axes.length := by
    rw [AxisOrder.rank] at hlen
    omega
  have hmem : (order.axes[i], dims[i]) ∈ order.axes.zip dims :=
    List.mem_iff_getElem.mpr ⟨i, by simp; omega, by simp⟩
  have := h _ hmem
  simp at this
  omega

/-- The shape whose `i`-th axis has the `i`-th extent. The number of extents is looked at first,
    then zero extents, then the number of elements. -/
def ofDims (order : AxisOrder) (dims : List Nat) : Except ShapeError Shape :=
  if hlen : dims.length = order.rank then
    match hpos : firstEmptyAxis? order dims with
    | some a => .error (.zeroExtent a)
    | none =>
      match hsize : Count.product? dims with
      | none => .error (.sizeOverflow order)
      | some _ =>
        have hp := pos_of_firstEmptyAxis? hlen hpos
        .ok ⟨order, dims, hlen, hp, Count.product_lt_of_product? hp hsize⟩
  else .error (.rankMismatch order dims.length)

/-! ## Keyed construction -/

/-- The extents gathered so far, one place per axis of the order, with one more pair put in its
    place. -/
def placeExtent (order : AxisOrder) (places : List (Option Nat)) (p : Axis × Nat) :
    Except ShapeError (List (Option Nat)) :=
  match order.position? p.1 with
  | none => .error (.unexpectedAxis p.1 order)
  | some i =>
    match places[i]? with
    | some (some _) => .error (.duplicateAxis p.1)
    | _ => .ok (places.set i (some p.2))

/-- The extent in a place, or its axis as the reason. -/
def takeExtent (order : AxisOrder) (p : Axis × Option Nat) : Except ShapeError Nat :=
  match p.2 with
  | some extent => .ok extent
  | none => .error (.missingAxis p.1 order)

/-- The shape with the given extent on each axis. Pairs are looked at in sequence for axes outside
    the order and repeated axes; then the axes of the order for a missing extent; then the extents
    as in `ofDims`. -/
def ofExtents (order : AxisOrder) (extents : List (Axis × Nat)) : Except ShapeError Shape := do
  let places ← extents.foldlM (placeExtent order) (List.replicate order.rank none)
  let dims ← (order.axes.zip places).mapM (takeExtent order)
  ofDims order dims

/-! ## Views and operations -/

/-- Number of axes. -/
def rank (s : Shape) : Nat := s.dims.length

/-- Pairs of axis and extent, in layout order. -/
def pairs (s : Shape) : List (Axis × Nat) := s.order.axes.zip s.dims

/-- Extent of an axis, if the axis is part of the layout. -/
def extent? (s : Shape) (a : Axis) : Option Nat :=
  (s.order.position? a).bind fun i => s.dims[i]?

/-- The axis is part of the layout. -/
def contains (s : Shape) (a : Axis) : Bool := s.order.contains a

/-- Number of elements. -/
def size (s : Shape) : Nat := Count.product s.dims

/-- The shape with one axis removed from the order and the extents. -/
def dropAxis (s : Shape) (a : Axis) : Except ShapeError Shape := do
  let order ← s.order.erase a
  ofDims order ((s.pairs.filter fun p => p.1 ≠ a).map Prod.snd)

/-- Written form, as in `\x7bN:1, C:3\x7d`. -/
def text (s : Shape) : String :=
  "\x7b" ++ ", ".intercalate (s.pairs.map fun p => s!"{p.1}:{p.2}") ++ "\x7d"

instance : ToString Shape := ⟨text⟩

theorem size_lt (s : Shape) : s.size < Count.limit := s.product_lt

/-! ## When construction succeeds -/

theorem firstEmptyAxis?_eq_none {order : AxisOrder} {dims : List Nat}
    (hpos : ∀ d ∈ dims, 0 < d) : firstEmptyAxis? order dims = none := by
  simp only [firstEmptyAxis?, Option.map_eq_none_iff, List.find?_eq_none]
  intro p hp
  have := hpos p.2 (List.of_mem_zip hp).2
  simp
  omega

/-- **Positional construction accepts exactly the shapes.** -/
theorem ofDims_eq_ok_iff {order : AxisOrder} {dims : List Nat} {s : Shape} :
    ofDims order dims = .ok s ↔ s.order = order ∧ s.dims = dims := by
  constructor
  · intro h
    unfold ofDims at h
    split at h
    · split at h
      · cases h
      · split at h
        · cases h
        · cases h
          exact ⟨rfl, rfl⟩
    · cases h
  · rintro ⟨rfl, rfl⟩
    have hsize : Count.product? s.dims = some (Count.product s.dims) := by
      rw [Count.product?_of_pos s.dims_pos]
      exact Count.fit?_eq_some.mpr ⟨rfl, s.product_lt⟩
    unfold ofDims
    rw [dif_pos s.length_dims]
    split
    · rename_i a h
      rw [firstEmptyAxis?_eq_none s.dims_pos] at h
      cases h
    · split
      · rename_i h
        rw [hsize] at h
        cases h
      · rfl

@[simp] theorem ofDims_dims (s : Shape) : ofDims s.order s.dims = .ok s :=
  ofDims_eq_ok_iff.mpr ⟨rfl, rfl⟩

end Shape

end TensorGraph
