import TensorGraph.Count

/-!
# `TensorGraph.Operator.Window` — **sliding windows over height and width**

The parameters that convolution and pooling share, and the arithmetic of how often a window fits
along one axis. Components are 64-bit words, extents are counts, and all arithmetic is checked.
-/

namespace TensorGraph

/-- A word for the height and one for the width. -/
structure Spatial where
  height : UInt64
  width : UInt64
deriving DecidableEq, Inhabited

/-- Both components are at least one. -/
def Spatial.Positive (s : Spatial) : Prop := 0 < s.height.toNat ∧ 0 < s.width.toNat

instance (s : Spatial) : Decidable s.Positive := inferInstanceAs (Decidable (_ ∧ _))

/-- Size of a sliding window, how far it moves at a step, and the zero padding on each side. -/
structure Window where
  kernel : Spatial
  stride : Spatial
  padding : Spatial
deriving DecidableEq, Inhabited

namespace Window

/-- A window that has a size and moves. Paddings are free. -/
def Valid (w : Window) : Prop := w.kernel.Positive ∧ w.stride.Positive

instance (w : Window) : Decidable w.Valid := inferInstanceAs (Decidable (_ ∧ _))

/-- The extent with the padding of both sides, if that is a count. -/
def padded? (extent padding : Nat) : Option Nat := do
  let both ← Count.mul? padding 2
  Count.add? both extent

/-- How many positions a window of `kernel` elements takes along an axis when it moves by `stride`:
    none when the padded extent is no count or the window does not fit into it. -/
def positions? (extent kernel stride padding : Nat) : Option Nat := do
  let padded ← padded? extent padding
  let span ← Count.sub? padded kernel
  some (span / stride + 1)

theorem padded?_eq_some {extent padding padded : Nat} :
    padded? extent padding = some padded ↔
      extent + 2 * padding = padded ∧ padded < Count.limit := by
  simp only [padded?, Count.mul?, Count.add?, Option.bind_eq_bind, Option.bind_eq_some_iff,
    Count.fit?_eq_some]
  constructor
  · rintro ⟨both, ⟨rfl, _⟩, rfl, h⟩
    exact ⟨by omega, h⟩
  · rintro ⟨rfl, h⟩
    exact ⟨padding * 2, ⟨rfl, by omega⟩, by omega, h⟩

theorem padded?_eq_none {extent padding : Nat} :
    padded? extent padding = none ↔ Count.limit ≤ extent + 2 * padding := by
  rcases h : padded? extent padding with _ | padded
  · refine ⟨fun _ => ?_, fun _ => rfl⟩
    refine Nat.le_of_not_lt fun hlt => ?_
    rw [padded?_eq_some.mpr ⟨rfl, hlt⟩] at h
    cases h
  · obtain ⟨rfl, hlt⟩ := padded?_eq_some.mp h
    simp only [reduceCtorEq, false_iff, Nat.not_le]
    exact hlt

end Window

end TensorGraph
