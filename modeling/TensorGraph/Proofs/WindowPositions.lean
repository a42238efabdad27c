import TensorGraph.Proofs.InferenceFaults

/-!
# `TensorGraph.Proofs.WindowPositions` — **how often a window fits along an axis, twice**

The number of positions that a window takes is computed in two places: once for whoever asks, where
there is a number or none, and once inside the shape rules, where there is a number or a fault that
says what is wrong. Both are put to the same test here, the exact count: the last position ends
within the padded axis, and one more would not. The computations in words meet it as those in
numbers do, because what they leave unchecked cannot wrap.

## Contents
- **The exact count** `Window.Counts`, and that the quotient is it.
- **Both computations in numbers.**
- **Both computations in words**, and `window_computations_exact`.
-/

namespace TensorGraph

open Checks

/-! ## The exact count -/

namespace Window

variable {extent kernel stride padding padded v : Nat}

/-- **So many positions and no more**: the last one ends within the axis, the next would end
    behind it. -/
structure Counts (padded kernel stride v : Nat) : Prop where
  one_le : 1 ≤ v
  last_le : (v - 1) * stride + kernel ≤ padded
  lt_next : padded < v * stride + kernel

/-- A window that fits has one count, the one that division gives. -/
theorem counts_iff (hstride : 0 < stride) :
    Counts padded kernel stride v ↔ kernel ≤ padded ∧ v = (padded - kernel) / stride + 1 := by
  have hquotient : ∀ q : Nat, kernel ≤ padded →
      ((padded - kernel) / stride = q ↔
        q * stride + kernel ≤ padded ∧ padded < (q + 1) * stride + kernel) := by
    intro q hfit
    rw [Nat.div_eq_iff hstride, Nat.add_mul, Nat.one_mul]
    omega
  constructor
  · intro h
    have hfit : kernel ≤ padded := Nat.le_trans (Nat.le_add_left _ _) h.last_le
    have hv : v - 1 + 1 = v := Nat.sub_add_cancel h.one_le
    have hsteps : (padded - kernel) / stride = v - 1 :=
      (hquotient (v - 1) hfit).mpr ⟨h.last_le, by rw [hv]; exact h.lt_next⟩
    exact ⟨hfit, by rw [hsteps, hv]⟩
  · rintro ⟨hfit, rfl⟩
    obtain ⟨hlast, hnext⟩ := (hquotient _ hfit).mp rfl
    exact ⟨Nat.le_add_left 1 _, hlast, hnext⟩

/-! ## In numbers -/

theorem positions?_eq_some_iff :
    positions? extent kernel stride padding = some v ↔
      extent + 2 * padding < Count.limit ∧ kernel ≤ extent + 2 * padding ∧
        v = (extent + 2 * padding - kernel) / stride + 1 := by
  unfold positions?
  simp only [Option.bind_eq_bind, Option.bind_eq_some_iff, padded?_eq_some, Count.sub?_eq_some,
    Option.some.injEq]
  constructor
  · rintro ⟨_, ⟨rfl, hlt⟩, span, hspan, rfl⟩
    exact ⟨hlt, by omega, by rw [hspan, Nat.add_sub_cancel]⟩
  · rintro ⟨hlt, hfit, rfl⟩
    exact ⟨_, ⟨rfl, hlt⟩, _, (Nat.sub_add_cancel hfit).symm, rfl⟩

/-- **One number**: whoever asks gets the number that the rules compute, or none where they fail. -/
theorem positions?_eq_some_iff_windowExtent {a : Axis} :
    positions? extent kernel stride padding = some v ↔
      ShapeRule.windowExtent a extent kernel stride padding = .ok v := by
  rw [positions?_eq_some_iff, ShapeRule.windowExtent_eq_ok_iff]

end Window

/-- The rules say which of the two limits is exceeded, and look at the words first. -/
theorem ShapeRule.windowExtent_eq_error_iff {a : Axis} {extent kernel stride padding : Nat}
    {fault : ApplyFault} :
    windowExtent a extent kernel stride padding = .error fault ↔
      (Count.limit ≤ extent + 2 * padding ∧ fault = .extentOverflow a extent padding) ∨
        extent + 2 * padding < Count.limit ∧ extent + 2 * padding < kernel ∧
          fault = .windowTooLarge a extent kernel padding := by
  rw [(reports_windowExtent a extent kernel stride padding).eq_error_iff, axisFaults]
  by_cases hlt : extent + 2 * padding < Count.limit
  · have hnot : ¬ Count.limit ≤ extent + 2 * padding := Nat.not_le.mpr hlt
    rw [unmet_of hlt, List.nil_append, head?_unmet_eq_some_iff, Nat.not_le]
    simp only [hlt, hnot, false_and, false_or, true_and]
  · have hle : Count.limit ≤ extent + 2 * padding := Nat.not_lt.mp hlt
    rw [unmet_of_not hlt, List.singleton_append, List.head?_cons, Option.some.injEq]
    simp only [hlt, hle, false_and, or_false, true_and, eq_comm]

/-! ## In words -/

namespace StoredRule

variable {a : Axis} {extent kernel stride padding : UInt64}

theorem positions?_eq_some_iff (hkernel : 0 < kernel.toNat) {v : UInt64} :
    positions? extent kernel stride padding = some v ↔
      Window.positions? extent.toNat kernel.toNat stride.toNat padding.toNat = some v.toNat := by
  rw [← map_toNat_positions? hkernel, Option.map_eq_some_iff]
  simp only [UInt64.toNat_inj, exists_eq_right]

theorem windowExtent_eq_ok_iff (hkernel : 0 < kernel.toNat) {v : UInt64} :
    windowExtent a extent kernel stride padding = .ok v ↔
      ShapeRule.windowExtent a extent.toNat kernel.toNat stride.toNat padding.toNat =
        .ok v.toNat := by
  rw [← map_windowExtent hkernel, map_eq_ok_iff]
  simp only [UInt64.toNat_inj, exists_eq_right]

theorem windowExtent_eq_error_iff (hkernel : 0 < kernel.toNat) {fault : ApplyFault} :
    windowExtent a extent kernel stride padding = .error fault ↔
      ShapeRule.windowExtent a extent.toNat kernel.toNat stride.toNat padding.toNat =
        .error fault := by
  rw [← map_windowExtent hkernel, map_eq_error_iff]

/-- What is left unchecked stays a word: one more than the steps behind the first position is no
    more than the padded extent. -/
theorem steps_add_one_lt {padded : Nat} (hkernel : 1 ≤ kernel.toNat)
    (hlt : padded < Count.limit) : (padded - kernel.toNat) / stride.toNat + 1 < Count.limit := by
  have hlimit : 1 < Count.limit := by decide
  have hsteps : (padded - kernel.toNat) / stride.toNat ≤ padded - kernel.toNat :=
    Nat.div_le_self _ _
  omega

/-- There is a number in words where there is one. -/
theorem exists_positions?_iff (hkernel : 0 < kernel.toNat) :
    (∃ v, positions? extent kernel stride padding = some v) ↔
      extent.toNat + 2 * padding.toNat < Count.limit ∧
        kernel.toNat ≤ extent.toNat + 2 * padding.toNat := by
  have hwords : (∃ v, positions? extent kernel stride padding = some v) ↔
      ∃ n, Window.positions? extent.toNat kernel.toNat stride.toNat padding.toNat = some n := by
    simp only [← map_toNat_positions? hkernel, Option.map_eq_some_iff]
    constructor
    · rintro ⟨v, hv⟩
      exact ⟨v.toNat, v, hv, rfl⟩
    · rintro ⟨_, v, hv, -⟩
      exact ⟨v, hv⟩
  rw [hwords]
  simp only [Window.positions?_eq_some_iff]
  constructor
  · rintro ⟨_, hlt, hfit, -⟩
    exact ⟨hlt, hfit⟩
  · rintro ⟨hlt, hfit⟩
    exact ⟨_, hlt, hfit, rfl⟩

theorem positions?_eq_none_iff (hkernel : 0 < kernel.toNat) :
    positions? extent kernel stride padding = none ↔
      Count.limit ≤ extent.toNat + 2 * padding.toNat ∨
        extent.toNat + 2 * padding.toNat < kernel.toNat := by
  rw [Option.eq_none_iff_forall_ne_some, ← not_exists, exists_positions?_iff hkernel]
  omega

/-- **Both computations are exact, and the same.** Of a window with a kernel and a stride of one or
    more, in words: there is a number of positions for whoever asks exactly if the rules have it,
    and this is so exactly if the padded extent is a word that the kernel fits into. Then it is the
    exact count, and nothing on the way there wraps. Otherwise the rules report the limit that is
    exceeded. The computations in numbers give the same. -/
theorem window_computations_exact (a : Axis) (extent padding : UInt64)
    (hkernel : 1 ≤ kernel.toNat) (hstride : 1 ≤ stride.toNat) :
    let padded := extent.toNat + 2 * padding.toNat
    (∀ v, positions? extent kernel stride padding = some v ↔
        windowExtent a extent kernel stride padding = .ok v) ∧
      ((∃ v, positions? extent kernel stride padding = some v) ↔
        padded < 2 ^ 64 ∧ kernel.toNat ≤ padded) ∧
      (∀ v, positions? extent kernel stride padding = some v →
        Window.Counts padded kernel.toNat stride.toNat v.toNat) ∧
      (padded < 2 ^ 64 → (padded - kernel.toNat) / stride.toNat + 1 < 2 ^ 64) ∧
      (positions? extent kernel stride padding = none →
        (windowExtent a extent kernel stride padding =
            .error (.extentOverflow a extent.toNat padding.toNat) ↔ 2 ^ 64 ≤ padded) ∧
          (windowExtent a extent kernel stride padding =
              .error (.windowTooLarge a extent.toNat kernel.toNat padding.toNat) ↔
            padded < 2 ^ 64 ∧ padded < kernel.toNat) ∧
          (2 ^ 64 ≤ padded ∨ padded < kernel.toNat)) ∧
      (positions? extent kernel stride padding).map UInt64.toNat =
        Window.positions? extent.toNat kernel.toNat stride.toNat padding.toNat ∧
      (windowExtent a extent kernel stride padding).map UInt64.toNat =
        ShapeRule.windowExtent a extent.toNat kernel.toNat stride.toNat padding.toNat := by
  intro padded
  refine ⟨fun v => ?_, exists_positions?_iff hkernel, fun v hv => ?_,
    steps_add_one_lt hkernel, fun hnone => ⟨?_, ?_, (positions?_eq_none_iff hkernel).mp hnone⟩,
    map_toNat_positions? hkernel, map_windowExtent hkernel⟩
  · rw [positions?_eq_some_iff hkernel, windowExtent_eq_ok_iff hkernel,
      Window.positions?_eq_some_iff_windowExtent]
  · have hnumber := (positions?_eq_some_iff hkernel).mp hv
    exact (Window.counts_iff hstride).mpr (Window.positions?_eq_some_iff.mp hnumber).2
  · rw [windowExtent_eq_error_iff hkernel, ShapeRule.windowExtent_eq_error_iff]
    simp only [reduceCtorEq, and_false, or_false, and_true]
    exact Iff.rfl
  · rw [windowExtent_eq_error_iff hkernel, ShapeRule.windowExtent_eq_error_iff]
    simp only [reduceCtorEq, and_false, false_or, and_true]
    exact Iff.rfl

/-- The widest padding that one element can have leaves as many positions as the largest word; two
    elements cannot have it. A kernel that is larger than the padded extent has no position. -/
theorem window_computations_exact_widest :
    windowExtent .height 1 1 1 9223372036854775807 = .ok 18446744073709551615 ∧
      Window.Counts (1 + 2 * 9223372036854775807) 1 1 18446744073709551615 ∧
      windowExtent .height 2 1 1 9223372036854775807 =
        .error (.extentOverflow .height 2 9223372036854775807) ∧
      windowExtent .width 3 6 2 1 = .error (.windowTooLarge .width 3 6 1) := by
  have hone : 1 ≤ (1 : UInt64).toNat := Nat.le_refl 1
  have htwo : 1 ≤ (2 : UInt64).toNat := by decide
  have hsix : 1 ≤ (6 : UInt64).toNat := by decide
  obtain ⟨hsame, -, hcounts, -⟩ :=
    window_computations_exact .height 1 9223372036854775807 hone hone
  obtain ⟨-, -, -, -, hwide, -⟩ :=
    window_computations_exact .height 2 9223372036854775807 hone hone
  obtain ⟨-, -, -, -, hlarge, -⟩ :=
    window_computations_exact .width 3 1 hsix htwo
  have hmany : positions? 1 1 1 9223372036854775807 = some 18446744073709551615 := by decide
  exact ⟨(hsame _).mp hmany, hcounts _ hmany, (hwide (by decide)).1.mpr (by decide),
    (hlarge (by decide)).2.1.mpr (by decide)⟩

end StoredRule

end TensorGraph
