import TensorGraph.Proofs.ShapeRules
import TensorGraph.Proofs.StoredShapes

/-!
# `TensorGraph.Proofs.FirstFault` — **which fault is reported**

Checks are made one after another, and the first that fails is the answer. What can be wrong is
listed without regard to that: the faults that the first check looks for, then those of the second,
and so on, each computed from the input alone. `Reports` says that the two go together: nothing is
refused without a fault, and what is refused is refused for the first one. So the precedence of
errors is the order of a list.

## Contents
- **Demands** `unmet`, the fault of a condition that has to hold.
- **`Reports`**, what it says about answers, and one lemma per way to put checks together.
- **Orders and shapes**: the faults of making them, and of asking for an axis.
-/

namespace TensorGraph

variable {ε ε' α β : Type}

/-! ## Demands -/

/-- The fault of a demand that is not met. -/
def unmet (p : Prop) [Decidable p] (e : ε) : List ε := if p then [] else [e]

section Unmet

variable {p : Prop} [Decidable p] {e e' : ε}

theorem unmet_of (hp : p) : unmet p e = [] := if_pos hp

theorem unmet_of_not (hp : ¬ p) : unmet p e = [e] := if_neg hp

@[simp] theorem unmet_eq_nil_iff : unmet p e = [] ↔ p := by
  by_cases hp : p <;> simp [unmet, hp]

@[simp] theorem mem_unmet_iff : e' ∈ unmet p e ↔ ¬ p ∧ e' = e := by
  by_cases hp : p <;> simp [unmet, hp]

theorem head?_unmet_eq_some_iff : (unmet p e).head? = some e' ↔ ¬ p ∧ e' = e := by
  by_cases hp : p <;> simp [unmet, hp, eq_comm]

theorem map_unmet (f : ε → ε') : (unmet p e).map f = unmet p (f e) := by
  by_cases hp : p <;> simp [unmet, hp]

end Unmet

/-- A fault that only the later checks look for is reported when the earlier ones find nothing. -/
theorem head?_append_eq_some_iff_of_not_mem {faults more : List ε} {e : ε} (hnot : e ∉ faults) :
    (faults ++ more).head? = some e ↔ faults = [] ∧ more.head? = some e := by
  cases faults with
  | nil => simp
  | cons first rest =>
      have hne : first ≠ e := fun h => hnot (h ▸ List.mem_cons_self)
      simp [hne]

/-! ## Reports -/

/-- **What is refused is refused for the first of the faults**, and where there is no fault there is
    an answer. -/
def Reports (r : Except ε α) (faults : List ε) : Prop :=
  match r with
  | .ok _ => faults = []
  | .error e => faults.head? = some e

namespace Reports

variable {r : Except ε α} {faults more : List ε} {e : ε}

/-! ### What it says -/

theorem eq_error_iff (h : Reports r faults) : r = .error e ↔ faults.head? = some e := by
  cases r with
  | ok a =>
      have hnil : faults = [] := h
      simp [hnil]
  | error e' =>
      have hhead : faults.head? = some e' := h
      rw [hhead, Except.error.injEq, Option.some.injEq]

theorem exists_ok_iff (h : Reports r faults) : (∃ a, r = .ok a) ↔ faults = [] := by
  cases r with
  | ok a => exact ⟨fun _ => h, fun _ => ⟨a, rfl⟩⟩
  | error e' =>
      have hhead : faults.head? = some e' := h
      constructor
      · rintro ⟨a, ha⟩
        cases ha
      · intro hnil
        rw [hnil] at hhead
        cases hhead

theorem mem_of_error (h : Reports r faults) (he : r = .error e) : e ∈ faults :=
  List.mem_of_head? (h.eq_error_iff.mp he)

/-! ### Putting checks together -/

theorem ok (a : α) : Reports (.ok a : Except ε α) [] := rfl

theorem error (e : ε) (rest : List ε) : Reports (.error e : Except ε α) (e :: rest) := rfl

/-- The same check under another list of the same faults. -/
theorem of_eq (h : Reports r faults) (heq : faults = more) : Reports r more := heq ▸ h

/-- **A step, then the rest.** The faults of the rest are looked for if the step succeeds. -/
theorem bind {f : α → Except ε β} (h : Reports r faults)
    (hnext : ∀ a, r = .ok a → Reports (f a) more) : Reports (r >>= f) (faults ++ more) := by
  cases r with
  | ok a =>
      have hnil : faults = [] := h
      rw [hnil]
      exact hnext a rfl
  | error e =>
      have hhead : faults.head? = some e := h
      show (faults ++ more).head? = some e
      rw [List.head?_append, hhead]
      rfl

/-- A step that does not fail looks for nothing. -/
theorem bind_ok {f : α → Except ε β} {a : α} (ha : r = .ok a) (hnext : Reports (f a) more) :
    Reports (r >>= f) more := by
  rw [ha]
  exact hnext

/-- A demand, then the rest. -/
theorem demand {p q : Prop} [Decidable p] [Decidable q] {f : PUnit → Except ε β} (hpq : p ↔ q)
    (hnext : q → Reports (f ⟨⟩) more) :
    Reports (if p then f ⟨⟩ else (throw e : Except ε PUnit) >>= f) (unmet q e ++ more) := by
  by_cases hp : p
  · rw [if_pos hp, unmet_of (hpq.mp hp)]
    exact hnext (hpq.mp hp)
  · rw [if_neg hp, unmet_of_not fun hq => hp (hpq.mpr hq)]
    rfl

/-- An answer under a demand. -/
theorem ite {p q : Prop} [Decidable p] [Decidable q] (hpq : p ↔ q)
    (hnext : q → Reports r more) :
    Reports (if p then r else .error e) (unmet q e ++ more) := by
  by_cases hp : p
  · rw [if_pos hp, unmet_of (hpq.mp hp)]
    exact hnext (hpq.mp hp)
  · rw [if_neg hp, unmet_of_not fun hq => hp (hpq.mpr hq)]
    rfl

theorem map (f : α → β) (h : Reports r faults) : Reports (f <$> r) faults := by
  cases r with
  | ok a => exact h
  | error e => exact h

/-- A step, and what is made of its answer. -/
theorem bind_pure (f : α → β) (h : Reports r faults) :
    Reports (r >>= fun a => pure (f a)) faults := by
  cases r with
  | ok a => exact h
  | error e => exact h

theorem mapError (f : ε → ε') (h : Reports r faults) : Reports (r.mapError f) (faults.map f) := by
  cases r with
  | ok a =>
      have hnil : faults = [] := h
      rw [hnil]
      rfl
  | error e =>
      have hhead : faults.head? = some e := h
      show (faults.map f).head? = some (f e)
      rw [List.head?_map, hhead]
      rfl

/-- One check per entry. -/
theorem forM {f : α → Except ε PUnit} {g : α → List ε} {xs : List α}
    (h : ∀ a ∈ xs, Reports (f a) (g a)) : Reports (xs.forM f) (xs.flatMap g) := by
  induction xs with
  | nil => rfl
  | cons x xs ih =>
      obtain ⟨hfirst, hrest⟩ := List.forall_mem_cons.mp h
      rw [List.forM_eq_forM, List.forM_cons, List.flatMap_cons]
      exact hfirst.bind fun _ _ => ih hrest

end Reports

/-! ## Orders and shapes -/

namespace AxisOrder

/-- **Making an order** of distinct axes fails only if there are none. -/
theorem reports_ofAxes {axes : List Axis} (hnodup : axes.Nodup) :
    Reports (ofAxes axes) (unmet (axes ≠ []) .emptyOrder) := by
  by_cases hne : axes = []
  · rw [unmet_of_not (not_not.mpr hne)]
    subst hne
    rfl
  · rw [unmet_of hne]
    have hmade : ofAxes axes = .ok ⟨axes, hne, hnodup⟩ := ofAxes_eq_ok_iff.mpr rfl
    rw [hmade]
    exact Reports.ok _

/-- The faults of leaving an axis out: it is not there, or nothing else is. -/
def eraseFaults (o : AxisOrder) (a : Axis) : List ShapeError :=
  unmet (a ∈ o.axes) (.missingAxis a o) ++ unmet (o.axes.filter (· ≠ a) ≠ []) .emptyOrder

theorem reports_erase (o : AxisOrder) (a : Axis) : Reports (o.erase a) (o.eraseFaults a) :=
  Reports.ite contains_iff fun _ => reports_ofAxes (o.nodup.filter _)

end AxisOrder

namespace Shape

/-- The faults of extents for an order: their number, those that are zero, and the number of
    elements. -/
def dimFaults (o : AxisOrder) (dims : List Nat) : List ShapeError :=
  unmet (dims.length = o.rank) (.rankMismatch o dims.length) ++
    (((o.axes.zip dims).filter fun p => p.2 == 0).map fun p => .zeroExtent p.1) ++
      unmet (Count.product dims < Count.limit) (.sizeOverflow o)

/-- **Making a shape** reports the first of these. -/
theorem reports_ofDims (o : AxisOrder) (dims : List Nat) :
    Reports (ofDims o dims) (dimFaults o dims) := by
  unfold dimFaults
  by_cases hlength : dims.length = o.rank
  · rw [unmet_of hlength, List.nil_append]
    cases hzero : firstEmptyAxis? o dims with
    | some a =>
        rw [ofDims_of_emptyAxis hlength hzero]
        rw [firstEmptyAxis?, Option.map_eq_some_iff] at hzero
        obtain ⟨p, hp, rfl⟩ := hzero
        show List.head? _ = _
        rw [List.head?_append, List.head?_map, List.head?_filter, hp]
        rfl
    | none =>
        have hpos := pos_of_firstEmptyAxis? hlength hzero
        rw [firstEmptyAxis?, Option.map_eq_none_iff, ← List.head?_filter, List.head?_eq_none_iff]
          at hzero
        rw [hzero, List.map_nil, List.nil_append]
        by_cases hfit : Count.product dims < Count.limit
        · have hmade : ofDims o dims = .ok ⟨o, dims, hlength, hpos, hfit⟩ :=
            ofDims_eq_ok_iff.mpr ⟨rfl, rfl⟩
          rw [hmade, unmet_of hfit]
          exact Reports.ok _
        · have hover : Count.product? dims = none := by
            rw [Count.product?_of_pos hpos, Count.fit?_eq_none]
            omega
          rw [unmet_of_not hfit,
            ofDims_of_overflow hlength (firstEmptyAxis?_eq_none hpos) hover]
          exact Reports.error _ _
  · rw [unmet_of_not hlength]
    unfold ofDims
    rw [dif_neg hlength]
    rfl

/-- Of positive extents, one per axis, only the number of elements can be wrong. -/
theorem dimFaults_of_pos {o : AxisOrder} {dims : List Nat} (hlength : dims.length = o.rank)
    (hpos : ∀ d ∈ dims, 0 < d) :
    dimFaults o dims = unmet (Count.product dims < Count.limit) (.sizeOverflow o) := by
  have hnone : firstEmptyAxis? o dims = none := firstEmptyAxis?_eq_none hpos
  rw [firstEmptyAxis?, Option.map_eq_none_iff, ← List.head?_filter, List.head?_eq_none_iff]
    at hnone
  rw [dimFaults, unmet_of hlength, hnone]
  rfl

end Shape

/-- **Asking for an axis** fails where there is none. -/
theorem ShapeRule.reports_need (slot : String) (s : Shape) (a : Axis) :
    Reports (need slot s a) (unmet (a ∈ s.order.axes) (.axisNotPresent slot a s.order)) := by
  by_cases ha : a ∈ s.order.axes
  · rw [need_of_mem slot ha, unmet_of ha]
    exact Reports.ok _
  · rw [unmet_of_not ha, need, Shape.extent?_eq_none_iff.mpr ha]
    exact Reports.error _ _

end TensorGraph
