import TensorGraph.Shape.Error

/-!
# `TensorGraph.AxisOrder.Build` — **making axis orders**

Orders come from a sequence of axes, from a written text, or from another order by leaving one axis
out. All three end in `AxisOrder.ofAxes`, so there is one place that refuses.

## Contents
- **First repetition.** `firstRepeat?` finds the axis at the earliest position that repeats an
  earlier one; there is none exactly when the axes are distinct.
- **Constructors.** `ofAxes`, `parse` (letters are looked at before repetitions), `erase`.
-/

namespace TensorGraph.AxisOrder

/-! ## First repetition -/

/-- The first axis that is among the ones seen before it. -/
def firstRepeatAfter? (seen : List Axis) : List Axis → Option Axis
  | [] => none
  | a :: rest => if a ∈ seen then some a else firstRepeatAfter? (a :: seen) rest

/-- The axis at the earliest position that repeats an earlier one. -/
def firstRepeat? (axes : List Axis) : Option Axis := firstRepeatAfter? [] axes

theorem firstRepeatAfter?_eq_none_iff {seen axes : List Axis} :
    firstRepeatAfter? seen axes = none ↔ axes.Nodup ∧ ∀ a ∈ axes, a ∉ seen := by
  induction axes generalizing seen with
  | nil => simp [firstRepeatAfter?]
  | cons a rest ih =>
      by_cases h : a ∈ seen
      · simp [firstRepeatAfter?, h]
      · simp only [firstRepeatAfter?, h, if_false, ih, List.nodup_cons, List.mem_cons,
          forall_eq_or_imp, not_or, not_false_eq_true, true_and]
        constructor
        · rintro ⟨hnd, hne⟩
          exact ⟨⟨fun hmem => (hne a hmem).1 rfl, hnd⟩, fun b hb => (hne b hb).2⟩
        · rintro ⟨⟨hnot, hnd⟩, hne⟩
          exact ⟨hnd, fun b hb => ⟨fun e => hnot (e ▸ hb), hne b hb⟩⟩

/-- **Nothing repeats exactly in a sequence of distinct axes.** -/
theorem firstRepeat?_eq_none_iff {axes : List Axis} : firstRepeat? axes = none ↔ axes.Nodup := by
  simp [firstRepeat?, firstRepeatAfter?_eq_none_iff]

/-! ## Constructors -/

/-- The order over a sequence of axes, unless it is empty or repeats an axis. -/
def ofAxes (axes : List Axis) : Except ShapeError AxisOrder :=
  if hne : axes = [] then .error .emptyOrder
  else
    match hrep : firstRepeat? axes with
    | some a => .error (.duplicateAxis a)
    | none => .ok ⟨axes, hne, firstRepeat?_eq_none_iff.mp hrep⟩

/-- The axis of a letter, or the letter as the reason. -/
def readLetter (c : Char) : Except ShapeError Axis :=
  match Axis.ofLetter? c with
  | some a => .ok a
  | none => .error (.unknownLetter c)

/-- The order that letters spell. A letter of no axis is reported before any repetition. -/
def ofLetters (letters : List Char) : Except ShapeError AxisOrder := do
  ofAxes (← letters.mapM readLetter)

/-- The order that a text spells. -/
def parse (text : String) : Except ShapeError AxisOrder := ofLetters text.toList

/-- The order with one axis left out; the other axes keep their order. -/
def erase (o : AxisOrder) (a : Axis) : Except ShapeError AxisOrder :=
  if o.contains a then ofAxes (o.axes.filter (· ≠ a)) else .error (.missingAxis a o)

/-! ## When they succeed -/

theorem ofAxes_eq_ok_iff {axes : List Axis} {o : AxisOrder} :
    ofAxes axes = .ok o ↔ o.axes = axes := by
  unfold ofAxes
  split
  · rename_i h
    simp only [reduceCtorEq, false_iff]
    exact fun he => o.axes_ne_nil (he.trans h)
  · split
    · rename_i a hrep
      simp only [reduceCtorEq, false_iff]
      intro he
      rw [firstRepeat?_eq_none_iff.mpr (he ▸ o.nodup)] at hrep
      cases hrep
    · simp only [Except.ok.injEq]
      exact ⟨fun h => h ▸ rfl, fun h => ext_axes h.symm⟩

@[simp] theorem ofAxes_axes (o : AxisOrder) : ofAxes o.axes = .ok o :=
  ofAxes_eq_ok_iff.mpr rfl

end TensorGraph.AxisOrder
