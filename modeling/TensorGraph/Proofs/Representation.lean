import Mathlib.Data.Set.List
import TensorGraph.Proofs.ForeignIds
import TensorGraph.Proofs.StoredRules
import TensorGraph.Proofs.Variables

/-!
# `TensorGraph.Proofs.Representation` — **what is stored makes sense on every route**

Stored orders and shapes are plain data, and their queries trust them. There are five ways to come
by a stored shape, and all of them end where the extents are looked at, or give a shape that was
there before. So whatever can be come by is sound: it is the stored form of a `Shape`, which carries
its conditions with it, and the other way round. The same holds of the shape of every variable of a
graph that calls can make, which was given to a call or inferred from other variables.

## Contents
- **What making a shape refuses**, exactly.
- **`Sound`** stored shapes, and that all `Obtainable` ones are.
- **Shapes of variables** and where they come from.
- **`representation_sound`**, all of it.
-/

namespace TensorGraph

open Checks

/-! ## What making a shape refuses -/

theorem Shape.ofDims_eq_overflow_iff {o p : AxisOrder} {dims : List Nat} :
    ofDims o dims = .error (.sizeOverflow p) ↔
      p = o ∧ dims.length = o.rank ∧ (∀ d ∈ dims, 0 < d) ∧ Count.limit ≤ Count.product dims := by
  constructor
  · intro h
    unfold ofDims at h
    split at h
    · rename_i hlength
      split at h
      · cases h
      · rename_i hpos
        have hall := pos_of_firstEmptyAxis? hlength hpos
        split at h
        · rename_i hproduct
          cases h
          rw [Count.product?_of_pos hall, Count.fit?_eq_none] at hproduct
          exact ⟨rfl, hlength, hall, hproduct⟩
        · cases h
    · cases h
  · rintro ⟨rfl, hlength, hall, hproduct⟩
    refine ofDims_of_overflow hlength (firstEmptyAxis?_eq_none hall) ?_
    rw [Count.product?_of_pos hall, Count.fit?_eq_none]
    exact hproduct

/-- A stored shape is made anew from its own extents. -/
theorem Shape.new_words (t : Shape) : StoredShape.new t.order.stored t.words = .ok t.stored := by
  rw [Shape.new_eq, t.map_toNat_words, Shape.ofDims_dims]
  rfl

namespace StoredShape

variable {o : StoredOrder} {s : StoredShape} {dims : List UInt64}

/-- One extent per axis, and none of them zero. -/
structure Filled (o : StoredOrder) (dims : List UInt64) : Prop where
  length_eq : dims.length = o.axes.length
  one_le : ∀ d ∈ dims, 1 ≤ d.toNat

theorem forall_map_toNat {P : Nat → Prop} :
    (∀ n ∈ dims.map UInt64.toNat, P n) ↔ ∀ d ∈ dims, P d.toNat := List.forall_mem_map

/-- **Making a shape** accepts what fills the order and can be counted. -/
theorem new_eq_ok_iff (ho : o.Obtainable) :
    StoredShape.new o dims = .ok s ↔
      (Filled o dims ∧ Count.product (dims.map UInt64.toNat) < UInt64.size) ∧ s = ⟨o, dims⟩ := by
  obtain ⟨p, rfl⟩ := StoredOrder.obtainable_iff.mp ho
  rw [Shape.new_eq, map_eq_ok_iff]
  constructor
  · rintro ⟨t, ht, rfl⟩
    obtain ⟨rfl, hdims⟩ := Shape.ofDims_eq_ok_iff.mp ht
    have hlength : (dims.map UInt64.toNat).length = t.order.rank := hdims ▸ t.length_dims
    rw [List.length_map] at hlength
    refine ⟨⟨⟨hlength, forall_map_toNat.mp (hdims ▸ t.dims_pos)⟩, hdims ▸ t.product_lt⟩, ?_⟩
    exact Shape.stored_of_dims rfl hdims
  · rintro ⟨⟨hfilled, hproduct⟩, rfl⟩
    have hlength : (dims.map UInt64.toNat).length = p.rank := by
      rw [List.length_map]
      exact hfilled.length_eq
    let t : Shape := ⟨p, dims.map UInt64.toNat, hlength, forall_map_toNat.mpr hfilled.one_le,
      hproduct⟩
    exact ⟨t, Shape.ofDims_eq_ok_iff.mpr ⟨rfl, rfl⟩, Shape.stored_of_dims rfl rfl⟩

/-- **Making a shape** overflows on what fills the order and cannot be counted. -/
theorem new_eq_overflow_iff (ho : o.Obtainable) :
    StoredShape.new o dims = .error (.sizeOverflow o.shown) ↔
      Filled o dims ∧ UInt64.size ≤ Count.product (dims.map UInt64.toNat) := by
  obtain ⟨p, rfl⟩ := StoredOrder.obtainable_iff.mp ho
  rw [Shape.new_eq, map_eq_error_iff, AxisOrder.shown_stored, Shape.ofDims_eq_overflow_iff,
    List.length_map, forall_map_toNat]
  constructor
  · rintro ⟨-, hlength, hpos, hproduct⟩
    exact ⟨⟨hlength, hpos⟩, hproduct⟩
  · rintro ⟨hfilled, hproduct⟩
    exact ⟨rfl, hfilled.length_eq, hfilled.one_le, hproduct⟩

theorem Filled.perm {dims' : List UInt64} (h : dims.Perm dims') (hfilled : Filled o dims) :
    Filled o dims' where
  length_eq := h.length_eq.symm.trans hfilled.length_eq
  one_le d hd := hfilled.one_le d (h.mem_iff.mpr hd)

/-! ## Sound shapes -/

/-- **What holds of a stored shape that makes one.** -/
structure Sound (s : StoredShape) : Prop where
  order_sound : s.order.Sound
  filled : Filled s.order s.dims
  product_lt : Count.product (s.dims.map UInt64.toNat) < UInt64.size
  /-- Nothing wraps. -/
  size_eq : s.size.toNat = Count.product (s.dims.map UInt64.toNat)
  get_eq_some_iff : ∀ a d, s.get a = some d ↔ (a, d) ∈ s.iter
  /-- No position leads past the extents. -/
  position_lt : ∀ a i, s.order.position? a = some i → i < s.dims.length

theorem sound_of_stored (t : Shape) : t.stored.Sound := by
  have horder : t.order.stored.Obtainable := StoredOrder.obtainable_iff.mpr ⟨t.order, rfl⟩
  obtain ⟨⟨hfilled, hproduct⟩, -⟩ := (new_eq_ok_iff horder).mp t.new_words
  have hget : ∀ a d, t.stored.get a = some d ↔ (a, d) ∈ t.stored.iter := by
    intro a d
    show (t.order.stored.position? a).bind _ = _ ↔ _
    rw [AxisOrder.position?_stored]
    exact idxOf?_bind_eq_some_iff t.order.nodup
  have hposition : ∀ a i, t.order.stored.position? a = some i → i < t.words.length := by
    intro a i hi
    obtain ⟨hlt, -⟩ := List.getElem?_eq_some_iff.mp (AxisOrder.position?_stored_eq_some_iff.mp hi)
    rw [hfilled.length_eq]
    exact hlt
  exact
    { order_sound := StoredOrder.sound_stored t.order
      filled := hfilled
      product_lt := hproduct
      size_eq := Count.toNat_foldl_mul_of_lt hproduct
      get_eq_some_iff := hget
      position_lt := hposition }

/-- **The ways to come by a stored shape.** -/
inductive Obtainable : StoredShape → Prop where
  | new {o : StoredOrder} {dims : List UInt64} {s : StoredShape} (ho : o.Obtainable)
      (h : StoredShape.new o dims = .ok s) : Obtainable s
  | fromMap {o : StoredOrder} {extents : List (Axis × UInt64)} {s : StoredShape}
      (ho : o.Obtainable) (h : StoredShape.fromMap o extents = .ok s) : Obtainable s
  | withoutAxis {s t : StoredShape} {a : Axis} (hs : Obtainable s)
      (h : s.withoutAxis a = .ok t) : Obtainable t
  | json {text : String} {s : StoredShape} (h : Json.readAll StoredShape.read text = .ok s) :
      Obtainable s
  | inferred {op : Operator} {inputs outputs : List StoredShape} {s : StoredShape}
      (hinputs : ∀ x ∈ inputs, Obtainable x) (h : StoredShape.infer op.params inputs = .ok outputs)
      (hs : s ∈ outputs) : Obtainable s

/-- **Whatever can be come by** is the stored form of a shape, and the other way round. -/
theorem obtainable_iff : s.Obtainable ↔ ∃ t : Shape, t.stored = s := by
  constructor
  · intro h
    induction h with
    | new ho h =>
        obtain ⟨o, rfl⟩ := StoredOrder.obtainable_iff.mp ho
        rw [Shape.new_eq] at h
        obtain ⟨t, -, ht⟩ := map_eq_ok_iff.mp h
        exact ⟨t, ht⟩
    | fromMap ho h =>
        obtain ⟨o, rfl⟩ := StoredOrder.obtainable_iff.mp ho
        rw [Shape.fromMap_eq] at h
        obtain ⟨t, -, ht⟩ := map_eq_ok_iff.mp h
        exact ⟨t, ht⟩
    | withoutAxis _ h ih =>
        obtain ⟨s, rfl⟩ := ih
        rw [Shape.withoutAxis_eq] at h
        obtain ⟨t, -, ht⟩ := map_eq_ok_iff.mp h
        exact ⟨t, ht⟩
    | json h =>
        rw [read_eq, Json.readAll_carry] at h
        obtain ⟨t, -, ht⟩ := map_eq_ok_iff.mp h
        exact ⟨t, ht⟩
    | @inferred op inputs outputs s _ h hs ih =>
        -- All inputs are stored forms, so the rule is that over shapes.
        have hrange : inputs ∈ Set.range (List.map Shape.stored) := by
          rw [Set.range_list_map]
          exact ih
        obtain ⟨shapes, rfl⟩ := hrange
        rw [infer_eq op.params_valid] at h
        obtain ⟨ys, -, rfl⟩ := map_eq_ok_iff.mp h
        obtain ⟨t, -, ht⟩ := List.mem_map.mp hs
        exact ⟨t, ht⟩
  · rintro ⟨t, rfl⟩
    exact .new (StoredOrder.obtainable_iff.mpr ⟨t.order, rfl⟩) t.new_words

/-- **Every shape that can be come by is sound.** -/
theorem Obtainable.sound (h : s.Obtainable) : s.Sound := by
  obtain ⟨t, rfl⟩ := obtainable_iff.mp h
  exact sound_of_stored t

end StoredShape

/-! ## Shapes of variables -/

/-- The shape that a call hands over. -/
def Call.given? : Call → Option Shape
  | .addInput _ shape | .addConstant _ shape => some shape
  | .markOutput _ | .apply .. | .applyOne .. => none

namespace Graph

variable {g : Graph}

/-- **Where the shape of a variable comes from** when a graph is called: another variable had it, it
    was given, or it was inferred from shapes of other variables. -/
inductive Sourced (g : Graph) (given? : Option Shape) (s : Shape) : Prop where
  | kept {u : Variable} (hu : u ∈ g.vars) (hs : u.shape = s)
  | given (hs : given? = some s)
  | inferred {op : Operator} {inputs outputs : List Shape}
      (hinputs : ∀ x ∈ inputs, ∃ u ∈ g.vars, u.shape = x)
      (h : op.params.outputShapes inputs = .ok outputs) (hs : s ∈ outputs)

theorem mem_shapesOf {inputs : List VariableId} {x : Shape} (hx : x ∈ g.shapesOf inputs) :
    ∃ u ∈ g.vars, u.shape = x := by
  obtain ⟨i, -, hi⟩ := List.mem_filterMap.mp hx
  obtain ⟨u, hu, hux⟩ := Option.map_eq_some_iff.mp hi
  exact ⟨u, List.mem_of_getElem? (findVariable_eq_some_iff.mp hu).2, hux⟩

theorem sourced_withDeclared {name : String} {shape : Shape} {role : Variable.Role} {v : Variable}
    (hv : v ∈ (g.withDeclared name shape role).vars) : g.Sourced (some shape) v.shape := by
  rcases List.mem_append.mp hv with hold | hnew
  · exact .kept hold rfl
  · rw [List.mem_singleton.mp hnew]
    exact .given rfl

theorem sourced_committed {name : String} {op : Operator} {inputs : List VariableId}
    {shape : Shape} (happ : g.Applicable name op.params inputs shape) {given? : Option Shape}
    {v : Variable} (hv : v ∈ (g.committed name op.params inputs shape).vars) :
    g.Sourced given? v.shape := by
  obtain ⟨w, hw, hread⟩ := mem_linkConsumers hv
  have hshape : v.shape = w.shape := by
    rcases hread with rfl | rfl
    · rfl
    · unfold Variable.addConsumer
      split <;> rfl
  rw [hshape]
  rcases List.mem_append.mp hw with hold | hnew
  · exact .kept hold rfl
  · rw [List.mem_singleton.mp hnew]
    exact .inferred (fun x hx => mem_shapesOf hx) happ.inferred (List.mem_singleton.mpr rfl)

/-- A variable after a call was there before or comes with the answer. -/
theorem mem_vars_after {c : Call} {v : Variable} (hv : v ∈ (g.after c).vars) :
    v ∈ g.vars ∨ ∃ r, g.answer c = .ok r ∧ v ∈ r.1.vars := by
  cases h : g.answer c with
  | error e =>
      rw [after_of_error h] at hv
      exact Or.inl hv
  | ok r =>
      rw [after_of_answer h] at hv
      exact Or.inr ⟨r, rfl, hv⟩

theorem sourced_after_apply (op : Operator) (inputs : List VariableId) {v : Variable}
    (hv : v ∈ (g.after (.apply op inputs)).vars) : g.Sourced none v.shape := by
  obtain hold | ⟨r, hr, hnew⟩ := mem_vars_after hv
  · exact .kept hold rfl
  · obtain ⟨shape, happ, rfl⟩ := apply_eq_ok (mapError_eq_ok_iff.mp hr)
    exact sourced_committed happ hnew

/-- **After a call** every variable's shape has such a source. -/
theorem sourced_after (c : Call) {v : Variable} (hv : v ∈ (g.after c).vars) :
    g.Sourced c.given? v.shape := by
  cases c with
  | addInput name shape =>
      obtain hold | ⟨r, hr, hnew⟩ := mem_vars_after hv
      · exact .kept hold rfl
      · obtain ⟨-, rfl⟩ := answer_addInput_eq_ok_iff.mp hr
        exact sourced_withDeclared hnew
  | addConstant name shape =>
      obtain hold | ⟨r, hr, hnew⟩ := mem_vars_after hv
      · exact .kept hold rfl
      · obtain ⟨-, rfl⟩ := answer_addConstant_eq_ok_iff.mp hr
        exact sourced_withDeclared hnew
  | markOutput i =>
      obtain hold | ⟨r, hr, hnew⟩ := mem_vars_after hv
      · exact .kept hold rfl
      · obtain ⟨-, rfl⟩ := answer_markOutput_eq_ok_iff.mp hr
        dsimp only at hnew
        split at hnew <;> exact .kept hnew rfl
  | apply op inputs => exact sourced_after_apply op inputs hv
  | applyOne op inputs =>
      rw [after_applyOne] at hv
      exact sourced_after_apply op inputs hv

/-- **What holds of given shapes and is kept by inference** holds of the shapes of all variables,
    however long a run is. -/
theorem shapes_run {P : Shape → Prop} (hinferred : ∀ (op : Operator) (inputs outputs : List Shape),
      (∀ x ∈ inputs, P x) → op.params.outputShapes inputs = .ok outputs → ∀ s ∈ outputs, P s)
    {calls : List Call} (hgiven : ∀ c ∈ calls, ∀ s, c.given? = some s → P s)
    (h : ∀ v ∈ g.vars, P v.shape) : ∀ v ∈ (g.run calls).vars, P v.shape := by
  induction calls generalizing g with
  | nil => exact h
  | cons c calls ih =>
      obtain ⟨hfirst, hrest⟩ := List.forall_mem_cons.mp hgiven
      refine ih hrest fun v hv => ?_
      generalize hs : v.shape = s
      cases hs ▸ sourced_after c hv with
      | kept hu hus => exact hus ▸ h _ hu
      | given hc => exact hfirst s hc
      | inferred hinputs hok hmem =>
          refine hinferred _ _ _ (fun x hx => ?_) hok s hmem
          obtain ⟨u, hu, rfl⟩ := hinputs x hx
          exact h u hu

/-- **Shapes of variables** can be come by, in stored form. -/
theorem Reachable.obtainable (h : g.Reachable) {v : Variable} (hv : v ∈ g.vars) :
    v.shape.stored.Obtainable := by
  obtain ⟨id, name, options, calls, -, rfl⟩ := h
  refine shapes_run (P := fun s => s.stored.Obtainable) ?_ ?_
    (fun _ hnone => (List.not_mem_nil hnone).elim) v hv
  · intro op inputs outputs hinputs hok s hs
    have hinfer : StoredShape.infer op.params (inputs.map Shape.stored) =
        .ok (outputs.map Shape.stored) := by
      rw [StoredShape.infer_eq op.params_valid, hok]
      rfl
    exact .inferred (List.forall_mem_map.mpr hinputs) hinfer (List.mem_map_of_mem hs)
  · intro c _ s _
    exact StoredShape.obtainable_iff.mpr ⟨s, rfl⟩

end Graph

/-! ## All of it -/

/-- **Stored orders and shapes make sense on every route**: from their constructors, from texts and
    JSON, by leaving an axis out, by inference, and in the graphs that calls can make. Nothing is
    refused but what makes no order or shape, and the order of the extents does not matter to what
    overflows. -/
theorem StoredShape.representation_sound :
    (∀ o : StoredOrder, o.Obtainable → o.Sound) ∧
    (∀ o p : StoredOrder, o.Obtainable → p.Obtainable → (o = p ↔ o.axes = p.axes)) ∧
    (∀ axes o, StoredOrder.new axes = .ok o ↔
      (axes ≠ [] ∧ axes.Nodup) ∧ o = .ofStatic axes) ∧
    (∀ s : StoredShape, s.Obtainable → s.Sound) ∧
    (∀ s : StoredShape, s.Obtainable ↔ ∃ t : Shape, t.stored = s) ∧
    (∀ g : Graph, g.Reachable → ∀ v ∈ g.vars,
      v.shape.stored.Obtainable ∧ v.shape.stored.Sound) ∧
    (∀ (o : StoredOrder) (dims : List UInt64), o.Obtainable → ∀ s,
      (StoredShape.new o dims = .ok s ↔
        (Filled o dims ∧ Count.product (dims.map UInt64.toNat) < UInt64.size) ∧ s = ⟨o, dims⟩)) ∧
    ∀ (o : StoredOrder) (dims dims' : List UInt64), o.Obtainable → dims.Perm dims' →
      (StoredShape.new o dims = .error (.sizeOverflow o.shown) ↔
        StoredShape.new o dims' = .error (.sizeOverflow o.shown)) := by
  refine ⟨fun o ho => ho.sound, fun o p ho hp => ho.eq_iff hp,
    fun axes o => StoredOrder.new_eq_ok_iff, fun s hs => hs.sound,
    fun s => obtainable_iff, ?_, fun o dims ho s => new_eq_ok_iff ho, ?_⟩
  · intro g hg v hv
    exact ⟨hg.obtainable hv, (hg.obtainable hv).sound⟩
  · intro o dims dims' ho hperm
    have hproduct : Count.product (dims.map UInt64.toNat) = Count.product (dims'.map UInt64.toNat) :=
      Count.product_perm (hperm.map UInt64.toNat)
    rw [new_eq_overflow_iff ho, new_eq_overflow_iff ho, hproduct]
    exact and_congr_left fun _ => ⟨fun h => h.perm hperm, fun h => h.perm hperm.symm⟩

/-- Two extents whose product is the largest word, and two whose product is the next number. -/
theorem StoredShape.representation_sound_largest :
    (StoredShape.mk AxisOrder.nc.stored [4294967295, 4294967297]).Sound ∧
      ¬ ∃ s, StoredShape.new AxisOrder.nc.stored [4294967296, 4294967296] = .ok s := by
  obtain ⟨-, -, -, hsound, -, -, haccepts, -⟩ := representation_sound
  have horder : AxisOrder.nc.stored.Obtainable := StoredOrder.obtainable_iff.mpr ⟨.nc, rfl⟩
  have hfilled : Filled AxisOrder.nc.stored [4294967295, 4294967297] := ⟨rfl, by simp⟩
  constructor
  · have hmade := (haccepts _ _ horder _).mpr ⟨⟨hfilled, by simp [UInt64.size]⟩, rfl⟩
    exact hsound _ (.new horder hmade)
  · rintro ⟨s, hs⟩
    obtain ⟨⟨-, hproduct⟩, -⟩ := (haccepts _ _ horder s).mp hs
    simp [UInt64.size] at hproduct

end TensorGraph
