import Mathlib.Data.List.Nodup
import TensorGraph.Proofs.JsonRoundTrip
import TensorGraph.Proofs.StoredOrders
import TensorGraph.Shape.Stored

/-!
# `TensorGraph.Proofs.StoredShapes` — **words hold the true number of elements**

A stored shape multiplies words and asks a table. Its constructors multiply with a check, from the
left and after zeros are refused, so no partial product is larger than the whole one: the check
refuses exactly the extents whose product is no word, and the product that wraps is the exact one.
Every constructor is the constructor of shapes, carried over, with the same errors.

## Contents
- **Products of words**, checked and wrapping.
- **Reading parts carried over.**
- **Stored shapes** of shapes: `Shape.stored`, with one equation per constructor.
-/

namespace TensorGraph

open Checks

/-! ## Products of words -/

namespace Count

/-- A word that is kept only if the number behind it is one, is that number. -/
theorem map_toNat_checked {n : Nat} {w : UInt64} (hwrap : w.toNat = n % UInt64.size) :
    (if n < UInt64.size then some w else none).map UInt64.toNat = fit? n := by
  unfold fit? limit
  by_cases hfit : n < UInt64.size
  · rw [if_pos hfit, if_pos hfit, Option.map_some, hwrap, Nat.mod_eq_of_lt hfit]
  · rw [if_neg hfit, if_neg hfit, Option.map_none]

theorem map_toNat_checkedMul? (a b : UInt64) :
    (checkedMul? a b).map UInt64.toNat = mul? a.toNat b.toNat :=
  map_toNat_checked (UInt64.toNat_mul a b)

/-- **The checked product of words** is that of the numbers. -/
theorem map_toNat_foldlM (ws : List UInt64) (acc : UInt64) :
    (ws.foldlM checkedMul? acc).map UInt64.toNat = (ws.map UInt64.toNat).foldlM mul? acc.toNat :=
  map_foldlM (m := Option) (h := UInt64.toNat) map_toNat_checkedMul? ws acc

/-- **The product that wraps** is the exact one up to a multiple of the word size. -/
theorem toNat_foldl_mul (ws : List UInt64) (acc : UInt64) :
    (ws.foldl (· * ·) acc).toNat = acc.toNat * product (ws.map UInt64.toNat) % UInt64.size := by
  induction ws generalizing acc with
  | nil =>
      rw [List.foldl_nil, List.map_nil, product_nil, Nat.mul_one]
      exact (Nat.mod_eq_of_lt acc.toNat_lt).symm
  | cons w ws ih =>
      have hwrap : (acc * w).toNat = acc.toNat * w.toNat % UInt64.size := UInt64.toNat_mul acc w
      rw [List.foldl_cons, ih, hwrap, List.map_cons, product_cons, Nat.mod_mul_mod, Nat.mul_assoc]

/-- Where the exact product is a word, nothing wraps. -/
theorem toNat_foldl_mul_of_lt {ws : List UInt64}
    (h : product (ws.map UInt64.toNat) < UInt64.size) :
    (ws.foldl (· * ·) 1).toNat = product (ws.map UInt64.toNat) := by
  have hone : (1 : UInt64).toNat = 1 := rfl
  rw [toNat_foldl_mul, hone, Nat.one_mul, Nat.mod_eq_of_lt h]

end Count

/-! ## Reading parts carried over -/

namespace Json

variable {α β κ σ τ : Type} {f : α → β}

theorem readNext?_carry (begin : Bool) (item : Reader α) :
    readNext? begin (carry f item) = carry (Option.map f) (readNext? begin item) := by
  funext cs
  unfold readNext?
  dsimp only [carry]
  split
  · rfl
  · cases begin with
    | true => exact map_bind_eq fun r => rfl
    | false => exact bind_eq_map_self fun cs => map_bind_eq fun r => rfl

theorem readOnce_carry (place : Option α) (item : Reader α) :
    readOnce (place.map f) (carry f item) = carry f (readOnce place item) := by
  cases place <;> rfl

/-- Members are read into states that correspond, if each of them is. -/
theorem readMembers_carry {h : σ → τ} {key : Reader κ} {member : σ → κ → Reader σ}
    {member' : τ → κ → Reader τ} (hmember : ∀ s k, member' (h s) k = carry h (member s k))
    (most : Nat) (s : σ) :
    readMembers key member' most (h s) = carry h (readMembers key member most s) := by
  funext cs
  induction most generalizing s cs with
  | zero => rfl
  | succ most ih =>
      unfold carry
      rw [readMembers, readMembers]
      refine bind_eq_map_self fun r => bind_eq_map_self fun cs => ?_
      rw [hmember]
      refine map_bind_eq fun r => ?_
      dsimp only [Prod.map_fst, Prod.map_snd, id]
      split
      · exact ih _ _
      · rfl
      · rfl

theorem readObject_carry {h : σ → τ} {key : Reader κ} {member : σ → κ → Reader σ}
    {member' : τ → κ → Reader τ} (hmember : ∀ s k, member' (h s) k = carry h (member s k))
    (s : σ) : readObject key member' (h s) = carry h (readObject key member s) := by
  funext cs
  unfold readObject carry
  refine bind_eq_map_self fun cs => ?_
  split
  · rfl
  · exact congrFun (readMembers_carry hmember _ s) _

/-- **A record** with its first field carried over. -/
theorem readFields_carry {β' : Type} (first : String × Reader α) (second : String × Reader β')
    (other : Reader Unit) :
    readFields (first.1, carry f first.2) second other =
      carry (Prod.map (Option.map f) id) (readFields first second other) := by
  funext cs
  unfold readFields
  conv_rhs => dsimp only [carry]
  split
  · rw [readNext?_carry]
    refine map_bind_eq fun r => bind_eq_map_self fun q => ?_
    exact bind_eq_map_self fun cs => rfl
  · refine congrFun (readObject_carry (h := Prod.map (Option.map f) id) ?_ (none, none)) _
    rintro ⟨a?, b?⟩ name
    funext cs
    by_cases hfirst : name = first.1
    · simp only [if_pos hfirst, Prod.map_apply, readOnce_carry]
      exact map_bind_eq fun r => rfl
    · conv_rhs => dsimp only [carry]
      by_cases hsecond : name = second.1
      · simp only [if_neg hfirst, if_pos hsecond]
        exact bind_eq_map_self fun r => rfl
      · simp only [if_neg hfirst, if_neg hsecond]
        exact bind_eq_map_self fun r => rfl

end Json

/-! ## Stored shapes of shapes -/

namespace AxisOrder

/-- Asking the table is looking for the axis. -/
theorem position?_stored (o : AxisOrder) (a : Axis) : o.stored.position? a = o.position? a := by
  refine Option.ext fun i => ?_
  rw [position?_stored_eq_some_iff, position?, List.idxOf?_eq_some_iff]
  constructor
  · intro hi
    obtain ⟨hlt, heq⟩ := List.getElem?_eq_some_iff.mp hi
    refine ⟨hlt, heq, fun j hj hja => ?_⟩
    -- The axis stands nowhere else.
    have hji : j = i := (o.nodup.getElem_inj_iff).mp (hja.trans heq.symm)
    omega
  · rintro ⟨hlt, heq, -⟩
    exact List.getElem?_eq_some_iff.mpr ⟨hlt, heq⟩

end AxisOrder

namespace Shape

/-- The shape with its table and with words for extents. -/
def stored (s : Shape) : StoredShape := ⟨s.order.stored, s.words⟩

variable {o : AxisOrder} {ws : List UInt64}

theorem stored_of_dims {s : Shape} (horder : s.order = o) (hdims : s.dims = ws.map UInt64.toNat) :
    s.stored = ⟨o.stored, ws⟩ := by
  have hwords : s.words = ws := by
    rw [words, hdims, List.map_map]
    refine (List.map_congr_left fun w _ => ?_).trans (List.map_id ws)
    exact UInt64.ofNat_toNat
  rw [stored, horder, hwords]

theorem firstEmptyAxis?_map_toNat (o : AxisOrder) (ws : List UInt64) :
    firstEmptyAxis? o (ws.map UInt64.toNat) =
      ((o.axes.zip ws).find? fun p => p.2 == 0).map Prod.fst := by
  have hzero : ∀ w : UInt64, (w.toNat == 0) = (w == 0) := by
    intro w
    rw [Bool.eq_iff_iff, beq_iff_eq, beq_iff_eq]
    exact ⟨fun h => UInt64.toNat_inj.mp h, fun h => congrArg UInt64.toNat h⟩
  rw [firstEmptyAxis?, List.zip_map_right, List.find?_map, Option.map_map]
  simp only [Function.comp_def, Prod.map_snd, hzero, Prod.map_fst, id]

theorem ofDims_of_emptyAxis {dims : List Nat} {a : Axis} (hlength : dims.length = o.rank)
    (h : firstEmptyAxis? o dims = some a) : ofDims o dims = .error (.zeroExtent a) := by
  unfold ofDims
  rw [dif_pos hlength]
  split
  · rename_i b hb
    rw [h] at hb
    cases hb
    rfl
  · rename_i hnone
    rw [h] at hnone
    cases hnone

theorem ofDims_of_overflow {dims : List Nat} (hlength : dims.length = o.rank)
    (hpos : firstEmptyAxis? o dims = none) (h : Count.product? dims = none) :
    ofDims o dims = .error (.sizeOverflow o) := by
  unfold ofDims
  rw [dif_pos hlength]
  split
  · rename_i b hb
    rw [hpos] at hb
    cases hb
  · split
    · rfl
    · rename_i n hn
      rw [h] at hn
      cases hn

/-- **Making a stored shape** is making the shape. -/
theorem new_eq (o : AxisOrder) (ws : List UInt64) :
    StoredShape.new o.stored ws = (ofDims o (ws.map UInt64.toNat)).map stored := by
  have hempty := firstEmptyAxis?_map_toNat o ws
  have hproduct : Count.product? (ws.map UInt64.toNat) =
      (ws.foldlM Count.checkedMul? 1).map UInt64.toNat := (Count.map_toNat_foldlM ws 1).symm
  have hdims : (ws.map UInt64.toNat).length = ws.length := List.length_map _
  unfold StoredShape.new
  rw [AxisOrder.shown_stored, AxisOrder.rank_stored]
  by_cases hlength : ws.length = o.rank
  · have hstored : ¬ ws.length ≠ o.rank := not_not.mpr hlength
    rw [if_neg hstored]
    -- Both look for an empty axis, then at the product.
    cases hzero : (o.stored.axes.zip ws).find? fun p => p.2 == 0 with
    | some p =>
        rw [AxisOrder.axes_stored] at hzero
        rw [hzero] at hempty
        rw [ofDims_of_emptyAxis (hdims.trans hlength) hempty]
        rfl
    | none =>
        rw [AxisOrder.axes_stored] at hzero
        rw [hzero] at hempty
        cases hfold : ws.foldlM Count.checkedMul? 1 with
        | none =>
            rw [hfold] at hproduct
            rw [ofDims_of_overflow (hdims.trans hlength) hempty hproduct]
            rfl
        | some n =>
            rw [hfold] at hproduct
            have hpos := pos_of_firstEmptyAxis? (hdims.trans hlength) hempty
            let s : Shape := ⟨o, ws.map UInt64.toNat, hdims.trans hlength, hpos,
              Count.product_lt_of_product? hpos hproduct⟩
            have hmade : ofDims o (ws.map UInt64.toNat) = .ok s :=
              ofDims_eq_ok_iff.mpr ⟨rfl, rfl⟩
            have hstored : s.stored = ⟨o.stored, ws⟩ := stored_of_dims rfl rfl
            rw [hmade]
            exact congrArg Except.ok hstored.symm
  · have hrank : (ws.map UInt64.toNat).length ≠ o.rank := fun h => hlength (hdims.symm.trans h)
    unfold ofDims
    rw [if_pos hlength, dif_neg hrank, hdims]
    rfl

theorem map_toNat_iter_stored (s : Shape) :
    s.stored.iter.map (Prod.map id UInt64.toNat) = s.pairs := by
  rw [pairs, ← s.map_toNat_words, List.zip_map_right]
  rfl

theorem withoutAxis_eq (s : Shape) (a : Axis) :
    s.stored.withoutAxis a = (s.dropAxis a).map stored := by
  have hkept : ((s.stored.iter.filter fun p => p.1 ≠ a).map Prod.snd).map UInt64.toNat =
      (s.pairs.filter fun p => p.1 ≠ a).map Prod.snd := by
    rw [← map_toNat_iter_stored, List.filter_map, List.map_map, List.map_map]
    rfl
  unfold StoredShape.withoutAxis dropAxis
  rw [← hkept]
  show (s.order.stored.without a >>= _) = _
  rw [AxisOrder.without_eq]
  exact map_bind_eq fun o => new_eq o _

/-- One more pair put in its place, words or numbers. -/
theorem map_placeExtent (o : AxisOrder) (places : List (Option UInt64)) (p : Axis × UInt64) :
    (StoredShape.placeExtent o.stored places p).map (List.map (Option.map UInt64.toNat)) =
      placeExtent o (places.map (Option.map UInt64.toNat)) (p.map id UInt64.toNat) := by
  obtain ⟨a, w⟩ := p
  unfold StoredShape.placeExtent placeExtent
  rw [AxisOrder.position?_stored, AxisOrder.shown_stored]
  dsimp only [Prod.map_apply, id]
  cases o.position? a with
  | none => rfl
  | some i =>
      dsimp only
      rw [List.getElem?_map]
      have hset : (places.set i (some w)).map (Option.map UInt64.toNat) =
          (places.map (Option.map UInt64.toNat)).set i (some w.toNat) := List.map_set
      rcases places[i]? with _ | _ | v
      · exact congrArg Except.ok hset
      · exact congrArg Except.ok hset
      · rfl

/-- The extent in a place, word or number. -/
theorem map_takeExtent (o : AxisOrder) (p : Axis × Option UInt64) :
    (StoredShape.takeExtent o.stored p).map UInt64.toNat =
      takeExtent o (p.map id (Option.map UInt64.toNat)) := by
  obtain ⟨a, extent?⟩ := p
  unfold StoredShape.takeExtent takeExtent
  rw [AxisOrder.shown_stored]
  cases extent? <;> rfl

theorem fromMap_eq (o : AxisOrder) (extents : List (Axis × UInt64)) :
    StoredShape.fromMap o.stored extents =
      (ofExtents o (extents.map (Prod.map id UInt64.toNat))).map stored := by
  have hblank : (List.replicate o.rank none : List (Option Nat)) =
      (List.replicate o.rank none).map (Option.map UInt64.toNat) := by rw [List.map_replicate]; rfl
  unfold StoredShape.fromMap ofExtents
  rw [AxisOrder.rank_stored, AxisOrder.axes_stored, hblank, ← map_foldlM (map_placeExtent o)]
  refine bind_eq_map fun places => ?_
  have hdims := map_mapM (map_takeExtent o) (o.axes.zip places)
  rw [List.zip_map_right, ← hdims]
  exact bind_eq_map fun ws => new_eq o ws

end Shape

namespace Json

theorem required_map {α β : Type} (f : α → β) (field : Option α) :
    required (field.map f) = (required field).map f := by
  cases field <;> rfl

end Json

theorem StoredShape.read_eq :
    StoredShape.read = Json.carry Shape.stored Shape.codec.read := by
  have hfields := Json.readFields_carry (f := AxisOrder.stored) ("order", AxisOrder.codec.read)
    ("dims", Json.Codec.word.list.read) Json.skim
  funext cs
  unfold StoredShape.read
  rw [StoredOrder.read_eq, hfields]
  refine map_bind_eq fun r => ?_
  obtain ⟨⟨order?, dims?⟩, rest⟩ := r
  show (Json.required (order?.map AxisOrder.stored) >>= _) = _
  rw [Json.required_map]
  refine map_bind_eq fun o => ?_
  dsimp only [Prod.map_apply, id]
  cases Json.required dims? with
  | error e => rfl
  | ok ws =>
      show ((StoredShape.new o.stored ws).mapError Json.ReadFault.invalid >>= _) =
        Except.map _ ((Shape.ofDims o (ws.map UInt64.toNat)).mapError Json.ReadFault.invalid >>= _)
      rw [Shape.new_eq]
      cases Shape.ofDims o (ws.map UInt64.toNat) <;> rfl

end TensorGraph
