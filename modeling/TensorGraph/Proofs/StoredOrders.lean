import TensorGraph.AxisOrder.Stored
import TensorGraph.Proofs.Extents

/-!
# `TensorGraph.Proofs.StoredOrders` — **the table fits the axes**

However an order came about, its table has the positions of its axes and of no others, so asking the
table is looking for the axis. The table follows from the axes, and comparing it adds nothing. No
position is too large for a byte: there are five axes, and a sequence that is longer repeats one of
them before a position is cut.

## Contents
- **Filling** a table, with and without looking.
- **Stored orders** of orders: `AxisOrder.stored`, with one equation per constructor and query.
- **Reading carried over**: `Json.carry`.
- **`Sound`** stored orders, and that all `Obtainable` ones are.
-/

namespace TensorGraph

open Checks

/-! ## Filling -/

theorem Axis.index_injective {a b : Axis} (h : a.index = b.index) : a = b := by
  cases a <;> cases b <;> first | rfl | cases h

/-- There are five axes. -/
theorem Axis.length_le_of_nodup {axes : List Axis} (h : axes.Nodup) : axes.length ≤ 5 :=
  (List.subperm_of_subset h fun a _ => a.mem_all).length_le

namespace PositionTable

variable {t : PositionTable} {n : Nat} {a b : Axis} {axes : List Axis}

@[simp] theorem at?_blank (a : Axis) : blank.at? a = none := by
  simp [at?, blank]

theorem at?_enter : (t.enter a n).at? b = if b = a then some (UInt8.ofNat n) else t.at? b := by
  by_cases hba : b = a
  · subst hba
    simp [at?, enter]
  · have hindex : a.index ≠ b.index := fun h => hba (Axis.index_injective h).symm
    rw [if_neg hba]
    simp [at?, enter, hindex]

/-- Axes that are not entered keep what the table has for them. -/
theorem at?_fill_of_not_mem (h : a ∉ axes) : (t.fill n axes).at? a = t.at? a := by
  induction axes generalizing t n with
  | nil => rfl
  | cons first axes ih =>
      obtain ⟨hfirst, hrest⟩ := not_or.mp (mt List.mem_cons.mpr h)
      rw [fill, ih hrest, at?_enter, if_neg hfirst]

/-- **An axis that is entered once** has the position at which it stands. -/
theorem at?_fill_of_getElem? (hnodup : axes.Nodup) {i : Nat} (h : axes[i]? = some a) :
    (t.fill n axes).at? a = some (UInt8.ofNat (n + i)) := by
  induction axes generalizing t n i with
  | nil => cases h
  | cons first axes ih =>
      obtain ⟨hfirst, hrest⟩ := List.nodup_cons.mp hnodup
      rw [fill]
      cases i with
      | zero =>
          cases h
          rw [at?_fill_of_not_mem hfirst, at?_enter, if_pos rfl, Nat.add_zero]
      | succ i =>
          rw [ih hrest h]
          congr 2
          omega

/-- **Looking before entering** finds the first repetition, and changes nothing if there is none. -/
theorem fill?_eq {seen : List Axis} (hseen : ∀ a, (t.at? a).isSome = true ↔ a ∈ seen) :
    t.fill? n axes =
      match AxisOrder.firstRepeatAfter? seen axes with
      | some a => .error (.duplicateAxis a)
      | none => .ok (t.fill n axes) := by
  induction axes generalizing t n seen with
  | nil => rfl
  | cons first axes ih =>
      rw [fill?, AxisOrder.firstRepeatAfter?]
      by_cases hfirst : first ∈ seen
      · rw [if_pos ((hseen first).mpr hfirst), if_pos hfirst]
      · have hnone : ¬ (t.at? first).isSome = true := fun h => hfirst ((hseen first).mp h)
        rw [if_neg hnone, if_neg hfirst, fill]
        refine ih fun a => ?_
        rw [at?_enter, List.mem_cons]
        by_cases ha : a = first
        · simp [ha]
        · simp [ha, hseen a]

end PositionTable

/-! ## Stored orders of orders -/

namespace AxisOrder

open StoredOrder (ofStatic)

/-- The order with its table. -/
def stored (o : AxisOrder) : StoredOrder := ofStatic o.axes

variable {o p : AxisOrder} {a : Axis}

@[simp] theorem axes_stored (o : AxisOrder) : o.stored.axes = o.axes := rfl

@[simp] theorem rank_stored (o : AxisOrder) : o.stored.rank = o.rank := rfl

/-- **The table knows positions**: asking it is looking for the axis. -/
theorem position?_stored_eq_some_iff {i : Nat} :
    o.stored.position? a = some i ↔ o.axes[i]? = some a := by
  unfold StoredOrder.position?
  by_cases ha : a ∈ o.axes
  · obtain ⟨j, hj⟩ := List.mem_iff_getElem?.mp ha
    have hjlt : j < o.axes.length := (List.getElem?_eq_some_iff.mp hj).1
    have hle : o.axes.length ≤ 5 := Axis.length_le_of_nodup o.nodup
    -- A position is below five, so nothing of it is cut.
    have hbyte : (UInt8.ofNat (0 + j)).toNat = j := by
      rw [Nat.zero_add]
      exact UInt8.toNat_ofNat_of_lt' (by show j < 256; omega)
    have htable : o.stored.positions.at? a = some (UInt8.ofNat (0 + j)) :=
      PositionTable.at?_fill_of_getElem? o.nodup hj
    rw [htable, Option.map_some, hbyte, Option.some.injEq]
    constructor
    · rintro rfl
      exact hj
    · intro hi
      exact (List.getElem?_inj hjlt o.nodup).mp (hj.trans hi.symm)
  · have htable : o.stored.positions.at? a = none :=
      (PositionTable.at?_fill_of_not_mem ha).trans (PositionTable.at?_blank a)
    rw [htable]
    constructor
    · intro h
      cases h
    · intro hi
      exact absurd (List.mem_of_getElem? hi) ha

theorem contains_stored (o : AxisOrder) (a : Axis) : o.stored.contains a = o.contains a := by
  rw [Bool.eq_iff_iff, AxisOrder.contains_iff, List.mem_iff_getElem?]
  simp only [← position?_stored_eq_some_iff, StoredOrder.contains, StoredOrder.position?]
  cases o.stored.positions.at? a <;> simp

/-- The axes are all that is stored. -/
theorem stored_inj : o.stored = p.stored ↔ o.axes = p.axes := by
  constructor
  · intro h
    exact congrArg StoredOrder.axes h
  · intro h
    rw [ext_axes h]

@[simp] theorem shown_stored (o : AxisOrder) : o.stored.shown = o := dif_pos ⟨o.axes_ne_nil, o.nodup⟩

/-- **Making a stored order** is making the order. -/
theorem new_eq (axes : List Axis) : StoredOrder.new axes = (ofAxes axes).map stored := by
  have hblank : ∀ a, (PositionTable.blank.at? a).isSome = true ↔ a ∈ [] := fun a => by simp
  have hfill := @PositionTable.fill?_eq .blank 0 axes [] hblank
  unfold StoredOrder.new ofAxes
  by_cases hempty : axes = []
  · rw [if_pos hempty, dif_pos hempty]
    rfl
  · rw [if_neg hempty, dif_neg hempty, hfill]
    -- Both look for the first repetition.
    split
    · rename_i a hrepeat
      split
      · rename_i b hb
        rw [firstRepeat?, hrepeat] at hb
        cases hb
        rfl
      · rename_i hnone
        rw [firstRepeat?, hrepeat] at hnone
        cases hnone
    · rename_i hrepeat
      split
      · rename_i b hb
        rw [firstRepeat?, hrepeat] at hb
        cases hb
      · rfl

theorem parse_eq (text : String) : StoredOrder.parse text = (parse text).map stored := by
  unfold StoredOrder.parse parse ofLetters
  cases text.toList.mapM readLetter with
  | error e => rfl
  | ok axes => exact new_eq axes

theorem without_eq (o : AxisOrder) (a : Axis) :
    o.stored.without a = (o.erase a).map stored := by
  unfold StoredOrder.without erase
  rw [contains_stored, shown_stored]
  split
  · exact new_eq _
  · rfl

end AxisOrder

/-! ## Reading carried over -/

namespace Json

variable {α β γ : Type} {f : α → β}

/-- What is read off a text, carried over. -/
def carry (f : α → β) (item : Reader α) : Reader β := fun cs => (item cs).map (Prod.map f id)

theorem readAll_carry (item : Reader α) (text : String) :
    readAll (carry f item) text = (readAll item text).map f := by
  unfold readAll carry
  refine map_bind_eq fun r => ?_
  dsimp only [Prod.map_fst, Prod.map_snd, id]
  split <;> rfl

theorem readInto_carry {part : Reader γ} {make : γ → Except ShapeError α}
    {make' : γ → Except ShapeError β} (hmake : ∀ c, make' c = (make c).map f) :
    readInto part make' = carry f (readInto part make) := by
  funext cs
  unfold readInto carry
  refine bind_eq_map_self fun r => ?_
  dsimp only
  rw [hmake]
  cases make r.1 <;> rfl

end Json

theorem StoredOrder.read_eq :
    StoredOrder.read = Json.carry AxisOrder.stored AxisOrder.codec.read :=
  Json.readInto_carry AxisOrder.parse_eq

/-! ## Sound orders -/

namespace StoredOrder

/-- **What holds of a stored order that makes one.** -/
structure Sound (o : StoredOrder) : Prop where
  axes_ne_nil : o.axes ≠ []
  nodup : o.axes.Nodup
  /-- The table has the positions of the axes and of no others. -/
  position?_eq_some_iff : ∀ a i, o.position? a = some i ↔ o.axes[i]? = some a

/-- **The ways to come by a stored order.** -/
inductive Obtainable : StoredOrder → Prop where
  | new {axes : List Axis} {o : StoredOrder} : StoredOrder.new axes = .ok o → Obtainable o
  | parse {text : String} {o : StoredOrder} : StoredOrder.parse text = .ok o → Obtainable o
  | conventional {o : StoredOrder} : o ∈ StoredOrder.conventional → Obtainable o
  | without {o p : StoredOrder} {a : Axis} : Obtainable o → o.without a = .ok p → Obtainable p
  | json {text : String} {o : StoredOrder} :
      Json.readAll StoredOrder.read text = .ok o → Obtainable o

/-- **Making an order** accepts exactly the sequences that make one. -/
theorem new_eq_ok_iff {axes : List Axis} {o : StoredOrder} :
    StoredOrder.new axes = .ok o ↔ (axes ≠ [] ∧ axes.Nodup) ∧ o = ofStatic axes := by
  rw [AxisOrder.new_eq, map_eq_ok_iff]
  constructor
  · rintro ⟨p, hp, rfl⟩
    obtain rfl := AxisOrder.ofAxes_eq_ok_iff.mp hp
    exact ⟨⟨p.axes_ne_nil, p.nodup⟩, rfl⟩
  · rintro ⟨⟨hne, hnodup⟩, rfl⟩
    exact ⟨⟨axes, hne, hnodup⟩, AxisOrder.ofAxes_eq_ok_iff.mpr rfl, rfl⟩

theorem sound_stored (p : AxisOrder) : p.stored.Sound where
  axes_ne_nil := p.axes_ne_nil
  nodup := p.nodup
  position?_eq_some_iff _ _ := AxisOrder.position?_stored_eq_some_iff

/-- **Whatever can be come by** is the stored form of an order, and the other way round. -/
theorem obtainable_iff {o : StoredOrder} : o.Obtainable ↔ ∃ p : AxisOrder, p.stored = o := by
  constructor
  · intro h
    induction h with
    | new h =>
        rw [AxisOrder.new_eq] at h
        obtain ⟨p, -, hp⟩ := map_eq_ok_iff.mp h
        exact ⟨p, hp⟩
    | parse h =>
        rw [AxisOrder.parse_eq] at h
        obtain ⟨p, -, hp⟩ := map_eq_ok_iff.mp h
        exact ⟨p, hp⟩
    | conventional h =>
        obtain ⟨p, -, hp⟩ := List.mem_map.mp h
        exact ⟨p, hp⟩
    | without _ h ih =>
        obtain ⟨q, rfl⟩ := ih
        rw [AxisOrder.without_eq] at h
        obtain ⟨p, -, hp⟩ := map_eq_ok_iff.mp h
        exact ⟨p, hp⟩
    | json h =>
        rw [read_eq, Json.readAll_carry] at h
        obtain ⟨p, -, hp⟩ := map_eq_ok_iff.mp h
        exact ⟨p, hp⟩
  · rintro ⟨p, rfl⟩
    exact .new (new_eq_ok_iff.mpr ⟨⟨p.axes_ne_nil, p.nodup⟩, rfl⟩)

/-- **Every order that can be come by is sound.** -/
theorem Obtainable.sound {o : StoredOrder} (h : o.Obtainable) : o.Sound := by
  obtain ⟨p, rfl⟩ := obtainable_iff.mp h
  exact sound_stored p

/-- Comparing tables adds nothing to comparing axes. -/
theorem Obtainable.eq_iff {o p : StoredOrder} (ho : o.Obtainable) (hp : p.Obtainable) :
    o = p ↔ o.axes = p.axes := by
  obtain ⟨o, rfl⟩ := obtainable_iff.mp ho
  obtain ⟨p, rfl⟩ := obtainable_iff.mp hp
  exact AxisOrder.stored_inj

end StoredOrder

end TensorGraph
