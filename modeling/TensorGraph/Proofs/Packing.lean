import Mathlib.Algebra.GroupWithZero.Nat
import TensorGraph.Proofs.Variables
import TensorGraph.WeightLayout

/-!
# `TensorGraph.Proofs.Packing` — **weights fill their buffer without a gap**

The layout of a graph's weights goes through a map from names, which loses what has the name of
something else and lists what it holds by name. On graphs that calls made it loses nothing, and
sorting by offset brings back the order in which the constants were added: one region for each, back
to back from the first element of the buffer to the last.

## Contents
- **Tilings**: regions in sequence that leave no gap and do not overlap.
- **Placing** one constant, and what comes of placing many: when it succeeds (`exists_foldlM_iff`),
  what the layout holds (`entries_of_foldlM`), and which constant is to blame (`FirstOverflow`).
- **The layout of a graph**: `Packs`, and `packing_exact`.
-/

namespace TensorGraph

open Checks

/-- A count survives being made a word. -/
theorem Count.toNat_ofNat {n : Nat} (h : n < limit) : (UInt64.ofNat n).toNat = n :=
  UInt64.toNat_ofNat_of_lt' h

theorem Shape.size_pos (s : Shape) : 0 < s.size := Count.product_pos s.dims_pos

namespace WeightLayout

/-! ## Tilings -/

/-- Regions fill the buffer from `start` to `stop`. None is empty, each begins where the one before
    it ends, and no end is beyond what a word holds. -/
def Tiles (start stop : Nat) : List Region → Prop
  | [] => start = stop
  | r :: rs =>
    r.offset.toNat = start ∧ 0 < r.size.toNat ∧ r.stop < Count.limit ∧ Tiles r.stop stop rs

namespace Tiles

variable {start stop : Nat} {rs : List Region}

theorem le_offset (h : Tiles start stop rs) : ∀ r ∈ rs, start ≤ r.offset.toNat := by
  induction rs generalizing start with
  | nil => exact fun r hr => (List.not_mem_nil hr).elim
  | cons first rs ih =>
      obtain ⟨hoffset, -, -, hrest⟩ := h
      intro r hr
      rcases List.mem_cons.mp hr with rfl | hr
      · exact Nat.le_of_eq hoffset.symm
      · have hle := ih hrest r hr
        rw [Region.stop] at hle
        omega

/-- Regions come by increasing offset, since none is empty. -/
theorem pairwise_offset (h : Tiles start stop rs) :
    rs.Pairwise fun a b => a.offset.toNat < b.offset.toNat := by
  induction rs generalizing start with
  | nil => exact .nil
  | cons r rs ih =>
      obtain ⟨-, hsize, -, hrest⟩ := h
      refine List.pairwise_cons.mpr ⟨fun b hb => ?_, ih hrest⟩
      have hle := hrest.le_offset b hb
      rw [Region.stop] at hle
      omega

/-- **No gap and no overlap.** Every place belongs to one region. -/
theorem exists_unique (h : Tiles start stop rs) {n : Nat} (hstart : start ≤ n) (hstop : n < stop) :
    ∃! r, r ∈ rs ∧ r.offset.toNat ≤ n ∧ n < r.stop := by
  induction rs generalizing start with
  | nil =>
      have heq : start = stop := h
      omega
  | cons r rs ih =>
      obtain ⟨hoffset, -, -, hrest⟩ := h
      -- Places before the end of the first region are in it and in none behind it.
      rcases Nat.lt_or_ge n r.stop with hlt | hge
      · refine ⟨r, ⟨List.mem_cons_self, by omega, hlt⟩, ?_⟩
        rintro s ⟨hs, hle, -⟩
        rcases List.mem_cons.mp hs with rfl | hs
        · rfl
        · have hbehind := hrest.le_offset s hs
          omega
      · obtain ⟨s, ⟨hs, hin⟩, honly⟩ := ih hrest hge
        refine ⟨s, ⟨List.mem_cons_of_mem r hs, hin⟩, ?_⟩
        rintro t ⟨ht, hle, hlt⟩
        rcases List.mem_cons.mp ht with rfl | ht
        · omega
        · exact honly t ⟨ht, hle, hlt⟩

/-- Sorting by offset puts the regions of a tiling into sequence, however they came. -/
theorem mergeSort_eq (h : Tiles start stop rs) {found : List Region} (hperm : found.Perm rs) :
    found.mergeSort (fun a b => a.offset.toNat ≤ b.offset.toNat) = rs := by
  have hincreasing := h.pairwise_offset
  have hnodup : (rs.map fun r => r.offset.toNat).Nodup :=
    List.pairwise_map.mpr (hincreasing.imp Nat.ne_of_lt)
  have hsorted := found.mergeSort_perm fun a b => decide (a.offset.toNat ≤ b.offset.toNat)
  refine List.Perm.eq_of_pairwise ?_ (List.pairwise_mergeSort ?_ ?_ found) ?_ (hsorted.trans hperm)
  · -- Two regions at one offset are one region.
    intro a b ha hb hab hba
    rw [decide_eq_true_eq] at hab hba
    have ha' : a ∈ rs := (hsorted.trans hperm).mem_iff.mp ha
    exact List.inj_on_of_nodup_map hnodup ha' hb (Nat.le_antisymm hab hba)
  · intro a b c hab hbc
    rw [decide_eq_true_eq] at hab hbc ⊢
    exact Nat.le_trans hab hbc
  · intro a b
    rw [Bool.or_eq_true, decide_eq_true_eq, decide_eq_true_eq]
    exact Nat.le_total _ _
  · exact hincreasing.imp fun hlt => decide_eq_true (Nat.le_of_lt hlt)

end Tiles

/-! ## Regions back to back -/

/-- The exact number of elements of variables. -/
def elements (vs : List Variable) : Nat := (vs.map fun v => v.shape.size).sum

@[simp] theorem elements_cons (v : Variable) (vs : List Variable) :
    elements (v :: vs) = v.shape.size + elements vs := List.sum_cons

/-- The region of a variable behind `start` elements. -/
def regionAt (start : Nat) (v : Variable) : Region :=
  ⟨v.label, UInt64.ofNat start, UInt64.ofNat v.shape.size⟩

/-- The regions of variables placed one behind the other. -/
def regionsFrom (start : Nat) : List Variable → List Region
  | [] => []
  | v :: vs => regionAt start v :: regionsFrom (start + v.shape.size) vs

variable {start : Nat} {v : Variable} {vs : List Variable}

theorem size_regionAt : (regionAt start v).size.toNat = v.shape.size :=
  Count.toNat_ofNat v.shape.size_lt

theorem stop_regionAt (h : start < Count.limit) :
    (regionAt start v).stop = start + v.shape.size := by
  rw [Region.stop, size_regionAt]
  exact congrArg (· + v.shape.size) (Count.toNat_ofNat h)

/-- **Variables back to back tile** what they take up. -/
theorem tiles_regionsFrom (h : start + elements vs < Count.limit) :
    Tiles start (start + elements vs) (regionsFrom start vs) := by
  induction vs generalizing start with
  | nil => rfl
  | cons v vs ih =>
      rw [elements_cons, ← Nat.add_assoc] at h ⊢
      have hstart : start < Count.limit := by omega
      have hstop := stop_regionAt hstart (v := v)
      refine ⟨Count.toNat_ofNat hstart, ?_, by omega, ?_⟩
      · rw [size_regionAt]
        exact v.shape.size_pos
      · rw [hstop]
        exact ih h

theorem regionsFrom_append (start : Nat) (vs ws : List Variable) :
    regionsFrom start (vs ++ ws) =
      regionsFrom start vs ++ regionsFrom (start + elements vs) ws := by
  induction vs generalizing start with
  | nil => rfl
  | cons v vs ih =>
      rw [List.cons_append, regionsFrom, ih, elements_cons, Nat.add_assoc]
      rfl

/-- Regions do not tell who reads a variable. -/
theorem regionsFrom_bare (start : Nat) (vs : List Variable) :
    regionsFrom start (vs.map Variable.bare) = regionsFrom start vs := by
  induction vs generalizing start with
  | nil => rfl
  | cons v vs ih => exact congrArg (regionAt start v :: ·) (ih _)

theorem elements_append (vs ws : List Variable) :
    elements (vs ++ ws) = elements vs + elements ws := by
  rw [elements, List.map_append, List.sum_append]
  rfl

theorem elements_bare (vs : List Variable) : elements (vs.map Variable.bare) = elements vs := by
  rw [elements, List.map_map]
  rfl

/-! ## Placing -/

variable {graph : String} {l l' : WeightLayout}

/-- The layout with a variable behind everything placed so far. -/
def placed (l : WeightLayout) (v : Variable) : WeightLayout where
  totalSize := UInt64.ofNat (l.totalSize.toNat + v.shape.size)
  regions := l.regions.insert v.label (regionAt l.totalSize.toNat v)

theorem place?_eq (l : WeightLayout) (v : Variable) :
    l.place? v =
      if l.totalSize.toNat + v.shape.size < Count.limit then some (l.placed v) else none := by
  unfold place? Count.add? Count.fit?
  split
  · rw [placed, regionAt, UInt64.ofNat_toNat]
    rfl
  · rfl

theorem placeConstant_eq_ok_iff :
    placeConstant graph l v = .ok l' ↔
      l.totalSize.toNat + v.shape.size < Count.limit ∧ l' = l.placed v := by
  rw [placeConstant, place?_eq]
  by_cases hfits : l.totalSize.toNat + v.shape.size < Count.limit
  · simp [hfits, eq_comm]
  · simp [hfits]

theorem placeConstant_eq_error_iff {e : LayoutError} :
    placeConstant graph l v = .error e ↔
      Count.limit ≤ l.totalSize.toNat + v.shape.size ∧ e = ⟨graph, v.label⟩ := by
  rw [placeConstant, place?_eq, ← Nat.not_lt]
  by_cases hfits : l.totalSize.toNat + v.shape.size < Count.limit
  · simp [hfits]
  · simp [hfits, eq_comm]

theorem totalSize_placed (h : l.totalSize.toNat + v.shape.size < Count.limit) :
    (l.placed v).totalSize.toNat = l.totalSize.toNat + v.shape.size := Count.toNat_ofNat h

/-- **Placing many succeeds** exactly when all of them together are a count. -/
theorem exists_foldlM_iff :
    (∃ l', vs.foldlM (placeConstant graph) l = .ok l') ↔
      l.totalSize.toNat + elements vs < Count.limit := by
  induction vs generalizing l with
  | nil => exact ⟨fun _ => l.totalSize.toNat_lt, fun _ => ⟨l, rfl⟩⟩
  | cons v vs ih =>
      rw [List.foldlM_cons, elements_cons, ← Nat.add_assoc]
      constructor
      · rintro ⟨l', h⟩
        obtain ⟨m, hm, hrest⟩ := bind_eq_ok_iff.mp h
        obtain ⟨hfits, rfl⟩ := placeConstant_eq_ok_iff.mp hm
        rw [← totalSize_placed hfits]
        exact ih.mp ⟨l', hrest⟩
      · intro h
        have hfits : l.totalSize.toNat + v.shape.size < Count.limit := by omega
        rw [← totalSize_placed hfits] at h
        obtain ⟨l', hrest⟩ := ih.mpr h
        exact ⟨l', bind_eq_ok_iff.mpr ⟨_, placeConstant_eq_ok_iff.mpr ⟨hfits, rfl⟩, hrest⟩⟩

theorem totalSize_of_foldlM (h : vs.foldlM (placeConstant graph) l = .ok l') :
    l'.totalSize.toNat = l.totalSize.toNat + elements vs := by
  induction vs generalizing l with
  | nil =>
      cases h
      rfl
  | cons v vs ih =>
      rw [List.foldlM_cons] at h
      obtain ⟨m, hm, hrest⟩ := bind_eq_ok_iff.mp h
      obtain ⟨hfits, rfl⟩ := placeConstant_eq_ok_iff.mp hm
      rw [ih hrest, totalSize_placed hfits, elements_cons, Nat.add_assoc]

/-- **Nothing is lost** of variables whose labels are new and different. -/
theorem entries_of_foldlM (h : vs.foldlM (placeConstant graph) l = .ok l')
    (hnew : ∀ v ∈ vs, l.regions.find? v.label = none) (hnodup : (vs.map Variable.label).Nodup) :
    l'.regions.entries.Perm
      (l.regions.entries ++ (regionsFrom l.totalSize.toNat vs).map fun r => (r.name, r)) := by
  induction vs generalizing l with
  | nil =>
      cases h
      exact .of_eq (List.append_nil _).symm
  | cons v vs ih =>
      rw [List.foldlM_cons] at h
      obtain ⟨m, hm, hrest⟩ := bind_eq_ok_iff.mp h
      obtain ⟨hfits, rfl⟩ := placeConstant_eq_ok_iff.mp hm
      obtain ⟨hv, hvs⟩ := List.nodup_cons.mp hnodup
      -- The entry that is made now takes no label away from those to come.
      have hlater : ∀ w ∈ vs, (l.placed v).regions.find? w.label = none := by
        intro w hw
        have hne : ¬ w.label = v.label := fun heq => hv (heq ▸ List.mem_map_of_mem hw)
        rw [placed, NameMap.find?_insert, if_neg hne]
        exact hnew w (List.mem_cons_of_mem v hw)
      have hplaced : (l.placed v).regions.entries.Perm
          ((v.label, regionAt l.totalSize.toNat v) :: l.regions.entries) :=
        NameMap.insertEntry_perm (hnew v List.mem_cons_self)
      have hall := ih hrest hlater hvs
      rw [totalSize_placed hfits] at hall
      exact hall.trans ((hplaced.append_right _).trans List.perm_middle.symm)

/-- Of variables behind `start` elements, the one at a position is the first with which their
    number is no count. -/
structure FirstOverflow (start : Nat) (vs : List Variable) (k : Nat) (v : Variable) : Prop where
  found : vs[k]? = some v
  reaches : Count.limit ≤ start + elements (vs.take (k + 1))
  before : ∀ j < k, start + elements (vs.take (j + 1)) < Count.limit

/-- **Whoever overflows first** is to blame. -/
theorem firstOverflow_of_foldlM {e : LayoutError}
    (h : vs.foldlM (placeConstant graph) l = .error e) :
    ∃ k v, FirstOverflow l.totalSize.toNat vs k v ∧ e = ⟨graph, v.label⟩ := by
  induction vs generalizing l with
  | nil => cases h
  | cons v vs ih =>
      rw [List.foldlM_cons] at h
      cases hplace : placeConstant graph l v with
      | error fault =>
          rw [hplace] at h
          cases h
          obtain ⟨hover, rfl⟩ := placeConstant_eq_error_iff.mp hplace
          exact ⟨0, v, ⟨rfl, hover, fun j hj => absurd hj (Nat.not_lt_zero j)⟩, rfl⟩
      | ok m =>
          rw [hplace] at h
          obtain ⟨hfits, rfl⟩ := placeConstant_eq_ok_iff.mp hplace
          obtain ⟨k, w, hfirst, rfl⟩ := ih h
          -- What fits is part of the running total from here on.
          have htake : ∀ j, l.totalSize.toNat + elements ((v :: vs).take (j + 1)) =
              (l.placed v).totalSize.toNat + elements (vs.take j) := by
            intro j
            rw [List.take_succ_cons, elements_cons, totalSize_placed hfits, Nat.add_assoc]
          refine ⟨k + 1, w, ⟨hfirst.found, ?_, fun j hj => ?_⟩, rfl⟩
          · rw [htake]
            exact hfirst.reaches
          · rw [htake]
            cases j with
            | zero => exact (l.placed v).totalSize.toNat_lt
            | succ j => exact hfirst.before j (by omega)

/-! ## The layout of a graph -/

variable {g : Graph}

theorem exists_ofGraph_iff :
    (∃ l, ofGraph g = .ok l) ↔ elements g.constants < Count.limit := by
  rw [← Nat.zero_add (elements g.constants)]
  exact exists_foldlM_iff (l := empty)

theorem tiles_of_ofGraph (h : ofGraph g = .ok l) :
    Tiles 0 l.totalSize.toNat (regionsFrom 0 g.constants) := by
  have htotal : l.totalSize.toNat = 0 + elements g.constants := totalSize_of_foldlM h
  rw [htotal]
  exact tiles_regionsFrom (htotal ▸ l.totalSize.toNat_lt)

section Named

variable (hnamed : g.Named) (h : ofGraph g = .ok l)
include hnamed h

theorem entries_of_ofGraph :
    l.regions.entries.Perm ((regionsFrom 0 g.constants).map fun r => (r.name, r)) :=
  entries_of_foldlM h (fun _ _ => rfl) hnamed.labels_nodup

/-- **Sorting by offset** gives the regions in the order of creation. -/
theorem regionsByOffset_eq : l.regionsByOffset = regionsFrom 0 g.constants := by
  have hvalues : l.regions.values.Perm (regionsFrom 0 g.constants) := by
    have hmap := (entries_of_ofGraph hnamed h).map Prod.snd
    rw [List.map_map] at hmap
    exact hmap.trans (.of_eq (List.map_id _))
  exact (tiles_of_ofGraph h).mergeSort_eq hvalues

theorem find?_eq_some_iff {name : String} {r : Region} :
    l.find? name = some r ↔ r ∈ l.regionsByOffset ∧ r.name = name := by
  rw [regionsByOffset_eq hnamed h, find?, NameMap.find?_eq_some_iff,
    (entries_of_ofGraph hnamed h).mem_iff, List.mem_map]
  constructor
  · rintro ⟨s, hs, heq⟩
    cases heq
    exact ⟨hs, rfl⟩
  · rintro ⟨hr, rfl⟩
    exact ⟨r, hr, rfl⟩

end Named

/-- The region is that of the variable: it has its name and its number of elements, and the layout
    holds it under that name. -/
structure Allocates (l : WeightLayout) (v : Variable) (r : Region) : Prop where
  name_eq : v.name? = some r.name
  stored : l.find? r.name = some r
  size_eq : r.size.toNat = v.shape.size

/-- **The layout packs the constants of the graph.** -/
structure Packs (g : Graph) (l : WeightLayout) : Prop where
  /-- There is a region for each constant, in the order of creation. -/
  allocated : List.Forall₂ l.Allocates g.constants l.regionsByOffset
  /-- There are no others. -/
  listed : ∀ name r, l.find? name = some r → r ∈ l.regionsByOffset ∧ r.name = name
  size_eq : l.size = g.constants.length
  totalSize_eq : l.totalSize.toNat = elements g.constants
  tiles : Tiles 0 l.totalSize.toNat l.regionsByOffset
  covered : ∀ n < l.totalSize.toNat,
    ∃! r, r ∈ l.regionsByOffset ∧ r.offset.toNat ≤ n ∧ n < r.stop

theorem length_regionsFrom : (regionsFrom start vs).length = vs.length := by
  induction vs generalizing start with
  | nil => rfl
  | cons v vs ih => exact congrArg (· + 1) ih

theorem forall₂_regionsFrom (hnamed : ∀ v ∈ vs, ∃ name, v.name? = some name)
    (hstored : ∀ r ∈ regionsFrom start vs, l.find? r.name = some r) :
    List.Forall₂ l.Allocates vs (regionsFrom start vs) := by
  induction vs generalizing start with
  | nil => exact .nil
  | cons v vs ih =>
      obtain ⟨name, hname⟩ := hnamed v List.mem_cons_self
      have hlabel : v.name? = some (regionAt start v).name := by
        show v.name? = some v.label
        rw [Variable.label_of_name? hname, hname]
      have hfirst : l.Allocates v (regionAt start v) :=
        ⟨hlabel, hstored _ List.mem_cons_self, size_regionAt⟩
      exact .cons hfirst (ih (fun w hw => hnamed w (List.mem_cons_of_mem v hw))
        fun r hr => hstored r (List.mem_cons_of_mem _ hr))

theorem packs_of_ofGraph (hnamed : g.Named) (h : ofGraph g = .ok l) : Packs g l := by
  have hregions := regionsByOffset_eq hnamed h
  have htiles := tiles_of_ofGraph h
  rw [← hregions] at htiles
  have htotal : l.totalSize.toNat = 0 + elements g.constants := totalSize_of_foldlM h
  exact
    { allocated := by
        rw [hregions]
        refine forall₂_regionsFrom hnamed.constant_named fun r hr => ?_
        exact (find?_eq_some_iff hnamed h).mpr ⟨hregions ▸ hr, rfl⟩
      listed := fun name r => (find?_eq_some_iff hnamed h).mp
      size_eq := by
        have hlength := (entries_of_ofGraph hnamed h).length_eq
        rw [List.length_map, length_regionsFrom] at hlength
        exact hlength
      totalSize_eq := htotal.trans (Nat.zero_add _)
      tiles := htiles
      covered := fun n hn => htiles.exists_unique (Nat.zero_le n) hn }

/-- Where there is no layout, the first constant that does not fit is named. -/
theorem error_of_overflow (hnamed : g.Named) (h : Count.limit ≤ elements g.constants) :
    ∃ k v name, FirstOverflow 0 g.constants k v ∧ v.name? = some name ∧
      ofGraph g = .error ⟨g.name, name⟩ := by
  cases hlayout : ofGraph g with
  | ok l => exact absurd (exists_ofGraph_iff.mp ⟨l, hlayout⟩) (Nat.not_lt.mpr h)
  | error e =>
      obtain ⟨k, v, hfirst, rfl⟩ := firstOverflow_of_foldlM hlayout
      obtain ⟨name, hname⟩ := hnamed.constant_named v (List.mem_of_getElem? hfirst.found)
      exact ⟨k, v, name, hfirst, hname, by rw [Variable.label_of_name? hname]⟩

/-- **Regions stay.** A graph that was called since has the regions it had, and more behind them. -/
theorem regions_run (hnamed : g.Named) {calls : List Call} (h : ofGraph (g.run calls) = .ok l') :
    ∃ l, ofGraph g = .ok l ∧ l.regionsByOffset <+: l'.regionsByOffset ∧
      ∀ name r, l.find? name = some r → l'.find? name = some r := by
  obtain ⟨new, hnew⟩ := g.constants_run calls
  have hafter := hnamed.run calls
  -- The earlier constants are a part of those that have a layout now.
  have hfits : elements g.constants < Count.limit := by
    have hall := exists_ofGraph_iff.mp ⟨l', h⟩
    rw [← elements_bare, hnew, elements_append, elements_bare] at hall
    omega
  obtain ⟨l, hl⟩ := exists_ofGraph_iff.mpr hfits
  have hbehind : l.regionsByOffset <+: l'.regionsByOffset := by
    rw [regionsByOffset_eq hnamed hl, regionsByOffset_eq hafter h,
      ← regionsFrom_bare 0 (g.run calls).constants, hnew, regionsFrom_append, regionsFrom_bare]
    exact List.prefix_append _ _
  refine ⟨l, hl, hbehind, fun name r hr => ?_⟩
  obtain ⟨hmem, hname⟩ := (find?_eq_some_iff hnamed hl).mp hr
  exact (find?_eq_some_iff hafter h).mpr ⟨hbehind.subset hmem, hname⟩

/-- **Weights are packed exactly.** The constants of a graph that calls made have a layout exactly
    when their elements together are a count. The layout packs them, in the order of creation and
    from the first element of the buffer to the last. Where there is none, the first constant that
    does not fit is named. Calls that follow leave the regions of earlier constants alone, as long
    as there is a layout. -/
theorem packing_exact (hreach : g.Reachable) :
    ((∃ l, ofGraph g = .ok l) ↔ elements g.constants < Count.limit) ∧
      (∀ l, ofGraph g = .ok l → Packs g l) ∧
      (Count.limit ≤ elements g.constants →
        ∃ k v name, FirstOverflow 0 g.constants k v ∧ v.name? = some name ∧
          ofGraph g = .error ⟨g.name, name⟩) ∧
      ∀ calls l', ofGraph (g.run calls) = .ok l' →
        ∃ l, ofGraph g = .ok l ∧ l.regionsByOffset <+: l'.regionsByOffset ∧
          ∀ name r, l.find? name = some r → l'.find? name = some r := by
  have hnamed := hreach.named
  exact ⟨exists_ofGraph_iff, fun _ => packs_of_ofGraph hnamed, error_of_overflow hnamed,
    fun _ _ => regions_run hnamed⟩

/-- Constants by other names than their order would suggest, with a refused one in between. -/
def weightCalls : List Call :=
  [ .addConstant "w" ⟨.nc, [2, 3], by decide, by decide, by decide⟩,
    .addInput "x" Graph.twoChannels,
    .addConstant "x" ⟨.c, [5], by decide, by decide, by decide⟩,
    .addConstant "b" Graph.threeChannels ]

/-- Two constants that take up half of all words each. -/
def halfCalls : List Call :=
  [ .addConstant "lower" ⟨.c, [2 ^ 63], by decide, by decide, by decide⟩,
    .addConstant "higher" ⟨.c, [2 ^ 63], by decide, by decide, by decide⟩ ]

theorem packing_exact_weights_halves :
    (∃ l, ofGraph ((Graph.empty ⟨0⟩ "weights").run weightCalls) = .ok l ∧
        Packs ((Graph.empty ⟨0⟩ "weights").run weightCalls) l ∧
        l.find? "w" = some ⟨"w", 0, 6⟩ ∧ l.find? "b" = some ⟨"b", 6, 3⟩) ∧
      ∃ k v, FirstOverflow 0 ((Graph.empty ⟨1⟩ "halves").run halfCalls).constants k v ∧
        v.name? = some "higher" := by
  have hweights : ((Graph.empty ⟨0⟩ "weights").run weightCalls).Reachable :=
    ⟨⟨0⟩, "weights", {}, weightCalls, by decide, rfl⟩
  have hhalves : ((Graph.empty ⟨1⟩ "halves").run halfCalls).Reachable :=
    ⟨⟨1⟩, "halves", {}, halfCalls, by decide, rfl⟩
  obtain ⟨-, hpacks, -⟩ := packing_exact hweights
  obtain ⟨-, -, hover, -⟩ := packing_exact hhalves
  constructor
  · have hlayout : ofGraph ((Graph.empty ⟨0⟩ "weights").run weightCalls) =
        .ok ⟨9, .ofList [("w", ⟨"w", 0, 6⟩), ("b", ⟨"b", 6, 3⟩)]⟩ := by decide
    exact ⟨_, hlayout, hpacks _ hlayout, by decide, by decide⟩
  · obtain ⟨k, v, name, hfirst, hname, herror⟩ := hover (by decide)
    have hhigher : ofGraph ((Graph.empty ⟨1⟩ "halves").run halfCalls) =
        .error ⟨"halves", "higher"⟩ := by decide
    rw [hhigher] at herror
    cases herror
    exact ⟨k, v, hfirst, hname⟩

end WeightLayout

end TensorGraph
