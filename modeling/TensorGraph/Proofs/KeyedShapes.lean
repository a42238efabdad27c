import TensorGraph.Proofs.AxisRemoval

/-!
# `TensorGraph.Proofs.KeyedShapes` — **shapes from pairs of axis and extent**

Extents may be given by axis instead of by position. Pairs are scattered into the places of their
axes, which refuses axes that have no place and places that are taken; then the places are read off
one after another, which refuses those that are empty; and then a shape is made of what was read.
What the places hold is what looking up their axes among the pairs gives, so as long as nothing is
refused the scattering is forgotten: the extents come rearranged into the order.

## Contents
- **Looking up** a key that occurs once.
- **Scattering.** `placed` is what the places hold after some pairs, `Clean` says that those pairs
  were not refused, and there is one lemma per way that one more pair can go.
- **Reading off** the places.
- **Faults** of keyed construction: `KeyedFault`.
- **The two constructions agree**: `ofExtents_exact`.
-/

namespace TensorGraph

open Checks

/-! ## Looking up -/

section Lookup

variable {α β : Type} [BEq α] [LawfulBEq α] {entries : List (α × β)} {k : α} {v : β}

theorem lookup_eq_none_iff_not_mem : entries.lookup k = none ↔ k ∉ entries.map Prod.fst := by
  rw [List.lookup_eq_none_iff, List.mem_map]
  constructor
  · rintro hne ⟨p, hp, rfl⟩
    simpa using hne p hp
  · intro hnot p hp
    have hpk : k ≠ p.1 := fun h => hnot ⟨p, hp, h.symm⟩
    simpa using hpk

/-- Looking up a key that occurs once finds its value. -/
theorem lookup_eq_some_iff_mem (hnodup : (entries.map Prod.fst).Nodup) :
    entries.lookup k = some v ↔ (k, v) ∈ entries := by
  induction entries with
  | nil => simp
  | cons p entries ih =>
      obtain ⟨l, w⟩ := p
      obtain ⟨hl, hentries⟩ := List.nodup_cons.mp hnodup
      rw [List.lookup_cons, List.mem_cons, Prod.mk.injEq]
      by_cases hkl : k = l
      · have hnot : (k, v) ∉ entries := fun h => hl (List.mem_map.mpr ⟨(k, v), h, hkl⟩)
        simp [hkl] at hnot ⊢
        simp [hnot, eq_comm]
      · have hne : (k == l) = false := by simpa using hkl
        rw [hne]
        simp [hkl, ih hentries]

end Lookup

namespace AxisOrder

variable {o : AxisOrder} {a : Axis} {i : Nat}

/-- The position of an axis is where it stands. -/
theorem position?_eq_some_iff : o.position? a = some i ↔ o.axes[i]? = some a := by
  rw [← position?_stored, position?_stored_eq_some_iff]

theorem position?_eq_none_iff : o.position? a = none ↔ a ∉ o.axes := by
  unfold position?
  rw [List.idxOf?_eq_none_iff]

theorem exists_position_of_mem (h : a ∈ o.axes) :
    ∃ i, o.position? a = some i ∧ o.axes[i]? = some a := by
  obtain ⟨i, hi⟩ := List.mem_iff_getElem?.mp h
  exact ⟨i, position?_eq_some_iff.mpr hi, hi⟩

end AxisOrder

namespace Shape

variable {o : AxisOrder} {s : Shape} {extents seen rest : List (Axis × Nat)} {p : Axis × Nat}
  {a : Axis} {i : Nat}

/-! ## Scattering -/

/-- What the places hold after some pairs: for each axis, what was given for it. -/
def placed (o : AxisOrder) (seen : List (Axis × Nat)) : List (Option Nat) :=
  o.axes.map fun a => seen.lookup a

/-- **No pair was refused**: all name axes of the order, and none an axis for the second time. -/
structure Clean (o : AxisOrder) (seen : List (Axis × Nat)) : Prop where
  mem : ∀ a ∈ seen.map Prod.fst, a ∈ o.axes
  nodup : (seen.map Prod.fst).Nodup

theorem Clean.nil : Clean o [] := ⟨nofun, List.nodup_nil⟩

theorem Clean.of_append (h : Clean o (seen ++ rest)) : Clean o seen := by
  obtain ⟨hmem, hnodup⟩ := h
  rw [List.map_append] at hmem hnodup
  exact ⟨fun a ha => hmem a (List.mem_append_left _ ha), hnodup.of_append_left⟩

/-- One more pair is not refused if its axis is one of the order and new. -/
theorem clean_append_singleton_iff :
    Clean o (seen ++ [p]) ↔ Clean o seen ∧ p.1 ∈ o.axes ∧ p.1 ∉ seen.map Prod.fst := by
  constructor
  · intro h
    have hseen := h.of_append
    obtain ⟨hmem, hnodup⟩ := h
    rw [List.map_append, List.map_singleton] at hmem hnodup
    refine ⟨hseen, hmem _ (by simp), fun hp => ?_⟩
    exact (List.nodup_append.mp hnodup).2.2 _ hp _ (List.mem_singleton.mpr rfl) rfl
  · rintro ⟨⟨hmem, hnodup⟩, hp, hnew⟩
    constructor
    · intro a ha
      rw [List.map_append, List.mem_append] at ha
      rcases ha with ha | ha
      · exact hmem a ha
      · rw [List.mem_singleton.mp ha]
        exact hp
    · rw [List.map_append, List.map_singleton, List.nodup_append]
      refine ⟨hnodup, List.nodup_singleton _, fun a ha b hb hab => ?_⟩
      rw [hab, List.mem_singleton.mp hb] at ha
      exact hnew ha

theorem placed_nil (o : AxisOrder) : placed o [] = List.replicate o.rank none := by
  unfold placed AxisOrder.rank
  exact List.map_const' ..

/-- The place of an axis. -/
theorem getElem?_placed (seen : List (Axis × Nat)) (h : o.axes[i]? = some a) :
    (placed o seen)[i]? = some (seen.lookup a) := by
  rw [placed, List.getElem?_map, h]
  rfl

theorem placeExtent_of_not_mem (places : List (Option Nat)) (hp : p.1 ∉ o.axes) :
    placeExtent o places p = .error (.unexpectedAxis p.1 o) := by
  unfold placeExtent
  rw [AxisOrder.position?_eq_none_iff.mpr hp]

theorem placeExtent_of_repeated (hp : p.1 ∈ o.axes) (hseen : p.1 ∈ seen.map Prod.fst) :
    placeExtent o (placed o seen) p = .error (.duplicateAxis p.1) := by
  obtain ⟨i, hposition, hi⟩ := AxisOrder.exists_position_of_mem hp
  have hplace := getElem?_placed seen hi
  unfold placeExtent
  rw [hposition]
  dsimp only
  rw [hplace]
  cases hlookup : seen.lookup p.1 with
  | none => exact absurd hseen (lookup_eq_none_iff_not_mem.mp hlookup)
  | some d => rfl

/-- A new axis fills its place and no other. -/
theorem placed_append_singleton (hi : o.axes[i]? = some p.1) (hnew : p.1 ∉ seen.map Prod.fst) :
    placed o (seen ++ [p]) = (placed o seen).set i (some p.2) := by
  have hlength : i < (placed o seen).length := by
    rw [placed, List.length_map]
    exact (List.getElem?_eq_some_iff.mp hi).1
  refine List.ext_getElem? fun j => ?_
  rw [List.getElem?_set]
  by_cases hij : i = j
  · subst hij
    rw [if_pos rfl, if_pos hlength, getElem?_placed _ hi, List.lookup_append,
      lookup_eq_none_iff_not_mem.mpr hnew, Option.none_or]
    exact congrArg some List.lookup_cons_self
  · rw [if_neg hij, placed, placed, List.getElem?_map, List.getElem?_map]
    cases hj : o.axes[j]? with
    | none => rfl
    | some b =>
        -- The order has the axis once, so another place is that of another axis.
        have hne : b ≠ p.1 := by
          rintro rfl
          have hposition := AxisOrder.position?_eq_some_iff.mpr hi
          rw [AxisOrder.position?_eq_some_iff.mpr hj, Option.some.injEq] at hposition
          exact hij hposition.symm
        have hnone : [p].lookup b = none := lookup_eq_none_iff_not_mem.mpr (by simpa using hne)
        simp [List.lookup_append, hnone]

theorem placeExtent_of_new (hp : p.1 ∈ o.axes) (hnew : p.1 ∉ seen.map Prod.fst) :
    placeExtent o (placed o seen) p = .ok (placed o (seen ++ [p])) := by
  obtain ⟨i, hposition, hi⟩ := AxisOrder.exists_position_of_mem hp
  have hplace := getElem?_placed seen hi
  rw [lookup_eq_none_iff_not_mem.mpr hnew] at hplace
  unfold placeExtent
  rw [hposition]
  dsimp only
  rw [hplace, placed_append_singleton hi hnew]

/-- **A run over pairs that are not refused** keeps what looking up among them gives. -/
theorem foldlM_placeExtent_of_clean (h : Clean o (seen ++ rest)) :
    rest.foldlM (placeExtent o) (placed o seen) = .ok (placed o (seen ++ rest)) := by
  induction rest generalizing seen with
  | nil =>
      rw [List.append_nil]
      rfl
  | cons p rest ih =>
      have hsplit : seen ++ p :: rest = seen ++ [p] ++ rest := by simp
      rw [hsplit] at h ⊢
      obtain ⟨-, hp, hnew⟩ := clean_append_singleton_iff.mp h.of_append
      rw [List.foldlM_cons, placeExtent_of_new hp hnew]
      exact ih h

/-- The whole scattering. -/
theorem scatter_of_clean (h : Clean o extents) :
    extents.foldlM (placeExtent o) (List.replicate o.rank none) = .ok (placed o extents) := by
  rw [← placed_nil]
  exact foldlM_placeExtent_of_clean h

/-- If a pair is refused, one is the first. -/
theorem exists_first_refused (h : ¬ Clean o extents) :
    ∃ before p after, extents = before ++ p :: after ∧ Clean o before ∧
      (p.1 ∉ o.axes ∨ p.1 ∈ before.map Prod.fst) := by
  induction extents using List.reverseRecOn with
  | nil => exact absurd Clean.nil h
  | append_singleton init p ih =>
      by_cases hinit : Clean o init
      · refine ⟨init, p, [], rfl, hinit, ?_⟩
        by_contra hneither
        obtain ⟨hp, hnew⟩ := not_or.mp hneither
        exact h (clean_append_singleton_iff.mpr ⟨hinit, not_not.mp hp, hnew⟩)
      · obtain ⟨before, q, after, rfl, hbefore, hq⟩ := ih hinit
        exact ⟨before, q, after ++ [p], by simp, hbefore, hq⟩

/-! ## Reading off -/

/-- **The extents rearranged into the order**: for each axis in turn, what is given for it. -/
def rearranged (o : AxisOrder) (extents : List (Axis × Nat)) : List Nat :=
  o.axes.filterMap fun a => extents.lookup a

/-- Places are read off up to the first that is empty. -/
theorem mapM_takeExtent_eq (o : AxisOrder) (extents : List (Axis × Nat)) (axes : List Axis) :
    (axes.zip (axes.map fun a => extents.lookup a)).mapM (takeExtent o) =
      match axes.find? fun a => (extents.lookup a).isNone with
      | some a => .error (.missingAxis a o)
      | none => .ok (axes.filterMap fun a => extents.lookup a) := by
  induction axes with
  | nil => rfl
  | cons a axes ih =>
      rw [List.map_cons, List.zip_cons_cons, List.mapM_cons, ih, List.find?_cons,
        List.filterMap_cons]
      cases extents.lookup a with
      | none => rfl
      | some d =>
          dsimp only [Option.isNone_some]
          cases axes.find? fun a => (extents.lookup a).isNone <;> rfl

/-- Keyed construction, after the scattering. -/
theorem ofExtents_of_clean (h : Clean o extents) :
    ofExtents o extents = (match o.axes.find? fun a => (extents.lookup a).isNone with
      | some a => .error (.missingAxis a o)
      | none => ofDims o (rearranged o extents)) := by
  unfold ofExtents
  rw [scatter_of_clean h]
  show ((o.axes.zip (placed o extents)).mapM (takeExtent o) >>= _) = _
  rw [placed, mapM_takeExtent_eq]
  cases o.axes.find? fun a => (extents.lookup a).isNone <;> rfl

/-! ## Faults -/

/-- Naming the axes of the order, each once, is naming no other, none twice, and all. -/
theorem perm_axes_iff :
    (extents.map Prod.fst).Perm o.axes ↔
      Clean o extents ∧ ∀ a ∈ o.axes, a ∈ extents.map Prod.fst := by
  constructor
  · intro h
    exact ⟨⟨fun a ha => h.mem_iff.mp ha, h.symm.nodup o.nodup⟩, fun a ha => h.mem_iff.mpr ha⟩
  · rintro ⟨⟨hmem, hnodup⟩, hall⟩
    exact (List.perm_ext_iff_of_nodup hnodup o.nodup).mpr fun a => ⟨hmem a, hall a⟩

/-- **What is wrong with pairs** that do not name every axis once. The first pair that is refused
    decides, by an axis outside the order or one that an earlier pair named; and if no pair is
    refused, the first axis of the order that no pair names. -/
inductive KeyedFault (o : AxisOrder) (extents : List (Axis × Nat)) : ShapeError → Prop where
  | unexpected {before after : List (Axis × Nat)} {p : Axis × Nat}
      (hsplit : extents = before ++ p :: after) (hbefore : Clean o before) (hp : p.1 ∉ o.axes) :
      KeyedFault o extents (.unexpectedAxis p.1 o)
  | duplicate {before after : List (Axis × Nat)} {p : Axis × Nat}
      (hsplit : extents = before ++ p :: after) (hbefore : Clean o before)
      (hp : p.1 ∈ before.map Prod.fst) : KeyedFault o extents (.duplicateAxis p.1)
  | missing {before after : List Axis} {a : Axis} (hclean : Clean o extents)
      (hsplit : o.axes = before ++ a :: after) (hbefore : ∀ b ∈ before, b ∈ extents.map Prod.fst)
      (ha : a ∉ extents.map Prod.fst) : KeyedFault o extents (.missingAxis a o)

theorem exists_keyedFault (h : ¬ (extents.map Prod.fst).Perm o.axes) :
    ∃ e, KeyedFault o extents e := by
  by_cases hclean : Clean o extents
  · cases hfind : o.axes.find? fun a => (extents.lookup a).isNone with
    | some a =>
        obtain ⟨ha, before, after, hsplit, hbefore⟩ := List.find?_eq_some_iff_append.mp hfind
        refine ⟨_, .missing hclean hsplit (fun b hb => ?_)
          (lookup_eq_none_iff_not_mem.mp (Option.isNone_iff_eq_none.mp ha))⟩
        by_contra hnot
        have hnone := hbefore b hb
        rw [lookup_eq_none_iff_not_mem.mpr hnot] at hnone
        cases hnone
    | none =>
        refine absurd (perm_axes_iff.mpr ⟨hclean, fun a ha => ?_⟩) h
        by_contra hnot
        refine List.find?_eq_none.mp hfind a ha ?_
        rw [lookup_eq_none_iff_not_mem.mpr hnot]
        rfl
  · obtain ⟨before, p, after, hsplit, hbefore, hp | hp⟩ := exists_first_refused hclean
    · exact ⟨_, .unexpected hsplit hbefore hp⟩
    · exact ⟨_, .duplicate hsplit hbefore hp⟩

/-- Scattering stops at a pair that is refused. -/
theorem ofExtents_of_refused {before after : List (Axis × Nat)} {e : ShapeError}
    (hbefore : Clean o before) (hp : placeExtent o (placed o before) p = .error e) :
    ofExtents o (before ++ p :: after) = .error e := by
  unfold ofExtents
  rw [List.foldlM_append, scatter_of_clean hbefore]
  show ((List.foldlM (placeExtent o) (placed o before) (p :: after)) >>= _) = _
  rw [List.foldlM_cons, hp]
  rfl

/-- **A fault of the pairs** is what keyed construction reports. -/
theorem ofExtents_of_keyedFault {e : ShapeError} (h : KeyedFault o extents e) :
    ofExtents o extents = .error e := by
  cases h with
  | unexpected hsplit hbefore hp =>
      rw [hsplit]
      exact ofExtents_of_refused hbefore (placeExtent_of_not_mem _ hp)
  | duplicate hsplit hbefore hp =>
      rw [hsplit]
      exact ofExtents_of_refused hbefore (placeExtent_of_repeated (hbefore.mem _ hp) hp)
  | @missing before after a hclean hsplit hbefore ha =>
      have hfind : o.axes.find? (fun a => (extents.lookup a).isNone) = some a := by
        refine List.find?_eq_some_iff_append.mpr ⟨?_, before, after, hsplit, fun b hb => ?_⟩
        · rw [lookup_eq_none_iff_not_mem.mpr ha]
          rfl
        · have hsome : extents.lookup b ≠ none := fun hnone =>
            lookup_eq_none_iff_not_mem.mp hnone (hbefore b hb)
          simpa using hsome
      rw [ofExtents_of_clean hclean, hfind]

/-! ## Keyed and positional construction -/

/-- **Pairs that name every axis once** give the shape of their extents, rearranged. -/
theorem ofExtents_of_perm (h : (extents.map Prod.fst).Perm o.axes) :
    ofExtents o extents = ofDims o (rearranged o extents) := by
  obtain ⟨hclean, hall⟩ := perm_axes_iff.mp h
  have hfind : o.axes.find? (fun a => (extents.lookup a).isNone) = none := by
    refine List.find?_eq_none.mpr fun a ha => ?_
    have hsome : extents.lookup a ≠ none := fun hnone =>
      lookup_eq_none_iff_not_mem.mp hnone (hall a ha)
    simpa using hsome
  rw [ofExtents_of_clean hclean, hfind]

theorem ofExtents_eq_ok_iff :
    ofExtents o extents = .ok s ↔
      (extents.map Prod.fst).Perm o.axes ∧ ofDims o (rearranged o extents) = .ok s := by
  by_cases h : (extents.map Prod.fst).Perm o.axes
  · rw [ofExtents_of_perm h]
    simp [h]
  · obtain ⟨e, he⟩ := exists_keyedFault h
    rw [ofExtents_of_keyedFault he]
    simp [h]

theorem rearranged_eq_map {f : Axis → Nat} (h : ∀ a ∈ o.axes, extents.lookup a = some (f a)) :
    rearranged o extents = o.axes.map f := by
  rw [rearranged, List.filterMap_congr h, ← List.filterMap_eq_map]
  rfl

/-- **Nothing is lost**: the axes beside the rearranged extents are the pairs. -/
theorem zip_rearranged_perm (h : (extents.map Prod.fst).Perm o.axes) :
    (o.axes.zip (rearranged o extents)).Perm extents := by
  have hnodup : (extents.map Prod.fst).Nodup := h.symm.nodup o.nodup
  let f a := (extents.lookup a).getD 0
  have hlookup : ∀ p ∈ extents, extents.lookup p.1 = some p.2 := fun p hp =>
    (lookup_eq_some_iff_mem hnodup).mpr hp
  have hf : ∀ a ∈ o.axes, extents.lookup a = some (f a) := by
    intro a ha
    obtain ⟨p, hp, rfl⟩ := List.mem_map.mp (h.mem_iff.mpr ha)
    simp only [f, hlookup p hp, Option.getD_some]
  have hextents : (extents.map Prod.fst).map (fun a => (a, f a)) = extents := by
    rw [List.map_map]
    refine (List.map_congr_left fun p hp => ?_).trans (List.map_id extents)
    show (p.1, f p.1) = p
    simp only [f, hlookup p hp, Option.getD_some]
  rw [rearranged_eq_map hf, zip_map_self]
  conv_rhs => rw [← hextents]
  exact (h.map fun a => (a, f a)).symm

/-- **Keyed construction accepts** the pairs of a shape in any sequence, and nothing else. -/
theorem ofExtents_eq_ok_iff_perm :
    ofExtents o extents = .ok s ↔ s.order = o ∧ extents.Perm s.pairs := by
  rw [ofExtents_eq_ok_iff, ofDims_eq_ok_iff]
  constructor
  · rintro ⟨hnames, rfl, hdims⟩
    refine ⟨rfl, ?_⟩
    rw [pairs, hdims]
    exact (zip_rearranged_perm hnames).symm
  · rintro ⟨rfl, hperm⟩
    have hnames : (extents.map Prod.fst).Perm s.order.axes := by
      rw [← map_fst_pairs]
      exact hperm.map Prod.fst
    have hnodup : (extents.map Prod.fst).Nodup := hnames.symm.nodup s.order.nodup
    refine ⟨hnames, rfl, ?_⟩
    rw [dims_eq]
    refine (rearranged_eq_map fun a ha => ?_).symm
    rw [lookup_eq_some_iff_mem hnodup, hperm.mem_iff, ← extent?_eq_some_iff]
    exact extent?_of_mem ha

/-- **Keyed and positional construction agree.** Pairs make a shape exactly if they name every axis
    of the order once and their extents, rearranged into the order, make it; so their sequence does
    not matter, and the pairs of a shape give it back. Other pairs have exactly one fault, and it is
    what is reported. Words and tables are made into the same shapes. -/
theorem ofExtents_exact :
    (∀ (o : AxisOrder) (extents : List (Axis × Nat)) (s : Shape), ofExtents o extents = .ok s ↔
      (extents.map Prod.fst).Perm o.axes ∧ ofDims o (rearranged o extents) = .ok s) ∧
    (∀ (o : AxisOrder) (extents : List (Axis × Nat)), (extents.map Prod.fst).Perm o.axes →
      (o.axes.zip (rearranged o extents)).Perm extents ∧
        ofExtents o extents = ofDims o (rearranged o extents)) ∧
    (∀ (o : AxisOrder) (extents others : List (Axis × Nat)), extents.Perm others →
      ∀ s, ofExtents o extents = .ok s ↔ ofExtents o others = .ok s) ∧
    (∀ (s : Shape) (extents : List (Axis × Nat)), extents.Perm s.pairs →
      ofExtents s.order extents = .ok s) ∧
    (∀ (o : AxisOrder) (extents : List (Axis × Nat)), ¬ (extents.map Prod.fst).Perm o.axes →
      ∃ e, ofExtents o extents = .error e ∧ ∀ e', KeyedFault o extents e' ↔ e' = e) ∧
    ∀ (o : AxisOrder) (extents : List (Axis × UInt64)), StoredShape.fromMap o.stored extents =
      (ofExtents o (extents.map (Prod.map id UInt64.toNat))).map stored := by
  refine ⟨fun o extents s => ofExtents_eq_ok_iff,
    fun o extents h => ⟨zip_rearranged_perm h, ofExtents_of_perm h⟩,
    fun o extents others h s => ?_, fun s extents h => ofExtents_eq_ok_iff_perm.mpr ⟨rfl, h⟩,
    fun o extents h => ?_, fromMap_eq⟩
  · rw [ofExtents_eq_ok_iff_perm, ofExtents_eq_ok_iff_perm]
    exact and_congr_right fun _ => ⟨h.symm.trans, h.trans⟩
  · obtain ⟨e, he⟩ := exists_keyedFault h
    have hreported := ofExtents_of_keyedFault he
    refine ⟨e, hreported, fun e' => ⟨fun he' => ?_, ?_⟩⟩
    · rw [ofExtents_of_keyedFault he', Except.error.injEq] at hreported
      exact hreported
    · rintro rfl
      exact he

/-- The images of `images` by axis, in another sequence; and pairs with an axis too many, one too
    few and one named twice, of which the first counts. -/
theorem ofExtents_exact_images :
    ofExtents images.order [(.width, 5), (.channel, 3), (.height, 4), (.batch, 2)] =
        .ok images ∧
      ofExtents .nc [(.batch, 1), (.height, 2), (.batch, 3)] =
        .error (.unexpectedAxis .height .nc) := by
  obtain ⟨-, -, -, hback, hfault, -⟩ := ofExtents_exact
  refine ⟨hback images _ (by decide), ?_⟩
  obtain ⟨e, he, hunique⟩ :=
    hfault .nc [(.batch, 1), (.height, 2), (.batch, 3)] (by decide)
  have hclean : Clean .nc [(.batch, 1)] :=
    clean_append_singleton_iff.mpr ⟨.nil, by decide, by decide⟩
  have hheight : KeyedFault .nc [(.batch, 1), (.height, 2), (.batch, 3)]
      (.unexpectedAxis .height .nc) := .unexpected (p := (.height, 2)) rfl hclean (by decide)
  rw [he, (hunique _).mp hheight]

end Shape

end TensorGraph
