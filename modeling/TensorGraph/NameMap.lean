/-!
# `TensorGraph.NameMap` — **finite maps from names**

A map from names to values, kept as its entries in strictly increasing order of names (texts
compare by code point). The order is part of the type, so two maps that answer every lookup alike
are equal (`NameMap.ext_find?`), and listing a map lists it sorted.

## Contents
- **Operations.** `find?`, `contains`, `insert`, `erase`, `ofList` (a later entry takes the place of
  an earlier one of the same name), `keys`, `values`, `size`.
- **Lookup laws.** What each operation does to `find?`.
-/

namespace TensorGraph

/-- A finite map from names, as entries in strictly increasing order of names. -/
structure NameMap (α : Type) where
  entries : List (String × α)
  sorted : entries.Pairwise (fun a b => a.1 < b.1)
deriving DecidableEq

namespace NameMap

variable {α : Type}

/-! ## Sorted entry lists -/

/-- Put a value under a name into sorted entries. -/
def insertEntry (name : String) (value : α) : List (String × α) → List (String × α)
  | [] => [(name, value)]
  | e :: es =>
    if name < e.1 then (name, value) :: e :: es
    else if name = e.1 then (name, value) :: es
    else e :: insertEntry name value es

/-- The value that entries hold under a name. -/
def lookup (name : String) : List (String × α) → Option α
  | [] => none
  | e :: es => if name = e.1 then some e.2 else lookup name es

theorem fst_mem_insertEntry {name : String} {value : α} {es : List (String × α)}
    {e : String × α} (h : e ∈ insertEntry name value es) : e = (name, value) ∨ e ∈ es := by
  induction es with
  | nil => simpa [insertEntry] using h
  | cons x xs ih =>
      simp only [insertEntry] at h
      split at h
      · simpa using h
      · split at h
        · rcases List.mem_cons.mp h with h | h
          · exact Or.inl h
          · exact Or.inr (List.mem_cons_of_mem _ h)
        · rcases List.mem_cons.mp h with h | h
          · exact Or.inr (h ▸ List.mem_cons_self)
          · rcases ih h with h | h
            · exact Or.inl h
            · exact Or.inr (List.mem_cons_of_mem _ h)

theorem pairwise_insertEntry (name : String) (value : α) {es : List (String × α)}
    (h : es.Pairwise (fun a b => a.1 < b.1)) :
    (insertEntry name value es).Pairwise (fun a b => a.1 < b.1) := by
  induction es with
  | nil => simp [insertEntry]
  | cons x xs ih =>
      obtain ⟨hx, hxs⟩ := List.pairwise_cons.mp h
      simp only [insertEntry]
      split
      · rename_i hlt
        refine List.pairwise_cons.mpr ⟨fun e he => ?_, h⟩
        rcases List.mem_cons.mp he with rfl | he
        · exact hlt
        · exact String.lt_trans hlt (hx e he)
      · split
        · rename_i heq
          exact List.pairwise_cons.mpr ⟨fun e he => heq ▸ hx e he, hxs⟩
        · rename_i hlt hne
          refine List.pairwise_cons.mpr ⟨fun e he => ?_, ih hxs⟩
          rcases fst_mem_insertEntry he with rfl | he
          · rcases Std.lt_trichotomy name x.1 with h | h | h
            · exact absurd h hlt
            · exact absurd h hne
            · exact h
          · exact hx e he

theorem lookup_insertEntry (name : String) (value : α) (q : String) (es : List (String × α)) :
    lookup q (insertEntry name value es) = if q = name then some value else lookup q es := by
  induction es with
  | nil => rfl
  | cons x xs ih =>
      simp only [insertEntry]
      split
      · rfl
      · split
        · rename_i heq
          subst heq
          by_cases hq : q = x.1 <;> simp [lookup, hq]
        · rename_i hne
          by_cases hq : q = x.1
          · subst hq
            have : ¬ x.1 = name := fun h => hne h.symm
            simp [lookup, this]
          · simp [lookup, hq, ih]

theorem lookup_eq_none_iff {name : String} {es : List (String × α)} :
    lookup name es = none ↔ ∀ e ∈ es, e.1 ≠ name := by
  induction es with
  | nil => simp [lookup]
  | cons x xs ih =>
      by_cases h : name = x.1
      · simp [lookup, h]
      · have h' : x.1 ≠ name := fun e => h e.symm
        simp [lookup, h, h', ih]

theorem lookup_eq_some_iff {name : String} {value : α} {es : List (String × α)}
    (hs : es.Pairwise (fun a b => a.1 < b.1)) :
    lookup name es = some value ↔ (name, value) ∈ es := by
  induction es with
  | nil => simp [lookup]
  | cons x xs ih =>
      obtain ⟨hx, hxs⟩ := List.pairwise_cons.mp hs
      obtain ⟨k, v⟩ := x
      by_cases h : name = k
      · subst h
        have hnot : ∀ w, (name, w) ∉ xs := fun w hw => String.lt_irrefl _ (hx (name, w) hw)
        simp [lookup, hnot, eq_comm]
      · simp [lookup, h, ih hxs]

/-- A name that is not there is one more entry. -/
theorem insertEntry_perm {name : String} {value : α} {es : List (String × α)}
    (h : lookup name es = none) : (insertEntry name value es).Perm ((name, value) :: es) := by
  induction es with
  | nil => exact .refl _
  | cons e es ih =>
      have hne : ¬ name = e.1 := fun heq => lookup_eq_none_iff.mp h e List.mem_cons_self heq.symm
      rw [lookup, if_neg hne] at h
      simp only [insertEntry, if_neg hne]
      split
      · exact .refl _
      · exact ((ih h).cons e).trans (.swap _ _ es)

/-- Sorted entries are determined by their lookups. -/
theorem entries_eq_of_lookup {es fs : List (String × α)}
    (he : es.Pairwise (fun a b => a.1 < b.1)) (hf : fs.Pairwise (fun a b => a.1 < b.1))
    (h : ∀ q, lookup q es = lookup q fs) : es = fs := by
  induction es generalizing fs with
  | nil =>
      cases fs with
      | nil => rfl
      | cons f fs => simpa [lookup] using h f.1
  | cons e es ih =>
      cases fs with
      | nil => simpa [lookup] using h e.1
      | cons f fs =>
          obtain ⟨hee, hes⟩ := List.pairwise_cons.mp he
          obtain ⟨hff, hfs⟩ := List.pairwise_cons.mp hf
          have hkey : e.1 = f.1 := by
            rcases Std.lt_trichotomy e.1 f.1 with hlt | heq | hlt
            · have hnone : lookup e.1 (f :: fs) = none := by
                refine lookup_eq_none_iff.mpr fun g hg => ?_
                rcases List.mem_cons.mp hg with rfl | hg
                · exact fun h => String.lt_irrefl _ (h ▸ hlt)
                · exact fun h => String.lt_irrefl _ (h ▸ String.lt_trans hlt (hff g hg))
              rw [← h e.1] at hnone
              simp [lookup] at hnone
            · exact heq
            · have hnone : lookup f.1 (e :: es) = none := by
                refine lookup_eq_none_iff.mpr fun g hg => ?_
                rcases List.mem_cons.mp hg with rfl | hg
                · exact fun h => String.lt_irrefl _ (h ▸ hlt)
                · exact fun h => String.lt_irrefl _ (h ▸ String.lt_trans hlt (hee g hg))
              rw [h f.1] at hnone
              simp [lookup] at hnone
          have hval : e.2 = f.2 := by
            have := h e.1
            simpa [lookup, hkey] using this
          have hhead : e = f := Prod.ext hkey hval
          refine List.cons_eq_cons.mpr ⟨hhead, ih hes hfs fun q => ?_⟩
          by_cases hq : q = e.1
          · have h1 : lookup q es = none :=
              lookup_eq_none_iff.mpr fun g hg heq =>
                String.lt_irrefl _ (heq ▸ hq ▸ hee g hg)
            have h2 : lookup q fs = none :=
              lookup_eq_none_iff.mpr fun g hg heq =>
                String.lt_irrefl _ (heq ▸ hq ▸ hkey ▸ hff g hg)
            rw [h1, h2]
          · have hq' : q ≠ f.1 := hkey ▸ hq
            have := h q
            simpa [lookup, hq, hq'] using this

/-! ## Operations -/

/-- The map without entries. -/
def empty : NameMap α := ⟨[], List.Pairwise.nil⟩

instance : Inhabited (NameMap α) := ⟨empty⟩

/-- The value under a name. -/
def find? (m : NameMap α) (name : String) : Option α := lookup name m.entries

/-- There is a value under the name. -/
def contains (m : NameMap α) (name : String) : Bool := (m.find? name).isSome

/-- Put a value under a name, in place of the one that was there. -/
def insert (m : NameMap α) (name : String) (value : α) : NameMap α :=
  ⟨insertEntry name value m.entries, pairwise_insertEntry name value m.sorted⟩

/-- Take a name out. -/
def erase (m : NameMap α) (name : String) : NameMap α :=
  ⟨m.entries.filter (fun e => e.1 ≠ name), m.sorted.filter _⟩

/-- The map that holds the given entries; of two under one name the later stays. -/
def ofList (entries : List (String × α)) : NameMap α :=
  entries.foldl (fun m e => m.insert e.1 e.2) empty

/-- The names, in increasing order. -/
def keys (m : NameMap α) : List String := m.entries.map Prod.fst

/-- The values, in increasing order of their names. -/
def values (m : NameMap α) : List α := m.entries.map Prod.snd

/-- How many names there are. -/
def size (m : NameMap α) : Nat := m.entries.length

/-- There are no entries. -/
def isEmpty (m : NameMap α) : Bool := m.entries.isEmpty

/-! ## Lookup laws -/

@[simp] theorem find?_empty (q : String) : (empty : NameMap α).find? q = none := rfl

@[simp] theorem find?_insert (m : NameMap α) (name : String) (value : α) (q : String) :
    (m.insert name value).find? q = if q = name then some value else m.find? q :=
  lookup_insertEntry name value q m.entries

theorem find?_eq_some_iff {m : NameMap α} {name : String} {value : α} :
    m.find? name = some value ↔ (name, value) ∈ m.entries :=
  lookup_eq_some_iff m.sorted

theorem find?_eq_none_iff {m : NameMap α} {name : String} :
    m.find? name = none ↔ ∀ e ∈ m.entries, e.1 ≠ name :=
  lookup_eq_none_iff

theorem contains_iff_mem_keys {m : NameMap α} {name : String} :
    m.contains name = true ↔ name ∈ m.keys := by
  rw [contains, Option.isSome_iff_ne_none, Ne, find?_eq_none_iff]
  simp [keys]

/-- **Extensionality.** Maps that answer every lookup alike are equal. -/
theorem ext_find? {m n : NameMap α} (h : ∀ q, m.find? q = n.find? q) : m = n := by
  obtain ⟨es, hes⟩ := m
  obtain ⟨fs, hfs⟩ := n
  have : es = fs := entries_eq_of_lookup hes hfs h
  subst this
  rfl

@[simp] theorem find?_erase (m : NameMap α) (name q : String) :
    (m.erase name).find? q = if q = name then none else m.find? q := by
  by_cases hq : q = name
  · subst hq
    rw [if_pos rfl]
    exact find?_eq_none_iff.mpr fun e he => by simpa using (List.mem_filter.mp he).2
  · rw [if_neg hq]
    cases h : m.find? q with
    | none =>
        rw [find?_eq_none_iff] at h ⊢
        exact fun e he => h e (List.mem_filter.mp he).1
    | some v =>
        rw [find?_eq_some_iff] at h ⊢
        exact List.mem_filter.mpr ⟨h, by simpa using hq⟩

/-- Two names can be entered in either order. -/
theorem insert_comm {m : NameMap α} {name name' : String} (hne : name ≠ name') (i i' : α) :
    (m.insert name i).insert name' i' = (m.insert name' i').insert name i := by
  refine ext_find? fun q => ?_
  rw [find?_insert, find?_insert, find?_insert, find?_insert]
  by_cases hq : q = name
  · rw [if_pos hq, if_pos hq, if_neg fun h => hne (hq.symm.trans h)]
  · rw [if_neg hq, if_neg hq]

end NameMap

end TensorGraph
