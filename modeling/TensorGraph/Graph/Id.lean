/-!
# `TensorGraph.Graph.Id` — **identities of graphs, variables and operators**

Variables and operators are referred to by ids, never by reference. An id belongs to one graph and
holds a position in one of its two arenas. The position is a 32-bit word: an arena that grows past
that many entries gives ids a second time.

## Contents
- **Graph identities** and the supply that hands them out, each once.
- **Ids** of either arena, their written form and their order.
- **Sorted ids.** `insertSorted` and `sortDistinct` keep lists of ids in strictly increasing order.
-/

namespace TensorGraph

/-- Identity of a graph. -/
structure GraphId where
  number : Nat
deriving DecidableEq, Inhabited

/-- What is left of the graph identities. -/
structure GraphIdSupply where
  next : Nat := 0
deriving Inhabited

/-- An identity that was not handed out before. -/
def GraphIdSupply.fresh (s : GraphIdSupply) : GraphId × GraphIdSupply :=
  (⟨s.next⟩, ⟨s.next + 1⟩)

/-- The two arenas of a graph. -/
inductive Arena where
  | vars
  | ops
deriving DecidableEq

/-- A reference to an entry of an arena of some graph. -/
structure Id (arena : Arena) where
  graph : GraphId
  index : UInt32
deriving DecidableEq, Inhabited

abbrev VariableId := Id .vars
abbrev OperatorId := Id .ops

/-- What written ids of an arena start with. -/
def Arena.marker : Arena → String
  | .vars => "%v"
  | .ops => "op"

namespace Id

variable {arena : Arena}

instance : BEq (Id arena) := ⟨fun i j => decide (i = j)⟩

instance : LawfulBEq (Id arena) where
  rfl := by simp [BEq.beq]
  eq_of_beq := by simp [BEq.beq]

/-- The id that a graph gives to the entry at a position: the low 32 bits of the position stay. -/
def mint (graph : GraphId) (position : Nat) : Id arena := ⟨graph, UInt32.ofNat position⟩

/-- The position that the id holds. -/
def position (i : Id arena) : Nat := i.index.toNat

/-- Written form, which leaves the graph out. -/
def text (i : Id arena) : String := arena.marker ++ toString i.position

instance : ToString (Id arena) := ⟨text⟩

@[simp] theorem graph_mint (g : GraphId) (n : Nat) : (mint g n : Id arena).graph = g := rfl

theorem position_mint (g : GraphId) (n : Nat) :
    (mint g n : Id arena).position = n % UInt32.size := by
  simp [mint, position]

theorem position_mint_of_lt (g : GraphId) {n : Nat} (h : n < UInt32.size) :
    (mint g n : Id arena).position = n := by
  rw [position_mint, Nat.mod_eq_of_lt h]

/-- An id is determined by its graph and position. -/
theorem ext_position {i j : Id arena} (hg : i.graph = j.graph) (hp : i.position = j.position) :
    i = j := by
  cases i
  cases j
  cases hg
  have hindex := UInt32.toNat_inj.mp hp
  cases hindex
  rfl

/-! ## Order -/

/-- Ids compare by graph, then by position. -/
def Before (i j : Id arena) : Prop :=
  i.graph.number < j.graph.number ∨ (i.graph = j.graph ∧ i.position < j.position)

instance : LT (Id arena) := ⟨Before⟩

instance (i j : Id arena) : Decidable (i < j) := inferInstanceAs (Decidable (_ ∨ _))

theorem lt_def {i j : Id arena} :
    i < j ↔ i.graph.number < j.graph.number ∨ (i.graph = j.graph ∧ i.position < j.position) :=
  Iff.rfl

theorem lt_irrefl (i : Id arena) : ¬ i < i := by
  rw [lt_def]
  omega

theorem lt_trans {i j k : Id arena} (hij : i < j) (hjk : j < k) : i < k := by
  rw [lt_def] at *
  rcases hij with hij | ⟨hij, hij'⟩ <;> rcases hjk with hjk | ⟨hjk, hjk'⟩
  · exact Or.inl (Nat.lt_trans hij hjk)
  · exact Or.inl (hjk ▸ hij)
  · exact Or.inl (hij ▸ hjk)
  · exact Or.inr ⟨hij.trans hjk, Nat.lt_trans hij' hjk'⟩

theorem lt_trichotomy (i j : Id arena) : i < j ∨ i = j ∨ j < i := by
  simp only [lt_def]
  rcases Nat.lt_trichotomy i.graph.number j.graph.number with h | h | h
  · exact Or.inl (Or.inl h)
  · have hg : i.graph = j.graph := by
      cases hi : i.graph
      cases hj : j.graph
      simp_all
    rcases Nat.lt_trichotomy i.position j.position with hp | hp | hp
    · exact Or.inl (Or.inr ⟨hg, hp⟩)
    · exact Or.inr (Or.inl (ext_position hg hp))
    · exact Or.inr (Or.inr (Or.inr ⟨hg.symm, hp⟩))
  · exact Or.inr (Or.inr (Or.inl h))

/-! ## Sorted ids -/

/-- Put an id into its place in increasing ids, unless it is there. -/
def insertSorted (i : Id arena) : List (Id arena) → List (Id arena)
  | [] => [i]
  | j :: js =>
    if i < j then i :: j :: js
    else if i = j then j :: js
    else j :: insertSorted i js

/-- The ids in increasing order, each once. -/
def sortDistinct (is : List (Id arena)) : List (Id arena) := is.foldr insertSorted []

@[simp] theorem mem_insertSorted {i k : Id arena} {js : List (Id arena)} :
    k ∈ insertSorted i js ↔ k = i ∨ k ∈ js := by
  induction js with
  | nil => simp [insertSorted]
  | cons j js ih =>
      simp only [insertSorted]
      split
      · simp
      · split
        · rename_i h
          subst h
          simp
        · simp only [List.mem_cons, ih]
          exact or_left_comm

theorem pairwise_insertSorted {i : Id arena} {js : List (Id arena)} (h : js.Pairwise (· < ·)) :
    (insertSorted i js).Pairwise (· < ·) := by
  induction js with
  | nil => simp [insertSorted]
  | cons j js ih =>
      obtain ⟨hj, hjs⟩ := List.pairwise_cons.mp h
      simp only [insertSorted]
      split
      · rename_i hlt
        refine List.pairwise_cons.mpr ⟨fun k hk => ?_, h⟩
        rcases List.mem_cons.mp hk with rfl | hk
        · exact hlt
        · exact lt_trans hlt (hj k hk)
      · split
        · exact h
        · rename_i hlt hne
          refine List.pairwise_cons.mpr ⟨fun k hk => ?_, ih hjs⟩
          rcases mem_insertSorted.mp hk with rfl | hk
          · rcases lt_trichotomy k j with h | h | h
            · exact absurd h hlt
            · exact absurd h hne
            · exact h
          · exact hj k hk

@[simp] theorem mem_sortDistinct {k : Id arena} {is : List (Id arena)} :
    k ∈ sortDistinct is ↔ k ∈ is := by
  induction is with
  | nil => simp [sortDistinct]
  | cons i is ih =>
      rw [sortDistinct, List.foldr_cons, mem_insertSorted, List.mem_cons]
      exact or_congr_right ih

theorem pairwise_sortDistinct (is : List (Id arena)) : (sortDistinct is).Pairwise (· < ·) := by
  induction is with
  | nil => exact List.Pairwise.nil
  | cons i is ih => exact pairwise_insertSorted ih

end Id

end TensorGraph
