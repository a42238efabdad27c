import Mathlib.Logic.Equiv.Basic
import TensorGraph.Graph.Edit
import TensorGraph.Proofs.Bookkeeping
import TensorGraph.Proofs.Rehome

/-!
# `TensorGraph.Proofs.Renaming` — **graphs with some of their ids exchanged**

A permutation of ids goes through everything in a graph that holds ids. A graph whose books are kept
holds no ids but those that resolve, so a permutation that leaves these alone leaves the graph
alone.

Two entries in a row are exchanged in both arenas by exchanging their ids, their places, and, in
lists of readers that end in both, their order there.

## Contents
- **`Renaming`** of variables, operators and graphs.
- **Renamings that fix a graph**: `renamed_eq_self`.
- **Exchanging neighbours**: `Renaming.neighbours`, `exchangeEnd`, `Graph.exchanged`.
-/

namespace TensorGraph

/-! ## Renaming -/

/-- A permutation of the ids of variables and one of the ids of operators. -/
structure Renaming where
  vars : Equiv.Perm VariableId
  ops : Equiv.Perm OperatorId

/-- The variable with its ids renamed. -/
def Variable.renamed (ρ : Renaming) (v : Variable) : Variable :=
  { v with
    id := ρ.vars v.id
    producer? := v.producer?.map ρ.ops
    consumers := v.consumers.map ρ.ops }

/-- What is in some slots, renamed. -/
def Renaming.slots (ρ : Renaming) (slots : List (String × VariableId)) :
    List (String × VariableId) :=
  slots.map fun slot => (slot.1, ρ.vars slot.2)

/-- The operator with its ids renamed. -/
def Node.renamed (ρ : Renaming) (n : Node) : Node :=
  { n with
    id := ρ.ops n.id
    inputs := ρ.slots n.inputs
    outputs := ρ.slots n.outputs }

namespace Graph

/-- The graph with all its ids renamed. Entries stay where they are. -/
def renamed (ρ : Renaming) (g : Graph) : Graph :=
  { g with
    vars := g.vars.map (Variable.renamed ρ)
    ops := g.ops.map (Node.renamed ρ)
    operatorIndex := g.operatorIndex.map ρ.ops
    variableIndex := g.variableIndex.map ρ.vars
    inputs := g.inputs.map ρ.vars
    outputs := g.outputs.map ρ.vars }

end Graph

/-! ## Renamings that fix a graph -/

theorem map_eq_self {α : Type} {f : α → α} {xs : List α} (h : ∀ x ∈ xs, f x = x) :
    xs.map f = xs :=
  (List.map_congr_left h).trans xs.map_id

theorem Renaming.slots_eq_self {ρ : Renaming} {slots : List (String × VariableId)}
    (h : ∀ i ∈ slots.map Prod.snd, ρ.vars i = i) : ρ.slots slots = slots :=
  map_eq_self fun slot hslot => Prod.ext rfl (h slot.2 (List.mem_map_of_mem hslot))

theorem NameMap.map_eq_self {α : Type} {f : α → α} {m : NameMap α}
    (h : ∀ name value, m.find? name = some value → f value = value) : m.map f = m := by
  refine ext_find? fun name => ?_
  rw [find?_map]
  cases hname : m.find? name with
  | none => rfl
  | some value => rw [Option.map_some, h name value hname]

namespace Graph

variable {g : Graph} {ρ : Renaming}

/-- The renaming leaves all ids alone that resolve in the graph. -/
structure FixedBy (g : Graph) (ρ : Renaming) : Prop where
  vars : ∀ i v, g.findVariable i = some v → ρ.vars i = i
  ops : ∀ i n, g.findOperator i = some n → ρ.ops i = i

theorem FixedBy.variable (hfix : g.FixedBy ρ) (h : g.Ledger) (hfits : g.Fits) {v : Variable}
    (hv : v ∈ g.vars) : v.renamed ρ = v := by
  have hid : ρ.vars v.id = v.id := hfix.vars _ v (h.findVariable_id (Nat.le_of_lt hfits.1) hv)
  have hproducer : v.producer?.map ρ.ops = v.producer? := by
    cases hop : v.producer? with
    | none => rfl
    | some op =>
        obtain ⟨n, hn, -⟩ := h.producer_makes v hv op hop
        rw [Option.map_some, hfix.ops op n hn]
  have hconsumers : v.consumers.map ρ.ops = v.consumers := map_eq_self fun op hop => by
    obtain ⟨n, hn, -⟩ := h.consumer_reads v hv op hop
    exact hfix.ops op n hn
  rw [Variable.renamed, hid, hproducer, hconsumers]

/-- An operator that the renaming moves is no reader yet. -/
theorem FixedBy.not_mem_consumers (hfix : g.FixedBy ρ) (h : g.Ledger) {v : Variable}
    (hv : v ∈ g.vars) {op : OperatorId} (hmoved : ρ.ops op ≠ op) : op ∉ v.consumers := by
  intro hmem
  obtain ⟨n, hn, -⟩ := h.consumer_reads v hv op hmem
  exact hmoved (hfix.ops op n hn)

theorem FixedBy.operator (hfix : g.FixedBy ρ) (h : g.Ledger) (hfits : g.Fits) {n : Node}
    (hn : n ∈ g.ops) : n.renamed ρ = n := by
  have hid : ρ.ops n.id = n.id := hfix.ops _ n (h.findOperator_id (Nat.le_of_lt hfits.2) hn)
  have hinputs : ρ.slots n.inputs = n.inputs := Renaming.slots_eq_self fun i hi => by
    obtain ⟨v, hv, -⟩ := h.read_consumed n hn i hi
    exact hfix.vars i v hv
  have houtputs : ρ.slots n.outputs = n.outputs := Renaming.slots_eq_self fun i hi => by
    obtain ⟨v, hv, -⟩ := h.made_produced n hn i hi
    exact hfix.vars i v hv
  rw [Node.renamed, hid, hinputs, houtputs]

/-- **All ids in a graph resolve**, so a renaming that leaves these alone changes nothing. -/
theorem FixedBy.renamed_eq_self (hfix : g.FixedBy ρ) (h : g.Ledger) (hfits : g.Fits) :
    g.renamed ρ = g := by
  have hvars : g.vars.map (Variable.renamed ρ) = g.vars :=
    map_eq_self fun v hv => hfix.variable h hfits hv
  have hops : g.ops.map (Node.renamed ρ) = g.ops :=
    map_eq_self fun n hn => hfix.operator h hfits hn
  have hoperatorIndex : g.operatorIndex.map ρ.ops = g.operatorIndex :=
    NameMap.map_eq_self fun name i hi => by
      obtain ⟨n, hn, -⟩ := h.operator_entry name i hi
      exact hfix.ops i n hn
  have hvariableIndex : g.variableIndex.map ρ.vars = g.variableIndex :=
    NameMap.map_eq_self fun name i hi => by
      obtain ⟨v, hv, -⟩ := h.variable_entry name i hi
      exact hfix.vars i v hv
  have hinputs : g.inputs.map ρ.vars = g.inputs := map_eq_self fun i hi => by
    obtain ⟨v, hv, -⟩ := h.input_role i hi
    exact hfix.vars i v hv
  have houtputs : g.outputs.map ρ.vars = g.outputs := map_eq_self fun i hi => by
    obtain ⟨v, hv⟩ := h.output_found i hi
    exact hfix.vars i v hv
  rw [renamed, hvars, hops, hoperatorIndex, hvariableIndex, hinputs, houtputs]

end Graph

/-! ## Exchanging neighbours -/

/-- The exchange of the ids of two neighbours in the arena of variables, and of two in the arena of
    operators. -/
def Renaming.neighbours (home : GraphId) (m n : Nat) : Renaming where
  vars := Equiv.swap (Id.mint home m) (Id.mint home (m + 1))
  ops := Equiv.swap (Id.mint home n) (Id.mint home (n + 1))

section Neighbours

variable {home : GraphId} {m n : Nat}

theorem neighbours_vars_left :
    (Renaming.neighbours home m n).vars (Id.mint home m) = Id.mint home (m + 1) :=
  Equiv.swap_apply_left _ _

theorem neighbours_vars_right :
    (Renaming.neighbours home m n).vars (Id.mint home (m + 1)) = Id.mint home m :=
  Equiv.swap_apply_right _ _

theorem neighbours_ops_left :
    (Renaming.neighbours home m n).ops (Id.mint home n) = Id.mint home (n + 1) :=
  Equiv.swap_apply_left _ _

theorem neighbours_ops_right :
    (Renaming.neighbours home m n).ops (Id.mint home (n + 1)) = Id.mint home n :=
  Equiv.swap_apply_right _ _

/-- Neighbours have different ids, as long as there are ids. -/
theorem mint_ne_mint_succ {arena : Arena} (hlt : n + 1 < UInt32.size) :
    (Id.mint home n : Id arena) ≠ Id.mint home (n + 1) := by
  intro heq
  have hposition := congrArg Id.position heq
  rw [Id.position_mint_of_lt home (Nat.lt_of_succ_lt hlt), Id.position_mint_of_lt home hlt]
    at hposition
  omega

/-- An id that resolves is none of those to be given next. -/
theorem swap_mint_of_position_lt {arena : Arena} {i : Id arena} (hi : i.position < n)
    (hlt : n + 1 < UInt32.size) :
    Equiv.swap (Id.mint home n) (Id.mint home (n + 1)) i = i := by
  refine Equiv.swap_apply_of_ne_of_ne ?_ ?_ <;> rintro rfl
  · rw [Id.position_mint_of_lt home (Nat.lt_of_succ_lt hlt)] at hi
    omega
  · rw [Id.position_mint_of_lt home hlt] at hi
    omega

end Neighbours

/-- Exchanging ids that are still to be given changes none of those that resolve. -/
theorem Graph.fixedBy_neighbours {g : Graph} (hvars : g.vars.length + 1 < UInt32.size)
    (hops : g.ops.length + 1 < UInt32.size) :
    g.FixedBy (.neighbours g.id g.vars.length g.ops.length) where
  vars _ _ hi := swap_mint_of_position_lt
    (List.getElem?_eq_some_iff.mp (findVariable_eq_some_iff.mp hi).2).1 hvars
  ops _ _ hi := swap_mint_of_position_lt
    (List.getElem?_eq_some_iff.mp (findOperator_eq_some_iff.mp hi).2).1 hops

section ExchangeEnd

variable {α : Type} [DecidableEq α] {p q : α} {xs : List α}

/-- The list that ends in two entries the other way round, if it ends in them. -/
def exchangeEnd (p q : α) (xs : List α) : List α :=
  if [p, q] <:+ xs then xs.take (xs.length - 2) ++ [q, p] else xs

@[simp] theorem exchangeEnd_append (p q : α) (xs : List α) :
    exchangeEnd p q (xs ++ [p, q]) = xs ++ [q, p] := by
  rw [exchangeEnd, if_pos (List.suffix_append xs [p, q])]
  simp

theorem exchangeEnd_of_left_not_mem (h : p ∉ xs) : exchangeEnd p q xs = xs :=
  if_neg fun hend => h (hend.subset List.mem_cons_self)

theorem exchangeEnd_of_right_not_mem (h : q ∉ xs) : exchangeEnd p q xs = xs :=
  if_neg fun hend => h (hend.subset (List.mem_cons_of_mem p List.mem_cons_self))

end ExchangeEnd

/-- The variable with two readers the other way round, if they are the last ones. -/
def Variable.exchangeReaders (p q : OperatorId) (v : Variable) : Variable :=
  { v with consumers := exchangeEnd p q v.consumers }

/-- **The graph with two neighbours exchanged** in each arena, from the given positions on: their
    ids are exchanged everywhere, the entries change places, and where the two operators are the
    last readers of a variable, they change places there, too. -/
def Graph.exchanged (m n : Nat) (g : Graph) : Graph :=
  let moved := (g.renamed (.neighbours g.id m n)).editAll
    [.swapVariables m (m + 1), .swapOperators n (n + 1)]
  { moved with
    vars := moved.vars.map
      (Variable.exchangeReaders (Id.mint g.id (n + 1)) (Id.mint g.id n)) }

/-- Exchanging the last two entries. -/
theorem Edit.swap_append {α : Type} {xs : List α} {n : Nat} (h : xs.length = n) (x y : α) :
    swap (xs ++ [x, y]) n (n + 1) = xs ++ [y, x] := by
  subst h
  simp [swap]

end TensorGraph
