import Mathlib.Data.List.Nodup
import TensorGraph.Proofs.AppendOnly
import TensorGraph.Proofs.ListingText

/-!
# `TensorGraph.Proofs.ListingOrder` — **listings introduce what they mention**

A listing is put together from four views of a graph: its list of inputs, the constants of its
arena, its operators in topological order, its list of outputs. On graphs that calls have reached
the views fit together. Each variable is introduced by one line, and no line refers to a variable
that is not introduced above it.

## Contents
- **Introductions.** `Line.introducing` is the line that a variable's role asks for.
- **`Scoped` lines** refer only to what is known or introduced above.
- **Sections** of the listing of a graph with a `Ledger`, with the variables they introduce.
- **`Worded`**, what the lines say; **`Lists`**, what a listing is to its reader, and
  `listing_introduces_first`.
-/

namespace TensorGraph

namespace Line

/-! ## Introductions -/

/-- What a line starts with that introduces a variable of a role. -/
def heading : Variable.Role → String
  | .input => "  input "
  | .constant => "  const "
  | .intermediate => "    -> y="

/-- The line that introduces a variable. -/
def introducing (v : Variable) : Line :=
  match v.role with
  | .input => .input v
  | .constant => .constant v
  | .intermediate => .made "y" v

/-- The labels under which a line refers to variables. -/
def labels : Line → List String
  | operator _ labels => labels
  | output _ label => [label]
  | _ => []

/-- The operator that a line applies. -/
def operator? : Line → Option Node
  | operator n _ => some n
  | _ => none

/-- The graph output that a line is about. -/
def output? : Line → Option VariableId
  | output id _ => some id
  | _ => none

@[simp] theorem introduced?_introducing (v : Variable) :
    (introducing v).introduced? = some v := by
  unfold introducing
  split <;> rfl

@[simp] theorem mentioned_introducing (v : Variable) : (introducing v).mentioned = [] := by
  unfold introducing
  split <;> rfl

@[simp] theorem operator?_introducing (v : Variable) : (introducing v).operator? = none := by
  unfold introducing
  split <;> rfl

@[simp] theorem output?_introducing (v : Variable) : (introducing v).output? = none := by
  unfold introducing
  split <;> rfl

@[simp] theorem labels_introducing (v : Variable) : (introducing v).labels = [] := by
  unfold introducing
  split <;> rfl

/-- A variable is introduced by its label, order and extents. -/
theorem text_introducing (v : Variable) :
    (introducing v).text = heading v.role ++ declaration v := by
  unfold introducing
  split <;> rename_i hrole <;> rw [hrole] <;> simp [text, heading, ToString.toString]

end Line

namespace Graph

open Line

variable {g : Graph}

/-! ## Scoped lines -/

/-- Each line refers only to variables that are known or that a line above introduces. -/
def Scoped (g : Graph) : List Variable → List Line → Prop
  | _, [] => True
  | known, l :: ls =>
    (∀ i ∈ l.mentioned, ∃ v ∈ known, g.findVariable i = some v) ∧
      g.Scoped (known ++ l.introduced?.toList) ls

theorem filterMap_introduced?_cons (l : Line) (ls : List Line) :
    (l :: ls).filterMap introduced? = l.introduced?.toList ++ ls.filterMap introduced? := by
  cases h : l.introduced? <;> simp [h]

theorem scoped_append {known : List Variable} {ls ms : List Line} :
    g.Scoped known (ls ++ ms) ↔
      g.Scoped known ls ∧ g.Scoped (known ++ ls.filterMap introduced?) ms := by
  induction ls generalizing known with
  | nil => simp [Scoped]
  | cons l ls ih =>
      rw [List.cons_append, Scoped, Scoped, ih, filterMap_introduced?_cons, List.append_assoc,
        and_assoc]

theorem Scoped.mono {known more : List Variable} {ls : List Line} (h : g.Scoped known ls)
    (hsub : known ⊆ more) : g.Scoped more ls := by
  induction ls generalizing known more with
  | nil => trivial
  | cons l ls ih =>
      obtain ⟨hl, hls⟩ := h
      have happend : known ++ l.introduced?.toList ⊆ more ++ l.introduced?.toList := fun v hv =>
        (List.mem_append.mp hv).elim (fun hv => List.mem_append_left _ (hsub hv))
          (List.mem_append_right _)
      refine ⟨fun i hi => ?_, ih hls happend⟩
      obtain ⟨v, hv, hfound⟩ := hl i hi
      exact ⟨v, hsub hv, hfound⟩

/-- Lines that refer to what is known are scoped. -/
theorem scoped_of_known {known : List Variable} {ls : List Line}
    (h : ∀ l ∈ ls, ∀ i ∈ l.mentioned, ∃ v ∈ known, g.findVariable i = some v) :
    g.Scoped known ls := by
  induction ls generalizing known with
  | nil => trivial
  | cons l ls ih =>
      refine ⟨h l List.mem_cons_self, ?_⟩
      have hrest : g.Scoped known ls := ih fun m hm => h m (List.mem_cons_of_mem _ hm)
      exact hrest.mono (List.subset_append_left _ _)

/-- Lines that refer to nothing are scoped. -/
theorem scoped_of_mentioned_eq_nil {known : List Variable} {ls : List Line}
    (h : ∀ l ∈ ls, l.mentioned = []) : g.Scoped known ls := by
  refine scoped_of_known fun l hl i hi => ?_
  rw [h l hl] at hi
  cases hi

/-- **What a scoped line refers to** was known or is introduced above. -/
theorem Scoped.introduced_above {known : List Variable} {ls : List Line} (h : g.Scoped known ls)
    {k : Nat} {l : Line} (hl : ls[k]? = some l) {i : VariableId} (hi : i ∈ l.mentioned) :
    ∃ v, g.findVariable i = some v ∧
      (v ∈ known ∨ ∃ j < k, ∃ m, ls[j]? = some m ∧ m.introduced? = some v) := by
  induction ls generalizing known k with
  | nil => cases hl
  | cons first ls ih =>
      obtain ⟨hfirst, hrest⟩ := h
      cases k with
      | zero =>
          cases hl
          obtain ⟨v, hv, hfound⟩ := hfirst i hi
          exact ⟨v, hfound, Or.inl hv⟩
      | succ k =>
          obtain ⟨v, hfound, hv | ⟨j, hj, m, hm, hmv⟩⟩ := ih hrest hl
          · rcases List.mem_append.mp hv with hknown | hnew
            · exact ⟨v, hfound, Or.inl hknown⟩
            · exact ⟨v, hfound, Or.inr ⟨0, Nat.succ_pos k, first, rfl, Option.mem_toList.mp hnew⟩⟩
          · exact ⟨v, hfound, Or.inr ⟨j + 1, Nat.succ_lt_succ hj, m, hm, hmv⟩⟩

/-- Where the values of the entries that have one are different, one value stands at one place. -/
theorem index_eq_of_nodup_filterMap {α β : Type} {f : α → Option β} {xs : List α}
    (h : (xs.filterMap f).Nodup) {j k : Nat} {x y : α} {b : β} (hj : xs[j]? = some x)
    (hk : xs[k]? = some y) (hx : f x = some b) (hy : f y = some b) : j = k := by
  have hpairs := List.pairwise_iff_getElem.mp (List.pairwise_filterMap.mp h)
  obtain ⟨hjlt, rfl⟩ := List.getElem?_eq_some_iff.mp hj
  obtain ⟨hklt, rfl⟩ := List.getElem?_eq_some_iff.mp hk
  rcases Nat.lt_trichotomy j k with hlt | heq | hgt
  · exact absurd rfl (hpairs j k hjlt hklt hlt b hx b hy)
  · exact heq
  · exact absurd rfl (hpairs k j hklt hjlt hgt b hy b hx)

/-! ## Sections -/

/-- Ids of variables are different as long as there are ids for all. -/
theorem Minted.nodup_variables (hg : g.Minted) (hlen : g.vars.length ≤ UInt32.size) :
    g.vars.Nodup := by
  rw [List.Nodup, List.pairwise_iff_getElem]
  intro i j hi hj hij hsame
  have hid : (Id.mint g.id i : VariableId) = Id.mint g.id j := by
    rw [← hg.variable_id i _ (List.getElem?_eq_getElem hi),
      ← hg.variable_id j _ (List.getElem?_eq_getElem hj), hsame]
  have hpos := congrArg Id.position hid
  rw [Id.position_mint_of_lt _ (Nat.lt_of_lt_of_le hi hlen),
    Id.position_mint_of_lt _ (Nat.lt_of_lt_of_le hj hlen)] at hpos
  omega

@[simp] theorem filterMap_map_introducing (vs : List Variable) :
    (vs.map introducing).filterMap introduced? = vs := by
  rw [List.filterMap_map]
  exact (List.filterMap_congr fun v _ => introduced?_introducing v).trans List.filterMap_some

/-- Lines that introduce variables have nothing else to them. -/
theorem filterMap_map_introducing_eq_nil {β : Type} {f : Line → Option β}
    (h : ∀ v, f (introducing v) = none) (vs : List Variable) :
    (vs.map introducing).filterMap f = [] := by
  rw [List.filterMap_map, List.filterMap_eq_nil_iff]
  exact fun v _ => h v

/-- The variables that are introduced as such, ahead of all operators. -/
def givens (g : Graph) : List Variable := g.vars.filter Variable.isInput ++ g.constants

/-- What an operator makes, as far as it resolves. -/
def products (g : Graph) (n : Node) : List Variable := n.makes.filterMap g.findVariable

namespace Ledger

theorem declarationLines_eq (h : g.Ledger) (hfits : g.Fits) :
    g.declarationLines = g.givens.map introducing := by
  have hinputs : g.inputs.filterMap g.findVariable = g.vars.filter Variable.isInput := by
    rw [h.inputs_eq, List.filterMap_map]
    refine (List.filterMap_congr fun v hv => ?_).trans List.filterMap_some
    exact h.findVariable_id (Nat.le_of_lt hfits.1) (List.mem_filter.mp hv).1
  rw [declarationLines, hinputs, givens, List.map_append]
  congr 1
  · refine List.map_congr_left fun v hv => ?_
    have hrole : v.role = .input := eq_of_beq (List.mem_filter.mp hv).2
    rw [introducing, hrole]
  · refine List.map_congr_left fun v hv => ?_
    have hrole : v.role = .constant := eq_of_beq (List.mem_filter.mp hv).2
    rw [introducing, hrole]

/-- **An operator's lines**: its application, then the introduction of what it makes. -/
theorem operatorLines_eq (h : g.Ledger) {n : Node} (hn : n ∈ g.ops) :
    ∃ v, n.outputs = [("y", v.id)] ∧ g.products n = [v] ∧ v.producer? = some n.id ∧
      v.role = .intermediate ∧ g.operatorLines n =
        [.operator n (n.reads.map g.label), introducing v] := by
  have hslots : n.outputs.map Prod.fst = ["y"] := h.output_slots n hn
  obtain ⟨⟨slot, i⟩, houtputs, rfl⟩ := List.map_eq_singleton_iff.mp hslots
  have hmakes : n.makes = [i] := by simp [Node.makes, houtputs]
  obtain ⟨v, hfound, hproducer⟩ := h.made_produced n hn i (by simp [hmakes])
  have hrole := (h.intermediate_iff v (mem_vars_of_findVariable hfound)).mpr ⟨_, hproducer⟩
  have hid : v.id = i := h.id_of_findVariable hfound
  refine ⟨v, by rw [houtputs, hid], ?_, hproducer, hrole, ?_⟩
  · simp [products, hmakes, hfound]
  · simp [operatorLines, madeLine, houtputs, hfound, introducing, hrole]

/-- Operators are listed as they stand in the arena. -/
theorem applicationLines_eq (h : g.Ledger) (hfits : g.Fits) :
    g.applicationLines = g.ops.flatMap g.operatorLines := by
  rw [applicationLines, h.topologicalOrder_eq hfits, List.filterMap_map]
  congr 1
  refine (List.filterMap_congr fun n hn => ?_).trans List.filterMap_some
  exact h.findOperator_id (Nat.le_of_lt hfits.2) hn

theorem introduced_operatorLines (h : g.Ledger) {n : Node} (hn : n ∈ g.ops) :
    (g.operatorLines n).filterMap introduced? = g.products n := by
  obtain ⟨v, -, hproducts, -, -, hlines⟩ := h.operatorLines_eq hn
  rw [hlines, hproducts, filterMap_introduced?_cons, filterMap_introduced?_cons,
    introduced?_introducing]
  rfl

theorem operators_operatorLines (h : g.Ledger) {n : Node} (hn : n ∈ g.ops) :
    (g.operatorLines n).filterMap operator? = [n] := by
  obtain ⟨v, -, -, -, hrole, hlines⟩ := h.operatorLines_eq hn
  rw [hlines, introducing, hrole]
  rfl

/-- Some of the operators introduce what they make. -/
theorem introduced_flatMap (h : g.Ledger) {ns : List Node} (hns : ns ⊆ g.ops) :
    (ns.flatMap g.operatorLines).filterMap introduced? = ns.flatMap g.products := by
  rw [List.filterMap_flatMap]
  exact List.flatMap_congr fun n hn => h.introduced_operatorLines (hns hn)

end Ledger

/-- What frames the sections of a listing adds nothing to what only sections have. -/
theorem filterMap_listingLines {β : Type} {f : Line → Option β} (htitle : f (.title g.name) = none)
    (hblank : f .blank = none) (hopening : f (.opening g.name) = none)
    (hclosing : f .closing = none) :
    g.listingLines.filterMap f = g.declarationLines.filterMap f ++
      g.applicationLines.filterMap f ++ g.outputLines.filterMap f := by
  have hspace : ∀ (p : Prop) [Decidable p], (if p then [Line.blank] else []).filterMap f = [] := by
    intro p _
    split <;> simp [hblank]
  simp [listingLines, hspace, htitle, hblank, hopening, hclosing]

theorem isInfix_applicationLines (g : Graph) : g.applicationLines <:+: g.listingLines :=
  ((List.infix_append _ _ _).trans (List.prefix_append _ _).isInfix).trans
    (List.prefix_append _ _).isInfix

/-- Lines of outputs introduce and apply nothing. -/
theorem filterMap_outputLines {β : Type} {f : Line → Option β}
    (h : ∀ i label, f (.output i label) = none) : g.outputLines.filterMap f = [] := by
  rw [outputLines, List.filterMap_map, List.filterMap_eq_nil_iff]
  exact fun _ _ => h _ _

namespace Ledger

/-- **What a listing introduces**, in its order. -/
theorem introduced_listingLines (h : g.Ledger) (hfits : g.Fits) :
    g.listingLines.filterMap introduced? = g.givens ++ g.ops.flatMap g.products := by
  rw [filterMap_listingLines rfl rfl rfl rfl, filterMap_outputLines fun _ _ => rfl,
    h.declarationLines_eq hfits, h.applicationLines_eq hfits,
    h.introduced_flatMap (List.Subset.refl _), filterMap_map_introducing, List.append_nil]

/-- **What a listing applies**, in its order. -/
theorem operators_listingLines (h : g.Ledger) (hfits : g.Fits) :
    g.listingLines.filterMap operator? = g.ops := by
  have hops : (g.ops.flatMap g.operatorLines).filterMap operator? = g.ops := by
    rw [List.filterMap_flatMap]
    refine (List.flatMap_congr fun n hn => h.operators_operatorLines hn).trans ?_
    exact List.flatMap_singleton' g.ops
  rw [filterMap_listingLines rfl rfl rfl rfl, filterMap_outputLines fun _ _ => rfl,
    h.declarationLines_eq hfits, h.applicationLines_eq hfits, hops,
    filterMap_map_introducing_eq_nil operator?_introducing, List.append_nil, List.nil_append]

/-- **What a listing gives out**, in the order in which the outputs were marked. -/
theorem outputs_listingLines (h : g.Ledger) (hfits : g.Fits) :
    g.listingLines.filterMap output? = g.outputs := by
  have happlied : (g.ops.flatMap g.operatorLines).filterMap output? = [] := by
    rw [List.filterMap_flatMap, List.flatMap_eq_nil_iff]
    intro n hn
    obtain ⟨v, -, -, -, -, hlines⟩ := h.operatorLines_eq hn
    rw [hlines, List.filterMap_cons_none rfl, List.filterMap_cons_none (output?_introducing v),
      List.filterMap_nil]
  have houtputs : g.outputLines.filterMap output? = g.outputs := by
    rw [outputLines, List.filterMap_map]
    exact List.filterMap_some
  rw [filterMap_listingLines rfl rfl rfl rfl, h.declarationLines_eq hfits,
    h.applicationLines_eq hfits, happlied, houtputs,
    filterMap_map_introducing_eq_nil output?_introducing, List.nil_append, List.nil_append]

/-! ## Each variable and each operator once -/

theorem mem_products_iff (h : g.Ledger) (hfits : g.Fits) {n : Node} (hn : n ∈ g.ops)
    {v : Variable} (hv : v ∈ g.vars) : v ∈ g.products n ↔ v.producer? = some n.id := by
  obtain ⟨w, -, hproducts, hproducer, -⟩ := h.operatorLines_eq hn
  rw [hproducts, List.mem_singleton]
  constructor
  · rintro rfl
    exact hproducer
  · intro hsame
    have hintermediate := (h.intermediate_iff v hv).mpr ⟨_, hsame⟩
    obtain ⟨m, hm, hmid, -, hmakes⟩ := h.made_by_producer hfits hv hintermediate
    have hmn : m = n := by
      refine h.operator_eq_of_id_eq (Nat.le_of_lt hfits.2) hm hn ?_
      exact Option.some.inj (hmid.symm.trans hsame)
    have hmade : v ∈ g.products n := by
      refine List.mem_filterMap.mpr ⟨v.id, (hmakes n hn).mpr hmn.symm, ?_⟩
      exact h.findVariable_id (Nat.le_of_lt hfits.1) hv
    rw [hproducts] at hmade
    exact List.mem_singleton.mp hmade

theorem products_subset_vars (n : Node) : g.products n ⊆ g.vars := by
  intro v hv
  obtain ⟨i, -, hfound⟩ := List.mem_filterMap.mp hv
  exact mem_vars_of_findVariable hfound

theorem mem_givens_iff {v : Variable} :
    v ∈ g.givens ↔ v ∈ g.vars ∧ v.role ≠ .intermediate := by
  simp only [givens, constants, List.mem_append, List.mem_filter, Variable.isInput, beq_iff_eq,
    ← and_or_left]
  cases v.role <;> simp

/-- The introductions are those of all variables. -/
theorem mem_introduced_iff (h : g.Ledger) (hfits : g.Fits) {v : Variable} :
    v ∈ g.givens ++ g.ops.flatMap g.products ↔ v ∈ g.vars := by
  rw [List.mem_append, mem_givens_iff, List.mem_flatMap]
  constructor
  · rintro (⟨hv, -⟩ | ⟨n, -, hv⟩)
    · exact hv
    · exact products_subset_vars n hv
  · intro hv
    by_cases hrole : v.role = .intermediate
    · obtain ⟨n, hn, hproducer, -⟩ := h.made_by_producer hfits hv hrole
      exact Or.inr ⟨n, hn, (h.mem_products_iff hfits hn hv).mpr hproducer⟩
    · exact Or.inl ⟨hv, hrole⟩

theorem nodup_ops (h : g.Ledger) (hfits : g.Fits) : g.ops.Nodup :=
  List.Nodup.of_map Node.id (h.mirrored (Nat.le_of_lt hfits.2)).nodup_ids

theorem nodup_introduced (h : g.Ledger) (hfits : g.Fits) :
    (g.givens ++ g.ops.flatMap g.products).Nodup := by
  have hvars : g.vars.Nodup := h.nodup_variables (Nat.le_of_lt hfits.1)
  have hgivens : g.givens.Nodup := by
    refine List.nodup_append.mpr ⟨hvars.filter _, hvars.filter _, ?_⟩
    rintro v hv w hw rfl
    have hinput : v.role = .input := eq_of_beq (List.mem_filter.mp hv).2
    have hconstant : v.role = .constant := eq_of_beq (List.mem_filter.mp hw).2
    rw [hinput] at hconstant
    cases hconstant
  have hproducts : (g.ops.flatMap g.products).Nodup := by
    refine List.nodup_flatMap.mpr ⟨fun n hn => ?_, ?_⟩
    · obtain ⟨v, -, hv, -⟩ := h.operatorLines_eq hn
      rw [hv]
      exact List.nodup_singleton v
    · -- What two operators made would name both as its producer.
      refine (h.nodup_ops hfits).imp_of_mem fun {m n} hm hn hne v hvm hvn => hne ?_
      have hv := products_subset_vars m hvm
      have hproducer := (h.mem_products_iff hfits hm hv).mp hvm
      rw [(h.mem_products_iff hfits hn hv).mp hvn] at hproducer
      refine h.operator_eq_of_id_eq (Nat.le_of_lt hfits.2) hm hn ?_
      exact (Option.some.inj hproducer).symm
  refine List.nodup_append.mpr ⟨hgivens, hproducts, ?_⟩
  rintro v hv w hw rfl
  obtain ⟨hmem, hrole⟩ := mem_givens_iff.mp hv
  obtain ⟨n, hn, hmade⟩ := List.mem_flatMap.mp hw
  exact hrole ((h.intermediate_iff v hmem).mpr ⟨_, (h.mem_products_iff hfits hn hmem).mp hmade⟩)

theorem isInfix_operatorLines (h : g.Ledger) (hfits : g.Fits) {n : Node} (hn : n ∈ g.ops) :
    g.operatorLines n <:+: g.applicationLines := by
  obtain ⟨before, after, hops⟩ := List.append_of_mem hn
  refine ⟨before.flatMap g.operatorLines, after.flatMap g.operatorLines, ?_⟩
  rw [h.applicationLines_eq hfits, hops, List.flatMap_append, List.flatMap_cons, List.append_assoc]

/-- The lines of an operator stand together. -/
theorem exists_index_operator (h : g.Ledger) (hfits : g.Fits) {n : Node} (hn : n ∈ g.ops) :
    ∃ k v, n.outputs = [("y", v.id)] ∧ g.products n = [v] ∧ v.producer? = some n.id ∧
      v.role = .intermediate ∧ g.listingLines[k]? = some (.operator n (n.reads.map g.label)) ∧
        g.listingLines[k + 1]? = some (introducing v) := by
  obtain ⟨v, houtputs, hproducts, hproducer, hrole, hlines⟩ := h.operatorLines_eq hn
  have hinfix : g.operatorLines n <:+: g.listingLines :=
    (h.isInfix_operatorLines hfits hn).trans (isInfix_applicationLines g)
  obtain ⟨above, below, hlisting⟩ := hinfix
  rw [hlines, List.append_assoc] at hlisting
  refine ⟨above.length, v, houtputs, hproducts, hproducer, hrole, ?_, ?_⟩
  · rw [← hlisting]
    simp
  · rw [← hlisting]
    simp

/-! ## Nothing before its introduction -/

/-- What an operator reads is given or made by operators before it. -/
theorem reads_introduced (h : g.Ledger) (hfits : g.Fits) {k : Nat} {n : Node}
    (hk : g.ops[k]? = some n) {i : VariableId} (hi : i ∈ n.reads) :
    ∃ v ∈ g.givens ++ (g.ops.take k).flatMap g.products, g.findVariable i = some v := by
  have hn : n ∈ g.ops := List.mem_of_getElem? hk
  obtain ⟨v, hfound⟩ := h.found_of_mem_reads hn hi
  have hv : v ∈ g.vars := mem_vars_of_findVariable hfound
  refine ⟨v, ?_, hfound⟩
  by_cases hrole : v.role = .intermediate
  · obtain ⟨m, hm, hproducer, -⟩ := h.made_by_producer hfits hv hrole
    have hbefore : m.id < n.id :=
      h.predecessor_before n hn m.id (mem_predecessors.mpr ⟨i, hi, v, hfound, hproducer⟩)
    obtain ⟨j, hj⟩ := List.mem_iff_getElem?.mp hm
    have hjlt : j < g.ops.length := (List.getElem?_eq_some_iff.mp hj).1
    have hklt : k < g.ops.length := (List.getElem?_eq_some_iff.mp hk).1
    rw [h.operator_id j m hj, h.operator_id k n hk, Id.lt_def,
      Id.position_mint_of_lt _ (Nat.lt_trans hjlt hfits.2),
      Id.position_mint_of_lt _ (Nat.lt_trans hklt hfits.2)] at hbefore
    have hjk : j < k := by
      rcases hbefore with hgraph | ⟨-, hposition⟩
      · exact absurd hgraph (Nat.lt_irrefl _)
      · exact hposition
    refine List.mem_append_right _ (List.mem_flatMap.mpr ⟨m, ?_, ?_⟩)
    · exact List.mem_of_getElem? (i := j) ((List.getElem?_take_of_lt hjk).trans hj)
    · exact (h.mem_products_iff hfits hm hv).mpr hproducer
  · exact List.mem_append_left _ (mem_givens_iff.mpr ⟨hv, hrole⟩)

/-- **Operators are scoped** once the inputs and constants are known. -/
theorem scoped_take (h : g.Ledger) (hfits : g.Fits) (k : Nat) :
    g.Scoped g.givens ((g.ops.take k).flatMap g.operatorLines) := by
  induction k with
  | zero => trivial
  | succ k ih =>
      rw [List.take_add_one, List.flatMap_append, scoped_append,
        h.introduced_flatMap (List.take_subset _ _)]
      refine ⟨ih, ?_⟩
      cases hk : g.ops[k]? with
      | none => trivial
      | some n =>
          obtain ⟨v, -, -, -, -, hlines⟩ := h.operatorLines_eq (List.mem_of_getElem? hk)
          rw [Option.toList_some, List.flatMap_singleton, hlines]
          refine ⟨fun i hi => h.reads_introduced hfits hk hi, ?_⟩
          exact scoped_of_mentioned_eq_nil (by simp)

theorem scoped_applicationLines (h : g.Ledger) (hfits : g.Fits) :
    g.Scoped g.givens g.applicationLines := by
  rw [h.applicationLines_eq hfits, ← List.take_length (l := g.ops)]
  exact h.scoped_take hfits _

theorem scoped_outputLines (h : g.Ledger) : g.Scoped g.vars g.outputLines := by
  refine scoped_of_known fun l hl i hi => ?_
  obtain ⟨o, ho, rfl⟩ := List.mem_map.mp hl
  have hio : i = o := List.mem_singleton.mp hi
  obtain ⟨v, hv⟩ := h.output_found o ho
  exact ⟨v, mem_vars_of_findVariable hv, hio ▸ hv⟩

theorem introduced_declarationLines (h : g.Ledger) (hfits : g.Fits) :
    g.declarationLines.filterMap introduced? = g.givens := by
  rw [h.declarationLines_eq hfits, filterMap_map_introducing]

theorem introduced_applicationLines (h : g.Ledger) (hfits : g.Fits) :
    g.applicationLines.filterMap introduced? = g.ops.flatMap g.products := by
  rw [h.applicationLines_eq hfits, h.introduced_flatMap (List.Subset.refl _)]

/-- **The whole listing is scoped.** -/
theorem scoped_listingLines (h : g.Ledger) (hfits : g.Fits) : g.Scoped [] g.listingLines := by
  have hspace : ∀ (p : Prop) [Decidable p] (known : List Variable),
      g.Scoped known (if p then [Line.blank] else []) := by
    intro p _ known
    split
    · exact scoped_of_mentioned_eq_nil (by simp [mentioned])
    · trivial
  have hframe : ∀ known, g.Scoped known [.title g.name, .blank, .opening g.name] := by
    intro known
    exact scoped_of_mentioned_eq_nil (by simp [mentioned])
  have hdeclarations : ∀ known, g.Scoped known g.declarationLines := by
    intro known
    rw [h.declarationLines_eq hfits]
    exact scoped_of_mentioned_eq_nil (by simp)
  have hclosing : ∀ known, g.Scoped known [.closing] := by
    intro known
    exact scoped_of_mentioned_eq_nil (by simp [mentioned])
  unfold listingLines
  -- Operators need what is declared above them, outputs all that is introduced above them.
  refine scoped_append.mpr ⟨scoped_append.mpr ⟨scoped_append.mpr ⟨scoped_append.mpr
    ⟨scoped_append.mpr ⟨scoped_append.mpr ⟨hframe _, hdeclarations _⟩, hspace _ _⟩, ?_⟩,
    hspace _ _⟩, ?_⟩, hclosing _⟩
  · refine (h.scoped_applicationLines hfits).mono fun v hv => ?_
    simp only [List.filterMap_append, h.introduced_declarationLines hfits, List.mem_append]
    exact Or.inr (Or.inl (Or.inr hv))
  · refine h.scoped_outputLines.mono fun v hv => ?_
    have hmem := (h.mem_introduced_iff hfits).mpr hv
    simp only [List.filterMap_append, h.introduced_declarationLines hfits,
      h.introduced_applicationLines hfits, List.mem_append] at hmem ⊢
    tauto

end Ledger

/-! ## What a listing is to its reader -/

/-- **The lines that a listing of a graph may have, and what they say**: names, labels, letters of
    axes and numbers, between fixed words. -/
inductive Worded (g : Graph) : Line → String → Prop
  | title : g.Worded (.title g.name) ("// graph: " ++ g.name)
  | blank : g.Worded .blank ""
  | opening : g.Worded (.opening g.name) ("graph " ++ g.name ++ " \x7b")
  /-- The role of a variable, its name or number, the letters of its order, and the extent of each
      axis. -/
  | introducing (v : Variable) : g.Worded (.introducing v)
      (heading v.role ++ v.name?.getD ("%v" ++ toString v.id.position) ++ ": " ++
        String.ofList (v.shape.order.axes.map Axis.letter) ++ " " ++
        "\x7b" ++ ", ".intercalate ((v.shape.order.axes.zip v.shape.dims).map fun e =>
          e.1.letter.toString ++ ":" ++ toString e.2) ++ "\x7d")
  /-- The name of an operator, its kind, the labels of what its slots read, and its parameters. -/
  | operator (n : Node) (hn : n ∈ g.ops) : g.Worded (.operator n (n.reads.map g.label))
      ("  " ++ n.name ++ " = " ++ n.kind.name ++ "(" ++
        ", ".intercalate (n.inputs.map fun r => r.1 ++ "=" ++ g.label r.2) ++ ")" ++
        (if n.params.toAttributes.entries = [] then ""
          else " \x7b " ++ ", ".intercalate (n.params.toAttributes.entries.map fun e =>
            e.1 ++ "=" ++ e.2.spelling) ++ " \x7d"))
  | output (i : VariableId) : g.Worded (.output i (g.label i)) ("  output " ++ g.label i)
  | closing : g.Worded .closing "\x7d"

theorem worded_introducing (v : Variable) :
    g.Worded (.introducing v) (Line.introducing v).text := by
  have htext := text_introducing v
  rw [declaration_eq, Variable.label_eq] at htext
  simp only [← String.append_assoc] at htext
  rw [htext]
  exact .introducing v

theorem worded_operator {n : Node} (hn : n ∈ g.ops) :
    g.Worded (.operator n (n.reads.map g.label)) (Line.operator n (n.reads.map g.label)).text := by
  rw [text, application_eq]
  simp only [← String.append_assoc]
  exact .operator n hn

theorem Ledger.worded (h : g.Ledger) (hfits : g.Fits) {l : Line} (hl : l ∈ g.listingLines) :
    g.Worded l l.text := by
  have hspace : ∀ (p : Prop) [Decidable p], l ∈ (if p then [Line.blank] else []) → l = .blank := by
    intro p _ hmem
    split at hmem
    · exact List.mem_singleton.mp hmem
    · cases hmem
  unfold listingLines at hl
  simp only [List.mem_append] at hl
  rcases hl with (((((hframe | hdeclared) | hblank) | happlied) | hblank) | houtput) | hclosing
  · simp only [List.mem_cons, List.not_mem_nil, or_false] at hframe
    rcases hframe with rfl | rfl | rfl
    · exact .title
    · exact .blank
    · exact .opening
  · rw [h.declarationLines_eq hfits] at hdeclared
    obtain ⟨v, -, rfl⟩ := List.mem_map.mp hdeclared
    exact worded_introducing v
  · rw [hspace _ hblank]
    exact .blank
  · rw [h.applicationLines_eq hfits] at happlied
    obtain ⟨n, hn, hln⟩ := List.mem_flatMap.mp happlied
    obtain ⟨v, -, -, -, -, hlines⟩ := h.operatorLines_eq hn
    simp only [hlines, List.mem_cons, List.not_mem_nil, or_false] at hln
    rcases hln with rfl | rfl
    · exact worded_operator hn
    · exact worded_introducing v
  · rw [hspace _ hblank]
    exact .blank
  · obtain ⟨i, -, rfl⟩ := List.mem_map.mp houtput
    exact .output i
  · rw [List.mem_singleton.mp hclosing]
    exact .closing

/-- **What the lines of a listing are to its reader.** -/
structure Lists (g : Graph) (lines : List Line) : Prop where
  /-- Each variable has one line that introduces it, of the kind that its role asks for. -/
  introduced_once : ∀ v ∈ g.vars, ∃! k : Nat, lines[k]? = some (.introducing v)
  /-- What a line introduces is a variable of the graph as it is now, with its order and shape. -/
  introduces : ∀ l ∈ lines, ∀ v, l.introduced? = some v → v ∈ g.vars ∧ l = .introducing v
  /-- Lines say what they are about: a variable its label, order and extents, an operator its name,
      kind, arguments and parameters, an output its label. -/
  worded : ∀ l ∈ lines, g.Worded l l.text
  /-- Each operator has one line that applies it. -/
  applied_once : ∀ n ∈ g.ops, ∃! k : Nat, ∃ labels, lines[k]? = some (.operator n labels)
  /-- The line below introduces what the operator makes. -/
  output_below : ∀ (k : Nat) n labels, lines[k]? = some (.operator n labels) →
    n ∈ g.ops ∧ ∃ v, n.outputs = [("y", v.id)] ∧ v.role = .intermediate ∧
      v.producer? = some n.id ∧ lines[k + 1]? = some (.introducing v)
  /-- Intermediates are introduced right below their producers. -/
  below_producer : ∀ v ∈ g.vars, v.role = .intermediate →
    ∃ (k : Nat) (n : Node) (labels : List String), v.producer? = some n.id ∧
      lines[k]? = some (.operator n labels) ∧ lines[k + 1]? = some (.introducing v)
  /-- What a line refers to is introduced above it, as it is now and under the same label. -/
  introduced_above : ∀ (k : Nat) (l : Line), lines[k]? = some l → ∀ i ∈ l.mentioned,
    ∃ v, g.findVariable i = some v ∧ g.label i = v.label ∧
      ∃ j < k, lines[j]? = some (.introducing v)
  /-- Lines refer to variables by the labels under which these are introduced. -/
  labels_eq : ∀ l ∈ lines, l.labels = l.mentioned.map g.label
  /-- The graph outputs have a line each, in the order in which they were marked. -/
  outputs_eq : lines.filterMap output? = g.outputs
  /-- No output slot is left without its variable. -/
  resolved : ∀ l ∈ lines, ∀ slot i, l ≠ .unresolved slot i

theorem Worded.eq_introducing {l : Line} {t : String} (h : g.Worded l t) {v : Variable}
    (hv : l.introduced? = some v) : l = .introducing v := by
  cases h with
  | title => cases hv
  | blank => cases hv
  | opening => cases hv
  | introducing w =>
      rw [introduced?_introducing] at hv
      rw [Option.some.inj hv]
  | operator n hn => cases hv
  | output i => cases hv
  | closing => cases hv

theorem Worded.labels_eq {l : Line} {t : String} (h : g.Worded l t) :
    l.labels = l.mentioned.map g.label := by
  cases h with
  | introducing v => simp
  | title | blank | opening | operator n hn | output i | closing => rfl

theorem Worded.ne_unresolved {l : Line} {t : String} (h : g.Worded l t) (slot : String)
    (i : VariableId) : l ≠ .unresolved slot i := by
  cases h with
  | introducing v =>
      unfold Line.introducing
      split <;> exact nofun
  | title | blank | opening | operator n hn | output i | closing => exact nofun

/-- An operator has one place, and what it makes is introduced at the next. -/
theorem Ledger.output_below (h : g.Ledger) (hfits : g.Fits) {k : Nat} {n : Node}
    {labels : List String} (hk : g.listingLines[k]? = some (.operator n labels)) :
    n ∈ g.ops ∧ ∃ v, n.outputs = [("y", v.id)] ∧ v.role = .intermediate ∧
      v.producer? = some n.id ∧ g.listingLines[k + 1]? = some (.introducing v) := by
  have hoperators := h.operators_listingLines hfits
  have hn : n ∈ g.ops := by
    rw [← hoperators]
    exact List.mem_filterMap.mpr ⟨_, List.mem_of_getElem? hk, rfl⟩
  obtain ⟨j, v, houtputs, -, hproducer, hrole, hj, hnext⟩ := h.exists_index_operator hfits hn
  have hjk : j = k := by
    refine index_eq_of_nodup_filterMap (f := operator?) ?_ hj hk rfl rfl
    rw [hoperators]
    exact h.nodup_ops hfits
  rw [← hjk]
  exact ⟨hn, v, houtputs, hrole, hproducer, hnext⟩

/-- **The listing of a graph with a ledger** introduces everything once and before use. -/
theorem Ledger.lists (h : g.Ledger) (hfits : g.Fits) : g.Lists g.listingLines := by
  have hintroduced := h.introduced_listingLines hfits
  have hoperators := h.operators_listingLines hfits
  have hworded : ∀ {k : Nat} {l : Line}, g.listingLines[k]? = some l → g.Worded l l.text :=
    fun hk => h.worded hfits (List.mem_of_getElem? hk)
  exact
    { introduced_once := by
        intro v hv
        rw [← h.mem_introduced_iff hfits, ← hintroduced] at hv
        obtain ⟨l, hl, hlv⟩ := List.mem_filterMap.mp hv
        obtain ⟨k, hk⟩ := List.mem_iff_getElem?.mp hl
        rw [(hworded hk).eq_introducing hlv] at hk
        refine ⟨k, hk, fun j hj => ?_⟩
        refine index_eq_of_nodup_filterMap (f := introduced?) ?_ hj hk
          (introduced?_introducing v) (introduced?_introducing v)
        rw [hintroduced]
        exact h.nodup_introduced hfits
      introduces := by
        intro l hl v hv
        have hline := (h.worded hfits hl).eq_introducing hv
        refine ⟨?_, hline⟩
        rw [← h.mem_introduced_iff hfits, ← hintroduced]
        exact List.mem_filterMap.mpr ⟨l, hl, hv⟩
      worded := fun l hl => h.worded hfits hl
      applied_once := by
        intro n hn
        obtain ⟨k, -, -, -, -, -, hk, -⟩ := h.exists_index_operator hfits hn
        refine ⟨k, ⟨_, hk⟩, ?_⟩
        rintro j ⟨labels, hj⟩
        refine index_eq_of_nodup_filterMap (f := operator?) ?_ hj hk rfl rfl
        rw [hoperators]
        exact h.nodup_ops hfits
      output_below := fun k n labels hk => h.output_below hfits hk
      below_producer := by
        intro v hv hrole
        obtain ⟨n, hn, hproducer, -⟩ := h.made_by_producer hfits hv hrole
        obtain ⟨k, w, -, hproducts, -, -, hk, hnext⟩ := h.exists_index_operator hfits hn
        have hmade : v ∈ g.products n := (h.mem_products_iff hfits hn hv).mpr hproducer
        rw [hproducts, List.mem_singleton] at hmade
        subst hmade
        exact ⟨k, n, _, hproducer, hk, hnext⟩
      introduced_above := by
        intro k l hk i hi
        obtain ⟨v, hfound, hv | ⟨j, hj, m, hm, hmv⟩⟩ :=
          (h.scoped_listingLines hfits).introduced_above hk hi
        · cases hv
        · refine ⟨v, hfound, by rw [label, hfound], j, hj, ?_⟩
          rw [hm, (hworded hm).eq_introducing hmv]
      labels_eq := fun l hl => (h.worded hfits hl).labels_eq
      outputs_eq := h.outputs_listingLines hfits
      resolved := fun l hl => (h.worded hfits hl).ne_unresolved }

/-- **Listings introduce everything once and before use.** What is written for a graph that calls
    have reached, with an id for each entry, are lines that say in words what they are about. Each
    variable has one that introduces it, each operator has one with its output right below, and no
    line refers to what is not introduced above it. -/
theorem listing_introduces_first (hreach : g.Reachable) (hfits : g.Fits) :
    g.listing = String.join (g.listingLines.map fun l => l.text ++ "\n") ∧
      g.Lists g.listingLines :=
  ⟨g.listing_eq, (hreach.ledger hfits).lists hfits⟩

/-- A constant that is read, one that is not, a chain with a refused call and two outputs. -/
def listedCalls : List Call :=
  [ .addConstant "shift" twoChannels,
    .addInput "x" twoChannels,
    .apply (.unnamed .elementwiseSum Params.valid_elementwiseSum) [⟨⟨0⟩, 1⟩, ⟨⟨0⟩, 0⟩],
    .addConstant "spare" threeChannels,
    .applyOne (.unnamed .elementwiseSum Params.valid_elementwiseSum) [⟨⟨0⟩, 2⟩, ⟨⟨0⟩, 3⟩],
    .applyOne (.unnamed (.activation .relu) (Params.valid_activation _)) [⟨⟨0⟩, 2⟩],
    .markOutput ⟨⟨0⟩, 4⟩,
    .markOutput ⟨⟨0⟩, 1⟩ ]

theorem listing_introduces_first_listed :
    let g := (empty ⟨0⟩ "listed").run listedCalls
    g.Reachable ∧ g.Fits ∧ g.Lists g.listingLines := by
  intro g
  have hreach : g.Reachable := ⟨⟨0⟩, "listed", {}, listedCalls, by decide, rfl⟩
  have hfits : g.Fits := ⟨by decide, by decide⟩
  exact ⟨hreach, hfits, (listing_introduces_first hreach hfits).2⟩

end Graph

end TensorGraph
