import TensorGraph.Proofs.GeneratedNames
import TensorGraph.Proofs.ListingOrder

/-!
# `TensorGraph.Proofs.Labels` — **what labels tell apart**

The label of a variable is its name, or the written id where it has none. Names differ among
themselves, since the index takes none twice, and so do the written ids of one graph. Between the
two nothing stands in the way: a name is any text, and it may be the written id of a variable that
an operator makes, before or after. That is the only way for two variables to share a label.

## Contents
- **Written ids** are read back.
- **`Mimics`**: a name that is a written id.
- **Shared labels** in graphs with a `Ledger`, and in what their listings show.
-/

namespace TensorGraph

/-! ## Written ids -/

/-- Different ids of one graph are written differently. -/
theorem Id.text_inj {arena : Arena} {i j : Id arena} (hgraph : i.graph = j.graph) :
    i.text = j.text ↔ i = j := by
  constructor
  · intro h
    have hnumber : toString i.position = toString j.position := (String.append_right_inj _).mp h
    exact Id.ext_position hgraph (toString_injective hnumber)
  · rintro rfl
    rfl

/-! ## Mimicry -/

namespace Variable

/-- The first has the written id of the second for a name, which has none itself. -/
def Mimics (v w : Variable) : Prop := v.name? = some w.id.text ∧ w.role = .intermediate

instance (v w : Variable) : Decidable (v.Mimics w) := inferInstanceAs (Decidable (_ ∧ _))

theorem label_of_unnamed {v : Variable} (h : v.name? = none) : v.label = v.id.text := by
  rw [label, h, Option.getD_none]

end Variable

namespace Graph

variable {g : Graph}

/-! ## Shared labels -/

namespace Ledger

variable {v w : Variable}

theorem graph_id (h : g.Ledger) (hfits : g.Fits) (hv : v ∈ g.vars) : v.id.graph = g.id :=
  (findVariable_eq_some_iff.mp (h.findVariable_id (Nat.le_of_lt hfits.1) hv)).1

/-- Variables with one name are one variable. -/
theorem variable_eq_of_name_eq (h : g.Ledger) (hfits : g.Fits) (hv : v ∈ g.vars)
    (hw : w ∈ g.vars) {name : String} (hvname : v.name? = some name)
    (hwname : w.name? = some name) : v = w := by
  have hentry := h.variable_entered v hv name hvname
  rw [h.variable_entered w hw name hwname] at hentry
  exact h.variable_eq_of_id_eq (Nat.le_of_lt hfits.1) hv hw (Option.some.inj hentry).symm

/-- Who is mimicked has no name, and who mimics has one. -/
theorem mimics_iff (h : g.Ledger) (hw : w ∈ g.vars) :
    v.Mimics w ↔ v.name? = some w.id.text ∧ w.name? = none := by
  rw [Variable.Mimics, h.unnamed_iff w hw]

theorem not_mimics_self (h : g.Ledger) (hv : v ∈ g.vars) : ¬ v.Mimics v := by
  intro hmimics
  obtain ⟨hname, hnone⟩ := (h.mimics_iff hv).mp hmimics
  rw [hnone] at hname
  cases hname

/-- **Two variables share a label** exactly if one mimics the other. -/
theorem label_eq_iff (h : g.Ledger) (hfits : g.Fits) (hv : v ∈ g.vars) (hw : w ∈ g.vars)
    (hne : v ≠ w) : v.label = w.label ↔ v.Mimics w ∨ w.Mimics v := by
  rw [h.mimics_iff hw, h.mimics_iff hv]
  cases hvname : v.name? with
  | some name =>
      rw [Variable.label_of_name? hvname]
      cases hwname : w.name? with
      | some other =>
          -- Both have names, and these differ.
          have hdiffer : name ≠ other := fun heq =>
            hne (h.variable_eq_of_name_eq hfits hv hw hvname (heq ▸ hwname))
          simp [Variable.label_of_name? hwname, hdiffer]
      | none => simp [Variable.label_of_unnamed hwname]
  | none =>
      rw [Variable.label_of_unnamed hvname]
      cases hwname : w.name? with
      | some other => simp [Variable.label_of_name? hwname, eq_comm]
      | none =>
          -- Both are written by their ids, and these differ.
          have hgraph : v.id.graph = w.id.graph :=
            (h.graph_id hfits hv).trans (h.graph_id hfits hw).symm
          have hdiffer : v.id ≠ w.id := fun heq =>
            hne (h.variable_eq_of_id_eq (Nat.le_of_lt hfits.1) hv hw heq)
          simp [Variable.label_of_unnamed hwname, Id.text_inj hgraph, hdiffer]

/-- **A label is that of one variable** exactly if this neither mimics another nor is mimicked. -/
theorem existsUnique_label_iff (h : g.Ledger) (hfits : g.Fits) (hv : v ∈ g.vars) :
    (∃! w, w ∈ g.vars ∧ w.label = v.label) ↔ ∀ w ∈ g.vars, ¬ v.Mimics w ∧ ¬ w.Mimics v := by
  constructor
  · intro hunique w hw
    rw [← not_or]
    intro hmimics
    have hne : v ≠ w := by
      rintro rfl
      exact hmimics.elim (h.not_mimics_self hv) (h.not_mimics_self hv)
    have hlabel := (h.label_eq_iff hfits hv hw hne).mpr hmimics
    exact hne (hunique.unique ⟨hv, rfl⟩ ⟨hw, hlabel.symm⟩)
  · intro hnone
    refine ⟨v, ⟨hv, rfl⟩, ?_⟩
    rintro w ⟨hw, hlabel⟩
    by_contra hne
    rcases (h.label_eq_iff hfits hw hv hne).mp hlabel with hmimics | hmimics
    · exact (hnone w hw).2 hmimics
    · exact (hnone w hw).1 hmimics

/-- **Labels repeat** exactly if some variable mimics another. -/
theorem nodup_labels_iff (h : g.Ledger) (hfits : g.Fits) :
    (g.vars.map Variable.label).Nodup ↔ ∀ v ∈ g.vars, ∀ w ∈ g.vars, ¬ v.Mimics w := by
  rw [List.nodup_map_iff_inj_on (h.nodup_variables (Nat.le_of_lt hfits.1))]
  constructor
  · intro hinj v hv w hw hmimics
    have hne : v ≠ w := by
      rintro rfl
      exact h.not_mimics_self hv hmimics
    exact hne (hinj v hv w hw ((h.label_eq_iff hfits hv hw hne).mpr (Or.inl hmimics)))
  · intro hnone v hv w hw hlabel
    by_contra hne
    rcases (h.label_eq_iff hfits hv hw hne).mp hlabel with hmimics | hmimics
    · exact hnone v hv w hw hmimics
    · exact hnone w hw v hv hmimics

end Ledger

/-! ## Labels in listings -/

/-- A label that stands for the variable of an id, and for no other unless one of the two mimics
    the other. -/
def Shows (g : Graph) (i : VariableId) (label : String) : Prop :=
  ∃ v ∈ g.vars, v.id = i ∧ v.label = label ∧
    ((∃! w, w ∈ g.vars ∧ w.label = label) ↔ ∀ w ∈ g.vars, ¬ v.Mimics w ∧ ¬ w.Mimics v)

theorem Ledger.shows_label (h : g.Ledger) (hfits : g.Fits) {i : VariableId} {v : Variable}
    (hv : g.findVariable i = some v) : g.Shows i (g.label i) := by
  have hmem : v ∈ g.vars := mem_vars_of_findVariable hv
  have hlabel : g.label i = v.label := by rw [label, hv]
  rw [hlabel]
  exact ⟨v, hmem, h.id_of_findVariable hv, rfl, h.existsUnique_label_iff hfits hmem⟩

/-- **What labels tell apart.** In every graph that calls have reached, with an id for each entry,
    two different variables share a label exactly if one is named as the other, an intermediate, is
    written. Without such names all labels differ. The text of a listing shows one label for each
    variable that an operator reads or that is an output, and that label is no other variable's,
    with the same exception. -/
theorem labels_exact (hreach : g.Reachable) (hfits : g.Fits) :
    (∀ v ∈ g.vars, ∀ w ∈ g.vars, v ≠ w → (v.label = w.label ↔ v.Mimics w ∨ w.Mimics v)) ∧
      ((g.vars.map Variable.label).Nodup ↔ ∀ v ∈ g.vars, ∀ w ∈ g.vars, ¬ v.Mimics w) ∧
      g.listing = String.join (g.listingLines.map fun l => l.text ++ "\n") ∧
      ∀ l ∈ g.listingLines, g.Worded l l.text ∧ List.Forall₂ g.Shows l.mentioned l.labels := by
  have h : g.Ledger := hreach.ledger hfits
  have hlists := h.lists hfits
  refine ⟨fun v hv w hw => h.label_eq_iff hfits hv hw, h.nodup_labels_iff hfits, g.listing_eq,
    fun l hl => ⟨hlists.worded l hl, ?_⟩⟩
  rw [hlists.labels_eq l hl, List.forall₂_map_right_iff, List.forall₂_same]
  intro i hi
  obtain ⟨k, hk⟩ := List.mem_iff_getElem?.mp hl
  obtain ⟨v, hv, -, -⟩ := hlists.introduced_above k l hk i hi
  exact h.shows_label hfits hv

/-- Inputs that are named as each other's ids are written, and their sum. -/
def crossedCalls : List Call :=
  [ .addInput "%v1" twoChannels,
    .addInput "%v0" twoChannels,
    .applyOne (.unnamed .elementwiseSum Params.valid_elementwiseSum) [⟨⟨0⟩, 0⟩, ⟨⟨0⟩, 1⟩],
    .markOutput ⟨⟨0⟩, 2⟩ ]

/-- Names like ids of other named variables confuse nothing. -/
theorem labels_exact_crossed :
    let g := (empty ⟨0⟩ "crossed").run crossedCalls
    g.Reachable ∧ g.Fits ∧ (g.vars.map Variable.label).Nodup := by
  intro g
  have hreach : g.Reachable := ⟨⟨0⟩, "crossed", {}, crossedCalls, by decide, rfl⟩
  have hfits : g.Fits := ⟨by decide, by decide⟩
  exact ⟨hreach, hfits, (labels_exact hreach hfits).2.1.mpr (by decide)⟩

/-- An input that is named as what is made of it will be written, both of them outputs. -/
def mimickedCalls : List Call :=
  [ .addInput "%v1" twoChannels,
    .applyOne (.unnamed (.activation .relu) (Params.valid_activation _)) [⟨⟨0⟩, 0⟩],
    .markOutput ⟨⟨0⟩, 0⟩,
    .markOutput ⟨⟨0⟩, 1⟩ ]

/-- A label of two variables: both outputs are listed under it. -/
theorem mimicked_labels_repeat :
    let g := (empty ⟨0⟩ "mimicked").run mimickedCalls
    g.Reachable ∧ g.Fits ∧
      (∃ v ∈ g.vars, ∃ w ∈ g.vars, v ≠ w ∧ v.label = w.label) ∧
      g.outputLines = [.output ⟨⟨0⟩, 0⟩ "%v1", .output ⟨⟨0⟩, 1⟩ "%v1"] := by
  intro g
  exact ⟨⟨⟨0⟩, "mimicked", {}, mimickedCalls, by decide, rfl⟩, ⟨by decide, by decide⟩,
    by decide, by decide⟩

end Graph

end TensorGraph
