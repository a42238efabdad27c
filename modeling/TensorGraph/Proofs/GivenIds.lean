import TensorGraph.Proofs.GeneratedNames

/-!
# `TensorGraph.Proofs.GivenIds` — **how long the ids that calls give can be told apart**

A call that adds a variable gives its id, and the id is all that a caller has to refer to the
variable. Ids keep the low bits of a position. As long as the positions have no other bits, no id is
given twice, and each leads to what its call added for as long as the run goes on. The first
variable past that gets the id of the first variable of all.

## Contents
- **Ids given** by calls and runs: `givenBy`, `given`.
- **Ids of positions**: what a run gives is what its variables have.
- **`IdsHold`**, and that it does exactly as long as there are ids.
- **One variable too many**: `numberedInputs`.
-/

namespace TensorGraph

namespace Graph

variable {g : Graph} {r : Graph × List VariableId}

/-! ## Ids given -/

/-- The ids that a call gives, none if it fails. -/
def givenBy (g : Graph) (c : Call) : List VariableId :=
  match g.answer c with
  | .ok r => r.2
  | .error _ => []

/-- The ids that the calls of a run give, in order. -/
def given (g : Graph) : List Call → List VariableId
  | [] => []
  | c :: calls => g.givenBy c ++ (g.after c).given calls

theorem givenBy_of_answer {c : Call} (h : g.answer c = .ok r) : g.givenBy c = r.2 := by
  rw [givenBy, h]

/-- A call that gives ids has succeeded. -/
theorem success_of_mem_givenBy {c : Call} {i : VariableId} (h : i ∈ g.givenBy c) :
    ∃ r, g.Success r ∧ g.after c = r.1 ∧ i ∈ r.2 := by
  cases hanswer : g.answer c with
  | error e =>
      rw [givenBy, hanswer] at h
      cases h
  | ok r =>
      rw [givenBy_of_answer hanswer] at h
      exact ⟨r, success_of_answer hanswer, after_of_answer hanswer, h⟩

/-- **A call gives the ids of what it appends.** -/
theorem map_id_after (g : Graph) (c : Call) :
    (g.after c).vars.map Variable.id = g.vars.map Variable.id ++ g.givenBy c := by
  cases hanswer : g.answer c with
  | error e => rw [after_of_error hanswer, givenBy, hanswer, List.append_nil]
  | ok r =>
      obtain ⟨new, hnew, hids⟩ := (success_of_answer hanswer).appends
      have hmap := congrArg (List.map Variable.id) hnew
      rw [List.map_append, List.map_map, List.map_map, hids] at hmap
      rw [after_of_answer hanswer, givenBy_of_answer hanswer]
      exact hmap

theorem map_id_run (g : Graph) (calls : List Call) :
    (g.run calls).vars.map Variable.id = g.vars.map Variable.id ++ g.given calls := by
  induction calls generalizing g with
  | nil => rw [run_nil, given, List.append_nil]
  | cons c calls ih => rw [run_cons, ih, map_id_after, given, List.append_assoc]

/-! ## Ids of positions -/

/-- The ids of the variables are those of the positions. -/
theorem Minted.map_id (hg : g.Minted) :
    g.vars.map Variable.id = (List.range g.vars.length).map (Id.mint g.id) := by
  refine List.ext_getElem? fun k => ?_
  rw [List.getElem?_map, List.getElem?_map]
  rcases Nat.lt_or_ge k g.vars.length with hlt | hge
  · rw [List.getElem?_eq_getElem hlt, List.getElem?_range hlt, Option.map_some, Option.map_some,
      hg.variable_id k _ (List.getElem?_eq_getElem hlt)]
  · rw [List.getElem?_eq_none hge, List.getElem?_eq_none (by rw [List.length_range]; exact hge)]
    rfl

/-- **What a run gives** on an empty graph are the ids of the first positions. -/
theorem given_empty (id : GraphId) (name : String) (options : Options) (calls : List Call) :
    (empty id name options).given calls =
      (List.range ((empty id name options).run calls).vars.length).map (Id.mint id) := by
  have hids := ((minted_empty id name options).run calls).map_id
  rw [map_id_run, id_run] at hids
  exact hids

/-- The number of positions that have ids of their own comes round to the first position. -/
theorem mint_size (home : GraphId) : (Id.mint home UInt32.size : VariableId) = Id.mint home 0 :=
  Id.ext_position rfl rfl

theorem nodup_map_mint_iff (home : GraphId) (n : Nat) :
    ((List.range n).map (Id.mint home : Nat → VariableId)).Nodup ↔ n ≤ UInt32.size := by
  constructor
  · intro hnodup
    by_contra hlarge
    have hinj := List.inj_on_of_nodup_map hnodup
    have heq := hinj (List.mem_range.mpr (Nat.lt_of_not_le hlarge))
      (List.mem_range.mpr (by omega)) (mint_size home)
    cases heq
  · intro hle
    refine List.Nodup.map_on (fun j hj k hk heq => ?_) List.nodup_range
    have hposition := congrArg Id.position heq
    rw [Id.position_mint_of_lt home (Nat.lt_of_lt_of_le (List.mem_range.mp hj) hle),
      Id.position_mint_of_lt home (Nat.lt_of_lt_of_le (List.mem_range.mp hk) hle)] at hposition
    exact hposition

/-! ## Ids that hold -/

/-- **Ids hold in a run**: no id is given twice, and from the call that gives it on, an id leads to
    the variable that the call appended. -/
structure IdsHold (g : Graph) (calls : List Call) : Prop where
  nodup : (g.given calls).Nodup
  resolves : ∀ before c later, before ++ c :: later <+: calls → ∀ i ∈ (g.run before).givenBy c,
    ∃ v w, ((g.run before).after c).vars[(g.run before).vars.length]? = some v ∧
      (g.run (before ++ c :: later)).findVariable i = some w ∧ w.bare = v.bare

/-- What a success gives is the id of the end of the arena, and there is a variable there now. -/
theorem Success.appended (h : g.Success r) {i : VariableId} (hi : i ∈ r.2) :
    i = g.nextVariable ∧ ∃ v, r.1.vars[g.vars.length]? = some v := by
  obtain ⟨new, hnew, hids⟩ := h.appends
  have hlength : g.vars.length < r.1.vars.length := by
    have hsum := congrArg List.length hnew
    rw [List.length_append, List.length_map, List.length_map] at hsum
    have hpos : 0 < new.length := by
      rw [← List.length_map (f := Variable.id), hids]
      exact List.length_pos_of_mem hi
    omega
  refine ⟨?_, _, List.getElem?_eq_getElem hlength⟩
  cases h with
  | declared => exact List.mem_singleton.mp hi
  | marked hfound => cases hi
  | applied happ => exact List.mem_singleton.mp hi

theorem Keeps.length_le {g' : Graph} (h : g.Keeps g') : g.vars.length ≤ g'.vars.length := by
  have hle := h.vars.length_le
  rwa [List.length_map, List.length_map] at hle

/-- An id leads to what was appended with it, if it keeps all bits of the position. -/
theorem findVariable_of_mem_givenBy {c : Call} {i : VariableId} (hi : i ∈ g.givenBy c)
    (hlen : (g.after c).vars.length ≤ UInt32.size) :
    ∃ v, (g.after c).vars[g.vars.length]? = some v ∧ (g.after c).findVariable i = some v := by
  obtain ⟨r, hr, hafter, hmem⟩ := success_of_mem_givenBy hi
  obtain ⟨rfl, v, hv⟩ := hr.appended hmem
  rw [hafter] at hlen ⊢
  have hlt : g.vars.length < r.1.vars.length := (List.getElem?_eq_some_iff.mp hv).1
  refine ⟨v, hv, findVariable_eq_some_iff.mpr ⟨hr.id_eq.symm, ?_⟩⟩
  rw [nextVariable, Id.position_mint_of_lt g.id (Nat.lt_of_lt_of_le hlt hlen)]
  exact hv

/-- **Ids hold exactly as long as there are ids**: a run on an empty graph never gives an id twice,
    and every id goes on leading to what its call appended, if and only if the run has made no more
    variables than there are words for their positions. -/
theorem idsHold_iff_length_le (id : GraphId) (name : String) (options : Options)
    (calls : List Call) :
    (empty id name options).IdsHold calls ↔
      ((empty id name options).run calls).vars.length ≤ UInt32.size := by
  constructor
  · intro h
    have hnodup := h.nodup
    rw [given_empty] at hnodup
    exact (nodup_map_mint_iff id _).mp hnodup
  · intro hlen
    constructor
    · rw [given_empty]
      exact (nodup_map_mint_iff id _).mpr hlen
    · rintro before c later ⟨rest, rfl⟩ i hi
      rw [run_append] at hlen
      have hlater : ((empty id name options).run (before ++ c :: later)).vars.length ≤
          UInt32.size := Nat.le_trans (keeps_run _ rest).length_le hlen
      rw [run_append, run_cons] at hlater ⊢
      have hkeep := keeps_run (((empty id name options).run before).after c) later
      obtain ⟨v, hv, hfound⟩ :=
        findVariable_of_mem_givenBy hi (Nat.le_trans hkeep.length_le hlater)
      obtain ⟨w, hw, hbare⟩ := hkeep.findVariable hfound
      exact ⟨v, w, hv, hw, hbare⟩

/-! ## One variable too many -/

/-- Inputs that are named by numbers. -/
def numberedInputs (n : Nat) : List Call :=
  (List.range n).map fun k => .addInput (toString k) twoChannels

theorem numberedInputs_succ (n : Nat) :
    numberedInputs (n + 1) = numberedInputs n ++ [.addInput (toString n) twoChannels] := by
  rw [numberedInputs, List.range_succ, List.map_append]
  rfl

/-- Numbered inputs are accepted, and names with higher numbers stay free. -/
theorem run_numberedInputs (id : GraphId) (name : String) (n : Nat) :
    ((empty id name).run (numberedInputs n)).vars.map Variable.name? =
        (List.range n).map (fun k => some (toString k)) ∧
      ∀ m, n ≤ m →
        ((empty id name).run (numberedInputs n)).variableIndex.find? (toString m) = none := by
  induction n with
  | zero => exact ⟨rfl, fun _ _ => rfl⟩
  | succ n ih =>
      obtain ⟨hnames, hfree⟩ := ih
      have hoptions := (keeps_run (empty id name) (numberedInputs n)).options_eq
      rw [numberedInputs_succ, run_append, run_cons, run_nil]
      generalize (empty id name).run (numberedInputs n) = g at hnames hfree hoptions ⊢
      have hrank : twoChannels.rank ≤ ({} : Options).maxRank.toNat := by decide
      have hdecl : g.Declarable (toString n) twoChannels :=
        ⟨hfree n (Nat.le_refl n), by rw [hoptions]; exact hrank⟩
      rw [after_of_answer (answer_addInput_eq_ok_iff.mpr ⟨hdecl, rfl⟩)]
      constructor
      · show (g.vars ++ [g.declared (toString n) twoChannels .input]).map Variable.name? = _
        rw [List.map_append, hnames, List.range_succ, List.map_append]
        rfl
      · intro m hm
        show (g.variableIndex.insert (toString n) g.nextVariable).find? (toString m) = none
        have hne : toString m ≠ toString n := fun heq => by
          have := toString_injective heq
          omega
        rw [NameMap.find?_insert, if_neg hne]
        exact hfree m (by omega)

theorem length_run_numberedInputs (id : GraphId) (name : String) (n : Nat) :
    ((empty id name).run (numberedInputs n)).vars.length = n := by
  have hnames := congrArg List.length (run_numberedInputs id name n).1
  rwa [List.length_map, List.length_map, List.length_range] at hnames

/-- The id that the `k`-th numbered input gives is that of position `k`. -/
theorem getElem?_given_numberedInputs (id : GraphId) (name : String) {n k : Nat} (h : k < n) :
    ((empty id name).given (numberedInputs n))[k]? = some (Id.mint id k) := by
  rw [given_empty, length_run_numberedInputs, List.getElem?_map, List.getElem?_range h]
  rfl

/-- **The first id past the words is the first id of all.** The last input of this run gets the id
    that the first one got, and the id still leads to the first one. -/
theorem numberedInputs_repeat_first_id :
    ((empty ⟨0⟩ "numbered").given (numberedInputs (UInt32.size + 1)))[0]? = some ⟨⟨0⟩, 0⟩ ∧
      ((empty ⟨0⟩ "numbered").given (numberedInputs (UInt32.size + 1)))[UInt32.size]? =
        some ⟨⟨0⟩, 0⟩ ∧
      (∃ v, ((empty ⟨0⟩ "numbered").run (numberedInputs (UInt32.size + 1))).findVariable
        ⟨⟨0⟩, 0⟩ = some v ∧ v.name? = some "0") ∧
      ¬ (empty ⟨0⟩ "numbered").IdsHold (numberedInputs (UInt32.size + 1)) := by
  have hnames := (run_numberedInputs ⟨0⟩ "numbered" (UInt32.size + 1)).1
  refine ⟨?_, ?_, ?_, fun h => ?_⟩
  · exact getElem?_given_numberedInputs ⟨0⟩ "numbered" (Nat.succ_pos _)
  · rw [getElem?_given_numberedInputs ⟨0⟩ "numbered" (Nat.lt_succ_self _), mint_size]
    rfl
  · have hfirst := congrArg (fun names => names[0]?) hnames
    rw [List.getElem?_map, List.getElem?_map, List.getElem?_range (Nat.succ_pos _)] at hfirst
    obtain ⟨v, hv, hname⟩ := Option.map_eq_some_iff.mp hfirst
    exact ⟨v, findVariable_eq_some_iff.mpr ⟨(id_run (empty ⟨0⟩ "numbered") _).symm, hv⟩, hname⟩
  · have hnodup := h.nodup
    rw [given_empty, length_run_numberedInputs, nodup_map_mint_iff] at hnodup
    exact Nat.not_succ_le_self _ hnodup

end Graph

end TensorGraph
