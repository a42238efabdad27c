import Mathlib.Data.List.Nodup
import Mathlib.Order.Bounds.Basic
import TensorGraph.Proofs.Bookkeeping
import TensorGraph.Proofs.InferenceFaults
import TensorGraph.Proofs.LongRuns

/-!
# `TensorGraph.Proofs.GeneratedNames` — **generated names are found, free and least**

Operators without a name get the prefix of the options with a number behind it. Any of these names
may be in use, given by hand before, and the search for a free one says nothing about when it ends.
It ends because different numbers make different names: more numbers in a row than there are names
in use cannot all be taken.

## Contents
- **The search among numbers**, for any set of taken ones.
- **Names and numbers**: there are no more taken numbers in a row than names.
- **The search without a bound** ends at the same name.
- **`Enrolled`**: names of operators are the names in use, along runs of any length.
- **Applying without a name** is applying under one that nobody uses.
-/

namespace TensorGraph

/-- A number is read back from its digits. -/
theorem toString_injective : Function.Injective fun n : Nat => toString n := by
  intro m n h
  have hdigits : toString m = toString n := h
  rw [Nat.toString_eq_ofList_toDigits, Nat.toString_eq_ofList_toDigits, String.ofList_inj]
    at hdigits
  rw [← Nat.ofDigitChars_ten_toDigits (n := m), hdigits, Nat.ofDigitChars_ten_toDigits]

namespace Graph

open Checks

/-! ## The search among numbers -/

section FirstFree

variable {taken : Nat → Bool}

theorem le_firstFree (n probes : Nat) : n ≤ firstFree taken n probes := by
  induction probes generalizing n with
  | zero => exact Nat.le_refl n
  | succ probes ih =>
      rw [firstFree]
      split
      · exact Nat.le_of_succ_le (ih (n + 1))
      · exact Nat.le_refl n

theorem firstFree_le (n probes : Nat) : firstFree taken n probes ≤ n + probes := by
  induction probes generalizing n with
  | zero => exact Nat.le_refl n
  | succ probes ih =>
      rw [firstFree]
      split
      · have := ih (n + 1)
        omega
      · exact Nat.le_add_right n _

/-- Numbers that the search goes past are taken. -/
theorem taken_of_lt_firstFree {n probes m : Nat} (hle : n ≤ m)
    (hlt : m < firstFree taken n probes) : taken m = true := by
  induction probes generalizing n with
  | zero => exact absurd hlt (Nat.not_lt.mpr hle)
  | succ probes ih =>
      rw [firstFree] at hlt
      split at hlt
      · rename_i hn
        rcases Nat.eq_or_lt_of_le hle with rfl | hbelow
        · exact hn
        · exact ih hbelow hlt
      · exact absurd hlt (Nat.not_lt.mpr hle)

/-- The number at which the search stops before it has to is free. -/
theorem firstFree_free {n probes : Nat} (hlt : firstFree taken n probes < n + probes) :
    taken (firstFree taken n probes) = false := by
  induction probes generalizing n with
  | zero => exact absurd hlt (Nat.lt_irrefl n)
  | succ probes ih =>
      rw [firstFree] at hlt ⊢
      split
      · rename_i hn
        rw [if_pos hn] at hlt
        exact ih (by omega)
      · rename_i hn
        exact Bool.eq_false_iff.mpr hn

end FirstFree

/-! ## Names and numbers -/

variable {g : Graph}

/-- Different numbers make different names, also behind a prefix that ends in digits. -/
theorem autoName_injective (g : Graph) : Function.Injective g.autoName := fun _ _ h =>
  toString_injective ((String.append_right_inj _).mp h)

/-- The name with a number is in use. -/
def taken (g : Graph) (n : Nat) : Bool := g.operatorIndex.contains (g.autoName n)

theorem taken_eq_false_iff {n : Nat} :
    g.taken n = false ↔ g.operatorIndex.find? (g.autoName n) = none :=
  contains_eq_false_iff

/-- **No more numbers in a row are taken than there are names.** -/
theorem le_size_of_taken {n k : Nat} (h : ∀ m, n ≤ m → m < n + k → g.taken m = true) :
    k ≤ g.operatorIndex.size := by
  have hnodup : ((List.range' n k).map g.autoName).Nodup :=
    (List.nodup_range' 1).map g.autoName_injective
  have hsub : (List.range' n k).map g.autoName ⊆ g.operatorIndex.keys := by
    intro name hname
    obtain ⟨m, hm, rfl⟩ := List.mem_map.mp hname
    obtain ⟨hle, hlt⟩ := List.mem_range'_1.mp hm
    exact NameMap.contains_iff_mem_keys.mp (h m hle hlt)
  have hlength := (List.subperm_of_subset hnodup hsub).length_le
  rw [List.length_map, List.length_range'] at hlength
  exact Nat.le_trans hlength (Nat.le_of_eq (List.length_map _))

/-- The number in the name for an operator that has none. -/
def freeNumber (g : Graph) : Nat := firstFree g.taken g.ops.length g.operatorIndex.size

theorem unusedName_eq (g : Graph) : g.unusedName = g.autoName g.freeNumber := rfl

theorem length_ops_le_freeNumber (g : Graph) : g.ops.length ≤ g.freeNumber := le_firstFree _ _

theorem freeNumber_le (g : Graph) : g.freeNumber ≤ g.ops.length + g.operatorIndex.size :=
  firstFree_le _ _

theorem taken_of_lt_freeNumber {m : Nat} (hle : g.ops.length ≤ m) (hlt : m < g.freeNumber) :
    g.taken m = true := taken_of_lt_firstFree hle hlt

theorem taken_freeNumber (g : Graph) : g.taken g.freeNumber = false := by
  rcases Nat.eq_or_lt_of_le g.freeNumber_le with hlast | hlt
  · -- At the last number, all names are known to be taken by the numbers before.
    rw [Bool.eq_false_iff]
    intro htaken
    have hmany : g.operatorIndex.size + 1 ≤ g.operatorIndex.size := by
      refine le_size_of_taken (g := g) (n := g.ops.length) fun m hle hlt => ?_
      rcases Nat.lt_or_ge m g.freeNumber with hbefore | hfrom
      · exact taken_of_lt_freeNumber hle hbefore
      · rw [show m = g.freeNumber by omega]
        exact htaken
    omega
  · exact firstFree_free hlt

/-- **The generated name is free.** -/
theorem find?_unusedName (g : Graph) : g.operatorIndex.find? g.unusedName = none :=
  taken_eq_false_iff.mp g.taken_freeNumber

/-- **The generated name has the least number** that is free, from the number of operators on. -/
theorem isLeast_freeNumber (g : Graph) :
    IsLeast {n | g.ops.length ≤ n ∧ g.operatorIndex.find? (g.autoName n) = none} g.freeNumber := by
  refine ⟨⟨g.length_ops_le_freeNumber, g.find?_unusedName⟩, fun m hm => ?_⟩
  obtain ⟨hle, hfree⟩ := hm
  by_contra hlt
  have htaken := taken_of_lt_freeNumber hle (Nat.lt_of_not_le hlt)
  rw [taken_eq_false_iff.mpr hfree] at htaken
  cases htaken

/-! ## The search without a bound -/

/-- **Runs of the search** that count up in a machine word until a name is free, and that nothing
    but a free name ends: from a number, the search looks at so many names and stops at the last. -/
inductive SearchesTo (g : Graph) : UInt64 → Nat → String → Prop where
  | stop {n : UInt64}
      (hfree : g.operatorIndex.contains (g.options.autoName ++ toString n) = false) :
      SearchesTo g n 1 (g.options.autoName ++ toString n)
  | next {n : UInt64} {looked : Nat} {name : String}
      (htaken : g.operatorIndex.contains (g.options.autoName ++ toString n) = true)
      (hrest : SearchesTo g (n + 1) looked name) : SearchesTo g n (looked + 1) name

/-- There is one way only for the search to go. -/
theorem SearchesTo.unique {n : UInt64} {looked looked' : Nat} {name name' : String}
    (h : g.SearchesTo n looked name) (h' : g.SearchesTo n looked' name') :
    looked = looked' ∧ name = name' := by
  induction h generalizing looked' with
  | stop hfree =>
      cases h' with
      | stop => exact ⟨rfl, rfl⟩
      | next htaken =>
          rw [hfree] at htaken
          cases htaken
  | next htaken hrest ih =>
      cases h' with
      | stop hfree =>
          rw [hfree] at htaken
          cases htaken
      | next _ hrest' =>
          obtain ⟨rfl, rfl⟩ := ih hrest'
          exact ⟨rfl, rfl⟩

/-- **The search goes on to the first free number**, if it can count that far. -/
theorem searchesTo_of_taken {n k : Nat} (hlt : n + k < UInt64.size)
    (htaken : ∀ m, n ≤ m → m < n + k → g.taken m = true) (hfree : g.taken (n + k) = false) :
    g.SearchesTo (.ofNat n) (k + 1) (g.autoName (n + k)) := by
  have hword : (UInt64.ofNat n).toNat = n := UInt64.toNat_ofNat_of_lt (by omega)
  have hname : g.options.autoName ++ toString (UInt64.ofNat n) = g.autoName n :=
    congrArg g.autoName hword
  induction k generalizing n with
  | zero =>
      have hstop : g.SearchesTo (.ofNat n) 1 (g.options.autoName ++ toString (UInt64.ofNat n)) :=
        .stop (by rw [hname]; exact hfree)
      rwa [hname] at hstop
  | succ k ih =>
      have hnext : n + 1 + k = n + (k + 1) := by omega
      have hword' : (UInt64.ofNat (n + 1)).toNat = n + 1 := UInt64.toNat_ofNat_of_lt (by omega)
      have hrest := ih (by omega) (fun m hle hlt => htaken m (by omega) (by omega))
        (by rw [hnext]; exact hfree) hword' (congrArg g.autoName hword')
      rw [hnext, UInt64.ofNat_add] at hrest
      exact .next (by rw [hname]; exact htaken n (Nat.le_refl n) (by omega)) hrest

/-- **The search ends**, at the generated name and nowhere else. -/
theorem searchesTo_iff (hops : g.ops.length < 2 ^ 63) (hindex : g.operatorIndex.size < 2 ^ 63)
    {looked : Nat} {name : String} :
    g.SearchesTo (.ofNat g.ops.length) looked name ↔
      looked = g.freeNumber - g.ops.length + 1 ∧ name = g.unusedName := by
  have hge := g.length_ops_le_freeNumber
  have hle := g.freeNumber_le
  have hsum : g.ops.length + (g.freeNumber - g.ops.length) = g.freeNumber := by omega
  have hword : g.freeNumber < UInt64.size := by
    rw [UInt64.size]
    omega
  have hends : g.SearchesTo (.ofNat g.ops.length) (g.freeNumber - g.ops.length + 1)
      (g.autoName (g.ops.length + (g.freeNumber - g.ops.length))) :=
    searchesTo_of_taken (by rw [hsum]; exact hword)
      (fun m hle hlt => taken_of_lt_freeNumber hle (by omega))
      (by rw [hsum]; exact g.taken_freeNumber)
  rw [hsum, ← unusedName_eq] at hends
  constructor
  · exact fun h => h.unique hends
  · rintro ⟨rfl, rfl⟩
    exact hends

/-! ## Names of operators -/

/-- **Names in use** are those of the operators. -/
def Enrolled (g : Graph) : Prop :=
  ∀ name, g.operatorIndex.find? name = none ↔ ∀ n ∈ g.ops, n.name ≠ name

theorem Enrolled.committed (h : g.Enrolled) (name : String) (params : Params)
    (inputs : List VariableId) (shape : Shape) :
    (g.committed name params inputs shape).Enrolled := by
  intro given
  show (g.operatorIndex.insert name g.nextOperator).find? given = none ↔
    ∀ n ∈ g.ops ++ [g.appliedNode name params inputs], n.name ≠ given
  rw [NameMap.find?_insert, List.forall_mem_append, List.forall_mem_singleton]
  by_cases hgiven : given = name
  · rw [if_pos hgiven]
    exact ⟨nofun, fun hnot => absurd hgiven.symm hnot.2⟩
  · rw [if_neg hgiven, h given]
    exact ⟨fun hold => ⟨hold, fun hname => hgiven hname.symm⟩, fun hall => hall.1⟩

theorem Success.enrolled {r : Graph × List VariableId} (hr : g.Success r) (h : g.Enrolled) :
    r.1.Enrolled := by
  cases hr with
  | declared => exact h
  | marked hfound =>
      dsimp only
      split <;> exact h
  | applied happ => exact h.committed _ _ _ _

theorem Enrolled.run (h : g.Enrolled) (calls : List Call) : (g.run calls).Enrolled := by
  induction calls generalizing g with
  | nil => exact h
  | cons c calls ih => exact ih (after_of_success h (fun _ hr => hr.enrolled h) c)

theorem Reachable.enrolled (h : g.Reachable) : g.Enrolled := by
  obtain ⟨id, name, options, calls, -, rfl⟩ := h
  have hempty : (empty id name options).Enrolled := fun _ => ⟨fun _ => nofun, fun _ => rfl⟩
  exact hempty.run calls

theorem Reachable.options_valid (h : g.Reachable) : g.options.Valid := by
  obtain ⟨id, name, options, calls, hvalid, rfl⟩ := h
  rw [(keeps_run _ calls).options_eq]
  exact hvalid

/-! ## Applying without a name -/

/-- The checks do not tell free names apart. -/
theorem applyCheck_congr {name name' : String} (hfree : g.operatorIndex.find? name = none)
    (hfree' : g.operatorIndex.find? name' = none) (params : Params) (inputs : List VariableId) :
    g.applyCheck name params inputs = g.applyCheck name' params inputs := by
  unfold applyCheck
  rw [contains_eq_false_iff.mpr hfree, contains_eq_false_iff.mpr hfree']

/-- **A free name is no reason to refuse**, and no shape rule gives that as a reason. -/
theorem applyCheck_ne_duplicateOperator {name : String} {params : Params}
    {inputs : List VariableId} (hvalid : params.Valid)
    (hfree : g.operatorIndex.find? name = none) :
    g.applyCheck name params inputs ≠ .error .duplicateOperator := by
  intro h
  unfold applyCheck at h
  dsimp only at h
  rw [contains_eq_false_iff.mpr hfree] at h
  split at h
  · cases h
  · rename_i harity
    rw [if_neg Bool.false_ne_true] at h
    cases hshapes : (params.kind.inputSlots.zip inputs).mapM g.inputShape with
    | error e =>
        rw [hshapes] at h
        cases h
        obtain ⟨slot, -, hslot⟩ := exists_of_mapM_eq_error hshapes
        unfold inputShape at hslot
        split at hslot <;> cases hslot
    | ok shapes =>
        rw [hshapes] at h
        -- As many shapes as slots came out, so the shape rule is asked as it should be.
        have hlength : shapes.length = params.kind.inputSlots.length := by
          rw [length_of_mapM_eq_ok hshapes, List.length_zip]
          omega
        exact Params.mayRaise_of_error hvalid (Params.takesInputs_of_arity hlength) h

section Unnamed

variable {op twin : Operator} {inputs : List VariableId}

/-- An operator without a name is not refused for its name. -/
theorem fault_ne_of_unnamed (hname : op.name? = none) {e : ApplyError}
    (he : g.apply op inputs = .error e) : e.fault ≠ .duplicateOperator := by
  intro hfault
  obtain ⟨fault, hcheck, rfl⟩ := apply_eq_error_iff.mp he
  obtain rfl : fault = .duplicateOperator := hfault
  rw [nameFor_of_none hname] at hcheck
  exact applyCheck_ne_duplicateOperator op.params_valid g.find?_unusedName hcheck

/-- **A twin with a free name** is refused for the same reasons. -/
theorem apply_unnamed_eq_error_iff (hname : op.name? = none) {name : String}
    (htwin : twin.name? = some name) (hparams : twin.params = op.params)
    (hfree : g.operatorIndex.find? name = none) (fault : ApplyFault) :
    g.apply op inputs = .error ⟨g.unusedName, fault⟩ ↔
      g.apply twin inputs = .error ⟨name, fault⟩ := by
  have hchecks := applyCheck_congr g.find?_unusedName hfree op.params inputs
  simp only [apply_eq_error_iff, nameFor_of_none hname, nameFor_of_some htwin, hparams, hchecks,
    ApplyError.mk.injEq, true_and]

theorem exists_apply_unnamed_eq_error_iff (hname : op.name? = none) {name : String}
    (htwin : twin.name? = some name) (hparams : twin.params = op.params)
    (hfree : g.operatorIndex.find? name = none) :
    (∃ e, g.apply op inputs = .error e) ↔ ∃ e, g.apply twin inputs = .error e := by
  have hreason : ∀ fault, g.apply op inputs = .error ⟨g.unusedName, fault⟩ ↔
      g.apply twin inputs = .error ⟨name, fault⟩ :=
    apply_unnamed_eq_error_iff hname htwin hparams hfree
  constructor
  · rintro ⟨e, he⟩
    obtain ⟨fault, -, rfl⟩ := apply_eq_error_iff.mp he
    rw [nameFor_of_none hname] at he
    exact ⟨_, (hreason fault).mp he⟩
  · rintro ⟨e, he⟩
    obtain ⟨fault, -, rfl⟩ := apply_eq_error_iff.mp he
    rw [nameFor_of_some htwin] at he
    exact ⟨_, (hreason fault).mpr he⟩

/-- **The generated name is the operator's own**, among those that there are. -/
theorem name_of_apply_unnamed (henrolled : g.Enrolled) (hvalid : g.options.Valid)
    (hname : op.name? = none) {r : Graph × List VariableId} (hr : g.apply op inputs = .ok r) :
    ∃ n, r.1.ops = g.ops ++ [n] ∧ n.name = g.unusedName ∧ Text.isBlank n.name = false ∧
      ∀ m ∈ g.ops, m.name ≠ n.name := by
  obtain ⟨shape, -, rfl⟩ := apply_eq_ok hr
  have hnode : g.nameFor op = g.unusedName := nameFor_of_none hname
  refine ⟨_, rfl, hnode, nameFor_not_blank hvalid op, ?_⟩
  show ∀ m ∈ g.ops, m.name ≠ g.nameFor op
  rw [hnode]
  exact (henrolled _).mp g.find?_unusedName

end Unnamed

/-- **Generated names are found, free and least.** Counting up from the number of operators, the
    search stops, after at most one name more than there are in use, at the least number whose name
    is free. So an operator without a name is never refused for its name, is refused for exactly the
    reasons for which it is under a name that nobody uses, and gets a name that is not blank and
    that no other operator has. -/
theorem unusedName_found_free_least :
    (∀ g : Graph, g.ops.length < 2 ^ 63 → g.operatorIndex.size < 2 ^ 63 →
      ∃ n looked : Nat,
        IsLeast {m | g.ops.length ≤ m ∧
          g.operatorIndex.find? (g.options.autoName ++ toString m) = none} n ∧
        g.unusedName = g.options.autoName ++ toString n ∧ looked ≤ g.operatorIndex.size + 1 ∧
        ∀ k name, g.SearchesTo (.ofNat g.ops.length) k name ↔
          k = looked ∧ name = g.options.autoName ++ toString n) ∧
    ∀ g : Graph, g.Reachable → ∀ (op : Operator) (inputs : List VariableId), op.name? = none →
      (∀ e, g.apply op inputs = .error e → e.fault ≠ .duplicateOperator) ∧
      (∀ (twin : Operator) (name : String), twin.params = op.params → twin.name? = some name →
        (∀ n ∈ g.ops, n.name ≠ name) →
          ((∃ e, g.apply op inputs = .error e) ↔ ∃ e, g.apply twin inputs = .error e) ∧
          ∀ fault, g.apply op inputs = .error ⟨g.unusedName, fault⟩ ↔
            g.apply twin inputs = .error ⟨name, fault⟩) ∧
      ∀ r, g.apply op inputs = .ok r → ∃ n, r.1.ops = g.ops ++ [n] ∧ n.name = g.unusedName ∧
        Text.isBlank n.name = false ∧ ∀ m ∈ g.ops, m.name ≠ n.name := by
  constructor
  · intro g hops hindex
    have hle := g.freeNumber_le
    exact ⟨g.freeNumber, g.freeNumber - g.ops.length + 1, g.isLeast_freeNumber, g.unusedName_eq,
      by omega, fun _ _ => searchesTo_iff hops hindex⟩
  · intro g hg op inputs hname
    refine ⟨fun _ he => fault_ne_of_unnamed hname he, ?_, fun _ hr =>
      name_of_apply_unnamed hg.enrolled hg.options_valid hname hr⟩
    intro twin name hparams htwin hunused
    have hfree : g.operatorIndex.find? name = none := (hg.enrolled name).mpr hunused
    exact ⟨exists_apply_unnamed_eq_error_iff hname htwin hparams hfree,
      apply_unnamed_eq_error_iff hname htwin hparams hfree⟩

/-- A graph with two operators, where the first two names that come up are taken. -/
def squatted : Graph :=
  (empty ⟨0⟩ "squatted").run
    [ .addInput "x" twoChannels,
      .apply (.named "op3" (.activation .relu) (by decide) (Params.valid_activation _))
        [⟨⟨0⟩, 0⟩],
      .apply (.named "op2" (.activation .tanh) (by decide) (Params.valid_activation _))
        [⟨⟨0⟩, 0⟩] ]

theorem unusedName_found_free_least_squatted :
    (∃ looked, squatted.SearchesTo 2 looked "op4" ∧ looked ≤ 3) ∧
      ∃ r n, squatted.apply (.unnamed .elementwiseSum Params.valid_elementwiseSum)
          [⟨⟨0⟩, 1⟩, ⟨⟨0⟩, 2⟩] = .ok r ∧
        r.1.ops = squatted.ops ++ [n] ∧ n.name = "op4" := by
  have hgenerated : squatted.unusedName = "op4" := by decide
  constructor
  · obtain ⟨n, looked, -, hname, hlooked, hsearch⟩ :=
      unusedName_found_free_least.1 squatted (by decide) (by decide)
    exact ⟨looked, (hsearch looked "op4").mpr ⟨rfl, hgenerated.symm.trans hname⟩, hlooked⟩
  · have hreach : squatted.Reachable := ⟨⟨0⟩, "squatted", {}, _, by decide, rfl⟩
    have hsum := unusedName_found_free_least.2 squatted hreach
      (.unnamed .elementwiseSum Params.valid_elementwiseSum) [⟨⟨0⟩, 1⟩, ⟨⟨0⟩, 2⟩] rfl
    cases h : squatted.apply (.unnamed .elementwiseSum Params.valid_elementwiseSum)
        [⟨⟨0⟩, 1⟩, ⟨⟨0⟩, 2⟩] with
    | error e =>
        have hok : (squatted.apply (.unnamed .elementwiseSum Params.valid_elementwiseSum)
          [⟨⟨0⟩, 1⟩, ⟨⟨0⟩, 2⟩]).isOk = true := by decide
        rw [h] at hok
        cases hok
    | ok r =>
        obtain ⟨n, hops, hname, -⟩ := hsum.2.2 r h
        exact ⟨r, n, rfl, hops, hname.trans hgenerated⟩

end Graph

end TensorGraph
