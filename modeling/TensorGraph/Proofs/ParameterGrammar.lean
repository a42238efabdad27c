import TensorGraph.Proofs.AttributeReading
import TensorGraph.Proofs.FirstFault
import TensorGraph.Proofs.ParameterRoundTrip
import TensorGraph.Proofs.Rehome

/-!
# `TensorGraph.Proofs.ParameterGrammar` — **which attributes make an operator**

A kind has a grammar: its fields, and what each of them takes. Attributes make an operator of the
kind exactly if they have these fields and no others, and a value for each that it takes. What is
read are then the components of the values, and writing them down gives the attributes back, with
pairs in place of single integers.

Attributes can be wrong in several ways at once. The faults of each field come first, field by
field; then the components that are not negative but zero; then the names that are no fields.

## Contents
- **Values**: `components?`, the pair in place of an integer, and the size that a value spells.
- **The grammar** of a kind, and what it is for attributes to describe one.
- **Faults** in the order in which they are looked for, and that reading reports the first.
- **Success**: what the parameters hold, and their normal form.
- **Operators**: `ofAttributes_exact`.
-/

namespace TensorGraph

open Checks

/-! ## Values -/

namespace Attribute

variable {v : Attribute} {s : Spatial}

/-- The components that a value stands for, if it is an integer or a pair. -/
def components? : Attribute → Option (Int64 × Int64)
  | int n => some (n, n)
  | pair a b => some (a, b)
  | axis _ => none

/-- A value with a pair in place of an integer. -/
def paired : Attribute → Attribute
  | int n => pair n n
  | pair a b => pair a b
  | axis a => axis a

/-- The value stands for the components of a size. -/
def Spells (v : Attribute) (s : Spatial) : Prop :=
  ∃ a b, v.components? = some (a, b) ∧ (s.height.toNat : Int) = a.toInt ∧
    (s.width.toNat : Int) = b.toInt

theorem paired_paired (v : Attribute) : v.paired.paired = v.paired := by
  cases v <;> rfl

theorem paired_of_components {a b : Int64} (h : v.components? = some (a, b)) :
    v.paired = pair a b := by
  cases v with
  | int n =>
      cases h
      rfl
  | pair c d =>
      cases h
      rfl
  | axis c => cases h

end Attribute

namespace Params

/-- A word that is not wide is written as itself. -/
theorem toInt64_of_toInt_eq {n : Int64} {word : UInt64} (h : (word.toNat : Int) = n.toInt) :
    word.toInt64 = n := by
  have hlt := n.toInt_lt
  have hnarrow : 2 * word.toNat < 2 ^ 64 := by omega
  have hbits := toInt_toInt64 word
  rw [if_pos hnarrow, h] at hbits
  exact Int64.toInt_inj.mp hbits

/-- An integer that is not below zero is the word of its bits. -/
theorem toNat_toUInt64 {n : Int64} (h : 0 ≤ n.toInt) : (n.toUInt64.toNat : Int) = n.toInt := by
  have hbits : n.toInt = _ := toInt_toInt64 n.toUInt64
  have hlt : n.toUInt64.toNat < 2 ^ 64 := n.toUInt64.toNat_lt
  rw [hbits] at h ⊢
  split at h <;> omega

theorem sizeValue_of_spells {v : Attribute} {s : Spatial} (h : v.Spells s) :
    sizeValue s = v.paired := by
  obtain ⟨a, b, hv, ha, hb⟩ := h
  rw [Attribute.paired_of_components hv, sizeValue, toInt64_of_toInt_eq ha, toInt64_of_toInt_eq hb]

end Params

namespace NameMap

variable {α : Type} {m : NameMap α} {name : String}

/-- The names are those with a value. -/
theorem exists_find?_iff_mem_keys : (∃ v, m.find? name = some v) ↔ name ∈ m.keys := by
  rw [← contains_iff_mem_keys, contains, Option.isSome_iff_exists]

theorem find?_eq_none_of_not_mem_keys (h : name ∉ m.keys) : m.find? name = none := by
  rw [Option.eq_none_iff_forall_ne_some]
  exact fun v hv => h (exists_find?_iff_mem_keys.mp ⟨v, hv⟩)

end NameMap

/-! ## The grammar -/

/-- What a field takes. -/
inductive ParamForm where
  /-- An integer for both components or a pair, with no component below the least. -/
  | size (least : Int)
  | axis

/-- The form takes the value. -/
def ParamForm.Takes : ParamForm → Attribute → Prop
  | size least, v => ∃ a b, v.components? = some (a, b) ∧ least ≤ a.toInt ∧ least ≤ b.toInt
  | axis, v => ∃ a, v = .axis a

/-- **The fields of a kind** and what they take, in the order in which they are read. -/
def OperatorKind.grammar : OperatorKind → List (String × ParamForm)
  | .convolution | .pooling _ => [("ksize", .size 1), ("stride", .size 1), ("padding", .size 0)]
  | .axiswise _ | .reduce _ => [("axis", .axis)]
  | .linear | .activation _ | .elementwiseSum => []

theorem OperatorKind.map_fst_grammar (kind : OperatorKind) :
    kind.grammar.map Prod.fst = kind.fields := by
  cases kind <;> rfl

namespace Attributes

/-- **Attributes describe a kind** if their names are the fields of the kind, and every field takes
    its value. -/
structure Describe (attrs : Attributes) (kind : OperatorKind) : Prop where
  mem_keys_iff : ∀ key, key ∈ attrs.keys ↔ key ∈ kind.grammar.map Prod.fst
  takes : ∀ field form v, (field, form) ∈ kind.grammar → attrs.find? field = some v → form.Takes v

/-- Attributes with pairs in place of integers. -/
def paired (attrs : Attributes) : Attributes := attrs.map Attribute.paired

theorem paired_paired (attrs : Attributes) : attrs.paired.paired = attrs.paired := by
  refine NameMap.ext_find? fun key => ?_
  unfold paired
  rw [NameMap.find?_map, NameMap.find?_map, Option.map_map]
  refine congrArg (Option.map · _) (funext fun v => ?_)
  exact v.paired_paired

/-- Every field has a value that it takes, and there are no other names. -/
theorem describe_iff {attrs : Attributes} {kind : OperatorKind} :
    attrs.Describe kind ↔
      (∀ f ∈ kind.grammar, ∃ v, attrs.find? f.1 = some v ∧ f.2.Takes v) ∧
        ∀ key ∈ attrs.keys, key ∈ kind.fields := by
  constructor
  · rintro ⟨hkeys, htakes⟩
    refine ⟨fun f hf => ?_, fun key hkey => ?_⟩
    · have hmem : f.1 ∈ attrs.keys := (hkeys f.1).mpr (List.mem_map.mpr ⟨f, hf, rfl⟩)
      obtain ⟨v, hv⟩ := NameMap.exists_find?_iff_mem_keys.mpr hmem
      exact ⟨v, hv, htakes f.1 f.2 v hf hv⟩
    · rw [← kind.map_fst_grammar]
      exact (hkeys key).mp hkey
  · rintro ⟨htakes, hothers⟩
    refine ⟨fun key => ⟨fun hkey => ?_, fun hkey => ?_⟩, fun field form v hf hv => ?_⟩
    · rw [kind.map_fst_grammar]
      exact hothers key hkey
    · obtain ⟨f, hf, rfl⟩ := List.mem_map.mp hkey
      obtain ⟨v, hv, -⟩ := htakes f hf
      exact NameMap.exists_find?_iff_mem_keys.mp ⟨v, hv⟩
    · obtain ⟨w, hw, hform⟩ := htakes _ hf
      rw [hv, Option.some.injEq] at hw
      exact hw ▸ hform

end Attributes

/-! ## Faults -/

/-- The faults of one field. A component that is not negative is not looked at more closely yet. -/
def ParamForm.faults (field : String) : ParamForm → Option Attribute → List ParamFault
  | _, none => [.missing field]
  | size _, some v =>
    match v.components? with
    | none => [.notSize field v]
    | some (a, b) =>
      unmet (0 ≤ a.toInt) (.negative field a) ++ unmet (0 ≤ b.toInt) (.negative field b)
  | axis, some (.axis _) => []
  | axis, some v => [.notAxis field v]

/-- A component of the field is zero. -/
def Attributes.hasZero (attrs : Attributes) (field : String) : Bool :=
  ((attrs.find? field).bind Attribute.components?).any fun c => c.1.toInt = 0 ∨ c.2.toInt = 0

namespace OperatorKind

variable (kind : OperatorKind) (attrs : Attributes)

/-- The faults of the fields, one after another. -/
def fieldFaults : List ParamFault :=
  kind.grammar.flatMap fun f => f.2.faults f.1 (attrs.find? f.1)

/-- The faults of a window whose components are not negative. -/
def windowFaults : List ParamFault :=
  match kind with
  | convolution | pooling _ =>
    unmet (attrs.hasZero "ksize" = false) .emptyKernel ++
      unmet (attrs.hasZero "stride" = false) .zeroStride
  | linear | axiswise _ | activation _ | elementwiseSum | reduce _ => []

/-- The names that are no fields, in increasing order. -/
def strangers : List String := attrs.keys.filter (· ∉ kind.grammar.map Prod.fst)

/-- **What can be wrong with attributes**, in the order in which it is looked for. -/
def attributeFaults : List ParamFault :=
  kind.fieldFaults attrs ++ (kind.windowFaults attrs ++ (kind.strangers attrs).map .unknown)

end OperatorKind

namespace Params

variable {attrs : Attributes} {field : String} {v : Attribute} {s : Spatial} {w : Window}
  {kind : OperatorKind} {p : Params}

/-! ### Words and sizes -/

theorem reports_readWord (field : String) (n : Int64) :
    Reports (readWord field n) (unmet (0 ≤ n.toInt) (.negative field n)) := by
  unfold readWord
  by_cases hn : n.toInt < 0
  · rw [if_pos hn, unmet_of_not (by omega)]
    exact Reports.error _ _
  · rw [if_neg hn, unmet_of (by omega)]
    exact Reports.ok _

theorem readWord_eq_ok_iff {n : Int64} {word : UInt64} :
    readWord field n = .ok word ↔ (word.toNat : Int) = n.toInt := by
  unfold readWord
  by_cases hn : n.toInt < 0
  · rw [if_pos hn]
    simp only [reduceCtorEq, false_iff]
    omega
  · have hword := toNat_toUInt64 (n := n) (by omega)
    rw [if_neg hn, Except.ok.injEq, ← hword]
    constructor
    · rintro rfl
      rfl
    · intro h
      exact UInt64.toNat_inj.mp (by omega)

/-- A size is read from the components of its value. -/
theorem readSize_of_find? (h : attrs.find? field = some v) :
    readSize attrs field = match v.components? with
      | none => .error (.notSize field v)
      | some (a, b) => do return ⟨← readWord field a, ← readWord field b⟩ := by
  unfold readSize require
  rw [h]
  cases v <;> rfl

theorem reports_readSize (attrs : Attributes) (field : String) (least : Int) :
    Reports (readSize attrs field) ((ParamForm.size least).faults field (attrs.find? field)) := by
  cases h : attrs.find? field with
  | none =>
      unfold readSize require
      rw [h]
      exact Reports.error _ _
  | some v =>
      rw [readSize_of_find? h]
      unfold ParamForm.faults
      dsimp only
      cases v.components? with
      | none => exact Reports.error _ _
      | some c => exact (reports_readWord _ _).bind fun _ _ => (reports_readWord _ _).bind_pure _

theorem readSize_eq_ok_iff :
    readSize attrs field = .ok s ↔ ∃ v, attrs.find? field = some v ∧ v.Spells s := by
  cases h : attrs.find? field with
  | none =>
      unfold readSize require
      rw [h]
      constructor
      · nofun
      · rintro ⟨v, hv, -⟩
        cases hv
  | some v =>
      rw [readSize_of_find? h]
      simp only [Option.some.injEq, exists_eq_left', Attribute.Spells]
      cases v.components? with
      | none => simp
      | some c =>
          dsimp only
          simp only [bind_eq_ok_iff, readWord_eq_ok_iff, Option.some.injEq]
          constructor
          · rintro ⟨height, hheight, width, hwidth, h⟩
            cases h
            exact ⟨_, _, rfl, hheight, hwidth⟩
          · rintro ⟨a, b, rfl, hheight, hwidth⟩
            exact ⟨_, hheight, _, hwidth, rfl⟩

theorem reports_readAxis (attrs : Attributes) (field : String) :
    Reports (readAxis attrs field) (ParamForm.axis.faults field (attrs.find? field)) := by
  unfold readAxis require
  rcases attrs.find? field with _ | (n | ⟨a, b⟩ | a)
  · exact Reports.error _ _
  · exact Reports.error _ _
  · exact Reports.error _ _
  · exact Reports.ok _

theorem readAxis_eq_ok_iff {a : Axis} :
    readAxis attrs field = .ok a ↔ attrs.find? field = some (.axis a) := by
  unfold readAxis require
  rcases attrs.find? field with _ | (n | ⟨b, c⟩ | b)
  · exact ⟨nofun, nofun⟩
  · exact ⟨nofun, nofun⟩
  · exact ⟨nofun, nofun⟩
  · show (.ok b : Except ParamFault Axis) = .ok a ↔ _
    simp

/-! ### Fields and other names -/

/-- A size that was read has a zero where its value has. -/
theorem hasZero_eq_false_iff (hv : attrs.find? field = some v) (hspells : v.Spells s) :
    attrs.hasZero field = false ↔ s.Positive := by
  obtain ⟨a, b, hc, ha, hb⟩ := hspells
  unfold Attributes.hasZero Spatial.Positive
  rw [hv, Option.bind_some, hc]
  simp only [Option.any_some, decide_eq_false_iff_not, not_or]
  omega

/-- **Reading a window** looks at its fields, then at the window as a whole. -/
theorem reports_readWindow (attrs : Attributes) :
    Reports (readWindow attrs)
      (OperatorKind.convolution.fieldFaults attrs ++
        OperatorKind.convolution.windowFaults attrs) := by
  have hfields : OperatorKind.convolution.fieldFaults attrs =
      (ParamForm.size 1).faults "ksize" (attrs.find? "ksize") ++
        ((ParamForm.size 1).faults "stride" (attrs.find? "stride") ++
          ((ParamForm.size 0).faults "padding" (attrs.find? "padding") ++ [])) := rfl
  rw [hfields, List.append_nil, List.append_assoc, List.append_assoc]
  refine (reports_readSize attrs "ksize" 1).bind fun kernel hkernel => ?_
  refine (reports_readSize attrs "stride" 1).bind fun stride hstride => ?_
  refine (reports_readSize attrs "padding" 0).bind fun padding _ => ?_
  -- All three sizes are read, so what is zero in the window is zero in the attributes.
  obtain ⟨v, hv, hspells⟩ := readSize_eq_ok_iff.mp hkernel
  obtain ⟨v', hv', hspells'⟩ := readSize_eq_ok_iff.mp hstride
  have hfirst := hasZero_eq_false_iff hv hspells
  have hsecond := hasZero_eq_false_iff hv' hspells'
  simp only [OperatorKind.windowFaults, Window.fault?]
  by_cases hk : kernel.Positive
  · by_cases hs : stride.Positive
    · rw [unmet_of (hfirst.mpr hk), unmet_of (hsecond.mpr hs)]
      simp only [hk, hs, not_true_eq_false, if_false]
      exact Reports.ok _
    · rw [unmet_of (hfirst.mpr hk), unmet_of_not fun h => hs (hsecond.mp h)]
      simp only [hk, hs, not_true_eq_false, not_false_eq_true, if_false, if_true]
      exact Reports.error _ _
  · rw [unmet_of_not fun h => hk (hfirst.mp h)]
    simp only [hk, not_false_eq_true, if_true]
    exact Reports.error _ _

/-- Reading an axis looks at its field. -/
theorem reports_axisField (attrs : Attributes) :
    Reports (readAxis attrs "axis")
      ((OperatorKind.axiswise .bias).fieldFaults attrs ++
        (OperatorKind.axiswise .bias).windowFaults attrs) :=
  (reports_readAxis attrs "axis").of_eq ((List.append_nil _).trans (List.append_nil _)).symm

theorem reports_readFields (kind : OperatorKind) (attrs : Attributes) :
    Reports (readFields kind attrs) (kind.fieldFaults attrs ++ kind.windowFaults attrs) := by
  cases kind with
  | convolution => exact (reports_readWindow attrs).map convolution
  | pooling variant => exact (reports_readWindow attrs).map (pooling variant)
  | linear => exact Reports.ok _
  | axiswise role => exact (reports_axisField attrs).map (axiswise role)
  | activation variant => exact Reports.ok _
  | elementwiseSum => exact Reports.ok _
  | reduce variant => exact (reports_axisField attrs).map (reduce variant)

theorem reports_refuseOthers (kind : OperatorKind) (attrs : Attributes) :
    Reports (refuseOthers attrs kind.fields) ((kind.strangers attrs).map .unknown) := by
  have hhead : (kind.strangers attrs).head? = attrs.keys.find? (· ∉ kind.fields) := by
    rw [OperatorKind.strangers, List.head?_filter, kind.map_fst_grammar]
  unfold refuseOthers
  rw [← hhead]
  cases kind.strangers attrs with
  | nil => exact Reports.ok _
  | cons key rest => exact Reports.error _ _

/-- **Reading reports the first of the faults.** -/
theorem reports_ofAttributes (kind : OperatorKind) (attrs : Attributes) :
    Reports (ofAttributes kind attrs) (kind.attributeFaults attrs) := by
  rw [OperatorKind.attributeFaults, ← List.append_assoc]
  exact (reports_readFields kind attrs).bind fun p _ =>
    (reports_refuseOthers kind attrs).bind_pure fun _ => p

end Params

/-! ## Success -/

namespace ParamForm

variable {field : String} {value? : Option Attribute}

theorem faults_size_eq_nil_iff {least : Int} :
    (size least).faults field value? = [] ↔ ∃ v, value? = some v ∧ (size 0).Takes v := by
  rcases value? with _ | v
  · exact ⟨nofun, nofun⟩
  · simp only [faults, Option.some.injEq, exists_eq_left', Takes]
    cases v.components? with
    | none => simp
    | some c =>
        obtain ⟨a, b⟩ := c
        simp

theorem faults_axis_eq_nil_iff :
    axis.faults field value? = [] ↔ ∃ v, value? = some v ∧ axis.Takes v := by
  rcases value? with _ | (n | ⟨a, b⟩ | a) <;> simp [faults, Takes]

/-- A size of at least one is one without a zero. -/
theorem exists_takes_one_iff {attrs : Attributes} :
    (∃ v, attrs.find? field = some v ∧ (size 1).Takes v) ↔
      (∃ v, attrs.find? field = some v ∧ (size 0).Takes v) ∧ attrs.hasZero field = false := by
  unfold Attributes.hasZero Takes
  cases attrs.find? field with
  | none => simp
  | some v =>
      simp only [Option.some.injEq, exists_eq_left', Option.bind_some]
      cases v.components? with
      | none => simp
      | some c =>
          obtain ⟨a, b⟩ := c
          simp only [Option.some.injEq, Prod.mk.injEq, Option.any_some, decide_eq_false_iff_not,
            not_or]
          constructor
          · rintro ⟨_, _, ⟨rfl, rfl⟩, ha, hb⟩
            exact ⟨⟨a, b, ⟨rfl, rfl⟩, by omega, by omega⟩, by omega, by omega⟩
          · rintro ⟨⟨_, _, ⟨rfl, rfl⟩, ha, hb⟩, hna, hnb⟩
            exact ⟨a, b, ⟨rfl, rfl⟩, by omega, by omega⟩

end ParamForm

namespace OperatorKind

variable {kind : OperatorKind} {attrs : Attributes}

theorem fieldFaults_eq_nil_iff :
    kind.fieldFaults attrs = [] ∧ kind.windowFaults attrs = [] ↔
      ∀ f ∈ kind.grammar, ∃ v, attrs.find? f.1 = some v ∧ f.2.Takes v := by
  unfold fieldFaults windowFaults
  cases kind <;>
    simp only [grammar, List.flatMap_cons, List.flatMap_nil, List.append_eq_nil_iff,
      ParamForm.faults_size_eq_nil_iff, ParamForm.faults_axis_eq_nil_iff, unmet_eq_nil_iff,
      List.forall_mem_cons, ParamForm.exists_takes_one_iff, List.not_mem_nil, false_implies,
      implies_true, and_true] <;>
    tauto

/-- **Nothing is wrong** exactly with attributes that describe the kind. -/
theorem attributeFaults_eq_nil_iff : kind.attributeFaults attrs = [] ↔ attrs.Describe kind := by
  rw [attributeFaults, List.append_eq_nil_iff, List.append_eq_nil_iff, ← and_assoc,
    fieldFaults_eq_nil_iff, Attributes.describe_iff, List.map_eq_nil_iff, strangers,
    kind.map_fst_grammar, List.filter_eq_nil_iff]
  refine and_congr_right fun _ => forall₂_congr fun key _ => ?_
  rw [decide_eq_true_eq, not_not]

theorem unknown_not_mem_fieldFaults (key : String) : .unknown key ∉ kind.fieldFaults attrs := by
  rw [fieldFaults, List.mem_flatMap]
  rintro ⟨⟨field, form⟩, -, hmem⟩
  rcases hvalue : attrs.find? field with _ | (n | ⟨a, b⟩ | a) <;> cases form <;>
    simp_all [ParamForm.faults, Attribute.components?]

theorem unknown_not_mem_windowFaults (key : String) : .unknown key ∉ kind.windowFaults attrs := by
  cases kind <;> simp [windowFaults]

/-- The first stranger is the smallest. -/
theorem le_of_head?_strangers {key other : String} (h : (kind.strangers attrs).head? = some key)
    (hother : other ∈ kind.strangers attrs) : key ≤ other := by
  have hsorted : (kind.strangers attrs).Pairwise (· < ·) :=
    (List.pairwise_map.mpr attrs.sorted).filter _
  cases hlist : kind.strangers attrs with
  | nil =>
      rw [hlist] at h
      cases h
  | cons first rest =>
      rw [hlist] at h hother hsorted
      cases h
      rcases List.mem_cons.mp hother with rfl | hrest
      · exact String.le_refl _
      · exact String.not_lt.mp (String.lt_asymm ((List.pairwise_cons.mp hsorted).1 _ hrest))

end OperatorKind

namespace Params

variable {attrs : Attributes} {w : Window} {kind : OperatorKind} {p : Params} {key : String}

/-- The sizes of a window under their fields. -/
def windowSizes (w : Window) : List (String × Spatial) :=
  [("ksize", w.kernel), ("stride", w.stride), ("padding", w.padding)]

/-- The sizes among the parameters. -/
def sizes (p : Params) : List (String × Spatial) := (p.window?.map windowSizes).getD []

/-- The axis, in the families that have one. -/
def axis? : Params → Option Axis
  | axiswise _ a | reduce _ a => some a
  | convolution _ | pooling _ _ | linear | activation _ | elementwiseSum => none

/-- **Parameters hold what attributes say**: the components of each size, and the axis. -/
structure Holds (p : Params) (attrs : Attributes) : Prop where
  sizes : ∀ c ∈ p.sizes, ∃ v, attrs.find? c.1 = some v ∧ v.Spells c.2
  axis : ∀ a, p.axis? = some a → attrs.find? "axis" = some (.axis a)

theorem spells_of_readWindow (h : readWindow attrs = .ok w) :
    ∀ c ∈ windowSizes w, ∃ v, attrs.find? c.1 = some v ∧ v.Spells c.2 := by
  obtain ⟨kernel, hkernel, h⟩ := bind_eq_ok_iff.mp h
  obtain ⟨stride, hstride, h⟩ := bind_eq_ok_iff.mp h
  obtain ⟨padding, hpadding, h⟩ := bind_eq_ok_iff.mp h
  dsimp only at h
  split at h
  · cases h
  · cases h
    simp only [windowSizes, List.forall_mem_cons, List.not_mem_nil, false_implies, implies_true,
      and_true]
    exact ⟨readSize_eq_ok_iff.mp hkernel, readSize_eq_ok_iff.mp hstride,
      readSize_eq_ok_iff.mp hpadding⟩

/-- What is read is of the kind, and holds what the attributes say. -/
theorem holds_of_readFields (h : readFields kind attrs = .ok p) :
    p.kind = kind ∧ p.Holds attrs := by
  cases kind with
  | convolution =>
      obtain ⟨w, hw, rfl⟩ := map_eq_ok_iff.mp h
      exact ⟨rfl, spells_of_readWindow hw, nofun⟩
  | pooling variant =>
      obtain ⟨w, hw, rfl⟩ := map_eq_ok_iff.mp h
      exact ⟨rfl, spells_of_readWindow hw, nofun⟩
  | axiswise role =>
      obtain ⟨a, ha, rfl⟩ := map_eq_ok_iff.mp h
      exact ⟨rfl, nofun, fun b hb => Option.some.inj hb ▸ readAxis_eq_ok_iff.mp ha⟩
  | reduce variant =>
      obtain ⟨a, ha, rfl⟩ := map_eq_ok_iff.mp h
      exact ⟨rfl, nofun, fun b hb => Option.some.inj hb ▸ readAxis_eq_ok_iff.mp ha⟩
  | linear =>
      cases h
      exact ⟨rfl, nofun, nofun⟩
  | activation variant =>
      cases h
      exact ⟨rfl, nofun, nofun⟩
  | elementwiseSum =>
      cases h
      exact ⟨rfl, nofun, nofun⟩

theorem exists_ofAttributes_iff :
    (∃ p, ofAttributes kind attrs = .ok p) ↔ attrs.Describe kind := by
  rw [(reports_ofAttributes kind attrs).exists_ok_iff, OperatorKind.attributeFaults_eq_nil_iff]

theorem holds_of_ofAttributes (h : ofAttributes kind attrs = .ok p) :
    p.kind = kind ∧ p.Holds attrs := by
  obtain ⟨q, hq, h⟩ := bind_eq_ok_iff.mp h
  obtain ⟨-, h⟩ := check_bind_eq_ok_iff.mp h
  cases h
  exact holds_of_readFields hq

/-- Words that were read from signed integers are not wide. -/
theorem narrow_of_holds (h : p.Holds attrs) : p.Narrow := by
  have hwords : p.words = p.sizes.flatMap fun c => sizeWords c.1 c.2 := by
    cases p <;> rfl
  intro c hc
  rw [hwords, List.mem_flatMap] at hc
  obtain ⟨⟨field, s⟩, hs, hc⟩ := hc
  obtain ⟨v, -, a, b, -, ha, hb⟩ := h.sizes _ hs
  have hlta := a.toInt_lt
  have hltb := b.toInt_lt
  simp only [sizeWords, List.mem_cons, List.not_mem_nil, or_false] at hc
  rcases hc with rfl | rfl
  · dsimp only at ha ⊢
    omega
  · dsimp only at hb ⊢
    omega

/-! ### The normal form -/

theorem find?_toAttributes_of_mem_sizes {c : String × Spatial} (h : c ∈ p.sizes) :
    p.toAttributes.find? c.1 = some (sizeValue c.2) := by
  have hwindow : ∀ w : Window, c ∈ windowSizes w →
      (windowAttributes w).find? c.1 = some (sizeValue c.2) := by
    intro w hc
    simp only [windowSizes, List.mem_cons, List.not_mem_nil, or_false] at hc
    rcases hc with rfl | rfl | rfl <;> simp [windowAttributes, NameMap.ofList]
  cases p with
  | convolution w => exact hwindow w h
  | pooling variant w => exact hwindow w h
  | _ => cases h

theorem find?_toAttributes_of_axis? {a : Axis} (h : p.axis? = some a) :
    p.toAttributes.find? "axis" = some (.axis a) := by
  cases p with
  | axiswise role b =>
      cases h
      rfl
  | reduce variant b =>
      cases h
      rfl
  | _ => cases h

/-- A field is that of a size or of an axis. -/
theorem mem_fields_cases (h : key ∈ p.kind.fields) :
    (∃ s, (key, s) ∈ p.sizes) ∨ ∃ a, p.axis? = some a ∧ key = "axis" := by
  have hwindow : ∀ w : Window, key ∈ ["ksize", "stride", "padding"] →
      ∃ s, (key, s) ∈ windowSizes w := by
    intro w hkey
    have hfst : (windowSizes w).map Prod.fst = ["ksize", "stride", "padding"] := rfl
    rw [← hfst] at hkey
    obtain ⟨c, hc, rfl⟩ := List.mem_map.mp hkey
    exact ⟨c.2, hc⟩
  cases p with
  | convolution w => exact Or.inl (hwindow w h)
  | pooling variant w => exact Or.inl (hwindow w h)
  | axiswise role a => exact Or.inr ⟨a, rfl, List.mem_singleton.mp h⟩
  | reduce variant a => exact Or.inr ⟨a, rfl, List.mem_singleton.mp h⟩
  | _ => cases h

/-- **What was read is written as the attributes in their normal form.** -/
theorem toAttributes_eq_paired (h : ofAttributes kind attrs = .ok p) :
    p.toAttributes = attrs.paired := by
  obtain ⟨rfl, hholds⟩ := holds_of_ofAttributes h
  obtain ⟨-, hothers⟩ := Attributes.describe_iff.mp (exists_ofAttributes_iff.mp ⟨p, h⟩)
  refine NameMap.ext_find? fun key => ?_
  rw [Attributes.paired, NameMap.find?_map]
  -- A name is a field of the kind, or neither written nor among the attributes.
  by_cases hkey : key ∈ p.kind.fields
  · rcases mem_fields_cases hkey with ⟨s, hs⟩ | ⟨a, ha, rfl⟩
    · obtain ⟨v, hv, hspells⟩ := hholds.sizes _ hs
      rw [find?_toAttributes_of_mem_sizes hs, hv, Option.map_some, sizeValue_of_spells hspells]
    · rw [find?_toAttributes_of_axis? ha, hholds.axis a ha]
      rfl
  · have hwritten : key ∉ p.toAttributes.keys := fun hmem => hkey (p.keys_toAttributes key hmem)
    have hgiven : key ∉ attrs.keys := fun hmem => hkey (hothers key hmem)
    rw [NameMap.find?_eq_none_of_not_mem_keys hwritten,
      NameMap.find?_eq_none_of_not_mem_keys hgiven]
    rfl

end Params

/-! ## Operators -/

namespace Operator

variable {name : String} {kind : OperatorKind} {attrs : Attributes}

/-- **What can be wrong with a name and attributes**, in the order in which it is looked for. -/
def attributeFaults (name : String) (kind : OperatorKind) (attrs : Attributes) :
    List ParamFault :=
  unmet (Text.isBlank name = false) .blankName ++ kind.attributeFaults attrs

theorem reports_ofAttributes (name : String) (kind : OperatorKind) (attrs : Attributes) :
    Reports (ofAttributes name kind attrs)
      ((attributeFaults name kind attrs).map (.parameter name)) := by
  have hparams := Params.reports_ofAttributes kind attrs
  by_cases hname : Text.isBlank name = false
  · rw [attributeFaults, unmet_of hname, List.nil_append]
    cases h : Params.ofAttributes kind attrs with
    | error fault =>
        rw [ofAttributes_eq_error hname h]
        show (List.map _ _).head? = some _
        rw [List.head?_map, hparams.eq_error_iff.mp h]
        rfl
    | ok p =>
        have hmade : ofAttributes name kind attrs =
            .ok (named name p hname (Params.ofAttributes_valid h)) :=
          ofAttributes_eq_ok_iff.mpr ⟨rfl, h⟩
        rw [hmade, hparams.exists_ok_iff.mp ⟨p, h⟩]
        exact Reports.ok _
  · rw [attributeFaults, unmet_of_not hname, ofAttributes, dif_neg hname]
    exact Reports.error _ _

theorem exists_ofAttributes_iff :
    (∃ op, ofAttributes name kind attrs = .ok op) ↔
      Text.isBlank name = false ∧ attrs.Describe kind := by
  rw [(reports_ofAttributes name kind attrs).exists_ok_iff, List.map_eq_nil_iff, attributeFaults,
    List.append_eq_nil_iff, unmet_eq_nil_iff, OperatorKind.attributeFaults_eq_nil_iff]

theorem ofAttributes_eq_error_iff {e : ConstructError} :
    ofAttributes name kind attrs = .error e ↔
      ∃ fault, (attributeFaults name kind attrs).head? = some fault ∧
        .parameter name fault = e := by
  rw [(reports_ofAttributes name kind attrs).eq_error_iff, List.head?_map, Option.map_eq_some_iff]

/-- A name is refused only if nothing else is wrong, and then it is the first stranger. -/
theorem ofAttributes_eq_unknown_iff {key : String} :
    ofAttributes name kind attrs = .error (.parameter name (.unknown key)) ↔
      Text.isBlank name = false ∧
        (∀ f ∈ kind.grammar, ∃ v, attrs.find? f.1 = some v ∧ f.2.Takes v) ∧
          (kind.strangers attrs).head? = some key := by
  have hblank : ParamFault.unknown key ∉ unmet (Text.isBlank name = false) .blankName := by simp
  have hhead : ((kind.strangers attrs).map ParamFault.unknown).head? = some (.unknown key) ↔
      (kind.strangers attrs).head? = some key := by
    rw [List.head?_map, Option.map_eq_some_iff]
    simp
  rw [ofAttributes_eq_error_iff]
  simp only [ConstructError.parameter.injEq, true_and, exists_eq_right]
  rw [attributeFaults, OperatorKind.attributeFaults, head?_append_eq_some_iff_of_not_mem hblank,
    head?_append_eq_some_iff_of_not_mem (OperatorKind.unknown_not_mem_fieldFaults key),
    head?_append_eq_some_iff_of_not_mem (OperatorKind.unknown_not_mem_windowFaults key), hhead,
    unmet_eq_nil_iff, ← OperatorKind.fieldFaults_eq_nil_iff, and_assoc]

/-- **Attributes make an operator exactly if they describe its kind** and the name is not blank. The
    operator then has the name and the kind, holds the components of the values, and is written as
    the attributes in their normal form, from which the same operator is made again. Where no
    operator is made, the first of the faults is reported; a name that is refused is the smallest of
    those that are no fields. A reader that only notes what it was asked for comes to the same. -/
theorem ofAttributes_exact :
    (∀ (name : String) (kind : OperatorKind) (attrs : Attributes),
      (∃ op, ofAttributes name kind attrs = .ok op) ↔
        Text.isBlank name = false ∧ attrs.Describe kind) ∧
    (∀ (name : String) (kind : OperatorKind) (attrs : Attributes) (op : Operator),
      ofAttributes name kind attrs = .ok op →
        op.name? = some name ∧ op.kind = kind ∧ op.params.Holds attrs ∧
          op.params.toAttributes = attrs.paired ∧ attrs.paired.paired = attrs.paired ∧
            ofAttributes name kind op.params.toAttributes = .ok op) ∧
    (∀ (name : String) (kind : OperatorKind) (attrs : Attributes) (e : ConstructError),
      ofAttributes name kind attrs = .error e ↔
        ∃ fault, (attributeFaults name kind attrs).head? = some fault ∧
          .parameter name fault = e) ∧
    (∀ (name : String) (kind : OperatorKind) (attrs : Attributes) (key : String),
      ofAttributes name kind attrs = .error (.parameter name (.unknown key)) →
        key ∈ attrs.keys ∧ key ∉ kind.grammar.map Prod.fst ∧
          ∀ other ∈ attrs.keys, other ∉ kind.grammar.map Prod.fst → key ≤ other) ∧
    ∀ (kind : OperatorKind) (attrs : Attributes),
      AttributeReader.answer kind attrs = Params.ofAttributes kind attrs := by
  refine ⟨fun name kind attrs => exists_ofAttributes_iff, fun name kind attrs op h => ?_,
    fun name kind attrs e => ofAttributes_eq_error_iff, fun name kind attrs key h => ?_,
    AttributeReader.answer_eq⟩
  · obtain ⟨hname, hparams⟩ := ofAttributes_eq_ok_iff.mp h
    obtain ⟨hkind, hholds⟩ := Params.holds_of_ofAttributes hparams
    have hagain : ofAttributes name op.kind op.params.toAttributes = .ok op :=
      ofAttributes_toAttributes_eq_ok_iff.mpr ⟨hname, rfl, Params.narrow_of_holds hholds⟩
    exact ⟨hname, hkind, hholds, Params.toAttributes_eq_paired hparams, attrs.paired_paired,
      hkind ▸ hagain⟩
  · obtain ⟨-, -, hfirst⟩ := ofAttributes_eq_unknown_iff.mp h
    obtain ⟨hkey, hstranger⟩ := List.mem_filter.mp (List.mem_of_head? hfirst)
    refine ⟨hkey, of_decide_eq_true hstranger, fun other hother hnot => ?_⟩
    exact OperatorKind.le_of_head?_strangers hfirst
      (List.mem_filter.mpr ⟨hother, decide_eq_true hnot⟩)

/-- A pooling by integers and pairs. -/
def poolAttributes : Attributes :=
  .ofList [("padding", .int 0), ("ksize", .int 2), ("stride", .pair 1 2)]

/-- A kernel of zeros, a stride that goes backwards, a padding that is an axis, and a name too
    many. -/
def faultyAttributes : Attributes :=
  .ofList [("groups", .int 4), ("ksize", .int 0), ("padding", .axis .time),
    ("stride", .pair 1 (-1))]

/-- The pooling is made and written with pairs; of several faults that of the stride comes first. -/
theorem ofAttributes_exact_pool :
    (∃ op, ofAttributes "pool" (.pooling .max) poolAttributes = .ok op ∧
      op.params.toAttributes.find? "ksize" = some (.pair 2 2)) ∧
      ofAttributes "pool" (.pooling .max) faultyAttributes =
        .error (.parameter "pool" (.negative "stride" (-1))) := by
  obtain ⟨haccepted, hmade, hrefused, -⟩ := ofAttributes_exact
  have hdescribe : poolAttributes.Describe (.pooling .max) := by
    refine Attributes.describe_iff.mpr ⟨?_, by decide⟩
    simp only [OperatorKind.grammar, List.forall_mem_cons, List.not_mem_nil, false_implies,
      implies_true, and_true]
    exact ⟨⟨.int 2, rfl, 2, 2, rfl, by decide, by decide⟩,
      ⟨.pair 1 2, rfl, 1, 2, rfl, by decide, by decide⟩,
      ⟨.int 0, rfl, 0, 0, rfl, by decide, by decide⟩⟩
  obtain ⟨op, hop⟩ := (haccepted "pool" (.pooling .max) poolAttributes).mpr ⟨by decide, hdescribe⟩
  obtain ⟨-, -, -, hpaired, -⟩ := hmade _ _ _ _ hop
  refine ⟨⟨op, hop, ?_⟩, (hrefused _ _ _ _).mpr ⟨_, ?_, rfl⟩⟩
  · rw [hpaired]
    rfl
  · rfl

end Operator

end TensorGraph
