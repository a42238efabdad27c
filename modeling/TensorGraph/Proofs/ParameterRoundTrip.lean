import Mathlib.Algebra.GroupWithZero.Nat
import TensorGraph.Proofs.Growth

/-!
# `TensorGraph.Proofs.ParameterRoundTrip` — **parameters written down and read again**

Parameters are written as signed integers and kept as words. A word below `2 ^ 63` is written as
itself; a larger one has the bits of an integer below zero, and reading refuses those. So writing
and reading are inverse to each other exactly where every word of a window is below `2 ^ 63`, and
where one is not, reading names the field of the first.

## Contents
- **Words** as signed integers: `isWide`, and what reading makes of a written word.
- **Windows.** The words of a window in the order of reading, and the fault of the first wide one.
- **Parameters and operators**, `ofAttributes_toAttributes` and the exact round trip.
-/

namespace TensorGraph

namespace NameMap

variable {α : Type} {m : NameMap α}

theorem mem_keys_insert {name q : String} {value : α} :
    q ∈ (m.insert name value).keys ↔ q = name ∨ q ∈ m.keys := by
  simp only [← contains_iff_mem_keys, contains, find?_insert]
  by_cases hq : q = name
  · simp [hq]
  · simp [hq]

@[simp] theorem keys_empty : (empty : NameMap α).keys = [] := rfl

end NameMap

namespace Params

/-! ## Words -/

/-- The word has the bits of a signed integer below zero. -/
def isWide (n : UInt64) : Bool := 2 ^ 63 ≤ n.toNat

/-- A word as a signed integer of the same bits. -/
theorem toInt_toInt64 (n : UInt64) :
    n.toInt64.toInt = if 2 * n.toNat < 2 ^ 64 then (n.toNat : Int)
      else n.toNat - (2 ^ 64 : Nat) :=
  BitVec.toInt_eq_toNat_cond n.toBitVec

theorem toInt_toInt64_neg_iff {n : UInt64} : n.toInt64.toInt < 0 ↔ isWide n = true := by
  have hlt : n.toNat < 2 ^ 64 := n.toNat_lt
  rw [isWide, decide_eq_true_eq, toInt_toInt64]
  split <;> omega

/-- Reading takes a written word back, unless it was wide. -/
theorem readWord_toInt64 (field : String) (n : UInt64) :
    readWord field n.toInt64 =
      if isWide n then .error (.negative field n.toInt64) else .ok n := by
  unfold readWord
  simp only [toInt_toInt64_neg_iff]
  rfl

/-! ## Windows -/

/-- What reading answers where it may meet a fault. -/
def unlessFault {α : Type} (fault? : Option ParamFault) (a : α) : Except ParamFault α :=
  match fault? with
  | some fault => .error fault
  | none => .ok a

theorem map_unlessFault {α β : Type} (f : α → β) (fault? : Option ParamFault) (a : α) :
    f <$> unlessFault fault? a = unlessFault fault? (f a) := by
  cases fault? <;> rfl

/-- The fault that reading finds in written words, each with its field: the first wide one. -/
def wideFault? (words : List (String × UInt64)) : Option ParamFault :=
  (words.find? fun c => isWide c.2).map fun c => .negative c.1 c.2.toInt64

theorem wideFault?_append (cs ds : List (String × UInt64)) :
    wideFault? (cs ++ ds) = (wideFault? cs).or (wideFault? ds) := by
  simp only [wideFault?, List.find?_append]
  cases cs.find? fun c => isWide c.2 with
  | none => rfl
  | some c => rfl

theorem wideFault?_eq_none_iff {words : List (String × UInt64)} :
    wideFault? words = none ↔ ∀ c ∈ words, c.2.toNat < 2 ^ 63 := by
  simp [wideFault?, isWide]

/-- The two words of a size under its field. -/
def sizeWords (field : String) (s : Spatial) : List (String × UInt64) :=
  [(field, s.height), (field, s.width)]

/-- The words of a window with their fields, in the order in which they are read. -/
def windowWords (w : Window) : List (String × UInt64) :=
  sizeWords "ksize" w.kernel ++ (sizeWords "stride" w.stride ++ sizeWords "padding" w.padding)

/-- The words among the parameters. -/
def words (p : Params) : List (String × UInt64) := (p.window?.map windowWords).getD []

variable {attrs : Attributes}

theorem readSize_sizeValue {field : String} {s : Spatial}
    (h : attrs.find? field = some (sizeValue s)) :
    readSize attrs field = unlessFault (wideFault? (sizeWords field s)) s := by
  have hrequire : require attrs field = .ok (.pair s.height.toInt64 s.width.toInt64) := by
    rw [require, h]
    rfl
  unfold readSize
  rw [hrequire]
  show (readWord field s.height.toInt64 >>= fun height =>
    readWord field s.width.toInt64 >>= fun width => pure (⟨height, width⟩ : Spatial)) = _
  rw [readWord_toInt64, readWord_toInt64]
  by_cases hheight : isWide s.height
  · simp [hheight, sizeWords, wideFault?, unlessFault, bind, Except.bind]
  · by_cases hwidth : isWide s.width
    · simp [hheight, hwidth, sizeWords, wideFault?, unlessFault, bind, Except.bind]
    · simp [hheight, hwidth, sizeWords, wideFault?, unlessFault, bind, Except.bind, pure,
        Except.pure]

/-- **A written window** is read back, unless one of its words is wide. -/
theorem readWindow_written {w : Window} (hvalid : w.Valid)
    (hkernel : attrs.find? "ksize" = some (sizeValue w.kernel))
    (hstride : attrs.find? "stride" = some (sizeValue w.stride))
    (hpadding : attrs.find? "padding" = some (sizeValue w.padding)) :
    readWindow attrs = unlessFault (wideFault? (windowWords w)) w := by
  unfold readWindow
  rw [readSize_sizeValue hkernel, readSize_sizeValue hstride, readSize_sizeValue hpadding,
    windowWords, wideFault?_append, wideFault?_append]
  -- The first size with a wide word decides; without one the window is as valid as it was.
  cases wideFault? (sizeWords "ksize" w.kernel) with
  | some fault => rfl
  | none =>
      cases wideFault? (sizeWords "stride" w.stride) with
      | some fault => rfl
      | none =>
          cases wideFault? (sizeWords "padding" w.padding) with
          | some fault => rfl
          | none =>
              have hfault : Window.fault? ⟨w.kernel, w.stride, w.padding⟩ = none :=
                Window.fault?_eq_none_iff.mpr hvalid
              show (match Window.fault? ⟨w.kernel, w.stride, w.padding⟩ with
                | some fault => throw fault
                | none => pure w) = Except.ok w
              rw [hfault]
              rfl

/-! ## Parameters -/

theorem refuseOthers_eq_ok {fields : List String} (h : ∀ key ∈ attrs.keys, key ∈ fields) :
    refuseOthers attrs fields = .ok () := by
  have hnone : attrs.keys.find? (· ∉ fields) = none := by
    rw [List.find?_eq_none]
    intro key hkey
    simpa using h key hkey
  rw [refuseOthers, hnone]

/-- What is written for a window. -/
def windowAttributes (w : Window) : Attributes :=
  .ofList [("ksize", sizeValue w.kernel), ("stride", sizeValue w.stride),
    ("padding", sizeValue w.padding)]

theorem keys_windowAttributes {w : Window} {key : String} (h : key ∈ (windowAttributes w).keys) :
    key ∈ ["ksize", "stride", "padding"] := by
  simp only [windowAttributes, NameMap.ofList, List.foldl_cons, List.foldl_nil,
    NameMap.mem_keys_insert, NameMap.keys_empty, List.not_mem_nil, or_false] at h
  rcases h with rfl | rfl | rfl <;> simp

theorem readWindow_windowAttributes {w : Window} (hvalid : w.Valid) :
    readWindow (windowAttributes w) = unlessFault (wideFault? (windowWords w)) w := by
  refine readWindow_written hvalid ?_ ?_ ?_ <;> simp [windowAttributes, NameMap.ofList]

/-- Writing uses the fields of the kind and no others. -/
theorem keys_toAttributes (p : Params) : ∀ key ∈ p.toAttributes.keys, key ∈ p.kind.fields := by
  intro key hkey
  cases p with
  | convolution w => exact keys_windowAttributes hkey
  | pooling v w => exact keys_windowAttributes hkey
  | linear => exact hkey
  | axiswise v a => exact hkey
  | activation v => exact hkey
  | elementwiseSum => exact hkey
  | reduce v a => exact hkey

theorem readFields_toAttributes {p : Params} (hvalid : p.Valid) :
    readFields p.kind p.toAttributes = unlessFault (wideFault? p.words) p := by
  cases p with
  | convolution w =>
      show convolution <$> readWindow (windowAttributes w) = _
      rw [readWindow_windowAttributes (hvalid w rfl), map_unlessFault]
      rfl
  | pooling v w =>
      show pooling v <$> readWindow (windowAttributes w) = _
      rw [readWindow_windowAttributes (hvalid w rfl), map_unlessFault]
      rfl
  | linear => rfl
  | axiswise v a => rfl
  | activation v => rfl
  | elementwiseSum => rfl
  | reduce v a => rfl

/-- **Writing parameters and reading them for their kind** gives them back, unless a word among them
    is wide; then the field of the first wide word is refused. -/
theorem ofAttributes_toAttributes {p : Params} (hvalid : p.Valid) :
    ofAttributes p.kind p.toAttributes = unlessFault (wideFault? p.words) p := by
  unfold ofAttributes
  rw [readFields_toAttributes hvalid, refuseOthers_eq_ok p.keys_toAttributes]
  cases wideFault? p.words <;> rfl

/-- Every word of a window is below `2 ^ 63`. -/
def Narrow (p : Params) : Prop := ∀ c ∈ p.words, c.2.toNat < 2 ^ 63

theorem wideFault?_words_eq_none_iff {p : Params} : wideFault? p.words = none ↔ p.Narrow :=
  wideFault?_eq_none_iff

end Params

/-! ## Operators -/

namespace Operator

open Params (wideFault? isWide)

theorem ext_params {op op' : Operator} (hname : op.name? = op'.name?)
    (hparams : op.params = op'.params) : op = op' := by
  cases op
  cases op'
  cases hname
  cases hparams
  rfl

variable {name : String} {kind : OperatorKind} {attrs : Attributes}

/-- **Attributes make an operator** exactly under a name that is not blank, and from what they make
    as parameters. -/
theorem ofAttributes_eq_ok_iff {op : Operator} :
    ofAttributes name kind attrs = .ok op ↔
      op.name? = some name ∧ Params.ofAttributes kind attrs = .ok op.params := by
  unfold ofAttributes
  constructor
  · intro h
    split at h
    · split at h
      · cases h
      · cases h
        exact ⟨rfl, by assumption⟩
    · cases h
  · rintro ⟨hname, hparams⟩
    rw [dif_pos (op.name_not_blank name hname)]
    split
    · rename_i hfault
      rw [hparams] at hfault
      cases hfault
    · rename_i params hread
      rw [hparams] at hread
      cases hread
      exact congrArg Except.ok (ext_params hname.symm rfl)

theorem ofAttributes_eq_error {fault : ParamFault} (hname : Text.isBlank name = false)
    (h : Params.ofAttributes kind attrs = .error fault) :
    ofAttributes name kind attrs = .error (.parameter name fault) := by
  unfold ofAttributes
  rw [dif_pos hname]
  split
  · rename_i hfault
    rw [h] at hfault
    cases hfault
    rfl
  · rename_i hread
    rw [h] at hread
    cases hread

/-- An operator and its copy under the name that the graph gives it are applied alike. -/
theorem apply_congr {op op' : Operator} {g : Graph} (hname : op'.name? = some (g.nameFor op))
    (hparams : op'.params = op.params) (inputs : List VariableId) :
    g.apply op' inputs = g.apply op inputs := by
  have hsame : op'.name?.getD g.unusedName = op.name?.getD g.unusedName := by
    rw [hname]
    rfl
  unfold Graph.apply
  rw [hsame, hparams]

theorem read_toAttributes (op : Operator) :
    Params.ofAttributes op.kind op.params.toAttributes =
      Params.unlessFault (wideFault? op.params.words) op.params :=
  Params.ofAttributes_toAttributes op.params_valid

theorem ofAttributes_toAttributes_eq_ok_iff {op again : Operator} :
    ofAttributes name op.kind op.params.toAttributes = .ok again ↔
      again.name? = some name ∧ again.params = op.params ∧ op.params.Narrow := by
  rw [ofAttributes_eq_ok_iff, read_toAttributes, ← Params.wideFault?_words_eq_none_iff]
  cases wideFault? op.params.words with
  | none => simp [Params.unlessFault, eq_comm]
  | some fault => simp [Params.unlessFault]

/-- The first wide word is refused under its field. -/
theorem ofAttributes_toAttributes_of_not_narrow {op : Operator}
    (hname : Text.isBlank name = false) (hwide : ¬ op.params.Narrow) :
    ∃ field word, op.params.words.find? (fun c => isWide c.2) = some (field, word) ∧
      ofAttributes name op.kind op.params.toAttributes =
        .error (.parameter name (.negative field word.toInt64)) := by
  rw [← Params.wideFault?_words_eq_none_iff, wideFault?, Option.map_eq_none_iff] at hwide
  obtain ⟨⟨field, word⟩, hfirst⟩ := Option.ne_none_iff_exists'.mp hwide
  refine ⟨field, word, hfirst, ofAttributes_eq_error hname ?_⟩
  rw [read_toAttributes, wideFault?, hfirst]
  rfl

/-- **Writing an operator's parameters and constructing from them** gives the operator's parameters
    back exactly if every word of its window is below `2 ^ 63`. The operator so made has the given
    name, and is applied like the first one where that goes by the same name. Where a word is wide,
    the first such word is refused under its field. -/
theorem ofAttributes_toAttributes_iff_narrow (op : Operator) (hname : Text.isBlank name = false) :
    ((∃ again, ofAttributes name op.kind op.params.toAttributes = .ok again ∧
        again.params = op.params) ↔ op.params.Narrow) ∧
      (∀ again, ofAttributes name op.kind op.params.toAttributes = .ok again →
        again.name? = some name ∧ again.params = op.params ∧
          ∀ g inputs, Graph.nameFor g op = name → g.apply again inputs = g.apply op inputs) ∧
      (¬ op.params.Narrow → ∃ field word,
        op.params.words.find? (fun c => isWide c.2) = some (field, word) ∧
          ofAttributes name op.kind op.params.toAttributes =
            .error (.parameter name (.negative field word.toInt64))) := by
  refine ⟨⟨?_, ?_⟩, ?_, ofAttributes_toAttributes_of_not_narrow hname⟩
  · rintro ⟨again, h, -⟩
    exact (ofAttributes_toAttributes_eq_ok_iff.mp h).2.2
  · intro hnarrow
    have hagain : ofAttributes name op.kind op.params.toAttributes =
        .ok (named name op.params hname op.params_valid) :=
      ofAttributes_toAttributes_eq_ok_iff.mpr ⟨rfl, rfl, hnarrow⟩
    exact ⟨_, hagain, rfl⟩
  · intro again h
    obtain ⟨hagain, hsame, -⟩ := ofAttributes_toAttributes_eq_ok_iff.mp h
    exact ⟨hagain, hsame, fun g inputs hg => apply_congr (hg ▸ hagain) hsame inputs⟩

/-- A pooling whose padding is the largest word that is not wide. -/
def widestPooling : Operator :=
  .unnamed (.pooling .max ⟨⟨2, 3⟩, ⟨1, 2⟩, ⟨9223372036854775807, 0⟩⟩) (by decide)

theorem ofAttributes_toAttributes_iff_narrow_widest :
    ∃ again, ofAttributes "pool" widestPooling.kind widestPooling.params.toAttributes = .ok again ∧
      again.params = widestPooling.params := by
  have hname : Text.isBlank "pool" = false := by decide
  refine (ofAttributes_toAttributes_iff_narrow widestPooling hname).1.mpr ?_
  show ∀ c ∈ widestPooling.params.words, c.2.toNat < 2 ^ 63
  decide

/-- A convolution with a padding of `2 ^ 63`. -/
def widePadding : Operator :=
  ⟨some "conv", .convolution ⟨⟨1, 1⟩, ⟨1, 1⟩, ⟨9223372036854775808, 0⟩⟩, by decide, by decide⟩

/-- The padding is accepted, written as the least of all signed integers, and then refused. -/
theorem widePadding_not_read_back :
    convolution "conv" ⟨⟨1, 1⟩, ⟨1, 1⟩, ⟨9223372036854775808, 0⟩⟩ = .ok widePadding ∧
      ofAttributes "conv" widePadding.kind widePadding.params.toAttributes =
        .error (.parameter "conv" (.negative "padding" Int64.minValue)) := by
  constructor
  · rfl
  · rfl

end Operator

end TensorGraph
