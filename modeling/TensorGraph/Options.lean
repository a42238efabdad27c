import TensorGraph.Text.Blank

/-!
# `TensorGraph.Options` — **options of a graph**

What a graph is created with: how operators without a name are called, and the highest rank of
tensors that come from outside.
-/

namespace TensorGraph

/-- Options of a graph. -/
structure Options where
  /-- What generated operator names start with; a number follows. -/
  autoName : String := "op"
  /-- Highest rank accepted for inputs and constants. -/
  maxRank : UInt64 := 5
deriving DecidableEq, Inhabited

/-- Which option is refused. -/
inductive OptionsFault where
  /-- Generated names would start with nothing but white space. -/
  | blankAutoName
  /-- No tensor has rank zero. -/
  | zeroMaxRank
deriving DecidableEq

namespace OptionsFault

/-- The option's name. -/
def field : OptionsFault → String
  | blankAutoName => "auto_name_prefix"
  | zeroMaxRank => "max_rank"

/-- Why it is refused. -/
def reason : OptionsFault → String
  | blankAutoName => "must not be empty"
  | zeroMaxRank => "must be at least 1"

/-- Wording. -/
def message (f : OptionsFault) : String := s!"invalid graph option '{f.field}': {f.reason}"

end OptionsFault

/-- Why options cannot be used. -/
inductive ConfigError where
  /-- The text is not the JSON form of options. -/
  | malformed
  | invalid (fault : OptionsFault)
deriving DecidableEq

/-- Wording. -/
def ConfigError.message : ConfigError → String
  | malformed => "could not parse graph options"
  | invalid fault => fault.message

namespace Options

/-- The first option that is refused. -/
def fault? (o : Options) : Option OptionsFault :=
  if Text.isBlank o.autoName then some .blankAutoName
  else if o.maxRank = 0 then some .zeroMaxRank
  else none

/-- Options that a graph can be created with. -/
def Valid (o : Options) : Prop := Text.isBlank o.autoName = false ∧ o.maxRank ≠ 0

instance (o : Options) : Decidable o.Valid := inferInstanceAs (Decidable (_ ∧ _))

theorem fault?_eq_none_iff {o : Options} : o.fault? = none ↔ o.Valid := by
  unfold fault? Valid
  cases hb : Text.isBlank o.autoName <;> by_cases hr : o.maxRank = 0 <;> simp [hr]

/-- Refuses invalid options. -/
def validate (o : Options) : Except OptionsFault Unit :=
  match o.fault? with
  | some fault => .error fault
  | none => .ok ()

theorem validate_eq_ok_iff {o : Options} : o.validate = .ok () ↔ o.Valid := by
  rw [← fault?_eq_none_iff, validate]
  cases o.fault? <;> simp

theorem valid_default : ({} : Options).Valid := by decide

end Options

end TensorGraph
