/-!
# `TensorGraph.Axis` — **the named axes of a tensor**

A tensor's dimensions are addressed by what they mean, never by position. There are five meanings,
each with a letter for layouts such as `NCHW` and a long name for diagnostics.
-/

namespace TensorGraph

/-- What one dimension of a tensor stands for. -/
inductive Axis where
  | batch
  | channel
  | height
  | width
  | time
deriving DecidableEq, Repr, Inhabited

namespace Axis

/-- All axes, in index order. -/
def all : List Axis := [batch, channel, height, width, time]

/-- Position in `all`. -/
def index : Axis → Nat
  | batch => 0
  | channel => 1
  | height => 2
  | width => 3
  | time => 4

/-- The letter that stands for the axis in a written order. -/
def letter : Axis → Char
  | batch => 'N'
  | channel => 'C'
  | height => 'H'
  | width => 'W'
  | time => 'T'

/-- Long name. -/
def name : Axis → String
  | batch => "batch"
  | channel => "channel"
  | height => "height"
  | width => "width"
  | time => "time"

/-- The axis that a letter stands for; letters are capital. -/
def ofLetter? (c : Char) : Option Axis :=
  all.find? fun a => a.letter == c

/-- Written form: the letter alone. -/
def text (a : Axis) : String := a.letter.toString

instance : ToString Axis := ⟨text⟩

/-- The axis of a written form. -/
def ofText? (s : String) : Option Axis := all.find? fun a => a.text == s

theorem mem_all (a : Axis) : a ∈ all := by cases a <;> decide

@[simp] theorem ofLetter?_letter (a : Axis) : ofLetter? a.letter = some a := by
  cases a <;> decide

/-- **Letters name axes.** A character is read as an axis exactly when it is that axis's letter. -/
theorem ofLetter?_eq_some_iff {c : Char} {a : Axis} : ofLetter? c = some a ↔ c = a.letter := by
  constructor
  · intro h
    have hletter := List.find?_some h
    exact (beq_iff_eq.mp hletter).symm
  · rintro rfl
    exact ofLetter?_letter a

end Axis

end TensorGraph
