/-!
# `TensorGraph.Capability` — **what an operator kind declares about itself**

Capabilities are static tags: each operator kind declares a fixed set of them, and later stages
(fusion, weight serialisation, in-place scheduling) ask for membership. A set is a mask of eight
bits, one per capability from the lowest up; two bits stand for no capability, and masks that
come from outside may carry them.

## Contents
- **Capabilities** with their names and bits.
- **Sets** with the usual operations, and what each does to membership, `contains`.
-/

namespace TensorGraph

/-- A property that an operator kind may declare. -/
inductive Capability where
  /-- An elementwise operator may be fused after this one. -/
  | supportsPostElementwise
  /-- An axiswise operator may be fused after this one. -/
  | supportsPostAxiswise
  /-- Carries learned weights, which are stored apart from activations. -/
  | hasLearnedWeights
  /-- Computes each output element from the same position of its inputs. -/
  | elementwise
  /-- Broadcasts a one-axis operand along one axis of the input. -/
  | axiswise
  /-- The output may reuse the input's buffer. -/
  | inplace
deriving DecidableEq, Repr, Inhabited

namespace Capability

/-- All capabilities, in bit order. -/
def all : List Capability :=
  [supportsPostElementwise, supportsPostAxiswise, hasLearnedWeights, elementwise, axiswise, inplace]

/-- Written form. -/
def name : Capability → String
  | supportsPostElementwise => "SupportsPostElementwise"
  | supportsPostAxiswise => "SupportsPostAxiswise"
  | hasLearnedWeights => "HasLearnedWeights"
  | elementwise => "Elementwise"
  | axiswise => "Axiswise"
  | inplace => "Inplace"

/-- The capability of a name. -/
def ofName? (s : String) : Option Capability := all.find? fun c => c.name == s

/-- The bit that stands for the capability. -/
def bit : Capability → Nat
  | supportsPostElementwise => 0
  | supportsPostAxiswise => 1
  | hasLearnedWeights => 2
  | elementwise => 3
  | axiswise => 4
  | inplace => 5

/-- The mask of the capability's bit alone. -/
def mask (c : Capability) : BitVec 8 := 1#8 <<< c.bit

end Capability

/-- A set of capabilities, as a mask. -/
structure CapabilitySet where
  bits : BitVec 8
deriving DecidableEq

namespace CapabilitySet

/-- The set without members. -/
def empty : CapabilitySet := ⟨0#8⟩

instance : Inhabited CapabilitySet := ⟨empty⟩

/-- Put a member in. -/
def insert (s : CapabilitySet) (c : Capability) : CapabilitySet := ⟨s.bits ||| c.mask⟩

/-- Take a member out. -/
def erase (s : CapabilitySet) (c : Capability) : CapabilitySet := ⟨s.bits &&& ~~~c.mask⟩

/-- The set of the given members. -/
def ofList (cs : List Capability) : CapabilitySet := cs.foldl insert empty

/-- The set of one member. -/
def single (c : Capability) : CapabilitySet := ⟨c.mask⟩

/-- The set of all capabilities. -/
def all : CapabilitySet := ⟨0b111111#8⟩

/-- Members of either set. -/
def union (s t : CapabilitySet) : CapabilitySet := ⟨s.bits ||| t.bits⟩

/-- Members of both sets. -/
def inter (s t : CapabilitySet) : CapabilitySet := ⟨s.bits &&& t.bits⟩

/-- The capability is a member. -/
def contains (s : CapabilitySet) (c : Capability) : Bool := s.bits.getLsbD c.bit

/-- Every bit of the first set is one of the second. -/
def isSubset (s t : CapabilitySet) : Bool := s.bits &&& t.bits == s.bits

/-- No bit is set. -/
def isEmpty (s : CapabilitySet) : Bool := s.bits == 0#8

/-- The number of set bits, those without a capability included. -/
def size (s : CapabilitySet) : Nat := (List.range 8).countP s.bits.getLsbD

/-- The members, in bit order. -/
def members (s : CapabilitySet) : List Capability := Capability.all.filter s.contains

/-- Written form: the members' names in braces. -/
def text (s : CapabilitySet) : String :=
  "\x7b" ++ ", ".intercalate (s.members.map Capability.name) ++ "\x7d"

instance : ToString CapabilitySet := ⟨text⟩

theorem all_eq_ofList : all = ofList Capability.all := by decide

/-! ## Membership -/

theorem getLsbD_mask (c d : Capability) : c.mask.getLsbD d.bit = (c == d) := by
  cases c <;> cases d <;> decide

@[simp] theorem contains_empty (c : Capability) : empty.contains c = false := by
  cases c <;> decide

@[simp] theorem contains_all (c : Capability) : all.contains c = true := by
  cases c <;> decide

@[simp] theorem contains_single (c d : Capability) : (single c).contains d = (c == d) :=
  getLsbD_mask c d

@[simp] theorem contains_insert (s : CapabilitySet) (c d : Capability) :
    (s.insert c).contains d = (s.contains d || c == d) := by
  simp [contains, insert, getLsbD_mask]

@[simp] theorem contains_erase (s : CapabilitySet) (c d : Capability) :
    (s.erase c).contains d = (s.contains d && c != d) := by
  have hbit : d.bit < 8 := by cases d <;> decide
  simp only [contains, erase, BitVec.getLsbD_and, BitVec.getLsbD_not, getLsbD_mask, hbit,
    decide_true, Bool.true_and, bne]

@[simp] theorem contains_union (s t : CapabilitySet) (c : Capability) :
    (s.union t).contains c = (s.contains c || t.contains c) := by
  simp [contains, union]

@[simp] theorem contains_inter (s t : CapabilitySet) (c : Capability) :
    (s.inter t).contains c = (s.contains c && t.contains c) := by
  simp [contains, inter]

@[simp] theorem mem_members {s : CapabilitySet} {c : Capability} :
    c ∈ s.members ↔ s.contains c = true := by
  have hall : c ∈ Capability.all := by cases c <;> decide
  simp [members, hall]

end CapabilitySet

end TensorGraph
