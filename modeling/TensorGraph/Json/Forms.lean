import TensorGraph.Graph.Basic
import TensorGraph.Json.Codec
import TensorGraph.WeightLayout

/-!
# `TensorGraph.Json.Forms` — **JSON forms of the library's data**

## Contents
- **Named values**: axes, capabilities, kinds of operators, roles of variables.
- **Orders and shapes**, which fail with the cause when the parts make no order or shape.
- **Parameters**: a value is an integer, a pair, or an axis, told apart by their forms.
- **Sets of capabilities**, as the number of their mask.
- **Records with fields**: shapes, options, regions, layouts of weights. They are read from an
  object, whose members may come in any order but each only once, or from an array of the fields
  in their order. Members of other names are stepped over, except in options, where they are
  refused. Options may leave fields out.
-/

namespace TensorGraph

open Json

def Axis.codec : Codec Axis := .named Axis.text Axis.ofText?

def Capability.codec : Codec Capability := .named Capability.name Capability.ofName?

def OperatorKind.codec : Codec OperatorKind := .named OperatorKind.name OperatorKind.ofName?

def Variable.Role.codec : Codec Variable.Role := .named Variable.Role.name Variable.Role.ofName?

/-- Takes a part off the text and makes a value of it, with the cause where it makes none. -/
def Json.readInto {α β : Type} (part : Reader α) (make : α → Except ShapeError β) : Reader β :=
  fun cs => do
    let (a, rest) ← part cs
    let b ← (make a).mapError .invalid
    return (b, rest)

/-- Orders, as the text of their letters. -/
def AxisOrder.codec : Codec AxisOrder where
  write o := writeString o.text
  read := readInto readString AxisOrder.parse

/-- Sets of capabilities, as the number of their mask. -/
def CapabilitySet.codec : Codec CapabilitySet where
  write s := writeInteger s.bits.toNat
  read cs := do
    let (n, rest) ← readInteger 0 255 cs
    return (⟨BitVec.ofNat 8 n.toNat⟩, rest)

/-! ## Parameters -/

namespace Attribute

/-- Exactly two integers in an array. -/
def readPair : Reader Attribute := fun cs => do
  let cs ← expect '[' cs
  let (a, cs) ← readNext true Codec.signed.read cs
  let (b, cs) ← readNext false Codec.signed.read cs
  let cs ← expect ']' cs
  return (.pair a b, cs)

/-- The form of a value shows in its first character. -/
def read : Reader Attribute := fun cs =>
  match skipBlanks cs with
  | '[' :: _ => readPair cs
  | '"' :: _ | '\x7b' :: _ => do
    let (a, rest) ← Axis.codec.read cs
    return (.axis a, rest)
  | _ => do
    let (n, rest) ← Codec.signed.read cs
    return (.int n, rest)

/-- An integer, an array of two, or an axis. -/
def codec : Codec Attribute where
  write
    | int n => Codec.signed.write n
    | pair a b => writeArray [Codec.signed.write a, Codec.signed.write b]
    | axis a => Axis.codec.write a
  read := read

end Attribute

def Attributes.codec : Codec Attributes := .map Attribute.codec

/-! ## Records with fields -/

/-- What has been read of a record with two fields. -/
abbrev Json.Parts (α β : Type) := Option α × Option β

/-- The value of a field that is required. -/
def Json.required {α : Type} : Option α → Except ReadFault α
  | some a => .ok a
  | none => .error .malformed

/-- Two fields, from an array of both or from an object; members of other names go to `other`. -/
def Json.readFields {α β : Type} (first : String × Reader α) (second : String × Reader β)
    (other : Reader Unit) : Reader (Parts α β) := fun cs =>
  match skipBlanks cs with
  | '[' :: cs => do
    let (a?, cs) ← readNext? true first.2 cs
    let (b?, cs) ← readNext? false second.2 cs
    let cs ← expect ']' cs
    return ((a?, b?), cs)
  | cs =>
    readObject readString
      (fun parts name cs =>
        if name = first.1 then do
          let (a, cs) ← readOnce parts.1 first.2 cs
          return ((some a, parts.2), cs)
        else if name = second.1 then do
          let (b, cs) ← readOnce parts.2 second.2 cs
          return ((parts.1, some b), cs)
        else do
          let (_, cs) ← other cs
          return (parts, cs))
      (none, none) cs

/-- Refuses a member of an unknown name. -/
def Json.refuse : Reader Unit := fun _ => .error .malformed

/-- Shapes, as order and extents. -/
def Shape.codec : Codec Shape where
  write s := writeObject
    [("order", AxisOrder.codec.write s.order),
     ("dims", writeArray (s.dims.map fun (d : Nat) => writeInteger d))]
  read cs := do
    let (parts, rest) ← readFields ("order", AxisOrder.codec.read)
      ("dims", Codec.word.list.read) skim cs
    let order ← required parts.1
    let dims ← required parts.2
    let s ← (Shape.ofDims order (dims.map UInt64.toNat)).mapError .invalid
    return (s, rest)

namespace Options

/-- Options. A field that is left out has its default. -/
def codec : Codec Options where
  write o := writeObject
    [("auto_name_prefix", Codec.text.write o.autoName), ("max_rank", Codec.word.write o.maxRank)]
  read cs := do
    let (parts, rest) ← readFields ("auto_name_prefix", Codec.text.read)
      ("max_rank", Codec.word.read) refuse cs
    let standard : Options := {}
    return (⟨parts.1.getD standard.autoName, parts.2.getD standard.maxRank⟩, rest)

/-- Valid options from their JSON text. -/
def ofJson (text : String) : Except ConfigError Options :=
  match codec.decode text with
  | .error _ => .error .malformed
  | .ok o => do
    o.validate.mapError .invalid
    return o

end Options

namespace Region

/-- What has been read of a region. -/
structure Parts where
  name? : Option String := none
  offset? : Option UInt64 := none
  size? : Option UInt64 := none

/-- A region, once all its fields are there. -/
def ofParts (p : Parts) : Except ReadFault Region :=
  return ⟨← required p.name?, ← required p.offset?, ← required p.size?⟩

/-- A member of a region's object. -/
def readMember (p : Parts) (name : String) : Reader Parts := fun cs =>
  match name with
  | "name" => do
    let (a, cs) ← readOnce p.name? Codec.text.read cs
    return ({ p with name? := some a }, cs)
  | "offset" => do
    let (a, cs) ← readOnce p.offset? Codec.word.read cs
    return ({ p with offset? := some a }, cs)
  | "size" => do
    let (a, cs) ← readOnce p.size? Codec.word.read cs
    return ({ p with size? := some a }, cs)
  | _ => do
    let (_, cs) ← skim cs
    return (p, cs)

/-- A region from an array of its fields or from an object. -/
def read : Reader Region := fun cs =>
  match skipBlanks cs with
  | '[' :: cs => do
    let (name, cs) ← readNext true Codec.text.read cs
    let (offset, cs) ← readNext false Codec.word.read cs
    let (size, cs) ← readNext false Codec.word.read cs
    let cs ← expect ']' cs
    return (⟨name, offset, size⟩, cs)
  | cs => do
    let (parts, rest) ← readObject readString readMember {} cs
    return (← ofParts parts, rest)

/-- Regions of the weight buffer. -/
def codec : Codec Region where
  write a := writeObject
    [("name", Codec.text.write a.name), ("offset", Codec.word.write a.offset),
     ("size", Codec.word.write a.size)]
  read := read

end Region

/-- Layouts of weights. -/
def WeightLayout.codec : Codec WeightLayout where
  write l := writeObject
    [("total_size", Codec.word.write l.totalSize),
     ("allocations", Region.codec.map.write l.regions)]
  read cs := do
    let (parts, rest) ← readFields ("total_size", Codec.word.read)
      ("allocations", Region.codec.map.read) skim cs
    return (⟨← required parts.1, ← required parts.2⟩, rest)

end TensorGraph
