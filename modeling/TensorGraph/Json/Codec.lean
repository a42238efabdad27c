import TensorGraph.Json.Reader
import TensorGraph.Json.Writer
import TensorGraph.NameMap

/-!
# `TensorGraph.Json.Codec` — **JSON forms of types**

A codec is the JSON form of a type: how a value is written and how it is read back.

## Contents
- **The type** `Codec`, with `encode` to a text and `decode` from one.
- **Words and texts.**
- **Named values**, for types without data: the name as a string, or an object whose only member
  has the name for a key and `null` for a value.
- **Lists and maps.** Of two members of one key a map keeps the later; all have to be readable.
-/

namespace TensorGraph.Json

/-- The JSON form of a type. -/
structure Codec (α : Type) where
  write : α → List Char
  read : Reader α

namespace Codec

variable {α β : Type}

/-- The JSON text of a value. -/
def encode (c : Codec α) (a : α) : String := String.ofList (c.write a)

/-- The value of a JSON text. -/
def decode (c : Codec α) (text : String) : Except ReadFault α := readAll c.read text

/-! ## Words and texts -/

/-- Texts. -/
def text : Codec String := ⟨writeString, readString⟩

/-- 64-bit words. -/
def word : Codec UInt64 where
  write n := writeInteger n.toNat
  read cs := do
    let (n, rest) ← readInteger 0 (Int.ofNat (UInt64.size - 1)) cs
    return (UInt64.ofNat n.toNat, rest)

/-- Signed 64-bit integers. -/
def signed : Codec Int64 where
  write n := writeInteger n.toInt
  read cs := do
    let (n, rest) ← readInteger Int64.minValue.toInt Int64.maxValue.toInt cs
    return (Int64.ofInt n, rest)

/-! ## Named values -/

/-- The value of a name. -/
def ofName (ofName? : String → Option α) (name : String) : Except ReadFault α :=
  match ofName? name with
  | some a => .ok a
  | none => .error .malformed

/-- A name as a string, or as the key of an object that holds nothing but `null` under it. -/
def readNamed (ofName? : String → Option α) : Reader α := fun cs =>
  match skipBlanks cs with
  | '\x7b' :: rest => do
    let (name, rest) ← readString rest
    let a ← ofName ofName? name
    let rest ← expect ':' rest
    let (_, rest) ← readNull rest
    let rest ← expect '\x7d' rest
    return (a, rest)
  | cs => do
    let (name, rest) ← readString cs
    return (← ofName ofName? name, rest)

/-- Values that go by a name. -/
def named (name : α → String) (ofName? : String → Option α) : Codec α where
  write a := writeString (name a)
  read := readNamed ofName?

/-! ## Lists and maps -/

/-- Lists. -/
def list (c : Codec α) : Codec (List α) where
  write as := writeArray (as.map c.write)
  read := readArray c.read

/-- Maps from names. -/
def map (c : Codec α) : Codec (NameMap α) where
  write m := writeObject (m.entries.map fun e => (e.1, c.write e.2))
  read := readObject readString
    (fun m name cs => do
      let (a, rest) ← c.read cs
      return (m.insert name a, rest))
    .empty

end Codec

end TensorGraph.Json
