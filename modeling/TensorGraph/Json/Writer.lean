/-!
# `TensorGraph.Json.Writer` — **writing JSON**

The compact form: no blanks, members in the order given, strings escaped only where the grammar asks
for it. Quotes, reverse solidi and the control characters with a short escape take that; other
control characters are written by their code; all else stands for itself.
-/

namespace TensorGraph.Json

/-- A hexadecimal digit, in lower case. -/
def hexChar (n : Nat) : Char := Nat.digitChar n

/-- A character inside a string. -/
def escapeChar (c : Char) : List Char :=
  if c = '"' then ['\\', '"']
  else if c = '\\' then ['\\', '\\']
  else if c = '\x08' then ['\\', 'b']
  else if c = '\x0c' then ['\\', 'f']
  else if c = '\n' then ['\\', 'n']
  else if c = '\r' then ['\\', 'r']
  else if c = '\t' then ['\\', 't']
  else if c.toNat < 0x20 then
    ['\\', 'u', '0', '0', hexChar (c.toNat / 16), hexChar (c.toNat % 16)]
  else [c]

/-- A string. -/
def writeString (s : String) : List Char := '"' :: (s.toList.flatMap escapeChar ++ ['"'])

/-- An integer. -/
def writeInteger (n : Int) : List Char :=
  if n < 0 then '-' :: Nat.toDigits 10 n.natAbs else Nat.toDigits 10 n.natAbs

/-- Written parts, with commas between. -/
def writeSequence : List (List Char) → List Char
  | [] => []
  | [part] => part
  | part :: parts => part ++ ',' :: writeSequence parts

/-- An array of written values. -/
def writeArray (parts : List (List Char)) : List Char := '[' :: (writeSequence parts ++ [']'])

/-- A member with a written value. -/
def writeMember (m : String × List Char) : List Char := writeString m.1 ++ ':' :: m.2

/-- An object of members with written values. -/
def writeObject (members : List (String × List Char)) : List Char :=
  '\x7b' :: (writeSequence (members.map writeMember) ++ ['\x7d'])

end TensorGraph.Json
