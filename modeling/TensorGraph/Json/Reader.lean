import TensorGraph.Shape.Error

/-!
# `TensorGraph.Json.Reader` — **reading JSON**

Readers take values straight off the text, from left to right, and fail at the first place where the
text is not what they want; nothing is read twice. The grammar is the strict one: no leading zeros,
no raw control characters in strings, no lone surrogates, no trailing commas.

Every reader skips the blanks before its value and leaves the text after it.

## Contents
- **Readers** and how they fail.
- **Strings, numbers and words.**
- **Arrays and objects.** An object is read member by member into a state, so that what a member
  may hold can depend on its key and on the members before it.
- **Skimming.** `skim` steps over a value of any form. It is content with escapes of lone
  surrogates, since nothing is made of them.
-/

namespace TensorGraph.Json

/-- Why a text cannot be read. -/
inductive ReadFault where
  /-- The text is no JSON, or no value of the wanted form. -/
  | malformed
  /-- A value of the wanted form makes no axis order or shape. -/
  | invalid (cause : ShapeError)
deriving DecidableEq

/-- Takes a value off the front of a text, or fails. -/
abbrev Reader (α : Type) := List Char → Except ReadFault (α × List Char)

/-- A blank between tokens. -/
def isBlank (c : Char) : Bool := c == ' ' || c == '\n' || c == '\t' || c == '\r'

/-- The text from its first token on. -/
def skipBlanks (cs : List Char) : List Char := cs.dropWhile isBlank

/-- The text after a punctuation mark, which has to come next. -/
def expect (mark : Char) (cs : List Char) : Except ReadFault (List Char) :=
  match skipBlanks cs with
  | c :: rest => if c = mark then .ok rest else .error .malformed
  | [] => .error .malformed

/-! ## Strings -/

/-- Value of a hexadecimal digit. -/
def hexDigit? (c : Char) : Option Nat :=
  if c.isDigit then some (c.toNat - 48)
  else if 'a' ≤ c ∧ c ≤ 'f' then some (c.toNat - 87)
  else if 'A' ≤ c ∧ c ≤ 'F' then some (c.toNat - 55)
  else none

/-- Value of four hexadecimal digits. -/
def hex4? (a b c d : Char) : Option Nat := do
  return (((← hexDigit? a) * 16 + (← hexDigit? b)) * 16 + (← hexDigit? c)) * 16 + (← hexDigit? d)

/-- The character that a one-letter escape stands for. -/
def shortEscape? : Char → Option Char
  | '"' => some '"'
  | '\\' => some '\\'
  | '/' => some '/'
  | 'b' => some '\x08'
  | 'f' => some '\x0c'
  | 'n' => some '\n'
  | 'r' => some '\r'
  | 't' => some '\t'
  | _ => none

/-- The unit opens a pair of surrogates. -/
def isHighSurrogate (n : Nat) : Bool := 0xD800 ≤ n && n < 0xDC00

/-- The unit closes a pair of surrogates. -/
def isLowSurrogate (n : Nat) : Bool := 0xDC00 ≤ n && n < 0xE000

/-- The character of a pair of surrogates. -/
def ofSurrogates (high low : Nat) : Char :=
  Char.ofNat (0x10000 + (high - 0xD800) * 0x400 + (low - 0xDC00))

/-- Puts a character before what a reader of characters has read. -/
def consChar (c : Char) (r : Except ReadFault (List Char × List Char)) :
    Except ReadFault (List Char × List Char) :=
  r.map fun p => (c :: p.1, p.2)

/-- The characters of a string up to its closing quote. -/
def readStringBody : List Char → Except ReadFault (List Char × List Char)
  | [] => .error .malformed
  | '"' :: rest => .ok ([], rest)
  | '\\' :: 'u' :: a :: b :: c :: d :: rest =>
    match hex4? a b c d with
    | none => .error .malformed
    | some n =>
      if isHighSurrogate n then
        match rest with
        | '\\' :: 'u' :: e :: f :: g :: h :: rest =>
          match hex4? e f g h with
          | some m =>
            if isLowSurrogate m then consChar (ofSurrogates n m) (readStringBody rest)
            else .error .malformed
          | none => .error .malformed
        | _ => .error .malformed
      else if isLowSurrogate n then .error .malformed
      else consChar (Char.ofNat n) (readStringBody rest)
  | '\\' :: c :: rest =>
    match shortEscape? c with
    | some e => consChar e (readStringBody rest)
    | none => .error .malformed
  | c :: rest => if c.toNat < 0x20 then .error .malformed else consChar c (readStringBody rest)

/-- A string. -/
def readString : Reader String := fun cs => do
  let cs ← expect '"' cs
  let (body, rest) ← readStringBody cs
  return (String.ofList body, rest)

/-- The text after a string's closing quote. -/
def skimStringBody : List Char → Except ReadFault (List Char)
  | [] => .error .malformed
  | '"' :: rest => .ok rest
  | '\\' :: 'u' :: a :: b :: c :: d :: rest =>
    if (hex4? a b c d).isSome then skimStringBody rest else .error .malformed
  | '\\' :: c :: rest =>
    if (shortEscape? c).isSome then skimStringBody rest else .error .malformed
  | c :: rest => if c.toNat < 0x20 then .error .malformed else skimStringBody rest

/-! ## Numbers -/

/-- A number as written. -/
inductive Numeral where
  /-- A sign and digits. -/
  | whole (negative : Bool) (magnitude : Nat)
  /-- With a fraction or an exponent. -/
  | broken
deriving DecidableEq

/-- The digits that a text starts with, and the text after them. -/
def spanDigits (cs : List Char) : List Char × List Char :=
  (cs.takeWhile Char.isDigit, cs.dropWhile Char.isDigit)

/-- At least one digit. -/
def readDigits (cs : List Char) : Except ReadFault (List Char × List Char) :=
  match spanDigits cs with
  | ([], _) => .error .malformed
  | (ds, rest) => .ok (ds, rest)

/-- The digits before a fraction: no zero leads others. -/
def readMagnitude (cs : List Char) : Except ReadFault (Nat × List Char) := do
  let (ds, rest) ← readDigits cs
  match ds with
  | '0' :: _ :: _ => .error .malformed
  | _ => .ok (Nat.ofDigitChars 10 ds 0, rest)

/-- A sign of an exponent, if there is one, is passed over. -/
def skipSign : List Char → List Char
  | '+' :: rest => rest
  | '-' :: rest => rest
  | cs => cs

/-- An exponent, if there is one: whether there was, and the text after it. -/
def readExponent : List Char → Except ReadFault (Bool × List Char)
  | 'e' :: rest | 'E' :: rest => do
    let (_, rest) ← readDigits (skipSign rest)
    return (true, rest)
  | cs => .ok (false, cs)

/-- A fraction, if there is one: whether there was, and the text after it. -/
def readFraction : List Char → Except ReadFault (Bool × List Char)
  | '.' :: rest => do
    let (_, rest) ← readDigits rest
    return (true, rest)
  | cs => .ok (false, cs)

/-- A sign, if there is one: whether there was, and the text after it. -/
def readSign : List Char → Bool × List Char
  | '-' :: rest => (true, rest)
  | cs => (false, cs)

/-- A number. -/
def readNumeral : Reader Numeral := fun cs => do
  let (negative, cs) := readSign (skipBlanks cs)
  let (magnitude, cs) ← readMagnitude cs
  let (fraction, cs) ← readFraction cs
  let (exponent, cs) ← readExponent cs
  return (if fraction || exponent then .broken else .whole negative magnitude, cs)

/-- The integer of a numeral. The negative zero is none. -/
def Numeral.integer? : Numeral → Option Int
  | whole false n => some n
  | whole true 0 => none
  | whole true n => some (-n)
  | broken => none

/-- An integer from `low` to `high`. -/
def readInteger (low high : Int) : Reader Int := fun cs => do
  let (numeral, rest) ← readNumeral cs
  match numeral.integer? with
  | some n => if low ≤ n ∧ n ≤ high then return (n, rest) else throw .malformed
  | none => throw .malformed

/-! ## Arrays -/

/-- The elements of an array up to the closing bracket, at least one and at most `most`. -/
def readElements {α : Type} (item : Reader α) : (most : Nat) → Reader (List α)
  | 0, _ => .error .malformed
  | most + 1, cs => do
    let (a, cs) ← item cs
    match skipBlanks cs with
    | ',' :: cs => do
      let (as, cs) ← readElements item most cs
      return (a :: as, cs)
    | ']' :: cs => return (a :: [], cs)
    | _ => throw .malformed

/-- An array of values of one form. -/
def readArray {α : Type} (item : Reader α) : Reader (List α) := fun cs => do
  let cs ← expect '[' cs
  match skipBlanks cs with
  | ']' :: cs => return ([], cs)
  | cs => readElements item cs.length cs

/-- The next element of an array that is under way, if it does not end before. -/
def readNext? {α : Type} (first : Bool) (item : Reader α) : Reader (Option α) := fun cs =>
  match skipBlanks cs with
  | ']' :: cs => .ok (none, ']' :: cs)
  | cs => do
    let cs ← if first then pure cs else expect ',' cs
    let (a, cs) ← item cs
    return (some a, cs)

/-- The next element of an array that is under way. -/
def readNext {α : Type} (first : Bool) (item : Reader α) : Reader α := fun cs => do
  let cs ← if first then pure cs else expect ',' cs
  item cs

/-! ## Objects -/

/-- The members of an object up to the closing brace, at least one and at most `most`. -/
def readMembers {κ σ : Type} (key : Reader κ) (member : σ → κ → Reader σ) :
    (most : Nat) → σ → Reader σ
  | 0, _, _ => .error .malformed
  | most + 1, s, cs => do
    let (k, cs) ← key cs
    let cs ← expect ':' cs
    let (s, cs) ← member s k cs
    match skipBlanks cs with
    | ',' :: cs => readMembers key member most s cs
    | '\x7d' :: cs => return (s, cs)
    | _ => throw .malformed

/-- An object, its members read into a state. -/
def readObject {κ σ : Type} (key : Reader κ) (member : σ → κ → Reader σ) (s : σ) : Reader σ :=
  fun cs => do
    let cs ← expect '\x7b' cs
    match skipBlanks cs with
    | '\x7d' :: cs => return (s, cs)
    | cs => readMembers key member cs.length s cs

/-- A member that may come once: it fails where there is a value already. -/
def readOnce {α : Type} (place : Option α) (item : Reader α) : Reader α :=
  match place with
  | some _ => fun _ => .error .malformed
  | none => item

/-! ## Skimming -/

/-- A reader that forgets its value. -/
def forget {α : Type} (item : Reader α) : Reader Unit := fun cs =>
  (item cs).map fun p => ((), p.2)

/-- The key of a member that is stepped over. -/
def skimKey : Reader Unit := fun cs => do
  let cs ← expect '"' cs
  let rest ← skimStringBody cs
  return ((), rest)

/-- A value of any form, nested less than `depth` deep. -/
def skimValue : (depth : Nat) → Reader Unit
  | 0, _ => .error .malformed
  | depth + 1, cs =>
    match skipBlanks cs with
    | '"' :: _ => skimKey cs
    | '[' :: _ => forget (readArray (skimValue depth)) cs
    | '\x7b' :: _ => readObject skimKey (fun _ _ => skimValue depth) () cs
    | 'n' :: 'u' :: 'l' :: 'l' :: rest => .ok ((), rest)
    | 't' :: 'r' :: 'u' :: 'e' :: rest => .ok ((), rest)
    | 'f' :: 'a' :: 'l' :: 's' :: 'e' :: rest => .ok ((), rest)
    | _ => forget readNumeral cs

/-- A value of any form. -/
def skim : Reader Unit := fun cs => skimValue (cs.length + 1) cs

/-- The value `null`. -/
def readNull : Reader Unit := fun cs =>
  match skipBlanks cs with
  | 'n' :: 'u' :: 'l' :: 'l' :: rest => .ok ((), rest)
  | _ => .error .malformed

/-! ## Whole texts -/

/-- The value that is all of a text. -/
def readAll {α : Type} (item : Reader α) (text : String) : Except ReadFault α := do
  let (a, rest) ← item text.toList
  match skipBlanks rest with
  | [] => return a
  | _ => throw .malformed

end TensorGraph.Json
