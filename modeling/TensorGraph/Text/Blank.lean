/-!
# `TensorGraph.Text.Blank` — **blank texts**

A text is *blank* when it holds nothing but white space. White space is the Unicode property
`White_Space`, which reaches past the ASCII blanks to the no-break, ideographic and typographic
spaces and to the line and paragraph separators.
-/

namespace TensorGraph.Text

/-- The code points with the Unicode property `White_Space`, as inclusive ranges in order. -/
def whiteSpaceRanges : List (Nat × Nat) :=
  [(0x0009, 0x000D), (0x0020, 0x0020), (0x0085, 0x0085), (0x00A0, 0x00A0), (0x1680, 0x1680),
   (0x2000, 0x200A), (0x2028, 0x2029), (0x202F, 0x202F), (0x205F, 0x205F), (0x3000, 0x3000)]

/-- The character is white space. -/
def isWhiteSpace (c : Char) : Bool :=
  whiteSpaceRanges.any fun r => r.1 ≤ c.toNat && c.toNat ≤ r.2

/-- The text holds nothing but white space; the empty text is blank too. -/
def isBlank (s : String) : Bool :=
  s.toList.all isWhiteSpace

end TensorGraph.Text
