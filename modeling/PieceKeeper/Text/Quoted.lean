import PieceKeeper.Text.Ranges

/-!
# Quoted text

A text between quotation marks, in which quotation marks, backslashes, controls and everything
that would not be seen is escaped.
-/

namespace PieceKeeper.Text

/-- Whether a character lies in one of some ranges. -/
def inRanges (ranges : Array (Nat × Nat)) (c : Char) : Bool :=
  ranges.any fun (first, last) ↦ first ≤ c.toNat && c.toNat ≤ last

/-- Whether a character can be seen where it stands. -/
def isVisible (c : Char) : Bool :=
  if c.toNat < 0x7f then 0x20 ≤ c.toNat
  else ¬ inRanges invisibleRanges c && ¬ inRanges extendingRanges c

/-- The number of a character in small hexadecimal digits. -/
def codeDigits (c : Char) : List Char := Nat.toDigits 16 c.toNat

/-- A character inside quotation marks. -/
def quoteChar (c : Char) : List Char :=
  if c = '\x00' then ['\\', '0']
  else if c = '\t' then ['\\', 't']
  else if c = '\r' then ['\\', 'r']
  else if c = '\n' then ['\\', 'n']
  else if c = '\x22' ∨ c = '\\' then ['\\', c]
  else if isVisible c then [c]
  else ['\\', 'u', '\x7b'] ++ codeDigits c ++ ['\x7d']

/-- A text between quotation marks. -/
def quote (text : String) : String :=
  "\"" ++ String.ofList (text.toList.flatMap quoteChar) ++ "\""

end PieceKeeper.Text
