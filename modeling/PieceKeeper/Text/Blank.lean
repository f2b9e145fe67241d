/-!
# Blank characters

The characters with the property White_Space, and the trimming of texts by it.
-/

namespace PieceKeeper.Text

/-- Whether a character is white space. -/
def isBlank (c : Char) : Bool :=
  let n := c.toNat
  (0x09 ≤ n && n ≤ 0x0d) || n == 0x20 || n == 0x85 || n == 0xa0 || n == 0x1680
    || (0x2000 ≤ n && n ≤ 0x200a) || n == 0x2028 || n == 0x2029 || n == 0x202f || n == 0x205f
    || n == 0x3000

/-- A text without the blanks in front. -/
def trimStart (text : List Char) : List Char := text.dropWhile isBlank

/-- A list without the items at its end that satisfy a test. -/
def dropEnd {α : Type} (test : α → Bool) (items : List α) : List α :=
  (items.reverse.dropWhile test).reverse

/-- A text without the blanks around it. -/
def trim (text : String) : String :=
  String.ofList (dropEnd isBlank (trimStart text.toList))

end PieceKeeper.Text
