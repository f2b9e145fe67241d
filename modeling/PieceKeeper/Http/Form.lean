import PieceKeeper.Text.Charset
import PieceKeeper.Text.Percent

/-!
# Forms

The query of an address as names with values: pairs with ampersands between them, in which
plus signs stand for blanks and bytes may be escaped.
-/

namespace PieceKeeper.Http

/-- The text of a name or a value. -/
def formText (text : List Char) : String :=
  let spaced := text.map fun c ↦ if c = '+' then ' ' else c
  String.ofList
    (Charset.readUtf8 [] none (Percent.decode (String.ofList spaced).toUTF8.toList))

/-- A name and its value; a pair without an equals sign has an empty value. -/
def formPair (pair : List Char) : String × String :=
  let (name, value) := pair.span (· != '=')
  (formText name, formText (value.drop 1))

/-- The pairs of a query. -/
def formPairs (query : String) : List (String × String) :=
  (query.toList.splitOn '&').filterMap fun pair ↦
    if pair.isEmpty then none else some (formPair pair)

end PieceKeeper.Http
