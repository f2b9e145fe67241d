import PieceKeeper.Json.Token

/-!
# Reading JSON

A value is built from tokens by a machine that keeps the open arrays and objects on a
stack.  Exactly one value must be there, with nothing but blanks around it.
-/

namespace PieceKeeper.Json

/-- An array or object that is still open, with what it holds so far in reverse. -/
inductive Frame where
  | array (items : List Json)
  | object (members : List (String × Json)) (key : String)

/-- What a reader expects next. -/
inductive Reader where
  /-- A value. -/
  | atValue (stack : List Frame)
  /-- The first item of an array, or its end. -/
  | atItem (stack : List Frame)
  /-- A key; or, of an object without members so far, its end. -/
  | atKey (stack : List Frame) (members : List (String × Json)) (fresh : Bool)
  /-- The colon behind a key. -/
  | atColon (stack : List Frame) (members : List (String × Json)) (key : String)
  /-- A comma or the end of what is open, behind a complete value. -/
  | behind (stack : List Frame) (value : Json)

namespace Reader

/-- Takes the first token of a value. -/
def start (stack : List Frame) : Token → Option Reader
  | .scalar json => some (behind stack json)
  | .beginArray => some (atItem stack)
  | .beginObject => some (atKey stack [] true)
  | _ => none

/-- Takes one token. -/
def step : Reader → Token → Option Reader
  | atValue stack, token => start stack token
  | atItem stack, .endArray => some (behind stack (.array []))
  | atItem stack, token => start (.array [] :: stack) token
  | atKey stack members _, .scalar (.string key) => some (atColon stack members key)
  | atKey stack _ true, .endObject => some (behind stack (.object []))
  | atColon stack members key, .colon => some (atValue (.object members key :: stack))
  | behind (.array items :: stack) last, .comma => some (atValue (.array (last :: items) :: stack))
  | behind (.array items :: stack) last, .endArray =>
    some (behind stack (.array (last :: items).reverse))
  | behind (.object members key :: stack) last, .comma =>
    some (atKey stack ((key, last) :: members) false)
  | behind (.object members key :: stack) last, .endObject =>
    some (behind stack (.object ((key, last) :: members).reverse))
  | _, _ => none

/-- The value, if one is complete and nothing is open. -/
def finish : Reader → Option Json
  | behind [] json => some json
  | _ => none

end Reader

/-- Builds a value from tokens. -/
def ofTokens? (tokens : List Token) : Option Json :=
  (tokens.foldlM Reader.step (.atValue [])).bind Reader.finish

/-- Reads a value from bytes. -/
def parse? (text : Bytes) : Option Json := (Token.ofText text).bind ofTokens?

/-- Reads a value from a text. -/
def ofText? (text : String) : Option Json := parse? text.toUTF8.toList

end PieceKeeper.Json
