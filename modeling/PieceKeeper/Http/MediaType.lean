import PieceKeeper.Text.Charset

/-!
# Media types

The type of a body, such as `text/plain; charset=utf-8`: two names with a slash between them,
and parameters behind semicolons.
-/

namespace PieceKeeper.Http

/-- Whether a character may be part of a name. -/
def isTokenChar (c : Char) : Bool :=
  c.isAlphanum || "!#$%&'*+-.^_\x60|~".toList.contains c

/-- The parameters of a media type, from the text behind its names.  A value may stand between
quotation marks. -/
def parameters : Nat → List Char → Option (List (String × String))
  | 0, _ => none
  | room + 1, text =>
    match text.dropWhile (· == ' ') with
    | [] => some []
    | ';' :: rest =>
      match rest.dropWhile (· == ' ') with
      | [] => some []
      | rest => do
        let (name, rest) := rest.span isTokenChar
        guard (¬ name.isEmpty)
        let '=' :: rest := rest | none
        let (value, rest) ←
          match rest with
          | '\x22' :: rest =>
            match rest.span (· != '\x22') with
            | (value, _ :: rest) => some (value, rest)
            | _ => none
          | _ => some (rest.span isTokenChar)
        let others ← parameters room rest
        return (String.ofList (name.map Char.toLower), String.ofList value) :: others
    | _ => none

/-- The character set that a media type names; UTF-8 if it names none. -/
def charsetOf (mediaType : String) : Charset :=
  let (type, rest) := mediaType.toList.span isTokenChar
  match rest with
  | '/' :: rest =>
    let (subtype, rest) := rest.span isTokenChar
    if type.isEmpty ∨ subtype.isEmpty then .utf8
    else
      match (parameters (rest.length + 1) rest).bind (·.lookup "charset") with
      | some label => .ofLabel label
      | none => .utf8
  | _ => .utf8

end PieceKeeper.Http
