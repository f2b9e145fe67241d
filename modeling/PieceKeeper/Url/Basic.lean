import PieceKeeper.Url.Host

/-!
# Addresses

A URL: a scheme, a host with a port, a path, a query and a fragment.  The schemes of the web
always have a host, take backslashes for slashes and know their ports.  Who asks is never part
of an address that is shown or sent, so what stands before the host is read and dropped.
-/

namespace PieceKeeper

/-- The path of an address: names between slashes, or a text without a structure. -/
inductive UrlPath where
  | segments (names : List String)
  | plain (text : String)
  deriving DecidableEq, Repr

/-- An address.  The host may be an empty name where there could be one. -/
structure Url where
  scheme : String
  host : Option Host
  port : Option Nat := none
  path : UrlPath
  query : Option String := none
  fragment : Option String := none
  deriving DecidableEq, Repr

namespace Url

/-- The port of a scheme of the web. -/
def defaultPort? : String → Option Nat
  | "http" | "ws" => some 80
  | "https" | "wss" => some 443
  | "ftp" => some 21
  | _ => none

/-- Whether a scheme is one of the web or of files. -/
def isSpecial (scheme : String) : Bool := (defaultPort? scheme).isSome || scheme == "file"

/-! ## The parts of an address -/

/-- Drops blanks and controls at both ends, and breaks everywhere. -/
def clean (text : List Char) : List Char :=
  let isEdge (c : Char) : Bool := c.toNat ≤ 0x20
  let trimmed := ((text.dropWhile isEdge).reverse.dropWhile isEdge).reverse
  trimmed.filter fun c ↦ ¬ (c = '\t' ∨ c = '\n' ∨ c = '\r')

/-- Cuts a text before the first character that satisfies a test. -/
def cut (test : Char → Bool) (text : List Char) : List Char × List Char :=
  text.span fun c ↦ ¬ test c

/-- The scheme in small letters and what stands behind its colon. -/
def scheme? (text : List Char) : Option (String × List Char) :=
  match cut (· == ':') text with
  | (first :: name, _ :: rest) =>
    if first.isAlpha ∧ name.all fun c ↦ c.isAlphanum || c == '+' || c == '-' || c == '.' then
      some (String.ofList ((first :: name).map Char.toLower), rest)
    else none
  | _ => none

/-- Whether a character separates the names of a path. -/
def isSlash (special : Bool) (c : Char) : Bool := c == '/' || (special && c == '\\')

/-- Whether a character ends what stands before the path. -/
def endsAuthority (special : Bool) (c : Char) : Bool := isSlash special c || c == '?' || c == '#'

/-- What stands behind the last `@`, and whether there is one. -/
def dropUser (authority : List Char) : Bool × List Char :=
  let parts := authority.splitOn '@'
  (1 < parts.length, parts.getLast?.getD [])

/-- Cuts a text at the colon in front of the port; colons in brackets do not count. -/
def cutPort : Bool → List Char → List Char → List Char × Option (List Char)
  | _, done, [] => (done.reverse, none)
  | false, done, ':' :: rest => (done.reverse, some rest)
  | _, done, '[' :: rest => cutPort true ('[' :: done) rest
  | _, done, ']' :: rest => cutPort false (']' :: done) rest
  | inside, done, c :: rest => cutPort inside (c :: done) rest

/-- The number of a port; an empty one is the same as none. -/
def port? : Option (List Char) → Option (Option Nat)
  | none | some [] => some none
  | some digits => do
    guard (digits.all Char.isDigit)
    let port ← Host.numeral? 10 digits
    if port < 65536 then some (some port) else none

/-- Host and port of an address of a scheme.  Only other schemes than those of the web can do
with an empty host. -/
def authority? (scheme : String) (text : List Char) : Option (Option Host × Option Nat) := do
  let special := isSpecial scheme
  let (hasUser, text) := dropUser text
  let (name, port) := cutPort false [] text
  let number ← port? port
  if name.isEmpty then
    if special ∨ hasUser ∨ port.isSome then none else some (some (.name ""), none)
  else
    let host ← if special then Host.ofText? name else Host.ofOpaque? name
    return (some host, if number = defaultPort? scheme then none else number)

/-! ## Paths -/

/-- What is escaped in the names of a path. -/
def pathSet : List Char := " \"<>\x60#?\x7b\x7d".toList

/-- Whether a name stands for its own directory. -/
def isSingleDot (name : String) : Bool :=
  [".", "%2e"].contains name.toLower

/-- Whether a name stands for the directory above. -/
def isDoubleDot (name : String) : Bool :=
  ["..", ".%2e", "%2e.", "%2e%2e"].contains name.toLower

/-- Resolves the names of a path, of which `done` are resolved, in reverse.  A dot at the end
leaves an empty name. -/
def resolve : List String → List String → List String
  | done, [] => done.reverse
  | done, name :: rest =>
    if isDoubleDot name then
      let above := done.drop 1
      if rest.isEmpty then ("" :: above).reverse else resolve above rest
    else if isSingleDot name then
      if rest.isEmpty then ("" :: done).reverse else resolve done rest
    else resolve (name :: done) rest

/-- The names of a path behind its first slash. -/
def segments (special : Bool) (text : List Char) : List String :=
  let separated := text.map fun c ↦ if isSlash special c then '/' else c
  resolve [] ((separated.splitOn '/').map fun name ↦ String.ofList (Percent.encode pathSet name))

/-- The path of an address with a host, or of a scheme of the web. -/
def hierarchicalPath (special : Bool) (text : List Char) : UrlPath :=
  match text with
  | [] => .segments (if special then [""] else [])
  | c :: rest => .segments (segments special (if isSlash special c then rest else text))

/-! ## Addresses -/

/-- Cuts query and fragment off a text. -/
def cutTail (text : List Char) : List Char × Option (List Char) × Option (List Char) :=
  let behind (part : List Char) : Option (List Char) :=
    match part with
    | [] => none
    | _ :: rest => some rest
  let (text, fragment) := cut (· == '#') text
  let (text, query) := cut (· == '?') text
  (text, behind query, behind fragment)

/-- What is escaped in a query. -/
def querySet (special : Bool) : List Char := " \"#<>".toList ++ if special then ['\x27'] else []

/-- What is escaped in a fragment. -/
def fragmentSet : List Char := " \"<>\x60".toList

/-- The host and the path of a scheme's text without query and fragment. -/
def locate? (scheme : String) (text : List Char) : Option (Option Host × Option Nat × UrlPath) :=
  let special := isSpecial scheme
  if scheme == "file" then
    match text.span (isSlash true) with
    | (_ :: _ :: _, _) =>
      let (name, path) := cut (endsAuthority true) (text.drop 2)
      if name.isEmpty ∨ String.ofList name = "localhost" then
        some (some (.name ""), none, hierarchicalPath true path)
      else do return (some (← Host.ofText? name), none, hierarchicalPath true path)
    | _ => some (some (.name ""), none, hierarchicalPath true text)
  else if special then do
    let (name, path) := cut (endsAuthority true) (text.dropWhile (isSlash true))
    let (host, port) ← authority? scheme name
    return (host, port, hierarchicalPath true path)
  else
    match text with
    | '/' :: '/' :: rest => do
      let (name, path) := cut (endsAuthority false) rest
      let (host, port) ← authority? scheme name
      return (host, port, hierarchicalPath false path)
    | '/' :: rest => some (none, none, .segments (segments false rest))
    | _ => some (none, none, .plain (String.ofList (Percent.encode [] text)))

/-- Reads an address. -/
def parse? (text : String) : Option Url := do
  let (scheme, rest) ← scheme? (clean text.toList)
  let (rest, query, fragment) := cutTail rest
  let (host, port, path) ← locate? scheme rest
  let encode (set : List Char) (part : List Char) := String.ofList (Percent.encode set part)
  return {
    scheme, host, port, path
    query := query.map (encode (querySet (isSpecial scheme)))
    fragment := fragment.map (encode fragmentSet) }

/-- The text of a path. -/
def pathText (url : Url) : String :=
  match url.path with
  | .plain text => text
  | .segments names =>
    let text := String.join (names.map ("/" ++ ·))
    if url.host.isNone ∧ 1 < names.length ∧ names.head? = some "" then
      "/." ++ text
    else text

/-- The path and the query, which are what a request asks for. -/
def target (url : Url) : String :=
  url.pathText ++ match url.query with
    | none => ""
    | some query => "?" ++ query

/-- The text of an address. -/
def text (url : Url) : String :=
  let authority :=
    match url.host with
    | none => ""
    | some host =>
      "//" ++ host.text ++ match url.port with
        | none => ""
        | some port => ":" ++ toString port
  url.scheme ++ ":" ++ authority ++ url.target ++ match url.fragment with
    | none => ""
    | some fragment => "#" ++ fragment

/-- The most bytes that an address has which a request can be made to. -/
def longest : Nat := 65534

/-- Whether a request can be made to an address. -/
def isRequestable (url : Url) : Bool :=
  (url.scheme == "http" || url.scheme == "https")
    && url.text.utf8ByteSize ≤ longest
    && match url.host with
      | none => false
      | some (.name name) => ¬ name.toList.any fun c ↦ "\"\x60\x7b\x7d".toList.contains c
      | some _ => true

end Url

end PieceKeeper
