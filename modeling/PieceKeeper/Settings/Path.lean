import PieceKeeper.Settings.Value

/-!
# Paths of settings

A setting is reached through the keys of tables, with dots between them, and through places in
lists, in brackets.  What is set through a path makes the tables and lists on its way; a table
is merged with the one that is there, and all else is replaced.
-/

namespace PieceKeeper

/-- A step of a path. -/
inductive SettingStep where
  | key (name : String)
  | place (index : Int)
  deriving DecidableEq, Repr

namespace SettingStep

/-- Whether a character may be part of a key in a path. -/
def isKeyChar (c : Char) : Bool := c.isAlphanum || c == ' ' || c == '_' || c == '-'

/-- A place between brackets. -/
def index? (text : List Char) : Option Int :=
  let trimmed := ((text.dropWhile (· == ' ')).reverse.dropWhile (· == ' ')).reverse
  let (negative, digits) := Double.signed trimmed
  if digits.isEmpty ∨ ¬ digits.all Char.isDigit then none
  else some (if negative then -(Double.natOf digits : Int) else Double.natOf digits)

/-- The steps behind the first key; at most `room` of them. -/
def rest? : Nat → List Char → Option (List SettingStep)
  | _, [] => some []
  | 0, _ => none
  | room + 1, '.' :: text => do
    let (name, text) := text.span isKeyChar
    guard (¬ name.isEmpty)
    return key (String.ofList name) :: (← rest? room text)
  | room + 1, '[' :: text =>
    match text.span (· != ']') with
    | (inner, _ :: text) => do return place (← index? inner) :: (← rest? room text)
    | _ => none
  | _, _ => none

/-- The steps of a path.  A text that is no path is a key. -/
def ofText (text : String) : List SettingStep :=
  let (name, rest) := text.toList.span isKeyChar
  if name.isEmpty then [key text]
  else
    match rest? rest.length rest with
    | some steps => key (String.ofList name) :: steps
    | none => [key text]

end SettingStep

namespace Setting

/-- The members of a table; none of what is no table. -/
def members : Setting → List (String × Setting)
  | .table members => members
  | _ => []

/-- The items of a list; none of what is no list. -/
def items : Setting → List Setting
  | .list items => items
  | _ => []

/-- Puts a value under a key, in small letters, in place of what is there. -/
def put (root : Setting) (key : String) (value : Setting) : Setting :=
  let key := key.toLower
  let members := root.members
  if (members.lookup key).isSome then
    .table (members.map fun (other, old) ↦ (other, if other = key then value else old))
  else .table (members ++ [(key, value)])

/-- What is under a key. -/
def under (root : Setting) (key : String) : Option Setting := root.members.lookup key.toLower

mutual

/-- Sets a key: a table is merged with what is there. -/
def assign (root : Setting) (key : String) : Setting → Setting
  | .table members => root.put key (assignAll ((root.under key).getD (.table [])) members)
  | value => root.put key value

/-- Sets keys one after the other. -/
def assignAll (root : Setting) : List (String × Setting) → Setting
  | [] => root
  | (key, value) :: members => assignAll (assign root key value) members

end

/-- The place in a list that an index stands for: negative ones count from the end. -/
def placeOf (index : Int) (length : Nat) : Nat :=
  if 0 ≤ index then index.toNat else length - index.natAbs

/-- The longest list that a path makes. -/
def longestList : Nat := 65536

/-- Puts a value at a place, behind as many empty ones as are missing. -/
def putAt (root : Setting) (index : Int) (value : Option Setting → Setting) : Setting :=
  let items := root.items
  let place := placeOf index items.length
  if longestList ≤ place then .list items
  else
    let items := items ++ List.replicate (place + 1 - items.length) .nothing
    .list (items.set place (value items[place]?))

/-- Sets what a path leads to. -/
def setThrough (root : Setting) : List SettingStep → Setting → Setting
  | [], _ => root
  | [.key name], value => root.assign name value
  | [.place index], value => root.putAt index fun _ ↦ value
  | .key name :: steps, value =>
    root.put name (setThrough ((root.under name).getD .nothing) steps value)
  | .place index :: steps, value =>
    root.putAt index fun old ↦ setThrough (old.getD .nothing) steps value

/-- Sets the paths that a source gives. -/
def collect (root : Setting) (source : List (String × Setting)) : Setting :=
  source.foldl (fun root (path, value) ↦ root.setThrough (SettingStep.ofText path) value) root

end Setting

end PieceKeeper
