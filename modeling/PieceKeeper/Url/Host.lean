import PieceKeeper.Text.Percent
import PieceKeeper.Url.Punycode

/-!
# Hosts

The machine in an address: a name, or a number of the fourth or sixth version of the protocol.
Numbers have many spellings when they are read and one when they are written.
-/

namespace PieceKeeper

/-- A machine that an address names. -/
inductive Host where
  | name (text : String)
  /-- A number of 32 bits. -/
  | v4 (number : Nat)
  /-- Eight numbers of 16 bits. -/
  | v6 (groups : List Nat)
  deriving DecidableEq, Repr

namespace Host

/-- The number that digits of a base stand for. -/
def numeral? (base : Nat) (digits : List Char) : Option Nat :=
  digits.foldlM
    (fun n c ↦ do
      let value ← Hex.digitValue? c
      if value < base then some (base * n + value) else none) 0

/-! ## The fourth version -/

/-- A part of a number: hexadecimal behind `0x`, octal behind `0`, else decimal. -/
def part? : List Char → Option Nat
  | [] => none
  | '0' :: 'x' :: digits | '0' :: 'X' :: digits => numeral? 16 digits
  | '0' :: digits => numeral? 8 digits
  | digits => numeral? 10 digits

/-- The parts between the dots of a name; one dot at the end does not count. -/
def dottedParts (text : List Char) : List (List Char) :=
  let parts := text.splitOn '.'
  if parts.getLast? = some [] then parts.dropLast else parts

/-- Whether the last part of a name is a number, so that all of it must be one. -/
def endsInNumber (text : List Char) : Bool :=
  match (dottedParts text).getLast? with
  | none | some [] => false
  | some last => last.all Char.isDigit || (part? last).isSome

/-- The number in parts, of which all but the last are bytes. -/
def v4? (text : List Char) : Option Nat := do
  let parts ← (dottedParts text).mapM part?
  guard (parts.length ≤ 4)
  let last ← parts.getLast?
  let bytes := parts.dropLast
  guard (bytes.all (· < 256))
  guard (last < Nat.pow 256 (4 - bytes.length))
  return bytes.foldl (fun n byte ↦ 256 * n + byte) 0 * Nat.pow 256 (4 - bytes.length) + last

/-- The text of a number: four bytes with dots between them. -/
def v4Text (number : Nat) : String :=
  ".".intercalate ([24, 16, 8, 0].map fun shift ↦ toString (number / Nat.pow 2 shift % 256))

/-! ## The sixth version -/

/-- A group of one to four hexadecimal digits. -/
def group? (digits : List Char) : Option Nat :=
  if digits.isEmpty ∨ 4 < digits.length then none else numeral? 16 digits

/-- A byte in plain decimal digits. -/
def plainByte? (digits : List Char) : Option Nat := do
  guard (¬ digits.isEmpty ∧ digits.length ≤ 3)
  guard (digits.length = 1 ∨ digits.head? ≠ some '0')
  let value ← numeral? 10 digits
  if value < 256 then some value else none

/-- The groups of one field: the last field may be a number of the fourth version. -/
def field? (isLast : Bool) (text : List Char) : Option (List Nat) :=
  if isLast ∧ text.contains '.' then
    match (text.splitOn '.').mapM plainByte? with
    | some [a, b, c, d] => some [256 * a + b, 256 * c + d]
    | _ => none
  else (group? text).map ([·])

/-- The groups of fields with colons between them. -/
def fields? (endsHere : Bool) (text : List Char) : Option (List Nat) :=
  if text.isEmpty then some []
  else
    let fields := text.splitOn ':'
    do
      let front ← fields.dropLast.mapM (field? false)
      let last ← field? endsHere (fields.getLast?.getD [])
      return front.flatten ++ last

/-- Cuts a text at the first pair of colons. -/
def cutAtGap : List Char → List Char → Option (List Char × List Char)
  | _, [] => none
  | front, ':' :: ':' :: back => some (front.reverse, back)
  | front, c :: back => cutAtGap (c :: front) back

/-- The groups of a number; one gap may stand for groups of zeros. -/
def v6? (text : List Char) : Option (List Nat) :=
  match cutAtGap [] text with
  | none => do
    let groups ← fields? true text
    if groups.length = 8 then some groups else none
  | some (front, back) => do
    let front ← fields? false front
    let back ← fields? true back
    if front.length + back.length ≤ 7 then
      some (front ++ List.replicate (8 - front.length - back.length) 0 ++ back)
    else none

/-- The length of the run of zeros at the head of a list. -/
def zeroRun (groups : List Nat) : Nat := (groups.takeWhile (· == 0)).length

/-- Where the longest run of at least two zeros begins, the first of several, and its length. -/
def longestGap (groups : List Nat) : Option (Nat × Nat) :=
  (List.range groups.length).foldl
    (fun best start ↦
      let run := zeroRun (groups.drop start)
      if 2 ≤ run ∧ (best.map (·.2)).getD 0 < run then some (start, run) else best) none

/-- Groups with colons between them. -/
def groupsText (groups : List Nat) : String :=
  ":".intercalate (groups.map fun group ↦ String.ofList (Nat.toDigits 16 group))

/-- The text of a number with its longest gap left out. -/
def v6Text (groups : List Nat) : String :=
  match longestGap groups with
  | none => groupsText groups
  | some (start, run) =>
    groupsText (groups.take start) ++ "::" ++ groupsText (groups.drop (start + run))

/-! ## Hosts -/

/-- Characters that no name has, besides controls. -/
def forbidden : List Char := " #/:<>?@[\\]^|%".toList

/-- Characters that stand for the dot of a name. -/
def fullStops : List Char := ['\u3002', '\uff0e', '\uff61']

/-- Reads the host of an address whose scheme has machines. -/
def ofText? (text : List Char) : Option Host :=
  match text with
  | '[' :: inner =>
    if inner.getLast? = some ']' then (v6? inner.dropLast).map v6 else none
  | _ => do
    let text ← Percent.decodeText? (String.ofList text)
    let dotted := text.toList.map fun c ↦ if fullStops.contains c then '.' else c.toLower
    let name := Punycode.encodeLabels dotted
    guard (¬ name.isEmpty)
    guard (name.all fun c ↦ 0x20 ≤ c.toNat && c.toNat < 0x7f && ¬ forbidden.contains c)
    if endsInNumber name then (v4? name).map v4 else some (.name (String.ofList name))

/-- Characters that no host of another scheme has, besides the zero byte and blanks. -/
def forbiddenElsewhere : List Char := "\x00\t\n\r #/:<>?@[\\]^|".toList

/-- Reads the host of an address of another scheme, which keeps its spelling. -/
def ofOpaque? (text : List Char) : Option Host :=
  match text with
  | '[' :: inner =>
    if inner.getLast? = some ']' then (v6? inner.dropLast).map v6 else none
  | _ =>
    if text.any forbiddenElsewhere.contains then none
    else some (.name (String.ofList (Percent.encode [] text)))

/-- The text of a host. -/
def text : Host → String
  | .name text => text
  | .v4 number => v4Text number
  | .v6 groups => "[" ++ v6Text groups ++ "]"

end Host

end PieceKeeper
