import PieceKeeper.Text.Blank
import PieceKeeper.Time.Instant

/-!
# Time stamps

Texts that stand for instants.  The strict form has fixed widths; the lenient one also takes
blanks between its parts, shorter numbers and years with a sign.  Both end with the offset
from UTC.
-/

namespace PieceKeeper.Stamp

/-- Why a text is no time stamp. -/
inductive Failure where
  | ended
  | badCharacter
  | outOfRange
  | trailing
  deriving DecidableEq, Repr

/-- The text of a failure. -/
def Failure.message : Failure → String
  | .ended => "premature end of input"
  | .badCharacter => "input contains invalid characters"
  | .outOfRange => "input is out of range"
  | .trailing => "trailing input"

/-- The value of a decimal digit. -/
def digitValue (c : Char) : Nat := c.toNat - 0x30

/-- The number that decimal digits stand for. -/
def decimal (digits : List Char) : Nat := digits.foldl (fun n c ↦ 10 * n + digitValue c) 0

/-- The digits at the head of a text, at most `width` of them but at least one. -/
def digits (width : Nat) (text : List Char) : Except Failure (List Char × List Char) :=
  let found := (text.take width).takeWhile Char.isDigit
  if found.isEmpty then .error (if text.isEmpty then .ended else .badCharacter)
  else .ok (found, text.drop found.length)

/-- Exactly `width` digits. -/
def fixed (width : Nat) (text : List Char) : Except Failure (Nat × List Char) :=
  let found := text.take width
  if found.length < width then .error .ended
  else if found.all Char.isDigit then .ok (decimal found, text.drop width)
  else .error .badCharacter

/-- A character out of some. -/
def char (allowed : List Char) : List Char → Except Failure (Unit × List Char)
  | [] => .error .ended
  | c :: rest => if c ∈ allowed then .ok ((), rest) else .error .badCharacter

/-- A fraction of a second in nanoseconds, if there is one.  Digits beyond the ninth are
dropped. -/
def fraction : List Char → Except Failure (Nat × List Char)
  | '.' :: rest => do
    let (found, rest) ← digits 9 rest
    return (decimal found * Nat.pow 10 (9 - found.length), rest.dropWhile Char.isDigit)
  | text => return (0, text)

/-- The minutes of an offset behind its sign, with the separator read by `separator`. -/
def offsetMinutes (separator : List Char → Except Failure (Unit × List Char)) (text : List Char) :
    Except Failure (Nat × List Char) := do
  let (hours, rest) ← fixed 2 text
  let (_, rest) ← separator rest
  match rest with
  | tens :: ones :: rest =>
    if ¬ tens.isDigit ∨ ¬ ones.isDigit then .error .badCharacter
    else if digitValue tens > 5 then .error .outOfRange
    else return (60 * hours + 10 * digitValue tens + digitValue ones, rest)
  | _ => .error .ended

/-- An offset from UTC in minutes. -/
def offset (separator : List Char → Except Failure (Unit × List Char)) :
    List Char → Except Failure (Int × List Char)
  | [] => .error .ended
  | c :: rest => do
    if c = 'Z' ∨ c = 'z' then return (0, rest)
    else if c = '+' then
      let (minutes, rest) ← offsetMinutes separator rest
      return (minutes, rest)
    else if c = '-' ∨ c = '−' then
      let (minutes, rest) ← offsetMinutes separator rest
      return (-(minutes : Int), rest)
    else .error .badCharacter

/-- A value that must exist. -/
def inRange {α : Type} (value : Option α) : Except Failure α :=
  match value with
  | some value => .ok value
  | none => .error .outOfRange

/-- The instant of a clock that is ahead of UTC. -/
def instant (date : Date) (hour minute second nano : Nat) : Except Failure Instant :=
  if minute < 60 ∧ second ≤ 60 then inRange (Instant.of? date hour minute second nano)
  else .error .outOfRange

/-- Refuses a text that goes on. -/
def finished (rest : List Char) : Except Failure Unit :=
  if rest.isEmpty then .ok () else .error .trailing

/-- Reads the strict form. -/
def parse (text : String) : Except Failure Instant := do
  if text.utf8ByteSize < 19 then .error .ended
  let (year, rest) ← fixed 4 text.toList
  let (_, rest) ← char ['-'] rest
  let (month, rest) ← fixed 2 rest
  let (_, rest) ← char ['-'] rest
  let (day, rest) ← fixed 2 rest
  let date ← inRange (Date.of? year month day)
  let (_, rest) ← char ['t', 'T', ' '] rest
  let (hour, rest) ← fixed 2 rest
  let (_, rest) ← char [':'] rest
  let (minute, rest) ← fixed 2 rest
  let (_, rest) ← char [':'] rest
  let (second, rest) ← fixed 2 rest
  let (nano, rest) ← fraction rest
  let clock ← instant date hour minute second nano
  let (minutes, rest) ← offset (char [':']) rest
  finished rest
  if minutes.natAbs < 1440 then inRange (clock.behind? minutes) else .error .outOfRange

/-! ## The lenient form -/

/-- A number of at most two digits with blanks in front. -/
def loose (text : List Char) : Except Failure (Nat × List Char) := do
  let (found, rest) ← digits 2 (Text.trimStart text)
  return (decimal found, rest)

/-- A year: up to four digits, or any number of them behind a sign. -/
def looseYear (text : List Char) : Except Failure (Int × List Char) :=
  match Text.trimStart text with
  | '-' :: rest => do
    let (found, rest) ← digits rest.length rest
    return (-(decimal found : Int), rest)
  | '+' :: rest => do
    let (found, rest) ← digits rest.length rest
    return (decimal found, rest)
  | text => do
    let (found, rest) ← digits 4 text
    return (decimal found, rest)

/-- A mark between two numbers, with blanks in front. -/
def mark (c : Char) (text : List Char) : Except Failure (Unit × List Char) := char [c] (Text.trimStart text)

/-- Any number of colons and blanks. -/
def looseSeparator (text : List Char) : Except Failure (Unit × List Char) :=
  .ok ((), text.dropWhile fun c ↦ c == ':' || Text.isBlank c)

/-- The offset at the end: a name of UTC, or as in the strict form but with any separator. -/
def looseOffset (text : List Char) : Except Failure (Int × List Char) :=
  if (text.take 3).map Char.toUpper = ['U', 'T', 'C'] then .ok (0, text.drop 3)
  else offset looseSeparator text

/-- Reads the lenient form. -/
def parseLoose (text : String) : Except Failure Instant := do
  let (year, rest) ← looseYear text.toList
  let (_, rest) ← mark '-' rest
  let (month, rest) ← loose rest
  let (_, rest) ← mark '-' rest
  let (day, rest) ← loose rest
  let (_, rest) ← char ['t', 'T', ' '] rest
  let (hour, rest) ← loose rest
  let (_, rest) ← mark ':' rest
  let (minute, rest) ← loose rest
  let (_, rest) ← mark ':' rest
  let (second, rest) ← loose rest
  let (nano, rest) ← fraction rest
  let (minutes, rest) ← looseOffset (Text.trimStart rest)
  finished (Text.trimStart rest)
  let date ← inRange (Date.of? year month day)
  let clock ← instant date hour minute second nano
  if minutes.natAbs < 1440 then inRange (clock.behind? minutes) else .error .outOfRange

end PieceKeeper.Stamp
