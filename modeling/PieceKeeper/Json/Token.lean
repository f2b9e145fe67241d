import PieceKeeper.Json.Basic

/-!
# Tokens of JSON text

The text of a JSON value, as bytes, is a sequence of brackets, commas, colons and scalars
with blanks between them.  This module cuts it into these.
-/

namespace PieceKeeper.Json

/-- The smallest parts of a JSON text. -/
inductive Token where
  | beginArray
  | endArray
  | beginObject
  | endObject
  | comma
  | colon
  | scalar (value : Json)

namespace Token

/-- Whether a byte is a decimal digit. -/
def isDigit (byte : UInt8) : Bool := 0x30 ≤ byte && byte ≤ 0x39

/-- The number that decimal digits stand for. -/
def decimalValue (digits : Bytes) : Nat :=
  digits.foldl (fun n digit ↦ 10 * n + (digit.toNat - 0x30)) 0

/-- The digits at the head of a text and what follows them. -/
def digits (text : Bytes) : Bytes × Bytes := (text.takeWhile isDigit, text.dropWhile isDigit)

/-- The fraction at the head of a text, if it has one, and what follows. -/
def fraction (text : Bytes) : Option (Bytes × Bytes) :=
  match text with
  | 0x2e :: rest =>
    let (part, rest) := digits rest
    if part.isEmpty then none else some (part, rest)
  | _ => some ([], text)

/-- The exponent at the head of a text, if it has one, and what follows. -/
def exponent (text : Bytes) : Option (Option Int × Bytes) :=
  let unsigned (sign : Int) (rest : Bytes) :=
    let (part, rest) := digits rest
    if part.isEmpty then none else some (some (sign * decimalValue part), rest)
  match text with
  | e :: rest =>
    if e = 0x65 ∨ e = 0x45 then
      match rest with
      | 0x2b :: rest => unsigned 1 rest
      | 0x2d :: rest => unsigned (-1) rest
      | _ => unsigned 1 rest
    else some (none, text)
  | [] => some (none, text)

/-- Reads a number behind its sign. -/
def unsignedNumber (negative : Bool) (text : Bytes) : Option (Json × Bytes) := do
  let (whole, rest) := digits text
  guard (whole ≠ [])
  guard (whole.length = 1 ∨ whole.head? ≠ some 0x30)
  let (part, rest) ← fraction rest
  let (power, rest) ← exponent rest
  let value := decimalValue (whole ++ part)
  if part.isEmpty ∧ power.isNone ∧ ¬ (negative ∧ value = 0) then
    return (.integer (if negative then -value else value), rest)
  else
    return (.decimal negative value (power.getD 0 - part.length), rest)

/-- Reads a number. -/
def number (text : Bytes) : Option (Json × Bytes) :=
  match text with
  | 0x2d :: rest => unsignedNumber true rest
  | _ => unsignedNumber false text

/-- The value of four hexadecimal digits at the head of a text, and what follows. -/
def fourDigits : Bytes → Option (Nat × Bytes)
  | a :: b :: c :: d :: rest => do
    let value (byte : UInt8) := Hex.digitValue? (Char.ofNat byte.toNat)
    let n := 4096 * (← value a) + 256 * (← value b) + 16 * (← value c) + (← value d)
    return (n, rest)
  | _ => none

/-- The bytes of a code point. -/
def utf8 (code : Nat) : Bytes := (String.singleton (Char.ofNat code)).toUTF8.toList

/-- The byte that a letter behind a backslash stands for. -/
def letterEscape (byte : UInt8) : Option UInt8 :=
  if byte = 0x22 ∨ byte = 0x5c ∨ byte = 0x2f then some byte
  else if byte = 0x62 then some 0x08
  else if byte = 0x66 then some 0x0c
  else if byte = 0x6e then some 0x0a
  else if byte = 0x72 then some 0x0d
  else if byte = 0x74 then some 0x09
  else none

/-- Reads a numeric escape behind its backslash and letter.  Halves of a pair must come
together; one that stands alone spells no text, which is told by `none` in place of bytes. -/
def numericEscape (text : Bytes) : Option (Option Bytes × Bytes) := do
  let (high, rest) ← fourDigits text
  if 0xd800 ≤ high ∧ high < 0xdc00 then
    match rest with
    | 0x5c :: 0x75 :: behind =>
      let (low, behind) ← fourDigits behind
      if 0xdc00 ≤ low ∧ low < 0xe000 then
        return (some (utf8 (0x10000 + (high - 0xd800) * 1024 + (low - 0xdc00))), behind)
      else return (none, rest)
    | _ => return (none, rest)
  else if 0xdc00 ≤ high ∧ high < 0xe000 then return (none, rest)
  else return (some (utf8 high), rest)

/-- Reads a string behind its opening quote, of which the reversed bytes `done` are known;
`sound` tells whether they can be a text. -/
def stringFrom : Nat → Bool → Bytes → Bytes → Option (Json × Bytes)
  | 0, _, _, _ => none
  | _ + 1, _, _, [] => none
  | room + 1, sound, done, byte :: rest =>
    if byte = 0x22 then
      match if sound then String.fromUTF8? ⟨done.reverse.toArray⟩ else none with
      | some text => some (.string text, rest)
      | none => some (.unreadable, rest)
    else if byte < 0x20 then none
    else if byte = 0x5c then
      match rest with
      | 0x75 :: rest =>
        match numericEscape rest with
        | some (some bytes, rest) => stringFrom room sound (bytes.reverse ++ done) rest
        | some (none, rest) => stringFrom room false done rest
        | none => none
      | letter :: rest =>
        match letterEscape letter with
        | some byte => stringFrom room sound (byte :: done) rest
        | none => none
      | [] => none
    else stringFrom room sound (byte :: done) rest

/-- Reads one token at the head of a text that does not begin with a blank. -/
def read (text : Bytes) : Option (Token × Bytes) :=
  match text with
  | 0x5b :: rest => some (beginArray, rest)
  | 0x5d :: rest => some (endArray, rest)
  | 0x7b :: rest => some (beginObject, rest)
  | 0x7d :: rest => some (endObject, rest)
  | 0x2c :: rest => some (comma, rest)
  | 0x3a :: rest => some (colon, rest)
  | 0x22 :: rest => (stringFrom text.length true [] rest).map fun (json, rest) ↦ (scalar json, rest)
  | 0x6e :: 0x75 :: 0x6c :: 0x6c :: rest => some (scalar .null, rest)
  | 0x74 :: 0x72 :: 0x75 :: 0x65 :: rest => some (scalar (.bool true), rest)
  | 0x66 :: 0x61 :: 0x6c :: 0x73 :: 0x65 :: rest => some (scalar (.bool false), rest)
  | _ => (number text).map fun (json, rest) ↦ (scalar json, rest)

/-- The blanks that may stand between tokens. -/
def isBlank (byte : UInt8) : Bool := byte = 0x20 || byte = 0x09 || byte = 0x0a || byte = 0x0d

/-- Cuts a text into tokens, of which the reversed list `done` is known. -/
def readAll : Nat → List Token → Bytes → Option (List Token)
  | 0, _, _ => none
  | room + 1, done, text =>
    match text.dropWhile isBlank with
    | [] => some done.reverse
    | byte :: rest =>
      match read (byte :: rest) with
      | some (token, rest) => readAll room (token :: done) rest
      | none => none

/-- The tokens of a text. -/
def ofText (text : Bytes) : Option (List Token) := readAll (text.length + 1) [] text

end Token

end PieceKeeper.Json
