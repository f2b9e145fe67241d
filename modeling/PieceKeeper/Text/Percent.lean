import PieceKeeper.Bytes.Hex

/-!
# Percent escapes

Bytes of a text written as a percent sign and two hexadecimal digits.  What is escaped when
writing depends on the place in an address; reading takes every escape that is complete and
leaves all else as it is.
-/

namespace PieceKeeper.Percent

/-- The capital digit of a value below sixteen. -/
def digit (value : Nat) : Char :=
  if value < 10 then Char.ofNat (0x30 + value) else Char.ofNat (0x37 + value)

/-- The escape of a byte. -/
def escape (byte : UInt8) : List Char :=
  ['%', digit (byte.toNat / 16), digit (byte.toNat % 16)]

/-- The bytes of a character. -/
def utf8 (c : Char) : Bytes := (String.singleton c).toUTF8.toList

/-- Whether a character must be escaped where the characters of a set must: controls and
characters beyond ASCII are escaped everywhere. -/
def mustEscape (set : List Char) (c : Char) : Bool :=
  c.toNat < 0x20 || 0x7f ≤ c.toNat || set.contains c

/-- Escapes the characters of a set. -/
def encode (set : List Char) (text : List Char) : List Char :=
  text.flatMap fun c ↦ if mustEscape set c then (utf8 c).flatMap escape else [c]

/-- The value of a digit in a byte. -/
def digitValue? (byte : UInt8) : Option Nat := Hex.digitValue? (Char.ofNat byte.toNat)

/-- Replaces every complete escape by its byte. -/
def decode : Bytes → Bytes
  | 0x25 :: high :: low :: rest =>
    match digitValue? high, digitValue? low with
    | some h, some l => UInt8.ofNat (16 * h + l) :: decode rest
    | _, _ => 0x25 :: decode (high :: low :: rest)
  | byte :: rest => byte :: decode rest
  | [] => []

/-- The text behind the escapes, if it is one. -/
def decodeText? (text : String) : Option String :=
  String.fromUTF8? ⟨(decode text.toUTF8.toList).toArray⟩

end PieceKeeper.Percent
