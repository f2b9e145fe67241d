import PieceKeeper.Text.Blank
import PieceKeeper.Bytes.Hex

/-!
# Character sets

Bytes that came with the name of a character set, as text.  A mark at the head of the bytes
tells the set better than its name does.  Bytes that spell nothing become replacement
characters.
-/

namespace PieceKeeper

/-- A way of writing text in bytes. -/
inductive Charset where
  | utf8
  | utf16 (bigEndian : Bool)
  /-- One byte for each character, as on the machines of the west. -/
  | western
  deriving DecidableEq, Repr

namespace Charset

/-- What stands for bytes that spell nothing. -/
def replacement : Char := '\ufffd'

/-! ## Reading UTF-8 -/

/-- The character that is being read: how many bytes it still needs, its bits so far, and the
range of the next byte. -/
structure Pending where
  needed : Nat
  bits : Nat
  low : Nat := 0x80
  high : Nat := 0xbf

/-- Begins a character: what comes out at once, and what is pending. -/
def beginUtf8 (byte : Nat) : List Char × Option Pending :=
  if byte < 0x80 then ([Char.ofNat byte], none)
  else if 0xc2 ≤ byte ∧ byte ≤ 0xdf then ([], some { needed := 1, bits := byte - 0xc0 })
  else if byte = 0xe0 then ([], some { needed := 2, bits := 0, low := 0xa0 })
  else if byte = 0xed then ([], some { needed := 2, bits := 0xd, high := 0x9f })
  else if 0xe1 ≤ byte ∧ byte ≤ 0xef then ([], some { needed := 2, bits := byte - 0xe0 })
  else if byte = 0xf0 then ([], some { needed := 3, bits := 0, low := 0x90 })
  else if byte = 0xf4 then ([], some { needed := 3, bits := 4, high := 0x8f })
  else if 0xf1 ≤ byte ∧ byte ≤ 0xf3 then ([], some { needed := 3, bits := byte - 0xf0 })
  else ([replacement], none)

/-- Takes one byte. -/
def stepUtf8 (pending : Option Pending) (byte : Nat) : List Char × Option Pending :=
  match pending with
  | none => beginUtf8 byte
  | some pending =>
    if pending.low ≤ byte ∧ byte ≤ pending.high then
      let bits := 64 * pending.bits + (byte - 0x80)
      if pending.needed = 1 then ([Char.ofNat bits], none)
      else ([], some { needed := pending.needed - 1, bits })
    else
      let (chars, pending) := beginUtf8 byte
      (replacement :: chars, pending)

/-- The text of bytes in UTF-8, of which the characters `done` are known, in reverse. -/
def readUtf8 : List Char → Option Pending → Bytes → List Char
  | done, none, [] => done.reverse
  | done, some _, [] => (replacement :: done).reverse
  | done, pending, byte :: rest =>
    let (chars, pending) := stepUtf8 pending byte.toNat
    readUtf8 (chars.reverse ++ done) pending rest

/-! ## Reading other sets -/

/-- The units of 16 bits in bytes; half a unit at the end is told by `none`. -/
def units (bigEndian : Bool) : Bytes → List (Option Nat)
  | [] => []
  | [_] => [none]
  | a :: b :: rest =>
    let unit := if bigEndian then 256 * a.toNat + b.toNat else 256 * b.toNat + a.toNat
    some unit :: units bigEndian rest

/-- The text of units. -/
def readUnits : List (Option Nat) → List Char
  | [] => []
  | none :: rest => replacement :: readUnits rest
  | [some unit] => [if 0xd800 ≤ unit ∧ unit < 0xe000 then replacement else Char.ofNat unit]
  | some unit :: next :: rest =>
    if 0xd800 ≤ unit ∧ unit < 0xdc00 then
      match next with
      | some low =>
        if 0xdc00 ≤ low ∧ low < 0xe000 then
          Char.ofNat (0x10000 + (unit - 0xd800) * 1024 + (low - 0xdc00)) :: readUnits rest
        else replacement :: readUnits (next :: rest)
      | none => replacement :: readUnits rest
    else
      (if 0xdc00 ≤ unit ∧ unit < 0xe000 then replacement else Char.ofNat unit)
        :: readUnits (next :: rest)

/-- The characters of the bytes from 0x80 to 0x9f in the western set. -/
def westernExtras : List Nat :=
  [0x20ac, 0x81, 0x201a, 0x192, 0x201e, 0x2026, 0x2020, 0x2021, 0x2c6, 0x2030, 0x160, 0x2039,
    0x152, 0x8d, 0x17d, 0x8f, 0x90, 0x2018, 0x2019, 0x201c, 0x201d, 0x2022, 0x2013, 0x2014, 0x2dc,
    0x2122, 0x161, 0x203a, 0x153, 0x9d, 0x17e, 0x178]

/-- The character of a byte in the western set. -/
def westernChar (byte : UInt8) : Char :=
  let n := byte.toNat
  Char.ofNat (if 0x80 ≤ n ∧ n < 0xa0 then westernExtras.getD (n - 0x80) n else n)

/-- The text of bytes in a set. -/
def read : Charset → Bytes → List Char
  | .utf8, bytes => readUtf8 [] none bytes
  | .utf16 bigEndian, bytes => readUnits (units bigEndian bytes)
  | .western, bytes => bytes.map westernChar

/-! ## Names and marks -/

/-- The set with a name.  Names that nobody knows stand for UTF-8. -/
def ofLabel (label : String) : Charset :=
  let isEdge (c : Char) : Bool := c == ' ' || ('\x09' ≤ c && c ≤ '\x0d' && c ≠ '\x0b')
  let name := String.ofList (Text.dropEnd isEdge (label.toList.dropWhile isEdge)) |>.toLower
  if ["ansi_x3.4-1968", "ascii", "cp1252", "cp819", "csisolatin1", "ibm819", "iso-8859-1",
      "iso-ir-100", "iso8859-1", "iso88591", "iso_8859-1", "iso_8859-1:1987", "l1", "latin1",
      "us-ascii", "windows-1252", "x-cp1252"].contains name then .western
  else if ["csunicode", "iso-10646-ucs-2", "ucs-2", "unicode", "unicodefeff", "utf-16",
      "utf-16le"].contains name then .utf16 false
  else if ["unicodefffe", "utf-16be"].contains name then .utf16 true
  else .utf8

/-- The text of bytes in a set, unless a mark tells another one. -/
def decode (charset : Charset) : Bytes → String
  | 0xef :: 0xbb :: 0xbf :: rest => String.ofList (read .utf8 rest)
  | 0xff :: 0xfe :: rest => String.ofList (read (.utf16 false) rest)
  | 0xfe :: 0xff :: rest => String.ofList (read (.utf16 true) rest)
  | bytes => String.ofList (read charset bytes)

end Charset

end PieceKeeper
