import PieceKeeper.Bytes.Bits

/-!
# Multibase texts

A text that stands for bytes and says with its first character in which radix.  Where the
radix is a power of two the digits are the regrouped bits of the bytes; bits left over must
be zero, and some radices pad the last group with equals signs.  In the other radices the
bytes are one large number.
-/

namespace PieceKeeper.Multibase

/-- The place of a character in an alphabet. -/
def digit? (alphabet : List Char) (c : Char) : Option Nat := alphabet.idxOf? c

/-- A radix that is a power of two. -/
structure Radix where
  /-- One less than the number of bits in a digit. -/
  extra : Nat
  alphabet : List Char
  /-- Whether capital letters are read as small ones. -/
  foldsCase : Bool
  /-- How many digits make up a group that is padded, if any are. -/
  group : Option Nat

namespace Radix

/-- The radix with digits of `width` bits, without padding. -/
def plain (width : Nat) (alphabet : String) (foldsCase : Bool := true) : Radix :=
  ⟨width - 1, alphabet.toList, foldsCase, none⟩

/-- The same radix with groups padded to a whole number of bytes. -/
def padded (radix : Radix) (group : Nat) : Radix := { radix with group := some group }

/-- The value of a digit. -/
def value? (radix : Radix) (c : Char) : Option Nat :=
  digit? radix.alphabet (if radix.foldsCase then c.toLower else c)

/-- The bytes of a run of digits: fewer bits than a digit holds may be left over, and these
must be zero. -/
def decodeDigits (radix : Radix) (digits : List Char) : Option Bytes := do
  let values ← digits.mapM radix.value?
  let (whole, left) := Bits.groups 7 (values.flatMap (Bits.ofNat (radix.extra + 1)))
  guard (left.length ≤ radix.extra ∧ left.all not)
  return whole.map fun bits ↦ UInt8.ofNat (Bits.toNat bits)

/-- The bytes of one padded group, of which at least one digit is not padding. -/
def decodeGroup (radix : Radix) (group : List Char) : Option Bytes := do
  let digits := (group.reverse.dropWhile (· = '=')).reverse
  guard (digits ≠ [])
  radix.decodeDigits digits

/-- The bytes of padded groups of `size + 1` digits. -/
def decodeGroups (radix : Radix) (size : Nat) (text : List Char) : Option Bytes :=
  match text with
  | [] => some []
  | c :: rest =>
    if rest.length < size then none
    else do
      let bytes ← radix.decodeGroup (c :: rest.take size)
      return bytes ++ (← decodeGroups radix size (rest.drop size))
termination_by text.length
decreasing_by simp only [List.length_drop, List.length_cons]; omega

/-- The bytes that a text stands for. -/
def decode (radix : Radix) (text : List Char) : Option Bytes :=
  match radix.group with
  | none => radix.decodeDigits text
  | some size => radix.decodeGroups (size - 1) text

/-- The digits of a byte sequence, without padding. -/
def encode (radix : Radix) (bytes : Bytes) : List Char :=
  let (whole, left) := Bits.groups radix.extra (Bits.ofBytes bytes)
  let last := if left = [] then [] else [left ++ List.replicate (radix.extra + 1 - left.length) false]
  (whole ++ last).map fun bits ↦ radix.alphabet.getD (Bits.toNat bits) '='

end Radix

/-- Eight bits to a byte, written out. -/
def base2 : Radix := .plain 1 "01" false
/-- Three bits to a digit. -/
def base8 : Radix := .plain 3 "01234567" false
/-- Four bits to a digit. -/
def base16 : Radix := .plain 4 "0123456789abcdef"
/-- Five bits to a digit. -/
def base32 : Radix := .plain 5 "abcdefghijklmnopqrstuvwxyz234567"
/-- Five bits to a digit, in the order of the digits. -/
def base32Hex : Radix := .plain 5 "0123456789abcdefghijklmnopqrstuv"
/-- Five bits to a digit, in an alphabet made for reading aloud. -/
def base32Z : Radix := .plain 5 "ybndrfg8ejkmcpqxot1uwisza345h769" false
/-- Six bits to a digit. -/
def base64 : Radix :=
  .plain 6 "ABCDEFGHIJKLMNOPQRSTUVWXYZabcdefghijklmnopqrstuvwxyz0123456789+/" false
/-- Six bits to a digit, with digits that need no escape in a URL. -/
def base64Url : Radix :=
  .plain 6 "ABCDEFGHIJKLMNOPQRSTUVWXYZabcdefghijklmnopqrstuvwxyz0123456789-_" false

/-- The bytes of a number, the highest first and without zeros in front. -/
def natBytes (n : Nat) : Bytes :=
  if n = 0 then [] else natBytes (n / 256) ++ [UInt8.ofNat (n % 256)]

/-- Reads one large number.  Zero digits in front stand for zero bytes. -/
def decodeNumber (alphabet : List Char) (text : List Char) : Option Bytes := do
  let values ← text.mapM (digit? alphabet)
  let n := values.foldl (fun n value ↦ alphabet.length * n + value) 0
  return List.replicate (values.takeWhile (· = 0)).length 0 ++ natBytes n

/-- The decimal digits. -/
def base10 : List Char := "0123456789".toList
/-- The digits and the small letters. -/
def base36 : List Char := "0123456789abcdefghijklmnopqrstuvwxyz".toList
/-- Digits, capital and small letters without those that look alike. -/
def base58 : List Char := "123456789ABCDEFGHJKLMNPQRSTUVWXYZabcdefghijkmnopqrstuvwxyz".toList
/-- The same characters with the small letters before the capital ones. -/
def base58Small : List Char :=
  "123456789abcdefghijkmnopqrstuvwxyzABCDEFGHJKLMNPQRSTUVWXYZ".toList

/-- The alphabet of base 45. -/
def base45 : List Char := "0123456789ABCDEFGHIJKLMNOPQRSTUVWXYZ $%*+-./:".toList

/-- Base 45 writes two bytes as three digits, lowest first, and a last byte as two. -/
def decodeBase45 : List Char → Option Bytes
  | [] => some []
  | [_] => none
  | [a, b] => do
    let n := (← digit? base45 a) + 45 * (← digit? base45 b)
    guard (n < 256)
    return [UInt8.ofNat n]
  | a :: b :: c :: rest => do
    let n := (← digit? base45 a) + 45 * (← digit? base45 b) + 2025 * (← digit? base45 c)
    guard (n < 65536)
    return UInt8.ofNat (n / 256) :: UInt8.ofNat (n % 256) :: (← decodeBase45 rest)

/-- One pictograph for each byte. -/
def pictographs : List Char :=
  "🚀🪐☄🛰🌌🌑🌒🌓🌔🌕🌖🌗🌘🌍🌏🌎🐉☀💻🖥💾💿😂❤😍🤣😊🙏💕😭😘👍😅👏😁🔥🥰💔💖💙😢🤔😆🙄💪😉☺👌🤗💜😔😎😇🌹🤦🎉💞✌✨🤷😱😌🌸🙌😋💗💚😏💛🙂💓🤩😄😀🖤😃💯🙈👇🎶😒🤭❣😜💋👀😪😑💥🙋😞😩😡🤪👊🥳😥🤤👉💃😳✋😚😝😴🌟😬🙃🍀🌷😻😓⭐✅🥺🌈😈🤘💦✔😣🏃💐☹🎊💘😠☝😕🌺🎂🌻😐🖕💝🙊😹🗣💫💀👑🎵🤞😛🔴😤🌼😫⚽🤙☕🏆🤫👈😮🙆🍻🍃🐶💁😲🌿🧡🎁⚡🌞🎈❌✊👋😰🤨😶🤝🚶💰🍓💢🤟🙁🚨💨🤬✈🎀🍺🤓😙💟🌱😖👶🥴▶➡❓💎💸⬇😨🌚🦋😷🕺⚠🙅😟😵👎🤲🤠🤧📌🔵💅🧐🐾🍒😗🤑🌊🤯🐷☎💧😯💆👆🎤🙇🍑❄🌴💣🐸💌📍🥀🤢👅💡💩👐📸👻🤐🤮🎼🥵🚩🍎🍊👼💍📣🥂".toList

/-- Reads a text whose radix is known by its first character. -/
def decodeAs (code : Char) (text : List Char) : Option Bytes :=
  match code with
  | '\x00' => some (String.ofList text).toUTF8.toList
  | '0' => base2.decode text
  | '7' => base8.decode text
  | '9' => decodeNumber base10 text
  | 'f' | 'F' => base16.decode text
  | 'b' | 'B' => base32.decode text
  | 'c' | 'C' => (base32.padded 8).decode text
  | 'v' | 'V' => base32Hex.decode text
  | 't' | 'T' => (base32Hex.padded 8).decode text
  | 'h' => base32Z.decode text
  | 'k' | 'K' => decodeNumber base36 (text.map Char.toLower)
  | 'R' => decodeBase45 text
  | 'Z' => decodeNumber base58Small text
  | 'z' => decodeNumber base58 text
  | 'm' => base64.decode text
  | 'M' => (base64.padded 4).decode text
  | 'u' => base64Url.decode text
  | 'U' => (base64Url.padded 4).decode text
  | '🚀' => text.mapM fun c ↦ (digit? pictographs c).map UInt8.ofNat
  | _ => none

/-- The bytes of a multibase text. -/
def decode : List Char → Option Bytes
  | [] => none
  | code :: text => decodeAs code text

end PieceKeeper.Multibase
