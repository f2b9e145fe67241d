import PieceKeeper.Cid.Varint
import PieceKeeper.Cid.Multibase

/-!
# Content identifiers

A content identifier names what a digest is a digest of: a version, the code of the content,
and a hash with its own code.  This module reads the texts of identifiers in both versions
and writes those of the second version.
-/

namespace PieceKeeper

/-- A content identifier. -/
structure Cid where
  version : Nat
  codec : Nat
  hashCode : Nat
  digest : Bytes
  deriving DecidableEq, Repr

namespace Cid

/-- Why a text is no identifier. -/
inductive Failure where
  | tooShort
  | unreadable
  | ended
  | badVarint
  | digestCut
  | plainVersionZero
  | unknownVersion
  deriving DecidableEq, Repr

/-- The text of a failure. -/
def Failure.message : Failure → String
  | .tooShort => "Input too short"
  | .unreadable => "Failed to parse multihash"
  | .ended => "unexpected end of file"
  | .badVarint => "Failed to decode unsigned varint format"
  | .digestCut => "failed to fill whole buffer"
  | .plainVersionZero => "CIDv0 cannot be specified in CIDv1 format"
  | .unknownVersion => "Unrecognized CID version"

/-- The code of a SHA-256 hash. -/
def sha256Code : Nat := 0x12

/-- The code of content that is one node of a linked structure. -/
def nodeCodec : Nat := 0x70

/-- Reads a number at the head of an identifier. -/
def readNumber (bytes : Bytes) : Except Failure (Nat × Bytes) :=
  match Varint.read bytes with
  | .ok read => .ok read
  | .error .ended => .error .ended
  | .error .malformed => .error .badVarint

/-- Reads a hash: its code, the size of its digest, at most sixty-four, and the digest.  What
follows is left alone. -/
def readHash (bytes : Bytes) : Option (Nat × Bytes) :=
  match Varint.read bytes with
  | .error _ => none
  | .ok (code, rest) =>
    match Varint.read rest with
    | .error _ => none
    | .ok (size, rest) => if size ≤ 64 ∧ size ≤ rest.length then some (code, rest.take size) else none

/-- Reads the bytes of an identifier.  One that begins like a bare SHA-256 hash is of version
zero. -/
def ofBytes (bytes : Bytes) : Except Failure Cid := do
  let (version, rest) ← readNumber bytes
  let (codec, rest) ← readNumber rest
  if version = sha256Code ∧ codec = 32 then
    if rest.length < 32 then .error .digestCut
    else .ok ⟨0, nodeCodec, sha256Code, rest.take 32⟩
  else if version = 0 then .error .plainVersionZero
  else if version ≠ 1 then .error .unknownVersion
  else
    match readHash rest with
    | some (code, digest) => .ok ⟨1, codec, code, digest⟩
    | none => .error .unreadable

/-- What follows the first occurrence of a path marker, or everything if there is none. -/
def afterMarker (marker : List Char) (text : List Char) : List Char :=
  (go text).getD text
where
  /-- What follows the first occurrence. -/
  go : List Char → Option (List Char)
    | [] => none
    | c :: rest =>
      if marker.isPrefixOf (c :: rest) then some ((c :: rest).drop marker.length) else go rest

/-- Whether a text has the form of an identifier of version zero. -/
def looksBare (text : List Char) : Bool :=
  "Qm".toList.isPrefixOf text && (String.ofList text).utf8ByteSize == 46

/-- Reads an identifier, perhaps at the end of a path. -/
def parse (text : String) : Except Failure Cid :=
  let text := afterMarker "/ipfs/".toList text.toList
  if (String.ofList text).utf8ByteSize < 2 then .error .tooShort
  else
    let bytes :=
      if looksBare text then Multibase.decodeNumber Multibase.base58 text
      else Multibase.decode text
    match bytes with
    | some bytes => ofBytes bytes
    | none => .error .unreadable

/-- The bytes of an identifier of the second version. -/
def toBytes (cid : Cid) : Bytes :=
  Varint.encode cid.version ++ Varint.encode cid.codec ++ Varint.encode cid.hashCode
    ++ Varint.encode cid.digest.length ++ cid.digest

/-- The text of an identifier of the second version. -/
def toText (cid : Cid) : String :=
  String.ofList ('b' :: Multibase.base32.encode cid.toBytes)

end Cid

end PieceKeeper
