import PieceKeeper.Cid.Basic
import PieceKeeper.Commitment.Node
import PieceKeeper.Fault

/-!
# Content identifiers of pieces

The identifier of a piece holds the root of its commitment tree, under the codes of an
unsealed commitment and of the truncated hash that builds it.
-/

namespace PieceKeeper.ContentId

/-- The code of an unsealed commitment. -/
def commitmentCodec : Nat := 0xf101

/-- The code of SHA-256 truncated to 254 bits. -/
def truncatedHashCode : Nat := 0x1012

/-- The identifier of a commitment. -/
def ofDigest (digest : Node) : String :=
  Cid.toText ⟨1, commitmentCodec, truncatedHashCode, digest.toList⟩

/-- The commitment that an identifier holds. -/
def toDigest (text : String) : Outcome Node :=
  match Cid.parse text with
  | .error failure =>
    refuse (.validation ("invalid piece cid " ++ text ++ ": " ++ failure.message))
  | .ok cid =>
    if cid.codec ≠ commitmentCodec ∨ cid.hashCode ≠ truncatedHashCode then
      refuse (.validation ("cid " ++ text ++ " is not an unsealed piece commitment"))
    else
      match Node.ofBytes? cid.digest with
      | some digest => .ok digest
      | none =>
        refuse (.validation
          ("cid " ++ text ++ " carries a digest of " ++ toString cid.digest.length ++ " bytes"))

end PieceKeeper.ContentId
