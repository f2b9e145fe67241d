import PieceKeeper.Json.Record
import PieceKeeper.Bytes.Hex

/-!
# What the ledger says and is told

The ledger keeps a record of every transaction.  It is told roots: the identifier of a
sector and the identifiers of the pieces in it.
-/

namespace PieceKeeper

/-- How far a transaction has come. -/
inductive TransactionStatus where
  | pending | confirmed | failed
  deriving DecidableEq, Repr

namespace TransactionStatus

/-- The name of a status. -/
def name : TransactionStatus → String
  | .pending => "pending"
  | .confirmed => "confirmed"
  | .failed => "failed"

/-- The status with a name. -/
def ofName? : String → Option TransactionStatus
  | "pending" => some .pending
  | "confirmed" => some .confirmed
  | "failed" => some .failed
  | _ => none

end TransactionStatus

/-- The ledger's record of a transaction. -/
structure TransactionRecord where
  hash : String
  status : TransactionStatus
  /-- Whether a confirmed transaction did what it was to do. -/
  success : Option Bool := none
  confirmedBlock : Option Int64 := none
  confirmedTxHash : Option String := none
  receipt : Option Bytes := none
  deriving DecidableEq, Repr

namespace TransactionRecord

/-- A record of a transaction that waits. -/
def pending (hash : String) : TransactionRecord := { hash, status := .pending }

/-- A record of a transaction that is in a block. -/
def confirmed (hash : String) (success : Bool) (block : Int64) : TransactionRecord :=
  { hash, status := .confirmed, success := some success, confirmedBlock := some block }

/-- The columns of a record. -/
def columnNames : List String :=
  ["hash", "status", "success", "confirmed_block", "confirmed_tx_hash", "receipt"]

/-- The text of a receipt. -/
def receiptText (receipt : Bytes) : String := "0x" ++ Hex.encode receipt

/-- The digits of a text that may begin with the mark of hexadecimal text. -/
def receiptDigits : List Char → List Char
  | '0' :: 'x' :: digits => digits
  | digits => digits

/-- Reads a receipt: hexadecimal digits, perhaps behind their mark. -/
def receiptOfJson? (json : Json) : Option Bytes := do
  let text ← json.string?
  Hex.decode (receiptDigits text.toList)

/-- Writes a record. -/
def toJson (record : TransactionRecord) : Json :=
  .object
    [("hash", .string record.hash),
      ("status", .string record.status.name),
      ("success", Json.ofOption Json.bool record.success),
      ("confirmed_block", Json.ofOption (fun n ↦ .integer n.toInt) record.confirmedBlock),
      ("confirmed_tx_hash", Json.ofOption Json.string record.confirmedTxHash),
      ("receipt", Json.ofOption (fun receipt ↦ .string (receiptText receipt)) record.receipt)]

/-- Reads a record. -/
def ofJson? (json : Json) : Option TransactionRecord := do
  let [hash, status, success, confirmedBlock, confirmedTxHash, receipt] ←
    json.columns columnNames 2 | none
  return {
    hash := ← Json.required Json.string? hash
    status := ← Json.required (fun json ↦ json.alternative?.bind TransactionStatus.ofName?) status
    success := ← Json.optional Json.bool? success
    confirmedBlock := ← Json.optional Json.int64? confirmedBlock
    confirmedTxHash := ← Json.optional Json.string? confirmedTxHash
    receipt := ← Json.optional receiptOfJson? receipt }

end TransactionRecord

/-- A root of a proof set: the identifier of a sector and those of its pieces. -/
structure Root where
  rootCid : String
  subrootCids : List String
  deriving DecidableEq, Repr

namespace Root

/-- Writes a root. -/
def toJson (root : Root) : Json :=
  .object
    [("root_cid", .string root.rootCid),
      ("subroot_cids", .array (root.subrootCids.map Json.string))]

/-- Reads a root. -/
def ofJson? (json : Json) : Option Root := do
  let [rootCid, subrootCids] ← json.columns ["root_cid", "subroot_cids"] 2 | none
  let items ← Json.required Json.array? subrootCids
  return ⟨← Json.required Json.string? rootCid, ← items.mapM Json.string?⟩

end Root

end PieceKeeper
