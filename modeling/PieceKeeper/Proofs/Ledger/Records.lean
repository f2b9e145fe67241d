import PieceKeeper.Ledger.Transaction
import PieceKeeper.Proofs.Bytes.Hex
import PieceKeeper.Proofs.Json.Record

/-!
# The ledger's records and their JSON form

A record that is written and read again is the record it was, whatever its columns hold.  The
two directions do not have the same domain.  A receipt is written with its mark and with small
letters, while the reader also takes one without the mark and digits of either case; a column
that is absent is written as null and may be left out when it is read.  What the reader makes
of a receipt is said without it: the digits behind the mark, if there is one, spell the bytes.
-/

namespace PieceKeeper.TransactionRecord

/-! ## Receipts -/

/-- The digits of a text: what follows the mark of hexadecimal text, or the whole text when it
does not begin with the mark. -/
inductive Unmarked : List Char → List Char → Prop
  | marked (digits : List Char) : Unmarked ('0' :: 'x' :: digits) digits
  | bare (digits : List Char) (h : ¬ ['0', 'x'] <+: digits) : Unmarked digits digits

theorem receiptDigits_bare {text : List Char} (h : ¬ ['0', 'x'] <+: text) :
    receiptDigits text = text := by
  rw [receiptDigits]
  rintro rest rfl
  exact h ⟨rest, rfl⟩

/-- The reader takes the digits of a text. -/
theorem unmarked_iff {text digits : List Char} :
    Unmarked text digits ↔ receiptDigits text = digits := by
  constructor
  · rintro (_ | ⟨_, h⟩)
    · rfl
    · exact receiptDigits_bare h
  · rintro rfl
    by_cases hmark : ['0', 'x'] <+: text
    · obtain ⟨rest, rfl⟩ := hmark
      exact .marked rest
    · rw [receiptDigits_bare hmark]
      exact .bare text hmark

/-- A text is read as the bytes its digits spell. -/
theorem receiptOfJson?_eq_some_iff {text : String} {bytes : Bytes} :
    receiptOfJson? (.string text) = some bytes ↔
      ∃ digits, Unmarked text.toList digits ∧ Hex.Spells digits bytes := by
  simp only [receiptOfJson?, Json.string?, Option.bind_eq_bind, Option.bind_some,
    Hex.decode_eq_some_iff, unmarked_iff, exists_eq_left']

/-- A text is read as a receipt exactly if its digits are such, and come in pairs. -/
theorem exists_receiptOfJson?_iff {text : String} :
    (∃ bytes, receiptOfJson? (.string text) = some bytes) ↔
      ∃ digits, Unmarked text.toList digits ∧ digits.length % 2 = 0 ∧
        ∀ c ∈ digits, Hex.IsDigit c := by
  simp only [receiptOfJson?_eq_some_iff, ← Hex.exists_spells_iff]
  constructor
  · rintro ⟨bytes, digits, hdigits, hspells⟩
    exact ⟨digits, hdigits, bytes, hspells⟩
  · rintro ⟨digits, hdigits, bytes, hspells⟩
    exact ⟨bytes, digits, hdigits, hspells⟩

theorem toList_receiptText (receipt : Bytes) :
    (receiptText receipt).toList = '0' :: 'x' :: (Hex.encode receipt).toList := by
  rw [receiptText, String.toList_append]
  rfl

/-- The text of a receipt is read back. -/
theorem receiptOfJson?_receiptText (receipt : Bytes) :
    receiptOfJson? (.string (receiptText receipt)) = some receipt := by
  refine receiptOfJson?_eq_some_iff.2 ⟨_, ?_, Hex.spells_encode receipt⟩
  rw [toList_receiptText]
  exact .marked _

/-! ## Columns -/

/-- The reader of the column of the status. -/
def readStatus (json : Json) : Option TransactionStatus :=
  json.alternative?.bind TransactionStatus.ofName?

theorem readStatus_name (status : TransactionStatus) :
    readStatus (.string status.name) = some status := by
  cases status <;> rfl

section Columns

variable {json : Json} {hash status success confirmedBlock confirmedTxHash receipt : Option Json}

/-- What is read is a record as soon as its receipt is read, once its other columns are. -/
theorem ofJson?_of_columns (base : TransactionRecord)
    (hcolumns : json.columns columnNames 2 =
      some [hash, status, success, confirmedBlock, confirmedTxHash, receipt])
    (hhash : Json.required Json.string? hash = some base.hash)
    (hstatus : Json.required readStatus status = some base.status)
    (hsuccess : Json.optional Json.bool? success = some base.success)
    (hblock : Json.optional Json.int64? confirmedBlock = some base.confirmedBlock)
    (htx : Json.optional Json.string? confirmedTxHash = some base.confirmedTxHash) :
    ofJson? json =
      (Json.optional receiptOfJson? receipt).map fun found ↦ { base with receipt := found } := by
  unfold readStatus at hstatus
  simp only [ofJson?, hcolumns, hhash, hstatus, hsuccess, hblock, htx, Option.bind_eq_bind,
    Option.bind_some, Option.pure_def, Option.map_eq_bind]
  rfl

/-- A record that was read has each of its columns read by the column's own reader. -/
theorem exists_columns_of_ofJson? {record : TransactionRecord} (h : ofJson? json = some record) :
    ∃ hash status success confirmedBlock confirmedTxHash receipt,
      json.columns columnNames 2 =
          some [hash, status, success, confirmedBlock, confirmedTxHash, receipt] ∧
        Json.required Json.string? hash = some record.hash ∧
        Json.required readStatus status = some record.status ∧
        Json.optional Json.bool? success = some record.success ∧
        Json.optional Json.int64? confirmedBlock = some record.confirmedBlock ∧
        Json.optional Json.string? confirmedTxHash = some record.confirmedTxHash ∧
        Json.optional receiptOfJson? receipt = some record.receipt := by
  simp only [ofJson?, Option.bind_eq_bind, Option.bind_eq_some_iff] at h
  obtain ⟨columns, hcolumns, h⟩ := h
  split at h
  · simp only [Option.bind_eq_some_iff, Option.pure_def, Option.some.injEq] at h
    obtain ⟨_, hhash, _, hstatus, _, hsuccess, _, hblock, _, htx, _, hreceipt, rfl⟩ := h
    exact ⟨_, _, _, _, _, _, hcolumns, hhash, hstatus, hsuccess, hblock, htx, hreceipt⟩
  · cases h

end Columns

/-- The columns that are written for a record. -/
def cells (record : TransactionRecord) : List Json :=
  [.string record.hash, .string record.status.name, Json.ofOption Json.bool record.success,
    Json.ofOption (fun n ↦ .integer n.toInt) record.confirmedBlock,
    Json.ofOption Json.string record.confirmedTxHash,
    Json.ofOption (fun receipt ↦ .string (receiptText receipt)) record.receipt]

theorem toJson_eq (record : TransactionRecord) :
    record.toJson = .object (columnNames.zip record.cells) := rfl

theorem columns_toJson (record : TransactionRecord) :
    record.toJson.columns columnNames 2 = some (record.cells.map some) := by
  rw [toJson_eq]
  exact Json.columns_object_zip (by decide) rfl 2

/-- A written record is read back. -/
theorem ofJson?_toJson (record : TransactionRecord) : ofJson? record.toJson = some record := by
  rw [ofJson?_of_columns record (columns_toJson record) rfl
    (readStatus_name record.status) ?success ?block ?hash, Json.optional_ofOption ?read ?null]
  case success => exact Json.optional_ofOption (fun _ ↦ by rfl) (fun _ ↦ by nofun) _
  case block => exact Json.optional_ofOption Json.int64?_integer (fun _ ↦ by nofun) _
  case hash => exact Json.optional_ofOption (fun _ ↦ by rfl) (fun _ ↦ by nofun) _
  case read => exact receiptOfJson?_receiptText
  case null => exact fun _ ↦ by nofun
  rfl

/-- A text in the receipt's column of an object that is a record without one makes its
receipt, wherever it stands. -/
theorem ofJson?_insert_receipt {before after : List (String × Json)} {base : TransactionRecord}
    (hfresh : ∀ member ∈ before ++ after, member.1 ≠ "receipt")
    (hbase : ofJson? (.object (before ++ after)) = some base) (text : String) :
    ofJson? (.object (before ++ ("receipt", .string text) :: after)) =
      (receiptOfJson? (.string text)).map fun bytes ↦ { base with receipt := some bytes } := by
  obtain ⟨hash, status, success, confirmedBlock, confirmedTxHash, receipt, hcolumns, hhash,
    hstatus, hsuccess, hblock, htx, -⟩ := exists_columns_of_ofJson? hbase
  have hinsert := Json.columns_object_insert (.string text) hfresh
    (Option.isSome_iff_exists.2 ⟨_, hcolumns⟩)
  have hfound := Json.eq_of_columns_object hcolumns
  simp only [columnNames, List.map_cons, List.map_nil, List.cons.injEq, and_true] at hfound
  obtain ⟨rfl, rfl, rfl, rfl, rfl, rfl⟩ := hfound
  rw [ofJson?_of_columns base hinsert hhash hstatus hsuccess hblock htx]
  change ((receiptOfJson? (.string text)).map some).map _ = _
  rw [Option.map_map]
  rfl

/-! ## The round trip -/

/-- What stands for a receipt in a written record: null for none, and for bytes the text of
their digits, in pairs and with small letters, behind the mark. -/
inductive WrittenReceipt : Option Bytes → Json → Prop
  | absent : WrittenReceipt none .null
  | present {bytes : Bytes} {text : String} {digits : List Char}
      (htext : text.toList = '0' :: 'x' :: digits) (heven : digits.length % 2 = 0)
      (hlower : ∀ c ∈ digits, c ∈ Hex.lowerDigits) (hspells : Hex.Spells digits bytes) :
      WrittenReceipt (some bytes) (.string text)

theorem written_receipt (record : TransactionRecord) :
    ∃ json, record.toJson.get? "receipt" = some json ∧
      WrittenReceipt record.receipt json := by
  refine ⟨Json.ofOption (fun receipt ↦ .string (receiptText receipt)) record.receipt, rfl, ?_⟩
  cases record.receipt with
  | none => exact .absent
  | some bytes =>
    refine .present (toList_receiptText bytes) ?_ (Hex.mem_lowerDigits_of_mem_encode bytes)
      (Hex.spells_encode bytes)
    rw [Hex.length_encode, Nat.mul_mod_right]

/-- **Records of the ledger survive their JSON form.**  A record that is written and read is the
same record, whatever its columns hold, and so is one that was read from any JSON value, written
and read again; its written receipt is null exactly if it has none, and otherwise the mark
followed by an even number of small-letter digits that spell it.  A text is taken for a receipt
exactly if its digits, behind the mark if it begins with one, are hexadecimal digits of either
case and even in number, and then they spell the bytes it is taken for.  So a text that joins,
as the receipt, an object that was a record without one makes that receipt and changes nothing
else of the record, and a text of any other kind makes it no record. -/
theorem json_round_trip :
    (∀ record, ofJson? record.toJson = some record) ∧
    (∀ json record, ofJson? json = some record → ofJson? record.toJson = some record ∧
      ∃ receipt, record.toJson.get? "receipt" = some receipt ∧
        WrittenReceipt record.receipt receipt) ∧
    (∀ text bytes, receiptOfJson? (.string text) = some bytes ↔
      ∃ digits, Unmarked text.toList digits ∧ Hex.Spells digits bytes) ∧
    (∀ text, (∃ bytes, receiptOfJson? (.string text) = some bytes) ↔
      ∃ digits, Unmarked text.toList digits ∧ digits.length % 2 = 0 ∧
        ∀ c ∈ digits, Hex.IsDigit c) ∧
    (∀ before after base, (∀ member ∈ before ++ after, member.1 ≠ "receipt") →
      ofJson? (.object (before ++ after)) = some base → ∀ text,
        ofJson? (.object (before ++ ("receipt", .string text) :: after)) =
          (receiptOfJson? (.string text)).map fun bytes ↦ { base with receipt := some bytes }) :=
  ⟨ofJson?_toJson, fun _ record _ ↦ ⟨ofJson?_toJson record, written_receipt record⟩,
    fun _ _ ↦ receiptOfJson?_eq_some_iff, fun _ ↦ exists_receiptOfJson?_iff,
    fun _ _ _ ↦ ofJson?_insert_receipt⟩

/-- A receipt in mixed case behind its mark, one that is empty, and one whose mark is repeated,
each joining a record that waits. -/
theorem json_round_trip_waiting :
    let base := pending "0x1"
    let withReceipt (text : String) : Json := .object
      ([("hash", .string "0x1")] ++ ("receipt", .string text) :: [("status", .string "pending")])
    ofJson? (withReceipt "0x01fF") = some { base with receipt := some [1, 255] } ∧
      ofJson? (withReceipt "") = some { base with receipt := some [] } ∧
      ofJson? (withReceipt "0x0x01") = none ∧
      ofJson? { base with receipt := some [1, 255] }.toJson =
        some { base with receipt := some [1, 255] } := by
  have hinsert := json_round_trip.2.2.2.2 [("hash", .string "0x1")] [("status", .string "pending")]
    (pending "0x1") (by decide) (by decide)
  exact ⟨(hinsert _).trans (by decide), (hinsert _).trans (by decide),
    (hinsert _).trans (by decide), (json_round_trip.2.1 _ _ (hinsert "0x01fF")).1⟩

end PieceKeeper.TransactionRecord
