import Mathlib.Data.List.Forall2
import Mathlib.Data.List.Nodup
import PieceKeeper.Proofs.Store.Row
import PieceKeeper.Store.Table

/-!
# What commands do to the table

A command reads, or it adds a row, or it writes over the rows that it asks for, or it fails and
leaves every row alone.  In particular an update or a claim is answered with `true` only if there
was such a row, and then the row is written.
-/

namespace PieceKeeper

namespace Row

/-- A row has an id and stands at a status. -/
def Is (row : Row) (id : String) (status : Status) : Prop :=
  row.id = .text id ∧ row.status = .text status.name

instance (row : Row) (id : String) (status : Status) : Decidable (row.Is id status) :=
  inferInstanceAs (Decidable (_ ∧ _))

/-- A row can be claimed under an id. -/
def IsFree (row : Row) (id : String) : Prop :=
  row.Is id .uploaded ∧ row.proofSet = .null ∧ row.transaction = .null

instance (row : Row) (id : String) : Decidable (row.IsFree id) :=
  inferInstanceAs (Decidable (_ ∧ _))

/-- A row with a claim. -/
def claimed (row : Row) (proofSet : UInt64) (rootCid : String) (now : Instant) : Row :=
  { row with
    proofSet := .ofSize? (some proofSet), rootCid := .text rootCid, updatedAt := .ofInstant now }

end Row

namespace Table

variable {table : Table}

/-- Whether a write did not take place.  An insertion that is lost in silence looks like one that
took place. -/
def Command.Refused : (command : Command) → Outcome command.Answer → Prop
  | .update _ _, answer | .claim _ _ _ _, answer => answer ≠ .ok true
  | _, _ => True

/-- What a command can do to rows, by its answer. -/
inductive Effect (rows : List Row) :
    (command : Command) → Outcome command.Answer → List Row → Prop
  | none {command : Command} {answer : Outcome command.Answer} :
    command.Refused answer → Effect rows command answer rows
  | insert {piece : Piece} :
    (∀ row ∈ rows, row.id ≠ .text piece.id) →
      Effect rows (.insert piece) (.ok ()) (rows ++ [Row.ofPiece piece])
  | update {piece : Piece} {expected : Status} :
    (∃ row ∈ rows, row.Is piece.id expected) →
      Effect rows (.update piece expected) (.ok true)
        (rows.map fun row ↦
          if row.Is piece.id expected then row.takeOver (Row.ofPiece piece) else row)
  | claim {id rootCid : String} {proofSet : UInt64} {now : Instant} :
    (∃ row ∈ rows, row.IsFree id) →
      Effect rows (.claim id proofSet rootCid now) (.ok true)
        (rows.map fun row ↦ if row.IsFree id then row.claimed proofSet rootCid now else row)

/-! ## Statements by name -/

/-- An update, with the cells by their names. -/
theorem update_eq (table : Table) (piece : Piece) (expected : Status) :
    table.update piece expected = table.replace
      (fun row ↦ row.id == (Row.ofPiece piece).id && row.status == .text expected.name)
      (Disturbance.hitsUpdate (Row.ofPiece piece))
      (fun row ↦ row.takeOver (Row.ofPiece piece))
      (fun _ ↦
        if table.rows.any fun other ↦
          other.id != (Row.ofPiece piece).id && sameContent (Row.ofPiece piece) other then
            some (clash piece.id "content_id")
        else none) := by
  have hadmits : Change.update.admits (Change.updateValues piece expected) =
      fun row ↦ row.id == (Row.ofPiece piece).id && row.status == .text expected.name :=
    funext fun row ↦ Change.admits_update row piece expected
  have happly : Change.update.apply (Change.updateValues piece expected) =
      fun row ↦ row.takeOver (Row.ofPiece piece) :=
    funext fun row ↦ Change.apply_update row piece expected
  rw [update, hadmits, happly, Change.written_update]
  rfl

/-- A claim, with the cells by their names. -/
theorem claim_eq (table : Table) (id : String) (proofSet : UInt64) (rootCid : String) (now : Instant) :
    table.claim id proofSet rootCid now = table.replace
      (fun row ↦ row.id == .text id && row.status == .text Status.uploaded.name
        && row.proofSet == .null && row.transaction == .null)
      (Disturbance.hitsClaim id) (fun row ↦ row.claimed proofSet rootCid now) (fun _ ↦ none) := by
  have hadmits : Change.claim.admits (Change.claimValues id proofSet rootCid now) =
      fun row ↦ row.id == .text id && row.status == .text Status.uploaded.name
        && row.proofSet == .null && row.transaction == .null :=
    funext fun row ↦ Change.admits_claim row id rootCid proofSet now
  have happly : Change.claim.apply (Change.claimValues id proofSet rootCid now) =
      fun row ↦ row.claimed proofSet rootCid now :=
    funext fun row ↦ Change.apply_claim row id rootCid proofSet now
  rw [claim, hadmits, happly]

/-! ## Writes -/

theorem insert_effect (piece : Piece) :
    Effect table.rows (.insert piece) (table.insert piece).1 (table.insert piece).2.rows := by
  rw [insert, Insertion.row_eq]
  split
  · exact .none trivial
  · split
    · exact .none trivial
    · split
      · exact .none trivial
      · rename_i hid
        refine .insert fun row hrow heq ↦ hid (List.any_eq_true.mpr ⟨row, hrow, ?_⟩)
        exact beq_iff_eq.mpr heq

/-- A conditional write is answered with `true` exactly when it takes place. -/
theorem replace_cases (table : Table) (test : Row → Bool) (hit : FaultyWrite → Bool)
    (change : Row → Row) (refusal : Row → Option Cause) :
    ((table.replace test hit change refusal).1 ≠ .ok true ∧
      (table.replace test hit change refusal).2 = table) ∨
    ((∃ row ∈ table.rows, test row = true ∧ refusal row = none) ∧
      table.replace test hit change refusal = (.ok true,
        { table with rows := table.rows.map fun row ↦ if test row then change row else row })) := by
  rw [replace]
  split
  · exact Or.inl ⟨by simp, rfl⟩
  · rename_i row hrow
    split
    · exact Or.inl ⟨by split <;> simp [refuse], rfl⟩
    · split
      · exact Or.inl ⟨by simp [refuse], rfl⟩
      · exact Or.inr ⟨⟨row, List.mem_of_find?_eq_some hrow, List.find?_some hrow, ‹_›⟩, rfl⟩

/-- The test of an update. -/
theorem beq_and_beq_iff_is (row : Row) (piece : Piece) (expected : Status) :
    (row.id == (Row.ofPiece piece).id && row.status == .text expected.name) = true ↔
      row.Is piece.id expected := by
  simp [Row.Is, Row.ofPiece]

theorem update_effect (piece : Piece) (expected : Status) :
    Effect table.rows (.update piece expected) (table.update piece expected).1
      (table.update piece expected).2.rows := by
  rw [update_eq]
  rcases table.replace_cases _ _ _ _ with ⟨hanswer, hsame⟩ | ⟨⟨row, hrow, hfound, -⟩, heq⟩
  · rw [hsame]
    exact .none hanswer
  · rw [heq]
    simp only [beq_and_beq_iff_is]
    exact .update ⟨row, hrow, (beq_and_beq_iff_is row piece expected).mp hfound⟩

/-- The test of a claim. -/
theorem beq_and_iff_isFree (row : Row) (id : String) :
    (row.id == .text id && row.status == .text Status.uploaded.name && row.proofSet == .null
      && row.transaction == .null) = true ↔ row.IsFree id := by
  simp [Row.IsFree, Row.Is, and_assoc]

theorem claim_effect (id : String) (proofSet : UInt64) (rootCid : String) (now : Instant) :
    Effect table.rows (.claim id proofSet rootCid now) (table.claim id proofSet rootCid now).1
      (table.claim id proofSet rootCid now).2.rows := by
  rw [claim_eq]
  rcases table.replace_cases _ _ _ _ with ⟨hanswer, hsame⟩ | ⟨⟨row, hrow, hfound, -⟩, heq⟩
  · rw [hsame]
    exact .none hanswer
  · rw [heq]
    simp only [beq_and_iff_isFree]
    exact .claim ⟨row, hrow, (beq_and_iff_isFree row id).mp hfound⟩

/-- No command changes which writes go wrong, or moves the table out of reach. -/
theorem weather_run (table : Table) (command : Command) :
    (table.run command).2.disturbance = table.disturbance ∧ (table.run command).2.outage = table.outage := by
  have hreplace (test : Row → Bool) (hit : FaultyWrite → Bool) (change : Row → Row)
      (refusal : Row → Option Cause) :
      (table.replace test hit change refusal).2.disturbance = table.disturbance ∧
        (table.replace test hit change refusal).2.outage = table.outage := by
    rcases table.replace_cases test hit change refusal with ⟨-, hsame⟩ | ⟨-, heq⟩
    · rw [hsame]
      exact ⟨rfl, rfl⟩
    · rw [heq]
      exact ⟨rfl, rfl⟩
  rw [run]
  split
  · exact ⟨rfl, rfl⟩
  · cases command with
    | find _ | findContent _ | withStatus _ | first _ => exact ⟨rfl, rfl⟩
    | insert piece =>
      change (table.insert piece).2.disturbance = _ ∧ (table.insert piece).2.outage = _
      rw [insert, Insertion.row_eq]
      split
      · exact ⟨rfl, rfl⟩
      · split
        · exact ⟨rfl, rfl⟩
        · split
          · exact ⟨rfl, rfl⟩
          · exact ⟨rfl, rfl⟩
    | update _ _ | claim _ _ _ _ => exact hreplace _ _ _ _

/-- What any command does to the rows. -/
theorem run_effect (command : Command) :
    Effect table.rows command (table.run command).1 (table.run command).2.rows := by
  rw [run]
  split
  · exact .none (by cases command <;> simp [Command.Refused])
  · cases command with
    | find _ | findContent _ | withStatus _ | first _ => exact .none trivial
    | insert piece => exact insert_effect piece
    | update piece expected => exact update_effect piece expected
    | claim id proofSet rootCid now => exact claim_effect id proofSet rootCid now

/-! ## Reading -/

/-- A piece is read from a row with its id. -/
theorem row_of_find {id : String} {piece : Piece}
    (h : (table.run (.find id)).1 = .ok (some piece)) :
    ∃ row ∈ table.rows, row.id = .text id ∧ row.toPiece = .ok piece := by
  rw [run] at h
  split at h
  · cases h
  · change table.findRow _ = _ at h
    rw [findRow] at h
    split at h
    · cases h
    · rename_i row hrow
      obtain ⟨read, hread, heq⟩ := Except.bind_eq_ok.mp h
      cases heq
      rw [readRow, Piece.ofCells_answered] at hread
      split at hread
      · rename_i found hfound
        cases hread
        exact ⟨row, List.mem_of_find?_eq_some hrow, by simpa using List.find?_some hrow, hfound⟩
      · cases hread

theorem findRow_eq_none {test : Row → Bool} (h : table.findRow test = .ok none) :
    ∀ row ∈ table.rows, ¬ test row = true := by
  rw [findRow] at h
  split at h
  · rename_i hnone
    exact List.find?_eq_none.mp hnone
  · obtain ⟨read, hread, heq⟩ := Except.bind_eq_ok.mp h
    cases heq

/-- No piece is found only if no row has the id. -/
theorem absent_of_find {id : String} (h : (table.run (.find id)).1 = .ok none) :
    ∀ row ∈ table.rows, row.id ≠ .text id := by
  rw [run] at h
  split at h
  · cases h
  · exact fun row hrow heq ↦ findRow_eq_none h row hrow (beq_iff_eq.mpr heq)

/-- No holder of a content is found only if no row has the content. -/
theorem absent_of_findContent {contentId : String} (h : (table.run (.findContent contentId)).1 = .ok none) :
    ∀ row ∈ table.rows, row.contentId ≠ .text contentId := by
  rw [run] at h
  split at h
  · cases h
  · exact fun row hrow heq ↦ findRow_eq_none h row hrow (beq_iff_eq.mpr heq)

theorem readRow_eq_ok {row : Row} {piece : Piece} : readRow row = .ok piece ↔ row.toPiece = .ok piece := by
  rw [readRow, Piece.ofCells_answered]
  cases row.toPiece with
  | ok found => simp
  | error detail => simp [refuse]

/-- A piece is found in the first row with its id. -/
theorem find_eq_ok {id : String} {piece : Piece} :
    (table.run (.find id)).1 = .ok (some piece) ↔ table.outage = none ∧
      ∃ row, table.rows.find? (·.id == .text id) = some row ∧ row.toPiece = .ok piece := by
  rw [run, reach]
  cases table.outage with
  | some detail => simp [refuse]
  | none =>
    change table.findRow _ = _ ↔ _
    rw [findRow]
    cases table.rows.find? (·.id == .text id) with
    | none => simp
    | some row => simp [Except.bind_eq_ok, readRow_eq_ok, pure, Except.pure]

/-- Rows are read one after the other, all or none. -/
theorem readRows_eq_ok {rows : List Row} {pieces : List Piece} :
    readRows rows = .ok pieces ↔ List.Forall₂ (fun row piece ↦ row.toPiece = .ok piece) rows pieces := by
  induction rows generalizing pieces with
  | nil =>
    rw [List.forall₂_nil_left_iff]
    constructor
    · rintro ⟨⟩
      rfl
    · rintro rfl
      rfl
  | cons row rows ih =>
    rw [readRows, List.mapM_cons, Except.bind_eq_ok, List.forall₂_cons_left_iff]
    constructor
    · rintro ⟨piece, hpiece, hread⟩
      obtain ⟨rest, hrest, heq⟩ := Except.bind_eq_ok.mp hread
      cases heq
      exact ⟨piece, rest, readRow_eq_ok.mp hpiece, ih.mp hrest, rfl⟩
    · rintro ⟨piece, rest, hpiece, hrest, rfl⟩
      exact ⟨piece, readRow_eq_ok.mpr hpiece, Except.bind_eq_ok.mpr ⟨rest, ih.mpr hrest, rfl⟩⟩

/-- What is listed are the rows that stand at a status, in the order of the table. -/
theorem withStatus_eq_ok {status : Status} {pieces : List Piece} :
    (table.run (.withStatus status)).1 = .ok pieces ↔ table.outage = none ∧
      List.Forall₂ (fun row piece ↦ row.toPiece = .ok piece)
        (table.rows.filter (·.status == .text status.name)) pieces := by
  rw [run, reach]
  cases table.outage with
  | none =>
    rw [← readRows_eq_ok, eq_self, true_and]
    rfl
  | some detail => simp [refuse]

section

variable {rows : List Row}

theorem exists_pieces_iff : (∃ pieces, List.Forall₂ (fun row piece ↦ row.toPiece = .ok piece) rows pieces) ↔
    ∀ row ∈ rows, ∃ piece, row.toPiece = .ok piece := by
  induction rows with
  | nil => exact ⟨fun _ _ h ↦ absurd h List.not_mem_nil, fun _ ↦ ⟨[], .nil⟩⟩
  | cons row rows ih =>
    rw [List.forall_mem_cons, ← ih]
    constructor
    · rintro ⟨pieces, hpieces⟩
      cases hpieces with
      | cons hread hrest => exact ⟨⟨_, hread⟩, _, hrest⟩
    · rintro ⟨⟨piece, hread⟩, pieces, hrest⟩
      exact ⟨_, .cons hread hrest⟩

/-- Whatever was read was read from somewhere. -/
theorem exists_of_forall₂ {α β : Type} {reads : α → β → Prop} {sources : List α} {results : List β}
    (h : List.Forall₂ reads sources results) {result : β} (hresult : result ∈ results) :
    ∃ source ∈ sources, reads source result := by
  induction h with
  | nil => cases hresult
  | cons hread _ ih =>
    rcases List.mem_cons.mp hresult with rfl | hrest
    · exact ⟨_, List.mem_cons_self, hread⟩
    · exact (ih hrest).imp fun _ h ↦ ⟨List.mem_cons_of_mem _ h.1, h.2⟩

/-- Changes that leave the ids as they are do not change what is found under an id. -/
theorem find?_map_id {change : Row → Row} (hchange : ∀ row, (change row).id = row.id) (id : Cell) :
    (rows.map change).find? (·.id == id) = (rows.find? (·.id == id)).map change := by
  rw [List.find?_map]
  simp only [Function.comp_def, hchange]

/-- A row is found under an id that no other row has. -/
theorem find?_of_nodup (hids : (rows.map (·.id)).Nodup) {row : Row} (hrow : row ∈ rows) :
    rows.find? (·.id == row.id) = some row := by
  cases hfound : rows.find? (·.id == row.id) with
  | none => exact absurd (beq_self_eq_true row.id) (List.find?_eq_none.mp hfound row hrow)
  | some other =>
    have hid : other.id = row.id := beq_iff_eq.mp (List.find?_some hfound :)
    rw [List.inj_on_of_nodup_map hids (List.mem_of_find?_eq_some hfound) hrow hid]

end

/-! ## A table within reach -/

theorem run_of_reached (h : table.outage = none) (command : Command) :
    table.run command = table.perform command := by
  rw [run, reach, h]

theorem run_find (h : table.outage = none) {id : String} {row : Row} {piece : Piece}
    (hrow : table.rows.find? (·.id == .text id) = some row) (hread : row.toPiece = .ok piece) :
    table.run (.find id) = (.ok (some piece), table) := by
  have hfound : readRow row = .ok piece := readRow_eq_ok.mpr hread
  rw [run_of_reached h, perform, findRow, hrow]
  simp only [hfound]
  rfl

theorem run_findContent (h : table.outage = none) {contentId : String}
    (hfree : ∀ row ∈ table.rows, row.contentId ≠ .text contentId) :
    table.run (.findContent contentId) = (.ok none, table) := by
  have hnone : table.rows.find? (·.contentId == .text contentId) = none :=
    List.find?_eq_none.mpr fun row hrow ↦ by simp [hfree row hrow]
  rw [run_of_reached h, perform, findRow, hnone]

theorem run_insert (h : table.outage = none) (hdisturbance : table.disturbance = none)
    {piece : Piece} (hcontent : piece.contentId = none)
    (hfresh : ∀ row ∈ table.rows, row.id ≠ .text piece.id) :
    table.run (.insert piece) = (.ok (), { table with rows := table.rows ++ [Row.ofPiece piece] }) := by
  have hsame : ¬ table.rows.any (sameContent (Row.ofPiece piece)) := by
    simp [sameContent, Row.ofPiece, hcontent, Cell.ofText?]
  have hid : ¬ table.rows.any (·.id == (Row.ofPiece piece).id) := by
    simpa [Row.ofPiece] using hfresh
  rw [run_of_reached h, perform, insert, Insertion.row_eq, hdisturbance]
  simp only [if_neg hsame, if_neg hid]

section

variable {piece : Piece} {expected : Status} {row : Row}

theorem find?_of_is (hrow : row ∈ table.rows) (his : row.Is piece.id expected) :
    ∃ found, table.rows.find? (fun row ↦
      row.id == (Row.ofPiece piece).id && row.status == .text expected.name) = some found :=
  Option.isSome_iff_exists.mp (List.find?_isSome.mpr
    ⟨row, hrow, (beq_and_beq_iff_is row piece expected).mpr his⟩)

theorem run_update (h : table.outage = none) (hdisturbance : table.disturbance = none)
    (hrow : row ∈ table.rows) (his : row.Is piece.id expected)
    (hcontent : ∀ other ∈ table.rows, other.id ≠ .text piece.id →
      sameContent (Row.ofPiece piece) other = false) :
    table.run (.update piece expected) = (.ok true, { table with
      rows := table.rows.map fun row ↦
        if row.Is piece.id expected then row.takeOver (Row.ofPiece piece) else row }) := by
  obtain ⟨found, hfound⟩ := find?_of_is hrow his
  have hclash : ¬ table.rows.any fun other ↦
      other.id != (Row.ofPiece piece).id && sameContent (Row.ofPiece piece) other := by
    simpa [Row.ofPiece] using hcontent
  rw [run_of_reached h, perform, update_eq, replace, hfound, hdisturbance]
  simp only [Option.filter_none, if_neg hclash, beq_and_beq_iff_is]

/-- An update fails that is disturbed. -/
theorem run_update_disturbed (h : table.outage = none) {target : FaultyWrite}
    (hdisturbance : table.disturbance = some ⟨target, false⟩)
    (hhit : Disturbance.hitsUpdate (Row.ofPiece piece) target = true) (hrow : row ∈ table.rows)
    (his : row.Is piece.id expected) :
    table.run (.update piece expected) = (.error { cause := unavailable }, table) := by
  obtain ⟨found, hfound⟩ := find?_of_is hrow his
  rw [run_of_reached h, perform, update_eq, replace, hfound, hdisturbance]
  simp [Option.filter, hhit, refuse]

/-- A row is not written whose writes go wrong. -/
theorem run_update_hit {silent : Bool}
    (hdisturbance : table.disturbance = some ⟨.row piece.id, silent⟩) :
    (table.run (.update piece expected)).1 ≠ .ok true := by
  have hhit : Disturbance.hitsUpdate (Row.ofPiece piece) (.row piece.id) = true := beq_self_eq_true (Cell.text _)
  rw [run]
  split
  · exact fun h ↦ (by cases h)
  · change (table.update piece expected).1 ≠ _
    rw [update_eq, replace]
    split
    · exact fun h ↦ (by cases h)
    · rw [hdisturbance, Option.filter_some_pos (by exact hhit)]
      cases silent with
      | true => exact fun h ↦ (by cases h)
      | false => exact fun h ↦ (by cases h)

/-- A claim is made that is not disturbed. -/
theorem run_claim (h : table.outage = none) {id : String}
    (hdisturbance : ∀ disturbance ∈ table.disturbance,
      Disturbance.hitsClaim id disturbance.target = false)
    (hrow : row ∈ table.rows) (hfree : row.IsFree id) (proofSet : UInt64) (rootCid : String)
    (now : Instant) :
    table.run (.claim id proofSet rootCid now) = (.ok true, { table with
      rows := table.rows.map fun row ↦
        if row.IsFree id then row.claimed proofSet rootCid now else row }) := by
  obtain ⟨found, hfound⟩ : ∃ found, table.rows.find? (fun row ↦
      row.id == .text id && row.status == .text Status.uploaded.name && row.proofSet == .null
        && row.transaction == .null) = some found :=
    Option.isSome_iff_exists.mp
      (List.find?_isSome.mpr ⟨row, hrow, (beq_and_iff_isFree row id).mpr hfree⟩)
  have hmiss : table.disturbance.filter
      (fun disturbance ↦ Disturbance.hitsClaim id disturbance.target) = none :=
    Option.filter_eq_none_iff.mpr fun disturbance hmem ↦ by simp [hdisturbance disturbance hmem]
  rw [run_of_reached h, perform, claim_eq, replace, hfound, hmiss]
  simp only [beq_and_iff_isFree]

end

end Table

end PieceKeeper
