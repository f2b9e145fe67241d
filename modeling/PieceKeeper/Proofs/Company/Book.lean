import PieceKeeper.Proofs.Run.Blank
import PieceKeeper.Proofs.Run.Versions

/-!
# Books

A table that nothing disturbs, as the list of its pieces.  A book keeps its rules under every write,
and two books that differ only in their times give the same answers, up to times.
-/

namespace PieceKeeper

/-! ## Pieces without their times -/

namespace Piece

/-- The piece with all of its times forgotten. -/
def timeless (piece : Piece) : Piece :=
  { piece with
    submittedAt := piece.submittedAt.map fun _ ↦ .epoch, createdAt := .epoch, updatedAt := .epoch }

/-- All times of a piece can be read back. -/
structure IsReadable (piece : Piece) : Prop where
  created : piece.createdAt.IsReadable
  updated : piece.updatedAt.IsReadable
  submitted : ∀ instant ∈ piece.submittedAt, instant.IsReadable

theorem IsReadable.toPiece {piece : Piece} (h : piece.IsReadable) :
    (Row.ofPiece piece).toPiece = .ok piece :=
  Row.toPiece_ofPiece h.created h.updated h.submitted

end Piece

/-! ## Books -/

/-- The pieces of a table in the order of their rows. -/
abbrev Book := List Piece

namespace Book

/-- The table with these pieces. -/
def table (book : Book) : Table := { rows := book.map Row.ofPiece }

/-- The piece with an id. -/
def piece? (book : Book) (id : String) : Option Piece := book.find? (·.id == id)

/-- A piece that holds a content. -/
def holder? (book : Book) (contentId : String) : Option Piece :=
  book.find? (·.contentId == some contentId)

/-- The book with another version of one of its pieces. -/
def put (book : Book) (piece : Piece) : Book :=
  book.map fun other ↦ if other.id = piece.id then piece else other

/-- There is a piece with an id, and it is this one up to times. -/
def Has (book : Book) (id : String) (piece : Piece) : Prop :=
  ∃ image, book.piece? id = some image ∧ image.timeless = piece.timeless

/-- Another book has one more piece, which is this one up to times. -/
def Gains (book : Book) (piece : Piece) (book' : Book) : Prop :=
  ∃ version : Piece, version.IsReadable ∧ version.timeless = piece.timeless ∧ book' = book ++ [version]

/-- Another book has this version of one of the pieces, up to times. -/
def Takes (book : Book) (piece : Piece) (book' : Book) : Prop :=
  ∃ version : Piece, version.IsReadable ∧ version.timeless = piece.timeless ∧ book' = book.put version

/-- What holds of the pieces of every table: the times can be read, no two pieces have one id, and no
two pieces hold one content. -/
structure Sound (book : Book) : Prop where
  readable : ∀ piece ∈ book, piece.IsReadable
  ids : (book.map (·.id)).Nodup
  contents : ∀ piece ∈ book, ∀ other ∈ book, ∀ contentId, piece.contentId = some contentId →
    other.contentId = some contentId → piece.id = other.id

variable {book : Book} {piece written other : Piece} {id contentId : String} {expected : Status}

theorem sound_nil : Sound [] where
  readable _ h := absurd h List.not_mem_nil
  ids := List.nodup_nil
  contents _ h := absurd h List.not_mem_nil

theorem id_of_piece? (h : book.piece? id = some piece) : piece.id = id := by
  have hfound := List.find?_some h
  exact beq_iff_eq.mp hfound

theorem mem_of_piece? (h : book.piece? id = some piece) : piece ∈ book :=
  List.mem_of_find?_eq_some h

theorem piece?_eq_none : book.piece? id = none ↔ ∀ piece ∈ book, piece.id ≠ id := by
  simp [piece?]

theorem holder?_eq_none :
    book.holder? contentId = none ↔ ∀ piece ∈ book, piece.contentId ≠ some contentId := by
  simp [holder?]

theorem Sound.eq_of_id (hs : book.Sound) (hpiece : piece ∈ book) (hother : other ∈ book)
    (hid : piece.id = other.id) : piece = other :=
  List.inj_on_of_nodup_map hs.ids hpiece hother hid

theorem Sound.piece?_eq (hs : book.Sound) (hpiece : piece ∈ book) :
    book.piece? piece.id = some piece := by
  cases hfound : book.piece? piece.id with
  | none => exact absurd rfl (piece?_eq_none.mp hfound piece hpiece)
  | some found =>
    exact congrArg some (hs.eq_of_id (mem_of_piece? hfound) hpiece (id_of_piece? hfound))

/-! ## Commands -/

/-- Reading the first row that passes a test. -/
theorem Sound.findRow (hs : book.Sound) (test : Row → Bool) :
    book.table.findRow test = .ok (book.find? (test ∘ Row.ofPiece)) := by
  rw [Table.findRow, table, List.find?_map]
  cases hfound : book.find? (test ∘ Row.ofPiece) with
  | none => rfl
  | some piece =>
    have hread := (hs.readable piece (List.mem_of_find?_eq_some hfound)).toPiece
    simp only [Option.map_some, Table.readRow, Piece.ofCells_answered, hread]
    rfl

theorem Sound.run_find (hs : book.Sound) (id : String) :
    book.table.run (.find id) = (.ok (book.piece? id), book.table) := by
  have htest : ((·.id == Cell.text id) ∘ Row.ofPiece) = fun piece : Piece ↦ piece.id == id := by
    funext piece
    rw [Function.comp_apply, Bool.eq_iff_iff, beq_iff_eq, beq_iff_eq]
    exact ⟨Cell.text.inj, congrArg Cell.text⟩
  rw [Table.run_of_reached rfl, Table.perform, hs.findRow, htest]
  rfl

theorem Sound.run_findContent (hs : book.Sound) (contentId : String) :
    book.table.run (.findContent contentId) = (.ok (book.holder? contentId), book.table) := by
  have htest : ((·.contentId == Cell.text contentId) ∘ Row.ofPiece) =
      fun piece : Piece ↦ piece.contentId == some contentId := by
    funext piece
    rw [Function.comp_apply, Bool.eq_iff_iff, beq_iff_eq, beq_iff_eq]
    exact ⟨fun h ↦ Cell.ofText?_injective h, congrArg Cell.ofText?⟩
  rw [Table.run_of_reached rfl, Table.perform, hs.findRow, htest]
  rfl

/-- Another version of a piece holds no content that another piece holds. -/
theorem Sound.free_of_same (hs : book.Sound) (hpiece : book.piece? id = some piece)
    (hcontent : written.contentId = piece.contentId) :
    ∀ other ∈ book, other.id ≠ id → other.contentId = written.contentId → written.contentId = none := by
  intro other hother hne hsame
  refine Option.eq_none_iff_forall_ne_some.mpr fun contentId hsome ↦ hne ?_
  rw [← id_of_piece? hpiece]
  exact hs.contents other hother piece (mem_of_piece? hpiece) contentId (hsame.trans hsome)
    (hcontent.symm.trans hsome)

theorem run_insert (hcontent : piece.contentId = none) (hfree : book.piece? piece.id = none) :
    book.table.run (.insert piece) = (.ok (), table (book ++ [piece])) := by
  rw [Table.run_insert rfl rfl hcontent, table, table, List.map_append]
  · rfl
  · intro row hrow
    obtain ⟨other, hother, rfl⟩ := List.mem_map.mp hrow
    exact fun heq ↦ piece?_eq_none.mp hfree other hother (Cell.text.inj heq)

/-- Whether the content of a piece is that of another. -/
theorem sameContent_ofPiece : Table.sameContent (Row.ofPiece piece) (Row.ofPiece other) = true ↔
    piece.contentId ≠ none ∧ other.contentId = piece.contentId := by
  have hnull : (Row.ofPiece piece).contentId = .null ↔ piece.contentId = none :=
    ⟨fun h ↦ Cell.ofText?_injective (h.trans (rfl : Cell.null = .ofText? none)),
      fun h ↦ congrArg Cell.ofText? h⟩
  have hsame : (Row.ofPiece piece).contentId = (Row.ofPiece other).contentId ↔
      other.contentId = piece.contentId :=
    ⟨fun h ↦ (Cell.ofText?_injective h).symm, fun h ↦ congrArg Cell.ofText? h.symm⟩
  simp only [Table.sameContent, Bool.and_eq_true, bne_iff_ne, beq_iff_eq, ne_eq, hnull, hsame]

theorem any_rows_iff {test : Row → Bool} :
    book.table.rows.any test = true ↔ ∃ held ∈ book, test (.ofPiece held) = true := by
  simp only [table, List.any_eq_true, List.mem_map, exists_exists_and_eq_and]

theorem any_sameContent_iff : book.table.rows.any (Table.sameContent (.ofPiece piece)) = true ↔
    ∃ held ∈ book, piece.contentId ≠ none ∧ held.contentId = piece.contentId := by
  simp only [any_rows_iff, sameContent_ofPiece]

theorem any_id_iff : book.table.rows.any (·.id == (Row.ofPiece piece).id) = true ↔
    ∃ held ∈ book, held.id = piece.id := by
  simp only [any_rows_iff, beq_iff_eq, Row.ofPiece, Cell.text.injEq]

theorem run_insert_eq : book.table.run (.insert piece) =
    if book.table.rows.any (Table.sameContent (.ofPiece piece)) then
      (refuse (Table.clash piece.id "content_id"), book.table)
    else if book.table.rows.any (·.id == (Row.ofPiece piece).id) then
      (refuse (Table.clash piece.id "id"), book.table)
    else (.ok (), table (book ++ [piece])) := by
  rw [Table.run_of_reached rfl, Table.perform, Table.insert, Insertion.row_eq, table, table, List.map_append]
  rfl

theorem run_insert_taken (hcontent : piece.contentId = none) (htaken : (book.piece? piece.id).isSome) :
    book.table.run (.insert piece) = (refuse (Table.clash piece.id "id"), book.table) := by
  obtain ⟨holder, hholder⟩ := Option.isSome_iff_exists.mp htaken
  have hsame : ¬ book.table.rows.any (Table.sameContent (.ofPiece piece)) = true := by
    rw [any_sameContent_iff]
    exact fun ⟨_, _, hpresent, _⟩ ↦ hpresent hcontent
  rw [run_insert_eq, if_neg hsame,
    if_pos (any_id_iff.mpr ⟨holder, mem_of_piece? hholder, id_of_piece? hholder⟩)]

theorem is_ofPiece : (Row.ofPiece piece).Is id expected ↔ piece.id = id ∧ piece.status = expected :=
  ⟨fun h ↦ ⟨Cell.text.inj h.1, Status.name_injective (Cell.text.inj h.2)⟩,
    fun h ↦ ⟨congrArg Cell.text h.1, congrArg (fun status : Status ↦ Cell.text status.name) h.2⟩⟩

/-- A write over the row of one piece. -/
theorem Sound.map_put (hs : book.Sound) (hpiece : book.piece? id = some piece) (hid : written.id = id)
    (test : Row → Prop) [DecidablePred test] (change : Row → Row) (htest : test (.ofPiece piece))
    (honly : ∀ other, test (.ofPiece other) → other.id = id)
    (hchange : change (.ofPiece piece) = .ofPiece written) :
    book.table.rows.map (fun row ↦ if test row then change row else row) =
      (book.put written).table.rows := by
  simp only [table, put, List.map_map]
  refine List.map_congr_left fun other hother ↦ ?_
  by_cases heq : other.id = id
  · obtain rfl := hs.eq_of_id hother (mem_of_piece? hpiece) (heq.trans (id_of_piece? hpiece).symm)
    simp only [Function.comp_apply, if_pos htest, hchange, if_pos (heq.trans hid.symm)]
  · have hne : ¬ other.id = written.id := fun h ↦ heq (h.trans hid)
    simp only [Function.comp_apply, if_neg fun h ↦ heq (honly other h), if_neg hne]

theorem Sound.run_update (hs : book.Sound) (hpiece : book.piece? id = some piece)
    (hstatus : piece.status = expected) (hid : written.id = id)
    (hcreated : written.createdAt = piece.createdAt)
    (hfree : ∀ other ∈ book, other.id ≠ id → other.contentId = written.contentId →
      written.contentId = none) :
    book.table.run (.update written expected) = (.ok true, (book.put written).table) := by
  have hat := id_of_piece? hpiece
  have hmem : Row.ofPiece piece ∈ book.table.rows := List.mem_map_of_mem (mem_of_piece? hpiece)
  rw [Table.run_update rfl rfl hmem (is_ofPiece.mpr ⟨hat.trans hid.symm, hstatus⟩)]
  · rw [hs.map_put hpiece hid (·.Is written.id expected) (·.takeOver (.ofPiece written))]
    · rfl
    · exact is_ofPiece.mpr ⟨hat.trans hid.symm, hstatus⟩
    · exact fun other h ↦ (is_ofPiece.mp h).1.trans hid
    · exact Row.takeOver_ofPiece (hid.trans hat.symm) hcreated
  · intro row hrow hne
    obtain ⟨other, hother, rfl⟩ := List.mem_map.mp hrow
    rw [Bool.eq_false_iff]
    intro hsame
    obtain ⟨hnone, hcontent⟩ := sameContent_ofPiece.mp hsame
    exact hnone (hfree other hother (fun h ↦ hne (congrArg Cell.text (h.trans hid.symm))) hcontent)

/-- The update of a row to a content that another row holds. -/
theorem run_update_clash (hpiece : book.piece? id = some piece)
    (hstatus : piece.status = expected) (hid : written.id = id) (hother : other ∈ book)
    (hne : other.id ≠ id) (hcontent : written.contentId = some contentId)
    (hsame : other.contentId = some contentId) :
    book.table.run (.update written expected) =
      (refuse (Table.clash written.id "content_id"), book.table) := by
  have hmem : Row.ofPiece piece ∈ book.table.rows := List.mem_map_of_mem (mem_of_piece? hpiece)
  obtain ⟨found, hfound⟩ := Table.find?_of_is hmem
    (is_ofPiece.mpr ⟨(id_of_piece? hpiece).trans hid.symm, hstatus⟩)
  have hclash : (book.table.rows.any fun row ↦ row.id != (Row.ofPiece written).id
      && Table.sameContent (.ofPiece written) row) = true := by
    refine List.any_eq_true.mpr ⟨.ofPiece other, List.mem_map_of_mem hother, ?_⟩
    refine Bool.and_eq_true_iff.mpr ⟨bne_iff_ne.mpr fun h ↦ ?_, sameContent_ofPiece.mpr ⟨?_, ?_⟩⟩
    · exact hne ((Cell.text.inj h).trans hid)
    · rw [hcontent]
      exact Option.some_ne_none contentId
    · exact hsame.trans hcontent.symm
  rw [Table.run_of_reached rfl, Table.perform, Table.update_eq, Table.replace, hfound]
  simp only [table] at hclash ⊢
  simp only [Option.filter_none, hclash]
  rfl

theorem isFree_ofPiece : (Row.ofPiece piece).IsFree id ↔
    piece.id = id ∧ piece.status = .uploaded ∧ piece.proofSet = none ∧ piece.transaction = none := by
  have hset : (Row.ofPiece piece).proofSet = .null ↔ piece.proofSet = none :=
    ⟨fun h ↦ Cell.ofSize?_injective (h.trans (rfl : Cell.null = .ofSize? none)),
      fun h ↦ congrArg Cell.ofSize? h⟩
  have htransaction : (Row.ofPiece piece).transaction = .null ↔ piece.transaction = none :=
    ⟨fun h ↦ Cell.ofText?_injective (h.trans (rfl : Cell.null = .ofText? none)),
      fun h ↦ congrArg Cell.ofText? h⟩
  rw [Row.IsFree, is_ofPiece, hset, htransaction, and_assoc]

/-- A piece of the book can be claimed under an id. -/
def Offers (book : Book) (id : String) : Prop :=
  ∃ held ∈ book, held.id = id ∧ held.status = .uploaded ∧ held.proofSet = none ∧
    held.transaction = none

theorem find?_rows_eq_none {test : Row → Bool}
    (h : ∀ held ∈ book, ¬ test (.ofPiece held) = true) : book.table.rows.find? test = none := by
  simpa only [table, List.find?_eq_none, List.forall_mem_map] using h

/-- A claim that finds no row to be had writes nothing. -/
theorem run_claim_missing (h : ¬ book.Offers id) (proofSet : UInt64) (rootCid : String)
    (now : Instant) :
    book.table.run (.claim id proofSet rootCid now) = (.ok false, book.table) := by
  rw [Table.run_of_reached rfl, Table.perform, Table.claim_eq, Table.replace, find?_rows_eq_none]
  intro held hheld hfree
  exact h ⟨held, hheld, isFree_ofPiece.mp ((Table.beq_and_iff_isFree _ id).mp hfree)⟩

theorem Sound.run_claim (hs : book.Sound) (hpiece : book.piece? id = some piece)
    (hfree : Operation.checkFree piece = .ok ()) (htransaction : piece.transaction = none)
    (proofSet : UInt64) (rootCid : String) (now : Instant) :
    book.table.run (.claim id proofSet rootCid now) =
      (.ok true, (book.put (piece.heldFor proofSet rootCid now)).table) := by
  obtain ⟨hstatus, hset⟩ := Operation.checkFree_eq_ok.mp hfree
  have hmem : Row.ofPiece piece ∈ book.table.rows := List.mem_map_of_mem (mem_of_piece? hpiece)
  have hisFree : (Row.ofPiece piece).IsFree id :=
    isFree_ofPiece.mpr ⟨id_of_piece? hpiece, hstatus, hset, htransaction⟩
  have hcalm : ∀ disturbance ∈ book.table.disturbance,
      Table.Disturbance.hitsClaim id disturbance.target = false := fun _ h ↦ by cases h
  have hat := id_of_piece? hpiece
  have hheld : (piece.heldFor proofSet rootCid now).id = id := hat
  have hput := hs.map_put hpiece hheld (·.IsFree id) (·.claimed proofSet rootCid now) hisFree
    (fun other h ↦ (isFree_ofPiece.mp h).1) rfl
  rw [Table.run_claim rfl hcalm hmem hisFree, hput]
  rfl

/-- A piece that has a transaction cannot be claimed. -/
theorem Sound.run_claim_taken (hs : book.Sound) (hpiece : book.piece? id = some piece)
    (htransaction : piece.transaction ≠ none) (proofSet : UInt64) (rootCid : String) (now : Instant) :
    book.table.run (.claim id proofSet rootCid now) = (.ok false, book.table) := by
  refine run_claim_missing ?_ proofSet rootCid now
  rintro ⟨other, hother, hid, -, -, hnone⟩
  obtain rfl := hs.eq_of_id hother (mem_of_piece? hpiece) (hid.trans (id_of_piece? hpiece).symm)
  exact htransaction hnone

/-! ## Writes keep the rules -/

theorem piece?_append_of_some (h : book.piece? id = some piece) (new : Piece) :
    piece? (book ++ [new]) id = some piece := by
  rw [piece?] at h ⊢
  rw [List.find?_append, h]
  rfl

theorem mem_put : other ∈ book.put written →
    other = written ∧ (∃ old ∈ book, old.id = written.id) ∨ other ∈ book ∧ other.id ≠ written.id := by
  intro h
  obtain ⟨old, hold, heq⟩ := List.mem_map.mp h
  split at heq
  · rename_i hid
    exact Or.inl ⟨heq.symm, old, hold, hid⟩
  · rename_i hid
    subst heq
    exact Or.inr ⟨hold, hid⟩

/-- A version of a piece has its id. -/
theorem id_ite (written other : Piece) :
    (if other.id = written.id then written else other).id = other.id := by
  split
  · rename_i hid
    exact hid.symm
  · rfl

theorem map_id_put : (book.put written).map (·.id) = book.map (·.id) := by
  rw [put, List.map_map]
  exact List.map_congr_left fun other _ ↦ id_ite written other

theorem piece?_put_of_ne (hne : id ≠ written.id) : (book.put written).piece? id = book.piece? id := by
  rw [piece?, put, List.find?_map]
  have htest : ((fun piece : Piece ↦ piece.id == id) ∘
      fun other ↦ if other.id = written.id then written else other) = fun other ↦ other.id == id := by
    funext other
    exact congrArg (· == id) (id_ite written other)
  rw [htest]
  change (book.piece? id).map _ = book.piece? id
  cases hfound : book.piece? id with
  | none => rfl
  | some piece =>
    have hid : ¬ piece.id = written.id := by
      rw [id_of_piece? hfound]
      exact hne
    rw [Option.map_some, if_neg hid]

theorem Sound.insert (hs : book.Sound) (hread : piece.IsReadable) (hcontent : piece.contentId = none)
    (hfree : book.piece? piece.id = none) : Sound (book ++ [piece]) where
  readable other hother := by
    rcases List.mem_append.mp hother with hold | hnew
    · exact hs.readable other hold
    · exact List.mem_singleton.mp hnew ▸ hread
  ids := by
    rw [List.map_append]
    refine List.nodup_append.mpr ⟨hs.ids, List.nodup_singleton _, fun id hold other hnew ↦ ?_⟩
    obtain ⟨old, hmem, rfl⟩ := List.mem_map.mp hold
    rw [List.mem_singleton.mp hnew]
    exact piece?_eq_none.mp hfree old hmem
  contents first hfirst second hsecond contentId hsame hsame' := by
    have hmem {other : Piece} (hother : other ∈ book ++ [piece])
        (hcontentId : other.contentId = some contentId) : other ∈ book := by
      refine (List.mem_append.mp hother).resolve_right fun hnew ↦ ?_
      rw [List.mem_singleton.mp hnew, hcontent] at hcontentId
      cases hcontentId
    exact hs.contents first (hmem hfirst hsame) second (hmem hsecond hsame') contentId hsame hsame'

theorem Sound.put (hs : book.Sound) (hread : written.IsReadable)
    (hfree : ∀ other ∈ book, other.id ≠ written.id → other.contentId = written.contentId →
      written.contentId = none) : (book.put written).Sound where
  readable other hother := by
    rcases mem_put hother with ⟨rfl, -⟩ | ⟨hold, -⟩
    · exact hread
    · exact hs.readable other hold
  ids := by
    rw [map_id_put]
    exact hs.ids
  contents first hfirst second hsecond contentId hsame hsame' := by
    have hclash {other : Piece} (hother : other ∈ book) (hne : other.id ≠ written.id)
        (hcontent : other.contentId = some contentId) (hwritten : written.contentId = some contentId) :
        False := by
      have hnone := hfree other hother hne (hcontent.trans hwritten.symm)
      rw [hwritten] at hnone
      cases hnone
    rcases mem_put hfirst with ⟨rfl, -⟩ | ⟨hold, hne⟩ <;>
      rcases mem_put hsecond with ⟨rfl, -⟩ | ⟨hold', hne'⟩
    · rfl
    · exact (hclash hold' hne' hsame' hsame).elim
    · exact (hclash hold hne hsame hsame').elim
    · exact hs.contents first hold second hold' contentId hsame hsame'

theorem piece?_put (hpiece : book.piece? written.id = some piece) :
    (book.put written).piece? written.id = some written := by
  rw [piece?, Book.put, List.find?_map]
  have htest : ((fun other : Piece ↦ other.id == written.id) ∘
      fun other ↦ if other.id = written.id then written else other) =
      fun other ↦ other.id == written.id := by
    funext other
    exact congrArg (· == written.id) (id_ite written other)
  rw [htest]
  change (book.piece? written.id).map _ = some written
  rw [hpiece, Option.map_some, if_pos (id_of_piece? hpiece)]

/-- Only the last of two writes to one piece counts. -/
theorem put_put (hid : written.id = piece.id) : (book.put piece).put written = book.put written := by
  rw [Book.put, Book.put, Book.put, List.map_map]
  refine List.map_congr_left fun other _ ↦ ?_
  rw [Function.comp_apply, id_ite piece other]
  by_cases heq : other.id = written.id
  · rw [if_pos heq, if_pos heq]
  · rw [if_neg heq, if_neg heq, if_neg fun h ↦ heq (h.trans hid.symm)]

/-- A piece can be written over itself. -/
theorem Sound.put_self (hs : book.Sound) (hpiece : book.piece? id = some piece) :
    book.put piece = book := by
  rw [Book.put]
  refine (List.map_congr_left fun other hother ↦ ?_).trans (List.map_id _)
  by_cases hid : other.id = piece.id
  · rw [if_pos hid, hs.eq_of_id hother (mem_of_piece? hpiece) hid]
    rfl
  · rw [if_neg hid]
    rfl

/-- Writes to different pieces can change places. -/
theorem put_comm (hne : written.id ≠ other.id) (book : Book) :
    (book.put written).put other = (book.put other).put written := by
  rw [put, put, put, put, List.map_map, List.map_map]
  refine List.map_congr_left fun piece _ ↦ ?_
  simp only [Function.comp_apply]
  by_cases hwritten : piece.id = written.id
  · have hother : ¬ piece.id = other.id := fun h ↦ hne (hwritten.symm.trans h)
    rw [if_pos hwritten, if_neg hother, if_neg hne, if_pos hwritten]
  · by_cases hother : piece.id = other.id
    · rw [if_neg hwritten, if_pos hother, if_neg hne.symm]
    · rw [if_neg hwritten, if_neg hother, if_neg hwritten]

/-- A write to pieces without their times. -/
theorem map_timeless_put (book : Book) (written : Piece) :
    (book.put written).map (·.timeless) = Book.put (book.map (·.timeless)) written.timeless := by
  rw [put, put, List.map_map, List.map_map]
  exact List.map_congr_left fun piece _ ↦ apply_ite Piece.timeless (piece.id = written.id) written piece

/-- Who holds a content, if a write takes it from no piece and gives it to none. -/
theorem Sound.holder?_put (hs : book.Sound) (hpiece : book.piece? written.id = some piece)
    (hcontent : written.contentId = some contentId ↔ piece.contentId = some contentId) :
    ((book.put written).holder? contentId).map (·.id) = (book.holder? contentId).map (·.id) := by
  have htest : book.find? ((·.contentId == some contentId) ∘
      fun other ↦ if other.id = written.id then written else other) = book.holder? contentId := by
    refine List.find?_congr fun other hother ↦ ?_
    rw [Function.comp_apply]
    by_cases hid : other.id = written.id
    · obtain rfl := hs.eq_of_id hother (mem_of_piece? hpiece) (hid.trans (id_of_piece? hpiece).symm)
      rw [if_pos hid, Bool.eq_iff_iff, beq_iff_eq, beq_iff_eq]
      exact hcontent
    · rw [if_neg hid]
  rw [Book.holder?, Book.put, List.find?_map, htest, Option.map_map]
  exact congrArg (Option.map · (book.holder? contentId)) (funext fun other ↦ id_ite written other)

/-! ## Two books -/

/-- One book mirrors another up to times, except that it has other versions of some pieces. -/
structure Mirrors (edit : String → Option Piece) (book mirror : Book) : Prop where
  sound : book.Sound
  readable : ∀ piece ∈ mirror, piece.IsReadable
  same : mirror.map (·.timeless) = book.map fun piece ↦ ((edit piece.id).getD piece).timeless
  /-- Another version of a piece has its id and its content. -/
  edits : ∀ id version, edit id = some version → version.id = id ∧
    ∃ piece, book.piece? id = some piece ∧ piece.contentId = version.contentId

namespace Mirrors

variable {edit : String → Option Piece} {mirror : Book} {version : Piece}

theorem initial (hs : book.Sound) : Mirrors (fun _ ↦ none) book book where
  sound := hs
  readable := hs.readable
  same := rfl
  edits _ _ h := by cases h

/-- Books are the same up to times when there are no other versions. -/
theorem timeless_eq (hm : Mirrors edit book mirror) (hedits : ∀ id, edit id = none) :
    mirror.map (·.timeless) = book.map (·.timeless) := by
  refine hm.same.trans (List.map_congr_left fun piece _ ↦ ?_)
  rw [hedits]
  rfl

/-- A version of a piece has its id and its content. -/
theorem key_eq (hm : Mirrors edit book mirror) (hpiece : piece ∈ book) :
    ((edit piece.id).getD piece).id = piece.id ∧
      ((edit piece.id).getD piece).contentId = piece.contentId := by
  cases hedit : edit piece.id with
  | none => exact ⟨rfl, rfl⟩
  | some version =>
    obtain ⟨hid, other, hother, hcontent⟩ := hm.edits _ _ hedit
    obtain rfl := hm.sound.eq_of_id (mem_of_piece? hother) hpiece (id_of_piece? hother)
    exact ⟨hid, hcontent.symm⟩

theorem keys_eq (hm : Mirrors edit book mirror) :
    mirror.map (fun piece ↦ (piece.id, piece.contentId)) =
      book.map fun piece ↦ (piece.id, piece.contentId) := by
  have hkeys := congrArg (List.map fun piece : Piece ↦ (piece.id, piece.contentId)) hm.same
  rw [List.map_map, List.map_map] at hkeys
  refine hkeys.trans (List.map_congr_left fun piece hpiece ↦ ?_)
  exact Prod.ext (hm.key_eq hpiece).1 (hm.key_eq hpiece).2

theorem ids_eq (hm : Mirrors edit book mirror) : mirror.map (·.id) = book.map (·.id) := by
  have hids := congrArg (List.map Prod.fst) hm.keys_eq
  rw [List.map_map, List.map_map] at hids
  exact hids

/-- Every piece of the mirror has its original. -/
theorem exists_original (hm : Mirrors edit book mirror) (hpiece : piece ∈ mirror) :
    ∃ other ∈ book, other.id = piece.id ∧ other.contentId = piece.contentId := by
  have hkey : (piece.id, piece.contentId) ∈ book.map fun piece ↦ (piece.id, piece.contentId) :=
    hm.keys_eq ▸ List.mem_map_of_mem hpiece
  obtain ⟨other, hother, heq⟩ := List.mem_map.mp hkey
  exact ⟨other, hother, congrArg Prod.fst heq, congrArg Prod.snd heq⟩

/-- Every piece has its image in the mirror. -/
theorem exists_image (hm : Mirrors edit book mirror) (hpiece : piece ∈ book) :
    ∃ other ∈ mirror, other.id = piece.id ∧ other.contentId = piece.contentId := by
  have hkey : (piece.id, piece.contentId) ∈ mirror.map fun piece ↦ (piece.id, piece.contentId) :=
    hm.keys_eq ▸ List.mem_map_of_mem hpiece
  obtain ⟨other, hother, heq⟩ := List.mem_map.mp hkey
  exact ⟨other, hother, congrArg Prod.fst heq, congrArg Prod.snd heq⟩

theorem sound_mirror (hm : Mirrors edit book mirror) : mirror.Sound where
  readable := hm.readable
  ids := by
    rw [hm.ids_eq]
    exact hm.sound.ids
  contents first hfirst second hsecond contentId hsame hsame' := by
    obtain ⟨one, hone, hid, hcontent⟩ := hm.exists_original hfirst
    obtain ⟨two, htwo, hid', hcontent'⟩ := hm.exists_original hsecond
    have heq := hm.sound.contents one hone two htwo contentId (hcontent.trans hsame)
      (hcontent'.trans hsame')
    exact hid.symm.trans (heq.trans hid')

theorem holder?_eq_none (hm : Mirrors edit book mirror) :
    mirror.holder? contentId = none ↔ book.holder? contentId = none := by
  rw [Book.holder?_eq_none, Book.holder?_eq_none]
  constructor
  · intro h piece hpiece
    obtain ⟨other, hother, -, hcontent⟩ := hm.exists_image hpiece
    rw [← hcontent]
    exact h other hother
  · intro h piece hpiece
    obtain ⟨other, hother, -, hcontent⟩ := hm.exists_original hpiece
    rw [← hcontent]
    exact h other hother

theorem piece?_eq_none (hm : Mirrors edit book mirror) :
    mirror.piece? id = none ↔ book.piece? id = none := by
  rw [Book.piece?_eq_none, Book.piece?_eq_none]
  constructor
  · intro h piece hpiece
    obtain ⟨other, hother, hid, -⟩ := hm.exists_image hpiece
    rw [← hid]
    exact h other hother
  · intro h piece hpiece
    obtain ⟨other, hother, hid, -⟩ := hm.exists_original hpiece
    rw [← hid]
    exact h other hother

/-- What the mirror has under an id. -/
theorem piece?_eq (hm : Mirrors edit book mirror) (hpiece : book.piece? id = some piece) :
    ∃ image, mirror.piece? id = some image ∧ image.timeless = ((edit id).getD piece).timeless := by
  have hmem : ((edit piece.id).getD piece).timeless ∈ mirror.map (·.timeless) := by
    rw [hm.same]
    exact List.mem_map.mpr ⟨piece, mem_of_piece? hpiece, rfl⟩
  obtain ⟨image, himage, heq⟩ := List.mem_map.mp hmem
  have hid : image.id = id := by
    have htimeless := congrArg Piece.id heq
    exact htimeless.trans ((hm.key_eq (mem_of_piece? hpiece)).1.trans (id_of_piece? hpiece))
  refine ⟨image, ?_, ?_⟩
  · rw [← hid]
    exact hm.sound_mirror.piece?_eq himage
  · rw [heq, id_of_piece? hpiece]

theorem insert (hm : Mirrors edit book mirror) (hread : piece.IsReadable) (hread' : version.IsReadable)
    (hcontent : piece.contentId = none) (hfree : book.piece? piece.id = none)
    (hsame : version.timeless = piece.timeless) :
    Mirrors edit (book ++ [piece]) (mirror ++ [version]) where
  sound := hm.sound.insert hread hcontent hfree
  readable other hother := by
    rcases List.mem_append.mp hother with hold | hnew
    · exact hm.readable other hold
    · exact List.mem_singleton.mp hnew ▸ hread'
  same := by
    have hedit : edit piece.id = none := by
      refine Option.eq_none_iff_forall_ne_some.mpr fun version hversion ↦ ?_
      obtain ⟨-, old, hold, -⟩ := hm.edits _ _ hversion
      rw [hfree] at hold
      cases hold
    rw [List.map_append, List.map_append, hm.same, List.map_singleton, List.map_singleton, hedit, hsame]
    rfl
  edits id version hversion := by
    obtain ⟨hid, old, hold, hsame⟩ := hm.edits id version hversion
    exact ⟨hid, old, piece?_append_of_some hold _, hsame⟩

/-- A version of a piece and a version of its image. -/
theorem put {edited : Option Piece} (hm : Mirrors edit book mirror)
    (hpiece : book.piece? written.id = some piece) (hread : written.IsReadable)
    (hread' : version.IsReadable)
    (hfree : ∀ other ∈ book, other.id ≠ written.id → other.contentId = written.contentId →
      written.contentId = none)
    (hid : version.id = written.id)
    (hedited : ∀ image, edited = some image → image.id = written.id ∧
      written.contentId = image.contentId)
    (hsame : version.timeless = (edited.getD written).timeless) :
    Mirrors (Function.update edit written.id edited) (book.put written) (mirror.put version) where
  sound := hm.sound.put hread hfree
  readable other hother := by
    rcases mem_put hother with ⟨rfl, -⟩ | ⟨hold, -⟩
    · exact hread'
    · exact hm.readable other hold
  same := by
    -- both sides go from piece to piece, and the two versions come at the same place
    rw [map_timeless_put, hm.same, Book.put, Book.put, List.map_map, List.map_map]
    refine List.map_congr_left fun other hother ↦ ?_
    have hkey : (((edit other.id).getD other).timeless).id = other.id := (hm.key_eq hother).1
    have hid' : version.timeless.id = written.id := hid
    by_cases heq : other.id = written.id
    · simp only [Function.comp_apply]
      rw [if_pos (hkey.trans (heq.trans hid'.symm)), if_pos heq, Function.update_self, hsame]
    · simp only [Function.comp_apply]
      rw [if_neg fun h ↦ heq (hkey.symm.trans (h.trans hid')), if_neg heq, Function.update_of_ne heq]
  edits id image himage := by
    by_cases heq : id = written.id
    · subst heq
      rw [Function.update_self] at himage
      obtain ⟨himageId, hcontent⟩ := hedited image himage
      exact ⟨himageId, written, piece?_put hpiece, hcontent⟩
    · rw [Function.update_of_ne heq] at himage
      obtain ⟨himageId, old, hold, hcontent⟩ := hm.edits id image himage
      exact ⟨himageId, old, (piece?_put_of_ne heq).trans hold, hcontent⟩

end Mirrors

end Book

end PieceKeeper
