import PieceKeeper.Proofs.Company.Exits
import PieceKeeper.Proofs.Service.Rules

/-!
# What is written is read back

A table that only pieces of our time were written to can be read as a whole.  So a piece that was
inserted is found in every way there is, with every value it had, and an update or a claim is read back
as it was made.
-/

namespace PieceKeeper

/-! ## Times that can be written -/

/-- The year of an instant has at most four digits. -/
def Instant.IsDated (instant : Instant) : Prop := 0 ≤ instant.date.year ∧ instant.date.year ≤ 9999

theorem Instant.IsDated.isReadable {instant : Instant} (h : instant.IsDated) : instant.IsReadable :=
  Stamp.parse_text h

/-- The years of all times of a piece have at most four digits. -/
structure Piece.IsDated (piece : Piece) : Prop where
  created : piece.createdAt.IsDated
  updated : piece.updatedAt.IsDated
  submitted : ∀ instant ∈ piece.submittedAt, instant.IsDated

theorem Piece.IsDated.isReadable {piece : Piece} (h : piece.IsDated) : piece.IsReadable :=
  ⟨h.created.isReadable, h.updated.isReadable, fun instant hmem ↦ (h.submitted instant hmem).isReadable⟩

/-- A piece that is read from its row has times that can be read. -/
theorem Piece.isReadable_of_toPiece {piece : Piece} (h : (Row.ofPiece piece).toPiece = .ok piece) :
    piece.IsReadable := by
  have hread {place : Nat} {value instant : Instant}
      (hinstant : Cell.instant place (value.text "+00:00") = .ok instant) : value.IsReadable := by
    obtain rfl := Cell.eq_of_instant_text hinstant
    rw [Cell.instant] at hinstant
    split at hinstant
    · rename_i found hparse
      cases hinstant
      exact hparse
    · cases hinstant
  simp only [Row.toPiece, Except.bind_eq_ok, Row.ofPiece, Cell.toText_text, Cell.toText?_ofText?,
    Cell.toSize?_ofSize?, Cell.toInt64?_ofInt64?, Cell.toBool?_ofBool?, Cell.toBytes?_ofBytes?,
    Cell.toStatus_name, Except.ok.injEq, exists_eq_left'] at h
  obtain ⟨submitted, hsubmitted, created, hcreated, updated, hupdated, -⟩ := h
  obtain ⟨text, htext, hcreated⟩ := Except.bind_eq_ok.mp hcreated
  cases htext
  obtain ⟨text, htext, hupdated⟩ := Except.bind_eq_ok.mp hupdated
  cases htext
  refine ⟨hread hcreated, hread hupdated, fun instant hmem ↦ ?_⟩
  rw [Option.mem_def.mp hmem] at hsubmitted
  obtain ⟨text, htext, hrest⟩ := Except.bind_eq_ok.mp hsubmitted
  cases htext
  obtain ⟨found, hfound, -⟩ := Except.bind_eq_ok.mp hrest
  exact hread hfound

/-! ## Lists of pieces -/

/-- A content leads to the piece that holds it. -/
theorem Book.Sound.holder?_eq {book : Book} {piece : Piece} {contentId : String} (hs : book.Sound)
    (hpiece : piece ∈ book) (hcontent : piece.contentId = some contentId) :
    book.holder? contentId = some piece := by
  cases hfound : book.holder? contentId with
  | none => exact absurd hcontent (holder?_eq_none.mp hfound piece hpiece)
  | some found =>
    have htest := List.find?_some hfound
    have hholds : found.contentId = some contentId := beq_iff_eq.mp htest
    have hmem : found ∈ book := List.mem_of_find?_eq_some hfound
    exact congrArg some (hs.eq_of_id hmem hpiece (hs.contents found hmem piece hpiece contentId hholds hcontent))

/-- The pieces that a limit lets through. -/
def Book.upTo (book : Book) (limit : UInt64) : Book :=
  if limit.toNat < Nat.pow 2 63 then book.take limit.toNat else book

namespace Table

/-- A table has the pieces of a book, and all of them can be read. -/
structure Lists (table : Table) (book : Book) : Prop where
  rows : table.rows = book.map Row.ofPiece
  sound : book.Sound

/-- A lawful table whose pieces can be read is the table of a book. -/
theorem Lawful.exists_lists {table : Table} (h : table.Lawful)
    (hread : ∀ piece, .ofPiece piece ∈ table.rows → piece.IsReadable) : ∃ book, table.Lists book := by
  have hpieces : ∀ rows : List Row, (∀ row ∈ rows, ∃ piece, row = .ofPiece piece) →
      ∃ book : Book, rows = book.map Row.ofPiece := by
    intro rows hrows
    induction rows with
    | nil => exact ⟨[], rfl⟩
    | cons row rows ih =>
      obtain ⟨piece, rfl⟩ := hrows row List.mem_cons_self
      obtain ⟨book, rfl⟩ := ih fun other hother ↦ hrows other (List.mem_cons_of_mem _ hother)
      exact ⟨piece :: book, rfl⟩
  obtain ⟨book, hbook⟩ := hpieces table.rows h.pieces
  have hmem {piece : Piece} (hpiece : piece ∈ book) : .ofPiece piece ∈ table.rows :=
    hbook ▸ List.mem_map_of_mem hpiece
  refine ⟨book, hbook, fun piece hpiece ↦ hread piece (hmem hpiece), ?_, ?_⟩
  · have hids := h.ids
    rw [hbook, List.map_map] at hids
    refine List.Nodup.of_map Cell.text ?_
    rwa [List.map_map]
  · intro piece hpiece other hother contentId hcontent hcontent'
    obtain ⟨i, hi⟩ := List.mem_iff_getElem?.mp (hmem hpiece)
    refine (Cell.text.inj (h.contents i piece hi _ (hmem hother) ?_)).symm
    exact Book.sameContent_ofPiece.mpr ⟨by simp [hcontent], hcontent'.trans hcontent.symm⟩

namespace Lists

variable {table : Table} {book : Book} {piece : Piece} {id : String}

theorem findRow (h : table.Lists book) (test : Row → Bool) :
    table.findRow test = book.table.findRow test := by
  rw [Table.findRow, Table.findRow, h.rows, Book.table]

theorem run_find (h : table.Lists book) (hreach : table.outage = none) (id : String) :
    table.run (.find id) = (.ok (book.piece? id), table) := by
  have hfind := congrArg Prod.fst (h.sound.run_find id)
  rw [Table.run_of_reached rfl, Table.perform] at hfind
  rw [Table.run_of_reached hreach, Table.perform, h.findRow]
  exact Prod.ext hfind rfl

theorem run_findContent (h : table.Lists book) (hreach : table.outage = none) (contentId : String) :
    table.run (.findContent contentId) = (.ok (book.holder? contentId), table) := by
  have hfind := congrArg Prod.fst (h.sound.run_findContent contentId)
  rw [Table.run_of_reached rfl, Table.perform] at hfind
  rw [Table.run_of_reached hreach, Table.perform, h.findRow]
  exact Prod.ext hfind rfl

/-- Any of the pieces can be read together. -/
theorem readRows (h : table.Lists book) {part : Book} (hpart : part ⊆ book) :
    Table.readRows (part.map Row.ofPiece) = .ok part := by
  refine readRows_eq_ok.mpr (List.forall₂_map_left_iff.mpr (List.forall₂_same.mpr fun piece hpiece ↦ ?_))
  exact (h.sound.readable piece (hpart hpiece)).toPiece

theorem run_first (h : table.Lists book) (hreach : table.outage = none) (limit : UInt64) :
    table.run (.first limit) = (.ok (book.upTo limit), table) := by
  have hadmitted : admitted limit table.rows = (book.upTo limit).map Row.ofPiece := by
    rw [admitted, Book.upTo, h.rows]
    split
    · exact List.map_take.symm
    · rfl
  have hpart : book.upTo limit ⊆ book := by
    rw [Book.upTo]
    split
    · exact List.take_subset _ _
    · exact List.Subset.refl _
  rw [Table.run_of_reached hreach, Table.perform, hadmitted, h.readRows hpart]

theorem run_withStatus (h : table.Lists book) (hreach : table.outage = none) (status : Status) :
    table.run (.withStatus status) = (.ok (book.filter (·.status == status)), table) := by
  have hfilter : table.rows.filter (·.status == .text status.name) =
      (book.filter (·.status == status)).map Row.ofPiece := by
    rw [h.rows, List.filter_map]
    refine congrArg (List.map Row.ofPiece) (List.filter_congr fun piece _ ↦ ?_)
    rw [Function.comp_apply, Bool.eq_iff_iff, beq_iff_eq, beq_iff_eq]
    exact ⟨fun heq ↦ Status.name_injective (Cell.text.inj heq), fun heq ↦ heq ▸ rfl⟩
  rw [Table.run_of_reached hreach, Table.perform, hfilter, h.readRows (List.filter_subset_self _)]

/-- A row of the table is found under its id. -/
theorem run_find_mem (h : table.Lists book) (hreach : table.outage = none)
    (hpiece : .ofPiece piece ∈ table.rows) : table.run (.find piece.id) = (.ok (some piece), table) := by
  have hmem : piece ∈ book := by
    obtain ⟨other, hother, heq⟩ := List.mem_map.mp (h.rows ▸ hpiece)
    exact Row.ofPiece_injective heq ▸ hother
  rw [h.run_find hreach, h.sound.piece?_eq hmem]

end Lists

/-! ## Tables of our time -/

/-- The times that a command writes are of years with at most four digits. -/
def Command.IsDated : Command → Prop
  | .insert piece | .update piece _ => piece.IsDated
  | .claim _ _ _ now => now.IsDated
  | _ => True

/-- A table as commands make it from nothing, whatever goes wrong with their writes. -/
inductive Written : Table → Prop
  | fresh : Written {}
  | run {table : Table} {command : Command} : Written table → command.IsDated → Written (table.run command).2
  | weather {table : Table} (disturbance : Option Disturbance) (outage : Option String) :
    Written table → Written { table with disturbance, outage }

namespace Written

variable {table : Table} {book : Book} {piece : Piece} {expected : Status} {id rootCid : String}
  {proofSet : UInt64} {now : Instant}

theorem lawful (h : table.Written) : table.Lawful := by
  induction h with
  | fresh => exact lawful_nil
  | run _ _ ih => exact ih.run _
  | weather _ _ _ ih => exact ⟨ih.pieces, ih.ids, ih.contents⟩

/-- A row that was put is new, and the others are as they were. -/
theorem mem_put {i : Nat} {written : Piece} (h : .ofPiece piece ∈ (table.put i written).rows) :
    .ofPiece piece ∈ table.rows ∨ piece = written :=
  (List.mem_or_eq_of_mem_set h).imp_right fun heq ↦ Row.ofPiece_injective heq

/-- What a dated command leaves can be read, if what was there can. -/
theorem readable_run {command : Command} (hs : table.Lawful)
    (hread : ∀ piece, .ofPiece piece ∈ table.rows → piece.IsReadable) (hdated : command.IsDated) :
    ∀ piece, .ofPiece piece ∈ (table.run command).2.rows → piece.IsReadable := by
  intro piece hpiece
  rw [Table.run] at hpiece
  split at hpiece
  · exact hread piece hpiece
  cases command with
  | find _ | findContent _ | withStatus _ | first _ => exact hread piece hpiece
  | insert new =>
    change _ ∈ (table.insert new).2.rows at hpiece
    rcases table.insert_cases new with ⟨-, hsame⟩ | ⟨-, -, heq⟩
    · exact hread piece (hsame ▸ hpiece)
    · rw [heq] at hpiece
      rcases List.mem_append.mp hpiece with hold | hnew
      · exact hread piece hold
      · rw [Row.ofPiece_injective (List.mem_singleton.mp hnew)]
        exact Piece.IsDated.isReadable hdated
  | update written expected =>
    change _ ∈ (table.update written expected).2.rows at hpiece
    rcases hs.update_cases written expected with ⟨-, hsame⟩ | ⟨i, old, hhas, -, -, heq⟩
    · exact hread piece (hsame ▸ hpiece)
    · rw [heq] at hpiece
      rcases mem_put hpiece with hold | rfl
      · exact hread piece hold
      · have hwritten : written.IsReadable := Piece.IsDated.isReadable hdated
        exact ⟨(hread old hhas.mem).created, hwritten.updated, hwritten.submitted⟩
  | claim id proofSet rootCid now =>
    change _ ∈ (table.claim id proofSet rootCid now).2.rows at hpiece
    rcases hs.claim_cases id proofSet rootCid now with ⟨-, hsame⟩ | ⟨i, old, hhas, -, heq⟩
    · exact hread piece (hsame ▸ hpiece)
    · rw [heq] at hpiece
      rcases mem_put hpiece with hold | rfl
      · exact hread piece hold
      · exact (hread old hhas.mem).heldFor proofSet rootCid (Instant.IsDated.isReadable hdated)

theorem readable (h : table.Written) : ∀ piece, .ofPiece piece ∈ table.rows → piece.IsReadable := by
  induction h with
  | fresh => exact fun _ hpiece ↦ absurd hpiece List.not_mem_nil
  | run h hdated ih => exact readable_run h.lawful ih hdated
  | weather _ _ _ ih => exact ih

theorem exists_lists (h : table.Written) : ∃ book, table.Lists book := h.lawful.exists_lists h.readable

end Written

/-- A table that has answered was within reach. -/
theorem reached_of_ok {table : Table} {command : Command} {answer : command.Answer}
    (h : (table.run command).1 = .ok answer) :
    table.outage = none ∧ table.run command = table.perform command := by
  cases houtage : table.outage with
  | none => exact ⟨rfl, run_of_reached houtage command⟩
  | some detail =>
    rw [run, reach, houtage] at h
    cases h

end Table

/-! ## Reading back -/

/-- A cell has a number that may be absent, as the signed number with the same bits. -/
def Cell.HasBits (cell : Cell) : Option UInt64 → Prop
  | none => cell = .null
  | some size => ∃ value, cell = .integer value ∧ value.toBitVec = size.toBitVec

theorem Cell.hasBits_ofSize? (size : Option UInt64) : (ofSize? size).HasBits size := by
  cases size with
  | none => rfl
  | some size => exact ⟨size.toInt64, rfl, rfl⟩

/-- A row has the unsigned numbers of a piece with their bits. -/
structure Row.HasBits (row : Row) (piece : Piece) : Prop where
  rawSize : row.rawSize.HasBits piece.rawSize
  paddedSize : row.paddedSize.HasBits piece.paddedSize
  pieceSize : row.pieceSize.HasBits piece.pieceSize
  proofSet : row.proofSet.HasBits piece.proofSet

theorem Row.hasBits_ofPiece (piece : Piece) : (ofPiece piece).HasBits piece :=
  ⟨Cell.hasBits_ofSize? _, Cell.hasBits_ofSize? _, Cell.hasBits_ofSize? _, Cell.hasBits_ofSize? _⟩

namespace Table

/-- A piece is read from a table in every way there is, behind the pieces of a book. -/
structure Returns (table : Table) (book : Book) (piece : Piece) : Prop where
  find : table.run (.find piece.id) = (.ok (some piece), table)
  first : ∀ limit, table.run (.first limit) = (.ok ((book ++ [piece] : Book).upTo limit), table)
  withStatus : table.run (.withStatus piece.status) =
    (.ok (book.filter (·.status == piece.status) ++ [piece]), table)
  findContent : ∀ contentId, piece.contentId = some contentId →
    table.run (.findContent contentId) = (.ok (some piece), table)

/-- What was written is read back. -/
structure RoundTrips (table : Table) : Prop where
  inserted : ∀ piece, piece.IsDated → ¬ table.IsLossy → (table.run (.insert piece)).1 = .ok () →
    ∃ book row, table.rows = book.map Row.ofPiece ∧ row.HasBits piece ∧
      (table.run (.insert piece)).2.rows = table.rows ++ [row] ∧
      (table.run (.insert piece)).2.Returns book piece
  updated : ∀ piece expected, piece.IsDated → (table.run (.update piece expected)).1 = .ok true →
    ∃ old, (table.run (.find piece.id)).1 = .ok (some old) ∧
      ((table.run (.update piece expected)).2.run (.find piece.id)).1 =
        .ok (some { piece with createdAt := old.createdAt })
  claimed : ∀ id proofSet rootCid now, now.IsDated →
    (table.run (.claim id proofSet rootCid now)).1 = .ok true →
    ∃ old, (table.run (.find id)).1 = .ok (some old) ∧
      ((table.run (.claim id proofSet rootCid now)).2.run (.find id)).1 =
        .ok (some { old with proofSet := some proofSet, rootCid := some rootCid, updatedAt := now })

namespace Written

variable {table : Table}

theorem returns_insert (h : table.Written) {piece : Piece} (hdated : piece.IsDated) (hkeeps : ¬ table.IsLossy)
    (hok : (table.run (.insert piece)).1 = .ok ()) :
    ∃ book row, table.rows = book.map Row.ofPiece ∧ row.HasBits piece ∧
      (table.run (.insert piece)).2.rows = table.rows ++ [row] ∧
      (table.run (.insert piece)).2.Returns book piece := by
  obtain ⟨hreach, hrun⟩ := reached_of_ok hok
  change _ = table.insert piece at hrun
  obtain ⟨book, hbook⟩ := h.exists_lists
  have hwritten : (table.run (.insert piece)).2.Written := .run h hdated
  obtain ⟨book', hbook'⟩ := hwritten.exists_lists
  have hadds : table.insert piece = (.ok (), table.add piece) := by
    rw [hrun] at hok
    rcases table.insert_cases piece with ⟨hlossy, -⟩ | ⟨-, -, heq⟩
    · exact absurd (hlossy hok) hkeeps
    · exact heq
  rw [hrun, hadds] at hbook' ⊢
  obtain rfl : book' = book ++ [piece] := by
    refine List.map_injective_iff.mpr Row.ofPiece_injective ?_
    rw [← hbook'.rows, Table.add, hbook.rows, List.map_append]
    rfl
  have hreach' : (table.add piece).outage = none := hreach
  have hpiece : piece ∈ book ++ [piece] := List.mem_append_right _ (List.mem_singleton_self _)
  refine ⟨book, .ofPiece piece, hbook.rows, Row.hasBits_ofPiece piece, rfl, ?_, ?_, ?_, ?_⟩
  · rw [hbook'.run_find hreach', hbook'.sound.piece?_eq hpiece]
  · exact hbook'.run_first hreach'
  · rw [hbook'.run_withStatus hreach', List.filter_append, List.filter_singleton, beq_self_eq_true]
    rfl
  · intro contentId hcontent
    rw [hbook'.run_findContent hreach', hbook'.sound.holder?_eq hpiece hcontent]

/-- What a table that is left with a row reads under its id. -/
theorem find_put (h : table.Written) (command : Command) (hdated : command.IsDated) {i : Nat}
    {old piece : Piece} (hreach : table.outage = none) (hhas : table.Has i old) (hput : (table.run command).2 = table.put i piece)
    (hid : piece.id = old.id) :
    (table.run (.find piece.id)).1 = .ok (some old) ∧
      ((table.run command).2.run (.find piece.id)).1 = .ok (some piece) := by
  obtain ⟨book, hbook⟩ := h.exists_lists
  have hwritten : (table.run command).2.Written := .run h hdated
  obtain ⟨book', hbook'⟩ := hwritten.exists_lists
  have hmem : .ofPiece piece ∈ (table.run command).2.rows := hput ▸ (has_put hhas).mem
  constructor
  · rw [hid, hbook.run_find_mem hreach hhas.mem]
  · rw [hbook'.run_find_mem ((table.weather_run command).2.trans hreach) hmem]

/-- What is written to a table is read back from it. -/
theorem roundTrips (h : table.Written) : table.RoundTrips where
  inserted _ hdated hkeeps hok := h.returns_insert hdated hkeeps hok
  updated piece expected hdated hok := by
    obtain ⟨hreach, hrun⟩ := reached_of_ok hok
    change _ = table.update piece expected at hrun
    rcases h.lawful.update_cases piece expected with ⟨hrefused, -⟩ | ⟨i, old, hhas, hid, -, heq⟩
    · exact absurd (hrun ▸ hok) hrefused
    · exact ⟨old, h.find_put (.update piece expected) hdated hreach hhas
        (congrArg Prod.snd (hrun.trans heq)) hid⟩
  claimed id proofSet rootCid now hdated hok := by
    obtain ⟨hreach, hrun⟩ := reached_of_ok hok
    change _ = table.claim id proofSet rootCid now at hrun
    rcases h.lawful.claim_cases id proofSet rootCid now with ⟨hrefused, -⟩ | ⟨i, old, hhas, rfl, heq⟩
    · exact absurd (hrun ▸ hok) hrefused
    · exact ⟨old, h.find_put (.claim old.id proofSet rootCid now) hdated hreach hhas
        (congrArg Prod.snd (hrun.trans heq)) rfl⟩

end Written

end Table

end PieceKeeper
