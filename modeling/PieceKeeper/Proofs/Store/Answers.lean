import PieceKeeper.Proofs.Store.RoundTrip

/-!
# What a calm table answers

A table that nothing disturbs is told by the pieces it has.  What they hold decides whether a
write is refused with a conflict, finds nothing to write, or takes place, and then what the
table becomes; and lists give them in the order of their rows.
-/

namespace PieceKeeper

/-- A request was refused with a conflict. -/
def Outcome.IsConflict {α : Type} (outcome : Outcome α) : Prop :=
  ∃ message, outcome = refuse (.conflict message)

namespace Book

variable {book : Book} {piece old held : Piece} {id : String} {expected : Status}

/-! ## What a write meets -/

/-- A piece of the book has the id or the content of another piece. -/
def Blocks (book : Book) (piece : Piece) : Prop :=
  ∃ held ∈ book, held.id = piece.id ∨ piece.contentId ≠ none ∧ held.contentId = piece.contentId

/-- A piece of the book with another id has the content of a piece. -/
def Rivals (book : Book) (piece : Piece) : Prop :=
  ∃ held ∈ book, held.id ≠ piece.id ∧ piece.contentId ≠ none ∧ held.contentId = piece.contentId

/-- A piece of the book has an id and stands at a status. -/
def Expects (book : Book) (id : String) (status : Status) : Prop :=
  ∃ held ∈ book, held.id = id ∧ held.status = status

/-! ## Insertions -/

/-- An insertion meets an id or a content that is held. -/
theorem run_insert_blocked (h : book.Blocks piece) :
    ∃ message, book.table.run (.insert piece) = (refuse (.conflict message), book.table) := by
  obtain ⟨held, hheld, hid | hcontent⟩ := h
  · rw [run_insert_eq, if_pos (any_id_iff.mpr ⟨held, hheld, hid⟩)]
    split
    · exact ⟨_, rfl⟩
    · exact ⟨_, rfl⟩
  · rw [run_insert_eq, if_pos (any_sameContent_iff.mpr ⟨held, hheld, hcontent⟩)]
    exact ⟨_, rfl⟩

/-- An insertion that meets nothing puts the piece behind the others. -/
theorem run_insert_of_not_blocks (h : ¬ book.Blocks piece) :
    book.table.run (.insert piece) = (.ok (), table (book ++ [piece])) := by
  have hcontent : ¬ book.table.rows.any (Table.sameContent (.ofPiece piece)) = true := by
    rw [any_sameContent_iff]
    exact fun ⟨held, hheld, hsame⟩ ↦ h ⟨held, hheld, .inr hsame⟩
  have hid : ¬ book.table.rows.any (·.id == (Row.ofPiece piece).id) = true := by
    rw [any_id_iff]
    exact fun ⟨held, hheld, hsame⟩ ↦ h ⟨held, hheld, .inl hsame⟩
  rw [run_insert_eq, if_neg hcontent, if_neg hid]

/-! ## Updates -/

/-- An update that finds no row in the expected status writes nothing. -/
theorem run_update_missing (h : ¬ book.Expects piece.id expected) :
    book.table.run (.update piece expected) = (.ok false, book.table) := by
  rw [Table.run_of_reached rfl, Table.perform, Table.update_eq, Table.replace, find?_rows_eq_none]
  intro held hheld his
  exact h ⟨held, hheld, is_ofPiece.mp ((Table.beq_and_beq_iff_is _ piece expected).mp his)⟩

theorem Sound.run_update_rivalled (hs : book.Sound) (h : book.Expects piece.id expected)
    (hrival : book.Rivals piece) :
    ∃ message, book.table.run (.update piece expected) =
      (refuse (.conflict message), book.table) := by
  obtain ⟨old, hold, hid, hstatus⟩ := h
  obtain ⟨held, hheld, hne, hcontent, hsame⟩ := hrival
  obtain ⟨contentId, hcontentId⟩ := Option.ne_none_iff_exists'.mp hcontent
  exact ⟨_, run_update_clash (hs.piece?_eq hold) hstatus hid.symm hheld (hid ▸ hne) hcontentId
    (hsame.trans hcontentId)⟩

/-- An update that finds its row writes all of it but the time of creation. -/
theorem Sound.run_update_unrivalled (hs : book.Sound) (hold : old ∈ book) (hid : old.id = piece.id)
    (hstatus : old.status = expected) (hrival : ¬ book.Rivals piece) :
    book.table.run (.update piece expected) =
      (.ok true, (book.put { piece with createdAt := old.createdAt }).table) := by
  have his : (Row.ofPiece old).Is piece.id expected := is_ofPiece.mpr ⟨hid, hstatus⟩
  have hwritten : (Row.ofPiece old).takeOver (.ofPiece piece) =
      .ofPiece { piece with createdAt := old.createdAt } := by
    simp only [Row.takeOver, Row.ofPiece, hid]
  have hversion : ({ piece with createdAt := old.createdAt } : Piece).id = old.id := hid.symm
  rw [Table.run_update rfl rfl (List.mem_map_of_mem hold) his]
  · rw [hs.map_put (hs.piece?_eq hold) hversion (·.Is piece.id expected)
      (·.takeOver (.ofPiece piece)) his (fun held hheld ↦ (is_ofPiece.mp hheld).1.trans hid.symm)
      hwritten]
    rfl
  · intro row hrow hne
    obtain ⟨held, hheld, rfl⟩ := List.mem_map.mp hrow
    rw [Bool.eq_false_iff]
    intro hsame
    exact hrival ⟨held, hheld, fun heq ↦ hne (congrArg Cell.text heq), sameContent_ofPiece.mp hsame⟩

/-! ## Claims -/

theorem Sound.run_claim_offered (hs : book.Sound) (hold : old ∈ book) (hid : old.id = id)
    (hstatus : old.status = .uploaded) (hset : old.proofSet = none) (htransaction : old.transaction = none)
    (proofSet : UInt64) (rootCid : String) (now : Instant) :
    book.table.run (.claim id proofSet rootCid now) =
      (.ok true, (book.put (old.heldFor proofSet rootCid now)).table) :=
  hs.run_claim (hid ▸ hs.piece?_eq hold) (Operation.checkFree_eq_ok.mpr ⟨hstatus, hset⟩)
    htransaction proofSet rootCid now

/-! ## Answers -/

/-- What a table with the pieces of a book answers, and what it becomes, when nothing disturbs it. -/
structure Answers (book : Book) : Prop where
  insert_conflict : ∀ piece,
    Outcome.IsConflict (book.table.run (.insert piece)).1 ↔ book.Blocks piece
  insert_ok : ∀ piece, ¬ book.Blocks piece →
    book.table.run (.insert piece) = (.ok (), table (book ++ [piece]))
  update_conflict : ∀ piece expected, Outcome.IsConflict (book.table.run (.update piece expected)).1 ↔
    book.Expects piece.id expected ∧ book.Rivals piece
  update_true : ∀ piece expected, (book.table.run (.update piece expected)).1 = .ok true ↔
    book.Expects piece.id expected ∧ ¬ book.Rivals piece
  update_false : ∀ piece expected, (book.table.run (.update piece expected)).1 = .ok false ↔
    ¬ book.Expects piece.id expected
  updated : ∀ piece expected, (book.table.run (.update piece expected)).1 = .ok true →
    ∃ old ∈ book, old.id = piece.id ∧ (book.table.run (.update piece expected)).2 =
      (book.put { piece with createdAt := old.createdAt }).table
  claim_true : ∀ id proofSet rootCid now,
    (book.table.run (.claim id proofSet rootCid now)).1 = .ok true ↔ book.Offers id
  claim_false : ∀ id proofSet rootCid now,
    (book.table.run (.claim id proofSet rootCid now)).1 = .ok false ↔ ¬ book.Offers id
  claimed : ∀ id proofSet rootCid now,
    (book.table.run (.claim id proofSet rootCid now)).1 = .ok true →
    ∃ old ∈ book, old.id = id ∧ (book.table.run (.claim id proofSet rootCid now)).2 =
      (book.put (old.heldFor proofSet rootCid now)).table
  withStatus : ∀ status, book.table.run (.withStatus status) =
    (.ok (book.filter (·.status == status)), book.table)
  first : ∀ limit, book.table.run (.first limit) = (.ok (book.upTo limit), book.table)
  first_min : ∀ limit : UInt64, book.length ≤ Nat.pow 2 63 → book.table.run (.first limit) =
    (.ok (book.take (min limit.toNat book.length)), book.table)

theorem isConflict_refuse {α : Type} (message : String) :
    Outcome.IsConflict (refuse (.conflict message) : Outcome α) := ⟨message, rfl⟩

theorem not_isConflict_ok {α : Type} (value : α) : ¬ Outcome.IsConflict (.ok value : Outcome α) :=
  nofun

/-- The three ways an update can go. -/
theorem Sound.update_cases (hs : book.Sound) (piece : Piece) (expected : Status) :
    (¬ book.Expects piece.id expected ∧
      book.table.run (.update piece expected) = (.ok false, book.table)) ∨
    (book.Expects piece.id expected ∧ book.Rivals piece ∧ ∃ message,
      book.table.run (.update piece expected) = (refuse (.conflict message), book.table)) ∨
    (book.Expects piece.id expected ∧ ¬ book.Rivals piece ∧ ∃ old ∈ book, old.id = piece.id ∧
      book.table.run (.update piece expected) =
        (.ok true, (book.put { piece with createdAt := old.createdAt }).table)) := by
  by_cases hexpects : book.Expects piece.id expected
  · by_cases hrival : book.Rivals piece
    · exact .inr (.inl ⟨hexpects, hrival, hs.run_update_rivalled hexpects hrival⟩)
    · obtain ⟨old, hold, hid, hstatus⟩ := id hexpects
      exact .inr (.inr ⟨hexpects, hrival, old, hold, hid,
        hs.run_update_unrivalled hold hid hstatus hrival⟩)
  · exact .inl ⟨hexpects, run_update_missing hexpects⟩

/-- The two ways a claim can go. -/
theorem Sound.claim_cases (hs : book.Sound) (id : String) (proofSet : UInt64) (rootCid : String)
    (now : Instant) :
    (¬ book.Offers id ∧
      book.table.run (.claim id proofSet rootCid now) = (.ok false, book.table)) ∨
    (book.Offers id ∧ ∃ old ∈ book, old.id = id ∧
      book.table.run (.claim id proofSet rootCid now) =
        (.ok true, (book.put (old.heldFor proofSet rootCid now)).table)) := by
  by_cases hoffers : book.Offers id
  · obtain ⟨old, hold, hid, hstatus, hset, htransaction⟩ := hoffers
    exact .inr ⟨⟨old, hold, hid, hstatus, hset, htransaction⟩, old, hold, hid,
      hs.run_claim_offered hold hid hstatus hset htransaction proofSet rootCid now⟩
  · exact .inl ⟨hoffers, run_claim_missing hoffers proofSet rootCid now⟩

/-- A limit that is negative as a signed number sets none, and a book that has no more pieces than
there are places for them meets none. -/
theorem upTo_eq_take (h : book.length ≤ Nat.pow 2 63) (limit : UInt64) :
    book.upTo limit = book.take (min limit.toNat book.length) := by
  rw [upTo]
  split
  · rw [List.take_eq_take_iff, Nat.min_assoc, Nat.min_self]
  · rename_i hlimit
    rw [Nat.min_eq_right (h.trans (Nat.le_of_not_lt hlimit)), List.take_length]

theorem Sound.lists (hs : book.Sound) : book.table.Lists book := ⟨rfl, hs⟩

theorem Sound.answers (hs : book.Sound) : book.Answers where
  insert_conflict piece := by
    by_cases hblocks : book.Blocks piece
    · obtain ⟨message, heq⟩ := run_insert_blocked hblocks
      exact iff_of_true (heq ▸ isConflict_refuse message) hblocks
    · refine iff_of_false ?_ hblocks
      rw [run_insert_of_not_blocks hblocks]
      exact not_isConflict_ok ()
  insert_ok piece := run_insert_of_not_blocks
  update_conflict piece expected := by
    rcases hs.update_cases piece expected with
      ⟨hexpects, heq⟩ | ⟨hexpects, hrival, message, heq⟩ | ⟨-, hrival, old, -, -, heq⟩
    · rw [heq]
      exact iff_of_false (not_isConflict_ok false) fun h ↦ hexpects h.1
    · rw [heq]
      exact iff_of_true (isConflict_refuse message) ⟨hexpects, hrival⟩
    · rw [heq]
      exact iff_of_false (not_isConflict_ok true) fun h ↦ hrival h.2
  update_true piece expected := by
    rcases hs.update_cases piece expected with
      ⟨hexpects, heq⟩ | ⟨-, hrival, message, heq⟩ | ⟨hexpects, hrival, old, -, -, heq⟩
    · rw [heq]
      exact iff_of_false nofun fun h ↦ hexpects h.1
    · rw [heq]
      exact iff_of_false nofun fun h ↦ h.2 hrival
    · rw [heq]
      exact iff_of_true rfl ⟨hexpects, hrival⟩
  update_false piece expected := by
    rcases hs.update_cases piece expected with
      ⟨hexpects, heq⟩ | ⟨hexpects, -, message, heq⟩ | ⟨hexpects, -, old, -, -, heq⟩
    · rw [heq]
      exact iff_of_true rfl hexpects
    · rw [heq]
      exact iff_of_false nofun (not_not_intro hexpects)
    · rw [heq]
      exact iff_of_false nofun (not_not_intro hexpects)
  updated piece expected hok := by
    rcases hs.update_cases piece expected with
      ⟨-, heq⟩ | ⟨-, -, message, heq⟩ | ⟨-, -, old, hold, hid, heq⟩
    · rw [heq] at hok
      cases hok
    · rw [heq] at hok
      cases hok
    · exact ⟨old, hold, hid, congrArg Prod.snd heq⟩
  claim_true id proofSet rootCid now := by
    rcases hs.claim_cases id proofSet rootCid now with ⟨hoffers, heq⟩ | ⟨hoffers, old, -, -, heq⟩
    · rw [heq]
      exact iff_of_false nofun hoffers
    · rw [heq]
      exact iff_of_true rfl hoffers
  claim_false id proofSet rootCid now := by
    rcases hs.claim_cases id proofSet rootCid now with ⟨hoffers, heq⟩ | ⟨hoffers, old, -, -, heq⟩
    · rw [heq]
      exact iff_of_true rfl hoffers
    · rw [heq]
      exact iff_of_false nofun (not_not_intro hoffers)
  claimed id proofSet rootCid now hok := by
    rcases hs.claim_cases id proofSet rootCid now with ⟨-, heq⟩ | ⟨-, old, hold, hid, heq⟩
    · rw [heq] at hok
      cases hok
    · exact ⟨old, hold, hid, congrArg Prod.snd heq⟩
  withStatus := hs.lists.run_withStatus rfl
  first := hs.lists.run_first rfl
  first_min limit hlength := by rw [hs.lists.run_first rfl, upTo_eq_take hlength]

end Book

end PieceKeeper
