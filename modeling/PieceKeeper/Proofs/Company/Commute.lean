import PieceKeeper.Proofs.Company.Moves
import PieceKeeper.Proofs.Company.Questions
import PieceKeeper.Proofs.Service.Uploads
import PieceKeeper.Proofs.Store.RoundTrip

/-!
# Moves that commute

Two operations on different pieces can change places, unless both are uploads of one content: each has the
effect that it has without the other, and the effects touch different pieces and different blobs.
-/

namespace PieceKeeper

open Company

/-- A piece that is still prepared holds no content. -/
def Book.IsFresh (book : Book) : Prop := ∀ piece ∈ book, piece.status = .prepared → piece.contentId = none

/-! ## What a move leaves to others -/

namespace Company.Effect

variable {effect : Effect} {book book' : Book}

/-- The pieces that an effect leaves, without their times. -/
def write (effect : Effect) (book : Book) : Book := effect.version.elim book book.put

/-- An effect leaves the pieces as they are, or it writes one of them. -/
theorem Writes.cases (h : effect.Writes book book') : effect.version = none ∧ book' = book ∨
    ∃ written : Piece, effect.version = some written.timeless ∧ written.IsReadable ∧ book' = book.put written := by
  rw [Writes] at h
  cases hversion : effect.version with
  | none =>
    rw [hversion] at h
    exact Or.inl ⟨rfl, h⟩
  | some version =>
    rw [hversion] at h
    obtain ⟨written, hread, rfl, hput⟩ := h
    exact Or.inr ⟨written, rfl, hread, hput⟩

theorem Writes.timeless (h : effect.Writes book book') :
    book'.map (·.timeless) = effect.write (book.map (·.timeless)) := by
  rcases h.cases with ⟨hversion, rfl⟩ | ⟨written, hversion, -, rfl⟩
  · rw [write, hversion]
    rfl
  · rw [write, hversion]
    exact Book.map_timeless_put book written

end Company.Effect

namespace Company.Move

variable {move : Move} {stage : Stage} {ticket : Nat} {a a' : Archive} {book book' : Book} {id contentId : String}

/-- What a move makes of the pieces of a book. -/
structure Alters (move : Move) (book : Book) (piece written : Piece) (book' : Book) : Prop where
  found : book.piece? move.piece = some piece
  readable : written.IsReadable
  id : written.id = move.piece
  content : written.contentId = piece.contentId ∨
    piece.status = .prepared ∧ book.keeper? move.contentId? = none ∧ written.contentId = move.contentId?
  put : book' = book.put written

/-- A move that finds nothing only says so; otherwise its effect is one on its piece. -/
theorem effect_cases (move : Move) (stage : Stage) (ticket : Nat) (book : Book) :
    (∃ result, move.effect stage ticket book = .said result) ∨
      ∃ piece, book.piece? move.piece = some piece ∧ (move.effect stage ticket book).Fits move.contentId?
        (book.keeper? move.contentId?) piece.timeless := by
  cases hfound : book.piece? move.piece with
  | none =>
    rw [effect_of_none hfound]
    exact Or.inl ⟨_, rfl⟩
  | some piece =>
    rw [effect_of_some hfound]
    have hfits := move.fits_effectOn stage ticket (book.keeper? move.contentId?) piece.timeless
    exact Or.inr ⟨piece, rfl, hfits.id, hfits.content, hfits.blob⟩

/-- A move leaves the pieces as they are, or it alters its own. -/
theorem alters_of_writes (h : (move.effect stage ticket book).Writes book book') :
    book' = book ∨ ∃ piece written, move.Alters book piece written book' := by
  rcases h.cases with ⟨-, hsame⟩ | ⟨written, hversion, hread, hput⟩
  · exact Or.inl hsame
  · rcases move.effect_cases stage ticket book with ⟨result, hsaid⟩ | ⟨piece, hfound, hfits⟩
    · rw [hsaid] at hversion
      cases hversion
    · have hid : written.id = piece.id := hfits.id written.timeless hversion
      have hcontent : written.contentId = piece.contentId ∨ piece.status = .prepared ∧
          book.keeper? move.contentId? = none ∧ written.contentId = move.contentId? :=
        hfits.content written.timeless hversion
      exact Or.inr ⟨piece, written, hfound, hread, hid.trans (Book.id_of_piece? hfound), hcontent, hput⟩

namespace Alters

variable {piece written : Piece}

theorem sound (h : move.Alters book piece written book') (hs : book.Sound) : book'.Sound := by
  rw [h.put]
  refine hs.put h.readable fun other hother hne hsame ↦ ?_
  rw [h.id] at hne
  rcases h.content with hcontent | ⟨-, hkeeper, hcontent⟩
  · exact hs.free_of_same h.found hcontent other hother hne hsame
  · cases hbrought : move.contentId? with
    | none => exact hcontent.trans hbrought
    | some contentId =>
      rw [hbrought, Book.keeper?_some, Option.map_eq_none_iff] at hkeeper
      exact absurd (hsame.trans (hcontent.trans hbrought)) (Book.holder?_eq_none.mp hkeeper other hother)

theorem piece?_of_ne (h : move.Alters book piece written book') (hne : id ≠ move.piece) :
    book'.piece? id = book.piece? id := by
  rw [h.put]
  exact Book.piece?_put_of_ne (h.id ▸ hne)

/-- Who holds a content that the move does not bring. -/
theorem keeper? (h : move.Alters book piece written book') (hs : book.Sound) (hfresh : book.IsFresh)
    {contentId? : Option String}
    (hne : ∀ contentId, contentId? = some contentId → move.contentId? ≠ some contentId) :
    book'.keeper? contentId? = book.keeper? contentId? := by
  cases contentId? with
  | none => rfl
  | some contentId =>
    rw [Book.keeper?_some, Book.keeper?_some, h.put]
    refine hs.holder?_put (h.id ▸ h.found) ?_
    rcases h.content with hcontent | ⟨hstatus, -, hcontent⟩
    · rw [hcontent]
    · rw [hcontent, hfresh piece (Book.mem_of_piece? h.found) hstatus]
      exact iff_of_false (hne contentId rfl) (fun hnone ↦ (by cases hnone))

end Alters

/-- What a move leaves of an archive to others. -/
structure Leaves (move : Move) (a a' : Archive) : Prop where
  sound : a'.Sound
  others : ∀ id, id ≠ move.piece → a'.book.piece? id = a.book.piece? id
  keeper : a.book.IsFresh → ∀ contentId? : Option String,
    (∀ contentId, contentId? = some contentId → move.contentId? ≠ some contentId) →
      a'.book.keeper? contentId? = a.book.keeper? contentId?

theorem leaves_of_changes (ha : a.Sound) (h : (move.effect stage ticket a.book).Changes a a') :
    move.Leaves a a' := by
  rcases alters_of_writes h.book with hsame | ⟨piece, written, halters⟩
  · refine ⟨⟨hsame ▸ ha.book, h.open_⟩, fun id _ ↦ by rw [hsame], fun _ contentId? _ ↦ by rw [hsame]⟩
  · exact ⟨⟨halters.sound ha.book, h.open_⟩, fun _ hne ↦ halters.piece?_of_ne hne,
      fun hfresh _ hne ↦ halters.keeper? ha.book hfresh hne⟩

/-! ## Two moves -/

/-- Two moves are about different pieces, and do not bring the same content. -/
structure Apart (first second : Move) : Prop where
  pieces : first.piece ≠ second.piece
  contents : ∀ contentId, first.contentId? = some contentId → second.contentId? ≠ some contentId

variable {first second : Move}

theorem Apart.symm (h : first.Apart second) : second.Apart first where
  pieces := h.pieces.symm
  contents contentId hsecond hfirst := h.contents contentId hfirst hsecond

/-- A move has the effect that it has without the other. -/
theorem Apart.effect_eq (h : first.Apart second) (hfresh : a.book.IsFresh) (hleaves : first.Leaves a a') :
    second.effect stage ticket a'.book = second.effect stage ticket a.book := by
  rw [effect, effect, hleaves.others _ h.pieces.symm,
    hleaves.keeper hfresh _ fun contentId hsecond hfirst ↦ h.contents contentId hfirst hsecond]

theorem id_of_version {version : Piece} (h : (move.effect stage ticket book).version = some version) :
    version.id = move.piece := by
  rcases move.effect_cases stage ticket book with ⟨result, hsaid⟩ | ⟨piece, hfound, hfits⟩
  · rw [hsaid] at h
    cases h
  · have hid : version.id = piece.id := hfits.id version h
    exact hid.trans (Book.id_of_piece? hfound)

theorem contentId?_of_blob {key : String} {content : Bytes}
    (h : (move.effect stage ticket book).blob? key = some content) : move.contentId? = some key := by
  obtain ⟨⟨held, content⟩, hblob, hkey⟩ := Option.bind_eq_some_iff.mp h
  obtain ⟨rfl, -⟩ := Option.ite_none_right_eq_some.mp hkey
  rcases move.effect_cases stage ticket book with ⟨result, hsaid⟩ | ⟨piece, -, hfits⟩
  · rw [hsaid] at hblob
    cases hblob
  · exact hfits.blob key content hblob

/-- An upload that goes well brings a content that nobody holds, and then its piece holds it. -/
theorem upload_cases {id : String} {body : Bytes} {answer : Piece × Option Finding}
    (h : (effect (.upload id body) stage ticket book).result = .ok answer) :
    book.keeper? (contentId? (.upload id body)) = none ∧
      ∃ piece version, book.piece? id = some piece ∧
        (effect (.upload id body) stage ticket book).version = some version ∧
        version.contentId = contentId? (.upload id body) ∧ version.contentId ≠ none := by
  cases hfound : book.piece? (piece (.upload id body)) with
  | none =>
    rw [effect_of_none hfound] at h
    cases h
  | some piece =>
    rw [effect_of_some hfound, effectOn, Effect.ofUpload] at h ⊢
    cases hcommitted : Operation.checkContent piece.timeless id (.ofNat body.length) >>= fun _ ↦
      CommittedPiece.ofContent body with
    | error fault =>
      rw [hcommitted] at h
      cases h
    | ok committed =>
      rw [hcommitted] at h
      obtain ⟨_, -, hcontent⟩ := Except.bind_eq_ok.mp hcommitted
      cases hkeeper : book.keeper? (contentId? (.upload id body)) with
      | some holder =>
        rw [hkeeper] at h
        cases h
      | none =>
        refine ⟨rfl, piece, _, hfound, rfl, (contentId?_upload hcontent).symm, fun hnone ↦ ?_⟩
        cases hnone

/-- The effects of two moves write different pieces. -/
theorem Apart.write_comm (h : first.Apart second) {later : Nat} (pieces : Book) :
    (first.effect stage ticket book).write ((second.effect stage later book).write pieces) =
      (second.effect stage later book).write ((first.effect stage ticket book).write pieces) := by
  rw [Effect.write, Effect.write, Effect.write, Effect.write]
  cases hfirst : (first.effect stage ticket book).version with
  | none => rfl
  | some version =>
    cases hsecond : (second.effect stage later book).version with
    | none => rfl
    | some other =>
      refine Book.put_comm ?_ pieces
      rw [id_of_version hfirst, id_of_version hsecond]
      exact h.pieces.symm

/-- The effects of two moves put different blobs on the shelf. -/
theorem Apart.or_comm (h : first.Apart second) {later : Nat} {key : String} (held : Option Bytes) :
    (held.or ((second.effect stage later book).blob? key)).or ((first.effect stage ticket book).blob? key) =
      (held.or ((first.effect stage ticket book).blob? key)).or ((second.effect stage later book).blob? key) := by
  cases hfirst : (first.effect stage ticket book).blob? key with
  | none => rw [Option.or_none, Option.or_none]
  | some content =>
    cases hsecond : (second.effect stage later book).blob? key with
    | none => rw [Option.or_none, Option.or_none]
    | some other => exact absurd (contentId?_of_blob hsecond) (h.contents key (contentId?_of_blob hfirst))

end Company.Move

namespace Company.Stage

/-! ## Two moves one after the other -/

/-- What is said to who makes a move, up to times. -/
def tells (stage : Stage) (turns : Turns) (ticket : Nat) (move : Move) : Outcome (Piece × Option Finding) :=
  move.errand.report (stage.turn turns ticket move.errand).1

/-- Where a move leads. -/
def leads (stage : Stage) (turns : Turns) (ticket : Nat) (move : Move) : Turns :=
  (stage.turn turns ticket move.errand).2

/-- A move leaves the rows of all other pieces as they are. -/
def Spares (stage : Stage) (turns : Turns) (ticket : Nat) (move : Move) : Prop :=
  ∀ row : Row, row.id ≠ .text move.piece →
    (row ∈ (stage.leads turns ticket move).store.table.rows ↔ row ∈ turns.store.table.rows)

/-- Two stages that differ only in their clocks. -/
structure Alike (stage stage' : Stage) : Prop where
  manager : stage'.manager = stage.manager
  outside : stage'.outside = stage.outside

/-- Two moves do the same in either order, up to times, and neither touches the rows of the other. -/
structure Commutes (stage stage' : Stage) (store : Store) (first second : Move) : Prop where
  first_told : stage'.tells (stage'.leads { store } 1 second) 0 first = stage.tells { store } 0 first
  second_told : stage'.tells { store } 1 second = stage.tells (stage.leads { store } 0 first) 1 second
  pieces : ∃ book mirror : Book, (stage.leads (stage.leads { store } 0 first) 1 second).store.table = book.table ∧
    (stage'.leads (stage'.leads { store } 1 second) 0 first).store.table = mirror.table ∧
    mirror.map (·.timeless) = book.map (·.timeless)
  blobs : ∀ key, (stage'.leads (stage'.leads { store } 1 second) 0 first).store.shelf.blob? key =
    (stage.leads (stage.leads { store } 0 first) 1 second).store.shelf.blob? key
  sent : List.Perm (stage'.leads (stage'.leads { store } 1 second) 0 first).sent
    (stage.leads (stage.leads { store } 0 first) 1 second).sent
  spared : stage.Spares { store } 0 first ∧ stage.Spares (stage.leads { store } 0 first) 1 second ∧
    stage'.Spares { store } 1 second ∧ stage'.Spares (stage'.leads { store } 1 second) 0 first

variable {stage stage' : Stage} {ticket later : Nat} {turns : Turns} {a a₁ : Archive} {first second : Move}

/-- A move leads from an archive to another with its effect, and leaves other pieces alone. -/
structure Passes (stage : Stage) (turns : Turns) (ticket : Nat) (move : Move) (effect : Effect)
    (a a' : Archive) : Prop where
  shows : (stage.leads turns ticket move).Shows a'
  ends : effect.Ends a (stage.tells turns ticket move) a'
  leaves : move.Leaves a a'
  spares : stage.Spares turns ticket move

theorem exists_passes (ha : a.Sound) (hturns : turns.Shows a) (ticket : Nat) (move : Move) :
    ∃ a', stage.Passes turns ticket move (move.effect stage ticket a.book) a a' := by
  obtain ⟨a', hshows, hends⟩ := move.plays ha turns hturns
  have hleaves := Move.leaves_of_changes ha hends.changes
  refine ⟨a', hshows, hends, hleaves, fun row hrow ↦ ?_⟩
  have hrows : turns.store.table.rows = a.book.map .ofPiece := congrArg (·.table.rows) hturns.store
  have hrows' : (stage.leads turns ticket move).store.table.rows = a'.book.map .ofPiece :=
    congrArg (·.table.rows) hshows.store
  have hmem {b b' : Archive} (hb : b.Sound)
      (hothers : ∀ id, id ≠ move.piece → b.book.piece? id = b'.book.piece? id)
      (h : row ∈ b.book.map .ofPiece) : row ∈ b'.book.map .ofPiece := by
    obtain ⟨piece, hpiece, rfl⟩ := List.mem_map.mp h
    have hne : piece.id ≠ move.piece := fun heq ↦ hrow (congrArg Cell.text heq)
    exact List.mem_map_of_mem (Book.mem_of_piece? ((hothers _ hne).symm.trans (hb.book.piece?_eq hpiece)))
  rw [hrows, hrows']
  exact ⟨hmem hleaves.sound hleaves.others, hmem ha fun id hne ↦ (hleaves.others id hne).symm⟩

/-- The second of two moves has the effect that it has without the first. -/
theorem Passes.exists_next (h : stage.Passes turns ticket first (first.effect stage ticket a.book) a a₁)
    (hapart : first.Apart second) (hfresh : a.book.IsFresh) (later : Nat) :
    ∃ a₂, stage.Passes (stage.leads turns ticket first) later second (second.effect stage later a.book)
      a₁ a₂ := by
  have hnext := stage.exists_passes h.leaves.sound h.shows later second
  rwa [hapart.effect_eq hfresh h.leaves] at hnext

/-- Effects do not depend on the clock. -/
theorem Alike.effect_eq (h : stage.Alike stage') (move : Move) (ticket : Nat) (book : Book) :
    move.effect stage' ticket book = move.effect stage ticket book := by
  obtain ⟨manager, outside, clock, hclock⟩ := stage
  obtain ⟨manager', outside', clock', hclock'⟩ := stage'
  obtain ⟨rfl, rfl⟩ := h
  rfl

theorem commutes_of_archive (halike : stage.Alike stage') (hapart : first.Apart second) (ha : a.Sound)
    (hfresh : a.book.IsFresh) {store : Store} (hstart : Turns.Shows { store } a) :
    stage.Commutes stage' store first second := by
  obtain ⟨a₁, hfirst⟩ := stage.exists_passes ha hstart 0 first
  obtain ⟨a₂, hsecond⟩ := hfirst.exists_next hapart hfresh 1
  obtain ⟨b₁, hsecond'⟩ := stage'.exists_passes ha hstart 1 second
  obtain ⟨b₂, hfirst'⟩ := hsecond'.exists_next hapart.symm hfresh 0
  rw [halike.effect_eq] at hsecond' hfirst'
  refine ⟨hfirst'.ends.result.trans hfirst.ends.result.symm,
    hsecond'.ends.result.trans hsecond.ends.result.symm, ⟨a₂.book, b₂.book, ?_, ?_, ?_⟩, fun key ↦ ?_, ?_,
    hfirst.spares, hsecond.spares, hsecond'.spares, hfirst'.spares⟩
  · exact congrArg (·.table) hsecond.shows.store
  · exact congrArg (·.table) hfirst'.shows.store
  · calc b₂.book.map (·.timeless)
      _ = (first.effect stage 0 a.book).write ((second.effect stage 1 a.book).write (a.book.map (·.timeless))) := by
        rw [hfirst'.ends.changes.book.timeless, hsecond'.ends.changes.book.timeless]
      _ = (second.effect stage 1 a.book).write ((first.effect stage 0 a.book).write (a.book.map (·.timeless))) :=
        hapart.write_comm _
      _ = a₂.book.map (·.timeless) := by
        rw [hsecond.ends.changes.book.timeless, hfirst.ends.changes.book.timeless]
  · have hshelf := congrArg Store.shelf hsecond.shows.store
    have hshelf' := congrArg Store.shelf hfirst'.shows.store
    rw [hshelf, hshelf']
    calc b₂.shelf.blob? key
      _ = ((a.shelf.blob? key).or ((second.effect stage 1 a.book).blob? key)).or
          ((first.effect stage 0 a.book).blob? key) := by
        rw [hfirst'.ends.changes.blobs, hsecond'.ends.changes.blobs]
      _ = ((a.shelf.blob? key).or ((first.effect stage 0 a.book).blob? key)).or
          ((second.effect stage 1 a.book).blob? key) := hapart.or_comm _
      _ = a₂.shelf.blob? key := by
        rw [hsecond.ends.changes.blobs, hfirst.ends.changes.blobs]
  · rw [hsecond.shows.sent, hfirst'.shows.sent, hsecond.ends.changes.sent, hfirst'.ends.changes.sent,
      hfirst.ends.changes.sent, hsecond'.ends.changes.sent, List.append_assoc, List.append_assoc]
    exact List.perm_append_comm.append_left a.sent

/-! ## Two uploads of one content -/

/-- Of two uploads of one content to different pieces, the later is refused if the earlier went well. -/
theorem later_upload_refused {id id' : String} {body body' : Bytes} (ha : a.Sound) (hturns : turns.Shows a)
    (hsame : (Move.upload id' body').contentId? = (Move.upload id body).contentId?)
    {answer answer' : Piece × Option Finding}
    (hearlier : stage.tells turns ticket (.upload id body) = .ok answer) :
    stage.tells (stage.leads turns ticket (.upload id body)) later (.upload id' body') ≠ .ok answer' := by
  intro hlater
  obtain ⟨a₁, hfirst⟩ := stage.exists_passes ha hturns ticket (.upload id body)
  obtain ⟨a₂, hsecond⟩ := stage.exists_passes hfirst.leaves.sound hfirst.shows later (.upload id' body')
  obtain ⟨-, piece, version, hfound, hversion, hcontent, hsome⟩ :=
    Move.upload_cases (hfirst.ends.result.symm.trans hearlier)
  obtain ⟨hfree, -⟩ := Move.upload_cases (hsecond.ends.result.symm.trans hlater)
  obtain ⟨contentId, hbrought⟩ := Option.ne_none_iff_exists'.mp hsome
  rw [hsame, ← hcontent, hbrought, Book.keeper?_some, Option.map_eq_none_iff] at hfree
  -- the earlier upload has left a piece that holds the content
  rcases hfirst.ends.changes.book.cases with ⟨hnone, -⟩ | ⟨written, hwritten, -, hput⟩
  · rw [hversion] at hnone
    cases hnone
  · obtain rfl := Option.some.inj (hversion.symm.trans hwritten)
    have hid : written.id = id := Move.id_of_version hversion
    have hthere : a₁.book.piece? written.id = some written := hput ▸ Book.piece?_put (hid ▸ hfound)
    exact Book.holder?_eq_none.mp hfree written (Book.mem_of_piece? hthere) hbrought

end Company.Stage

/-! ## In every run -/

namespace Run

variable {s : State}

/-- The pieces of a table that does not fail. -/
theorem Reachable.exists_archive (hs : Reachable s) (hsteady : s.store.table.IsSteady) :
    ∃ a : Archive, a.Sound ∧ a.book.IsFresh ∧ Turns.Shows { store := s.store } a := by
  obtain ⟨book, hrows, hsound⟩ := hs.table_lawful.exists_lists fun piece hpiece ↦ by
    obtain ⟨read, hread⟩ := hsteady.readable _ hpiece
    obtain rfl := Row.eq_of_toPiece_ofPiece hread
    exact Piece.isReadable_of_toPiece hread
  refine ⟨{ book, shelf := s.store.shelf }, ⟨hsound, hs.chronicle.not_blocked⟩,
    fun piece hpiece hstatus ↦ ?_, ?_, rfl⟩
  · have hrow : Row.ofPiece piece ∈ s.store.table.rows := hrows ▸ List.mem_map_of_mem hpiece
    obtain ⟨i, hi⟩ := List.mem_iff_getElem?.mp hrow
    exact hs.contentId_of_prepared hi hstatus
  · have htable : s.store.table = book.table := by
      rw [Book.table, ← hrows, ← hsteady.disturbance, ← hsteady.outage]
    exact congrArg (Store.mk · s.store.shelf) htable

/-- Operations on different pieces commute, unless both are uploads of one content. -/
theorem moves_commute {stage stage' : Stage} {first second : Move} (hs : Reachable s)
    (hsteady : s.store.table.IsSteady) (halike : stage.Alike stage') (hapart : first.Apart second) :
    stage.Commutes stage' s.store first second := by
  obtain ⟨a, ha, hfresh, hstart⟩ := hs.exists_archive hsteady
  exact Stage.commutes_of_archive halike hapart ha hfresh hstart

/-- The first byte of a piece is uploaded before another piece is refused, or after that. -/
theorem upload_commutes_with_refusal :
    ∃ (s : State) (stage stage' : Stage), Reachable s ∧ s.store.table.IsSteady ∧ stage.Alike stage' ∧
      stage.clock 0 ≠ stage'.clock 0 ∧ Move.Apart (.upload "a" [1]) (.submit "b" 7) ∧
      (∃ piece, stage.tells { store := s.store } 0 (.upload "a" [1]) = .ok (piece, none)) ∧
      stage.Commutes stage' s.store (.upload "a" [1]) (.submit "b" 7) := by
  obtain ⟨s, hs, hstore⟩ := exists_blanks ["a", "b"] (by decide)
  have hsteady : s.store.table.IsSteady := by
    rw [hstore]
    refine ⟨⟨rfl, rfl⟩, fun row hrow ↦ ?_⟩
    obtain ⟨id, -, rfl⟩ := List.mem_map.mp hrow
    exact ⟨blank id, toPiece_blank id⟩
  let outside : Nat → Outside := fun _ request ↦ request.nonempty_answer.some
  obtain ⟨later, hlater, hne⟩ : ∃ later : Instant, later.IsReadable ∧ Instant.epoch ≠ later :=
    ⟨{ Instant.epoch with nano := 1, valid := by decide }, Instant.IsDated.isReadable ⟨by decide, by decide⟩,
      by decide⟩
  let stage : Stage := ⟨keeper, outside, fun _ ↦ .epoch, fun _ ↦ Instant.isReadable_epoch⟩
  let stage' : Stage := ⟨keeper, outside, fun _ ↦ later, fun _ ↦ hlater⟩
  have halike : stage.Alike stage' := ⟨rfl, rfl⟩
  have hapart : Move.Apart (.upload "a" [1]) (.submit "b" 7) := ⟨by decide, fun _ _ h ↦ by cases h⟩
  have hcommutes := moves_commute hs.reachable hsteady halike hapart
  refine ⟨s, stage, stage', hs.reachable, hsteady, halike, hne, hapart, ?_, hcommutes⟩
  obtain ⟨a, ha, -, hstart⟩ := hs.reachable.exists_archive hsteady
  have hrows : a.book.map Row.ofPiece = [blank "a", blank "b"].map Row.ofPiece :=
    congrArg (·.table.rows) (hstart.store.symm.trans hstore)
  have hbook : a.book = [blank "a", blank "b"] := List.map_injective_iff.mpr Row.ofPiece_injective hrows
  have hfound : a.book.piece? "a" = some (blank "a") := by
    rw [hbook]
    rfl
  have hcommitted : CommittedPiece.ofContent [1] = .ok _ := ofContent_eq_ofTree (by decide) (by decide)
  have heffect := Move.effectOn_upload stage 0 a.book (checkContent_blank "a" (by decide)) hcommitted
  obtain ⟨a', hpasses⟩ := stage.exists_passes ha hstart 0 (.upload "a" [1])
  rw [hpasses.ends.result, Move.effect_of_some hfound, heffect, hbook]
  exact ⟨_, rfl⟩

end Run

end PieceKeeper
