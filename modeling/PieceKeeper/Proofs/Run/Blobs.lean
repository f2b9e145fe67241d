import PieceKeeper.Proofs.Run.Blank
import PieceKeeper.Proofs.Run.Contents
import PieceKeeper.Proofs.Run.Versions

/-!
# Valid blobs

Whoever commits to what is under a key gets the key again: what is published is padded, and padded
content stays as it is when it is padded once more.  An upload publishes its content, or sees that
something is published under its content id, before it writes the id into a row.  So there is a blob
under every content id that a row has ever shown.
-/

namespace PieceKeeper

/-- Padded content is committed to as the content is. -/
theorem CommittedPiece.Of.ofContent_padded {committed : CommittedPiece} {body : Bytes}
    (h : committed.Of body) : ofContent committed.padded = .ok committed := by
  obtain ⟨hne, hle, rfl⟩ := ofContent_eq_ok.mp h.2
  have hpadded : ofContent (pad body) = .ok ⟨pad (pad body), .ofTree (pad (pad body))⟩ :=
    ofContent_eq_ofTree (pad_eq_nil_iff.not.mpr hne) (length_pad_le hle)
  rwa [pad_pad] at hpadded

/-- An upload names a content id under which it knows of a blob. -/
theorem Job.Writes.shelved {job : Job} {history : History} {piece : Piece}
    (h : job.Writes history piece .prepared) :
    ∃ key, piece.contentId = some key ∧ history.Shelved key := by
  cases h with
  | upload _ _ _ _ hshelved => exact ⟨_, rfl, hshelved⟩

namespace Chronicle

variable {c c' : Chronicle}

/-- No step changes both the shelf and the rows. -/
theorem Step.shelf_eq_or_rows_eq (h : c.Step c') :
    c'.store.shelf = c.store.shelf ∨ c'.rows = c.rows := by
  cases h.shelf with
  | rest hshelf _ => exact Or.inl hshelf
  | note hshelf _ _ => exact Or.inl hshelf
  | command _ _ hreacts _ => exact Or.inr (congrArg Table.rows hreacts.keeps.1)

/-- A piece that got a content id got it from an upload that knew of a blob. -/
theorem Advances.held (hc : c.Reachable) {piece next : Piece} (h : c.Advances piece next)
    (hpiece : ∀ key, piece.contentId = some key → (c.store.shelf.blob? key).isSome) {key : String}
    (hkey : next.contentId = some key) : (c.store.shelf.blob? key).isSome := by
  cases h with
  | upload hupdated _ _ _ =>
    obtain ⟨history, hsub, hwrites⟩ := hc.allows (Or.inr ⟨_, hupdated⟩)
    obtain ⟨shelved, hcontent, hshelved⟩ := hwrites.shelved
    obtain rfl : shelved = key := Option.some.inj (hcontent.symm.trans hkey)
    exact hc.held_of_shelved (hshelved.mono hsub)
  | claim _ _ | submission _ _ _ _ | refusal _ _ _ _ => exact hpiece key hkey
  | settlement _ _ _ _ _ hsettle hfinding =>
    obtain ⟨-, -, hcontent⟩ := Piece.settle_eq_ok hsettle hfinding
    exact hpiece key (hcontent.symm.trans hkey)

/-- There is a blob under the content id of every row. -/
theorem Reachable.held (hc : c.Reachable) {row : Row} (hrow : row ∈ c.rows) {key : String}
    (hkey : row.contentId = .text key) : (c.store.shelf.blob? key).isSome := by
  have hpieces := hc.forall_piece
    (fun c piece ↦ ∀ key, piece.contentId = some key → (c.store.shelf.blob? key).isSome)
    (fun _ _ _ _ _ _ _ hkey ↦ nomatch hkey)
    (fun _ _ _ hstep hpiece key hkey ↦ Reaches.held (.single hstep) (hpiece key hkey))
    (fun _ _ _ hc hpiece hadvances _ hkey ↦ hadvances.held hc hpiece hkey)
  obtain ⟨piece, rfl, hpiece⟩ := hpieces row hrow
  exact hpiece key (Cell.eq_some_of_ofText? hkey)

/-- The blob was there before a row showed its key. -/
theorem Step.held (hc : c.Reachable) (h : c.Step c') {row : Row} (hrow : row ∈ c'.rows)
    {key : String} (hkey : row.contentId = .text key) : (c.store.shelf.blob? key).isSome := by
  rcases h.shelf_eq_or_rows_eq with hshelf | hrows
  · have hc' : c'.Reachable := Relation.ReflTransGen.tail hc h
    exact hshelf ▸ hc'.held hrow hkey
  · exact hc.held (hrows ▸ hrow) hkey

/-- What comes under a key is a draft whose writing was completed, as it was written. -/
theorem Step.published (hc : c.Reachable) (h : c.Step c') {key : String} {content : Bytes}
    (hblob : c'.store.shelf.blob? key = some content)
    (hnew : c.store.shelf.blob? key ≠ some content) :
    ∃ ticket job draft answer,
      c'.log = ⟨ticket, job, .answered (.shelf (.publish draft key)) answer⟩ :: c.log ∧
      (c.log.of ticket).Wrote draft key content ∧ c.store.shelf.draft? draft = some content := by
  cases h.shelf with
  | rest hshelf _ => exact absurd (hshelf ▸ hblob) hnew
  | note hshelf _ _ => exact absurd (hshelf ▸ hblob) hnew
  | command hasked hallows hreacts hlog =>
    rcases hreacts.keeps.2.blobs key content hblob with hold | ⟨draft, rfl, hdraft⟩
    · exact absurd hold hnew
    · obtain ⟨-, written, hwrote, hhandled⟩ := hallows
      have hlogged := hasked ▸ List.mem_cons_of_mem _ hwrote
      have hsame := hc.hasDrafts.written _ draft key written hlogged (hasked ▸ hhandled)
      obtain rfl := Option.some.inj (hsame.symm.trans hdraft)
      exact ⟨_, _, draft, _, hlog, hlogged, hdraft⟩

end Chronicle

namespace Run

variable {s : State}

/-- Every blob is valid for its key, and every content id has one.  What is under a key has the
length of a power of two and is committed to by the key.  Whenever a row shows a content id after a
step, there was a blob under it before the step.  What comes under a key was written completely,
whatever else is in the drafts. -/
theorem blobs_valid (hs : Reachable s) :
    (∀ key content, s.store.shelf.blob? key = some content →
      (∃ k, content.length = 2 ^ k) ∧
        ∃ committed, CommittedPiece.ofContent content = .ok committed ∧
          committed.contentId = key ∧ committed.padded = content) ∧
    (∀ row ∈ s.store.table.rows, ∀ key, row.contentId = .text key →
      (s.store.shelf.blob? key).isSome) ∧
    ∀ s', Step s s' →
      (∀ row ∈ s'.store.table.rows, ∀ key, row.contentId = .text key →
        (s.store.shelf.blob? key).isSome) ∧
      ∀ key content, s'.store.shelf.blob? key = some content →
        s.store.shelf.blob? key ≠ some content →
        ∃ ticket job draft answer,
          s'.log = ⟨ticket, job, .answered (.shelf (.publish draft key)) answer⟩ :: s.log ∧
          (s.log.of ticket).Wrote draft key content ∧
          s.store.shelf.draft? draft = some content := by
  have hc := hs.chronicle
  refine ⟨?_, fun row hrow key hkey ↦ hc.held hrow hkey, ?_⟩
  · intro key content hblob
    obtain ⟨body, committed, hof, hkey, rfl⟩ := hc.exists_of_blob hblob
    obtain ⟨hne, -, -⟩ := ofContent_eq_ok.mp hof.2
    refine ⟨?_, committed, hof.ofContent_padded, hkey, rfl⟩
    rw [CommittedPiece.padded_eq hof.2]
    exact exists_length_pad hne
  · intro s' hstep
    rcases hstep.chronicle hs.lawful with hstep | hsame
    · exact ⟨fun row hrow key hkey ↦ hstep.held hc hrow hkey,
        fun key content hblob hnew ↦ hstep.published hc hblob hnew⟩
    · have hstore : s'.store = s.store := congrArg Chronicle.store hsame
      rw [hstore]
      exact ⟨fun row hrow key hkey ↦ hc.held hrow hkey,
        fun key content hblob hnew ↦ absurd hblob hnew⟩

/-- There is a blob under the content id of a piece with the byte 1, and it is committed to by this
id. -/
theorem filled_piece_has_blob :
    ∃ s, Reachable s ∧ ∃ row ∈ s.store.table.rows, ∃ key content, row.contentId = .text key ∧
      s.store.shelf.blob? key = some content ∧
      ∃ committed, CommittedPiece.ofContent content = .ok committed ∧ committed.contentId = key := by
  obtain ⟨s, hs, htable⟩ := exists_filled "a" .single
  obtain ⟨hvalid, hheld, -⟩ := blobs_valid hs.reachable
  have hrow : Row.ofPiece (filled "a" [1] ⟨pad [1], .ofTree (pad [1])⟩) ∈ s.store.table.rows := by
    rw [htable]
    exact List.mem_singleton_self _
  obtain ⟨content, hblob⟩ := Option.isSome_iff_exists.mp (hheld _ hrow _ rfl)
  obtain ⟨-, committed, hcommitted, hkey, -⟩ := hvalid _ content hblob
  exact ⟨s, hs.reachable, _, hrow, _, content, rfl, hblob, committed, hcommitted, hkey⟩

end Run

end PieceKeeper
