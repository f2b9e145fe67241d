import PieceKeeper.Proofs.Commitment.Padding
import PieceKeeper.Proofs.Run.Drafts
import PieceKeeper.Proofs.Run.Lifecycle

/-!
# What is read back

A row that has left its preparation keeps its content id for good, and there is a blob under that
id.  So what is read back of an uploaded piece is the whole of some padded content with that id.
It is the content of the upload if no other content has the id.
-/

namespace PieceKeeper

theorem CommittedPiece.padded_eq {body : Bytes} {committed : CommittedPiece}
    (h : ofContent body = .ok committed) : committed.padded = pad body := by
  obtain ⟨-, -, rfl⟩ := ofContent_eq_ok.mp h
  rfl

/-- A write to a piece that has left its preparation is of a piece that was read after that, and
with the same content. -/
theorem Job.Writes.found {job : Job} {history : History} {piece : Piece} {expected : Status}
    (h : job.Writes history piece expected) (hexpected : expected ≠ .prepared) :
    ∃ id found, history.Found id found ∧ found.status = expected ∧ found.id = piece.id ∧
      found.contentId = piece.contentId := by
  cases h with
  | upload _ _ _ _ _ => exact absurd rfl hexpected
  | submission howns _ | refusal howns _ =>
    exact ⟨_, _, howns.found, (Operation.checkFree_eq_ok.mp howns.free).1, rfl, rfl⟩
  | settlement hfound hstatus _ _ hsettle hfinding _ =>
    obtain ⟨-, hid, hcontent⟩ := Piece.settle_eq_ok hsettle hfinding
    exact ⟨_, _, hfound, hstatus, hid.symm, hcontent.symm⟩

namespace Chronicle

variable {c c' : Chronicle} {id : String} {cell : Cell}

/-- The row of a piece has left its preparation with a content id. -/
def Fixes (c : Chronicle) (id : String) (cell : Cell) : Prop :=
  ∃ row ∈ c.rows, row.id = .text id ∧ ¬ row.At .prepared ∧ row.contentId = cell

/-- Every piece that was read after its preparation still has its content. -/
def Recalls (c : Chronicle) : Prop :=
  ∀ ticket id piece, (c.log.of ticket).Found id piece → piece.status ≠ .prepared →
    c.Fixes id (.ofText? piece.contentId)

theorem not_at_prepared {row : Row} {a b : Status} (hrow : row.At b) (hmove : a.canMove b = true) :
    ¬ row.At .prepared := by
  intro hprepared
  obtain rfl := hrow.unique hprepared
  have hlt := Status.rank_lt_of_canMove hmove
  cases a <;> cases hlt

/-- A content id does not change behind the preparation. -/
theorem Fixes.step (hc : c.Reachable) (hrecalls : c.Recalls) (h : c.Fixes id cell)
    (hstep : c.RowStep c') : c'.Fixes id cell := by
  obtain ⟨row, hrow, hid, hprepared, hcell⟩ := h
  cases hstep with
  | quiet _ hrows _ _ => exact ⟨row, hrows ▸ hrow, hid, hprepared, hcell⟩
  | insert _ hrows _ _ =>
    exact ⟨row, hrows ▸ List.mem_append_left _ hrow, hid, hprepared, hcell⟩
  | claim _ _ _ hrows _ =>
    refine ⟨_, hrows ▸ List.mem_map_of_mem hrow, ?_, ?_, ?_⟩ <;> split <;> assumption
  | @update ticket job history piece expected hasked hwrites _ hrows _ =>
    refine ⟨_, hrows ▸ List.mem_map_of_mem hrow, ?_⟩
    split
    · rename_i his
      have hexpected : expected ≠ .prepared := fun heq ↦ hprepared (heq ▸ his.2)
      obtain ⟨name, found, hfound, hstatus, hsame, hcontent⟩ := hwrites.found hexpected
      have hlogged : (c.log.of ticket).Found name found :=
        hfound.mono (hasked ▸ List.subset_cons_self _ _)
      obtain ⟨read, hread, hreadId, -, hreadCell⟩ :=
        hrecalls ticket name found hlogged (hstatus ▸ hexpected)
      obtain rfl := hc.hasIds.row_unique hread hrow
        (by rw [hreadId, his.1, ← hc.id_of_found hlogged, hsame])
      refine ⟨hid, not_at_prepared rfl (Operation.canMove_of_writes hwrites), ?_⟩
      rw [← hcell, hreadCell, hcontent]
      rfl
    · exact ⟨hid, hprepared, hcell⟩

theorem Reachable.recalls (hc : c.Reachable) : c.Recalls := by
  induction hc with
  | refl => exact fun _ _ _ h ↦ absurd h List.not_mem_nil
  | @tail c c' hreaches hstep ih =>
    intro ticket id piece hfound hstatus
    refine Fixes.step hreaches ih ?_ hstep.rows
    rcases hstep.enters with hlog | ⟨⟨_, job, _⟩, henters⟩
    · exact ih ticket id piece (hlog ▸ hfound) hstatus
    · rcases Log.mem_of_cons (henters.log ▸ hfound) with ⟨rfl, rfl⟩ | hold
      · obtain ⟨row, hrow, hid, hshows⟩ := henters.admits.shows
        refine ⟨row, hrow, hid, fun hprepared ↦ hstatus ?_, hshows.contentId⟩
        exact Row.At.unique hshows.status hprepared
      · exact ih ticket id piece hold hstatus

theorem Reaches.fixes (hc : c.Reachable) (h : c.Reaches c') (hfixes : c.Fixes id cell) :
    c'.Fixes id cell := by
  induction h with
  | refl => exact hfixes
  | tail hreaches hstep ih =>
    have hc' : Reachable _ := Relation.ReflTransGen.trans hc hreaches
    exact ih.step hc' hc'.recalls hstep.rows

/-- A successful update writes the row of its piece. -/
theorem Enters.update {ticket : Nat} {job : Job} {piece : Piece} {expected : Status}
    (h : c.Enters ⟨ticket, job, .answered (.table (.update piece expected)) (.ok true)⟩ c') :
    (∃ history, history ⊆ c.log.of ticket ∧ job.Writes history piece expected) ∧
      c'.Fixes piece.id (.ofText? piece.contentId) := by
  cases h.step.rows with
  | quiet new _ hlog hquiet =>
    obtain rfl : new = [_] := List.append_cancel_right (hlog.symm.trans h.log)
    exact absurd rfl (hquiet _ (List.mem_singleton_self _))
  | insert _ _ hlog _ =>
    obtain ⟨heq, -⟩ := List.cons.inj (hlog.symm.trans h.log)
    cases heq
  | claim _ _ _ _ hlog =>
    obtain ⟨heq, -⟩ := List.cons.inj (hlog.symm.trans h.log)
    cases heq
  | update hasked hwrites hfound hrows hlog =>
    obtain ⟨heq, -⟩ := List.cons.inj (hlog.symm.trans h.log)
    cases heq
    refine ⟨⟨_, hasked ▸ List.subset_cons_self _ _, hwrites⟩, ?_⟩
    obtain ⟨row, hrow, his⟩ := hfound
    refine ⟨_, hrows ▸ List.mem_map_of_mem hrow, ?_⟩
    rw [if_pos his]
    exact ⟨his.1, not_at_prepared rfl (Operation.canMove_of_writes hwrites), rfl⟩

/-- What an upload recorded is there for good: its content id in the row, and a blob under it. -/
theorem Reachable.stored (hc : c.Reachable) {ticket : Nat} {task : Task} {piece : Piece}
    (h : task.Stored (c.log.of ticket) id piece) :
    ∃ body, ∃ committed : CommittedPiece, task.Offers (c.log.of ticket) id body ∧ committed.Of body ∧
      (∃ found now, piece = Piece.uploadedAs found (UInt64.ofNat body.length) committed now) ∧
      Shelf.checkKey committed.contentId = .ok () ∧ c.Fixes id (.text committed.contentId) ∧
      (c.store.shelf.blob? committed.contentId).isSome := by
  obtain ⟨⟨body, committed, hoffers, hof, hkey, found, hfound, now, hpiece⟩, hwritten⟩ := h
  have hcontent : piece.contentId = some committed.contentId := by rw [hpiece]; rfl
  have hid : piece.id = id := by rw [hpiece, ← hc.id_of_found hfound]; rfl
  obtain ⟨job, hentry⟩ := Log.mem_of.mp hwritten
  obtain ⟨d, d', hd, henters, hafter⟩ := hc.entered hentry
  obtain ⟨⟨history, hsub, hwrites⟩, hfixes⟩ := henters.update
  have hd' : Reachable d' := Relation.ReflTransGen.tail hd henters.step
  rw [hid, hcontent] at hfixes
  refine ⟨body, committed, hoffers, hof, ⟨found, now, hpiece⟩, hkey, hafter.fixes hd' hfixes, ?_⟩
  cases hwrites with
  | upload _ _ _ _ hshelved =>
    have hsame := Option.some.inj hcontent
    change CommittedPiece.contentId _ = committed.contentId at hsame
    rw [hsame] at hshelved
    exact Reaches.held (Relation.ReflTransGen.head henters.step hafter)
      (hd.held_of_shelved (hshelved.mono hsub))

/-- Whoever comes later reads the content id of the row, and then what is under it. -/
theorem Reaches.unshelved (hc : c.Reachable) (h : c.Reaches c') {contentId : String}
    (hfixes : c.Fixes id (.text contentId)) (hkey : Shelf.checkKey contentId = .ok ())
    (hblob : (c.store.shelf.blob? contentId).isSome) {reader : Nat} (hfresh : c.log.of reader = [])
    {outcome : Outcome Bytes} (hended : .ended (.content id) outcome ∈ c'.log.of reader) :
    (∃ fault, Event.answered (.table (.find id)) (.error fault) ∈ c'.log.of reader) ∨
      (∃ failure, Event.answered (.shelf (.read contentId)) (.error failure) ∈ c'.log.of reader) ∨
      ∃ body, ∃ committed : CommittedPiece, committed.Of body ∧ committed.contentId = contentId ∧
        outcome = .ok committed.padded := by
  have hc' : c'.Reachable := Relation.ReflTransGen.trans hc h
  -- What happened to the reader happened when the row had its content id and the blob was there.
  have hlater {event : Event} (hevent : event ∈ c'.log.of reader) :
      ∃ job, ∃ d d' : Chronicle, d.Reachable ∧ d.Enters ⟨reader, job, event⟩ d' ∧
        d.Fixes id (.text contentId) ∧ (d.store.shelf.blob? contentId).isSome := by
    obtain ⟨job, hentry⟩ := Log.mem_of.mp hevent
    rcases h.entered hentry with hold | ⟨d, d', hbefore, henters, -⟩
    · have hmem : event ∈ c.log.of reader := Log.mem_of.mpr ⟨job, hold⟩
      rw [hfresh] at hmem
      cases hmem
    · exact ⟨job, d, d', Relation.ReflTransGen.trans hc hbefore, henters, hbefore.fixes hc hfixes,
        hbefore.held hblob⟩
  obtain ⟨job, hentry⟩ := Log.mem_of.mp hended
  obtain ⟨history, hsub, hconcludes⟩ := hc'.concludes hentry
  rcases hconcludes with ⟨fault, hread, -⟩ | ⟨hread, -⟩ | ⟨piece, hfound, hrest⟩
  · exact Or.inl ⟨fault, hsub hread⟩
  · obtain ⟨_, d, _, -, henters, ⟨row, hrow, hid, -⟩, -⟩ := hlater (hsub hread)
    exact absurd hid (henters.admits.absent row hrow)
  · obtain ⟨_, d, _, hd, henters, ⟨row, hrow, hid, -, hcell⟩, -⟩ := hlater (hsub hfound)
    obtain ⟨read, hmem, hreadId, hshows⟩ := henters.admits.shows
    obtain rfl := hd.hasIds.row_unique hmem hrow (hreadId.trans hid.symm)
    have hcontent : piece.contentId = some contentId :=
      Cell.eq_some_of_ofText? (hshows.contentId.symm.trans hcell)
    rcases hrest contentId hcontent hkey with hmissing | ⟨failure, hfailed⟩ | ⟨content, hread, rfl⟩
    · obtain ⟨_, d, _, hd, henters, -, hthere⟩ := hlater (hsub hmissing)
      obtain ⟨_, _, -, -, hreacts⟩ := henters.admits
      have hanswer := hreacts.holds
      rw [hthere, hd.not_blocked] at hanswer
      cases hanswer
    · exact Or.inr (Or.inl ⟨failure, hsub hfailed⟩)
    · obtain ⟨_, d, _, hd, henters, -, -⟩ := hlater (hsub hread)
      obtain ⟨_, _, -, -, hreacts⟩ := henters.admits
      obtain ⟨body, committed, hof, hkey, rfl⟩ := hd.exists_of_blob hreacts.read
      exact Or.inr (Or.inr ⟨body, committed, hof, hkey, rfl⟩)

end Chronicle

end PieceKeeper
