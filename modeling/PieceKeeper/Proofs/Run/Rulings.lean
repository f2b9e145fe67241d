import PieceKeeper.Proofs.Ledger.Endpoint
import PieceKeeper.Proofs.Operation.Lookups
import PieceKeeper.Proofs.Run.Columns
import PieceKeeper.Proofs.Run.Course

/-!
# The ledger decides how pieces end

A piece comes to its end only by a call that has asked the ledger for the piece's own transaction
and was answered with a final record, and then the row says what the record says.  As long as the
latest answer to a call is anything else, the call changes no row.
-/

namespace PieceKeeper

/-- A piece has ended as a record says, and says of its transaction what the record says. -/
structure Piece.Reports (piece : Piece) (record : TransactionRecord) : Prop where
  verdict : record.verdict? = some piece.status
  txSuccess : piece.txSuccess = record.success
  confirmedBlock : piece.confirmedBlock = record.confirmedBlock
  confirmedTxHash : piece.confirmedTxHash = record.confirmedTxHash
  receipt : piece.receipt = record.receipt

theorem Piece.reports_settledAs {piece : Piece} {record : TransactionRecord} {status : Status}
    {message : Option String} {now : Instant} (h : record.verdict? = some status) :
    (piece.settledAs record status message now).Reports record :=
  ⟨h, rfl, rfl, rfl, rfl⟩

/-- Records lead to nothing but success and failure. -/
theorem TransactionRecord.eq_of_verdict? {record : TransactionRecord} {status : Status}
    (h : record.verdict? = some status) : status = .added ∨ status = .failed := by
  rw [verdict?] at h
  split at h
  · cases h
  · split at h
    · exact Or.inl (Option.some.inj h).symm
    · exact Or.inr (Option.some.inj h).symm
  · exact Or.inr (Option.some.inj h).symm

/-- A record that waits decides nothing. -/
theorem TransactionRecord.verdict?_of_pending {record : TransactionRecord}
    (h : record.status = .pending) : record.verdict? = none := by
  rw [verdict?, h]

/-- Only a watcher writes a piece that has ended, and in place of a pending one. -/
theorem Job.Writes.watches {job : Job} {history : History} {piece : Piece} {expected : Status}
    (h : job.Writes history piece expected) (hfinal : piece.status = .added ∨ piece.status = .failed) :
    job.task.Watches ∧ expected = .pending := by
  cases h with
  | upload _ _ _ _ _ | submission _ _ | refusal _ _ => rcases hfinal with h | h <;> cases h
  | settlement _ _ _ _ _ _ hwatches => exact ⟨hwatches, rfl⟩

namespace Chronicle

variable {c c' : Chronicle} {piece next : Piece}

/-- What stands in the log for the status of a piece: the hash of a pending piece is the ledger's
answer to a submission, and a piece that has ended reports the ledger's answer to the question for
its own transaction. -/
structure Vouches (c : Chronicle) (piece : Piece) : Prop where
  pending : piece.status = .pending → ∃ ticket proofSet root hash, piece.transaction = some hash ∧
    .answered (.submit proofSet root) (.ok hash) ∈ c.log.of ticket
  final : piece.status = .added ∨ piece.status = .failed → ∃ ticket hash record,
    piece.transaction = some hash ∧ .answered (.lookup hash) (.ok (some record)) ∈ c.log.of ticket ∧
      piece.Reports record

theorem Vouches.mono (h : c.Vouches piece) (hsub : ∀ ticket, c.log.of ticket ⊆ c'.log.of ticket) :
    c'.Vouches piece where
  pending hpending := by
    obtain ⟨ticket, proofSet, root, hash, htransaction, hanswer⟩ := h.pending hpending
    exact ⟨ticket, proofSet, root, hash, htransaction, hsub ticket hanswer⟩
  final hfinal := by
    obtain ⟨ticket, hash, record, htransaction, hanswer, hreports⟩ := h.final hfinal
    exact ⟨ticket, hash, record, htransaction, hsub ticket hanswer, hreports⟩

/-- A status for which nothing has to stand in the log. -/
theorem Vouches.of_status {status : Status} (hstatus : piece.status = status)
    (hquiet : status ≠ .pending ∧ status ≠ .added ∧ status ≠ .failed) : c.Vouches piece where
  pending h := absurd (hstatus.symm.trans h) hquiet.1
  final h := by
    rcases h with hadded | hfailed
    · exact absurd (hstatus.symm.trans hadded) hquiet.2.1
    · exact absurd (hstatus.symm.trans hfailed) hquiet.2.2

theorem Advances.vouches (h : c.Advances piece next) : c.Vouches next := by
  cases h with
  | upload _ _ _ _ => exact .of_status (rfl : _ = Status.uploaded) (by decide)
  | claim _ hintends =>
    have hstatus : piece.status = .uploaded := (Operation.checkFree_eq_ok.mp hintends.free).1
    exact .of_status hstatus (by decide)
  | submission _ _ _ hanswer =>
    refine ⟨fun _ ↦ ⟨_, _, _, _, rfl, hanswer⟩, fun h ↦ ?_⟩
    rcases h with h | h
    · cases h
    · cases h
  | refusal _ _ _ _ => exact .of_status (rfl : _ = Status.error) (by decide)
  | settlement _ _ _ htransaction hanswer hsettle hfinding =>
    obtain ⟨status, message, hverdict, rfl⟩ := Piece.settle_verdict hsettle hfinding
    refine ⟨fun hpending ↦ ?_, fun _ ↦
      ⟨_, _, _, htransaction, hanswer, Piece.reports_settledAs hverdict⟩⟩
    obtain rfl : status = .pending := hpending
    exact absurd (TransactionRecord.eq_of_verdict? hverdict) (by decide)

/-- A piece that was found pending is unchanged as long as it is pending. -/
theorem Versioned.eq_of_pending (hc : c.Reachable) (hv : c.Versioned) {ticket : Nat} {id : String}
    {found : Piece} (hfound : (c.log.of ticket).Found id found) (hpending : found.status = .pending)
    (hpiece : .ofPiece piece ∈ c.rows) (hid : piece.id = found.id) (hstatus : piece.status = .pending) :
    piece = found := by
  refine (hv.ages hc hfound hpiece hid).eq (hstatus.trans hpending.symm) ?_
  rw [hpending]
  nofun

/-- Every row has what stands for its status in the log. -/
theorem Reachable.vouches (hc : c.Reachable) :
    ∀ row ∈ c.rows, ∃ piece, row = .ofPiece piece ∧ c.Vouches piece :=
  hc.forall_piece Vouches (fun _ _ _ _ _ _ ↦ .of_status (rfl : _ = Status.prepared) (by decide))
    (fun _ _ _ hstep hpiece ↦ hpiece.mono hstep.of_subset)
    fun _ _ _ _ _ hadvances ↦ hadvances.vouches

/-- A row that comes to an end is written by an update. -/
theorem RowStep.updated_of_final (h : c.RowStep c') {i : Nat} {row row' : Row}
    (hrow : c.rows[i]? = some row) (hrow' : c'.rows[i]? = some row') (hne : row' ≠ row)
    (hfinal : row'.At .added ∨ row'.At .failed) :
    ∃ ticket job history written expected,
      c.log.of ticket = .asked (.table (.update written expected)) :: history ∧
      job.Writes history written expected ∧ row.Is written.id expected ∧
      row' = row.takeOver (.ofPiece written) ∧
      c'.log = ⟨ticket, job, .answered (.table (.update written expected)) (.ok true)⟩ :: c.log := by
  cases h with
  | quiet _ hrows _ _ =>
    rw [hrows, hrow] at hrow'
    exact absurd (Option.some.inj hrow').symm hne
  | insert _ hrows _ _ =>
    rw [hrows, List.getElem?_append_left (List.getElem?_eq_some_iff.mp hrow).1, hrow] at hrow'
    exact absurd (Option.some.inj hrow').symm hne
  | claim _ _ _ hrows _ =>
    rw [hrows, List.getElem?_map, hrow, Option.map_some, Option.some.injEq] at hrow'
    split at hrow'
    · rename_i hfree
      -- A claim leaves the row uploaded.
      have hstatus : row'.At .uploaded := hrow' ▸ hfree.1.2
      rcases hfinal with hadded | hfailed
      · cases hstatus.unique hadded
      · cases hstatus.unique hfailed
    · exact absurd hrow'.symm hne
  | @update ticket job history written expected hasked hwrites _ hrows hlog =>
    rw [hrows, List.getElem?_map, hrow, Option.map_some, Option.some.injEq] at hrow'
    split at hrow'
    · rename_i his
      exact ⟨ticket, job, history, written, expected, hasked, hwrites, his, hrow'.symm, hlog⟩
    · exact absurd hrow'.symm hne

end Chronicle

namespace Run

variable {s s' : State}

/-- Only watchers ask for transactions. -/
theorem Reachable.watches (hs : Reachable s) {ticket : Nat} {job : Job} {hash : String}
    (hasked : ⟨ticket, job, .asked (.lookup hash)⟩ ∈ s.log) : job.task.Watches := by
  obtain ⟨_, -, hwatches⟩ := hs.obeyed Job.heeds hasked
  exact hwatches

/-- A call that has its answer from the ledger watches. -/
theorem Reachable.watches_of_ruling (hs : Reachable s) {entry : Entry} (hentry : entry ∈ s.log)
    {hash : String} {answer : Outcome (Option TransactionRecord)}
    (hruling : (s.log.of entry.ticket).ruling? = some (hash, answer)) : entry.job.task.Watches := by
  have hanswered : .answered (.lookup hash) answer ∈ s.log.of entry.ticket := by
    obtain ⟨event, hmem, hevent⟩ := List.exists_of_findSome?_eq_some hruling
    cases event with
    | answered request answer' =>
      cases request with
      | lookup _ =>
        cases hevent
        exact hmem
      | _ => cases hevent
    | started | asked _ | ended _ _ => cases hevent
  have hasked := hs.chronicle.asked_of_answered (List.suffix_refl _) hanswered
  obtain ⟨job, hmem⟩ := Log.mem_of.mp hasked
  obtain rfl : entry.job = job := hs.chronicle.job_unique hentry hmem rfl
  exact hs.watches hmem

/-- A step settles a row: a watcher found its piece pending, and the ledger's latest answer to the
watcher is the final record of the piece's own transaction. -/
def Settled (s s' : State) (row row' : Row) : Prop :=
  ∃ ticket job piece hash record status message now,
    s'.log = ⟨ticket, job, .answered (.table (.update
      (Piece.settledAs piece record status message now) .pending)) (.ok true)⟩ :: s.log ∧
    job.task.Watches ∧ (s.log.of ticket).ruling? = some (hash, .ok (some record)) ∧
    row = .ofPiece piece ∧ piece.status = .pending ∧ piece.transaction = some hash ∧
    record.verdict? = some status ∧ row' = .ofPiece (piece.settledAs record status message now)

/-- A row that comes to an end is settled. -/
theorem Step.settled (hs : Reachable s) (h : Step s s') {i : Nat} {row row' : Row}
    (hrow : s.row? i = some row) (hrow' : s'.row? i = some row') (hne : row' ≠ row)
    (hfinal : row'.At .added ∨ row'.At .failed) : Settled s s' row row' := by
  have hc := hs.chronicle
  have hv := hc.versioned
  obtain ⟨piece, rfl⟩ := hv.pieces row (List.mem_of_getElem? hrow)
  have hpiece : .ofPiece piece ∈ s.chronicle.rows := List.mem_of_getElem? hrow
  change s.chronicle.rows[i]? = _ at hrow
  change s'.chronicle.rows[i]? = _ at hrow'
  rcases h.chronicle hs.lawful with hstep | hsame
  rotate_left
  · rw [hsame, hrow] at hrow'
    exact absurd (Option.some.inj hrow').symm hne
  obtain ⟨ticket, job, history, written, expected, hasked, hwrites, his, hrow', hlog⟩ :=
    hstep.rows.updated_of_final hrow hrow' hne hfinal
  have hhistory : history ⊆ s.chronicle.log.of ticket := hasked ▸ List.subset_cons_self _ _
  have hupdated : s'.chronicle.Updated ticket job written expected := by
    rw [Chronicle.Updated, hlog]
    exact List.mem_cons_self
  obtain ⟨hwritten, -⟩ := hv.update hc (hstep.of_subset _) hhistory hwrites hupdated hpiece his
  obtain rfl : row' = .ofPiece written := hrow'.trans hwritten
  obtain ⟨hwatches, rfl⟩ := hwrites.watches (hfinal.imp Row.at_ofPiece Row.at_ofPiece)
  obtain ⟨earlier, hearlier, hheeds⟩ := h.obeys hs hlog job.heeds
  obtain ⟨id, found, hash, record, now, finding, hfound, hpending, htransaction, hruling, hsettle,
    hfinding⟩ := hheeds hwatches
  have hruling' : (s.log.of ticket).ruling? = some (hash, .ok (some record)) := by
    rw [hearlier]
    exact hruling
  obtain ⟨-, hid, -⟩ := Piece.settle_eq_ok hsettle hfinding
  have hlogged : (s.chronicle.log.of ticket).Found id found := hearlier ▸ List.mem_cons_of_mem _ hfound
  obtain rfl := hv.eq_of_pending hc hlogged hpending hpiece ((Cell.text.inj his.1).trans hid)
    (Row.at_ofPiece his.2)
  obtain ⟨status, message, hverdict, rfl⟩ := Piece.settle_verdict hsettle hfinding
  exact ⟨ticket, job, piece, hash, record, status, message, now, hlog, hwatches, hruling', rfl,
    hpending, htransaction, hverdict, rfl⟩

/-- A call that has no final record from the ledger changes no row. -/
theorem Step.rows_eq_of_ruling (hs : Reachable s) (h : Step s s') {entry : Entry} {hash : String}
    {answer : Outcome (Option TransactionRecord)} (hlog : s'.log = entry :: s.log)
    (hruling : (s'.log.of entry.ticket).ruling? = some (hash, answer))
    (hanswer : ∀ record, answer = .ok (some record) → record.status = .pending) :
    s'.store.table.rows = s.store.table.rows := by
  have hs' : Reachable s' := hs.tail h
  have hwatches := hs'.watches_of_ruling (hlog ▸ List.mem_cons_self) hruling
  rcases h.chronicle hs.lawful with hstep | hsame
  rotate_left
  · exact congrArg Chronicle.rows hsame
  cases hstep.rows with
  | quiet _ hrows _ _ => exact hrows
  | insert _ _ hmade _ =>
    obtain ⟨rfl, -⟩ := List.cons.inj (hlog.symm.trans hmade)
    obtain ⟨_, -, hheeds⟩ := h.obeys hs hmade (Job.heeds _)
    exact absurd hwatches hheeds
  | claim _ _ _ _ hmade =>
    obtain ⟨rfl, -⟩ := List.cons.inj (hlog.symm.trans hmade)
    obtain ⟨_, -, hheeds⟩ := h.obeys hs hmade (Job.heeds _)
    exact absurd hwatches hheeds
  | @update ticket job _ written expected _ _ _ _ hmade =>
    obtain ⟨rfl, -⟩ := List.cons.inj (hlog.symm.trans hmade)
    obtain ⟨earlier, hearlier, hheeds⟩ := h.obeys hs hmade job.heeds
    obtain ⟨id, found, hash', record, now, finding, -, -, -, hlast, hsettle, hfinding⟩ :=
      hheeds hwatches
    have hsame : (s'.log.of ticket).ruling? = earlier.ruling? := by
      rw [hlog, Log.of_cons_self, hearlier]
      rfl
    obtain ⟨-, rfl⟩ := Prod.mk.inj (Option.some.inj (hruling.symm.trans (hsame.trans hlast)))
    obtain ⟨status, message, hverdict, -⟩ := Piece.settle_verdict hsettle hfinding
    rw [TransactionRecord.verdict?_of_pending (hanswer record rfl)] at hverdict
    cases hverdict

/-- The ledger decides how pieces end, in every run.  First, whenever a row comes to an end, a
watcher of its piece has been answered the final record of the piece's own transaction, and nothing
is written but what that record says; so the row keeps all that it said before.  Second, each row
that has ended says what such a record says, and if a ledger at an address gave this record, it came
out of a response of success.  Third, in the same way a pending row has its transaction from an
answer of the ledger to its submission, and if that came over the network, from a response of success
with a hash that is not blank.  Last, a call changes no row as long as the latest answer to it is no
record, one that waits, or an error. -/
theorem ends_justified (hs : Reachable s) :
    (∀ s', Step s s' → ∀ i row row', s.row? i = some row → s'.row? i = some row' → row' ≠ row →
      row'.At .added ∨ row'.At .failed → Settled s s' row row' ∧ row.Keeps row') ∧
    (∀ i row, s.row? i = some row → row.At .added ∨ row.At .failed →
      ∃ piece ticket hash record, row = .ofPiece piece ∧ piece.transaction = some hash ∧
        .answered (.lookup hash) (.ok (some record)) ∈ s.log.of ticket ∧ piece.Reports record ∧
        ∀ (endpoint : Endpoint) wire, (endpoint.lookup wire hash).1 = .ok (some record) →
          ∃ response, (endpoint.send wire "GET" ("/transactions/" ++ hash) none).1 = .ok response ∧
            response.Carries record) ∧
    (∀ i row, s.row? i = some row → row.At .pending →
      ∃ piece ticket proofSet root hash, row = .ofPiece piece ∧ piece.transaction = some hash ∧
        .answered (.submit proofSet root) (.ok hash) ∈ s.log.of ticket ∧
        ∀ (endpoint : Endpoint) wire, (endpoint.submit wire proofSet root).1 = .ok hash →
          ∃ response, (endpoint.send wire "POST"
              ("/proof-sets/" ++ toString proofSet.toNat ++ "/roots")
              (some (.object [("roots", .array [root.toJson])]))).1 = .ok response ∧
            response.Names hash) ∧
    ∀ s', Step s s' → ∀ entry hash answer, s'.log = entry :: s.log →
      (s'.log.of entry.ticket).ruling? = some (hash, answer) →
      (∀ record, answer = .ok (some record) → record.status = .pending) →
      s'.store.table.rows = s.store.table.rows := by
  have hvouches (i : Nat) (row : Row) (hrow : s.row? i = some row) :
      ∃ piece, row = .ofPiece piece ∧ s.chronicle.Vouches piece :=
    hs.chronicle.vouches row (List.mem_of_getElem? hrow)
  refine ⟨?_, ?_, ?_, ?_⟩
  · intro s' hstep i row row' hrow hrow' hne hfinal
    obtain ⟨later, hlater, hkeeps⟩ :=
      Chronicle.Reaches.keeps hs.chronicle (Reaches.chronicle hs.lawful (.single hstep)) hrow
    obtain rfl : row' = later := Option.some.inj (hrow'.symm.trans hlater)
    exact ⟨hstep.settled hs hrow hrow' hne hfinal, hkeeps⟩
  · intro i row hrow hfinal
    obtain ⟨piece, rfl, hvouched⟩ := hvouches i row hrow
    obtain ⟨ticket, hash, record, htransaction, hanswer, hreports⟩ :=
      hvouched.final (hfinal.imp Row.at_ofPiece Row.at_ofPiece)
    exact ⟨piece, ticket, hash, record, rfl, htransaction, hanswer, hreports,
      fun _ _ hlookup ↦ Endpoint.lookup_eq_some.mp hlookup⟩
  · intro i row hrow hpending
    obtain ⟨piece, rfl, hvouched⟩ := hvouches i row hrow
    obtain ⟨ticket, proofSet, root, hash, htransaction, hanswer⟩ :=
      hvouched.pending (Row.at_ofPiece hpending)
    exact ⟨piece, ticket, proofSet, root, hash, rfl, htransaction, hanswer,
      fun _ _ hsubmit ↦ Endpoint.submit_eq_ok.mp hsubmit⟩
  · intro s' hstep entry hash answer hlog hruling hanswer
    exact hstep.rows_eq_of_ruling hs hlog hruling hanswer

/-- A piece that was added reports the record that the ledger answered. -/
theorem added_piece_is_justified :
    ∃ s, Reachable s ∧ ∃ row, s.row? 0 = some row ∧ row.At .added ∧
      ∃ piece ticket record, row = .ofPiece piece ∧ piece.transaction = some "hash" ∧
        .answered (.lookup "hash") (.ok (some record)) ∈ s.log.of ticket ∧ piece.Reports record := by
  obtain ⟨-, s, -, -, -, hs, htable⟩ := exists_added "a" .single rfl 7 "hash"
  have hrow : s.row? 0 = some _ := congrArg (fun table : Table ↦ table.rows[0]?) htable
  obtain ⟨-, hended, -, -⟩ := ends_justified hs.reachable
  obtain ⟨piece, ticket, hash, record, hpiece, htransaction, hanswer, hreports, -⟩ :=
    hended 0 _ hrow (Or.inl rfl)
  obtain rfl := Row.ofPiece_injective hpiece
  cases htransaction
  exact ⟨s, hs.reachable, _, hrow, rfl, _, ticket, record, rfl, rfl, hanswer, hreports⟩

end Run

end PieceKeeper
