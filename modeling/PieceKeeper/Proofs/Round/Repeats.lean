import PieceKeeper.Proofs.Round.Fold
import PieceKeeper.Proofs.Round.Rows

/-!
# Rounds that are repeated

Pieces do not matter to each other, so a mishap keeps back its own piece only, and rounds come to the same whichever
piece they begin with. A second round finds nothing to do for what the first one has done, and makes up for what
mishaps have kept back.
-/

namespace PieceKeeper

/-- A row without the time of its last change. -/
def Row.unstamped (row : Row) : Row := { row with updatedAt := .null }

theorem Row.unstamped_takeOver (row : Row) (piece : Piece) (time : Instant) :
    (row.takeOver (.ofPiece { piece with updatedAt := time })).unstamped =
      (row.takeOver (.ofPiece piece)).unstamped := by
  simp only [unstamped, takeOver, ofPiece]

/-- The rows without the times of their last changes. -/
def Moment.unstamped (m : Moment) : List Row := m.rows.map Row.unstamped

/-- A mishap of the piece of a row. -/
def Mishaps.Hits (mishaps : Mishaps) (row : Row) : Prop :=
  ∃ id, row.id = .text id ∧ mishaps.hits id = true

/-- The time of a settlement is only written in the time of the last change. -/
theorem Piece.settle_now (piece : Piece) (record : TransactionRecord) (now later time : Instant) :
    { (piece.settle record now).1 with updatedAt := time } =
      { (piece.settle record later).1 with updatedAt := time } := by
  have hconclude (copied : Piece) (next : Status) (finding : Finding) :
      { (copied.conclude next finding now).1 with updatedAt := time } =
        { (copied.conclude next finding later).1 with updatedAt := time } := by
    rw [conclude, conclude, moveTo, moveTo]
    by_cases hmove : copied.status.canMove next = true
    · rw [if_pos hmove, if_pos hmove]
    · rw [if_neg hmove, if_neg hmove]
  rw [settle, settle]
  cases record.status with
  | pending => rfl
  | confirmed =>
    dsimp only
    split
    · exact hconclude _ _ _
    · exact hconclude _ _ _
  | failed => exact hconclude _ _ _

namespace Backdrop

variable {backdrop : Backdrop} {mishaps : Mishaps} {row : Row} {m m' : Moment}

/-- When a row is visited matters only for the time of its last change. -/
theorem unstamped_visited (now later : Instant) :
    (backdrop.visited mishaps now row).unstamped = (backdrop.visited mishaps later row).unstamped := by
  cases hruling : backdrop.ruling mishaps row with
  | none => rw [visited_of_unruled hruling, visited_of_unruled hruling]
  | some ruled =>
    rw [visited_of_ruling hruling, visited_of_ruling hruling]
    rw [← Row.unstamped_takeOver row (ruled.1.settle ruled.2 now).1 .epoch, Piece.settle_now _ _ now later,
      Row.unstamped_takeOver]

theorem hits_iff {piece : Piece} (hread : row.toPiece = .ok piece) :
    mishaps.Hits row ↔ mishaps.hits piece.id = true := by
  have hid := (Row.shows_of_toPiece hread).id
  simp [Mishaps.Hits, hid]

/-- A mishap keeps back the row of its piece. -/
theorem visited_of_hits (h : mishaps.Hits row) (now : Instant) : backdrop.visited mishaps now row = row := by
  cases hruling : backdrop.ruling mishaps row with
  | none => exact visited_of_unruled hruling
  | some ruled =>
    obtain ⟨hread, -, hends⟩ := ruling_eq_some.mp hruling
    cases hends.spared.symm.trans ((hits_iff hread).mp h)

/-- No other row is kept back. -/
theorem visited_of_not_hits (h : ¬ mishaps.Hits row) (now : Instant) :
    backdrop.visited mishaps now row = backdrop.visited {} now row := by
  cases hcalm : backdrop.ruling {} row with
  | none =>
    have hruling : backdrop.ruling mishaps row = none := by
      cases hruling : backdrop.ruling mishaps row with
      | none => rfl
      | some ruled => cases hcalm.symm.trans (ruling_calm hruling)
    rw [visited_of_unruled hcalm, visited_of_unruled hruling]
  | some ruled =>
    obtain ⟨hread, hpending, hends⟩ := ruling_eq_some.mp hcalm
    have hspared : mishaps.hits ruled.1.id = false := Bool.eq_false_iff.mpr fun hhits ↦ h ((hits_iff hread).mpr hhits)
    rw [visited_of_ruling hcalm,
      visited_of_ruling (ruling_eq_some.mpr ⟨hread, hpending, hends.asked, hends.final, hspared⟩)]

/-- A visit without mishap makes up for an earlier one. -/
theorem unstamped_visited_visited (now later time : Instant) :
    (backdrop.visited {} later (backdrop.visited mishaps now row)).unstamped =
      (backdrop.visited {} time row).unstamped := by
  by_cases hhits : mishaps.Hits row
  · rw [visited_of_hits hhits]
    exact unstamped_visited later time
  · rw [visited_of_not_hits hhits, visited_of_unruled ruling_visited]
    exact unstamped_visited now time

/-! ## Rounds -/

/-- What a round finds listed, whatever is to go wrong. -/
def listing (backdrop : Backdrop) (m : Moment) : Outcome (List Piece) := (backdrop.hitBy {}).listing m

/-- A round with mishaps. -/
def round (backdrop : Backdrop) (manager : Manager) (mishaps : Mishaps) (m : Moment) : Outcome Report × Moment :=
  manager.reconcile.amid (backdrop.hitBy mishaps) m

/-- A round that visits pieces in an order of its own. -/
def roundAlong (backdrop : Backdrop) (manager : Manager) (mishaps : Mishaps) (order : List Piece) (m : Moment) :
    Report × Moment :=
  (Operation.observeAll manager.locks {} order).amid (backdrop.hitBy mishaps) m

variable {manager : Manager} {pieces order : List Piece}

/-- No mishap keeps a piece from being listed. -/
theorem listing_hitBy (mishaps : Mishaps) : (backdrop.hitBy mishaps).listing m = backdrop.listing m := rfl

theorem round_of_unlisted {fault : Fault} (h : backdrop.listing m = .error fault) :
    backdrop.round manager mishaps m = (.error fault, m) :=
  manager.reconcile_of_unlisted h

theorem round_of_listed (h : backdrop.listing m = .ok pieces) :
    backdrop.round manager mishaps m =
      (.ok (backdrop.roundAlong manager mishaps pieces m).1, (backdrop.roundAlong manager mishaps pieces m).2) := by
  have hround : backdrop.round manager mishaps m = _ := (Operation.amid_reconcile manager.locks).2 pieces h
  rw [hround, roundAlong, Operation.amid_observeAll]

/-- The rows of pieces that are not listed are not ruled. -/
theorem unruled_of_unlisted (h : backdrop.listing m = .ok pieces) {row : Row} (hrow : row ∈ m.rows)
    (hnone : ¬ ∃ piece ∈ pieces, row.id = .text piece.id) : backdrop.ruling mishaps row = none := by
  cases hruling : backdrop.ruling mishaps row with
  | none => rfl
  | some ruled =>
    have hwaits : row ∈ m.waiting := List.mem_filter.mpr ⟨hrow, decide_eq_true (at_of_ruling hruling)⟩
    have hread := (Surroundings.listing_eq_ok.mp h).2
    obtain ⟨piece, hpiece, hread⟩ := Table.exists_of_forall₂ hread.flip hwaits
    exact absurd ⟨piece, hpiece, (Row.shows_of_toPiece hread).id⟩ hnone

/-- In whatever order the pieces are visited: what is left of a row is what is called for. -/
theorem rows_roundAlong (manager : Manager) (mishaps : Mishaps) (hkeyed : m.IsKeyed)
    (h : backdrop.listing m = .ok pieces) (horder : order.Perm pieces) :
    ∃ time : Cell → Instant, (∀ id, ∃ n, time id = backdrop.clock n) ∧
      (backdrop.roundAlong manager mishaps order m).2.rows =
        m.rows.map fun row ↦ backdrop.visited mishaps (time row.id) row := by
  have hlisting := (listing_hitBy mishaps).trans h
  obtain ⟨hids, hfound⟩ := Surroundings.finds_of_listing hkeyed.ids hlisting
  have hids' : (order.map (·.id)).Nodup := (horder.map _).nodup_iff.mpr hids
  have hpending (piece : Piece) (hpiece : piece ∈ order) := (hfound piece (horder.subset hpiece)).1
  have hfinds (piece : Piece) (hpiece : piece ∈ order) := (hfound piece (horder.subset hpiece)).2
  obtain ⟨time, hclock, hrows⟩ :=
    (Surroundings.looksAll hids' hpending hfinds manager.locks).rows_eq hkeyed hids' hpending hfinds
  refine ⟨time, hclock, ?_⟩
  rw [roundAlong, Operation.amid_observeAll, hrows]
  refine List.map_congr_left fun row hrow ↦ ?_
  split
  · rfl
  · rename_i hnone
    refine (visited_of_unruled (unruled_of_unlisted h hrow ?_)).symm
    rintro ⟨piece, hpiece, hid⟩
    exact hnone ⟨piece, horder.symm.subset hpiece, hid⟩

theorem rows_round (manager : Manager) (mishaps : Mishaps) (hkeyed : m.IsKeyed)
    (h : backdrop.listing m = .ok pieces) :
    ∃ time : Cell → Instant, (∀ id, ∃ n, time id = backdrop.clock n) ∧
      (backdrop.round manager mishaps m).2.rows = m.rows.map fun row ↦ backdrop.visited mishaps (time row.id) row := by
  rw [round_of_listed h]
  exact rows_roundAlong manager mishaps hkeyed h (.refl pieces)

/-- After a round, the rows that wait are rows that waited before. -/
theorem listed_of_rows_eq {time : Cell → Instant} (h : backdrop.listing m = .ok pieces)
    (hrows : m'.rows = m.rows.map fun row ↦ backdrop.visited mishaps (time row.id) row) :
    ∃ later, backdrop.listing m' = .ok later := by
  obtain ⟨hreach, hread⟩ := Surroundings.listed_iff.mp ⟨pieces, h⟩
  refine Surroundings.listed_iff.mpr ⟨hreach, fun row hrow ↦ ?_⟩
  obtain ⟨hrow, hat⟩ := List.mem_filter.mp hrow
  rw [hrows] at hrow
  obtain ⟨earlier, hearlier, rfl⟩ := List.mem_map.mp hrow
  have hsame := visited_of_at (of_decide_eq_true hat)
  rw [hsame] at hat ⊢
  exact hread earlier (List.mem_filter.mpr ⟨hearlier, hat⟩)

/-- Rounds keep ids and contents apart. -/
theorem isKeyed_round (hkeyed : m.IsKeyed) : (backdrop.round manager mishaps m).2.IsKeyed := by
  cases hlisting : backdrop.listing m with
  | error fault =>
    rw [round_of_unlisted hlisting]
    exact hkeyed
  | ok pieces =>
    obtain ⟨time, -, hrows⟩ := rows_round manager mishaps hkeyed hlisting
    exact hkeyed.map hrows (fun _ ↦ visited_id) fun _ ↦ visited_contentId

/-! ### Mishaps -/

/-- Mishaps keep back the rows of their pieces, and no others. -/
theorem round_isolates (hkeyed : m.IsKeyed) (manager : Manager) (mishaps : Mishaps) :
    (backdrop.round manager mishaps m).2.rows.length = m.rows.length ∧
    ∀ (i : Nat) (row : Row), m.rows[i]? = some row → ∃ hit calm,
      (backdrop.round manager mishaps m).2.rows[i]? = some hit ∧
      (backdrop.round manager {} m).2.rows[i]? = some calm ∧
      (mishaps.Hits row → hit = row) ∧ (¬ mishaps.Hits row → hit.unstamped = calm.unstamped) := by
  cases hlisting : backdrop.listing m with
  | error fault =>
    rw [round_of_unlisted hlisting, round_of_unlisted hlisting]
    exact ⟨rfl, fun i row hrow ↦ ⟨row, row, hrow, hrow, fun _ ↦ rfl, fun _ ↦ rfl⟩⟩
  | ok pieces =>
    obtain ⟨time, -, hrows⟩ := rows_round manager mishaps hkeyed hlisting
    obtain ⟨time', -, hcalm⟩ := rows_round manager {} hkeyed hlisting
    rw [hrows, hcalm]
    refine ⟨List.length_map _, fun i row hrow ↦ ⟨backdrop.visited mishaps (time row.id) row,
      backdrop.visited {} (time' row.id) row, ?_, ?_, fun hhits ↦ visited_of_hits hhits _, fun hspared ↦ ?_⟩⟩
    · rw [List.getElem?_map, hrow, Option.map_some]
    · rw [List.getElem?_map, hrow, Option.map_some]
    · rw [visited_of_not_hits hspared]
      exact unstamped_visited _ _

/-- A round without mishap makes up for an earlier one. -/
theorem round_recovers (hkeyed : m.IsKeyed) (manager : Manager) (mishaps : Mishaps) :
    (backdrop.round manager {} (backdrop.round manager mishaps m).2).2.unstamped =
      (backdrop.round manager {} m).2.unstamped := by
  cases hlisting : backdrop.listing m with
  | error fault => rw [round_of_unlisted hlisting, round_of_unlisted hlisting]
  | ok pieces =>
    obtain ⟨time, -, hrows⟩ := rows_round manager mishaps hkeyed hlisting
    obtain ⟨time', -, hcalm⟩ := rows_round manager {} hkeyed hlisting
    obtain ⟨later, hlater⟩ := listed_of_rows_eq hlisting hrows
    obtain ⟨time'', -, hagain⟩ := rows_round manager {} (isKeyed_round hkeyed) hlater
    rw [Moment.unstamped, Moment.unstamped, hagain, hcalm, hrows, List.map_map, List.map_map, List.map_map]
    exact List.map_congr_left fun row _ ↦ unstamped_visited_visited _ _ _

/-! ### The order -/

/-- The order of the visits matters only for the times that are written. -/
theorem unstamped_roundAlong (hkeyed : m.IsKeyed) (h : backdrop.listing m = .ok pieces) (horder : order.Perm pieces)
    (manager : Manager) (mishaps : Mishaps) :
    (backdrop.roundAlong manager mishaps order m).2.unstamped = (backdrop.round manager mishaps m).2.unstamped ∧
    ((∀ n, backdrop.clock n = backdrop.clock 0) →
      (backdrop.roundAlong manager mishaps order m).2.rows = (backdrop.round manager mishaps m).2.rows) := by
  obtain ⟨time, hclock, hrows⟩ := rows_roundAlong manager mishaps hkeyed h horder
  obtain ⟨time', hclock', hround⟩ := rows_round manager mishaps hkeyed h
  constructor
  · rw [Moment.unstamped, Moment.unstamped, hrows, hround, List.map_map, List.map_map]
    exact List.map_congr_left fun row _ ↦ unstamped_visited _ _
  · intro hstill
    have htime (id : Cell) : time id = time' id := by
      obtain ⟨n, hn⟩ := hclock id
      obtain ⟨n', hn'⟩ := hclock' id
      rw [hn, hn', hstill n, hstill n']
    rw [hrows, hround]
    exact List.map_congr_left fun row _ ↦ by rw [htime]

/-! ### Again -/

/-- Only a piece is reported as added or failed that came to its end. -/
theorem unresolved_of_looks {piece : Piece} {outcome : Outcome (Piece × Finding)}
    (h : (backdrop.hitBy mishaps).Looks m piece outcome m') (hstays : ∀ record, ¬ backdrop.Ends mishaps piece record) :
    outcome.map (·.2) ≠ .ok .added ∧ outcome.map (·.2) ≠ .ok .failed := by
  cases h with
  | skipped | unanswered | notIndexed | stillPending | unwritten =>
    exact ⟨fun h ↦ (by cases h), fun h ↦ (by cases h)⟩
  | settled htransaction hanswer hsettle hfinal hwritten =>
    exact absurd (Surroundings.ends_of_written htransaction hanswer hsettle hfinal hwritten) (hstays _)

theorem unresolved_of_looksAll {outcomes : List (Outcome (Piece × Finding))}
    (h : (backdrop.hitBy mishaps).LooksAll m pieces outcomes m')
    (hstays : ∀ piece ∈ pieces, ∀ record, ¬ backdrop.Ends mishaps piece record) :
    ∀ outcome ∈ outcomes, outcome.map (·.2) ≠ .ok .added ∧ outcome.map (·.2) ≠ .ok .failed := by
  induction h with
  | nil m => exact fun _ houtcome ↦ absurd houtcome List.not_mem_nil
  | cons hlook _ ih =>
    rw [List.forall_mem_cons] at hstays ⊢
    exact ⟨unresolved_of_looks hlook hstays.1, ih hstays.2⟩

/-- A round in which no row is ruled leaves every row alone and reports nothing as added or failed. -/
theorem round_of_unruled (manager : Manager) (hkeyed : m.IsKeyed) (h : backdrop.listing m = .ok pieces)
    (hunruled : ∀ row ∈ m.rows, backdrop.ruling mishaps row = none) :
    ∃ report, (backdrop.round manager mishaps m).1 = .ok report ∧
      (backdrop.round manager mishaps m).2.rows = m.rows ∧ report.added = 0 ∧ report.failed = 0 ∧
      report.examined = (backdrop.round manager mishaps m).2.waiting.length := by
  obtain ⟨time, -, hrows⟩ := rows_round manager mishaps hkeyed h
  have hsame : (backdrop.round manager mishaps m).2.rows = m.rows := by
    rw [hrows]
    exact (List.map_congr_left fun row hrow ↦ visited_of_unruled (hunruled row hrow)).trans (List.map_id _)
  have hlisting := (listing_hitBy mishaps).trans h
  have hread := (Surroundings.listing_eq_ok.mp hlisting).2
  have hpending (piece : Piece) (hpiece : piece ∈ pieces) : piece.status = .pending :=
    ((Surroundings.finds_of_listing hkeyed.ids hlisting).2 piece hpiece).1
  have hlooks := Surroundings.looksAll_of_listing hkeyed.ids hlisting manager.locks
  have hunresolved := unresolved_of_looksAll hlooks fun piece hpiece record hends ↦ by
    obtain ⟨row, hrow, hread⟩ := Table.exists_of_forall₂ hread hpiece
    have hruling := ruling_eq_some.mpr ⟨hread, hpending piece hpiece, hends⟩
    cases (hunruled row (List.mem_filter.mp hrow).1).symm.trans hruling
  have hresolved := Report.resolved_foldl hunresolved {}
  have hreport : (backdrop.round manager mishaps m).1 = _ := congrArg Prod.fst (round_of_listed h)
  rw [roundAlong, Operation.amid_observeAll] at hreport
  refine ⟨_, hreport, hsame, ?_, ?_, ?_⟩
  · exact Nat.eq_zero_of_add_eq_zero_right hresolved
  · exact Nat.eq_zero_of_add_eq_zero_left hresolved
  · rw [Report.examined_foldl, Moment.waiting, hsame, Operation.looks, Call.length_amidAll, List.length_map]
    exact (Nat.zero_add _).trans hread.length_eq.symm

/-- A second round without mishap changes nothing. -/
theorem round_again (manager : Manager) (hkeyed : m.IsKeyed) {report : Report}
    (h : (backdrop.round manager {} m).1 = .ok report) :
    ∃ report, (backdrop.round manager {} (backdrop.round manager {} m).2).1 = .ok report ∧
      (backdrop.round manager {} (backdrop.round manager {} m).2).2.rows = (backdrop.round manager {} m).2.rows ∧
      report.added = 0 ∧ report.failed = 0 ∧
      report.examined = (backdrop.round manager {} (backdrop.round manager {} m).2).2.waiting.length := by
  cases hlisting : backdrop.listing m with
  | error fault =>
    rw [round_of_unlisted hlisting] at h
    cases h
  | ok pieces =>
    obtain ⟨time, -, hrows⟩ := rows_round manager {} hkeyed hlisting
    obtain ⟨later, hlater⟩ := listed_of_rows_eq hlisting hrows
    refine round_of_unruled manager (isKeyed_round hkeyed) hlater fun row hrow ↦ ?_
    rw [hrows] at hrow
    obtain ⟨earlier, -, rfl⟩ := List.mem_map.mp hrow
    exact ruling_visited

end Backdrop

/-- Whatever a table holds, and if the ledger's answers depend only on the transactions: a mishap keeps back its own
piece only; the order of the visits does not matter; a second round changes nothing; and a round without mishap makes
up for what was kept back. -/
theorem rounds_isolate_pieces (backdrop : Backdrop) (manager : Manager) (m : Moment) (hkeyed : m.IsKeyed) :
    (∀ mishaps : Mishaps, (backdrop.round manager mishaps m).2.rows.length = m.rows.length ∧
      ∀ (i : Nat) (row : Row), m.rows[i]? = some row → ∃ hit calm,
        (backdrop.round manager mishaps m).2.rows[i]? = some hit ∧
        (backdrop.round manager {} m).2.rows[i]? = some calm ∧
        (mishaps.Hits row → hit = row) ∧ (¬ mishaps.Hits row → hit.unstamped = calm.unstamped)) ∧
    (∀ (mishaps : Mishaps) (pieces order : List Piece), backdrop.listing m = .ok pieces → order.Perm pieces →
      (backdrop.roundAlong manager mishaps order m).2.unstamped = (backdrop.round manager mishaps m).2.unstamped ∧
      ((∀ n, backdrop.clock n = backdrop.clock 0) →
        (backdrop.roundAlong manager mishaps order m).2.rows = (backdrop.round manager mishaps m).2.rows)) ∧
    (∀ report, (backdrop.round manager {} m).1 = .ok report →
      ∃ report, (backdrop.round manager {} (backdrop.round manager {} m).2).1 = .ok report ∧
        (backdrop.round manager {} (backdrop.round manager {} m).2).2.rows = (backdrop.round manager {} m).2.rows ∧
        report.added = 0 ∧ report.failed = 0 ∧
        report.examined = (backdrop.round manager {} (backdrop.round manager {} m).2).2.waiting.length) ∧
    ∀ mishaps : Mishaps, (backdrop.round manager {} (backdrop.round manager mishaps m).2).2.unstamped =
      (backdrop.round manager {} m).2.unstamped :=
  ⟨Backdrop.round_isolates hkeyed manager, fun mishaps _ _ h horder ↦
    Backdrop.unstamped_roundAlong hkeyed h horder manager mishaps,
    fun _ ↦ Backdrop.round_again manager hkeyed, Backdrop.round_recovers hkeyed manager⟩

/-- A piece that waits for a transaction. -/
def Run.waitingFor (id hash : String) : Piece := { blank id with status := .pending, transaction := some hash }

/-- The ledger has the transactions of two pieces, and the lookup for one fails: its row stays as it is, until a
round without mishap. -/
theorem rounds_isolate_one_of_two :
    ∃ (backdrop : Backdrop) (m : Moment) (mishaps : Mishaps) (first second : Row), m.rows = [first, second] ∧
      m.IsKeyed ∧ mishaps.Hits first ∧ ¬ mishaps.Hits second ∧
      (∃ written, (backdrop.round Run.keeper mishaps m).2.rows = [first, written] ∧ ¬ written.At .pending) ∧
      (∃ report, (backdrop.round Run.keeper {} (backdrop.round Run.keeper {} m).2).1 = .ok report ∧
        report.added = 0) ∧
      (backdrop.round Run.keeper {} (backdrop.round Run.keeper mishaps m).2).2.unstamped =
        (backdrop.round Run.keeper {} m).2.unstamped := by
  let backdrop : Backdrop :=
    { ledger := fun hash ↦ .ok (some (.confirmed hash true 1)), clock := fun _ ↦ .epoch, outage := none
      other := Request.silence }
  let m : Moment := { rows := [.ofPiece (Run.waitingFor "1" "0x1"), .ofPiece (Run.waitingFor "2" "0x2")] }
  let mishaps : Mishaps := { lookup := fun id ↦ if id = "1" then some { cause := .internal "" } else none }
  have hread (id hash : String) : (Row.ofPiece (Run.waitingFor id hash)).toPiece = .ok (Run.waitingFor id hash) :=
    Row.toPiece_ofPiece Instant.isReadable_epoch Instant.isReadable_epoch fun _ h ↦ nomatch h
  have hkeyed : m.IsKeyed :=
    { ids := by simp [m, Moment.HasIds, Run.waitingFor, Run.blank, Piece.prepare, Row.ofPiece]
      contents := by simp [m, Table.sameContent, Run.waitingFor, Run.blank, Piece.prepare, Row.ofPiece, Cell.ofText?] }
  have hlisting : backdrop.listing m = .ok [Run.waitingFor "1" "0x1", Run.waitingFor "2" "0x2"] :=
    Surroundings.listing_eq_ok.mpr ⟨rfl, .cons (hread _ _) (.cons (hread _ _) .nil)⟩
  have hfirst : mishaps.Hits (.ofPiece (Run.waitingFor "1" "0x1")) := ⟨"1", rfl, by simp [mishaps, Mishaps.hits]⟩
  have hsecond : ¬ mishaps.Hits (.ofPiece (Run.waitingFor "2" "0x2")) := by
    rintro ⟨id, hid, hmishap⟩
    obtain rfl : "2" = id := Cell.text.inj hid
    simp [mishaps, Mishaps.hits] at hmishap
  obtain ⟨hisolates, -, hagain, hrecovers⟩ := rounds_isolate_pieces backdrop Run.keeper m hkeyed
  obtain ⟨hlength, hrows⟩ := hisolates mishaps
  obtain ⟨kept, written, hround⟩ := List.length_eq_two.mp hlength
  have hwritten : ¬ written.At .pending := by
    obtain ⟨time, -, hvisited⟩ := Backdrop.rows_round Run.keeper mishaps hkeyed hlisting
    have hends : backdrop.Ends mishaps (Run.waitingFor "2" "0x2") (.confirmed "0x2" true 1) :=
      ⟨⟨"0x2", rfl, rfl⟩, by decide, by decide⟩
    have hruling := Backdrop.ruling_eq_some.mpr ⟨hread "2" "0x2", rfl, hends⟩
    cases hround.symm.trans hvisited
    exact Backdrop.not_at_of_ruling hruling
  obtain ⟨hit, -, hhit, -, hkept, -⟩ := hrows 0 _ rfl
  rw [hround] at hhit
  cases hhit
  obtain ⟨report, hreport, -, hadded, -⟩ := hagain _ (congrArg Prod.fst (Backdrop.round_of_listed hlisting))
  exact ⟨backdrop, m, mishaps, _, _, rfl, hkeyed, hfirst, hsecond, ⟨written, hkept hfirst ▸ hround, hwritten⟩,
    ⟨report, hreport, hadded⟩, hrecovers mishaps⟩

end PieceKeeper
