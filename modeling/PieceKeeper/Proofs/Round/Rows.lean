import PieceKeeper.Proofs.Round.Look
import PieceKeeper.Proofs.Service.Uploads

/-!
# What a round leaves of a row

The ledger answers a question by the transaction that it is asked for, and lookups and writes fail for some pieces.
Then a round leaves of each row what the row itself, the answer to its question and the mishaps of its piece call
for, and nothing else matters: not the other rows, and not the order in which the pieces are visited, except for
the time that is written.
-/

namespace PieceKeeper

/-- Surroundings without mishaps, in which the ledger's answer depends only on the transaction. -/
structure Backdrop where
  ledger : String → Outcome (Option TransactionRecord)
  clock : Nat → Instant
  outage : Option String
  other : (request : Request) → request.Answer

/-- What goes wrong with which pieces. -/
structure Mishaps where
  /-- How the lookup fails for a piece. -/
  lookup : String → Option Fault := fun _ ↦ none
  /-- Whether the row of a piece cannot be written, and its writes are lost in silence. -/
  write : String → Option Bool := fun _ ↦ none

/-- Whether anything goes wrong with a piece. -/
def Mishaps.hits (mishaps : Mishaps) (id : String) : Bool := (mishaps.lookup id).isSome || (mishaps.write id).isSome

theorem Mishaps.hits_eq_false {mishaps : Mishaps} {id : String} :
    mishaps.hits id = false ↔ mishaps.lookup id = none ∧ mishaps.write id = none := by
  simp [hits]

namespace Backdrop

/-- What is answered to a call that looks after a piece. -/
def answer (backdrop : Backdrop) (mishaps : Mishaps) (piece : Option String) (hash : String) :
    Outcome (Option TransactionRecord) :=
  match piece.bind mishaps.lookup with
  | some fault => .error fault
  | none => backdrop.ledger hash

/-- The surroundings with mishaps. -/
def hitBy (backdrop : Backdrop) (mishaps : Mishaps) : Surroundings where
  ledger piece _ hash := backdrop.answer mishaps piece hash
  clock := backdrop.clock
  broken := mishaps.write
  outage := backdrop.outage
  other := backdrop.other

/-- A record brings a piece to its end, and nothing goes wrong with the piece. -/
structure Ends (backdrop : Backdrop) (mishaps : Mishaps) (piece : Piece) (record : TransactionRecord) : Prop where
  asked : ∃ hash, piece.transaction = some hash ∧ backdrop.ledger hash = .ok (some record)
  final : record.status ≠ .pending
  spared : mishaps.hits piece.id = false

/-- The piece of a row that waits, and the record that brings it to its end. -/
def ruling (backdrop : Backdrop) (mishaps : Mishaps) (row : Row) : Option (Piece × TransactionRecord) :=
  match row.toPiece with
  | .error _ => none
  | .ok piece =>
    match piece.transaction.map backdrop.ledger with
    | some (.ok (some record)) =>
      if piece.status = .pending ∧ record.status ≠ .pending ∧ mishaps.hits piece.id = false then some (piece, record)
      else none
    | _ => none

/-- What is left of a row when its piece is visited. -/
def visited (backdrop : Backdrop) (mishaps : Mishaps) (now : Instant) (row : Row) : Row :=
  match backdrop.ruling mishaps row with
  | none => row
  | some (piece, record) => row.takeOver (.ofPiece (piece.settle record now).1)

variable {backdrop : Backdrop} {mishaps : Mishaps} {row : Row} {piece : Piece} {record : TransactionRecord}
  {now : Instant}

theorem answer_of_spared {id : String} (h : mishaps.lookup id = none) (hash : String) :
    backdrop.answer mishaps (some id) hash = backdrop.ledger hash := by
  rw [answer, Option.bind_some, h]

theorem lookup_eq_none {id hash : String} {found : Option TransactionRecord}
    (h : backdrop.answer mishaps (some id) hash = .ok found) : mishaps.lookup id = none := by
  rw [answer, Option.bind_some] at h
  cases hlookup : mishaps.lookup id with
  | none => rfl
  | some fault =>
    rw [hlookup] at h
    cases h

theorem ruling_eq_some : backdrop.ruling mishaps row = some (piece, record) ↔
    row.toPiece = .ok piece ∧ piece.status = .pending ∧ backdrop.Ends mishaps piece record := by
  constructor
  · intro h
    rw [ruling] at h
    split at h
    · cases h
    · rename_i found hread
      split at h
      · rename_i answer hanswer
        split at h
        · rename_i hends
          cases h
          exact ⟨hread, hends.1, Option.map_eq_some_iff.mp hanswer, hends.2.1, hends.2.2⟩
        · cases h
      · cases h
  · rintro ⟨hread, hpending, ⟨hash, htransaction, hledger⟩, hfinal, hspared⟩
    simp [ruling, hread, htransaction, hledger, hpending, hfinal, hspared]

theorem visited_of_unruled (h : backdrop.ruling mishaps row = none) : backdrop.visited mishaps now row = row := by
  rw [visited, h]

theorem visited_of_ruling (h : backdrop.ruling mishaps row = some (piece, record)) :
    backdrop.visited mishaps now row = row.takeOver (.ofPiece (piece.settle record now).1) := by
  rw [visited, h]

theorem unruled_of_not_ends (hread : row.toPiece = .ok piece) (h : ∀ record, ¬ backdrop.Ends mishaps piece record) :
    backdrop.ruling mishaps row = none := by
  cases hruling : backdrop.ruling mishaps row with
  | none => rfl
  | some ruled =>
    obtain ⟨hfound, -, hends⟩ := ruling_eq_some.mp hruling
    exact absurd (Except.ok.inj (hfound.symm.trans hread) ▸ hends) (h ruled.2)

/-- A record that brings a piece to its end does so at any time. -/
theorem settle_of_ruling (h : backdrop.ruling mishaps row = some (piece, record)) (now : Instant) :
    ∃ settled finding, piece.settle record now = (settled, .ok finding) ∧ (finding = .added ∨ finding = .failed) := by
  obtain ⟨-, hpending, hends⟩ := ruling_eq_some.mp h
  exact (Piece.settle_of_pending hpending record now).resolve_left fun hwaits ↦ hends.final hwaits.1

theorem visited_id : (backdrop.visited mishaps now row).id = row.id := by
  rw [visited]
  split
  · rfl
  · rfl

theorem visited_contentId : (backdrop.visited mishaps now row).contentId = row.contentId := by
  cases hruling : backdrop.ruling mishaps row with
  | none => rw [visited_of_unruled hruling]
  | some ruled =>
    obtain ⟨settled, finding, hsettle, hfinal⟩ := settle_of_ruling hruling now
    have hshows := Row.shows_of_toPiece (ruling_eq_some.mp hruling).1
    rw [visited_of_ruling hruling, hsettle, hshows.contentId, ← (Piece.settle_eq_ok hsettle hfinal).2.2]
    rfl

/-! ### Visits again -/

/-- Only a row is ruled that waits. -/
theorem at_of_ruling (h : backdrop.ruling mishaps row = some (piece, record)) : row.At .pending := by
  obtain ⟨hread, hpending, -⟩ := ruling_eq_some.mp h
  exact hpending ▸ (Row.shows_of_toPiece hread).status

/-- A row that is ruled does not wait any more. -/
theorem not_at_of_ruling (h : backdrop.ruling mishaps row = some (piece, record)) :
    ¬ (backdrop.visited mishaps now row).At .pending := by
  intro hat
  obtain ⟨settled, finding, hsettle, hfinal⟩ := settle_of_ruling h now
  rw [visited_of_ruling h, hsettle] at hat
  have hstatus : settled.status = .pending := Row.at_ofPiece hat
  have hmove := (Piece.settle_eq_ok hsettle hfinal).1
  rw [(ruling_eq_some.mp h).2.1, hstatus] at hmove
  cases hmove

/-- A row that still waits was left as it is. -/
theorem visited_of_at (h : (backdrop.visited mishaps now row).At .pending) :
    backdrop.visited mishaps now row = row := by
  cases hruling : backdrop.ruling mishaps row with
  | none => exact visited_of_unruled hruling
  | some ruled => exact absurd h (not_at_of_ruling hruling)

/-- Nothing is left to be done about a row that was visited. -/
theorem ruling_visited : backdrop.ruling mishaps (backdrop.visited mishaps now row) = none := by
  cases hruling : backdrop.ruling mishaps (backdrop.visited mishaps now row) with
  | none => rfl
  | some ruled =>
    have hat := at_of_ruling hruling
    rw [visited_of_at hat] at hruling
    exact absurd hat (not_at_of_ruling hruling)

/-- A mishap only keeps a row from being ruled. -/
theorem ruling_calm (h : backdrop.ruling mishaps row = some (piece, record)) :
    backdrop.ruling {} row = some (piece, record) := by
  obtain ⟨hread, hpending, hends⟩ := ruling_eq_some.mp h
  exact ruling_eq_some.mpr ⟨hread, hpending, hends.asked, hends.final, rfl⟩

end Backdrop

/-- No two rows have one id, and no two rows hold one content. -/
structure Moment.IsKeyed (m : Moment) : Prop where
  ids : m.HasIds
  contents : ∀ row ∈ m.rows, ∀ other ∈ m.rows, Table.sameContent row other = true → row.id = other.id

/-- The table keeps ids and contents apart in every run. -/
theorem Run.Reachable.isKeyed {s : State} (h : Reachable s) : ({ rows := s.store.table.rows } : Moment).IsKeyed where
  ids := h.table_lawful.ids
  contents row hrow other hother hsame := by
    obtain ⟨piece, rfl⟩ := h.table_lawful.pieces row hrow
    obtain ⟨i, hi⟩ := List.getElem?_of_mem hrow
    exact (h.table_lawful.contents i piece hi other hother hsame).symm

/-- Changes that leave ids and contents as they are keep them apart. -/
theorem Moment.IsKeyed.map {m m' : Moment} (h : m.IsKeyed) {change : Row → Row}
    (hrows : m'.rows = m.rows.map change) (hid : ∀ row, (change row).id = row.id)
    (hcontent : ∀ row, (change row).contentId = row.contentId) : m'.IsKeyed where
  ids := by
    rw [HasIds, hrows, Chronicle.map_id_map _ hid]
    exact h.ids
  contents := by
    rw [hrows]
    simp only [List.forall_mem_map, Table.sameContent, hid, hcontent]
    exact h.contents

namespace Surroundings

variable {backdrop : Backdrop} {mishaps : Mishaps} {m m' : Moment} {piece : Piece}
  {outcome : Outcome (Piece × Finding)}

/-- The row that a piece was found in is the only one with its id. -/
theorem Finds.toPiece {around : Surroundings} (h : around.Finds m piece) (hids : m.HasIds) {row : Row}
    (hrow : row ∈ m.rows) (hid : row.id = .text piece.id) : row.toPiece = .ok piece := by
  obtain ⟨-, found, hfound, hread⟩ := finds_iff.mp h
  rw [← hid, Table.find?_of_nodup hids hrow] at hfound
  cases hfound
  exact hread

/-- Only a row is written whose writes do not fail. -/
theorem write_eq_none {settled : Piece}
    (h : ((backdrop.hitBy mishaps).answer m (.table (.update settled .pending))).1 = .ok true) :
    mishaps.write settled.id = none := by
  cases hbroken : mishaps.write settled.id with
  | none => rfl
  | some silent =>
    have hdisturbed : ((backdrop.hitBy mishaps).table m.rows (.update settled .pending)).disturbance =
        some ⟨.row settled.id, silent⟩ := by
      change (mishaps.write settled.id).map _ = _
      rw [hbroken]
      rfl
    exact absurd h (Table.run_update_hit hdisturbed)

/-- A row whose writes do not fail is written. -/
theorem written (hwrite : mishaps.write piece.id = none) (hfound : (backdrop.hitBy mishaps).Finds m piece)
    (hpending : piece.status = .pending) (hkeyed : m.IsKeyed) {settled : Piece} (hid : settled.id = piece.id)
    (hcontent : settled.contentId = piece.contentId) :
    ((backdrop.hitBy mishaps).answer m (.table (.update settled .pending))).1 = .ok true := by
  obtain ⟨hreach, row, hrow, hread⟩ := finds_iff.mp hfound
  have hmem := List.mem_of_find?_eq_some hrow
  have hshows := Row.shows_of_toPiece hread
  have hcalm : ((backdrop.hitBy mishaps).table m.rows (.update settled .pending)).disturbance = none := by
    change ((mishaps.write settled.id).map _) = none
    rw [hid, hwrite]
    rfl
  have his : row.Is settled.id .pending := ⟨hid ▸ hshows.id, hpending ▸ hshows.status⟩
  refine congrArg Prod.fst (Table.run_update hreach hcalm hmem his fun other hother hne ↦ ?_)
  -- whoever held the content of the piece would have its id
  by_contra hsame
  refine hne ((hkeyed.contents row hmem other hother ?_).symm.trans his.1)
  rw [Table.sameContent, hshows.contentId, ← hcontent]
  exact Bool.not_eq_false _ ▸ hsame

/-- A piece that was written has come to its end. -/
theorem ends_of_written {earlier : List String} {hash : String} {record : TransactionRecord} {settled : Piece}
    {finding : Finding} {now : Instant} (htransaction : piece.transaction = some hash)
    (hanswer : (backdrop.hitBy mishaps).ledger (some piece.id) earlier hash = .ok (some record))
    (hsettle : piece.settle record now = (settled, .ok finding)) (hfinal : finding = .added ∨ finding = .failed)
    (hwritten : ((backdrop.hitBy mishaps).answer m (.table (.update settled .pending))).1 = .ok true) :
    backdrop.Ends mishaps piece record := by
  have hlookup : mishaps.lookup piece.id = none := Backdrop.lookup_eq_none hanswer
  have hwrite := write_eq_none hwritten
  rw [(Piece.settle_eq_ok hsettle hfinal).2.1] at hwrite
  exact ⟨⟨hash, htransaction, (Backdrop.answer_of_spared hlookup hash).symm.trans hanswer⟩,
    Piece.ne_pending_of_settle hsettle hfinal, Mishaps.hits_eq_false.mpr ⟨hlookup, hwrite⟩⟩

/-- A look writes the row of a piece that comes to its end, and else changes nothing. -/
theorem Looks.rows_cases (h : (backdrop.hitBy mishaps).Looks m piece outcome m') (hkeyed : m.IsKeyed)
    (hpending : piece.status = .pending) (hfound : (backdrop.hitBy mishaps).Finds m piece) :
    m'.rows = m.rows ∧ (∀ record, ¬ backdrop.Ends mishaps piece record) ∨
    ∃ record, backdrop.Ends mishaps piece record ∧ m'.rows = m.rows.map fun row ↦
      if row.Is piece.id .pending then
        row.takeOver (.ofPiece (piece.settle record (backdrop.clock m.readings)).1) else row := by
  have hanswered {hash : String} {record : TransactionRecord} (htransaction : piece.transaction = some hash)
      (hends : backdrop.Ends mishaps piece record) :
      (backdrop.hitBy mishaps).ledger (some piece.id) m.lookups hash = .ok (some record) := by
    obtain ⟨asked, hasked, hledger⟩ := hends.asked
    obtain rfl : asked = hash := Option.some.inj (hasked.symm.trans htransaction)
    exact (Backdrop.answer_of_spared (Mishaps.hits_eq_false.mp hends.spared).1 asked).trans hledger
  cases h with
  | skipped htransaction =>
    refine Or.inl ⟨rfl, fun record hends ↦ ?_⟩
    obtain ⟨hash, hasked, -⟩ := hends.asked
    cases htransaction.symm.trans hasked
  | unanswered htransaction hanswer =>
    exact Or.inl ⟨rfl, fun record hends ↦ by cases hanswer.symm.trans (hanswered htransaction hends)⟩
  | notIndexed htransaction hanswer =>
    exact Or.inl ⟨rfl, fun record hends ↦ by cases hanswer.symm.trans (hanswered htransaction hends)⟩
  | stillPending htransaction hanswer hwaits =>
    refine Or.inl ⟨rfl, fun record hends ↦ ?_⟩
    cases hanswer.symm.trans (hanswered htransaction hends)
    exact hends.final hwaits
  | unwritten _ _ hsettle hfinal hrefused =>
    refine Or.inl ⟨rfl, fun _ hends ↦ hrefused ?_⟩
    obtain ⟨-, hid, hcontent⟩ := Piece.settle_eq_ok hsettle hfinal
    exact written (Mishaps.hits_eq_false.mp hends.spared).2 hfound hpending hkeyed hid hcontent
  | @settled hash record settled finding htransaction hanswer hsettle hfinal hwritten =>
    have hrows : piece.settle record (backdrop.clock m.readings) = (settled, .ok finding) := hsettle
    refine Or.inr ⟨record, ends_of_written htransaction hanswer hsettle hfinal hwritten, ?_⟩
    rw [hrows]

/-- A look leaves of the row of its piece what is called for, and the other rows as they are. -/
theorem Looks.rows_eq (h : (backdrop.hitBy mishaps).Looks m piece outcome m') (hkeyed : m.IsKeyed)
    (hpending : piece.status = .pending) (hfound : (backdrop.hitBy mishaps).Finds m piece) :
    m'.rows = m.rows.map fun row ↦
      if row.id = .text piece.id then backdrop.visited mishaps (backdrop.clock m.readings) row else row := by
  rcases h.rows_cases hkeyed hpending hfound with ⟨hrows, hstays⟩ | ⟨record, hends, hrows⟩
  · rw [hrows]
    refine ((List.map_congr_left fun row hrow ↦ ?_).trans (List.map_id _)).symm
    split
    · rename_i hid
      exact Backdrop.visited_of_unruled (Backdrop.unruled_of_not_ends (hfound.toPiece hkeyed.ids hrow hid) hstays)
    · rfl
  · rw [hrows]
    refine List.map_congr_left fun row hrow ↦ ?_
    by_cases hid : row.id = .text piece.id
    · have hread := hfound.toPiece hkeyed.ids hrow hid
      have his : row.Is piece.id .pending := ⟨hid, hpending ▸ (Row.shows_of_toPiece hread).status⟩
      rw [if_pos his, if_pos hid, Backdrop.visited_of_ruling (Backdrop.ruling_eq_some.mpr ⟨hread, hpending, hends⟩)]
    · rw [if_neg hid, if_neg fun his ↦ hid his.1]

/-- Looks leave of the rows of their pieces what is called for, each at a time of its own. -/
theorem LooksAll.rows_eq {pieces : List Piece} {outcomes : List (Outcome (Piece × Finding))}
    (h : (backdrop.hitBy mishaps).LooksAll m pieces outcomes m') (hkeyed : m.IsKeyed)
    (hids : (pieces.map (·.id)).Nodup) (hpending : ∀ piece ∈ pieces, piece.status = .pending)
    (hfound : ∀ piece ∈ pieces, (backdrop.hitBy mishaps).Finds m piece) :
    ∃ time : Cell → Instant, (∀ id, ∃ n, time id = backdrop.clock n) ∧ m'.rows = m.rows.map fun row ↦
      if ∃ piece ∈ pieces, row.id = .text piece.id then backdrop.visited mishaps (time row.id) row else row := by
  induction h with
  | nil m => exact ⟨fun _ ↦ backdrop.clock 0, fun _ ↦ ⟨0, rfl⟩, by simp⟩
  | @cons m m₁ m' piece rest outcome outcomes hlook _ ih =>
    obtain ⟨hnew, hids⟩ := List.nodup_cons.mp hids
    have hrows := hlook.rows_eq hkeyed (hpending piece List.mem_cons_self) (hfound piece List.mem_cons_self)
    have hkeyed' : m₁.IsKeyed := hkeyed.map hrows
      (fun row ↦ by split; exacts [Backdrop.visited_id, rfl])
      (fun row ↦ by split; exacts [Backdrop.visited_contentId, rfl])
    obtain ⟨time, hclock, hlater⟩ := ih hkeyed' hids
      (fun other hother ↦ hpending other (List.mem_cons_of_mem _ hother))
      (fun other hother ↦ hlook.finds (fun heq ↦ hnew (List.mem_map.mpr ⟨other, hother, heq⟩))
        (hfound other (List.mem_cons_of_mem _ hother)))
    refine ⟨Function.update time (.text piece.id) (backdrop.clock m.readings), fun id ↦ ?_, ?_⟩
    · by_cases hid : id = .text piece.id
      · exact ⟨m.readings, hid ▸ Function.update_self _ _ _⟩
      · rw [Function.update_of_ne hid]
        exact hclock id
    · rw [hlater, hrows, List.map_map]
      refine List.map_congr_left fun row hrow ↦ ?_
      simp only [Function.comp_apply]
      by_cases hid : row.id = .text piece.id
      · -- the rest of the pieces have other ids, so the row is left alone from here on
        have hdone : ¬ ∃ other ∈ rest, row.id = .text other.id := by
          rintro ⟨other, hother, heq⟩
          exact hnew (List.mem_map.mpr ⟨other, hother, Cell.text.inj (heq.symm.trans hid)⟩)
        rw [if_pos hid, Backdrop.visited_id, if_neg hdone, if_pos ⟨piece, List.mem_cons_self, hid⟩, hid,
          Function.update_self]
      · have hrest : (∃ other ∈ piece :: rest, row.id = .text other.id) ↔ ∃ other ∈ rest, row.id = .text other.id :=
          (List.exists_mem_cons_iff _ _ _).trans (or_iff_right hid)
        rw [if_neg hid, Function.update_of_ne hid]
        exact if_congr hrest.symm rfl rfl

end Surroundings

end PieceKeeper
