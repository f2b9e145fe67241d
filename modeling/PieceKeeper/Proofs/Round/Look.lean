import PieceKeeper.Proofs.Operation.Monitor
import PieceKeeper.Proofs.Round.Basic
import PieceKeeper.Proofs.Run.Lifecycle
import PieceKeeper.Proofs.Service.Rules

/-!
# Looks at pieces

A person who asks for a piece and a round that comes to it look at it in the same way.  Only what is told in the
end is different: a person is told why there is nothing to watch, where a round passes the piece by.
-/

namespace PieceKeeper

variable {α : Type}

/-- A change that leaves every answer as it is changes nothing. -/
theorem Call.Follows.mapAnswer_eq {rule : History → Request → Prop} {f : α → α} {call : Call α} {history : History}
    (h : call.Follows rule (fun _ answer ↦ f answer = answer) history) : call.mapAnswer f = call := by
  induction call generalizing history with
  | done answer => exact congrArg Call.done h
  | ask request next ih => exact congrArg (Call.ask request) (funext fun answer ↦ ih answer (h.2 answer))

namespace Operation

open Attempt

variable {history : History}

/-- What a person is told of what a round would find out. -/
def told : Outcome (Piece × Finding) → Outcome (Piece × Finding)
  | .ok (piece, .skipped) =>
    refuse (if piece.status = .pending then noTransaction piece.id
      else piece.invalidState "monitor transaction of")
  | outcome => outcome

theorem told_of_ne_skipped {piece : Piece} {finding : Finding} (h : finding ≠ .skipped) :
    told (.ok (piece, finding)) = .ok (piece, finding) := by
  cases finding with
  | skipped => exact absurd rfl h
  | notIndexed | stillPending | added | failed => rfl

/-- A transaction that is there is never passed by. -/
theorem follows_settleBy_watched (piece : Piece) (found : Option TransactionRecord) :
    (settleBy piece found).Follows (fun _ _ ↦ True) (fun _ answer ↦ answer.2 ≠ .skipped) (fun _ _ ↦ True)
      history := by
  cases found with
  | none => exact follows_pure fun h ↦ Finding.noConfusion h
  | some record =>
    refine Follows.bind (follows_ask trivial fun now ↦ ?_)
    refine Follows.bind (follows_ofOutcome (fun finding hfinding ↦ ?_) fun _ _ ↦ trivial)
    have hwatched : finding ≠ .skipped := by
      rcases Piece.settle_cases (Prod.ext rfl hfinding) with ⟨rfl, -⟩ | ⟨rfl, -⟩ | ⟨rfl, -⟩
      · exact fun h ↦ Finding.noConfusion h
      · exact fun h ↦ Finding.noConfusion h
      · exact fun h ↦ Finding.noConfusion h
    rw [recordFinding]
    split
    · refine Follows.bind (follows_table trivial (fun updated ↦ ?_) fun _ ↦ trivial)
      cases updated with
      | true => exact follows_pure hwatched
      | false => exact follows_refuse trivial
    · exact follows_pure hwatched

/-- Whoever asks, a piece is looked at in the same way. -/
theorem run_observeLocked_true (id : String) :
    (observeLocked id true).run = (observeLocked id false).run.mapAnswer told := by
  change (find id).run.bind _ = ((find id).run.bind _).mapAnswer told
  rw [Call.mapAnswer_bind]
  refine congrArg (Call.bind (find id).run) (funext fun outcome ↦ ?_)
  cases outcome with
  | error fault => rfl
  | ok piece =>
    simp only [ExceptT.bindCont]
    by_cases hstatus : piece.status = .pending
    · rw [if_neg (not_not_intro hstatus), if_neg (not_not_intro hstatus)]
      cases htransaction : piece.transaction with
      | none =>
        change _ = Call.done (told (.ok (piece, .skipped)))
        rw [told, if_pos hstatus]
        rfl
      | some hash =>
        refine (@Call.Follows.mapAnswer_eq _ (fun _ _ ↦ True) _ _ [] ?_).symm
        refine Follows.ends (Follows.bind ⟨trivial, fun answer ↦ ?_⟩)
        cases answer with
        | error fault => exact rfl
        | ok found =>
          have htold (history : History) : (settleBy piece found).Follows (fun _ _ ↦ True)
              (fun _ answer ↦ told (.ok answer) = .ok answer)
              (fun _ fault ↦ told (.error fault) = .error fault) history :=
            Follows.mono (follows_settleBy_watched piece found)
              (fun _ _ hwatched ↦ told_of_ne_skipped hwatched) fun _ _ _ ↦ rfl
          exact htold _
    · rw [if_pos hstatus, if_pos hstatus]
      change _ = Call.done (told (.ok (piece, .skipped)))
      rw [told, if_neg hstatus]
      rfl

/-- Whoever asks, a piece is looked at in the same way, and only what is told in the end is different. -/
theorem run_observe_true (locks : Nat) (id : String) :
    (observe locks id true).run = (observe locks id false).run.mapAnswer told := by
  rw [observe, observe, ← run_holding_mapAnswer]
  exact congrArg (fun call ↦ (holding ⟨locks, id⟩ (ExceptT.mk call)).run) (run_observeLocked_true id)

end Operation

/-- What a person is told of a piece, by what a round would find out. -/
def Manager.tell (id : String) (found : Outcome (Piece × Finding)) : Outcome (Piece × Finding) :=
  (Operation.told found).mapError (·.within "monitor transaction" id)

theorem Manager.run_monitor (manager : Manager) (id : String) :
    (manager.monitor id).run = (Operation.observe manager.locks id false).run.mapAnswer (Manager.tell id) := by
  rw [monitor, Attempt.run_within, Operation.run_observe_true, Call.mapAnswer_mapAnswer]
  rfl

/-! ## How a look goes -/

/-- The ledger was asked for a transaction, and no lock is held. -/
def Moment.asked (m : Moment) (hash : String) : Moment :=
  { m with held := none, lookups := m.lookups ++ [hash] }

namespace Surroundings

/-- A piece is found under its id. -/
def Finds (around : Surroundings) (m : Moment) (piece : Piece) : Prop :=
  (around.answer m (.table (.find piece.id))).1 = .ok (some piece)

/-- How a look at a pending piece ends, and what it leaves. -/
inductive Looks (around : Surroundings) (m : Moment) (piece : Piece) : Outcome (Piece × Finding) → Moment → Prop
  | skipped : piece.transaction = none → Looks around m piece (.ok (piece, .skipped)) { m with held := none }
  | unanswered {hash : String} {fault : Fault} : piece.transaction = some hash →
    around.ledger (some piece.id) m.lookups hash = .error fault → Looks around m piece (.error fault) (m.asked hash)
  | notIndexed {hash : String} : piece.transaction = some hash →
    around.ledger (some piece.id) m.lookups hash = .ok none →
    Looks around m piece (.ok (piece, .notIndexed)) (m.asked hash)
  | stillPending {hash : String} {record : TransactionRecord} : piece.transaction = some hash →
    around.ledger (some piece.id) m.lookups hash = .ok (some record) → record.status = .pending →
    Looks around m piece (.ok (piece, .stillPending)) { m.asked hash with readings := m.readings + 1 }
  | unwritten {hash : String} {record : TransactionRecord} {settled : Piece} {finding : Finding} {fault : Fault} :
    piece.transaction = some hash → around.ledger (some piece.id) m.lookups hash = .ok (some record) →
    piece.settle record (around.clock m.readings) = (settled, .ok finding) → finding = .added ∨ finding = .failed →
    (around.answer m (.table (.update settled .pending))).1 ≠ .ok true →
    Looks around m piece (.error fault) { m.asked hash with readings := m.readings + 1 }
  | settled {hash : String} {record : TransactionRecord} {settled : Piece} {finding : Finding} :
    piece.transaction = some hash → around.ledger (some piece.id) m.lookups hash = .ok (some record) →
    piece.settle record (around.clock m.readings) = (settled, .ok finding) → finding = .added ∨ finding = .failed →
    (around.answer m (.table (.update settled .pending))).1 = .ok true →
    Looks around m piece (.ok (settled, finding))
      { m.asked hash with
        readings := m.readings + 1
        rows := m.rows.map fun row ↦
          if row.Is piece.id .pending then row.takeOver (.ofPiece settled) else row }

variable {around : Surroundings} {m : Moment} {piece : Piece}

theorem answer_of_query {command : Table.Command} (h : (Request.table command).IsQuiet) :
    (around.answer m (.table command)).2 = m := by
  have hsame := @Table.run_query (around.table m.rows command) _ h
  rw [answer, hsame]
  rfl

theorem Finds.amid_find (h : around.Finds m piece) (held : Option String) :
    (Operation.find piece.id).amid around { m with held } = (.ok piece, { m with held }) := by
  have hquery : (Attempt.table (.find piece.id)).amid around { m with held } =
      (.ok (some piece), { m with held }) := Prod.ext h (answer_of_query trivial)
  exact Attempt.amid_bind_ok hquery

/-- A piece is written in its row, or nothing is changed. -/
theorem answer_update (around : Surroundings) (m : Moment) (settled : Piece) :
    (around.answer m (.table (.update settled .pending))).1 ≠ .ok true ∧
      (around.answer m (.table (.update settled .pending))).2 = m ∨
    (around.answer m (.table (.update settled .pending))).1 = .ok true ∧
      (around.answer m (.table (.update settled .pending))).2 =
        { m with
          rows := m.rows.map fun row ↦
            if row.Is settled.id .pending then row.takeOver (.ofPiece settled) else row } := by
  have heffect := (around.table m.rows (.update settled .pending)).run_effect (.update settled .pending)
  rw [answer]
  generalize ((around.table m.rows (.update settled .pending)).run (.update settled .pending)).1 = written at heffect
  generalize ((around.table m.rows (.update settled .pending)).run (.update settled .pending)).2.rows = rows at heffect
  cases heffect with
  | none hrefused => exact Or.inl ⟨hrefused, rfl⟩
  | update _ => exact Or.inr ⟨rfl, rfl⟩

/-- What is found out of a piece that came to its end counts only if it was written. -/
theorem amid_recordFinding {settled : Piece} {finding : Finding} (hfinal : finding = .added ∨ finding = .failed)
    (around : Surroundings) (m : Moment) :
    (∃ fault, (around.answer m (.table (.update settled .pending))).1 ≠ .ok true ∧
      (Operation.recordFinding settled finding).amid around m = (.error fault, m)) ∨
    (around.answer m (.table (.update settled .pending))).1 = .ok true ∧
      (Operation.recordFinding settled finding).amid around m =
        (.ok (settled, finding),
          { m with
            rows := m.rows.map fun row ↦
              if row.Is settled.id .pending then row.takeOver (.ofPiece settled) else row }) := by
  have hwrite {written : Outcome Bool} {after : Moment}
      (hanswer : (around.answer m (.table (.update settled .pending))).1 = written)
      (hafter : (around.answer m (.table (.update settled .pending))).2 = after) :
      (Attempt.table (.update settled .pending)).amid around m = (written, after) := Prod.ext hanswer hafter
  rw [Operation.recordFinding, if_pos hfinal]
  rcases answer_update around m settled with ⟨hrefused, hkept⟩ | ⟨hwritten, hrows⟩
  · refine Or.inl ?_
    cases hanswer : (around.answer m (.table (.update settled .pending))).1 with
    | error fault => exact ⟨fault, fun h ↦ (by cases h), Attempt.amid_bind_error (hwrite hanswer hkept)⟩
    | ok written =>
      cases written with
      | true => exact absurd hanswer hrefused
      | false => exact ⟨_, fun h ↦ (by cases h), Attempt.amid_bind_ok (hwrite hanswer hkept)⟩
  · exact Or.inr ⟨hwritten, Attempt.amid_bind_ok (hwrite hwritten hrows)⟩

/-- A pending piece that is found is looked at as the ledger's answer calls for. -/
theorem Finds.looks (hfound : around.Finds m piece) (hstatus : piece.status = .pending) (locks : Nat) :
    around.Looks m piece ((Operation.observe locks piece.id false).amid around m).1
      ((Operation.observe locks piece.id false).amid around m).2 := by
  have hfind := hfound.amid_find (some piece.id)
  rw [Operation.observe, Attempt.amid_holding, Operation.observeLocked, Attempt.amid_bind_ok hfind,
    if_neg (not_not_intro hstatus)]
  cases htransaction : piece.transaction with
  | none => exact .skipped htransaction
  | some hash =>
    have hlookup : Attempt.amid around (ExceptT.mk (Call.request (.lookup hash)))
        { m with held := some piece.id } = (around.ledger (some piece.id) m.lookups hash,
          { m with held := some piece.id, lookups := m.lookups ++ [hash] }) := rfl
    cases hledger : around.ledger (some piece.id) m.lookups hash with
    | error fault =>
      rw [hledger] at hlookup
      dsimp only
      rw [Attempt.amid_bind_error hlookup]
      exact .unanswered htransaction hledger
    | ok found =>
      rw [hledger] at hlookup
      dsimp only
      rw [Attempt.amid_bind_ok hlookup]
      cases found with
      | none => exact .notIndexed htransaction hledger
      | some record =>
        have hnow : (Attempt.ask .now).amid around
            { m with held := some piece.id, lookups := m.lookups ++ [hash] } = (.ok (around.clock m.readings),
              { m with
                held := some piece.id, lookups := m.lookups ++ [hash], readings := m.readings + 1 }) := rfl
        rw [Operation.settleBy, Attempt.amid_bind_ok hnow]
        rcases piece.settle_of_pending hstatus record (around.clock m.readings) with
          ⟨hwaits, hsettle⟩ | ⟨settled, finding, hsettle, hfinal⟩
        · rw [hsettle]
          exact .stillPending htransaction hledger hwaits
        · have hid : settled.id = piece.id := (Piece.settle_eq_ok hsettle hfinal).2.1
          have houtcome (m : Moment) : (Attempt.ofOutcome (.ok finding)).amid around m = (.ok finding, m) := rfl
          rw [hsettle]
          dsimp only
          rw [Attempt.amid_bind_ok (houtcome _)]
          rcases @amid_recordFinding settled finding hfinal around
              { m with
                held := some piece.id, lookups := m.lookups ++ [hash], readings := m.readings + 1 } with
            ⟨fault, hrefused, hrecord⟩ | ⟨hwritten, hrecord⟩
          · rw [hrecord]
            exact .unwritten htransaction hledger hsettle hfinal hrefused
          · rw [hrecord, hid]
            exact .settled htransaction hledger hsettle hfinal hwritten

end Surroundings

/-! ## Looks at many pieces -/

/-- Looks at pieces one after the other. -/
def Operation.looks (locks : Nat) (around : Surroundings) (pieces : List Piece) (m : Moment) :
    List (Outcome (Piece × Finding)) × Moment :=
  Call.amidAll around (pieces.map fun piece ↦ (observe locks piece.id false).run) m

namespace Surroundings

variable {around : Surroundings} {m : Moment} {piece : Piece}

theorem finds_iff : around.Finds m piece ↔ around.outage = none ∧
    ∃ row, m.rows.find? (·.id == .text piece.id) = some row ∧ row.toPiece = .ok piece :=
  Table.find_eq_ok

/-- A look at a piece leaves the others to be found. -/
theorem Looks.finds {outcome : Outcome (Piece × Finding)} {m' : Moment} {other : Piece}
    (h : around.Looks m piece outcome m') (hne : other.id ≠ piece.id) (hother : around.Finds m other) :
    around.Finds m' other := by
  cases h with
  | skipped _ | unanswered _ _ | notIndexed _ _ | stillPending _ _ _ | unwritten _ _ _ _ _ => exact hother
  | @settled hash record settled finding _ _ _ _ _ =>
    obtain ⟨hreach, row, hrow, hread⟩ := finds_iff.mp hother
    have hid : row.id = .text other.id := beq_iff_eq.mp (List.find?_some hrow :)
    have hkept : ¬ row.Is piece.id .pending := fun his ↦ hne (Cell.text.inj (hid.symm.trans his.1))
    refine finds_iff.mpr ⟨hreach, row, ?_, hread⟩
    rw [Table.find?_map_id (fun row ↦ by split <;> rfl), hrow, Option.map_some, if_neg hkept]

/-- Pending pieces are looked at one after the other. -/
inductive LooksAll (around : Surroundings) : Moment → List Piece → List (Outcome (Piece × Finding)) → Moment → Prop
  | nil (m : Moment) : LooksAll around m [] [] m
  | cons {m m' m'' : Moment} {piece : Piece} {rest : List Piece} {outcome : Outcome (Piece × Finding)}
      {outcomes : List (Outcome (Piece × Finding))} :
    around.Looks m piece outcome m' → LooksAll around m' rest outcomes m'' →
      LooksAll around m (piece :: rest) (outcome :: outcomes) m''

/-- Pieces with ids of their own do not get in each other's way. -/
theorem looksAll {pieces : List Piece} (hids : (pieces.map (·.id)).Nodup)
    (hstatus : ∀ piece ∈ pieces, piece.status = .pending) (hfound : ∀ piece ∈ pieces, around.Finds m piece)
    (locks : Nat) :
    around.LooksAll m pieces (Operation.looks locks around pieces m).1 (Operation.looks locks around pieces m).2 := by
  induction pieces generalizing m with
  | nil => exact .nil m
  | cons piece rest ih =>
    obtain ⟨hnew, hids⟩ := List.nodup_cons.mp hids
    have hlook := (hfound piece List.mem_cons_self).looks (hstatus piece List.mem_cons_self) locks
    refine .cons hlook (ih hids (fun other hother ↦ hstatus other (List.mem_cons_of_mem _ hother)) ?_)
    intro other hother
    refine hlook.finds (fun heq ↦ hnew ?_) (hfound other (List.mem_cons_of_mem _ hother))
    exact List.mem_map.mpr ⟨other, hother, heq⟩

/-! ## What is listed -/

/-- What a round finds listed. -/
def listing (around : Surroundings) (m : Moment) : Outcome (List Piece) :=
  (around.answer m (.table (.withStatus .pending))).1

end Surroundings

namespace Moment

/-- The rows that wait for the ledger, in the order of their creation. -/
def waiting (m : Moment) : List Row := m.rows.filter (·.At .pending)

/-- No two rows have one id. -/
def HasIds (m : Moment) : Prop := (m.rows.map (·.id)).Nodup

end Moment

namespace Surroundings

variable {around : Surroundings} {m : Moment} {pieces : List Piece}

theorem listing_eq_ok : around.listing m = .ok pieces ↔
    around.outage = none ∧ List.Forall₂ (fun row piece ↦ row.toPiece = .ok piece) m.waiting pieces := by
  exact Table.withStatus_eq_ok

/-- The pieces are listed if the table is within reach and every row that waits can be read. -/
theorem listed_iff : (∃ pieces, around.listing m = .ok pieces) ↔
    around.outage = none ∧ ∀ row ∈ m.waiting, ∃ piece, row.toPiece = .ok piece := by
  simp only [listing_eq_ok, exists_and_left, Table.exists_pieces_iff]

/-- The pieces that are listed have ids of their own, wait, and are found. -/
theorem finds_of_listing (hids : m.HasIds) (h : around.listing m = .ok pieces) :
    (pieces.map (·.id)).Nodup ∧ ∀ piece ∈ pieces, piece.status = .pending ∧ around.Finds m piece := by
  obtain ⟨hreach, hread⟩ := listing_eq_ok.mp h
  constructor
  · have hsame : m.waiting.map (·.id) = pieces.map fun piece ↦ Cell.text piece.id := by
      rw [← List.forall₂_eq_eq_eq, List.forall₂_map_left_iff, List.forall₂_map_right_iff]
      exact hread.imp fun row piece h ↦ (Row.shows_of_toPiece h).id
    refine List.Nodup.of_map Cell.text ?_
    rw [List.map_map]
    refine (?_ : List.Nodup (pieces.map fun piece ↦ Cell.text piece.id))
    rw [← hsame]
    exact hids.sublist (List.filter_sublist.map _)
  · intro piece hpiece
    obtain ⟨row, hrow, hread⟩ := Table.exists_of_forall₂ hread hpiece
    obtain ⟨hrow, hat⟩ := List.mem_filter.mp hrow
    have hshows := Row.shows_of_toPiece hread
    refine ⟨Row.At.unique hshows.status (of_decide_eq_true hat), finds_iff.mpr ⟨hreach, row, ?_, hread⟩⟩
    exact hshows.id ▸ Table.find?_of_nodup hids hrow

theorem looksAll_of_listing (hids : m.HasIds) (h : around.listing m = .ok pieces) (locks : Nat) :
    around.LooksAll m pieces (Operation.looks locks around pieces m).1 (Operation.looks locks around pieces m).2 := by
  obtain ⟨hnodup, hfound⟩ := finds_of_listing hids h
  exact looksAll hnodup (fun piece hpiece ↦ (hfound piece hpiece).1) (fun piece hpiece ↦ (hfound piece hpiece).2) locks

end Surroundings

end PieceKeeper
