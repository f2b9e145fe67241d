import PieceKeeper.Proofs.Round.Count
import PieceKeeper.Proofs.Round.Look

/-!
# A round is a fold

A round over the waiting pieces does what somebody does who asks for each of them by hand, in the order of their
creation, and does not mind what is answered.  It leaves the same rows behind, has asked the ledger the same
questions, and counts what was answered, except that a piece without a transaction is refused by hand and skipped
in a round.
-/

namespace PieceKeeper

open Surroundings

namespace Operation

variable {around : Surroundings} {m : Moment}

theorem amid_observeAll (locks : Nat) (report : Report) (pieces : List Piece) :
    (observeAll locks report pieces).amid around m =
      ((looks locks around pieces m).1.foldl (fun report outcome ↦ report.tally (outcome.map (·.2))) report,
        (looks locks around pieces m).2) := by
  induction pieces generalizing report m with
  | nil => rfl
  | cons piece rest ih =>
    have hbind := @Call.amid_bind _ _ around m (observe locks piece.id false).run
      fun result ↦ observeAll locks (report.tally (result.map (·.2))) rest
    exact hbind.trans (ih _)

theorem amid_reconcile (locks : Nat) :
    (∀ fault, around.listing m = .error fault → (reconcile locks).amid around m = (.error fault, m)) ∧
    ∀ pieces, around.listing m = .ok pieces → (reconcile locks).amid around m =
      (.ok ((looks locks around pieces m).1.foldl (fun report outcome ↦ report.tally (outcome.map (·.2))) {}),
        (looks locks around pieces m).2) := by
  have hlist {answer : Outcome (List Piece)} (h : around.listing m = answer) :
      (Attempt.table (.withStatus .pending)).amid around m = (answer, m) :=
    Prod.ext h (answer_of_query trivial)
  constructor
  · intro fault hfault
    exact Attempt.amid_bind_error (hlist hfault)
  · intro pieces hpieces
    have hlift := @Attempt.amid_lift _ around m (observeAll locks {} pieces)
    rw [amid_observeAll] at hlift
    exact (Attempt.amid_bind_ok (hlist hpieces)).trans hlift

end Operation

namespace Manager

variable {around : Surroundings} {m m' : Moment} {pieces : List Piece} {outcomes : List (Outcome (Piece × Finding))}

/-- Asks for pieces one after the other, and does not mind what is answered. -/
def monitorEach (manager : Manager) (around : Surroundings) (pieces : List Piece) (m : Moment) :
    List (Outcome (Piece × Finding)) × Moment :=
  Call.amidAll around (pieces.map fun piece ↦ (manager.monitor piece.id).run) m

theorem monitorEach_eq (manager : Manager) (around : Surroundings) (pieces : List Piece) (m : Moment) :
    manager.monitorEach around pieces m =
      (pieces.zipWith (fun piece ↦ Manager.tell piece.id) (Operation.looks manager.locks around pieces m).1,
        (Operation.looks manager.locks around pieces m).2) := by
  simp only [monitorEach, run_monitor]
  exact Call.amidAll_mapAnswer _ _ pieces

end Manager

/-- What a round counts of a waiting piece, by what is told to somebody who asks for it. -/
def Piece.counted (piece : Piece) (told : Outcome (Piece × Finding)) : Outcome Finding :=
  match piece.transaction with
  | none => .ok .skipped
  | some _ => told.map (·.2)

namespace Surroundings

variable {around : Surroundings} {m m' : Moment} {piece : Piece} {pieces : List Piece}
  {outcome : Outcome (Piece × Finding)} {outcomes : List (Outcome (Piece × Finding))}

/-- A look asks the ledger for the transaction of the piece and for no other. -/
theorem Looks.lookups (h : around.Looks m piece outcome m') :
    m'.lookups = m.lookups ++ piece.transaction.toList := by
  cases h with
  | skipped htransaction => rw [htransaction]; exact (List.append_nil _).symm
  | unanswered htransaction _ | notIndexed htransaction _ | stillPending htransaction _ _
  | unwritten htransaction _ _ _ _ | settled htransaction _ _ _ _ => rw [htransaction]; rfl

/-- A round counts what is told by hand. -/
theorem Looks.tally (h : around.Looks m piece outcome m') (report : Report) :
    report.tally (piece.counted (Manager.tell piece.id outcome)) = report.tally (outcome.map (·.2)) := by
  cases h with
  | skipped htransaction => rw [Piece.counted, htransaction]; rfl
  | unanswered htransaction _ | notIndexed htransaction _ | stillPending htransaction _ _
  | unwritten htransaction _ _ _ _ => rw [Piece.counted, htransaction]; rfl
  | settled htransaction _ _ hfinal _ =>
    rw [Piece.counted, htransaction]
    rcases hfinal with rfl | rfl
    · rfl
    · rfl

/-- Whoever asks for a waiting piece without a transaction is told that there is none. -/
theorem Looks.tell_of_bare (h : around.Looks m piece outcome m') (hpending : piece.status = .pending)
    (hbare : piece.transaction = none) :
    Manager.tell piece.id outcome =
      .error ⟨Operation.noTransaction piece.id, some ⟨"monitor transaction", piece.id⟩⟩ := by
  cases h with
  | skipped _ =>
    rw [Manager.tell, Operation.told, if_pos hpending]
    rfl
  | unanswered htransaction _ | notIndexed htransaction _ | stillPending htransaction _ _
  | unwritten htransaction _ _ _ _ | settled htransaction _ _ _ _ => cases hbare.symm.trans htransaction

theorem LooksAll.lookups (h : around.LooksAll m pieces outcomes m') :
    m'.lookups = m.lookups ++ pieces.filterMap (·.transaction) := by
  induction h with
  | nil m => exact (List.append_nil _).symm
  | @cons _ _ _ piece rest _ _ hlook _ ih =>
    rw [ih, hlook.lookups, List.append_assoc]
    cases htransaction : piece.transaction with
    | none => rw [List.filterMap_cons_none htransaction]; rfl
    | some hash => rw [List.filterMap_cons_some htransaction]; rfl

theorem LooksAll.foldl (h : around.LooksAll m pieces outcomes m') (report : Report) :
    (pieces.zipWith Piece.counted (pieces.zipWith (fun piece ↦ Manager.tell piece.id) outcomes)).foldl
        Report.tally report =
      outcomes.foldl (fun report outcome ↦ report.tally (outcome.map (·.2))) report := by
  induction h generalizing report with
  | nil m => rfl
  | cons hlook _ ih =>
    simp only [List.zipWith_cons_cons, List.foldl_cons, hlook.tally]
    exact ih _

theorem LooksAll.tell_of_bare (h : around.LooksAll m pieces outcomes m')
    (hpending : ∀ piece ∈ pieces, piece.status = .pending) {told : Outcome (Piece × Finding)}
    (htold : (piece, told) ∈ pieces.zip (pieces.zipWith (fun piece ↦ Manager.tell piece.id) outcomes))
    (hbare : piece.transaction = none) :
    told = .error ⟨Operation.noTransaction piece.id, some ⟨"monitor transaction", piece.id⟩⟩ := by
  induction h with
  | nil m => cases htold
  | cons hlook _ ih =>
    rw [List.zipWith_cons_cons, List.zip_cons_cons] at htold
    rcases List.mem_cons.mp htold with heq | hrest
    · cases heq
      exact hlook.tell_of_bare (hpending _ List.mem_cons_self) hbare
    · exact ih (fun other hother ↦ hpending other (List.mem_cons_of_mem _ hother)) hrest

end Surroundings

/-! ## Rounds -/

/-- A round is what asking by hand for the waiting pieces comes to. -/
structure Manager.Folds (manager : Manager) (around : Surroundings) (start : Moment) (pieces : List Piece) :
    Prop where
  /-- The pieces are read from the rows that wait, in the order of their creation. -/
  listed : List.Forall₂ (fun row piece ↦ row.toPiece = .ok piece) start.waiting pieces
  effect : (manager.reconcile.amid around start).2 = (manager.monitorEach around pieces start).2
  report : start.HasIds → (manager.reconcile.amid around start).1 =
    .ok ((pieces.zipWith Piece.counted (manager.monitorEach around pieces start).1).foldl Report.tally {})
  lookups : start.HasIds →
    (manager.reconcile.amid around start).2.lookups = start.lookups ++ pieces.filterMap (·.transaction)
  /-- By hand, a piece without a transaction is refused. -/
  bare : start.HasIds → ∀ piece told, (piece, told) ∈ pieces.zip (manager.monitorEach around pieces start).1 →
    piece.transaction = none →
      told = .error ⟨Operation.noTransaction piece.id, some ⟨"monitor transaction", piece.id⟩⟩

namespace Manager

variable {around : Surroundings} {start : Moment} {pieces : List Piece}

theorem reconcile_of_unlisted (manager : Manager) {fault : Fault} (h : around.listing start = .error fault) :
    manager.reconcile.amid around start = (.error fault, start) :=
  (Operation.amid_reconcile manager.locks).1 fault h

theorem folds_of_listing (manager : Manager) (h : around.listing start = .ok pieces) :
    manager.Folds around start pieces := by
  have hround : manager.reconcile.amid around start = _ := (Operation.amid_reconcile manager.locks).2 pieces h
  have heach := manager.monitorEach_eq around pieces start
  have hlooks (hids : start.HasIds) := looksAll_of_listing hids h manager.locks
  constructor
  · exact (listing_eq_ok.mp h).2
  · rw [hround, heach]
  · intro hids
    rw [hround, heach, (hlooks hids).foldl]
  · intro hids
    rw [hround]
    exact (hlooks hids).lookups
  · intro hids piece told htold
    rw [heach] at htold
    exact (hlooks hids).tell_of_bare (fun piece hpiece ↦ ((finds_of_listing hids h).2 piece hpiece).1) htold

end Manager

/-! ## A round over one piece -/

/-- An answer that promises nothing. -/
def Request.silence : (request : Request) → request.Answer
  | .table _ => .error { cause := .internal "" }
  | .shelf (.holds _) => false
  | .shelf .newDraft | .clock => 0
  | .shelf (.makePlace _) | .shelf (.writeDraft _ _ _) | .shelf (.discard _) | .shelf (.publish _ _) =>
    .error .missing
  | .shelf (.read _) | .findFile _ | .readFile _ => .error .missing
  | .now => .epoch
  | .freshId => ""
  | .acquire _ | .release _ | .pause | .sleep _ => ()
  | .submit _ _ => .error { cause := .internal "" }
  | .lookup _ => .ok none

namespace Run

open Attempt

variable {id hash : String} {body : Bytes} {committed : CommittedPiece} {proofSet : UInt64}

/-- A round finds a piece that the ledger has added. -/
theorem yields_reconcile_added {scene : Scene} (hheld : scene.held = false)
    (htable : scene.store.table = { rows := [Row.ofPiece (submitted id body committed proofSet hash)] }) :
    keeper.reconcile.Yields scene (.ok { examined := 1, added := 1 })
      { scene.store with table := { rows := [Row.ofPiece (added id body committed proofSet hash)] } } := by
  obtain ⟨⟨table, shelf⟩, held, history⟩ := scene
  cases htable
  cases hheld
  have hlisted : List.Forall₂ (fun row piece ↦ Row.toPiece row = .ok piece)
      [Row.ofPiece (submitted id body committed proofSet hash)] [submitted id body committed proofSet hash] :=
    .cons (toPiece_submitted id body committed proofSet hash) .nil
  have hfind : [Row.ofPiece (submitted id body committed proofSet hash)].find? (·.id == .text id) =
      some _ := List.find?_cons_of_pos (beq_self_eq_true (Cell.text id))
  have hsettle : (submitted id body committed proofSet hash).settle (.confirmed hash true 1) .epoch =
      (added id body committed proofSet hash, .ok .added) := rfl
  have hlook (history : History) : (Operation.observe keeper.locks id false).Yields
      ⟨⟨{ rows := [Row.ofPiece (submitted id body committed proofSet hash)] }, shelf⟩, false, history⟩ _ _ :=
    Yields.holding rfl (Operation.yields_observeLocked_settled .epoch
      (Table.run_find rfl hfind (toPiece_submitted id body committed proofSet hash)) rfl rfl hsettle
      (Or.inl rfl) (run_update_only ⟨rfl, rfl⟩))
  refine Runs.bind_yields (runs_table (Prod.ext (Table.withStatus_eq_ok.mpr ⟨rfl, hlisted⟩)
    (Table.run_query trivial))) rfl ?_
  obtain ⟨later, hlook⟩ := hlook _
  exact ⟨later, Call.Runs.bind (Call.Runs.bind hlook (.done _ _)) (.done _ _)⟩

end Run

/-- Whatever a table holds, whatever the ledger answers and whichever rows cannot be written: a round is what asking
by hand for the waiting pieces comes to, and fails only if they cannot be listed.  Whatever else goes on, it counts
every piece that it listed in one place. -/
theorem rounds_fold_monitor :
    (∀ (manager : Manager) (around : Surroundings) (start : Moment),
      ((∃ pieces, around.listing start = .ok pieces) ↔
        around.outage = none ∧ ∀ row ∈ start.waiting, ∃ piece, row.toPiece = .ok piece) ∧
      (∀ fault, around.listing start = .error fault →
        manager.reconcile.amid around start = (.error fault, start)) ∧
      ∀ pieces, around.listing start = .ok pieces → manager.Folds around start pieces) ∧
    ∀ s, Run.Reachable s → ∀ ticket job outcome, ⟨ticket, job, .ended .reconcile outcome⟩ ∈ s.log →
      ∃ answer before after, Run.Reachable before ∧
        before.Enters ⟨ticket, job, .answered (.table (.withStatus .pending)) answer⟩ after ∧ Run.Reaches after s ∧
        before.log.of ticket = [.asked (.table (.withStatus .pending)), .started] ∧
        (∀ report, outcome = .ok report → report.IsBalanced ∧
          report.examined = (before.store.table.rows.filter (·.At .pending)).length) ∧
        ∀ fault, outcome = .error fault → answer = .error fault := by
  refine ⟨fun manager around start ↦ ⟨listed_iff, fun fault ↦ manager.reconcile_of_unlisted,
    fun pieces ↦ manager.folds_of_listing⟩, ?_⟩
  intro s hs ticket job outcome hended
  obtain ⟨answer, before, after, hbefore, henters, hafter, hearlier, hanswer, haccounts⟩ := hs.round_accounts hended
  refine ⟨answer, before, after, hbefore, henters, hafter, hearlier, ?_, ?_⟩
  · rintro report rfl
    obtain ⟨pieces, hpieces, hexamined, hbalanced⟩ := haccounts
    have hread := (Table.withStatus_eq_ok.mp (hanswer.symm.trans hpieces)).2
    exact ⟨hbalanced, hexamined.trans hread.length_eq.symm⟩
  · rintro fault rfl
    exact haccounts

/-- A piece waits, and the ledger has its transaction: alone, a round adds the piece as asking by hand does, and
there is a run in which a round adds it. -/
theorem round_over_one_piece :
    ∃ (around : Surroundings) (start : Moment) (piece : Piece), start.waiting = [.ofPiece piece] ∧
      around.listing start = .ok [piece] ∧ Run.keeper.Folds around start [piece] ∧
      ∃ s ticket job, Run.Reachable s ∧
        ⟨ticket, job, .ended .reconcile (.ok { examined := 1, added := 1 })⟩ ∈ s.log ∧
        ∃ answer before after, Run.Reachable before ∧
          before.Enters ⟨ticket, job, .answered (.table (.withStatus .pending)) answer⟩ after ∧ Run.Reaches after s ∧
          (before.store.table.rows.filter (·.At .pending)).length = 1 := by
  let around : Surroundings :=
    { ledger := fun _ _ hash ↦ .ok (some (.confirmed hash true 1)), clock := fun _ ↦ .epoch, broken := fun _ ↦ none
      outage := none, other := Request.silence }
  let piece := Run.submitted "1" [1] ⟨pad [1], .ofTree (pad [1])⟩ 7 "0x1"
  have hlisting : around.listing { rows := [.ofPiece piece] } = .ok [piece] :=
    listing_eq_ok.mpr ⟨rfl, .cons (Run.toPiece_submitted _ _ _ _ _) .nil⟩
  obtain ⟨s, hs, htable⟩ := Run.exists_submitted "1" .single rfl 7 "0x1"
  have hround : Run.keeper.reconcile.Yields ⟨s.store, false, [.started]⟩ _ _ :=
    Run.yields_reconcile_added rfl htable
  obtain ⟨history, hround⟩ := hround
  obtain ⟨s', -, hs', -, -, hended, -⟩ := hs.perform ⟨Run.keeper, .reconcile⟩ hround rfl
  obtain ⟨job, hentry⟩ := Log.mem_of.mp (hended ▸ List.mem_cons_self)
  obtain ⟨answer, before, after, hbefore, henters, hafter, -, hreport, -⟩ :=
    rounds_fold_monitor.2 s' hs'.reachable _ job _ hentry
  exact ⟨around, { rows := [.ofPiece piece] }, piece, rfl, hlisting,
    (rounds_fold_monitor.1 Run.keeper around _).2.2 _ hlisting, s', _, job, hs'.reachable, hentry, answer, before,
    after, hbefore, henters, hafter, (hreport _ rfl).2.symm⟩

end PieceKeeper
