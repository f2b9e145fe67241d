import PieceKeeper.Proofs.Operation.Answers
import PieceKeeper.Proofs.Run.Verdicts
import PieceKeeper.Proofs.Service.Uploads

/-!
# What is handed out is what is found next

In a run that is alone, the piece that a task hands out is the one that is found under its id from then
on, as long as nothing else happens.
-/

namespace PieceKeeper

namespace Table

variable {table : Table} {piece : Piece}

/-- A piece that can be read is found under its id. -/
theorem Lawful.run_find (h : table.Lawful) (hreach : table.outage = none)
    (hrow : .ofPiece piece ∈ table.rows) (hread : piece.IsReadable) :
    table.run (.find piece.id) = (.ok (some piece), table) :=
  Table.run_find hreach (find?_of_nodup h.ids hrow) hread.toPiece

/-- Rows do not get fewer. -/
theorem length_run (table : Table) (command : Command) :
    table.rows.length ≤ (table.run command).2.rows.length := by
  have heffect := table.run_effect command
  generalize (table.run command).1 = answer at heffect
  generalize (table.run command).2.rows = rows at heffect
  cases heffect with
  | none _ => exact Nat.le_refl _
  | insert _ =>
    rw [List.length_append]
    exact Nat.le_add_right _ _
  | update _ | claim _ => rw [List.length_map]

/-- An insertion adds a row, unless it is lost in silence. -/
theorem length_insert (hok : (table.run (.insert piece)).1 = .ok ()) (hkeeps : ¬ table.IsLossy) :
    table.rows.length < (table.run (.insert piece)).2.rows.length := by
  obtain ⟨-, hrun⟩ := reached_of_ok hok
  change _ = table.insert piece at hrun
  rw [hrun] at hok ⊢
  rcases table.insert_cases piece with ⟨hlossy, -⟩ | ⟨-, -, heq⟩
  · exact absurd (hlossy hok) hkeeps
  · rw [heq, Table.add, List.length_append]
    exact Nat.lt_add_one _

end Table

namespace Run

variable {s s' : State} {job : Job} {piece : Piece}

/-! ## Insertions that are not lost -/

theorem Step.length_rows (h : Step s s') : s.store.table.rows.length ≤ s'.store.table.rows.length := by
  cases h with
  | answer _ _ hreacts | settle _ hreacts =>
    cases hreacts with
    | table command => exact s.store.table.length_run command
    | shelf _ | shelfFails _ | outside _ _ _ => exact Nat.le_refl _
  | weather _ _ | start _ | ask _ | finish _ | drop _ | orphan _ | crash => exact Nat.le_refl _

/-- The answer to an insertion comes with a new row. -/
theorem Step.length_insert (h : Step s s') (hkeeps : ¬ s.store.table.IsLossy) {ticket : Nat}
    (hmem : .answered (.table (.insert piece)) (.ok ()) ∈ s'.log.of ticket) :
    .answered (.table (.insert piece)) (.ok ()) ∈ s.log.of ticket ∨
      s.store.table.rows.length < s'.store.table.rows.length := by
  cases h with
  | answer _ _ hreacts | settle _ hreacts =>
    rcases Log.mem_of_cons hmem with ⟨-, heq⟩ | hold
    · cases heq
      generalize hanswer : (.ok () : Outcome Unit) = answer at hreacts
      cases hreacts with
      | table command => exact Or.inr (Table.length_insert hanswer.symm hkeeps)
      | outside _ _ houtside => exact houtside.elim
    · exact Or.inl hold
  | start _ | ask _ | finish _ =>
    rcases Log.mem_of_cons hmem with ⟨-, heq⟩ | hold
    · cases heq
    · exact Or.inl hold
  | weather _ _ | drop _ | orphan _ | crash => exact Or.inl hmem

/-- From a state on, at most the next call does anything, and no insertion is lost in silence. -/
def RunsLossless (s s' : State) : Prop :=
  Relation.ReflTransGen (fun t t' ↦ StepOf s.next t t' ∧ ¬ t.store.table.IsLossy) s s'

theorem RunsLossless.runsAlone (h : RunsLossless s s') : RunsAlone s s' := by
  have hsteps : (fun t t' ↦ StepOf s.next t t' ∧ ¬ t.store.table.IsLossy) ≤ StepOf s.next :=
    fun _ _ hstep ↦ hstep.1
  exact Relation.ReflTransGen.mono hsteps s s' h

/-- A call that leaves the weather as it is does not begin to lose insertions. -/
theorem StepBy.runsLossless (h : Relation.ReflTransGen (StepBy s.next) s s')
    (hkeeps : ¬ s.store.table.IsLossy) : RunsLossless s s' := by
  have hcourse : RunsLossless s s' ∧ s'.store.table.disturbance = s.store.table.disturbance := by
    induction h with
    | refl => exact ⟨.refl, rfl⟩
    | tail _ hstep ih =>
      obtain ⟨hruns, hsame⟩ := ih
      refine ⟨hruns.tail ⟨⟨hstep.step, hstep.others⟩, fun hlossy ↦ hkeeps ?_⟩,
        hstep.disturbance.trans hsame⟩
      rwa [Table.IsLossy, hsame] at hlossy
  exact hcourse.1

/-- The answer to an insertion comes with a new row in the course of a run. -/
theorem RunsLossless.length_insert (hs : Reachable s) (h : RunsLossless s s')
    (hmem : .answered (.table (.insert piece)) (.ok ()) ∈ s'.log.of s.next) :
    s.store.table.rows.length < s'.store.table.rows.length := by
  have hcourse : s.store.table.rows.length ≤ s'.store.table.rows.length ∧
      (.answered (.table (.insert piece)) (.ok ()) ∈ s'.log.of s.next →
        s.store.table.rows.length < s'.store.table.rows.length) := by
    clear hmem
    induction h with
    | refl =>
      refine ⟨Nat.le_refl _, fun hmem ↦ ?_⟩
      rw [(hs.lawful.fresh s.next (Nat.le_refl _)).2] at hmem
      cases hmem
    | tail _ hstep ih =>
      obtain ⟨⟨hstep, -⟩, hkeeps⟩ := hstep
      refine ⟨ih.1.trans hstep.length_rows, fun hmem ↦ ?_⟩
      rcases hstep.length_insert hkeeps hmem with hold | hadds
      · exact Nat.lt_of_lt_of_le (ih.2 hold) hstep.length_rows
      · exact Nat.lt_of_le_of_lt ih.1 hadds
  exact hcourse.2 hmem

/-! ## What is found next -/

/-- A piece is what is found next under its id, unless the table is out of reach. -/
structure State.Returns (s : State) (piece : Piece) : Prop where
  find : ∀ table : Table, table.rows = s.store.table.rows → table.outage = none →
    table.run (.find piece.id) = (.ok (some piece), table)
  get : ∀ (s' : State) (manager : Manager) (answer : Outcome Piece), RunsAlone s s' →
    ⟨s.next, ⟨manager, .get piece.id⟩, .ended (.get piece.id) answer⟩ ∈ s'.log →
    answer = .ok piece ∨ ∃ detail, answer = .error { cause := .database detail }
  got : s.store.table.outage = none → ∀ manager : Manager, ∃ s', RunsAlone s s' ∧
    ⟨s.next, ⟨manager, .get piece.id⟩, .ended (.get piece.id) (.ok piece)⟩ ∈ s'.log

/-- What a question for an id may be answered with. -/
def AnswersFind (piece : Piece) : (task : Task) → Outcome task.Answer → Prop
  | .get id, answer =>
    id = piece.id → answer = .ok piece ∨ ∃ detail, answer = .error { cause := .database detail }
  | _, _ => True

/-- A table finds the piece in a row, unless it is out of reach. -/
theorem find_of_mem {h h' : Holdings} (hs : h.Lawful) (hrow : .ofPiece piece ∈ h.rows) (hread : piece.IsReadable)
    {answer : Outcome (Option Piece)} (hgives : h.Gives job (.table (.find piece.id)) answer h') :
    answer = .ok (some piece) ∨ ∃ detail, answer = .error { cause := .database detail } := by
  obtain ⟨table, hlawful, hrows, rfl, -⟩ := hgives.run_table hs
  cases hreach : table.outage with
  | none => exact Or.inl (congrArg Prod.fst (hlawful.run_find hreach (hrows ▸ hrow) hread))
  | some detail =>
    refine Or.inr ⟨detail, ?_⟩
    rw [Table.run, Table.reach, hreach]
    rfl

theorem meets_answersFind {h : Holdings} (hs : h.Lawful) (hrow : .ofPiece piece ∈ h.rows)
    (hread : piece.IsReadable) (job : Job) :
    job.call.Meets job (fun _ outcome ↦ AnswersFind piece job.task outcome) h := by
  obtain ⟨manager, task⟩ := job
  cases task with
  | get id =>
    by_cases hid : id = piece.id
    · subst hid
      have hfind : (Operation.find piece.id).Meets ⟨manager, .get piece.id⟩ (fun _ found ↦ found = piece)
          (fun _ fault ↦ ∃ detail, fault = { cause := .database detail }) h := by
        refine Attempt.Meets.bind (Attempt.meets_table (fun found h' hgives ↦ ?_) fun fault h' hgives ↦ ?_)
        · rcases find_of_mem hs hrow hread hgives with heq | ⟨detail, heq⟩
          · cases heq
            exact Attempt.meets_pure rfl
          · cases heq
        · rcases find_of_mem hs hrow hread hgives with heq | ⟨detail, heq⟩
          · cases heq
          · exact ⟨detail, Except.error.inj heq⟩
      exact Attempt.Meets.close hfind (fun _ _ heq _ ↦ Or.inl (congrArg Except.ok heq))
        fun _ _ hend _ ↦ Or.inr (hend.imp fun _ heq ↦ congrArg Except.error heq)
    · exact Call.meets_of_forall (fun _ _ heq ↦ absurd heq hid) _
  | _ => exact Call.meets_of_forall (fun _ _ ↦ trivial) _

/-- A piece that can be read from its row is found next. -/
theorem Reachable.returns (hs : Reachable s) (hrow : .ofPiece piece ∈ s.store.table.rows)
    (hread : piece.IsReadable) : s.Returns piece where
  find table hrows hreach := (hs.table_lawful.congr hrows).run_find hreach (hrows ▸ hrow) hread
  get s' manager answer halone hended := by
    have hlawful : Holdings.Lawful { s.holdings s.next with history := [.started] } :=
      hs.table_lawful.congr rfl
    obtain ⟨last, hanswer, -⟩ := halone.ended hs (meets_answersFind hlawful hrow hread) hended
    exact hanswer rfl
  got hreach manager := by
    -- whoever holds a lock is given up first
    have hcrash : Step s { s with flights := fun _ ↦ none, locks := {} } := .crash
    have hrests : State.Rests { s with flights := fun _ ↦ none, locks := {} } :=
      ⟨hs.tail hcrash, fun _ h ↦ nomatch h⟩
    obtain ⟨s', -, halone, -, -, -, hended⟩ := hrests.perform_alone ⟨manager, .get piece.id⟩
      (Operation.runs_find (hs.table_lawful.run_find hreach hrow hread)) rfl
    exact ⟨s', Relation.ReflTransGen.head ⟨hcrash, fun _ _ ↦ rfl⟩ halone, hended⟩

/-- What a task hands out is what is found next, if no insertion of a preparation is lost. -/
theorem RunsAlone.returns (hs : Reachable s) (h : RunsAlone s s')
    (hkeeps : ∀ source, job.task = .prepare source → RunsLossless s s') {outcome : Outcome job.task.Answer}
    (hended : ⟨s.next, job, .ended job.task outcome⟩ ∈ s'.log) (hpiece : job.task.handed? outcome = some piece)
    (hclock : ∀ now, .answered .now now ∈ s'.log.of s.next → now.IsDated) : s'.Returns piece := by
  have hlawful : Holdings.Lawful (s.holdings s.next) := hs.table_lawful.congr rfl
  have hbegun : (s.holdings s.next).Same { s.holdings s.next with history := [.started] } :=
    ⟨rfl, fun _ ↦ rfl, rfl, rfl⟩
  obtain ⟨last, hshows, hsame, hhistory⟩ := h.ended_history hs
    (fun job ↦ job.meets_shows hlawful (hs.sound s.next) hbegun) hended
  have hsub : last.history ⊆ s'.log.of s.next := hhistory ▸ List.subset_cons_self _ _
  rcases hshows piece hpiece with ⟨hrow, hread⟩ | ⟨⟨source, hprepares⟩, hinserted, hrows⟩
  · have hreachable : Reachable s' := Relation.ReflTransGen.trans hs h.reaches
    have hrows : s'.store.table.rows = last.rows := hsame.rows
    exact hreachable.returns (hrows ▸ hrow) (hread fun now hnow ↦ (hclock now (hsub hnow)).isReadable)
  · -- a row that is not there was never inserted
    have hadds := (hkeeps source hprepares).length_insert hs (hsub hinserted)
    have hrows' : s'.store.table.rows = s.store.table.rows := hsame.rows.trans hrows
    rw [hrows'] at hadds
    exact absurd hadds (Nat.lt_irrefl _)

/-- What is written to the table is read back from it, and so is every piece that a call hands out.
An insertion has succeeded only where the table did not lose it in silence; the other writes say
themselves whether they took place. -/
theorem rows_round_trip :
    (∀ table : Table, table.Written → table.RoundTrips) ∧
    ∀ (s s' : State) (job : Job) (outcome : Outcome job.task.Answer) (piece : Piece), Reachable s →
      RunsAlone s s' → (∀ source, job.task = .prepare source → RunsLossless s s') →
      ⟨s.next, job, .ended job.task outcome⟩ ∈ s'.log → job.task.handed? outcome = some piece →
      (∀ now, .answered .now now ∈ s'.log.of s.next → now.IsDated) → s'.Returns piece :=
  ⟨fun _ h ↦ h.roundTrips,
    fun _ _ _ _ _ hs h hkeeps hended hpiece hclock ↦ h.returns hs hkeeps hended hpiece hclock⟩

/-- A piece of more bytes than a signed number can say is inserted, and handed out. -/
theorem large_piece_round_trips :
    ∃ (piece : Piece) (s : State), piece.rawSize = some 18446744073709551615 ∧ piece.IsDated ∧
      ({} : Table).Written ∧ ¬ ({} : Table).IsLossy ∧ (({} : Table).run (.insert piece)).1 = .ok () ∧
      (∃ row : Row, row.HasBits piece ∧ (({} : Table).run (.insert piece)).2.rows = [row] ∧
        (({} : Table).run (.insert piece)).2.Returns [] piece) ∧
      RunsLossless {} s ∧
      (∃ source, ⟨0, ⟨keeper, .prepare source⟩, .ended (.prepare source) (.ok piece)⟩ ∈ s.log) ∧
      (∀ now, .answered .now now ∈ s.log.of 0 → now.IsDated) ∧ s.Returns piece := by
  have hdated : Instant.epoch.IsDated := ⟨by decide, by decide⟩
  have hpiece : (Piece.prepare "a" none (some 18446744073709551615) .epoch).IsDated :=
    ⟨hdated, hdated, fun _ h ↦ nomatch h⟩
  have hkeeps : ¬ ({} : Table).IsLossy := nofun
  have hinsert : ({} : Table).run (.insert (.prepare "a" none (some 18446744073709551615) .epoch)) =
      (.ok (), _) := rfl
  obtain ⟨s, hsteps, -, -, -, hlog, hended⟩ := State.rests_initial.perform_alone
    ⟨keeper, .prepare (.declared (some 18446744073709551615))⟩
    (Operation.runs_prepare (by decide) hinsert) rfl
  have hlossless : RunsLossless {} s := StepBy.runsLossless hsteps hkeeps
  have hclock : ∀ now, .answered .now now ∈ s.log.of 0 → now.IsDated := by
    intro now hnow
    have hlog' : s.log.of 0 = _ := hlog
    rw [hlog'] at hnow
    simp [Scene.exchange] at hnow
    exact hnow ▸ hdated
  obtain ⟨book, row, hbook, hbits, hrows, hreturns⟩ :=
    (rows_round_trip.1 {} .fresh).inserted _ hpiece hkeeps (congrArg Prod.fst hinsert)
  obtain rfl : book = [] := List.map_eq_nil_iff.mp hbook.symm
  exact ⟨_, s, rfl, hpiece, .fresh, hkeeps, congrArg Prod.fst hinsert, ⟨row, hbits, hrows, hreturns⟩,
    hlossless, ⟨_, hended⟩, hclock,
    rows_round_trip.2 {} s _ _ _ .refl hlossless.runsAlone (fun _ _ ↦ hlossless) hended rfl hclock⟩

end Run

end PieceKeeper
