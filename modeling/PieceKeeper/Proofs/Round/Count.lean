import PieceKeeper.Proofs.Run.Alone
import PieceKeeper.Proofs.Run.Course

/-!
# What a round counts

A round counts every piece that was listed to it once, whatever the piece has become in the meantime and
whatever goes wrong with it.  It fails only if nothing is listed to it, and it has its list from a single answer of
the table, which it asks before anything else.
-/

namespace PieceKeeper

variable {α : Type} {rule : History → Request → Prop} {history : History}

namespace Report

/-- Every piece is counted in one place. -/
def IsBalanced (report : Report) : Prop :=
  report.examined = report.added + report.failed + report.stillPending + report.skipped + report.errors

variable {report : Report}

theorem examined_tally (report : Report) (result : Outcome Finding) :
    (report.tally result).examined = report.examined + 1 := by
  cases result with
  | error fault => rfl
  | ok finding => cases finding <;> rfl

theorem IsBalanced.tally (h : report.IsBalanced) (result : Outcome Finding) : (report.tally result).IsBalanced := by
  rw [IsBalanced] at h
  rw [IsBalanced, examined_tally, h]
  cases result with
  | error fault => simp only [Report.tally]; omega
  | ok finding => cases finding <;> simp only [Report.tally, count] <;> omega

/-- Only what was added or failed is counted as such. -/
theorem resolved_tally {result : Outcome Finding} (h : result ≠ .ok .added ∧ result ≠ .ok .failed) :
    (report.tally result).resolved = report.resolved := by
  cases result with
  | error fault => rfl
  | ok finding =>
    cases finding with
    | added => exact absurd rfl h.1
    | failed => exact absurd rfl h.2
    | notIndexed | stillPending | skipped => rfl

section

variable {outcomes : List (Outcome (Piece × Finding))}

theorem examined_foldl (report : Report) :
    (outcomes.foldl (fun report outcome ↦ report.tally (outcome.map (·.2))) report).examined =
      report.examined + outcomes.length := by
  induction outcomes generalizing report with
  | nil => rfl
  | cons outcome rest ih =>
    rw [List.foldl_cons, ih, examined_tally, List.length_cons]
    omega

theorem resolved_foldl
    (h : ∀ outcome ∈ outcomes, outcome.map (·.2) ≠ .ok .added ∧ outcome.map (·.2) ≠ .ok .failed) (report : Report) :
    (outcomes.foldl (fun report outcome ↦ report.tally (outcome.map (·.2))) report).resolved = report.resolved := by
  induction outcomes generalizing report with
  | nil => rfl
  | cons outcome rest ih =>
    obtain ⟨hfirst, hrest⟩ := List.forall_mem_cons.mp h
    rw [List.foldl_cons, ih hrest, resolved_tally hfirst]

end

end Report

/-! ## Calls that remember -/

/-- What happened to a call is added to, and nothing of it is changed. -/
theorem Call.Follows.extends {post : History → α → Prop} {call : Call α} (h : call.Follows rule post history) :
    call.Follows rule (fun later answer ↦ history <:+ later ∧ post later answer) history := by
  induction call generalizing history with
  | done answer => exact ⟨List.suffix_refl _, h⟩
  | ask request next ih =>
    refine ⟨h.1, fun answer ↦ (ih answer (h.2 answer)).mono fun later _ hlater ↦ ⟨?_, hlater.2⟩⟩
    have hnew : history <:+ history.exchange request answer := ⟨[_, _], rfl⟩
    exact hnew.trans hlater.1

/-- Every call follows the rule that allows everything. -/
theorem Call.follows_any (call : Call α) : call.Follows (fun _ _ ↦ True) (fun _ _ ↦ True) history := by
  induction call generalizing history with
  | done answer => trivial
  | ask request next ih => exact ⟨trivial, fun answer ↦ ih answer⟩

namespace Operation

open Attempt

/-- The history of a round that has its list. -/
def listed (answer : Outcome (List Piece)) : History :=
  [.answered (.table (.withStatus .pending)) answer, .asked (.table (.withStatus .pending)), .started]

/-- What the outcome of a round says of the answer that it had its list from. -/
def Accounts (answer : Outcome (List Piece)) : Outcome Report → Prop
  | .ok report => ∃ pieces, answer = .ok pieces ∧ report.examined = pieces.length ∧ report.IsBalanced
  | .error fault => answer = .error fault

theorem counts_observeAll {locks : Nat} {report : Report} {pieces : List Piece} (h : report.IsBalanced) :
    (observeAll locks report pieces).Follows (fun _ _ ↦ True)
      (fun _ final ↦ final.examined = report.examined + pieces.length ∧ final.IsBalanced) history := by
  induction pieces generalizing report history with
  | nil => exact ⟨rfl, h⟩
  | cons piece rest ih =>
    refine Call.Follows.bind (Call.Follows.mono (Call.follows_any _) fun later result _ ↦ ?_)
    refine Call.Follows.mono (ih (h.tally (result.map (·.2)))) fun _ final hfinal ↦ ⟨?_, hfinal.2⟩
    rw [hfinal.1, Report.examined_tally, List.length_cons]
    omega

/-- A round asks for its list first, and its outcome accounts for the answer. -/
theorem accounts_reconcile {locks : Nat} :
    Call.Follows (fun _ _ ↦ True) (fun later outcome ↦ ∃ answer, listed answer <:+ later ∧ Accounts answer outcome)
      (reconcile locks).run [.started] := by
  refine Attempt.Follows.ends (Follows.bind (follows_table trivial (fun pieces ↦ follows_lift ?_) fun fault ↦ ?_))
  · refine Call.Follows.mono (Call.Follows.extends (counts_observeAll rfl)) ?_
    rintro later report ⟨hsuffix, hexamined, hbalanced⟩
    exact ⟨.ok pieces, hsuffix, pieces, rfl, hexamined.trans (Nat.zero_add _), hbalanced⟩
  · exact ⟨.error fault, List.suffix_refl _, rfl⟩

end Operation

namespace Run

variable {s s' : State} {ticket : Nat} {job : Job}

/-- A step logs that something happened to a call. -/
structure State.Enters (before : State) (entry : Entry) (after : State) : Prop where
  step : Step before after
  log : after.log = entry :: before.log

theorem Step.enters (h : Step s s') : s'.log = s.log ∨ ∃ entry, s.Enters entry s' := by
  cases h with
  | start job => exact Or.inr ⟨_, .start job, rfl⟩
  | ask hflight => exact Or.inr ⟨_, .ask hflight, rfl⟩
  | answer hflight hgrants hreacts => exact Or.inr ⟨_, .answer hflight hgrants hreacts, rfl⟩
  | finish hflight => exact Or.inr ⟨_, .finish hflight, rfl⟩
  | settle hflight hreacts => exact Or.inr ⟨_, .settle hflight hreacts, rfl⟩
  | drop _ | orphan _ | crash | weather _ _ => exact Or.inl rfl

theorem Reaches.log_subset (h : Reaches s s') : s.log ⊆ s'.log := by
  induction h with
  | refl => exact List.Subset.refl _
  | tail _ hstep ih =>
    rcases hstep.enters with hlog | ⟨entry, henters⟩
    · exact hlog ▸ ih
    · exact henters.log ▸ List.subset_cons_of_subset _ ih

/-- A step on the way to a state has logged an event of a call, with what had happened to the call before. -/
def State.Passed (s : State) (ticket : Nat) (event : Event) (earlier : History) : Prop :=
  ∃ job before after, Reachable before ∧ before.Enters ⟨ticket, job, event⟩ after ∧ Reaches after s ∧
    before.log.of ticket = earlier

theorem State.Passed.step {event : Event} {earlier : History} (h : s.Passed ticket event earlier)
    (hstep : Step s s') : s'.Passed ticket event earlier := by
  obtain ⟨job, before, after, hbefore, henters, hafter, hearlier⟩ := h
  exact ⟨job, before, after, hbefore, henters, hafter.tail hstep, hearlier⟩

/-- Whatever happened to a call, a step on the way has logged it. -/
theorem Reachable.passed (h : Reachable s) {event : Event} {earlier : History}
    (hhistory : event :: earlier <:+ s.log.of ticket) : s.Passed ticket event earlier := by
  induction h with
  | refl => cases List.suffix_nil.mp hhistory
  | @tail t t' hreaches hstep ih =>
    rcases hstep.enters with hlog | ⟨⟨other, job, made⟩, henters⟩
    · exact (ih (hlog ▸ hhistory)).step hstep
    rw [henters.log] at hhistory
    by_cases hother : other = ticket
    · subst hother
      rw [Log.of_cons_self] at hhistory
      rcases List.suffix_cons_iff.mp hhistory with hnew | hearlier
      · obtain ⟨rfl, rfl⟩ := List.cons.inj hnew
        exact ⟨job, t, t', hreaches, henters, .refl, rfl⟩
      · exact (ih hearlier).step hstep
    · rw [Log.of_cons_of_ne (by exact hother)] at hhistory
      exact (ih hhistory).step hstep

/-- A call that ended has met what is proved of it. -/
theorem Reachable.ended_meets (h : Reachable s) {outcome : Outcome job.task.Answer}
    (hended : ⟨ticket, job, .ended job.task outcome⟩ ∈ s.log) {rule : History → Request → Prop}
    {post : History → Outcome job.task.Answer → Prop} (hfollows : job.call.Follows rule post [.started]) :
    ∃ history, history <:+ s.log.of ticket ∧ post history outcome := by
  obtain ⟨later, earlier, hhistory⟩ := List.append_of_mem (Log.mem_of.mpr ⟨job, hended⟩)
  obtain ⟨other, before, after, hbefore, ⟨hstep, hlog⟩, hafter, -⟩ := h.passed ⟨later, hhistory.symm⟩
  have hmade : ⟨ticket, other, .ended job.task outcome⟩ ∈ after.log := hlog ▸ List.mem_cons_self
  obtain rfl : other = job := h.chronicle.job_unique (Reaches.log_subset hafter hmade) hended rfl
  have hearlier := (hstep.of_suffix ticket).trans (Reaches.of_suffix hafter ticket)
  cases hstep with
  | start _ | ask _ | answer _ _ _ | settle _ _ => cases (List.cons.inj hlog).1
  | drop _ | orphan _ | crash | weather _ _ => exact absurd hlog.symm (List.cons_ne_self _ _)
  | finish hflight =>
    cases (List.cons.inj hlog).1
    exact ⟨_, hearlier, (hbefore.placed _ _ hflight).follows hfollows⟩

/-- An answer was given by the store as it was. -/
theorem State.Enters.reacts {before after : State} {request : Request} {answer : request.Answer}
    (h : before.Enters ⟨ticket, job, .answered request answer⟩ after) :
    before.store.Reacts request answer after.store := by
  obtain ⟨hstep, hlog⟩ := h
  cases hstep with
  | start _ | ask _ | finish _ => cases (List.cons.inj hlog).1
  | drop _ | orphan _ | crash | weather _ _ => exact absurd hlog.symm (List.cons_ne_self _ _)
  | answer _ _ hreacts | settle _ hreacts =>
    cases (List.cons.inj hlog).1
    exact hreacts

/-- A round that ended accounts for what the table answered when it listed the pieces. -/
theorem Reachable.round_accounts (h : Reachable s) {outcome : Outcome Report}
    (hended : ⟨ticket, job, .ended .reconcile outcome⟩ ∈ s.log) :
    ∃ answer before after, Reachable before ∧
      before.Enters ⟨ticket, job, .answered (.table (.withStatus .pending)) answer⟩ after ∧ Reaches after s ∧
      before.log.of ticket = [.asked (.table (.withStatus .pending)), .started] ∧
      answer = (before.store.table.run (.withStatus .pending)).1 ∧ Operation.Accounts answer outcome := by
  obtain ⟨-, -, htask, -⟩ := h.chronicle.ended hended
  obtain ⟨manager, task⟩ := job
  cases htask
  obtain ⟨history, hhistory, answer, hlisted, haccounts⟩ := h.ended_meets hended Operation.accounts_reconcile
  obtain ⟨other, before, after, hbefore, henters, hafter, hearlier⟩ := h.passed (hlisted.trans hhistory)
  have hmade := Reaches.log_subset hafter (henters.log ▸ List.mem_cons_self)
  obtain rfl : other = ⟨manager, .reconcile⟩ := h.chronicle.job_unique hmade hended rfl
  exact ⟨answer, before, after, hbefore, henters, hafter, hearlier, henters.reacts.answer_eq, haccounts⟩

end Run

end PieceKeeper
