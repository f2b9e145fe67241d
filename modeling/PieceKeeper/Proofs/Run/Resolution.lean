import Mathlib.Algebra.BigOperators.Group.Finset.Basic
import PieceKeeper.Proofs.Run.Versions

/-!
# Pieces are settled once

A pending piece is settled by whoever first writes over its pending row, and that is the one who
reports it.  So what the calls report together is what has come to an end in the table: nothing is
reported twice, nothing without a change of the row, and nothing is passed over by a call that
comes to its end.
-/

namespace PieceKeeper

/-! ## Reports in the log -/

namespace Event

/-- How many pieces an event reports as settled with a status. -/
def reported (status : Status) : Event → Nat
  | .ended task outcome => task.reported outcome status
  | _ => 0

variable {event : Event} {status : Status} {id : String}

theorem reported_of_not_isEnd (h : ¬ event.IsEnd) : event.reported status = 0 := by
  cases event with
  | ended task outcome => exact absurd trivial h
  | started | asked _ | answered _ _ => rfl

/-- Only the success of an update of a pending row settles a piece. -/
theorem resolved?_eq_some : event.resolved? status = some id ↔
    ∃ piece, event = .answered (.table (.update piece .pending)) (.ok true) ∧
      piece.status = status ∧ piece.id = id := by
  unfold resolved?
  split
  · rename_i piece
    constructor
    · intro h
      split at h
      · rename_i hstatus
        exact ⟨piece, rfl, hstatus, Option.some.inj h⟩
      · cases h
    · rintro ⟨other, heq, rfl, rfl⟩
      cases heq
      exact if_pos rfl
  · rename_i hnot
    simp only [reduceCtorEq, false_iff, not_exists, not_and]
    exact fun piece heq ↦ absurd heq (hnot piece)

end Event

/-- How many pieces a call reports as settled with a status. -/
def History.reported (history : History) (status : Status) : Nat :=
  (history.map (Event.reported status)).sum

/-- A call that has not ended has reported nothing. -/
theorem History.reported_eq_zero {history : History} (h : ∀ event ∈ history, ¬ event.IsEnd)
    (status : Status) : history.reported status = 0 := by
  refine List.sum_eq_zero fun count hcount ↦ ?_
  obtain ⟨event, hevent, rfl⟩ := List.mem_map.mp hcount
  exact Event.reported_of_not_isEnd (h event hevent)

namespace Log

/-- The pieces that were settled with a status, the latest first. -/
def resolved (log : Log) (status : Status) : List String :=
  log.filterMap (·.event.resolved? status)

/-- How many pieces all calls together report as settled with a status. -/
def reported (log : Log) (status : Status) : Nat := (log.map (·.event.reported status)).sum

variable {log : Log} {status : Status} {id : String} {ticket : Nat}

theorem mem_resolved :
    id ∈ log.resolved status ↔ ∃ entry ∈ log, entry.event.resolved? status = some id :=
  List.mem_filterMap

theorem mem_resolved_of :
    id ∈ (log.of ticket).resolved status ↔
      ∃ entry ∈ log, entry.ticket = ticket ∧ entry.event.resolved? status = some id := by
  constructor
  · intro h
    obtain ⟨event, hevent, hid⟩ := List.mem_filterMap.mp h
    obtain ⟨job, hentry⟩ := mem_of.mp hevent
    exact ⟨_, hentry, rfl, hid⟩
  · rintro ⟨⟨_, job, event⟩, hentry, rfl, hid⟩
    exact List.mem_filterMap.mpr ⟨event, mem_of.mpr ⟨job, hentry⟩, hid⟩

/-- What is settled once is settled by one entry. -/
theorem eq_of_nodup_resolved (h : (log.resolved status).Nodup) {entry other : Entry}
    (hentry : entry ∈ log) (hother : other ∈ log) (hid : entry.event.resolved? status = some id)
    (hid' : other.event.resolved? status = some id) : entry = other := by
  have honce := List.nodup_iff_count_le_one.mp h id
  rw [resolved, List.count_filterMap] at honce
  exact eq_of_countP_le_one honce hentry hother (by simpa using hid) (by simpa using hid')

theorem resolved_cons (entry : Entry) (log : Log) (status : Status) :
    resolved (entry :: log) status =
      (entry.event.resolved? status).toList ++ log.resolved status := by
  rw [resolved, List.filterMap_cons]
  cases entry.event.resolved? status <;> rfl

/-! ## Call by call -/

/-- What is counted over a log is counted call by call. -/
theorem sum_eq_sum_calls (log : Log) (count : Event → Nat) {next : Nat}
    (h : ∀ entry ∈ log, entry.ticket < next) :
    (log.map fun entry ↦ count entry.event).sum =
      ∑ ticket ∈ Finset.range next, ((log.of ticket).map count).sum := by
  induction log with
  | nil => exact Finset.sum_const_zero.symm
  | cons entry log ih =>
    obtain ⟨hlt, hlog⟩ := List.forall_mem_cons.mp h
    have hof (ticket : Nat) : ((of (entry :: log) ticket).map count).sum =
        (if entry.ticket = ticket then count entry.event else 0) +
          ((of log ticket).map count).sum := by
      by_cases heq : entry.ticket = ticket
      · subst heq
        rw [if_pos rfl, of_cons_self, List.map_cons, List.sum_cons]
      · rw [if_neg heq, of_cons_of_ne heq, Nat.zero_add]
    rw [List.map_cons, List.sum_cons, ih hlog, Finset.sum_congr rfl fun ticket _ ↦ hof ticket,
      Finset.sum_add_distrib, Finset.sum_ite_eq, if_pos (Finset.mem_range.mpr hlt)]

theorem length_resolved_eq_sum_calls {next : Nat} (h : ∀ entry ∈ log, entry.ticket < next) :
    (log.resolved status).length =
      ∑ ticket ∈ Finset.range next, ((log.of ticket).resolved status).length := by
  have hlength {α : Type} (list : List α) (f : α → Option String) :
      (list.filterMap f).length = (list.map fun a ↦ (f a).toList.length).sum := by
    rw [List.filterMap_eq_flatMap_toList, List.length_flatMap]
  simp only [resolved, History.resolved, hlength]
  exact log.sum_eq_sum_calls (fun event ↦ (event.resolved? status).toList.length) h

end Log

namespace Chronicle

variable {c c' : Chronicle} {status : Status} {id : String} {ticket : Nat} {job : Job}

/-- Only a call that watches settles pieces. -/
theorem Reachable.watches_of_resolved (hc : c.Reachable)
    (hid : id ∈ (c.log.of ticket).resolved status) {event : Event}
    (hentry : ⟨ticket, job, event⟩ ∈ c.log) : job.task.Watches := by
  obtain ⟨⟨_, job', _⟩, hsettler, rfl, hsettles⟩ := Log.mem_resolved_of.mp hid
  obtain ⟨piece, rfl, -, -⟩ := Event.resolved?_eq_some.mp hsettles
  obtain ⟨history, -, hwrites⟩ := hc.allows (Or.inr ⟨_, hsettler⟩)
  obtain rfl := hc.job_unique hsettler hentry rfl
  cases hwrites with
  | settlement _ _ _ _ _ _ hwatches => exact hwatches

theorem Reachable.resolved_eq_nil (hc : c.Reachable) {event : Event}
    (hentry : ⟨ticket, job, event⟩ ∈ c.log) (hnot : ¬ job.task.Watches) :
    (c.log.of ticket).resolved status = [] :=
  List.eq_nil_iff_forall_not_mem.mpr fun _ hid ↦ hnot (hc.watches_of_resolved hid hentry)

/-- A call that ended has settled as much as its outcome says. -/
theorem Reachable.length_resolved (hc : c.Reachable) {task : Task} {outcome : Outcome task.Answer}
    (hended : ⟨ticket, job, .ended task outcome⟩ ∈ c.log) (status : Status) :
    ((c.log.of ticket).resolved status).length = task.reported outcome status := by
  obtain ⟨history, hlog, htask, hconcludes, -⟩ := hc.ended hended
  have hresolved : (c.log.of ticket).resolved status = History.resolved history status := by
    rw [hlog]
    rfl
  cases task with
  | monitor id => exact hresolved ▸ hconcludes.1 status
  | reconcile => exact hresolved ▸ hconcludes status
  | prepare _ | upload _ _ | uploadFromSource _ | submit _ _ | get _ | list _ | content _ =>
    rw [hc.resolved_eq_nil hended (htask ▸ id)]
    rfl

/-- A call that ended has reported what it settled. -/
theorem Reachable.reported_eq (hc : c.Reachable) {task : Task} {outcome : Outcome task.Answer}
    (hended : ⟨ticket, job, .ended task outcome⟩ ∈ c.log) (status : Status) :
    (c.log.of ticket).reported status = ((c.log.of ticket).resolved status).length := by
  obtain ⟨history, hlog, -, -, hongoing⟩ := hc.ended hended
  rw [hc.length_resolved hended status, hlog, History.reported, List.map_cons, List.sum_cons]
  exact congrArg (task.reported outcome status + ·) (History.reported_eq_zero hongoing status)

/-! ## The rows that are settled -/

/-- A step settles a piece: it takes the pending row of the piece to an end. -/
def Settles (c c' : Chronicle) (id : String) (status : Status) : Prop :=
  ∃ (i : Nat) (row row' : Row), c.rows[i]? = some row ∧ c'.rows[i]? = some row' ∧ row.id = .text id ∧
    row.At .pending ∧ row'.At status

/-- A row whose status stays is settled by nobody. -/
theorem not_at_of_status_eq {row row' : Row} (hpending : row.At .pending) (hstatus : status ≠ .pending)
    (hsame : row'.status = row.status) : ¬ row'.At status :=
  fun hsettled ↦ hstatus (hsettled.unique (hsame.trans hpending))

/-- Whoever settles a piece logs that. -/
theorem RowStep.resolved_of_settles (h : c.RowStep c') (hstatus : status ≠ .pending)
    (hsettles : c.Settles c' id status) :
    ∃ entry, c'.log = entry :: c.log ∧ entry.event.resolved? status = some id := by
  obtain ⟨i, row, row', hrow, hrow', hid, hpending, hsettled⟩ := hsettles
  cases h with
  | quiet _ hrows _ _ =>
    rw [hrows, hrow] at hrow'
    cases hrow'
    exact absurd hsettled (not_at_of_status_eq hpending hstatus rfl)
  | insert _ hrows _ _ =>
    rw [hrows, List.getElem?_append_left (List.getElem?_eq_some_iff.mp hrow).1, hrow] at hrow'
    cases hrow'
    exact absurd hsettled (not_at_of_status_eq hpending hstatus rfl)
  | @update writer job history piece expected _ _ _ hrows hlog =>
    rw [hrows, List.getElem?_map, hrow] at hrow'
    cases hrow'
    dsimp only at hsettled
    split at hsettled
    · rename_i his
      obtain rfl := hpending.unique his.2
      obtain rfl : piece.status = status := Row.at_ofPiece hsettled
      obtain rfl : id = piece.id := Cell.text.inj (hid.symm.trans his.1)
      exact ⟨_, hlog, Event.resolved?_eq_some.mpr ⟨piece, rfl, rfl, rfl⟩⟩
    · exact absurd hsettled (not_at_of_status_eq hpending hstatus rfl)
  | claim _ _ _ hrows _ =>
    rw [hrows, List.getElem?_map, hrow] at hrow'
    cases hrow'
    refine absurd hsettled (not_at_of_status_eq hpending hstatus ?_)
    dsimp only
    split <;> rfl

/-- A piece is settled when that is logged. -/
theorem RowStep.settles_of_resolved (h : c.RowStep c') {entry : Entry}
    (hentry : c'.log = entry :: c.log) (hid : entry.event.resolved? status = some id) :
    c.Settles c' id status := by
  obtain ⟨piece, hevent, rfl, rfl⟩ := Event.resolved?_eq_some.mp hid
  cases h with
  | quiet new _ hlog hquiet =>
    obtain rfl : new = [entry] := List.append_cancel_right (hlog.symm.trans hentry)
    have hentry := hquiet entry (List.mem_singleton_self entry)
    rw [hevent] at hentry
    exact absurd rfl hentry
  | insert _ _ hlog _ | claim _ _ _ _ hlog =>
    obtain ⟨rfl, -⟩ := List.cons.inj (hentry.symm.trans hlog)
    cases hevent
  | update _ _ hfound hrows hlog =>
    obtain ⟨rfl, -⟩ := List.cons.inj (hentry.symm.trans hlog)
    cases hevent
    obtain ⟨row, hrow, his⟩ := hfound
    obtain ⟨i, hi⟩ := List.getElem?_of_mem hrow
    refine ⟨i, row, row.takeOver (Row.ofPiece piece), hi, ?_, his.1, his.2, rfl⟩
    rw [hrows, List.getElem?_map, hi]
    exact congrArg some (if_pos his)

/-- The row of a piece that was settled has stayed as it was then. -/
theorem Reachable.row_of_resolved (hc : c.Reachable) (hfinal : status.isFinal = true)
    (hid : id ∈ c.log.resolved status) : ∃ row ∈ c.rows, row.id = .text id ∧ row.At status := by
  obtain ⟨entry, hentry, hresolved⟩ := Log.mem_resolved.mp hid
  obtain ⟨d, d', -, henters, hafter⟩ := hc.entered hentry
  obtain ⟨i, row, row', hrow, hrow', hrowId, -, hsettled⟩ :=
    henters.step.rows.settles_of_resolved henters.log hresolved
  obtain ⟨turned, hturned, hturns⟩ := henters.step.rows.getElem? hrow
  cases hrow'.symm.trans hturned
  obtain ⟨latest, _, hlatest, -, -, -, hsame⟩ := hafter.getElem? hrow' hsettled
  obtain rfl := hsame hfinal
  exact ⟨_, List.mem_of_getElem? hlatest, hturns.id_eq.trans hrowId, hsettled⟩

/-- No piece is settled twice. -/
theorem Reachable.nodup_resolved (hc : c.Reachable) (hfinal : status.isFinal = true) :
    (c.log.resolved status).Nodup := by
  induction hc with
  | refl => exact List.nodup_nil
  | tail hreaches hstep ih =>
    rcases hstep.enters with hlog | ⟨entry, henters⟩
    · exact hlog ▸ ih
    rw [henters.log, Log.resolved_cons]
    cases hresolved : entry.event.resolved? status with
    | none => exact ih
    | some id =>
      refine List.nodup_cons.mpr ⟨fun hold ↦ ?_, ih⟩
      -- The row of a settled piece is not pending any more.
      obtain ⟨i, row, _, hrow, -, hid, hpending, -⟩ :=
        hstep.rows.settles_of_resolved henters.log hresolved
      obtain ⟨settled, hsettled, hid', hat⟩ := Reachable.row_of_resolved hreaches hfinal hold
      obtain rfl := (Reachable.hasIds hreaches).row_unique (List.mem_of_getElem? hrow) hsettled
        (hid.trans hid'.symm)
      exact Status.ne_pending_of_isFinal hfinal (hat.unique hpending)

/-- A piece is settled with one status. -/
theorem Reachable.status_unique (hc : c.Reachable) {status' : Status} (hfinal : status.isFinal = true)
    (hfinal' : status'.isFinal = true) (hid : id ∈ c.log.resolved status)
    (hid' : id ∈ c.log.resolved status') : status = status' := by
  obtain ⟨row, hrow, hrowId, hat⟩ := hc.row_of_resolved hfinal hid
  obtain ⟨other, hother, hotherId, hat'⟩ := hc.row_of_resolved hfinal' hid'
  obtain rfl := hc.hasIds.row_unique hrow hother (hrowId.trans hotherId.symm)
  exact hat.unique hat'

/-- A piece is settled by one call, with one status. -/
theorem Reachable.settler_unique (hc : c.Reachable) {ticket' : Nat} {status' : Status}
    (hfinal : status.isFinal = true) (hfinal' : status'.isFinal = true)
    (hid : id ∈ (c.log.of ticket).resolved status)
    (hid' : id ∈ (c.log.of ticket').resolved status') : ticket = ticket' ∧ status = status' := by
  obtain ⟨entry, hentry, rfl, hsettles⟩ := Log.mem_resolved_of.mp hid
  obtain ⟨other, hother, rfl, hsettles'⟩ := Log.mem_resolved_of.mp hid'
  obtain rfl := hc.status_unique hfinal hfinal' (Log.mem_resolved.mpr ⟨entry, hentry, hsettles⟩)
    (Log.mem_resolved.mpr ⟨other, hother, hsettles'⟩)
  obtain rfl := Log.eq_of_nodup_resolved (hc.nodup_resolved hfinal) hentry hother hsettles hsettles'
  exact ⟨rfl, rfl⟩

/-- Whoever takes a piece to its end has settled it. -/
theorem Advances.resolved {piece next : Piece} (h : c.Advances piece next)
    (hstatus : next.status = .added ∨ next.status = .failed) :
    next.id ∈ c.log.resolved next.status := by
  cases h with
  | upload _ _ _ _ => simp [Piece.uploadedAs] at hstatus
  | claim _ hintends =>
    have huploaded := (Operation.checkFree_eq_ok.mp hintends.free).1
    simp [Piece.heldFor, Piece.claimedFor, huploaded] at hstatus
  | submission _ _ _ _ => simp [Piece.submittedAs] at hstatus
  | refusal _ _ _ _ => simp [Piece.refusedWith] at hstatus
  | settlement hupdated _ _ _ _ _ _ =>
    exact Log.mem_resolved.mpr ⟨_, hupdated, Event.resolved?_eq_some.mpr ⟨next, rfl, rfl, rfl⟩⟩

/-- Every piece that was added or has failed was settled. -/
theorem Reachable.resolved_of_row (hc : c.Reachable) {row : Row} (hrow : row ∈ c.rows)
    (hat : row.At status) (hstatus : status = .added ∨ status = .failed) :
    ∃ id ∈ c.log.resolved status, row.id = .text id := by
  obtain ⟨piece, rfl, hresolved⟩ := hc.forall_piece
    (fun c piece ↦ piece.status = .added ∨ piece.status = .failed →
      piece.id ∈ c.log.resolved piece.status)
    (fun _ _ _ _ _ _ h ↦ by simp [Piece.prepare] at h)
    (fun _ _ _ hstep hpiece h ↦ List.filterMap_subset _ hstep.log_subset (hpiece h))
    (fun _ _ _ _ _ hadvances ↦ hadvances.resolved) row hrow
  obtain rfl := Row.at_ofPiece hat
  exact ⟨piece.id, hresolved hstatus, rfl⟩

/-- The rows that were added, or failed, are those that were settled so. -/
theorem Reachable.countP_at (hc : c.Reachable) (hstatus : status = .added ∨ status = .failed) :
    c.rows.countP (·.At status) = (c.log.resolved status).length := by
  have hfinal : status.isFinal = true := by rcases hstatus with rfl | rfl <;> rfl
  have hrows : ((c.rows.filter (·.At status)).map (·.id)).Nodup :=
    hc.hasIds.sublist (List.filter_sublist.map _)
  have hids : ((c.log.resolved status).map Cell.text).Nodup :=
    (hc.nodup_resolved hfinal).map fun _ _ ↦ Cell.text.inj
  have hperm := (List.perm_ext_iff_of_nodup hrows hids).mpr fun cell ↦ by
    constructor
    · intro h
      obtain ⟨row, hmem, rfl⟩ := List.mem_map.mp h
      obtain ⟨hrow, hat⟩ := List.mem_filter.mp hmem
      obtain ⟨id, hid, heq⟩ := hc.resolved_of_row hrow (of_decide_eq_true hat) hstatus
      exact heq ▸ List.mem_map_of_mem hid
    · intro h
      obtain ⟨id, hid, rfl⟩ := List.mem_map.mp h
      obtain ⟨row, hrow, heq, hat⟩ := hc.row_of_resolved hfinal hid
      exact heq ▸ List.mem_map_of_mem (List.mem_filter.mpr ⟨hrow, decide_eq_true hat⟩)
  simpa [List.countP_eq_length_filter] using hperm.length_eq

/-- A monitor settles no piece but its own. -/
theorem Reachable.eq_of_monitor (hc : c.Reachable) {outcome : Outcome (Piece × Finding)}
    (hended : ⟨ticket, job, .ended (.monitor id) outcome⟩ ∈ c.log) {settled : String}
    (hsettled : settled ∈ (c.log.of ticket).resolved status) : settled = id := by
  obtain ⟨history, hlog, -, ⟨-, hfinds⟩, -⟩ := hc.ended hended
  rw [hlog] at hsettled
  obtain ⟨piece, hfound, rfl⟩ := hfinds status settled hsettled
  exact hc.id_of_found (hfound.mono (hlog ▸ List.subset_cons_self _ _))

end Chronicle

namespace Run

variable {s : State} {status : Status}

theorem State.Lawful.ticket_lt (hs : s.Lawful) {entry : Entry} (hentry : entry ∈ s.log) :
    entry.ticket < s.next := by
  refine Nat.lt_of_not_le fun hle ↦ ?_
  have hnil := (hs.fresh entry.ticket hle).2
  exact absurd (Log.mem_of.mpr ⟨entry.job, hentry⟩) (hnil ▸ List.not_mem_nil)

/-- A call reports what it settled, or has not ended and reports nothing. -/
theorem Reachable.reported_cases (hs : Reachable s) (ticket : Nat) (status : Status) :
    (s.log.of ticket).reported status = ((s.log.of ticket).resolved status).length ∨
      (s.log.of ticket).reported status = 0 ∧ ¬ s.Ended ticket := by
  by_cases hended : s.Ended ticket
  · obtain ⟨job, task, outcome, hentry⟩ := hended
    exact Or.inl (hs.chronicle.reported_eq hentry status)
  · refine Or.inr ⟨History.reported_eq_zero ?_ status, hended⟩
    intro event hevent hend
    exact hended (State.ended_of_isEnd hevent hend)

/-- Reports and what was settled are counted call by call. -/
theorem Reachable.reported_eq_sum (hs : Reachable s) (status : Status) :
    s.log.reported status = ∑ ticket ∈ Finset.range s.next, (s.log.of ticket).reported status ∧
      (s.log.resolved status).length =
        ∑ ticket ∈ Finset.range s.next, ((s.log.of ticket).resolved status).length :=
  ⟨s.log.sum_eq_sum_calls (Event.reported status) fun _ ↦ hs.lawful.ticket_lt,
    Log.length_resolved_eq_sum_calls fun _ ↦ hs.lawful.ticket_lt⟩

/-- No more is reported than was settled. -/
theorem Reachable.reported_le (hs : Reachable s) (status : Status) :
    s.log.reported status ≤ (s.log.resolved status).length := by
  obtain ⟨hreported, hresolved⟩ := hs.reported_eq_sum status
  rw [hreported, hresolved]
  refine Finset.sum_le_sum fun ticket _ ↦ ?_
  rcases hs.reported_cases ticket status with heq | ⟨hzero, -⟩
  · exact Nat.le_of_eq heq
  · exact hzero ▸ Nat.zero_le _

/-- When all calls that settled something have ended, everything is reported. -/
theorem Reachable.reported_eq (hs : Reachable s)
    (hended : ∀ ticket, (s.log.of ticket).resolved status ≠ [] → s.Ended ticket) :
    s.log.reported status = (s.log.resolved status).length := by
  obtain ⟨hreported, hresolved⟩ := hs.reported_eq_sum status
  rw [hreported, hresolved]
  refine Finset.sum_congr rfl fun ticket _ ↦ ?_
  rcases hs.reported_cases ticket status with heq | ⟨hzero, hopen⟩
  · exact heq
  · have hnil := not_imp_comm.mp (hended ticket) hopen
    rw [hzero, hnil, List.length_nil]

/-- A step takes the pending row of a piece to a status. -/
def Settles (s s' : State) (id : String) (status : Status) : Prop :=
  s.chronicle.Settles s'.chronicle id status

/-- A step settles a piece exactly if it logs that. -/
theorem Step.settles_iff {s' : State} (hs : Reachable s) (h : Step s s') {id : String}
    (hstatus : status ≠ .pending) :
    Settles s s' id status ↔
      ∃ entry, s'.log = entry :: s.log ∧ entry.event.resolved? status = some id := by
  rcases h.chronicle hs.lawful with hstep | hsame
  · constructor
    · exact hstep.rows.resolved_of_settles hstatus
    · rintro ⟨entry, hlog, hid⟩
      exact hstep.rows.settles_of_resolved hlog hid
  · constructor
    · rintro ⟨i, row, row', hrow, hrow', -, hpending, hsettled⟩
      rw [hsame, hrow] at hrow'
      cases hrow'
      exact absurd hsettled (Chronicle.not_at_of_status_eq hpending hstatus rfl)
    · rintro ⟨entry, hlog, -⟩
      have hlogs : s'.log = s.log := congrArg Chronicle.log hsame
      exact absurd (hlog.symm.trans hlogs) (List.cons_ne_self _ _)

/-- A pending piece is settled exactly once, in every run of any number of managers.  A look at a
piece, in a round or by itself, settles the piece if it says so and settles nothing else; a call that
has ended reports as many pieces as it has settled, and a monitor settles only its own; to settle
a piece is to take its pending row to its end; no piece is settled twice, so no two calls report
it; and what all calls report together is no more than what has come to an end in the table, and
just that when the calls that settled something have ended. -/
theorem pieces_settled_once (hs : Reachable s) :
    (∀ (job : Job) (history : History) locks id strict, job.task.Watches →
      (Operation.observe locks id strict).Follows job.Allows
        (fun later answer ↦ history.Resolves later id answer.1 answer.2)
        (fun later _ ↦ history.Spares later) history) ∧
    (∀ ticket job task outcome, ⟨ticket, job, .ended task outcome⟩ ∈ s.log → ∀ status,
      ((s.log.of ticket).resolved status).length = task.reported outcome status ∧
        ∀ id, task = .monitor id → ∀ settled ∈ (s.log.of ticket).resolved status, settled = id) ∧
    (∀ s', Step s s' → ∀ id status, status = .added ∨ status = .failed →
      (Settles s s' id status ↔
        ∃ entry, s'.log = entry :: s.log ∧ entry.event.resolved? status = some id)) ∧
    (s.log.resolved .added ++ s.log.resolved .failed).Nodup ∧
    (∀ ticket ticket' id status status', status = .added ∨ status = .failed →
      status' = .added ∨ status' = .failed → id ∈ (s.log.of ticket).resolved status →
      id ∈ (s.log.of ticket').resolved status' → ticket = ticket' ∧ status = status') ∧
    ∀ status, status = .added ∨ status = .failed →
      s.log.reported status ≤ s.store.table.rows.countP (·.At status) ∧
      ((∀ ticket, (s.log.of ticket).resolved status ≠ [] → s.Ended ticket) →
        s.log.reported status = s.store.table.rows.countP (·.At status)) := by
  have hc := hs.chronicle
  have hfinal {status : Status} (h : status = .added ∨ status = .failed) : status.isFinal = true := by
    rcases h with rfl | rfl <;> rfl
  refine ⟨fun job history locks id strict hwatches ↦ Operation.follows_observe hwatches, ?_, ?_, ?_,
    ?_, ?_⟩
  · intro ticket job task outcome hended status
    refine ⟨hc.length_resolved hended status, ?_⟩
    rintro id rfl settled hsettled
    exact hc.eq_of_monitor hended hsettled
  · intro s' hstep id status hstatus
    exact hstep.settles_iff hs (Status.ne_pending_of_isFinal (hfinal hstatus))
  · refine List.nodup_append.mpr ⟨hc.nodup_resolved rfl, hc.nodup_resolved rfl, ?_⟩
    rintro id hadded _ hfailed rfl
    cases hc.status_unique rfl rfl hadded hfailed
  · intro ticket ticket' id status status' hstatus hstatus' hid hid'
    exact hc.settler_unique (hfinal hstatus) (hfinal hstatus') hid hid'
  · intro status hstatus
    have hcount : s.store.table.rows.countP (·.At status) = _ := hc.countP_at hstatus
    rw [hcount]
    exact ⟨hs.reported_le status, hs.reported_eq⟩

/-- A piece that was added is reported once. -/
theorem added_piece_is_reported :
    ∃ s, Reachable s ∧ (∀ ticket, (s.log.of ticket).resolved .added ≠ [] → s.Ended ticket) ∧
      s.store.table.rows.countP (·.At .added) = 1 ∧ s.log.reported .added = 1 := by
  obtain ⟨-, s, -, -, -, hs, htable⟩ := exists_added "a" .single rfl 7 "hash"
  have hended (ticket : Nat) (hresolved : (s.log.of ticket).resolved .added ≠ []) :
      s.Ended ticket := by
    refine hs.ended ticket fun hnil ↦ hresolved ?_
    rw [hnil]
    rfl
  have hcount : s.store.table.rows.countP (·.At .added) = 1 := by
    rw [htable]
    rfl
  obtain ⟨-, -, -, -, -, htotal⟩ := pieces_settled_once hs.reachable
  obtain ⟨-, hreported⟩ := htotal .added (Or.inl rfl)
  exact ⟨s, hs.reachable, hended, hcount, (hreported hended).trans hcount⟩

end Run

end PieceKeeper
