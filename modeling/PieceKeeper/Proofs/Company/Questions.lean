import PieceKeeper.Proofs.Company.Order

/-!
# What calls ask the outside

A call asks the outside few things: whether a file is there, for a new id, for a root to be added, or
for a transaction.  It asks none of these twice, so whatever it is told, the answers are those of
somebody who answers the same question always in the same way.
-/

namespace PieceKeeper

variable {α β : Type}

/-- A request that can be answered in several ways, whatever the time is. -/
def Request.IsQuestion : Request → Prop
  | .findFile _ | .readFile _ | .freshId | .clock | .submit _ _ | .lookup _ => True
  | _ => False

theorem Request.nonempty_answer (request : Request) : Nonempty request.Answer := by
  cases request with
  | table command => exact ⟨refuse (.conflict "")⟩
  | shelf command =>
    cases command with
    | holds key => exact ⟨false⟩
    | newDraft => exact ⟨0⟩
    | _ => exact ⟨.error .missing⟩
  | findFile path => exact ⟨.ok .directory⟩
  | readFile path => exact ⟨.ok []⟩
  | now => exact ⟨⟨⟨1970, 1, 1, by decide⟩, 0, 0, by decide⟩⟩
  | freshId => exact ⟨""⟩
  | clock => exact ⟨0⟩
  | submit proofSet root => exact ⟨.ok ""⟩
  | lookup hash => exact ⟨.ok none⟩
  | _ => exact ⟨()⟩

/-! ## Questions along a call -/

namespace Call

/-- All questions of a call are among some, and none is asked twice. -/
def Inquires (among : Request → Prop) : Call α → Prop
  | .done _ => True
  | .ask request next => (request.IsQuestion → among request) ∧
      ∀ answer, Inquires (fun other ↦ among other ∧ other ≠ request) (next answer)

variable {among rest : Request → Prop}

theorem Inquires.mono {call : Call α} (h : call.Inquires among)
    (hrest : ∀ request, request.IsQuestion → among request → rest request) : call.Inquires rest := by
  induction call generalizing among rest with
  | done answer => trivial
  | ask request next ih =>
    refine ⟨fun hquestion ↦ hrest request hquestion (h.1 hquestion), fun answer ↦ ?_⟩
    exact ih answer (h.2 answer) fun other hquestion hother ↦
      ⟨hrest other hquestion hother.1, hother.2⟩

/-- What is asked at first is not asked afterwards. -/
theorem Inquires.bind {call : Call α} {next : α → Call β} (h : call.Inquires among)
    (hnext : ∀ answer, (next answer).Inquires rest)
    (hdisjoint : ∀ request, among request → ¬ rest request) :
    (call.bind next).Inquires fun request ↦ among request ∨ rest request := by
  induction call generalizing among with
  | done answer => exact (hnext answer).mono fun request _ hrest ↦ Or.inr hrest
  | ask request later ih =>
    refine ⟨fun hquestion ↦ Or.inl (h.1 hquestion), fun answer ↦ ?_⟩
    have hlater := ih answer (h.2 answer) fun other hother ↦ hdisjoint other hother.1
    refine hlater.mono fun other hquestion hother ↦ ?_
    rcases hother with ⟨hamong, hne⟩ | hrest
    · exact ⟨Or.inl hamong, hne⟩
    · refine ⟨Or.inr hrest, ?_⟩
      rintro rfl
      exact hdisjoint other (h.1 hquestion) hrest

/-- Nothing is asked afterwards. -/
theorem Inquires.bind_blind {call : Call α} {next : α → Call β} (h : call.Inquires among)
    (hnext : ∀ answer, (next answer).Inquires fun _ ↦ False) : (call.bind next).Inquires among :=
  (h.bind hnext fun _ _ ↦ id).mono fun _ _ hrequest ↦ hrequest.resolve_right id

end Call

namespace Attempt

/-- All questions of an attempt are among some, and none is asked twice. -/
def Inquires (among : Request → Prop) (attempt : Attempt α) : Prop := attempt.run.Inquires among

/-- An attempt that asks no questions. -/
def IsBlind (attempt : Attempt α) : Prop := attempt.Inquires fun _ ↦ False

variable {among rest : Request → Prop}

theorem inquires_pure (answer : α) : (pure answer : Attempt α).Inquires among := trivial

theorem inquires_refuse (cause : Cause) : (refuse cause : Attempt α).Inquires among := trivial

theorem inquires_ofOutcome (outcome : Outcome α) : (ofOutcome outcome).Inquires among := trivial

theorem inquires_ofFile (result : Except FileFailure α) : (ofFile result).Inquires among := by
  cases result with
  | ok answer => trivial
  | error failure => trivial

theorem inquires_ask {request : Request} (h : request.IsQuestion → among request) :
    (ask request).Inquires among :=
  ⟨h, fun _ ↦ trivial⟩

theorem inquires_shelf (command : Shelf.Command) : (shelf command).Inquires among :=
  inquires_ask False.elim

theorem inquires_table (command : Table.Command) : (table command).Inquires among :=
  ⟨False.elim, fun _ ↦ trivial⟩

theorem Inquires.bind {attempt : Attempt α} {next : α → Attempt β} (h : attempt.Inquires among)
    (hnext : ∀ answer, (next answer).Inquires rest)
    (hdisjoint : ∀ request, among request → ¬ rest request) :
    (attempt >>= next).Inquires fun request ↦ among request ∨ rest request := by
  refine Call.Inquires.bind h (fun outcome ↦ ?_) hdisjoint
  cases outcome with
  | ok answer => exact hnext answer
  | error fault => trivial

/-- Nothing is asked at first. -/
theorem IsBlind.bind {attempt : Attempt α} {next : α → Attempt β} (h : attempt.IsBlind)
    (hnext : ∀ answer, (next answer).Inquires among) : (attempt >>= next).Inquires among :=
  Call.Inquires.mono (Inquires.bind h hnext fun _ ↦ False.elim) fun _ _ hrequest ↦
    hrequest.resolve_left id

/-- Nothing is asked afterwards. -/
theorem Inquires.bind_blind {attempt : Attempt α} {next : α → Attempt β} (h : attempt.Inquires among)
    (hnext : ∀ answer, (next answer).IsBlind) : (attempt >>= next).Inquires among := by
  refine Call.Inquires.bind_blind h fun outcome ↦ ?_
  cases outcome with
  | ok answer => exact hnext answer
  | error fault => trivial

theorem Inquires.within {attempt : Attempt α} {operation piece : String} (h : attempt.Inquires among) :
    (attempt.within operation piece).Inquires among := by
  refine Call.Inquires.bind_blind h fun outcome ↦ ?_
  cases outcome with
  | ok answer => trivial
  | error fault => trivial

/-- The outcome of an attempt, whatever it is. -/
theorem Inquires.attempt {attempt : Attempt α} (h : attempt.Inquires among) :
    Inquires among (ExceptT.lift attempt.run) :=
  Call.Inquires.bind_blind h fun _ ↦ trivial

theorem Inquires.holding {attempt : Attempt α} {key : LockKey} (h : attempt.Inquires among) :
    (attempt.holding key).Inquires among := by
  change Call.Inquires among (.ask (.acquire key) fun _ ↦ attempt.run.bind fun outcome ↦
    .ask (.release key) fun _ ↦ .done outcome)
  refine ⟨False.elim, fun _ ↦ ?_⟩
  have hrun : (attempt.run.bind fun outcome ↦ .ask (.release key) fun _ ↦ .done outcome).Inquires among :=
    Call.Inquires.bind_blind h fun _ ↦ ⟨False.elim, fun _ ↦ trivial⟩
  refine hrun.mono fun request hquestion hrequest ↦ ⟨hrequest, ?_⟩
  rintro rfl
  exact hquestion

end Attempt

namespace Operation

open Attempt

variable {among : Request → Prop}

theorem inquires_measure (source : Source) :
    source.measure.Inquires fun request ↦ ∃ path, request = .findFile path := by
  cases source with
  | declared size =>
    rw [Source.measure]
    split
    · exact inquires_refuse _
    · exact inquires_pure _
  | file path =>
    refine IsBlind.bind (inquires_ask False.elim) fun _ ↦ ?_
    refine Inquires.bind_blind (inquires_ask fun _ ↦ ⟨path, rfl⟩) fun found ↦ ?_
    cases found with
    | error failure => exact inquires_refuse _
    | ok node =>
      cases node with
      | directory => exact inquires_refuse _
      | file content =>
        dsimp only
        split
        · exact inquires_refuse _
        · exact inquires_pure _

theorem inquires_prepare (source : Source) : (prepare source).Inquires fun _ ↦ True := by
  have hrest : ∀ measured : Option String × Option UInt64,
      Inquires (· = .freshId) (do
        let id ← Attempt.ask .freshId
        let now ← Attempt.ask .now
        let piece := Piece.prepare id measured.1 measured.2 now
        Attempt.table (.insert piece)
        return piece) := by
    intro measured
    refine Inquires.bind_blind (inquires_ask fun _ ↦ rfl) fun id ↦ ?_
    refine IsBlind.bind (inquires_ask False.elim) fun now ↦ ?_
    exact IsBlind.bind (inquires_table _) fun _ ↦ inquires_pure _
  refine Call.Inquires.mono (Inquires.bind (inquires_measure source) hrest ?_) fun _ _ _ ↦ trivial
  rintro _ ⟨path, rfl⟩ heq
  cases heq

theorem isBlind_find (id : String) : (find id).IsBlind := by
  refine IsBlind.bind (inquires_table _) fun found ↦ ?_
  cases found with
  | none => exact inquires_refuse _
  | some piece => exact inquires_pure _

theorem isBlind_shelve (key : String) (content : Bytes) : (shelve key content).IsBlind := by
  refine IsBlind.bind (inquires_ofOutcome _) fun _ ↦ ?_
  refine IsBlind.bind (inquires_shelf _) fun held ↦ ?_
  split
  · exact inquires_pure _
  refine IsBlind.bind (inquires_ask False.elim) fun _ ↦ ?_
  refine IsBlind.bind (inquires_shelf _) fun place ↦ ?_
  refine IsBlind.bind (inquires_ofFile _) fun _ ↦ ?_
  refine IsBlind.bind (inquires_shelf _) fun draft ↦ ?_
  refine IsBlind.bind (inquires_ask False.elim) fun _ ↦ ?_
  refine IsBlind.bind (inquires_shelf _) fun written ↦ ?_
  cases written with
  | error failure => exact IsBlind.bind (inquires_shelf _) fun _ ↦ inquires_ofFile _
  | ok _ =>
    refine IsBlind.bind (inquires_shelf _) fun again ↦ ?_
    split
    · refine IsBlind.bind (inquires_ask False.elim) fun _ ↦ ?_
      refine IsBlind.bind (inquires_shelf _) fun discarded ↦ ?_
      exact IsBlind.bind (inquires_ofFile _) fun _ ↦ inquires_pure _
    · refine IsBlind.bind (inquires_ask False.elim) fun _ ↦ ?_
      refine IsBlind.bind (inquires_shelf _) fun published ↦ ?_
      exact IsBlind.bind (inquires_ofFile _) fun _ ↦ inquires_pure _

theorem isBlind_uploadLocked (id : String) (body : Bytes) : (uploadLocked id body).IsBlind := by
  refine IsBlind.bind (isBlind_find id) fun piece ↦ ?_
  refine IsBlind.bind (inquires_ofOutcome _) fun _ ↦ ?_
  refine IsBlind.bind (inquires_ask False.elim) fun _ ↦ ?_
  refine IsBlind.bind (inquires_ofOutcome _) fun committed ↦ ?_
  refine IsBlind.bind (inquires_table _) fun holder ↦ ?_
  cases holder with
  | some holder => exact inquires_refuse (α := Piece × Bool) _
  | none =>
    refine IsBlind.bind (isBlind_shelve _ _) fun written ↦ ?_
    refine IsBlind.bind (inquires_ask False.elim) fun now ↦ ?_
    refine IsBlind.bind (inquires_ofOutcome _) fun moved ↦ ?_
    refine IsBlind.bind (inquires_table _) fun updated ↦ ?_
    split
    · exact inquires_pure _
    · exact inquires_refuse _

theorem isBlind_record (piece : Piece) : (record piece).IsBlind := by
  refine IsBlind.bind (inquires_table _) fun updated ↦ ?_
  split
  · exact inquires_pure _
  · exact inquires_refuse _

theorem isBlind_recordSubmission (piece : Piece) (proofSet : UInt64) (answer : Outcome String) :
    (recordSubmission piece proofSet answer).IsBlind := by
  cases answer with
  | ok hash =>
    refine IsBlind.bind (inquires_ask False.elim) fun submitted ↦ ?_
    refine IsBlind.bind (inquires_ask False.elim) fun now ↦ ?_
    refine IsBlind.bind (inquires_ofOutcome _) fun moved ↦ ?_
    exact IsBlind.bind (isBlind_record moved) fun _ ↦ inquires_pure _
  | error fault =>
    refine IsBlind.bind (inquires_ask False.elim) fun now ↦ ?_
    refine IsBlind.bind (inquires_ofOutcome _) fun moved ↦ ?_
    refine IsBlind.bind ?_ fun _ ↦ inquires_refuse _
    exact Inquires.attempt (isBlind_record moved)

theorem inquires_submitLocked (sectorSize : UInt64) (id : String) (proofSet : UInt64) :
    (submitLocked sectorSize id proofSet).Inquires fun _ ↦ True := by
  refine IsBlind.bind (isBlind_find id) fun piece ↦ ?_
  refine IsBlind.bind (inquires_ofOutcome _) fun _ ↦ ?_
  refine IsBlind.bind (inquires_ofOutcome _) fun root ↦ ?_
  refine IsBlind.bind (inquires_ask False.elim) fun now ↦ ?_
  refine IsBlind.bind (inquires_table _) fun claimed ↦ ?_
  split
  · exact Inquires.bind_blind (inquires_ask fun _ ↦ trivial) fun _ ↦ isBlind_recordSubmission _ _ _
  · exact inquires_refuse _

theorem isBlind_settleBy (piece : Piece) (answer : Option TransactionRecord) :
    (settleBy piece answer).IsBlind := by
  cases answer with
  | none => exact inquires_pure _
  | some transaction =>
    refine IsBlind.bind (inquires_ask False.elim) fun now ↦ ?_
    refine IsBlind.bind (inquires_ofOutcome _) fun finding ↦ ?_
    rw [recordFinding]
    split
    · refine IsBlind.bind (inquires_table _) fun updated ↦ ?_
      split
      · exact inquires_pure _
      · exact inquires_refuse _
    · exact inquires_pure _

theorem inquires_observeLocked (id : String) (strict : Bool) :
    (observeLocked id strict).Inquires fun _ ↦ True := by
  refine IsBlind.bind (isBlind_find id) fun piece ↦ ?_
  split
  · split
    · exact inquires_refuse _
    · exact inquires_pure _
  · cases piece.transaction with
    | none =>
      dsimp only
      split
      · exact inquires_refuse _
      · exact inquires_pure _
    | some hash =>
      exact Inquires.bind_blind ⟨fun _ ↦ trivial, fun _ ↦ trivial⟩ fun answer ↦ isBlind_settleBy _ _

end Operation

/-- No errand asks a question twice. -/
theorem Manager.callFor_inquires (manager : Manager) (errand : Errand) :
    (manager.callFor errand).Inquires fun _ ↦ True := by
  cases errand with
  | prepare source => exact Operation.inquires_prepare source
  | upload id body =>
    refine Attempt.Inquires.within (Attempt.IsBlind.bind ?_ fun _ ↦ Attempt.inquires_pure _)
    exact Attempt.Inquires.holding (Operation.isBlind_uploadLocked id body)
  | submit id proofSet =>
    exact Attempt.Inquires.within (Attempt.Inquires.holding (Operation.inquires_submitLocked _ id proofSet))
  | monitor id =>
    exact Attempt.Inquires.within (Attempt.Inquires.holding (Operation.inquires_observeLocked id true))
  | watch id => exact Attempt.Inquires.holding (Operation.inquires_observeLocked id false)

/-! ## Questions along a run -/

/-- What is left of a call asks some questions, and none twice. -/
def Progress.Inquires (among : Request → Prop) : Progress α → Prop
  | .running call => call.Inquires among
  | .awaiting request next => (Call.ask request next).Inquires among
  | .orphaned _ => True

theorem Progress.Inquires.mono {among rest : Request → Prop} {progress : Progress α}
    (h : progress.Inquires among)
    (hrest : ∀ request, request.IsQuestion → among request → rest request) : progress.Inquires rest := by
  cases progress with
  | running call => exact Call.Inquires.mono h hrest
  | awaiting request next =>
    have hcall : (Call.ask request next).Inquires among := h
    exact hcall.mono hrest
  | orphaned request => trivial

namespace Company

/-- No call asks what it was answered before. -/
structure State.Inquires (s : State) : Prop where
  recent : ∀ ticket event, (ticket, event) ∈ s.log → ticket < s.next
  started : ∀ ticket flight, s.flights ticket = some flight → ticket < s.next
  anew : ∀ ticket flight, s.flights ticket = some flight → flight.progress.Inquires fun request ↦
    ∀ answer, (ticket, .answered request answer) ∉ s.log
  once : ∀ ticket request answer answer', request.IsQuestion →
    (ticket, .answered request answer) ∈ s.log → (ticket, .answered request answer') ∈ s.log →
    answer = answer'

variable {manager : Manager} {store : Store} {s s' : State} {ticket : Nat} {errand : Errand}

namespace State.Inquires

/-- Something else happens than that a question is answered. -/
theorem note (h : s.Inquires) {event : Event} (hticket : ticket < s.next)
    (hevent : ∀ request answer, event ≠ .answered request answer) : (s.note ticket event).Inquires where
  recent other found hmem := by
    rcases List.mem_cons.mp hmem with hnew | hold
    · cases hnew
      exact hticket
    · exact h.recent other found hold
  started := h.started
  anew other flight hflight := (h.anew other flight hflight).mono fun request _ hrequest answer hmem ↦
    hrequest answer (Log.mem_of_cons hmem (hevent request answer).symm)
  once other request answer answer' hquestion hanswer hanswer' :=
    h.once other request answer answer' hquestion
      (Log.mem_of_cons hanswer (hevent request answer).symm)
      (Log.mem_of_cons hanswer' (hevent request answer').symm)

/-- A call goes on. -/
theorem advance (h : s.Inquires) {progress : Progress (Outcome errand.Answer)} (hticket : ticket < s.next)
    (hprogress : progress.Inquires fun request ↦ ∀ answer, (ticket, .answered request answer) ∉ s.log) :
    (s.advance ticket errand progress).Inquires where
  recent := h.recent
  started other flight hflight := by
    rcases update_eq_some hflight with ⟨rfl, -⟩ | ⟨-, hold⟩
    · exact hticket
    · exact h.started other flight hold
  anew other flight hflight := by
    rcases update_eq_some hflight with ⟨rfl, hnew⟩ | ⟨-, hold⟩
    · cases hnew
      exact hprogress
    · exact h.anew other flight hold
  once := h.once

/-- A call is answered, and does not ask that again. -/
theorem answer (h : s.Inquires) {request : Request} {next : request.Answer → Call (Outcome errand.Answer)}
    {answer : request.Answer} (hflight : s.flights ticket = some ⟨errand, .awaiting request next⟩) :
    (s.advance ticket errand (.running (next answer)) |>.note ticket
      (.answered request answer)).Inquires := by
  have hcall : (Call.ask request next).Inquires fun request ↦
    ∀ answer, (ticket, .answered request answer) ∉ s.log := h.anew ticket _ hflight
  have hticket := h.started ticket _ hflight
  exact {
    recent := by
      intro other found hmem
      rcases List.mem_cons.mp hmem with hnew | hold
      · cases hnew
        exact hticket
      · exact h.recent other found hold
    started := by
      intro other flight hother
      rcases update_eq_some hother with ⟨rfl, -⟩ | ⟨-, hold⟩
      · exact hticket
      · exact h.started other flight hold
    anew := by
      intro other flight hother
      rcases update_eq_some hother with ⟨rfl, hnew⟩ | ⟨hne, hother⟩
      · cases hnew
        refine (hcall.2 answer).mono fun asked _ hasked found hmem ↦ ?_
        rcases List.mem_cons.mp hmem with hnew | hold
        · cases hnew
          exact hasked.2 rfl
        · exact hasked.1 found hold
      · refine (h.anew other flight hother).mono fun asked _ hasked found hmem ↦ ?_
        rcases List.mem_cons.mp hmem with hnew | hold
        · exact hne (Prod.ext_iff.mp hnew).1
        · exact hasked found hold
    once := by
      intro other asked found found' hquestion hmem hmem'
      rcases List.mem_cons.mp hmem with hnew | hold
      · cases hnew
        rcases List.mem_cons.mp hmem' with hnew' | hold'
        · cases hnew'
          rfl
        · exact absurd hold' (hcall.1 hquestion found')
      · rcases List.mem_cons.mp hmem' with hnew' | hold'
        · cases hnew'
          exact absurd hold (hcall.1 hquestion found)
        · exact h.once other asked found found' hquestion hold hold' }

theorem step (h : s.Inquires) (hstep : Step manager s s') : s'.Inquires := by
  cases hstep with
  | start errand =>
    have hnext : State.Inquires { s with next := s.next + 1 } :=
      ⟨fun ticket event hmem ↦ Nat.lt_succ_of_lt (h.recent ticket event hmem),
        fun ticket flight hflight ↦ Nat.lt_succ_of_lt (h.started ticket flight hflight), h.anew, h.once⟩
    refine (hnext.advance (Nat.lt_succ_self _) ?_).note (Nat.lt_succ_self _) fun _ _ heq ↦ (by cases heq)
    exact (manager.callFor_inquires errand).mono fun request _ _ answer hmem ↦
      Nat.lt_irrefl _ (h.recent s.next _ hmem)
  | @ask ticket errand request next hflight =>
    have hlocks : State.Inquires { s with locks := s.locks.hear ticket request } :=
      ⟨h.recent, h.started, h.anew, h.once⟩
    exact hlocks.advance (h.started ticket _ hflight) (h.anew ticket _ hflight)
  | @answer ticket errand request next answer store outside hflight hgrants hserves =>
    have hstore : State.Inquires { s with store, locks := s.locks.answer ticket request } :=
      ⟨h.recent, h.started, h.anew, h.once⟩
    exact hstore.answer hflight
  | @finish ticket errand outcome hflight =>
    have hold {other : Nat} {flight : Flight}
        (hother : Function.update s.flights ticket none other = some flight) :
        s.flights other = some flight := by
      rcases update_eq_some hother with ⟨-, hnew⟩ | ⟨-, hold⟩
      · cases hnew
      · exact hold
    have hflights : State.Inquires { s with flights := Function.update s.flights ticket none } :=
      ⟨h.recent, fun other flight hother ↦ h.started other flight (hold hother),
        fun other flight hother ↦ h.anew other flight (hold hother), h.once⟩
    exact hflights.note (h.started ticket _ hflight) fun _ _ heq ↦ (by cases heq)
  | shuffle hshuffles => exact ⟨h.recent, h.started, h.anew, h.once⟩

end State.Inquires

theorem Reachable.inquires (h : Reachable manager store s) : s.Inquires := by
  induction h with
  | refl =>
    exact ⟨fun _ _ hmem ↦ absurd hmem List.not_mem_nil, fun _ _ hflight ↦ (by cases hflight),
      fun _ _ hflight ↦ (by cases hflight), fun _ _ _ _ _ hmem ↦ absurd hmem List.not_mem_nil⟩
  | tail _ hstep ih => exact ih.step hstep

/-- Whatever calls are told from outside, somebody tells them who always answers alike. -/
theorem Reachable.exists_tells (h : Reachable manager store s) :
    ∃ outside : Nat → Outside, s.log.Tells outside := by
  have hanswer (ticket : Nat) (request : Request) : ∃ answer : request.Answer, ∀ told,
      (ticket, .answered request told) ∈ s.log → request.IsOutside → request ≠ .now → answer = told := by
    by_cases hasked : ∃ answer, (ticket, .answered request answer) ∈ s.log
    · obtain ⟨answer, hmem⟩ := hasked
      refine ⟨answer, fun told htold houtside hnow ↦ ?_⟩
      cases request with
      | table _ | shelf _ => exact houtside.elim
      | now => exact absurd rfl hnow
      | acquire _ | release _ | pause | sleep _ => rfl
      | _ => exact h.inquires.once ticket _ answer told trivial hmem htold
    · exact ⟨request.nonempty_answer.some, fun told htold ↦ absurd ⟨told, htold⟩ hasked⟩
  choose outside houtside using hanswer
  exact ⟨outside, houtside⟩

end Company

end PieceKeeper
