import PieceKeeper.Proofs.Company.Errands
import PieceKeeper.Proofs.Company.Order

/-!
# Runs of calls beside each other

Along a run every call on its way has a stand, which says what it knows and whether it has taken its
turn, and the turns taken so far have led to where the run is.
-/

namespace PieceKeeper

/-! ## Calls on their way -/

/-- What is left of a call keeps its place among the turns. -/
def Progress.Refines (stage : Company.Stage) (ticket : Nat) (errand : Errand) (st : Company.Stand) :
    Progress (Outcome errand.Answer) → Prop
  | .running call => call.Refines stage ticket errand
      (fun outcome ↦ Company.Stand.Done stage ticket errand (errand.verdict outcome)) st
  | .awaiting request next => (Call.ask request next).Refines stage ticket errand
      (fun outcome ↦ Company.Stand.Done stage ticket errand (errand.verdict outcome)) st
  | .orphaned _ => False

/-- The lock that a call holds or waits for. -/
def Progress.seat {α : Type} (group : Nat) (piece : Option String) : Progress α → Option LockKey
  | .awaiting (.acquire key) _ => some key
  | _ => piece.map (LockKey.mk group)

namespace Company

/-- What is known of a call on its way. -/
structure Tracks (stage : Stage) (locks : Locks LockKey) (w : World) (ticket : Nat) (flight : Flight)
    (st : Stand) (seat : Option LockKey) : Prop where
  refines : flight.progress.Refines stage ticket flight.errand st
  fits : st.Fits w
  seat : seat = flight.progress.seat stage.manager.locks st.piece
  holds : st.piece ≠ none → locks.holds ticket = true

/-- What the calls on their way know fits the state, and so do the turns. -/
structure Simulates (stage : Stage) (s : State) (w : World) (stands : Nat → Stand)
    (seat : Nat → Option LockKey) : Prop where
  store : w.here.store = s.store
  sent : w.here.sent = s.log.sent
  good : w.Good
  tracks : ∀ ticket flight, s.flights ticket = some flight →
    Tracks stage s.locks w ticket flight (stands ticket) (seat ticket)
  away : ∀ ticket, s.flights ticket = none → stands ticket = {} ∧ seat ticket = none
  orderly : s.locks.Orderly seat
  /-- Only a call that holds the lock of a piece has another version of it. -/
  edits : ∀ id, w.edit id ≠ none → ∃ ticket, (stands ticket).piece = some id
  drafts : ∀ ticket other draft, (stands ticket).draft.map Prod.fst = some draft →
    (stands other).draft.map Prod.fst = some draft → ticket = other

variable {stage : Stage} {store : Store} {s s' : State} {w w' : World} {stands : Nat → Stand}
  {seat : Nat → Option LockKey} {ticket other : Nat} {errand : Errand} {st st' : Stand}
  {locks : Locks LockKey} {flight : Flight}

/-! ## Locks -/

theorem Tracks.fair (h : Tracks stage locks w ticket flight st (seat ticket)) {request : Request}
    {next : request.Answer → Call (Outcome flight.errand.Answer)}
    (hprogress : flight.progress = .awaiting request next) :
    request.IsFair stage.manager.locks st.piece := by
  have hrefines := h.refines
  rw [hprogress] at hrefines
  exact hrefines.1

/-- Who holds the lock of a piece has a seat there. -/
theorem Tracks.seat_eq (h : Tracks stage locks w ticket flight st (seat ticket)) {id : String}
    (hpiece : st.piece = some id) : seat ticket = some ⟨stage.manager.locks, id⟩ := by
  rw [h.seat]
  have hheld := congrArg (Option.map (LockKey.mk stage.manager.locks)) hpiece
  obtain ⟨errand, progress⟩ := flight
  cases progress with
  | running call => exact hheld
  | orphaned request => exact h.refines.elim
  | awaiting request next =>
    cases request with
    | acquire key =>
      have hfair := h.fair rfl
      rw [hpiece] at hfair
      cases hfair.1
    | _ => exact hheld

/-- What a request makes of the locks. -/
theorem orderly_hear {α : Type} {group : Nat} {piece : Option String} {request : Request}
    {next : request.Answer → Call α} (h : locks.Orderly seat)
    (hseat : seat ticket = piece.map (LockKey.mk group)) (hfair : request.IsFair group piece) :
    (locks.hear ticket request).Orderly
      (Function.update seat ticket ((Progress.awaiting request next).seat group piece)) := by
  have hsame : locks.Orderly (Function.update seat ticket (piece.map (LockKey.mk group))) := by
    rw [← hseat, Function.update_eq_self]
    exact h
  cases request with
  | acquire key =>
    obtain ⟨rfl, -⟩ := hfair
    exact h.request hseat key
  | _ => exact hsame

theorem holds_hear (hholds : locks.holds other = true) (request : Request) :
    (locks.hear ticket request).holds other = true := by
  cases request with
  | acquire key => exact Locks.holds_request hholds key
  | _ => exact hholds

/-- What the answer to a request makes of the locks. -/
theorem orderly_answer {α : Type} {group : Nat} {piece : Option String} {request : Request}
    {next : request.Answer → Call α} (h : locks.Orderly seat)
    (hseat : seat ticket = (Progress.awaiting request next).seat group piece)
    (hfair : request.IsFair group piece) (hholds : piece ≠ none → locks.holds ticket = true) :
    (locks.answer ticket request).Orderly
      (Function.update seat ticket ((request.seat piece).map (LockKey.mk group))) := by
  have hsame {place : Option LockKey} (hplace : seat ticket = place) :
      locks.Orderly (Function.update seat ticket place) := by
    rw [← hplace, Function.update_eq_self]
    exact h
  cases request with
  | acquire key =>
    obtain ⟨-, rfl⟩ := hfair
    exact hsame hseat
  | release key =>
    refine h.release (hholds ?_)
    change piece = some key.piece at hfair
    rw [hfair]
    exact Option.some_ne_none _
  | _ => exact hsame hseat

theorem holds_answer (h : locks.Orderly seat) (hholds : locks.holds other = true) (hne : other ≠ ticket)
    (request : Request) : (locks.answer ticket request).holds other = true := by
  cases request with
  | release key => exact h.holds_release hholds hne
  | _ => exact hholds

namespace Simulates

theorem flight_of_piece (h : Simulates stage s w stands seat) {id : String}
    (hpiece : (stands ticket).piece = some id) : ∃ flight, s.flights ticket = some flight := by
  cases hflight : s.flights ticket with
  | none =>
    rw [(h.away ticket hflight).1] at hpiece
    cases hpiece
  | some flight => exact ⟨flight, rfl⟩

/-- Two calls do not hold the lock of one piece. -/
theorem eq_of_piece (h : Simulates stage s w stands seat) {id : String}
    (hpiece : (stands ticket).piece = some id) (hother : (stands other).piece = some id) :
    ticket = other := by
  obtain ⟨flight, hflight⟩ := h.flight_of_piece hpiece
  obtain ⟨flight', hflight'⟩ := h.flight_of_piece hother
  have htracks := h.tracks ticket flight hflight
  have htracks' := h.tracks other flight' hflight'
  refine h.orderly.holder_unique (htracks.holds ?_) (htracks'.holds ?_)
    ((htracks.seat_eq hpiece).trans (htracks'.seat_eq hother).symm)
  · rw [hpiece]
    exact Option.some_ne_none id
  · rw [hother]
    exact Option.some_ne_none id

/-- The turns have no other version of a piece whose lock was just taken. -/
theorem edit_eq_none (h : Simulates stage s w stands seat) {key : LockKey}
    {next : Unit → Call (Outcome errand.Answer)}
    (hflight : s.flights ticket = some ⟨errand, .awaiting (.acquire key) next⟩)
    (hholds : s.locks.holds ticket = true) : w.edit key.piece = none := by
  by_contra hedit
  obtain ⟨other, hother⟩ := h.edits key.piece hedit
  obtain ⟨flight, hflight'⟩ := h.flight_of_piece hother
  have htracks := h.tracks ticket _ hflight
  have htracks' := h.tracks other flight hflight'
  obtain ⟨hnone, hgroup⟩ := htracks.fair rfl
  have hseat : seat ticket = seat other := by
    rw [htracks'.seat_eq hother, htracks.seat, ← hgroup]
    rfl
  have hheld := htracks'.holds (by rw [hother]; exact Option.some_ne_none _)
  obtain rfl := h.orderly.holder_unique hholds hheld hseat
  rw [hnone] at hother
  cases hother

end Simulates

/-! ## Steps -/

namespace Simulates

theorem start (h : Simulates stage s w stands seat) (hnext : s.flights s.next = none) (errand : Errand) :
    Simulates stage ({ s with next := s.next + 1 }.advance s.next errand
      (.running (stage.manager.callFor errand)) |>.note s.next (.started errand)) w stands seat where
  store := h.store
  sent := h.sent.trans ((Log.sent_cons _ _ _).trans (List.append_nil _)).symm
  good := h.good
  tracks ticket flight hflight := by
    rcases update_eq_some hflight with ⟨rfl, hnew⟩ | ⟨-, hold⟩
    · cases hnew
      obtain ⟨hstand, hseat⟩ := h.away _ hnext
      rw [hstand, hseat]
      refine ⟨Manager.callFor_refines errand, ⟨?_, ?_, ?_⟩, rfl, fun hpiece ↦ absurd rfl hpiece⟩
      · intro _ _ hid
        cases hid
      · intro _ hid
        cases hid
      · intro _ _ hdraft
        cases hdraft
    · exact h.tracks ticket flight hold
  away ticket hflight := by
    by_cases heq : ticket = s.next
    · exact heq ▸ h.away _ hnext
    · exact h.away ticket ((Function.update_of_ne heq _ _).symm.trans hflight)
  orderly := h.orderly
  edits := h.edits
  drafts := h.drafts

/-- One call goes on, and spares what the others have. -/
theorem advance (h : Simulates stage s w stands seat) (hflight : s.flights ticket = some flight)
    {later : Flight} {place : Option LockKey}
    (hflights : s'.flights = Function.update s.flights ticket (some later))
    (hstore : w'.here.store = s'.store) (hsent : w'.here.sent = s'.log.sent) (hgood : w'.Good)
    (htracks : Tracks stage s'.locks w' ticket later st' place)
    (horderly : s'.locks.Orderly (Function.update seat ticket place))
    (hholds : ∀ other, other ≠ ticket → s.locks.holds other = true → s'.locks.holds other = true)
    (hspares : (stands ticket).Spares w w')
    (hfreed : ∀ id, (stands ticket).piece = some id → st'.piece = some id ∨ w'.edit id = none)
    (hfresh : ∀ draft, st'.draft.map Prod.fst = some draft →
      (stands ticket).draft.map Prod.fst = some draft ∨ draft = w.here.shelf.next) :
    Simulates stage s' w' (Function.update stands ticket st') (Function.update seat ticket place) where
  store := hstore
  sent := hsent
  good := hgood
  tracks other found hfound := by
    rw [hflights] at hfound
    rcases update_eq_some hfound with ⟨rfl, hnew⟩ | ⟨hne, hold⟩
    · cases hnew
      rw [Function.update_self, Function.update_self]
      exact htracks
    · rw [Function.update_of_ne hne, Function.update_of_ne hne]
      have hother := h.tracks other found hold
      refine ⟨hother.refines, hother.fits.spared hspares ?_ ?_, hother.seat, fun hpiece ↦
        hholds other hne (hother.holds hpiece)⟩
      · exact fun id hpiece hsame ↦ hne (h.eq_of_piece hpiece hsame)
      · exact fun draft hdraft hsame ↦ hne (h.drafts other ticket draft hdraft hsame)
  away other hnone := by
    rw [hflights] at hnone
    have hne : other ≠ ticket := by
      rintro rfl
      rw [Function.update_self] at hnone
      cases hnone
    rw [Function.update_of_ne hne] at hnone ⊢
    rw [Function.update_of_ne hne]
    exact h.away other hnone
  orderly := horderly
  edits id hedit := by
    by_cases hpiece : (stands ticket).piece = some id
    · refine ⟨ticket, ?_⟩
      rw [Function.update_self]
      exact (hfreed id hpiece).resolve_right hedit
    · rw [hspares.edits id hpiece] at hedit
      obtain ⟨other, hother⟩ := h.edits id hedit
      have hne : other ≠ ticket := by
        rintro rfl
        exact hpiece hother
      exact ⟨other, by rw [Function.update_of_ne hne]; exact hother⟩
  drafts := by
    -- a number that was drawn just now is nobody else's
    have hdrawn (other draft : Nat) (hne : other ≠ ticket)
        (hother : (stands other).draft.map Prod.fst = some draft)
        (hdraft : st'.draft.map Prod.fst = some draft) : False := by
      rcases hfresh draft hdraft with hold | hnew
      · exact hne (h.drafts other ticket draft hother hold)
      · obtain ⟨found, hfound⟩ : ∃ found, s.flights other = some found := by
          cases haway : s.flights other with
          | none =>
            rw [(h.away other haway).1] at hother
            cases hother
          | some found => exact ⟨found, rfl⟩
        obtain ⟨⟨number, written⟩, hmem, rfl⟩ := Option.map_eq_some_iff.mp hother
        have hlt := ((h.tracks other found hfound).fits.drafts number written hmem).1
        exact Nat.ne_of_lt hlt hnew
    intro first second draft hfirst hsecond
    by_cases heq : first = ticket
    · subst heq
      rw [Function.update_self] at hfirst
      by_cases heq' : second = first
      · exact heq'.symm
      · rw [Function.update_of_ne heq'] at hsecond
        exact (hdrawn second draft heq' hsecond hfirst).elim
    · rw [Function.update_of_ne heq] at hfirst
      by_cases heq' : second = ticket
      · subst heq'
        rw [Function.update_self] at hsecond
        exact (hdrawn first draft heq hfirst hsecond).elim
      · rw [Function.update_of_ne heq'] at hsecond
        exact h.drafts first second draft hfirst hsecond

theorem ask (h : Simulates stage s w stands seat) {request : Request}
    {next : request.Answer → Call (Outcome errand.Answer)}
    (hflight : s.flights ticket = some ⟨errand, .running (.ask request next)⟩) :
    ∃ seat', Simulates stage ({ s with locks := s.locks.hear ticket request }.advance ticket errand
      (.awaiting request next)) w stands seat' := by
  have htracks := h.tracks ticket _ hflight
  have hrefines : (Call.ask request next).Refines stage ticket errand _ (stands ticket) :=
    htracks.refines
  have hlater : Tracks stage (s.locks.hear ticket request) w ticket ⟨errand, .awaiting request next⟩
      (stands ticket) ((Progress.awaiting request next).seat stage.manager.locks (stands ticket).piece) :=
    ⟨hrefines, htracks.fits, rfl, fun hpiece ↦ holds_hear (htracks.holds hpiece) request⟩
  have hsame : Simulates stage ({ s with locks := s.locks.hear ticket request }.advance ticket errand
      (.awaiting request next)) w (Function.update stands ticket (stands ticket)) _ :=
    h.advance hflight rfl h.store h.sent h.good hlater
      (orderly_hear h.orderly htracks.seat hrefines.1) (fun _ _ hholds ↦ holds_hear hholds request)
      (.refl _ w) (fun _ hpiece ↦ Or.inl hpiece) fun _ hdraft ↦ Or.inl hdraft
  rw [Function.update_eq_self] at hsame
  exact ⟨_, hsame⟩

/-- A call is answered, and perhaps takes its turn. -/
theorem answer (h : Simulates stage s w stands seat) {request : Request}
    {next : request.Answer → Call (Outcome errand.Answer)} {answer : request.Answer} {store : Store}
    (hflight : s.flights ticket = some ⟨errand, .awaiting request next⟩)
    (hgrants : s.locks.Grants ticket request)
    {outside : Outside} (hserves : s.store.Serves outside request answer store)
    (htells : Log.Tells ((ticket, .answered request answer) :: s.log) stage.outside) :
    ∃ w' st' seat', Simulates stage ({ s with store, locks := s.locks.answer ticket request }.advance
      ticket errand (.running (next answer)) |>.note ticket (.answered request answer)) w'
      (Function.update stands ticket st') seat' ∧
      Commits stage ticket errand w.turns (stands ticket).verdict st'.verdict w'.turns := by
  have htracks := h.tracks ticket _ hflight
  have hrefines : (Call.ask request next).Refines stage ticket errand _ (stands ticket) :=
    htracks.refines
  have hfree (key : LockKey) (heq : request = .acquire key) : w.edit key.piece = none := by
    subst heq
    exact h.edit_eq_none hflight hgrants
  have hserves' : w.here.store.Serves (stage.outside ticket) request answer store := by
    rw [h.store]
    exact hserves.alike (htells ticket request answer List.mem_cons_self)
  obtain ⟨st', w', hturn, hnext⟩ := hrefines.2 w h.good htracks.fits hfree answer store hserves'
  have hholds (hpiece : st'.piece ≠ none) : (s.locks.answer ticket request).holds ticket = true := by
    rw [hturn.piece] at hpiece
    cases request with
    | acquire key => exact hgrants
    | release key => exact absurd rfl hpiece
    | _ => exact htracks.holds hpiece
  have hsent : w'.here.sent = Log.sent ((ticket, .answered request answer) :: s.log) := by
    rw [hturn.sent, h.sent, Log.sent_cons]
    cases request with
    | submit proofSet root => rfl
    | _ => rfl
  refine ⟨w', st', _, h.advance hflight rfl hturn.store hsent hturn.good
    ⟨hnext, hturn.fits, rfl, hholds⟩ ?_ (fun _ hne hheld ↦ holds_answer h.orderly hheld hne request)
    hturn.spares hturn.freed hturn.fresh, hturn.commits⟩
  have horderly := orderly_answer h.orderly htracks.seat hrefines.1 htracks.holds
  rw [← hturn.piece] at horderly
  exact horderly

/-- A call ends, and its turn has come, or it comes now. -/
theorem finish (h : Simulates stage s w stands seat) {outcome : Outcome errand.Answer}
    (hflight : s.flights ticket = some ⟨errand, .running (.done outcome)⟩) :
    ∃ turns, Simulates stage (State.note { s with flights := Function.update s.flights ticket none }
      ticket (.ended errand outcome)) { w with turns } (Function.update stands ticket {}) seat ∧
      Commits stage ticket errand w.turns (stands ticket).verdict (some (errand.verdict outcome))
        turns := by
  have htracks := h.tracks ticket _ hflight
  have hdone : (stands ticket).Done stage ticket errand (errand.verdict outcome) := htracks.refines
  have hend (turns : Turns) (hgood : World.Good { w with turns }) :
      Simulates stage (State.note { s with flights := Function.update s.flights ticket none }
        ticket (.ended errand outcome)) { w with turns } (Function.update stands ticket {}) seat := {
    store := h.store
    sent := h.sent.trans ((Log.sent_cons _ _ _).trans (List.append_nil _)).symm
    good := hgood
    tracks := by
      intro other found hfound
      rcases update_eq_some hfound with ⟨-, hnew⟩ | ⟨hne, hold⟩
      · cases hnew
      · rw [Function.update_of_ne hne]
        have hother := h.tracks other found hold
        exact ⟨hother.refines, ⟨hother.fits.row, hother.fits.edit, hother.fits.drafts⟩, hother.seat,
          hother.holds⟩
    away := by
      intro other hnone
      by_cases heq : other = ticket
      · subst heq
        rw [Function.update_self]
        have hseat : seat other = (stands other).piece.map (LockKey.mk stage.manager.locks) :=
          htracks.seat
        rw [hdone.piece] at hseat
        exact ⟨rfl, hseat⟩
      · rw [Function.update_of_ne heq]
        exact h.away other ((Function.update_of_ne heq _ _).symm.trans hnone)
    orderly := h.orderly
    edits := by
      intro id hedit
      obtain ⟨other, hother⟩ := h.edits id hedit
      have hne : other ≠ ticket := by
        rintro rfl
        rw [hdone.piece] at hother
        cases hother
      exact ⟨other, by rw [Function.update_of_ne hne]; exact hother⟩
    drafts := by
      have hdraft {other draft : Nat}
          (hother : (Function.update stands ticket {} other).draft.map Prod.fst = some draft) :
          (stands other).draft.map Prod.fst = some draft := by
        by_cases heq : other = ticket
        · subst heq
          rw [Function.update_self] at hother
          cases hother
        · rw [Function.update_of_ne heq] at hother
          exact hother
      exact fun first second draft hfirst hsecond ↦
        h.drafts first second draft (hdraft hfirst) (hdraft hsecond) }
  rcases hdone.turn with hverdict | ⟨hverdict, hidle⟩
  · rw [hverdict]
    exact ⟨w.turns, hend _ h.good, .rest _⟩
  · obtain ⟨hsaid, hgood⟩ := hidle w h.good htracks.fits
    rw [hverdict]
    exact ⟨_, hend _ hgood, .of_eq hsaid⟩

theorem shuffle (h : Simulates stage s w stands seat) (hshuffles : s.locks.Shuffles locks) :
    Simulates stage { s with locks } w stands seat where
  store := h.store
  sent := h.sent
  good := h.good
  tracks ticket flight hflight := by
    have htracks := h.tracks ticket flight hflight
    refine ⟨htracks.refines, htracks.fits, htracks.seat, fun hpiece ↦ ?_⟩
    rw [hshuffles.holds_eq]
    exact htracks.holds hpiece
  away := h.away
  orderly := h.orderly.shuffle hshuffles
  edits := h.edits
  drafts := h.drafts

end Simulates

end Company

end PieceKeeper
