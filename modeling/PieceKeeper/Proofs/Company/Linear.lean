import PieceKeeper.Proofs.Company.Order
import PieceKeeper.Proofs.Company.Questions
import PieceKeeper.Proofs.Company.Simulation
import PieceKeeper.Proofs.Run.Blank

/-!
# Calls beside each other are as good as one after the other

Along a run the calls that have taken their turns are put in order.  When no call is on its way, this is
the order that was sought.
-/

namespace PieceKeeper.Company

/-- The roll of the calls on their way. -/
def State.roll (s : State) (stands : Nat → Stand) : Roll :=
  fun ticket ↦ (s.flights ticket).map fun flight ↦ (flight.errand, (stands ticket).verdict)

variable {stage : Stage} {manager : Manager} {store : Store} {s s' : State} {stands : Nat → Stand}
  {ticket : Nat} {errand : Errand}

/-! ## Turns along a run -/

/-- One call on the roll is changed. -/
theorem State.roll_update {value : Option Flight}
    (hflights : s'.flights = Function.update s.flights ticket value) (stands : Nat → Stand) (st : Stand) :
    s'.roll (Function.update stands ticket st) = Function.update (s.roll stands) ticket
      (value.map fun flight ↦ (flight.errand, st.verdict)) := by
  funext other
  rw [State.roll, hflights]
  by_cases heq : other = ticket
  · subst heq
    rw [Function.update_self, Function.update_self, Function.update_self]
  · rw [Function.update_of_ne heq, Function.update_of_ne heq, Function.update_of_ne heq]
    rfl

theorem State.roll_eq {s : State} {progress : Progress (Outcome errand.Answer)}
    (hflight : s.flights ticket = some ⟨errand, progress⟩) (stands : Nat → Stand) :
    s.roll stands ticket = some (errand, (stands ticket).verdict) := by
  rw [State.roll, hflight]
  rfl

theorem Ordered.commits {log : Log} {next : Nat} {roll : Roll} {order : List (Nat × Errand)}
    {said verdict : Option Verdict} {turns : Turns} (h : Ordered stage store log next roll order)
    (hroll : roll ticket = some (errand, said))
    (hcommits : Commits stage ticket errand (stage.after { store } order) said verdict turns) :
    ∃ order', Ordered stage store log next (Function.update roll ticket (some (errand, verdict))) order' ∧
      turns = stage.after { store } order' := by
  cases hcommits with
  | rest =>
    refine ⟨order, ?_, rfl⟩
    rw [← hroll, Function.update_eq_self]
    exact h
  | turn =>
    refine ⟨order ++ [(ticket, errand)], h.turn hroll rfl, ?_⟩
    rw [Stage.after_append]
    rfl

/-- There is an order in which the calls of a state have taken their turns. -/
def State.IsOrdered (s : State) (stage : Stage) (store : Store) : Prop :=
  ∃ w stands seat order, Simulates stage s w stands seat ∧
    Ordered stage store s.log s.next (s.roll stands) order ∧ w.turns = stage.after { store } order

theorem State.IsOrdered.step (h : s.IsOrdered stage store) (hstep : Step stage.manager s s')
    (htells : s'.log.Tells stage.outside) : s'.IsOrdered stage store := by
  obtain ⟨w, stands, seat, order, hsim, hordered, hturns⟩ := h
  cases hstep with
  | start errand =>
    have hnext : s.flights s.next = none := Option.map_eq_none_iff.mp hordered.roll_next
    refine ⟨w, Function.update stands s.next {}, seat, order, ?_, ?_, hturns⟩
    · rw [← (hsim.away _ hnext).1, Function.update_eq_self]
      exact hsim.start hnext errand
    · rw [State.roll_update rfl]
      exact hordered.start errand
  | @ask ticket errand request next hflight =>
    obtain ⟨seat', hsim'⟩ := hsim.ask hflight
    have hroll : s.roll stands ticket = some (errand, (stands ticket).verdict) :=
      State.roll_eq hflight stands
    refine ⟨w, stands, seat', order, hsim', ?_, hturns⟩
    rw [← Function.update_eq_self ticket stands, State.roll_update rfl]
    change Ordered stage store s.log s.next
      (Function.update (s.roll stands) ticket (some (errand, (stands ticket).verdict))) order
    rw [← hroll, Function.update_eq_self]
    exact hordered
  | @answer ticket errand request next answer store' outside hflight hgrants hserves =>
    obtain ⟨w', st', seat', hsim', hcommits⟩ := hsim.answer hflight hgrants hserves htells
    rw [hturns] at hcommits
    obtain ⟨order', hordered', hturns'⟩ := hordered.commits (State.roll_eq hflight stands) hcommits
    refine ⟨w', Function.update stands ticket st', seat', order', hsim', ?_, hturns'⟩
    rw [State.roll_update rfl]
    exact hordered'.answer (Function.update_self _ _ _) request answer
  | @finish ticket errand outcome hflight =>
    obtain ⟨turns, hsim', hcommits⟩ := hsim.finish hflight
    rw [hturns] at hcommits
    obtain ⟨order', hordered', hturns'⟩ := hordered.commits (State.roll_eq hflight stands) hcommits
    refine ⟨{ w with turns }, Function.update stands ticket {}, seat, order', hsim', ?_, hturns'⟩
    rw [State.roll_update rfl]
    have hended := hordered'.finish (Function.update_self _ _ _)
    rw [Function.update_idem] at hended
    exact hended
  | @shuffle locks hshuffles =>
    exact ⟨w, stands, seat, order, hsim.shuffle hshuffles, hordered, hturns⟩

/-- Nobody has taken a turn in the beginning. -/
theorem State.isOrdered_initial {book : Book} (htable : store.table = book.table) (hbook : book.Sound)
    (hopen : store.shelf.blocked = false) : State.IsOrdered { store } stage store := by
  have hstore : Archive.store ⟨book, store.shelf, []⟩ = store := by
    rw [Archive.store, ← htable]
  refine ⟨⟨⟨book, store.shelf, []⟩, fun _ ↦ none, { store }⟩, fun _ ↦ {}, fun _ ↦ none, [], ?_,
    .initial stage store, rfl⟩
  exact {
    store := hstore
    sent := rfl
    good := ⟨hopen, ⟨book, store.shelf, []⟩, ⟨hstore.symm, rfl⟩, hopen, rfl, .initial hbook⟩
    tracks := fun _ _ hflight ↦ (by cases hflight)
    away := fun _ _ ↦ ⟨rfl, rfl⟩
    orderly := Locks.orderly_initial
    edits := fun _ hedit ↦ absurd rfl hedit
    drafts := fun _ _ _ hdraft ↦ (by cases hdraft) }

theorem Step.log_subset {manager : Manager} (h : Step manager s s') : s.log ⊆ s'.log := by
  cases h with
  | start _ | answer _ _ _ _ | finish _ => exact List.subset_cons_self _ _
  | ask _ | shuffle _ => exact List.Subset.refl _

theorem Reachable.isOrdered {book : Book} (h : Reachable stage.manager store s)
    (htells : s.log.Tells stage.outside) (htable : store.table = book.table) (hbook : book.Sound)
    (hopen : store.shelf.blocked = false) : s.IsOrdered stage store := by
  induction h with
  | refl => exact State.isOrdered_initial htable hbook hopen
  | tail _ hstep ih =>
    refine (ih fun ticket request answer hmem ↦ ?_).step hstep htells
    exact htells ticket request answer (hstep.log_subset hmem)

/-- What calls leave is what calls can begin with, also when some are still on their way. -/
theorem Reachable.sound (h : Reachable manager store s) {book : Book} (htable : store.table = book.table)
    (hbook : book.Sound) (hopen : store.shelf.blocked = false) :
    ∃ book' : Book, s.store.table = book'.table ∧ book'.Sound ∧ s.store.shelf.blocked = false := by
  obtain ⟨outside, htells⟩ := h.exists_tells
  let stage : Stage := ⟨manager, outside, fun _ ↦ .epoch, fun _ ↦ Instant.isReadable_epoch⟩
  have hordered : s.IsOrdered stage store := Reachable.isOrdered h htells htable hbook hopen
  obtain ⟨w, stands, seat, order, hsim, -, -⟩ := hordered
  obtain ⟨mirror, -, -, -, hmirrors⟩ := hsim.good.mirror
  have hstore := hsim.store
  refine ⟨w.here.book, ?_, hmirrors.sound, ?_⟩
  · rw [← hstore]
    rfl
  · rw [← hstore]
    exact hsim.good.open_

/-- The order of turns is as good as the run, when nobody is on the way. -/
theorem State.IsOrdered.linearizes (h : s.IsOrdered stage store) (htells : s.log.Tells stage.outside)
    (hends : ∀ ticket, s.flights ticket = none) : ∃ order, stage.Linearizes store s order := by
  obtain ⟨w, stands, seat, order, hsim, hordered, hturns⟩ := h
  have hroll (ticket : Nat) : s.roll stands ticket = none := Option.map_eq_none_iff.mpr (hends ticket)
  have hstarted (ticket : Nat) (errand : Errand) (hmem : (ticket, .started errand) ∈ s.log) :
      (ticket, errand) ∈ order := by
    rcases hordered.known ticket errand hmem with ⟨verdict, hcall⟩ | hold
    · rw [hroll] at hcall
      cases hcall
    · exact hold
  have hedits (id : String) : w.edit id = none := by
    by_contra hedit
    obtain ⟨ticket, hpiece⟩ := hsim.edits id hedit
    rw [(hsim.away ticket (hends ticket)).1] at hpiece
    cases hpiece
  have houtcome (before : List (Nat × Errand)) (ticket : Nat) (errand : Errand)
      (rest : List (Nat × Errand)) (horder : order = before ++ (ticket, errand) :: rest) :
      ∃ outcome, (ticket, .ended errand outcome) ∈ s.log ∧ errand.verdict outcome =
        errand.verdict (stage.turn (stage.after { store } before) ticket errand).1 := by
    obtain ⟨verdict, hverdict, hsaid⟩ := hordered.outcomes before ticket errand rest horder
    rcases hsaid with hcall | ⟨outcome, hended, hsame⟩
    · rw [hroll] at hcall
      cases hcall
    · exact ⟨outcome, hended, hsame.trans hverdict.symm⟩
  obtain ⟨mirror, hshows, -, hsent, hmirrors⟩ := hsim.good.mirror
  rw [hturns] at hshows
  refine ⟨order, ?_⟩
  exact {
    told := htells
    tickets := hordered.nodup
    calls := fun ticket errand ↦ ⟨hordered.origin ticket errand, hstarted ticket errand⟩
    precedence := by
      intro first second hprecedes
      have hbefore := hordered.precedence first second hprecedes
      obtain ⟨later, earlier, -, -, next, hlog, -, hnext⟩ := hprecedes
      refine hbefore (List.mem_map_of_mem (hstarted second next ?_))
      rw [hlog]
      exact List.mem_append_left earlier hnext
    pieces := by
      refine ⟨w.here.book, mirror.book, ?_, ?_, hmirrors.timeless_eq hedits⟩
      · rw [← hsim.store]
        rfl
      · rw [hshows.store]
        rfl
    sent := by rw [hshows.sent, hsent, hsim.sent]
    ended := by
      intro ticket errand hmem
      obtain ⟨before, rest, horder⟩ := List.append_of_mem hmem
      obtain ⟨outcome, hended, -⟩ := houtcome before ticket errand rest horder
      exact ⟨outcome, hended⟩
    outcomes := by
      intro before ticket errand rest outcome horder hmem
      obtain ⟨outcome', hended, hverdict⟩ := houtcome before ticket errand rest horder
      cases hordered.single _ _ _ _ _ hmem hended
      exact hverdict }

/-! ## Short runs -/

/-- Calls have come so far, and the store is as it is. -/
def Arrives (manager : Manager) (store store' : Store) (next : Nat) (flights : Nat → Option Flight) :
    Prop :=
  ∃ s, Reachable manager store s ∧ s.store = store' ∧ s.next = next ∧ s.flights = flights

namespace Arrives

variable {manager : Manager} {store store' store'' : Store} {next : Nat} {flights : Nat → Option Flight}

theorem initial (manager : Manager) (store : Store) : Arrives manager store store 0 fun _ ↦ none :=
  ⟨{ store }, .refl, rfl, rfl, rfl⟩

theorem start (h : Arrives manager store store' next flights) (errand : Errand) :
    Arrives manager store store' (next + 1)
      (Function.update flights next (some ⟨errand, .running (manager.callFor errand)⟩)) := by
  obtain ⟨s, hs, rfl, rfl, rfl⟩ := h
  exact ⟨_, hs.tail (.start errand), rfl, rfl, rfl⟩

/-- A request that is no matter of locks is made and answered at once. -/
theorem exchange (h : Arrives manager store store' next flights) (ticket : Nat) {errand : Errand}
    {request : Request} {rest : request.Answer → Call (Outcome errand.Answer)} {answer : request.Answer}
    {outside : Outside} (hflight : flights ticket = some ⟨errand, .running (.ask request rest)⟩)
    (hfree : ∀ key, request ≠ .acquire key) (hserves : store'.Serves outside request answer store'') :
    Arrives manager store store'' next
      (Function.update flights ticket (some ⟨errand, .running (rest answer)⟩)) := by
  obtain ⟨s, hs, rfl, rfl, rfl⟩ := h
  have hgrants : (s.locks.hear ticket request).Grants ticket request := by
    cases request with
    | acquire key => exact absurd rfl (hfree key)
    | _ => trivial
  refine ⟨_, (hs.tail (.ask hflight)).tail (.answer outside (Function.update_self _ _ _) hgrants hserves),
    rfl, rfl, ?_⟩
  exact Function.update_idem _ _ _

theorem finish (h : Arrives manager store store' next flights) (ticket : Nat) {errand : Errand}
    {outcome : Outcome errand.Answer}
    (hflight : flights ticket = some ⟨errand, .running (.done outcome)⟩) :
    Arrives manager store store' next (Function.update flights ticket none) := by
  obtain ⟨s, hs, rfl, rfl, rfl⟩ := h
  exact ⟨_, hs.tail (.finish hflight), rfl, rfl, rfl⟩

end Arrives

/-! ## The order of calls -/

/-- Calls beside each other, in whatever order they go on and get their locks, and whatever they are
told from outside, do what the same calls do one after the other, and a call that ended before another
was started comes before it.  The pieces obey their rules in the beginning, as those of an empty table
do and those that calls leave. -/
theorem linearizable (manager : Manager) (clock : Nat → Instant)
    (hclock : ∀ count, (clock count).IsReadable) {store : Store} {book : Book}
    (htable : store.table = book.table) (hbook : book.Sound) (hopen : store.shelf.blocked = false)
    {s : State} (hreach : Reachable manager store s) (hends : ∀ ticket, s.flights ticket = none) :
    ∃ outside order, Stage.Linearizes ⟨manager, outside, clock, hclock⟩ store s order := by
  obtain ⟨outside, htells⟩ := hreach.exists_tells
  let stage : Stage := ⟨manager, outside, clock, hclock⟩
  have hordered : s.IsOrdered stage store := Reachable.isOrdered hreach htells htable hbook hopen
  exact ⟨outside, hordered.linearizes htells hends⟩

/-- Two calls are told the same new id, and the one that was started first is refused. -/
theorem linearizable_of_same_id :
    ∃ s, Reachable Run.keeper {} s ∧ (∀ ticket, s.flights ticket = none) ∧
      (0, .ended (.prepare (.declared none)) (refuse (Table.clash "a" "id"))) ∈ s.log ∧
      ∃ outside order, Stage.Linearizes
        ⟨Run.keeper, outside, fun _ ↦ .epoch, fun _ ↦ Instant.isReadable_epoch⟩ {} s order := by
  classical
  let piece : Piece := .prepare "a" none none .epoch
  obtain ⟨outside, hid⟩ : ∃ outside : Outside, outside .freshId = "a" :=
    ⟨Function.update (fun request ↦ request.nonempty_answer.some) .freshId "a",
      Function.update_self _ _ _⟩
  have hfresh (store : Store) : store.Serves outside .freshId "a" store := by
    rw [← hid]
    exact .outside _ trivial fun heq ↦ (by cases heq)
  have hnow (store : Store) : store.Serves outside .now .epoch store := .now _ Instant.isReadable_epoch
  have hinsert : Store.Serves {} outside (.table (.insert piece)) (.ok ())
      { table := Book.table [piece] } := by
    have hrun : Table.run {} (.insert piece) = (.ok (), Book.table [piece]) :=
      Book.run_insert rfl (Book.piece?_eq_none.mpr fun _ hmem ↦ absurd hmem List.not_mem_nil)
    exact .of_run hrun
  have htaken : Store.Serves { table := Book.table [piece] } outside (.table (.insert piece))
      (refuse (Table.clash "a" "id")) { table := Book.table [piece] } := by
    have hrun : (Book.table [piece]).run (.insert piece) =
        (refuse (Table.clash "a" "id"), Book.table [piece]) :=
      Book.run_insert_taken rfl rfl
    exact .of_run hrun
  have hstart := (Arrives.initial Run.keeper {}).start (.prepare (.declared none))
  have hstart' := hstart.start (.prepare (.declared none))
  have hname := hstart'.exchange 0 rfl (fun _ heq ↦ (by cases heq)) (hfresh _)
  -- the second call does all that it has to do
  have hname' := hname.exchange 1 rfl (fun _ heq ↦ (by cases heq)) (hfresh _)
  have htime' := hname'.exchange 1 rfl (fun _ heq ↦ (by cases heq)) (hnow _)
  have hdone' := htime'.exchange 1 rfl (fun _ heq ↦ (by cases heq)) hinsert
  have hend' := hdone'.finish 1 rfl
  have htime := hend'.exchange 0 rfl (fun _ heq ↦ (by cases heq)) (hnow _)
  obtain ⟨s, hs, -, -, hflights⟩ := htime.exchange 0 rfl (fun _ heq ↦ (by cases heq)) htaken
  have hflight : s.flights 0 =
      some ⟨.prepare (.declared none), .running (.done (refuse (Table.clash "a" "id")))⟩ := by
    rw [hflights]
    rfl
  have hend : Reachable Run.keeper {} _ := hs.tail (.finish hflight)
  have hends (ticket : Nat) : Function.update s.flights 0 none ticket = none := by
    rw [hflights]
    by_cases hfirst : ticket = 0
    · rw [hfirst]
      rfl
    · by_cases hsecond : ticket = 1
      · rw [hsecond]
        rfl
      · simp only [Function.update_of_ne hfirst, Function.update_of_ne hsecond]
  exact ⟨_, hend, hends, List.mem_cons_self,
    linearizable Run.keeper _ _ rfl Book.sound_nil rfl hend hends⟩

end PieceKeeper.Company
