import PieceKeeper.Proofs.Company.Exits
import PieceKeeper.Proofs.Company.Stand

/-!
# Taking a turn

What the answer to a request makes of the world and of what its call knows, and how this goes along the
combinators that operations are built from.
-/

namespace PieceKeeper

open Company

variable {α β : Type} {stage : Stage} {ticket : Nat} {errand : Errand} {st st' : Stand} {w w' : World}
  {id : String} {piece written : Piece} {verdict : Verdict} {sent : List Submission}

/-! ## Taking a turn -/

namespace Company

theorem Stage.Ends.mono {a : Archive} {change change' : Book → Prop}
    (h : stage.Ends ticket errand a verdict change sent) (hchange : ∀ book, change book → change' book) :
    stage.Ends ticket errand a verdict change' sent :=
  Call.Plays.mono h fun _ _ hend ↦
    ⟨hend.1, hend.2.open_, hchange _ hend.2.book, hend.2.sent⟩

/-- A call takes its turn. -/
theorem World.Good.turn (hw : w.Good) {here : Archive} {edit : String → Option Piece}
    (hopen : here.shelf.blocked = false) (hsent : here.sent = w.here.sent ++ sent)
    (h : ∀ mirror : Archive, mirror.Sound → Book.Mirrors w.edit w.here.book mirror.book →
      stage.Ends ticket errand mirror verdict (Book.Mirrors edit here.book) sent) :
    errand.verdict (stage.turn w.turns ticket errand).1 = verdict ∧
      World.Good ⟨here, edit, (stage.turn w.turns ticket errand).2⟩ := by
  obtain ⟨mirror, hshows, hblocked, hsame, hm⟩ := hw.mirror
  obtain ⟨mirror', hshows', hverdict, hleaves⟩ := h mirror ⟨hm.sound_mirror, hblocked⟩ hm _ hshows
  refine ⟨hverdict, hopen, mirror', hshows', hleaves.open_, ?_, hleaves.book⟩
  rw [hleaves.sent, hsame, hsent]

/-- A call takes a turn that changes nothing. -/
theorem World.Good.turn_rest (hw : w.Good)
    (h : ∀ mirror : Archive, mirror.Sound → Book.Mirrors w.edit w.here.book mirror.book →
      stage.Ends ticket errand mirror verdict (· = mirror.book) []) :
    errand.verdict (stage.turn w.turns ticket errand).1 = verdict ∧
      World.Good { w with turns := (stage.turn w.turns ticket errand).2 } :=
  hw.turn hw.open_ (List.append_nil _).symm fun mirror hmirror hm ↦
    (h mirror hmirror hm).mono fun _ hbook ↦ hbook ▸ hm

/-- The turns have the piece that a call knows, unless they have another version. -/
theorem Stand.Fits.has (hfits : st.Fits w) (hpiece : st.piece = some id) (hrow : st.row = some piece)
    {mirror : Book} (hm : Book.Mirrors w.edit w.here.book mirror) :
    mirror.Has id (st.edit.getD piece) := by
  obtain ⟨image, himage, hsame⟩ := hm.piece?_eq (hfits.row id piece hpiece hrow)
  rw [hfits.edit id hpiece] at hsame
  exact ⟨image, himage, hsame⟩

/-- What will be said of a call at its turn, which changes nothing, is certain. -/
def Stand.Idle (stage : Stage) (ticket : Nat) (errand : Errand) (verdict : Verdict) (st : Stand) : Prop :=
  ∀ w : World, w.Good → st.Fits w →
    errand.verdict (stage.turn w.turns ticket errand).1 = verdict ∧
      World.Good { w with turns := (stage.turn w.turns ticket errand).2 }

theorem Stand.idle_of_ends (hpiece : st.piece = some id) (hrow : st.row = some piece)
    (hedit : st.edit = none)
    (h : ∀ mirror : Archive, mirror.Sound → mirror.book.Has id piece →
      stage.Ends ticket errand mirror verdict (· = mirror.book) []) :
    st.Idle stage ticket errand verdict := by
  intro w hw hfits
  refine hw.turn_rest fun mirror hmirror hm ↦ h mirror hmirror ?_
  have hhas := hfits.has hpiece hrow hm
  rw [hedit] at hhas
  exact hhas

/-- A call has nothing left to do but to give back its lock, and perhaps to take its turn. -/
structure Stand.Leaves (stage : Stage) (ticket : Nat) (errand : Errand) (id : String) (verdict : Verdict)
    (st : Stand) : Prop where
  piece : st.piece = some id
  edit : st.edit = none
  turn : st.verdict = some verdict ∨ st.verdict = none ∧ st.Idle stage ticket errand verdict

/-- A call knows enough to fail, or to end without a change. -/
theorem Stand.leaves_of_ends
    (h : ∀ mirror : Archive, mirror.Sound → mirror.book.Has id piece →
      stage.Ends ticket errand mirror verdict (· = mirror.book) []) :
    Stand.Leaves stage ticket errand id verdict { piece := some id, row := some piece } :=
  ⟨rfl, rfl, Or.inr ⟨rfl, Stand.idle_of_ends rfl rfl rfl h⟩⟩

/-- A call has ended that has nothing left, and its turn has come or may come now. -/
structure Stand.Done (stage : Stage) (ticket : Nat) (errand : Errand) (verdict : Verdict) (st : Stand) :
    Prop where
  piece : st.piece = none
  turn : st.verdict = some verdict ∨ st.verdict = none ∧ st.Idle stage ticket errand verdict

/-! ## Steps of a turn -/

theorem Stand.Spares.refl (st : Stand) (w : World) : st.Spares w w :=
  ⟨fun _ _ _ h ↦ h, fun _ _ ↦ rfl, fun _ _ ↦ rfl, Nat.le_refl _⟩

/-- The answer to a request changes nothing. -/
theorem Turn.still {request : Request} (hw : w.Good) (hfits : st.Fits w)
    (hseat : request.seat st.piece = st.piece) (hsends : request.sends ticket = []) :
    Turn stage ticket errand request w.here.store st st w w where
  store := rfl
  sent := by rw [hsends, List.append_nil]
  good := hw
  fits := hfits
  piece := hseat.symm
  spares := .refl st w
  freed _ hid := Or.inl hid
  fresh _ hdraft := Or.inl hdraft
  commits := .rest _

/-- A lock is given back, and the turns may go on. -/
theorem Turn.release {key : LockKey} {turns : Turns} (hfits : st.Fits w) (hedit : st.edit = none)
    (hgood : World.Good { w with turns })
    (hcommits : Commits stage ticket errand w.turns st.verdict (some verdict) turns) :
    Turn stage ticket errand (.release key) w.here.store st { verdict := some verdict } w
      { w with turns } where
  store := rfl
  sent := (List.append_nil _).symm
  good := hgood
  fits := by
    refine ⟨?_, ?_, ?_⟩
    · intro _ _ hid
      cases hid
    · intro _ hid
      cases hid
    · intro _ _ hdraft
      cases hdraft
  piece := rfl
  spares := ⟨fun _ _ _ hfound ↦ hfound, fun _ _ ↦ rfl, fun _ _ ↦ rfl, Nat.le_refl _⟩
  freed id hid := Or.inr ((hfits.edit id hid).trans hedit)
  fresh _ hdraft := by cases hdraft
  commits := hcommits

/-- What an answer of the table makes of what a call knows. -/
structure Writes (stage : Stage) (ticket : Nat) (errand : Errand) (st st' : Stand) (w : World)
    (book : Book) (edit : String → Option Piece) (turns : Turns) : Prop where
  good : World.Good ⟨{ w.here with book }, edit, turns⟩
  piece : st'.piece = st.piece
  draft : st'.draft = st.draft
  row : ∀ id piece, st.piece = some id → st'.row = some piece → book.piece? id = some piece
  version : ∀ id, st.piece = some id → edit id = st'.edit
  rows : ∀ id piece, st.piece ≠ some id → w.here.book.piece? id = some piece →
    book.piece? id = some piece
  edits : ∀ id, st.piece ≠ some id → edit id = w.edit id
  commits : Commits stage ticket errand w.turns st.verdict st'.verdict turns

/-- The table stays as it is. -/
theorem Writes.keep {turns : Turns} (hgood : World.Good { w with turns }) (hfits : st'.Fits w)
    (hpiece : st'.piece = st.piece) (hdraft : st'.draft = st.draft)
    (hcommits : Commits stage ticket errand w.turns st.verdict st'.verdict turns) :
    Writes stage ticket errand st st' w w.here.book w.edit turns where
  good := hgood
  piece := hpiece
  draft := hdraft
  row id piece hid hrow := hfits.row id piece (hpiece.trans hid) hrow
  version id hid := hfits.edit id (hpiece.trans hid)
  rows _ _ _ h := h
  edits _ _ := rfl
  commits := hcommits

/-- The piece of a call is written. -/
theorem Writes.put {edited : Option Piece} {turns : Turns} (hfits : st.Fits w)
    (hpiece : st.piece = some id) (hrow : st.row = some piece) (hid : written.id = id)
    (hpiece' : st'.piece = st.piece) (hdraft' : st'.draft = st.draft)
    (hrow' : st'.row = some written) (hedit' : st'.edit = edited)
    (hgood : World.Good ⟨{ w.here with book := w.here.book.put written },
      Function.update w.edit id edited, turns⟩)
    (hcommits : Commits stage ticket errand w.turns st.verdict st'.verdict turns) :
    Writes stage ticket errand st st' w (w.here.book.put written) (Function.update w.edit id edited)
      turns where
  good := hgood
  piece := hpiece'
  draft := hdraft'
  row other found hother hfound := by
    obtain rfl : id = other := Option.some.inj (hpiece.symm.trans hother)
    obtain rfl : written = found := Option.some.inj (hrow'.symm.trans hfound)
    subst hid
    exact Book.piece?_put (hfits.row _ piece hpiece hrow)
  version other hother := by
    obtain rfl : id = other := Option.some.inj (hpiece.symm.trans hother)
    rw [Function.update_self, hedit']
  rows other found hother hfound := by
    have hne : other ≠ written.id := by
      rintro rfl
      exact hother (hid ▸ hpiece)
    rw [Book.piece?_put_of_ne hne]
    exact hfound
  edits other hother := by
    have hne : other ≠ id := by
      rintro rfl
      exact hother hpiece
    exact Function.update_of_ne hne _ _
  commits := hcommits

/-- The turns can stay where they are when a piece is written. -/
theorem World.Good.put (hw : w.Good) {edited : Option Piece} (hfits : st.Fits w)
    (hpiece : st.piece = some id) (hrow : st.row = some piece) (hid : written.id = id)
    (hread : written.IsReadable) (hcontent : written.contentId = piece.contentId)
    (hedited : ∀ image, edited = some image → image.id = id ∧ written.contentId = image.contentId)
    (hsame : (edited.getD written).timeless = (st.edit.getD piece).timeless) :
    World.Good ⟨{ w.here with book := w.here.book.put written }, Function.update w.edit id edited,
      w.turns⟩ := by
  obtain ⟨mirror, hshows, hblocked, hsent, hm⟩ := hw.mirror
  obtain ⟨image, himage, htimeless⟩ := hfits.has hpiece hrow hm
  have hfound := hfits.row id piece hpiece hrow
  refine ⟨hw.open_, mirror, hshows, hblocked, hsent, ?_⟩
  subst hid
  rw [← hm.sound_mirror.put_self himage]
  refine hm.put hfound hread (hm.readable image (Book.mem_of_piece? himage))
    (hm.sound.free_of_same hfound hcontent) (Book.id_of_piece? himage) hedited ?_
  rw [htimeless, hsame]

/-- A call takes its turn, and other versions of its piece come to the table and to the turns. -/
theorem World.Good.takes (hw : w.Good) {here : Archive} {taken : Piece} {edited : Option Piece}
    (hfound : w.here.book.piece? id = some piece) (hid : written.id = id) (hread : written.IsReadable)
    (hfree : ∀ other ∈ w.here.book, other.id ≠ id → other.contentId = written.contentId →
      written.contentId = none)
    (hedited : ∀ image, edited = some image → image.id = id ∧ written.contentId = image.contentId)
    (hsame : taken.timeless = (edited.getD written).timeless) (hopen : here.shelf.blocked = false)
    (hbook : here.book = w.here.book.put written) (hsent : here.sent = w.here.sent ++ sent)
    (h : ∀ mirror : Archive, mirror.Sound → Book.Mirrors w.edit w.here.book mirror.book →
      stage.Ends ticket errand mirror verdict (mirror.book.Takes taken) sent) :
    errand.verdict (stage.turn w.turns ticket errand).1 = verdict ∧
      World.Good ⟨here, Function.update w.edit id edited, (stage.turn w.turns ticket errand).2⟩ := by
  refine hw.turn hopen hsent fun mirror hmirror hm ↦ (h mirror hmirror hm).mono fun book htakes ↦ ?_
  obtain ⟨version, hread', hversion, rfl⟩ := htakes
  have hversionId : version.id = (edited.getD written).id := by
    have htimeless := congrArg Piece.id (hversion.trans hsame)
    exact htimeless
  have heditedId : (edited.getD written).id = written.id := by
    cases edited with
    | none => rfl
    | some image => exact (hedited image rfl).1.trans hid.symm
  subst hid
  rw [hbook]
  exact hm.put hfound hread hread' hfree (hversionId.trans heditedId) hedited (hversion.trans hsame)

end Company

/-- A call whose requests are silent ends as it would with nobody beside it. -/
theorem Call.refines_silent {post : α → Stand → Prop} {call : Call α} (hsilent : call.IsSilent)
    (h : post (call.resolve (stage.outside ticket)) st) :
    call.Refines stage ticket errand post st := by
  induction call with
  | done answer => exact h
  | ask request next ih =>
    obtain ⟨hrequest, hnext⟩ := hsilent
    have hplain : request.IsOutside ∧ request ≠ .now ∧ request.seat st.piece = st.piece ∧
        request.sends ticket = [] ∧ request.IsFair stage.manager.locks st.piece := by
      cases request with
      | table _ | shelf _ | now | acquire _ | release _ | submit _ _ => exact hrequest.elim
      | _ => exact ⟨trivial, fun heq ↦ (by cases heq), rfl, rfl, trivial⟩
    obtain ⟨houtside, hnow, hseat, hsends, hfair⟩ := hplain
    refine ⟨hfair, fun w hw hfits _ answer store hserves ↦ ?_⟩
    obtain ⟨rfl, rfl⟩ := hserves.outside_eq houtside hnow
    exact ⟨st, w, .still hw hfits hseat hsends, ih _ (hnext _) h⟩

/-! ## Attempts in company -/

namespace Attempt

variable {good : α → Stand → Prop} {bad : Fault → Stand → Prop}

/-- Whatever an attempt is answered, it takes no more than one turn, and in the end its answer
satisfies `good`, or its fault `bad`. -/
def Refines (stage : Stage) (ticket : Nat) (errand : Errand) (good : α → Stand → Prop)
    (bad : Fault → Stand → Prop) (attempt : Attempt α) (st : Stand) : Prop :=
  Call.Refines stage ticket errand (Concludes good bad) attempt.run st

theorem refines_pure {answer : α} (h : good answer st) :
    (pure answer : Attempt α).Refines stage ticket errand good bad st := h

theorem refines_refuse {cause : Cause} (h : bad { cause } st) :
    (refuse cause : Attempt α).Refines stage ticket errand good bad st := h

theorem refines_ofOutcome {outcome result : Outcome α} (houtcome : outcome = result)
    (h : Concludes good bad result st) :
    (ofOutcome outcome).Refines stage ticket errand good bad st := by
  rw [houtcome]
  exact h

theorem refines_ofFile {result : Except FileFailure α} {answer : α} (hresult : result = .ok answer)
    (h : good answer st) : (ofFile result).Refines stage ticket errand good bad st := by
  rw [hresult]
  exact h

theorem Refines.bind {good : β → Stand → Prop} {attempt : Attempt α} {next : α → Attempt β}
    (h : attempt.Refines stage ticket errand
      (fun answer ↦ (next answer).Refines stage ticket errand good bad) bad st) :
    (attempt >>= next).Refines stage ticket errand good bad st := by
  refine Call.Refines.bind (Call.Refines.mono h fun outcome st hend ↦ ?_)
  cases outcome with
  | ok answer => exact hend
  | error fault => exact hend

theorem Refines.mono {good' : α → Stand → Prop} {bad' : Fault → Stand → Prop} {attempt : Attempt α}
    (h : attempt.Refines stage ticket errand good bad st)
    (hgood : ∀ answer st, good answer st → good' answer st)
    (hbad : ∀ fault st, bad fault st → bad' fault st) :
    attempt.Refines stage ticket errand good' bad' st := by
  refine Call.Refines.mono h fun outcome st hend ↦ ?_
  cases outcome with
  | ok answer => exact hgood _ _ hend
  | error fault => exact hbad _ _ hend

theorem Refines.within {attempt : Attempt α} {operation name : String}
    (h : attempt.Refines stage ticket errand good (fun fault ↦ bad (fault.within operation name)) st) :
    (attempt.within operation name).Refines stage ticket errand good bad st := by
  refine Call.Refines.bind (Call.Refines.mono h fun outcome st hend ↦ ?_)
  cases outcome with
  | ok answer => exact hend
  | error fault => exact hend

/-- A call that cannot fail, as an attempt. -/
theorem refines_lift {call : Call α} (h : call.Refines stage ticket errand good st) :
    Refines stage ticket errand good bad (ExceptT.lift call) st :=
  Call.Refines.bind h

/-! ## Requests -/

theorem refines_silent {request : Request} {good : request.Answer → Stand → Prop}
    (hsilent : request.IsSilent) (h : good (stage.outside ticket request) st) :
    (ask request).Refines stage ticket errand good bad st :=
  Call.refines_silent ⟨hsilent, fun _ ↦ trivial⟩ h

theorem refines_measure {source : Source} {good : Option String × Option UInt64 → Stand → Prop}
    (h : Concludes good bad (source.measured (stage.outside ticket)) st) :
    source.measure.Refines stage ticket errand good bad st :=
  Call.refines_silent source.measure_isSilent h

theorem refines_now {good : Instant → Stand → Prop}
    (h : ∀ instant, instant.IsReadable → good instant st) :
    (ask .now).Refines stage ticket errand good bad st := by
  refine ⟨trivial, fun w hw hfits _ instant store hserves ↦ ?_⟩
  obtain ⟨hread, rfl⟩ := hserves.now_eq
  exact ⟨st, w, .still hw hfits rfl rfl, h instant hread⟩

theorem refines_lookup {hash : String} {good : Option TransactionRecord → Stand → Prop}
    {answer : Outcome (Option TransactionRecord)} (hanswer : stage.outside ticket (.lookup hash) = answer)
    (h : Concludes good bad answer st) :
    Refines stage ticket errand good bad (ExceptT.mk (Call.request (.lookup hash))) st := by
  refine ⟨trivial, fun w hw hfits _ answer store hserves ↦ ?_⟩
  obtain ⟨rfl, rfl⟩ := hserves.outside_eq trivial fun heq ↦ (by cases heq)
  rw [hanswer]
  exact ⟨st, w, .still hw hfits rfl rfl, h⟩

/-- The table answers, and has another book then. -/
theorem refines_table {command : Table.Command} {good : command.Answer → Stand → Prop}
    (h : ∀ w : World, w.Good → st.Fits w → ∃ outcome st' book edit turns,
      w.here.book.table.run command = (outcome, book.table) ∧
      Writes stage ticket errand st st' w book edit turns ∧ Concludes good bad outcome st') :
    (table command).Refines stage ticket errand good bad st := by
  refine ⟨trivial, fun w hw hfits _ answer store hserves ↦ ?_⟩
  obtain ⟨rfl, rfl⟩ := hserves.table_eq
  obtain ⟨outcome, st', book, edit, turns, hrun, hwrites, hend⟩ := h w hw hfits
  refine ⟨st', ⟨{ w.here with book }, edit, turns⟩, ?_, ?_⟩
  · exact {
      store := congrArg (Store.mk · w.here.shelf) (congrArg Prod.snd hrun).symm
      sent := (List.append_nil _).symm
      good := hwrites.good
      fits := {
        row := fun id piece hid ↦ hwrites.row id piece (hwrites.piece.symm.trans hid)
        edit := fun id hid ↦ hwrites.version id (hwrites.piece.symm.trans hid)
        drafts := fun draft written hdraft ↦
          hfits.drafts draft written (hwrites.draft.symm.trans hdraft) }
      piece := hwrites.piece
      spares := ⟨hwrites.rows, hwrites.edits, fun _ _ ↦ rfl, Nat.le_refl _⟩
      freed := fun id hid ↦ Or.inl (hwrites.piece.trans hid)
      fresh := fun draft hdraft ↦ Or.inl (hwrites.draft ▸ hdraft)
      commits := hwrites.commits }
  · have hanswer : (w.here.store.table.run command).1 = outcome := congrArg Prod.fst hrun
    rw [hanswer]
    cases outcome with
    | ok answer => exact hend
    | error fault => exact hend

/-- The shelf answers, and the call has another draft, or another part of it. -/
theorem refines_shelf {command : Shelf.Command} {good : command.Answer → Stand → Prop}
    (hown : ∀ draft, (Request.shelf command).draft? = some draft → st.draft.map Prod.fst = some draft)
    (h : ∀ shelf : Shelf, shelf.blocked = false → st.Drafts shelf → ∃ draft,
      ({ st with draft } : Stand).Drafts (shelf.run command).2 ∧
      (∀ number, draft.map Prod.fst = some number →
        st.draft.map Prod.fst = some number ∨ number = shelf.next) ∧
      good (shelf.run command).1 { st with draft }) :
    (shelf command).Refines stage ticket errand good bad st := by
  refine ⟨trivial, fun w hw hfits _ answer store hserves ↦ ?_⟩
  obtain ⟨rfl, rfl⟩ := hserves.shelf_eq
  obtain ⟨draft, hdrafts, hfresh, hend⟩ := h w.here.shelf hw.open_ hfits.drafts
  have hkeeps := w.here.shelf.keeps_run command
  refine ⟨{ st with draft }, { w with here := { w.here with shelf := (w.here.shelf.run command).2 } },
    ?_, hend⟩
  obtain ⟨mirror, hmirror⟩ := hw.mirror
  exact {
    store := rfl
    sent := (List.append_nil _).symm
    good := ⟨hkeeps.blocked.trans hw.open_, mirror, hmirror⟩
    fits := ⟨hfits.row, hfits.edit, hdrafts⟩
    piece := rfl
    spares := ⟨fun _ _ _ hfound ↦ hfound, fun _ _ ↦ rfl,
      fun draft hdraft ↦ hkeeps.drafts draft fun hasked ↦ hdraft (hown draft hasked), hkeeps.next⟩
    freed := fun _ hid ↦ Or.inl hid
    fresh := hfresh
    commits := .rest _ }

/-! ## Locks -/

/-- An attempt is made while a lock is held, and at the latest its turn comes when the lock is given
back. -/
theorem Refines.holding {attempt : Attempt α} {key : LockKey} (verdictOf : Outcome α → Verdict)
    (hgroup : key.group = stage.manager.locks)
    (h : attempt.Refines stage ticket errand
      (fun answer ↦ Stand.Leaves stage ticket errand key.piece (verdictOf (.ok answer)))
      (fun fault ↦ Stand.Leaves stage ticket errand key.piece (verdictOf (.error fault)))
      { piece := some key.piece }) :
    (attempt.holding key).Refines stage ticket errand
      (fun answer ↦ Stand.Done stage ticket errand (verdictOf (.ok answer)))
      (fun fault ↦ Stand.Done stage ticket errand (verdictOf (.error fault))) {} := by
  have hrelease (outcome : Outcome α) (st : Stand)
      (hleaves : st.Leaves stage ticket errand key.piece (verdictOf outcome)) :
      Call.Refines stage ticket errand (Concludes
        (fun answer ↦ Stand.Done stage ticket errand (verdictOf (.ok answer)))
        (fun fault ↦ Stand.Done stage ticket errand (verdictOf (.error fault))))
      (.ask (.release key) fun _ ↦ .done outcome) st := by
    refine ⟨hleaves.piece, fun w hw hfits _ answer store hserves ↦ ?_⟩
    obtain ⟨-, rfl⟩ := hserves.outside_eq trivial fun heq ↦ (by cases heq)
    have hend : Concludes (fun answer ↦ Stand.Done stage ticket errand (verdictOf (.ok answer)))
        (fun fault ↦ Stand.Done stage ticket errand (verdictOf (.error fault))) outcome
        { verdict := some (verdictOf outcome) } := by
      cases outcome with
      | ok answer => exact ⟨rfl, Or.inl rfl⟩
      | error fault => exact ⟨rfl, Or.inl rfl⟩
    rcases hleaves.turn with hverdict | ⟨hverdict, hidle⟩
    · exact ⟨_, w, .release hfits hleaves.edit hw (hverdict ▸ .rest _), hend⟩
    · obtain ⟨hsaid, hgood⟩ := hidle w hw hfits
      exact ⟨_, _, .release hfits hleaves.edit hgood (hverdict ▸ .of_eq hsaid), hend⟩
  change Call.Refines stage ticket errand _ (.ask (.acquire key) fun _ ↦ attempt.run.bind fun outcome ↦
    .ask (.release key) fun _ ↦ .done outcome) {}
  refine ⟨⟨rfl, hgroup⟩, fun w hw hfits hfree answer store hserves ↦ ?_⟩
  obtain ⟨-, rfl⟩ := hserves.outside_eq trivial fun heq ↦ (by cases heq)
  refine ⟨{ piece := some key.piece }, w, ?_, ?_⟩
  · exact {
      store := rfl
      sent := (List.append_nil _).symm
      good := hw
      fits := by
        refine ⟨?_, ?_, hfits.drafts⟩
        · intro _ _ _ hrow
          cases hrow
        · rintro _ ⟨⟩
          exact hfree key rfl
      piece := rfl
      spares := .refl _ w
      freed := fun _ hid ↦ by cases hid
      fresh := fun _ hdraft ↦ Or.inl hdraft
      commits := .rest _ }
  · refine Call.Refines.bind (Call.Refines.mono h fun outcome st hleaves ↦ hrelease outcome st ?_)
    cases outcome with
    | ok answer => exact hleaves
    | error fault => exact hleaves

end Attempt

end PieceKeeper
