import PieceKeeper.Proofs.Company.Refinement

/-!
# Requests in company

What the requests of an operation make of what its call knows, and whether the call takes its turn at
them.  A call that only reads takes its turn when it has read enough to fail; a call that writes takes
it at the write, except that a submission takes it when the ledger answers.
-/

namespace PieceKeeper.Attempt

open Company

variable {α : Type} {stage : Stage} {ticket : Nat} {errand : Errand} {st : Stand} {id : String}
  {piece written : Piece} {verdict : Verdict} {good : α → Stand → Prop} {bad : Fault → Stand → Prop}

/-! ## Commands to the table -/

/-- A piece is looked up whose lock is held. -/
theorem refines_find {good : Piece → Stand → Prop}
    (hmissing : ∀ mirror : Archive, mirror.Sound → mirror.book.piece? id = none →
      stage.Ends ticket errand mirror (.error .notFound) (· = mirror.book) [])
    (hbad : bad { cause := Operation.notFound id }
      { piece := some id, verdict := some (.error .notFound) })
    (hgood : ∀ piece : Piece, piece.id = id → piece.IsReadable →
      good piece { piece := some id, row := some piece }) :
    (Operation.find id).Refines stage ticket errand good bad { piece := some id } := by
  refine Refines.bind (refines_table fun w hw hfits ↦ ?_)
  obtain ⟨mirror, -, -, -, hm⟩ := hw.mirror
  have hrun := hm.sound.run_find id
  cases hfound : w.here.book.piece? id with
  | none =>
    rw [hfound] at hrun
    obtain ⟨hverdict, hgood⟩ := hw.turn_rest fun mirror hmirror hm ↦
      hmissing mirror hmirror (hm.piece?_eq_none.mpr hfound)
    refine ⟨_, { piece := some id, verdict := some (.error .notFound) }, _, _, _, hrun,
      .keep hgood ⟨?_, hfits.edit, hfits.drafts⟩ rfl rfl (.of_eq hverdict), refines_refuse hbad⟩
    intro other piece _ hrow
    cases hrow
  | some piece =>
    rw [hfound] at hrun
    refine ⟨_, { piece := some id, row := some piece }, _, _, _, hrun,
      .keep hw ⟨?_, hfits.edit, hfits.drafts⟩ rfl rfl (.rest _), ?_⟩
    · intro other found hother hrow
      cases hother
      cases hrow
      exact hfound
    · exact refines_pure (hgood piece (Book.id_of_piece? hfound)
        (hm.sound.readable piece (Book.mem_of_piece? hfound)))

/-- Somebody may hold a content. -/
theorem refines_findContent {contentId : String} {good : Option Piece → Stand → Prop}
    (hheld : ∀ mirror : Archive, mirror.Sound → mirror.book.Has id piece →
      mirror.book.holder? contentId ≠ none →
      stage.Ends ticket errand mirror (.error .conflict) (· = mirror.book) [])
    (hsome : ∀ holder, good (some holder)
      { piece := some id, row := some piece, verdict := some (.error .conflict) })
    (hnone : piece.contentId ≠ some contentId → good none { piece := some id, row := some piece }) :
    (table (.findContent contentId)).Refines stage ticket errand good bad
      { piece := some id, row := some piece } := by
  refine refines_table fun w hw hfits ↦ ?_
  obtain ⟨mirror, -, -, -, hm⟩ := hw.mirror
  have hrun := hm.sound.run_findContent contentId
  cases hholder : w.here.book.holder? contentId with
  | none =>
    rw [hholder] at hrun
    have hmem := Book.mem_of_piece? (hfits.row id piece rfl rfl)
    exact ⟨_, _, _, _, _, hrun, .keep hw hfits rfl rfl (.rest _),
      hnone (Book.holder?_eq_none.mp hholder piece hmem)⟩
  | some holder =>
    rw [hholder] at hrun
    obtain ⟨hverdict, hgood⟩ := hw.turn_rest fun mirror hmirror hm ↦
      hheld mirror hmirror (hfits.has rfl rfl hm) fun hnone ↦ by
        rw [hm.holder?_eq_none.mp hnone] at hholder
        cases hholder
    refine ⟨_, { piece := some id, row := some piece, verdict := some (.error .conflict) }, _, _, _,
      hrun, .keep hgood ⟨hfits.row, hfits.edit, hfits.drafts⟩ rfl rfl (.of_eq hverdict), hsome holder⟩

/-- A new piece is added, unless there is a piece with its id. -/
theorem refines_insert {good : Unit → Stand → Prop} (hread : piece.IsReadable)
    (hcontent : piece.contentId = none)
    (htaken : ∀ mirror : Archive, mirror.Sound → (mirror.book.piece? piece.id).isSome →
      stage.Ends ticket errand mirror (.error .conflict) (· = mirror.book) [])
    (hnew : ∀ mirror : Archive, mirror.Sound → mirror.book.piece? piece.id = none →
      stage.Ends ticket errand mirror verdict (mirror.book.Gains piece) [])
    (hbad : ∀ fault, fault.kind = .conflict → bad fault { verdict := some (.error .conflict) })
    (hgood : good () { verdict := some verdict }) :
    (table (.insert piece)).Refines stage ticket errand good bad {} := by
  refine refines_table fun w hw hfits ↦ ?_
  cases hfound : w.here.book.piece? piece.id with
  | none =>
    obtain ⟨hverdict, hafter⟩ : _ ∧ World.Good ⟨{ w.here with book := w.here.book ++ [piece] }, w.edit,
        (stage.turn w.turns ticket errand).2⟩ := hw.turn hw.open_ (List.append_nil _).symm
      fun mirror hmirror hm ↦
        (hnew mirror hmirror (hm.piece?_eq_none.mpr hfound)).mono fun book hgains ↦ by
          obtain ⟨version, hread', hsame, rfl⟩ := hgains
          exact hm.insert hread hread' hcontent hfound hsame
    refine ⟨_, { verdict := some verdict }, _, w.edit, (stage.turn w.turns ticket errand).2,
      Book.run_insert hcontent hfound, ?_, hgood⟩
    exact {
      good := hafter
      piece := rfl
      draft := rfl
      row := fun _ _ hid ↦ by cases hid
      version := fun _ hid ↦ by cases hid
      rows := fun _ _ _ hother ↦ Book.piece?_append_of_some hother piece
      edits := fun _ _ ↦ rfl
      commits := .of_eq hverdict }
  | some other =>
    obtain ⟨hverdict, hafter⟩ := hw.turn_rest fun mirror hmirror hm ↦
      htaken mirror hmirror (Option.isSome_iff_ne_none.mpr fun hnone ↦ by
        rw [hm.piece?_eq_none.mp hnone] at hfound
        cases hfound)
    have hsome : (w.here.book.piece? piece.id).isSome := by
      rw [hfound]
      rfl
    refine ⟨_, { verdict := some (.error .conflict) }, _, _, _, Book.run_insert_taken hcontent hsome,
      .keep hafter ⟨?_, ?_, hfits.drafts⟩ rfl rfl (.of_eq hverdict), hbad _ rfl⟩
    · intro _ _ hid
      cases hid
    · intro _ hid
      cases hid

/-- A piece is written with the content that it has. -/
theorem refines_settle {good : Bool → Stand → Prop} {expected : Status} (hstatus : piece.status = expected)
    (hid : written.id = piece.id) (hcreated : written.createdAt = piece.createdAt)
    (hcontent : written.contentId = piece.contentId) (hread : written.IsReadable)
    (htakes : ∀ mirror : Archive, mirror.Sound → mirror.book.Has id piece →
      stage.Ends ticket errand mirror verdict (mirror.book.Takes written) [])
    (hgood : good true { piece := some id, row := some written, verdict := some verdict }) :
    (table (.update written expected)).Refines stage ticket errand good bad
      { piece := some id, row := some piece } := by
  refine refines_table fun w hw hfits ↦ ?_
  obtain ⟨mirror, -, -, -, hm⟩ := hw.mirror
  have hfound := hfits.row id piece rfl rfl
  have hid' := hid.trans (Book.id_of_piece? hfound)
  have hfree := hm.sound.free_of_same hfound hcontent
  obtain ⟨hverdict, hafter⟩ : _ ∧ World.Good ⟨{ w.here with book := w.here.book.put written },
      Function.update w.edit id none, (stage.turn w.turns ticket errand).2⟩ :=
    hw.takes hfound hid' hread hfree (fun _ heq ↦ by cases heq) rfl hw.open_ rfl
      (List.append_nil _).symm fun mirror hmirror hm ↦ htakes mirror hmirror (hfits.has rfl rfl hm)
  exact ⟨_, { piece := some id, row := some written, verdict := some verdict }, _, _, _,
    hm.sound.run_update hfound hstatus hid' hcreated hfree,
    .put hfits rfl rfl hid' rfl rfl rfl rfl hafter (.of_eq hverdict), hgood⟩

/-- A piece is written with a new content, unless another piece holds it by now. -/
theorem refines_store {good : Bool → Stand → Prop} {expected : Status} {contentId : String}
    (hstatus : piece.status = expected) (hid : written.id = piece.id)
    (hcreated : written.createdAt = piece.createdAt) (hcontent : written.contentId = some contentId)
    (hown : piece.contentId ≠ some contentId) (hread : written.IsReadable)
    (htakes : ∀ mirror : Archive, mirror.Sound → mirror.book.Has id piece →
      mirror.book.holder? contentId = none →
      stage.Ends ticket errand mirror verdict (mirror.book.Takes written) [])
    (hheld : ∀ mirror : Archive, mirror.Sound → mirror.book.Has id piece →
      mirror.book.holder? contentId ≠ none →
      stage.Ends ticket errand mirror (.error .conflict) (· = mirror.book) [])
    (hbad : ∀ fault, fault.kind = .conflict → bad fault
      { piece := some id, row := some piece, verdict := some (.error .conflict) })
    (hgood : good true { piece := some id, row := some written, verdict := some verdict }) :
    (table (.update written expected)).Refines stage ticket errand good bad
      { piece := some id, row := some piece } := by
  refine refines_table fun w hw hfits ↦ ?_
  obtain ⟨mirror, -, -, -, hm⟩ := hw.mirror
  have hfound := hfits.row id piece rfl rfl
  have hid' := hid.trans (Book.id_of_piece? hfound)
  cases hholder : w.here.book.holder? contentId with
  | none =>
    have hfree : ∀ other ∈ w.here.book, other.id ≠ id → other.contentId = written.contentId →
        written.contentId = none := fun other hother _ hsame ↦
      absurd (hsame.trans hcontent) (Book.holder?_eq_none.mp hholder other hother)
    obtain ⟨hverdict, hafter⟩ : _ ∧ World.Good ⟨{ w.here with book := w.here.book.put written },
        Function.update w.edit id none, (stage.turn w.turns ticket errand).2⟩ :=
      hw.takes hfound hid' hread hfree (fun _ heq ↦ by cases heq) rfl hw.open_ rfl
        (List.append_nil _).symm fun mirror hmirror hm ↦
          htakes mirror hmirror (hfits.has rfl rfl hm) (hm.holder?_eq_none.mpr hholder)
    exact ⟨_, { piece := some id, row := some written, verdict := some verdict }, _, _, _,
      hm.sound.run_update hfound hstatus hid' hcreated hfree,
      .put hfits rfl rfl hid' rfl rfl rfl rfl hafter (.of_eq hverdict), hgood⟩
  | some other =>
    have hother := List.mem_of_find?_eq_some hholder
    have hsame : other.contentId = some contentId := by
      have hsame := List.find?_some hholder
      exact beq_iff_eq.mp hsame
    have hne : other.id ≠ id := by
      intro heq
      have hpiece := hm.sound.eq_of_id hother (Book.mem_of_piece? hfound)
        (heq.trans (Book.id_of_piece? hfound).symm)
      exact hown (hpiece ▸ hsame)
    obtain ⟨hverdict, hafter⟩ := hw.turn_rest fun mirror hmirror hm ↦
      hheld mirror hmirror (hfits.has rfl rfl hm) fun hnone ↦ by
        rw [hm.holder?_eq_none.mp hnone] at hholder
        cases hholder
    exact ⟨_, { piece := some id, row := some piece, verdict := some (.error .conflict) }, _, _, _,
      Book.run_update_clash hfound hstatus hid' hother hne hcontent hsame,
      .keep hafter ⟨hfits.row, hfits.edit, hfits.drafts⟩ rfl rfl (.of_eq hverdict), hbad _ rfl⟩

/-! ## Submissions -/

variable {proofSet : UInt64} {root : Root} {rootCid : String} {now : Instant}

/-- A free piece is claimed, which the turns do not know of yet. -/
theorem refines_claim {good : Bool → Stand → Prop} (hfree : Operation.checkFree piece = .ok ())
    (htransaction : piece.transaction = none) (hid : piece.id = id) (hread : piece.IsReadable)
    (hnow : now.IsReadable)
    (hgood : good true
      { piece := some id, row := some (piece.heldFor proofSet rootCid now), edit := some piece }) :
    (table (.claim piece.id proofSet rootCid now)).Refines stage ticket errand good bad
      { piece := some id, row := some piece } := by
  refine refines_table fun w hw hfits ↦ ?_
  obtain ⟨mirror, -, -, -, hm⟩ := hw.mirror
  have hfound := hfits.row id piece rfl rfl
  have hafter : World.Good ⟨{ w.here with book := w.here.book.put (piece.heldFor proofSet rootCid now) },
      Function.update w.edit id (some piece), w.turns⟩ := by
    refine hw.put hfits rfl rfl hid ?_ rfl ?_ rfl
    · exact hread.heldFor proofSet rootCid hnow
    · rintro _ ⟨⟩
      exact ⟨hid, rfl⟩
  have hrun := hm.sound.run_claim hfound hfree htransaction proofSet rootCid now
  rw [← hid] at hrun
  exact ⟨_, { piece := some id, row := some (piece.heldFor proofSet rootCid now), edit := some piece },
    _, _, _, hrun, .put hfits rfl rfl hid rfl rfl rfl rfl hafter (.rest _), hgood⟩

/-- A piece that has a transaction is not claimed. -/
theorem refines_claim_taken {good : Bool → Stand → Prop} (htransaction : piece.transaction ≠ none)
    (hid : piece.id = id) (hgood : good false { piece := some id, row := some piece }) :
    (table (.claim piece.id proofSet rootCid now)).Refines stage ticket errand good bad
      { piece := some id, row := some piece } := by
  refine refines_table fun w hw hfits ↦ ?_
  obtain ⟨mirror, -, -, -, hm⟩ := hw.mirror
  have hrun := hm.sound.run_claim_taken (hfits.row id piece rfl rfl) htransaction proofSet rootCid now
  rw [← hid] at hrun
  exact ⟨_, _, _, _, _, hrun, .keep hw hfits rfl rfl (.rest _), hgood⟩

/-- The ledger answers, and the turns come to the end of the submission at once. -/
theorem refines_submit {good : Outcome String → Stand → Prop} {held taken : Piece}
    (hends : ∀ mirror : Archive, mirror.Sound → mirror.book.Has id piece →
      stage.Ends ticket errand mirror verdict (mirror.book.Takes taken) [⟨ticket, proofSet, root⟩])
    (htaken : taken.id = id) (hcontent : held.contentId = taken.contentId)
    (hgood : good (stage.outside ticket (.submit proofSet root))
      { piece := some id, row := some held, edit := some taken, verdict := some verdict }) :
    (ask (.submit proofSet root)).Refines stage ticket errand good bad
      { piece := some id, row := some held, edit := some piece } := by
  refine ⟨trivial, fun w hw hfits _ answer store hserves ↦ ?_⟩
  obtain ⟨rfl, rfl⟩ := hserves.outside_eq trivial fun heq ↦ (by cases heq)
  obtain ⟨mirror, -, -, -, hm⟩ := hw.mirror
  have hfound := hfits.row id held rfl rfl
  have hmem := Book.mem_of_piece? hfound
  have hedited : ∀ image, some taken = some image → image.id = id ∧
      held.contentId = image.contentId := by
    rintro _ ⟨⟩
    exact ⟨htaken, hcontent⟩
  obtain ⟨hverdict, hafter⟩ : _ ∧ World.Good ⟨w.here.send [⟨ticket, proofSet, root⟩],
      Function.update w.edit id (some taken), (stage.turn w.turns ticket errand).2⟩ :=
    hw.takes hfound (Book.id_of_piece? hfound) (hm.sound.readable held hmem)
      (hm.sound.free_of_same hfound rfl) hedited rfl hw.open_ (hm.sound.put_self hfound).symm rfl
      fun mirror hmirror hm ↦ hends mirror hmirror (hfits.has rfl rfl hm)
  refine ⟨{ piece := some id, row := some held, edit := some taken, verdict := some verdict },
    ⟨w.here.send [⟨ticket, proofSet, root⟩], Function.update w.edit id (some taken),
      (stage.turn w.turns ticket errand).2⟩, ?_, hgood⟩
  exact {
    store := rfl
    sent := rfl
    good := hafter
    fits := ⟨hfits.row, fun other hother ↦ by cases hother; exact Function.update_self _ _ _, hfits.drafts⟩
    piece := rfl
    spares := ⟨fun _ _ _ hother ↦ hother,
      fun other hother ↦ Function.update_of_ne (fun heq ↦ hother (congrArg some heq.symm)) _ _,
      fun _ _ ↦ rfl, Nat.le_refl _⟩
    freed := fun _ hid ↦ Or.inl hid
    fresh := fun _ hdraft ↦ Or.inl hdraft
    commits := .of_eq hverdict }

/-- What became of a claimed piece is recorded, as the turns have it already. -/
theorem refines_record {good : Unit → Stand → Prop} {held taken : Piece}
    (hstatus : held.status = .uploaded) (hid : written.id = held.id)
    (hcreated : written.createdAt = held.createdAt) (hcontent : written.contentId = held.contentId)
    (hread : written.IsReadable) (hsame : written.timeless = taken.timeless)
    (hgood : good () { piece := some id, row := some written, verdict := some verdict }) :
    (Operation.record written).Refines stage ticket errand good bad
      { piece := some id, row := some held, edit := some taken, verdict := some verdict } := by
  refine Refines.bind (refines_table fun w hw hfits ↦ ?_)
  obtain ⟨mirror, -, -, -, hm⟩ := hw.mirror
  have hfound := hfits.row id held rfl rfl
  have hid' := hid.trans (Book.id_of_piece? hfound)
  have hafter : World.Good ⟨{ w.here with book := w.here.book.put written },
      Function.update w.edit id none, w.turns⟩ :=
    hw.put hfits rfl rfl hid' hread hcontent (fun _ heq ↦ by cases heq) hsame
  exact ⟨_, { piece := some id, row := some written, verdict := some verdict }, _, _, _,
    hm.sound.run_update hfound hstatus hid' hcreated (hm.sound.free_of_same hfound hcontent),
    .put hfits rfl rfl hid' rfl rfl rfl rfl hafter (.rest _), refines_pure hgood⟩

/-! ## Shelving -/

variable {key : String} {content : Bytes} {draft : Nat}

theorem refines_holds {good : Bool → Stand → Prop} (h : ∀ held, good held st) :
    (shelf (.holds key)).Refines stage ticket errand good bad st :=
  refines_shelf (fun _ heq ↦ by cases heq) fun _ _ hdrafts ↦
    ⟨st.draft, hdrafts, fun _ hdraft ↦ Or.inl hdraft, h _⟩

theorem refines_makePlace {good : Except FileFailure Unit → Stand → Prop} (h : good (.ok ()) st) :
    (shelf (.makePlace key)).Refines stage ticket errand good bad st := by
  refine refines_shelf (fun _ heq ↦ by cases heq) fun shelf hopen hdrafts ↦
    ⟨st.draft, ?_, fun _ hdraft ↦ Or.inl hdraft, ?_⟩
  · rw [Shelf.run_makePlace hopen]
    exact hdrafts
  · rw [Shelf.run_makePlace hopen]
    exact h

theorem refines_newDraft {good : Nat → Stand → Prop}
    (h : ∀ draft, good draft { st with draft := some (draft, false) }) :
    (shelf .newDraft).Refines stage ticket errand good bad st := by
  refine refines_shelf (fun _ heq ↦ by cases heq) fun shelf _ _ ↦
    ⟨some (shelf.next, false), ?_, fun _ heq ↦ Or.inr (Option.some.inj heq).symm, h _⟩
  rintro _ _ ⟨⟩
  exact ⟨Nat.lt_succ_self _, fun heq ↦ by cases heq⟩

theorem refines_writeDraft {good : Except FileFailure Unit → Stand → Prop}
    (hlength : key.length ≤ Shelf.longestKey)
    (h : good (.ok ()) { st with draft := some (draft, true) }) :
    (shelf (.writeDraft draft key content)).Refines stage ticket errand good bad
      { st with draft := some (draft, false) } := by
  refine refines_shelf (fun _ heq ↦ heq) fun shelf hopen hdrafts ↦
    ⟨some (draft, true), ?_, fun _ heq ↦ Or.inl heq, ?_⟩
  · rw [Shelf.run_writeDraft hopen hlength]
    rintro _ _ ⟨⟩
    refine ⟨(hdrafts draft false rfl).1, fun _ ↦ ?_⟩
    rw [Shelf.draft?, List.lookup_cons_self]
    rfl
  · rw [Shelf.run_writeDraft hopen hlength]
    exact h

theorem refines_discard {good : Except FileFailure Unit → Stand → Prop}
    (h : good (.ok ()) { st with draft := none }) :
    (shelf (.discard draft)).Refines stage ticket errand good bad
      { st with draft := some (draft, true) } := by
  refine refines_shelf (fun _ heq ↦ heq) fun shelf hopen hdrafts ↦
    ⟨none, fun _ _ heq ↦ (by cases heq), fun _ heq ↦ (by cases heq), ?_⟩
  obtain ⟨content, hcontent⟩ := Option.isSome_iff_exists.mp ((hdrafts draft true rfl).2 rfl)
  rw [Shelf.run_discard hcontent]
  exact h

theorem refines_publish {good : Except FileFailure Unit → Stand → Prop}
    (h : good (.ok ()) { st with draft := none }) :
    (shelf (.publish draft key)).Refines stage ticket errand good bad
      { st with draft := some (draft, true) } := by
  refine refines_shelf (fun _ heq ↦ heq) fun shelf hopen hdrafts ↦
    ⟨none, fun _ _ heq ↦ (by cases heq), fun _ heq ↦ (by cases heq), ?_⟩
  obtain ⟨content, hcontent⟩ := Option.isSome_iff_exists.mp ((hdrafts draft true rfl).2 rfl)
  rw [Shelf.run_publish key hcontent]
  exact h

/-- A content is shelved, whoever else shelves it at the same time. -/
theorem refines_shelve {good : Bool → Stand → Prop} (hdraft : st.draft = none)
    (hkey : Shelf.checkKey key = .ok ()) (hlength : key.length ≤ Shelf.longestKey)
    (h : ∀ written, good written st) :
    (Operation.shelve key content).Refines stage ticket errand good bad st := by
  have hback : { st with draft := none } = st := by rw [← hdraft]
  refine Refines.bind (refines_ofOutcome hkey ?_)
  refine Refines.bind (refines_holds fun held ↦ ?_)
  split
  · exact refines_pure (h false)
  · refine Refines.bind (refines_silent trivial ?_)
    refine Refines.bind (refines_makePlace (Refines.bind (refines_ofFile rfl ?_)))
    refine Refines.bind (refines_newDraft fun draft ↦ ?_)
    refine Refines.bind (refines_silent trivial ?_)
    refine Refines.bind (refines_writeDraft hlength ?_)
    refine Refines.bind (refines_holds fun held ↦ ?_)
    split
    · refine Refines.bind (refines_silent trivial ?_)
      refine Refines.bind (refines_discard (Refines.bind (refines_ofFile rfl ?_)))
      exact refines_pure (hback ▸ h false)
    · refine Refines.bind (refines_silent trivial ?_)
      refine Refines.bind (refines_publish (Refines.bind (refines_ofFile rfl ?_)))
      exact refines_pure (hback ▸ h true)

end PieceKeeper.Attempt
