import PieceKeeper.Proofs.Commitment.Streaming
import PieceKeeper.Proofs.Run.Blank
import PieceKeeper.Proofs.Run.Contents

/-!
# Faithful contents

A content is read back as it was uploaded in every run, exactly if no other content shares its
content id.  The zeros that fill the last quad are part of no id, so short contents do share
theirs: when the upload of one loses its row after its blob was published, the other finds the blob
in its place and keeps it.
-/

namespace PieceKeeper

/-- Two contents that are not empty have one content id. -/
def SharesId (body other : Bytes) : Prop :=
  ∃ committed committed' : CommittedPiece, committed.Of body ∧ committed'.Of other ∧
    committed'.contentId = committed.contentId

theorem SharesId.symm {body other : Bytes} (h : SharesId body other) : SharesId other body := by
  obtain ⟨committed, committed', hof, hof', hid⟩ := h
  exact ⟨committed', committed, hof', hof, hid.symm⟩

namespace Run

variable {s s' : State} {body other : Bytes}

/-- A call could not read the row of its piece, or what is shelved. -/
def Unread (history : History) (id : String) : Prop :=
  (∃ fault, Event.answered (.table (.find id)) (.error fault) ∈ history) ∨
    ∃ key failure, Event.answered (.shelf (.read key)) (.error failure) ∈ history

/-- A reading gives back what was uploaded, and of the recorded sizes. -/
structure Restores (body : Bytes) (piece : Piece) (outcome : Outcome Bytes) : Prop where
  outcome_eq : outcome = .ok (pad body)
  paddedSize : piece.paddedSize = some (UInt64.ofNat (pad body).length)
  rawSize : piece.rawSize = some (UInt64.ofNat body.length)
  take_eq : (pad body).take body.length = body

/-- Whatever else happens, a content is read back once its upload has ended well. -/
def Faithful (body : Bytes) : Prop :=
  ∀ s, Reachable s → ∀ ticket id piece, .ended (.upload id body) (.ok piece) ∈ s.log.of ticket →
    ∀ s', Reaches s s' → ∀ reader, s.next ≤ reader →
      ∀ outcome, .ended (.content id) outcome ∈ s'.log.of reader →
        Unread (s'.log.of reader) id ∨ Restores body piece outcome

/-- An upload that ended well has recorded its body. -/
theorem Reachable.uploaded (hs : Reachable s) {ticket : Nat} {id : String} {piece : Piece}
    (hended : .ended (.upload id body) (.ok piece) ∈ s.log.of ticket) :
    ∃ committed : CommittedPiece, committed.Of body ∧
      (∃ found now, piece = Piece.uploadedAs found (UInt64.ofNat body.length) committed now) ∧
      Shelf.checkKey committed.contentId = .ok () ∧
      s.chronicle.Fixes id (.text committed.contentId) ∧
      (s.store.shelf.blob? committed.contentId).isSome := by
  obtain ⟨job, hentry⟩ := Log.mem_of.mp hended
  obtain ⟨history, hsub, hstored⟩ := hs.chronicle.concludes hentry
  obtain ⟨offered, committed, hoffers, hof, hrest⟩ :=
    hs.chronicle.stored (Task.Stored.mono hstored hsub)
  rcases hoffers with htask | ⟨htask, -⟩
  · cases htask
    exact ⟨committed, hof, hrest⟩
  · cases htask

/-- What is shelved under the id of an uploaded content shares its id, for good. -/
theorem Reachable.shelved (hs : Reachable s) {ticket : Nat} {id : String} {piece : Piece}
    (hended : .ended (.upload id body) (.ok piece) ∈ s.log.of ticket) (h : Reaches s s') :
    ∃ key other, piece.contentId = some key ∧ SharesId body other ∧
      s'.store.shelf.blob? key = some (pad other) := by
  obtain ⟨committed, hof, ⟨found, now, rfl⟩, -, -, hblob⟩ := hs.uploaded hended
  obtain ⟨content, hcontent⟩ := Option.isSome_iff_exists.mp ((h.chronicle hs.lawful).held hblob)
  have hs' : Reachable s' := Relation.ReflTransGen.trans hs h
  obtain ⟨other, committed', hof', hid, rfl⟩ := hs'.chronicle.exists_of_blob hcontent
  rw [CommittedPiece.padded_eq hof'.2] at hcontent
  exact ⟨_, other, rfl, ⟨committed, committed', hof, hof', hid⟩, hcontent⟩

/-- What is read back of an uploaded content shares its id. -/
theorem Reachable.content (hs : Reachable s) {ticket : Nat} {id : String} {piece : Piece}
    (hended : .ended (.upload id body) (.ok piece) ∈ s.log.of ticket) (h : Reaches s s')
    {reader : Nat} (hreader : s.next ≤ reader) {outcome : Outcome Bytes}
    (hread : .ended (.content id) outcome ∈ s'.log.of reader) :
    Unread (s'.log.of reader) id ∨ ∃ other, SharesId body other ∧ outcome = .ok (pad other) := by
  obtain ⟨committed, hof, -, hkey, hfixes, hblob⟩ := hs.uploaded hended
  have hfresh : s.chronicle.log.of reader = [] := (hs.lawful.fresh reader hreader).2
  rcases (h.chronicle hs.lawful).unshelved hs.chronicle hfixes hkey hblob hfresh hread with
    hfault | hfailed | ⟨other, committed', hof', hid, rfl⟩
  · exact Or.inl (Or.inl hfault)
  · exact Or.inl (Or.inr ⟨_, hfailed⟩)
  · rw [CommittedPiece.padded_eq hof'.2]
    exact Or.inr ⟨other, ⟨committed, committed', hof, hof', hid⟩, rfl⟩

/-- A content that shares its id with no other is read back. -/
theorem faithful_of_unique (h : ∀ other, SharesId body other → pad other = pad body) :
    Faithful body := by
  intro s hs ticket id piece hended s' hreaches reader hreader outcome hread
  refine (hs.content hended hreaches hreader hread).imp_right fun ⟨other, hshares, houtcome⟩ ↦ ?_
  obtain ⟨committed, hof, ⟨found, now, rfl⟩, -⟩ := hs.uploaded hended
  rw [h other hshares] at houtcome
  refine ⟨houtcome, ?_, rfl, take_length_pad body⟩
  rw [← CommittedPiece.padded_eq hof.2]
  rfl

/-! ## A run that mixes up two contents -/

/-- The upload of a content can lose its row, but not its blob. -/
theorem exists_lost {committed : CommittedPiece} (hof : committed.Of other) :
    ∃ s : State, s.Rests ∧ s.store =
      { table := { rows := blanks ["a", "b"] }
        shelf := ({} : Shelf).stock committed.contentId committed.padded } := by
  obtain ⟨s, hs, hstore⟩ := exists_blanks ["a", "b"] (by decide)
  obtain ⟨s', -, hs', hstore'⟩ := hs.weather (some ⟨.row "a", false⟩) none
  rw [hstore] at hstore'
  have hlost : (keeper.upload "a" other).Yields ⟨s'.store, false, [.started]⟩
      (.error (Fault.within { cause := Table.unavailable } "upload" "a"))
      { s'.store with shelf := ({} : Shelf).stock committed.contentId committed.padded } := by
    rw [hstore']
    exact Manager.yields_upload_error rfl (Operation.yields_uploadLocked .epoch
      (Table.run_find rfl rfl (toPiece_blank "a")) (checkContent_blank "a" hof.1) hof.2
      (Table.run_findContent rfl (contentId_blanks _ _))
      (fun history ↦ Operation.yields_shelve_new committed.checkKey_contentId
        committed.length_contentId_le rfl rfl)
      (Table.run_update_disturbed rfl rfl rfl (mem_blanks List.mem_cons_self) ⟨rfl, rfl⟩))
  obtain ⟨_, hruns⟩ := hlost
  obtain ⟨t, -, ht, -, htable, -⟩ := hs'.perform ⟨keeper, .upload "a" other⟩ hruns rfl
  obtain ⟨t', -, ht', htable'⟩ := ht.weather none none
  exact ⟨t', ht', by rw [htable', htable, hstore']⟩

/-- What is read of the second piece is the blob of the first. -/
theorem not_faithful_of_shared (h : SharesId body other) (hpad : pad other ≠ pad body) :
    ¬ Faithful body := by
  obtain ⟨committed, committed', hof, hof', hid⟩ := h
  obtain ⟨s, hs, hstore⟩ := exists_lost hof'
  have hblob : s.store.shelf.blob? committed.contentId = some committed'.padded := by
    rw [hstore, ← hid]
    exact List.lookup_cons_self
  have hblocked : s.store.shelf.blocked = false := hs.reachable.chronicle.not_blocked
  have hkept : (keeper.upload "b" body).Yields ⟨s.store, false, [.started]⟩ _ _ :=
    yields_upload rfl hstore (List.mem_cons_of_mem _ List.mem_cons_self) hof
      fun held history ↦ Operation.yields_shelve_held committed.checkKey_contentId hblob hblocked
  obtain ⟨_, hruns⟩ := hkept
  obtain ⟨t, -, ht, -, hstore', hended, -⟩ := hs.perform ⟨keeper, .upload "b" body⟩ hruns rfl
  have hcontent : (keeper.content "b").Runs ⟨t.store, false, [.started]⟩ _ _ :=
    Manager.runs_content (by
      rw [hstore']
      exact Table.run_find rfl rfl (toPiece_filled "b" body committed)) rfl
      committed.checkKey_contentId (by rw [hstore']; exact hblob) (by rw [hstore']; exact hblocked)
  obtain ⟨t', hreaches, -, -, -, hended', -⟩ := ht.perform ⟨keeper, .content "b"⟩ hcontent rfl
  intro hfaithful
  rcases hfaithful t ht.reachable s.next "b" _ (by rw [hended]; exact List.mem_cons_self) t' hreaches
    t.next (Nat.le_refl _) (.ok committed'.padded) (by rw [hended']; exact List.mem_cons_self) with
    hunread | hrestores
  · rw [hended'] at hunread
    simp [Unread, Scene.exchange] at hunread
  · have hsame := Except.ok.inj hrestores.outcome_eq
    rw [CommittedPiece.padded_eq hof'.2] at hsame
    exact hpad hsame

/-- A content is read back in every run, exactly if whatever shares its content id is the same when
padded.  In any case something is there to be read for good, and what is read shares the content
id. -/
theorem content_faithful_iff (body : Bytes) :
    (Faithful body ↔ ∀ other, SharesId body other → pad other = pad body) ∧
    ∀ s, Reachable s → ∀ ticket id piece, .ended (.upload id body) (.ok piece) ∈ s.log.of ticket →
      ∀ s', Reaches s s' →
        (∃ key other, piece.contentId = some key ∧ SharesId body other ∧
          s'.store.shelf.blob? key = some (pad other)) ∧
        ∀ reader, s.next ≤ reader →
          ∀ outcome, .ended (.content id) outcome ∈ s'.log.of reader →
            Unread (s'.log.of reader) id ∨ ∃ other, SharesId body other ∧ outcome = .ok (pad other) := by
  refine ⟨⟨fun hfaithful other hshares ↦ ?_, faithful_of_unique⟩, ?_⟩
  · by_contra hpad
    exact not_faithful_of_shared hshares hpad hfaithful
  · intro s hs ticket id piece hended s' hreaches
    refine ⟨hs.shelved hended hreaches, ?_⟩
    intro reader hreader outcome hread
    exact hs.content hended hreaches hreader hread

/-! ## Short contents -/

end Run

/-- A content that fills at most half a quad shares its id with itself and one more zero. -/
theorem sharesId_append_zero {body : Bytes} (hne : body ≠ []) (hle : body.length ≤ 32) :
    SharesId body (pad body ++ [0]) := by
  have hother : pad body ++ [0] ≠ [] := List.append_ne_nil_of_right_ne_nil _ (List.cons_ne_nil _ _)
  have hlength : (pad body).length ≤ 32 := length_pad_le (k := 5) hle
  have hlength' : (pad body ++ [0]).length ≤ 64 := by
    rw [List.length_append, List.length_singleton]
    omega
  have hpadded : (pad (pad body ++ [0])).length ≤ 64 := length_pad_le (k := 6) hlength'
  have hpos : 0 < (pad body).length := List.length_pos_iff.mpr (pad_eq_nil_iff.not.mpr hne)
  -- Both are one quad long, and the zeros at its end do not count.
  obtain ⟨n, hzeros⟩ : ∃ n, pad (pad body ++ [0]) = pad body ++ List.replicate n 0 :=
    ⟨_, by rw [pad_of_ne_nil hother, List.append_assoc, List.singleton_append, ← List.replicate_succ]⟩
  have hsame : Commitment.ofTree (pad (pad body ++ [0])) = .ofTree (pad body) := by
    rw [hzeros] at hpadded ⊢
    rw [List.length_append] at hpadded
    refine Commitment.ofTree_append_zeros ?_
    rw [Quad.count, Quad.count, List.length_append]
    omega
  exact ⟨_, _, .of_ofTree hne (by omega), .of_ofTree hother (by omega),
    congrArg Commitment.contentId hsame⟩

theorem pad_append_zero_ne (body : Bytes) : pad (pad body ++ [0]) ≠ pad body := by
  intro h
  have htake := congrArg List.length (take_length_pad (pad body ++ [0]))
  rw [h] at htake
  simp at htake

/-- No content that fills at most half a quad is read back in every run. -/
theorem Run.not_faithful_of_short {body : Bytes} (hne : body ≠ []) (hle : body.length ≤ 32) :
    ¬ Faithful body :=
  not_faithful_of_shared (sharesId_append_zero hne hle) (pad_append_zero_ne body)

/-- When the upload of one byte has lost its row, two bytes are read back as that one. -/
theorem Run.not_faithful_two_bytes : ¬ Faithful [1, 0] := by
  have hshares : SharesId [1] (pad [1] ++ [0]) := sharesId_append_zero (by decide) (by decide)
  have hother : pad [1] ++ [0] = [1, 0] := by decide
  rw [hother] at hshares
  exact not_faithful_of_shared hshares.symm (by decide)

end PieceKeeper
