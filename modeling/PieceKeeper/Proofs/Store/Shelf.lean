import PieceKeeper.Proofs.Run.Conduct

/-!
# What commands do to the shelf

Whether it succeeds or fails, a command touches no draft but its own, takes no blob away, and
publishes only what is in a draft.
-/

namespace PieceKeeper

section

variable {κ β : Type} [BEq κ] [LawfulBEq κ] {key other : κ}

theorem lookup_cons_of_ne (hne : key ≠ other) (value : β) (entries : List (κ × β)) :
    ((other, value) :: entries).lookup key = entries.lookup key := by
  have hbeq : (key == other) = false := beq_false_of_ne hne
  rw [List.lookup_cons, hbeq]

/-- Taking other keys away does not change what is found under a key. -/
theorem lookup_filter_of_ne (hne : key ≠ other) (entries : List (κ × β)) :
    (entries.filter (·.1 != other)).lookup key = entries.lookup key := by
  induction entries with
  | nil => rfl
  | cons entry entries ih =>
    obtain ⟨held, value⟩ := entry
    by_cases heq : held = other
    · rw [List.filter_cons_of_neg (by simp [heq]), ih, heq, lookup_cons_of_ne hne]
    · rw [List.filter_cons_of_pos (by simp [heq]), List.lookup_cons, List.lookup_cons, ih]

end

namespace Shelf

/-- What is published under a key. -/
def blob? (shelf : Shelf) (key : String) : Option Bytes := shelf.blobs.lookup key

/-- What is in a draft. -/
def draft? (shelf : Shelf) (draft : Nat) : Option Bytes := shelf.drafts.lookup draft

/-- What any command leaves of a shelf. -/
structure Keeps (shelf : Shelf) (command : Command) (shelf' : Shelf) : Prop where
  blocked : shelf'.blocked = shelf.blocked
  next : shelf.next ≤ shelf'.next
  drafts : ∀ draft, (Request.shelf command).draft? ≠ some draft →
    shelf'.draft? draft = shelf.draft? draft
  blobs : ∀ key content, shelf'.blob? key = some content → shelf.blob? key = some content ∨
    ∃ draft, command = .publish draft key ∧ shelf.draft? draft = some content
  held : ∀ key, (shelf.blob? key).isSome → (shelf'.blob? key).isSome

theorem Keeps.refl (shelf : Shelf) (command : Command) : shelf.Keeps command shelf :=
  ⟨rfl, Nat.le_refl _, fun _ _ ↦ rfl, fun _ _ h ↦ Or.inl h, fun _ h ↦ h⟩

theorem keeps_run (shelf : Shelf) (command : Command) : shelf.Keeps command (shelf.run command).2 := by
  cases command with
  | holds key | makePlace key => exact .refl _ _
  | newDraft => exact ⟨rfl, Nat.le_succ _, fun _ _ ↦ rfl, fun _ _ h ↦ Or.inl h, fun _ h ↦ h⟩
  | writeDraft draft key content =>
    rw [run]
    split
    · exact .refl _ _
    · split
      · exact .refl _ _
      · refine ⟨rfl, Nat.le_refl _, ?_, fun _ _ h ↦ Or.inl h, fun _ h ↦ h⟩
        intro other hne
        exact lookup_cons_of_ne (fun h ↦ hne (by rw [h]; rfl)) _ _
  | discard draft =>
    refine ⟨rfl, Nat.le_refl _, ?_, fun _ _ h ↦ Or.inl h, fun _ h ↦ h⟩
    intro other hne
    exact lookup_filter_of_ne (fun h ↦ hne (by rw [h]; rfl)) _
  | publish draft key =>
    rw [run]
    split
    · exact .refl _ _
    · rename_i content hcontent
      refine ⟨rfl, Nat.le_refl _, ?_, ?_, ?_⟩
      · intro other hne
        exact lookup_filter_of_ne (fun h ↦ hne (by rw [h]; rfl)) _
      · intro other found h
        by_cases heq : other = key
        · subst heq
          simp only [blob?, List.lookup_cons_self, Option.some.injEq] at h
          exact Or.inr ⟨draft, rfl, h ▸ hcontent⟩
        · left
          rwa [blob?, lookup_cons_of_ne heq, lookup_filter_of_ne heq] at h
      · intro other h
        by_cases heq : other = key
        · simp [blob?, heq]
        · rwa [blob?, lookup_cons_of_ne heq, lookup_filter_of_ne heq]
  | read key =>
    rw [run]
    split <;> exact .refl _ _

theorem Fails.keeps {shelf shelf' : Shelf} {command : Command} {answer : command.Answer}
    (h : shelf.Fails command answer shelf') : shelf.Keeps command shelf' := by
  cases h with
  | makePlace _ _ | create _ _ _ _ | discard _ _ | publish _ _ _ | read _ _ => exact .refl _ _
  | writeDraft draft key content left failure =>
    refine ⟨rfl, Nat.le_refl _, ?_, fun _ _ h ↦ Or.inl h, fun _ h ↦ h⟩
    intro other hne
    exact lookup_cons_of_ne (fun h ↦ hne (by rw [h]; rfl)) _ _

section

variable {shelf : Shelf} {key : String} {content : Bytes}

theorem run_holds (h : shelf.blob? key = some content) (hblocked : shelf.blocked = false) :
    shelf.run (.holds key) = (true, shelf) := by
  rw [blob?] at h
  rw [run, h, hblocked]
  rfl

theorem run_holds_none (h : shelf.blob? key = none) : shelf.run (.holds key) = (false, shelf) := by
  rw [blob?] at h
  rw [run, h]
  rfl

theorem run_makePlace (hblocked : shelf.blocked = false) (key : String) :
    shelf.run (.makePlace key) = (.ok (), shelf) := by
  rw [run, hblocked]
  rfl

theorem run_writeDraft (hblocked : shelf.blocked = false) (hlength : key.length ≤ longestKey)
    (draft : Nat) (content : Bytes) : shelf.run (.writeDraft draft key content) =
      (.ok (), { shelf with drafts := (draft, content) :: shelf.drafts }) := by
  rw [run, hblocked, if_neg Bool.false_ne_true, if_neg (Nat.not_lt.mpr hlength)]

/-- A draft that is there is discarded. -/
theorem run_discard {draft : Nat} (h : shelf.draft? draft = some content) :
    shelf.run (.discard draft) =
      (.ok (), { shelf with drafts := shelf.drafts.filter (·.1 != draft) }) := by
  rw [draft?] at h
  rw [run, h]
  rfl

theorem run_read (h : shelf.blob? key = some content) (hblocked : shelf.blocked = false) :
    shelf.run (.read key) = (.ok content, shelf) := by
  rw [blob?] at h
  rw [run, h, hblocked]
  rfl

/-- A draft that is there is published. -/
theorem run_publish {draft : Nat} (key : String) (h : shelf.draft? draft = some content) :
    shelf.run (.publish draft key) = (.ok (), { shelf with
      blobs := (key, content) :: shelf.blobs.filter (·.1 != key)
      drafts := shelf.drafts.filter (·.1 != draft) }) := by
  rw [draft?] at h
  rw [run, h]

end

end Shelf

namespace Store.Reacts

variable {store store' : Store} {key : String} {draft : Nat} {content : Bytes}

theorem keeps {command : Shelf.Command} {answer : command.Answer}
    (h : store.Reacts (.shelf command) answer store') :
    store'.table = store.table ∧ store.shelf.Keeps command store'.shelf := by
  cases h with
  | shelf _ => exact ⟨rfl, Shelf.keeps_run _ _⟩
  | shelfFails h => exact ⟨rfl, h.keeps⟩
  | outside _ _ h => exact h.elim

/-- Requests that are no commands to the shelf leave it alone. -/
theorem shelf_eq {request : Request} {answer : request.Answer}
    (h : store.Reacts request answer store') (hrequest : ∀ command, request ≠ .shelf command) :
    store'.shelf = store.shelf := by
  cases h with
  | table _ => rfl
  | shelf command | shelfFails _ => exact absurd rfl (hrequest _)
  | outside _ _ _ => rfl

/-! ## Answers -/

theorem newDraft (h : store.Reacts (.shelf .newDraft) draft store') :
    draft = store.shelf.next ∧ store'.shelf.next = store.shelf.next + 1 := by
  cases h with
  | shelf _ => exact ⟨rfl, rfl⟩
  | shelfFails h => cases h
  | outside _ _ h => exact h.elim

theorem writeDraft (h : store.Reacts (.shelf (.writeDraft draft key content)) (.ok ()) store') :
    store'.shelf.draft? draft = some content := by
  generalize hanswer : (.ok () : Except FileFailure Unit) = answer at h
  cases h with
  | shelf _ =>
    rw [Shelf.run] at hanswer ⊢
    split at hanswer
    · cases hanswer
    · split at hanswer
      · cases hanswer
      · rename_i hblocked hlength
        rw [if_neg hblocked, if_neg hlength]
        exact List.lookup_cons_self
  | shelfFails h => cases h <;> cases hanswer
  | outside _ _ h => exact h.elim

theorem publish (h : store.Reacts (.shelf (.publish draft key)) (.ok ()) store') :
    (store'.shelf.blob? key).isSome := by
  generalize hanswer : (.ok () : Except FileFailure Unit) = answer at h
  cases h with
  | shelf _ =>
    rw [Shelf.run] at hanswer ⊢
    split at hanswer
    · cases hanswer
    · simp [Shelf.blob?]
  | shelfFails h => cases h; cases hanswer
  | outside _ _ h => exact h.elim

/-- A publication that fails leaves the shelf alone. -/
theorem shelf_eq_of_publish_error {failure : FileFailure}
    (h : store.Reacts (.shelf (.publish draft key)) (.error failure) store') :
    store'.shelf = store.shelf := by
  generalize hanswer : (.error failure : Except FileFailure Unit) = answer at h
  cases h with
  | shelf _ =>
    rw [Shelf.run] at hanswer ⊢
    split at hanswer
    · rfl
    · cases hanswer
  | shelfFails h => cases h; rfl
  | outside _ _ h => exact h.elim

theorem holds {held : Bool} (h : store.Reacts (.shelf (.holds key)) held store') :
    held = ((store.shelf.blob? key).isSome && ¬ store.shelf.blocked) := by
  cases h with
  | shelf _ => rfl
  | shelfFails h => cases h
  | outside _ _ h => exact h.elim

theorem read (h : store.Reacts (.shelf (.read key)) (.ok content) store') :
    store.shelf.blob? key = some content := by
  generalize hanswer : (.ok content : Except FileFailure Bytes) = answer at h
  cases h with
  | shelf _ =>
    rw [Shelf.run] at hanswer
    split at hanswer
    · rename_i found hfound
      split at hanswer
      · cases hanswer
      · cases hanswer
        exact hfound
    · cases hanswer
  | shelfFails h => cases h; cases hanswer
  | outside _ _ h => exact h.elim

end Store.Reacts

end PieceKeeper
