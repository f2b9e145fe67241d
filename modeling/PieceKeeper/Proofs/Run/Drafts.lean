import PieceKeeper.Proofs.Run.Chronicle
import PieceKeeper.Proofs.Store.Shelf

/-!
# Drafts and blobs

A draft belongs to the call that drew its number.  So from the time it is written until its call
publishes or discards it nobody touches it, and what is published under a key is the whole of
some padded content with that content id.
-/

namespace PieceKeeper

/-- An event that is no answer of the shelf. -/
def Event.IsOffShelf : Event → Prop
  | .answered (.shelf _) _ => False
  | _ => True

theorem History.handled_of_isOffShelf {event : Event} (h : event.IsOffShelf) (history : History)
    (draft : Nat) : handled (event :: history) draft = history.handled draft := by
  cases event with
  | answered request answer =>
    cases request with
    | shelf _ => exact h.elim
    | _ => rw [handled_answered, if_neg (fun h ↦ nomatch h)]
  | started | asked _ | ended _ _ => rfl

/-- An event of the shelf is not new after a step that is off the shelf. -/
theorem Log.mem_of_isOffShelf {log : Log} {entry : Entry} {ticket : Nat} {command : Shelf.Command}
    {answer : command.Answer} (hoff : entry.event.IsOffShelf)
    (h : .answered (.shelf command) answer ∈ of (entry :: log) ticket) :
    .answered (.shelf command) answer ∈ log.of ticket := by
  rcases Log.mem_of_cons h with ⟨-, heq⟩ | hold
  · rw [heq] at hoff
    exact hoff.elim
  · exact hold

theorem Log.handled_of_isOffShelf {log : Log} {entry : Entry} (hoff : entry.event.IsOffShelf)
    (ticket draft : Nat) :
    History.handled (of (entry :: log) ticket) draft = (log.of ticket).handled draft := by
  by_cases heq : entry.ticket = ticket
  · subst heq
    rw [Log.of_cons_self, History.handled_of_isOffShelf hoff]
  · rw [Log.of_cons_of_ne heq]

/-- Only who drew the number of a draft may ask for anything about it. -/
theorem Job.Allows.drew {job : Job} {history : History} {request : Request} {draft : Nat}
    (h : job.Allows history request) (hdraft : request.draft? = some draft) :
    history.Drew draft := by
  cases request with
  | shelf command =>
    cases command with
    | writeDraft other _ _ => cases hdraft; exact h.1
    | discard other => cases hdraft; exact h
    | publish other _ => cases hdraft; exact h.1
    | holds _ | makePlace _ | newDraft | read _ => cases hdraft
  | _ => cases hdraft

namespace Chronicle

variable {c c' : Chronicle}

/-- What a step does to the shelf. -/
inductive ShelfStep (c c' : Chronicle) : Prop
  | rest : c'.store.shelf = c.store.shelf → c'.log = c.log → ShelfStep c c'
  | note {entry : Entry} : c'.store.shelf = c.store.shelf → c'.log = entry :: c.log →
    entry.event.IsOffShelf → ShelfStep c c'
  | command {ticket : Nat} {job : Job} {history : History} {command : Shelf.Command}
      {answer : command.Answer} :
    c.log.of ticket = .asked (.shelf command) :: history → job.Allows history (.shelf command) →
    c.store.Reacts (.shelf command) answer c'.store →
    c'.log = ⟨ticket, job, .answered (.shelf command) answer⟩ :: c.log → ShelfStep c c'

theorem Step.shelf (h : c.Step c') : c.ShelfStep c' := by
  cases h with
  | start _ _ _ => exact .note rfl rfl trivial
  | ask _ _ => exact .note rfl rfl trivial
  | finish _ _ => exact .note rfl rfl trivial
  | weather _ _ => exact .rest rfl rfl
  | @answer ticket job request history answer store _ hasked hallows hreacts =>
    cases request with
    | shelf command => exact .command hasked hallows hreacts rfl
    | _ => exact .note (hreacts.shelf_eq fun _ h ↦ nomatch h) rfl trivial

/-! ## Who a draft belongs to -/

theorem Reachable.drew (hc : c.Reachable) {ticket : Nat} {request : Request}
    {answer : request.Answer} {draft : Nat} (hdraft : request.draft? = some draft)
    (h : .answered request answer ∈ c.log.of ticket) : (c.log.of ticket).Drew draft := by
  obtain ⟨job, hentry⟩ := Log.mem_of.mp h
  obtain ⟨history, hsub, hallows⟩ := hc.allows (Or.inr ⟨answer, hentry⟩)
  exact hsub (hallows.drew hdraft)

/-- Every draft has one owner, and is as its owner wrote it until the owner goes on with it. -/
structure HasDrafts (c : Chronicle) : Prop where
  drawn : ∀ ticket draft, (c.log.of ticket).Drew draft → draft < c.store.shelf.next
  owner : ∀ ticket ticket' draft, (c.log.of ticket).Drew draft → (c.log.of ticket').Drew draft →
    ticket = ticket'
  written : ∀ ticket draft key content, (c.log.of ticket).Wrote draft key content →
    (c.log.of ticket).handled draft = [.shelf (.writeDraft draft key content)] →
    c.store.shelf.draft? draft = some content

/-- A number that was drawn just now is the next one of the shelf. -/
theorem drew_cons {ticket other draft : Nat} {job : Job} {command : Shelf.Command}
    {answer : command.Answer} {store : Store} (hreacts : c.store.Reacts (.shelf command) answer store)
    (h : History.Drew (Log.of (⟨ticket, job, .answered (.shelf command) answer⟩ :: c.log) other)
      draft) :
    (c.log.of other).Drew draft ∨
      other = ticket ∧ draft = c.store.shelf.next ∧ store.shelf.next = c.store.shelf.next + 1 := by
  rcases Log.mem_of_cons h with ⟨hticket, heq⟩ | hold
  · cases heq
    exact Or.inr ⟨hticket.symm, hreacts.newDraft⟩
  · exact Or.inl hold

namespace HasDrafts

/-- Away from the shelf nothing changes about drafts. -/
theorem note (h : c.HasDrafts) {entry : Entry} (hshelf : c'.store.shelf = c.store.shelf)
    (hlog : c'.log = entry :: c.log) (hoff : entry.event.IsOffShelf) : c'.HasDrafts := by
  refine ⟨?_, ?_, ?_⟩
  · intro ticket draft hdrew
    rw [hshelf]
    exact h.drawn ticket draft (Log.mem_of_isOffShelf hoff (hlog ▸ hdrew))
  · intro ticket ticket' draft hdrew hdrew'
    exact h.owner ticket ticket' draft (Log.mem_of_isOffShelf hoff (hlog ▸ hdrew))
      (Log.mem_of_isOffShelf hoff (hlog ▸ hdrew'))
  · intro ticket draft key content hwrote hhandled
    rw [hlog, Log.handled_of_isOffShelf hoff] at hhandled
    rw [hshelf]
    exact h.written ticket draft key content (Log.mem_of_isOffShelf hoff (hlog ▸ hwrote)) hhandled

section Command

variable {ticket : Nat} {job : Job} {history : History} {command : Shelf.Command}
  {answer : command.Answer}

/-- A new number belongs to nobody else. -/
theorem owner_command (h : c.HasDrafts) (hreacts : c.store.Reacts (.shelf command) answer c'.store)
    (hlog : c'.log = ⟨ticket, job, .answered (.shelf command) answer⟩ :: c.log)
    (other other' draft : Nat) (hdrew : (c'.log.of other).Drew draft)
    (hdrew' : (c'.log.of other').Drew draft) : other = other' := by
  rcases drew_cons hreacts (hlog ▸ hdrew) with hold | ⟨rfl, hnew, -⟩
  · rcases drew_cons hreacts (hlog ▸ hdrew') with hold' | ⟨rfl, hnew, -⟩
    · exact h.owner other other' draft hold hold'
    · have hlt := h.drawn other draft hold
      omega
  · rcases drew_cons hreacts (hlog ▸ hdrew') with hold' | ⟨rfl, -, -⟩
    · have hlt := h.drawn other' draft hold'
      omega
    · rfl

/-- A command of the owner itself either writes the draft or is about another one. -/
theorem written_own (h : c.HasDrafts) (hreacts : c.store.Reacts (.shelf command) answer c'.store)
    (hlog : c'.log = ⟨ticket, job, .answered (.shelf command) answer⟩ :: c.log)
    (draft : Nat) (key : String) (content : Bytes) (hwrote : (c'.log.of ticket).Wrote draft key content)
    (hhandled : (c'.log.of ticket).handled draft = [.shelf (.writeDraft draft key content)]) :
    c'.store.shelf.draft? draft = some content := by
  rw [hlog, Log.of_cons_self] at hwrote
  rw [hlog, Log.of_cons_self, History.handled_answered] at hhandled
  split at hhandled
  · -- Nothing was done with the draft before, so it is written now.
    obtain ⟨hcommand, hnone⟩ := List.cons.inj hhandled
    cases hcommand
    rcases List.mem_cons.mp hwrote with heq | hold
    · cases heq
      exact hreacts.writeDraft
    · have hmem := History.mem_handled hold rfl
      rw [hnone] at hmem
      cases hmem
  · rename_i hdraft
    rw [hreacts.keeps.2.drafts draft hdraft]
    refine h.written ticket draft key content ?_ hhandled
    rcases List.mem_cons.mp hwrote with heq | hold
    · cases heq
      exact absurd rfl hdraft
    · exact hold

/-- A command of somebody else is not about the draft. -/
theorem written_other (hc : c.Reachable) (h : c.HasDrafts) (hsub : history ⊆ c.log.of ticket)
    (hallows : job.Allows history (.shelf command))
    (hreacts : c.store.Reacts (.shelf command) answer c'.store)
    (hlog : c'.log = ⟨ticket, job, .answered (.shelf command) answer⟩ :: c.log)
    {other : Nat} (hne : ticket ≠ other) (draft : Nat) (key : String) (content : Bytes)
    (hwrote : (c'.log.of other).Wrote draft key content)
    (hhandled : (c'.log.of other).handled draft = [.shelf (.writeDraft draft key content)]) :
    c'.store.shelf.draft? draft = some content := by
  rw [hlog, Log.of_cons_of_ne hne] at hwrote hhandled
  have hdraft : ¬ (Request.shelf command).draft? = some draft := by
    intro hdraft
    exact hne (h.owner ticket other draft (hsub (hallows.drew hdraft)) (hc.drew rfl hwrote))
  rw [hreacts.keeps.2.drafts draft hdraft]
  exact h.written other draft key content hwrote hhandled

end Command

theorem step (hc : c.Reachable) (h : c.HasDrafts) (hstep : c.ShelfStep c') : c'.HasDrafts := by
  cases hstep with
  | rest hshelf hlog =>
    refine ⟨?_, ?_, ?_⟩ <;> rw [hlog]
    · rw [hshelf]
      exact h.drawn
    · exact h.owner
    · rw [hshelf]
      exact h.written
  | note hshelf hlog hoff => exact h.note hshelf hlog hoff
  | @command ticket job history command answer hasked hallows hreacts hlog =>
    have hsub : history ⊆ c.log.of ticket := by
      rw [hasked]
      exact List.subset_cons_self _ _
    refine ⟨?_, h.owner_command hreacts hlog, ?_⟩
    · intro other draft hdrew
      rcases drew_cons hreacts (hlog ▸ hdrew) with hold | ⟨-, rfl, hnext⟩
      · exact Nat.lt_of_lt_of_le (h.drawn other draft hold) hreacts.keeps.2.next
      · omega
    · intro other draft key content hwrote hhandled
      by_cases heq : ticket = other
      · subst heq
        exact h.written_own hreacts hlog draft key content hwrote hhandled
      · exact h.written_other hc hsub hallows hreacts hlog heq draft key content hwrote hhandled

end HasDrafts

theorem Reachable.hasDrafts (hc : c.Reachable) : c.HasDrafts := by
  induction hc with
  | refl => exact ⟨fun _ _ h ↦ absurd h List.not_mem_nil, fun _ _ _ h ↦ absurd h List.not_mem_nil,
      fun _ _ _ _ h ↦ absurd h List.not_mem_nil⟩
  | tail hreaches hstep ih => exact ih.step hreaches hstep.shelf

/-! ## What is published -/

theorem Step.shelf_eq_or_keeps (h : c.Step c') : c'.store.shelf = c.store.shelf ∨
    ∃ command, c.store.shelf.Keeps command c'.store.shelf := by
  cases h.shelf with
  | rest hshelf _ => exact Or.inl hshelf
  | note hshelf _ _ => exact Or.inl hshelf
  | command _ _ hreacts _ => exact Or.inr ⟨_, hreacts.keeps.2⟩

theorem Reachable.not_blocked (hc : c.Reachable) : c.store.shelf.blocked = false := by
  induction hc with
  | refl => rfl
  | tail _ hstep ih =>
    rcases hstep.shelf_eq_or_keeps with hshelf | ⟨command, hkeeps⟩
    · exact hshelf ▸ ih
    · exact hkeeps.blocked.trans ih

/-- What is published stays so. -/
theorem Reaches.held (h : c.Reaches c') {key : String} (hblob : (c.store.shelf.blob? key).isSome) :
    (c'.store.shelf.blob? key).isSome := by
  induction h with
  | refl => exact hblob
  | tail _ hstep ih =>
    rcases hstep.shelf_eq_or_keeps with hshelf | ⟨command, hkeeps⟩
    · exact hshelf ▸ ih
    · exact hkeeps.held key ih

/-- Every blob is the whole of some padded content with its key as content id. -/
theorem Reachable.exists_of_blob (hc : c.Reachable) {key : String} {content : Bytes}
    (h : c.store.shelf.blob? key = some content) :
    ∃ body, ∃ committed : CommittedPiece, committed.Of body ∧ committed.contentId = key ∧
      committed.padded = content := by
  induction hc with
  | refl => cases h
  | tail hreaches hstep ih =>
    cases hstep.shelf with
    | rest hshelf _ => exact ih (hshelf ▸ h)
    | note hshelf _ _ => exact ih (hshelf ▸ h)
    | command hasked hallows hreacts _ =>
      rcases hreacts.keeps.2.blobs key content h with hold | ⟨draft, rfl, hdraft⟩
      · exact ih hold
      · -- What is published is what its owner wrote.
        obtain ⟨-, written, hwrote, hhandled⟩ := hallows
        have hdrafts := Reachable.hasDrafts hreaches
        have hsame := hdrafts.written _ draft key written (hasked ▸ List.mem_cons_of_mem _ hwrote)
          (hasked ▸ hhandled)
        obtain rfl := Option.some.inj (hsame.symm.trans hdraft)
        obtain ⟨job, hentry⟩ := Log.mem_of.mp (hasked ▸ List.mem_cons_of_mem _ hwrote)
        obtain ⟨_, -, -, -, _, body, committed, -, hof, rfl, rfl⟩ :=
          Reachable.allows hreaches (Or.inr ⟨_, hentry⟩)
        exact ⟨body, committed, hof, rfl, rfl⟩

/-! ## Answers of the shelf -/

theorem Reachable.held_of_shelved (hc : c.Reachable) {ticket : Nat} {key : String}
    (h : (c.log.of ticket).Shelved key) : (c.store.shelf.blob? key).isSome := by
  rcases h with hheld | ⟨draft, hpublished⟩
  · obtain ⟨job, hentry⟩ := Log.mem_of.mp hheld
    obtain ⟨d, d', -, henters, hafter⟩ := hc.entered hentry
    obtain ⟨_, _, -, -, hreacts⟩ := henters.admits
    have hblob : (d.store.shelf.blob? key).isSome := by
      have hanswer := hreacts.holds
      simp only [Bool.true_eq, Bool.and_eq_true] at hanswer
      exact hanswer.1
    exact Reaches.held (Relation.ReflTransGen.head henters.step hafter) hblob
  · obtain ⟨job, hentry⟩ := Log.mem_of.mp hpublished
    obtain ⟨d, d', -, henters, hafter⟩ := hc.entered hentry
    refine hafter.held ?_
    cases henters.step.shelf with
    | rest _ hlog => exact absurd (hlog.symm.trans henters.log).symm (List.cons_ne_self _ _)
    | note _ hlog hoff =>
      obtain ⟨rfl, -⟩ := List.cons.inj (hlog.symm.trans henters.log)
      exact hoff.elim
    | command _ _ hreacts hlog =>
      obtain ⟨heq, -⟩ := List.cons.inj (hlog.symm.trans henters.log)
      cases heq
      exact hreacts.publish

end Chronicle

end PieceKeeper
