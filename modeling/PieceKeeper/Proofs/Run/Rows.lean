import Mathlib.Data.List.Nodup
import PieceKeeper.Proofs.Run.Chronicle
import PieceKeeper.Proofs.Store.Table

/-!
# What a step does to the rows

A step writes no row, or it is the answer to an insertion, to an update or to a claim.  Then it
is known who asked for it, and what its rule says of it.
-/

namespace PieceKeeper

/-- An event that is not the success of an update or of a claim. -/
def Event.IsQuiet : Event → Prop
  | .answered (.table (.update _ _)) answer => answer ≠ .ok true
  | .answered (.table (.claim _ _ _ _)) answer => answer ≠ .ok true
  | _ => True

/-- The table answers as it does. -/
theorem Store.Reacts.answer_eq {store store' : Store} {command : Table.Command}
    {answer : Outcome command.Answer} (h : store.Reacts (.table command) answer store') :
    answer = (store.table.run command).1 := by
  cases h with
  | table _ => rfl
  | outside _ _ h => exact h.elim

namespace Chronicle

/-- The rows of the table. -/
def rows (c : Chronicle) : List Row := c.store.table.rows

/-- What a step does to the rows. -/
inductive RowStep (c c' : Chronicle) : Prop
  | quiet (new : Log) : c'.rows = c.rows → c'.log = new ++ c.log →
    (∀ entry ∈ new, entry.event.IsQuiet) → RowStep c c'
  | insert {ticket : Nat} {job : Job} {id : String} {path : Option String} {size : Option UInt64}
      {now : Instant} :
    (∀ row ∈ c.rows, row.id ≠ .text id) →
    c'.rows = c.rows ++ [Row.ofPiece (.prepare id path size now)] →
    c'.log = ⟨ticket, job, .answered (.table (.insert (.prepare id path size now))) (.ok ())⟩ :: c.log →
    size ≠ some 0 → RowStep c c'
  | update {ticket : Nat} {job : Job} {history : History} {piece : Piece} {expected : Status} :
    c.log.of ticket = .asked (.table (.update piece expected)) :: history →
    job.Writes history piece expected → (∃ row ∈ c.rows, row.Is piece.id expected) →
    c'.rows = c.rows.map (fun row ↦
      if row.Is piece.id expected then row.takeOver (Row.ofPiece piece) else row) →
    c'.log = ⟨ticket, job, .answered (.table (.update piece expected)) (.ok true)⟩ :: c.log →
    RowStep c c'
  | claim {ticket : Nat} {job : Job} {history : History} {name : String} {proofSet : UInt64}
      {piece : Piece} {root : Root} {now : Instant} :
    c.log.of ticket = .asked (.table (.claim piece.id proofSet root.rootCid now)) :: history →
    job.Intends history name proofSet piece root → (∃ row ∈ c.rows, row.IsFree piece.id) →
    c'.rows = c.rows.map (fun row ↦
      if row.IsFree piece.id then row.claimed proofSet root.rootCid now else row) →
    c'.log = ⟨ticket, job, .answered (.table (.claim piece.id proofSet root.rootCid now)) (.ok true)⟩ ::
      c.log →
    RowStep c c'

variable {c c' : Chronicle}

theorem isQuiet_of_refused {command : Table.Command} {answer : Outcome command.Answer}
    (h : command.Refused answer) : (Event.answered (.table command) answer).IsQuiet := by
  cases command with
  | update _ _ | claim _ _ _ _ => exact h
  | find _ | findContent _ | insert _ | withStatus _ | first _ => exact trivial

theorem Step.rows (h : c.Step c') : c.RowStep c' := by
  cases h with
  | start ticket job _ => exact .quiet [_] rfl rfl (List.forall_mem_singleton.mpr trivial)
  | ask _ _ => exact .quiet [_] rfl rfl (List.forall_mem_singleton.mpr trivial)
  | finish _ _ => exact .quiet [_] rfl rfl (List.forall_mem_singleton.mpr trivial)
  | weather _ _ => exact .quiet [] rfl rfl (by simp)
  | @answer ticket job request history answer store _ hasked hallows hreacts =>
    cases hreacts with
    | shelf command => exact .quiet [_] rfl rfl (List.forall_mem_singleton.mpr trivial)
    | shelfFails _ => exact .quiet [_] rfl rfl (List.forall_mem_singleton.mpr trivial)
    | outside _ _ houtside =>
      refine .quiet [_] rfl rfl (List.forall_mem_singleton.mpr ?_)
      cases request with
      | table _ => exact houtside.elim
      | _ => exact trivial
    | table command =>
      have heffect := c.store.table.run_effect command
      generalize hanswer : (c.store.table.run command).1 = answer at heffect
      generalize hrows : (c.store.table.run command).2.rows = rows at heffect
      cases heffect with
      | none hrefused =>
        exact .quiet [_] hrows rfl (List.forall_mem_singleton.mpr
          (isQuiet_of_refused (hanswer ▸ hrefused)))
      | insert hfresh =>
        obtain ⟨id, path, size, now, rfl, hsize⟩ := hallows
        exact .insert hfresh hrows (by rw [← hanswer]; rfl) hsize
      | update hfound => exact .update hasked hallows hfound hrows (by rw [← hanswer]; rfl)
      | claim hfound =>
        obtain ⟨name, piece, root, hintends, rfl, rfl⟩ := hallows
        exact .claim hasked hintends hfound hrows (by rw [← hanswer]; rfl)

theorem RowStep.of_subset (h : c.RowStep c') (ticket : Nat) :
    c.log.of ticket ⊆ c'.log.of ticket := by
  cases h with
  | quiet new _ hlog _ => exact hlog ▸ Log.of_subset_append new c.log ticket
  | insert _ _ hlog _ => exact hlog ▸ Log.of_subset_append [_] c.log ticket
  | update _ _ _ _ hlog => exact hlog ▸ Log.of_subset_append [_] c.log ticket
  | claim _ _ _ _ hlog => exact hlog ▸ Log.of_subset_append [_] c.log ticket

/-! ## Ids -/

/-- No two rows have one id. -/
def HasIds (c : Chronicle) : Prop := (c.rows.map (·.id)).Nodup

theorem HasIds.row_unique (hc : c.HasIds) {row row' : Row} (hrow : row ∈ c.rows)
    (hrow' : row' ∈ c.rows) (hid : row.id = row'.id) : row = row' :=
  List.inj_on_of_nodup_map hc hrow hrow' hid

theorem map_id_map {change : Row → Row} (rows : List Row)
    (hchange : ∀ row, (change row).id = row.id) :
    (rows.map change).map (·.id) = rows.map (·.id) := by
  rw [List.map_map]
  exact List.map_congr_left fun row _ ↦ hchange row

theorem HasIds.step (hc : c.HasIds) (h : c.RowStep c') : c'.HasIds := by
  rw [HasIds]
  cases h with
  | quiet _ hrows _ _ => exact hrows ▸ hc
  | insert hfresh hrows _ _ =>
    rw [hrows, List.map_append, List.nodup_append]
    refine ⟨hc, List.nodup_singleton _, ?_⟩
    intro old hold new hnew
    obtain ⟨row, hrow, rfl⟩ := List.mem_map.mp hold
    rw [List.mem_singleton.mp hnew]
    exact hfresh row hrow
  | update _ _ _ hrows _ =>
    rw [hrows, map_id_map _ fun row ↦ by split <;> rfl]
    exact hc
  | claim _ _ _ hrows _ =>
    rw [hrows, map_id_map _ fun row ↦ by split <;> rfl]
    exact hc

theorem Reachable.hasIds (h : c.Reachable) : c.HasIds := by
  induction h with
  | refl => exact List.nodup_nil
  | tail _ hstep ih => exact ih.step hstep.rows

/-! ## Reading -/

/-- A piece that is being found is read from a row with its id. -/
theorem Admits.row {ticket : Nat} {job : Job} {id : String} {piece : Piece}
    (h : c.Admits ⟨ticket, job, .answered (.table (.find id)) (.ok (some piece))⟩) :
    ∃ row ∈ c.rows, row.id = .text id ∧ row.toPiece = .ok piece := by
  obtain ⟨_, store, -, -, hreacts⟩ := h
  exact Table.row_of_find hreacts.answer_eq.symm

/-- A piece that is being found is the one that a row with its id shows. -/
theorem Admits.shows {ticket : Nat} {job : Job} {id : String} {piece : Piece}
    (h : c.Admits ⟨ticket, job, .answered (.table (.find id)) (.ok (some piece))⟩) :
    ∃ row ∈ c.rows, row.id = .text id ∧ row.Shows piece := by
  obtain ⟨row, hrow, hid, hread⟩ := h.row
  exact ⟨row, hrow, hid, Row.shows_of_toPiece hread⟩

/-- A piece is missed only if no row has its id. -/
theorem Admits.absent {ticket : Nat} {job : Job} {id : String}
    (h : c.Admits ⟨ticket, job, .answered (.table (.find id)) (.ok none)⟩) :
    ∀ row ∈ c.rows, row.id ≠ .text id := by
  obtain ⟨_, store, -, -, hreacts⟩ := h
  exact Table.absent_of_find hreacts.answer_eq.symm

theorem Reachable.id_of_found (h : c.Reachable) {ticket : Nat} {id : String} {piece : Piece}
    (hfound : (c.log.of ticket).Found id piece) : piece.id = id := by
  obtain ⟨job, hentry⟩ := Log.mem_of.mp hfound
  obtain ⟨d, _, -, henters, -⟩ := h.entered hentry
  obtain ⟨row, -, hid, hshows⟩ := henters.admits.shows
  exact Cell.text.inj (hshows.id.symm.trans hid)

end Chronicle

end PieceKeeper
