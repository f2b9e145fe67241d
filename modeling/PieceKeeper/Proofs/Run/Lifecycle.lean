import PieceKeeper.Proofs.Run.Blank
import PieceKeeper.Proofs.Run.Rows

/-!
# The life of a row

No row goes away, and none changes its id.  Its status moves along the lifecycle, whoever writes
it and whatever is lost on the way, because every update names the status that it starts from.
Moves lead upwards, so none is made twice; and no update starts from a final status, so a row that
has come to an end stays as it is.
-/

namespace PieceKeeper

namespace Status

/-- How far a status is from the beginning. -/
def rank : Status → Nat
  | .prepared => 0
  | .uploaded => 1
  | .pending => 2
  | .added | .failed | .error => 3

theorem rank_lt_of_canMove {a b : Status} (h : a.canMove b = true) : a.rank < b.rank := by
  revert h
  cases a <;> cases b <;> decide

theorem ne_pending_of_isFinal {status : Status} (h : status.isFinal = true) : status ≠ .pending := by
  rintro rfl
  cases h

theorem not_canMove_of_isFinal {a b : Status} (h : a.isFinal = true) : a.canMove b = false := by
  revert h
  cases a <;> cases b <;> decide

end Status

theorem Operation.canMove_of_writes {job : Job} {history : History} {piece : Piece}
    {expected : Status} (h : job.Writes history piece expected) :
    expected.canMove piece.status = true := by
  cases h with
  | upload _ _ _ _ _ => rfl
  | submission _ _ => rfl
  | refusal _ _ => rfl
  | settlement _ hstatus _ _ hsettle hfinding _ =>
    have hmove := (Piece.settle_eq_ok hsettle hfinding).1
    rwa [hstatus] at hmove

namespace Row

/-- A row stands at a status. -/
def At (row : Row) (status : Status) : Prop := row.status = .text status.name

instance {row : Row} {status : Status} : Decidable (row.At status) :=
  inferInstanceAs (Decidable (row.status = .text status.name))

theorem At.unique {row : Row} {a b : Status} (ha : row.At a) (hb : row.At b) : a = b :=
  Status.name_injective (Cell.text.inj (ha.symm.trans hb))

/-- How a step changes a row. -/
inductive Turns (row : Row) : Row → Prop
  | same : Turns row row
  | update {job : Job} {history : History} {piece : Piece} {expected : Status} :
    job.Writes history piece expected → row.Is piece.id expected →
      Turns row (row.takeOver (ofPiece piece))
  | claim {id rootCid : String} {proofSet : UInt64} {now : Instant} :
    row.IsFree id → Turns row (row.claimed proofSet rootCid now)

namespace Turns

variable {row row' : Row}

theorem id_eq (h : row.Turns row') : row'.id = row.id := by
  cases h <;> rfl

/-- The status stays, or it moves along the lifecycle. -/
theorem status (h : row.Turns row') :
    row'.status = row.status ∨ ∃ a b, a.canMove b = true ∧ row.At a ∧ row'.At b := by
  cases h with
  | same => exact Or.inl rfl
  | claim _ => exact Or.inl rfl
  | update hwrites his => exact Or.inr ⟨_, _, Operation.canMove_of_writes hwrites, his.2, rfl⟩

theorem at_le {a : Status} (h : row.Turns row') (ha : row.At a) :
    ∃ b, row'.At b ∧ a.rank ≤ b.rank := by
  rcases h.status with heq | ⟨a', b, hmove, ha', hb⟩
  · exact ⟨a, heq.trans ha, Nat.le_refl _⟩
  · obtain rfl := ha.unique ha'
    exact ⟨b, hb, Nat.le_of_lt (Status.rank_lt_of_canMove hmove)⟩

theorem eq_of_isFinal {a : Status} (h : row.Turns row') (ha : row.At a)
    (hfinal : a.isFinal = true) : row' = row := by
  cases h with
  | same => rfl
  | claim hfree =>
    obtain rfl := ha.unique hfree.1.2
    cases hfinal
  | update hwrites his =>
    obtain rfl := ha.unique his.2
    have hmove := Operation.canMove_of_writes hwrites
    rw [Status.not_canMove_of_isFinal hfinal] at hmove
    cases hmove

end Turns

end Row

namespace Chronicle

variable {c c' : Chronicle} {i : Nat} {row : Row}

/-- Every row is still where it was, and turned as rows do. -/
theorem RowStep.getElem? (h : c.RowStep c') (hrow : c.rows[i]? = some row) :
    ∃ row', c'.rows[i]? = some row' ∧ row.Turns row' := by
  cases h with
  | quiet _ hrows _ _ => exact ⟨row, hrows ▸ hrow, .same⟩
  | insert _ hrows _ _ =>
    exact ⟨row, by rw [hrows, List.getElem?_append_left (List.getElem?_eq_some_iff.mp hrow).1, hrow],
      .same⟩
  | update _ hwrites _ hrows _ =>
    rw [hrows, List.getElem?_map, hrow]
    refine ⟨_, rfl, ?_⟩
    dsimp only
    split
    · rename_i his
      exact .update hwrites his
    · exact .same
  | claim _ _ _ hrows _ =>
    rw [hrows, List.getElem?_map, hrow]
    refine ⟨_, rfl, ?_⟩
    dsimp only
    split
    · rename_i hfree
      exact .claim hfree
    · exact .same

/-- A row is new, or it was there and turned. -/
theorem RowStep.mem (h : c.RowStep c') {row' : Row} (hrow : row' ∈ c'.rows) :
    (∃ id path size now, row' = Row.ofPiece (.prepare id path size now)) ∨
      ∃ row ∈ c.rows, row.Turns row' := by
  cases h with
  | quiet _ hrows _ _ => exact Or.inr ⟨row', hrows ▸ hrow, .same⟩
  | insert _ hrows _ _ =>
    rw [hrows, List.mem_append, List.mem_singleton] at hrow
    rcases hrow with hold | rfl
    · exact Or.inr ⟨row', hold, .same⟩
    · exact Or.inl ⟨_, _, _, _, rfl⟩
  | update _ hwrites _ hrows _ =>
    rw [hrows] at hrow
    obtain ⟨row, hmem, rfl⟩ := List.mem_map.mp hrow
    refine Or.inr ⟨row, hmem, ?_⟩
    split
    · rename_i his
      exact .update hwrites his
    · exact .same
  | claim _ _ _ hrows _ =>
    rw [hrows] at hrow
    obtain ⟨row, hmem, rfl⟩ := List.mem_map.mp hrow
    refine Or.inr ⟨row, hmem, ?_⟩
    split
    · rename_i hfree
      exact .claim hfree
    · exact .same

/-- Every row stands at a status. -/
theorem Reachable.at (h : c.Reachable) : ∀ row ∈ c.rows, ∃ a, row.At a := by
  induction h with
  | refl => exact fun _ h ↦ nomatch h
  | tail _ hstep ih =>
    intro row' hrow'
    rcases hstep.rows.mem hrow' with ⟨_, _, _, _, rfl⟩ | ⟨row, hrow, hturns⟩
    · exact ⟨.prepared, rfl⟩
    · obtain ⟨a, ha⟩ := ih row hrow
      obtain ⟨b, hb, -⟩ := hturns.at_le ha
      exact ⟨b, hb⟩

/-- What becomes of a row: it keeps its id, its status does not fall back, and nothing happens to
it behind a final status. -/
theorem Reaches.getElem? (h : c.Reaches c') {a : Status} (hrow : c.rows[i]? = some row)
    (ha : row.At a) :
    ∃ row' b, c'.rows[i]? = some row' ∧ row'.id = row.id ∧ row'.At b ∧ a.rank ≤ b.rank ∧
      (a.isFinal = true → row' = row) := by
  induction h with
  | refl => exact ⟨row, a, hrow, rfl, ha, Nat.le_refl _, fun _ ↦ rfl⟩
  | tail _ hstep ih =>
    obtain ⟨middle, b, hmiddle, hid, hb, hle, hfinal⟩ := ih
    obtain ⟨row', hrow', hturns⟩ := hstep.rows.getElem? hmiddle
    obtain ⟨b', hb', hle'⟩ := hturns.at_le hb
    refine ⟨row', b', hrow', hturns.id_eq.trans hid, hb', Nat.le_trans hle hle', ?_⟩
    intro ha'
    obtain rfl := hfinal ha'
    exact hturns.eq_of_isFinal ha ha'

end Chronicle

namespace Run

variable {s s' : State}

/-- The row at a place of the table. -/
def State.row? (s : State) (i : Nat) : Option Row := s.store.table.rows[i]?

/-- A step from one state to another changes the status of a row. -/
def Moves (s s' : State) (i : Nat) (a b : Status) : Prop :=
  ∃ row row', s.row? i = some row ∧ s'.row? i = some row' ∧ row.At a ∧ row'.At b ∧ a ≠ b

theorem Step.row? {i : Nat} {row : Row} (hs : Reachable s) (h : Step s s')
    (hrow : s.row? i = some row) : ∃ row', s'.row? i = some row' ∧ row.Turns row' := by
  rcases h.chronicle hs.lawful with hstep | hsame
  · exact hstep.rows.getElem? hrow
  · refine ⟨row, ?_, .same⟩
    change s'.chronicle.rows[i]? = _
    rw [hsame]
    exact hrow

/-- Every change of a row's status is a move of the lifecycle, each is made at most once, no row
is ever removed or gets another id, and a row with a final status never changes again: in every
run, of any number of managers, whatever fails or is given up. -/
theorem status_follows_lifecycle (hs : Reachable s) :
    (∀ i row, s.row? i = some row → ∃ a, row.At a) ∧
    (∀ s', Step s s' → ∀ i row row', s.row? i = some row → s'.row? i = some row' →
      row'.status = row.status ∨ ∃ a b, a.canMove b = true ∧ row.At a ∧ row'.At b) ∧
    (∀ s', Step s s' → ∀ i a b, Moves s s' i a b →
      ∀ t t', Reaches s' t → Step t t' → ¬ Moves t t' i a b) ∧
    (∀ s', Reaches s s' → ∀ i row, s.row? i = some row →
      ∃ row', s'.row? i = some row' ∧ row'.id = row.id ∧
        ∀ a, row.At a → a.isFinal = true → row' = row) := by
  have hat : ∀ i row, s.row? i = some row → ∃ a, row.At a := fun i row hrow ↦
    hs.chronicle.at row (List.mem_of_getElem? hrow)
  refine ⟨hat, ?_, ?_, ?_⟩
  · intro s' hstep i row row' hrow hrow'
    obtain ⟨turned, hturned, hturns⟩ := hstep.row? hs hrow
    cases hturned.symm.trans hrow'
    exact hturns.status
  · intro s' hstep i a b hmoves t t' hreaches _
    rintro ⟨later, _, hlater, -, hat, -, -⟩
    obtain ⟨row, row', hrow, hrow', ha, hb, hne⟩ := hmoves
    have hs' : s'.Lawful := hstep.lawful hs.lawful
    -- The row has left the status `a` upwards and cannot come back to it.
    obtain ⟨turned, hturned, hturns⟩ := hstep.row? hs hrow
    cases hturned.symm.trans hrow'
    have hlt : a.rank < b.rank := by
      rcases hturns.status with heq | ⟨a', b', hmove, ha', hb'⟩
      · exact absurd (Row.At.unique (ha.symm.trans heq.symm).symm hb) hne
      · obtain rfl := ha.unique ha'
        obtain rfl := hb.unique hb'
        exact Status.rank_lt_of_canMove hmove
    obtain ⟨_, c, hsame, -, hc, hle, -⟩ := (hreaches.chronicle hs').getElem? hrow' hb
    cases hsame.symm.trans hlater
    obtain rfl := hat.unique hc
    omega
  · intro s' hreaches i row hrow
    obtain ⟨a, ha⟩ := hat i row hrow
    obtain ⟨row', b, hrow', hid, -, -, hfinal⟩ := (hreaches.chronicle hs.lawful).getElem? hrow ha
    refine ⟨row', hrow', hid, ?_⟩
    intro a' ha'
    obtain rfl := ha.unique ha'
    exact hfinal

/-- A piece that the ledger refused stays as it is. -/
theorem refused_row_is_frozen :
    ∃ s i row, Reachable s ∧ s.row? i = some row ∧ row.At .error ∧
      ∀ s', Reaches s s' → s'.row? i = some row := by
  have hof : (⟨pad [1], .ofTree (pad [1])⟩ : CommittedPiece).Of [1] :=
    .of_ofTree (by decide) (by decide)
  obtain ⟨s, hs, htable⟩ := exists_refused "a" hof rfl 7 { cause := .ledger "no" }
  obtain ⟨-, -, -, hstays⟩ := status_follows_lifecycle hs.reachable
  have hrow : s.row? 0 = some _ := congrArg (fun table : Table ↦ table.rows[0]?) htable
  refine ⟨s, 0, _, hs.reachable, hrow, rfl, ?_⟩
  intro s' hreaches
  obtain ⟨row', hrow', -, hfinal⟩ := hstays s' hreaches 0 _ hrow
  rw [hrow', hfinal .error rfl rfl]

end Run

end PieceKeeper
