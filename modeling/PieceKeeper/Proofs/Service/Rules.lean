import PieceKeeper.Proofs.Operation.Errors

/-!
# Tables that obey their rules

Every row of a table is the row of a piece, no two rows have one id, and no two rows hold one content.  No
command breaks these rules, whatever fails.  Where nothing fails, a write to such a table writes one row, and
makes it the row of the piece that was written.
-/

namespace PieceKeeper

namespace Table

/-- The table with another piece in a row. -/
def put (table : Table) (i : Nat) (piece : Piece) : Table :=
  { table with rows := table.rows.set i (.ofPiece piece) }

/-- The table with one more piece. -/
def add (table : Table) (piece : Piece) : Table :=
  { table with rows := table.rows ++ [.ofPiece piece] }

/-- A row is that of a piece. -/
def Has (table : Table) (i : Nat) (piece : Piece) : Prop := table.rows[i]? = some (.ofPiece piece)

/-- Only the row with the id of a piece may hold the content of the piece. -/
def Admits (table : Table) (piece : Piece) : Prop :=
  ∀ row ∈ table.rows, sameContent (.ofPiece piece) row = true → row.id = .text piece.id

/-- The rules of a table. -/
structure Lawful (table : Table) : Prop where
  pieces : ∀ row ∈ table.rows, ∃ piece, row = .ofPiece piece
  ids : (table.rows.map (·.id)).Nodup
  contents : ∀ i piece, table.Has i piece → table.Admits piece

/-- A table is within reach, and its writes do not go wrong. -/
structure IsCalm (table : Table) : Prop where
  outage : table.outage = none
  disturbance : table.disturbance = none

/-- A table loses what is inserted, and does not say so. -/
def IsLossy (table : Table) : Prop := table.disturbance = some ⟨.insertion, true⟩

variable {table : Table} {i : Nat} {piece old : Piece} {expected : Status} {id : String}

theorem lawful_nil : Lawful {} where
  pieces _ h := absurd h List.not_mem_nil
  ids := List.nodup_nil
  contents i piece h := by cases h

theorem sameContent_iff {row other : Row} :
    sameContent row other = true ↔ row.contentId ≠ .null ∧ row.contentId = other.contentId := by
  rw [sameContent, Bool.and_eq_true, bne_iff_ne, beq_iff_eq]

theorem sameContent_comm {row other : Row} (h : sameContent row other = true) :
    sameContent other row = true := by
  obtain ⟨hnull, hsame⟩ := sameContent_iff.mp h
  exact sameContent_iff.mpr ⟨hsame ▸ hnull, hsame.symm⟩

/-- A content that no row has can be anybody's. -/
theorem admits_of_absent (h : ∀ row ∈ table.rows, row.contentId ≠ .ofText? piece.contentId) :
    table.Admits piece :=
  fun row hrow hsame ↦ absurd (sameContent_iff.mp hsame).2.symm (h row hrow)

theorem Admits.congr (h : table.Admits old) (hid : piece.id = old.id)
    (hcontent : piece.contentId = old.contentId) : table.Admits piece := by
  intro row hrow hsame
  rw [sameContent_iff, Row.ofPiece, hcontent] at hsame
  rw [hid]
  exact h row hrow (sameContent_iff.mpr hsame)

theorem Has.mem (h : table.Has i piece) : .ofPiece piece ∈ table.rows := List.mem_of_getElem? h

theorem Has.lt (h : table.Has i piece) : i < table.rows.length := (List.getElem?_eq_some_iff.mp h).1

theorem has_put (h : table.Has i old) : (table.put i piece).Has i piece := List.getElem?_set_self h.lt

theorem put_put : (table.put i old).put i piece = table.put i piece := by
  rw [put, put, put, List.set_set]

/-- A piece that is put where it was changes nothing. -/
theorem put_self (h : table.Has i piece) : table.put i piece = table := by
  obtain ⟨hi, hget⟩ := List.getElem?_eq_some_iff.mp h
  rw [put, ← hget, List.set_getElem_self]

namespace Lawful

/-- A piece has one row. -/
theorem has_unique {j : Nat} (h : table.Lawful) (hhas : table.Has i old) (hother : table.Has j piece)
    (hid : old.id = piece.id) : i = j ∧ old = piece := by
  have hi : i < (table.rows.map (·.id)).length := by
    rw [List.length_map]
    exact hhas.lt
  obtain rfl : i = j := by
    refine (List.getElem?_inj hi h.ids).mp ?_
    rw [List.getElem?_map, List.getElem?_map, hhas, hother]
    exact congrArg (fun id ↦ some (Cell.text id)) hid
  exact ⟨rfl, Row.ofPiece_injective (Option.some.inj (hhas.symm.trans hother))⟩

/-- A piece that is found is in a row. -/
theorem has_of_found (h : table.Lawful) (hfound : (table.run (.find id)).1 = .ok (some piece)) :
    ∃ i, table.Has i piece ∧ piece.id = id := by
  obtain ⟨row, hrow, hid, hread⟩ := row_of_find hfound
  obtain ⟨held, rfl⟩ := h.pieces row hrow
  obtain rfl := Row.eq_of_toPiece_ofPiece hread
  obtain ⟨i, hi⟩ := List.mem_iff_getElem?.mp hrow
  exact ⟨i, hi, Cell.text.inj hid⟩

/-- A version of a piece that has its content is admitted. -/
theorem admits (h : table.Lawful) (hhas : table.Has i old) (hid : piece.id = old.id)
    (hcontent : piece.contentId = old.contentId) : table.Admits piece :=
  (h.contents i old hhas).congr hid hcontent

theorem put (h : table.Lawful) (hhas : table.Has i old) (hid : piece.id = old.id)
    (hadmits : table.Admits piece) : (table.put i piece).Lawful := by
  obtain ⟨hi, hget⟩ := List.getElem?_eq_some_iff.mp hhas
  refine ⟨fun row hrow ↦ ?_, ?_, fun j held hheld row hrow hsame ↦ ?_⟩
  · rcases List.mem_or_eq_of_mem_set hrow with hold | rfl
    · exact h.pieces row hold
    · exact ⟨piece, rfl⟩
  · have hlength : i < (table.rows.map (·.id)).length := by rwa [List.length_map]
    have hcell : (Row.ofPiece piece).id = (table.rows.map (·.id))[i] := by
      rw [List.getElem_map, hget, Row.ofPiece, Row.ofPiece, hid]
    rw [Table.put, List.map_set, hcell, List.set_getElem_self]
    exact h.ids
  · rcases List.mem_or_eq_of_mem_set (List.mem_of_getElem? hheld) with hold | hnew
    · obtain ⟨k, hk⟩ := List.mem_iff_getElem?.mp hold
      rcases List.mem_or_eq_of_mem_set hrow with hrow | rfl
      · exact h.contents k held hk row hrow hsame
      · exact (hadmits _ hold (sameContent_comm hsame)).symm
    · obtain rfl := Row.ofPiece_injective hnew
      rcases List.mem_or_eq_of_mem_set hrow with hrow | rfl
      · exact hadmits row hrow hsame
      · rfl

theorem add (h : table.Lawful) (hfresh : ∀ row ∈ table.rows, row.id ≠ .text piece.id)
    (hfree : ∀ row ∈ table.rows, ¬ sameContent (.ofPiece piece) row = true) :
    (table.add piece).Lawful := by
  refine ⟨fun row hrow ↦ ?_, ?_, fun j held hheld row hrow hsame ↦ ?_⟩
  · rcases List.mem_append.mp hrow with hold | hnew
    · exact h.pieces row hold
    · exact ⟨piece, List.mem_singleton.mp hnew⟩
  · rw [Table.add, List.map_append, List.nodup_append]
    refine ⟨h.ids, List.nodup_singleton _, ?_⟩
    intro cell hcell other hother heq
    obtain ⟨row, hrow, rfl⟩ := List.mem_map.mp hcell
    obtain rfl := List.mem_singleton.mp hother
    exact hfresh row hrow heq
  · rcases List.mem_append.mp (List.mem_of_getElem? hheld) with hold | hnew
    · obtain ⟨k, hk⟩ := List.mem_iff_getElem?.mp hold
      rcases List.mem_append.mp hrow with hrow | hrow
      · exact h.contents k held hk row hrow hsame
      · obtain rfl := List.mem_singleton.mp hrow
        exact absurd (sameContent_comm hsame) (hfree _ hold)
    · obtain rfl := Row.ofPiece_injective (List.mem_singleton.mp hnew)
      rcases List.mem_append.mp hrow with hrow | hrow
      · exact absurd hsame (hfree row hrow)
      · rw [List.mem_singleton.mp hrow]
        rfl

end Lawful

/-! ## What writes do -/

theorem insert_cases (table : Table) (piece : Piece) :
    ((table.insert piece).1 = .ok () → table.IsLossy) ∧ (table.insert piece).2 = table ∨
    (∀ row ∈ table.rows, row.id ≠ .text piece.id) ∧
      (∀ row ∈ table.rows, ¬ sameContent (.ofPiece piece) row = true) ∧
      table.insert piece = (.ok (), table.add piece) := by
  rw [insert, Insertion.row_eq]
  split
  · rename_i silent hdisturbance
    refine Or.inl ⟨fun hok ↦ ?_, rfl⟩
    cases silent with
    | true => exact hdisturbance
    | false => cases hok
  · split
    · exact Or.inl ⟨fun hok ↦ (by cases hok), rfl⟩
    · rename_i hcontent
      split
      · exact Or.inl ⟨fun hok ↦ (by cases hok), rfl⟩
      · rename_i hid
        refine Or.inr ⟨fun row hrow heq ↦ hid (List.any_eq_true.mpr ⟨row, hrow, beq_iff_eq.mpr heq⟩), ?_, rfl⟩
        exact fun row hrow hsame ↦ hcontent (List.any_eq_true.mpr ⟨row, hrow, hsame⟩)

/-- Where nothing goes wrong, an insertion is refused, or it takes place. -/
theorem IsCalm.insert (h : table.IsCalm) (piece : Piece) :
    (∃ fault, table.insert piece = (.error fault, table)) ∨
    (∀ row ∈ table.rows, row.id ≠ .text piece.id) ∧ table.insert piece = (.ok (), table.add piece) := by
  obtain ⟨rows, disturbance, outage⟩ := table
  obtain rfl : disturbance = none := h.disturbance
  rw [Table.insert, Insertion.row_eq]
  dsimp only
  split
  · exact Or.inl ⟨_, rfl⟩
  · split
    · exact Or.inl ⟨_, rfl⟩
    · rename_i hid
      refine Or.inr ⟨fun row hrow heq ↦ hid (List.any_eq_true.mpr ⟨row, hrow, beq_iff_eq.mpr heq⟩), rfl⟩

/-- An update changes nothing, or it writes over the row with the id of the piece. -/
theorem Lawful.update_cases (h : table.Lawful) (piece : Piece) (expected : Status) :
    ((table.update piece expected).1 ≠ .ok true ∧ (table.update piece expected).2 = table) ∨
    ∃ i old, table.Has i old ∧ piece.id = old.id ∧ table.Admits piece ∧
      table.update piece expected = (.ok true, table.put i { piece with createdAt := old.createdAt }) := by
  rw [update_eq]
  rcases table.replace_cases _ _ _ _ with hsame | ⟨⟨row, hrow, hfound, hrefusal⟩, heq⟩
  · exact Or.inl hsame
  · obtain ⟨old, rfl⟩ := h.pieces row hrow
    obtain ⟨i, hi⟩ := List.mem_iff_getElem?.mp hrow
    have his := (beq_and_beq_iff_is _ piece expected).mp hfound
    have hid : old.id = piece.id := Cell.text.inj his.1
    refine Or.inr ⟨i, old, hi, hid.symm, fun other hother hsame ↦ ?_, ?_⟩
    · split at hrefusal
      · cases hrefusal
      · rename_i hclash
        by_contra hne
        refine hclash (List.any_eq_true.mpr ⟨other, hother, Bool.and_eq_true_iff.mpr ⟨?_, hsame⟩⟩)
        exact bne_iff_ne.mpr hne
    · rw [heq]
      simp only [beq_and_beq_iff_is]
      rw [map_ite_eq_set h.ids hi his (fun other hother ↦ hother.1.trans his.1.symm), Table.put]
      simp only [Row.takeOver, Row.ofPiece, hid]

/-- A claim changes nothing, or it writes the row with the id. -/
theorem Lawful.claim_cases (h : table.Lawful) (id : String) (proofSet : UInt64) (rootCid : String)
    (now : Instant) :
    ((table.claim id proofSet rootCid now).1 ≠ .ok true ∧ (table.claim id proofSet rootCid now).2 = table) ∨
    ∃ i old, table.Has i old ∧ old.id = id ∧
      table.claim id proofSet rootCid now = (.ok true, table.put i (old.heldFor proofSet rootCid now)) := by
  rw [claim_eq]
  rcases table.replace_cases _ _ _ _ with hsame | ⟨⟨row, hrow, hfound, -⟩, heq⟩
  · exact Or.inl hsame
  · obtain ⟨old, rfl⟩ := h.pieces row hrow
    obtain ⟨i, hi⟩ := List.mem_iff_getElem?.mp hrow
    have hfree := (beq_and_iff_isFree _ id).mp hfound
    have honly (other : Row) (hother : other.IsFree id) : other.id = (Row.ofPiece old).id :=
      hother.1.1.trans hfree.1.1.symm
    refine Or.inr ⟨i, old, hi, Cell.text.inj hfree.1.1, ?_⟩
    rw [heq]
    simp only [beq_and_iff_isFree]
    rw [map_ite_eq_set h.ids hi hfree honly]
    rfl

/-- No command breaks the rules. -/
theorem Lawful.run (h : table.Lawful) (command : Command) : (table.run command).2.Lawful := by
  rw [Table.run]
  split
  · exact h
  · cases command with
    | find _ | findContent _ | withStatus _ | first _ => exact h
    | insert piece =>
      change (table.insert piece).2.Lawful
      rcases table.insert_cases piece with ⟨-, hsame⟩ | ⟨hfresh, hfree, heq⟩
      · rwa [hsame]
      · rw [heq]
        exact h.add hfresh hfree
    | update piece expected =>
      change (table.update piece expected).2.Lawful
      rcases h.update_cases piece expected with ⟨-, hsame⟩ | ⟨i, old, hhas, hid, hadmits, heq⟩
      · rwa [hsame]
      · rw [heq]
        exact h.put hhas hid (hadmits.congr rfl rfl)
    | claim id proofSet rootCid now =>
      change (table.claim id proofSet rootCid now).2.Lawful
      rcases h.claim_cases id proofSet rootCid now with ⟨-, hsame⟩ | ⟨i, old, hhas, -, heq⟩
      · rwa [hsame]
      · rw [heq]
        exact h.put hhas rfl (h.admits hhas rfl rfl)

/-- A question changes nothing. -/
theorem run_query {command : Command} (h : (Request.table command).IsQuiet) :
    (table.run command).2 = table := by
  rw [run]
  split
  · rfl
  · cases command with
    | find _ | findContent _ | withStatus _ | first _ => rfl
    | insert _ | update _ _ | claim _ _ _ _ => exact h.elim

/-- Where nothing goes wrong, the piece in a row is written over. -/
theorem Lawful.run_update (h : table.Lawful) (hcalm : table.IsCalm) (hhas : table.Has i old)
    (hstatus : old.status = expected) (hid : piece.id = old.id) (hcreated : piece.createdAt = old.createdAt)
    (hadmits : table.Admits piece) :
    table.run (.update piece expected) = (.ok true, table.put i piece) := by
  have his : (Row.ofPiece old).Is piece.id expected := ⟨congrArg Cell.text hid.symm, hstatus ▸ rfl⟩
  rw [Table.run_update hcalm.outage hcalm.disturbance hhas.mem his fun other hother hne ↦ ?_,
    map_ite_eq_set h.ids hhas his (fun other hother ↦ hother.1.trans his.1.symm),
    Row.takeOver_ofPiece hid hcreated, Table.put]
  rw [← Bool.not_eq_true]
  exact fun hsame ↦ hne (hadmits other hother hsame)

end Table

end PieceKeeper
