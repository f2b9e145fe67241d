import PieceKeeper.Proofs.Time.Stamp

/-!
# The lenient form reads every instant

In the lenient form a year may have a sign.  So every instant is read from its text in UTC, also
those whose year does not have four digits, and a leap second as such.  The digits behind the
second may be more than are needed, as long as none is left out.
-/

namespace PieceKeeper

open Instant

/-! ## Blanks -/

namespace Text

theorem trimStart_cons {c : Char} (h : isBlank c = false) (rest : List Char) :
    trimStart (c :: rest) = c :: rest := by
  rw [trimStart, List.dropWhile_cons_of_neg]
  rw [h]
  exact Bool.false_ne_true

theorem isBlank_of_isDigit {c : Char} (h : c.isDigit = true) : isBlank c = false := by
  simp only [Char.isDigit, Bool.and_eq_true, decide_eq_true_eq, UInt32.le_iff_toNat_le] at h
  have hlow : 0x30 ≤ c.toNat := h.1
  have hhigh : c.toNat ≤ 0x39 := h.2
  simp only [isBlank, Bool.or_eq_false_iff, Bool.and_eq_false_iff, decide_eq_false_iff_not,
    beq_eq_false_iff_ne]
  omega

/-- There is no blank in front of a number. -/
theorem trimStart_padded {width n : Nat} (hwidth : 0 < width) (rest : List Char) :
    trimStart ((padded width n).toList ++ rest) = (padded width n).toList ++ rest := by
  have hlength := le_length_padded width n
  obtain ⟨c, digits, hdigits⟩ := List.exists_cons_of_length_pos
    (by omega : 0 < (padded width n).toList.length)
  have hc : c.isDigit = true := isDigit_of_mem_padded (hdigits ▸ List.mem_cons_self)
  rw [hdigits, List.cons_append, trimStart_cons (isBlank_of_isDigit hc)]

end Text

namespace Stamp

variable {rest : List Char}

/-! ## The parts of the lenient form -/

theorem loose_padded {n : Nat} (hn : n < 10 ^ 2) (rest : List Char) :
    loose ((padded 2 n).toList ++ rest) = .ok (n, rest) := by
  rw [loose, Text.trimStart_padded (by decide), digits_padded (by decide) hn]
  change Except.ok (decimal (padded 2 n).toList, rest) = _
  rw [decimal_padded]

theorem mark_cons {c : Char} (h : Text.isBlank c = false) (rest : List Char) :
    mark c (c :: rest) = .ok ((), rest) := by
  rw [mark, Text.trimStart_cons h]
  exact char_cons (List.mem_singleton_self c)

theorem looseYear_minus {text found : List Char} (h : digits text.length text = .ok (found, rest)) :
    looseYear ('-' :: text) = .ok (-(decimal found : Int), rest) := by
  rw [looseYear, Text.trimStart_cons (by decide)]
  exact bind_ok h rfl

theorem looseYear_plus {text found : List Char} (h : digits text.length text = .ok (found, rest)) :
    looseYear ('+' :: text) = .ok ((decimal found : Int), rest) := by
  rw [looseYear, Text.trimStart_cons (by decide)]
  exact bind_ok h rfl

/-- A year of four digits has no sign, and any other has one and no bound to its digits. -/
theorem looseYear_yearText (year : Int) (hrest : EndsNumber rest) :
    looseYear ((yearText year).toList ++ rest) = .ok (year, rest) := by
  have hsigned : digits ((padded 4 year.natAbs).toList ++ rest).length
      ((padded 4 year.natAbs).toList ++ rest) = .ok ((padded 4 year.natAbs).toList, rest) := by
    refine digits_padded_of_le (by decide) ?_ hrest
    rw [List.length_append]
    exact Nat.le_add_right _ _
  rw [yearText]
  split
  · rename_i hyear
    rw [looseYear, Text.trimStart_padded (by decide)]
    split
    · exact (head_padded_ne_sign rfl ‹_›).elim
    · exact (head_padded_ne_sign rfl ‹_›).elim
    · rw [digits_padded (by decide) (by omega)]
      change Except.ok ((decimal (padded 4 year.toNat).toList : Int), rest) = _
      rw [decimal_padded, Int.toNat_of_nonneg hyear.1]
  · rw [String.toList_append]
    split
    · have hyear : -(year.natAbs : Int) = year := by omega
      refine (looseYear_minus hsigned).trans ?_
      rw [decimal_padded, hyear]
    · have hyear : (year.natAbs : Int) = year := by omega
      refine (looseYear_plus hsigned).trans ?_
      rw [decimal_padded, hyear]

/-! ## The whole -/

/-- The text of an instant in UTC, with so many digits behind the second. -/
def textIn (digits : Nat) (i : Instant) : String :=
  yearText i.date.year ++ "-" ++ padded 2 i.date.month ++ "-" ++ padded 2 i.date.day ++ "T"
    ++ padded 2 (i.second / 3600) ++ ":" ++ padded 2 (i.second / 60 % 60) ++ ":"
    ++ padded 2 (i.second % 60 + i.nano / 1000000000)
    ++ fractionTextIn digits (i.nano % 1000000000) ++ "Z"

/-- So many digits behind the second leave nothing of it out. -/
def Suffices (digits : Nat) (i : Instant) : Prop :=
  digits ≤ 9 ∧ 10 ^ (9 - digits) ∣ i.nano % 1000000000

/-- An instant is written with no digits behind the second, or with three, six or nine. -/
theorem exists_text_eq (i : Instant) :
    ∃ digits ∈ [0, 3, 6, 9], Suffices digits i ∧ i.text "Z" = textIn digits i := by
  obtain ⟨digits, hdigits, hdvd, htext⟩ :=
    exists_fractionText_eq (Nat.mod_lt i.nano (by decide : 1000000000 > 0))
  refine ⟨digits, hdigits, ⟨?_, hdvd⟩, ?_⟩
  · simp only [List.mem_cons, List.not_mem_nil, or_false] at hdigits
    omega
  · rw [textIn, ← htext, Instant.text]

theorem parseLoose_textIn {digits : Nat} {i : Instant} (h : Suffices digits i) :
    parseLoose (textIn digits i) = .ok i := by
  obtain ⟨hsecond, hnano, -⟩ := i.valid
  obtain ⟨-, -, -, hmonth, -, -⟩ := i.date.valid
  have hfraction : i.nano % 1000000000 < 1000000000 := Nat.mod_lt _ (by decide)
  have hchars : (textIn digits i).toList = (yearText i.date.year).toList ++ '-' ::
      ((padded 2 i.date.month).toList ++ '-' :: ((padded 2 i.date.day).toList ++ 'T' ::
      ((padded 2 (i.second / 3600)).toList ++ ':' :: ((padded 2 (i.second / 60 % 60)).toList ++ ':' ::
      ((padded 2 (i.second % 60 + i.nano / 1000000000)).toList ++
      ((fractionTextIn digits (i.nano % 1000000000)).toList ++ ['Z'])))))) := by
    simp [textIn, String.toList_append]
  rw [parseLoose, hchars]
  refine bind_ok (looseYear_yearText _ (endsNumber_cons (by decide))) ?_
  refine bind_ok (mark_cons (by decide) _) ?_
  refine bind_ok (loose_padded (by omega) _) ?_
  refine bind_ok (mark_cons (by decide) _) ?_
  refine bind_ok (loose_padded (day_lt _) _) ?_
  refine bind_ok (char_cons (by decide)) ?_
  refine bind_ok (loose_padded (by omega) _) ?_
  refine bind_ok (mark_cons (by decide) _) ?_
  refine bind_ok (loose_padded (by omega) _) ?_
  refine bind_ok (mark_cons (by decide) _) ?_
  refine bind_ok (loose_padded (by omega) _) ?_
  refine bind_ok (fraction_fractionTextIn h.1 h.2 hfraction (endsNumber_cons (by decide))) ?_
  refine bind_ok (a := (0, [])) rfl ?_
  refine bind_ok (a := ()) rfl ?_
  refine bind_ok (congrArg inRange (of?_date i.date)) ?_
  refine bind_ok (instant_clock i) ?_
  rw [if_pos (by decide)]
  exact congrArg inRange (behind?_zero i)

/-- Every instant is read from its text. -/
theorem parseLoose_text (i : Instant) : parseLoose (i.text "Z") = .ok i := by
  obtain ⟨digits, -, hsuffices, htext⟩ := exists_text_eq i
  rw [htext]
  exact parseLoose_textIn hsuffices

end Stamp

end PieceKeeper
