import Mathlib.Data.String.Basic

/-!
# Splitting a text at a character

What a text is split into at a separator of one character is told by the characters alone.
-/

namespace PieceKeeper.Text

open String

/-! ## A text of one character -/

theorem get_singleton (c : Char) : Pos.Raw.get (singleton c) 0 = c := get_of_valid [] [c]

theorem next_singleton (c : Char) : Pos.Raw.next (singleton c) 0 = ⟨c.utf8Size⟩ := by
  have hnext : Pos.Raw.next (singleton c) 0 = ⟨0 + c.utf8Size⟩ := next_of_valid [] c []
  rwa [Nat.zero_add] at hnext

theorem atEnd_singleton (c : Char) : Pos.Raw.atEnd (singleton c) ⟨c.utf8Size⟩ = true := by
  have hend : Pos.Raw.atEnd (singleton c) ⟨0 + c.utf8Size⟩ = true := (atEnd_of_valid [c] []).mpr rfl
  rwa [Nat.zero_add] at hend

/-! ## Splitting -/

/-- While a text is split, it is known what was found before the part that is being read. -/
theorem splitOnAux_eq (separator : Char) (before part rest : List Char) (found : List String) :
    splitOnAux (ofList (before ++ part ++ rest)) (singleton separator) ⟨utf8Len before⟩
        ⟨utf8Len (before ++ part)⟩ 0 found =
      found.reverse ++ (List.splitOnPPrepend (· == separator) rest part.reverse).map ofList := by
  induction rest generalizing before part found with
  | nil =>
    have hpart := extract_of_valid before part []
    rw [← utf8Len_append] at hpart
    rw [splitOnAux, if_pos ((atEnd_of_valid (before ++ part) []).mpr rfl), hpart]
    simp
  | cons c rest ih =>
    have hend := (not_congr (atEnd_of_valid (before ++ part) (c :: rest))).mpr (List.cons_ne_nil c rest)
    have hget : Pos.Raw.get (ofList (before ++ part ++ c :: rest)) ⟨utf8Len (before ++ part)⟩ = c :=
      get_of_valid (before ++ part) (c :: rest)
    have hpart := extract_of_valid before part (c :: rest)
    rw [← utf8Len_append] at hpart
    rw [splitOnAux, if_neg hend, hget, get_singleton, next_of_valid (before ++ part) c rest]
    by_cases heq : (c == separator) = true
    · have hback : (Pos.Raw.mk (utf8Len (before ++ part) + c.utf8Size)).unoffsetBy
          ⟨c.utf8Size⟩ = ⟨utf8Len (before ++ part)⟩ := by
        simp [Pos.Raw.unoffsetBy]
      have hbehind := ih (before ++ part ++ [c]) [] (ofList part :: found)
      obtain rfl := beq_iff_eq.mp heq
      rw [if_pos heq, next_singleton, if_pos (atEnd_singleton c), hback, hpart,
        List.splitOnPPrepend_cons_eq_if, if_pos heq]
      simpa [Nat.add_assoc] using hbehind
    · have hbehind := ih before (part ++ [c]) found
      have hback : (Pos.Raw.mk (utf8Len (before ++ part))).unoffsetBy 0 =
          ⟨utf8Len (before ++ part)⟩ := rfl
      rw [if_neg heq, hback, next_of_valid (before ++ part) c rest,
        List.splitOnPPrepend_cons_eq_if, if_neg heq]
      simpa [Nat.add_assoc] using hbehind

/-- A text is split at a separator of one character as its characters are. -/
theorem splitOn_singleton (text : String) (separator : Char) :
    text.splitOn (singleton separator) = (text.toList.splitOn separator).map ofList := by
  have hne : (singleton separator == "") = false := beq_false_of_ne (by simp)
  have hall := splitOnAux_eq separator [] [] text.toList []
  rw [List.append_nil, List.nil_append, ofList_toList] at hall
  rw [splitOn, hne, if_neg Bool.false_ne_true]
  exact hall

end PieceKeeper.Text
