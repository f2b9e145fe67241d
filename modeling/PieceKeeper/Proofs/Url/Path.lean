import Mathlib.Data.String.Basic
import PieceKeeper.Proofs.Text.Percent
import PieceKeeper.Url.Basic

/-!
# The names of a path

All names of a path but the last are walked through one by one, and only the last one can leave an
empty name behind.  So a path that ends with a slash tells where the walk has come to, and what
another text adds behind that slash depends on nothing else.
-/

namespace PieceKeeper.Url

/-- The first character that satisfies a test parts a text. -/
theorem forall_or_exists_first (test : Char → Bool) (text : List Char) :
    (∀ c ∈ text, test c = false) ∨
      ∃ front c tail, text = front ++ c :: tail ∧ (∀ d ∈ front, test d = false) ∧ test c = true := by
  cases hfound : text.find? test with
  | none => exact .inl fun c hc ↦ eq_false_of_ne_true (List.find?_eq_none.mp hfound c hc)
  | some c =>
    obtain ⟨hc, front, tail, rfl, hfront⟩ := List.find?_eq_some_iff_append.mp hfound
    exact .inr ⟨front, c, tail, rfl, fun d hd ↦ by simpa using hfront d hd, hc⟩

/-- The last character that satisfies a test parts a text, too. -/
theorem forall_or_exists_last (test : Char → Bool) (text : List Char) :
    (∀ c ∈ text, test c = false) ∨
      ∃ front c tail, text = front ++ c :: tail ∧ test c = true ∧ ∀ d ∈ tail, test d = false := by
  obtain hall | ⟨tail, c, front, heq, htail, hc⟩ := forall_or_exists_first test text.reverse
  · exact .inl fun c hc ↦ hall c (List.mem_reverse.mpr hc)
  · refine .inr ⟨front.reverse, c, tail.reverse, ?_, hc, fun d hd ↦ htail d (List.mem_reverse.mp hd)⟩
    rw [← List.reverse_reverse text, heq]
    simp

/-- What is written for a part of an address. -/
def written (set : List Char) (part : List Char) : String := String.ofList (Percent.encode set part)

theorem toList_written (set part : List Char) : (written set part).toList = Percent.encode set part :=
  String.toList_ofList

theorem not_mem_written {set part : List Char} {c : Char} (hpercent : c ≠ '%')
    (hdigit : ¬ Hex.IsDigit c) (h : c ∉ part ∨ Percent.mustEscape set c = true) :
    c ∉ (written set part).toList := by
  rw [toList_written]
  intro hmem
  obtain rfl | hmem | ⟨hkept, hmem⟩ := Percent.mem_encode hmem
  · exact hpercent rfl
  · exact hdigit hmem
  · exact h.elim (absurd hmem) fun hescape ↦ Bool.false_ne_true (hkept.symm.trans hescape)

theorem slash_not_mem_written {part : List Char} (h : ∀ c ∈ part, isSlash true c = false) :
    '/' ∉ (written pathSet part).toList :=
  not_mem_written (by decide) (by decide) (.inl fun hmem ↦ absurd (h '/' hmem) (by decide))

/-- The names that stand between the slashes of a text, before dots are resolved. -/
def names (special : Bool) (text : List Char) : List String :=
  ((text.map fun c ↦ if isSlash special c then '/' else c).splitOn '/').map (written pathSet)

theorem segments_eq (special : Bool) (text : List Char) :
    segments special text = resolve [] (names special text) := rfl

section Names

variable {special : Bool} {text : List Char}

theorem names_ne_nil (special : Bool) (text : List Char) : names special text ≠ [] :=
  mt List.map_eq_nil_iff.mp (List.splitOn_ne_nil _ _)

theorem names_append {c : Char} (h : isSlash special c = true) (front tail : List Char) :
    names special (front ++ c :: tail) = names special front ++ names special tail := by
  rw [names, List.map_append, List.map_cons, if_pos h, List.splitOn_append_cons_self,
    List.map_append]
  rfl

theorem names_of_forall (h : ∀ c ∈ text, isSlash special c = false) :
    names special text = [written pathSet text] := by
  have hmap : (text.map fun c ↦ if isSlash special c then '/' else c) = text :=
    (List.map_congr_left fun c hc ↦ if_neg (ne_true_of_eq_false (h c hc))).trans (List.map_id' _)
  have hslash : '/' ∉ text := fun hmem ↦ absurd (h '/' hmem) (by cases special <;> decide)
  rw [names, hmap, List.splitOn_eq_singleton hslash, List.map_singleton]

/-- The last name is the whole text, or a shorter one. -/
theorem exists_names_eq (special : Bool) (text : List Char) :
    ∃ front last, names special text = front ++ [written pathSet last] ∧
      (∀ c ∈ last, isSlash special c = false) ∧
      (last = text ∨ (Percent.bytes last).length < (Percent.bytes text).length) := by
  obtain hall | ⟨front, c, last, rfl, hc, hlast⟩ := forall_or_exists_last (isSlash special) text
  · exact ⟨[], text, names_of_forall hall, hall, .inl rfl⟩
  · have hpos := List.length_pos_iff.mpr (Percent.utf8_ne_nil c)
    refine ⟨names special front, last, by rw [names_append hc, names_of_forall hlast], hlast, .inr ?_⟩
    rw [Percent.bytes_append, Percent.bytes_cons, List.length_append, List.length_append]
    omega

end Names

/-! ## Dots -/

/-- The capital letters are few enough to look at each. -/
theorem capital_of_code : ∀ code < 0x5b, 0x41 ≤ code →
    (Char.ofNat code).toLower.isLower = true ∧
      Char.ofNat code = (Char.ofNat code).toLower.toUpper := by
  decide

theorem eq_or_eq_capital {c d : Char} (h : c.toLower = d) :
    c = d ∨ d.isLower = true ∧ c = d.toUpper := by
  by_cases hcapital : c.val ≥ 'A'.val ∧ c.val ≤ 'Z'.val
  · have hcode := capital_of_code c.toNat (Nat.lt_succ_of_le hcapital.2) hcapital.1
    rw [Char.ofNat_toNat, h] at hcode
    exact .inr hcode
  · have hsame : c.toLower = c := dif_neg hcapital
    exact .inl (hsame.symm.trans h)

/-- The spellings of a dot. -/
inductive Dot : List Char → Prop
  | plain : Dot ['.']
  | small : Dot ['%', '2', 'e']
  | capital : Dot ['%', '2', 'E']

theorem dot_of_map_eq_plain {name : List Char} (h : name.map Char.toLower = ['.']) : Dot name := by
  obtain ⟨c, rfl, hc⟩ := List.map_eq_singleton_iff.mp h
  obtain rfl | ⟨hlower, -⟩ := eq_or_eq_capital hc
  · exact .plain
  · exact absurd hlower (by decide)

theorem dot_of_map_eq_escape {name : List Char} (h : name.map Char.toLower = ['%', '2', 'e']) :
    Dot name := by
  obtain ⟨c, rest, rfl, hc, h⟩ := List.map_eq_cons_iff.mp h
  obtain ⟨d, rest, rfl, hd, h⟩ := List.map_eq_cons_iff.mp h
  obtain ⟨e, rfl, he⟩ := List.map_eq_singleton_iff.mp h
  obtain rfl | ⟨hlower, -⟩ := eq_or_eq_capital hc
  · obtain rfl | ⟨hlower, -⟩ := eq_or_eq_capital hd
    · obtain rfl | ⟨-, rfl⟩ := eq_or_eq_capital he
      · exact .small
      · exact .capital
    · exact absurd hlower (by decide)
  · exact absurd hlower (by decide)

theorem dots_of_map_eq_append {name : List Char} (front back : List Char)
    (h : name.map Char.toLower = front ++ back)
    (hfront : front = ['.'] ∨ front = ['%', '2', 'e'])
    (hback : back = ['.'] ∨ back = ['%', '2', 'e']) :
    ∃ first second, name = first ++ second ∧ Dot first ∧ Dot second := by
  obtain ⟨first, second, rfl, rfl, rfl⟩ := List.map_eq_append_iff.mp h
  exact ⟨first, second, rfl, hfront.elim dot_of_map_eq_plain dot_of_map_eq_escape,
    hback.elim dot_of_map_eq_plain dot_of_map_eq_escape⟩

theorem toList_toLower (name : List Char) :
    (String.ofList name).toLower.toList = name.map Char.toLower :=
  String.toList_map.trans (by rw [String.toList_ofList])

theorem dot_of_isSingleDot {name : List Char} (h : isSingleDot (String.ofList name) = true) :
    Dot name := by
  simp only [isSingleDot, List.contains_iff_mem, List.mem_cons, List.not_mem_nil, or_false,
    ← String.toList_inj, toList_toLower] at h
  exact h.elim dot_of_map_eq_plain dot_of_map_eq_escape

theorem dots_of_isDoubleDot {name : List Char} (h : isDoubleDot (String.ofList name) = true) :
    ∃ first second, name = first ++ second ∧ Dot first ∧ Dot second := by
  simp only [isDoubleDot, List.contains_iff_mem, List.mem_cons, List.not_mem_nil, or_false,
    ← String.toList_inj, toList_toLower] at h
  obtain h | h | h | h := h
  · exact dots_of_map_eq_append ['.'] ['.'] h (.inl rfl) (.inl rfl)
  · exact dots_of_map_eq_append ['.'] ['%', '2', 'e'] h (.inl rfl) (.inr rfl)
  · exact dots_of_map_eq_append ['%', '2', 'e'] ['.'] h (.inr rfl) (.inl rfl)
  · exact dots_of_map_eq_append ['%', '2', 'e'] ['%', '2', 'e'] h (.inr rfl) (.inr rfl)

theorem bytes_dot (rest : List Char) : Percent.bytes ('.' :: rest) = 0x2e :: Percent.bytes rest :=
  Percent.bytes_cons_of_ascii (by decide) rest

/-- Every spelling is read as a dot. -/
theorem Dot.decode {name : List Char} (h : Dot name) (rest : List Char) :
    Percent.decode (Percent.bytes (name ++ rest)) =
      0x2e :: Percent.decode (Percent.bytes rest) := by
  have htwo : Hex.Stands '2' 2 := by decide
  cases h with
  | plain =>
    rw [List.singleton_append, bytes_dot]
    exact Percent.decode_cons_of_ne (by decide) _
  | small => exact Percent.decode_digits htwo (show Hex.Stands 'e' 14 by decide) rest
  | capital => exact Percent.decode_digits htwo (show Hex.Stands 'E' 14 by decide) rest

theorem spares_pathSet : Percent.Spares pathSet :=
  Percent.spares_of_any (by decide) (by decide)

section Undotted

variable {text : List Char} (hescape : ¬ Percent.HasEscape text)
include hescape

/-- A text without escapes is all that is read from its written form. -/
theorem decode_written : Percent.decode (Percent.bytes (written pathSet text).toList) =
    Percent.bytes text := by
  rw [toList_written, Percent.decode_encode spares_pathSet, Percent.decode_of_not_hasEscape hescape]

theorem isSingleDot_written (h : text ≠ ['.']) : isSingleDot (written pathSet text) = false := by
  refine eq_false_of_ne_true fun hdot ↦ h ?_
  have hread := (dot_of_isSingleDot hdot).decode []
  rw [List.append_nil, ← toList_written, decode_written hescape] at hread
  exact Percent.eq_of_bytes_eq (hread.trans (bytes_dot []).symm)

theorem isDoubleDot_written (h : text ≠ ['.', '.']) : isDoubleDot (written pathSet text) = false := by
  refine eq_false_of_ne_true fun hdots ↦ h ?_
  obtain ⟨first, second, heq, hfirst, hsecond⟩ := dots_of_isDoubleDot hdots
  have hread := hsecond.decode []
  rw [List.append_nil] at hread
  have hboth := hfirst.decode second
  rw [← heq, ← toList_written, decode_written hescape, hread] at hboth
  exact Percent.eq_of_bytes_eq (hboth.trans (by rw [bytes_dot, bytes_dot]; rfl))

end Undotted

/-! ## Walking -/

/-- The directory, in reverse, that a name leads to from another one. -/
def enter (done : List String) (name : String) : List String :=
  if isDoubleDot name then done.drop 1 else if isSingleDot name then done else name :: done

/-- The path, in reverse, that a last name leads to. -/
def arrive (done : List String) (name : String) : List String :=
  if isDoubleDot name then "" :: done.drop 1 else if isSingleDot name then "" :: done else name :: done

theorem arrive_of_not_dot {name : String} (hdouble : isDoubleDot name = false)
    (hsingle : isSingleDot name = false) (done : List String) : arrive done name = name :: done := by
  rw [arrive, hdouble, hsingle, if_neg Bool.false_ne_true, if_neg Bool.false_ne_true]

/-- What a path ends with is its last name, unless that is made of dots. -/
theorem exists_arrive_eq (done : List String) (name : String) :
    ∃ last above, arrive done name = last :: above ∧
      (last = "" ∨ last = name ∧ isDoubleDot name = false ∧ isSingleDot name = false) := by
  rw [arrive]
  split_ifs with hdouble hsingle
  · exact ⟨"", _, rfl, .inl rfl⟩
  · exact ⟨"", _, rfl, .inl rfl⟩
  · exact ⟨name, _, rfl, .inr ⟨rfl, eq_false_of_ne_true hdouble, eq_false_of_ne_true hsingle⟩⟩

theorem resolve_singleton (done : List String) (name : String) :
    resolve done [name] = (arrive done name).reverse := by
  have hlast : ([] : List String).isEmpty = true := rfl
  rw [resolve, arrive, if_pos hlast, if_pos hlast]
  split_ifs <;> rfl

/-- All names but the last are walked through. -/
theorem resolve_append {rest : List String} (hrest : rest ≠ []) (done front : List String) :
    resolve done (front ++ rest) = resolve (front.foldl enter done) rest := by
  induction front generalizing done with
  | nil => rfl
  | cons name front ih =>
    have hmore : ¬ (front ++ rest).isEmpty = true := by
      rw [List.isEmpty_iff, List.append_eq_nil_iff]
      exact fun h ↦ hrest h.2
    rw [List.cons_append, resolve, List.foldl_cons, enter, if_neg hmore, if_neg hmore]
    split_ifs <;> exact ih _

/-- A path with an empty last name is where its other names lead to. -/
theorem resolve_append_empty (done front : List String) :
    resolve done (front ++ [""]) = (front.foldl enter done).reverse ++ [""] := by
  have hdouble : isDoubleDot "" = false := by decide +kernel
  have hsingle : isSingleDot "" = false := by decide +kernel
  rw [resolve_append (List.cons_ne_nil _ _), resolve_singleton, arrive_of_not_dot hdouble hsingle,
    List.reverse_cons]

/-- The last name of a resolved path is empty, or it is that of the text and not made of dots. -/
theorem exists_resolve_eq (done : List String) (text : List Char) :
    ∃ front last, resolve done (names true text) = front ++ [last] ∧
      (last = "" ∨ ∃ part, last = written pathSet part ∧ (∀ c ∈ part, isSlash true c = false) ∧
        (part = text ∨ (Percent.bytes part).length < (Percent.bytes text).length) ∧
        isDoubleDot last = false ∧ isSingleDot last = false) := by
  obtain ⟨front, part, hnames, hpart, hle⟩ := exists_names_eq true text
  obtain ⟨last, above, harrive, hlast⟩ :=
    exists_arrive_eq (front.foldl enter done) (written pathSet part)
  refine ⟨above.reverse, last, ?_, hlast.imp_right ?_⟩
  · rw [hnames, resolve_append (List.cons_ne_nil _ _), resolve_singleton, harrive,
      List.reverse_cons]
  · rintro ⟨rfl, hdots⟩
    exact ⟨part, rfl, hpart, hle, hdots⟩

/-! ## The text of a path -/

/-- Names with a slash in front of each. -/
def joined (names : List String) : String := String.join (names.map ("/" ++ ·))

@[simp] theorem joined_append (front back : List String) :
    joined (front ++ back) = joined front ++ joined back := by
  rw [joined, List.map_append, String.join_append]
  rfl

@[simp] theorem joined_singleton (name : String) : joined [name] = "/" ++ name := by
  rw [joined, List.map_singleton, String.join_cons, String.join_nil, String.append_empty]

theorem pathText_of_host {url : Url} {names : List String} (hpath : url.path = .segments names)
    (hhost : url.host.isSome = true) : url.pathText = joined names := by
  have hnone : ¬ (url.host.isNone = true ∧ 1 < names.length ∧ names.head? = some "") := by
    rw [← Option.not_isSome, hhost]
    exact fun h ↦ Bool.false_ne_true h.1
  rw [pathText, hpath]
  exact if_neg hnone

/-- What stands behind the last slash of a text is found in one way. -/
theorem eq_of_append_slash {front front' : List Char} {last last' : List Char}
    (h : front ++ '/' :: last = front' ++ '/' :: last') (hlast : '/' ∉ last) (hlast' : '/' ∉ last') :
    last = last' := by
  have hnames := congrArg (fun text ↦ (text.splitOn '/').getLast?) h
  simp only [List.splitOn_append_cons_self, List.splitOn_eq_singleton hlast,
    List.splitOn_eq_singleton hlast', List.getLast?_concat, Option.some.injEq] at hnames
  exact hnames

end PieceKeeper.Url
