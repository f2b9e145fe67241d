import Mathlib.Data.String.Basic
import PieceKeeper.Time.Stamp

/-!
# Written instants are read back

An instant whose year has four digits is read from its text.  No other year can be read, for the
strict form has no sign.  So whatever is read from the text of an instant is that instant.
-/

namespace PieceKeeper

namespace Instant

variable {width n : Nat}

theorem toList_padded (width n : Nat) :
    (padded width n).toList =
      List.replicate (width - (Nat.toDigits 10 n).length) '0' ++ Nat.toDigits 10 n := by
  rw [padded, String.toList_append, String.toList_ofList, ← String.length_toList]
  change List.replicate (width - n.repr.toList.length) '0' ++ n.repr.toList = _
  rw [Nat.toList_repr]

theorem length_padded (hwidth : 0 < width) (hn : n < 10 ^ width) :
    (padded width n).toList.length = width := by
  have hle := (Nat.length_toDigits_le_iff (by decide) hwidth).mpr hn
  rw [toList_padded, List.length_append, List.length_replicate]
  omega

theorem le_length_padded (width n : Nat) : width ≤ (padded width n).toList.length := by
  rw [toList_padded, List.length_append, List.length_replicate]
  omega

theorem isDigit_of_mem_padded {c : Char} (h : c ∈ (padded width n).toList) : c.isDigit = true := by
  rw [toList_padded] at h
  rcases List.mem_append.mp h with hzero | hdigit
  · rw [List.eq_of_mem_replicate hzero]
    rfl
  · exact Nat.isDigit_of_mem_toDigits (by decide) (by decide) hdigit

theorem decimal_padded (width n : Nat) : Stamp.decimal (padded width n).toList = n := by
  change Nat.ofDigitChars 10 (padded width n).toList 0 = n
  rw [toList_padded, Nat.ofDigitChars_append, Nat.ofDigitChars_replicate_zero]
  simp

end Instant

namespace Stamp

open Instant

variable {width n : Nat} {rest : List Char}

/-! ## The parts of a time stamp -/

theorem fixed_padded (width : Nat) (hwidth : 0 < width) (hn : n < 10 ^ width) :
    fixed width ((padded width n).toList ++ rest) = .ok (n, rest) := by
  have hlength := length_padded hwidth hn
  have hdigits : (padded width n).toList.all Char.isDigit := by
    rw [List.all_eq_true]
    exact fun c ↦ isDigit_of_mem_padded
  rw [fixed, List.take_left' hlength, List.drop_left' hlength, if_neg (by omega), if_pos hdigits,
    decimal_padded]

theorem char_cons {allowed : List Char} {c : Char} (h : c ∈ allowed) :
    char allowed (c :: rest) = .ok ((), rest) := by
  rw [char, if_pos h]

/-- What follows a number: nothing, or a character that belongs to no number. -/
def EndsNumber (rest : List Char) : Prop := ∀ c ∈ rest.head?, c.isDigit = false ∧ c ≠ '.'

theorem endsNumber_cons {c : Char} (h : c.isDigit = false ∧ c ≠ '.') : EndsNumber (c :: rest) := by
  rintro _ ⟨⟩
  exact h

theorem EndsNumber.takeWhile_eq (h : EndsNumber rest) : rest.takeWhile Char.isDigit = [] := by
  cases rest with
  | nil => rfl
  | cons c rest =>
    rw [List.takeWhile_cons_of_neg]
    rw [(h c rfl).1]
    exact Bool.false_ne_true

theorem EndsNumber.dropWhile_eq (h : EndsNumber rest) : rest.dropWhile Char.isDigit = rest := by
  have happend := List.takeWhile_append_dropWhile (p := Char.isDigit) (l := rest)
  rwa [h.takeWhile_eq] at happend

theorem EndsNumber.take (h : EndsNumber rest) (count : Nat) : EndsNumber (rest.take count) := by
  cases count with
  | zero => nofun
  | succ count =>
    cases rest with
    | nil => exact h
    | cons c rest => exact endsNumber_cons (h c rfl)

/-- The digits of a number, with as many as are asked for. -/
theorem digits_padded (hwidth : 0 < width) (hn : n < 10 ^ width) :
    digits width ((padded width n).toList ++ rest) = .ok ((padded width n).toList, rest) := by
  have hlength := length_padded hwidth hn
  have hfound : (((padded width n).toList ++ rest).take width).takeWhile Char.isDigit =
      (padded width n).toList := by
    rw [List.take_left' hlength, ← List.append_nil (padded width n).toList,
      List.takeWhile_append_of_pos fun c ↦ isDigit_of_mem_padded, List.takeWhile_nil]
  have hne : ¬ (padded width n).toList.isEmpty := by
    rw [List.isEmpty_iff_length_eq_zero]
    omega
  rw [digits, hfound, if_neg hne, List.drop_left]

/-- The digits of a number, with room for more of them, end where the number does. -/
theorem digits_padded_of_le {limit : Nat} (hwidth : 0 < width)
    (hle : (padded width n).toList.length ≤ limit) (hrest : EndsNumber rest) :
    digits limit ((padded width n).toList ++ rest) = .ok ((padded width n).toList, rest) := by
  have hfound : (((padded width n).toList ++ rest).take limit).takeWhile Char.isDigit =
      (padded width n).toList := by
    rw [List.take_append, List.take_of_length_le hle,
      List.takeWhile_append_of_pos fun c ↦ isDigit_of_mem_padded, (hrest.take _).takeWhile_eq,
      List.append_nil]
  have hne : ¬ (padded width n).toList.isEmpty := by
    rw [List.isEmpty_iff_length_eq_zero]
    have := le_length_padded width n
    omega
  rw [digits, hfound, if_neg hne, List.drop_left]

/-! ## Fractions -/

/-- A fraction of a second in nanoseconds, written with so many digits. -/
def fractionTextIn (digits nano : Nat) : String :=
  if digits = 0 then "" else "." ++ padded digits (nano / 10 ^ (9 - digits))

/-- A fraction is written with no digits, or with three, six or nine: as many as it needs. -/
theorem exists_fractionText_eq {nano : Nat} (h : nano < 1000000000) :
    ∃ digits ∈ [0, 3, 6, 9], 10 ^ (9 - digits) ∣ nano ∧
      fractionText nano = fractionTextIn digits nano := by
  rw [fractionText]
  split
  · rename_i hzero
    subst hzero
    exact ⟨0, by decide, Nat.dvd_zero _, rfl⟩
  · split
    · exact ⟨3, by decide, Nat.dvd_of_mod_eq_zero ‹_›, rfl⟩
    · split
      · exact ⟨6, by decide, Nat.dvd_of_mod_eq_zero ‹_›, rfl⟩
      · exact ⟨9, by decide, Nat.one_dvd _, by simp [fractionTextIn]⟩

/-- A fraction is read from any number of digits that leaves nothing of it out. -/
theorem fraction_fractionTextIn {count nano : Nat} (hcount : count ≤ 9)
    (hdvd : 10 ^ (9 - count) ∣ nano) (hnano : nano < 1000000000) (hrest : EndsNumber rest) :
    fraction ((fractionTextIn count nano).toList ++ rest) = .ok (nano, rest) := by
  rw [fractionTextIn]
  split
  · rename_i hzero
    have hnone : nano = 0 := by
      rw [hzero] at hdvd
      exact Nat.eq_zero_of_dvd_of_lt hdvd hnano
    rw [String.toList_empty, List.nil_append, hnone, fraction]
    · rfl
    · rintro after rfl
      exact (hrest '.' rfl).2 rfl
  · have hpow : 10 ^ count * 10 ^ (9 - count) = 10 ^ 9 := by
      rw [← Nat.pow_add, Nat.add_sub_cancel' hcount]
    have hlt : nano / 10 ^ (9 - count) < 10 ^ count :=
      Nat.div_lt_of_lt_mul (by rwa [Nat.mul_comm, hpow])
    have hlength := length_padded (Nat.pos_of_ne_zero ‹_›) hlt
    rw [String.toList_append]
    change fraction ('.' :: ((padded count (nano / 10 ^ (9 - count))).toList ++ rest)) = _
    rw [fraction, digits_padded_of_le (Nat.pos_of_ne_zero ‹_›) (hlength.trans_le hcount) hrest]
    change Except.ok (decimal _ * 10 ^ (9 - (padded count _).toList.length), _) = _
    rw [decimal_padded, hlength, Nat.div_mul_cancel hdvd, hrest.dropWhile_eq]

/-- A fraction is read back from its text. -/
theorem fraction_fractionText {nano : Nat} (h : nano < 1000000000) (hrest : EndsNumber rest) :
    fraction ((fractionText nano).toList ++ rest) = .ok (nano, rest) := by
  obtain ⟨count, hcount, hdvd, htext⟩ := exists_fractionText_eq h
  have hle : count ≤ 9 := by
    simp only [List.mem_cons, List.not_mem_nil, or_false] at hcount
    omega
  rw [htext]
  exact fraction_fractionTextIn hle hdvd h hrest

/-! ## The whole -/

/-- The clock of an instant shows what the instant is made of. -/
theorem instant_clock (i : Instant) :
    instant i.date (i.second / 3600) (i.second / 60 % 60) (i.second % 60 + i.nano / 1000000000)
      (i.nano % 1000000000) = .ok i := by
  obtain ⟨date, second, nano, hsecond, hnano, hleap⟩ := i
  have hone : (if second % 60 + nano / 1000000000 = 60 then 1 else 0) = nano / 1000000000 := by
    split <;> omega
  have hsecond' : 3600 * (second / 3600) + 60 * (second / 60 % 60) +
      (second % 60 + nano / 1000000000 - nano / 1000000000) = second := by omega
  have hnano' : 1000000000 * (nano / 1000000000) + nano % 1000000000 = nano := by omega
  rw [instant, if_pos (by dsimp only; omega), Instant.of?]
  simp only [hone, hsecond', hnano']
  rw [dif_pos ⟨hsecond, hnano, hleap⟩]
  rfl

theorem of?_date (date : Date) : Date.of? date.year date.month date.day = some date := by
  rw [Date.of?, dif_pos date.valid]

theorem behind?_zero (i : Instant) : i.behind? 0 = some i := by
  obtain ⟨date, second, nano, hsecond, hnano, hleap⟩ := i
  have hdate : ¬ (second : Int) - 60 * 0 < 0 ∧ (second : Int) - 60 * 0 < 86400 := by omega
  have hsame : (((second : Int) - 60 * 0) % 86400).toNat = second := by omega
  rw [Instant.behind?]
  simp only [if_neg hdate.1, if_pos hdate.2, hsame]
  rfl

theorem day_lt (date : Date) : date.day < 10 ^ 2 := by
  obtain ⟨-, -, -, -, -, hday⟩ := date.valid
  rw [daysIn] at hday
  split at hday
  · split at hday <;> omega
  · split at hday <;> omega

/-- The characters of a written instant. -/
theorem toList_text (i : Instant) (zone : String) :
    (i.text zone).toList = (yearText i.date.year).toList ++ '-' ::
      ((padded 2 i.date.month).toList ++ '-' :: ((padded 2 i.date.day).toList ++ 'T' ::
      ((padded 2 (i.second / 3600)).toList ++ ':' :: ((padded 2 (i.second / 60 % 60)).toList ++ ':' ::
      ((padded 2 (i.second % 60 + i.nano / 1000000000)).toList ++
      ((fractionText (i.nano % 1000000000)).toList ++ zone.toList)))))) := by
  simp [Instant.text, String.toList_append]

theorem length_le_utf8ByteSize (text : String) : text.toList.length ≤ text.utf8ByteSize := by
  rw [← String.utf8Len_toList]
  induction text.toList with
  | nil => exact Nat.zero_le _
  | cons c rest ih =>
    have hpos := c.utf8Size_pos
    rw [String.utf8Len_cons, List.length_cons]
    omega

/-- Between the date, the clock and the zone there are at least nineteen characters. -/
theorem not_short {i : Instant} (hyear : 0 ≤ i.date.year ∧ i.date.year ≤ 9999) (zone : String) :
    ¬ (i.text zone).utf8ByteSize < 19 := by
  have hle := length_le_utf8ByteSize (i.text zone)
  rw [toList_text, yearText, if_pos hyear] at hle
  simp only [List.length_append, List.length_cons] at hle
  have := le_length_padded 4 i.date.year.toNat
  have := le_length_padded 2 i.date.month
  have := le_length_padded 2 i.date.day
  have := le_length_padded 2 (i.second / 3600)
  have := le_length_padded 2 (i.second / 60 % 60)
  have := le_length_padded 2 (i.second % 60 + i.nano / 1000000000)
  omega

theorem bind_ok {ε α β : Type} {first : Except ε α} {next : α → Except ε β} {a : α} {b : β}
    (h : first = .ok a) (hnext : next a = .ok b) : (first >>= next) = .ok b := by
  rw [h]
  exact hnext

/-- An instant in a year of four digits is read from its text. -/
theorem parse_text {i : Instant} (hyear : 0 ≤ i.date.year ∧ i.date.year ≤ 9999) :
    parse (i.text "+00:00") = .ok i := by
  obtain ⟨-, -, -, hmonth, -, -⟩ := i.date.valid
  obtain ⟨hsecond, hnano, -⟩ := i.valid
  have hdate : Date.of? (i.date.year.toNat : Int) i.date.month i.date.day = some i.date := by
    rw [Int.toNat_of_nonneg hyear.1, of?_date]
  have hfraction : i.nano % 1000000000 < 1000000000 := Nat.mod_lt _ (by decide)
  have hzone : "+00:00".toList = ['+', '0', '0', ':', '0', '0'] := String.toList_ofList
  rw [parse, if_neg (not_short hyear _), toList_text, yearText, if_pos hyear, hzone]
  refine bind_ok (fixed_padded 4 (by decide) (by omega)) ?_
  refine bind_ok (char_cons (List.mem_singleton_self _)) ?_
  refine bind_ok (fixed_padded 2 (by decide) (by omega)) ?_
  refine bind_ok (char_cons (List.mem_singleton_self _)) ?_
  refine bind_ok (fixed_padded 2 (by decide) (day_lt _)) ?_
  refine bind_ok (congrArg inRange hdate) ?_
  refine bind_ok (char_cons (by decide)) ?_
  refine bind_ok (fixed_padded 2 (by decide) (by omega)) ?_
  refine bind_ok (char_cons (List.mem_singleton_self _)) ?_
  refine bind_ok (fixed_padded 2 (by decide) (by omega)) ?_
  refine bind_ok (char_cons (List.mem_singleton_self _)) ?_
  refine bind_ok (fixed_padded 2 (by decide) (by omega)) ?_
  refine bind_ok (fraction_fractionText hfraction (endsNumber_cons (by decide))) ?_
  refine bind_ok (instant_clock i) ?_
  refine bind_ok (a := (0, [])) rfl ?_
  refine bind_ok (a := ()) rfl ?_
  rw [if_pos (by decide)]
  exact congrArg inRange (behind?_zero i)

/-- Four digits do not begin with a sign. -/
theorem fixed_signed {year : Int} (hyear : ¬ (0 ≤ year ∧ year ≤ 9999)) (rest : List Char) :
    ∃ failure, fixed 4 ((yearText year).toList ++ rest) = .error failure := by
  obtain ⟨c, tail, hc, htext⟩ : ∃ c tail, c.isDigit = false ∧ (yearText year).toList = c :: tail := by
    rw [yearText, if_neg hyear, String.toList_append]
    split
    · exact ⟨'-', _, rfl, rfl⟩
    · exact ⟨'+', _, rfl, rfl⟩
  rw [htext, fixed]
  split
  · exact ⟨_, rfl⟩
  · rw [if_neg (by simp [hc])]
    exact ⟨_, rfl⟩

/-- Whatever is read from the text of an instant is that instant. -/
theorem eq_of_parse_text {i j : Instant} (h : parse (i.text "+00:00") = .ok j) : j = i := by
  by_cases hyear : 0 ≤ i.date.year ∧ i.date.year ≤ 9999
  · rw [parse_text hyear] at h
    exact (Except.ok.inj h).symm
  · rw [parse, toList_text] at h
    obtain ⟨failure, hfailure⟩ := fixed_signed hyear _
    split at h
    · cases h
    · rw [hfailure] at h
      cases h

/-! ## Different instants have different texts -/

theorem padded_append_inj (width : Nat) {m : Nat} {rest' : List Char} (hwidth : 0 < width)
    (hn : n < 10 ^ width) (hm : m < 10 ^ width)
    (h : (padded width n).toList ++ rest = (padded width m).toList ++ rest') :
    n = m ∧ rest = rest' := by
  have hfixed := (fixed_padded width hwidth hn).symm.trans
    ((congrArg (fixed width) h).trans (fixed_padded width hwidth hm))
  cases hfixed
  exact ⟨rfl, rfl⟩

/-- The digits of a year end where the month begins. -/
theorem takeWhile_padded (width n : Nat) (rest : List Char) :
    ((padded width n).toList ++ '-' :: rest).takeWhile Char.isDigit = (padded width n).toList := by
  rw [List.takeWhile_append_of_pos fun c ↦ isDigit_of_mem_padded,
    List.takeWhile_cons_of_neg (by decide), List.append_nil]

theorem padded_append_minus_inj {m : Nat} {rest' : List Char}
    (h : (padded 4 n).toList ++ '-' :: rest = (padded 4 m).toList ++ '-' :: rest') :
    n = m ∧ rest = rest' := by
  have hdigits := congrArg (List.takeWhile Char.isDigit) h
  rw [takeWhile_padded, takeWhile_padded] at hdigits
  have hnumber := congrArg decimal hdigits
  rw [decimal_padded, decimal_padded] at hnumber
  subst hnumber
  exact ⟨rfl, (List.cons.inj (List.append_cancel_left h)).2⟩

theorem head_padded_ne_sign {c : Char} {rest' : List Char} (hc : c.isDigit = false)
    (h : (padded 4 n).toList ++ rest = c :: rest') : False := by
  have hlength := le_length_padded 4 n
  obtain ⟨d, digits, hdigits⟩ := List.exists_cons_of_length_pos (by omega : 0 < (padded 4 n).toList.length)
  have hd : d.isDigit = true := isDigit_of_mem_padded (hdigits ▸ List.mem_cons_self)
  rw [hdigits] at h
  rw [(List.cons.inj h).1, hc] at hd
  cases hd

theorem yearText_append_inj {y z : Int} {rest' : List Char}
    (h : (yearText y).toList ++ '-' :: rest = (yearText z).toList ++ '-' :: rest') :
    y = z ∧ rest = rest' := by
  have hsign (x : Int) (hx : ¬ (0 ≤ x ∧ x ≤ 9999)) :
      ∃ c, c.isDigit = false ∧ (c = '-' ↔ x < 0) ∧
        (yearText x).toList = c :: (padded 4 x.natAbs).toList := by
    rw [yearText, if_neg hx, String.toList_append]
    split
    · rename_i hneg
      exact ⟨'-', rfl, by simp [hneg], rfl⟩
    · rename_i hneg
      exact ⟨'+', rfl, by simp [hneg], rfl⟩
  by_cases hy : 0 ≤ y ∧ y ≤ 9999 <;> by_cases hz : 0 ≤ z ∧ z ≤ 9999
  · rw [yearText, yearText, if_pos hy, if_pos hz] at h
    obtain ⟨heq, hrest⟩ := padded_append_minus_inj h
    exact ⟨by omega, hrest⟩
  · obtain ⟨c, hc, -, htext⟩ := hsign z hz
    rw [htext, yearText, if_pos hy] at h
    exact (head_padded_ne_sign hc h).elim
  · obtain ⟨c, hc, -, htext⟩ := hsign y hy
    rw [htext, yearText, if_pos hz] at h
    exact (head_padded_ne_sign hc h.symm).elim
  · obtain ⟨c, -, hneg, htext⟩ := hsign y hy
    obtain ⟨c', -, hneg', htext'⟩ := hsign z hz
    rw [htext, htext', List.cons_append, List.cons_append] at h
    obtain ⟨rfl, htail⟩ := List.cons.inj h
    obtain ⟨habs, hrest⟩ := padded_append_minus_inj htail
    have hsame : y < 0 ↔ z < 0 := hneg.symm.trans hneg'
    exact ⟨by omega, hrest⟩

/-- An instant is known from its text. -/
theorem text_injective {i j : Instant} (h : i.text "+00:00" = j.text "+00:00") : i = j := by
  have hchars := congrArg String.toList h
  have hzone : "+00:00".toList = ['+', '0', '0', ':', '0', '0'] := String.toList_ofList
  rw [toList_text, toList_text, hzone] at hchars
  obtain ⟨hi, hi', -⟩ := i.valid
  obtain ⟨hj, hj', -⟩ := j.valid
  obtain ⟨-, -, -, hmonth, -⟩ := i.date.valid
  obtain ⟨-, -, -, hmonth', -⟩ := j.date.valid
  obtain ⟨hyear, hchars⟩ := yearText_append_inj hchars
  obtain ⟨hmonths, hchars⟩ := padded_append_inj 2 (by decide) (by omega) (by omega) hchars
  obtain ⟨hdays, hchars⟩ := padded_append_inj 2 (by decide) (day_lt _) (day_lt _)
    (List.cons.inj hchars).2
  obtain ⟨hhours, hchars⟩ := padded_append_inj 2 (by decide) (by omega) (by omega)
    (List.cons.inj hchars).2
  obtain ⟨hminutes, hchars⟩ := padded_append_inj 2 (by decide) (by omega) (by omega)
    (List.cons.inj hchars).2
  obtain ⟨hseconds, hchars⟩ := padded_append_inj 2 (by decide) (by omega) (by omega)
    (List.cons.inj hchars).2
  have hzoned : EndsNumber ['+', '0', '0', ':', '0', '0'] := endsNumber_cons (by decide)
  have hnanos := (fraction_fractionText (Nat.mod_lt i.nano (by decide)) hzoned).symm.trans
    ((congrArg fraction hchars).trans (fraction_fractionText (Nat.mod_lt j.nano (by decide)) hzoned))
  obtain ⟨⟨year, month, day, _⟩, second, nano, hvalid⟩ := i
  obtain ⟨⟨year', month', day', _⟩, second', nano', hvalid'⟩ := j
  dsimp only at *
  subst hyear hmonths hdays
  obtain rfl : second = second' := by omega
  have hnano : nano % 1000000000 = nano' % 1000000000 := (Prod.mk.inj (Except.ok.inj hnanos)).1
  obtain rfl : nano = nano' := by omega
  rfl

end Stamp

end PieceKeeper
