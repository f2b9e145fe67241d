import PieceKeeper.Proofs.Bytes.Hex
import PieceKeeper.Proofs.Text.Utf8

/-!
# What percent escapes stand for

Reading takes every complete escape for its byte.  So a text that was written with escapes is read
as if it had been read without them: what was escaped comes back, and what looked like an escape
before is one still.  A text is read as itself exactly if no percent sign in it has two hexadecimal
digits behind it; any other text gets shorter.
-/

namespace PieceKeeper.Percent

variable {c : Char} {text rest : List Char} {set : List Char}

/-! ## Digits -/

theorem toNat_lt_of_isDigit (h : Hex.IsDigit c) : c.toNat < 0x80 := by
  obtain ⟨value, hvalue⟩ := Hex.isDigit_iff.mp h
  have := Hex.toNat_lt_of_digitValue? (Hex.digitValue?_eq_some_iff.mpr hvalue)
  omega

theorem ofNat_toNat_of_ascii (h : c.toNat < 0x80) : Char.ofNat (UInt8.ofNat c.toNat).toNat = c := by
  rw [UInt8.toNat_ofNat_of_lt' (by change c.toNat < 256; omega), Char.ofNat_toNat]

theorem toNat_ofNat_of_byte (byte : UInt8) : (Char.ofNat byte.toNat).toNat = byte.toNat := by
  have hvalid : byte.toNat.isValidChar := .inl (byte.toNat_lt.trans (by decide))
  rw [Char.ofNat, dif_pos hvalid]
  rfl

theorem bytes_digit (h : Hex.IsDigit c) (rest : List Char) :
    bytes (c :: rest) = UInt8.ofNat c.toNat :: bytes rest :=
  bytes_cons_of_ascii (toNat_lt_of_isDigit h) rest

theorem digitValue?_of_stands {value : Nat} (h : Hex.Stands c value) :
    digitValue? (UInt8.ofNat c.toNat) = some value := by
  rw [digitValue?, ofNat_toNat_of_ascii (toNat_lt_of_isDigit (Hex.isDigit_iff.mpr ⟨value, h⟩)),
    Hex.digitValue?_eq_some_iff]
  exact h

/-- A byte that is a digit is a character of its own. -/
theorem exists_eq_cons_of_bytes {byte : UInt8} {more : Bytes} {value : Nat}
    (h : bytes text = byte :: more) (hvalue : digitValue? byte = some value) :
    ∃ c rest, text = c :: rest ∧ Hex.IsDigit c ∧ bytes rest = more := by
  cases text with
  | nil => cases h
  | cons c rest =>
    rw [bytes_cons] at h
    by_cases hascii : c.toNat < 0x80
    · rw [utf8_of_ascii hascii] at h
      obtain ⟨rfl, hrest⟩ := List.cons.inj h
      rw [digitValue?, ofNat_toNat_of_ascii hascii, Hex.digitValue?_eq_some_iff] at hvalue
      exact ⟨c, rest, rfl, Hex.isDigit_iff.mpr ⟨value, hvalue⟩, hrest⟩
    · have hmem : byte ∈ utf8 c := by
        obtain ⟨first, tail, hutf8⟩ := List.exists_cons_of_ne_nil (utf8_ne_nil c)
        rw [hutf8] at h ⊢
        exact (List.cons.inj h).1 ▸ List.mem_cons_self
      have hle := le_of_mem_utf8 (by omega) hmem
      have hlt := Hex.toNat_lt_of_digitValue? hvalue
      rw [toNat_ofNat_of_byte] at hlt
      omega

/-- A text begins with two digits. -/
def TwoDigits (text : List Char) : Prop :=
  ∃ high low rest, text = high :: low :: rest ∧ Hex.IsDigit high ∧ Hex.IsDigit low

/-- Somewhere in a text a percent sign has two digits behind it. -/
def HasEscape (text : List Char) : Prop :=
  ∃ before behind, text = before ++ '%' :: behind ∧ TwoDigits behind

theorem not_hasEscape_nil : ¬ HasEscape [] := by
  rintro ⟨before, behind, h, -⟩
  cases before <;> cases h

theorem hasEscape_cons : HasEscape (c :: rest) ↔ c = '%' ∧ TwoDigits rest ∨ HasEscape rest := by
  constructor
  · rintro ⟨before, behind, h, htwo⟩
    cases before with
    | nil =>
      obtain ⟨rfl, rfl⟩ := List.cons.inj h
      exact .inl ⟨rfl, htwo⟩
    | cons first before =>
      obtain ⟨rfl, rfl⟩ := List.cons.inj h
      exact .inr ⟨before, behind, rfl, htwo⟩
  · rintro (⟨rfl, htwo⟩ | ⟨before, behind, rfl, htwo⟩)
    · exact ⟨[], rest, rfl, htwo⟩
    · exact ⟨c :: before, behind, rfl, htwo⟩

instance : DecidablePred TwoDigits
  | high :: low :: rest =>
    decidable_of_iff (Hex.IsDigit high ∧ Hex.IsDigit low)
      ⟨fun h ↦ ⟨high, low, rest, rfl, h⟩, fun ⟨_, _, _, heq, h⟩ ↦ by cases heq; exact h⟩
  | [_] => isFalse fun ⟨_, _, _, heq, _⟩ ↦ by cases heq
  | [] => isFalse fun ⟨_, _, _, heq, _⟩ ↦ by cases heq

instance decidableHasEscape : DecidablePred HasEscape
  | [] => isFalse not_hasEscape_nil
  | c :: rest =>
    have := decidableHasEscape rest
    decidable_of_iff (c = '%' ∧ TwoDigits rest ∨ HasEscape rest) hasEscape_cons.symm

/-! ## Reading -/

theorem decode_cons_of_ne {byte : UInt8} (h : byte ≠ 0x25) (more : Bytes) :
    decode (byte :: more) = byte :: decode more := by
  rw [decode]
  rintro _ _ _ rfl
  exact absurd rfl h

theorem bytes_percent (rest : List Char) : bytes ('%' :: rest) = 0x25 :: bytes rest :=
  bytes_cons_of_ascii (by decide) rest

/-- An escape is read as its byte. -/
theorem decode_digits {high low : Char} {h l : Nat} (hhigh : Hex.Stands high h)
    (hlow : Hex.Stands low l) (rest : List Char) :
    decode (bytes ('%' :: high :: low :: rest)) = UInt8.ofNat (16 * h + l) :: decode (bytes rest) := by
  have hhigh' := Hex.isDigit_iff.mpr ⟨h, hhigh⟩
  have hlow' := Hex.isDigit_iff.mpr ⟨l, hlow⟩
  rw [bytes_percent, bytes_digit hhigh', bytes_digit hlow', decode, digitValue?_of_stands hhigh,
    digitValue?_of_stands hlow]

/-- A percent sign without two digits behind it is read as itself. -/
theorem decode_percent (h : ¬ TwoDigits rest) :
    decode (bytes ('%' :: rest)) = 0x25 :: decode (bytes rest) := by
  rw [bytes_percent]
  cases hbytes : bytes rest with
  | nil => rfl
  | cons high more =>
    cases more with
    | nil => rfl
    | cons low more =>
      rw [decode]
      split
      · rename_i hhigh hlow
        obtain ⟨c, tail, rfl, hc, htail⟩ := exists_eq_cons_of_bytes hbytes hhigh
        obtain ⟨d, tail, rfl, hd, -⟩ := exists_eq_cons_of_bytes htail hlow
        exact absurd ⟨c, d, tail, rfl, hc, hd⟩ h
      · rfl

/-- What is no percent sign is read as itself. -/
theorem decode_append {encoded : Bytes} (h : ∀ byte ∈ encoded, byte ≠ 0x25) (more : Bytes) :
    decode (encoded ++ more) = encoded ++ decode more := by
  induction encoded with
  | nil => rfl
  | cons byte encoded ih =>
    obtain ⟨hbyte, hrest⟩ := List.forall_mem_cons.mp h
    rw [List.cons_append, decode_cons_of_ne hbyte, ih hrest, List.cons_append]

theorem ne_of_mem_utf8 (h : c ≠ '%') : ∀ byte ∈ utf8 c, byte ≠ 0x25 := by
  rintro byte hmem rfl
  by_cases hascii : c.toNat < 0x80
  · rw [utf8_of_ascii hascii, List.mem_singleton] at hmem
    have hcode := ofNat_toNat_of_ascii hascii
    rw [← hmem] at hcode
    exact h hcode.symm
  · have := le_of_mem_utf8 (by omega) hmem
    contradiction

theorem decode_bytes_cons (h : c ≠ '%') (rest : List Char) :
    decode (bytes (c :: rest)) = utf8 c ++ decode (bytes rest) := by
  rw [bytes_cons, decode_append (ne_of_mem_utf8 h)]

/-- Reading makes nothing longer. -/
theorem length_decode_le (encoded : Bytes) : (decode encoded).length ≤ encoded.length := by
  fun_induction decode encoded with
  | case1 high low rest h l hhigh hlow ih =>
    simp only [List.length_cons]
    omega
  | case2 high low rest _ ih =>
    simp only [List.length_cons] at ih ⊢
    omega
  | case3 byte rest _ ih =>
    simp only [List.length_cons]
    omega
  | case4 => exact Nat.le_refl _

/-- A text without escapes is read as itself. -/
theorem decode_of_not_hasEscape (h : ¬ HasEscape text) : decode (bytes text) = bytes text := by
  induction text with
  | nil => rfl
  | cons c rest ih =>
    obtain ⟨htwo, hrest⟩ := not_or.mp (mt hasEscape_cons.mpr h)
    by_cases hc : c = '%'
    · subst hc
      rw [decode_percent fun hdigits ↦ htwo ⟨rfl, hdigits⟩, ih hrest, bytes_percent]
    · rw [decode_bytes_cons hc, ih hrest, bytes_cons]

/-- Every escape makes a text shorter when it is read. -/
theorem length_decode_lt (h : HasEscape text) :
    (decode (bytes text)).length < (bytes text).length := by
  induction text with
  | nil => exact absurd h not_hasEscape_nil
  | cons c rest ih =>
    by_cases hc : c = '%'
    · subst hc
      by_cases htwo : TwoDigits rest
      · obtain ⟨high, low, more, rfl, hhigh, hlow⟩ := htwo
        obtain ⟨h, hh⟩ := Hex.isDigit_iff.mp hhigh
        obtain ⟨l, hl⟩ := Hex.isDigit_iff.mp hlow
        have := length_decode_le (bytes more)
        rw [decode_digits hh hl, bytes_percent, bytes_digit hhigh, bytes_digit hlow]
        simp only [List.length_cons]
        omega
      · obtain ⟨-, hdigits⟩ | hrest := hasEscape_cons.mp h
        · exact absurd hdigits htwo
        · rw [decode_percent htwo, bytes_percent, List.length_cons, List.length_cons]
          exact Nat.succ_lt_succ (ih hrest)
    · obtain ⟨hpercent, -⟩ | hrest := hasEscape_cons.mp h
      · exact absurd hpercent hc
      · rw [decode_bytes_cons hc, bytes_cons, List.length_append, List.length_append]
        exact Nat.add_lt_add_left (ih hrest) _

theorem decodeText?_eq_some_iff {written text : String} :
    decodeText? written = some text ↔ decode (bytes written.toList) = bytes text.toList := by
  rw [decodeText?, toList_toUTF8, fromUTF8?_eq_some_iff]

/-! ## Writing -/

theorem digit_eq_upper : ∀ value < 16, Hex.upperDigits[value]? = some (digit value) := by
  decide

theorem stands_digit {value : Nat} (h : value < 16) : Hex.Stands (digit value) value :=
  .inr (digit_eq_upper value h)

/-- An escape that was written is read as its byte. -/
theorem decode_escape (byte : UInt8) (rest : List Char) :
    decode (bytes (escape byte ++ rest)) = byte :: decode (bytes rest) := by
  have hbyte : byte.toNat < 256 := byte.toNat_lt
  have hhigh : Hex.Stands (digit (byte.toNat / 16)) (byte.toNat / 16) := stands_digit (by omega)
  have hlow : Hex.Stands (digit (byte.toNat % 16)) (byte.toNat % 16) := stands_digit (by omega)
  have hread := decode_digits hhigh hlow rest
  rwa [Nat.div_add_mod, UInt8.ofNat_toNat] at hread

theorem decode_escapes (encoded : Bytes) (rest : List Char) :
    decode (bytes (encoded.flatMap escape ++ rest)) = encoded ++ decode (bytes rest) := by
  induction encoded with
  | nil => rfl
  | cons byte encoded ih =>
    rw [List.flatMap_cons, List.append_assoc, decode_escape, ih, List.cons_append]

@[simp] theorem encode_nil (set : List Char) : encode set [] = [] := rfl

theorem encode_cons_of_mustEscape (h : mustEscape set c = true) (rest : List Char) :
    encode set (c :: rest) = (utf8 c).flatMap escape ++ encode set rest := by
  rw [encode, List.flatMap_cons, if_pos h]
  rfl

theorem encode_cons_of_not_mustEscape (h : mustEscape set c = false) (rest : List Char) :
    encode set (c :: rest) = c :: encode set rest := by
  rw [encode, List.flatMap_cons, if_neg (ne_true_of_eq_false h)]
  rfl

/-- What is written is a percent sign, a digit, or was there before. -/
theorem mem_encode (h : c ∈ encode set text) :
    c = '%' ∨ Hex.IsDigit c ∨ mustEscape set c = false ∧ c ∈ text := by
  obtain ⟨d, hd, hc⟩ := List.mem_flatMap.mp h
  split at hc
  · obtain ⟨byte, -, hc⟩ := List.mem_flatMap.mp hc
    have hbyte : byte.toNat < 256 := byte.toNat_lt
    rcases hc with _ | ⟨_, _ | ⟨_, _ | ⟨_, hnone⟩⟩⟩
    · exact .inl rfl
    · exact .inr (.inl (Hex.isDigit_iff.mpr ⟨byte.toNat / 16, stands_digit (by omega)⟩))
    · exact .inr (.inl (Hex.isDigit_iff.mpr ⟨byte.toNat % 16, stands_digit (by omega)⟩))
    · cases hnone
  · rename_i hkept
    obtain rfl := List.mem_singleton.mp hc
    exact .inr (.inr ⟨eq_false_of_ne_true hkept, hd⟩)

/-- No character of escapes is escaped itself. -/
structure Spares (set : List Char) : Prop where
  percent : mustEscape set '%' = false
  digit : ∀ c, Hex.IsDigit c → mustEscape set c = false

theorem spares_of_any (hpercent : mustEscape set '%' = false)
    (hdigit : (Hex.lowerDigits ++ Hex.upperDigits).any (mustEscape set) = false) : Spares set :=
  ⟨hpercent, fun c hc ↦
    eq_false_of_ne_true (List.any_eq_false.mp hdigit c (List.mem_append.mpr hc))⟩

/-- A digit at the head of what is written was there before. -/
theorem exists_eq_cons_of_encode (h : encode set text = c :: rest) (hdigit : Hex.IsDigit c) :
    ∃ more, text = c :: more ∧ encode set more = rest := by
  cases text with
  | nil => cases h
  | cons d more =>
    cases hescape : mustEscape set d with
    | true =>
      obtain ⟨byte, tail, hutf8⟩ := List.exists_cons_of_ne_nil (utf8_ne_nil d)
      rw [encode_cons_of_mustEscape hescape, hutf8, List.flatMap_cons] at h
      obtain rfl : '%' = c := (List.cons.inj h).1
      exact absurd hdigit (by decide)
    | false =>
      rw [encode_cons_of_not_mustEscape hescape] at h
      obtain ⟨rfl, hmore⟩ := List.cons.inj h
      exact ⟨more, rfl, hmore⟩

theorem twoDigits_of_encode (h : TwoDigits (encode set text)) : TwoDigits text := by
  obtain ⟨high, low, rest, hencode, hhigh, hlow⟩ := h
  obtain ⟨more, rfl, hmore⟩ := exists_eq_cons_of_encode hencode hhigh
  obtain ⟨more, rfl, -⟩ := exists_eq_cons_of_encode hmore hlow
  exact ⟨high, low, more, rfl, hhigh, hlow⟩

/-- Writing changes nothing for the one who reads. -/
theorem decode_encode (hset : Spares set) :
    ∀ text, decode (bytes (encode set text)) = decode (bytes text)
  | [] => rfl
  | c :: rest => by
    by_cases hc : c = '%'
    · subst hc
      rw [encode_cons_of_not_mustEscape hset.percent]
      by_cases htwo : TwoDigits rest
      · -- the escape is kept, so what is read goes on behind its digits
        obtain ⟨high, low, more, rfl, hhigh, hlow⟩ := htwo
        obtain ⟨h, hh⟩ := Hex.isDigit_iff.mp hhigh
        obtain ⟨l, hl⟩ := Hex.isDigit_iff.mp hlow
        rw [encode_cons_of_not_mustEscape (hset.digit high hhigh),
          encode_cons_of_not_mustEscape (hset.digit low hlow), decode_digits hh hl,
          decode_digits hh hl, decode_encode hset more]
      · rw [decode_percent (mt twoDigits_of_encode htwo), decode_percent htwo,
          decode_encode hset rest]
    · rw [decode_bytes_cons hc]
      cases hescape : mustEscape set c with
      | true => rw [encode_cons_of_mustEscape hescape, decode_escapes, decode_encode hset rest]
      | false =>
        rw [encode_cons_of_not_mustEscape hescape, decode_bytes_cons hc, decode_encode hset rest]
termination_by text => text.length

end PieceKeeper.Percent
