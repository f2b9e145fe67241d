import PieceKeeper.Bytes.Hex
import Mathlib.Data.List.Basic

/-!
# Which texts are hexadecimal, and for which bytes

A text of hexadecimal digits spells bytes when its digits, taken in pairs from the left, are
the halves of those bytes.  Reading finds exactly the bytes a text spells, and every text of
an even number of digits of either case spells some.  Writing chooses, among the texts that
spell given bytes, the one with small letters.
-/

namespace PieceKeeper.Hex

/-- The digits with small letters, in the order of their values. -/
def lowerDigits : List Char := "0123456789abcdef".toList

/-- The digits with capital letters, in the order of their values. -/
def upperDigits : List Char := "0123456789ABCDEF".toList

/-- A character is the digit of a value, in one case or the other. -/
def Stands (c : Char) (value : Nat) : Prop :=
  lowerDigits[value]? = some c ∨ upperDigits[value]? = some c

instance (c : Char) (value : Nat) : Decidable (Stands c value) :=
  inferInstanceAs (Decidable (_ ∨ _))

/-- A character is a digit, in one case or the other. -/
def IsDigit (c : Char) : Prop := c ∈ lowerDigits ∨ c ∈ upperDigits

instance (c : Char) : Decidable (IsDigit c) := inferInstanceAs (Decidable (_ ∨ _))

theorem isDigit_iff {c : Char} : IsDigit c ↔ ∃ value, Stands c value := by
  simp only [IsDigit, Stands, List.mem_iff_getElem?, exists_or]

/-! ## One digit -/

theorem toNat_lt_of_digitValue? {c : Char} {value : Nat} (h : digitValue? c = some value) :
    c.toNat < 103 := by
  simp only [digitValue?] at h
  split_ifs at h <;> omega

/-- The characters below the last digit are few enough to look at each. -/
theorem stands_of_code : ∀ code < 103, ∀ value ∈ digitValue? (Char.ofNat code),
    Stands (Char.ofNat code) value := by
  decide

theorem bind_digitValue?_lower :
    ∀ value < 16, lowerDigits[value]?.bind digitValue? = some value := by
  decide

theorem bind_digitValue?_upper :
    ∀ value < 16, upperDigits[value]?.bind digitValue? = some value := by
  decide

/-- A character is read as a digit exactly for the value it stands for. -/
theorem digitValue?_eq_some_iff {c : Char} {value : Nat} :
    digitValue? c = some value ↔ Stands c value := by
  constructor
  · intro h
    have hcode := stands_of_code c.toNat (toNat_lt_of_digitValue? h)
    rw [Char.ofNat_toNat] at hcode
    exact hcode value h
  · rintro (h | h)
    · have hvalue := bind_digitValue?_lower value (List.getElem?_eq_some_iff.1 h).1
      rwa [h] at hvalue
    · have hvalue := bind_digitValue?_upper value (List.getElem?_eq_some_iff.1 h).1
      rwa [h] at hvalue

/-- The digit written for a value is the one with a small letter. -/
theorem digit_eq_lower : ∀ value < 16, lowerDigits[value]? = some (digit value) := by
  decide

theorem stands_digit {value : Nat} (h : value < 16) : Stands (digit value) value :=
  .inl (digit_eq_lower value h)

/-! ## Texts of digits -/

/-- A text spells bytes: each two of its digits are the halves of the next byte, the high one
first. -/
inductive Spells : List Char → Bytes → Prop
  | nil : Spells [] []
  | cons {high low : Char} {h l : Nat} {digits : List Char} {bytes : Bytes}
      (hhigh : Stands high h) (hlow : Stands low l) (hrest : Spells digits bytes) :
      Spells (high :: low :: digits) (UInt8.ofNat (16 * h + l) :: bytes)

/-- Reading finds exactly the bytes that a text spells. -/
theorem decode_eq_some_iff {digits : List Char} {bytes : Bytes} :
    decode digits = some bytes ↔ Spells digits bytes := by
  constructor
  · intro hread
    induction digits using decode.induct generalizing bytes with
    | case1 =>
      cases hread
      exact .nil
    | case2 => cases hread
    | case3 high low rest ih =>
      simp only [decode, Option.bind_eq_bind, Option.bind_eq_some_iff, Option.pure_def,
        Option.some.injEq] at hread
      obtain ⟨h, hhigh, l, hlow, tail, hrest, rfl⟩ := hread
      exact .cons (digitValue?_eq_some_iff.1 hhigh) (digitValue?_eq_some_iff.1 hlow) (ih hrest)
  · intro hspells
    induction hspells with
    | nil => rfl
    | cons hhigh hlow _ ih =>
      rw [decode, digitValue?_eq_some_iff.2 hhigh, digitValue?_eq_some_iff.2 hlow, ih]
      rfl

/-- Some bytes are spelled by exactly the texts of an even number of digits. -/
theorem exists_spells_iff {digits : List Char} :
    (∃ bytes, Spells digits bytes) ↔ digits.length % 2 = 0 ∧ ∀ c ∈ digits, IsDigit c := by
  constructor
  · rintro ⟨bytes, hspells⟩
    induction hspells with
    | nil => simp
    | cons hhigh hlow _ ih =>
      refine ⟨by rw [List.length_cons, List.length_cons]; omega, ?_⟩
      rintro c (_ | ⟨_, _ | ⟨_, hc⟩⟩)
      · exact isDigit_iff.2 ⟨_, hhigh⟩
      · exact isDigit_iff.2 ⟨_, hlow⟩
      · exact ih.2 c hc
  · rintro ⟨heven, hdigits⟩
    induction digits using decode.induct with
    | case1 => exact ⟨[], .nil⟩
    | case2 c => simp at heven
    | case3 high low rest ih =>
      obtain ⟨h, hhigh⟩ := isDigit_iff.1 (hdigits high (by simp))
      obtain ⟨l, hlow⟩ := isDigit_iff.1 (hdigits low (by simp))
      have hrestEven : rest.length % 2 = 0 := by
        rw [List.length_cons, List.length_cons] at heven
        omega
      obtain ⟨bytes, hrest⟩ := ih hrestEven fun c hc ↦ hdigits c (by simp [hc])
      exact ⟨_, .cons hhigh hlow hrest⟩

/-! ## What is written -/

theorem encode_nil : (encode []).toList = [] := rfl

theorem encode_cons (byte : UInt8) (bytes : Bytes) :
    (encode (byte :: bytes)).toList =
      digit (byte.toNat / 16) :: digit (byte.toNat % 16) :: (encode bytes).toList := by
  simp [encode, pair]

/-- What is written for bytes spells them. -/
theorem spells_encode (bytes : Bytes) : Spells (encode bytes).toList bytes := by
  induction bytes with
  | nil => exact .nil
  | cons byte bytes ih =>
    have hbyte : byte.toNat < 256 := byte.toNat_lt
    have hhalves : UInt8.ofNat (16 * (byte.toNat / 16) + byte.toNat % 16) = byte := by
      rw [Nat.div_add_mod, UInt8.ofNat_toNat]
    have hhigh : Stands (digit (byte.toNat / 16)) (byte.toNat / 16) := stands_digit (by omega)
    have hlow : Stands (digit (byte.toNat % 16)) (byte.toNat % 16) := stands_digit (by omega)
    have hcons := Spells.cons hhigh hlow ih
    rwa [hhalves, ← encode_cons] at hcons

/-- Reading what was written gives the bytes back. -/
theorem decode_encode (bytes : Bytes) : decode (encode bytes).toList = some bytes :=
  decode_eq_some_iff.2 (spells_encode bytes)

theorem length_encode (bytes : Bytes) : (encode bytes).toList.length = 2 * bytes.length := by
  induction bytes with
  | nil => rfl
  | cons byte bytes ih =>
    simp only [encode_cons, List.length_cons, ih]
    omega

theorem mem_lowerDigits_of_mem_encode (bytes : Bytes) :
    ∀ c ∈ (encode bytes).toList, c ∈ lowerDigits := by
  induction bytes with
  | nil => simp [encode_nil]
  | cons byte bytes ih =>
    have hbyte : byte.toNat < 256 := byte.toNat_lt
    rw [encode_cons]
    rintro c (_ | ⟨_, _ | ⟨_, hc⟩⟩)
    · exact List.mem_of_getElem? (digit_eq_lower _ (by omega))
    · exact List.mem_of_getElem? (digit_eq_lower _ (by omega))
    · exact ih c hc

end PieceKeeper.Hex
