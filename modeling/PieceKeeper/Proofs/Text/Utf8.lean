import Mathlib.Data.List.Flatten
import Mathlib.Data.String.Basic
import PieceKeeper.Text.Percent

/-!
# The bytes of a text

A text is made of characters, and its bytes are those of its characters, one after the other.
The characters of ASCII are one byte each, which no other character has among its bytes.
-/

namespace PieceKeeper

namespace Text

theorem toList_loop (bytes : ByteArray) (i : Nat) (done : Bytes) :
    ByteArray.toList.loop bytes i done = done.reverse ++ bytes.data.toList.drop i := by
  induction hrest : bytes.size - i generalizing i done with
  | zero =>
    have hsize : bytes.data.toList.length ≤ i := by
      rw [Array.length_toList, ByteArray.size_data]
      omega
    rw [ByteArray.toList.loop, if_neg (by omega), List.drop_eq_nil_of_le hsize, List.append_nil]
  | succ rest ih =>
    have hlt : i < bytes.data.toList.length := by
      rw [Array.length_toList, ByteArray.size_data]
      omega
    have hget : bytes.get! i = bytes.data.toList[i] := getElem!_pos bytes.data i hlt
    rw [ByteArray.toList.loop, if_pos (by omega), ih (i + 1) _ (by omega),
      List.drop_eq_getElem_cons hlt, hget, List.reverse_cons, List.append_assoc,
      List.singleton_append]

theorem toList_byteArray (bytes : ByteArray) : bytes.toList = bytes.data.toList :=
  toList_loop bytes 0 []

end Text

namespace Percent

variable {c : Char} {text : List Char}

theorem utf8_eq (c : Char) : utf8 c = String.utf8EncodeChar c := by
  rw [utf8, String.toUTF8_eq_toByteArray, Text.toList_byteArray, String.toByteArray_singleton,
    List.utf8Encode_singleton, List.toList_data_toByteArray]

theorem utf8_of_ascii (h : c.toNat < 0x80) : utf8 c = [UInt8.ofNat c.toNat] := by
  have hle : c.val.toNat ≤ 0x7f := Nat.le_of_lt_succ h
  rw [utf8_eq, String.utf8EncodeChar]
  exact if_pos hle

/-- The bytes of a character beyond ASCII are beyond it, too. -/
theorem le_of_mem_utf8 (h : 0x80 ≤ c.toNat) {byte : UInt8} (hmem : byte ∈ utf8 c) :
    0x80 ≤ byte.toNat := by
  have hlt : ¬ c.val.toNat ≤ 0x7f := Nat.not_le.mpr h
  rw [utf8_eq, String.utf8EncodeChar] at hmem
  rw [if_neg hlt] at hmem
  split at hmem
  · simp only [List.mem_cons, List.not_mem_nil, or_false] at hmem
    rcases hmem with rfl | rfl <;> simp <;> omega
  · split at hmem
    · simp only [List.mem_cons, List.not_mem_nil, or_false] at hmem
      rcases hmem with rfl | rfl | rfl <;> simp <;> omega
    · simp only [List.mem_cons, List.not_mem_nil, or_false] at hmem
      rcases hmem with rfl | rfl | rfl | rfl <;> simp <;> omega

theorem utf8_ne_nil (c : Char) : utf8 c ≠ [] := by
  rw [utf8_eq]
  exact String.utf8EncodeChar_ne_nil

/-! ## Texts -/

/-- The bytes of a list of characters. -/
def bytes (text : List Char) : Bytes := text.flatMap utf8

@[simp] theorem bytes_nil : bytes [] = [] := rfl

@[simp] theorem bytes_cons (c : Char) (text : List Char) :
    bytes (c :: text) = utf8 c ++ bytes text :=
  List.flatMap_cons

theorem bytes_cons_of_ascii (h : c.toNat < 0x80) (text : List Char) :
    bytes (c :: text) = UInt8.ofNat c.toNat :: bytes text := by
  rw [bytes_cons, utf8_of_ascii h, List.singleton_append]

@[simp] theorem bytes_append (text more : List Char) :
    bytes (text ++ more) = bytes text ++ bytes more :=
  List.flatMap_append

theorem toList_toUTF8 (text : String) : text.toUTF8.toList = bytes text.toList := by
  rw [String.toUTF8_eq_toByteArray, Text.toList_byteArray, ← String.utf8Encode_toList]
  induction text.toList with
  | nil => rfl
  | cons c rest ih =>
    rw [List.utf8Encode_cons, ByteArray.toList_data_append, ih, List.utf8Encode_singleton,
      List.toList_data_toByteArray, bytes_cons, utf8_eq]

/-- Bytes are read as a text exactly if they are its bytes. -/
theorem fromUTF8?_eq_some_iff {encoded : Bytes} {text : String} :
    String.fromUTF8? ⟨encoded.toArray⟩ = some text ↔ encoded = bytes text.toList := by
  rw [← toList_toUTF8, String.toUTF8_eq_toByteArray, Text.toList_byteArray]
  constructor
  · intro h
    rw [String.fromUTF8?] at h
    split at h
    · obtain rfl := Option.some.inj h
      rfl
    · cases h
  · rintro rfl
    rw [String.fromUTF8?]
    have hsame : (⟨text.toByteArray.data.toList.toArray⟩ : ByteArray) = text.toByteArray := rfl
    rw [hsame, dif_pos text.isValidUTF8]
    rfl

/-- Different texts have different bytes. -/
theorem eq_of_bytes_eq {text more : List Char} (h : bytes text = bytes more) : text = more := by
  have hread (chars : List Char) :
      String.fromUTF8? ⟨(bytes chars).toArray⟩ = some (String.ofList chars) := by
    rw [fromUTF8?_eq_some_iff, String.toList_ofList]
  have hsame := (hread text).symm.trans (h ▸ hread more)
  exact String.ofList_injective (Option.some.inj hsame)

theorem bytes_sublist {text more : List Char} (h : text.Sublist more) :
    (bytes text).Sublist (bytes more) :=
  h.flatMap utf8

/-- A part of a text that has all its bytes is the whole text. -/
theorem eq_of_sublist {text more : List Char} (h : text.Sublist more)
    (hle : (bytes more).length ≤ (bytes text).length) : text = more :=
  eq_of_bytes_eq ((bytes_sublist h).eq_of_length_le hle)

end Percent

end PieceKeeper
