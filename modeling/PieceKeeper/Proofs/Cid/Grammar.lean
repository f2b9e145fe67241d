import Mathlib.Tactic.Ring
import PieceKeeper.Proofs.Cid.Reading
import PieceKeeper.Proofs.Piece.Moves

/-!
# The grammar of identifiers

What an identifier looks like, said without the reader.  The bytes of one of the second version
are the forms of four numbers and a digest, and perhaps more that nobody looks at; its text
stands alone or follows the first path marker.  The reader of bytes accepts just these, and
bytes that are of version zero.
-/

namespace PieceKeeper

namespace Varint

/-- The number whose bits, seven to a byte and the lowest first, a form holds. -/
def payload : Bytes → Nat
  | [] => 0
  | byte :: rest => byte.toNat % 128 + 128 * payload rest

/-- A form of a number.  Every byte but the last has its high bit set, and the last is zero only
where it stands alone.  The highest bits of a form of ten bytes get lost. -/
inductive Spells : Bytes → Nat → Prop
  | of_last (init : Bytes) (last : UInt8) (hroom : init.length < 10)
      (hinit : ∀ byte ∈ init, 128 ≤ byte.toNat) (hlast : last.toNat < 128)
      (hzero : last = 0 → init = []) :
      Spells (init ++ [last]) (payload (init ++ [last]) % UInt64.size)

variable {bytes rest : Bytes} {room shift value n : Nat}

theorem readFrom_append {init : Bytes} {last : UInt8} (hroom : init.length < room)
    (hinit : ∀ byte ∈ init, 128 ≤ byte.toNat) (hlast : last.toNat < 128)
    (hzero : last = 0 → init = [] ∧ shift = 0) :
    readFrom room shift value (init ++ [last] ++ rest) =
      .ok ((value + payload (init ++ [last]) * 2 ^ shift) % UInt64.size, rest) := by
  induction init generalizing room shift value with
  | nil =>
    obtain ⟨room, rfl⟩ := Nat.exists_eq_succ_of_ne_zero (Nat.ne_of_gt hroom)
    have hnonzero : ¬ (last = 0 ∧ shift ≠ 0) := fun h ↦ h.2 (hzero h.1).2
    rw [List.nil_append, List.singleton_append, readFrom]
    rw [if_pos hlast, if_neg hnonzero]
    rfl
  | cons byte init ih =>
    obtain ⟨hbyte, hinit⟩ := List.forall_mem_cons.mp hinit
    obtain ⟨room, rfl⟩ := Nat.exists_eq_succ_of_ne_zero (Nat.ne_of_gt (Nat.zero_lt_of_lt hroom))
    rw [List.cons_append, List.cons_append, readFrom, if_neg (Nat.not_lt.mpr hbyte),
      ih (Nat.lt_of_succ_lt_succ hroom) hinit fun h ↦ absurd (hzero h).1 (List.cons_ne_nil _ _)]
    have hpow : (2 : Nat) ^ (shift + 7) = 128 * 2 ^ shift := by rw [Nat.pow_add, Nat.mul_comm]
    congr 3
    change value + byte.toNat % 128 * 2 ^ shift + _ =
      value + (byte.toNat % 128 + 128 * payload (init ++ [last])) * 2 ^ shift
    rw [hpow]
    ring

/-- What is read is a form of a number, or the end of one that has begun. -/
theorem exists_of_readFrom (h : readFrom room shift value bytes = .ok (n, rest)) :
    ∃ init last, bytes = init ++ [last] ++ rest ∧ init.length < room ∧
      (∀ byte ∈ init, 128 ≤ byte.toNat) ∧ last.toNat < 128 ∧ (last = 0 → init = [] ∧ shift = 0) := by
  induction room generalizing shift value bytes with
  | zero => cases h
  | succ room ih =>
    cases bytes with
    | nil => cases h
    | cons byte bytes =>
      rw [readFrom] at h
      split at h
      · rename_i hlast
        split at h
        · cases h
        · rename_i hnonzero
          cases h
          refine ⟨[], byte, rfl, Nat.succ_pos _, fun _ h ↦ absurd h List.not_mem_nil, hlast, ?_⟩
          exact fun hzero ↦ ⟨rfl, not_not.mp fun hshift ↦ hnonzero ⟨hzero, hshift⟩⟩
      · rename_i hbyte
        obtain ⟨init, last, rfl, hroom, hinit, hlast, hzero⟩ := ih h
        refine ⟨byte :: init, last, rfl, Nat.succ_lt_succ hroom, ?_, hlast, ?_⟩
        · exact List.forall_mem_cons.mpr ⟨Nat.not_lt.mp hbyte, hinit⟩
        · exact fun h ↦ absurd (hzero h).2 (Nat.succ_ne_zero _)

/-- A number is read from its forms and from nothing else. -/
theorem read_eq_ok : read bytes = .ok (n, rest) ↔ ∃ form, bytes = form ++ rest ∧ Spells form n := by
  constructor
  · intro h
    obtain ⟨init, last, rfl, hroom, hinit, hlast, hzero⟩ := exists_of_readFrom h
    rw [read, readFrom_append hroom hinit hlast hzero, Nat.zero_add, Nat.pow_zero, Nat.mul_one] at h
    cases h
    exact ⟨_, rfl, .of_last init last hroom hinit hlast fun h ↦ (hzero h).1⟩
  · rintro ⟨_, rfl, ⟨init, last, hroom, hinit, hlast, hzero⟩⟩
    rw [read, readFrom_append hroom hinit hlast fun h ↦ ⟨hzero h, rfl⟩, Nat.zero_add, Nat.pow_zero,
      Nat.mul_one]

end Varint

namespace Cid

open Varint (Spells)

variable {bytes rest digest : Bytes} {n code : Nat} {cid : Cid}

theorem readNumber_eq_ok :
    readNumber bytes = .ok (n, rest) ↔ ∃ form, bytes = form ++ rest ∧ Spells form n := by
  rw [← Varint.read_eq_ok, readNumber]
  split
  · rename_i read hread
    rw [hread, Except.ok.injEq, Except.ok.injEq]
  · rename_i hread
    simp [hread]
  · rename_i hread
    simp [hread]

/-- A hash is read from the forms of its code and size before a digest of that size. -/
theorem readHash_eq_some : readHash bytes = some (code, digest) ↔
    ∃ codeForm sizeForm trailing, bytes = codeForm ++ sizeForm ++ digest ++ trailing ∧
      Spells codeForm code ∧ Spells sizeForm digest.length ∧ digest.length ≤ 64 := by
  constructor
  · intro h
    rw [readHash] at h
    split at h
    · cases h
    · rename_i code' tail hcode
      split at h
      · cases h
      · rename_i size left hsize
        split at h
        · rename_i hbounds
          cases h
          obtain ⟨codeForm, rfl, hcodeForm⟩ := Varint.read_eq_ok.mp hcode
          obtain ⟨sizeForm, rfl, hsizeForm⟩ := Varint.read_eq_ok.mp hsize
          have hlength : (left.take size).length = size := List.length_take_of_le hbounds.2
          refine ⟨codeForm, sizeForm, left.drop size, ?_, hcodeForm, ?_, ?_⟩
          · rw [List.append_assoc, List.append_assoc, List.take_append_drop]
          · rwa [hlength]
          · rw [hlength]
            exact hbounds.1
        · cases h
  · rintro ⟨codeForm, sizeForm, trailing, rfl, hcode, hsize, hle⟩
    have hreadCode : Varint.read (codeForm ++ sizeForm ++ digest ++ trailing) =
        .ok (code, sizeForm ++ (digest ++ trailing)) :=
      Varint.read_eq_ok.mpr ⟨codeForm, by simp only [List.append_assoc], hcode⟩
    have hreadSize : Varint.read (sizeForm ++ (digest ++ trailing)) =
        .ok (digest.length, digest ++ trailing) :=
      Varint.read_eq_ok.mpr ⟨sizeForm, rfl, hsize⟩
    have hbounds : digest.length ≤ 64 ∧ digest.length ≤ (digest ++ trailing).length :=
      ⟨hle, by rw [List.length_append]; exact Nat.le_add_right _ _⟩
    rw [readHash, hreadCode]
    dsimp only
    rw [hreadSize]
    dsimp only
    rw [if_pos hbounds, List.take_left]

/-- An identifier of the second version as bytes: the forms of its version, of the code of its
content, of the code of its hash and of the size of its digest, and the digest.  What follows
does not count. -/
structure Encodes (bytes : Bytes) (codec code : Nat) (digest : Bytes) : Prop where
  parts : ∃ version codecForm codeForm sizeForm trailing,
    bytes = version ++ codecForm ++ codeForm ++ sizeForm ++ digest ++ trailing ∧
      Spells version 1 ∧ Spells codecForm codec ∧ Spells codeForm code ∧
      Spells sizeForm digest.length
  length_le : digest.length ≤ 64

theorem Encodes.ofBytes {codec : Nat} (h : Encodes bytes codec code digest) :
    ofBytes bytes = .ok ⟨1, codec, code, digest⟩ := by
  obtain ⟨version, codecForm, codeForm, sizeForm, trailing, rfl, hversion, hcodec, hcode, hsize⟩ := h.parts
  have hrest : readNumber (version ++ codecForm ++ codeForm ++ sizeForm ++ digest ++ trailing) =
      .ok (1, codecForm ++ codeForm ++ sizeForm ++ digest ++ trailing) :=
    readNumber_eq_ok.mpr ⟨version, by simp only [List.append_assoc], hversion⟩
  have htail : readNumber (codecForm ++ codeForm ++ sizeForm ++ digest ++ trailing) =
      .ok (codec, codeForm ++ sizeForm ++ digest ++ trailing) :=
    readNumber_eq_ok.mpr ⟨codecForm, by simp only [List.append_assoc], hcodec⟩
  exact ofBytes_of_readHash hrest htail
    (readHash_eq_some.mpr ⟨codeForm, sizeForm, trailing, rfl, hcode, hsize, h.length_le⟩)

/-- Bytes that are read are of version zero and then of no other content than a node, or they
encode an identifier of the second version. -/
theorem version_of_ofBytes (h : ofBytes bytes = .ok cid) :
    cid.version = 0 ∧ cid.codec = nodeCodec ∨
      cid.version = 1 ∧ Encodes bytes cid.codec cid.hashCode cid.digest := by
  rw [ofBytes] at h
  simp only [Except.bind_eq_ok, Prod.exists] at h
  obtain ⟨version, after, hversion, codec, tail, hcodec, h⟩ := h
  split at h
  · split at h
    · cases h
    · cases h
      exact Or.inl ⟨rfl, rfl⟩
  · split at h
    · cases h
    · split at h
      · cases h
      · rename_i hone
        obtain rfl : version = 1 := not_not.mp hone
        split at h
        · rename_i code digest hhash
          cases h
          obtain ⟨versionForm, rfl, hversionForm⟩ := readNumber_eq_ok.mp hversion
          obtain ⟨codecForm, rfl, hcodecForm⟩ := readNumber_eq_ok.mp hcodec
          obtain ⟨codeForm, sizeForm, trailing, rfl, hcodeForm, hsizeForm, hle⟩ :=
            readHash_eq_some.mp hhash
          refine Or.inr ⟨rfl, ⟨versionForm, codecForm, codeForm, sizeForm, trailing, ?_, hversionForm,
            hcodecForm, hcodeForm, hsizeForm⟩, hle⟩
          simp only [List.append_assoc]
        · cases h

/-! ## Paths -/

/-- What a text names: what follows the first occurrence of a marker in it, or all of it if the
marker does not occur. -/
inductive Names (marker : List Char) : List Char → List Char → Prop
  | whole (text : List Char) (hnone : ¬ marker <:+: text) : Names marker text text
  | after (front named : List Char)
      (hfirst : ∀ before after, front ++ marker ++ named = before ++ marker ++ after →
        front.length ≤ before.length) : Names marker (front ++ marker ++ named) named

section

variable {marker text named front : List Char}

theorem go_eq_none (h : afterMarker.go marker text = none) (hmarker : marker ≠ []) :
    ¬ marker <:+: text := by
  induction text with
  | nil => exact fun hinfix ↦ hmarker (List.infix_nil.mp hinfix)
  | cons c text ih =>
    rw [afterMarker.go] at h
    split at h
    · cases h
    · rename_i hhead
      intro hinfix
      rcases List.infix_cons_iff.mp hinfix with hprefix | hinfix
      · exact hhead (List.isPrefixOf_iff_prefix.mpr hprefix)
      · exact ih h hinfix

theorem exists_of_go (h : afterMarker.go marker text = some named) :
    ∃ front, text = front ++ marker ++ named ∧
      ∀ before after, text = before ++ marker ++ after → front.length ≤ before.length := by
  induction text with
  | nil => cases h
  | cons c text ih =>
    rw [afterMarker.go] at h
    split at h
    · rename_i hhead
      obtain ⟨after, hafter⟩ := List.isPrefixOf_iff_prefix.mp hhead
      rw [← hafter, List.drop_left, Option.some.injEq] at h
      exact ⟨[], by rw [← hafter, h]; rfl, fun _ _ _ ↦ Nat.zero_le _⟩
    · rename_i hhead
      obtain ⟨front, rfl, hfirst⟩ := ih h
      refine ⟨c :: front, rfl, ?_⟩
      intro before after heq
      cases before with
      | nil =>
        have hprefix : marker <+: c :: (front ++ marker ++ named) := ⟨after, heq.symm⟩
        exact absurd (List.isPrefixOf_iff_prefix.mpr hprefix) hhead
      | cons d before =>
        rw [List.cons_append, List.cons_append, List.cons.injEq] at heq
        exact Nat.succ_le_succ (hfirst before after heq.2)

theorem names_afterMarker (hmarker : marker ≠ []) : Names marker text (afterMarker marker text) := by
  rw [afterMarker]
  cases h : afterMarker.go marker text with
  | none => exact .whole text (go_eq_none h hmarker)
  | some named =>
    obtain ⟨front, rfl, hfirst⟩ := exists_of_go h
    exact .after front named hfirst

/-- A text names one thing. -/
theorem Names.eq {other : List Char} (h : Names marker text named) (hother : Names marker text other) :
    named = other := by
  cases h with
  | whole _ hnone =>
    cases hother with
    | whole _ _ => rfl
    | after front _ _ => exact absurd ⟨front, _, rfl⟩ hnone
  | after front _ hfirst =>
    generalize htext : front ++ marker ++ named = text at hother hfirst
    cases hother with
    | whole _ hnone => exact absurd ⟨front, _, htext⟩ hnone
    | after front' _ hfirst' =>
      have hlength : front.length = front'.length :=
        Nat.le_antisymm (hfirst _ _ rfl) (hfirst' _ _ htext.symm)
      have hfront := List.append_inj htext (by rw [List.length_append, List.length_append, hlength])
      exact hfront.2

end

end Cid

end PieceKeeper
