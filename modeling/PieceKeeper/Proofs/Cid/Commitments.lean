import PieceKeeper.Proofs.Cid.Grammar

/-!
# Texts that hold a commitment

The reader of content ids accepts just the texts that name an identifier of the second version
with the codes of a commitment.  Among them are the texts that are written for digests, of one
length and in one alphabet, so that each is the name of a blob.  Identifiers of version zero
are not among them: they hold nodes.
-/

namespace PieceKeeper

/-! ## Texts of version zero -/

theorem utf8ByteSize_cons (c : Char) (text : List Char) :
    (String.ofList (c :: text)).utf8ByteSize = c.utf8Size + (String.ofList text).utf8ByteSize := by
  rw [String.ofList_cons, String.utf8ByteSize_append, String.utf8ByteSize_singleton]

namespace Multibase

variable {alphabet text : List Char} {values : List Nat}

/-- What is read digit by digit. -/
theorem digits_of_mapM (h : text.mapM (digit? alphabet) = some values) :
    values.length = text.length ∧ (∀ value ∈ values, value < alphabet.length) ∧
      ∀ c ∈ text, c ∈ alphabet := by
  induction text generalizing values with
  | nil =>
    cases h
    exact ⟨rfl, fun _ h ↦ absurd h List.not_mem_nil, fun _ h ↦ absurd h List.not_mem_nil⟩
  | cons c text ih =>
    simp only [List.mapM_cons, Option.bind_eq_bind, Option.bind_eq_some_iff, Option.pure_def,
      Option.some.injEq] at h
    obtain ⟨value, hvalue, values, hvalues, rfl⟩ := h
    obtain ⟨hlength, hlt, hmem⟩ := ih hvalues
    obtain ⟨hbound, hget, -⟩ := List.idxOf?_eq_some_iff.mp hvalue
    exact ⟨by rw [List.length_cons, List.length_cons, hlength], List.forall_mem_cons.mpr ⟨hbound, hlt⟩,
      List.forall_mem_cons.mpr ⟨hget ▸ List.getElem_mem hbound, hmem⟩⟩

/-- The digits that follow do not change what the number begins with. -/
theorem foldl_bounds {radix : Nat} (h : ∀ value ∈ values, value < radix) (n : Nat) :
    radix ^ values.length * n ≤ values.foldl (fun n value ↦ radix * n + value) n ∧
      values.foldl (fun n value ↦ radix * n + value) n < radix ^ values.length * (n + 1) := by
  induction values generalizing n with
  | nil => simp
  | cons value values ih =>
    obtain ⟨hvalue, hvalues⟩ := List.forall_mem_cons.mp h
    obtain ⟨hle, hlt⟩ := ih hvalues (radix * n + value)
    rw [List.foldl_cons, List.length_cons, Nat.pow_succ, Nat.mul_assoc, Nat.mul_assoc]
    refine ⟨(Nat.mul_le_mul_left _ (Nat.le_add_right _ _)).trans hle, hlt.trans_le ?_⟩
    refine Nat.mul_le_mul_left _ ?_
    rw [Nat.mul_succ]
    omega

/-- The bytes of a number begin with those of its quotient by a power of 256. -/
theorem exists_natBytes {k n : Nat} (h : n / 256 ^ k ≠ 0) :
    ∃ tail, natBytes n = natBytes (n / 256 ^ k) ++ tail := by
  induction k generalizing n with
  | zero => exact ⟨[], by simp⟩
  | succ k ih =>
    have hquotient : n / 256 ^ (k + 1) = n / 256 / 256 ^ k := by
      rw [Nat.pow_succ', Nat.div_div_eq_div_mul]
    rw [hquotient] at h ⊢
    obtain ⟨tail, htail⟩ := ih h
    have hne : n ≠ 0 := by
      rintro rfl
      exact h (by simp)
    refine ⟨tail ++ [UInt8.ofNat (n % 256)], ?_⟩
    rw [natBytes, if_neg hne, htail, List.append_assoc]

end Multibase

namespace Cid

variable {text named : List Char} {bytes tail : Bytes} {cid : Cid}

/-- The digits of base 58 take one byte each. -/
theorem utf8ByteSize_of_base58 (h : ∀ c ∈ named, c ∈ Multibase.base58) :
    (String.ofList named).utf8ByteSize = named.length := by
  induction named with
  | nil => rfl
  | cons c named ih =>
    obtain ⟨hc, hnamed⟩ := List.forall_mem_cons.mp h
    have hsmall : Multibase.base58.all fun c ↦ c.utf8Size = 1 := by decide +kernel
    have hone : c.utf8Size = 1 := by simpa using List.all_eq_true.mp hsmall c hc
    rw [utf8ByteSize_cons, ih hnamed, hone, List.length_cons, Nat.add_comm]

/-- A text in the form of version zero has forty-four digits after the first two. -/
theorem digits_of_looksBare {values : List Nat} (hbare : looksBare named = true)
    (hvalues : named.mapM (Multibase.digit? Multibase.base58) = some values) :
    ∃ rest, values = 23 :: 44 :: rest ∧ rest.length = 44 ∧ ∀ value ∈ rest, value < 58 := by
  rw [looksBare, Bool.and_eq_true, List.isPrefixOf_iff_prefix, beq_iff_eq] at hbare
  obtain ⟨⟨digits, rfl⟩, hsize⟩ := hbare
  have hQ : Multibase.digit? Multibase.base58 'Q' = some 23 := by decide +kernel
  have hm : Multibase.digit? Multibase.base58 'm' = some 44 := by decide +kernel
  have hhead : ("Qm".toList ++ digits).mapM (Multibase.digit? Multibase.base58) =
      (digits.mapM (Multibase.digit? Multibase.base58)).map fun values ↦ 23 :: 44 :: values := by
    change ('Q' :: 'm' :: digits).mapM _ = _
    rw [List.mapM_cons, List.mapM_cons, hQ, hm]
    cases digits.mapM (Multibase.digit? Multibase.base58) <;> rfl
  rw [hhead, Option.map_eq_some_iff] at hvalues
  obtain ⟨rest, hrest, rfl⟩ := hvalues
  obtain ⟨hlength, hlt, hmem⟩ := Multibase.digits_of_mapM hrest
  have hcount : 2 + digits.length = 46 := by
    have hbytes : (String.ofList ('Q' :: 'm' :: digits)).utf8ByteSize = 46 := hsize
    have honeQ : ('Q' : Char).utf8Size = 1 := rfl
    have honem : ('m' : Char).utf8Size = 1 := rfl
    rw [utf8ByteSize_cons, utf8ByteSize_cons, utf8ByteSize_of_base58 hmem, honeQ, honem] at hbytes
    omega
  have hradix : Multibase.base58.length = 58 := by decide +kernel
  exact ⟨rest, rfl, by omega, hradix ▸ hlt⟩

/-- A text in the form of version zero stands for bytes that begin like a bare SHA-256 hash: the
forty-four digits after the first two leave the highest byte of the number alone. -/
theorem head_of_looksBare (hbare : looksBare named = true)
    (hdecode : Multibase.decodeNumber Multibase.base58 named = some bytes) :
    ∃ tail, bytes = 18 :: tail := by
  simp only [Multibase.decodeNumber, Option.bind_eq_bind, Option.bind_eq_some_iff, Option.pure_def,
    Option.some.injEq] at hdecode
  obtain ⟨values, hvalues, rfl⟩ := hdecode
  obtain ⟨rest, rfl, hcount, hlt⟩ := digits_of_looksBare hbare hvalues
  have hradix : Multibase.base58.length = 58 := by decide +kernel
  obtain ⟨hle, hlt⟩ := Multibase.foldl_bounds hlt (58 * 23 + 44)
  rw [hcount] at hle hlt
  rw [hradix]
  change ∃ tail, List.replicate 0 0 ++ Multibase.natBytes
    (rest.foldl (fun n value ↦ 58 * n + value) (58 * 23 + 44)) = 18 :: tail
  generalize rest.foldl (fun n value ↦ 58 * n + value) (58 * 23 + 44) = n at hle hlt
  have hquotient : n / 256 ^ 33 = 18 :=
    Nat.div_eq_of_lt_le (Nat.le_trans (by decide) hle) (Nat.lt_of_lt_of_le hlt (by decide))
  obtain ⟨tail, htail⟩ := Multibase.exists_natBytes (k := 33) (n := n) (by rw [hquotient]; decide)
  have hbyte : Multibase.natBytes 18 = [18] := by decide +kernel
  rw [hquotient, hbyte] at htail
  exact ⟨tail, htail⟩

theorem version_of_bare (h : ofBytes (18 :: tail) = .ok cid) :
    cid.version = 0 ∧ cid.codec = nodeCodec := by
  rcases version_of_ofBytes h with hzero | ⟨-, hencodes⟩
  · exact hzero
  · obtain ⟨form, codecForm, codeForm, sizeForm, trailing, hbytes, hform, -⟩ := hencodes.parts
    have hread : readNumber (18 :: tail) =
        .ok (1, codecForm ++ codeForm ++ sizeForm ++ cid.digest ++ trailing) :=
      readNumber_eq_ok.mpr ⟨form, by rw [hbytes]; simp only [List.append_assoc], hform⟩
    have heighteen : readNumber (18 :: tail) = .ok (18, tail) := rfl
    rw [heighteen] at hread
    cases hread

/-! ## Texts of the second version -/

/-- A text of less than two bytes stands for no byte. -/
theorem decode_eq_nil (hshort : (String.ofList named).utf8ByteSize < 2)
    (h : Multibase.decode named = some bytes) : bytes = [] := by
  cases named with
  | nil => cases h
  | cons c named =>
    have hnil : named = [] := by
      cases named with
      | nil => rfl
      | cons d named =>
        rw [utf8ByteSize_cons, utf8ByteSize_cons] at hshort
        have hc := c.utf8Size_pos
        have hd := d.utf8Size_pos
        omega
    subst hnil
    have hempty : Multibase.decodeAs c [] = none ∨ Multibase.decodeAs c [] = some [] := by
      unfold Multibase.decodeAs
      split <;> first | exact Or.inr (by decide +kernel) | exact Or.inl rfl
    rcases hempty with hnone | hsome
    · cases hnone.symm.trans h
    · exact Option.some.inj (h.symm.trans hsome)

theorem Encodes.ne_nil {codec code : Nat} {digest : Bytes} (h : Encodes bytes codec code digest) :
    bytes ≠ [] := by
  rintro rfl
  cases h.ofBytes

theorem decode_of_looksBare (hbare : looksBare named = true) : Multibase.decode named = none := by
  rw [looksBare, Bool.and_eq_true, List.isPrefixOf_iff_prefix] at hbare
  obtain ⟨⟨rest, rfl⟩, -⟩ := hbare
  rfl

theorem marker_ne_nil : "/ipfs/".toList ≠ [] := by decide

/-- What a text names is read as the identifier that its bytes encode. -/
theorem parse_of_encodes {text : String} {codec code : Nat} {digest : Bytes}
    (hnames : Names "/ipfs/".toList text.toList named) (hdecode : Multibase.decode named = some bytes)
    (h : Encodes bytes codec code digest) : parse text = .ok ⟨1, codec, code, digest⟩ := by
  have hnamed : afterMarker "/ipfs/".toList text.toList = named :=
    (names_afterMarker marker_ne_nil).eq hnames
  have hlong : ¬ (String.ofList named).utf8ByteSize < 2 := fun hshort ↦
    h.ne_nil (decode_eq_nil hshort hdecode)
  have hbare : ¬ looksBare named = true := fun hbare ↦ by
    cases (decode_of_looksBare hbare).symm.trans hdecode
  rw [parse, hnamed, if_neg hlong, if_neg hbare, hdecode]
  exact h.ofBytes

/-- An identifier that is read is of version zero and then of no other content than a node, or the
text names the bytes that encode it. -/
theorem version_of_parse {text : String} (h : parse text = .ok cid) :
    cid.version = 0 ∧ cid.codec = nodeCodec ∨
      ∃ named bytes, Names "/ipfs/".toList text.toList named ∧
        Multibase.decode named = some bytes ∧ Encodes bytes cid.codec cid.hashCode cid.digest := by
  have hnames : Names "/ipfs/".toList text.toList _ := names_afterMarker marker_ne_nil
  rw [parse] at h
  generalize afterMarker "/ipfs/".toList text.toList = named at h hnames
  dsimp only at h
  split at h
  · cases h
  · split at h
    · rename_i bytes hbytes
      split at hbytes
      · rename_i hbare
        obtain ⟨tail, rfl⟩ := head_of_looksBare hbare hbytes
        exact Or.inl (version_of_bare h)
      · refine (version_of_ofBytes h).imp_right fun hencodes ↦ ?_
        exact ⟨named, bytes, hnames, hbytes, hencodes.2⟩
    · cases h

end Cid

namespace ContentId

open Cid (Names Encodes)

variable {text : String} {digest : Node}

/-- A text holds a commitment: what it names stands for the bytes of an identifier of the second
version with the codes of a commitment. -/
def Holds (text : String) (digest : Node) : Prop :=
  ∃ named bytes, Names "/ipfs/".toList text.toList named ∧ Multibase.decode named = some bytes ∧
    Encodes bytes commitmentCodec truncatedHashCode digest.toList

/-- A text is in a form of version zero: it begins like a bare hash in base 58 and is as long, or
it stands in some radix for bytes that begin with the code of SHA-256 and the size of its digest. -/
def IsBare (text : String) : Prop :=
  ∃ named, Names "/ipfs/".toList text.toList named ∧
    (Cid.looksBare named = true ∨ ∃ codeForm sizeForm rest,
      Multibase.decode named = some (codeForm ++ sizeForm ++ rest) ∧
        Varint.Spells codeForm Cid.sha256Code ∧ Varint.Spells sizeForm 32)

theorem toList_of_ofBytes? {bytes : Bytes} (h : Node.ofBytes? bytes = some digest) :
    digest.toList = bytes := by
  rw [Node.ofBytes?] at h
  split at h
  · cases h
    rfl
  · cases h

theorem ofBytes?_toList (digest : Node) : Node.ofBytes? digest.toList = some digest := by
  rw [Node.ofBytes?, dif_pos digest.length_toList]
  rfl

theorem toDigest_of_holds (h : Holds text digest) : toDigest text = .ok digest := by
  obtain ⟨named, bytes, hnames, hdecode, hencodes⟩ := h
  rw [toDigest, Cid.parse_of_encodes hnames hdecode hencodes]
  simp [ofBytes?_toList]

/-- A text that is read holds what is read; one that is not read is invalid. -/
theorem toDigest_cases (text : String) :
    (∃ digest, toDigest text = .ok digest ∧ Holds text digest) ∨
      ∃ detail, toDigest text = refuse (.validation detail) := by
  rw [toDigest]
  split
  · exact Or.inr ⟨_, rfl⟩
  · rename_i cid hparse
    split
    · exact Or.inr ⟨_, rfl⟩
    · rename_i hcodes
      obtain ⟨hcodec, hcode⟩ := not_or.mp hcodes
      rw [not_not] at hcodec hcode
      split
      · rename_i digest hdigest
        refine Or.inl ⟨digest, rfl, ?_⟩
        rcases Cid.version_of_parse hparse with ⟨-, hnode⟩ | ⟨named, bytes, hnames, hdecode, hencodes⟩
        · exact absurd (hcodec.symm.trans hnode) (by decide)
        · refine ⟨named, bytes, hnames, hdecode, ?_⟩
          rwa [hcodec, hcode, ← toList_of_ofBytes? hdigest] at hencodes
      · exact Or.inr ⟨_, rfl⟩

theorem toDigest_eq_ok : toDigest text = .ok digest ↔ Holds text digest := by
  refine ⟨fun h ↦ ?_, toDigest_of_holds⟩
  rcases toDigest_cases text with ⟨found, hfound, hholds⟩ | ⟨detail, hrefused⟩
  · cases hfound.symm.trans h
    exact hholds
  · cases hrefused.symm.trans h

theorem not_holds_of_isBare (h : IsBare text) : ¬ Holds text digest := by
  rintro ⟨named, bytes, hnames, hdecode, hencodes⟩
  obtain ⟨other, hother, hbare⟩ := h
  cases hother.eq hnames
  rcases hbare with hbare | ⟨codeForm, sizeForm, rest, hbytes, hcode, -⟩
  · cases (Cid.decode_of_looksBare hbare).symm.trans hdecode
  · cases hbytes.symm.trans hdecode
    obtain ⟨form, codecForm, code, size, trailing, hparts, hform, -⟩ := hencodes.parts
    have hone : Varint.read (codeForm ++ sizeForm ++ rest) =
        .ok (1, codecForm ++ code ++ size ++ digest.toList ++ trailing) :=
      Varint.read_eq_ok.mpr ⟨form, by rw [hparts]; simp only [List.append_assoc], hform⟩
    have hsha : Varint.read (codeForm ++ sizeForm ++ rest) = .ok (Cid.sha256Code, sizeForm ++ rest) :=
      Varint.read_eq_ok.mpr ⟨codeForm, List.append_assoc _ _ _, hcode⟩
    cases hone.symm.trans hsha

/-! ## The texts of digests -/

theorem ofDigest_injective : Function.Injective ofDigest := by
  intro digest other h
  exact Except.ok.inj ((toDigest_ofDigest digest).symm.trans (h ▸ toDigest_ofDigest other))

/-- After its first letter a content id has sixty-three digits, which are small letters and the
digits from two to seven. -/
theorem toList_ofDigest (digest : Node) :
    ∃ digits, (ofDigest digest).toList = 'b' :: digits ∧ digits.length = 63 ∧
      ∀ c ∈ digits, 'a' ≤ c ∧ c ≤ 'z' ∨ '2' ≤ c ∧ c ≤ '7' := by
  refine ⟨_, by rw [ofDigest, Cid.toList_toText, toBytes_digest], ?_, ?_⟩
  · obtain ⟨whole, zeros, hzeros, hwhole, hflatten, hencode⟩ :=
      Multibase.base32.exists_encode ([1, 129, 226, 3, 146, 32, 32] ++ digest.toList)
    have hlengths : whole.map List.length = List.replicate whole.length 5 :=
      List.map_eq_replicate_iff.mpr hwhole
    have hbits : whole.length * 5 = 8 * 39 + zeros := by
      have hlength := congrArg List.length hflatten
      rw [List.length_flatten, hlengths, List.sum_replicate_nat, List.length_append,
        Bits.length_ofBytes, List.length_append, Vector.length_toList, List.length_replicate] at hlength
      exact hlength
    have hextra : zeros ≤ 4 := hzeros
    rw [hencode, List.length_map]
    omega
  · intro c hc
    have hall : Multibase.base32.alphabet.all fun c ↦
        decide ('a' ≤ c ∧ c ≤ 'z' ∨ '2' ≤ c ∧ c ≤ '7') := by decide +kernel
    have hmem := Multibase.Radix.mem_alphabet_of_mem_encode (by decide +kernel) hc
    exact of_decide_eq_true (List.all_eq_true.mp hall c hmem)

theorem length_ofDigest (digest : Node) : (ofDigest digest).length = 64 := by
  obtain ⟨digits, hdigits, hlength, -⟩ := toList_ofDigest digest
  rw [← String.length_toList, hdigits, List.length_cons, hlength]

end ContentId

/-- The path of a key below the directory of the blobs. -/
def Shelf.path (key : String) : String := (place key).1 ++ "/" ++ (place key).2

/-- Keys of one length have paths of their own. -/
theorem Shelf.path_inj {key other : String} (hlength : key.length = other.length)
    (h : path key = path other) : key = other := by
  have hlist := congrArg String.toList h
  simp only [path, place, String.toList_append, String.toList_ofList] at hlist
  have hfront : (key.toList.drop (key.length - 2) ++ "/".toList).length =
      (other.toList.drop (other.length - 2) ++ "/".toList).length := by
    simp only [List.length_append, List.length_drop, String.length_toList, hlength]
  exact String.toList_inj.mp (List.append_inj hlist hfront).2

/-- Content ids are read back as the digests they are written for.  Each is sixty-four small
letters and digits, and no two have one text or one path.  Just the texts that hold a commitment
are read, no form of version zero among them; every other text is invalid. -/
theorem ContentId.reads_just_commitments :
    (∀ digest : Node, toDigest (ofDigest digest) = .ok digest ∧ (ofDigest digest).length = 64 ∧
      (∃ digits, (ofDigest digest).toList = 'b' :: digits ∧
        ∀ c ∈ digits, 'a' ≤ c ∧ c ≤ 'z' ∨ '2' ≤ c ∧ c ≤ '7') ∧
      Shelf.checkKey (ofDigest digest) = .ok () ∧
      ∀ other : Node, other ≠ digest → ofDigest other ≠ ofDigest digest ∧
        Shelf.path (ofDigest other) ≠ Shelf.path (ofDigest digest)) ∧
    ∀ text : String, (∀ digest, toDigest text = .ok digest ↔ Holds text digest) ∧
      (IsBare text ∨ (∃ cid, Cid.parse text = .ok cid ∧ cid.version = 0) →
        ∀ digest, toDigest text ≠ .ok digest) ∧
      ((∀ digest, ¬ Holds text digest) → ∃ detail, toDigest text = refuse (.validation detail)) := by
  refine ⟨fun digest ↦ ⟨toDigest_ofDigest digest, length_ofDigest digest, ?_,
    checkKey_ofDigest digest, fun other hne ↦ ⟨fun h ↦ hne (ofDigest_injective h), fun h ↦ ?_⟩⟩,
    fun text ↦ ⟨fun digest ↦ toDigest_eq_ok, fun hzero digest h ↦ ?_, fun hnone ↦ ?_⟩⟩
  · obtain ⟨digits, hdigits, -, hmem⟩ := toList_ofDigest digest
    exact ⟨digits, hdigits, hmem⟩
  · exact hne (ofDigest_injective (Shelf.path_inj
      ((length_ofDigest other).trans (length_ofDigest digest).symm) h))
  · have hholds := toDigest_eq_ok.mp h
    rcases hzero with hbare | ⟨cid, hparse, hversion⟩
    · exact not_holds_of_isBare hbare hholds
    · obtain ⟨named, bytes, hnames, hdecode, hencodes⟩ := hholds
      cases (Cid.parse_of_encodes hnames hdecode hencodes).symm.trans hparse
      cases hversion
  · rcases toDigest_cases text with ⟨digest, -, hholds⟩ | hrefused
    · exact absurd hholds (hnone digest)
    · exact hrefused

/-- A text of version zero is not read, and the digests of zeros and of ones have texts and paths of
their own. -/
theorem ContentId.bare_text_unread :
    let bare := "QmYwAPJzv5CZsnA625s3Xf2nemtYgPpHdWEz79ojWKPbdG"
    let zeros : Node := Vector.replicate 32 0
    let ones : Node := Vector.replicate 32 255
    IsBare bare ∧ (∀ digest, toDigest bare ≠ .ok digest) ∧
      (∃ detail, toDigest bare = refuse (.validation detail)) ∧ zeros ≠ ones ∧
      ofDigest zeros ≠ ofDigest ones ∧ Shelf.path (ofDigest zeros) ≠ Shelf.path (ofDigest ones) := by
  intro bare zeros ones
  have hbare : IsBare bare :=
    ⟨_, Cid.names_afterMarker Cid.marker_ne_nil, Or.inl (by decide +kernel)⟩
  have hne : zeros ≠ ones := by decide
  obtain ⟨hdigests, htexts⟩ := reads_just_commitments
  obtain ⟨hreads, hunread, hinvalid⟩ := htexts bare
  have hnone : ∀ digest, ¬ Holds bare digest := fun digest hholds ↦
    hunread (Or.inl hbare) digest ((hreads digest).mpr hholds)
  exact ⟨hbare, hunread (Or.inl hbare), hinvalid hnone, hne, (hdigests ones).2.2.2.2 zeros hne⟩

end PieceKeeper
