import PieceKeeper.Proofs.Ledger.Endpoint
import PieceKeeper.Proofs.Url.Parts

/-!
# Which transaction is asked for

The hash of a transaction is put behind the base of a ledger as it is, and all of it is then read
as an address.  Where the hash stays one name of the path, what is asked for is the transaction with
that hash, and no other such hash has the same address.  Of any other hash something is lost or
changed on the way, and what is asked for is another transaction, or none at all.
-/

namespace PieceKeeper

/-- An address asks for a transaction behind a path: it has no query, and behind the path and the
name of the collection there is one name, which is read as the hash. -/
def Url.AsksFor (url : Url) (path hash : String) : Prop :=
  url.query = none ∧ ∃ name : String, '/' ∉ name.toList ∧ '?' ∉ name.toList ∧
    url.pathText = path ++ "/transactions/" ++ name ∧ Percent.decodeText? name = some hash

/-- What is asked for under one target is one transaction. -/
theorem Url.AsksFor.unique {url url' : Url} {path hash other : String} (h : url.AsksFor path hash)
    (hother : url'.AsksFor path other) (htarget : url.target = url'.target) : hash = other := by
  obtain ⟨hquery, name, -, -, hpath, hname⟩ := h
  obtain ⟨hquery', name', -, -, hpath', hname'⟩ := hother
  rw [target, target, hquery, hquery', hpath, hpath', String.append_left_inj,
    String.append_right_inj] at htarget
  rw [htarget] at hname
  exact Option.some.inj (hname.symm.trans hname')

namespace Endpoint

/-- The characters that part an address or are dropped from it. -/
def separators : List Char := ['/', '\\', '#', '?', '\t', '\n', '\r']

/-- A hash that is one name of a path: no character of it parts an address or is dropped, no percent
sign begins an escape, and it is not made of dots. -/
structure IsAddressable (hash : String) : Prop where
  inside : ∀ c ∈ hash.toList, c ∉ separators
  edge : ∀ c ∈ hash.toList.getLast?, 0x20 < c.toNat
  escape : ¬ Percent.HasEscape hash.toList
  single : hash ≠ "."
  double : hash ≠ ".."

instance (hash : String) : Decidable (IsAddressable hash) :=
  have : Decidable (∀ c ∈ hash.toList, c ∉ separators) := List.decidableBAll _ _
  have : Decidable (∀ c ∈ hash.toList.getLast?, 0x20 < c.toNat) := Option.decidableForallMem _
  decidable_of_iff
    ((∀ c ∈ hash.toList, c ∉ separators) ∧ (∀ c ∈ hash.toList.getLast?, 0x20 < c.toNat) ∧
      ¬ Percent.HasEscape hash.toList ∧ hash ≠ "." ∧ hash ≠ "..")
    ⟨fun ⟨inside, edge, escape, single, double⟩ ↦ ⟨inside, edge, escape, single, double⟩,
      fun h ↦ ⟨h.inside, h.edge, h.escape, h.single, h.double⟩⟩

/-! ## The address of a transaction -/

open Url

/-- The address that a hash leads to behind the root of a ledger. -/
def question (root : Url) (above : List String) (hash : String) : Url :=
  root.extend above (cleanEnd ("transactions/" ++ hash).toList)

section Question

variable {root : Url} {above : List String} {hash : String}

theorem cutTail_question (hash : String) :
    cutTail (cleanEnd ("transactions/" ++ hash).toList) =
      ("transactions".toList ++ '/' :: (cutTail (cleanEnd hash.toList)).1,
        (cutTail (cleanEnd hash.toList)).2) := by
  have hfront : dropBreaks "transactions".toList = "transactions".toList := by decide
  have hmarks : '#' ∉ "transactions".toList ∧ '?' ∉ "transactions".toList := by decide
  have htext : ("transactions/" ++ hash).toList = "transactions".toList ++ '/' :: hash.toList :=
    String.toList_append
  rw [htext, cutTail_cleanEnd_append hfront hmarks]

theorem question_path (root : Url) (above : List String) (hash : String) :
    (question root above hash).path = .segments
      (resolve ("transactions" :: above) (names true (cutTail (cleanEnd hash.toList)).1)) := by
  have hplain : "transactions".toList.all (fun c ↦ !isSlash true c) = true := by decide
  have hname : names true "transactions".toList = ["transactions"] :=
    names_of_forall fun c hc ↦ Bool.not_eq_true' _ |>.mp (List.all_eq_true.mp hplain c hc)
  have henter : enter above "transactions" = "transactions" :: above := by
    rw [enter, if_neg (by decide +kernel), if_neg (by decide +kernel)]
  rw [question, extend, cutTail_question, names_append (by rfl), hname,
    resolve_append (names_ne_nil true _), List.foldl_cons, List.foldl_nil, henter]

theorem question_query (root : Url) (above : List String) (hash : String) :
    (question root above hash).query =
      (cutTail (cleanEnd hash.toList)).2.1.map (written (querySet true)) := by
  rw [question, extend, cutTail_question]

theorem pathText_question (hhost : root.host.isSome = true) {last : String} {front : List String}
    (h : resolve ("transactions" :: above) (names true (cutTail (cleanEnd hash.toList)).1) =
      front ++ [last]) :
    (question root above hash).pathText = joined front ++ "/" ++ last := by
  rw [pathText_of_host ((question_path root above hash).trans (congrArg _ h)) hhost,
    joined_append, joined_singleton, String.append_assoc]

theorem joined_transactions (names : List String) :
    joined (names ++ ["transactions"]) ++ "/" = joined names ++ "/transactions/" := by
  rw [joined_append, joined_singleton, String.append_assoc]
  rfl

theorem IsAddressable.isKept (h : IsAddressable hash) : IsKept hash.toList := by
  refine ⟨fun c hc ↦ ?_, fun c hc ↦ decide_eq_false (Nat.not_le.mpr (h.edge c hc))⟩
  have hinside := h.inside c hc
  simp only [separators, List.mem_cons, not_or] at hinside ⊢
  exact hinside.2.2

theorem IsAddressable.isSlash_eq_false (h : IsAddressable hash) :
    ∀ c ∈ hash.toList, isSlash true c = false := by
  intro c hc
  have hinside := h.inside c hc
  simp only [separators, List.mem_cons, not_or] at hinside
  simp [isSlash, hinside.1, hinside.2.1]

theorem IsAddressable.resolve_eq (h : IsAddressable hash) (done : List String) :
    resolve done [written pathSet hash.toList] = done.reverse ++ [written pathSet hash.toList] := by
  have hsingle : hash.toList ≠ ['.'] := fun heq ↦ h.single (String.toList_inj.mp heq)
  have hdouble : hash.toList ≠ ['.', '.'] := fun heq ↦ h.double (String.toList_inj.mp heq)
  rw [resolve_singleton, arrive_of_not_dot (isDoubleDot_written h.escape hdouble)
    (isSingleDot_written h.escape hsingle), List.reverse_cons]

/-- A hash that is one name is what its address asks for. -/
theorem IsAddressable.asksFor (h : IsAddressable hash) (hhost : root.host.isSome = true) :
    (question root above hash).AsksFor (joined above.reverse) hash := by
  refine ⟨?_, written pathSet hash.toList, slash_not_mem_written h.isSlash_eq_false,
    not_mem_written (by decide) (by decide) (.inr (by decide)), ?_, ?_⟩
  · rw [question_query, h.isKept.cutTail_eq]
    rfl
  · have hresolve : resolve ("transactions" :: above)
        (names true (cutTail (cleanEnd hash.toList)).1) =
          above.reverse ++ ["transactions"] ++ [written pathSet hash.toList] := by
      rw [h.isKept.cutTail_eq, names_of_forall h.isSlash_eq_false, h.resolve_eq, List.reverse_cons]
    rw [pathText_question hhost hresolve, joined_transactions]
  · rw [Percent.decodeText?_eq_some_iff, decode_written h.escape]

/-- Nothing gets longer on the way from a text to the last name behind it, and reading that name
does not make it longer either; so where the text is read back, nothing was lost on the way. -/
theorem eq_of_read_back {text last : List Char}
    (hlast : last = (cutTail (cleanEnd text)).1 ∨
      (Percent.bytes last).length < (Percent.bytes (cutTail (cleanEnd text)).1).length)
    (hread : Percent.decode (Percent.bytes last) = Percent.bytes text) :
    last = text ∧ IsKept text ∧ ¬ Percent.HasEscape text := by
  have hcut : (cutTail (cleanEnd text)).1.Sublist text :=
    (cutTail_fst_sublist _).trans (cleanEnd_sublist text)
  have hcutLength := (Percent.bytes_sublist hcut).length_le
  have hreadLength : (Percent.bytes text).length ≤ (Percent.bytes last).length :=
    hread ▸ Percent.length_decode_le _
  obtain rfl | hlt := hlast
  · have heq := Percent.eq_of_sublist hcut hreadLength
    refine ⟨heq, isKept_of_cutTail heq, fun hescape ↦ ?_⟩
    rw [heq] at hread
    have hlt := Percent.length_decode_lt hescape
    rw [hread] at hlt
    exact lt_irrefl _ hlt
  · omega

theorem ne_of_isSingleDot (h : isSingleDot (written pathSet hash.toList) = false) : hash ≠ "." := by
  rintro rfl
  exact absurd h (by decide +kernel)

theorem ne_of_isDoubleDot (h : isDoubleDot (written pathSet hash.toList) = false) : hash ≠ ".." := by
  rintro rfl
  exact absurd h (by decide +kernel)

/-- Only a hash that is one name is what its address asks for. -/
theorem isAddressable_of_asksFor (h : (question root above hash).AsksFor (joined above.reverse) hash)
    (hhost : root.host.isSome = true) (hblank : hash ≠ "") : IsAddressable hash := by
  obtain ⟨-, name, hslash, -, hpath, hname⟩ := h
  rw [Percent.decodeText?_eq_some_iff] at hname
  obtain ⟨front, last, hresolve, hlast⟩ :=
    exists_resolve_eq ("transactions" :: above) (cutTail (cleanEnd hash.toList)).1
  have hlastSlash : '/' ∉ last.toList := by
    obtain rfl | ⟨part, rfl, hpart, -⟩ := hlast
    · exact List.not_mem_nil
    · exact slash_not_mem_written hpart
  obtain rfl : last = name := by
    rw [pathText_question hhost hresolve, ← joined_transactions] at hpath
    have hlists := congrArg String.toList hpath
    simp only [String.toList_append, List.append_assoc] at hlists
    exact String.toList_inj.mp (eq_of_append_slash hlists hlastSlash hslash)
  obtain rfl | ⟨part, rfl, hpart, hle, hdouble, hsingle⟩ := hlast
  · have hempty : Percent.bytes hash.toList = Percent.bytes [] := hname.symm
    exact absurd (String.toList_eq_nil_iff.mp (Percent.eq_of_bytes_eq hempty)) hblank
  · rw [toList_written, Percent.decode_encode spares_pathSet] at hname
    obtain ⟨rfl, hkept, hescape⟩ := eq_of_read_back hle hname
    refine ⟨fun c hc ↦ ?_, fun c hc ↦ ?_, hescape, ne_of_isSingleDot hsingle,
      ne_of_isDoubleDot hdouble⟩
    · have hinside := hkept.inside c hc
      have hslash := hpart c hc
      simp only [separators, List.mem_cons, not_or] at hinside ⊢
      simp only [isSlash, Bool.true_and, Bool.or_eq_false_iff, beq_eq_false_iff_ne] at hslash
      exact ⟨hslash.1, hslash.2, hinside⟩
    · exact Nat.not_le.mp (of_decide_eq_false (hkept.edge c hc))

end Question

/-! ## The request -/

/-- A lookup makes one request, if one can be made to its address, and else none. -/
theorem seen_lookup {endpoint : Endpoint} {hash : String} {url : Url}
    (h : Url.parse? (endpoint.base ++ ("/transactions/" ++ hash)) = some url) (wire : Wire) :
    (endpoint.lookup wire hash).2.seen =
      if url.isRequestable = true then { method := "GET", target := url.target } :: wire.seen
      else wire.seen := by
  have hlookup : (endpoint.lookup wire hash).2 =
    (endpoint.send wire "GET" ("/transactions/" ++ hash) none).2 := rfl
  rw [hlookup, send, h]
  by_cases hasked : url.isRequestable = true
  · simp only [if_pos hasked]
    cases hreplies : wire.replies with
    | nil => simp [Wire.send, hreplies]
    | cons reply _ => cases reply <;> simp [Wire.send, hreplies]
  · simp only [if_neg hasked]

/-- A blank behind a hash is no part of its address. -/
theorem question_append_blank (root : Url) (above : List String) (hash : String) :
    question root above (hash ++ " ") = question root above hash := by
  have hblank : cleanEnd ("transactions/" ++ (hash ++ " ")).toList =
      cleanEnd ("transactions/" ++ hash).toList := by
    rw [← String.append_assoc, String.toList_append, cleanEnd, cleanEnd, Text.dropEnd,
      List.reverse_append]
    rfl
  rw [question, question, hblank]

/-- **A lookup asks for the transaction of its hash exactly if the hash is one name of a path.**
Behind a base that is an address of the web without query and fragment, every hash leads to an
address, and a lookup makes one request without a body for what that address names, or none if the
address is too long.  The path of the request is that of the base, the name of the collection, and
one name that is read as the hash, without a query behind it, exactly if no character of the hash
parts an address or is dropped from one, no percent sign in it begins an escape, and it is not made
of dots.  Two such hashes are never asked for under one target.  But no hash has its address for
itself: the same hash with a blank behind it has the same one. -/
theorem lookup_asks_for_hash {endpoint : Endpoint} {root : Url}
    (hroot : Url.parse? (endpoint.base ++ "/") = some root) (hweb : root.isRequestable = true)
    (hquery : root.query = none) (hfragment : root.fragment = none) :
    ∃ (path : String) (ask : String → Url), root.pathText = path ++ "/" ∧
      (∀ hash, Url.parse? (endpoint.base ++ "/transactions/" ++ hash) = some (ask hash) ∧
        ∀ wire, (endpoint.lookup wire hash).2.seen =
          if (ask hash).text.utf8ByteSize ≤ Url.longest then
            { method := "GET", target := (ask hash).target } :: wire.seen
          else wire.seen) ∧
      (∀ hash, hash ≠ "" → ((ask hash).AsksFor path hash ↔ IsAddressable hash)) ∧
      (∀ hash other, IsAddressable hash → IsAddressable other →
        (ask hash).target = (ask other).target → hash = other) ∧
      ∀ hash, ask (hash ++ " ") = ask hash := by
  have hhost := isSome_host_of_isRequestable hweb
  obtain ⟨above, hpath, hparse⟩ :=
    parse?_append hroot (isWeb_of_isRequestable hweb) hquery hfragment
  have hask (hash : String) : Url.parse? (endpoint.base ++ ("/transactions/" ++ hash)) =
      some (question root above hash) := by
    have htext : endpoint.base ++ ("/transactions/" ++ hash) =
        endpoint.base ++ "/" ++ ("transactions/" ++ hash) := by
      simp only [← String.toList_inj, String.toList_append, List.append_assoc]
      rfl
    rw [htext, hparse, question]
  refine ⟨joined above.reverse, question root above, ?_, fun hash ↦ ⟨?_, fun wire ↦ ?_⟩,
    fun hash hne ↦ ⟨fun h ↦ isAddressable_of_asksFor h hhost hne, fun h ↦ h.asksFor hhost⟩,
    fun hash other h hother ↦ (h.asksFor hhost).unique (hother.asksFor hhost),
    question_append_blank root above⟩
  · rw [pathText_of_host hpath hhost, joined_append, joined_singleton]
    rfl
  · rw [String.append_assoc]
    exact hask hash
  · rw [seen_lookup (hask hash), question, isRequestable_extend hweb]
    simp only [decide_eq_true_eq]

/-- A ledger at a path: a hash of digits is asked for, and one with a fragment is not. -/
theorem lookup_asks_for_hash_digits :
    ∃ ask : String → Url,
      Url.parse? ("http://ledger/api" ++ "/transactions/" ++ "0x1f") = some (ask "0x1f") ∧
      (ask "0x1f").AsksFor "/api" "0x1f" ∧ ¬ (ask "0x1#x").AsksFor "/api" "0x1#x" := by
  obtain ⟨path, ask, hpath, hsent, hiff, -, -⟩ :=
    @lookup_asks_for_hash ⟨"http://ledger/api"⟩
      { scheme := "http", host := some (.name "ledger"), path := .segments ["api", ""] }
      (by decide +kernel) (by decide +kernel) rfl rfl
  have happend : path ++ "/" = "/api" ++ "/" := hpath.symm.trans (by decide +kernel)
  obtain rfl := (String.append_left_inj _).mp happend
  exact ⟨ask, (hsent "0x1f").1, (hiff "0x1f" (by decide)).mpr (by decide +kernel),
    fun h ↦ absurd ((hiff "0x1#x" (by decide)).mp h) (by decide +kernel)⟩

/-- A ledger answers a submission with a hash whose lookup then asks for the transaction of another
hash. -/
theorem lookup_shares_target :
    ∃ (endpoint : Endpoint) (wire : Wire) (root : Root) (hash other : String),
      (create "http://ledger").toOption = some endpoint ∧
      (endpoint.submit wire 7 root).1.toOption = some hash ∧
      (Text.trim other).isEmpty = false ∧ hash ≠ other ∧
      (endpoint.lookup {} hash).2.seen.map (·.target) = ["/transactions/0x1"] ∧
      (endpoint.lookup {} other).2.seen.map (·.target) = ["/transactions/0x1"] := by
  refine ⟨⟨"http://ledger"⟩,
    { replies := [.response 201 "application/json" "\x7b\"tx_hash\":\"0x1#x\"\x7d".toUTF8.toList] },
    ⟨"baga6ea4seaqroot", ["baga6ea4seaqpiece"]⟩, "0x1#x", "0x1", ?_⟩
  decide +kernel

end Endpoint

end PieceKeeper
