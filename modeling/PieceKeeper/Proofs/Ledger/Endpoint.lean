import PieceKeeper.Ledger.Endpoint
import PieceKeeper.Proofs.Piece.Moves

/-!
# What a ledger at an address says

A record, and the hash of a submission, come only out of a response that tells of success and has
them in its body.
-/

namespace PieceKeeper.Endpoint

/-- A response of success with a record that can be read. -/
structure Response.Carries (response : Response) (record : TransactionRecord) : Prop where
  success : Http.isSuccess response.status = true
  body : (Json.parse? response.body).bind TransactionRecord.ofJson? = some record

/-- A response of success with a hash that is not blank. -/
structure Response.Names (response : Response) (hash : String) : Prop where
  success : Http.isSuccess response.status = true
  body : hashOf? response.body = some hash
  not_blank : (Text.trim hash).isEmpty = false

theorem readLookup_eq_some {hash : String} {response : Response} {record : TransactionRecord} :
    readLookup hash response = .ok (some record) ↔ response.Carries record := by
  constructor
  · intro h
    rw [readLookup] at h
    split at h
    · cases h
    · split at h
      · cases h
      · rename_i hsuccess
        split at h
        · rename_i found hbody
          cases h
          exact ⟨not_not.mp hsuccess, hbody⟩
        · cases h
  · rintro ⟨hsuccess, hbody⟩
    have hfound : response.status ≠ 404 := by
      intro heq
      rw [heq] at hsuccess
      cases hsuccess
    rw [readLookup, if_neg hfound, if_neg (not_not_intro hsuccess), hbody]

theorem readSubmission_eq_ok {proofSet : UInt64} {response : Response} {hash : String} :
    readSubmission proofSet response = .ok hash ↔ response.Names hash := by
  constructor
  · intro h
    rw [readSubmission] at h
    split at h
    · cases h
    · rename_i hsuccess
      split at h
      · cases h
      · rename_i found hbody
        split at h
        · cases h
        · rename_i hblank
          cases h
          exact ⟨not_not.mp hsuccess, hbody, eq_false_of_ne_true hblank⟩
  · rintro ⟨hsuccess, hbody, hblank⟩
    rw [readSubmission, if_neg (not_not_intro hsuccess), hbody]
    simp [hblank]

variable {endpoint : Endpoint} {wire : Wire}

/-- A record is answered only out of a response that carries it. -/
theorem lookup_eq_some {hash : String} {record : TransactionRecord} :
    (endpoint.lookup wire hash).1 = .ok (some record) ↔
      ∃ response, (endpoint.send wire "GET" ("/transactions/" ++ hash) none).1 = .ok response ∧
        response.Carries record := by
  change ((endpoint.send wire "GET" ("/transactions/" ++ hash) none).1 >>= readLookup hash) = _ ↔ _
  rw [Except.bind_eq_ok]
  exact exists_congr fun response ↦ and_congr_right fun _ ↦ readLookup_eq_some

example :
    (lookup ⟨"http://ledger"⟩
      { replies := [.response 200 "application/json"
        "\x7b\"hash\":\"0xaa\",\"status\":\"confirmed\",\"success\":true,\"confirmed_block\":12\x7d".toUTF8.toList] }
      "0xaa").1.toOption = some (some (.confirmed "0xaa" true 12)) := by
  decide +kernel

/-- A submission is answered with a hash only out of a response that names it. -/
theorem submit_eq_ok {proofSet : UInt64} {root : Root} {hash : String} :
    (endpoint.submit wire proofSet root).1 = .ok hash ↔
      ∃ response, (endpoint.send wire "POST"
          ("/proof-sets/" ++ toString proofSet.toNat ++ "/roots")
          (some (.object [("roots", .array [root.toJson])]))).1 = .ok response ∧
        response.Names hash := by
  change ((endpoint.send wire "POST" ("/proof-sets/" ++ toString proofSet.toNat ++ "/roots")
    (some (.object [("roots", .array [root.toJson])]))).1 >>= readSubmission proofSet) = _ ↔ _
  rw [Except.bind_eq_ok]
  exact exists_congr fun response ↦ and_congr_right fun _ ↦ readSubmission_eq_ok

end PieceKeeper.Endpoint
