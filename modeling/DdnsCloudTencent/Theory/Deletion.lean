import DdnsCloudTencent.Theory.Requests

/-!
# The ids that the delete loops name (custom_cloudTencent.cpp:230, 395)

A record id is a `uint64_t` in the vectors and in `dnspod_record_modify`, and a
`uint32_t` in `dnspod_record_delete`. `numberAfter` reads the number of a
payload back.

- `recordId_delete`: a `DeleteRecord` request names the id modulo 2^32;
- `number_modify`: a `ModifyRecord` payload names the id itself;
- `deleteRecord_names_surplus_iff`: so the delete loops name the surplus records
  exactly when the ids of these fit in 32 bits.
-/

namespace DdnsCloudTencent

open Cxx

variable {σ : Type}

/-- A `DeleteRecord` payload up to its number. -/
def deleteHead (domain : Bytes) : Bytes :=
  bytes "\x7b\"Domain\": \"" ++ domain ++ bytes "\", \"RecordId\": "

/-- A `ModifyRecord` payload up to its number. -/
def modifyHead (g : Config) (record0 : RecordListT) (ipAddr : Bytes) : Bytes :=
  bytes "\x7b\"Domain\": \"" ++ g.domainName ++
    bytes "\", \"RecordType\": \"" ++ record0.type ++
    bytes "\", \"RecordLine\": \"" ++ defaultLine ++
    bytes "\", \"Value\": \"" ++ ipAddr ++
    bytes "\", \"RecordId\": "

/-- The `RecordId` of a `DeleteRecord` request for a domain. -/
def Request.recordId (domain : Bytes) (r : Request) : Option Nat :=
  r.postFields.bind fun p => numberAfter (deleteHead domain) p.toBytes

/-! ## The numbers in the payloads -/

theorem number_delete (domain : Bytes) (id : UInt32) :
    numberAfter (deleteHead domain) (recordDeletePayload domain id) = some id.toNat :=
  numberAfter_append (deleteHead domain) id.toNat (bytes "\x7d") (fun c hc => by cases hc; rfl)

theorem number_modify (g : Config) (r : RecordListT) (ip : Bytes) :
    numberAfter (modifyHead g r ip) (recordModifyPayload g r ip) = some r.id.toNat := by
  unfold recordModifyPayload
  split
  · exact numberAfter_append (modifyHead g r ip) r.id.toNat (bytes "\x7d")
      (fun c hc => by cases hc; rfl)
  · have h := numberAfter_append (modifyHead g r ip) r.id.toNat
      (bytes ", \"SubDomain\": \"" ++ (g.domainSubname ++ bytes "\"\x7d"))
      (fun c hc => by cases hc; rfl)
    simpa only [modifyHead, List.append_assoc] using h

/-- What a `DeleteRecord` request names: nothing where the domain has a NUL
byte, at which libcurl cuts the payload, and the id as a `uint32_t` elsewhere. -/
theorem recordId_delete {domain : Bytes} {id : UInt32} {req : Request}
    (h : req.postFields = some (cStr (recordDeletePayload domain id))) :
    req.recordId domain = if 0 ∈ domain then none else some id.toNat := by
  rw [Request.recordId, h, Option.bind_some]
  split
  · next hnul =>
    refine if_neg fun hpre => ?_
    -- the text before the number would have to hold the NUL byte
    have hmem : 0 ∈ deleteHead domain := by
      unfold deleteHead
      exact List.mem_append_left _ (List.mem_append_right _ hnul)
    exact (cStr _).noNul (hpre.subset hmem)
  · next hnul =>
    have hpayload : 0 ∉ recordDeletePayload domain id := by
      intro h0
      unfold recordDeletePayload at h0
      simp only [List.mem_append] at h0
      rcases h0 with (((h0 | h0) | h0) | h0) | h0
      · exact absurd h0 (by decide)
      · exact hnul h0
      · exact absurd h0 (by decide)
      · exact noNul_toDecimal _ h0
      · exact absurd h0 (by decide)
    rw [cStr_toBytes_of_noNul hpayload]
    exact number_delete domain id

/-! ## The sequence of requests -/

/-- The actions and ids of the requests of `recordDeleteRemainOne`. -/
def deletions (E : Env σ) (g : Config) (s : Session σ) : List (Option Bytes × Option Nat) :=
  (sentSince s (recordDeleteRemainOne E g s)).map fun r => (r.action, r.recordId g.domainName)

theorem deletions_eq (E : Env σ) (g : Config) (s : Session σ) :
    deletions E g s = (surplus s.dnspod).map fun r =>
      (some (bytes "DeleteRecord"),
        if 0 ∈ g.domainName then none else some (r.id.toNat % 2 ^ 32)) := by
  obtain ⟨reqs, hsends, hreqs⟩ := sends_deleteLoop E g (surplus s.dnspod) s
  rw [deletions, recordDeleteRemainOne_eq, sentSince_of_eq hsends.sent, ← List.forall₂_eq_eq_eq,
    List.forall₂_map_left_iff, List.forall₂_map_right_iff]
  refine hreqs.imp fun req r hreq => ?_
  rw [hreq.action, recordId_delete hreq.payload, UInt64.toNat_toUInt32]

/-- What `record_delete_remain_one` should do: one `DeleteRecord` for each
surplus record, that names the id that `dnspod_record_modify` would name. -/
def NamesSurplus (E : Env σ) (g : Config) (s : Session σ) : Prop :=
  deletions E g s = ((surplus s.dnspod).map fun r =>
    (some (bytes "DeleteRecord"), some r.id.toNat)) ∧
  ∀ r ∈ surplus s.dnspod, ∀ ip,
    numberAfter (deleteHead g.domainName) (recordDeletePayload g.domainName r.id.toUInt32) =
      numberAfter (modifyHead g r ip) (recordModifyPayload g r ip)

/-- **The delete loops name exactly the surplus records as long as the ids of
these fit in 32 bits** (and the domain survives as a C string). -/
theorem deleteRecord_names_surplus_iff (E : Env σ) (g : Config) (s : Session σ) :
    NamesSurplus E g s ↔
      (∀ r ∈ surplus s.dnspod, r.id.toNat < 2 ^ 32) ∧
        (surplus s.dnspod = [] ∨ 0 ∉ g.domainName) := by
  have hmod : ∀ r : RecordListT, r.id.toNat % 2 ^ 32 = r.id.toNat ↔ r.id.toNat < 2 ^ 32 :=
    fun r => Nat.mod_eq_iff_lt (by decide)
  unfold NamesSurplus
  rw [deletions_eq, List.map_inj_left]
  constructor
  · rintro ⟨hids, -⟩
    -- a request that names an id at all is for a domain without NUL
    have hnul : ∀ r ∈ surplus s.dnspod, 0 ∉ g.domainName := by
      intro r hr hmem
      have h := hids r hr
      rw [if_pos hmem] at h
      exact absurd (congrArg Prod.snd h) (by simp)
    constructor
    · intro r hr
      have h := hids r hr
      rw [if_neg (hnul r hr)] at h
      exact (hmod r).mp (Option.some.inj (congrArg Prod.snd h))
    · cases hs : surplus s.dnspod with
      | nil => exact .inl rfl
      | cons r rs => exact .inr (hnul r (hs ▸ List.mem_cons_self))
  · rintro ⟨hlt, hdom⟩
    constructor
    · intro r hr
      have hnul : 0 ∉ g.domainName := by
        rcases hdom with hnil | hnul
        · rw [hnil] at hr
          exact absurd hr List.not_mem_nil
        · exact hnul
      rw [if_neg hnul, (hmod r).mpr (hlt r hr)]
    · intro r hr ip
      rw [number_delete, number_modify, UInt64.toNat_toUInt32, (hmod r).mpr (hlt r hr)]

/-- A client with two `A` records, the second with an id just above 2^32. -/
def wideIdSession : Session Unit where
  dnspod := { Dnspod.new [] with
    recordIpv4 := [⟨1, bytes "192.0.2.1", bytes "A"⟩, ⟨4294967303, bytes "192.0.2.2", bytes "A"⟩] }
  world := ⟨(), [], 0⟩

/-- There `record_delete_remain_one` deletes record 7 and not record 4294967303. -/
theorem wideId_not_namesSurplus :
    let E := Env.fixed fun _ (_ : Unit) => (⟨true, []⟩, ())
    let g := { Config.empty with domainName := bytes "example.com" }
    (∀ r ∈ surplus wideIdSession.dnspod, r.id.toNat < 2 ^ 53) ∧
      deletions E g wideIdSession = [(some (bytes "DeleteRecord"), some 7)] ∧
      ¬ NamesSurplus E g wideIdSession := by
  intro E g
  have hdel : deletions E g wideIdSession = [(some (bytes "DeleteRecord"), some 7)] := by
    rw [deletions_eq]
    decide
  refine ⟨by decide, hdel, fun h => ?_⟩
  have hids := h.1
  rw [hdel] at hids
  exact absurd hids (by decide)

end DdnsCloudTencent
