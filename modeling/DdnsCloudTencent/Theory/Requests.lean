import DdnsCloudTencent.Main

/-!
# What the operations send

Every operation of the client ends in `signedPost`. This module says once what
that does: the request it sends (`signedRequest`), what it leaves alone in the
object, and what the reply is. The later modules use these facts and never
unfold the signing.

- `action_signedRequest`: the action of the request is the operation's;
- `recordDeleteRemainOne_eq`: the two delete loops are one over the surplus;
- `Sends`: the requests of a piece of a run, and the network after them;
- `sends_deleteLoop`: the requests of a delete loop, in order.
-/

namespace DdnsCloudTencent

open Cxx

variable {σ : Type}

/-! ## One signed request -/

/-- The request that `signedPost` sends. -/
def signedRequest (E : Env σ) (action payload : Bytes) (s : Session σ) : Request where
  url := cStr (bytes "https://" ++ tencentRequestUrl)
  method := bytes "POST"
  postFields := some (cStr payload)
  headers :=
    generateHttpHeader (generateHttpAuthorization E (bytes "POST") payload s).dnspod action

/-- What `signedPost` does, in one line. -/
theorem signedPost_eq (E : Env σ) (action payload : Bytes) (s : Session σ) :
    signedPost E action payload s =
      let r := signedRequest E action payload s
      let t := E.perform r s.world.net
      (t.1.body, ⟨(generateHttpAuthorization E (bytes "POST") payload s).dnspod,
        ⟨t.2, s.world.sent ++ [r], s.world.ticks + 1⟩⟩) := rfl

/-- What a request leaves as it is in the object: everything but the three
fields that belong to the request. -/
structure SameState (d d' : Dnspod) : Prop where
  recordIpv4 : d'.recordIpv4 = d.recordIpv4
  recordIpv6 : d'.recordIpv6 = d.recordIpv6
  domainId : d'.domainId = d.domainId
  domainGrade : d'.domainGrade = d.domainGrade
  credentials : d'.credentials = d.credentials
  requestVersion : d'.requestVersion = d.requestVersion
  requestContentType : d'.requestContentType = d.requestContentType

theorem SameState.refl (d : Dnspod) : SameState d d := ⟨rfl, rfl, rfl, rfl, rfl, rfl, rfl⟩

theorem SameState.trans {d d' d'' : Dnspod} (h : SameState d d') (h' : SameState d' d'') :
    SameState d d'' where
  recordIpv4 := h'.recordIpv4.trans h.recordIpv4
  recordIpv6 := h'.recordIpv6.trans h.recordIpv6
  domainId := h'.domainId.trans h.domainId
  domainGrade := h'.domainGrade.trans h.domainGrade
  credentials := h'.credentials.trans h.credentials
  requestVersion := h'.requestVersion.trans h.requestVersion
  requestContentType := h'.requestContentType.trans h.requestContentType

theorem SameState.record {d d' : Dnspod} (h : SameState d d') (t : Dnspod.IpType) :
    d'.record t = d.record t := by
  cases t with
  | classIpv4 => exact h.recordIpv4
  | classIpv6 => exact h.recordIpv6

theorem sameState_signedPost (E : Env σ) (action payload : Bytes) (s : Session σ) :
    SameState s.dnspod (signedPost E action payload s).2.dnspod :=
  ⟨rfl, rfl, rfl, rfl, rfl, rfl, rfl⟩

@[simp] theorem signedPost_sent (E : Env σ) (action payload : Bytes) (s : Session σ) :
    (signedPost E action payload s).2.world.sent =
      s.world.sent ++ [signedRequest E action payload s] := rfl

/-- The action header is the only line that starts with its name. -/
theorem action_signedRequest (E : Env σ) {action : Bytes} (haction : 0 ∉ action)
    (payload : Bytes) (s : Session σ) :
    (signedRequest E action payload s).action = some action := by
  have hline : (cStr (bytes "X-TC-Action: " ++ action)).toBytes =
      bytes "X-TC-Action: " ++ action := by
    refine cStr_toBytes_of_noNul fun h => ?_
    rcases List.mem_append.mp h with h | h
    · exact absurd h (by decide)
    · exact haction h
  have hfind : (signedRequest E action payload s).action =
      some ((cStr (bytes "X-TC-Action: " ++ action)).toBytes.drop 13) := rfl
  rw [hfind, hline]
  rfl

/-- The request of an action with a payload. -/
structure Request.Is (r : Request) (action payload : Bytes) : Prop where
  action : r.action = some action
  payload : r.postFields = some (cStr payload)

theorem signedRequest_is (E : Env σ) {action : Bytes} (haction : 0 ∉ action) (payload : Bytes)
    (s : Session σ) : (signedRequest E action payload s).Is action payload :=
  ⟨action_signedRequest E haction payload s, rfl⟩

/-! ## Requests one after the other -/

/-- The world after the requests `reqs`: they are logged, and the network has
performed them in this order. -/
structure Sends (E : Env σ) (w w' : World σ) (reqs : List Request) : Prop where
  sent : w'.sent = w.sent ++ reqs
  net : w'.net = reqs.foldl (fun st r => (E.perform r st).2) w.net

theorem Sends.refl (E : Env σ) (w : World σ) : Sends E w w [] :=
  ⟨(List.append_nil _).symm, rfl⟩

theorem Sends.trans {E : Env σ} {w w' w'' : World σ} {reqs reqs' : List Request}
    (h : Sends E w w' reqs) (h' : Sends E w' w'' reqs') : Sends E w w'' (reqs ++ reqs') where
  sent := by rw [h'.sent, h.sent, List.append_assoc]
  net := by rw [h'.net, h.net, List.foldl_append]

theorem sends_signedPost (E : Env σ) (action payload : Bytes) (s : Session σ) :
    Sends E s.world (signedPost E action payload s).2.world [signedRequest E action payload s] :=
  ⟨rfl, rfl⟩

theorem sends_decodeInto {E : Env σ} {w : World σ} {reqs : List Request}
    {decode : Bytes → Dnspod → Decoded} {r : Bytes × Session σ} (h : Sends E w r.2.world reqs) :
    Sends E w (decodeInto decode r).2.world reqs := by
  unfold decodeInto
  cases decode r.1 r.2.dnspod with
  | error f => exact h
  | ok o => exact h

theorem exists_of_mem_forall₂ {α β : Type} {R : α → β → Prop} {xs : List α} {ys : List β}
    (h : List.Forall₂ R xs ys) {x : α} (hx : x ∈ xs) : ∃ y ∈ ys, R x y := by
  induction h with
  | nil => exact absurd hx List.not_mem_nil
  | cons hr _ ih =>
    rcases List.mem_cons.mp hx with rfl | hx
    · exact ⟨_, List.mem_cons_self, hr⟩
    · obtain ⟨y, hy, hxy⟩ := ih hx
      exact ⟨y, List.mem_cons_of_mem _ hy, hxy⟩

/-- The requests that an operation has added. -/
def sentSince (s s' : Session σ) : List Request := s'.world.sent.drop s.world.sent.length

theorem sentSince_of_eq {s s' : Session σ} {rs : List Request}
    (h : s'.world.sent = s.world.sent ++ rs) : sentSince s s' = rs := by
  rw [sentSince, h, List.drop_left]

/-- Surroundings for runs on concrete inputs: any network, a clock that stands
still, and digests that are all zero. -/
def Env.fixed (perform : Request → σ → Transfer × σ) : Env σ where
  perform := perform
  time _ := 1700000000
  gmtime _ := ⟨2023, 11, 14⟩
  sha256 _ := Vector.replicate 32 0
  hmacSha256 _ _ := Vector.replicate 32 0
  machine := ⟨fun _ => 0, fun _ => 0, fun k => Double.round (10 ^ k), 0⟩

/-- Surroundings whose network answers every request with `body`. -/
def replyEnv (body : Bytes) : Env Unit := Env.fixed fun _ _ => (⟨true, body⟩, ())

/-! ## The delete loops -/

/-- The records that `recordDeleteRemainOne` deletes: all but the first of each
vector. -/
def surplus (d : Dnspod) : List RecordListT := d.recordIpv4.drop 1 ++ d.recordIpv6.drop 1

theorem mem_surplus {d : Dnspod} {r : RecordListT} :
    r ∈ surplus d ↔ ∃ t, r ∈ (d.record t).tail := by
  rw [surplus, List.drop_one, List.drop_one, List.mem_append]
  constructor
  · rintro (h | h)
    · exact ⟨.classIpv4, h⟩
    · exact ⟨.classIpv6, h⟩
  · rintro ⟨t, h⟩
    cases t with
    | classIpv4 => exact .inl h
    | classIpv6 => exact .inr h

/-- The two length checks are for empty loops only, so the two loops are one
over the surplus records. -/
theorem recordDeleteRemainOne_eq (E : Env σ) (g : Config) (s : Session σ) :
    recordDeleteRemainOne E g s = deleteLoop E g (surplus s.dnspod) s := by
  have hguard : ∀ (rs : List RecordListT) (s : Session σ),
      (if rs.length > 1 then deleteLoop E g (rs.drop 1) s else s) =
        deleteLoop E g (rs.drop 1) s := by
    intro rs s
    split
    · rfl
    · next h =>
      rw [List.drop_of_length_le (by omega)]
      rfl
  have hv6 : ∀ (rs : List RecordListT) (s : Session σ),
      (deleteLoop E g rs s).dnspod.recordIpv6 = s.dnspod.recordIpv6 := by
    intro rs
    induction rs with
    | nil => exact fun _ => rfl
    | cons r rs ih => exact fun s => ih (dnspodRecordDelete E g.domainName r.id.toUInt32 s).2
  unfold recordDeleteRemainOne
  simp only [hguard, hv6]
  rw [surplus, deleteLoop, deleteLoop, deleteLoop, List.foldl_append]

theorem sameState_deleteLoop (E : Env σ) (g : Config) (rs : List RecordListT) (s : Session σ) :
    SameState s.dnspod (deleteLoop E g rs s).dnspod := by
  induction rs generalizing s with
  | nil => exact SameState.refl _
  | cons r rs ih => exact (sameState_signedPost E _ _ s).trans (ih _)

theorem sameState_recordDeleteRemainOne (E : Env σ) (g : Config) (s : Session σ) :
    SameState s.dnspod (recordDeleteRemainOne E g s).dnspod := by
  rw [recordDeleteRemainOne_eq]
  exact sameState_deleteLoop E g _ s

/-- One request for each record, with its id in the payload. -/
theorem sends_deleteLoop (E : Env σ) (g : Config) (rs : List RecordListT) (s : Session σ) :
    ∃ reqs, Sends E s.world (deleteLoop E g rs s).world reqs ∧
      List.Forall₂ (fun req r => req.Is (bytes "DeleteRecord")
        (recordDeletePayload g.domainName r.id.toUInt32)) reqs rs := by
  induction rs generalizing s with
  | nil => exact ⟨[], Sends.refl E _, .nil⟩
  | cons r rs ih =>
    obtain ⟨reqs, hsends, hreqs⟩ := ih (dnspodRecordDelete E g.domainName r.id.toUInt32 s).2
    exact ⟨_ :: reqs, (sends_signedPost E _ _ s).trans hsends,
      .cons (signedRequest_is E (by decide) _ s) hreqs⟩

/-! ## The modification -/

/-- The two outcomes of a modification. -/
theorem dnspodRecordModify_cases (E : Env σ) (g : Config) (t : Dnspod.IpType) (ip : Bytes)
    (s : Session σ) :
    (s.dnspod.record t = [] ∧ dnspodRecordModify E g t ip s = (-1, s)) ∨
      ∃ record0 rest, s.dnspod.record t = record0 :: rest ∧
        dnspodRecordModify E g t ip s =
          (0, (signedPost E (bytes "ModifyRecord") (recordModifyPayload g record0 ip) s).2) := by
  unfold dnspodRecordModify
  cases s.dnspod.record t with
  | nil => exact .inl ⟨rfl, rfl⟩
  | cons record0 rest => exact .inr ⟨record0, rest, rfl, rfl⟩

end DdnsCloudTencent
