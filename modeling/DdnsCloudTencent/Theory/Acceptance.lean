import DdnsCloudTencent.Lib.JsonGrammar
import DdnsCloudTencent.Theory.Requests

/-!
# What a mutating operation reports (custom_cloudTencent.cpp:387, 427)

A change can fail in the transfer, in the syntax of the reply, or by the API's
own error object. `Transfer.Accepted` is the one outcome without a failure.

- `mutation_reports_iff`: both operations report success whatever the outcome,
  so they are right exactly when the server has accepted the change;
- `accepted_not_decided_by_reply`: nothing that looks only at the string which
  `curl_request` returns is right on every network, because the result code of
  the transfer is not in it.
-/

namespace DdnsCloudTencent

open Cxx

variable {σ : Type}

/-! ## Acceptance -/

/-- A value is an object with a member of the name. -/
def hasMember (name : Bytes) : Json.Value → Prop
  | .object ms => ∃ v, (name, v) ∈ ms
  | _ => False

/-- The transfer succeeded, and its body is a JSON object that has a `Response`
without an `Error`. -/
def Transfer.Accepted (t : Transfer) : Prop :=
  t.ok = true ∧ ∃ ms, Json.Denotes t.body (.object ms) ∧
    (∃ resp, (bytes "Response", resp) ∈ ms) ∧
    ∀ resp, (bytes "Response", resp) ∈ ms → ¬ hasMember (bytes "Error") resp

/-- What the network does with the request of an operation. -/
def transferOf (E : Env σ) (action payload : Bytes) (s : Session σ) : Transfer :=
  (E.perform (signedRequest E action payload s) s.world.net).1

/-! ## The reports -/

theorem dnspodRecordModify_succ {E : Env σ} {g : Config} {t : Dnspod.IpType} {ip : Bytes}
    {s : Session σ} {record0 : RecordListT} {rest : List RecordListT}
    (h : s.dnspod.record t = record0 :: rest) : (dnspodRecordModify E g t ip s).1 = returnSucc := by
  rcases dnspodRecordModify_cases E g t ip s with ⟨hnil, -⟩ | ⟨_, _, -, hcall⟩
  · rw [h] at hnil
    cases hnil
  · rw [hcall]
    rfl

/-- **When a report of success is right**: exactly when the change was accepted,
as success is all that is ever reported. -/
theorem mutation_reports_iff (E : Env σ) (g : Config) (t : Dnspod.IpType) (ip domain : Bytes)
    (id : UInt32) {s : Session σ} {record0 : RecordListT} {rest : List RecordListT}
    (h : s.dnspod.record t = record0 :: rest) :
    (((dnspodRecordModify E g t ip s).1 = returnSucc ↔
        (transferOf E (bytes "ModifyRecord") (recordModifyPayload g record0 ip) s).Accepted) ↔
      (transferOf E (bytes "ModifyRecord") (recordModifyPayload g record0 ip) s).Accepted) ∧
    (((dnspodRecordDelete E domain id s).1 = true ↔
        (transferOf E (bytes "DeleteRecord") (recordDeletePayload domain id) s).Accepted) ↔
      (transferOf E (bytes "DeleteRecord") (recordDeletePayload domain id) s).Accepted) := by
  have hmodify : (dnspodRecordModify E g t ip s).1 = returnSucc := dnspodRecordModify_succ h
  have hdelete : (dnspodRecordDelete E domain id s).1 = true := rfl
  exact ⟨⟨fun hiff => hiff.mp hmodify, fun hacc => iff_of_true hmodify hacc⟩,
    ⟨fun hiff => hiff.mp hdelete, fun hacc => iff_of_true hdelete hacc⟩⟩

/-- A client with one `A` record. -/
def oneRecordSession : Session Unit where
  dnspod := { Dnspod.new [] with recordIpv4 := [⟨7, bytes "192.0.2.1", bytes "A"⟩] }
  world := ⟨(), [], 0⟩

/-- A reply that accepts a change. -/
def acceptingReply : Bytes := bytes "\x7b\"Response\":\x7b\"RequestId\":\"1\"\x7d\x7d"

theorem acceptingReply_accepted : (Transfer.mk true acceptingReply).Accepted := by
  have hname : Json.readText (bytes "Response\":\x7b\"RequestId\":\"1\"\x7d\x7d") =
      some (bytes "Response", bytes ":\x7b\"RequestId\":\"1\"\x7d\x7d") := by decide +kernel
  have hinner : Json.readMembers 2 (bytes "\"RequestId\":\"1\"\x7d\x7d") =
      some ([(bytes "RequestId", .string (bytes "1"))], bytes "\x7d") := by decide +kernel
  have hvalue : Json.ValueText acceptingReply (.object [(bytes "Response",
      .object (Json.Object.toMembers [(bytes "RequestId", .string (bytes "1"))]))]) [] :=
    .object (.last (.mk .nil (Json.stringText_of_readText hname) .nil .nil
      (.object (Json.members_of_readMembers hinner))) .nil)
  have hutf : Json.Utf8 acceptingReply := Json.utf8_of_ascii (by decide +kernel)
  refine ⟨rfl, _, ⟨hutf, _, _, .nil, hvalue, .nil⟩, ⟨_, List.mem_singleton_self _⟩, ?_⟩
  intro resp hresp herror
  cases List.mem_singleton.mp hresp
  obtain ⟨v, hv⟩ := herror
  cases List.mem_singleton.mp hv

/-- There both reports are right. -/
theorem mutation_reports_accepted :
    let E := replyEnv acceptingReply
    let g := { Config.empty with domainName := bytes "example.com" }
    let record0 : RecordListT := ⟨7, bytes "192.0.2.1", bytes "A"⟩
    ((dnspodRecordModify E g .classIpv4 (bytes "8.8.8.8") oneRecordSession).1 = returnSucc ↔
      (transferOf E (bytes "ModifyRecord") (recordModifyPayload g record0 (bytes "8.8.8.8"))
        oneRecordSession).Accepted) ∧
    ((dnspodRecordDelete E (bytes "example.com") 7 oneRecordSession).1 = true ↔
      (transferOf E (bytes "DeleteRecord") (recordDeletePayload (bytes "example.com") 7)
        oneRecordSession).Accepted) := by
  intro E g record0
  have hrecord : oneRecordSession.dnspod.record .classIpv4 = record0 :: [] := rfl
  obtain ⟨hmodify, hdelete⟩ := mutation_reports_iff E g .classIpv4 (bytes "8.8.8.8")
    (bytes "example.com") 7 hrecord
  exact ⟨hmodify.mpr acceptingReply_accepted, hdelete.mpr acceptingReply_accepted⟩

/-- Every transfer fails, and both operations report success. -/
theorem failedTransfer_reported :
    let E := Env.fixed fun _ (_ : Unit) => (⟨false, []⟩, ())
    let g := { Config.empty with domainName := bytes "example.com" }
    let record0 : RecordListT := ⟨7, bytes "192.0.2.1", bytes "A"⟩
    let modify := transferOf E (bytes "ModifyRecord")
      (recordModifyPayload g record0 (bytes "8.8.8.8")) oneRecordSession
    let delete := transferOf E (bytes "DeleteRecord") (recordDeletePayload (bytes "example.com") 7)
      oneRecordSession
    oneRecordSession.dnspod.record .classIpv4 = [record0] ∧
      ¬ ((dnspodRecordModify E g .classIpv4 (bytes "8.8.8.8") oneRecordSession).1 = returnSucc ↔
        modify.Accepted) ∧
      ¬ ((dnspodRecordDelete E (bytes "example.com") 7 oneRecordSession).1 = true ↔
        delete.Accepted) := by
  intro E g record0 modify delete
  have hmodify : ¬ modify.Accepted := fun h => Bool.false_ne_true h.1
  have hdelete : ¬ delete.Accepted := fun h => Bool.false_ne_true h.1
  exact ⟨rfl, fun h => hmodify (h.mp rfl), fun h => hdelete (h.mp rfl)⟩

/-- **The reply alone does not decide acceptance**: whatever an operation looks
for in the string that `curl_request` returns, there is a network on which it is
wrong. -/
theorem accepted_not_decided_by_reply (p : Bytes → Bool) (action payload : Bytes)
    (s : Session Unit) :
    ∃ E : Env Unit, ¬ (p (signedPost E action payload s).1 = true ↔
      (transferOf E action payload s).Accepted) := by
  by_cases h : p acceptingReply = true
  · -- the transfer broke off after the whole body
    refine ⟨Env.fixed fun _ _ => (⟨false, acceptingReply⟩, ()), fun hiff => ?_⟩
    exact Bool.false_ne_true (hiff.mp h).1
  · exact ⟨replyEnv acceptingReply, fun hiff => h (hiff.mpr acceptingReply_accepted)⟩

end DdnsCloudTencent
