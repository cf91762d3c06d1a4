import DdnsCloudTencent.Lib.Json
import DdnsCloudTencent.Theory.Signature

/-!
# The payloads as JSON

A payload is concatenated from literals and texts that nothing escapes. Over a
configuration of plain texts it is the JSON text of an object.

- `recordDeletePayload_eq`, `recordModifyPayload_eq`: a payload is what
  `Json.write` writes for its members;
- `plain_deleteObject`, `plain_modifyObject`: so that `Json.read` reads them back
  where the texts are plain.
-/

namespace DdnsCloudTencent

open Cxx

/-- A configuration whose names are plain text. -/
structure Config.Plain (g : Config) : Prop where
  domainName : Json.PlainText g.domainName
  domainSubname : Json.PlainText g.domainSubname

theorem noNul_of_plain {s : Bytes} (h : Json.PlainText s) : 0 ∉ s :=
  fun h0 => absurd (h 0 h0).1 (by decide)

theorem Config.Plain.noNul {g : Config} (h : g.Plain) : g.NoNul :=
  ⟨noNul_of_plain h.domainName, noNul_of_plain h.domainSubname⟩

/-- The members of a deletion. -/
def deleteObject (domain : Bytes) (id : Nat) : Json.Object :=
  [(bytes "Domain", .string domain), (bytes "RecordId", .number id)]

/-- The members of a modification. -/
def modifyObject (g : Config) (record0 : RecordListT) (ip : Bytes) : Json.Object :=
  [(bytes "Domain", .string g.domainName), (bytes "RecordType", .string record0.type),
    (bytes "RecordLine", .string defaultLine), (bytes "Value", .string ip),
    (bytes "RecordId", .number record0.id.toNat)] ++
  if g.domainSubname = [] then [] else [(bytes "SubDomain", .string g.domainSubname)]

theorem recordDeletePayload_eq (domain : Bytes) (id : UInt32) :
    recordDeletePayload domain id = Json.write (deleteObject domain id.toNat) := by
  simp only [recordDeletePayload, deleteObject, Json.write, Json.writeMembers, Json.writeMember,
    Json.writeText, Json.writeAtom, List.append_assoc, List.cons_append]
  rfl

theorem recordModifyPayload_eq (g : Config) (record0 : RecordListT) (ip : Bytes) :
    recordModifyPayload g record0 ip = Json.write (modifyObject g record0 ip) := by
  unfold recordModifyPayload modifyObject
  split <;>
  · simp only [List.append_nil, List.cons_append, List.nil_append, Json.write, Json.writeMembers,
      Json.writeMember, Json.writeText, Json.writeAtom, List.append_assoc]
    rfl

theorem plain_deleteObject {domain : Bytes} (h : Json.PlainText domain) (id : Nat) :
    Json.PlainObject (deleteObject domain id) := by
  intro m hm
  rcases List.mem_cons.mp hm with rfl | hm
  · exact ⟨(by decide : Json.PlainText (bytes "Domain")), h⟩
  · rw [List.mem_singleton.mp hm]
    exact ⟨(by decide : Json.PlainText (bytes "RecordId")), trivial⟩

theorem plain_modifyObject {g : Config} (h : g.Plain) {record0 : RecordListT}
    (htype : Json.PlainText record0.type) {ip : Bytes} (hip : Json.PlainText ip) :
    Json.PlainObject (modifyObject g record0 ip) := by
  intro m hm
  unfold modifyObject at hm
  simp only [List.cons_append, List.nil_append, List.mem_cons] at hm
  rcases hm with rfl | rfl | rfl | rfl | rfl | hm
  · exact ⟨(by decide : Json.PlainText (bytes "Domain")), h.domainName⟩
  · exact ⟨(by decide : Json.PlainText (bytes "RecordType")), htype⟩
  · exact ⟨(by decide : Json.PlainText (bytes "RecordLine")),
      (by decide : Json.PlainText defaultLine)⟩
  · exact ⟨(by decide : Json.PlainText (bytes "Value")), hip⟩
  · exact ⟨(by decide : Json.PlainText (bytes "RecordId")), trivial⟩
  · split at hm
    · exact absurd hm List.not_mem_nil
    · rw [List.mem_singleton.mp hm]
      exact ⟨(by decide : Json.PlainText (bytes "SubDomain")), h.domainSubname⟩

theorem plain_typeText (t : Dnspod.IpType) : Json.PlainText (bytes t.typeText) := by
  cases t <;> decide

end DdnsCloudTencent
