import DdnsCloudTencent.Lib.JsonWriting
import DdnsCloudTencent.Theory.Payloads
import DdnsCloudTencent.Theory.PublicAddress

/-!
# When the payloads say what they should

A payload is what `Json.write` makes of its members, so it is right exactly for
the names that stand for themselves in a JSON text; the record's type and the IP
text always do.

- `recordListFilterPayload_eq`: the listing's members;
- `text_ip`: an IP text stands for itself;
- `payloads_denote_iff`: the three payloads. The deletion also needs an id of 32
  bits.
-/

namespace DdnsCloudTencent

open Cxx Inet

/-- A configuration whose names stand for themselves in a JSON text. -/
structure Config.Text (g : Config) : Prop where
  domainName : Json.Text g.domainName
  domainSubname : Json.Text g.domainSubname

/-- The members of a listing. -/
def listObject (g : Config) : Json.Object :=
  (bytes "Domain", .string g.domainName) ::
    if g.domainSubname = [] then []
    else [(bytes "SubDomain", .string g.domainSubname), (bytes "IsExactSubDomain", .bool true)]

theorem recordListFilterPayload_eq (g : Config) :
    recordListFilterPayload g = Json.write (listObject g) := by
  unfold recordListFilterPayload listObject domainPayload
  split <;>
  · simp only [Json.write, Json.writeMembers, Json.writeMember, Json.writeText, Json.writeAtom,
      List.append_assoc, List.cons_append]
    rfl

/-! ## Texts that stand for themselves -/

theorem text_of_ascii {s : Bytes} (h : ∀ c ∈ s, (32 ≤ c ∧ c ≠ 34 ∧ c ≠ 92) ∧ c < 128) :
    Json.Text s :=
  ⟨fun c hc => (h c hc).1, Json.utf8_of_ascii fun c hc => (h c hc).2⟩

theorem text_nil : Json.Text [] := text_of_ascii (by simp)

theorem text_typeText (t : Dnspod.IpType) : Json.Text (bytes t.typeText) := by
  refine text_of_ascii ?_
  cases t <;> decide

theorem text_defaultLine : Json.Text defaultLine := ⟨by decide, ['默', '认'], by decide⟩

/-- An IP text has digits, dots and colons only. -/
theorem text_ip {u : Ipaddress.IpType} {ip : Bytes} {a : u.Addr} (h : u.inetPton ip = some a) :
    Json.Text ip := by
  refine text_of_ascii fun c hc => ?_
  cases u with
  | classIpv4 =>
    rw [inetPton4_eq_some_iff.mp h] at hc
    have hall : ∀ c ∈ textChars, (32 ≤ c ∧ c ≠ 34 ∧ c ≠ 92) ∧ c < 128 := by decide
    exact hall c (mem_textChars_of_inetNtop4 hc)
  | classIpv6 =>
    have hlower : ∀ b : UInt8, isHexDigit b = true ∨ b = dot ∨ b = colon →
        (32 ≤ b ∧ b ≠ 34 ∧ b ≠ 92) ∧ b < 128 := by
      intro b hb
      simp only [isHexDigit, isDigit, Bool.or_eq_true, Bool.and_eq_true, decide_eq_true_eq, dot,
        colon] at hb
      grind
    have hchar := mem_of_inetPton6 h hc
    by_cases hupper : 65 ≤ c ∧ c ≤ 70
    · grind
    · rw [lowerHex, if_neg hupper] at hchar
      exact hlower c hchar

/-! ## The payloads -/

theorem listObject_text_iff (g : Config) :
    (∀ m ∈ listObject g, m.2.Text) ↔ g.Text := by
  unfold listObject
  split
  · next hsub =>
    simp only [List.forall_mem_singleton]
    exact ⟨fun h => ⟨h, hsub ▸ text_nil⟩, fun h => h.domainName⟩
  · simp only [List.forall_mem_cons]
    exact ⟨fun h => ⟨h.1, h.2.1⟩, fun h => ⟨h.domainName, h.domainSubname, trivial, by simp⟩⟩

theorem modifyObject_text_iff (g : Config) {record0 : RecordListT} (htype : Json.Text record0.type)
    {ip : Bytes} (hip : Json.Text ip) : (∀ m ∈ modifyObject g record0 ip, m.2.Text) ↔ g.Text := by
  unfold modifyObject
  rw [List.forall_mem_append]
  simp only [List.forall_mem_cons]
  constructor
  · rintro ⟨⟨hdomain, -⟩, hsub⟩
    refine ⟨hdomain, ?_⟩
    by_cases hnil : g.domainSubname = []
    · exact hnil ▸ text_nil
    · rw [if_neg hnil] at hsub
      exact hsub (bytes "SubDomain", .string g.domainSubname) (List.mem_singleton_self _)
  · intro h
    refine ⟨⟨h.domainName, htype, text_defaultLine, hip, trivial, by simp⟩, ?_⟩
    split
    · exact fun m hm => absurd hm List.not_mem_nil
    · exact List.forall_mem_singleton.mpr h.domainSubname

/-- The names of members. -/
def memberNames : List Bytes :=
  [bytes "Domain", bytes "SubDomain", bytes "IsExactSubDomain", bytes "RecordType",
    bytes "RecordLine", bytes "Value", bytes "RecordId"]

/-- They stand for themselves. -/
theorem text_of_memberNames {o : Json.Object} (h : o.map Prod.fst ⊆ memberNames) :
    ∀ m ∈ o, Json.Text m.1 := by
  have hall : ∀ name ∈ memberNames, ∀ c ∈ name, (32 ≤ c ∧ c ≠ 34 ∧ c ≠ 92) ∧ c < 128 := by decide
  exact fun m hm => text_of_ascii (hall m.1 (h (List.mem_map_of_mem hm)))

theorem sameStrings_refl (o : Json.Object) : Json.SameStrings o o :=
  List.forall₂_same.mpr fun _ _ => ⟨rfl, fun _ _ => rfl⟩

theorem denotes_recordListFilterPayload_iff (g : Config) :
    Json.Denotes (recordListFilterPayload g) (.object (listObject g).toMembers) ↔ g.Text := by
  have hnames : ∀ m ∈ listObject g, Json.Text m.1 := by
    unfold listObject
    split
    · exact text_of_memberNames (show [bytes "Domain"] ⊆ memberNames by decide)
    · exact text_of_memberNames
        (show [bytes "Domain", bytes "SubDomain", bytes "IsExactSubDomain"] ⊆ memberNames by decide)
  rw [recordListFilterPayload_eq, Json.denotes_write_iff hnames (sameStrings_refl _),
    and_iff_right rfl, listObject_text_iff]

/-- The deletion names the id modulo 2^32. -/
theorem denotes_recordDeletePayload_iff (domain : Bytes) (id : UInt64) :
    Json.Denotes (recordDeletePayload domain id.toUInt32)
        (.object (deleteObject domain id.toNat).toMembers) ↔
      Json.Text domain ∧ id.toNat < 2 ^ 32 := by
  have hnames : ∀ m ∈ deleteObject domain id.toUInt32.toNat, Json.Text m.1 :=
    text_of_memberNames (show [bytes "Domain", bytes "RecordId"] ⊆ memberNames by decide)
  have hsame : Json.SameStrings (deleteObject domain id.toUInt32.toNat)
      (deleteObject domain id.toNat) :=
    .cons ⟨rfl, fun _ _ => rfl⟩ (.cons ⟨rfl, fun _ h => nomatch h⟩ .nil)
  have hid : deleteObject domain id.toNat = deleteObject domain id.toUInt32.toNat ↔
      id.toNat < 2 ^ 32 := by
    simp only [deleteObject, List.cons.injEq, Prod.mk.injEq, Json.Atom.number.injEq, true_and,
      and_true, UInt64.toNat_toUInt32]
    omega
  have htext : (∀ m ∈ deleteObject domain id.toUInt32.toNat, m.2.Text) ↔ Json.Text domain := by
    simp only [deleteObject, List.forall_mem_cons]
    exact ⟨fun h => h.1, fun h => ⟨h, trivial, by simp⟩⟩
  rw [recordDeletePayload_eq, Json.denotes_write_iff hnames hsame, hid, htext, and_comm]

theorem denotes_recordModifyPayload_iff (g : Config) {record0 : RecordListT}
    (htype : Json.Text record0.type) {ip : Bytes} (hip : Json.Text ip) :
    Json.Denotes (recordModifyPayload g record0 ip)
        (.object (modifyObject g record0 ip).toMembers) ↔ g.Text := by
  have hnames : ∀ m ∈ modifyObject g record0 ip, Json.Text m.1 := by
    unfold modifyObject
    split
    · exact text_of_memberNames (show [bytes "Domain", bytes "RecordType", bytes "RecordLine",
        bytes "Value", bytes "RecordId"] ⊆ memberNames by decide)
    · exact text_of_memberNames (show [bytes "Domain", bytes "RecordType", bytes "RecordLine",
        bytes "Value", bytes "RecordId", bytes "SubDomain"] ⊆ memberNames by decide)
  rw [recordModifyPayload_eq, Json.denotes_write_iff hnames (sameStrings_refl _),
    and_iff_right rfl, modifyObject_text_iff g htype hip]

/-- **When the payloads denote what is meant.** The listing and the modification:
exactly if the configured names stand for themselves. The deletion: if the domain
does, and the id has 32 bits. -/
theorem payloads_denote_iff {u : Ipaddress.IpType} {a : u.Addr} {ip : Bytes}
    (hip : u.inetPton ip = some a) (g : Config) (t : Dnspod.IpType) (id : UInt64) (value : Bytes) :
    (Json.Denotes (recordListFilterPayload g) (.object (listObject g).toMembers) ↔ g.Text) ∧
    (Json.Denotes (recordDeletePayload g.domainName id.toUInt32)
        (.object (deleteObject g.domainName id.toNat).toMembers) ↔
      Json.Text g.domainName ∧ id.toNat < 2 ^ 32) ∧
    (Json.Denotes (recordModifyPayload g ⟨id, value, bytes t.typeText⟩ ip)
        (.object (modifyObject g ⟨id, value, bytes t.typeText⟩ ip).toMembers) ↔ g.Text) :=
  ⟨denotes_recordListFilterPayload_iff g, denotes_recordDeletePayload_iff g.domainName id,
    denotes_recordModifyPayload_iff g (text_typeText t) (text_ip hip)⟩

/-- The configuration of `www.example.com`. -/
def plainConfig : Config :=
  fileConfigRead (bytes "domain_name=example.com\ndomain_subname=www\n") Config.empty

/-- All three payloads are right for it. -/
theorem payloads_denote_plain :
    Json.Denotes (recordListFilterPayload plainConfig)
        (.object (listObject plainConfig).toMembers) ∧
    Json.Denotes (recordDeletePayload plainConfig.domainName (7 : UInt64).toUInt32)
        (.object (deleteObject plainConfig.domainName 7).toMembers) ∧
    Json.Denotes (recordModifyPayload plainConfig ⟨7, [], bytes "A"⟩ (bytes "192.0.2.1"))
        (.object (modifyObject plainConfig ⟨7, [], bytes "A"⟩ (bytes "192.0.2.1")).toMembers) := by
  have hip : Ipaddress.IpType.inetPton .classIpv4 (bytes "192.0.2.1") = some 0xC0000201#32 := by
    decide +kernel
  have hdomain : Json.Text plainConfig.domainName := text_of_ascii (by decide +kernel)
  have hsub : Json.Text plainConfig.domainSubname := text_of_ascii (by decide +kernel)
  obtain ⟨hlist, hdelete, hmodify⟩ := payloads_denote_iff hip plainConfig .classIpv4 7 []
  exact ⟨hlist.mpr ⟨hdomain, hsub⟩, hdelete.mpr ⟨hdomain, by decide⟩,
    hmodify.mpr ⟨hdomain, hsub⟩⟩

/-- A quotation mark in the configured domain: the payload is not what is meant. -/
theorem quoteInDomain_not_denoted :
    let g := fileConfigRead (bytes "domain_name=a\"b\n") Config.empty
    recordListFilterPayload g = bytes "\x7b\"Domain\": \"a\"b\"\x7d" ∧
      ¬ Json.Denotes (recordListFilterPayload g) (.object (listObject g).toMembers) := by
  intro g
  refine ⟨by decide +kernel, fun h => ?_⟩
  have hquote : (34 : UInt8) ∈ g.domainName := by decide +kernel
  have htext := (denotes_recordListFilterPayload_iff g).mp h
  exact absurd rfl (htext.domainName.1 34 hquote).2.1

end DdnsCloudTencent
