import DdnsCloudTencent.Lib.Keyed
import DdnsCloudTencent.Theory.Payloads
import DdnsCloudTencent.Theory.RunSafety

/-!
# The DNS service

What the program relies on at the other end: a zone of records behind the
network's state, and a service that lists, deletes and modifies them.

- `Zone` is a partial map from record ids to records;
- `BodyReader` is how the service reads a request body. `jsonReader` reads it as
  a JSON object, and so reads the payloads of plain texts as they are meant
  (`jsonReader_readsDeletes`, `jsonReader_readsModify`);
- `DnsService` states what the service does. A request that fails changes
  nothing and has no body; one that succeeds makes the change it names, and a
  listing describes every record in scope once;
- `zone_foldl`: the zone after any requests is the zone before with the accepted
  changes made;
- `listFilter_spec`: a record listing behind such a service never faults, and
  the vectors grow by the listed records of their family.
-/

namespace DdnsCloudTencent

open Cxx Keyed

variable {σ : Type}

/-! ## Zones -/

/-- A record of a zone, without its id. -/
structure DnsRecord where
  name : CStr
  type : CStr
  value : CStr
deriving DecidableEq

/-- The records of a domain by their ids. -/
abbrev Zone := Store Nat DnsRecord

/-- A record of the configured name and of a family. -/
def OfFamily (g : Config) (t : Dnspod.IpType) (e : DnsRecord) : Prop :=
  e.name = recordTarget g ∧ e.type = key t.typeText

instance (g : Config) (t : Dnspod.IpType) (e : DnsRecord) : Decidable (OfFamily g t e) :=
  inferInstanceAs (Decidable (_ ∧ _))

theorem OfFamily.unique {g : Config} {t t' : Dnspod.IpType} {e : DnsRecord} (h : OfFamily g t e)
    (h' : OfFamily g t' e) : t = t' := by
  have htype : key t.typeText = key t'.typeText := h.2.symm.trans h'.2
  cases t <;> cases t'
  · rfl
  · exact absurd htype (by decide)
  · exact absurd htype (by decide)
  · rfl

/-- What a modification sets. -/
def DnsRecord.modified (e : DnsRecord) (type value : CStr) : DnsRecord :=
  { e with type := type, value := value }

theorem OfFamily.modified {g : Config} {t : Dnspod.IpType} {e : DnsRecord} (h : OfFamily g t e)
    (value : CStr) : OfFamily g t (e.modified (key t.typeText) value) := ⟨h.1, rfl⟩

/-! ## Requests -/

/-- The arguments of a modification. -/
structure ModifyArgs where
  id : Nat
  type : CStr
  value : CStr
deriving DecidableEq

/-- How a service reads the body of a request. -/
structure BodyReader where
  deleteId : CStr → Option Nat
  modifyArgs : CStr → Option ModifyArgs

/-- The change that a request asks for. -/
def Request.change (R : BodyReader) (r : Request) : Option (Change Nat DnsRecord) :=
  r.postFields.bind fun body =>
    if r.action = some (bytes "DeleteRecord") then (R.deleteId body).map Change.erase
    else if r.action = some (bytes "ModifyRecord") then
      (R.modifyArgs body).map fun a => Change.edit a.id fun e => e.modified a.type a.value
    else none

theorem change_of_not_mutates {R : BodyReader} {r : Request} (h : ¬ r.Mutates) :
    r.change R = none := by
  have hdelete : ¬ r.action = some (bytes "DeleteRecord") := fun h' => h (.inl h')
  have hmodify : ¬ r.action = some (bytes "ModifyRecord") := fun h' => h (.inr h')
  unfold Request.change
  simp only [if_neg hdelete, if_neg hmodify]
  cases r.postFields <;> rfl

theorem change_eq_delete {R : BodyReader} {r : Request}
    (h : r.action = some (bytes "DeleteRecord")) :
    r.change R = (r.postFields.bind R.deleteId).map Change.erase := by
  unfold Request.change
  cases r.postFields with
  | none => rfl
  | some body => exact if_pos h

theorem change_eq_modify {R : BodyReader} {r : Request}
    (h : r.action = some (bytes "ModifyRecord")) :
    r.change R = (r.postFields.bind R.modifyArgs).map fun a =>
      Change.edit a.id fun e => e.modified a.type a.value := by
  have hne : ¬ r.action = some (bytes "DeleteRecord") := by
    rw [h]
    decide
  unfold Request.change
  cases r.postFields with
  | none => rfl
  | some body => exact (if_neg hne).trans (if_pos h)

theorem Request.Is.change_delete {R : BodyReader} {r : Request} {payload : Bytes}
    (h : r.Is (bytes "DeleteRecord") payload) {id : Nat}
    (hread : R.deleteId (cStr payload) = some id) : r.change R = some (.erase id) := by
  rw [change_eq_delete h.action, h.payload, Option.bind_some, hread, Option.map_some]

theorem Request.Is.change_modify {R : BodyReader} {r : Request} {payload : Bytes}
    (h : r.Is (bytes "ModifyRecord") payload) {a : ModifyArgs}
    (hread : R.modifyArgs (cStr payload) = some a) :
    r.change R = some (.edit a.id fun e => e.modified a.type a.value) := by
  rw [change_eq_modify h.action, h.payload, Option.bind_some, hread, Option.map_some]

/-- The service reads the deletions of a domain as they are meant. -/
def ReadsDeletes (R : BodyReader) (g : Config) : Prop :=
  ∀ id : UInt32, R.deleteId (cStr (recordDeletePayload g.domainName id)) = some id.toNat

/-- The service reads the modifications to an address as they are meant. -/
def ReadsModify (R : BodyReader) (g : Config) (ip : Bytes) : Prop :=
  ∀ (t : Dnspod.IpType) (record0 : RecordListT), record0.type = bytes t.typeText →
    R.modifyArgs (cStr (recordModifyPayload g record0 ip)) =
      some ⟨record0.id.toNat, key t.typeText, cStr ip⟩

/-! ### Bodies as JSON -/

/-- A number member. -/
def jsonNumber (o : Json.Object) (name : String) : Option Nat :=
  match o.lookup (bytes name) with
  | some (.number n) => some n
  | _ => none

/-- A text member, as a C string. -/
def jsonText (o : Json.Object) (name : String) : Option CStr :=
  match o.lookup (bytes name) with
  | some (.string s) => some (cStr s)
  | _ => none

/-- A service that reads bodies as JSON objects. -/
def jsonReader : BodyReader where
  deleteId body := (Json.read body.toBytes).bind fun o => jsonNumber o "RecordId"
  modifyArgs body := (Json.read body.toBytes).bind fun o =>
    (jsonNumber o "RecordId").bind fun id =>
      (jsonText o "RecordType").bind fun type =>
        (jsonText o "Value").map fun value => ⟨id, type, value⟩

/-- A JSON service reads the deletions of a plain domain as they are meant. -/
theorem jsonReader_readsDeletes {g : Config} (h : g.Plain) : ReadsDeletes jsonReader g := by
  intro id
  have hread : Json.read (cStr (recordDeletePayload g.domainName id)).toBytes =
      some (deleteObject g.domainName id.toNat) := by
    rw [cStr_toBytes_of_noNul (noNul_recordDeletePayload h.noNul.domainName id),
      recordDeletePayload_eq]
    exact Json.read_write (plain_deleteObject h.domainName id.toNat)
  show (Json.read _).bind _ = _
  rw [hread]
  rfl

/-- And the modifications to a plain address. -/
theorem jsonReader_readsModify {g : Config} (h : g.Plain) {ip : Bytes} (hip : Json.PlainText ip) :
    ReadsModify jsonReader g ip := by
  intro t record0 htype
  have hplain : Json.PlainText record0.type := htype ▸ plain_typeText t
  have hread : Json.read (cStr (recordModifyPayload g record0 ip)).toBytes =
      some (modifyObject g record0 ip) := by
    rw [cStr_toBytes_of_noNul (noNul_recordModifyPayload h.noNul (noNul_of_plain hplain)
      (noNul_of_plain hip)), recordModifyPayload_eq]
    exact Json.read_write (plain_modifyObject h hplain hip)
  have hkey : key t.typeText = cStr record0.type := by rw [htype]; rfl
  show (Json.read _).bind _ = _
  rw [hread, hkey]
  rfl

/-! ## The service -/

/-- The log of some requests: each with the fact whether it succeeded. -/
def exchanges (E : Env σ) : List Request → σ → List (Request × Bool)
  | [], _ => []
  | r :: rs, st => (r, (E.perform r st).1.ok) :: exchanges E rs (E.perform r st).2

/-- The changes that the service has made. -/
def accepted (R : BodyReader) (log : List (Request × Bool)) : List (Change Nat DnsRecord) :=
  log.flatMap fun p => if p.2 then (p.1.change R).toList else []

/-- The records that a listing of the configured name covers: all of the domain
where no subdomain is configured. -/
def InScope (g : Config) (e : DnsRecord) : Prop :=
  g.domainSubname = [] ∨ e.name = cStr g.domainSubname

theorem OfFamily.inScope {g : Config} {t : Dnspod.IpType} {e : DnsRecord} (h : OfFamily g t e) :
    InScope g e := by
  by_cases hsub : g.domainSubname = []
  · exact .inl hsub
  · exact .inr (h.1.trans (if_neg hsub))

/-- A list item that describes a record. -/
structure Describes (x : CJson) (id : Nat) (e : DnsRecord) : Prop where
  name : tretapCJsonGetObjectItem x (key "Name") = some (.string e.name)
  type : tretapCJsonGetObjectItem x (key "Type") = some (.string e.type)
  value : tretapCJsonGetObjectItem x (key "Value") = some (.string e.value)
  recordId : ∃ i, tretapCJsonGetObjectItem x (key "RecordId") = some (.number i (.ofNat id))

theorem text_eq_some_iff {x : Option CJson} {s : CStr} :
    x.bind CJson.valuestring = some s ↔ x = some (.string s) := by
  cases x with
  | none => simp
  | some x => cases x <;> simp [CJson.valuestring]

/-- The number of a `Number` node. -/
def CJson.numberOf : CJson → Option Double
  | .number _ d => some d
  | _ => none

theorem number_eq_some_iff {x : Option CJson} {d : Double} :
    x.bind CJson.numberOf = some d ↔ ∃ i, x = some (.number i d) := by
  cases x with
  | none => simp
  | some x => cases x <;> simp [CJson.numberOf]

theorem describes_iff {x : CJson} {id : Nat} {e : DnsRecord} :
    Describes x id e ↔
      (tretapCJsonGetObjectItem x (key "Name")).bind CJson.valuestring = some e.name ∧
      (tretapCJsonGetObjectItem x (key "Type")).bind CJson.valuestring = some e.type ∧
      (tretapCJsonGetObjectItem x (key "Value")).bind CJson.valuestring = some e.value ∧
      (tretapCJsonGetObjectItem x (key "RecordId")).bind CJson.numberOf = some (.ofNat id) := by
  rw [text_eq_some_iff, text_eq_some_iff, text_eq_some_iff, number_eq_some_iff]
  constructor
  · rintro ⟨hname, htype, hvalue, hid⟩
    exact ⟨hname, htype, hvalue, hid⟩
  · rintro ⟨hname, htype, hvalue, hid⟩
    exact ⟨hname, htype, hvalue, hid⟩

instance (x : CJson) (id : Nat) (e : DnsRecord) : Decidable (Describes x id e) :=
  decidable_of_iff' _ describes_iff

/-- A listing's body: it describes the records of `L`, which are those in scope,
each once. -/
structure Lists (M : Machine) (g : Config) (z : Zone) (body : Bytes)
    (L : List (Nat × DnsRecord)) : Prop where
  nodup : (L.map Prod.fst).Nodup
  mem_iff : ∀ id e, (id, e) ∈ L ↔ z id = some e ∧ InScope g e
  items : ∃ items, replyList M "RecordList" body = .ok (some items) ∧
    List.Forall₂ (fun x p => Describes x p.1 p.2) items L

/-- A well-typed item of a domain listing. -/
structure DomainItem (x : CJson) : Prop where
  name : ∃ s, tretapCJsonGetObjectItem x (key "Name") = some (.string s)
  domainId : ∃ i d, tretapCJsonGetObjectItem x (key "DomainId") = some (.number i d)
  grade : ∃ s, tretapCJsonGetObjectItem x (key "Grade") = some (.string s)

/-- The service behind the network, `zone` being the records in a state. -/
structure DnsService (E : Env σ) (g : Config) (R : BodyReader) (zone : σ → Zone) : Prop where
  ids : ∀ st id e, zone st id = some e → id < 2 ^ 32
  rejects : ∀ r st, (E.perform r st).1.ok = false →
    zone (E.perform r st).2 = zone st ∧ (r.action ≠ none → (E.perform r st).1.body = [])
  accepts : ∀ r st, (E.perform r st).1.ok = true →
    zone (E.perform r st).2 = (r.change R).toList.foldl Change.apply (zone st)
  lists : ∀ r st, r.action = some (bytes "DescribeRecordFilterList") →
    (E.perform r st).1.ok = true → ∃ L, Lists E.machine g (zone st) (E.perform r st).1.body L
  domains : ∀ r st, r.action = some (bytes "DescribeDomainList") →
    (E.perform r st).1.ok = true →
    ∃ items, replyList E.machine "DomainList" (E.perform r st).1.body = .ok (some items) ∧
      ∀ x ∈ items, DomainItem x

section Service

variable {E : Env σ} {g : Config} {R : BodyReader} {zone : σ → Zone}

theorem mem_accepted {log : List (Request × Bool)} {c : Change Nat DnsRecord} :
    c ∈ accepted R log ↔ ∃ r, (r, true) ∈ log ∧ r.change R = some c := by
  unfold accepted
  rw [List.mem_flatMap]
  constructor
  · rintro ⟨⟨r, ok⟩, hmem, hc⟩
    cases ok with
    | false => exact absurd hc List.not_mem_nil
    | true => exact ⟨r, hmem, Option.mem_toList.mp hc⟩
  · rintro ⟨r, hmem, hc⟩
    exact ⟨(r, true), hmem, Option.mem_toList.mpr hc⟩

/-- The requests of a log are those that were sent. -/
theorem map_fst_exchanges (E : Env σ) (reqs : List Request) (st : σ) :
    (exchanges E reqs st).map Prod.fst = reqs := by
  induction reqs generalizing st with
  | nil => rfl
  | cons r reqs ih => exact congrArg (r :: ·) (ih _)

theorem mem_of_mem_exchanges {reqs : List Request} {st : σ} {r : Request} {ok : Bool}
    (h : (r, ok) ∈ exchanges E reqs st) : r ∈ reqs := by
  rw [← map_fst_exchanges E reqs st]
  exact List.mem_map_of_mem h

/-- **The zone after some requests** is the zone before with the accepted changes
made. -/
theorem zone_foldl (hservice : DnsService E g R zone) (reqs : List Request) (st : σ) :
    zone (reqs.foldl (fun st r => (E.perform r st).2) st) =
      (accepted R (exchanges E reqs st)).foldl Change.apply (zone st) := by
  induction reqs generalizing st with
  | nil => rfl
  | cons r reqs ih =>
    -- one request makes its change or none
    have hstep : zone (E.perform r st).2 =
        (if (E.perform r st).1.ok then (r.change R).toList else []).foldl Change.apply
          (zone st) := by
      cases hok : (E.perform r st).1.ok with
      | true => exact hservice.accepts r st hok
      | false => exact (hservice.rejects r st hok).1
    rw [List.foldl_cons, ih, hstep, exchanges, accepted, accepted, List.flatMap_cons,
      List.foldl_append]

theorem Sends.zone_eq {w w' : World σ} {reqs : List Request} (h : Sends E w w' reqs)
    (hservice : DnsService E g R zone) :
    zone w'.net = (accepted R (exchanges E reqs w.net)).foldl Change.apply (zone w.net) := by
  rw [h.net, zone_foldl hservice]

/-- Requests that change nothing leave the zone alone. -/
theorem Sends.zone_of_not_mutates {w w' : World σ} {reqs : List Request}
    (h : Sends E w w' reqs) (hservice : DnsService E g R zone)
    (hreqs : ∀ r ∈ reqs, ¬ r.Mutates) : zone w'.net = zone w.net := by
  have hnone : accepted R (exchanges E reqs w.net) = [] := by
    refine List.eq_nil_iff_forall_not_mem.mpr fun c hc => ?_
    obtain ⟨r, hr, hchange⟩ := mem_accepted.mp hc
    rw [change_of_not_mutates (hreqs r (mem_of_mem_exchanges hr))] at hchange
    cases hchange
  rw [h.zone_eq hservice, hnone]
  rfl

/-! ## Decoding what the service lists -/

/-- A decoder returns `false` on an empty body. -/
theorem decodeResponse_nil (M : Machine) (member : String) (body : CJson → Dnspod → Decoded)
    (d : Dnspod) : decodeResponse M member body [] d = .ok (false, d) := rfl

/-- The records of a family in a listing. -/
def family (g : Config) (t : Dnspod.IpType) (L : List (Nat × DnsRecord)) :
    List (Nat × DnsRecord) :=
  L.filter fun p => OfFamily g t p.2

theorem mem_family {t : Dnspod.IpType} {L : List (Nat × DnsRecord)} {p : Nat × DnsRecord} :
    p ∈ family g t L ↔ p ∈ L ∧ OfFamily g t p.2 := by
  rw [family, List.mem_filter, decide_eq_true_eq]

/-- The vector entry of a listed record. -/
def cached (t : Dnspod.IpType) (p : Nat × DnsRecord) : RecordListT :=
  ⟨UInt64.ofNat p.1, p.2.value.toBytes, bytes t.typeText⟩

theorem cached_id {t : Dnspod.IpType} {p : Nat × DnsRecord} (h : p.1 < 2 ^ 32) :
    (cached t p).id.toNat = p.1 := by
  show (UInt64.ofNat p.1).toNat = p.1
  rw [UInt64.toNat_ofNat']
  exact Nat.mod_eq_of_lt (by omega)

theorem recordOf_cached {M : Machine} {t : Dnspod.IpType} {x : CJson} {p : Nat × DnsRecord}
    (h : Describes x p.1 p.2) (hid : p.1 < 2 ^ 32) (hfamily : OfFamily g t p.2) :
    RecordOf M (recordTarget g) t x (cached t p) where
  name := ⟨_, h.name, congrArg some hfamily.1⟩
  typeOf := ⟨_, h.type, congrArg some hfamily.2⟩
  value := ⟨_, _, h.value, rfl, rfl⟩
  id := by
    obtain ⟨i, hi⟩ := h.recordId
    exact ⟨_, hi, (M.toUInt64_ofNat (by omega)).symm⟩
  type := rfl

/-- A described record is stored under its family, or passed over. -/
theorem itemOutcome_of_describes (M : Machine) (g : Config) {x : CJson} {p : Nat × DnsRecord}
    (h : Describes x p.1 p.2) (hid : p.1 < 2 ^ 32) :
    (∃ t, OfFamily g t p.2 ∧ itemOutcome M (recordTarget g) x = .store t (cached t p)) ∨
      (∀ t, ¬ OfFamily g t p.2) ∧ itemOutcome M (recordTarget g) x = .skip := by
  by_cases hfamily : ∃ t, OfFamily g t p.2
  · obtain ⟨t, ht⟩ := hfamily
    exact .inl ⟨t, ht, itemOutcome_eq_store_iff.mpr (recordOf_cached h hid ht)⟩
  · refine .inr ⟨fun t ht => hfamily ⟨t, ht⟩, ?_⟩
    unfold itemOutcome
    simp only [h.name, h.type, CJson.valuestring]
    split
    · next hname =>
      have htype : ∀ t : Dnspod.IpType, p.2.type ≠ key t.typeText :=
        fun t ht => hfamily ⟨t, Option.some.inj hname, ht⟩
      exact (if_neg (htype .classIpv4)).trans (if_neg (htype .classIpv6))
    · rfl

theorem stored_of_describes (M : Machine) (g : Config) {items : List CJson}
    {L : List (Nat × DnsRecord)}
    (h : List.Forall₂ (fun x p => Describes x p.1 p.2) items L) (hids : ∀ p ∈ L, p.1 < 2 ^ 32)
    (t : Dnspod.IpType) :
    (∀ x ∈ items, (itemOutcome M (recordTarget g) x).Good) ∧
      stored M (recordTarget g) t items = (family g t L).map (cached t) := by
  induction h with
  | nil => exact ⟨fun x hx => absurd hx List.not_mem_nil, rfl⟩
  | @cons x p items L hx hrest ih =>
    obtain ⟨hgood, hstored⟩ := ih fun q hq => hids q (List.mem_cons_of_mem p hq)
    unfold stored at hstored ⊢
    unfold family at hstored ⊢
    rw [List.filterMap_cons, List.filter_cons, List.forall_mem_cons]
    rcases itemOutcome_of_describes M g hx (hids p List.mem_cons_self) with
      ⟨t', ht', hout⟩ | ⟨hnone, hout⟩
    · refine ⟨⟨by rw [hout]; trivial, hgood⟩, ?_⟩
      rw [hout]
      by_cases ht : t' = t
      · subst ht
        simp only [if_true, decide_eq_true ht', List.map_cons, hstored]
      · have hfam : ¬ OfFamily g t p.2 := fun h => ht (ht'.unique h)
        simp only [if_neg ht, decide_eq_false hfam, hstored, Bool.false_eq_true, if_false]
    · refine ⟨⟨by rw [hout]; trivial, hgood⟩, ?_⟩
      rw [hout]
      simp only [decide_eq_false (hnone t), hstored, Bool.false_eq_true, if_false]

theorem Lists.id_lt {M : Machine} {z : Zone} {body : Bytes} {L : List (Nat × DnsRecord)}
    (h : Lists M g z body L) (hz : ∀ id e, z id = some e → id < 2 ^ 32) :
    ∀ p ∈ L, p.1 < 2 ^ 32 :=
  fun p hp => hz p.1 p.2 ((h.mem_iff p.1 p.2).mp hp).1

/-- **The record listing**: it returns, leaves the zone alone, and the vectors
grow by the listed records of their family if it succeeds. -/
theorem listFilter_spec (hservice : DnsService E g R zone) (s : Session σ) :
    let req := signedRequest E (bytes "DescribeRecordFilterList") (recordListFilterPayload g) s
    let reply := (E.perform req s.world.net).1
    let r := dnspodRecordListFilter E g s
    zone r.2.world.net = zone s.world.net ∧
      ((reply.ok = false ∧ r.1 = .ok false ∧ ∀ t, r.2.dnspod.record t = s.dnspod.record t) ∨
        reply.ok = true ∧ r.1 = .ok true ∧
          ∃ L, Lists E.machine g (zone s.world.net) reply.body L ∧
            ∀ t, r.2.dnspod.record t = s.dnspod.record t ++ (family g t L).map (cached t)) := by
  intro req reply r
  have his : req.Is (bytes "DescribeRecordFilterList") (recordListFilterPayload g) :=
    signedRequest_is E (by decide) _ s
  have hsends : Sends E s.world r.2.world [req] := sends_decodeInto (sends_signedPost E _ _ s)
  have hzone : zone r.2.world.net = zone s.world.net := by
    refine hsends.zone_of_not_mutates hservice fun q hq => ?_
    rw [List.mem_singleton.mp hq]
    exact his.not_mutates (by decide) (by decide)
  have hsame : ∀ t, (postRecordListFilter E g s).2.dnspod.record t = s.dnspod.record t :=
    (sameState_signedPost E _ _ s).record
  have hrun : r = decodeInto (tencentcloudDecodeRecordListFilter E.machine g)
      (reply.body, (postRecordListFilter E g s).2) := rfl
  refine ⟨hzone, ?_⟩
  cases hok : reply.ok with
  | false =>
    have hbody : reply.body = [] :=
      (hservice.rejects req s.world.net hok).2 (by rw [his.action]; exact Option.some_ne_none _)
    refine .inl ⟨rfl, ?_⟩
    rw [hrun, hbody, decodeInto, tencentcloudDecodeRecordListFilter, decodeResponse_nil]
    exact ⟨rfl, hsame⟩
  | true =>
    obtain ⟨L, hL⟩ := hservice.lists req s.world.net his.action hok
    obtain ⟨items, hitems, hdescribes⟩ := hL.items
    have hids := hL.id_lt (hservice.ids s.world.net)
    have hgood := (stored_of_describes E.machine g hdescribes hids .classIpv4).1
    have hdecode := decode_of_good hitems hgood (postRecordListFilter E g s).2.dnspod
    refine .inr ⟨rfl, ?_⟩
    rw [hrun, decodeInto, hdecode]
    refine ⟨rfl, L, hL, fun t => ?_⟩
    show Dnspod.record (Dnspod.addAll _ _ _ _) t = _
    rw [record_addAll, hsame, (stored_of_describes E.machine g hdescribes hids t).2]

theorem domainListItem_of_domainItem {x : CJson} (h : DomainItem x) (temp : CStr) (d : Dnspod) :
    ∃ d', domainListItem temp x d = .ok (true, d') := by
  obtain ⟨s, hname⟩ := h.name
  obtain ⟨i, k, hid⟩ := h.domainId
  obtain ⟨grade, hgrade⟩ := h.grade
  unfold domainListItem
  simp only [hname, hid, hgrade, CJson.valuestring]
  split
  · exact ⟨_, rfl⟩
  · exact ⟨_, rfl⟩

theorem visit_of_domainItems {items : List CJson} (hitems : ∀ x ∈ items, DomainItem x)
    (temp : CStr) (d : Dnspod) : ∃ d', visit (domainListItem temp) items d = .ok (true, d') := by
  induction items generalizing d with
  | nil => exact ⟨d, rfl⟩
  | cons x items ih =>
    obtain ⟨hx, hrest⟩ := List.forall_mem_cons.mp hitems
    obtain ⟨d', hd'⟩ := domainListItem_of_domainItem hx temp d
    rw [visit, hd']
    exact ih hrest d'

/-- The domain listing returns and leaves the zone alone. -/
theorem domainList_spec (hservice : DnsService E g R zone) (s : Session σ) :
    (∃ b, (dnspodDomainList E g s).1 = .ok b) ∧
      zone (dnspodDomainList E g s).2.world.net = zone s.world.net := by
  have his : (signedRequest E (bytes "DescribeDomainList") (bytes "\x7b\x7d") s).Is
      (bytes "DescribeDomainList") (bytes "\x7b\x7d") := signedRequest_is E (by decide) _ s
  generalize hreq : signedRequest E (bytes "DescribeDomainList") (bytes "\x7b\x7d") s = req at his
  constructor
  · -- a request that failed has an empty body
    have hdecode : ∃ b d', tencentcloudDecodeDomainList E.machine g
        (E.perform req s.world.net).1.body
        (signedPost E (bytes "DescribeDomainList") (bytes "\x7b\x7d") s).2.dnspod =
          .ok (b, d') := by
      cases hok : (E.perform req s.world.net).1.ok with
      | false =>
        have hbody := (hservice.rejects req s.world.net hok).2
          (by rw [his.action]; exact Option.some_ne_none _)
        rw [hbody]
        exact ⟨false, _, decodeResponse_nil _ _ _ _⟩
      | true =>
        obtain ⟨items, hlist, hitems⟩ := hservice.domains req s.world.net his.action hok
        rw [tencentcloudDecodeDomainList, decodeResponse_eq, hlist]
        obtain ⟨d', hd'⟩ := visit_of_domainItems hitems (cStr g.domainName)
          (signedPost E (bytes "DescribeDomainList") (bytes "\x7b\x7d") s).2.dnspod
        exact ⟨true, d', hd'⟩
    obtain ⟨b, d', hd'⟩ := hdecode
    refine ⟨b, ?_⟩
    rw [dnspodDomainList, decodeInto, signedPost_eq]
    simp only [hreq]
    rw [signedPost_eq] at hd'
    rw [hd']
  · have hsends : Sends E s.world (dnspodDomainList E g s).2.world [req] := by
      rw [← hreq]
      exact sends_decodeInto (sends_signedPost E _ _ s)
    refine hsends.zone_of_not_mutates hservice fun q hq => ?_
    rw [List.mem_singleton.mp hq]
    exact his.not_mutates (by decide) (by decide)

end Service

/-! ## A service with two records

A small service over which the assumptions above hold, for runs on concrete
inputs. -/

/-- Record 7 is gone, as it was at first, or updated. -/
inductive Slot where
  | gone
  | old
  | new
deriving DecidableEq

/-- A zone of at most two records, 7 and 8. -/
structure SampleZone where
  seven : Slot
  eight : Bool
deriving DecidableEq

namespace SampleZone

def record7 (s : SampleZone) : Option DnsRecord :=
  match s.seven with
  | .gone => none
  | .old => some ⟨key "@", key "A", key "192.0.2.1"⟩
  | .new => some ⟨key "@", key "A", key "8.8.8.8"⟩

def record8 (s : SampleZone) : Option DnsRecord :=
  if s.eight then some ⟨key "@", key "A", key "192.0.2.2"⟩ else none

def zone (s : SampleZone) : Zone := fun id =>
  if id = 7 then s.record7 else if id = 8 then s.record8 else none

def records (s : SampleZone) : List (Nat × DnsRecord) :=
  s.record7.toList.map (Prod.mk 7) ++ s.record8.toList.map (Prod.mk 8)

/-- The JSON text of a listed record. -/
def item (p : Nat × DnsRecord) : Bytes :=
  bytes "\x7b\"Name\":\"" ++ p.2.name.toBytes ++ bytes "\",\"Type\":\"" ++ p.2.type.toBytes ++
    bytes "\",\"Value\":\"" ++ p.2.value.toBytes ++ bytes "\",\"RecordId\":" ++ toDecimal p.1 ++
    bytes "\x7d"

def body (s : SampleZone) : Bytes :=
  bytes "\x7b\"Response\":\x7b\"RecordList\":[" ++
    List.intercalate (bytes ",") (s.records.map item) ++ bytes "]\x7d\x7d"

/-- The zone without the record of this id. -/
def delete (s : SampleZone) (id : Option Nat) : SampleZone where
  seven := if id = some 7 then .gone else s.seven
  eight := s.eight && id ≠ some 8

/-- The zone with record 7 set to the new address. -/
def update (s : SampleZone) : SampleZone :=
  { s with seven := if s.seven = .gone then .gone else .new }

/-- A service that deletes both records and sets record 7 to one address. -/
def perform (r : Request) (s : SampleZone) : Transfer × SampleZone :=
  if r.action = some (bytes "DeleteRecord") then
    (⟨true, bytes "\x7b\x7d"⟩, s.delete (r.postFields.bind jsonReader.deleteId))
  else if r.action = some (bytes "ModifyRecord") then
    if r.postFields.bind jsonReader.modifyArgs = some ⟨7, key "A", key "8.8.8.8"⟩ then
      (⟨true, bytes "\x7b\x7d"⟩, s.update)
    else (⟨false, []⟩, s)
  else if r.action = some (bytes "DescribeRecordFilterList") then (⟨true, s.body⟩, s)
  else if r.action = some (bytes "DescribeDomainList") then
    (⟨true, bytes "\x7b\"Response\":\x7b\"DomainList\":[]\x7d\x7d"⟩, s)
  else (⟨true, bytes "8.8.8.8\n"⟩, s)

theorem mem_records_iff (s : SampleZone) (id : Nat) (e : DnsRecord) :
    (id, e) ∈ s.records ↔ s.zone id = some e := by
  unfold zone records
  simp only [List.mem_append, List.mem_map, Option.mem_toList, Prod.mk.injEq]
  constructor
  · rintro (⟨e', he', rfl, rfl⟩ | ⟨e', he', rfl, rfl⟩)
    · exact (if_pos rfl).trans he'
    · exact he'
  · intro h
    split at h
    · next h7 => exact .inl ⟨e, h, h7.symm, rfl⟩
    · split at h
      · next h8 => exact .inr ⟨e, h, h8.symm, rfl⟩
      · cases h

/-- The decoder's view of the listing, for each of the few states. -/
theorem replyList_body_describes (s : SampleZone) :
    (match replyList (Env.fixed perform).machine "RecordList" s.body with
      | .ok (some items) =>
        decide (List.Forall₂ (fun x p => Describes x p.1 p.2) items s.records)
      | _ => false) = true := by
  obtain ⟨a, b⟩ := s
  cases a <;> cases b <;> decide +kernel

theorem replyList_body (s : SampleZone) :
    ∃ items, replyList (Env.fixed perform).machine "RecordList" s.body = .ok (some items) ∧
      List.Forall₂ (fun x p => Describes x p.1 p.2) items s.records := by
  have h := replyList_body_describes s
  split at h
  · next items heq => exact ⟨items, heq, by simpa using h⟩
  · cases h

theorem zone_delete (s : SampleZone) (n : Nat) :
    (s.delete (some n)).zone = (Change.erase n).apply s.zone := by
  funext id
  by_cases hid : id = n
  · subst hid
    refine Eq.trans ?_ (Change.apply_key s.zone (.erase id)).symm
    have herase : ((s.zone id).bind fun _ => none : Option DnsRecord) = none := by
      cases s.zone id <;> rfl
    refine Eq.trans ?_ herase.symm
    unfold zone
    split
    · next h7 => rw [h7]; rfl
    · split
      · next h8 => rw [h8]; simp [record8, delete]
      · rfl
  · rw [Change.apply_of_ne _ (Ne.symm hid)]
    unfold zone
    split
    · next h7 =>
      have hne : ¬ (some n : Option Nat) = some 7 :=
        fun h => hid (h7.trans (Option.some.inj h).symm)
      simp only [record7, delete, if_neg hne]
    · split
      · next h8 =>
        have hne : (some n : Option Nat) ≠ some 8 :=
          fun h => hid (h8.trans (Option.some.inj h).symm)
        simp [record8, delete, hne]
      · rfl

theorem zone_update (s : SampleZone) :
    s.update.zone =
      (Change.edit 7 fun e => e.modified (key "A") (key "8.8.8.8")).apply s.zone := by
  funext id
  by_cases hid : id = 7
  · subst hid
    refine Eq.trans ?_ (Change.apply_key s.zone _).symm
    obtain ⟨a, b⟩ := s
    cases a <;> rfl
  · rw [Change.apply_of_ne _ (Ne.symm hid)]
    unfold zone
    rw [if_neg hid, if_neg hid]
    rfl

theorem dnsService {g : Config} (hsub : g.domainSubname = []) :
    DnsService (Env.fixed perform) g jsonReader zone where
  ids s id e h := by
    unfold zone at h
    split at h
    · omega
    · split at h
      · omega
      · cases h
  rejects r s h := by
    have hperform : (Env.fixed perform).perform r s = perform r s := rfl
    rw [hperform] at h ⊢
    unfold perform at h ⊢
    split_ifs at h ⊢
    exact ⟨rfl, fun _ => rfl⟩
  accepts r s h := by
    have hperform : (Env.fixed perform).perform r s = perform r s := rfl
    rw [hperform] at h ⊢
    unfold perform at h ⊢
    split_ifs at h ⊢ with hdelete hmodify hargs
    · rw [change_eq_delete hdelete]
      cases r.postFields.bind jsonReader.deleteId with
      | none => simp [delete]
      | some n => exact zone_delete s n
    · rw [change_eq_modify hmodify, hargs]
      exact zone_update s
    all_goals
      rw [change_of_not_mutates fun hmut => hmut.elim hdelete hmodify]
      rfl
  lists r s haction _ := by
    have hdelete : ¬ r.action = some (bytes "DeleteRecord") := by rw [haction]; decide
    have hmodify : ¬ r.action = some (bytes "ModifyRecord") := by rw [haction]; decide
    have hperform : (Env.fixed perform).perform r s = (⟨true, s.body⟩, s) :=
      (if_neg hdelete).trans ((if_neg hmodify).trans (if_pos haction))
    rw [hperform]
    refine ⟨s.records, ?_, fun id e => ?_, replyList_body s⟩
    · obtain ⟨a, b⟩ := s
      cases a <;> cases b <;> decide
    · rw [mem_records_iff]
      exact ⟨fun h => ⟨h, .inl hsub⟩, And.left⟩
  domains r s haction _ := by
    have hdelete : ¬ r.action = some (bytes "DeleteRecord") := by rw [haction]; decide
    have hmodify : ¬ r.action = some (bytes "ModifyRecord") := by rw [haction]; decide
    have hlist : ¬ r.action = some (bytes "DescribeRecordFilterList") := by rw [haction]; decide
    have hperform : (Env.fixed perform).perform r s =
        (⟨true, bytes "\x7b\"Response\":\x7b\"DomainList\":[]\x7d\x7d"⟩, s) :=
      (if_neg hdelete).trans ((if_neg hmodify).trans ((if_neg hlist).trans (if_pos haction)))
    rw [hperform]
    exact ⟨[], rfl, fun x hx => absurd hx List.not_mem_nil⟩

/-- Listings and deletions always succeed there. -/
theorem perform_ok (r : Request) (s : SampleZone)
    (h : r.action = some (bytes "DescribeRecordFilterList") ∨
      r.action = some (bytes "DeleteRecord")) :
    ((Env.fixed perform).perform r s).1.ok = true := by
  show (perform r s).1.ok = true
  unfold perform
  rcases h with h | h
  · have hdelete : ¬ r.action = some (bytes "DeleteRecord") := by rw [h]; decide
    have hmodify : ¬ r.action = some (bytes "ModifyRecord") := by rw [h]; decide
    rw [if_neg hdelete, if_neg hmodify, if_pos h]
  · rw [if_pos h]

end SampleZone

end DdnsCloudTencent
