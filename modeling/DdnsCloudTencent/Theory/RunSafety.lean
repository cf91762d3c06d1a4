import DdnsCloudTencent.Theory.MainRun
import DdnsCloudTencent.Theory.Payloads

/-!
# What a run may change at the server

Two safety properties of `main` against any server.

- `failed_listing_harmless`: a listing that fails leaves the vectors alone exactly
  if its reply is not torn, and then the run sends no change;
- `modify_families`: every modification pairs an address of the host and an item
  of the listing of the same family.
-/

namespace DdnsCloudTencent

open Cxx

variable {σ : Type}

/-- A request that changes records. -/
def Request.Mutates (r : Request) : Prop :=
  r.action = some (bytes "DeleteRecord") ∨ r.action = some (bytes "ModifyRecord")

theorem Request.Is.not_mutates {r : Request} {action payload : Bytes} (h : r.Is action payload)
    (hdelete : action ≠ bytes "DeleteRecord") (hmodify : action ≠ bytes "ModifyRecord") :
    ¬ r.Mutates := by
  rintro (hr | hr)
  · exact hdelete (Option.some.inj (h.action.symm.trans hr))
  · exact hmodify (Option.some.inj (h.action.symm.trans hr))

theorem ipChecks_not_mutates {g : Config} : ∀ r ∈ ipChecks g, ¬ r.Mutates := by
  intro r hr hmut
  have hnone : r.action = none := by
    rcases List.mem_cons.mp hr with rfl | hr
    · rfl
    · rw [List.mem_singleton.mp hr]
      rfl
  rcases hmut with h | h
  · rw [hnone] at h
    cases h
  · rw [hnone] at h
    cases h

/-- The one request of a modification. -/
theorem Modifies.mem {g : Config} {records : List RecordListT} {ip : Option Bytes}
    {reqs : List Request} (h : Modifies g records ip reqs) {r : Request} (hr : r ∈ reqs) :
    ∃ text record0, ip = some text ∧ record0 ∈ records ∧
      r.Is (bytes "ModifyRecord") (recordModifyPayload g record0 text) := by
  unfold Modifies at h
  split at h
  · next text record0 rest =>
    obtain ⟨req, rfl, hreq⟩ := h
    rw [List.mem_singleton.mp hr]
    exact ⟨text, record0, rfl, List.mem_cons_self, hreq⟩
  · rw [h] at hr
    exact absurd hr List.not_mem_nil

section Run

variable (E : Env σ) (config : Bytes) (ifs : List Ifaddrs) (w : World σ)

/-- The IP checks and the listings change nothing. -/
theorem listing_not_mutates {dom list : Request} {g : Config} {p q : Bytes}
    (hdom : dom.Is (bytes "DescribeDomainList") p)
    (hlist : list.Is (bytes "DescribeRecordFilterList") q) :
    ∀ r ∈ ipChecks g ++ [dom] ++ [list], ¬ r.Mutates := by
  intro r hr
  rcases List.mem_append.mp hr with hr | hr
  · rcases List.mem_append.mp hr with hr | hr
    · exact ipChecks_not_mutates r hr
    · rw [List.mem_singleton.mp hr]
      exact hdom.not_mutates (by decide) (by decide)
  · rw [List.mem_singleton.mp hr]
    exact hlist.not_mutates (by decide) (by decide)

/-- Without records in the vectors a run changes nothing. -/
theorem mainSent_not_mutates
    (hempty : ∀ t, (afterListing E config ifs w).2.dnspod.record t = []) :
    ∀ r ∈ mainSent E config ifs w, ¬ r.Mutates := by
  obtain ⟨dom, list, hdom, hlist, hlisting⟩ := sends_afterListing E config ifs w
  intro r hr
  unfold mainSent at hr
  rcases hmain : (main E config ifs w).1 with f | u
  · -- the run ended at one of the two listings
    rcases main_cases E config ifs w with ⟨f', hf⟩ | ⟨f', hf⟩ | ⟨b, -, hok⟩
    · obtain ⟨dom', hdom', hsends⟩ := sends_afterDomainList E config ifs w
      have hsent : (main E config ifs w).2.session.world.sent =
          w.sent ++ (ipChecks (mainConfig config) ++ [dom']) := by
        rw [hf]
        exact hsends.sent
      rw [hsent, List.drop_left] at hr
      exact listing_not_mutates hdom' hlist r (List.mem_append_left _ hr)
    · have hsent : (main E config ifs w).2.session.world.sent =
          w.sent ++ (ipChecks (mainConfig config) ++ [dom] ++ [list]) := by
        rw [hf]
        exact hlisting.sent
      rw [hsent, List.drop_left] at hr
      exact listing_not_mutates hdom hlist r hr
    · rw [hok] at hmain
      cases hmain
  · obtain ⟨dom', list', dels, mods4, mods6, hdom', hlist', hdels, hmods4, hmods6, -, hsends⟩ :=
      sends_main E config ifs w hmain
    rw [hsends.sent, List.drop_left] at hr
    have hnone : ∀ t, ∀ record0, record0 ∉ (afterListing E config ifs w).2.dnspod.record t := by
      intro t record0 hmem
      rw [hempty t] at hmem
      exact absurd hmem List.not_mem_nil
    -- every other request is for an entry of a vector
    rcases List.mem_append.mp hr with hr | hr
    · exact listing_not_mutates hdom' hlist' r hr
    · rcases List.mem_append.mp hr with hr | hr
      · rcases List.mem_append.mp hr with hr | hr
        · obtain ⟨rec0, hrec0, -⟩ := exists_of_mem_forall₂ hdels hr
          obtain ⟨t, ht⟩ := mem_surplus.mp hrec0
          exact absurd (List.mem_of_mem_tail ht) (hnone t rec0)
        · obtain ⟨text, record0, -, hmem, -⟩ := hmods4.mem hr
          exact absurd hmem (hnone .classIpv4 record0)
      · obtain ⟨text, record0, -, hmem, -⟩ := hmods6.mem hr
        exact absurd hmem (hnone .classIpv6 record0)

end Run

/-- **When a failed listing is harmless.** A decoder call that returns `false`
leaves the vectors as they were exactly if the reply is not torn, and a run of
`main` in which the listing fails so sends no change. -/
theorem failed_listing_harmless :
    (∀ (M : Machine) (g : Config) (src : Bytes) (d : Dnspod),
      (∀ d', tencentcloudDecodeRecordListFilter M g src d = .ok (false, d') →
        d'.recordIpv4 = d.recordIpv4 ∧ d'.recordIpv6 = d.recordIpv6) ↔ ¬ Torn M g src) ∧
    ∀ (E : Env σ) (config : Bytes) (ifs : List Ifaddrs) (w : World σ),
      (afterListing E config ifs w).1 = .ok false →
      ¬ Torn E.machine (mainConfig config) (listingReply E config ifs w) →
      ∀ r ∈ mainSent E config ifs w, r.action ≠ some (bytes "DeleteRecord") ∧
        r.action ≠ some (bytes "ModifyRecord") := by
  constructor
  · intro M g src d
    rw [← decode_false_unchanged_iff M g src d]
    constructor
    · intro h d' hd' t
      cases t with
      | classIpv4 => exact (h d' hd').1
      | classIpv6 => exact (h d' hd').2
    · exact fun h d' hd' => ⟨h d' hd' .classIpv4, h d' hd' .classIpv6⟩
  · intro E config ifs w hfalse htorn r hr
    have hempty : ∀ t, (afterListing E config ifs w).2.dnspod.record t = [] := by
      intro t
      have hsame := (decode_false_unchanged_iff _ _ _ _).mpr htorn _
        (afterListing_eq_ok E config ifs w hfalse) t
      rw [hsame]
      exact ((sameState_signedPost E _ _ _).record t).trans
        (record_afterDomainList E config ifs w t)
    have hmut := mainSent_not_mutates E config ifs w hempty r hr
    exact ⟨fun h => hmut (.inl h), fun h => hmut (.inr h)⟩

/-- A reply with two `A` records and an item without a name behind them. -/
def tornReply : Bytes :=
  bytes "\x7b\"Response\":\x7b\"RecordList\":[" ++
    bytes "\x7b\"Name\":\"@\",\"Type\":\"A\",\"Value\":\"192.0.2.1\",\"RecordId\":7\x7d," ++
    bytes "\x7b\"Name\":\"@\",\"Type\":\"A\",\"Value\":\"192.0.2.2\",\"RecordId\":8\x7d," ++
    bytes "\x7b\x7d]\x7d\x7d"

/-- The listing fails on it, both records stay in the vector, and the run deletes
the second one. -/
theorem tornReply_deletes :
    let E := replyEnv tornReply
    let config := bytes "domain_name=example.com\n"
    let w : World Unit := ⟨(), [], 0⟩
    (afterListing E config [] w).1 = .ok false ∧
      (afterDomainList E config [] w).dnspod.recordIpv4 = [] ∧
      (afterListing E config [] w).2.dnspod.recordIpv4.map (·.id) = [7, 8] ∧
      ∃ r ∈ mainSent E config [] w, r.action = some (bytes "DeleteRecord") := by
  decide +kernel

/-- A network that answers the IP checks with `ip` and the API with `body`. -/
def twoReplies (ip body : Bytes) : Env Unit :=
  Env.fixed fun r _ => (⟨true, if r.action = none then ip else body⟩, ())

/-- A reply whose third item has no type, with items of no interest before it and an
`A` record behind it. -/
def skippedReply : Bytes :=
  bytes "\x7b\"Response\":\x7b\"RecordList\":[" ++
    bytes "\x7b\"Name\":\"www\",\"Type\":\"A\",\"Value\":\"192.0.2.1\",\"RecordId\":6\x7d," ++
    bytes "\x7b\"Name\":\"@\",\"Type\":\"TXT\"\x7d,\x7b\"Name\":\"@\"\x7d," ++
    bytes "\x7b\"Name\":\"@\",\"Type\":\"A\",\"Value\":\"192.0.2.2\",\"RecordId\":7\x7d]\x7d\x7d"

/-- On a host with a confirmed address the listing fails on it, and nothing is changed. -/
theorem skipped_listing_harmless :
    let E := twoReplies (bytes "8.8.8.8\n") skippedReply
    let config := bytes "domain_name=example.com\n"
    let ifs : List Ifaddrs := [⟨some (.inet 0x08080808)⟩]
    let w : World Unit := ⟨(), [], 0⟩
    confirmed E config ifs w .classIpv4 = some (bytes "8.8.8.8") ∧
      (∀ d' : Dnspod, tencentcloudDecodeRecordListFilter E.machine (mainConfig config) skippedReply
        (Dnspod.new config) = .ok (false, d') → d'.recordIpv4 = [] ∧ d'.recordIpv6 = []) ∧
      ∀ r ∈ mainSent E config ifs w, r.action ≠ some (bytes "DeleteRecord") ∧
        r.action ≠ some (bytes "ModifyRecord") := by
  intro E config ifs w
  have hvectors : (tencentcloudDecodeRecordListFilter E.machine (mainConfig config) skippedReply
      (Dnspod.new config)).map (fun r => (r.1, r.2.recordIpv4, r.2.recordIpv6)) =
        .ok (false, [], []) := by
    decide +kernel
  have hkept : ∀ d' : Dnspod, tencentcloudDecodeRecordListFilter E.machine (mainConfig config)
      skippedReply (Dnspod.new config) = .ok (false, d') →
        d'.recordIpv4 = [] ∧ d'.recordIpv6 = [] := by
    intro d' hd'
    rw [hd'] at hvectors
    have hpair := Except.ok.inj hvectors
    exact ⟨congrArg (fun p => p.2.1) hpair, congrArg (fun p => p.2.2) hpair⟩
  obtain ⟨hdecode, hlisting⟩ := @failed_listing_harmless Unit
  have htorn : ¬ Torn E.machine (mainConfig config) skippedReply :=
    (hdecode E.machine (mainConfig config) skippedReply (Dnspod.new config)).mp hkept
  have hfalse : (afterListing E config ifs w).1 = .ok false := by decide +kernel
  exact ⟨by decide +kernel, hkept, hlisting E config ifs w hfalse htorn⟩

/-! ## Families -/

/-- A run of decoder calls, each over a reply of its own. -/
def decodeAll (M : Machine) (g : Config) : List Bytes → Dnspod → Except Fault Dnspod
  | [], d => .ok d
  | src :: srcs, d =>
    match tencentcloudDecodeRecordListFilter M g src d with
    | .error f => .error f
    | .ok (_, d) => decodeAll M g srcs d

/-- Over any run of calls that return, the vectors hold entries for items of the
replies only, each under its own family. -/
theorem Dnspod.Sourced.decodeAll {M : Machine} {g : Config} {srcs : List Bytes}
    {items : List CJson} {d d' : Dnspod} (h : d.Sourced M g items)
    (hrun : decodeAll M g srcs d = .ok d') :
    d'.Sourced M g (items ++ srcs.flatMap fun src => replyItems M "RecordList" src) := by
  induction srcs generalizing d items with
  | nil =>
    cases hrun
    simpa using h
  | cons src srcs ih =>
    unfold DdnsCloudTencent.decodeAll at hrun
    cases hdecode : tencentcloudDecodeRecordListFilter M g src d with
    | error f =>
      rw [hdecode] at hrun
      cases hrun
    | ok r =>
      obtain ⟨b, d₁⟩ := r
      rw [hdecode] at hrun
      have hrest := ih (h.decode hdecode) hrun
      rwa [List.append_assoc, ← List.flatMap_cons] at hrest

theorem sourced_of_empty {M : Machine} {g : Config} {d : Dnspod} (h : ∀ t, d.record t = []) :
    d.Sourced M g [] := by
  intro t r hr
  rw [h t] at hr
  exact absurd hr List.not_mem_nil

section Run

variable (E : Env σ) (config : Bytes) (ifs : List Ifaddrs) (w : World σ)

/-- The vectors of a run hold entries for items of its listing only. -/
theorem sourced_afterListing {b : Bool} (h : (afterListing E config ifs w).1 = .ok b) :
    (afterListing E config ifs w).2.dnspod.Sourced E.machine (mainConfig config)
      (replyItems E.machine "RecordList" (listingReply E config ifs w)) := by
  have hempty : ∀ t, (postRecordListFilter E (mainConfig config)
      (afterDomainList E config ifs w)).2.dnspod.record t = [] := fun t =>
    ((sameState_signedPost E _ _ _).record t).trans (record_afterDomainList E config ifs w t)
  exact (sourced_of_empty hempty).decode (afterListing_eq_ok E config ifs w h)

/-- A modification of a run, by the vector and the address it was made from. -/
theorem modification_origin (hrun : (main E config ifs w).1 = .ok ()) {r : Request}
    (hr : r ∈ mainSent E config ifs w) (hmod : r.action = some (bytes "ModifyRecord")) :
    ∃ t text record0, confirmed E config ifs w t = some text ∧
      record0 ∈ (afterListing E config ifs w).2.dnspod.record t ∧
      r.Is (bytes "ModifyRecord") (recordModifyPayload (mainConfig config) record0 text) := by
  obtain ⟨dom, list, dels, mods4, mods6, hdom, hlist, hdels, hmods4, hmods6, -, hsends⟩ :=
    sends_main E config ifs w hrun
  unfold mainSent at hr
  rw [hsends.sent, List.drop_left] at hr
  rcases List.mem_append.mp hr with hr | hr
  · exact absurd (.inr hmod) (listing_not_mutates hdom hlist r hr)
  · rcases List.mem_append.mp hr with hr | hr
    · rcases List.mem_append.mp hr with hr | hr
      · -- a deletion is no modification
        obtain ⟨rec0, -, hdel⟩ := exists_of_mem_forall₂ hdels hr
        have heq := hdel.action.symm.trans hmod
        exact absurd (Option.some.inj heq) (by decide)
      · obtain ⟨text, record0, htext, hmem, his⟩ := hmods4.mem hr
        exact ⟨.classIpv4, text, record0, htext, hmem, his⟩
    · obtain ⟨text, record0, htext, hmem, his⟩ := hmods6.mem hr
      exact ⟨.classIpv6, text, record0, htext, hmem, his⟩

end Run

/-- **Address families never cross.** In a run that ends, every modification is
for one family: its value is the text of an address of that family on the host,
and its id and type are those of one item of the listing with the configured
name and that family's type. The vectors keep this over any run of decoder
calls from the empty ones. -/
theorem modify_families (E : Env σ) (config : Bytes) (hconfig : 0 ∉ config)
    (ifs : List Ifaddrs) (w : World σ) (hrun : (main E config ifs w).1 = .ok ()) :
    (∀ r ∈ mainSent E config ifs w, r.action = some (bytes "ModifyRecord") →
      ∃ (t : Dnspod.IpType) (a : t.addrType.Addr) (record0 : RecordListT) (x : CJson),
        r.postFields.map CStr.toBytes = some (Json.write
          (modifyObject (mainConfig config) record0 (t.addrType.inetNtop a))) ∧
        record0.type = bytes t.typeText ∧ a ∈ addrs t.addrType ifs ∧
        x ∈ replyItems E.machine "RecordList" (listingReply E config ifs w) ∧
        RecordOf E.machine (recordTarget (mainConfig config)) t x record0) ∧
    ∀ (srcs : List Bytes) (d d' : Dnspod), (∀ t, d.record t = []) →
      decodeAll E.machine (mainConfig config) srcs d = .ok d' →
      ∀ t, ∀ record ∈ d'.record t, ∃ src ∈ srcs, ∃ x ∈ replyItems E.machine "RecordList" src,
        RecordOf E.machine (recordTarget (mainConfig config)) t x record := by
  constructor
  · intro r hr hmod
    obtain ⟨t, text, record0, htext, hmem, his⟩ := modification_origin E config ifs w hrun hr hmod
    obtain ⟨a, ha, rfl⟩ := confirmed_mem E config ifs w htext
    obtain ⟨b, hb⟩ : ∃ b, (afterListing E config ifs w).1 = .ok b := by
      rcases main_cases E config ifs w with ⟨f, hf⟩ | ⟨f, hf⟩ | ⟨b, hb, -⟩
      · rw [hf] at hrun; cases hrun
      · rw [hf] at hrun; cases hrun
      · exact ⟨b, hb⟩
    obtain ⟨x, hx, hrec⟩ := sourced_afterListing E config ifs w hb t record0 hmem
    refine ⟨t, a, record0, x, ?_, hrec.type, ha, hx, hrec⟩
    -- the payload reaches libcurl uncut
    have htype : 0 ∉ record0.type := by
      rw [hrec.type]
      cases t <;> decide
    have hip : 0 ∉ t.addrType.inetNtop a := fun h =>
      absurd (Ipaddress.IpType.mem_textChars h) (by decide)
    have hpayload : 0 ∉ recordModifyPayload (mainConfig config) record0 (t.addrType.inetNtop a) :=
      noNul_recordModifyPayload (noNul_fileConfigRead hconfig) htype hip
    rw [his.payload, Option.map_some, cStr_toBytes_of_noNul hpayload, recordModifyPayload_eq]
  · intro srcs d d' hempty hall t record hrecord
    obtain ⟨x, hx, hrec⟩ := (sourced_of_empty hempty).decodeAll hall t record hrecord
    rw [List.nil_append] at hx
    obtain ⟨src, hsrc, hx⟩ := List.mem_flatMap.mp hx
    exact ⟨src, hsrc, x, hx, hrec⟩

/-- A network that answers the first IP check with an IPv4 address, the second one with
an IPv6 address, and the API with `body`. -/
def familyReplies (body : Bytes) : Env Bool :=
  Env.fixed fun r later =>
    if r.action = none then
      (⟨true, if later then bytes "2001:db8::1\n" else bytes "8.8.8.8\n"⟩, true)
    else (⟨true, body⟩, later)

/-- A reply with a record of each family. -/
def familyReply : Bytes :=
  bytes "\x7b\"Response\":\x7b\"RecordList\":[" ++
    bytes "\x7b\"Name\":\"@\",\"Type\":\"AAAA\",\"Value\":\"::\",\"RecordId\":9\x7d," ++
    bytes "\x7b\"Name\":\"@\",\"Type\":\"A\",\"Value\":\"192.0.2.1\",\"RecordId\":7\x7d]\x7d\x7d"

/-- A run that modifies both. -/
theorem modify_families_sample :
    let E := familyReplies familyReply
    let config := bytes "domain_name=example.com\n"
    let ifs : List Ifaddrs :=
      [⟨some (.inet6 0x20010DB8000000000000000000000001)⟩, ⟨some (.inet 0x08080808)⟩]
    let w : World Bool := ⟨false, [], 0⟩
    ((mainSent E config ifs w).filter (·.action = some (bytes "ModifyRecord"))).length = 2 ∧
      ∀ r ∈ mainSent E config ifs w, r.action = some (bytes "ModifyRecord") →
        ∃ (t : Dnspod.IpType) (a : t.addrType.Addr) (record0 : RecordListT) (x : CJson),
          r.postFields.map CStr.toBytes = some (Json.write
            (modifyObject (mainConfig config) record0 (t.addrType.inetNtop a))) ∧
          record0.type = bytes t.typeText ∧ a ∈ addrs t.addrType ifs ∧
          x ∈ replyItems E.machine "RecordList" (listingReply E config ifs w) ∧
          RecordOf E.machine (recordTarget (mainConfig config)) t x record0 := by
  intro E config ifs w
  have hrun : (main E config ifs w).1 = .ok () := by decide +kernel
  exact ⟨by decide +kernel, (modify_families E config (by decide) ifs w hrun).1⟩

end DdnsCloudTencent
